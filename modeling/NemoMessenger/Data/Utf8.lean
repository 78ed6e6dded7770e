import Mathlib.Data.List.Basic
import Mathlib.Data.UInt

/-!
# Texts as bytes

The UTF-8 bytes of a list of characters. The bytes of a character are those of no other characters, and
a byte below 128 is a character of its own, so a text is cut at such a byte where its bytes are.
-/

namespace NemoMessenger.Data.Utf8

/-- The bytes of a text. -/
def encode (text : List Char) : List UInt8 := text.flatMap String.utf8EncodeChar

@[simp] theorem encode_cons (c : Char) (text : List Char) :
    encode (c :: text) = String.utf8EncodeChar c ++ encode text := List.flatMap_cons

/-- The character of a byte. -/
def charOf (b : UInt8) : Char := Char.ofNat b.toNat

theorem le_or_right (x y : UInt8) : y ≤ x ||| y := by
  rw [UInt8.le_iff_toNat_le, UInt8.toNat_or]
  exact Nat.right_le_or

/-- A byte below 128 is all there is of its character. -/
theorem encodeChar_of_mem {c : Char} {b : UInt8} (hmem : b ∈ String.utf8EncodeChar c) (hb : b < 0x80) :
    String.utf8EncodeChar c = [b] ∧ c = charOf b := by
  have hlarge (x y : UInt8) (hy : 0x80 ≤ y) : b ≠ x ||| y := by
    rintro rfl
    exact UInt8.not_le.mpr hb (UInt8.le_trans hy (le_or_right x y))
  rw [String.utf8EncodeChar_eq_utf8EncodeCharFast] at hmem ⊢
  unfold String.utf8EncodeCharFast at hmem ⊢
  dsimp only at hmem ⊢
  split_ifs at hmem ⊢ with h1 h2 h3
  · rw [List.mem_singleton] at hmem
    subst hmem
    refine ⟨rfl, ?_⟩
    have hsmall : c.val.toNat < 2 ^ 8 := by
      have hle : c.val.toNat ≤ 127 := UInt32.le_iff_toNat_le.mp h1
      omega
    rw [charOf, UInt32.toNat_toUInt8, Nat.mod_eq_of_lt hsmall]
    exact (Char.ofNat_toNat c).symm
  all_goals
    simp only [List.mem_cons, List.not_mem_nil, or_false] at hmem
    have hmany (x : UInt8) : b ≠ x ||| 0x80 := hlarge x 0x80 (UInt8.le_refl _)
    have hfirst (x : UInt8) : b ≠ x ||| 0xc0 ∧ b ≠ x ||| 0xe0 ∧ b ≠ x ||| 0xf0 :=
      ⟨hlarge x _ (by decide), hlarge x _ (by decide), hlarge x _ (by decide)⟩
  · exact absurd hmem (not_or.mpr ⟨(hfirst _).1, hmany _⟩)
  · exact absurd hmem (not_or.mpr ⟨(hfirst _).2.1, not_or.mpr ⟨hmany _, hmany _⟩⟩)
  · exact absurd hmem
      (not_or.mpr ⟨(hfirst _).2.2, not_or.mpr ⟨hmany _, not_or.mpr ⟨hmany _, hmany _⟩⟩⟩)

theorem encodeChar_charOf {b : UInt8} (hb : b < 0x80) : String.utf8EncodeChar (charOf b) = [b] := by
  have hall : ∀ n < 128, String.utf8EncodeChar (charOf (UInt8.ofNat n)) = [UInt8.ofNat n] := by decide
  have h := hall b.toNat (UInt8.lt_iff_toNat_lt.mp hb)
  rwa [UInt8.ofNat_toNat] at h

/-- Bytes below 128 are the text of their characters. -/
theorem encode_map_charOf {bytes : List UInt8} (h : ∀ b ∈ bytes, b < 0x80) :
    encode (bytes.map charOf) = bytes := by
  induction bytes with
  | nil => rfl
  | cons b bytes ih =>
    rw [List.map_cons, encode_cons, encodeChar_charOf (h b List.mem_cons_self),
      ih fun c hc ↦ h c (List.mem_cons_of_mem _ hc)]
    rfl

/-- A text is cut at a byte below 128 where its bytes are. -/
theorem cut_of_encode {text : List Char} {front back : List UInt8} {b : UInt8} (hb : b < 0x80)
    (h : encode text = front ++ b :: back) :
    ∃ before after, text = before ++ charOf b :: after ∧ encode before = front ∧ encode after = back := by
  induction text generalizing front with
  | nil => exact absurd h.symm (List.append_ne_nil_of_right_ne_nil _ (List.cons_ne_nil _ _))
  | cons c text ih =>
    rw [encode_cons] at h
    obtain ⟨rest, hfront, hrest⟩ | ⟨rest, hchar, hrest⟩ := List.append_eq_append_iff.mp h
    · obtain ⟨before, after, rfl, rfl, hafter⟩ := ih hrest
      exact ⟨c :: before, after, rfl, by rw [encode_cons, hfront], hafter⟩
    · cases rest with
      | nil =>
        obtain ⟨before, after, rfl, hbefore, hafter⟩ := @ih [] hrest.symm
        refine ⟨c :: before, after, rfl, ?_, hafter⟩
        rw [encode_cons, hbefore, hchar, List.append_nil, List.append_nil]
      | cons b' rest =>
        obtain ⟨rfl, rfl⟩ := List.cons.inj hrest
        obtain ⟨honly, rfl⟩ := encodeChar_of_mem (hchar ▸ List.mem_append_right _ List.mem_cons_self) hb
        rw [honly] at hchar
        have hlength : front.length + (rest.length + 1) = 1 := by
          rw [← List.length_cons, ← List.length_append, ← hchar]
          rfl
        obtain rfl := List.eq_nil_of_length_eq_zero (l := front) (by omega)
        obtain rfl := List.eq_nil_of_length_eq_zero (l := rest) (by omega)
        exact ⟨[], text, rfl, rfl, rfl⟩

end NemoMessenger.Data.Utf8
