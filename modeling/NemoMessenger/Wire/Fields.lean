import NemoMessenger.Wire.Canonical

/-!
# Maps that lack some of their keys

A file that grew keys over time is read from writers that did not know all of them. What such a
writer leaves is the map without these keys; a value whose maps are in order still survives being
written and read, whatever is left out.
-/

namespace NemoMessenger.Wire.Cbor

/-! ## Values in order -/

mutual

/-- The keys of every map are in increasing order. -/
def Value.Ordered : Value → Prop
  | .array items => itemsOrdered items
  | .map pairs => (pairs.map Prod.fst).Pairwise (· < ·) ∧ pairsOrdered pairs
  | _ => True

def itemsOrdered : List Value → Prop
  | [] => True
  | item :: items => item.Ordered ∧ itemsOrdered items

def pairsOrdered : List (UInt64 × Value) → Prop
  | [] => True
  | (_, value) :: pairs => value.Ordered ∧ pairsOrdered pairs

end

theorem itemsOrdered_iff {items : List Value} :
    itemsOrdered items ↔ ∀ item ∈ items, item.Ordered := by
  induction items with
  | nil => simp [itemsOrdered]
  | cons item items ih => simp [itemsOrdered, ih]

theorem pairsOrdered_iff {pairs : List (UInt64 × Value)} :
    pairsOrdered pairs ↔ ∀ p ∈ pairs, p.2.Ordered := by
  induction pairs with
  | nil => simp [pairsOrdered]
  | cons p pairs ih => simp [pairsOrdered, ih]

mutual

/-- No part of a value is longer than what is written of the whole. -/
theorem wf_of_ordered : {value : Value} → value.Ordered → (encode value).length < 2 ^ 64 → value.Wf
  | .uint _, _, _ => by rw [Value.Wf]; trivial
  | .bytes b, _, h => by
    rw [encode, List.length_append] at h
    rw [Value.Wf]
    omega
  | .text s, _, h => by
    rw [encode, List.length_append, length_textBytes] at h
    rw [Value.Wf]
    omega
  | .array items, hordered, h => by
    rw [Value.Ordered] at hordered
    rw [encode, List.length_append] at h
    have hcount := length_le_encodeItems items
    rw [Value.Wf]
    refine ⟨by omega, itemsWf_of_ordered hordered fun item hitem ↦ ?_⟩
    have hitem := length_encode_le_of_mem_items hitem
    omega
  | .map pairs, hordered, h => by
    rw [Value.Ordered] at hordered
    rw [encode, List.length_append, writeSorted_encodePairs hordered.1] at h
    have hcount := length_le_flatMap_pairs pairs
    rw [Value.Wf]
    refine ⟨by omega, hordered.1, pairsWf_of_ordered hordered.2 fun p hp ↦ ?_⟩
    have hp := length_encode_le_of_mem_pairs hp
    omega

theorem itemsWf_of_ordered : {items : List Value} → itemsOrdered items →
    (∀ item ∈ items, (encode item).length < 2 ^ 64) → itemsWf items
  | [], _, _ => by rw [itemsWf]; trivial
  | item :: items, hordered, h => by
    rw [itemsOrdered] at hordered
    rw [itemsWf]
    exact ⟨wf_of_ordered hordered.1 (h item List.mem_cons_self),
      itemsWf_of_ordered hordered.2 fun item' h' ↦ h item' (List.mem_cons_of_mem _ h')⟩

theorem pairsWf_of_ordered : {pairs : List (UInt64 × Value)} → pairsOrdered pairs →
    (∀ p ∈ pairs, (encode p.2).length < 2 ^ 64) → pairsWf pairs
  | [], _, _ => by rw [pairsWf]; trivial
  | (key, value) :: pairs, hordered, h => by
    rw [pairsOrdered] at hordered
    rw [pairsWf]
    exact ⟨wf_of_ordered hordered.1 (h (key, value) List.mem_cons_self),
      pairsWf_of_ordered hordered.2 fun p hp ↦ h p (List.mem_cons_of_mem _ hp)⟩

end

/-- What is written of a value in order is read back. -/
theorem decode_encode_of_ordered {value : Value} (hordered : value.Ordered)
    (h : (encode value).length < 2 ^ 64) : decode (encode value) = .ok value :=
  decode_encode (wf_of_ordered hordered h)

/-! ## Keys that are left out -/

/-- Some of the keys that came later. -/
structure Lacking (later : List UInt64) where
  keys : List UInt64
  keys_subset : keys ⊆ later

namespace Lacking

variable {later : List UInt64}

/-- Every key is written. -/
def none : Lacking later := ⟨[], List.nil_subset later⟩

@[simp] theorem keys_none : (none : Lacking later).keys = [] := rfl

theorem notMem (lacking : Lacking later) {key : UInt64} (h : key ∉ later) : key ∉ lacking.keys :=
  fun hkey ↦ h (lacking.keys_subset hkey)

end Lacking

/-- A map without the keys its writer lacks. -/
def without {later : List UInt64} (lacking : Lacking later) (pairs : List (UInt64 × Value)) :
    List (UInt64 × Value) :=
  pairs.filter fun p ↦ p.1 ∉ lacking.keys

section

variable {later : List UInt64} {lacking : Lacking later} {pairs : List (UInt64 × Value)}

@[simp] theorem without_none : without (Lacking.none : Lacking later) pairs = pairs := by
  simp [without]

theorem mapGetOpt_without (key : UInt64) : mapGetOpt (without lacking pairs) key =
    if key ∈ lacking.keys then none else mapGetOpt pairs key := by
  induction pairs with
  | nil => simp [without, mapGetOpt]
  | cons p pairs ih =>
    rw [mapGetOpt, without] at ih ⊢
    by_cases hp : p.1 = key
    · by_cases hkey : key ∈ lacking.keys
      · rw [List.filter_cons_of_neg (by simpa [hp] using hkey), ih, if_pos hkey, if_pos hkey]
      · rw [List.filter_cons_of_pos (by simpa [hp] using hkey), if_neg hkey]
        simp [mapGetOpt, hp]
    · have hcons : mapGetOpt (p :: pairs) key = mapGetOpt pairs key := by
        simp [mapGetOpt, hp]
      rw [hcons, ← ih]
      by_cases hpkey : p.1 ∈ lacking.keys
      · rw [List.filter_cons_of_neg (by simpa using hpkey)]
      · rw [List.filter_cons_of_pos (by simpa using hpkey)]
        simp [hp]

/-- A key that was always there is still there. -/
theorem mapGetOpt_without_of_notMem {key : UInt64} (h : key ∉ later) :
    mapGetOpt (without lacking pairs) key = mapGetOpt pairs key := by
  rw [mapGetOpt_without, if_neg (lacking.notMem h)]

theorem ordered_without (h : Value.Ordered (.map pairs)) :
    Value.Ordered (.map (without lacking pairs)) := by
  rw [Value.Ordered, pairsOrdered_iff] at h ⊢
  constructor
  · exact h.1.sublist (List.filter_sublist.map Prod.fst)
  · exact fun p hp ↦ h.2 p (List.mem_of_mem_filter hp)

end

end NemoMessenger.Wire.Cbor
