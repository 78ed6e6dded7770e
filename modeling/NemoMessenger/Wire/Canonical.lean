import NemoMessenger.Wire.Cbor

/-!
# One encoding for each value

The encoder writes maps by increasing key and every head in its shortest form. A value whose maps
have distinct keys comes back with its maps sorted. The decoder checks the order of the keys and not
the form of the heads, so `decode` returns a value for byte strings `encode` never writes; those in
which every head is in its shortest form are exactly the others.
-/

namespace NemoMessenger.Wire.Cbor

/-! ## Maps in any order -/

mutual

/-- The pairs of every map sorted by key. -/
def Value.sorted : Value → Value
  | .uint n => .uint n
  | .bytes b => .bytes b
  | .text s => .text s
  | .array items => .array (sortedItems items)
  | .map pairs => .map ((sortedPairs pairs).insertionSort fun p q ↦ p.1 ≤ q.1)

def sortedItems : List Value → List Value
  | [] => []
  | item :: items => item.sorted :: sortedItems items

def sortedPairs : List (UInt64 × Value) → List (UInt64 × Value)
  | [] => []
  | (key, value) :: pairs => (key, value.sorted) :: sortedPairs pairs

end

mutual

/-- The keys of every map are pairwise distinct. -/
def Value.Distinct : Value → Prop
  | .array items => itemsDistinct items
  | .map pairs => (pairs.map Prod.fst).Nodup ∧ pairsDistinct pairs
  | _ => True

def itemsDistinct : List Value → Prop
  | [] => True
  | item :: items => item.Distinct ∧ itemsDistinct items

def pairsDistinct : List (UInt64 × Value) → Prop
  | [] => True
  | (_, value) :: pairs => value.Distinct ∧ pairsDistinct pairs

end

mutual

/-- Every length is a `usize`. -/
def Value.Sized : Value → Prop
  | .uint _ => True
  | .bytes b => b.length < 2 ^ 64
  | .text s => s.utf8ByteSize < 2 ^ 64
  | .array items => items.length < 2 ^ 64 ∧ itemsSized items
  | .map pairs => pairs.length < 2 ^ 64 ∧ pairsSized pairs

def itemsSized : List Value → Prop
  | [] => True
  | item :: items => item.Sized ∧ itemsSized items

def pairsSized : List (UInt64 × Value) → Prop
  | [] => True
  | (_, value) :: pairs => value.Sized ∧ pairsSized pairs

end

theorem length_sortedItems (items : List Value) : (sortedItems items).length = items.length := by
  induction items with
  | nil => rfl
  | cons item items ih => simp [sortedItems, ih]

theorem keys_sortedPairs (pairs : List (UInt64 × Value)) :
    (sortedPairs pairs).map Prod.fst = pairs.map Prod.fst := by
  induction pairs with
  | nil => rfl
  | cons p pairs ih => simp [sortedPairs, ih]

theorem pairwise_sortedByKey {α : Type} (pairs : List (UInt64 × α)) :
    (pairs.insertionSort fun p q ↦ p.1 ≤ q.1).Pairwise fun p q ↦ p.1 ≤ q.1 := by
  have : Std.Total fun p q : UInt64 × α ↦ p.1 ≤ q.1 := ⟨fun p q ↦ UInt64.le_total p.1 q.1⟩
  have : IsTrans (UInt64 × α) fun p q ↦ p.1 ≤ q.1 := ⟨fun _ _ _ ↦ UInt64.le_trans⟩
  exact List.pairwise_insertionSort _ pairs

/-- A map that is sorted before it is written is written no differently. -/
theorem writeSorted_insertionSort (pairs : List (UInt64 × Value)) :
    writeSorted (encodePairs (pairs.insertionSort fun p q ↦ p.1 ≤ q.1)) =
      writeSorted (encodePairs pairs) := by
  have hmap : encodePairs (pairs.insertionSort fun p q ↦ p.1 ≤ q.1) =
      (encodePairs pairs).insertionSort fun p q ↦ p.1 ≤ q.1 := by
    rw [encodePairs_eq_map, encodePairs_eq_map]
    exact List.map_insertionSort _ _ _ _ fun _ _ _ _ ↦ Iff.rfl
  rw [hmap, writeSorted, writeSorted, (pairwise_sortedByKey _).insertionSort_eq]

mutual

theorem encode_sorted : (value : Value) → encode value.sorted = encode value
  | .uint _ => by rw [Value.sorted]
  | .bytes _ => by rw [Value.sorted]
  | .text _ => by rw [Value.sorted]
  | .array items => by
    rw [Value.sorted, encode, encode, length_sortedItems, encodeItems_sorted]
  | .map pairs => by
    have hlength : (sortedPairs pairs).length = pairs.length := by
      simpa using congrArg List.length (keys_sortedPairs pairs)
    rw [Value.sorted, encode, encode, List.length_insertionSort, hlength,
      writeSorted_insertionSort, encodePairs_sorted]

theorem encodeItems_sorted : (items : List Value) →
    encodeItems (sortedItems items) = encodeItems items
  | [] => by rw [sortedItems]
  | item :: items => by
    rw [sortedItems, encodeItems, encodeItems, encode_sorted item, encodeItems_sorted items]

theorem encodePairs_sorted : (pairs : List (UInt64 × Value)) →
    encodePairs (sortedPairs pairs) = encodePairs pairs
  | [] => by rw [sortedPairs]
  | (key, value) :: pairs => by
    rw [sortedPairs, encodePairs, encodePairs, encode_sorted value, encodePairs_sorted pairs]

end

/-- Distinct keys in order are strictly increasing. -/
theorem keys_insertionSort_pairwise {pairs : List (UInt64 × Value)}
    (h : (pairs.map Prod.fst).Nodup) :
    ((pairs.insertionSort fun p q ↦ p.1 ≤ q.1).map Prod.fst).Pairwise (· < ·) := by
  have hnodup : ((pairs.insertionSort fun p q ↦ p.1 ≤ q.1).map Prod.fst).Nodup :=
    ((List.perm_insertionSort _ pairs).map Prod.fst).nodup_iff.mpr h
  have hle : ((pairs.insertionSort fun p q ↦ p.1 ≤ q.1).map Prod.fst).Pairwise (· ≤ ·) :=
    List.pairwise_map.mpr (pairwise_sortedByKey pairs)
  exact (hle.and hnodup).imp fun h ↦ UInt64.lt_of_le_of_ne h.1 h.2

mutual

theorem wf_sorted : {value : Value} → value.Distinct → value.Sized → value.sorted.Wf
  | .uint _, _, h => by rwa [Value.sorted, Value.Wf]
  | .bytes _, _, h => by rwa [Value.sorted, Value.Wf]
  | .text _, _, h => by rwa [Value.sorted, Value.Wf]
  | .array items, hdistinct, h => by
    rw [Value.Distinct] at hdistinct
    rw [Value.Sized] at h
    rw [Value.sorted, Value.Wf, length_sortedItems]
    exact ⟨h.1, wf_sortedItems hdistinct h.2⟩
  | .map pairs, hdistinct, h => by
    rw [Value.Distinct] at hdistinct
    rw [Value.Sized] at h
    have hlength : (sortedPairs pairs).length = pairs.length := by
      simpa using congrArg List.length (keys_sortedPairs pairs)
    rw [Value.sorted, Value.Wf, List.length_insertionSort, hlength]
    refine ⟨h.1, keys_insertionSort_pairwise (keys_sortedPairs pairs ▸ hdistinct.1), ?_⟩
    rw [pairsWf_iff]
    intro p hp
    exact pairsWf_iff.mp (wf_sortedPairs hdistinct.2 h.2) p
      ((List.mem_insertionSort _).mp hp)

theorem wf_sortedItems : {items : List Value} → itemsDistinct items → itemsSized items →
    itemsWf (sortedItems items)
  | [], _, _ => by rw [sortedItems, itemsWf]; trivial
  | item :: items, hdistinct, h => by
    rw [sortedItems, itemsWf]
    exact ⟨wf_sorted hdistinct.1 h.1, wf_sortedItems hdistinct.2 h.2⟩

theorem wf_sortedPairs : {pairs : List (UInt64 × Value)} → pairsDistinct pairs →
    pairsSized pairs → pairsWf (sortedPairs pairs)
  | [], _, _ => by rw [sortedPairs, pairsWf]; trivial
  | (key, value) :: pairs, hdistinct, h => by
    rw [sortedPairs, pairsWf]
    exact ⟨wf_sorted hdistinct.1 h.1, wf_sortedPairs hdistinct.2 h.2⟩

end

mutual

theorem sized_of_wf : {value : Value} → value.Wf → value.Sized
  | .uint _, h => h
  | .bytes _, h => h
  | .text _, h => h
  | .array _, h => ⟨h.1, itemsSized_of_wf h.2⟩
  | .map _, h => ⟨h.1, pairsSized_of_wf h.2.2⟩

theorem itemsSized_of_wf : {items : List Value} → itemsWf items → itemsSized items
  | [], _ => trivial
  | _ :: _, h => ⟨sized_of_wf h.1, itemsSized_of_wf h.2⟩

theorem pairsSized_of_wf : {pairs : List (UInt64 × Value)} → pairsWf pairs → pairsSized pairs
  | [], _ => trivial
  | (_, _) :: _, h => ⟨sized_of_wf h.1, pairsSized_of_wf h.2⟩

end

/-- A value whose maps have distinct keys comes back with its maps sorted, and nothing behind it is
read. -/
theorem decode_encode_sorted {value : Value} (hdistinct : value.Distinct) (hsized : value.Sized) :
    decode (encode value) = .ok value.sorted ∧
      ∀ budget rest, (encode value).length ≤ budget →
        readValue budget (encode value ++ rest) = .ok (value.sorted, rest) := by
  have hwf := wf_sorted hdistinct hsized
  rw [← encode_sorted value]
  exact ⟨decode_encode hwf, fun _ rest hbudget ↦ readValue_encode hwf hbudget rest⟩

/-- A map with its keys the wrong way round, in an array. -/
theorem decode_encode_sorted_pair :
    decode (encode (.array [.map [(2, .bytes [7]), (1, .uint 300)]])) =
      .ok (.array [.map [(1, .uint 300), (2, .bytes [7])]]) := by
  refine (decode_encode_sorted ?_ ?_).1
  · simp [Value.Distinct, itemsDistinct, pairsDistinct]
  · simp [Value.Sized, itemsSized, pairsSized]

/-! ## Lengths -/

theorem length_writeHead (major n : ℕ) : (writeHead major n).length =
    if n < 24 then 1 else if n ≤ 0xff then 2 else if n ≤ 0xffff then 3
      else if n ≤ 0xffffffff then 5 else 9 := by
  unfold writeHead
  split_ifs <;> simp

theorem length_encode_uint_le (n : UInt64) : (encode (.uint n)).length ≤ 9 := by
  rw [encode, length_writeHead]
  split_ifs <;> omega

theorem length_encode_bytes {n : ℕ} (b : FixedBytes n) (hn : 24 ≤ n) (hle : n ≤ 0xff) :
    (encode (.bytes b.data)).length = 2 + n := by
  rw [encode, List.length_append, length_writeHead, b.length_data, if_neg (by omega),
    if_pos hle]

theorem length_encode_text_le {s : String} {n : ℕ} (h : s.utf8ByteSize ≤ n) (hn : n ≤ 0xff) :
    (encode (.text s)).length ≤ 2 + n := by
  rw [encode, List.length_append, length_writeHead, length_textBytes]
  split_ifs <;> omega

/-- The length of a map whose keys are small and in order. -/
theorem length_encode_map {pairs : List (UInt64 × Value)} (hlength : pairs.length < 24)
    (hsorted : (pairs.map Prod.fst).Pairwise (· < ·)) (hsmall : ∀ p ∈ pairs, p.1 < 24) :
    (encode (.map pairs)).length =
      1 + (pairs.map fun p ↦ 1 + (encode p.2).length).sum := by
  rw [encode, List.length_append, length_writeHead, if_pos hlength,
    writeSorted_encodePairs hsorted, List.length_flatMap]
  congr 2
  refine List.map_congr_left fun p hp ↦ ?_
  have hkey : p.1.toNat < 24 := UInt64.lt_iff_toNat_lt.mp (hsmall p hp)
  rw [List.length_append, encode, length_writeHead, if_pos hkey]

/-! ## Heads in their shortest form -/

/-- The argument of a head needs as many bytes as it has. -/
def isShortHead (first : UInt8) (n : UInt64) : Bool :=
  let ai := first.toNat % 32
  if ai = 24 then 24 ≤ n
  else if ai = 25 then 0xff < n
  else if ai = 26 then 0xffff < n
  else if ai = 27 then 0xffffffff < n
  else true

/-- The input behind a head that is not inside of it: the contents of a string are. -/
def behindHead (major : ℕ) (n : UInt64) (rest : Bytes) : Bytes :=
  if major = 2 ∨ major = 3 then rest.drop n.toNat else rest

/-- The first `fuel` heads of a byte string are in their shortest form, read one after the other at
any depth. -/
def shortHeads : ℕ → Bytes → Bool
  | 0, _ | _, [] => true
  | fuel + 1, first :: tail =>
    match readHead (first :: tail) with
    | .error _ => true
    | .ok (major, n, rest) => isShortHead first n && shortHeads fuel (behindHead major n rest)

/-- All heads of a byte string are in their shortest form. -/
def ShortHeads (bytes : Bytes) : Prop := shortHeads bytes.length bytes = true

theorem ofNat_div_add_mod (first : UInt8) :
    UInt8.ofNat (first.toNat / 32 * 32 + first.toNat % 32) = first := by
  rw [Nat.div_add_mod', UInt8.ofNat_toNat]

/-- `input` is what is taken from it and `rest`, and `out`, which is no longer, is what is taken
where all heads of `input` are in their shortest form. -/
def Spells (input out rest : Bytes) : Prop :=
  ∃ taken, input = taken ++ rest ∧ out.length ≤ taken.length ∧
    (ShortHeads input ↔ taken = out ∧ ShortHeads rest)

/-- What comes after something spelled out is spelled out too. -/
theorem Spells.append {input out mid out' rest : Bytes} (h : Spells input out mid)
    (h' : Spells mid out' rest) : Spells input (out ++ out') rest := by
  obtain ⟨taken, rfl, hlength, hshort⟩ := h
  obtain ⟨taken', rfl, hlength', hshort'⟩ := h'
  refine ⟨taken ++ taken', (List.append_assoc ..).symm, ?_, ?_⟩
  · rw [List.length_append, List.length_append]
    omega
  · rw [hshort, hshort', ← and_assoc]
    refine and_congr_left fun _ ↦ ⟨fun h ↦ by rw [h.1, h.2], fun h ↦ ?_⟩
    have hlengths := congrArg List.length h
    rw [List.length_append, List.length_append] at hlengths
    exact List.append_inj h (by omega)

theorem Spells.refl (input : Bytes) : Spells input [] input :=
  ⟨[], rfl, le_rfl, by simp⟩

/-- The head of a number written with `width` bytes. -/
theorem head_wide {first : UInt8} {major ai width least : ℕ} {rest : Bytes}
    (hfirst : UInt8.ofNat (major * 32 + ai) = first) (hwidth : width ≤ rest.length)
    (hwidth8 : width ≤ 8)
    (hlong : ∀ n, least ≤ n → n < 256 ^ width →
      writeHead major n = UInt8.ofNat (major * 32 + ai) :: toBeBytes width n)
    (hless : ∀ n, n < least → (writeHead major n).length < width + 1) :
    let n := UInt64.ofNat (fromBeBytes (rest.take width))
    (writeHead major n.toNat).length ≤ (first :: rest.take width).length ∧
      (least ≤ n.toNat ↔ first :: rest.take width = writeHead major n.toNat) := by
  have hlength : (rest.take width).length = width := List.length_take_of_le hwidth
  have hlt : fromBeBytes (rest.take width) < 256 ^ width := by
    simpa [hlength] using fromBeBytes_lt (rest.take width)
  have hn : (UInt64.ofNat (fromBeBytes (rest.take width))).toNat =
      fromBeBytes (rest.take width) := by
    refine toNat_ofNat_of_lt (hlt.trans_le ?_)
    calc 256 ^ width ≤ 256 ^ 8 := Nat.pow_le_pow_right (by omega) hwidth8
      _ = 2 ^ 64 := by norm_num
  dsimp only
  rw [hn, List.length_cons, hlength]
  by_cases hleast : least ≤ fromBeBytes (rest.take width)
  · have hwrite : writeHead major (fromBeBytes (rest.take width)) = first :: rest.take width := by
      have hbytes := toBeBytes_fromBeBytes (rest.take width)
      rw [hlength] at hbytes
      rw [hlong _ hleast hlt, hfirst, hbytes]
    exact ⟨by simp [hwrite, hlength], iff_of_true hleast hwrite.symm⟩
  · have hshort := hless _ (Nat.lt_of_not_le hleast)
    refine ⟨hshort.le, iff_of_false hleast fun h ↦ ?_⟩
    have hlengths := congrArg List.length h
    rw [List.length_cons, hlength] at hlengths
    omega

/-- What `readHead` takes is at least as long as the shortest form of the head, and is that form
just where it is no longer. -/
theorem readHead_eq_ok {first : UInt8} {tail rest : Bytes} {major : ℕ} {n : UInt64}
    (h : readHead (first :: tail) = .ok (major, n, rest)) :
    ∃ taken, tail = taken ++ rest ∧
      (writeHead major n.toNat).length ≤ (first :: taken).length ∧
      (isShortHead first n = true ↔ first :: taken = writeHead major n.toNat) := by
  have hfirst := ofNat_div_add_mod first
  have hmajor : first.toNat / 32 < 8 := by have := first.toNat_lt; omega
  simp only [readHead] at h
  split_ifs at h with h24 h8 hlen h16 hlen h32 hlen h64 hlen <;> cases h
  · have hn : (UInt64.ofNat (first.toNat % 32)).toNat = first.toNat % 32 :=
      toNat_ofNat_of_lt (by omega)
    have hwrite : writeHead (first.toNat / 32) (first.toNat % 32) = [first] := by
      rw [writeHead, if_pos h24, hfirst]
    refine ⟨[], rfl, ?_, ?_⟩
    · rw [hn, hwrite]
    · rw [hn, hwrite]
      have hshort : isShortHead first (UInt64.ofNat (first.toNat % 32)) = true := by
        unfold isShortHead
        dsimp only
        rw [if_neg (by omega), if_neg (by omega), if_neg (by omega), if_neg (by omega)]
      exact iff_of_true hshort rfl
  · have hwide := @head_wide first (first.toNat / 32) 24 1 24 tail (h8 ▸ hfirst)
      (not_lt.mp hlen) (by decide)
      (fun n hn hlt ↦ by rw [writeHead, if_neg (by omega), if_pos (by omega)])
      (fun n hn ↦ by
        rw [length_writeHead, if_pos hn]
        omega)
    refine ⟨tail.take 1, (List.take_append_drop 1 tail).symm, hwide.1, ?_⟩
    rw [← hwide.2]
    simp [isShortHead, h8, UInt64.le_iff_toNat_le]
  · have hwide := @head_wide first (first.toNat / 32) 25 2 256 tail (h16 ▸ hfirst)
      (not_lt.mp hlen) (by decide)
      (fun n hn hlt ↦ by rw [writeHead, if_neg (by omega), if_neg (by omega), if_pos (by omega)])
      (fun n hn ↦ by
        rw [length_writeHead]
        split_ifs <;> omega)
    refine ⟨tail.take 2, (List.take_append_drop 2 tail).symm, hwide.1, ?_⟩
    rw [← hwide.2]
    simp [isShortHead, h16, UInt64.lt_iff_toNat_lt, Nat.lt_iff_add_one_le]
  · have hwide := @head_wide first (first.toNat / 32) 26 4 (2 ^ 16) tail (h32 ▸ hfirst)
      (not_lt.mp hlen) (by decide)
      (fun n hn hlt ↦ by
        rw [writeHead, if_neg (by omega), if_neg (by omega), if_neg (by omega), if_pos (by omega)])
      (fun n hn ↦ by
        rw [length_writeHead]
        split_ifs <;> omega)
    refine ⟨tail.take 4, (List.take_append_drop 4 tail).symm, hwide.1, ?_⟩
    rw [← hwide.2]
    simp [isShortHead, h32, UInt64.lt_iff_toNat_lt, Nat.lt_iff_add_one_le]
  · have hwide := @head_wide first (first.toNat / 32) 27 8 (2 ^ 32) tail (h64 ▸ hfirst)
      (not_lt.mp hlen) (by decide)
      (fun n hn hlt ↦ by
        rw [writeHead, if_neg (by omega), if_neg (by omega), if_neg (by omega), if_neg (by omega)])
      (fun n hn ↦ by
        rw [length_writeHead]
        split_ifs <;> omega)
    refine ⟨tail.take 8, (List.take_append_drop 8 tail).symm, hwide.1, ?_⟩
    rw [← hwide.2]
    simp [isShortHead, h64, UInt64.lt_iff_toNat_lt, Nat.lt_iff_add_one_le]

theorem length_behindHead_le (major : ℕ) (n : UInt64) (rest : Bytes) :
    (behindHead major n rest).length ≤ rest.length := by
  unfold behindHead
  split_ifs
  · rw [List.length_drop]
    exact Nat.sub_le _ _
  · exact le_rfl

/-- A byte string has no more heads than bytes. -/
theorem shortHeads_of_le {fuel : ℕ} {bytes : Bytes} (h : bytes.length ≤ fuel) :
    shortHeads fuel bytes = shortHeads bytes.length bytes := by
  induction fuel using Nat.strong_induction_on generalizing bytes with
  | _ fuel ih =>
    cases bytes with
    | nil => cases fuel <;> rfl
    | cons first tail =>
      obtain ⟨fuel, rfl⟩ := Nat.exists_eq_add_one_of_ne_zero (Nat.ne_of_gt (Nat.zero_lt_of_lt h))
      rw [List.length_cons, shortHeads, shortHeads]
      cases hhead : readHead (first :: tail) with
      | error e => rfl
      | ok head =>
        obtain ⟨major, n, rest⟩ := head
        obtain ⟨taken, htail, -, -⟩ := readHead_eq_ok hhead
        have hle := length_behindHead_le major n rest
        have hlength := congrArg List.length htail
        rw [List.length_append] at hlength
        rw [List.length_cons] at h
        dsimp only
        rw [ih fuel (by omega) (by omega), ih tail.length (by omega) (by omega)]

theorem shortHeads_cons {first : UInt8} {tail rest : Bytes} {major : ℕ} {n : UInt64}
    (h : readHead (first :: tail) = .ok (major, n, rest)) :
    ShortHeads (first :: tail) ↔
      isShortHead first n = true ∧ ShortHeads (behindHead major n rest) := by
  obtain ⟨taken, htail, -, -⟩ := readHead_eq_ok h
  have hle := length_behindHead_le major n rest
  have hlength := congrArg List.length htail
  rw [List.length_append] at hlength
  rw [ShortHeads, List.length_cons, shortHeads, h, ShortHeads]
  dsimp only
  rw [Bool.and_eq_true, shortHeads_of_le (by omega)]

/-- A head, with as much of what is behind it as belongs to it. -/
theorem spells_head {input rest : Bytes} {major : ℕ} {n : UInt64} (count : ℕ)
    (h : readHead input = .ok (major, n, rest))
    (hbehind : behindHead major n rest = rest.drop count) :
    Spells input (writeHead major n.toNat ++ rest.take count) (rest.drop count) := by
  cases input with
  | nil => cases h
  | cons first tail =>
    have hshort := shortHeads_cons h
    obtain ⟨taken, rfl, hlength, hform⟩ := readHead_eq_ok h
    refine ⟨first :: taken ++ rest.take count, ?_, ?_, ?_⟩
    · rw [List.append_assoc, List.take_append_drop, List.cons_append]
    · rw [List.length_append, List.length_append]
      omega
    · rw [hshort, hbehind, hform, List.append_left_inj]

theorem spells_bareHead {input rest : Bytes} {major : ℕ} {n : UInt64}
    (h : readHead input = .ok (major, n, rest)) (hmajor : ¬(major = 2 ∨ major = 3)) :
    Spells input (writeHead major n.toNat) rest := by
  have hspells := spells_head 0 h (by rw [behindHead, if_neg hmajor, List.drop_zero])
  rwa [List.take_zero, List.append_nil, List.drop_zero] at hspells

section Exact

variable {read : Bytes → Except WireError (Value × Bytes)}

theorem spells_readItems
    (hread : ∀ input value rest, read input = .ok (value, rest) → Spells input (encode value) rest)
    {count : ℕ} {input rest : Bytes} {items : List Value}
    (h : readItems read count input = .ok (items, rest)) :
    items.length = count ∧ Spells input (encodeItems items) rest := by
  induction count generalizing input items with
  | zero =>
    cases h
    exact ⟨rfl, .refl _⟩
  | succ count ih =>
    rw [readItems] at h
    split at h
    · cases h
    · rename_i item mid hitem
      split at h
      · cases h
      · rename_i items' rest' hitems
        cases h
        obtain ⟨hlength, hspells⟩ := ih hitems
        refine ⟨by rw [List.length_cons, hlength], ?_⟩
        rw [encodeItems]
        exact (hread _ _ _ hitem).append hspells

/-- The keys read are increasing, from the last one on. -/
theorem spells_readPairs
    (hread : ∀ input value rest, read input = .ok (value, rest) → Spells input (encode value) rest)
    {count : ℕ} {lastKey : Option UInt64} {input rest : Bytes} {pairs : List (UInt64 × Value)}
    (h : readPairs read count lastKey input = .ok (pairs, rest)) :
    pairs.length = count ∧ (∀ prev ∈ lastKey, ∀ p ∈ pairs, prev < p.1) ∧
      (pairs.map Prod.fst).Pairwise (· < ·) ∧
      Spells input (pairs.flatMap fun p ↦ encode (.uint p.1) ++ encode p.2) rest := by
  induction count generalizing input lastKey pairs with
  | zero =>
    cases h
    exact ⟨rfl, by simp, .nil, .refl _⟩
  | succ count ih =>
    rw [readPairs] at h
    split at h
    · cases h
    · rename_i key mid hkey
      split_ifs at h with hnext
      split at h
      · cases h
      · rename_i value mid' hvalue
        split at h
        · cases h
        · rename_i pairs' rest' hpairs
          cases h
          obtain ⟨hlength, habove, hincreasing, hspells⟩ := ih hpairs
          have hkeys : ∀ p ∈ pairs', key < p.1 := habove key rfl
          refine ⟨by rw [List.length_cons, hlength], ?_, ?_, ?_⟩
          · intro prev hprev p hp
            have hlt : prev < key := by
              rw [Option.mem_def.mp hprev] at hnext
              simpa using hnext
            rcases List.mem_cons.mp hp with rfl | hp
            · exact hlt
            · exact UInt64.lt_trans hlt (hkeys p hp)
          · refine List.pairwise_cons.mpr ⟨?_, hincreasing⟩
            intro k hk
            obtain ⟨p, hp, rfl⟩ := List.mem_map.mp hk
            exact hkeys p hp
          · rw [List.flatMap_cons]
            exact ((hread _ _ _ hkey).append (hread _ _ _ hvalue)).append hspells
    · cases h

end Exact

theorem textBytes_of_fromUtf8 {b : Bytes} {s : String} (h : fromUtf8 b = some s) :
    textBytes s = b := by
  unfold fromUtf8 String.fromUTF8? at h
  split_ifs at h
  cases h
  rfl

/-- What `readValue` takes is the encoding of the value it returns, but for longer heads. -/
theorem spells_readValue {budget : ℕ} {input rest : Bytes} {value : Value}
    (h : readValue budget input = .ok (value, rest)) : Spells input (encode value) rest := by
  induction budget generalizing input value rest with
  | zero => cases h
  | succ budget ih =>
    rw [readValue] at h
    split at h
    · cases h
    · rename_i major n behind hhead
      simp only [readBody] at h
      split at h
      · cases h
        rw [encode]
        exact spells_bareHead hhead (by decide)
      · split_ifs at h with hlength
        cases h
        rw [encode, List.length_take_of_le (not_lt.mp hlength)]
        exact spells_head _ hhead (by rw [behindHead, if_pos (.inl rfl)])
      · split_ifs at h with hlength
        split at h
        · cases h
        · rename_i s hs
          cases h
          have htext := textBytes_of_fromUtf8 hs
          rw [encode, ← length_textBytes, htext, List.length_take_of_le (not_lt.mp hlength)]
          exact spells_head _ hhead (by rw [behindHead, if_pos (.inr rfl)])
      · split_ifs at h
        split at h
        · cases h
        · rename_i items rest' hitems
          cases h
          obtain ⟨hcount, hspells⟩ := spells_readItems (fun _ _ _ ↦ ih) hitems
          rw [encode, hcount]
          exact (spells_bareHead hhead (by decide)).append hspells
      · split_ifs at h
        split at h
        · cases h
        · rename_i pairs rest' hpairs
          cases h
          obtain ⟨hcount, -, hsorted, hspells⟩ := spells_readPairs (fun _ _ _ ↦ ih) hpairs
          rw [encode, writeSorted_encodePairs hsorted, hcount]
          exact (spells_bareHead hhead (by decide)).append hspells
      · cases h

/-- A byte string that decodes to a value is its encoding exactly when every head of it is in its
shortest form. -/
theorem encode_eq_iff_shortHeads {bytes : Bytes} {value : Value} (h : decode bytes = .ok value) :
    encode value = bytes ↔ ShortHeads bytes := by
  unfold decode at h
  split at h
  · cases h
  · rename_i hread
    cases h
    obtain ⟨taken, htaken, -, hshort⟩ := spells_readValue hread
    rw [List.append_nil] at htaken
    have hnil : ShortHeads [] := rfl
    rw [hshort, ← htaken, and_iff_left hnil, eq_comm]
  · cases h

/-- A key of a map takes two bytes where one would do. -/
theorem encode_eq_iff_shortHeads_longKey :
    encode (.map [(1, .bytes [7])]) = [0xa1, 0x18, 0x01, 0x41, 0x07] ↔
      ShortHeads [0xa1, 0x18, 0x01, 0x41, 0x07] :=
  encode_eq_iff_shortHeads rfl

/-- The keys `18 05` and `06` are in increasing order as numbers, and not as bytes. -/
theorem decode_accepts_long_head :
    ¬∀ bytes value, decode bytes = .ok value → encode value = bytes := by
  intro h
  have hmap := h [0xa2, 0x18, 0x05, 0x00, 0x06, 0x00] (.map [(5, .uint 0), (6, .uint 0)]) rfl
  revert hmap
  decide

/-! ## What is read is well formed -/

section Read

variable {read : Bytes → Except WireError (Value × Bytes)}

theorem itemsWf_of_readItems
    (hread : ∀ input value rest, read input = .ok (value, rest) → value.Wf)
    {count : ℕ} {input rest : Bytes} {items : List Value}
    (h : readItems read count input = .ok (items, rest)) : itemsWf items := by
  induction count generalizing input items with
  | zero =>
    cases h
    trivial
  | succ count ih =>
    rw [readItems] at h
    split at h
    · cases h
    · rename_i item mid hitem
      split at h
      · cases h
      · rename_i items' rest' hitems
        cases h
        exact ⟨hread _ _ _ hitem, ih hitems⟩

theorem pairsWf_of_readPairs
    (hread : ∀ input value rest, read input = .ok (value, rest) → value.Wf)
    {count : ℕ} {lastKey : Option UInt64} {input rest : Bytes} {pairs : List (UInt64 × Value)}
    (h : readPairs read count lastKey input = .ok (pairs, rest)) : pairsWf pairs := by
  induction count generalizing input lastKey pairs with
  | zero =>
    cases h
    trivial
  | succ count ih =>
    rw [readPairs] at h
    split at h
    · cases h
    · split_ifs at h
      split at h
      · cases h
      · rename_i value mid' hvalue
        split at h
        · cases h
        · rename_i pairs' rest' hpairs
          cases h
          exact ⟨hread _ _ _ hvalue, ih hpairs⟩
    · cases h

end Read

theorem wf_of_readValue {budget : ℕ} {input rest : Bytes} {value : Value}
    (h : readValue budget input = .ok (value, rest)) : value.Wf := by
  induction budget generalizing input value rest with
  | zero => cases h
  | succ budget ih =>
    rw [readValue] at h
    split at h
    · cases h
    · rename_i major n behind hhead
      have hn : n.toNat < 2 ^ 64 := n.toNat_lt
      simp only [readBody] at h
      split at h
      · cases h
        trivial
      · split_ifs at h with hlength
        cases h
        rwa [Value.Wf, List.length_take_of_le (not_lt.mp hlength)]
      · split_ifs at h with hlength
        split at h
        · cases h
        · rename_i s hs
          cases h
          rwa [Value.Wf, ← length_textBytes, textBytes_of_fromUtf8 hs,
            List.length_take_of_le (not_lt.mp hlength)]
      · split_ifs at h
        split at h
        · cases h
        · rename_i items rest' hitems
          cases h
          obtain ⟨hcount, -⟩ := spells_readItems (fun _ _ _ ↦ spells_readValue) hitems
          exact ⟨hcount ▸ hn, itemsWf_of_readItems (fun _ _ _ ↦ ih) hitems⟩
      · split_ifs at h
        split at h
        · cases h
        · rename_i pairs rest' hpairs
          cases h
          obtain ⟨hcount, -, hsorted, -⟩ :=
            spells_readPairs (fun _ _ _ ↦ spells_readValue) hpairs
          exact ⟨hcount ▸ hn, hsorted, pairsWf_of_readPairs (fun _ _ _ ↦ ih) hpairs⟩
      · cases h

/-- Only well-formed values are read. -/
theorem wf_of_decode {bytes : Bytes} {value : Value} (h : decode bytes = .ok value) :
    value.Wf := by
  unfold decode at h
  split at h
  · cases h
  · rename_i hread
    cases h
    exact wf_of_readValue hread
  · cases h

end NemoMessenger.Wire.Cbor
