import NemoMessenger.Wire.Canonical

/-!
# How deep a value nests

`read_value` calls itself for the elements of an array and for the keys and the values of a map, so
its recursion is as deep as the input nests. The depth is compared with a scan of the same bytes
from left to right that keeps the open arrays and maps in a list and calls nothing.
-/

namespace NemoMessenger.Wire.Cbor

/-! ## The recursion of the decoder -/

/-- The deepest of the calls the element loop of an array makes. -/
def itemsDepth (read : Bytes → Except WireError (Value × Bytes)) (depth : Bytes → ℕ) :
    ℕ → Bytes → ℕ
  | 0, _ => 0
  | count + 1, rest =>
    max (depth rest)
      (match read rest with
        | .error _ => 0
        | .ok (_, rest) => itemsDepth read depth count rest)

/-- The deepest of the calls the entry loop of a map makes. -/
def pairsDepth (read : Bytes → Except WireError (Value × Bytes)) (depth : Bytes → ℕ) :
    ℕ → Option UInt64 → Bytes → ℕ
  | 0, _, _ => 0
  | count + 1, lastKey, rest =>
    max (depth rest)
      (match read rest with
        | .ok (.uint key, rest) =>
          if lastKey.any fun prev ↦ key ≤ prev then 0
          else
            max (depth rest)
              (match read rest with
                | .error _ => 0
                | .ok (_, rest) => pairsDepth read depth count (some key) rest)
        | _ => 0)

/-- How many calls of `read_value` stand on top of one another while it reads a value: itself and
those under it. -/
def readDepth : ℕ → Bytes → ℕ
  | 0, _ => 0
  | budget + 1, input =>
    1 + match readHead input with
      | .ok (4, n, rest) =>
        if rest.length < n.toNat then 0
        else itemsDepth (readValue budget) (readDepth budget) n.toNat rest
      | .ok (5, n, rest) =>
        if rest.length < n.toNat then 0
        else pairsDepth (readValue budget) (readDepth budget) n.toNat none rest
      | _ => 0

/-- The recursion depth of `cbor::decode`. -/
def depth (bytes : Bytes) : ℕ := readDepth (bytes.length + 1) bytes

/-! ## The scan -/

/-- An array or a map that is open: what comes after the value being read in it. -/
inductive Open
  | items (left : ℕ)
  | key (left : ℕ) (lastKey : Option UInt64)
  | value (left : ℕ) (key : UInt64)
  deriving DecidableEq, Repr

/-- The key a value can be. -/
def Value.key? : Value → Option UInt64
  | .uint n => some n
  | _ => none

/-- A value has ended, and with it every array and map it was the last of. -/
def close : List Open → Option UInt64 → Option (List Open)
  | [], _ => none
  | .items 0 :: stack, _ => close stack none
  | .items (left + 1) :: stack, _ => some (.items left :: stack)
  | .key _ _ :: _, none => none
  | .key left lastKey :: stack, some key =>
    if lastKey.any fun prev ↦ key ≤ prev then none else some (.value left key :: stack)
  | .value 0 _ :: stack, _ => close stack none
  | .value (left + 1) key :: stack, _ => some (.key left (some key) :: stack)

/-- What a head begins: a value that ends with it, or an array or a map with something in it. -/
inductive Token
  | value (key : Option UInt64)
  | opens (container : Open)
  deriving DecidableEq, Repr

/-- The token at the front, the bytes or the text of a string included. -/
def readToken (input : Bytes) : Option (Token × Bytes) :=
  match readHead input with
  | .ok (0, n, rest) => some (.value (some n), rest)
  | .ok (2, n, rest) =>
    if rest.length < n.toNat then none else some (.value none, rest.drop n.toNat)
  | .ok (3, n, rest) =>
    if rest.length < n.toNat ∨ (fromUtf8 (rest.take n.toNat)).isNone then none
    else some (.value none, rest.drop n.toNat)
  | .ok (4, n, rest) =>
    if rest.length < n.toNat then none
    else if n = 0 then some (.value none, rest)
    else some (.opens (.items (n.toNat - 1)), rest)
  | .ok (5, n, rest) =>
    if rest.length < n.toNat then none
    else if n = 0 then some (.value none, rest)
    else some (.opens (.key (n.toNat - 1) none), rest)
  | _ => none

/-- The most arrays and maps that are open at once. -/
def scan : ℕ → List Open → Bytes → ℕ
  | 0, stack, _ => stack.length
  | fuel + 1, stack, input =>
    match readToken input with
    | none => stack.length
    | some (.opens container, rest) => scan fuel (container :: stack) rest
    | some (.value key, rest) =>
      match close stack key with
      | none => stack.length
      | some next => max stack.length (scan fuel next rest)

/-- The most arrays and maps that are open at once in a byte string. Every head is a byte at least,
so the scan ends. -/
def openAtOnce (bytes : Bytes) : ℕ := scan (bytes.length + 1) [] bytes

/-! ## Both read the same bytes -/

theorem length_lt_of_readHead {input rest : Bytes} {major : ℕ} {n : UInt64}
    (h : readHead input = .ok (major, n, rest)) : rest.length < input.length := by
  cases input with
  | nil => cases h
  | cons first tail =>
    obtain ⟨taken, rfl, -⟩ := readHead_eq_ok h
    rw [List.length_cons, List.length_append]
    omega

theorem length_lt_of_readValue {budget : ℕ} {input rest : Bytes} {value : Value}
    (h : readValue budget input = .ok (value, rest)) : rest.length < input.length := by
  obtain ⟨taken, rfl, hlength, -⟩ := spells_readValue h
  have hpos := encode_length_pos value
  rw [List.length_append]
  omega

theorem length_lt_of_readToken {token : Token} {input rest : Bytes}
    (h : readToken input = some (token, rest)) : rest.length < input.length := by
  unfold readToken at h
  split at h
  case h_6 => cases h
  all_goals
    rename_i n behind hhead
    have hlt := length_lt_of_readHead hhead
    try split_ifs at h
    all_goals
      cases h
      try rw [List.length_drop]
      omega

/-- Fuel for every byte is enough. -/
theorem scan_of_lt {fuel : ℕ} {input : Bytes} (h : input.length < fuel) (stack : List Open) :
    scan fuel stack input = scan (input.length + 1) stack input := by
  induction fuel using Nat.strong_induction_on generalizing input stack with
  | _ fuel ih =>
    obtain ⟨fuel, rfl⟩ := Nat.exists_eq_succ_of_ne_zero (by omega : fuel ≠ 0)
    rw [scan, scan]
    cases htoken : readToken input with
    | none => rfl
    | some read =>
      obtain ⟨token, rest⟩ := read
      have hlt := length_lt_of_readToken htoken
      have hsame : ∀ next, scan fuel next rest = scan input.length next rest := fun next ↦
        (ih fuel (by omega) (by omega) next).trans
          (ih input.length (by omega) hlt next).symm
      cases token with
      | opens container => exact hsame _
      | value key => simp only [hsame]

/-- The scan goes on behind a value. -/
def goOn (stack : List Open) (key : Option UInt64) (rest : Bytes) : ℕ :=
  match close stack key with
  | none => stack.length
  | some next => max stack.length (scan (rest.length + 1) next rest)

theorem scan_eq (stack : List Open) (input : Bytes) :
    scan (input.length + 1) stack input =
      match readToken input with
      | none => stack.length
      | some (.opens container, rest) => scan (rest.length + 1) (container :: stack) rest
      | some (.value key, rest) => goOn stack key rest := by
  rw [scan]
  cases htoken : readToken input with
  | none => rfl
  | some read =>
    obtain ⟨token, rest⟩ := read
    have hlt := length_lt_of_readToken htoken
    cases token with
    | opens container => exact scan_of_lt hlt _
    | value key =>
      cases hclose : close stack key with
      | none => simp only [goOn, hclose]
      | some next => simp only [goOn, hclose, scan_of_lt hlt]

theorem goOn_of_close {stack : List Open} {container : Open} {key : Option UInt64}
    (h : close (container :: stack) key = close stack none) (rest : Bytes) :
    goOn (container :: stack) key rest = max (stack.length + 1) (goOn stack none rest) := by
  unfold goOn
  rw [h]
  cases close stack none with
  | none => simp
  | some next => simp only [List.length_cons]; omega

theorem goOn_of_close_some {stack next : List Open} {key : Option UInt64}
    (h : close stack key = some next) (rest : Bytes) :
    goOn stack key rest = max stack.length (scan (rest.length + 1) next rest) := by
  rw [goOn, h]

theorem goOn_of_close_none {stack : List Open} {key : Option UInt64}
    (h : close stack key = none) (rest : Bytes) : goOn stack key rest = stack.length := by
  rw [goOn, h]

theorem length_le_goOn (stack : List Open) (key : Option UInt64) (rest : Bytes) :
    stack.length ≤ goOn stack key rest := by
  unfold goOn
  split
  · exact le_rfl
  · exact le_max_left _ _

theorem readDepth_pos {budget : ℕ} (h : 0 < budget) (input : Bytes) :
    0 < readDepth budget input := by
  obtain ⟨budget, rfl⟩ := Nat.exists_eq_succ_of_ne_zero h.ne'
  rw [readDepth]
  omega

section

/-- What the calls on a value's elements have to satisfy: the scan opens what they recurse into, and
goes on behind the value where they return one. -/
def Follows (budget : ℕ) : Prop :=
  ∀ (input : Bytes) (stack : List Open), input.length < budget →
    scan (input.length + 1) stack input + 1 =
      max (stack.length + readDepth budget input)
        (match readValue budget input with
          | .error _ => 0
          | .ok (value, rest) => goOn stack value.key? rest + 1)

variable {budget : ℕ} (hfollows : Follows budget) (stack : List Open)
include hfollows

theorem scan_items {count : ℕ} {rest : Bytes} (hlt : rest.length < budget) :
    scan (rest.length + 1) (.items count :: stack) rest + 1 =
      max (stack.length + 1 + itemsDepth (readValue budget) (readDepth budget) (count + 1) rest)
        (match readItems (readValue budget) (count + 1) rest with
          | .error _ => 0
          | .ok (_, rest) => goOn stack none rest + 1) := by
  have hpos := readDepth_pos (Nat.zero_lt_of_lt hlt) rest
  induction count generalizing rest with
  | zero =>
    rw [hfollows rest _ hlt, itemsDepth, readItems, List.length_cons]
    cases hread : readValue budget rest with
    | error e => simp only []; omega
    | ok read =>
      obtain ⟨value, mid⟩ := read
      have hgo : goOn (.items 0 :: stack) value.key? mid =
          max (stack.length + 1) (goOn stack none mid) := goOn_of_close rfl mid
      simp only [hgo, itemsDepth, readItems]
      omega
  | succ count ih =>
    rw [hfollows rest _ hlt, itemsDepth, readItems, List.length_cons]
    cases hread : readValue budget rest with
    | error e => simp only []; omega
    | ok read =>
      obtain ⟨value, mid⟩ := read
      have hmid := length_lt_of_readValue hread
      have hgo : goOn (.items (count + 1) :: stack) value.key? mid =
          max (stack.length + 1) (scan (mid.length + 1) (.items count :: stack) mid) :=
        goOn_of_close_some rfl mid
      have hrest := @ih mid (by omega) (readDepth_pos (by omega) mid)
      simp only [hgo]
      cases hitems : readItems (readValue budget) (count + 1) mid with
      | error e =>
        simp only [hitems] at hrest ⊢
        omega
      | ok items =>
        simp only [hitems] at hrest ⊢
        omega

/-- One entry of a map, in front of `count` others. -/
theorem scan_entry {count : ℕ} {lastKey : Option UInt64} {rest : Bytes}
    (hlt : rest.length < budget)
    (hnext : ∀ (key : UInt64) (ended : Option UInt64) (mid : Bytes), mid.length < budget →
      goOn (.value count key :: stack) ended mid + 1 =
        max (stack.length + 2)
          (max (stack.length + 1 +
              pairsDepth (readValue budget) (readDepth budget) count (some key) mid)
            (match readPairs (readValue budget) count (some key) mid with
              | .error _ => 0
              | .ok (_, rest) => goOn stack none rest + 1))) :
    scan (rest.length + 1) (.key count lastKey :: stack) rest + 1 =
      max (stack.length + 1 +
          pairsDepth (readValue budget) (readDepth budget) (count + 1) lastKey rest)
        (match readPairs (readValue budget) (count + 1) lastKey rest with
          | .error _ => 0
          | .ok (_, rest) => goOn stack none rest + 1) := by
  have hpos := readDepth_pos (Nat.zero_lt_of_lt hlt) rest
  have hlength : (Open.key count lastKey :: stack).length = stack.length + 1 := rfl
  have hother : ∀ mid, goOn (.key count lastKey :: stack) none mid = stack.length + 1 :=
    goOn_of_close_none rfl
  rw [hfollows rest _ hlt, hlength, pairsDepth, readPairs]
  cases hread : readValue budget rest with
  | error e => simp only []; omega
  | ok read =>
    obtain ⟨value, mid⟩ := read
    have hmid := length_lt_of_readValue hread
    cases value with
    | bytes b => simp only [Value.key?, hother]; omega
    | text s => simp only [Value.key?, hother]; omega
    | array items => simp only [Value.key?, hother]; omega
    | map pairs => simp only [Value.key?, hother]; omega
    | uint key =>
      have huint : (Value.uint key).key? = some key := rfl
      by_cases hkey : lastKey.any fun prev ↦ key ≤ prev
      · have hgo : goOn (.key count lastKey :: stack) (some key) mid = stack.length + 1 :=
          goOn_of_close_none (by rw [close, if_pos hkey]) mid
        simp only [huint, hgo, hkey, if_true]
        omega
      · have hgo : goOn (.key count lastKey :: stack) (some key) mid =
            max (stack.length + 1) (scan (mid.length + 1) (.value count key :: stack) mid) :=
          goOn_of_close_some (by rw [close, if_neg hkey]) mid
        have hvalue := hfollows mid (.value count key :: stack) (by omega)
        rw [List.length_cons] at hvalue
        simp only [huint, hgo, hkey, Bool.false_eq_true, if_false]
        cases hread' : readValue budget mid with
        | error e =>
          simp only [hread'] at hvalue ⊢
          omega
        | ok read =>
          obtain ⟨value, mid'⟩ := read
          have hmid' := length_lt_of_readValue hread'
          have hgo' := hnext key value.key? mid' (by omega)
          simp only [hread'] at hvalue ⊢
          cases hpairs : readPairs (readValue budget) count (some key) mid' with
          | error e =>
            simp only [hpairs] at hgo' ⊢
            omega
          | ok pairs =>
            simp only [hpairs] at hgo' ⊢
            omega

theorem scan_pairs {count : ℕ} {lastKey : Option UInt64} {rest : Bytes}
    (hlt : rest.length < budget) :
    scan (rest.length + 1) (.key count lastKey :: stack) rest + 1 =
      max (stack.length + 1 +
          pairsDepth (readValue budget) (readDepth budget) (count + 1) lastKey rest)
        (match readPairs (readValue budget) (count + 1) lastKey rest with
          | .error _ => 0
          | .ok (_, rest) => goOn stack none rest + 1) := by
  induction count generalizing lastKey rest with
  | zero =>
    apply scan_entry hfollows stack hlt
    intro key ended mid hmid
    have hgo : goOn (.value 0 key :: stack) ended mid =
        max (stack.length + 1) (goOn stack none mid) := goOn_of_close rfl mid
    simp only [hgo, pairsDepth, readPairs]
    omega
  | succ count ih =>
    apply scan_entry hfollows stack hlt
    intro key ended mid hmid
    have hgo : goOn (.value (count + 1) key :: stack) ended mid =
        max (stack.length + 1) (scan (mid.length + 1) (.key count (some key) :: stack) mid) :=
      goOn_of_close_some rfl mid
    rw [← ih hmid, hgo]
    omega

end

/-- The scan opens what the decoder recurses into. -/
theorem follows (budget : ℕ) : Follows budget := by
  induction budget with
  | zero => exact fun _ _ h ↦ absurd h (Nat.not_lt_zero _)
  | succ budget ih =>
    intro input stack hlt
    rw [scan_eq, readDepth, readValue, readToken]
    cases hhead : readHead input with
    | error e => rfl
    | ok head =>
      obtain ⟨major, n, rest⟩ := head
      have hrest := length_lt_of_readHead hhead
      have hle := length_le_goOn stack none
      obtain _ | _ | _ | _ | _ | _ | major := major
      · have hgo := length_le_goOn stack (some n) rest
        simp only [readBody, Value.key?]
        omega
      · rfl
      · by_cases hshort : rest.length < n.toNat
        · simp [readBody, hshort]
        · have hgo := hle (rest.drop n.toNat)
          simp only [readBody, hshort, if_false, Value.key?]
          omega
      · by_cases hshort : rest.length < n.toNat
        · simp [readBody, hshort]
        · cases htext : fromUtf8 (rest.take n.toNat) with
          | none => simp [readBody, hshort, htext]
          | some s =>
            have hgo := hle (rest.drop n.toNat)
            simp only [readBody, hshort, htext, if_false, Value.key?, Option.isNone_some,
              Bool.false_eq_true, or_false]
            omega
      · by_cases hshort : rest.length < n.toNat
        · simp [readBody, hshort]
        simp only [readBody, hshort, if_false]
        obtain hzero | ⟨count, hcount⟩ : n.toNat = 0 ∨ ∃ count, n.toNat = count + 1 := by
          cases n.toNat <;> simp
        · have hn : n = 0 := UInt64.toNat_inj.mp hzero
          have hgo := hle rest
          simp only [hn, if_true, UInt64.toNat_zero, itemsDepth, readItems, Value.key?]
          omega
        · have hn : n ≠ 0 := by rintro rfl; simp at hcount
          have hitems := @scan_items budget ih stack count rest (by omega)
          simp only [hn, hcount, if_false, Nat.add_sub_cancel]
          cases hread : readItems (readValue budget) (count + 1) rest with
          | error e =>
            simp only [hread] at hitems ⊢
            omega
          | ok items =>
            simp only [hread, Value.key?] at hitems ⊢
            omega
      · by_cases hshort : rest.length < n.toNat
        · simp [readBody, hshort]
        simp only [readBody, hshort, if_false]
        obtain hzero | ⟨count, hcount⟩ : n.toNat = 0 ∨ ∃ count, n.toNat = count + 1 := by
          cases n.toNat <;> simp
        · have hn : n = 0 := UInt64.toNat_inj.mp hzero
          have hgo := hle rest
          simp only [hn, if_true, UInt64.toNat_zero, pairsDepth, readPairs, Value.key?]
          omega
        · have hn : n ≠ 0 := by rintro rfl; simp at hcount
          have hpairs := @scan_pairs budget ih stack count none rest (by omega)
          simp only [hn, hcount, if_false, Nat.add_sub_cancel]
          cases hread : readPairs (readValue budget) (count + 1) none rest with
          | error e =>
            simp only [hread] at hpairs ⊢
            omega
          | ok pairs =>
            simp only [hread, Value.key?] at hpairs ⊢
            omega
      · rfl

/-! ## The depth of an input -/

/-- Any budget above the length finds the same depth. -/
theorem readDepth_of_lt {budget : ℕ} {input : Bytes} (h : input.length < budget) :
    readDepth budget input = openAtOnce input + 1 := by
  have hpos := readDepth_pos (Nat.zero_lt_of_lt h) input
  have hgo : ∀ key rest, goOn [] key rest = 0 := fun _ _ ↦ rfl
  have hscan := follows budget input [] h
  simp only [hgo, List.length_nil] at hscan
  rw [openAtOnce, hscan]
  cases readValue budget input with
  | error e => simp
  | ok read => simp only []; omega

theorem depth_eq (bytes : Bytes) : depth bytes = openAtOnce bytes + 1 :=
  readDepth_of_lt (Nat.lt_succ_self _)

theorem length_close {stack next : List Open} {key : Option UInt64}
    (h : close stack key = some next) : next.length ≤ stack.length := by
  induction stack, key using close.induct with
  | case1 => cases h
  | case2 key stack ih => exact (ih h).trans (Nat.le_succ _)
  | case3 key left stack =>
    cases h
    exact le_rfl
  | case4 => cases h
  | case5 left lastKey stack key hkey =>
    rw [close, if_pos hkey] at h
    cases h
  | case6 left lastKey stack key hkey =>
    rw [close, if_neg hkey] at h
    cases h
    exact le_rfl
  | case7 key ended stack ih => exact (ih h).trans (Nat.le_succ _)
  | case8 ended left key stack =>
    cases h
    exact le_rfl

/-- An array or a map that opens has something behind its head. -/
theorem length_pos_of_opens {container : Open} {input rest : Bytes}
    (h : readToken input = some (.opens container, rest)) : 0 < rest.length := by
  unfold readToken at h
  split at h
  case h_4 | h_5 =>
    rename_i n behind hhead
    split_ifs at h with hshort hzero
    · cases h
    · have hpos : n.toNat ≠ 0 := fun h ↦ hzero (UInt64.toNat_inj.mp h)
      cases h
      omega
  all_goals
    try split_ifs at h
    all_goals cases h

theorem scan_le (fuel : ℕ) (stack : List Open) (input : Bytes) :
    scan fuel stack input ≤ stack.length + (input.length - 1) := by
  induction fuel generalizing stack input with
  | zero => exact Nat.le_add_right _ _
  | succ fuel ih =>
    rw [scan]
    cases htoken : readToken input with
    | none => exact Nat.le_add_right _ _
    | some read =>
      obtain ⟨token, rest⟩ := read
      have hlt := length_lt_of_readToken htoken
      cases token with
      | opens container =>
        have hpos := length_pos_of_opens htoken
        have hrest := ih (container :: stack) rest
        rw [List.length_cons] at hrest
        simp only []
        omega
      | value key =>
        cases hclose : close stack key with
        | none => simp only [hclose]; omega
        | some next =>
          have hnext := length_close hclose
          have hrest := ih next rest
          simp only [hclose]
          omega

theorem depth_le_length (bytes : Bytes) : depth bytes ≤ max 1 bytes.length := by
  have hscan := scan_le (bytes.length + 1) [] bytes
  rw [List.length_nil] at hscan
  rw [depth_eq, openAtOnce]
  omega

/-- Heads of arrays of one element, and nothing in the last. -/
theorem scan_replicate (stack : List Open) {count fuel : ℕ} (h : count < fuel) :
    scan fuel stack (List.replicate (count + 1) 0x81) = stack.length + count := by
  induction count generalizing fuel stack with
  | zero =>
    obtain ⟨fuel, rfl⟩ := Nat.exists_eq_succ_of_ne_zero h.ne_bot
    rfl
  | succ count ih =>
    obtain ⟨fuel, rfl⟩ := Nat.exists_eq_succ_of_ne_zero (by omega : fuel ≠ 0)
    have htoken : readToken (List.replicate (count + 1 + 1) 0x81) =
        some (.opens (.items 0), List.replicate (count + 1) 0x81) := by
      have hhead : readHead (List.replicate (count + 1 + 1) 0x81) =
          .ok (4, 1, List.replicate (count + 1) 0x81) := rfl
      simp [readToken, hhead]
    rw [scan, htoken]
    simp only []
    rw [ih _ (by omega), List.length_cons]
    omega

theorem depth_replicate (count : ℕ) : depth (List.replicate (count + 1) 0x81) = count + 1 := by
  rw [depth_eq, openAtOnce, scan_replicate [] (by rw [List.length_replicate]; omega)]
  simp

/-- The decoder stays within a number of frames on the inputs that open fewer arrays and maps at
once; over the inputs of a length, it needs as many frames as there are bytes. -/
theorem depth_le_iff (bound : ℕ) :
    (∀ bytes, depth bytes ≤ bound ↔ openAtOnce bytes < bound) ∧
      ∀ limit, (∀ bytes : Bytes, bytes.length ≤ limit → depth bytes ≤ bound) ↔
        max 1 limit ≤ bound := by
  refine ⟨fun bytes ↦ by rw [depth_eq, Nat.succ_le_iff], fun limit ↦ ⟨fun h ↦ ?_, ?_⟩⟩
  · obtain _ | limit := limit
    · exact h [] le_rfl
    · have hdeep := h (List.replicate (limit + 1) 0x81) (by rw [List.length_replicate])
      rw [depth_replicate] at hdeep
      omega
  · exact fun h bytes hlength ↦ (depth_le_length bytes).trans (by omega)

/-- No number of frames is enough for every input, and a body of `BODY_LIMIT` bytes takes one for
each of its bytes. -/
theorem depth_unbounded : (¬∃ bound, ∀ bytes, depth bytes ≤ bound) ∧
    depth (List.replicate 18000000 0x81) = 18000000 := by
  refine ⟨?_, depth_replicate 17999999⟩
  rintro ⟨bound, h⟩
  have hdeep := h (List.replicate (bound + 1) 0x81)
  rw [depth_replicate] at hdeep
  omega

end NemoMessenger.Wire.Cbor
