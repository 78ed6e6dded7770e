import NemoMessenger.Data.FiniteMap

/-!
# Finite maps written as lists

A finite map is written as the list of its entries in an order of the keys, and read by inserting the
entries of a list one after the other. What is read may be kept otherwise than in a map by the keys;
all that matters is where each entry goes.
-/

namespace NemoMessenger.Data.FiniteMap

variable {K V W : Type} [DecidableEq K]

/-- The entries in the order of the keys. -/
def entriesBy (le : K → K → Bool) (m : FiniteMap K V) : List (K × V) :=
  (m.keys.mergeSort le).filterMap fun k ↦ (m.lookup k).map fun v ↦ (k, v)

/-- The map with these entries. -/
def ofEntries (entries : List (K × V)) : FiniteMap K V :=
  entries.foldl (fun m e ↦ m.insert e.1 e.2) ∅

section

variable {le : K → K → Bool} {m : FiniteMap K V} {k : K} {v : V}

theorem mem_entriesBy : (k, v) ∈ m.entriesBy le ↔ m.lookup k = some v := by
  simp only [entriesBy, List.mem_filterMap, List.mem_mergeSort, Option.map_eq_some_iff, Prod.mk.injEq]
  constructor
  · rintro ⟨_, -, _, hlookup, rfl, rfl⟩
    exact hlookup
  · intro hlookup
    refine ⟨k, ?_, v, hlookup, rfl, rfl⟩
    rw [← AList.mem_keys, ← AList.lookup_isSome, hlookup]
    rfl

theorem nodup_entriesBy : ((m.entriesBy le).map Prod.fst).Nodup := by
  have hkeys : (m.entriesBy le).map Prod.fst =
      (m.keys.mergeSort le).filter fun k ↦ (m.lookup k).isSome := by
    unfold entriesBy
    generalize m.keys.mergeSort le = keys
    induction keys with
    | nil => rfl
    | cons key keys ih =>
      cases hlookup : m.lookup key with
      | none => simp [hlookup, ih]
      | some v => simp [hlookup, ih]
  rw [hkeys]
  exact ((List.mergeSort_perm m.keys le).nodup_iff.mpr m.keys_nodup).filter _

end

section

variable {S : Type} {look : S → K → Option V} {step : S → K × V → S} {entries : List (K × V)} {k : K}

theorem look_foldl_of_notMem
    (hstep : ∀ s e k, look (step s e) k = if k = e.1 then some e.2 else look s k)
    (hk : k ∉ entries.map Prod.fst) (s : S) : look (entries.foldl step s) k = look s k := by
  induction entries generalizing s with
  | nil => rfl
  | cons e entries ih =>
    rw [List.map_cons, List.mem_cons, not_or] at hk
    rw [List.foldl_cons, ih hk.2, hstep, if_neg hk.1]

theorem look_foldl_of_mem
    (hstep : ∀ s e k, look (step s e) k = if k = e.1 then some e.2 else look s k)
    (hnodup : (entries.map Prod.fst).Nodup) {v : V} (hmem : (k, v) ∈ entries) (s : S) :
    look (entries.foldl step s) k = some v := by
  induction entries generalizing s with
  | nil => cases hmem
  | cons e entries ih =>
    rw [List.map_cons, List.nodup_cons] at hnodup
    rw [List.foldl_cons]
    cases List.mem_cons.mp hmem with
    | inl heq =>
      subst heq
      rw [look_foldl_of_notMem hstep hnodup.1, hstep, if_pos rfl]
    | inr hmem => exact ih hnodup.2 hmem _

/-- What is kept under a key, once all entries of a map have been taken in. -/
theorem look_foldl (look : S → K → Option V)
    (hstep : ∀ s e k, look (step s e) k = if k = e.1 then some e.2 else look s k)
    (hnodup : (entries.map Prod.fst).Nodup) {f : K → Option V}
    (hf : ∀ k v, (k, v) ∈ entries ↔ f k = some v) {s : S} (hs : ∀ k, look s k = none) (k : K) :
    look (entries.foldl step s) k = f k := by
  cases hk : f k with
  | some v => exact look_foldl_of_mem hstep hnodup ((hf k v).mpr hk) s
  | none =>
    rw [look_foldl_of_notMem hstep ?_, hs]
    intro hmem
    obtain ⟨⟨_, v⟩, he, rfl⟩ := List.mem_map.mp hmem
    rw [hf, hk] at he
    cases he

end

/-- The values are changed on the way. -/
theorem lookup_ofEntries_map (le : K → K → Bool) (m : FiniteMap K V) (f : V → W) (k : K) :
    (ofEntries ((m.entriesBy le).map fun e ↦ (e.1, f e.2))).lookup k = (m.lookup k).map f := by
  have hnodup : (((m.entriesBy le).map fun e ↦ (e.1, f e.2)).map Prod.fst).Nodup := by
    rw [List.map_map]
    exact nodup_entriesBy
  have hmem (k : K) (w : W) : (k, w) ∈ (m.entriesBy le).map (fun e ↦ (e.1, f e.2)) ↔
      (m.lookup k).map f = some w := by
    simp only [List.mem_map, Prod.mk.injEq, Prod.exists, Option.map_eq_some_iff, mem_entriesBy]
    constructor
    · rintro ⟨_, v, hv, rfl, rfl⟩
      exact ⟨v, hv, rfl⟩
    · rintro ⟨v, hv, rfl⟩
      exact ⟨k, v, hv, rfl, rfl⟩
  have hstep (m : FiniteMap K W) (e : K × W) (k : K) :
      (m.insert e.1 e.2).lookup k = if k = e.1 then some e.2 else m.lookup k :=
    lookup_insert_ite m e.1 k e.2
  exact look_foldl (fun (m : FiniteMap K W) k ↦ m.lookup k) hstep hnodup hmem (fun k ↦ AList.lookup_empty k) k

theorem lookup_ofEntries (le : K → K → Bool) (m : FiniteMap K V) (k : K) :
    (ofEntries (m.entriesBy le)).lookup k = m.lookup k := by
  have hall := lookup_ofEntries_map le m id k
  rw [Option.map_id_fun, id_eq] at hall
  rw [← hall]
  exact congrArg (fun entries ↦ (ofEntries entries).lookup k) (List.map_id _).symm

/-! ## Maps of maps -/

section Nested

variable {L : Type} [DecidableEq L] {m : FiniteMap K (FiniteMap L V)} {leK : K → K → Bool}
  {leL : L → L → Bool}

/-- The entries of the inner maps, under both keys. -/
def nestedEntries (leK : K → K → Bool) (leL : L → L → Bool) (m : FiniteMap K (FiniteMap L V)) :
    List ((K × L) × V) :=
  (m.entriesBy leK).flatMap fun outer ↦
    (outer.2.entriesBy leL).map fun inner ↦ ((outer.1, inner.1), inner.2)

/-- The maps of maps with these entries. -/
def ofNested (entries : List ((K × L) × V)) : FiniteMap K (FiniteMap L V) :=
  entries.foldl (fun m e ↦ m.insert e.1.1 (((m.lookup e.1.1).getD ∅).insert e.1.2 e.2)) ∅

/-- What is kept under two keys. -/
def nested (m : FiniteMap K (FiniteMap L V)) (key : K × L) : Option V :=
  (m.lookup key.1).bind fun inner ↦ inner.lookup key.2

theorem mem_nestedEntries {key : K × L} {v : V} :
    (key, v) ∈ m.nestedEntries leK leL ↔ m.nested key = some v := by
  simp only [nestedEntries, List.mem_flatMap, List.mem_map, Prod.mk.injEq, Prod.exists, nested,
    Option.bind_eq_some_iff, mem_entriesBy]
  constructor
  · rintro ⟨k, inner, hk, l, w, hl, rfl, rfl⟩
    exact ⟨inner, hk, hl⟩
  · rintro ⟨inner, hk, hl⟩
    exact ⟨key.1, inner, hk, key.2, v, hl, rfl, rfl⟩

theorem nodup_nestedEntries : ((m.nestedEntries leK leL).map Prod.fst).Nodup := by
  rw [nestedEntries, List.map_flatMap, List.nodup_flatMap]
  constructor
  · intro outer _
    have hinner : ((outer.2.entriesBy leL).map fun inner ↦ ((outer.1, inner.1), inner.2)).map
        Prod.fst = ((outer.2.entriesBy leL).map Prod.fst).map (Prod.mk outer.1) := by
      rw [List.map_map, List.map_map]
      rfl
    rw [hinner]
    exact nodup_entriesBy.map (Prod.mk_right_injective outer.1)
  · refine (List.pairwise_map.mp nodup_entriesBy).imp ?_
    intro left right hne key hleft hright
    simp only [List.map_map, List.mem_map, Function.comp_apply] at hleft hright
    obtain ⟨_, _, rfl⟩ := hleft
    obtain ⟨_, _, heq⟩ := hright
    exact hne (congrArg Prod.fst heq).symm

/-- Empty inner maps are lost. -/
theorem nested_ofNested (key : K × L) :
    (ofNested (m.nestedEntries leK leL)).nested key = m.nested key := by
  have hstep (m : FiniteMap K (FiniteMap L V)) (e : (K × L) × V) (key : K × L) :
      nested (m.insert e.1.1 (((m.lookup e.1.1).getD ∅).insert e.1.2 e.2)) key =
        if key = e.1 then some e.2 else nested m key := by
    obtain ⟨⟨k, l⟩, v⟩ := e
    obtain ⟨k', l'⟩ := key
    rw [nested, lookup_insert_ite]
    by_cases hk : k' = k
    · subst hk
      rw [if_pos rfl, Option.bind_some, lookup_insert_ite, nested]
      by_cases hl : l' = l
      · rw [if_pos hl, if_pos (by rw [hl])]
      · rw [if_neg hl, if_neg fun heq ↦ hl (congrArg Prod.snd heq)]
        cases m.lookup k' with
        | none => exact AList.lookup_empty l'
        | some inner => rfl
    · rw [if_neg hk, if_neg fun heq ↦ hk (congrArg Prod.fst heq), nested]
  exact look_foldl nested hstep nodup_nestedEntries (fun _ _ ↦ mem_nestedEntries)
    (fun key ↦ by rw [nested, AList.lookup_empty, Option.bind_none]) key

end Nested

/-! ## Maps of lists -/

/-- The elements of the lists, each under its key. -/
def flatEntries (le : K → K → Bool) (m : FiniteMap K (List V)) : List (K × V) :=
  (m.entriesBy le).flatMap fun e ↦ e.2.map fun v ↦ (e.1, v)

theorem filter_flatMap_of_notMem {entries : List (K × List V)} {k : K}
    (h : k ∉ entries.map Prod.fst) :
    (entries.flatMap fun e ↦ e.2.map fun v ↦ (e.1, v)).filter (fun e ↦ e.1 = k) = [] := by
  rw [List.filter_eq_nil_iff]
  intro e he
  obtain ⟨outer, houter, he⟩ := List.mem_flatMap.mp he
  obtain ⟨v, -, rfl⟩ := List.mem_map.mp he
  simp only [decide_eq_true_eq]
  rintro rfl
  exact h (List.mem_map_of_mem houter)

theorem filter_flatMap_of_mem {entries : List (K × List V)} {k : K} {vs : List V}
    (hnodup : (entries.map Prod.fst).Nodup) (h : (k, vs) ∈ entries) :
    ((entries.flatMap fun e ↦ e.2.map fun v ↦ (e.1, v)).filter fun e ↦ e.1 = k) =
      vs.map fun v ↦ (k, v) := by
  induction entries with
  | nil => cases h
  | cons e entries ih =>
    rw [List.map_cons, List.nodup_cons] at hnodup
    rw [List.flatMap_cons, List.filter_append]
    cases List.mem_cons.mp h with
    | inl heq =>
      subst heq
      rw [filter_flatMap_of_notMem hnodup.1, List.append_nil, List.filter_eq_self]
      intro e he
      obtain ⟨v, -, rfl⟩ := List.mem_map.mp he
      exact decide_eq_true rfl
    | inr h =>
      have hnone : (e.2.map fun v ↦ (e.1, v)).filter (fun e ↦ e.1 = k) = [] := by
        rw [List.filter_eq_nil_iff]
        intro e' he'
        obtain ⟨v, -, rfl⟩ := List.mem_map.mp he'
        simp only [decide_eq_true_eq]
        rintro rfl
        exact hnodup.1 (List.mem_map.mpr ⟨_, h, rfl⟩)
      rw [hnone, List.nil_append, ih hnodup.2 h]

/-- A list is never left empty. -/
theorem ne_nil_of_lookup_collect {pairs : List (K × V)} {k : K} {vs : List V}
    (h : (collect pairs).lookup k = some vs) : vs ≠ [] := by
  have hstep (pairs : List (K × V)) (m : FiniteMap K (List V))
      (hm : ∀ k vs, m.lookup k = some vs → vs ≠ []) : ∀ k vs,
        (pairs.foldl (fun m e ↦ m.insert e.1 ((m.lookup e.1).getD [] ++ [e.2])) m).lookup k =
          some vs → vs ≠ [] := by
    induction pairs generalizing m with
    | nil => exact hm
    | cons e pairs ih =>
      refine ih _ fun k vs hk ↦ ?_
      rw [lookup_insert_ite] at hk
      split_ifs at hk
      · rw [← Option.some.inj hk]
        exact List.append_ne_nil_of_right_ne_nil _ (List.cons_ne_nil _ _)
      · exact hm k vs hk
  refine hstep pairs ∅ (fun k vs hk ↦ ?_) k vs h
  rw [AList.lookup_empty] at hk
  cases hk

theorem lookup_collect_flatEntries {le : K → K → Bool} {m : FiniteMap K (List V)}
    (hne : ∀ k vs, m.lookup k = some vs → vs ≠ []) (k : K) :
    (collect (m.flatEntries le)).lookup k = m.lookup k := by
  have hall := getD_lookup_collect (m.flatEntries le) k
  cases hk : m.lookup k with
  | some vs =>
    rw [flatEntries, filter_flatMap_of_mem nodup_entriesBy (mem_entriesBy.mpr hk), List.map_map,
      ← flatEntries] at hall
    have hvs : vs.map (Prod.snd ∘ fun v ↦ (k, v)) = vs := List.map_id vs
    rw [hvs] at hall
    cases hc : (collect (m.flatEntries le)).lookup k with
    | some vs' => rw [hc, Option.getD_some] at hall; rw [hall]
    | none =>
      rw [hc, Option.getD_none] at hall
      exact absurd hall.symm (hne k vs hk)
  | none =>
    have hnot : k ∉ (m.entriesBy le).map Prod.fst := by
      intro hmem
      obtain ⟨⟨_, vs⟩, he, rfl⟩ := List.mem_map.mp hmem
      rw [mem_entriesBy, hk] at he
      cases he
    rw [flatEntries, filter_flatMap_of_notMem hnot, ← flatEntries] at hall
    cases hc : (collect (m.flatEntries le)).lookup k with
    | none => rfl
    | some vs =>
      rw [hc, Option.getD_some] at hall
      exact absurd hall (ne_nil_of_lookup_collect hc)

/-! ## Traversals -/

omit [DecidableEq K] in
/-- What undoes every step undoes the traversal. -/
theorem mapM_of_mapM {E : Type} {f : V → Except E W} {g : W → Except E V} {P : W → Prop}
    (hundo : ∀ v w, f v = .ok w → P w → g w = .ok v) {l : List V} {l' : List W}
    (h : l.mapM f = .ok l') (hl' : ∀ w ∈ l', P w) : l'.mapM g = .ok l := by
  have hmap := map_eq_of_mapM h
  clear h
  induction l generalizing l' with
  | nil =>
    rw [List.map_nil, eq_comm, List.map_eq_nil_iff] at hmap
    rw [hmap]
    rfl
  | cons v l ih =>
    obtain ⟨w, rest, rfl, hv, hrest⟩ := List.map_eq_cons_iff.mp hmap.symm
    rw [List.forall_mem_cons] at hl'
    rw [List.mapM_cons, hundo v w hv.symm hl'.1, ih hl'.2 hrest.symm]
    rfl

end NemoMessenger.Data.FiniteMap
