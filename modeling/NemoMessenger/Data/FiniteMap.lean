import Mathlib.Data.List.AList
import Mathlib.Data.List.Sort
import Mathlib.Algebra.BigOperators.Group.List.Basic
import Mathlib.Algebra.GroupWithZero.Nat

/-!
# Finite maps with enumerable entries

Hash maps, ordered maps and database tables are all `FiniteMap`s here: Mathlib's association lists
with distinct keys, at a constant value type. This module adds what the imperative containers offer
beyond `lookup`, `insert` and `erase`: retaining entries, mapping them, traversing them with a
function that may fail, upserting or erasing a list of keys, and summing over the entries. Each
operation is characterised by the lookups it leaves behind.
-/

namespace NemoMessenger.Data

abbrev FiniteMap (K V : Type) := AList fun _ : K ↦ V

namespace FiniteMap

variable {K V W E : Type} [DecidableEq K]

theorem lookup_insert_ite (m : FiniteMap K V) (k k' : K) (v : V) :
    (m.insert k v).lookup k' = if k' = k then some v else m.lookup k' := by
  by_cases h : k' = k
  · subst h
    simp
  · simp [h]

theorem lookup_erase_ite (m : FiniteMap K V) (k k' : K) :
    (m.erase k).lookup k' = if k' = k then none else m.lookup k' := by
  by_cases h : k' = k
  · subst h
    simp
  · simp [h, AList.lookup_erase_ne]

theorem lookup_eq_some_iff {m : FiniteMap K V} {k : K} {v : V} :
    m.lookup k = some v ↔ (⟨k, v⟩ : Sigma fun _ : K ↦ V) ∈ m.entries := by
  rw [← AList.mem_lookup_iff, Option.mem_def]

/-! ## Retaining and mapping entries -/

/-- Keep the entries that satisfy `p`. -/
def retain (p : K → V → Bool) (m : FiniteMap K V) : FiniteMap K V where
  entries := m.entries.filter fun e ↦ p e.1 e.2
  nodupKeys := m.nodupKeys.sublist List.filter_sublist

theorem lookup_retain (p : K → V → Bool) (m : FiniteMap K V) (k : K) :
    (retain p m).lookup k = (m.lookup k).filter (p k) := by
  apply Option.ext
  intro v
  rw [lookup_eq_some_iff, Option.filter_eq_some_iff, lookup_eq_some_iff]
  exact List.mem_filter

/-- Replace every entry by its image, dropping it when the image is `none`. -/
def filterMap (f : K → V → Option W) (m : FiniteMap K V) : FiniteMap K W where
  entries := m.entries.filterMap fun e ↦ (f e.1 e.2).map fun w ↦ ⟨e.1, w⟩
  nodupKeys := by
    have hkeys : ∀ l : List (Sigma fun _ : K ↦ V), l.NodupKeys →
        (l.filterMap fun e ↦ (f e.1 e.2).map fun w ↦
          (⟨e.1, w⟩ : Sigma fun _ : K ↦ W)).NodupKeys := by
      intro l hl
      rw [List.NodupKeys, List.keys, List.map_filterMap]
      have hsub : (l.filterMap fun e ↦ ((f e.1 e.2).map fun w ↦
          (⟨e.1, w⟩ : Sigma fun _ : K ↦ W)).map Sigma.fst).Sublist l.keys := by
        clear hl
        induction l with
        | nil => simp
        | cons e l ih =>
          cases hfe : f e.1 e.2 with
          | none => simpa [hfe] using ih.cons _
          | some w => simpa [hfe] using ih.cons_cons e.1
      exact List.Nodup.sublist hsub hl
    exact hkeys m.entries m.nodupKeys

theorem lookup_filterMap (f : K → V → Option W) (m : FiniteMap K V) (k : K) :
    (filterMap f m).lookup k = (m.lookup k).bind (f k) := by
  apply Option.ext
  intro w
  rw [lookup_eq_some_iff, Option.bind_eq_some_iff]
  constructor
  · intro h
    obtain ⟨e, he, hfe⟩ := List.mem_filterMap.mp h
    obtain ⟨w', hw', heq⟩ := Option.map_eq_some_iff.mp hfe
    cases heq
    exact ⟨e.2, lookup_eq_some_iff.mpr he, hw'⟩
  · rintro ⟨v, hv, hfv⟩
    refine List.mem_filterMap.mpr ⟨⟨k, v⟩, lookup_eq_some_iff.mp hv, ?_⟩
    simp [hfv]

omit [DecidableEq K] in
/-- A fallible function that succeeds on every element maps the list. -/
theorem mapM_eq_ok {f : V → Except E W} {g : V → W} {l : List V} (h : ∀ v ∈ l, f v = .ok (g v)) :
    l.mapM f = .ok (l.map g) := by
  induction l with
  | nil => rfl
  | cons v l ih =>
    rw [List.mapM_cons, h v List.mem_cons_self, ih fun w hw ↦ h w (List.mem_cons_of_mem _ hw)]
    rfl

omit [DecidableEq K] in
/-- A fallible function that succeeds on every element has a list of results. -/
theorem exists_mapM_eq_ok {f : V → Except E W} {l : List V} (h : ∀ v ∈ l, ∃ w, f v = .ok w) :
    ∃ l', l.mapM f = .ok l' ∧ l.map f = l'.map .ok := by
  induction l with
  | nil => exact ⟨[], rfl, rfl⟩
  | cons v l ih =>
    obtain ⟨w, hw⟩ := h v List.mem_cons_self
    obtain ⟨l', hl', hmap⟩ := ih fun u hu ↦ h u (List.mem_cons_of_mem _ hu)
    refine ⟨w :: l', ?_, ?_⟩
    · rw [List.mapM_cons, hw, hl']
      rfl
    · rw [List.map_cons, hw, hmap, List.map_cons]

/-- A successful traversal succeeds on every element, in order. -/
theorem map_eq_of_mapM {f : V → Except E W} {l : List V} {l' : List W} (h : l.mapM f = .ok l') :
    l.map f = l'.map .ok := by
  induction l generalizing l' with
  | nil =>
    cases h
    rfl
  | cons v l ih =>
    rw [List.mapM_cons] at h
    cases hv : f v with
    | error e =>
      rw [hv] at h
      cases h
    | ok first =>
      cases hl : l.mapM f with
      | error e =>
        rw [hv, hl] at h
        cases h
      | ok rest =>
        rw [hv, hl] at h
        cases h
        rw [List.map_cons, hv, ih hl, List.map_cons]

/-- A key that every single step keeps, a traversal keeps in order. -/
theorem map_of_mapM {X : Type} {f : V → Except E W} {g : V → X} {g' : W → X}
    (hg : ∀ v w, f v = .ok w → g' w = g v) {l : List V} {l' : List W} (h : l.mapM f = .ok l') :
    l'.map g' = l.map g := by
  have hmap := map_eq_of_mapM h
  clear h
  induction l generalizing l' with
  | nil =>
    rw [List.map_nil, eq_comm, List.map_eq_nil_iff] at hmap
    rw [hmap, List.map_nil, List.map_nil]
  | cons v l ih =>
    obtain ⟨w, rest, rfl, hv, hrest⟩ := List.map_eq_cons_iff.mp hmap.symm
    rw [List.map_cons, List.map_cons, ih hrest.symm, hg v w hv.symm]

/-- Every result of a successful traversal comes from an element. -/
theorem exists_of_mem_mapM {f : V → Except E W} {l : List V} {l' : List W}
    (h : l.mapM f = .ok l') {w : W} (hw : w ∈ l') : ∃ v ∈ l, f v = .ok w := by
  have hmem : Except.ok w ∈ l.map f := by
    rw [map_eq_of_mapM h]
    exact List.mem_map_of_mem hw
  obtain ⟨v, hv, heq⟩ := List.mem_map.mp hmem
  exact ⟨v, hv, heq⟩

/-- Apply a fallible function to every entry; the first failure fails the traversal. -/
def traverse (f : K → V → Except E (Option W)) (m : FiniteMap K V) :
    Except E (FiniteMap K W) :=
  match m.entries.mapM fun e ↦ f e.1 e.2 with
  | .error e => .error e
  | .ok _ => .ok (filterMap (fun k v ↦ (f k v).toOption.join) m)

theorem traverse_eq_ok {f : K → V → Except E (Option W)} {g : K → V → Option W}
    {m : FiniteMap K V} (h : ∀ k v, m.lookup k = some v → f k v = .ok (g k v)) :
    ∃ m', traverse f m = .ok m' ∧ ∀ k, m'.lookup k = (m.lookup k).bind (g k) := by
  refine ⟨filterMap (fun k v ↦ (f k v).toOption.join) m, ?_, ?_⟩
  · unfold traverse
    rw [mapM_eq_ok fun e he ↦ h e.1 e.2 (lookup_eq_some_iff.mpr he)]
  · intro k
    rw [lookup_filterMap]
    cases hv : m.lookup k with
    | none => rfl
    | some v => simp [h k v hv, Except.toOption]

/-- What a successful traversal leaves under a key is what `f` makes of the entry there. -/
theorem lookup_of_traverse {f : K → V → Except E (Option W)} {m : FiniteMap K V}
    {m' : FiniteMap K W} (h : traverse f m = .ok m') (k : K) :
    m'.lookup k = (m.lookup k).bind fun v ↦ (f k v).toOption.join := by
  unfold traverse at h
  split at h
  · cases h
  · cases h
    exact lookup_filterMap _ m k

/-- A traversal succeeds only where `f` does. -/
theorem eq_ok_of_traverse {f : K → V → Except E (Option W)} {m : FiniteMap K V}
    {m' : FiniteMap K W} (h : traverse f m = .ok m') {k : K} {v : V} (hv : m.lookup k = some v) :
    ∃ w, f k v = .ok w := by
  unfold traverse at h
  split at h
  · cases h
  · rename_i l hl
    have hmem := List.mem_map_of_mem (f := fun e : Sigma fun _ : K ↦ V ↦ f e.1 e.2)
      (lookup_eq_some_iff.mp hv)
    rw [map_eq_of_mapM hl, List.mem_map] at hmem
    obtain ⟨w, -, hw⟩ := hmem
    exact ⟨w, hw.symm⟩

/-! ## Bulk writes -/

/-- Insert `f k` at every key of the list. -/
def upsertAll (f : K → V) (keys : List K) (m : FiniteMap K V) : FiniteMap K V :=
  keys.foldl (fun m k ↦ m.insert k (f k)) m

theorem lookup_upsertAll (f : K → V) (keys : List K) (m : FiniteMap K V) (k : K) :
    (upsertAll f keys m).lookup k = if k ∈ keys then some (f k) else m.lookup k := by
  unfold upsertAll
  induction keys generalizing m with
  | nil => simp
  | cons key keys ih =>
    rw [List.foldl_cons, ih, lookup_insert_ite]
    by_cases hk : k = key
    · subst hk
      simp
    · simp [hk]

/-- Insertions of one value under one key leave it there, whatever else is inserted. -/
theorem lookup_foldl_insert {A : Type} (f : A → K) (g : A → V) {as : List A} {a : A} (ha : a ∈ as)
    (hsame : ∀ b ∈ as, f b = f a → g b = g a) (m : FiniteMap K V) :
    (as.foldl (fun m a ↦ m.insert (f a) (g a)) m).lookup (f a) = some (g a) := by
  have hkeep : ∀ (bs : List A) (m : FiniteMap K V), (∀ b ∈ bs, f b = f a → g b = g a) →
      m.lookup (f a) = some (g a) →
      (bs.foldl (fun m a ↦ m.insert (f a) (g a)) m).lookup (f a) = some (g a) := by
    intro bs
    induction bs with
    | nil => exact fun m _ h ↦ h
    | cons b bs ih =>
      intro m hbs h
      apply ih _ fun b' hb' ↦ hbs b' (List.mem_cons_of_mem _ hb')
      rw [lookup_insert_ite]
      split_ifs with hb
      · rw [hbs b List.mem_cons_self hb.symm]
      · exact h
  induction as generalizing m with
  | nil => cases ha
  | cons b as ih =>
    rw [List.foldl_cons]
    have hrest : ∀ b ∈ as, f b = f a → g b = g a :=
      fun b hb ↦ hsame b (List.mem_cons_of_mem _ hb)
    rcases List.mem_cons.mp ha with rfl | hmem
    · exact hkeep as _ hrest (AList.lookup_insert _)
    · exact ih hmem hrest _

/-- Retain entries by one predicate after the other. -/
theorem lookup_foldl_retain {A : Type} (p : A → K → V → Bool) (as : List A) (m : FiniteMap K V)
    (k : K) : (as.foldl (fun m a ↦ retain (p a) m) m).lookup k =
      (m.lookup k).filter fun v ↦ as.all fun a ↦ p a k v := by
  induction as generalizing m with
  | nil => cases h : m.lookup k <;> simp [h, Option.filter]
  | cons a as ih =>
    rw [List.foldl_cons, ih, lookup_retain, Option.filter_filter]
    simp only [List.all_cons]

theorem lookup_of_foldl_retain {A : Type} {p : A → K → V → Bool} {as : List A} {m : FiniteMap K V}
    {k : K} {v : V} (h : (as.foldl (fun m a ↦ retain (p a) m) m).lookup k = some v) :
    m.lookup k = some v := by
  rw [lookup_foldl_retain, Option.filter_eq_some_iff] at h
  exact h.1

/-- Insert entries one after the other; a key that is taken, or an entry that `check` rejects in the
map it meets, fails the whole. -/
def insertAll (error : E) (check : FiniteMap K V → K → V → Bool) :
    List (K × V) → FiniteMap K V → Except E (FiniteMap K V)
  | [], m => .ok m
  | (k, v) :: rest, m =>
    if (m.lookup k).isNone && check m k v then insertAll error check rest (m.insert k v)
    else .error error

/-- Entries of one map `final` that extend a submap of it are inserted when `check` accepts them in
every such submap. -/
theorem insertAll_eq_ok (error : E) (check : FiniteMap K V → K → V → Bool)
    {entries : List (K × V)} {m : FiniteMap K V} (final : K → Option V)
    (hnodup : (entries.map Prod.fst).Nodup) (hnew : ∀ e ∈ entries, m.lookup e.1 = none)
    (hentries : ∀ e ∈ entries, final e.1 = some e.2)
    (hsub : ∀ k v, m.lookup k = some v → final k = some v)
    (hcheck : ∀ (sub : FiniteMap K V) k v, (k, v) ∈ entries →
      (∀ k v, sub.lookup k = some v → final k = some v) → sub.lookup k = none → check sub k v) :
    ∃ m', insertAll error check entries m = .ok m' ∧
      ∀ k, m'.lookup k = if k ∈ entries.map Prod.fst then final k else m.lookup k := by
  induction entries generalizing m with
  | nil => exact ⟨m, rfl, by simp⟩
  | cons e rest ih =>
    obtain ⟨k, v⟩ := e
    have hk : m.lookup k = none := hnew (k, v) List.mem_cons_self
    have hv : final k = some v := hentries (k, v) List.mem_cons_self
    have hnotin : k ∉ rest.map Prod.fst := (List.nodup_cons.mp hnodup).1
    have hnew' : ∀ e ∈ rest, (m.insert k v).lookup e.1 = none := by
      intro e he
      have hne : e.1 ≠ k := by
        rintro rfl
        exact hnotin (List.mem_map_of_mem he)
      rw [lookup_insert_ite, if_neg hne]
      exact hnew e (List.mem_cons_of_mem _ he)
    have hsub' : ∀ k' v', (m.insert k v).lookup k' = some v' → final k' = some v' := by
      intro k' v' h
      rw [lookup_insert_ite] at h
      split_ifs at h with hk'
      · rw [hk', hv]
        exact h
      · exact hsub k' v' h
    obtain ⟨m', hm', hlookup⟩ := ih (List.nodup_cons.mp hnodup).2 hnew'
      (fun e he ↦ hentries e (List.mem_cons_of_mem _ he)) hsub'
      fun sub k v he ↦ hcheck sub k v (List.mem_cons_of_mem _ he)
    refine ⟨m', ?_, ?_⟩
    · rw [insertAll, if_pos, hm']
      rw [hk, hcheck m k v List.mem_cons_self hsub hk]
      rfl
    · intro k'
      rw [hlookup, lookup_insert_ite, List.map_cons]
      by_cases hk' : k' = k
      · subst hk'
        simp [hnotin, hv]
      · simp only [List.mem_cons, hk', if_false, false_or]

/-- What a bulk insertion leaves was there or was inserted. -/
theorem lookup_of_insertAll {error : E} {check : FiniteMap K V → K → V → Bool}
    {entries : List (K × V)} {m m' : FiniteMap K V} (h : insertAll error check entries m = .ok m')
    {k : K} {v : V} (hv : m'.lookup k = some v) : m.lookup k = some v ∨ (k, v) ∈ entries := by
  induction entries generalizing m with
  | nil =>
    cases h
    exact .inl hv
  | cons e rest ih =>
    obtain ⟨k', v'⟩ := e
    rw [insertAll] at h
    split_ifs at h
    rcases ih h with hold | hnew
    · rw [lookup_insert_ite] at hold
      split_ifs at hold with hk
      · cases hold
        exact .inr (hk ▸ List.mem_cons_self)
      · exact .inl hold
    · exact .inr (List.mem_cons_of_mem _ hnew)

/-- A bulk insertion succeeds on keys that are not taken only. -/
theorem lookup_eq_none_of_insertAll {error : E} {check : FiniteMap K V → K → V → Bool}
    {entries : List (K × V)} {m m' : FiniteMap K V} (h : insertAll error check entries m = .ok m')
    {e : K × V} (he : e ∈ entries) : m.lookup e.1 = none := by
  induction entries generalizing m with
  | nil => cases he
  | cons first rest ih =>
    rw [insertAll] at h
    split_ifs at h with hfree
    have hnone := Option.isNone_iff_eq_none.mp (Bool.and_eq_true_iff.mp hfree).1
    rcases List.mem_cons.mp he with rfl | hrest
    · exact hnone
    · have hlater := ih h hrest
      rw [lookup_insert_ite] at hlater
      split_ifs at hlater
      exact hlater

/-! ## Tables with composite keys -/

section Slice

variable {L : Type} [DecidableEq L]

/-- The entries whose first key component is `k`, under the second. -/
def slice (m : FiniteMap (K × L) V) (k : K) : FiniteMap L V where
  entries := m.entries.filterMap fun e ↦ if e.1.1 = k then some ⟨e.1.2, e.2⟩ else none
  nodupKeys := by
    have hkeys : ∀ l : List (Sigma fun _ : K × L ↦ V), l.NodupKeys →
        (l.filterMap fun e ↦ if e.1.1 = k then
          some (⟨e.1.2, e.2⟩ : Sigma fun _ : L ↦ V) else none).NodupKeys := by
      intro l hl
      induction l with
      | nil => simp
      | cons e l ih =>
        obtain ⟨⟨k₁, l₁⟩, v₁⟩ := e
        obtain ⟨hnew, hrest⟩ := List.nodupKeys_cons.mp hl
        by_cases he : k₁ = k
        · simp only [List.filterMap_cons, if_pos he]
          refine List.nodupKeys_cons.mpr ⟨?_, ih hrest⟩
          intro hmem
          obtain ⟨v, hv⟩ := List.exists_of_mem_keys hmem
          obtain ⟨⟨⟨k₂, l₂⟩, v₂⟩, he', heq⟩ := List.mem_filterMap.mp hv
          split_ifs at heq with hk
          cases heq
          subst he
          obtain rfl : k₂ = k₁ := hk
          exact hnew (List.mem_keys.mpr ⟨v₂, he'⟩)
        · simp only [List.filterMap_cons, if_neg he]
          exact ih hrest
    exact hkeys m.entries m.nodupKeys

theorem lookup_slice (m : FiniteMap (K × L) V) (k : K) (l : L) :
    (slice m k).lookup l = m.lookup (k, l) := by
  apply Option.ext
  intro v
  rw [lookup_eq_some_iff, lookup_eq_some_iff]
  constructor
  · intro h
    obtain ⟨e, he, heq⟩ := List.mem_filterMap.mp h
    split_ifs at heq with hk
    cases heq
    subst hk
    exact he
  · intro h
    exact List.mem_filterMap.mpr ⟨_, h, if_pos rfl⟩

end Slice

/-! ## Grouping a list by keys -/

/-- The values of a list of pairs, collected under their keys in list order. -/
def collect (pairs : List (K × V)) : FiniteMap K (List V) :=
  pairs.foldl (fun m e ↦ m.insert e.1 ((m.lookup e.1).getD [] ++ [e.2])) ∅

theorem getD_lookup_collect (pairs : List (K × V)) (k : K) :
    ((collect pairs).lookup k).getD [] = (pairs.filter fun e ↦ e.1 = k).map Prod.snd := by
  have hfold : ∀ m : FiniteMap K (List V),
      ((pairs.foldl (fun m e ↦ m.insert e.1 ((m.lookup e.1).getD [] ++ [e.2])) m).lookup k).getD []
        = (m.lookup k).getD [] ++ (pairs.filter fun e ↦ e.1 = k).map Prod.snd := by
    induction pairs with
    | nil => simp
    | cons e pairs ih =>
      intro m
      rw [List.foldl_cons, ih, lookup_insert_ite]
      by_cases he : e.1 = k
      · subst he
        simp
      · simp [he, Ne.symm he]
  rw [collect, hfold ∅]
  simp

/-! ## Ordered iteration -/

section Ordered

variable {V : Type}

/-- The keys in increasing order, as an ordered map iterates over them. -/
def sortedKeys (m : FiniteMap ℕ V) : List ℕ := m.keys.insertionSort (· ≤ ·)

theorem mem_sortedKeys {m : FiniteMap ℕ V} {k : ℕ} : k ∈ sortedKeys m ↔ (m.lookup k).isSome := by
  rw [sortedKeys, List.mem_insertionSort, AList.lookup_isSome, AList.mem_keys]

theorem pairwise_sortedKeys (m : FiniteMap ℕ V) : (sortedKeys m).Pairwise (· < ·) := by
  have hsorted : (sortedKeys m).Pairwise (· ≤ ·) := List.pairwise_insertionSort _ _
  have hnodup : (sortedKeys m).Nodup := (List.perm_insertionSort _ _).nodup_iff.mpr m.nodupKeys
  exact (hsorted.and hnodup).imp fun h ↦ lt_of_le_of_ne h.1 h.2

theorem head?_sortedKeys_le {m : FiniteMap ℕ V} {k k' : ℕ} (h : (sortedKeys m).head? = some k)
    (hk' : (m.lookup k').isSome) : k ≤ k' := by
  have hmem : k' ∈ sortedKeys m := mem_sortedKeys.mpr hk'
  have hsorted : (sortedKeys m).Pairwise (· ≤ ·) := List.pairwise_insertionSort _ _
  cases hkeys : sortedKeys m with
  | nil => simp [hkeys] at hmem
  | cons first rest =>
    rw [hkeys, List.head?_cons, Option.some_inj] at h
    rw [hkeys] at hmem hsorted
    subst h
    rcases List.mem_cons.mp hmem with rfl | hrest
    · exact le_rfl
    · exact (List.pairwise_cons.mp hsorted).1 k' hrest

theorem sortedKeys_eq_nil {m : FiniteMap ℕ V} (h : (sortedKeys m).head? = none) (k : ℕ) :
    m.lookup k = none := by
  rw [List.head?_eq_none_iff] at h
  have hnot : ¬ (m.lookup k).isSome := fun hk ↦ by simpa [h] using mem_sortedKeys.mpr hk
  simpa using hnot

/-- A list in increasing order of its keys is read back from a map that finds its elements. -/
theorem filterMap_sortedKeys {key : V → ℕ} {l : List V} (hl : (l.map key).Pairwise (· < ·))
    {m : FiniteMap ℕ V} (hm : ∀ k, m.lookup k = l.find? fun v ↦ key v = k) :
    (sortedKeys m).filterMap m.lookup = l := by
  have hfind : ∀ v ∈ l, m.lookup (key v) = some v := by
    intro v hv
    rw [hm]
    cases hfound : l.find? fun w ↦ key w = key v with
    | none => simpa using List.find?_eq_none.mp hfound v hv
    | some w =>
      have hw : key w = key v := by simpa using List.find?_some hfound
      have hnodup : (l.map key).Nodup := hl.imp Nat.ne_of_lt
      rw [List.inj_on_of_nodup_map hnodup (List.mem_of_find?_eq_some hfound) hv hw]
  have hkeys : sortedKeys m = l.map key := by
    have hperm : (sortedKeys m).Perm (l.map key) := by
      refine (List.perm_insertionSort _ _).trans ?_
      refine (List.perm_ext_iff_of_nodup m.nodupKeys (hl.imp Nat.ne_of_lt)).mpr fun k ↦ ?_
      have hmem : k ∈ m.keys ↔ (m.lookup k).isSome := by
        rw [AList.lookup_isSome, AList.mem_keys]
      refine hmem.trans ⟨fun hsome ↦ ?_, fun hk ↦ ?_⟩
      · obtain ⟨v, hv⟩ := Option.isSome_iff_exists.mp hsome
        rw [hm] at hv
        have hkey : key v = k := by simpa using List.find?_some hv
        exact List.mem_map.mpr ⟨v, List.mem_of_find?_eq_some hv, hkey⟩
      · obtain ⟨v, hv, rfl⟩ := List.mem_map.mp hk
        rw [hfind v hv]
        rfl
    exact hperm.eq_of_pairwise (fun a b _ _ hab hba ↦ le_antisymm hab hba)
      (List.pairwise_insertionSort _ _) (hl.imp Nat.le_of_lt)
  rw [hkeys, List.filterMap_map]
  calc
    l.filterMap (m.lookup ∘ key) = l.filterMap some := List.filterMap_congr hfind
    _ = l := List.filterMap_some

/-- Keeping some of the values keeps the order of the others. -/
theorem sortedKeys_filter {m kept : FiniteMap ℕ V} {p : V → Bool}
    (h : ∀ k, kept.lookup k = (m.lookup k).filter p) :
    sortedKeys kept = (sortedKeys m).filter fun k ↦ (m.lookup k).any p := by
  have hnodup (m : FiniteMap ℕ V) : (sortedKeys m).Nodup :=
    (List.perm_insertionSort _ _).nodup_iff.mpr m.nodupKeys
  have hsorted (m : FiniteMap ℕ V) : (sortedKeys m).Pairwise (· ≤ ·) :=
    List.pairwise_insertionSort _ _
  have hperm : (sortedKeys kept).Perm ((sortedKeys m).filter fun k ↦ (m.lookup k).any p) := by
    refine (List.perm_ext_iff_of_nodup (hnodup kept) ((hnodup m).filter _)).mpr fun k ↦ ?_
    rw [mem_sortedKeys, h, List.mem_filter, mem_sortedKeys]
    cases m.lookup k with
    | none => simp
    | some v => cases hv : p v <;> simp [Option.filter, hv]
  exact hperm.eq_of_pairwise (fun a b _ _ hab hba ↦ le_antisymm hab hba) (hsorted kept)
    ((hsorted m).filter _)

/-- The values in the order of their keys, when some of them are kept. -/
theorem filterMap_sortedKeys_filter {m kept : FiniteMap ℕ V} {p : V → Bool}
    (h : ∀ k, kept.lookup k = (m.lookup k).filter p) :
    (sortedKeys kept).filterMap kept.lookup = ((sortedKeys m).filterMap m.lookup).filter p := by
  rw [sortedKeys_filter h, List.filterMap_filter, List.filter_filterMap]
  refine List.filterMap_congr fun k _ ↦ ?_
  rw [h]
  cases m.lookup k with
  | none => rfl
  | some v => cases hv : p v <;> simp [Option.filter, hv]

theorem length_sortedKeys (m : FiniteMap ℕ V) : (sortedKeys m).length = m.entries.length := by
  rw [sortedKeys, List.length_insertionSort, AList.keys, List.keys, List.length_map]

end Ordered

/-! ## Sums over the entries -/

/-- The sum of `f` over the values of the map. -/
def sumBy (f : V → ℕ) (m : FiniteMap K V) : ℕ := (m.entries.map fun e ↦ f e.2).sum

theorem sumBy_erase (f : V → ℕ) {m : FiniteMap K V} {k : K} {v : V} (h : m.lookup k = some v) :
    sumBy f (m.erase k) + f v = sumBy f m := by
  have hmem : k ∈ m.entries.keys := by
    rw [← AList.keys, ← AList.mem_keys, ← AList.lookup_isSome, h]
    rfl
  obtain ⟨v', l₁, l₂, hl₁, hl, herase⟩ := List.exists_of_kerase hmem
  have hv : v' = v := by
    have hin : (⟨k, v'⟩ : Sigma fun _ : K ↦ V) ∈ m.entries := by
      rw [hl]
      simp
    have := lookup_eq_some_iff.mpr hin
    rw [h] at this
    exact (Option.some.inj this).symm
  subst hv
  have hentries : (m.erase k).entries = l₁ ++ l₂ := herase
  rw [sumBy, sumBy, hentries, hl]
  simp only [List.map_append, List.map_cons, List.sum_append, List.sum_cons]
  omega

theorem sumBy_insert (f : V → ℕ) {m : FiniteMap K V} {k : K} (v : V) (h : m.lookup k = none) :
    sumBy f (m.insert k v) = f v + sumBy f m := by
  have hnot : k ∉ m := AList.lookup_eq_none.mp h
  rw [sumBy, AList.entries_insert_of_notMem hnot]
  rfl

theorem sumBy_eq_zero (f : V → ℕ) {m : FiniteMap K V} (h : ∀ k, m.lookup k = none) :
    sumBy f m = 0 := by
  have hnil : m.entries = [] := by
    apply List.eq_nil_iff_forall_not_mem.mpr
    intro e he
    have := lookup_eq_some_iff.mpr he
    simp [h] at this
  rw [sumBy, hnil]
  rfl

theorem length_entries_insert_le (m : FiniteMap K V) (k : K) (v : V) :
    (m.insert k v).entries.length ≤ m.entries.length + 1 := by
  rw [AList.entries_insert, List.length_cons]
  exact Nat.succ_le_succ (List.kerase_sublist k m.entries).length_le

/-- A new key is one entry more. -/
theorem length_entries_insert {m : FiniteMap K V} {k : K} (h : m.lookup k = none) (v : V) :
    (m.insert k v).entries.length = m.entries.length + 1 := by
  rw [AList.entries_insert_of_notMem (AList.lookup_eq_none.mp h), List.length_cons]

/-- Keys that are all in a map are not more than its entries. -/
theorem length_le_of_keys {m : FiniteMap K V} {keys : List K} (hnodup : keys.Nodup)
    (hkeys : ∀ k ∈ keys, (m.lookup k).isSome) : keys.length ≤ m.entries.length := by
  have hsub : keys ⊆ m.keys := by
    intro k hk
    have hlive := hkeys k hk
    rwa [AList.lookup_isSome, AList.mem_keys] at hlive
  calc
    keys.length ≤ m.keys.length := (List.subperm_of_subset hnodup hsub).length_le
    _ = m.entries.length := by rw [AList.keys, List.keys, List.length_map]

/-- Removing an entry removes one entry. -/
theorem length_entries_erase {m : FiniteMap K V} {k : K} {v : V} (h : m.lookup k = some v) :
    (m.erase k).entries.length + 1 = m.entries.length := by
  have hsum := sumBy_erase (fun _ ↦ 1) h
  simpa [sumBy] using hsum

/-- The sum depends only on what the lookups weigh. -/
theorem sumBy_congr {f : V → ℕ} {g : W → ℕ} {m : FiniteMap K V} {m' : FiniteMap K W}
    (h : ∀ k, (m.lookup k).map f = (m'.lookup k).map g) : sumBy f m = sumBy g m' := by
  have hperm : (m.entries.map fun e ↦ (e.1, f e.2)).Perm (m'.entries.map fun e ↦ (e.1, g e.2)) := by
    have hmem {U : Type} (w : U → ℕ) (map : FiniteMap K U) (k : K) (n : ℕ) :
        (k, n) ∈ map.entries.map (fun e ↦ (e.1, w e.2)) ↔ (map.lookup k).map w = some n := by
      rw [List.mem_map, Option.map_eq_some_iff]
      constructor
      · rintro ⟨e, he, heq⟩
        cases heq
        exact ⟨e.2, lookup_eq_some_iff.mpr he, rfl⟩
      · rintro ⟨u, hu, rfl⟩
        exact ⟨⟨k, u⟩, lookup_eq_some_iff.mp hu, rfl⟩
    have hnodup {U : Type} (w : U → ℕ) (map : FiniteMap K U) :
        (map.entries.map fun e ↦ (e.1, w e.2)).Nodup := by
      apply List.Nodup.of_map Prod.fst
      rw [List.map_map]
      exact map.nodupKeys
    rw [List.perm_ext_iff_of_nodup (hnodup f m) (hnodup g m')]
    rintro ⟨k, n⟩
    rw [hmem, hmem, h]
  have hsum := (hperm.map Prod.snd).sum_eq
  rw [List.map_map, List.map_map] at hsum
  exact hsum

omit [DecidableEq K] in
/-- A sum over retained entries weighs the others with nothing. -/
theorem sumBy_retain (p : V → Bool) (f : V → ℕ) (m : FiniteMap K V) :
    sumBy f (retain (fun _ ↦ p) m) = sumBy (fun v ↦ if p v then f v else 0) m := by
  have hlist (l : List (Sigma fun _ : K ↦ V)) : ((l.filter fun e ↦ p e.2).map fun e ↦ f e.2).sum =
      (l.map fun e ↦ if p e.2 then f e.2 else 0).sum := by
    induction l with
    | nil => rfl
    | cons e l ih =>
      rw [List.map_cons, List.sum_cons, ← ih, List.filter_cons]
      split_ifs <;> simp
  exact hlist m.entries

omit [DecidableEq K] in
theorem sumBy_le_sumBy {f g : V → ℕ} (h : ∀ v, f v ≤ g v) (m : FiniteMap K V) :
    sumBy f m ≤ sumBy g m := by
  have hlist (l : List (Sigma fun _ : K ↦ V)) :
      (l.map fun e ↦ f e.2).sum ≤ (l.map fun e ↦ g e.2).sum := by
    induction l with
    | nil => rfl
    | cons e l ih =>
      rw [List.map_cons, List.map_cons, List.sum_cons, List.sum_cons]
      exact Nat.add_le_add (h e.2) ih
  exact hlist m.entries

theorem le_sumBy (f : V → ℕ) {m : FiniteMap K V} {k : K} {v : V} (h : m.lookup k = some v) :
    f v ≤ sumBy f m := by
  have := sumBy_erase f h
  omega

end FiniteMap

end NemoMessenger.Data
