import BackOffice.Sorted.Set
/-!
# Sorted tables

A finite map is kept as its list of entries in increasing order of their keys, so that the order
in which a table is written out is fixed by its keys alone.  `get?_insert`, `get?_erase` and
`get?_filterKeys` say what each operation does to look-up.
-/
namespace BackOffice

/-- Puts an entry into a list of entries in order of their keys, in place of one with its key. -/
def putSorted {κ ν : Type} [Ord κ] (k : κ) (v : ν) : List (κ × ν) → List (κ × ν)
  | []     => [(k, v)]
  | e :: l => match compare k e.1 with
    | .lt => (k, v) :: e :: l
    | .eq => (k, v) :: l
    | .gt => e :: putSorted k v l

/-- Every entry has a key before the keys of all that follow it. -/
abbrev KeysIncreasing {κ ν : Type} [Ord κ] (l : List (κ × ν)) : Prop :=
  l.Pairwise (fun a b => compare a.1 b.1 = .lt)

theorem mem_putSorted {κ ν : Type} [Ord κ] (k : κ) (v : ν) (e : κ × ν) (l : List (κ × ν)) :
    e ∈ putSorted k v l → e = (k, v) ∨ e ∈ l := by
  induction l with
  | nil => intro h; exact .inl (List.mem_singleton.1 h)
  | cons a l ih =>
    unfold putSorted
    split
    · intro h; exact List.mem_cons.1 h
    · intro h
      rcases List.mem_cons.1 h with h | h
      · exact .inl h
      · exact .inr (List.mem_cons_of_mem _ h)
    · intro h
      rcases List.mem_cons.1 h with h | h
      · exact .inr (List.mem_cons.2 (.inl h))
      · exact (ih h).imp id (List.mem_cons_of_mem _)

theorem keysIncreasing_putSorted {κ ν : Type} [Ord κ] [Std.TransOrd κ] [Std.LawfulEqOrd κ]
    (k : κ) (v : ν) (l : List (κ × ν)) (h : KeysIncreasing l) :
    KeysIncreasing (putSorted k v l) := by
  induction l with
  | nil => exact List.pairwise_singleton _ _
  | cons a l ih =>
    obtain ⟨ha, hl⟩ := List.pairwise_cons.1 h
    unfold putSorted
    split
    · rename_i hk
      refine List.pairwise_cons.2 ⟨?_, h⟩
      intro c hc
      rcases List.mem_cons.1 hc with rfl | hc
      · exact hk
      · exact Std.TransCmp.lt_trans hk (ha c hc)
    · rename_i hk
      rw [Std.compare_eq_iff_eq] at hk
      exact List.pairwise_cons.2 ⟨fun c hc => by rw [hk]; exact ha c hc, hl⟩
    · rename_i hk
      refine List.pairwise_cons.2 ⟨?_, ih hl⟩
      intro c hc
      rcases mem_putSorted k v c l hc with rfl | hc
      · exact Std.OrientedCmp.gt_iff_lt.1 hk
      · exact ha c hc

/-- Of what is put in under one key the last counts. -/
theorem putSorted_putSorted {κ ν : Type} [Ord κ] [Std.LawfulEqOrd κ] (k : κ) (v w : ν) :
    ∀ l : List (κ × ν), putSorted k w (putSorted k v l) = putSorted k w l
  | [] => by simp only [putSorted, Std.compare_eq_iff_eq.2]
  | e :: l => by
    cases h : compare k e.1 with
    | lt => simp only [putSorted, h, Std.compare_eq_iff_eq.2]
    | eq => simp only [putSorted, h, Std.compare_eq_iff_eq.2]
    | gt => simp only [putSorted, h, putSorted_putSorted k v w l]

/-- The entries of all other keys stay as they are, in their order. -/
theorem filter_ne_putSorted {κ ν : Type} [Ord κ] [Std.LawfulEqOrd κ] [DecidableEq κ] (k : κ) (v : ν) :
    ∀ l : List (κ × ν), (putSorted k v l).filter (fun e => e.1 != k) = l.filter (fun e => e.1 != k)
  | [] => by simp [putSorted]
  | e :: l => by
    cases h : compare k e.1 with
    | lt => simp [putSorted, h]
    | eq => simp [putSorted, ← Std.compare_eq_iff_eq.1 h]
    | gt => simp only [putSorted, h, List.filter_cons, filter_ne_putSorted k v l]

/-- A finite map as its entries in order of their keys. -/
structure Table (κ ν : Type) [Ord κ] where
  entries : List (κ × ν)
  increasing : KeysIncreasing entries

namespace Table

variable {κ ν : Type} [Ord κ]

def empty : Table κ ν := ⟨[], List.Pairwise.nil⟩

instance : Inhabited (Table κ ν) := ⟨empty⟩
instance : EmptyCollection (Table κ ν) := ⟨empty⟩

instance [DecidableEq κ] [DecidableEq ν] : DecidableEq (Table κ ν) := fun s t =>
  if h : s.entries = t.entries then
    isTrue (by cases s; cases t; cases h; rfl)
  else isFalse (fun e => h (congrArg entries e))

def size (t : Table κ ν) : Nat := t.entries.length

def isEmpty (t : Table κ ν) : Bool := t.entries.isEmpty

def keys (t : Table κ ν) : List κ := t.entries.map Prod.fst

def values (t : Table κ ν) : List ν := t.entries.map Prod.snd

/-- The value of the first entry with key `k`. -/
def lookup [DecidableEq κ] (k : κ) : List (κ × ν) → Option ν
  | []     => none
  | e :: l => if e.1 = k then some e.2 else lookup k l

def get? [DecidableEq κ] (t : Table κ ν) (k : κ) : Option ν := lookup k t.entries

def contains [DecidableEq κ] (t : Table κ ν) (k : κ) : Bool := (t.get? k).isSome

/-- The entries whose keys satisfy `p`. -/
def filterKeys (p : κ → Bool) (t : Table κ ν) : Table κ ν :=
  ⟨t.entries.filter (fun e => p e.1), t.increasing.filter _⟩

def erase [DecidableEq κ] (k : κ) (t : Table κ ν) : Table κ ν := t.filterKeys (fun l => l != k)

/-- The same keys with their values changed. -/
def mapValues {ω : Type} (f : κ → ν → ω) (t : Table κ ν) : Table κ ω :=
  ⟨t.entries.map (fun e => (e.1, f e.1 e.2)), List.pairwise_map.2 t.increasing⟩

/-- Changes the value of `k`, if it has one. -/
def adjust [DecidableEq κ] (k : κ) (f : ν → ν) (t : Table κ ν) : Table κ ν :=
  t.mapValues (fun l v => if l = k then f v else v)

/-- The set of keys whose entries satisfy `p`. -/
def keysWhere (p : κ → ν → Bool) (t : Table κ ν) : SortedSet κ :=
  ⟨(t.entries.filter (fun e => p e.1 e.2)).map Prod.fst,
    List.pairwise_map.2 (t.increasing.filter _)⟩

variable [Std.TransOrd κ] [Std.LawfulEqOrd κ]

/-- Gives `k` the value `v`, whether or not it had one. -/
def insert (k : κ) (v : ν) (t : Table κ ν) : Table κ ν :=
  ⟨putSorted k v t.entries, keysIncreasing_putSorted k v t.entries t.increasing⟩

/-- The table of a list of entries; of entries with one key the last wins. -/
def ofList (l : List (κ × ν)) : Table κ ν := l.foldl (fun t e => t.insert e.1 e.2) empty

omit [Std.TransOrd κ] in
theorem lookup_putSorted [DecidableEq κ] (k j : κ) (v : ν) (l : List (κ × ν)) :
    lookup j (putSorted k v l) = if k = j then some v else lookup j l := by
  induction l with
  | nil => rfl
  | cons a l ih =>
    unfold putSorted
    split
    · rfl
    · rename_i h
      rw [Std.compare_eq_iff_eq] at h
      simp only [lookup]
      by_cases hj : k = j
      · simp [hj]
      · have : ¬ a.1 = j := fun e => hj (h.trans e)
        simp [hj, this]
    · rename_i h
      have hne : a.1 ≠ k := fun e => by
        rw [e, Std.compare_eq_iff_eq.2 rfl] at h; exact Ordering.noConfusion h
      simp only [lookup, ih]
      by_cases hj : a.1 = j
      · have : ¬ k = j := fun e => hne (hj.trans e.symm)
        simp [hj, this]
      · simp [hj]

theorem get?_insert [DecidableEq κ] (k j : κ) (v : ν) (t : Table κ ν) :
    (t.insert k v).get? j = if k = j then some v else t.get? j :=
  lookup_putSorted k j v t.entries

omit [Ord κ] [Std.TransOrd κ] [Std.LawfulEqOrd κ] in
theorem lookup_filter [DecidableEq κ] (p : κ → Bool) (k : κ) (l : List (κ × ν)) :
    lookup k (l.filter (fun e => p e.1)) = if p k then lookup k l else none := by
  induction l with
  | nil => simp [lookup]
  | cons a l ih =>
    by_cases ha : p a.1 = true
    · simp only [List.filter_cons, ha, if_true, lookup, ih]
      by_cases hk : a.1 = k
      · subst hk; simp [ha]
      · simp [hk]
    · rw [show (a :: l).filter (fun e => p e.1) = l.filter (fun e => p e.1) by simp [ha], ih]
      by_cases hk : a.1 = k
      · subst hk; simp [ha]
      · simp [lookup, hk]

omit [Std.TransOrd κ] [Std.LawfulEqOrd κ] in
theorem get?_filterKeys [DecidableEq κ] (p : κ → Bool) (k : κ) (t : Table κ ν) :
    (t.filterKeys p).get? k = if p k then t.get? k else none :=
  lookup_filter p k t.entries

omit [Std.TransOrd κ] [Std.LawfulEqOrd κ] in
theorem get?_erase [DecidableEq κ] (k j : κ) (t : Table κ ν) :
    (t.erase k).get? j = if j = k then none else t.get? j := by
  rw [erase, get?_filterKeys]
  by_cases h : j = k <;> simp [h]

theorem get?_insert_cases [DecidableEq κ] {k j : κ} {v w : ν} {t : Table κ ν} (h : (t.insert k v).get? j = some w) :
    (j = k ∧ w = v) ∨ t.get? j = some w := by
  rw [get?_insert] at h
  split at h
  · rename_i hk
    exact .inl ⟨hk.symm, (Option.some.inj h).symm⟩
  · exact .inr h

theorem get?_foldl_insert [DecidableEq κ] (k : κ) (v : ν) : ∀ (l : List (κ × ν)) (t : Table κ ν),
    (l.foldl (fun t e => t.insert e.1 e.2) t).get? k = some v ↔
      (∃ before after, l = before ++ (k, v) :: after ∧ ∀ e ∈ after, e.1 ≠ k) ∨
        (∀ e ∈ l, e.1 ≠ k) ∧ t.get? k = some v
  | [], t => by simp
  | a :: l, t => by
    rw [List.foldl_cons, get?_foldl_insert k v l, get?_insert]
    constructor
    · rintro (⟨before, after, rfl, hafter⟩ | ⟨hl, hv⟩)
      · exact .inl ⟨a :: before, after, rfl, hafter⟩
      · split at hv
        · rename_i hk
          cases hv; subst hk
          exact .inl ⟨[], l, rfl, hl⟩
        · rename_i hk
          exact .inr ⟨List.forall_mem_cons.2 ⟨hk, hl⟩, hv⟩
    · rintro (⟨before, after, he, hafter⟩ | ⟨hl, hv⟩)
      · cases before with
        | nil => cases he; exact .inr ⟨hafter, if_pos rfl⟩
        | cons b before => cases he; exact .inl ⟨before, after, rfl, hafter⟩
      · obtain ⟨ha, hl⟩ := List.forall_mem_cons.1 hl
        exact .inr ⟨hl, by rw [if_neg ha]; exact hv⟩

/-- Of the entries of a list that have one key the last counts. -/
theorem get?_ofList_eq_some_iff [DecidableEq κ] {k : κ} {v : ν} {l : List (κ × ν)} :
    (ofList l).get? k = some v ↔ ∃ before after, l = before ++ (k, v) :: after ∧ ∀ e ∈ after, e.1 ≠ k := by
  rw [ofList, get?_foldl_insert]
  exact or_iff_left (fun h => by cases h.2)

omit [Std.TransOrd κ] [Std.LawfulEqOrd κ] in
theorem get?_of_erase [DecidableEq κ] {k j : κ} {w : ν} {t : Table κ ν} (h : (t.erase k).get? j = some w) :
    t.get? j = some w := by
  rw [get?_erase] at h
  split at h
  · cases h
  · exact h

omit [Ord κ] [Std.TransOrd κ] [Std.LawfulEqOrd κ] in
theorem lookup_map [DecidableEq κ] {ω : Type} (f : κ → ν → ω) (k : κ) (l : List (κ × ν)) :
    lookup k (l.map (fun e => (e.1, f e.1 e.2))) = (lookup k l).map (f k) := by
  induction l with
  | nil => rfl
  | cons a l ih =>
    simp only [List.map_cons, lookup]
    by_cases h : a.1 = k
    · subst h; simp
    · simp [h, ih]

omit [Std.TransOrd κ] [Std.LawfulEqOrd κ] in
theorem get?_mapValues [DecidableEq κ] {ω : Type} (f : κ → ν → ω) (k : κ) (t : Table κ ν) :
    (t.mapValues f).get? k = (t.get? k).map (f k) :=
  lookup_map f k t.entries

omit [Std.TransOrd κ] [Std.LawfulEqOrd κ] in
theorem get?_adjust [DecidableEq κ] (k j : κ) (f : ν → ν) (t : Table κ ν) :
    (t.adjust k f).get? j = if j = k then (t.get? j).map f else t.get? j := by
  rw [adjust, get?_mapValues]
  by_cases h : j = k
  · simp [h]
  · cases t.get? j <;> simp [h]

omit [Ord κ] [Std.TransOrd κ] [Std.LawfulEqOrd κ] in
theorem mem_of_lookup [DecidableEq κ] {k : κ} {v : ν} :
    ∀ {l : List (κ × ν)}, lookup k l = some v → (k, v) ∈ l
  | [], h => by cases h
  | a :: l, h => by
    unfold lookup at h
    split at h
    · rename_i hk
      cases h; subst hk
      exact List.mem_cons_self
    · exact List.mem_cons_of_mem _ (mem_of_lookup h)

omit [Std.TransOrd κ] in
theorem lookup_of_mem [DecidableEq κ] {k : κ} {v : ν} :
    ∀ {l : List (κ × ν)}, KeysIncreasing l → (k, v) ∈ l → lookup k l = some v
  | [], _, h => by cases h
  | a :: l, hl, h => by
    obtain ⟨ha, hl'⟩ := List.pairwise_cons.1 hl
    unfold lookup
    rcases List.mem_cons.1 h with rfl | h
    · simp
    · have hne : ¬ a.1 = k := fun e => by
        have hlt := ha (k, v) h
        rw [Std.compare_eq_iff_eq.2 e] at hlt; exact Ordering.noConfusion hlt
      rw [if_neg hne]
      exact lookup_of_mem hl' h

omit [Std.TransOrd κ] in
/-- There is one entry of each key. -/
theorem filter_key_of_lookup [DecidableEq κ] {k : κ} {v : ν} :
    ∀ {l : List (κ × ν)}, KeysIncreasing l → lookup k l = some v → l.filter (fun e => e.1 == k) = [(k, v)]
  | [], _, h => by cases h
  | e :: l, hl, h => by
    obtain ⟨he, hl'⟩ := List.pairwise_cons.1 hl
    unfold lookup at h
    by_cases hk : e.1 = k
    · rw [if_pos hk] at h
      cases h
      subst hk
      have hnone : l.filter (fun a => a.1 == e.1) = [] := by
        refine List.filter_eq_nil_iff.2 fun a ha hsame => ?_
        have hlt := he a ha
        rw [Std.compare_eq_iff_eq.2 (beq_iff_eq.1 hsame).symm] at hlt
        cases hlt
      rw [List.filter_cons_of_pos (by simp), hnone]
    · rw [if_neg hk] at h
      rw [List.filter_cons_of_neg (by simpa using hk)]
      exact filter_key_of_lookup hl' h

omit [Std.TransOrd κ] in
theorem get?_eq_some_iff [DecidableEq κ] {k : κ} {v : ν} {t : Table κ ν} :
    t.get? k = some v ↔ (k, v) ∈ t.entries :=
  ⟨mem_of_lookup, lookup_of_mem t.increasing⟩

omit [Std.TransOrd κ] in
theorem adjust_of_absent [DecidableEq κ] {k : κ} {t : Table κ ν} (h : t.get? k = none) (f : ν → ν) :
    t.adjust k f = t := by
  obtain ⟨entries, increasing⟩ := t
  unfold adjust mapValues
  congr 1
  refine (List.map_congr_left fun e he => ?_).trans (List.map_id entries)
  have hne : e.1 ≠ k := by
    rintro rfl
    rw [get?_eq_some_iff.2 he] at h; cases h
  simp [hne]

omit [Std.TransOrd κ] in
theorem erase_of_absent [DecidableEq κ] {k : κ} {t : Table κ ν} (h : t.get? k = none) : t.erase k = t := by
  obtain ⟨entries, increasing⟩ := t
  unfold erase filterKeys
  congr 1
  refine List.filter_eq_self.2 fun e he => ?_
  have hne : e.1 ≠ k := by
    rintro rfl
    rw [get?_eq_some_iff.2 he] at h; cases h
  simp [hne]

omit [Std.TransOrd κ] in
theorem mem_keysWhere [DecidableEq κ] (p : κ → ν → Bool) (k : κ) (t : Table κ ν) :
    k ∈ t.keysWhere p ↔ ∃ v, t.get? k = some v ∧ p k v = true := by
  constructor
  · intro h
    obtain ⟨e, he, rfl⟩ := List.mem_map.1 h
    obtain ⟨hmem, hp⟩ := List.mem_filter.1 he
    exact ⟨e.2, get?_eq_some_iff.2 hmem, hp⟩
  · rintro ⟨v, hv, hp⟩
    exact List.mem_map.2 ⟨(k, v), List.mem_filter.2 ⟨get?_eq_some_iff.1 hv, hp⟩, rfl⟩

omit [Std.TransOrd κ] [Std.LawfulEqOrd κ] in
theorem get?_empty [DecidableEq κ] (k : κ) : (empty : Table κ ν).get? k = none := rfl

omit [Std.TransOrd κ] in
theorem mem_keys [DecidableEq κ] (k : κ) (t : Table κ ν) : k ∈ t.keys ↔ ∃ v, t.get? k = some v := by
  constructor
  · intro h
    obtain ⟨e, he, rfl⟩ := List.mem_map.1 h
    exact ⟨e.2, get?_eq_some_iff.2 he⟩
  · rintro ⟨v, hv⟩
    exact List.mem_map.2 ⟨(k, v), get?_eq_some_iff.1 hv, rfl⟩

omit [Std.TransOrd κ] [Std.LawfulEqOrd κ] in
theorem increasing_keys (t : Table κ ν) : Increasing t.keys := List.pairwise_map.2 t.increasing

theorem get?_foldl_tabulate [DecidableEq κ] (f : κ → ν) (k : κ) : ∀ (l : List κ) (t : Table κ ν),
    ((l.map (fun j => (j, f j))).foldl (fun t e => t.insert e.1 e.2) t).get? k = if k ∈ l then some (f k) else t.get? k
  | [], t => by simp
  | a :: l, t => by
    rw [List.map_cons, List.foldl_cons, get?_foldl_tabulate f k l, get?_insert]
    by_cases hl : k ∈ l
    · simp [hl]
    · by_cases ha : a = k
      · simp [ha]
      · simp [hl, ha, Ne.symm ha]

/-- A table of a function holds its value at each key of the list. -/
theorem get?_tabulate [DecidableEq κ] (f : κ → ν) (l : List κ) (k : κ) :
    (ofList (l.map (fun j => (j, f j)))).get? k = if k ∈ l then some (f k) else none :=
  get?_foldl_tabulate f k l empty

/-- **A table of a function has one entry for each key of the list**, in order of the keys. -/
theorem entries_tabulate [DecidableEq κ] (f : κ → ν) (l : List κ) :
    (ofList (l.map (fun j => (j, f j)))).entries = (SortedSet.ofList l).toList.map (fun k => (k, f k)) := by
  generalize ht : ofList (l.map (fun j => (j, f j))) = t
  have hget : ∀ k, t.get? k = if k ∈ l then some (f k) else none := fun k => by rw [← ht, get?_tabulate]
  have hkeys : t.keys = (SortedSet.ofList l).toList := by
    refine eq_of_increasing _ _ t.increasing_keys (SortedSet.increasing _) (fun k => ?_)
    rw [mem_keys, hget]
    refine Iff.trans ?_ (SortedSet.mem_ofList k l).symm
    by_cases hk : k ∈ l <;> simp [hk]
  rw [← hkeys, keys, List.map_map]
  refine ((List.map_congr_left fun e he => ?_).trans (List.map_id t.entries)).symm
  have hv := hget e.1
  rw [get?_eq_some_iff.2 he] at hv
  by_cases hk : e.1 ∈ l
  · rw [if_pos hk] at hv
    exact Prod.ext rfl (Option.some.inj hv).symm
  · rw [if_neg hk] at hv; cases hv

end Table
end BackOffice
