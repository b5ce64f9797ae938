/-!
# Sorted sets

A finite set is kept as the strictly increasing list of its members.  Equal sets are then equal
values, and the order in which a set is written out is the order of its list.  `mem_insert`,
`mem_ofList` and `mem_sdiff` say what each operation does to membership, and `SortedSet.ext` that
membership is all there is to a set.
-/
namespace BackOffice

/-- Inserts into a strictly increasing list; a member that is there stays as it is. -/
def insertSorted {α : Type} [Ord α] (a : α) : List α → List α
  | []     => [a]
  | b :: l => match compare a b with
    | .lt => a :: b :: l
    | .eq => b :: l
    | .gt => b :: insertSorted a l

/-- Every element stands before all that follow it. -/
abbrev Increasing {α : Type} [Ord α] (l : List α) : Prop :=
  l.Pairwise (fun a b => compare a b = .lt)

theorem mem_insertSorted {α : Type} [Ord α] [Std.LawfulEqOrd α] (a x : α) (l : List α) :
    x ∈ insertSorted a l ↔ x = a ∨ x ∈ l := by
  induction l with
  | nil => simp [insertSorted]
  | cons b l ih =>
    unfold insertSorted
    split
    · simp
    · rename_i h
      rw [Std.compare_eq_iff_eq] at h
      simp [h]
    · simp only [List.mem_cons, ih]
      constructor
      · rintro (h | h | h)
        · exact .inr (.inl h)
        · exact .inl h
        · exact .inr (.inr h)
      · rintro (h | h | h)
        · exact .inr (.inl h)
        · exact .inl h
        · exact .inr (.inr h)

theorem increasing_insertSorted {α : Type} [Ord α] [Std.TransOrd α] [Std.LawfulEqOrd α]
    (a : α) (l : List α) (h : Increasing l) : Increasing (insertSorted a l) := by
  induction l with
  | nil => exact List.pairwise_singleton _ _
  | cons b l ih =>
    obtain ⟨hb, hl⟩ := List.pairwise_cons.1 h
    unfold insertSorted
    split
    · rename_i hab
      refine List.pairwise_cons.2 ⟨?_, h⟩
      intro c hc
      rcases List.mem_cons.1 hc with rfl | hc
      · exact hab
      · exact Std.TransCmp.lt_trans hab (hb c hc)
    · exact h
    · rename_i hab
      refine List.pairwise_cons.2 ⟨?_, ih hl⟩
      intro c hc
      rcases (mem_insertSorted a c l).1 hc with rfl | hc
      · exact Std.OrientedCmp.gt_iff_lt.1 hab
      · exact hb c hc

theorem eq_of_increasing {α : Type} [Ord α] [Std.TransOrd α] [Std.LawfulEqOrd α] :
    ∀ (l m : List α), Increasing l → Increasing m → (∀ x, x ∈ l ↔ x ∈ m) → l = m
  | [], [], _, _, _ => rfl
  | [], b :: m, _, _, h => absurd ((h b).2 List.mem_cons_self) List.not_mem_nil
  | a :: l, [], _, _, h => absurd ((h a).1 List.mem_cons_self) List.not_mem_nil
  | a :: l, b :: m, hl, hm, h => by
    obtain ⟨ha, hl'⟩ := List.pairwise_cons.1 hl
    obtain ⟨hb, hm'⟩ := List.pairwise_cons.1 hm
    have irrefl : ∀ c : α, compare c c ≠ .lt := fun c hc => by
      rw [Std.compare_eq_iff_eq.2 rfl] at hc; exact Ordering.noConfusion hc
    have hab : a = b := by
      rcases List.mem_cons.1 ((h a).1 List.mem_cons_self) with e | hm1
      · exact e
      rcases List.mem_cons.1 ((h b).2 List.mem_cons_self) with e | hl1
      · exact e.symm
      exact absurd (Std.TransCmp.lt_trans (hb a hm1) (ha b hl1)) (irrefl b)
    subst hab
    rw [eq_of_increasing l m hl' hm' (fun x => ?_)]
    constructor
    · intro hx
      rcases List.mem_cons.1 ((h x).1 (List.mem_cons_of_mem _ hx)) with e | hx'
      · subst e; exact absurd (ha x hx) (irrefl x)
      · exact hx'
    · intro hx
      rcases List.mem_cons.1 ((h x).2 (List.mem_cons_of_mem _ hx)) with e | hx'
      · subst e; exact absurd (hb x hx) (irrefl x)
      · exact hx'

/-- A finite set as the increasing list of its members. -/
structure SortedSet (α : Type) [Ord α] where
  toList : List α
  increasing : Increasing toList

namespace SortedSet

variable {α : Type} [Ord α]

def empty : SortedSet α := ⟨[], List.Pairwise.nil⟩

instance : Inhabited (SortedSet α) := ⟨empty⟩
instance : EmptyCollection (SortedSet α) := ⟨empty⟩
instance : Membership α (SortedSet α) := ⟨fun s a => a ∈ s.toList⟩

instance [DecidableEq α] : DecidableEq (SortedSet α) := fun s t =>
  if h : s.toList = t.toList then
    isTrue (by cases s; cases t; cases h; rfl)
  else isFalse (fun e => h (congrArg toList e))

instance [DecidableEq α] (a : α) (s : SortedSet α) : Decidable (a ∈ s) :=
  inferInstanceAs (Decidable (a ∈ s.toList))

def contains [DecidableEq α] (s : SortedSet α) (a : α) : Bool := decide (a ∈ s)

def isEmpty (s : SortedSet α) : Bool := s.toList.isEmpty

/-- The members that satisfy `p`. -/
def filter (p : α → Bool) (s : SortedSet α) : SortedSet α :=
  ⟨s.toList.filter p, s.increasing.filter p⟩

/-- The members of `s` that are not in `t`. -/
def sdiff [DecidableEq α] (s t : SortedSet α) : SortedSet α := s.filter (fun a => !t.contains a)

def erase [DecidableEq α] (a : α) (s : SortedSet α) : SortedSet α := s.filter (fun b => b != a)

variable [Std.TransOrd α] [Std.LawfulEqOrd α]

def insert (a : α) (s : SortedSet α) : SortedSet α :=
  ⟨insertSorted a s.toList, increasing_insertSorted a s.toList s.increasing⟩

/-- The set of the members of a list, in whatever order and however often they stand in it. -/
def ofList (l : List α) : SortedSet α := l.foldr insert empty

def union (s t : SortedSet α) : SortedSet α := s.toList.foldr insert t

theorem mem_insert (a x : α) (s : SortedSet α) : x ∈ s.insert a ↔ x = a ∨ x ∈ s :=
  mem_insertSorted a x s.toList

omit [Std.TransOrd α] [Std.LawfulEqOrd α] in
theorem not_mem_empty (x : α) : ¬ x ∈ (empty : SortedSet α) := List.not_mem_nil

theorem mem_foldr_insert (x : α) (l : List α) (t : SortedSet α) :
    x ∈ l.foldr insert t ↔ x ∈ l ∨ x ∈ t := by
  induction l with
  | nil => simp
  | cons a l ih => rw [List.foldr_cons, mem_insert, ih, List.mem_cons, or_assoc]

theorem mem_ofList (x : α) (l : List α) : x ∈ ofList l ↔ x ∈ l := by
  rw [ofList, mem_foldr_insert]
  exact or_iff_left (not_mem_empty x)

theorem mem_union (x : α) (s t : SortedSet α) : x ∈ s.union t ↔ x ∈ s ∨ x ∈ t :=
  mem_foldr_insert x s.toList t

omit [Std.TransOrd α] [Std.LawfulEqOrd α] in
theorem mem_filter (p : α → Bool) (x : α) (s : SortedSet α) :
    x ∈ s.filter p ↔ x ∈ s ∧ p x = true := List.mem_filter

omit [Std.TransOrd α] [Std.LawfulEqOrd α] in
theorem mem_sdiff [DecidableEq α] (x : α) (s t : SortedSet α) :
    x ∈ s.sdiff t ↔ x ∈ s ∧ ¬ x ∈ t := by
  rw [sdiff, mem_filter]; simp [contains]

omit [Std.TransOrd α] [Std.LawfulEqOrd α] in
theorem mem_erase [DecidableEq α] (a x : α) (s : SortedSet α) :
    x ∈ s.erase a ↔ x ∈ s ∧ x ≠ a := by
  rw [erase, mem_filter]; simp

omit [Std.TransOrd α] [Std.LawfulEqOrd α] in
theorem isEmpty_iff (s : SortedSet α) : s.isEmpty = true ↔ ∀ x, ¬ x ∈ s := by
  rw [isEmpty, List.isEmpty_iff]
  exact List.eq_nil_iff_forall_not_mem

theorem ext {s t : SortedSet α} (h : ∀ x, x ∈ s ↔ x ∈ t) : s = t := by
  cases s with | mk l hl => cases t with | mk m hm =>
  have e : l = m := eq_of_increasing l m hl hm h
  subst e; rfl

theorem ofList_toList (s : SortedSet α) : ofList s.toList = s := ext (fun x => mem_ofList x s.toList)

end SortedSet
end BackOffice
