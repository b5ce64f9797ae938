/-!
# Orders by a key

Values that are told apart by a key are compared by it.  The laws of such an order are those of the
order of the keys: it is transitive and oriented, and values that compare equal are equal.  Where the
key is a number, those among the values that fall short of something have a first.
-/
namespace BackOffice

variable {α κ : Type} [Ord α] [Ord κ]

theorem transOrd_of_key [Std.TransOrd κ] (key : α → κ)
    (h : ∀ a b, compare a b = compare (key a) (key b)) : Std.TransOrd α where
  eq_swap := by
    intro a b
    rw [h, h]
    exact Std.OrientedOrd.eq_swap
  isLE_trans := by
    intro a b c
    rw [h, h, h]
    exact Std.TransOrd.isLE_trans

/-- Where different values have different keys, only a value itself compares equal to it. -/
theorem lawfulEqOrd_of_key [Std.TransOrd κ] [Std.LawfulEqOrd κ] (key : α → κ)
    (h : ∀ a b, compare a b = compare (key a) (key b))
    (inj : ∀ a b, key a = key b → a = b) : Std.LawfulEqOrd α where
  compare_self := by
    intro a
    rw [h]
    exact Std.compare_eq_iff_eq.2 rfl
  eq_of_compare := by
    intro a b hab
    rw [h] at hab
    exact inj a b (Std.compare_eq_iff_eq.1 hab)

omit [Ord α] in
/-- Where not all values satisfy `p`, there is one that does not while all of lower rank do. -/
theorem exists_first_iff (rank : α → Nat) (p : α → Prop) :
    (∃ a, ¬ p a ∧ ∀ b, rank b < rank a → p b) ↔ ¬ ∀ a, p a := by
  constructor
  · rintro ⟨a, ha, -⟩ h
    exact ha (h a)
  · refine fun h => Classical.byContradiction fun hnone => h ?_
    have hrank : ∀ n a, rank a = n → p a := by
      intro n
      induction n using Nat.strongRecOn with
      | ind n ih =>
        intro a hn
        refine Classical.byContradiction fun ha => hnone ⟨a, ha, fun b hb => ?_⟩
        exact ih (rank b) (hn ▸ hb) b rfl
    exact fun a => hrank (rank a) a rfl

end BackOffice
