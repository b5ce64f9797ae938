import BackOffice.Policy.Preview
import Mathlib.Order.Bounds.Basic
/-!
# What a preview tells of an edit

A preview is four sets, and replaying it takes two of them from a layer and puts the other two in.  Many previews take
one layer to another: a key may be taken out and put in again, or taken out where it never was.  Which of them do is
settled for one set at a time (`SortedSet.union_sdiff_eq_iff`), and of those that do the preview of the edit is the
least (`PolicyPreview.preview_exact`).
-/
namespace BackOffice

namespace SortedSet

variable {α : Type} [Ord α] [DecidableEq α] [Std.TransOrd α] [Std.LawfulEqOrd α]

/-- **Which changes take one set to another**: what is missing is put in and what is too much is taken out; nothing
foreign is put in, and what is to stay is not taken out, unless it is put in again. -/
theorem union_sdiff_eq_iff (s t removed added : SortedSet α) : (s.sdiff removed).union added = t ↔
    (∀ x ∈ t.sdiff s, x ∈ added) ∧ (∀ x ∈ s.sdiff t, x ∈ removed) ∧ (∀ x ∈ added, x ∈ t) ∧
      ∀ x ∈ removed, x ∈ s → x ∈ t → x ∈ added := by
  have hmem : ∀ x, x ∈ (s.sdiff removed).union added ↔ x ∈ s ∧ ¬ x ∈ removed ∨ x ∈ added := fun x => by
    rw [mem_union, mem_sdiff]
  simp only [mem_sdiff]
  constructor
  · rintro rfl
    simp only [hmem]
    refine ⟨?_, ?_, fun x hx => .inr hx, ?_⟩
    · rintro x ⟨⟨hs, -⟩ | hx, hnot⟩
      · exact absurd hs hnot
      · exact hx
    · rintro x ⟨hs, hnot⟩
      exact Classical.byContradiction fun hx => hnot (.inl ⟨hs, hx⟩)
    · rintro x hx - (⟨-, hnot⟩ | hadded)
      · exact absurd hx hnot
      · exact hadded
  · rintro ⟨hmissing, hspare, hforeign, hstays⟩
    refine ext fun x => ?_
    rw [hmem]
    constructor
    · rintro (⟨hs, hx⟩ | hx)
      · exact Classical.byContradiction fun hnot => hx (hspare x ⟨hs, hnot⟩)
      · exact hforeign x hx
    · intro ht
      by_cases hs : x ∈ s
      · by_cases hx : x ∈ removed
        · exact .inr (hstays x hx hs ht)
        · exact .inl ⟨hs, hx⟩
      · exact .inr (hmissing x ⟨ht, hs⟩)

/-- The two differences are such a change. -/
theorem union_sdiff_sdiff (s t : SortedSet α) : (s.sdiff (s.sdiff t)).union (t.sdiff s) = t := by
  rw [union_sdiff_eq_iff]
  refine ⟨fun x hx => hx, fun x hx => hx, fun x hx => ((mem_sdiff x t s).1 hx).1, fun x hx _ ht => ?_⟩
  exact absurd ht ((mem_sdiff x s t).1 hx).2

end SortedSet

namespace PolicyPreview

/-- One preview is below another if each of its sets is part of the other's. -/
instance : LE PolicyPreview where
  le p q := (∀ key ∈ p.allowAdded, key ∈ q.allowAdded) ∧ (∀ key ∈ p.allowRemoved, key ∈ q.allowRemoved) ∧
    (∀ key ∈ p.denyAdded, key ∈ q.denyAdded) ∧ ∀ key ∈ p.denyRemoved, key ∈ q.denyRemoved

/-- The preview of the edit that goes back. -/
def swap (p : PolicyPreview) : PolicyPreview :=
  ⟨p.allowRemoved, p.allowAdded, p.denyRemoved, p.denyAdded⟩

theorem isEmpty_between (before after : PolicyLayer) :
    (between before after).isEmpty = true ↔ before = after := by
  have hsdiff : ∀ s t : KeySet, (s.sdiff t).isEmpty = true ↔ ∀ key ∈ s, key ∈ t := by
    intro s t
    rw [SortedSet.isEmpty_iff]
    simp only [SortedSet.mem_sdiff, not_and, not_not]
  unfold isEmpty between
  simp only [Bool.and_eq_true, hsdiff]
  constructor
  · -- nothing is added to either set and nothing taken from it
    rintro ⟨⟨⟨hallowed, hdisallowed⟩, hdenied⟩, hundenied⟩
    have hallow : before.allow = after.allow := SortedSet.ext fun key => ⟨hdisallowed key, hallowed key⟩
    have hdeny : before.deny = after.deny := SortedSet.ext fun key => ⟨hundenied key, hdenied key⟩
    cases before; cases after
    exact congr (congrArg PolicyLayer.mk hallow) hdeny
  · rintro rfl
    exact ⟨⟨⟨fun _ h => h, fun _ h => h⟩, fun _ h => h⟩, fun _ h => h⟩

theorem replay_between (before after : PolicyLayer) : (between before after).replay before = after := by
  unfold replay between
  rw [SortedSet.union_sdiff_sdiff, SortedSet.union_sdiff_sdiff]

/-- Every preview that takes the one layer to the other has the preview of the edit as a part. -/
theorem between_le_of_replay {p : PolicyPreview} {before after : PolicyLayer} (h : p.replay before = after) :
    between before after ≤ p := by
  obtain ⟨hallow, hdeny⟩ := PolicyLayer.mk.inj h
  obtain ⟨hallowAdded, hallowRemoved, -⟩ := (SortedSet.union_sdiff_eq_iff _ _ _ _).1 hallow
  obtain ⟨hdenyAdded, hdenyRemoved, -⟩ := (SortedSet.union_sdiff_eq_iff _ _ _ _).1 hdeny
  exact ⟨hallowAdded, hallowRemoved, hdenyAdded, hdenyRemoved⟩

/-- What is put into a set was not there, and what is taken from it was there and is not there afterwards. -/
structure Fits (before after added removed : KeySet) : Prop where
  added_new : ∀ key ∈ added, ¬ key ∈ before ∧ key ∈ after
  removed_old : ∀ key ∈ removed, key ∈ before ∧ ¬ key ∈ after

theorem fits_sdiff (before after : KeySet) : Fits before after (after.sdiff before) (before.sdiff after) where
  added_new key hkey := ((SortedSet.mem_sdiff key after before).1 hkey).symm
  removed_old key hkey := (SortedSet.mem_sdiff key before after).1 hkey

/-- **A preview tells an edit exactly**, whatever the two layers are: of all previews that turn the layer before into
the layer after it is the least, set by set.  It puts in nothing that was there and takes out nothing that stays, it is
empty exactly if nothing changes, and the preview of the way back is the same with the two sides exchanged. -/
theorem preview_exact (before after : PolicyLayer) :
    IsLeast {p : PolicyPreview | p.replay before = after} (between before after) ∧
    Fits before.allow after.allow (between before after).allowAdded (between before after).allowRemoved ∧
    Fits before.deny after.deny (between before after).denyAdded (between before after).denyRemoved ∧
    ((between before after).isEmpty = true ↔ before = after) ∧
    between after before = (between before after).swap :=
  ⟨⟨replay_between before after, fun _ h => between_le_of_replay h⟩, fits_sdiff before.allow after.allow,
    fits_sdiff before.deny after.deny, isEmpty_between before after, rfl⟩

end PolicyPreview
end BackOffice
