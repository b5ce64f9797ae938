import BackOffice.Proofs.Resolution
import BackOffice.Proofs.Turns
/-!
# The ceiling of a policy edit

A policy edit is held back if it adds an allowance that the session does not hold.  The target's
access can grow in a second way: the edit takes a denial away, and what it had masked, an allowance
of a layer below or of the same layer, comes to count.  The ceiling does not look at denials, so
what is sent keeps to it exactly where no key that the session lacks is unmasked
(`PolicyLayers.raises_iff`, `allowAdded_held`).
-/
namespace BackOffice

/-- An edit of the user's layer turns a denied key into an allowed one. -/
def PolicyLayers.raises (l : PolicyLayers) (before after : PolicyLayer) (key : PermissionKey) : Prop :=
  ((l.withLayer .user before).resolve key).isAllowed = false ∧
    ((l.withLayer .user after).resolve key).isAllowed = true

/-- An edit raises no key that the session does not hold. -/
def Session.KeepsCeiling (s : Session) (l : PolicyLayers) (before after : PolicyLayer) : Prop :=
  ∀ key, l.raises before after key → s.isAllowed key = true

/-- An edit takes a denial away and so lets an allowance count that it had masked. -/
def PolicyLayers.unmasks (l : PolicyLayers) (before after : PolicyLayer) (key : PermissionKey) : Prop :=
  key ∈ (PolicyPreview.between before after).denyRemoved ∧ (key ∈ after.allow ∨ l.allowsBelowUser key = true)

/-- **Access grows in two ways**: a key is unmasked, or an allowance is added where nothing was said. -/
theorem PolicyLayers.raises_iff (l : PolicyLayers) (before after : PolicyLayer) (key : PermissionKey) :
    l.raises before after key ↔ l.unmasks before after key ∨
      key ∈ (PolicyPreview.between before after).allowAdded ∧ ¬ key ∈ before.deny ∧ ¬ key ∈ after.deny ∧
        l.allowsBelowUser key = false := by
  unfold raises unmasks PolicyPreview.between
  rw [← Bool.not_eq_true, resolve_withLayer_user, resolve_withLayer_user, SortedSet.mem_sdiff, SortedSet.mem_sdiff,
    ← Bool.not_eq_true]
  by_cases hb : key ∈ before.deny <;> by_cases ha : key ∈ after.deny <;> simp only [hb, ha, not_true, not_false_eq_true,
    true_and, false_and, and_false, false_or, or_false]
  -- neither layer denies the key: it was left to the layers below, which deny it
  rw [not_or]
  constructor
  · rintro ⟨⟨hallow, hbelow⟩, hafter⟩
    exact ⟨⟨hafter.resolve_right hbelow, hallow⟩, hbelow⟩
  · rintro ⟨⟨hafter, hallow⟩, hbelow⟩
    exact ⟨⟨hallow, hbelow⟩, .inl hafter⟩

namespace Client

theorem heldBack?_of_sent {s : Session} {user : UserId} {before after : PolicyLayer} {confirmed : Bool} {x : Exchange}
    (h : (start s (.savePolicy user before after confirmed)).1 = .waiting (.answer x)) :
    heldBack? s before after confirmed = none := by
  have ho := start_opening s (.savePolicy user before after confirmed)
  rw [h] at ho
  generalize (start s (.savePolicy user before after confirmed)).2 = s' at ho
  cases ho with
  | listed resource hc => cases hc
  | asked purpose hc => rcases hc with ⟨hc, -⟩ | ⟨hc, -⟩ <;> cases hc
  | sent request hc => cases hc
  | submitted m a n hm hp hf hb =>
    cases hheld : heldBack? s before after confirmed with
    | none => rfl
    | some held => simp only [mutation?, hheld] at hm; cases hm

theorem allowAdded_held {s : Session} {user : UserId} {before after : PolicyLayer} {confirmed : Bool} {x : Exchange}
    (h : (start s (.savePolicy user before after confirmed)).1 = .waiting (.answer x)) (key : PermissionKey)
    (hkey : key ∈ (PolicyPreview.between before after).allowAdded) : s.isAllowed key = true := by
  have hheld := heldBack?_of_sent h
  unfold heldBack? at hheld
  simp only at hheld
  split at hheld
  · cases hheld
  split at hheld
  · cases hheld
  rename_i hbeyond
  have hempty : (s.permissions.ceilingViolations (PolicyPreview.between before after).allowAdded).isEmpty = true := by
    simpa using hbeyond
  have hnot := (SortedSet.isEmpty_iff _).1 hempty key
  rw [EffectiveSet.mem_ceilingViolations] at hnot
  cases hlacks : s.isAllowed key with
  | true => rfl
  | false => exact absurd ⟨hkey, hlacks⟩ hnot

/-- **A policy edit that is sent keeps to the ceiling of the session exactly where every key it
unmasks is held by the session**; over all layers that may stand below, where every key whose denial
it takes away is. -/
theorem ceiling_kept_iff {s : Session} {user : UserId} {before after : PolicyLayer} {confirmed : Bool} {x : Exchange}
    (h : (start s (.savePolicy user before after confirmed)).1 = .waiting (.answer x)) :
    (∀ layers : PolicyLayers, s.KeepsCeiling layers before after ↔
      ∀ key, layers.unmasks before after key → s.isAllowed key = true) ∧
    ((∀ layers : PolicyLayers, s.KeepsCeiling layers before after) ↔
      ∀ key ∈ (PolicyPreview.between before after).denyRemoved, s.isAllowed key = true) := by
  have hone : ∀ layers : PolicyLayers, s.KeepsCeiling layers before after ↔
      ∀ key, layers.unmasks before after key → s.isAllowed key = true := by
    intro layers
    constructor
    · intro hkeeps key hkey
      exact hkeeps key ((layers.raises_iff before after key).2 (.inl hkey))
    · intro hunmasked key hkey
      rcases (layers.raises_iff before after key).1 hkey with hkey | ⟨hadded, -⟩
      · exact hunmasked key hkey
      · exact allowAdded_held h key hadded
  refine ⟨hone, ?_, ?_⟩
  · intro hkeeps key hkey
    -- a template that allows the key is enough to let it come through
    let layers : PolicyLayers := { PolicyLayers.empty with template := PolicyLayer.empty.allowing key }
    have hbelow : layers.allowsBelowUser key = true := by
      unfold PolicyLayers.allowsBelowUser
      rw [PolicyLayers.isAllowed_resolve, PolicyLayers.resolve_final]
      simp only [layers, PolicyLayers.withLayer, PolicyLayers.empty, PolicyLayer.verdict?_empty, Option.none_or,
        PolicyLayer.verdict?_allowing, Option.getD_some]
    exact (hone layers).1 (hkeeps layers) key ⟨hkey, .inr hbelow⟩
  · intro hremoved layers
    exact (hone layers).2 (fun key hkey => hremoved key hkey.1)

/-- A session that may manage policies and nothing else. -/
def policyManager : Session :=
  (Session.start (.ofUser ⟨.ofNat 1⟩ ⟨.ofNat 2⟩ ⟨"manager"⟩) 600 (.ofMillis 0)).grant
    (.ofPairs [(Permission.managePolicies, true)])

theorem ceiling_kept_of_held_denial :
    (∃ x, (start policyManager (.savePolicy ⟨.ofNat 3⟩ (.ofLists [] [Permission.managePolicies]) .empty true)).1 =
      .waiting (.answer x)) ∧
    ∀ layers, policyManager.KeepsCeiling layers (.ofLists [] [Permission.managePolicies]) .empty := by
  have hsent : (start policyManager (.savePolicy ⟨.ofNat 3⟩ (.ofLists [] [Permission.managePolicies]) .empty true)).1 =
      .waiting (.answer _) := rfl
  refine ⟨⟨_, hsent⟩, (ceiling_kept_iff hsent).2.2 (fun key hkey => ?_)⟩
  have hone : key ∈ [Permission.managePolicies] := hkey
  rw [List.mem_singleton.1 hone]
  decide

/-- **The ceiling can be passed**: the session does not hold the key, the edit takes only its denial
away, and the template's allowance comes to count. -/
theorem removed_denial_exceeds_ceiling :
    (∃ x, (start policyManager (.savePolicy ⟨.ofNat 3⟩ (.ofLists [] [⟨"audit.view"⟩]) .empty true)).1 =
      .waiting (.answer x)) ∧
    ¬ policyManager.KeepsCeiling { PolicyLayers.empty with template := .ofLists [⟨"audit.view"⟩] [] }
      (.ofLists [] [⟨"audit.view"⟩]) .empty := by
  refine ⟨⟨_, rfl⟩, fun hkeeps => ?_⟩
  have hheld := hkeeps ⟨"audit.view"⟩ (by unfold PolicyLayers.raises; decide)
  exact absurd hheld (by decide)

end Client
end BackOffice
