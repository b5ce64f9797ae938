import BackOffice.Proofs.Ceiling
/-!
# Edits that have to be confirmed

An edit of a layer widens access where a key that was denied comes to be allowed.  What it says itself
decides that only in part: a later layer may settle the key, and an earlier one may allow it
(`PolicyLayers.widens_iff`).  Confirmation is asked for whatever the other layers are, so it has to be
asked for wherever some layers let the edit widen access (`can_widen_iff`).  It errs on one side only: a
key that is newly allowed but denied by the same layer asks for confirmation and widens nothing, and so
does a denial taken from the template, below which there is nothing to come through.
-/
namespace BackOffice

namespace PolicyPreview

theorem requiresConfirmation_iff (p : PolicyPreview) :
    p.requiresConfirmation = true ↔ ∃ key, key ∈ p.allowAdded ∨ key ∈ p.denyRemoved := by
  have hsome : ∀ s : KeySet, (!s.isEmpty) = true ↔ ∃ key, key ∈ s := by
    intro s
    rw [Bool.not_eq_true', ← Bool.not_eq_true, SortedSet.isEmpty_iff]
    simp
  unfold requiresConfirmation
  rw [Bool.or_eq_true, hsome, hsome, exists_or]

theorem isEmpty_of_requiresConfirmation {p : PolicyPreview} (h : p.requiresConfirmation = true) :
    p.isEmpty = false := by
  unfold requiresConfirmation at h
  unfold isEmpty
  cases hallow : p.allowAdded.isEmpty with
  | false => rfl
  | true =>
    have hdeny : p.denyRemoved.isEmpty = false := by simpa [hallow] using h
    rw [hdeny, Bool.and_false]

end PolicyPreview

namespace PolicyLayers

/-- An edit of one layer turns a denied key into an allowed one. -/
def Widens (l : PolicyLayers) (kind : LayerKind) (before after : PolicyLayer) (key : PermissionKey) : Prop :=
  ((l.withLayer kind before).resolve key).isAllowed = false ∧ ((l.withLayer kind after).resolve key).isAllowed = true

/-- **An edit widens access where no later layer speaks**: it takes away a denial under which the key is
allowed, by the layer itself or before it, or it allows what was left to layers that do not. -/
theorem widens_iff (l : PolicyLayers) (kind : LayerKind) (before after : PolicyLayer) (key : PermissionKey) :
    l.Widens kind before after key ↔ l.later? kind key = none ∧ ¬ key ∈ after.deny ∧
      (key ∈ (PolicyPreview.between before after).denyRemoved ∧
          (key ∈ after.allow ∨ l.earlier? kind key = some .allow) ∨
        key ∈ (PolicyPreview.between before after).allowAdded ∧ l.earlier? kind key ≠ some .allow) := by
  unfold Widens PolicyPreview.between
  rw [← Bool.not_eq_true, isAllowed_withLayer, isAllowed_withLayer, SortedSet.mem_sdiff, SortedSet.mem_sdiff]
  rcases l.later? kind key with _ | effect
  · by_cases ha : key ∈ after.deny
    · simp [ha]
    · by_cases hb : key ∈ before.deny <;> by_cases he : l.earlier? kind key = some .allow <;> simp [ha, hb, he]
      · -- the denial goes and the layer allows: whether it did so before makes no difference
        exact fun hallow _ => hallow
      · exact and_comm
  · simp

theorem later?_empty (kind : LayerKind) (key : PermissionKey) : empty.later? kind key = none := by
  cases kind <;> rfl

theorem earlier?_empty (kind : LayerKind) (key : PermissionKey) : empty.earlier? kind key = none := by
  cases kind <;> rfl

/-- Layers of which the template alone says something, and allows one key. -/
def granting (key : PermissionKey) : PolicyLayers := { empty with template := PolicyLayer.empty.allowing key }

theorem later?_granting (kind : LayerKind) (key : PermissionKey) : (granting key).later? kind key = none := by
  cases kind <;> rfl

theorem earlier?_granting {kind : LayerKind} (h : kind ≠ .template) (key : PermissionKey) :
    (granting key).earlier? kind key = some .allow := by
  have htemplate := PolicyLayer.verdict?_allowing key
  cases kind with
  | template => exact absurd rfl h
  | _ => simp [earlier?, granting, LayerKind.all, LayerKind.rank, get, empty, List.findSome?_cons,
      PolicyLayer.verdict?_empty, htemplate]

/-- **What an edit can widen** under some layers or other.  At the template a key comes through only if the
layer allows it itself. -/
theorem can_widen_iff (kind : LayerKind) (before after : PolicyLayer) :
    (∃ l key, PolicyLayers.Widens l kind before after key) ↔ ∃ key, ¬ key ∈ after.deny ∧
      (key ∈ (PolicyPreview.between before after).denyRemoved ∧ (key ∈ after.allow ∨ kind ≠ .template) ∨
        key ∈ (PolicyPreview.between before after).allowAdded) := by
  constructor
  · rintro ⟨l, key, h⟩
    obtain ⟨-, hdeny, ⟨hremoved, hallow | hearlier⟩ | ⟨hadded, -⟩⟩ := (l.widens_iff kind before after key).1 h
    · exact ⟨key, hdeny, .inl ⟨hremoved, .inl hallow⟩⟩
    · refine ⟨key, hdeny, .inl ⟨hremoved, .inr ?_⟩⟩
      rintro rfl
      rw [earlier?_template] at hearlier; cases hearlier
    · exact ⟨key, hdeny, .inr hadded⟩
  · -- where the layer allows the key, the others need say nothing; else the template must let it through
    rintro ⟨key, hdeny, ⟨hremoved, hallow | hkind⟩ | hadded⟩
    · exact ⟨empty, key, (widens_iff _ _ _ _ _).2 ⟨later?_empty kind key, hdeny, .inl ⟨hremoved, .inl hallow⟩⟩⟩
    · refine ⟨granting key, key, (widens_iff _ _ _ _ _).2 ⟨later?_granting kind key, hdeny, .inl ⟨hremoved, .inr ?_⟩⟩⟩
      exact earlier?_granting hkind key
    · refine ⟨empty, key, (widens_iff _ _ _ _ _).2 ⟨later?_empty kind key, hdeny, .inr ⟨hadded, ?_⟩⟩⟩
      rw [earlier?_empty]
      exact fun h => by cases h

theorem requiresConfirmation_of_widens {l : PolicyLayers} {kind : LayerKind} {before after : PolicyLayer}
    {key : PermissionKey} (h : l.Widens kind before after key) :
    (PolicyPreview.between before after).requiresConfirmation = true := by
  rw [PolicyPreview.requiresConfirmation_iff]
  obtain ⟨-, -, ⟨hremoved, -⟩ | ⟨hadded, -⟩⟩ := (l.widens_iff kind before after key).1 h
  · exact ⟨key, .inr hremoved⟩
  · exact ⟨key, .inl hadded⟩

end PolicyLayers

namespace Client

theorem heldBack?_of_unconfirmed {before after : PolicyLayer}
    (h : (PolicyPreview.between before after).requiresConfirmation = true) (s : Session) :
    let preview := PolicyPreview.between before after
    let beyond := s.permissions.ceilingViolations preview.allowAdded
    heldBack? s before after false = some (if beyond.isEmpty then .needsConfirmation preview else .blocked beyond preview) := by
  unfold heldBack?
  simp only [PolicyPreview.isEmpty_of_requiresConfirmation h, h, Bool.false_eq_true, if_false, Bool.not_false,
    Bool.and_true, if_true]
  cases (s.permissions.ceilingViolations (PolicyPreview.between before after).allowAdded).isEmpty <;> rfl

/-- An edit that has to be confirmed and is not is refused, blocked, or asked about. -/
theorem start_of_unconfirmed {before after : PolicyLayer}
    (h : (PolicyPreview.between before after).requiresConfirmation = true) (s : Session) (user : UserId) :
    let preview := PolicyPreview.between before after
    let beyond := s.permissions.ceilingViolations preview.allowAdded
    start s (.savePolicy user before after false) = (.returned (.policySaved (
      if s.isAllowed Permission.managePolicies = true then
        .ok (if beyond.isEmpty then .needsConfirmation preview else .blocked beyond preview)
      else .error (.missingPermission (.minted s.mint.peek) Permission.managePolicies))), s.skip 1) := by
  simp only [start]
  rw [savePolicy_eq]
  by_cases hp : s.isAllowed Permission.managePolicies = true
  · rw [if_pos hp, if_pos hp, heldBack?_of_unconfirmed h s]
  · rw [if_neg hp, if_neg hp]

/-- **Confirmation is asked for wherever access can widen.**  An edit that needs none allows nothing that
was not allowed before it, at whatever layer it is made and whatever the other layers are.  Above the
template, and where the layer does not contradict itself, that is all the edits that need none.  And an
edit that widens access under any layers is not sent unconfirmed: it returns in its first turn, refused,
blocked by the ceiling, or asked about. -/
theorem widening_confirmed :
    (∀ (l : PolicyLayers) kind before after, (PolicyPreview.between before after).requiresConfirmation = false →
      ∀ key, ((l.withLayer kind after).resolve key).isAllowed = true →
        ((l.withLayer kind before).resolve key).isAllowed = true) ∧
    (∀ kind before after, kind ≠ .template → (∀ key ∈ after.allow, ¬ key ∈ after.deny) →
      ((PolicyPreview.between before after).requiresConfirmation = true ↔
        ∃ l key, PolicyLayers.Widens l kind before after key)) ∧
    ∀ (s : Session) user before after l kind key, PolicyLayers.Widens l kind before after key →
      let preview := PolicyPreview.between before after
      let beyond := s.permissions.ceilingViolations preview.allowAdded
      ∃ reply, start s (.savePolicy user before after false) = (.returned (.policySaved reply), s.skip 1) ∧
        reply = if s.isAllowed Permission.managePolicies = true then
            .ok (if beyond.isEmpty then .needsConfirmation preview else .blocked beyond preview)
          else .error (.missingPermission (.minted s.mint.peek) Permission.managePolicies) := by
  refine ⟨fun l kind before after hnone key hafter => ?_, fun kind before after hkind hclear => ⟨fun h => ?_, ?_⟩,
    fun s user before after l kind key h => ?_⟩
  · cases hbefore : ((l.withLayer kind before).resolve key).isAllowed with
    | true => rfl
    | false =>
      have hneeds := PolicyLayers.requiresConfirmation_of_widens ⟨hbefore, hafter⟩
      rw [hnone] at hneeds; cases hneeds
  · rw [PolicyLayers.can_widen_iff]
    obtain ⟨key, hadded | hremoved⟩ := (PolicyPreview.requiresConfirmation_iff _).1 h
    · exact ⟨key, hclear key ((SortedSet.mem_sdiff _ _ _).1 hadded).1, .inr hadded⟩
    · exact ⟨key, ((SortedSet.mem_sdiff _ _ _).1 hremoved).2, .inl ⟨hremoved, .inr hkind⟩⟩
  · rintro ⟨l, key, h⟩
    exact PolicyLayers.requiresConfirmation_of_widens h
  · exact ⟨_, start_of_unconfirmed (PolicyLayers.requiresConfirmation_of_widens h) s user, rfl⟩

/-- To take an allowance away is not asked about.  To take a denial away is, by the same session that may
send the edit once it is confirmed. -/
theorem unmasking_asked_about :
    (∀ (l : PolicyLayers) key, ((l.withLayer .store .empty).resolve key).isAllowed = true →
      ((l.withLayer .store (.ofLists [⟨"audit.view"⟩] [])).resolve key).isAllowed = true) ∧
    (∃ l key, PolicyLayers.Widens l .user (.ofLists [] [⟨"audit.view"⟩]) .empty key) ∧
    (start policyManager (.savePolicy ⟨.ofNat 3⟩ (.ofLists [] [⟨"audit.view"⟩]) .empty false)).1 =
      .returned (.policySaved (.ok (.needsConfirmation (.between (.ofLists [] [⟨"audit.view"⟩]) .empty)))) := by
  obtain ⟨hsound, hexact, hasked⟩ := widening_confirmed
  have hwidens := (hexact .user (.ofLists [] [⟨"audit.view"⟩]) .empty (by decide)
    (fun key hkey => absurd hkey (SortedSet.not_mem_empty key))).1 (by decide)
  refine ⟨fun l => hsound l .store (.ofLists [⟨"audit.view"⟩] []) .empty (by decide), hwidens, ?_⟩
  obtain ⟨l, key, hkey⟩ := hwidens
  obtain ⟨reply, hstart, hreply⟩ := hasked policyManager ⟨.ofNat 3⟩ _ _ l .user key hkey
  rw [hstart, hreply]
  rfl

end Client
end BackOffice
