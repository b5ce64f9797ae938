import BackOffice.Proofs.Confirmation
import BackOffice.Proofs.Keys
import BackOffice.Proofs.Previews
/-!
# What becomes of a policy edit

A policy edit meets six gates, one after the other.  It is sent where it passes all of them, and where it does not the
first one that it fails answers for it (`policy_save_decided`).  The gates are told here by what they ask of the edit,
the permissions, the marks and the attempts; that the client looks at previews, violations and digests to find out is
what is shown.  An edit that is not sent leaves nothing behind, not even where the last gate fails, at which its mark
has been taken already.
-/
namespace BackOffice

/-- A policy edit as it is handed in. -/
structure PolicyEdit where
  user      : UserId
  before    : PolicyLayer
  after     : PolicyLayer
  confirmed : Bool

namespace PolicyEdit

def call (e : PolicyEdit) : Call := .savePolicy e.user e.before e.after e.confirmed

def preview (e : PolicyEdit) : PolicyPreview := .between e.before e.after

/-- What the edit asks of the server. -/
def mutation (e : PolicyEdit) (s : Session) : Mutation := Client.policyMutation s e.user e.after e.preview

/-- The keys that the edit comes to allow and the session does not hold. -/
def missing (e : PolicyEdit) (s : Session) : KeySet :=
  (e.after.allow.sdiff e.before.allow).filter (fun key => !s.isAllowed key)

end PolicyEdit

/-- An attempt is bound, and not to what the mutation asks for. -/
def Attempt.BoundElsewhere (a : Attempt) (m : Mutation) : Prop :=
  ∃ print, a.fingerprint = some print ∧ print ≠ BackOffice.fingerprint m.payload

/-- The gates of a policy edit. -/
inductive PolicyGate where
  | permission
  | change
  | ceiling
  | confirmation
  | mark
  | binding

namespace PolicyGate

/-- The place of a gate in their order. -/
def rank : PolicyGate → Nat
  | .permission   => 0
  | .change       => 1
  | .ceiling      => 2
  | .confirmation => 3
  | .mark         => 4
  | .binding      => 5

/-- What a gate asks for. -/
def Passes (s : Session) (e : PolicyEdit) : PolicyGate → Prop
  | .permission   => s.isAllowed Permission.managePolicies = true
  | .change       => e.before ≠ e.after
  | .ceiling      => ∀ key ∈ e.after.allow, ¬ key ∈ e.before.allow → s.isAllowed key = true
  | .confirmation => e.confirmed = true ∨
      (∀ key ∈ e.after.allow, key ∈ e.before.allow) ∧ ∀ key ∈ e.before.deny, key ∈ e.after.deny
  | .mark         => s.issuer.isInFlight (e.mutation s).operation = false
  | .binding      => ∀ a, s.issuer.attempt? (e.mutation s).operation = some a → ¬ a.BoundElsewhere (e.mutation s)

/-- What a gate answers to an edit that it does not let through. -/
def refusal (s : Session) (e : PolicyEdit) (trace : TraceId) : PolicyGate → Except ApiError PolicySave
  | .permission   => .error (.missingPermission trace Permission.managePolicies)
  | .change       => .ok .noChanges
  | .ceiling      => .ok (.blocked (e.missing s) e.preview)
  | .confirmation => .ok (.needsConfirmation e.preview)
  | .mark         => .ok .alreadyInFlight
  | .binding      => .error (.conflict trace (AttemptConflict.message ⟨(e.mutation s).operation⟩))

/-- The first gate that an edit does not pass. -/
def Stops (s : Session) (e : PolicyEdit) (gate : PolicyGate) : Prop :=
  ¬ gate.Passes s e ∧ ∀ earlier : PolicyGate, earlier.rank < gate.rank → earlier.Passes s e

theorem exists_stops_iff {s : Session} {e : PolicyEdit} :
    (∃ gate : PolicyGate, gate.Stops s e) ↔ ¬ ∀ gate : PolicyGate, gate.Passes s e :=
  exists_first_iff rank (fun gate => gate.Passes s e)

end PolicyGate

/-! ## What the client looks at -/

namespace PolicyEdit

variable (s : Session) (e : PolicyEdit)

theorem preview_isEmpty_iff : e.preview.isEmpty = true ↔ ¬ PolicyGate.change.Passes s e := by
  unfold preview PolicyGate.Passes
  rw [PolicyPreview.isEmpty_between, ne_eq, not_not]

theorem ceilingViolations_eq : s.permissions.ceilingViolations e.preview.allowAdded = e.missing s := by
  refine SortedSet.ext fun key => ?_
  rw [EffectiveSet.mem_ceilingViolations, missing, SortedSet.mem_filter, Bool.not_eq_true']
  rfl

theorem mem_missing (key : PermissionKey) :
    key ∈ e.missing s ↔ key ∈ e.after.allow ∧ ¬ key ∈ e.before.allow ∧ s.isAllowed key = false := by
  rw [missing, SortedSet.mem_filter, SortedSet.mem_sdiff, Bool.not_eq_true', and_assoc]

theorem missing_isEmpty_iff : (e.missing s).isEmpty = true ↔ PolicyGate.ceiling.Passes s e := by
  rw [SortedSet.isEmpty_iff]
  simp only [mem_missing, not_and, Bool.not_eq_false, PolicyGate.Passes]

theorem unconfirmed_iff :
    (e.preview.requiresConfirmation && !e.confirmed) = true ↔ ¬ PolicyGate.confirmation.Passes s e := by
  have hwidens : e.preview.requiresConfirmation = true ↔
      ¬ ((∀ key ∈ e.after.allow, key ∈ e.before.allow) ∧ ∀ key ∈ e.before.deny, key ∈ e.after.deny) := by
    rw [PolicyPreview.requiresConfirmation_iff, exists_or, not_and_or]
    simp only [preview, PolicyPreview.between, SortedSet.mem_sdiff, not_forall, exists_prop]
  rw [Bool.and_eq_true, hwidens, Bool.not_eq_true', PolicyGate.Passes, not_or, Bool.not_eq_true, and_comm]

end PolicyEdit

namespace Client

variable {s : Session} {e : PolicyEdit}

theorem heldBack?_eq (s : Session) (e : PolicyEdit) : heldBack? s e.before e.after e.confirmed =
    if e.preview.isEmpty then some .noChanges
    else if !(e.missing s).isEmpty then some (.blocked (e.missing s) e.preview)
    else if e.preview.requiresConfirmation && !e.confirmed then some (.needsConfirmation e.preview)
    else none := by
  rw [← e.ceilingViolations_eq s]
  rfl

theorem heldBack?_of_change (h : ¬ PolicyGate.change.Passes s e) :
    heldBack? s e.before e.after e.confirmed = some .noChanges := by
  rw [heldBack?_eq, if_pos ((e.preview_isEmpty_iff s).2 h)]

theorem heldBack?_of_ceiling (hchange : PolicyGate.change.Passes s e) (h : ¬ PolicyGate.ceiling.Passes s e) :
    heldBack? s e.before e.after e.confirmed = some (.blocked (e.missing s) e.preview) := by
  have hbeyond : (!(e.missing s).isEmpty) = true := by
    rw [Bool.not_eq_true', ← Bool.not_eq_true, e.missing_isEmpty_iff s]
    exact h
  rw [heldBack?_eq, if_neg (fun hempty => (e.preview_isEmpty_iff s).1 hempty hchange), if_pos hbeyond]

/-- An edit that keeps to the ceiling is held back only where it has to be confirmed. -/
theorem heldBack?_of_within (hchange : PolicyGate.change.Passes s e) (hceiling : PolicyGate.ceiling.Passes s e) :
    heldBack? s e.before e.after e.confirmed =
      if e.preview.requiresConfirmation && !e.confirmed then some (.needsConfirmation e.preview) else none := by
  have hwithin : ¬ (!(e.missing s).isEmpty) = true := by
    rw [(e.missing_isEmpty_iff s).2 hceiling]
    decide
  rw [heldBack?_eq, if_neg (fun hempty => (e.preview_isEmpty_iff s).1 hempty hchange), if_neg hwithin]

end Client

/-! ## The binding of an attempt -/

theorem Issuer.binding?_eq_none_iff (i : Issuer) (fresh : FreshKeys) (m : Mutation) :
    i.binding? fresh m.operation m.payload = none ↔ ∃ a, i.attempt? m.operation = some a ∧ a.BoundElsewhere m := by
  cases ha : i.attempt? m.operation with
  | none => simp [binding?, ha]
  | some a =>
    cases hprint : a.fingerprint with
    | none => simp [binding?, ha, hprint, Attempt.BoundElsewhere]
    | some print =>
      rw [binding?_of_bound ha hprint]
      simp [Attempt.BoundElsewhere, hprint]

/-- What a gate asks of an attempt, told by the request that it is bound to. -/
theorem PolicyGate.passes_binding_iff {s : Session} {e : PolicyEdit} {a : Attempt} {m : Mutation}
    (ha : s.issuer.attempt? (e.mutation s).operation = some a) (hbound : a.fingerprint = some (fingerprint m.payload))
    (happart : fingerprint m.payload = fingerprint (e.mutation s).payload → m.payload = (e.mutation s).payload) :
    binding.Passes s e ↔ m.SameRequest (e.mutation s) := by
  rw [← Mutation.payload_eq_iff]
  unfold Passes
  constructor
  · intro h
    exact happart (Classical.not_not.1 fun hne => h a ha ⟨_, hbound, hne⟩)
  · rintro hsame b hb ⟨print, hprint, hne⟩
    cases ha.symm.trans hb
    cases hbound.symm.trans hprint
    exact hne (congrArg fingerprint hsame)

/-! ## The gates, one after the other -/

namespace Client

variable {s : Session} {e : PolicyEdit}

/-- An edit that may be made and is held back, by the second gate, the third or the fourth. -/
theorem start_of_held {held : PolicySave} (hpermission : PolicyGate.permission.Passes s e)
    (hheld : heldBack? s e.before e.after e.confirmed = some held) :
    start s e.call = (.returned (.policySaved (.ok held)), s.skip 1) := by
  have hallowed : s.isAllowed Permission.managePolicies = true := hpermission
  show savePolicy s e.user e.before e.after e.confirmed = _
  rw [savePolicy_eq, if_pos hallowed, hheld]

/-- An edit that passes the gates up to the confirmation goes on as a mutation. -/
theorem start_of_cleared (h : ∀ gate : PolicyGate, gate.rank ≤ PolicyGate.confirmation.rank → gate.Passes s e) :
    start s e.call = mutate (s.skip 1) (e.mutation s) := by
  have hallowed : s.isAllowed Permission.managePolicies = true := h .permission (by decide)
  have hconfirmation : PolicyGate.confirmation.Passes s e := h .confirmation (by decide)
  have hheld : heldBack? s e.before e.after e.confirmed = none := by
    rw [heldBack?_of_within (h .change (by decide)) (h .ceiling (by decide)),
      if_neg (fun hasks => (e.unconfirmed_iff s).1 hasks hconfirmation)]
  show savePolicy s e.user e.before e.after e.confirmed = _
  rw [savePolicy_eq, if_pos hallowed, hheld]
  rfl

theorem start_of_passed (h : ∀ gate : PolicyGate, gate.Passes s e) :
    ∃ keys, (start s e.call).1 = .waiting (.answer (submission s (e.mutation s) keys)) := by
  rw [start_of_cleared (fun gate _ => h gate), mutate_of_free (s.skip 1) (e.mutation s) (h .permission) (h .mark)]
  cases hbinding : (s.skip 1).issuer.binding? ((s.skip 1).skip 1).nextKeys (e.mutation s).operation
    (e.mutation s).payload with
  | some a => exact ⟨a.keys, rfl⟩
  | none =>
    obtain ⟨a, ha, helsewhere⟩ := (Issuer.binding?_eq_none_iff _ _ _).1 hbinding
    exact absurd helsewhere (h .binding a ha)

/-- **The first gate that an edit does not pass answers for it**, and nothing is done but that identifiers are
drawn. -/
theorem start_of_stops {gate : PolicyGate} (h : gate.Stops s e) :
    ∃ n trace, start s e.call = (.returned (.policySaved (gate.refusal s e trace)), s.skip n) := by
  obtain ⟨hfails, hearlier⟩ := h
  cases gate with
  | permission =>
    have hlacks : ¬ s.isAllowed Permission.managePolicies = true := hfails
    refine ⟨1, .minted s.mint.peek, ?_⟩
    show savePolicy s e.user e.before e.after e.confirmed = _
    rw [savePolicy_eq, if_neg hlacks]
    rfl
  | change =>
    exact ⟨1, .minted s.mint.peek, start_of_held (hearlier .permission (by decide)) (heldBack?_of_change hfails)⟩
  | ceiling =>
    exact ⟨1, .minted s.mint.peek, start_of_held (hearlier .permission (by decide))
      (heldBack?_of_ceiling (hearlier .change (by decide)) hfails)⟩
  | confirmation =>
    refine ⟨1, .minted s.mint.peek, start_of_held (hearlier .permission (by decide)) ?_⟩
    rw [heldBack?_of_within (hearlier .change (by decide)) (hearlier .ceiling (by decide)),
      if_pos ((e.unconfirmed_iff s).2 hfails)]
  | mark =>
    refine ⟨2, .minted (s.skip 1).mint.peek, ?_⟩
    have htaken : (s.skip 1).issuer.isInFlight (e.mutation s).operation = true := Bool.eq_true_of_not_eq_false hfails
    rw [start_of_cleared (fun earlier hle => hearlier earlier (Nat.lt_of_le_of_lt hle (by decide))),
      mutate_of_inFlight (s.skip 1) (e.mutation s) (hearlier .permission (by decide)) htaken, Session.skip_skip]
    rfl
  | binding =>
    -- the mark has been taken by now, and is given back
    refine ⟨5, .minted ((s.skip 1).skip 3).mint.peek, ?_⟩
    have hnone : (s.skip 1).issuer.binding? ((s.skip 1).skip 1).nextKeys (e.mutation s).operation
        (e.mutation s).payload = none := by
      rw [Issuer.binding?_eq_none_iff]
      obtain ⟨a, h⟩ := not_forall.1 hfails
      obtain ⟨ha, helsewhere⟩ := Classical.not_imp.1 h
      exact ⟨a, ha, Classical.not_not.1 helsewhere⟩
    rw [start_of_cleared (fun earlier hle => hearlier earlier (Nat.lt_of_le_of_lt hle (by decide))),
      mutate_of_free (s.skip 1) (e.mutation s) (hearlier .permission (by decide)) (hearlier .mark (by decide)), hnone]
    simp only [Session.skip_skip]
    rfl

/-- **What becomes of a policy edit**, in every session.  It is sent exactly where it passes all six gates, and then
it is sent as it stands.  Where it is not sent there is a first gate that it does not pass, and the reply is that
gate's, with nothing else done than that identifiers were drawn.  What the ceiling names are the keys that are newly
allowed and that the session lacks; and the last gate stops an edit exactly where the attempt of its operation is
bound to another request, as long as the fingerprints of the two are not the same. -/
theorem policy_save_decided (s : Session) (e : PolicyEdit) :
    ((∃ x, (start s e.call).1 = .waiting (.answer x)) ↔ ∀ gate : PolicyGate, gate.Passes s e) ∧
    (∀ x, (start s e.call).1 = .waiting (.answer x) → ∃ keys, x = submission s (e.mutation s) keys) ∧
    ((¬ ∃ x, (start s e.call).1 = .waiting (.answer x)) ↔ ∃ gate : PolicyGate, gate.Stops s e) ∧
    (∀ gate : PolicyGate, gate.Stops s e →
      ∃ n trace, start s e.call = (.returned (.policySaved (gate.refusal s e trace)), s.skip n)) ∧
    (∀ key, key ∈ e.missing s ↔ key ∈ e.after.allow ∧ ¬ key ∈ e.before.allow ∧ s.isAllowed key = false) ∧
    ∀ (a : Attempt) (m : Mutation), s.issuer.attempt? (e.mutation s).operation = some a →
      a.fingerprint = some (fingerprint m.payload) →
      (fingerprint m.payload = fingerprint (e.mutation s).payload → m.payload = (e.mutation s).payload) →
      (PolicyGate.binding.Passes s e ↔ m.SameRequest (e.mutation s)) := by
  have hsent : (∃ x, (start s e.call).1 = .waiting (.answer x)) ↔ ∀ gate : PolicyGate, gate.Passes s e := by
    constructor
    · rintro ⟨x, hx⟩
      refine Classical.not_not.1 fun hstopped => ?_
      obtain ⟨gate, hgate⟩ := PolicyGate.exists_stops_iff.2 hstopped
      obtain ⟨n, trace, hstart⟩ := start_of_stops hgate
      rw [hstart] at hx; cases hx
    · intro h
      obtain ⟨keys, hkeys⟩ := start_of_passed h
      exact ⟨_, hkeys⟩
  refine ⟨hsent, fun x hx => ?_, ?_, fun gate => start_of_stops, e.mem_missing s,
    fun a m ha hbound happart => PolicyGate.passes_binding_iff ha hbound happart⟩
  · obtain ⟨keys, hkeys⟩ := start_of_passed (hsent.1 ⟨x, hx⟩)
    rw [hx] at hkeys
    cases hkeys
    exact ⟨keys, rfl⟩
  · rw [hsent, PolicyGate.exists_stops_iff]

/-- An edit that comes to allow one key, and is not confirmed. -/
def auditGranted : PolicyEdit := ⟨⟨.ofNat 3⟩, .empty, .ofLists [⟨"audit.view"⟩] [], false⟩

/-- The policy manager after an edit of it has failed: the attempt is kept. -/
def policyRetrying : Session :=
  let m := auditGranted.mutation policyManager
  let a : Attempt := ⟨m.operation, ⟨"key", "txn"⟩, .failed, some (fingerprint m.payload)⟩
  { policyManager with issuer := ⟨policyManager.issuer.inFlight, policyManager.issuer.attempts.insert m.operation a⟩ }

/-- An edit beyond the ceiling is blocked by it though it would have to be confirmed as well; and the attempt that it
is bound to does not stand in its own way. -/
theorem unheld_key_blocked :
    ¬ PolicyGate.confirmation.Passes policyManager auditGranted ∧
    (∃ n, start policyManager auditGranted.call =
      (.returned (.policySaved (.ok (.blocked (.ofList [⟨"audit.view"⟩]) auditGranted.preview))),
        policyManager.skip n)) ∧
    (¬ ∃ x, (start policyManager auditGranted.call).1 = .waiting (.answer x)) ∧
    PolicyGate.binding.Passes policyRetrying auditGranted := by
  have hceiling : PolicyGate.ceiling.Stops policyManager auditGranted := by
    refine ⟨fun h => absurd (h ⟨"audit.view"⟩ (by decide) (by decide)) (by decide), fun earlier hlt => ?_⟩
    cases earlier with
    | permission => exact rfl
    | change => unfold PolicyGate.Passes; decide
    | _ => exact absurd hlt (by decide)
  obtain ⟨-, -, hunsent, hstops, -, -⟩ := policy_save_decided policyManager auditGranted
  obtain ⟨-, -, -, -, -, hbinding⟩ := policy_save_decided policyRetrying auditGranted
  refine ⟨?_, ?_, hunsent.2 ⟨_, hceiling⟩, ?_⟩
  · rintro (h | ⟨h, -⟩)
    · exact absurd h (by decide)
    · exact absurd (h ⟨"audit.view"⟩ (by decide)) (by decide)
  · obtain ⟨n, trace, hstart⟩ := hstops _ hceiling
    exact ⟨n, hstart⟩
  · have ha : policyRetrying.issuer.attempt? (auditGranted.mutation policyRetrying).operation = some _ :=
      (Table.get?_insert _ _ _ policyManager.issuer.attempts).trans (if_pos rfl)
    exact (hbinding _ (auditGranted.mutation policyManager) ha rfl (fun _ => rfl)).2 ⟨rfl, rfl, rfl⟩

end Client
end BackOffice
