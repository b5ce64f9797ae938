import BackOffice.Proofs.Keys
import BackOffice.Proofs.Provenance
/-!
# What lets a mutation through

The calls that change something have to be permitted (`Call.gate?`), and each looks at its gate in the turn
in which it hands its request over.  So whatever other calls have done before, a mutating request goes to
the transport only while its key is allowed (`mutating_sends_gated`).  Since a switch leaves nothing
allowed, none goes from then until an effective set is put in place again.
-/
namespace BackOffice

/-- The key that a call has to be allowed, if it is for changing something. -/
def Call.gate? : Call → Option PermissionKey
  | .createStore _        => some Permission.createStores
  | .createUser _         => some Permission.createUsers
  | .savePolicy _ _ _ _   => some Permission.managePolicies
  | .fetchPermissions | .refreshPermissions | .list _ | .send _ => none

namespace Client

variable {s : Session} {call : Call}

theorem gate?_of_mutation {m : Mutation} (hm : mutation? s call = some m) : call.gate? = some m.permission := by
  rcases mutation?_cases hm with ⟨store, rfl, rfl⟩ | ⟨user, rfl, rfl⟩ | ⟨user, before, after, confirmed, rfl, -, rfl⟩ <;>
    rfl

/-- **A call that is not allowed its key fails in its first turn**, which draws one identifier and does
nothing else. -/
theorem start_of_refused {key : PermissionKey} (hkey : call.gate? = some key) (hp : s.isAllowed key = false) :
    ∃ reply, start s call = (.returned reply, s.skip 1) ∧
      reply.error? = some (.missingPermission (.minted s.mint.peek) key) := by
  cases call with
  | createStore store =>
    cases hkey
    exact ⟨_, mutate_of_refused s (storeMutation s store) hp, submissionReply_error _ _ _⟩
  | createUser user =>
    cases hkey
    exact ⟨_, mutate_of_refused s (userMutation s user) hp, submissionReply_error _ _ _⟩
  | savePolicy user before after confirmed =>
    cases hkey
    refine ⟨.policySaved (.error _), ?_, rfl⟩
    simp only [start]
    rw [savePolicy_eq, if_neg (Bool.eq_false_iff.1 hp)]
  | _ => cases hkey

theorem Opening.isAllowed {s' : Session} {p : Progress} (h : Opening s call p s') (key : PermissionKey) :
    s'.isAllowed key = s.isAllowed key := by
  cases h <;> rfl

end Client

namespace Run

variable {r : Run}

/-- An action puts an effective set in place, that of a report or one given by hand. -/
def Fills (r : Run) (a : Action) : Prop := (∃ report, r.Installs a report) ∨ ∃ set, a = .grant set

/-- Where nothing is allowed, nothing is until an effective set is put in place. -/
theorem permissions_empty_after : ∀ {acts : List Action} {r : Run}, Never Fills r acts →
    r.session.permissions = .empty → (r.after acts).session.permissions = .empty
  | [], _, _, hempty => hempty
  | a :: acts, r, h, hempty => by
    refine permissions_empty_after (r := r.step a) h.2 ?_
    by_cases hover : r.Overwrites a
    · rcases hover with hreport | ⟨subject, rfl⟩ | hset
      · exact absurd (.inl hreport) h.1
      · rfl
      · exact absurd (.inr hset) h.1
    · exact (r.permissions_of_kept a hover).trans hempty

/-- A mutating request is handed over by a call whose key is allowed, before and after that turn. -/
theorem allowed_of_sent (hr : r.Orderly) {a : Action} (ha : a.isPlain = true) {x : Exchange}
    (hs : (r.act a).1.sent? = some x) (hx : x.request.isMutation = true) :
    ∃ call m keys, a = .begin call ∧ Client.mutation? r.session call = some m ∧
      x = Client.submission r.session m keys ∧ call.gate? = some m.permission ∧
      r.session.isAllowed m.permission = true ∧ (r.step a).session.isAllowed m.permission = true := by
  have hturn := act_turn r (Action.isClient_of_isPlain ha)
  obtain ⟨call, m, att, rfl, hm, rfl, -⟩ := hturn.submitted hr ha hs hx
  have hgate := Client.gate?_of_mutation hm
  have hallowed : r.session.isAllowed m.permission = true := by
    cases hp : r.session.isAllowed m.permission with
    | true => rfl
    | false =>
      obtain ⟨reply, hstart, -⟩ := Client.start_of_refused hgate hp
      rw [act_begin, hstart] at hs; cases hs
  refine ⟨call, m, att.keys, rfl, hm, rfl, hgate, hallowed, ?_⟩
  rw [step_begin_session, (Client.start_opening r.session call).isAllowed, hallowed]

/-- **No mutating request is sent but through its gate**: when one goes to the transport its key is allowed;
from a switch until an effective set is put in place none goes; and a call that is stopped at its gate sends
nothing and leaves the run as it was, but for its number and one identifier. -/
theorem mutating_sends_gated (hr : r.Reached) :
    (∀ a x, a.isPlain = true → (r.act a).1.sent? = some x → x.request.isMutation = true →
      ∃ call m keys, a = .begin call ∧ Client.mutation? r.session call = some m ∧
        x = Client.submission r.session m keys ∧ call.gate? = some m.permission ∧
        r.session.isAllowed m.permission = true ∧ (r.step a).session.isAllowed m.permission = true) ∧
    (∀ subject mid, (∀ a ∈ mid, a.isClient = true) → Never Fills (r.step (.switch subject)) mid →
      ∀ a x, a.isPlain = true → (((r.step (.switch subject)).after mid).act a).1.sent? = some x →
        x.request.isMutation = false) ∧
    ∀ call key, call.gate? = some key → r.session.isAllowed key = false →
      (∃ reply trace, (r.act (.begin call)).1 = .progressed r.started (.returned reply) ∧
        reply.error? = some (.missingPermission trace key)) ∧
      r.step (.begin call) = { r with session := r.session.skip 1, started := r.started + 1 } := by
  refine ⟨fun a x ha hs hx => allowed_of_sent hr.orderly ha hs hx, fun subject mid hmid hnever a x ha hs => ?_,
    fun call key hkey hp => ?_⟩
  · have hlater := (hr.step (show (Action.switch subject).isClient = true from rfl)).after hmid
    have hempty := permissions_empty_after hnever rfl
    refine Bool.eq_false_iff.2 fun hx => ?_
    obtain ⟨call, m, keys, -, -, -, -, hallowed, -⟩ := allowed_of_sent hlater.orderly ha hs hx
    unfold Session.isAllowed at hallowed
    rw [hempty] at hallowed; cases hallowed
  · obtain ⟨reply, hstart, herror⟩ := Client.start_of_refused hkey hp
    exact ⟨⟨reply, _, by rw [act_begin, hstart], herror⟩, step_of_declined hr.orderly hstart⟩

/-- A session that may open stores, and then moves on to another subject. -/
theorem opening_gated :
    (∃ m, (Call.createStore ⟨"North", none⟩).gate? = some m.permission ∧
      Client.mutation? storeKeeping.session (.createStore ⟨"North", none⟩) = some m ∧
      storeKeeping.session.isAllowed m.permission = true) ∧
    (∀ x, (((storeKeeping.step (.switch (.ofUser ⟨.ofNat 1⟩ ⟨.ofNat 3⟩ ⟨"manager"⟩))).after
        [.begin .refreshPermissions]).act (.begin (.list .stores))).1.sent? = some x → x.request.isMutation = false) ∧
    ∃ reply trace, (storeKeeping.act (.begin (.savePolicy ⟨.ofNat 3⟩ .empty .empty true))).1 =
        .progressed 0 (.returned reply) ∧
      reply.error? = some (.missingPermission trace Permission.managePolicies) := by
  obtain ⟨hsent, hswitched, hrefused⟩ := mutating_sends_gated storeKeeping_reached
  have hnever : ∀ subject, Never Fills (storeKeeping.step (.switch subject)) [.begin .refreshPermissions] := by
    intro subject
    refine ⟨?_, trivial⟩
    rintro (⟨report, id, arrival, x, stamp, answer, ha, -⟩ | ⟨set, ha⟩) <;> cases ha
  refine ⟨?_, fun x hx => ?_, ?_⟩
  · obtain ⟨call, m, keys, hcall, hm, -, hgate, hallowed, -⟩ := hsent (.begin (.createStore ⟨"North", none⟩)) _ rfl rfl rfl
    cases hcall
    exact ⟨m, hgate, hm, hallowed⟩
  · exact hswitched _ _ (by simp [Action.isClient]) (hnever _) _ x rfl hx
  · exact (hrefused (.savePolicy ⟨.ofNat 3⟩ .empty .empty true) Permission.managePolicies rfl rfl).1

end Run
end BackOffice
