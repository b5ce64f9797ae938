import BackOffice.Proofs.History
/-!
# Where permissions come from

The effective set of a session is overwritten as a whole or left alone (`permissions_of_kept`): a report
overwrites it that comes in the context it was asked for in, a switch empties it, and it can be set by
hand.  A report is asked for by a refresh, for the subject of that moment, and the subject changes only
by a switch, which leaves the report nothing to overwrite.  So what is allowed at any moment is what one
report grants, that of the last refresh to be answered in this context (`isAllowed_iff_reported`).
-/
namespace BackOffice

namespace PermissionReport

/-- Of the entries on a key the last allows it. -/
def Grants (report : PermissionReport) (key : PermissionKey) : Prop :=
  ∃ before e after, report.entries = before ++ e :: after ∧ e.key = key ∧ e.allowed = true ∧ ∀ f ∈ after, f.key ≠ key

theorem isAllowed_effectiveSet (report : PermissionReport) (key : PermissionKey) :
    report.effectiveSet.isAllowed key = true ↔ report.Grants key := by
  have hget : report.effectiveSet.isAllowed key = true ↔
      (Table.ofList (report.entries.map (fun e => (e.key, e.allowed)))).get? key = some true := by
    unfold effectiveSet EffectiveSet.ofPairs EffectiveSet.isAllowed
    cases (Table.ofList (report.entries.map (fun e => (e.key, e.allowed)))).get? key <;> simp
  rw [hget, Table.get?_ofList_eq_some_iff]
  constructor
  · rintro ⟨before, after, he, hafter⟩
    obtain ⟨front, rest, hentries, -, hrest⟩ := List.map_eq_append_iff.1 he
    obtain ⟨e, tail, rfl, hpair, htail⟩ := List.map_eq_cons_iff.1 hrest
    obtain ⟨hkey, hallowed⟩ := Prod.mk.inj hpair
    refine ⟨front, e, tail, hentries, hkey, hallowed, fun f hf => ?_⟩
    exact hafter (f.key, f.allowed) (htail ▸ List.mem_map_of_mem hf)
  · rintro ⟨before, e, after, he, rfl, hallowed, hafter⟩
    refine ⟨before.map (fun e => (e.key, e.allowed)), after.map (fun e => (e.key, e.allowed)), ?_, fun p hp => ?_⟩
    · rw [he, List.map_append, List.map_cons, hallowed]
    · obtain ⟨f, hf, rfl⟩ := List.mem_map.1 hp
      exact hafter f hf

end PermissionReport

/-- An answer with a status of success whose body reads as a report. -/
def Arrival.Brings (arrival : Arrival) (report : PermissionReport) : Prop :=
  ∃ raw body, arrival = .ok raw ∧ raw.isSuccess = true ∧ Json.parse raw.body = some body ∧
    PermissionReport.decoder.value body = some report

theorem Arrival.brings_of_read {fresh : Uuid} {arrival : Arrival} {answer : Answer} {report : PermissionReport}
    (h : arrival.read fresh = .ok answer) (hd : answer.decode PermissionReport.decoder = .ok report) :
    arrival.Brings report := by
  have hvalue : PermissionReport.decoder.value answer.body = some report := by
    unfold Answer.decode at hd
    split at hd
    · rename_i x hx; cases hd; exact hx
    · cases hd
  obtain ⟨raw, rfl, hsuccess, hbody⟩ := yields_of_read h
  split at hbody
  · -- an empty body is no report
    have hnull : answer.body = .null := (Option.some.inj hbody).symm
    rw [hnull] at hvalue
    cases hvalue
  · exact ⟨raw, answer.body, rfl, hsuccess, hbody, hvalue⟩

namespace Client

/-- A call that awaits a report was asked to refresh, and has asked for the subject of that moment. -/
theorem Opening.of_refresh {s s' : Session} {call : Call} {x : Exchange} {stamp : Stamp}
    (h : Opening s call (.waiting (.answer x)) s') (hp : x.purpose = .refresh stamp) :
    call = .refreshPermissions ∧ stamp = s.stamp ∧
      x.request = (permissionRequest s.subject).withContext s.stamp := by
  cases h with
  | listed resource hc miss => cases hp
  | asked purpose hc =>
    rcases hc with ⟨-, rfl⟩ | ⟨rfl, rfl⟩
    · cases hp
    · cases hp; exact ⟨rfl, rfl, rfl⟩
  | sent request hc => cases hp
  | submitted m a n hm hp' hf hb => cases hp

theorem concluded_permissions (s : Session) (p : Purpose) (result : Except ApiError Answer) :
    (concluded s p result).permissions = s.permissions ∨
      ∃ stamp answer report, p = .refresh stamp ∧ result = .ok answer ∧
        answer.decode PermissionReport.decoder = .ok report ∧ s.isCurrent stamp = true := by
  unfold concluded
  split
  · rename_i stamp answer
    split
    · rename_i report hd
      split
      · rename_i hcurrent; exact .inr ⟨stamp, answer, report, rfl, rfl, hd, hcurrent⟩
      · exact .inl rfl
    · exact .inl rfl
  · split <;> exact .inl rfl
  all_goals exact .inl rfl

end Client

namespace Run

variable {r r' : Run} {a : Action}

/-- The answer with which a refresh comes to its end: a report, in the context it was asked for in. -/
def Installs (r : Run) (a : Action) (report : PermissionReport) : Prop :=
  ∃ id arrival x stamp answer, a = .answer id arrival ∧ r.ongoing.get? id = some (.answer x) ∧
    x.purpose = .refresh stamp ∧ Client.verdict r.config r.session x arrival = .settled (.ok answer) ∧
    answer.decode PermissionReport.decoder = .ok report ∧ r.session.isCurrent stamp = true

/-- **A report is installed as a whole**, in place of all that was there. -/
theorem Installs.permissions {report : PermissionReport} (h : r.Installs a report) :
    (r.step a).session.permissions = report.effectiveSet := by
  obtain ⟨id, arrival, x, stamp, answer, rfl, hx, hp, hv, hd, hcurrent⟩ := h
  unfold step
  rw [act_of_settled hx hv]
  simp only [Session.skip_permissions, Client.concluded, hp, hd, hcurrent, if_true]
  rfl

/-- An action puts another effective set in place of the one that is there. -/
def Overwrites (r : Run) (a : Action) : Prop :=
  (∃ report, r.Installs a report) ∨ (∃ subject, a = .switch subject) ∨ ∃ set, a = .grant set

/-- **What overwrites nothing leaves the effective set alone.** -/
theorem permissions_of_kept (r : Run) (a : Action) (h : ¬ r.Overwrites a) :
    (r.step a).session.permissions = r.session.permissions := by
  cases hclient : a.isClient with
  | false => exact (r.step_byHand hclient).2.2.2.2.1
  | true =>
    have ht := act_turn r hclient
    generalize r.step a = r', (r.act a).1 = e at ht
    cases ht with
    | begun call p s ho => cases ho <;> rfl
    | settled id arrival x result hx hv =>
      rcases Client.concluded_permissions r.session x.purpose result with hkept | ⟨stamp, answer, report, hp, rfl, hd, hs⟩
      · exact hkept
      · exact absurd (.inl ⟨report, id, arrival, x, stamp, answer, rfl, hx, hp, hv, hd, hs⟩) h
    | dropped id w hw =>
      show (Client.abandon r.session w.exchange).permissions = _
      unfold Client.abandon
      split <;> rfl
    | switched subject => exact absurd (.inr (.inl ⟨subject, rfl⟩)) h
    | granted set => exact absurd (.inr (.inr ⟨set, rfl⟩)) h
    | _ => rfl

theorem not_switched_of_never : ∀ {acts : List Action} {r : Run}, Never Overwrites r acts → ∀ subject,
    Action.switch subject ∉ acts
  | _ :: _, _, h, subject, hs => by
    rcases List.mem_cons.1 hs with rfl | hs
    · exact h.1 (.inr (.inl ⟨subject, rfl⟩))
    · exact not_switched_of_never h.2 subject hs

/-- In the course of these actions a refresh has asked for the subject that the session now has, and was
answered with this report.  From when it asked the context was not left, and from when it was answered the
effective set was left alone. -/
def Source (r : Run) (acts : List Action) (report : PermissionReport) : Prop :=
  ∃ pre mid id arrival post x,
    acts = pre ++ .begin .refreshPermissions :: (mid ++ .answer id arrival :: post) ∧
    ((r.after pre).act (.begin .refreshPermissions)).1 = .progressed id (.waiting (.answer x)) ∧
    x.request = (Client.permissionRequest (r.after acts).session.subject).withContext (r.after pre).session.stamp ∧
    (∀ subject, Action.switch subject ∉ mid) ∧
    arrival.Brings report ∧
    let answered := ((r.after pre).step (.begin .refreshPermissions)).after mid
    answered.Installs (.answer id arrival) report ∧ Never Overwrites (answered.step (.answer id arrival)) post

theorem Source.permissions {acts : List Action} {report : PermissionReport} (h : r.Source acts report) :
    (r.after acts).session.permissions = report.effectiveSet := by
  obtain ⟨pre, mid, id, arrival, post, x, rfl, -, -, -, -, hinstalls, hkept⟩ := h
  simp only [after_append, after_cons]
  exact (hkept.eq_after (fun r => r.session.permissions) permissions_of_kept).trans hinstalls.permissions

theorem source_of_installs {pre post : List Action} {report : PermissionReport} (hnew : r.ongoing = .empty)
    (h : (r.after pre).Installs a report) (hkept : Never Overwrites ((r.after pre).step a) post) :
    r.Source (pre ++ a :: post) report := by
  obtain ⟨id, arrival, x, stamp, answer, rfl, hx, hp, hv, hd, hcurrent⟩ := h
  rcases begun_of_waiting hx with ⟨w, hw, -⟩ | ⟨before, call, mid, x₀, rfl, hid, hstart, hrequest, hpurpose, -⟩
  · rw [hnew] at hw; cases hw
  have ho := Client.start_opening (r.after before).session call
  rw [hstart] at ho
  obtain ⟨rfl, rfl, hasked⟩ := ho.of_refresh (hpurpose.symm.trans hp)
  -- an answer is installed only if no switch has come since the call began
  have hsame : ((r.after before).after (.begin .refreshPermissions :: mid)).version = (r.after before).version := by
    have hversion := (isCurrent_iff _ _).1 hcurrent
    rwa [after_append] at hversion
  have hstay : ∀ subject, Action.switch subject ∉ mid := fun subject hs =>
    not_switched_of_version hsame subject (List.mem_cons_of_mem _ hs)
  have hsubject : (r.after (before ++ .begin .refreshPermissions :: mid ++ .answer id arrival :: post)).session.subject =
      (r.after before).session.subject := by
    rw [List.append_assoc, after_append]
    refine subject_after fun subject hs => ?_
    simp only [List.cons_append, List.mem_cons, List.mem_append, reduceCtorEq, false_or] at hs
    exact hs.elim (hstay subject) (not_switched_of_never hkept subject)
  refine ⟨before, mid, id, arrival, post, x₀, by simp, ?_, ?_, hstay, ?_, ?_⟩
  · rw [act_begin, hstart, hid]
  · rw [hasked, hsubject]
  · exact Arrival.brings_of_read (Client.read_of_success hv) hd
  · rw [after_append, after_cons] at hx hv hcurrent hkept
    exact ⟨⟨id, arrival, x, _, answer, rfl, hx, hp, hv, hd, hcurrent⟩, hkept⟩

/-- **What a session may do comes from one report**, that of the last refresh to be answered in the context
that the session is in: a key is allowed exactly where that report grants it, and where there is no such
report nothing is. -/
theorem isAllowed_iff_reported (config : Config) (subject : Subject) (mint : Mint) {acts : List Action}
    (hc : ∀ set, Action.grant set ∉ acts) :
    let r := start config subject mint
    (∀ report, r.Source acts report → (r.after acts).session.permissions = report.effectiveSet) ∧
    ∀ key, (r.after acts).session.isAllowed key = true ↔ ∃ report, r.Source acts report ∧ report.Grants key := by
  intro r
  refine ⟨fun report hreport => hreport.permissions, fun key => ⟨fun hkey => ?_, ?_⟩⟩
  · rcases never_or_last Overwrites acts r with hnever | ⟨pre, a, post, rfl, hlast, hpost⟩
    · have hempty : (r.after acts).session.permissions = .empty :=
        hnever.eq_after (fun r => r.session.permissions) permissions_of_kept
      unfold Session.isAllowed at hkey
      rw [hempty] at hkey; cases hkey
    · rcases hlast with ⟨report, hinstalls⟩ | ⟨subject', rfl⟩ | ⟨set, rfl⟩
      · have hsource := source_of_installs (r := r) rfl hinstalls hpost
        unfold Session.isAllowed at hkey
        rw [hsource.permissions] at hkey
        exact ⟨report, hsource, (report.isAllowed_effectiveSet key).1 hkey⟩
      · have hempty : (r.after (pre ++ .switch subject' :: post)).session.permissions = .empty := by
          rw [after_append, after_cons]
          exact hpost.eq_after (fun r => r.session.permissions) permissions_of_kept
        unfold Session.isAllowed at hkey
        rw [hempty] at hkey; cases hkey
      · exact absurd (List.mem_append_right _ List.mem_cons_self) (hc set)
  · rintro ⟨report, hsource, hgrants⟩
    unfold Session.isAllowed
    rw [hsource.permissions]
    exact (report.isAllowed_effectiveSet key).2 hgrants

def newcomer : Run := start .standard (.ofUser ⟨.ofNat 1⟩ ⟨.ofNat 2⟩ ⟨"clerk"⟩) (.ofMillis 0)

/-- A refresh, and an answer to it that grants one key. -/
def auditGranted : List Action :=
  [.begin .refreshPermissions, .answer 0 (.ok (.make 200 "[null,[[\"audit.view\",true]]]"))]

theorem reported_until_switch :
    (∃ report, newcomer.Source auditGranted report ∧ report.Grants ⟨"audit.view"⟩) ∧
    ¬ ∃ report, newcomer.Source (auditGranted ++ [.switch (.ofUser ⟨.ofNat 1⟩ ⟨.ofNat 3⟩ ⟨"clerk"⟩)]) report ∧
      report.Grants ⟨"audit.view"⟩ := by
  have hallowed : (newcomer.after auditGranted).session.isAllowed ⟨"audit.view"⟩ = true := by decide +kernel
  have hswitched : (newcomer.after (auditGranted ++
      [.switch (.ofUser ⟨.ofNat 1⟩ ⟨.ofNat 3⟩ ⟨"clerk"⟩)])).session.isAllowed ⟨"audit.view"⟩ = false := by
    rw [after_append]
    rfl
  constructor
  · exact ((isAllowed_iff_reported _ _ _ (by simp [auditGranted])).2 _).1 hallowed
  · intro hsource
    have hagain := ((isAllowed_iff_reported _ _ _ (by simp [auditGranted])).2 _).2 hsource
    exact absurd hagain (Bool.eq_false_iff.1 hswitched)

end Run
end BackOffice
