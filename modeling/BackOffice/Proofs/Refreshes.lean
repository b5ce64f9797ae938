import BackOffice.Proofs.Traces
import BackOffice.Proofs.Provenance
/-!
# Refreshes that overlap

All refreshes of one context carry one stamp, and of an answer only the stamp is looked at.  So the sets are installed in
the order in which the answers come (`installed`), whatever the order was in which they were asked for, and the set in
place is that of the refresh that was answered last (`permissions_after`).  It is that of the refresh asked for last
exactly if no other overtakes it (`last_asked_iff`); a right that was withdrawn comes back where one does
(`withdrawn_comes_back`).
-/
namespace BackOffice

theorem Arrival.read_of_brings {arrival : Arrival} {report : PermissionReport} (h : arrival.Brings report) (fresh : Uuid) :
    ∃ answer, arrival.read fresh = .ok answer ∧ answer.decode PermissionReport.decoder = .ok report := by
  obtain ⟨raw, body, rfl, hsuccess, hbody, hvalue⟩ := h
  have hyields : Arrival.Yields (.ok raw) body := by
    refine ⟨raw, rfl, hsuccess, ?_⟩
    rw [if_neg]
    · exact hbody
    · intro hblank
      rw [Json.parse_of_blank hblank] at hbody
      cases hbody
  obtain ⟨answer, hread, rfl⟩ := read_of_yields hyields fresh
  refine ⟨answer, hread, ?_⟩
  unfold Answer.decode
  rw [hvalue]

namespace Run

variable {r : Run} {a : Action} {id : Nat} {report : PermissionReport}

/-- The refresh that an action ends with a report, in the context it was asked for in, and the report. -/
def installed? (r : Run) : Action → Option (Nat × PermissionReport)
  | .answer id arrival =>
    match r.ongoing.get? id with
    | some (.answer x) =>
      match x.purpose, Client.verdict r.config r.session x arrival with
      | .refresh stamp, .settled (.ok answer) =>
        match answer.decode PermissionReport.decoder with
        | .ok report => if r.session.isCurrent stamp then some (id, report) else none
        | .error _   => none
      | _, _ => none
    | _ => none
  | _ => none

/-- The refreshes that are answered with a report in the course of these actions, in the order of their answers. -/
def installed (r : Run) : List Action → List (Nat × PermissionReport)
  | []        => []
  | a :: acts => (r.installed? a).toList ++ (r.step a).installed acts

/-- A refresh of the present context waits for an answer. -/
def Awaits (r : Run) (id : Nat) : Prop :=
  ∃ x stamp, r.ongoing.get? id = some (.answer x) ∧ x.purpose = .refresh stamp ∧ r.session.isCurrent stamp = true

/-- Refresh `id` is asked for in the course of these actions; numbers are given in the order of asking. -/
def RefreshAsked (r : Run) (acts : List Action) (id : Nat) : Prop :=
  ∃ pre post, acts = pre ++ .begin .refreshPermissions :: post ∧ (r.after pre).started = id

/-! ## One answer -/

theorem installed?_eq_some_iff : r.installed? a = some (id, report) ↔ a.call? = some id ∧ r.Installs a report := by
  constructor
  · intro h
    unfold installed? at h
    split at h
    · rename_i i arrival
      split at h
      · rename_i x hx
        split at h
        · rename_i stamp answer hp hv
          split at h
          · rename_i report' hd
            split at h
            · rename_i hcurrent
              cases h
              exact ⟨rfl, id, arrival, x, stamp, answer, rfl, hx, hp, hv, hd, hcurrent⟩
            · cases h
          · cases h
        · cases h
      · cases h
    · cases h
  · rintro ⟨hid, i, arrival, x, stamp, answer, rfl, hx, hp, hv, hd, hcurrent⟩
    cases hid
    simp only [installed?, hx, hp, hv, hd, hcurrent, if_true]

/-- A refresh that waits was asked for, in the context that its report is looked at by. -/
theorem begun_of_refresh {acts : List Action} {x : Exchange} {stamp : Stamp}
    (hx : (r.after acts).ongoing.get? id = some (.answer x)) (hp : x.purpose = .refresh stamp) :
    (∃ w, r.ongoing.get? id = some w) ∨ r.RefreshAsked acts id ∧ x.request.context = some stamp := by
  rcases begun_of_waiting hx with ⟨w, hw, -⟩ | ⟨pre, call, post, x₀, rfl, hid, hstart, hrequest, hpurpose, -⟩
  · exact .inl ⟨w, hw⟩
  have hopening := Client.start_opening (r.after pre).session call
  rw [hstart] at hopening
  obtain ⟨rfl, hstamp, hasked⟩ := hopening.of_refresh (hpurpose.symm.trans hp)
  refine .inr ⟨⟨pre, post, rfl, hid.symm⟩, ?_⟩
  show x.request.context = _
  rw [show x.request = x₀.request from hrequest, hasked, hstamp]
  rfl

theorem Reached.context_of_refresh (hr : r.Reached) {x : Exchange} {stamp : Stamp}
    (hx : r.ongoing.get? id = some (.answer x)) (hp : x.purpose = .refresh stamp) : x.request.context = some stamp := by
  obtain ⟨config, subject, mint, acts, -, rfl⟩ := hr
  rcases begun_of_refresh hx hp with ⟨w, hw⟩ | ⟨-, hcontext⟩
  · cases hw
  · exact hcontext

/-- **A report is installed by every answer that brings one** to a refresh of the present context, and by nothing else. -/
theorem Reached.installed?_iff (hr : r.Reached) : r.installed? a = some (id, report) ↔
    ∃ arrival, a = .answer id arrival ∧ r.Awaits id ∧ arrival.Brings report := by
  rw [installed?_eq_some_iff]
  constructor
  · rintro ⟨hid, i, arrival, x, stamp, answer, rfl, hx, hp, hv, hd, hcurrent⟩
    cases hid
    exact ⟨arrival, rfl, ⟨x, stamp, hx, hp, hcurrent⟩, Arrival.brings_of_read (Client.read_of_success hv) hd⟩
  · -- the request carries the stamp of its purpose, so the answer is not judged to be stale
    rintro ⟨arrival, rfl, ⟨x, stamp, hx, hp, hcurrent⟩, hbrings⟩
    obtain ⟨answer, hread, hd⟩ := Arrival.read_of_brings hbrings r.session.mint.peek
    have hcontext : r.session.isInContext x.request = true := by
      unfold Session.isInContext
      rw [hr.context_of_refresh hx hp]
      exact hcurrent
    have hv := Client.verdict_of_current r.config arrival hcontext
    rw [hread] at hv
    exact ⟨rfl, id, arrival, x, stamp, answer, rfl, hx, hp, hv, hd, hcurrent⟩

theorem gone_of_installed (h : r.installed? a = some (id, report)) :
    (∃ w, r.ongoing.get? id = some w) ∧ (r.step a).ongoing.get? id = none := by
  obtain ⟨hid, i, arrival, x, stamp, answer, rfl, hx, -, hv, -, -⟩ := installed?_eq_some_iff.1 h
  cases hid
  refine ⟨⟨_, hx⟩, ?_⟩
  unfold step
  rw [act_of_settled hx hv]
  exact (Table.get?_erase _ _ _).trans (if_pos rfl)

theorem permissions_step (hs : ∀ subject, a ≠ .switch subject) (hg : ∀ set, a ≠ .grant set) :
    (r.step a).session.permissions = ((r.installed? a).map (·.2.effectiveSet)).getD r.session.permissions := by
  cases h : r.installed? a with
  | some p => exact (installed?_eq_some_iff.1 h).2.permissions
  | none =>
    refine r.permissions_of_kept a ?_
    rintro (⟨report, hinstalls⟩ | ⟨subject, rfl⟩ | ⟨set, rfl⟩)
    · obtain ⟨i, arrival, x, stamp, answer, rfl, hx⟩ := id hinstalls
      have hsome := installed?_eq_some_iff.2 ⟨rfl, hinstalls⟩
      rw [h] at hsome
      cases hsome
    · exact hs subject rfl
    · exact hg set rfl

/-! ## Answers one after the other -/

theorem mem_installed_iff {p : Nat × PermissionReport} : ∀ {acts : List Action} {r : Run}, p ∈ r.installed acts ↔
    ∃ pre a post, acts = pre ++ a :: post ∧ (r.after pre).installed? a = some p
  | [], r => by simp [installed]
  | a :: acts, r => by
    show p ∈ (r.installed? a).toList ++ (r.step a).installed acts ↔ _
    rw [List.mem_append, Option.mem_toList, mem_installed_iff]
    constructor
    · rintro (hp | ⟨pre, b, post, rfl, hp⟩)
      · exact ⟨[], a, acts, rfl, hp⟩
      · exact ⟨a :: pre, b, post, rfl, hp⟩
    · rintro ⟨_ | ⟨b, pre⟩, c, post, he, hp⟩
      · cases he; exact .inl hp
      · cases he; exact .inr ⟨pre, c, post, rfl, hp⟩

/-- **The set in place is that of the refresh that was answered last**, or else the one that was there before. -/
theorem permissions_after : ∀ {acts : List Action} {r : Run}, (∀ subject, .switch subject ∉ acts) →
    (∀ set, .grant set ∉ acts) → (r.after acts).session.permissions =
      ((r.installed acts).getLast?.map (·.2.effectiveSet)).getD r.session.permissions
  | [], _, _, _ => rfl
  | a :: acts, r, hs, hg => by
    have hstep := r.permissions_step (a := a) (fun subject e => hs subject (e ▸ List.mem_cons_self))
      (fun set e => hg set (e ▸ List.mem_cons_self))
    have hrest := permissions_after (r := r.step a) (fun subject h => hs subject (List.mem_cons_of_mem _ h))
      (fun set h => hg set (List.mem_cons_of_mem _ h))
    rw [after_cons, hrest, hstep]
    show _ = (((r.installed? a).toList ++ (r.step a).installed acts).getLast?.map _).getD _
    rw [List.getLast?_append]
    cases (r.step a).installed acts |>.getLast? <;> cases r.installed? a <;> rfl

theorem asked_of_installed {acts : List Action} (h : (id, report) ∈ r.installed acts) :
    (∃ w, r.ongoing.get? id = some w) ∨ r.RefreshAsked acts id := by
  obtain ⟨pre, a, post, rfl, ha⟩ := mem_installed_iff.1 h
  obtain ⟨hid, i, arrival, x, stamp, answer, rfl, hx, hp, -⟩ := installed?_eq_some_iff.1 ha
  cases hid
  rcases begun_of_refresh hx hp with hwaiting | ⟨⟨before, since, rfl, hid⟩, -⟩
  · exact .inl hwaiting
  · exact .inr ⟨before, since ++ .answer id arrival :: post, by simp, hid⟩

theorem not_installed_of_gone {acts : List Action} (hc : ∀ a ∈ acts, a.isClient = true) (hid : id < r.started)
    (hgone : r.ongoing.get? id = none) : ∀ p ∈ r.installed acts, p.1 ≠ id := by
  rintro ⟨i, report⟩ hp rfl
  obtain ⟨pre, a, post, rfl, ha⟩ := mem_installed_iff.1 hp
  obtain ⟨⟨w, hw⟩, -⟩ := gone_of_installed ha
  rw [gone_after (fun b hb => hc b (List.mem_append_left _ hb)) hid hgone] at hw
  cases hw

/-- **A refresh is answered once.** -/
theorem nodup_installed : ∀ {acts : List Action} {r : Run}, (∀ a ∈ acts, a.isClient = true) → r.Orderly →
    ((r.installed acts).map (·.1)).Nodup
  | [], _, _, _ => List.nodup_nil
  | a :: acts, r, hc, hr => by
    obtain ⟨ha, hacts⟩ := List.forall_mem_cons.1 hc
    have hturn := act_turn r ha
    have hrest := nodup_installed hacts (hturn.orderly hr)
    show (((r.installed? a).toList ++ (r.step a).installed acts).map (·.1)).Nodup
    cases h : r.installed? a with
    | none => exact hrest
    | some p =>
      obtain ⟨i, report⟩ := p
      obtain ⟨⟨w, hw⟩, hgone⟩ := gone_of_installed h
      have hid := Nat.lt_of_lt_of_le (hr.numbered _ _ hw) hturn.started_le
      refine List.nodup_cons.2 ⟨fun hmem => ?_, hrest⟩
      obtain ⟨q, hq, he⟩ := List.mem_map.1 hmem
      exact not_installed_of_gone hacts hid hgone q hq he

/-! ## The order of asking -/

/-- Refresh `id` is answered with a report, and after it one that was asked for before it. -/
def Overtaken (r : Run) (acts : List Action) (id : Nat) : Prop :=
  ∃ before report after, r.installed acts = before ++ (id, report) :: after ∧ ∃ p ∈ after, p.1 < id

/-- Once a refresh has been answered with a report, none that was asked for before it is. -/
def NeverBackwards (r : Run) (acts : List Action) : Prop := ∀ id, ¬ r.Overtaken acts id

/-- The set in place at the end is that of the last refresh to be asked for of those that are answered with a report. -/
def LastAskedInPlace (r : Run) (acts : List Action) : Prop :=
  ∀ id report, (id, report) ∈ r.installed acts → (∀ p ∈ r.installed acts, p.1 ≤ id) →
    (r.after acts).session.permissions = report.effectiveSet

/-- **The refresh that was asked for last is the one that was answered last exactly if none overtakes it.** -/
theorem last_asked_iff {acts : List Action} (hnodup : ((r.installed acts).map (·.1)).Nodup)
    (hmem : (id, report) ∈ r.installed acts) (hlast : ∀ p ∈ r.installed acts, p.1 ≤ id) :
    (r.installed acts).getLast? = some (id, report) ↔ ¬ r.Overtaken acts id := by
  -- what is answered after it has another number, and so a lower one
  have hafter : ∀ {before report' after}, r.installed acts = before ++ (id, report') :: after → ∀ p ∈ after, p.1 ≠ id := by
    intro before report' after he p hp hid
    rw [he, List.map_append, List.map_cons] at hnodup
    exact (List.nodup_cons.1 (List.nodup_append.1 hnodup).2.1).1 (List.mem_map.2 ⟨p, hp, hid⟩)
  constructor
  · rintro hget ⟨before, report', after, he, p, hp, -⟩
    have hend := List.getLast?_eq_some_getLast (List.ne_nil_of_mem hp)
    rw [he, List.append_cons, List.getLast?_append, hend, Option.some_or] at hget
    exact hafter he _ (List.mem_of_getLast? (hend.trans hget)) rfl
  · intro hkept
    obtain ⟨before, after, he⟩ := List.append_of_mem hmem
    cases after with
    | nil => rw [he, List.getLast?_concat]
    | cons p after =>
      have hp : p ∈ r.installed acts := he ▸ by simp
      have hne := hafter he p List.mem_cons_self
      exact absurd ⟨before, report, _, he, p, List.mem_cons_self, Nat.lt_of_le_of_ne (hlast p hp) hne⟩ hkept

structure RefreshLaws (r : Run) (acts : List Action) : Prop where
  /-- An answer is installed exactly if it brings a report to a refresh of the context, whatever has been installed
  before it. -/
  answered : ∀ pre a post, acts = pre ++ a :: post → ∀ id report, (r.after pre).installed? a = some (id, report) ↔
    ∃ arrival, a = .answer id arrival ∧ (r.after pre).Awaits id ∧ arrival.Brings report
  /-- What is installed was waiting before or is asked for, -/
  asked : ∀ p ∈ r.installed acts, (∃ w, r.ongoing.get? p.1 = some w) ∨ r.RefreshAsked acts p.1
  /-- and once. -/
  once : ((r.installed acts).map (·.1)).Nodup
  /-- At every moment the set in place is that of the refresh that was answered last. -/
  inPlace : ∀ pre post, acts = pre ++ post → (r.after pre).session.permissions =
    ((r.installed pre).getLast?.map (·.2.effectiveSet)).getD r.session.permissions
  /-- The last that was asked for is the last that was answered exactly if none overtakes it. -/
  last : ∀ id report, (id, report) ∈ r.installed acts → (∀ p ∈ r.installed acts, p.1 ≤ id) →
    ((r.installed acts).getLast? = some (id, report) ↔ ¬ r.Overtaken acts id)
  /-- So where none is overtaken the last that was asked for is in place. -/
  ordered : r.NeverBackwards acts → r.LastAskedInPlace acts

/-- **Refreshes count in the order of their answers**, in every run that stays in one context. -/
theorem refreshLaws (hr : r.Reached) {acts : List Action} (hc : ∀ a ∈ acts, a.isClient = true)
    (hs : ∀ subject, .switch subject ∉ acts) (hg : ∀ set, .grant set ∉ acts) : r.RefreshLaws acts where
  answered := by
    rintro pre a post rfl id report
    exact (hr.after fun b hb => hc b (List.mem_append_left _ hb)).installed?_iff
  asked := fun _ hp => asked_of_installed hp
  once := nodup_installed hc hr.orderly
  inPlace := by
    rintro pre post rfl
    exact permissions_after (fun subject h => hs subject (List.mem_append_left _ h))
      (fun set h => hg set (List.mem_append_left _ h))
  last := fun _ _ => last_asked_iff (nodup_installed hc hr.orderly)
  ordered := fun hnever id report hmem hlast => by
    have hend := (last_asked_iff (nodup_installed hc hr.orderly) hmem hlast).2 (hnever id)
    rw [permissions_after hs hg, hend]
    rfl

/-- Two refreshes, of which the second is answered first; its report withdraws what the other still grants. -/
def overtaking : List Action :=
  [.begin .refreshPermissions, .begin .refreshPermissions,
    .answer 1 (.ok (.make 200 "[null,[[\"audit.view\",false]]]")),
    .answer 0 (.ok (.make 200 "[null,[[\"audit.view\",true]]]"))]

theorem newcomer_reached : newcomer.Reached := ⟨_, _, _, [], by simp, rfl⟩

theorem overtaking_oneContext : (∀ a ∈ overtaking, a.isClient = true) ∧ (∀ subject, .switch subject ∉ overtaking) ∧
    ∀ set, .grant set ∉ overtaking := by
  simp [overtaking, Action.isClient]

theorem overtaking_installed : ∃ withdrawing granting, newcomer.installed overtaking = [(1, withdrawing), (0, granting)] ∧
    withdrawing.effectiveSet.isAllowed ⟨"audit.view"⟩ = false ∧ granting.effectiveSet.isAllowed ⟨"audit.view"⟩ = true := by
  have hshown : (newcomer.installed overtaking).map (fun p => (p.1, p.2.effectiveSet.isAllowed ⟨"audit.view"⟩)) =
      [(1, false), (0, true)] := by decide +kernel
  obtain ⟨⟨i, withdrawing⟩, rest, hinstalled, hfirst, hrest⟩ := List.map_eq_cons_iff.1 hshown
  obtain ⟨⟨j, granting⟩, none, rfl, hsecond, hnone⟩ := List.map_eq_cons_iff.1 hrest
  obtain ⟨rfl, hwithdrawn⟩ := Prod.mk.inj hfirst
  obtain ⟨rfl, hgranted⟩ := Prod.mk.inj hsecond
  rw [List.map_eq_nil_iff.1 hnone] at hinstalled
  exact ⟨withdrawing, granting, hinstalled, hwithdrawn, hgranted⟩

/-- What the refresh asked for last withdraws, one asked for before it brings back. -/
theorem withdrawn_comes_back : newcomer.Overtaken overtaking 1 ∧
    (newcomer.after overtaking).session.isAllowed ⟨"audit.view"⟩ = true := by
  have hlaws := refreshLaws newcomer_reached overtaking_oneContext.1 overtaking_oneContext.2.1 overtaking_oneContext.2.2
  obtain ⟨withdrawing, granting, hinstalled, -, hgranted⟩ := overtaking_installed
  have hplace := hlaws.inPlace overtaking [] (by simp)
  rw [hinstalled] at hplace
  refine ⟨⟨[], withdrawing, _, hinstalled, _, List.mem_cons_self, Nat.zero_lt_one⟩, ?_⟩
  unfold Session.isAllowed
  rw [hplace]
  exact hgranted

/-- **Refreshes that overlap can go backwards**, and then the set in place when all have returned is not that of the
last that was asked for. -/
theorem overtaking_goes_backwards : newcomer.Reached ∧ (∀ a ∈ overtaking, a.isClient = true) ∧
    (∀ subject, .switch subject ∉ overtaking) ∧ (∀ set, .grant set ∉ overtaking) ∧
    (newcomer.after overtaking).ongoing.entries = [] ∧
    ¬ newcomer.NeverBackwards overtaking ∧ ¬ newcomer.LastAskedInPlace overtaking := by
  obtain ⟨hclient, hswitch, hgrant⟩ := overtaking_oneContext
  obtain ⟨withdrawing, granting, hinstalled, hwithdrawn, hgranted⟩ := overtaking_installed
  have hplace := permissions_after (r := newcomer) hswitch hgrant
  rw [hinstalled] at hplace
  have hreturned : (newcomer.after overtaking).ongoing.entries.isEmpty = true := by decide +kernel
  refine ⟨newcomer_reached, hclient, hswitch, hgrant, List.isEmpty_iff.1 hreturned, fun hnever => ?_, fun hlast => ?_⟩
  · exact hnever 1 ⟨[], withdrawing, _, hinstalled, _, List.mem_cons_self, Nat.zero_lt_one⟩
  · have hkept := hlast 1 withdrawing (by rw [hinstalled]; exact List.mem_cons_self) (by rw [hinstalled]; simp)
    have hsame : granting.effectiveSet = withdrawing.effectiveSet := hplace.symm.trans hkept
    rw [hsame, hwithdrawn] at hgranted
    cases hgranted

end Run
end BackOffice
