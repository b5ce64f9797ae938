import BackOffice.Proofs.History
/-!
# Versions and stamps

A context is moved on by hand, and that of the tenant by every switch; nothing else touches its version, and nothing sets
it back.  So its version is the number of times that it has been moved on (`current_after`), to move it on gives a version
that has not been seen before, and a stamp is current exactly until its own context is moved on (`isCurrent_after_iff`),
whatever is done to others and by whatever calls (`stamps_exact`).
-/
namespace BackOffice

/-- The context that an action moves on. -/
def Action.advances? : Action → Option String
  | .context (.advance key) => some key
  | .switch _               => some Contexts.tenantKey
  | _                       => none

/-- The context of which an action puts a stamp under a name. -/
def Action.stamps? (name : String) : Action → Option String
  | .context (.stamp key as) => if as = name then some key else none
  | _                        => none

/-- The context of which an operation tells the version. -/
def ContextOp.key? : ContextOp → Option String
  | .current key | .advance key | .stamp key _ => some key
  | .check _ => none

theorem Contexts.isCurrent_stamp_iff (c c' : Contexts) (key : String) :
    c'.isCurrent (c.stamp key) = true ↔ c'.current key = c.current key := beq_iff_eq

namespace Run

variable (r : Run) (key name : String)

/-! ## One action -/

theorem contexts_step (a : Action) : (r.step a).session.contexts = match a.advances? with
    | some key => (r.session.contexts.advance key).2
    | none     => r.session.contexts := by
  cases h : a.isClient with
  | true =>
    rcases (act_turn r h).contexts with ⟨subject, rfl, -⟩ | ⟨hne, hcontexts, -⟩
    · rfl
    · have hnone : a.advances? = none := by
        cases a with
        | switch subject => exact absurd rfl (hne subject)
        | context op => cases h
        | _ => rfl
      rw [hnone]
      exact hcontexts
  | false =>
    cases a with
    | context op =>
      cases op with
      | check name =>
        simp only [step, act, ContextOp.run, Action.advances?]
        cases r.stamps.get? name <;> rfl
      | _ => rfl
    | issuer op => rfl
    | cache op => rfl
    | _ => cases h

theorem current_step (a : Action) : (r.step a).session.contexts.current key =
    r.session.contexts.current key + if a.advances? = some key then 1 else 0 := by
  rw [contexts_step]
  cases a.advances? with
  | none => simp
  | some other =>
    rw [Contexts.current_advance]
    by_cases hkey : other = key <;> simp [hkey]

/-- A stamp is put under a name, or those that are there stay. -/
theorem stamps_step (a : Action) : (r.step a).stamps.get? name = match a.stamps? name with
    | some key => some (r.session.contexts.stamp key)
    | none     => r.stamps.get? name := by
  cases a with
  | context op =>
    cases op with
    | stamp key as =>
      refine (Table.get?_insert as name (r.session.contexts.stamp key) r.stamps).trans ?_
      simp only [Action.stamps?]
      by_cases has : as = name <;> simp [has]
    | check as =>
      simp only [step, act, ContextOp.run, Action.stamps?]
      cases r.stamps.get? as <;> rfl
    | _ => rfl
  | answer id arrival =>
    simp only [step, act, Action.stamps?]
    split <;> rfl
  | resume id =>
    simp only [step, act, Action.stamps?]
    split <;> rfl
  | abandon id =>
    simp only [step, act, Action.stamps?]
    split <;> rfl
  | _ => rfl

/-! ## Actions one after the other -/

/-- How often these actions move a context on. -/
def timesAdvanced (key : String) (acts : List Action) : Nat := acts.countP (fun a => a.advances? = some key)

theorem timesAdvanced_cons (a : Action) (acts : List Action) :
    timesAdvanced key (a :: acts) = timesAdvanced key acts + if a.advances? = some key then 1 else 0 := by
  simp only [timesAdvanced, List.countP_cons, decide_eq_true_eq]

theorem timesAdvanced_append (acts more : List Action) :
    timesAdvanced key (acts ++ more) = timesAdvanced key acts + timesAdvanced key more := List.countP_append

/-- **A version counts how often its context has been moved on.** -/
theorem current_after : ∀ (acts : List Action) (r : Run),
    (r.after acts).session.contexts.current key = r.session.contexts.current key + timesAdvanced key acts
  | [], _ => rfl
  | a :: acts, r => by
    rw [after_cons, current_after acts, current_step, timesAdvanced_cons, Nat.add_assoc, Nat.add_comm (timesAdvanced _ _)]

/-- **A stamp is current until its own context is moved on.** -/
theorem isCurrent_after_iff (acts : List Action) :
    (r.after acts).session.contexts.isCurrent (r.session.contexts.stamp key) = true ↔
      ∀ a ∈ acts, a.advances? ≠ some key := by
  rw [Contexts.isCurrent_stamp_iff, current_after, Nat.add_eq_left, timesAdvanced, List.countP_eq_zero]
  simp

theorem stamps_after : ∀ {acts : List Action} {r : Run}, (∀ a ∈ acts, a.stamps? name = none) →
    (r.after acts).stamps.get? name = r.stamps.get? name
  | [], _, _ => rfl
  | a :: acts, r, h => by
    obtain ⟨ha, hacts⟩ := List.forall_mem_cons.1 h
    rw [after_cons, stamps_after hacts, stamps_step, ha]

/-- No stamp that is kept is ahead of its context. -/
def StampsBehind (r : Run) : Prop :=
  ∀ name s, r.stamps.get? name = some s → s.version ≤ r.session.contexts.current s.key

theorem stampsBehind_start (config : Config) (subject : Subject) (mint : Mint) :
    (start config subject mint).StampsBehind := fun _ _ h => by cases h

variable {r key}

theorem StampsBehind.step (h : r.StampsBehind) (a : Action) : (r.step a).StampsBehind := by
  intro name s hs
  rw [current_step]
  rw [stamps_step] at hs
  split at hs
  · cases hs
    exact Nat.le_add_right _ _
  · exact Nat.le_trans (h name s hs) (Nat.le_add_right _ _)

theorem StampsBehind.after : ∀ {r : Run}, r.StampsBehind → ∀ acts, (r.after acts).StampsBehind
  | _, h, [] => h
  | _, h, a :: acts => (h.step a).after acts

/-! ## What is told of versions -/

/-- Here an operation tells a version of a context: that of the context itself, or that of a stamp of it. -/
inductive Tells (r : Run) (op : ContextOp) (key : String) (v : Nat) : Prop where
  | version (hkey : op.key? = some key) (h : (r.act (.context op)).1 = .context (.version v))
  | stamp (current : Bool) (h : (r.act (.context op)).1 = .context (.checked ⟨key, v⟩ current))

theorem act_check (r : Run) (name : String) : (r.act (.context (.check name))).1 =
    match r.stamps.get? name with
    | some s => .context (.checked s (r.session.contexts.isCurrent s))
    | none   => .ignored := by
  simp only [act, ContextOp.run]
  cases r.stamps.get? name <;> rfl

/-- No version is told that is ahead of its context. -/
theorem Tells.le {op : ContextOp} {v : Nat} (h : r.Tells op key v) (hr : r.StampsBehind) :
    v ≤ (r.step (.context op)).session.contexts.current key := by
  rw [current_step]
  cases h with
  | version hkey h =>
    cases op with
    | current other => cases hkey; cases h; exact Nat.le_add_right _ _
    | advance other =>
      cases hkey
      cases h
      simp [Action.advances?]
    | stamp other as => cases hkey; cases h; exact Nat.le_add_right _ _
    | check other => cases hkey
  | stamp current h =>
    cases op with
    | check name =>
      rw [act_check] at h
      split at h
      · rename_i s hs
        cases h
        exact Nat.le_trans (hr name _ hs) (Nat.le_add_right _ _)
      · cases h
    | _ => cases h

theorem Tells.of_advance {v : Nat} (h : r.Tells (.advance key) key v) : v = r.session.contexts.current key + 1 := by
  cases h with
  | version hkey h => cases h; rfl
  | stamp current h => cases h

/-- What versions and stamps tell in the course of a run that is at first as `r`. -/
structure StampLaws (r : Run) (acts : List Action) : Prop where
  /-- The version of a context is the number of times that it has been moved on so far. -/
  current : ∀ pre key post, acts = pre ++ .context (.current key) :: post →
    ((r.after pre).act (.context (.current key))).1 = .context (.version (timesAdvanced key pre))
  advanced : ∀ pre key post, acts = pre ++ .context (.advance key) :: post →
    ((r.after pre).act (.context (.advance key))).1 = .context (.version (timesAdvanced key pre + 1))
  stamped : ∀ pre key name post, acts = pre ++ .context (.stamp key name) :: post →
    ((r.after pre).act (.context (.stamp key name))).1 = .context (.version (timesAdvanced key pre))
  /-- To move a context on tells a version beyond all that were told of it before. -/
  unseen : ∀ pre op mid key post v w, acts = pre ++ .context op :: (mid ++ .context (.advance key) :: post) →
    (r.after pre).Tells op key v → (((r.after pre).step (.context op)).after mid).Tells (.advance key) key w → v < w
  /-- A stamp is current until its own context is moved on, whatever is done beside. -/
  exact : ∀ pre mid post key, acts = pre ++ (mid ++ post) →
    (((r.after pre).after mid).session.contexts.isCurrent ((r.after pre).session.contexts.stamp key) = true ↔
      ∀ a ∈ mid, a.advances? ≠ some key)
  /-- And so is one that is kept under a name when it is checked. -/
  checked : ∀ pre key name mid post,
    acts = pre ++ .context (.stamp key name) :: (mid ++ .context (.check name) :: post) →
    (∀ a ∈ mid, a.stamps? name = none) → ∃ current,
      ((((r.after pre).step (.context (.stamp key name))).after mid).act (.context (.check name))).1 =
        .context (.checked ⟨key, timesAdvanced key pre⟩ current) ∧
      (current = true ↔ ∀ a ∈ mid, a.advances? ≠ some key)
  /-- No version that is told needs more than 64 bits. -/
  fits : ∀ pre op post key v, acts = pre ++ .context op :: post → (r.after pre).Tells op key v → v < UInt64.size

/-- **Stamps are exact**, in every run of the client with whatever is done to its contexts by hand, in which no context is
moved on so often that its version would need more than 64 bits. -/
theorem stamps_exact (config : Config) (subject : Subject) (mint : Mint) (acts : List Action)
    (hbound : ∀ key, timesAdvanced key acts < UInt64.size) : (start config subject mint).StampLaws acts := by
  have hcurrent : ∀ pre key, ((start config subject mint).after pre).session.contexts.current key =
      timesAdvanced key pre := by
    intro pre key
    rw [current_after]
    exact Nat.zero_add _
  have hbehind := (stampsBehind_start config subject mint).after
  refine ⟨fun pre key post _ => ?_, fun pre key post _ => ?_, fun pre key name post _ => ?_, ?_, ?_, ?_, ?_⟩
  · rw [← hcurrent]; rfl
  · rw [← hcurrent]; rfl
  · rw [← hcurrent]; rfl
  · rintro pre op mid key post v w - htold hnext
    rw [hnext.of_advance, current_after]
    exact Nat.lt_succ_of_le (Nat.le_trans (htold.le (hbehind pre)) (Nat.le_add_right _ _))
  · rintro pre mid post key -
    exact isCurrent_after_iff _ key mid
  · rintro pre key name mid post - hkept
    have hkeeps : ∀ now : Run, ((now.step (.context (.stamp key name))).after mid).stamps.get? name =
        some (now.session.contexts.stamp key) := by
      intro now
      rw [stamps_after name hkept, stamps_step, Action.stamps?, if_pos rfl]
    -- to take a stamp leaves the contexts as they are
    refine ⟨_, ?_, isCurrent_after_iff (((start config subject mint).after pre).step (.context (.stamp key name))) key mid⟩
    rw [act_check, hkeeps, ← hcurrent]
    rfl
  · rintro pre op post key v rfl htold
    have hle := htold.le (hbehind pre)
    rw [current_step, hcurrent] at hle
    have hwhole := hbound key
    rw [timesAdvanced_append, timesAdvanced_cons] at hwhole
    omega

/-- Takes a stamp of the tenant and checks it twice, before and after a switch of the tenant. -/
def switching : List Action :=
  [.context (.stamp Contexts.tenantKey "a"), .context (.advance "report-filter"), .context (.check "a"),
    .switch (.ofUser ⟨.ofNat 1⟩ ⟨.ofNat 3⟩ ⟨"manager"⟩), .context (.check "a")]

/-- The first check tells that the stamp is current, although another context has been moved on, and the second that it
is not. -/
theorem stamp_stale_after_switch :
    let r := start .standard (.ofUser ⟨.ofNat 1⟩ ⟨.ofNat 2⟩ ⟨"manager"⟩) (.ofMillis 0)
    (∀ key, timesAdvanced key switching < UInt64.size) ∧
      ((r.after (switching.take 2)).act (.context (.check "a"))).1 =
        .context (.checked ⟨Contexts.tenantKey, 0⟩ true) ∧
      ((r.after (switching.take 4)).act (.context (.check "a"))).1 =
        .context (.checked ⟨Contexts.tenantKey, 0⟩ false) := by
  intro r
  have hbound : ∀ key, timesAdvanced key switching < UInt64.size := fun key =>
    Nat.lt_of_le_of_lt List.countP_le_length (by decide)
  have hlaws := stamps_exact .standard (.ofUser ⟨.ofNat 1⟩ ⟨.ofNat 2⟩ ⟨"manager"⟩) (.ofMillis 0) switching hbound
  obtain ⟨current, hfirst, hcurrent⟩ := hlaws.checked [] _ "a" [_] _ rfl (by simp [Action.stamps?])
  obtain ⟨still, hsecond, hstale⟩ := hlaws.checked [] _ "a" [_, _, _] [] rfl (by simp [Action.stamps?])
  obtain rfl : current = true := hcurrent.2 (by simp [Action.advances?, Contexts.tenantKey])
  obtain rfl : still = false := Bool.eq_false_iff.2 fun h => by simpa [Action.advances?] using hstale.1 h
  exact ⟨hbound, hfirst, hsecond⟩

end Run
end BackOffice
