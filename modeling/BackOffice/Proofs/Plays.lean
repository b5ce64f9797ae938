import BackOffice.Proofs.History
import BackOffice.Rehearsal.Play
/-!
# What a step of a rehearsal leaves alone

Steps are taken inside exchanges, and exchanges inside steps, so what holds of any step has to be known
before anything is said of one exchange.  A step takes turns only of calls that it has itself begun, hands
over requests after those that were, and lets the clock run on, but never past a deadline that lies ahead
(`Stays`).  If it halts, a deadline has come or it was refused (`Halt.Lapsed`).  `Keeps` says both of a play
and is closed under what plays are made of.
-/
namespace BackOffice
namespace Rehearsal

variable {ε α β : Type}

/-! ## Running a play -/

namespace Play

theorem run_pure (a : α) (s : Stage ε) : (pure a : Play ε α).run s = (.ok a, s) := rfl

theorem run_get (s : Stage ε) : (get : Play ε (Stage ε)).run s = (.ok s, s) := rfl

theorem run_bind (p : Play ε α) (f : α → Play ε β) (s : Stage ε) : (p >>= f).run s = match p.run s with
    | (.ok a, t)    => (f a).run t
    | (.error h, t) => (.error h, t) := by
  unfold ExceptT.run
  simp only [bind, ExceptT.bind, ExceptT.mk, StateT.bind, ExceptT.bindCont]
  rcases p s with ⟨_ | a, t⟩ <;> rfl

theorem cases_of_bind {p : Play ε α} {f : α → Play ε β} {s t : Stage ε} {r : Except (Halt ε) β}
    (h : (p >>= f).run s = (r, t)) :
    (∃ halt, p.run s = (.error halt, t) ∧ r = .error halt) ∨ ∃ a u, p.run s = (.ok a, u) ∧ (f a).run u = (r, t) := by
  rw [run_bind] at h
  rcases hrun : p.run s with ⟨halt | a, u⟩
  · rw [hrun] at h
    cases h
    exact .inl ⟨halt, rfl, rfl⟩
  · rw [hrun] at h
    exact .inr ⟨a, u, rfl, h⟩

theorem run_tryCatch (p : Play ε α) (f : Halt ε → Play ε α) (s : Stage ε) :
    (tryCatch p f).run s = match p.run s with
      | (.ok a, t)    => (.ok a, t)
      | (.error h, t) => (f h).run t := by
  unfold ExceptT.run
  simp only [tryCatch, tryCatchThe, MonadExceptOf.tryCatch, ExceptT.tryCatch, ExceptT.mk, bind, StateT.bind]
  rcases p s with ⟨_ | a, t⟩ <;> rfl

end Play

theorem run_act (a : Action) (s : Stage ε) :
    (act a).run s = (.ok (s.run.act a).1, { s with run := s.run.step a }) := rfl

theorem run_hand (request : Request) (timeoutSecs : Nat) (s : Stage ε) : (hand request timeoutSecs).run s =
    (.ok s.handed.length, { s with handed := s.handed ++ [⟨request, s.nowMs, timeoutSecs, []⟩] }) := rfl

def Stage.next (s : Stage ε) : Outcome ε := s.script.head?.getD .exhausted

theorem run_nextOutcome (s : Stage ε) :
    (nextOutcome : Play ε (Outcome ε)).run s = (.ok s.next, { s with script := s.script.tail }) := by
  obtain ⟨run, nowMs, script, handed⟩ := s
  cases script <;> rfl

/-! ## What is left alone -/

/-- The requests that have been handed over: each with its moment and how long the client would wait. -/
def Stage.sent (s : Stage ε) : List (Request × Nat × Nat) :=
  s.handed.map (fun h => (h.request, h.atMs, h.timeoutSecs))

/-- Between two stages of a play that is under these deadlines and has only begun calls from number `n` on. -/
structure Stays (n : Nat) (deadlines : List Nat) (s t : Stage ε) : Prop where
  config : t.run.config = s.run.config
  started : s.run.started ≤ t.run.started
  kept : ∀ id < n, t.run.ongoing.get? id = s.run.ongoing.get? id
  sent : s.sent <+: t.sent
  since : s.nowMs ≤ t.nowMs
  ahead : ∀ d ∈ deadlines, s.nowMs ≤ d → t.nowMs ≤ d

namespace Stays

variable {n m : Nat} {deadlines : List Nat} {s t u : Stage ε}

theorem refl (n : Nat) (deadlines : List Nat) (s : Stage ε) : Stays n deadlines s s :=
  ⟨rfl, Nat.le_refl _, fun _ _ => rfl, List.prefix_refl _, Nat.le_refl _, fun _ _ h => h⟩

theorem trans (h : Stays n deadlines s t) (k : Stays n deadlines t u) : Stays n deadlines s u where
  config := k.config.trans h.config
  started := Nat.le_trans h.started k.started
  kept id hid := (k.kept id hid).trans (h.kept id hid)
  sent := h.sent.trans k.sent
  since := Nat.le_trans h.since k.since
  ahead d hd hs := k.ahead d hd (h.ahead d hd hs)

theorem mono (h : Stays n deadlines s t) (hm : m ≤ n) : Stays m deadlines s t :=
  { h with kept := fun id hid => h.kept id (Nat.lt_of_lt_of_le hid hm) }

theorem tail {d : Nat} (h : Stays n (d :: deadlines) s t) : Stays n deadlines s t :=
  { h with ahead := fun e he => h.ahead e (List.mem_cons_of_mem _ he) }

theorem acted (s : Stage ε) {a : Action} (ha : ∀ id, a.call? = some id → n ≤ id) (hn : n ≤ s.run.started) :
    Stays n deadlines s { s with run := s.run.step a } where
  config := s.run.config_step a
  started := s.run.started_le_step a
  kept id hid := s.run.ongoing_step_of_other (Nat.lt_of_lt_of_le hid hn) fun h => absurd (ha id h) (Nat.not_le_of_lt hid)
  sent := List.prefix_refl _
  since := Nat.le_refl _
  ahead _ _ h := h

end Stays

/-- Why a play may halt: a deadline has come, told by its level, or it was refused, if it may be. -/
def Halt.Lapsed (refuses : Prop) (deadlines : List Nat) (t : Stage ε) : Halt ε → Prop
  | .deadline level => ∃ inner d outer, deadlines = inner ++ d :: outer ∧ level = outer.length + 1 ∧ d ≤ t.nowMs
  | .refused _ => refuses

theorem Halt.Lapsed.mono {refuses : Prop} {deadlines : List Nat} {t u : Stage ε} (htime : t.nowMs ≤ u.nowMs) :
    ∀ {h : Halt ε}, h.Lapsed refuses deadlines t → h.Lapsed refuses deadlines u
  | .deadline _, ⟨inner, d, outer, he, hl, hd⟩ => ⟨inner, d, outer, he, hl, Nat.le_trans hd htime⟩
  | .refused _, h => h

/-- A play, of whatever stage it is played at: earlier calls and requests are left alone, the clock runs on
but not past what lies ahead, and if it halts there is a reason. -/
def Keeps (refuses : Prop) (n : Nat) (deadlines : List Nat) (p : Play ε α) : Prop :=
  ∀ s, n ≤ s.run.started → Stays n deadlines s (p.run s).2 ∧
    ∀ h, (p.run s).1 = .error h → h.Lapsed refuses deadlines (p.run s).2

namespace Keeps

variable {refuses : Prop} {n : Nat} {deadlines : List Nat}

theorem pure (a : α) : Keeps refuses n deadlines (pure a : Play ε α) :=
  fun s _ => ⟨Stays.refl n deadlines s, fun _ he => by cases he⟩

theorem get : Keeps refuses n deadlines (get : Play ε (Stage ε)) :=
  fun s _ => ⟨Stays.refl n deadlines s, fun _ he => by cases he⟩

theorem refused (r : Refusal ε) : Keeps True n deadlines (throw (.refused r) : Play ε α) :=
  fun s _ => ⟨Stays.refl n deadlines s, fun _ he => by cases he; trivial⟩

theorem stays {p : Play ε α} (hp : Keeps refuses n deadlines p) {s t : Stage ε} {r : Except (Halt ε) α}
    (hs : n ≤ s.run.started) (h : p.run s = (r, t)) : Stays n deadlines s t := by
  have hstays := (hp s hs).1
  rw [h] at hstays
  exact hstays

theorem lapsed {p : Play ε α} (hp : Keeps refuses n deadlines p) {s t : Stage ε} {halt : Halt ε}
    (hs : n ≤ s.run.started) (h : p.run s = (.error halt, t)) : halt.Lapsed refuses deadlines t := by
  have hlapsed := (hp s hs).2
  rw [h] at hlapsed
  exact hlapsed halt rfl

theorem intro {p : Play ε α} (h : ∀ {s t : Stage ε} {r : Except (Halt ε) α}, n ≤ s.run.started → p.run s = (r, t) →
    Stays n deadlines s t ∧ ∀ halt, r = .error halt → halt.Lapsed refuses deadlines t) : Keeps refuses n deadlines p :=
  fun s hs => h hs (Eq.refl (p.run s))

theorem bind {p : Play ε α} {f : α → Play ε β} (hp : Keeps refuses n deadlines p)
    (hf : ∀ a, Keeps refuses n deadlines (f a)) : Keeps refuses n deadlines (p >>= f) := by
  refine Keeps.intro fun hs h => ?_
  rcases Play.cases_of_bind h with ⟨halt, hrun, rfl⟩ | ⟨a, u, hrun, h⟩
  · exact ⟨hp.stays hs hrun, fun _ he => by cases he; exact hp.lapsed hs hrun⟩
  · have hstays := hp.stays hs hrun
    have hs' := Nat.le_trans hs hstays.started
    refine ⟨hstays.trans ((hf a).stays hs' h), fun halt he => ?_⟩
    subst he
    exact (hf a).lapsed hs' h

theorem act {a : Action} (ha : ∀ id, a.call? = some id → n ≤ id) : Keeps refuses n deadlines (act a : Play ε Event) :=
  fun s hs => ⟨Stays.acted s ha hs, fun _ he => by cases he⟩

theorem allow {p : Play ε α} (hp : Keeps False n deadlines p) : Keeps refuses n deadlines p := by
  intro s hs
  obtain ⟨hstays, hlapsed⟩ := hp s hs
  refine ⟨hstays, fun h he => ?_⟩
  cases h with
  | deadline level => exact hlapsed _ he
  | refused r => exact (hlapsed _ he).elim

end Keeps

/-! ## Waiting -/

theorem due_eq_some {t level : Nat} : ∀ {deadlines : List Nat}, due t deadlines = some level →
    ∃ inner d outer, deadlines = inner ++ d :: outer ∧ level = outer.length + 1 ∧ d ≤ t
  | d :: ds, h => by
    unfold due at h
    split at h
    · rename_i hd
      cases h
      exact ⟨[], d, ds, rfl, rfl, hd⟩
    · obtain ⟨inner, e, outer, rfl, hl, he⟩ := due_eq_some h
      exact ⟨d :: inner, e, outer, rfl, hl, he⟩

theorem due_eq_none {t : Nat} : ∀ {deadlines : List Nat}, due t deadlines = none → ∀ d ∈ deadlines, t < d
  | [], _ => fun _ hd => absurd hd List.not_mem_nil
  | d :: ds, h => by
    unfold due at h
    split at h
    · cases h
    · rename_i hd
      exact List.forall_mem_cons.2 ⟨Nat.lt_of_not_le hd, due_eq_none h⟩

/-- How a wait ends: at its moment, or at the first deadline before it. -/
structure Waited (deadlines : List Nat) (until? : Option Nat) (s : Stage ε) (r : Except (Halt ε) Unit) (t : Stage ε) :
    Prop where
  only : t = { s with nowMs := t.nowMs }
  since : s.nowMs ≤ t.nowMs
  ahead : ∀ d ∈ deadlines, s.nowMs ≤ d → t.nowMs ≤ d
  reached : r = .ok () → match until? with
    | some u => t.nowMs = max s.nowMs u
    | none   => deadlines = []
  halted : ∀ h, r = .error h → h.Lapsed False deadlines t ∧ ∀ u ∈ until?, t.nowMs < u

theorem run_wait_of_over (deadlines : List Nat) {u : Nat} {s : Stage ε} (hu : u ≤ s.nowMs) :
    (wait deadlines (some u)).run s = (.ok (), s) := by
  unfold wait
  simp only [Play.run_bind, Play.run_get, decide_eq_true hu, if_true]
  rfl

theorem run_wait (deadlines : List Nat) {until? : Option Nat} {s : Stage ε} (h : ∀ u ∈ until?, s.nowMs < u) :
    (wait deadlines until?).run s = match due s.nowMs deadlines with
      | some level => (.error (.deadline level), s)
      | none => match (until?.toList ++ deadlines).min? with
        | none => (.ok (), s)
        | some t =>
          if until? = some t then (.ok (), { s with nowMs := t })
          else match due t deadlines with
            | some level => (.error (.deadline level), { s with nowMs := t })
            | none => (.ok (), { s with nowMs := t }) := by
  unfold wait
  simp only [Play.run_bind, Play.run_get]
  rw [if_neg]
  case hnc =>
    cases until? with
    | none => exact Bool.false_ne_true
    | some u => simpa using h u rfl
  cases due s.nowMs deadlines with
  | some level => rfl
  | none =>
    cases (until?.toList ++ deadlines).min? with
    | none => rfl
    | some t =>
      simp only [Play.run_bind]
      by_cases ht : until? = some t
      · rw [if_pos ht, if_pos ht]; rfl
      · rw [if_neg ht, if_neg ht]
        cases due t deadlines <;> rfl

theorem waited {deadlines : List Nat} {until? : Option Nat} {s t : Stage ε} {r : Except (Halt ε) Unit}
    (h : (wait deadlines until?).run s = (r, t)) : Waited deadlines until? s r t := by
  by_cases hready : ∃ u ∈ until?, u ≤ s.nowMs
  · obtain ⟨u, rfl, hu⟩ := hready
    rw [run_wait_of_over deadlines hu] at h
    cases h
    exact ⟨rfl, Nat.le_refl _, fun _ _ h => h, fun _ => (Nat.max_eq_left hu).symm, fun _ he => by cases he⟩
  have hlater : ∀ u ∈ until?, s.nowMs < u := fun u hu => Nat.lt_of_not_le fun hle => hready ⟨u, hu, hle⟩
  rw [run_wait deadlines hlater] at h
  cases hdue : due s.nowMs deadlines with
  | some level =>
    rw [hdue] at h
    cases h
    refine ⟨rfl, Nat.le_refl _, fun _ _ h => h, (fun he => by cases he), fun h he => ?_⟩
    cases he
    exact ⟨due_eq_some hdue, hlater⟩
  | none =>
    rw [hdue] at h
    have hahead := due_eq_none hdue
    cases hmin : (until?.toList ++ deadlines).min? with
    | none =>
      rw [hmin] at h
      cases h
      obtain ⟨hnone, rfl⟩ := List.append_eq_nil_iff.1 (List.min?_eq_none_iff.1 hmin)
      refine ⟨rfl, Nat.le_refl _, fun _ _ h => h, fun _ => ?_, fun _ he => by cases he⟩
      cases until? with
      | none => rfl
      | some u => cases hnone
    | some first =>
      simp only [hmin] at h
      obtain ⟨hmem, hleast⟩ := List.min?_eq_some_iff.1 hmin
      have hsince : s.nowMs ≤ first := by
        rcases List.mem_append.1 hmem with hu | hd
        · exact Nat.le_of_lt (hlater first (by simpa using hu))
        · exact Nat.le_of_lt (hahead first hd)
      have hbefore : ∀ d ∈ deadlines, s.nowMs ≤ d → first ≤ d := fun d hd _ => hleast d (List.mem_append_right _ hd)
      split at h
      · rename_i hu
        cases h
        refine ⟨rfl, hsince, hbefore, fun _ => ?_, fun _ he => by cases he⟩
        subst hu
        exact (Nat.max_eq_right hsince).symm
      rename_i hne
      have hsooner : ∀ u ∈ until?, first < u := by
        intro u hu
        refine Nat.lt_of_le_of_ne (hleast u (List.mem_append_left _ (by simpa using hu))) ?_
        rintro rfl
        exact hne hu
      -- the clock stands at a deadline now, so one is due
      split at h
      · rename_i level hthen
        cases h
        refine ⟨rfl, hsince, hbefore, (fun he => by cases he), fun h he => ?_⟩
        cases he
        exact ⟨due_eq_some hthen, hsooner⟩
      · rename_i hthen
        rcases List.mem_append.1 hmem with hu | hd
        · exact absurd (by simpa using hu) hne
        · exact absurd (due_eq_none hthen first hd) (Nat.lt_irrefl first)

theorem Keeps.wait {n : Nat} (deadlines : List Nat) (until? : Option Nat) :
    Keeps False n deadlines (wait deadlines until? : Play ε Unit) := by
  refine Keeps.intro fun {s t _} _ h => ?_
  have hw := waited h
  refine ⟨?_, fun h he => (hw.halted h he).1⟩
  rw [hw.only]
  exact ⟨rfl, Nat.le_refl _, fun _ _ => rfl, List.prefix_refl _, hw.since, hw.ahead⟩

/-! ## Deadlines -/

theorem run_within (deadlines : List Nat) (ms : Nat) (p : List Nat → Play ε α) (late : α) (s : Stage ε) :
    (within deadlines ms p late).run s = match (p ((s.nowMs + ms) :: deadlines)).run s with
      | (.ok a, t) => (.ok a, t)
      | (.error (.deadline level), t) =>
        if level = deadlines.length + 1 then (.ok late, t) else (.error (.deadline level), t)
      | (.error (.refused r), t) => (.error (.refused r), t) := by
  unfold within
  simp only [Play.run_bind, Play.run_get, Play.run_tryCatch]
  rcases (p ((s.nowMs + ms) :: deadlines)).run s with ⟨(level | r) | a, t⟩
  · simp only
    split <;> rfl
  · rfl
  · rfl

/-- What cuts off more than the innermost is an outer deadline. -/
theorem Halt.Lapsed.outer {refuses : Prop} {d : Nat} {deadlines : List Nat} {t : Stage ε} {level : Nat}
    (h : (Halt.deadline level : Halt ε).Lapsed refuses (d :: deadlines) t) :
    level = deadlines.length + 1 ∧ d ≤ t.nowMs ∨ (Halt.deadline level : Halt ε).Lapsed refuses deadlines t := by
  obtain ⟨inner, e, outer, he, hl, hd⟩ := h
  cases inner with
  | nil => cases he; exact .inl ⟨hl, hd⟩
  | cons a inner => cases he; exact .inr ⟨inner, e, outer, rfl, hl, hd⟩

theorem Halt.Lapsed.own {refuses : Prop} {d : Nat} {deadlines : List Nat} {t : Stage ε}
    (h : (Halt.deadline (deadlines.length + 1) : Halt ε).Lapsed refuses (d :: deadlines) t) : d ≤ t.nowMs := by
  rcases h.outer with ⟨-, hd⟩ | ⟨inner, e, outer, rfl, hl, -⟩
  · exact hd
  · simp only [List.length_append, List.length_cons] at hl
    omega

theorem cases_of_within {deadlines : List Nat} {ms : Nat} {p : List Nat → Play ε α} {late a : α} {s t : Stage ε}
    (h : (within deadlines ms p late).run s = (.ok a, t)) :
    (p ((s.nowMs + ms) :: deadlines)).run s = (.ok a, t) ∨
      (p ((s.nowMs + ms) :: deadlines)).run s = (.error (.deadline (deadlines.length + 1)), t) ∧ a = late := by
  rw [run_within] at h
  split at h
  · rename_i hrun
    cases h
    exact .inl hrun
  · rename_i level u hrun
    split at h
    · rename_i hlevel
      cases h
      exact .inr ⟨hlevel ▸ hrun, rfl⟩
    · cases h
  · cases h

theorem Keeps.within {refuses : Prop} {n : Nat} {deadlines : List Nat} {ms : Nat} {p : List Nat → Play ε α} {late : α}
    (hp : ∀ d, Keeps refuses n (d :: deadlines) (p (d :: deadlines))) :
    Keeps refuses n deadlines (within deadlines ms p late) := by
  refine Keeps.intro fun {s t _} hs h => ?_
  rw [run_within] at h
  split at h
  · rename_i a u hrun
    cases h
    exact ⟨((hp _).stays hs hrun).tail, fun _ he => by cases he⟩
  · rename_i level u hrun
    have hstays := ((hp _).stays hs hrun).tail
    split at h
    · cases h
      exact ⟨hstays, fun _ he => by cases he⟩
    · rename_i hother
      cases h
      refine ⟨hstays, fun _ he => ?_⟩
      cases he
      exact ((hp _).lapsed hs hrun).outer.resolve_left fun h => hother h.1
  · rename_i r u hrun
    cases h
    refine ⟨((hp _).stays hs hrun).tail, fun _ he => ?_⟩
    cases he
    exact (hp _).lapsed hs hrun

/-! ## Exchanges -/

theorem sent_noteDuring (l : List (Handed ε)) (place : Nat) (r : Result ε) :
    (l.modify place (fun h => { h with during := h.during ++ [r] })).map (fun h => (h.request, h.atMs, h.timeoutSecs)) =
      l.map (fun h => (h.request, h.atMs, h.timeoutSecs)) := by
  apply List.ext_getElem?
  intro i
  rw [List.getElem?_map, List.getElem?_map, List.getElem?_modify]
  cases l[i]? with
  | none => rfl
  | some h =>
    simp only [Option.map_some]
    split <;> rfl

namespace Keeps

variable {n : Nat} {deadlines : List Nat}

theorem noteDuring (place : Nat) (r : Result ε) : Keeps False n deadlines (noteDuring place r) := by
  intro s _
  refine ⟨⟨rfl, Nat.le_refl _, fun _ _ => rfl, ?_, Nat.le_refl _, fun _ _ h => h⟩, fun _ he => by cases he⟩
  show s.sent <+: (s.handed.modify place _).map _
  rw [sent_noteDuring]
  exact List.prefix_refl _

/-- A step that is refused shows the reason and does not halt what it is part of. -/
theorem caught {p : Play ε (Result ε)} (hp : Keeps True n deadlines p) :
    Keeps False n deadlines (tryCatch p (fun
      | .refused r => Pure.pure (.refused r)
      | h => throw h)) := by
  refine Keeps.intro fun hs h => ?_
  rw [Play.run_tryCatch] at h
  split at h
  · rename_i a u hrun
    cases h
    exact ⟨hp.stays hs hrun, fun _ he => by cases he⟩
  · rename_i halt u hrun
    have hstays := hp.stays hs hrun
    cases halt with
    | refused r => cases h; exact ⟨hstays, fun _ he => by cases he⟩
    | deadline level =>
      cases h
      refine ⟨hstays, fun _ he => ?_⟩
      cases he
      exact hp.lapsed hs hrun

theorem takeAll {take : Step ε → Play ε (Result ε)} (htake : ∀ step, Keeps True n deadlines (take step)) (place : Nat) :
    ∀ steps : List (Step ε), Keeps False n deadlines (takeAll take place steps)
  | [] => Keeps.pure ()
  | s :: ss => (Keeps.caught (htake s)).bind fun r => (Keeps.noteDuring place r).bind fun _ => takeAll htake place ss

end Keeps

def awaitEnd (deadlines : List Nat) (o : Outcome ε) : Play ε Arrival := do
  wait deadlines (some (moment (← get).nowMs o.delayMs))
  match o.ending with
  | .arrives a => return a
  | .never     =>
    wait deadlines none
    return .error .timeout

/-- What is done within the timeout of an exchange. -/
def converse (take : List Nat → Step ε → Play ε (Result ε)) (request : Request) (timeoutSecs : Nat)
    (deadlines : List Nat) : Play ε Arrival := do
  let place ← hand request timeoutSecs
  let outcome ← nextOutcome
  takeAll (take deadlines) place outcome.during
  awaitEnd deadlines outcome

theorem exchange_eq (take : List Nat → Step ε → Play ε (Result ε)) (deadlines : List Nat) (request : Request) :
    exchange take deadlines request = (do
      let timeoutSecs := (← get).run.config.timeoutSecs
      within deadlines (timeoutSecs * 1000) (converse take request timeoutSecs) (.error .timeout)) := rfl

theorem Keeps.awaitEnd {n : Nat} (deadlines : List Nat) (o : Outcome ε) : Keeps False n deadlines (awaitEnd deadlines o) := by
  refine Keeps.get.bind fun s => (Keeps.wait deadlines _).bind fun _ => ?_
  split
  · exact Keeps.pure _
  · exact (Keeps.wait deadlines none).bind fun _ => Keeps.pure _

theorem Keeps.exchange {n : Nat} {take : List Nat → Step ε → Play ε (Result ε)}
    (htake : ∀ deadlines step, Keeps True n deadlines (take deadlines step)) (deadlines : List Nat) (request : Request) :
    Keeps False n deadlines (exchange take deadlines request) := by
  rw [exchange_eq]
  refine Keeps.get.bind fun s => Keeps.within fun d => ?_
  refine Keeps.bind ?_ fun place => Keeps.bind ?_ fun o => ?_
  · intro t _
    refine ⟨⟨rfl, Nat.le_refl _, fun _ _ => rfl, ?_, Nat.le_refl _, fun _ _ h => h⟩, fun _ he => by cases he⟩
    rw [run_hand]
    exact ⟨_, (List.map_append).symm⟩
  · intro t _
    rw [run_nextOutcome]
    exact ⟨⟨rfl, Nat.le_refl _, fun _ _ => rfl, List.prefix_refl _, Nat.le_refl _, fun _ _ h => h⟩,
      fun _ he => by cases he⟩
  · exact (Keeps.takeAll (htake _) place _).bind fun _ => Keeps.awaitEnd _ o

/-- What an outcome comes to that is awaited from `now` and no longer than to `deadline`, and when: an answer
that arrives in time is that answer, and anything else is a timeout. -/
def Outcome.close (o : Outcome ε) (now deadline : Nat) : Arrival × Nat :=
  match o.ending with
  | .arrives a =>
    if moment now o.delayMs ≤ deadline then (a, moment now o.delayMs) else (.error .timeout, deadline)
  | .never => (.error .timeout, deadline)

/-- An end that is awaited comes as the outcome tells, or it is cut off; by the innermost deadline only where
the outcome comes to a timeout. -/
theorem awaited {d : Nat} {deadlines : List Nat} {o : Outcome ε} {s t : Stage ε} {r : Except (Halt ε) Arrival}
    (hs : s.nowMs ≤ d) : (awaitEnd (d :: deadlines) o).run s = (r, t) →
    t = { s with nowMs := t.nowMs } ∧ match r with
      | .ok arrival => (arrival, t.nowMs) = o.close s.nowMs d
      | .error _    => d ≤ t.nowMs → (.error .timeout, t.nowMs) = o.close s.nowMs d := by
  intro h
  have hmoment : s.nowMs ≤ moment s.nowMs o.delayMs := Nat.le_add_right _ _
  rcases Play.cases_of_bind h with ⟨halt, hget, -⟩ | ⟨_, _, hget, h⟩
  · cases hget
  cases hget
  rcases Play.cases_of_bind h with ⟨halt, hrun, rfl⟩ | ⟨⟨⟩, u, hrun, h⟩
  · have hw := waited hrun
    refine ⟨hw.only, fun hd => ?_⟩
    -- the clock stands at the deadline, before the moment of the end
    have hat : t.nowMs = d := Nat.le_antisymm (hw.ahead d List.mem_cons_self hs) hd
    have hbefore : t.nowMs < moment s.nowMs o.delayMs := (hw.halted halt rfl).2 _ rfl
    unfold Outcome.close
    split
    · rw [if_neg (by omega), hat]
    · rw [hat]
  · have hw := waited hrun
    have hthen : u.nowMs = moment s.nowMs o.delayMs := (hw.reached rfl).trans (Nat.max_eq_right hmoment)
    have hsoon : u.nowMs ≤ d := hw.ahead d List.mem_cons_self hs
    cases hend : o.ending with
    | arrives a =>
      simp only [hend] at h
      cases h
      refine ⟨hw.only, ?_⟩
      unfold Outcome.close
      simp only [hend]
      rw [if_pos (hthen ▸ hsoon), ← hthen]
    | never =>
      simp only [hend] at h
      rcases Play.cases_of_bind h with ⟨halt, hrun', rfl⟩ | ⟨⟨⟩, v, hrun', -⟩
      · have hw' := waited hrun'
        refine ⟨hw'.only.trans (by rw [hw.only]), fun hd => ?_⟩
        have hat : t.nowMs = d := Nat.le_antisymm (hw'.ahead d List.mem_cons_self hsoon) hd
        unfold Outcome.close
        simp only [hend, hat]
      · exact absurd ((waited hrun').reached rfl) (List.cons_ne_nil _ _)

/-- By when the exchange that begins now has ended. -/
def Stage.deadline (s : Stage ε) : Nat := s.nowMs + s.run.config.timeoutSecs * 1000

/-- What one exchange comes to: the request is handed over once, and the next outcome of the script decides,
after the steps that are taken in the exchange, unless these last until the timeout.  Where there are none
nothing else happens. -/
structure Exchanged (request : Request) (s : Stage ε) (arrival : Arrival) (t : Stage ε) : Prop where
  handed : s.sent ++ [(request, s.nowMs, s.run.config.timeoutSecs)] <+: t.sent
  ended : (arrival, t.nowMs) = (.error .timeout, s.deadline) ∨
    ∃ now, s.nowMs ≤ now ∧ now ≤ s.deadline ∧ (arrival, t.nowMs) = s.next.close now s.deadline
  quiet : s.next.during = [] → (arrival, t.nowMs) = s.next.close s.nowMs s.deadline ∧
    t = { s with
      nowMs := t.nowMs
      script := s.script.tail
      handed := s.handed ++ [⟨request, s.nowMs, s.run.config.timeoutSecs, []⟩] }

/-- The stage at which a request has been handed over and its outcome taken. -/
def Stage.handing (s : Stage ε) (request : Request) : Stage ε :=
  { s with
    script := s.script.tail
    handed := s.handed ++ [⟨request, s.nowMs, s.run.config.timeoutSecs, []⟩] }

theorem run_converse (take : List Nat → Step ε → Play ε (Result ε)) (request : Request) (deadlines : List Nat)
    (s : Stage ε) : (converse take request s.run.config.timeoutSecs deadlines).run s =
      (takeAll (take deadlines) s.handed.length s.next.during >>= fun _ => awaitEnd deadlines s.next).run
        (s.handing request) := by
  unfold converse
  rw [Play.run_bind, run_hand]
  simp only
  rw [Play.run_bind, run_nextOutcome]
  rfl

theorem exchanged {take : List Nat → Step ε → Play ε (Result ε)}
    (htake : ∀ deadlines step, Keeps True 0 deadlines (take deadlines step)) {deadlines : List Nat} {request : Request}
    {s t : Stage ε} {arrival : Arrival} (h : (exchange take deadlines request).run s = (.ok arrival, t)) :
    Exchanged request s arrival t := by
  have hsent : (s.handing request).sent = s.sent ++ [(request, s.nowMs, s.run.config.timeoutSecs)] := List.map_append
  have hsoon : (s.handing request).nowMs ≤ s.deadline := Nat.le_add_right _ _
  have htaken := Keeps.takeAll (htake (s.deadline :: deadlines)) s.handed.length s.next.during
  have hwhole := htaken.bind fun _ => Keeps.awaitEnd (s.deadline :: deadlines) s.next
  rw [exchange_eq, Play.run_bind, Play.run_get] at h
  rcases cases_of_within h with hrun | ⟨hrun, rfl⟩ <;> rw [run_converse] at hrun
  · have hwhole := hwhole.stays (Nat.zero_le _) hrun
    rcases Play.cases_of_bind hrun with ⟨halt, -, he⟩ | ⟨⟨⟩, u, hsteps, hend⟩
    · cases he
    have hstays := htaken.stays (Nat.zero_le _) hsteps
    have hsoon' : u.nowMs ≤ s.deadline := hstays.ahead _ List.mem_cons_self hsoon
    obtain ⟨honly, hclose⟩ := awaited hsoon' hend
    refine ⟨hsent ▸ hwhole.sent, .inr ⟨u.nowMs, hstays.since, hsoon', hclose⟩, fun hquiet => ?_⟩
    rw [hquiet] at hsteps
    cases hsteps
    exact ⟨hclose, honly⟩
  · have hlapsed := hwhole.lapsed (Nat.zero_le _) hrun
    have hwhole := hwhole.stays (Nat.zero_le _) hrun
    have hat : t.nowMs = s.deadline := Nat.le_antisymm (hwhole.ahead _ List.mem_cons_self hsoon) hlapsed.own
    refine ⟨hsent ▸ hwhole.sent, .inl (by rw [hat]), fun hquiet => ?_⟩
    rw [hquiet] at hrun
    rcases Play.cases_of_bind hrun with ⟨halt, hsteps, -⟩ | ⟨⟨⟩, u, hsteps, hend⟩
    · cases hsteps
    · cases hsteps
      obtain ⟨honly, hclose⟩ := awaited hsoon hend
      exact ⟨hclose hlapsed.own, honly⟩

end Rehearsal
end BackOffice
