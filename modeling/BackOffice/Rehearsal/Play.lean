import BackOffice.Rehearsal.Script
/-!
# Rehearsals

Time is virtual: work takes none, and the clock is moved by delays, pauses and timeouts alone.
Where a step would have to wait, the deadlines around it are looked at first.  A deadline that has
come already cuts off what it is set on, the innermost first; otherwise the clock moves to the end
of the wait or to the first deadline, whichever is earlier, and at the same moment the wait wins.
The runtime sleeps for `longestMs` at a time and no longer; a deadline may lie further ahead.

A deadline is known by its level, counted from the outermost.  What it cuts off is unwound: every
call in it is abandoned on the way out.
-/
namespace BackOffice
namespace Rehearsal

/-- Why a step ends before its time. -/
inductive Halt (ε : Type) where
  | deadline (level : Nat)
  | refused (r : Refusal ε)

/-- A run with the clock, the rest of the script, and the requests handed over in this step. -/
structure Stage (ε : Type) where
  run    : Run
  nowMs  : Nat
  script : List (Outcome ε)
  handed : List (Handed ε)

abbrev Play (ε α : Type) := ExceptT (Halt ε) (StateM (Stage ε)) α

variable {ε : Type}

/-! ## Waiting -/

/-- How long the asynchronous runtime sleeps where it is told to sleep for longer: thirty years of 365 days.  The client
sets no such bound, and a deadline has none. -/
def longestMs : Nat := 30 * 365 * 24 * 60 * 60 * 1000

/-- The moment at which a wait that begins at `now` ends. -/
def moment (now ms : Nat) : Nat := now + min ms longestMs

/-- The level of the innermost deadline that has come at `t`. -/
def due (t : Nat) : List Nat → Option Nat
  | []      => none
  | d :: ds => if d ≤ t then some (ds.length + 1) else due t ds

/-- Waits until a moment, or for ever. -/
def wait (deadlines : List Nat) (until? : Option Nat) : Play ε Unit := do
  let s ← get
  let ready : Bool := match until? with
    | some t => decide (t ≤ s.nowMs)
    | none   => false
  if ready then return
  match due s.nowMs deadlines with
  | some level => throw (.deadline level)
  | none =>
    match (until?.toList ++ deadlines).min? with
    | none   => return
    | some t =>
      set { s with nowMs := t }
      if until? = some t then return
      match due t deadlines with
      | some level => throw (.deadline level)
      | none       => return

/-- Takes a step of the play under one more deadline. -/
def within {α : Type} (deadlines : List Nat) (ms : Nat) (p : List Nat → Play ε α) (late : α) :
    Play ε α := do
  let now := (← get).nowMs
  let level := deadlines.length + 1
  tryCatch (p ((now + ms) :: deadlines)) (fun
    | .deadline l => if l = level then pure late else throw (.deadline l)
    | h => throw h)

/-! ## Exchanges -/

def act (a : Action) : Play ε Event := do
  let s ← get
  let (event, run) := s.run.act a
  set { s with run := run }
  return event

/-- Takes the next outcome off the script. -/
def nextOutcome : Play ε (Outcome ε) := do
  let s ← get
  match s.script with
  | []      => return .exhausted
  | o :: os =>
    set { s with script := os }
    return o

/-- Notes a request as handed over, and tells its place. -/
def hand (request : Request) (timeoutSecs : Nat) : Play ε Nat := do
  let s ← get
  let h : Handed ε := ⟨request, s.nowMs, timeoutSecs, []⟩
  set { s with handed := s.handed ++ [h] }
  return s.handed.length

/-- Notes what a step during an exchange has shown. -/
def noteDuring (place : Nat) (r : Result ε) : Play ε Unit :=
  modify (fun s => { s with
    handed := s.handed.modify place (fun h => { h with during := h.during ++ [r] }) })

/-- Takes the steps during an exchange; a step that cannot be taken shows the reason, and the rest
are taken all the same. -/
def takeAll (take : Step ε → Play ε (Result ε)) (place : Nat) : List (Step ε) → Play ε Unit
  | []      => return
  | s :: ss => do
    let r ← tryCatch (take s) (fun
      | .refused r => pure (.refused r)
      | h => throw h)
    noteDuring place r
    takeAll take place ss

/-- One exchange: hands the request over and waits for its end, no longer than the timeout. -/
def exchange (take : List Nat → Step ε → Play ε (Result ε)) (deadlines : List Nat)
    (request : Request) : Play ε Arrival := do
  let timeoutSecs := (← get).run.config.timeoutSecs
  within deadlines (timeoutSecs * 1000) (fun deadlines => do
    let place ← hand request timeoutSecs
    let outcome ← nextOutcome
    takeAll (take deadlines) place outcome.during
    wait deadlines (some (moment (← get).nowMs outcome.delayMs))
    match outcome.ending with
    | .arrives a => return a
    | .never     =>
      wait deadlines none
      return .error .timeout) (.error .timeout)

/-- Takes the turns of a call until it returns; `turns` bounds their number. -/
def conduct (take : List Nat → Step ε → Play ε (Result ε)) (deadlines : List Nat) :
    Nat → Event → Play ε Reply
  | _, .progressed _ (.returned reply) => return reply
  | turns + 1, .progressed id (.waiting (.answer x)) => do
    let arrival ← exchange take deadlines x.request
    conduct take deadlines turns (← act (.answer id arrival))
  | turns + 1, .progressed id (.waiting (.pause ms _)) => do
    wait deadlines (some (moment (← get).nowMs ms))
    conduct take deadlines turns (← act (.resume id))
  | _, _ => throw (.deadline 0)

/-- Runs a call from its first turn to its reply; if it is cut off it is abandoned. -/
def runCall (take : List Nat → Step ε → Play ε (Result ε)) (deadlines : List Nat) (c : Call) :
    Play ε Reply := do
  let id := (← get).run.started
  let turns := 2 * (max (← get).run.config.maxAttempts 1) + 1
  let first ← act (.begin c)
  tryCatch (conduct take deadlines turns first) (fun h => do
    let _ ← act (.abandon id)
    throw h)

/-! ## Steps -/

/-- Takes one step.  The first argument bounds how deep steps are nested in exchanges. -/
def takeStep : Nat → List Nat → Step ε → Play ε (Result ε)
  | _, _, .unreadable reason => throw (.refused (.unreadable reason))
  | _, _, .issuer op => do
    match ← act (.issuer op) with
    | .issuer r => return .issuer r
    | _         => return .nothing
  | _, _, .cache op => do
    match ← act (.cache op) with
    | .cache r => return .cache r
    | _        => return .nothing
  | _, _, .context op => do
    match ← act (.context op) with
    | .context r => return .context r
    | _          => throw (.refused .checksUnknownStamp)
  | _, _, .cancel operation => do
    match ← act (.cancel operation) with
    | .cancelled found => return .flag found
    | _                => return .nothing
  | _, _, .switch subject => do
    let _ ← act (.switch subject)
    return .nothing
  | _, _, .grant set => do
    let _ ← act (.grant set)
    return .nothing
  | _, _, .isAllowed key => return .flag ((← get).run.session.isAllowed key)
  | _, _, .require key => do
    match ← act (.require key) with
    | .required r => return .required r
    | _           => return .nothing
  | _, _, .subject => return .subject (← get).run.session.subject
  | _, _, .push script => do
    modify (fun s => { s with script := s.script ++ script })
    return .nothing
  | 0, _, .call _ => return .nothing
  | 0, _, .send _ _ _ => return .nothing
  | 0, _, .abandon _ _ => return .nothing
  | depth + 1, deadlines, .call c => return .reply (← runCall (takeStep depth) deadlines c)
  | depth + 1, deadlines, .send request stamp shape => do
    let request ← match stamp with
      | none => pure request
      | some name =>
        match (← get).run.stamps.get? name with
        | some s => pure (request.withContext s)
        | none   => throw (.refused .sendsUnknownStamp)
    match ← runCall (takeStep depth) deadlines (.send request) with
    | .answered (.ok a) =>
      match shape with
      | none               => return .sent (.ok a) none
      | some (.ok shape)   => return .sent (.ok a) (some (shape.read a))
      | some (.error why)  => throw (.refused (.unreadable why))
    | .answered (.error e) => return .sent (.error e) none
    | _ => return .nothing
  | depth + 1, deadlines, .abandon afterMs step =>
    within deadlines afterMs (fun deadlines => do
      return .finished (← takeStep depth deadlines step)) .abandoned

/-- Takes the steps of a rehearsal one after the other; the first that cannot be taken ends it. -/
def takeSteps (depth : Nat) : List (Step ε) → Stage ε → Except (Refusal ε) (List (Entry ε))
  | [],      _ => .ok []
  | s :: ss, stage =>
    match (takeStep depth [] s).run { stage with handed := [] } with
    | (.ok result, stage) =>
      (takeSteps depth ss stage).map
        (⟨result, stage.handed, stage.run.session, stage.nowMs⟩ :: ·)
    | (.error (.refused r), _) => .error r
    | (.error (.deadline _), stage) =>
      (takeSteps depth ss stage).map
        (⟨.abandoned, stage.handed, stage.run.session, stage.nowMs⟩ :: ·)

/-- Rehearses a list of steps. -/
def rehearse (run : Run) (script : List (Outcome ε)) (steps : List (Step ε)) :
    Except (Refusal ε) (List (Entry ε)) :=
  takeSteps (Outcome.sizeAll script + Step.sizeAll steps) steps ⟨run, 0, script, []⟩

end Rehearsal
end BackOffice
