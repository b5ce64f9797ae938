import BackOffice.Client.Progress
import BackOffice.Session.Operation
/-!
# Runs

A run is a session with the calls that have begun in it and not yet returned.  It moves by single
actions: a call takes its next turn, or something is done to the session directly.  Whatever order
the actions come in, one action is finished before the next begins; calls that overlap are calls
whose turns alternate.
-/
namespace BackOffice

structure Run where
  config  : Config
  session : Session
  /-- Stamps taken by hand, each under a name. -/
  stamps  : Table String Stamp
  /-- The calls that have not returned, by their numbers. -/
  ongoing : Table Nat Waiting
  /-- How many calls have begun. -/
  started : Nat

inductive Action where
  | begin (call : Call)
  | answer (id : Nat) (arrival : Arrival)
  | resume (id : Nat)
  | abandon (id : Nat)
  | switch (subject : Subject)
  | cancel (operation : String)
  | grant (set : EffectiveSet)
  | require (key : PermissionKey)
  | issuer (op : IssuerOp)
  | cache (op : CacheOp)
  | context (op : ContextOp)

/-- What an action shows. -/
inductive Event where
  | progressed (id : Nat) (p : Progress)
  | done
  | cancelled (found : Bool)
  | required (r : Except ApiError Unit)
  | issuer (r : IssuerResult)
  | cache (r : CacheResult)
  | context (r : ContextResult)
  /-- There is no such call, or no such stamp. -/
  | ignored

namespace Run

def start (config : Config) (subject : Subject) (mint : Mint) : Run :=
  ⟨config, .start subject config.cacheTtlSecs mint, .empty, .empty, 0⟩

/-- Takes note of how far a call has come. -/
def note (r : Run) (id : Nat) (p : Progress × Session) : Event × Run :=
  (.progressed id p.1,
    { r with
      session := p.2
      ongoing := match p.1 with
        | .waiting w  => r.ongoing.insert id w
        | .returned _ => r.ongoing.erase id })

def act (r : Run) : Action → Event × Run
  | .begin call =>
    ({ r with started := r.started + 1 } : Run).note r.started (Client.start r.session call)
  | .answer id arrival =>
    match r.ongoing.get? id with
    | some (.answer x) => r.note id (Client.arrive r.config r.session x arrival)
    | _ => (.ignored, r)
  | .resume id =>
    match r.ongoing.get? id with
    | some (.pause _ x) => r.note id (Client.resume x, r.session)
    | _ => (.ignored, r)
  | .abandon id =>
    match r.ongoing.get? id with
    | some (.answer x) =>
      (.done, { r with session := Client.abandon r.session x, ongoing := r.ongoing.erase id })
    | some (.pause _ x) =>
      (.done, { r with session := Client.abandon r.session x, ongoing := r.ongoing.erase id })
    | none => (.ignored, r)
  | .switch subject => (.done, { r with session := r.session.switchContext subject })
  | .cancel operation =>
    let (found, issuer) := r.session.issuer.cancel operation
    (.cancelled found, { r with session := { r.session with issuer := issuer } })
  | .grant set => (.done, { r with session := r.session.grant set })
  | .require key =>
    let (fresh, s) := r.session.draw
    (.required (s.require (.minted fresh) key), { r with session := s })
  | .issuer op =>
    let (fresh, s) := r.session.drawKeys
    let (trace, s) := s.draw
    let (result, issuer) := op.run fresh (.minted trace) s.issuer
    (.issuer result, { r with session := { s with issuer := issuer } })
  | .cache op =>
    let (result, cache) := op.run r.session.cache
    (.cache result, { r with session := { r.session with cache := cache } })
  | .context op =>
    match op.run r.session.contexts r.stamps with
    | some (result, contexts, stamps) =>
      (.context result, { r with session := { r.session with contexts := contexts }, stamps := stamps })
    | none => (.ignored, r)

end Run
end BackOffice
