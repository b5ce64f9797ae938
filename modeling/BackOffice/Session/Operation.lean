import BackOffice.Session.State
/-!
# Single operations on the parts of a session

Each operation is a value, so that a run of them is a list.
-/
namespace BackOffice

/-! ## On the attempts and marks -/

inductive IssuerOp where
  | begin (name : String)
  | finish (name : String)
  | isInFlight (name : String)
  | obtain (name : String)
  | obtainFor (name : String) (payload : Json)
  | obtainForRequest (name method path : String) (body : Json)
  | markFailed (name : String)
  | complete (name : String)
  | cancel (name : String)
  | cancelAll
  | attempt (name : String)

inductive IssuerResult where
  | done
  | flag (b : Bool)
  | keys (k : AttemptKeys)
  | refused (e : ApiError)
  | attempt (a : Option Attempt)
  | count (n : Nat)

namespace IssuerOp

/-- The keys, or the error of a conflict. -/
def keysOrError (trace : TraceId) : Except AttemptConflict AttemptKeys → IssuerResult
  | .ok k    => .keys k
  | .error c => .refused (.conflict trace c.message)

/-- Runs one operation, with identifiers for an attempt or an error it may make. -/
def run (fresh : FreshKeys) (trace : TraceId) (i : Issuer) : IssuerOp → IssuerResult × Issuer
  | .begin name =>
    let (b, i) := i.start name
    (.flag b, i)
  | .finish name => (.done, i.finish name)
  | .isInFlight name => (.flag (i.isInFlight name), i)
  | .obtain name =>
    let (k, i) := i.obtain fresh name
    (.keys k, i)
  | .obtainFor name payload =>
    let (r, i) := i.obtainFor fresh name payload
    (keysOrError trace r, i)
  | .obtainForRequest name method path body =>
    let (r, i) := i.obtainForRequest fresh name method path body
    (keysOrError trace r, i)
  | .markFailed name => (.done, i.markFailed name)
  | .complete name =>
    let (a, i) := i.complete name
    (.attempt a, i)
  | .cancel name =>
    let (b, i) := i.cancel name
    (.flag b, i)
  | .cancelAll =>
    let (n, i) := i.cancelAll
    (.count n, i)
  | .attempt name => (.attempt (i.attempt? name), i)

end IssuerOp

/-! ## Guards

A guard holds the mark of one operation and gives it back when it is dropped, whoever has ended or
taken the mark in between. -/

structure Guard where
  operation : String
deriving DecidableEq, Repr

namespace Issuer

/-- Takes the mark of an operation into a guard. -/
def tryStart (i : Issuer) (name : String) : Option Guard × Issuer :=
  let (b, i) := i.start name
  (if b then some ⟨name⟩ else none, i)

/-- Drops a guard. -/
def release (i : Issuer) (g : Guard) : Issuer := i.finish g.operation

end Issuer

/-- An issuer with the guards that are held, each in a slot of its own. -/
structure GuardedIssuer where
  issuer : Issuer
  guards : Table String Guard

namespace GuardedIssuer

def empty : GuardedIssuer := ⟨.empty, .empty⟩

/-- Puts a guard into a slot; the guard that was there is dropped afterwards. -/
def tryStart (g : GuardedIssuer) (name slot : String) : Option Guard × GuardedIssuer :=
  match g.issuer.tryStart name with
  | (none, i)   => (none, { g with issuer := i })
  | (some h, i) =>
    let i := match g.guards.get? slot with
      | some old => i.release old
      | none     => i
    (some h, ⟨i, g.guards.insert slot h⟩)

/-- Drops the guard in a slot; tells whether there was one. -/
def drop (g : GuardedIssuer) (slot : String) : Bool × GuardedIssuer :=
  match g.guards.get? slot with
  | none   => (false, g)
  | some h => (true, ⟨g.issuer.release h, g.guards.erase slot⟩)

end GuardedIssuer

/-! ## On the cache -/

inductive CacheOp where
  | get (key : String)
  | set (key : String) (value : Json)
  | invalidate (front : String)
  | clear
  | isEmpty
  /-- The clock comes to show another moment. -/
  | tick (now : Moment)

inductive CacheResult where
  | done
  | hit (v : Option Json)
  | count (n : Nat)
  | flag (b : Bool)

def CacheOp.run (c : Cache) : CacheOp → CacheResult × Cache
  | .get key =>
    let (v, c) := c.get key
    (.hit v, c)
  | .set key v => (.done, c.set key v)
  | .invalidate front =>
    let (n, c) := c.invalidate front
    (.count n, c)
  | .clear => (.done, c.clear)
  | .isEmpty => (.flag c.isEmpty, c)
  | .tick now => (.done, { c with clock := now })

/-! ## On the context versions

Stamps are kept under names of their own. -/

inductive ContextOp where
  | current (key : String)
  | advance (key : String)
  | stamp (key as : String)
  | check (as : String)

inductive ContextResult where
  | version (n : Nat)
  | checked (stamp : Stamp) (current : Bool)

/-- Runs one operation; nothing for a stamp that was not taken. -/
def ContextOp.run (c : Contexts) (kept : Table String Stamp) :
    ContextOp → Option (ContextResult × Contexts × Table String Stamp)
  | .current key => some (.version (c.current key), c, kept)
  | .advance key =>
    let (v, c) := c.advance key
    some (.version v, c, kept)
  | .stamp key as =>
    let s := c.stamp key
    some (.version s.version, c, kept.insert as s)
  | .check as => (kept.get? as).map (fun s => (.checked s (c.isCurrent s), c, kept))

end BackOffice
