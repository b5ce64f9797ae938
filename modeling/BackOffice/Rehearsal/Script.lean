import BackOffice.Client.Run
/-!
# Scripts

A rehearsal runs a client against a scripted transport.  A script lists how the exchanges end, one
after the other, and may have steps taken while an exchange is going on; a step does something with
the session, and one kind of step lengthens the script.  Steps and outcomes are read from elsewhere,
so a step may turn out unreadable: it carries the reason, of a type `ε` that the reader chooses.
-/
namespace BackOffice
namespace Rehearsal

/-- How an exchange ends, if it does. -/
inductive Ending where
  | arrives (a : Arrival)
  | never

/-- What the body of an answer is decoded as. -/
inductive Shape where
  | stores
  | user
  | permissions
deriving DecidableEq, Repr

/-- A body that has been decoded, or why it could not be. -/
inductive Shaped where
  | stores (r : Except ApiError (List Store))
  | user (r : Except ApiError User)
  | permissions (r : Except ApiError PermissionReport)

/-- The body of an answer in some shape. -/
def Shape.read (a : Answer) : Shape → Shaped
  | .stores      => .stores (a.decode (Decoder.list Store.decoder))
  | .user        => .user (a.decode User.decoder)
  | .permissions => .permissions (a.decode PermissionReport.decoder)

mutual
inductive Step (ε : Type) where
  | unreadable (reason : ε)
  | issuer (op : IssuerOp)
  | cache (op : CacheOp)
  | context (op : ContextOp)
  | call (c : Call)
  /-- Sends a request; only once there is an answer is its shape asked for, and it may turn out
  unreadable then. -/
  | send (request : Request) (stamp : Option String) (shape : Option (Except ε Shape))
  | cancel (operation : String)
  | switch (subject : Subject)
  | grant (set : EffectiveSet)
  | isAllowed (key : PermissionKey)
  | require (key : PermissionKey)
  | subject
  | push (script : List (Outcome ε))
  /-- Takes a step and drops it unfinished after so many milliseconds. -/
  | abandon (afterMs : Nat) (step : Step ε)

/-- An exchange: the steps taken in it, then a delay, then its end. -/
inductive Outcome (ε : Type) where
  | mk (ending : Ending) (during : List (Step ε)) (delayMs : Nat)
end

instance {ε : Type} : Inhabited (Step ε) := ⟨.subject⟩

namespace Outcome

variable {ε : Type}

def ending : Outcome ε → Ending
  | .mk e _ _ => e

def during : Outcome ε → List (Step ε)
  | .mk _ d _ => d

def delayMs : Outcome ε → Nat
  | .mk _ _ d => d

/-- How every exchange ends once the script has been used up. -/
def exhausted : Outcome ε := .mk (.arrives (.error (.network "script exhausted"))) [] 0

instance : Inhabited (Outcome ε) := ⟨exhausted⟩

end Outcome

/-! ## Size -/

mutual
/-- How many steps and outcomes stand in a step, itself included. -/
def Step.size {ε : Type} : Step ε → Nat
  | .push script   => 1 + Outcome.sizeAll script
  | .abandon _ s   => 1 + s.size
  | .unreadable _  => 1
  | .issuer _      => 1
  | .cache _       => 1
  | .context _     => 1
  | .call _        => 1
  | .send _ _ _    => 1
  | .cancel _      => 1
  | .switch _      => 1
  | .grant _       => 1
  | .isAllowed _   => 1
  | .require _     => 1
  | .subject       => 1

def Step.sizeAll {ε : Type} : List (Step ε) → Nat
  | []      => 0
  | s :: ss => s.size + Step.sizeAll ss

def Outcome.size {ε : Type} : Outcome ε → Nat
  | .mk _ during _ => 1 + Step.sizeAll during

def Outcome.sizeAll {ε : Type} : List (Outcome ε) → Nat
  | []      => 0
  | o :: os => o.size + Outcome.sizeAll os
end

/-- Why a step cannot be taken. -/
inductive Refusal (ε : Type) where
  | unreadable (reason : ε)
  /-- It checks a stamp that has not been taken. -/
  | checksUnknownStamp
  /-- It sends a request under a stamp that has not been taken. -/
  | sendsUnknownStamp

/-- What a step shows. -/
inductive Result (ε : Type) where
  | refused (r : Refusal ε)
  | nothing
  | flag (b : Bool)
  | issuer (r : IssuerResult)
  | cache (r : CacheResult)
  | context (r : ContextResult)
  | reply (r : Reply)
  | sent (r : Except ApiError Answer) (shaped : Option Shaped)
  | required (r : Except ApiError Unit)
  | subject (s : Subject)
  | finished (r : Result ε)
  | abandoned

/-- A request handed to the transport: when, for how long the client would wait, and what the steps
finished during the exchange have shown; a step that is cut off shows nothing. -/
structure Handed (ε : Type) where
  request     : Request
  atMs        : Nat
  timeoutSecs : Nat
  during      : List (Result ε)

/-- What one step of a rehearsal has shown, and the session after it. -/
structure Entry (ε : Type) where
  result  : Result ε
  handed  : List (Handed ε)
  session : Session
  nowMs   : Nat

end Rehearsal
end BackOffice
