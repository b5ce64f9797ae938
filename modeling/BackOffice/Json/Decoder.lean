import BackOffice.Json.Written
import BackOffice.Json.Printer
/-!
# Decoders

A decoder takes a written value, and the number of levels that may still be nested in it, to a
value of some type.  A record is read from an object or from the list of its fields in order.  Of
an object's members those with unknown names are skipped whatever they hold; a known name given
twice is a fault.  A list may stop early, and must not go on after the last field.
-/
namespace BackOffice

/-- Reads a value of type `α` within so many levels of nesting. -/
abbrev Decoder (α : Type) := Nat → Written → Option α

namespace Decoder

/-- Decodes a JSON text. -/
def text {α : Type} (d : Decoder α) (s : String) : Option α :=
  match Written.read s with
  | none   => none
  | some w => d Written.nestingLimit w

/-- Decodes a JSON value. -/
def value {α : Type} (d : Decoder α) (v : Json) : Option α :=
  d Written.nestingLimit (Written.ofJson v)

/-! ## Plain values -/

def json : Decoder Json := Written.json

def string : Decoder String
  | _, .string s => s
  | _, _ => none

def bool : Decoder Bool
  | _, .bool b => some b
  | _, _ => none

/-- A whole number from zero to `limit`. -/
def natUpTo (limit : Nat) : Decoder Nat
  | _, .number (some (.integer n)) =>
    if 0 ≤ n ∧ n ≤ limit then some n.toNat else none
  | _, _ => none

def map {α β : Type} (f : α → β) (d : Decoder α) : Decoder β := fun room w => (d room w).map f

/-- A value that is refused if `f` gives nothing for it. -/
def filterMap {α β : Type} (f : α → Option β) (d : Decoder α) : Decoder β :=
  fun room w => (d room w).bind f

/-- A value or `null`. -/
def nullable {α : Type} (d : Decoder α) : Decoder (Option α)
  | _, .null => some none
  | room, w  => (d room w).map some

/-- Every item of a list, in order. -/
def each {α : Type} (d : Decoder α) (room : Nat) : List Written → Option (List α)
  | []      => some []
  | w :: ws => match d room w with
    | none   => none
    | some a => (each d room ws).map (a :: ·)

/-- An array of values of one kind. -/
def list {α : Type} (d : Decoder α) : Decoder (List α)
  | room + 1, .array ws => each d room ws
  | _, _ => none

/-- An array of two values. -/
def pair {α β : Type} (d : Decoder α) (e : Decoder β) : Decoder (α × β)
  | room + 1, .array [v, w] => match d room v, e room w with
    | some a, some b => some (a, b)
    | _, _ => none
  | _, _ => none

/-- One of a list of names, alone or as the single member of an object whose value is `null`. -/
def oneOf {α : Type} (names : List (String × α)) : Decoder α
  | _, .string (some s) => Table.lookup s names
  | _ + 1, .object [(some s, .null)] => Table.lookup s names
  | _, _ => none

/-! ## Records -/

/-- The fields of a record as they are written. -/
structure Fields where
  room  : Nat
  given : List (String × Written)

/-- The known members of an object; nothing if a name is faulty or a known one is given twice. -/
def knownMembers (names : List String) :
    List (Option String × Written) → Option (List (String × Written))
  | [] => some []
  | (none, _) :: _ => none
  | (some k, w) :: ms =>
    match knownMembers names ms with
    | none => none
    | some given =>
      if !names.contains k then some given
      else if (Table.lookup k given).isSome then none
      else some ((k, w) :: given)

/-- The fields of a record with the given names, from an object or from a list. -/
def fields (names : List String) : Decoder Fields
  | room + 1, .object ms => (knownMembers names ms).map (⟨room, ·⟩)
  | room + 1, .array ws  => if ws.length ≤ names.length then some ⟨room, names.zip ws⟩ else none
  | _, _ => none

/-- A field that has to be given. -/
def Fields.required {α : Type} (f : Fields) (name : String) (d : Decoder α) : Option α :=
  match Table.lookup name f.given with
  | none   => none
  | some w => d f.room w

/-- A field that may be left out. -/
def Fields.withDefault {α : Type} (f : Fields) (name : String) (d : Decoder α) (a : α) : Option α :=
  match Table.lookup name f.given with
  | none   => some a
  | some w => d f.room w

/-- A field that may be left out or `null`. -/
def Fields.optional {α : Type} (f : Fields) (name : String) (d : Decoder α) : Option (Option α) :=
  f.withDefault name (nullable d) none

end Decoder
end BackOffice
