import BackOffice.Json.Value
import BackOffice.Text.Hex
/-!
# JSON as written

`Written` is a JSON text with its punctuation gone and nothing else decided: members stand in the
order of the text, a name may be given twice, and a string with a lone surrogate or a number beyond
the doubles is kept as such.  Which of these are faults is settled when the text is decoded, for a
member that a decoder skips may hold any of them.

`Written.json` is the strict reading: no faulty token, at most so many levels of nesting, and of
members with one name the last.
-/
namespace BackOffice

/-- A JSON text with its punctuation gone.  `none` marks a string with a lone surrogate and a
number beyond the greatest double. -/
inductive Written where
  | null
  | bool (b : Bool)
  | number (n : Option Number)
  | string (s : Option String)
  | array (items : List Written)
  | object (members : List (Option String × Written))

instance : Inhabited Written := ⟨.null⟩

namespace Written

/-! ## Tokens -/

def isSpace (c : Char) : Bool := c = ' ' || c = '\n' || c = '\r' || c = '\t'

def skipSpace (cs : List Char) : List Char := cs.dropWhile isSpace

def isDigit (c : Char) : Bool := decide ('0'.toNat ≤ c.toNat) && decide (c.toNat ≤ '9'.toNat)

def digitValue (c : Char) : Nat := c.toNat - '0'.toNat

/-- One unit of a string: a character, or sixteen bits given by four hexadecimal digits. -/
inductive StringUnit where
  | char (c : Char)
  | bits (n : Nat)

/-- The characters that a letter after a backslash stands for. -/
def escapeLetter : Char → Option Char
  | '"'  => some '"'
  | '\\' => some '\\'
  | '/'  => some '/'
  | 'b'  => some (Char.ofNat 8)
  | 'f'  => some (Char.ofNat 12)
  | 'n'  => some '\n'
  | 'r'  => some '\r'
  | 't'  => some '\t'
  | _    => none

/-- The units of a string up to its closing quote, and the text after it.  A control character
below the space has to be escaped. -/
def stringUnits : List Char → Option (List StringUnit × List Char)
  | [] => none
  | '"' :: rest => some ([], rest)
  | '\\' :: 'u' :: a :: b :: c :: d :: rest =>
    match Text.readHex [a, b, c, d] with
    | none   => none
    | some n => (stringUnits rest).map (fun r => (.bits n :: r.1, r.2))
  | '\\' :: e :: rest =>
    match escapeLetter e with
    | none   => none
    | some c => (stringUnits rest).map (fun r => (.char c :: r.1, r.2))
  | c :: rest =>
    if c.toNat < 32 then none
    else (stringUnits rest).map (fun r => (.char c :: r.1, r.2))

def isHighSurrogate (n : Nat) : Bool := decide (0xD800 ≤ n) && decide (n ≤ 0xDBFF)

def isLowSurrogate (n : Nat) : Bool := decide (0xDC00 ≤ n) && decide (n ≤ 0xDFFF)

/-- The characters of a list of units; two surrogates in a row are one character, and a lone one is
none at all. -/
def joinUnits : List StringUnit → Option (List Char)
  | [] => some []
  | .char c :: us => (joinUnits us).map (c :: ·)
  | .bits n :: us =>
    if isHighSurrogate n then
      match us with
      | .bits m :: vs =>
        if isLowSurrogate m then
          (joinUnits vs).map (Char.ofNat (0x10000 + (n - 0xD800) * 0x400 + (m - 0xDC00)) :: ·)
        else none
      | _ => none
    else if isLowSurrogate n then none
    else (joinUnits us).map (Char.ofNat n :: ·)

/-- A string after its opening quote. -/
def stringToken (cs : List Char) : Option (Option String × List Char) :=
  match stringUnits cs with
  | none        => none
  | some (u, r) => some ((joinUnits u).map String.ofList, r)

/-- The digits and exponents of a written number. -/
structure NumberParts where
  negative : Bool
  whole    : List Char
  fraction : Option (List Char)
  exponent : Option (Bool × List Char)

/-- The exponent of a number, if an `e` follows; the flag tells a minus sign. -/
def exponentPart : List Char → Option (Option (Bool × List Char) × List Char)
  | c :: cs =>
    if c = 'e' || c = 'E' then
      let signed : Bool × List Char := match cs with
        | '-' :: ds => (true, ds)
        | '+' :: ds => (false, ds)
        | ds        => (false, ds)
      let ds := signed.2.takeWhile isDigit
      if ds.isEmpty then none else some (some (signed.1, ds), signed.2.dropWhile isDigit)
    else some (none, c :: cs)
  | [] => some (none, [])

/-- The fraction of a number, if a point follows. -/
def fractionPart : List Char → Option (Option (List Char) × List Char)
  | '.' :: cs =>
    let ds := cs.takeWhile isDigit
    if ds.isEmpty then none else some (some ds, cs.dropWhile isDigit)
  | cs => some (none, cs)

/-- Splits a number off the text: an optional minus, digits without a needless zero in front, and
the optional parts. -/
def numberParts (cs : List Char) : Option (NumberParts × List Char) :=
  let signed : Bool × List Char := match cs with
    | '-' :: ds => (true, ds)
    | ds        => (false, ds)
  let whole := signed.2.takeWhile isDigit
  if whole.isEmpty || (whole.head? == some '0' && decide (1 < whole.length)) then none
  else
    match fractionPart (signed.2.dropWhile isDigit) with
    | none         => none
    | some (f, r₁) =>
      match exponentPart r₁ with
      | none         => none
      | some (e, r₂) => some (⟨signed.1, whole, f, e⟩, r₂)

/-- The greatest significand that is kept. -/
def significandLimit : Nat := Nat.pow 2 64 - 1

/-- Takes the digits before the point into a significand of 64 bits.  From the first digit that
does not fit, digits only raise the exponent. -/
def takeWhole : List Char → Nat → Nat → Bool → Nat × Nat × Bool
  | [],      sig, dropped, full => (sig, dropped, full)
  | c :: cs, sig, dropped, full =>
    if full || decide (significandLimit < sig * 10 + digitValue c) then
      takeWhole cs sig (dropped + 1) true
    else takeWhole cs (sig * 10 + digitValue c) dropped false

/-- Takes the digits after the point into the significand, each lowering the exponent by one.  From
the first digit that does not fit, digits are ignored. -/
def takeFraction : List Char → Nat → Nat → Nat × Nat
  | [],      sig, places => (sig, places)
  | c :: cs, sig, places =>
    if significandLimit < sig * 10 + digitValue c then (sig, places)
    else takeFraction cs (sig * 10 + digitValue c) (places + 1)

def naturalOf (ds : List Char) : Nat := ds.foldl (fun n c => n * 10 + digitValue c) 0

/-- The number that the parts stand for.  Without fraction and exponent it is an integer if it lies
between `-2^63` and `2^64 - 1` and is not `-0`; any other is a double. -/
def NumberParts.number (p : NumberParts) : Option Number :=
  let w := takeWhole p.whole 0 0 false
  let double (sig : Nat) (e : Int) : Option Number :=
    (Decimal.Magnitude.ofDecimal sig e).map (fun m => .double ⟨p.negative, m⟩)
  if p.fraction.isNone && p.exponent.isNone && !w.2.2 then
    if !p.negative then some (.integer w.1)
    else if 0 < w.1 ∧ w.1 ≤ Nat.pow 2 63 then some (.integer (-(w.1 : Int)))
    else double w.1 0
  else
    let f := takeFraction (p.fraction.getD []) w.1 0
    let shift : Int := match p.exponent with
      | none             => 0
      | some (true, ds)  => -(naturalOf ds : Int)
      | some (false, ds) => naturalOf ds
    double f.1 ((w.2.1 : Int) - f.2 + shift)

/-! ## Values

Each reader takes one value, or the rest of a list after one, off the front of the text.  The first
argument bounds the number of steps; twice the length of the text is enough. -/

/-- The text after a given word. -/
def afterWord (word : List Char) (cs : List Char) : Option (List Char) :=
  if word.isPrefixOf cs then some (cs.drop word.length) else none

mutual
def value : Nat → List Char → Option (Written × List Char)
  | 0, _ => none
  | n + 1, cs =>
    match skipSpace cs with
    | '"' :: r => (stringToken r).map (fun t => (.string t.1, t.2))
    | '[' :: r =>
      match skipSpace r with
      | ']' :: r' => some (.array [], r')
      | r' => (items n r').map (fun t => (.array t.1, t.2))
    | '\x7b' :: r =>
      match skipSpace r with
      | '\x7d' :: r' => some (.object [], r')
      | r' => (members n r').map (fun t => (.object t.1, t.2))
    | 'n' :: r => (afterWord ['u', 'l', 'l'] r).map (fun t => (.null, t))
    | 't' :: r => (afterWord ['r', 'u', 'e'] r).map (fun t => (.bool true, t))
    | 'f' :: r => (afterWord ['a', 'l', 's', 'e'] r).map (fun t => (.bool false, t))
    | r => (numberParts r).map (fun t => (.number t.1.number, t.2))

/-- One or more items and the closing bracket. -/
def items : Nat → List Char → Option (List Written × List Char)
  | 0, _ => none
  | n + 1, cs =>
    match value n cs with
    | none => none
    | some (v, r) =>
      match skipSpace r with
      | ']' :: r' => some ([v], r')
      | ',' :: r' => (items n r').map (fun t => (v :: t.1, t.2))
      | _ => none

/-- One or more members and the closing brace. -/
def members : Nat → List Char → Option (List (Option String × Written) × List Char)
  | 0, _ => none
  | n + 1, cs =>
    match skipSpace cs with
    | '"' :: r =>
      match stringToken r with
      | none => none
      | some (k, r₁) =>
        match skipSpace r₁ with
        | ':' :: r₂ =>
          match value n r₂ with
          | none => none
          | some (v, r₃) =>
            match skipSpace r₃ with
            | '\x7d' :: r₄ => some ([(k, v)], r₄)
            | ',' :: r₄ => (members n r₄).map (fun t => ((k, v) :: t.1, t.2))
            | _ => none
        | _ => none
    | _ => none
end

/-- Reads a whole text: one value, with nothing but space around it. -/
def read (s : String) : Option Written :=
  match value (2 * s.length + 2) s.toList with
  | none        => none
  | some (v, r) => if (skipSpace r).isEmpty then some v else none

/-! ## Strict reading -/

mutual
/-- The value of the text if no token is faulty and at most `room` arrays and objects are nested. -/
def json : Nat → Written → Option Json
  | _, .null     => some .null
  | _, .bool b   => some (.bool b)
  | _, .number n => n.map .number
  | _, .string s => s.map .string
  | room, .array vs =>
    match room with
    | 0        => none
    | room + 1 => (jsonItems room vs).map .array
  | room, .object ms =>
    match room with
    | 0        => none
    | room + 1 => (jsonMembers room ms).map Json.record

def jsonItems : Nat → List Written → Option (List Json)
  | _, []         => some []
  | room, v :: vs =>
    match json room v with
    | none   => none
    | some j => (jsonItems room vs).map (j :: ·)

def jsonMembers : Nat → List (Option String × Written) → Option (List (String × Json))
  | _, []              => some []
  | room, (k, v) :: ms =>
    match k, json room v with
    | some k, some j => (jsonMembers room ms).map ((k, j) :: ·)
    | _, _           => none
end

/-- How many arrays and objects may be nested in a text. -/
def nestingLimit : Nat := 127

mutual
/-- A value as one of its texts. -/
def ofJson : Json → Written
  | .null      => .null
  | .bool b    => .bool b
  | .number n  => .number (some n)
  | .string s  => .string (some s)
  | .array vs  => .array (ofItems vs)
  | .object ms => .object (ofMembers ms)

def ofItems : List Json → List Written
  | []      => []
  | v :: vs => ofJson v :: ofItems vs

def ofMembers : List (String × Json) → List (Option String × Written)
  | []           => []
  | (k, v) :: ms => (some k, ofJson v) :: ofMembers ms
end

end Written

/-- The value of a JSON text. -/
def Json.parse (s : String) : Option Json :=
  match Written.read s with
  | none   => none
  | some w => w.json Written.nestingLimit

end BackOffice
