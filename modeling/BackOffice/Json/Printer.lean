import BackOffice.Json.Value
import BackOffice.Decimal.Shortest
import BackOffice.Text.Hex
/-!
# Compact JSON text

A value is written without any blank.  In a string only the quote, the backslash and the control
characters below the space are escaped, five of these by a letter and the rest by four small
hexadecimal digits; every other character stands for itself.  The writers put their text in front
of a given rest.
-/
namespace BackOffice
namespace Json

/-- One character as it stands inside a written string. -/
def escapeChar (c : Char) : List Char :=
  if c = '"' then ['\\', '"']
  else if c = '\\' then ['\\', '\\']
  else if c = '\n' then ['\\', 'n']
  else if c = '\r' then ['\\', 'r']
  else if c = '\t' then ['\\', 't']
  else if c.toNat = 8 then ['\\', 'b']
  else if c.toNat = 12 then ['\\', 'f']
  else if c.toNat < 32 then '\\' :: 'u' :: Text.hexDigits 4 c.toNat
  else [c]

/-- The characters of a string, escaped, and its closing quote. -/
def writeChars : List Char → List Char → List Char
  | [],      rest => '"' :: rest
  | c :: cs, rest => escapeChar c ++ writeChars cs rest

def writeString (s : String) (rest : List Char) : List Char := '"' :: writeChars s.toList rest

/-- A whole number in decimal digits, with a sign if it is negative. -/
def integerText (n : Int) : List Char :=
  if n < 0 then '-' :: Nat.toDigits 10 n.natAbs else Nat.toDigits 10 n.natAbs

def numberText : Number → List Char
  | .integer n => integerText n
  | .double x  => x.text

mutual
def write : Json → List Char → List Char
  | .null, rest           => 'n' :: 'u' :: 'l' :: 'l' :: rest
  | .bool true, rest      => 't' :: 'r' :: 'u' :: 'e' :: rest
  | .bool false, rest     => 'f' :: 'a' :: 'l' :: 's' :: 'e' :: rest
  | .number n, rest       => numberText n ++ rest
  | .string s, rest       => writeString s rest
  | .array [], rest       => '[' :: ']' :: rest
  | .array (v :: vs), rest => '[' :: write v (writeItems vs rest)
  | .object [], rest      => '\x7b' :: '\x7d' :: rest
  | .object ((k, v) :: ms), rest => '\x7b' :: writeString k (':' :: write v (writeMembers ms rest))

/-- The items after the first, and the closing bracket. -/
def writeItems : List Json → List Char → List Char
  | [], rest      => ']' :: rest
  | v :: vs, rest => ',' :: write v (writeItems vs rest)

/-- The members after the first, and the closing brace. -/
def writeMembers : List (String × Json) → List Char → List Char
  | [], rest           => '\x7d' :: rest
  | (k, v) :: ms, rest => ',' :: writeString k (':' :: write v (writeMembers ms rest))
end

/-- The compact text of a value. -/
def render (v : Json) : String := String.ofList (write v [])

end Json
end BackOffice
