import BackOffice.Calendar.Date
import BackOffice.Text.Blank
import BackOffice.Text.Ascii
import BackOffice.Json.Decoder
/-!
# Timestamps

An instant in UTC to the nanosecond.  It is read from a date, a separator, a time and an offset as
in RFC 3339, a little loosely: blanks may stand before each part, the year may carry a sign, and
the offset may be written with or without a colon.  Its year has to be in range both as it is
written and in UTC.  It is printed in UTC, with as few of 0, 3, 6 or
9 digits of a second as are exact.  A leap second is the second 59 with a full second of
nanoseconds on top.
-/
namespace BackOffice

/-- Days since 1970, the second of the day and the nanosecond, which is at least a thousand million
in a leap second. -/
structure Timestamp where
  day    : Int
  second : Nat
  nano   : Nat
deriving DecidableEq, Repr

namespace Timestamp

/-- Timestamps run from the beginning of the year -262143 to the end of the year 262142. -/
def yearInRange (y : Int) : Bool := decide (-262143 ≤ y) && decide (y ≤ 262142)

/-! ## Reading -/

def isDigit (c : Char) : Bool := Written.isDigit c

/-- A number of at least one and at most `most` digits. -/
def number (most : Nat) (cs : List Char) : Option (Nat × List Char) :=
  let ds := (cs.take most).takeWhile isDigit
  if ds.isEmpty then none else some (Written.naturalOf ds, cs.drop ds.length)

/-- A number of one or two digits after blanks. -/
def twoDigits (cs : List Char) : Option (Nat × List Char) := number 2 (Text.trimStart cs)

/-- The year: up to four digits, or any number of them after a sign. -/
def yearNumber (cs : List Char) : Option (Int × List Char) :=
  match Text.trimStart cs with
  | '-' :: r => (number r.length r).map (fun t => (-(t.1 : Int), t.2))
  | '+' :: r => (number r.length r).map (fun t => ((t.1 : Int), t.2))
  | r        => (number 4 r).map (fun t => ((t.1 : Int), t.2))

/-- A given character after blanks. -/
def mark (c : Char) (cs : List Char) : Option (List Char) :=
  match Text.trimStart cs with
  | d :: r => if d = c then some r else none
  | []     => none

/-- The digits of a second after a point, in nanoseconds; digits after the ninth are skipped. -/
def fraction : List Char → Option (Nat × List Char)
  | '.' :: cs =>
    let ds := (cs.take 9).takeWhile isDigit
    if ds.isEmpty then none
    else some (Written.naturalOf ds * Nat.pow 10 (9 - ds.length),
      (cs.drop ds.length).dropWhile isDigit)
  | cs => some (0, cs)

/-- Hours and minutes of an offset, in seconds, after its sign. -/
def offsetSeconds : List Char → Option (Nat × List Char)
  | a :: b :: r =>
    if isDigit a && isDigit b then
      match r.dropWhile (fun c => c = ':' || Text.isBlank c) with
      | c :: d :: r' =>
        if isDigit c && isDigit d && decide (Written.digitValue c < 6) then
          some (Written.naturalOf [a, b] * 3600 + Written.naturalOf [c, d] * 60, r')
        else none
      | _ => none
    else none
  | _ => none

/-- The offset from UTC in seconds: `Z`, `UTC`, or a sign with hours and minutes. -/
def offset (cs : List Char) : Option (Int × List Char) :=
  if (cs.take 3).map Text.lowerChar = ['u', 't', 'c'] then some (0, cs.drop 3)
  else
    match cs with
    | 'Z' :: r => some (0, r)
    | 'z' :: r => some (0, r)
    | '+' :: r => (offsetSeconds r).map (fun t => ((t.1 : Int), t.2))
    | '-' :: r => (offsetSeconds r).map (fun t => (-(t.1 : Int), t.2))
    | '−' :: r => (offsetSeconds r).map (fun t => (-(t.1 : Int), t.2))
    | _ => none

/-- A date as `year-month-day`. -/
def datePart (cs : List Char) : Option (Calendar.Date × List Char) := do
  let (year, r) ← yearNumber cs
  let r ← mark '-' r
  let (month, r) ← twoDigits r
  let r ← mark '-' r
  let (day, r) ← twoDigits r
  let date : Calendar.Date := ⟨year, month, day⟩
  if date.isValid && yearInRange year then some (date, r) else none

/-- A time as `hour:minute:second`, in seconds and nanoseconds; the second 60 is a leap second. -/
def timePart (cs : List Char) : Option ((Nat × Nat) × List Char) := do
  let (hour, r) ← twoDigits cs
  let r ← mark ':' r
  let (minute, r) ← twoDigits r
  let r ← mark ':' r
  let (second, r) ← twoDigits r
  let (nano, r) ← fraction r
  if hour < 24 ∧ minute < 60 ∧ second ≤ 60 then
    let leap := if second = 60 then 1000000000 else 0
    some ((hour * 3600 + minute * 60 + min second 59, leap + nano), r)
  else none

def parse (s : String) : Option Timestamp := do
  let (date, r) ← datePart s.toList
  let r ← match r with
    | c :: r => if c = 'T' || c = 't' || c = ' ' then some r else none
    | []     => none
  let ((second, nano), r) ← timePart r
  let (shift, r) ← offset (Text.trimStart r)
  let total : Int := second - shift
  let day := date.toDays + total / 86400
  if (Text.trimStart r).isEmpty && decide (-86400 < shift) && decide (shift < 86400)
      && yearInRange (Calendar.Date.ofDays day).year then
    some ⟨day, (total % 86400).toNat, nano⟩
  else none

/-! ## Printing -/

/-- The digits of `n` with zeros in front up to the given width. -/
def padded (width n : Nat) : List Char :=
  let ds := Nat.toDigits 10 n
  List.replicate (width - ds.length) '0' ++ ds

/-- Four digits; a sign as well outside the years 0 to 9999. -/
def yearText (y : Int) : List Char :=
  if 0 ≤ y ∧ y ≤ 9999 then padded 4 y.toNat
  else if y < 0 then '-' :: padded 4 (-y).toNat
  else '+' :: padded 4 y.toNat

def fractionText (nano : Nat) : List Char :=
  if nano = 0 then []
  else if nano % 1000000 = 0 then '.' :: padded 3 (nano / 1000000)
  else if nano % 1000 = 0 then '.' :: padded 6 (nano / 1000)
  else '.' :: padded 9 nano

def text (t : Timestamp) : String :=
  let date := Calendar.Date.ofDays t.day
  let leap := decide (1000000000 ≤ t.nano)
  let second := t.second % 60 + (if leap then 1 else 0)
  let nano := if leap then t.nano - 1000000000 else t.nano
  String.ofList (yearText date.year ++ '-' :: padded 2 date.month ++ '-' :: padded 2 date.day
    ++ 'T' :: padded 2 (t.second / 3600) ++ ':' :: padded 2 (t.second / 60 % 60)
    ++ ':' :: padded 2 second ++ fractionText nano ++ ['Z'])

def decoder : Decoder Timestamp := Decoder.string.filterMap parse

def toJson (t : Timestamp) : Json := .string t.text

end Timestamp
end BackOffice
