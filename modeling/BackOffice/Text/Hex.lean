/-!
# Hexadecimal digits

Numbers below a power of sixteen are written with a fixed count of small digits, highest first,
and read back from digits in either case.  `hexValue_hexDigit` is the law of one digit; reading a
written number back is `readHex_hexDigits`.
-/
namespace BackOffice
namespace Text

/-- The small hexadecimal digit of a number below sixteen. -/
def hexDigit (n : Nat) : Char :=
  if n < 10 then Char.ofNat ('0'.toNat + n) else Char.ofNat ('a'.toNat + (n - 10))

/-- The value of a hexadecimal digit in either case. -/
def hexValue (c : Char) : Option Nat :=
  if '0'.toNat ≤ c.toNat ∧ c.toNat ≤ '9'.toNat then some (c.toNat - '0'.toNat)
  else if 'a'.toNat ≤ c.toNat ∧ c.toNat ≤ 'f'.toNat then some (c.toNat - 'a'.toNat + 10)
  else if 'A'.toNat ≤ c.toNat ∧ c.toNat ≤ 'F'.toNat then some (c.toNat - 'A'.toNat + 10)
  else none

/-- The lowest `width` hexadecimal digits of `n`, highest first. -/
def hexDigits : Nat → Nat → List Char
  | 0,         _ => []
  | width + 1, n => hexDigits width (n / 16) ++ [hexDigit (n % 16)]

/-- The number written by hexadecimal digits after those already worth `acc`. -/
def readHexFrom (acc : Nat) : List Char → Option Nat
  | []      => some acc
  | c :: cs => match hexValue c with
    | none   => none
    | some d => readHexFrom (16 * acc + d) cs

def readHex (cs : List Char) : Option Nat := readHexFrom 0 cs

theorem hexValue_hexDigit : ∀ n < 16, hexValue (hexDigit n) = some n := by decide

theorem length_hexDigits : ∀ (width n : Nat), (hexDigits width n).length = width
  | 0,         _ => rfl
  | width + 1, n => by rw [hexDigits, List.length_append, length_hexDigits width]; rfl

theorem readHexFrom_append (cs ds : List Char) (acc : Nat) :
    readHexFrom acc (cs ++ ds) = (readHexFrom acc cs).bind (readHexFrom · ds) := by
  induction cs generalizing acc with
  | nil => rfl
  | cons c cs ih =>
    simp only [List.cons_append, readHexFrom]
    cases hexValue c with
    | none => rfl
    | some d => exact ih _

/-- A number below that power of sixteen is read back from its digits. -/
theorem readHex_hexDigits (width n : Nat) (h : n < Nat.pow 16 width) :
    readHex (hexDigits width n) = some n := by
  unfold readHex
  induction width generalizing n with
  | zero =>
    have h0 : n = 0 := Nat.lt_one_iff.1 h
    rw [h0]; rfl
  | succ width ih =>
    have hq : n / 16 < Nat.pow 16 width := (Nat.div_lt_iff_lt_mul (by decide)).2 h
    rw [hexDigits, readHexFrom_append, ih _ hq]
    simp only [Option.bind_some, readHexFrom,
      hexValue_hexDigit (n % 16) (Nat.mod_lt _ (by decide))]
    congr 1; omega

end Text
end BackOffice
