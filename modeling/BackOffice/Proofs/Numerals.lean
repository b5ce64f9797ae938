import BackOffice.Config.Environment
import BackOffice.Proofs.Trimming
import BackOffice.Proofs.Tokens
import Mathlib.Data.List.Induction
/-!
# Numerals

A number is written as its decimal digits, with zeros and a plus sign in front if one likes.  So each text stands for
one number at most, and it is read if it is within the limit (`Config.parseNat_eq_some_iff`); blanks around it do not
count (`Config.parseNat_trim_eq_some_iff`).
-/
namespace BackOffice

/-! ## Decimal digits -/

namespace Written

theorem digitValue_lt {c : Char} (h : isDigit c = true) : digitValue c < 10 := by
  have hzero : '0'.toNat = 48 := rfl
  have hnine : '9'.toNat = 57 := rfl
  simp only [isDigit, Bool.and_eq_true, decide_eq_true_eq] at h
  unfold digitValue
  omega

theorem digitChar_digitValue {c : Char} (h : isDigit c = true) : Nat.digitChar (digitValue c) = c := by
  have hvalue := Nat.toNat_digitChar_of_lt_ten (digitValue_lt h)
  have hzero : '0'.toNat = 48 := rfl
  simp only [isDigit, Bool.and_eq_true, decide_eq_true_eq] at h
  refine Char.toNat_inj.1 (hvalue.trans ?_)
  unfold digitValue
  omega

theorem naturalOf_concat (ds : List Char) (c : Char) : naturalOf (ds ++ [c]) = naturalOf ds * 10 + digitValue c := by
  rw [naturalOf, List.foldl_append]
  rfl

theorem naturalOf_zeros (zeros : Nat) (ds : List Char) : naturalOf (List.replicate zeros '0' ++ ds) = naturalOf ds := by
  induction zeros with
  | zero => rfl
  | succ zeros ih => exact ih

/-- **Digits are those of their number**, after some zeros. -/
theorem eq_zeros_append_toDigits {ds : List Char} (hne : ds ≠ []) (hds : ∀ c ∈ ds, isDigit c = true) :
    ∃ zeros, ds = List.replicate zeros '0' ++ Nat.toDigits 10 (naturalOf ds) := by
  induction ds using List.reverseRecOn with
  | nil => exact absurd rfl hne
  | append_singleton ds c ih =>
    have hc : isDigit c = true := hds c (List.mem_append_right _ (List.mem_singleton.2 rfl))
    have hlast : Nat.toDigits 10 (digitValue c) = [c] := by
      rw [Nat.toDigits_of_lt_base (digitValue_lt hc), digitChar_digitValue hc]
    rw [naturalOf_concat]
    by_cases hempty : ds = []
    · subst hempty
      exact ⟨0, by rw [naturalOf, List.foldl_nil, Nat.zero_mul, Nat.zero_add, hlast]; rfl⟩
    · obtain ⟨zeros, hzeros⟩ := ih hempty fun d hd => hds d (List.mem_append_left _ hd)
      rcases Nat.eq_zero_or_pos (naturalOf ds) with hzero | hpos
      · -- the digits before the last are zeros, down to the one that stands for zero itself
        refine ⟨zeros + 1, ?_⟩
        rw [hzero, Nat.toDigits_zero] at hzeros
        rw [hzero, Nat.zero_mul, Nat.zero_add, hlast, List.replicate_succ', ← hzeros]
      · refine ⟨zeros, ?_⟩
        rw [Nat.mul_comm, ← Nat.toDigits_append_toDigits (by decide) hpos (digitValue_lt hc), hlast,
          ← List.append_assoc, ← hzeros]

end Written

namespace Config

/-! ## Numbers -/

/-- A number in decimal digits, with zeros in front of them and a plus sign in front of these, or without. -/
def Numeral (n : Nat) (cs : List Char) : Prop :=
  ∃ sign zeros, (sign = [] ∨ sign = ['+']) ∧ cs = sign ++ (List.replicate zeros '0' ++ Nat.toDigits 10 n)

theorem isDigit_of_mem_numeral {zeros n : Nat} {c : Char} (hc : c ∈ List.replicate zeros '0' ++ Nat.toDigits 10 n) :
    Written.isDigit c = true := by
  rcases List.mem_append.1 hc with hc | hc
  · rw [List.eq_of_mem_replicate hc]
    decide
  · exact Written.isDigit_toDigits n c hc

theorem Numeral.isBlank_eq_false {n : Nat} {cs : List Char} (h : Numeral n cs) : ∀ c ∈ cs, Text.isBlank c = false := by
  obtain ⟨sign, zeros, hsign, rfl⟩ := h
  intro c hc
  rcases List.mem_append.1 hc with hc | hc
  · rcases hsign with rfl | rfl
    · cases hc
    · rw [List.mem_singleton.1 hc]
      decide
  · refine Bool.eq_false_iff.2 fun hblank => ?_
    have hdigit := Written.isDigit_of_isBlank hblank
    rw [isDigit_of_mem_numeral hc] at hdigit
    cases hdigit

/-- The digits of a text that is to be a number. -/
def unsigned (cs : List Char) : List Char :=
  match cs with
  | '+' :: r => r
  | r        => r

theorem unsigned_plus (cs : List Char) : unsigned ('+' :: cs) = cs := rfl

theorem unsigned_of_isDigit {cs : List Char} (h : ∀ c ∈ cs, Written.isDigit c = true) : unsigned cs = cs := by
  unfold unsigned
  split
  · exact absurd (h '+' List.mem_cons_self) (by decide)
  · rfl

theorem eq_sign_append_unsigned (cs : List Char) : ∃ sign, (sign = [] ∨ sign = ['+']) ∧ cs = sign ++ unsigned cs := by
  unfold unsigned
  split
  · exact ⟨['+'], .inr rfl, rfl⟩
  · exact ⟨[], .inl rfl, rfl⟩

theorem parseNat_eq (limit : Nat) (s : String) : parseNat limit s =
    if (unsigned s.toList).isEmpty || !(unsigned s.toList).all Written.isDigit then none
    else if Written.naturalOf (unsigned s.toList) ≤ limit then some (Written.naturalOf (unsigned s.toList))
    else none := rfl

/-- **A number is read exactly from its numerals**, as far as the limit goes. -/
theorem parseNat_eq_some_iff {limit n : Nat} {s : String} :
    parseNat limit s = some n ↔ n ≤ limit ∧ Numeral n s.toList := by
  rw [parseNat_eq]
  constructor
  · intro h
    split at h
    · cases h
    rename_i hdigits
    obtain ⟨hne, hall⟩ : unsigned s.toList ≠ [] ∧ ∀ c ∈ unsigned s.toList, Written.isDigit c = true := by
      simpa using hdigits
    split at h
    · rename_i hlimit
      cases h
      obtain ⟨sign, hsign, hs⟩ := eq_sign_append_unsigned s.toList
      obtain ⟨zeros, hzeros⟩ := Written.eq_zeros_append_toDigits hne hall
      exact ⟨hlimit, sign, zeros, hsign, hs.trans (congrArg (sign ++ ·) hzeros)⟩
    · cases h
  · rintro ⟨hlimit, sign, zeros, hsign, hs⟩
    have hdigit : ∀ c ∈ List.replicate zeros '0' ++ Nat.toDigits 10 n, Written.isDigit c = true := fun c =>
      isDigit_of_mem_numeral
    have hunsigned : unsigned s.toList = List.replicate zeros '0' ++ Nat.toDigits 10 n := by
      rcases hsign with rfl | rfl
      · rw [hs, List.nil_append, unsigned_of_isDigit hdigit]
      · exact (congrArg unsigned hs).trans (unsigned_plus _)
    rw [hunsigned, Written.naturalOf_zeros, Written.naturalOf_toDigits, List.all_eq_true.2 hdigit, if_neg,
      if_pos hlimit]
    simp [Nat.toDigits_ne_nil]

/-- A text that stands for a number of at most `limit`. -/
def SaysNumber (limit : Nat) (s : String) (n : Nat) : Prop := n ≤ limit ∧ ∃ core, Numeral n core ∧ Text.Padded core s

theorem parseNat_trim_eq_some_iff {limit n : Nat} {s : String} :
    parseNat limit (Text.trim s) = some n ↔ SaysNumber limit s n := by
  rw [parseNat_eq_some_iff]
  refine and_congr_right fun _ => ⟨fun h => ⟨_, h, Text.padded_trim s⟩, ?_⟩
  rintro ⟨core, hcore, hs⟩
  rwa [Text.trim_eq_of_padded hs hcore.isBlank_eq_false, String.toList_ofList]

end Config
end BackOffice
