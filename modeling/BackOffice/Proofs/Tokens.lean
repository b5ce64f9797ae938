import BackOffice.Json.Printer
import BackOffice.Json.Written
import BackOffice.Text.Blank
/-!
# Tokens read back

What the printer writes for a string or a number is taken off the front of a text as one token, and the rest is what
was to follow (`stringToken_writeChars`, `numberParts_numberText`).  A string reads back whatever its characters are,
and an integer if it is one that a text can stand for (`Number.readsBack_integer`); of a double it has to be assumed,
for the digits after the sixteenth are not read exactly.
-/
namespace BackOffice

namespace Written

/-! ## Strings -/

theorem stringUnits_plain {c : Char} (hquote : c ≠ '"') (hslash : c ≠ '\\') (hlow : ¬ c.toNat < 32) (rest : List Char) :
    stringUnits (c :: rest) = (stringUnits rest).map (fun r => (.char c :: r.1, r.2)) := by
  rw [stringUnits]
  · exact if_neg hlow
  · exact hquote
  · rintro a b c' d rest' rfl; exact absurd rfl hslash
  · rintro e rest' rfl; exact absurd rfl hslash

theorem stringUnits_letter {e c : Char} (hu : e ≠ 'u') (he : escapeLetter e = some c) (rest : List Char) :
    stringUnits ('\\' :: e :: rest) = (stringUnits rest).map (fun r => (.char c :: r.1, r.2)) := by
  rw [stringUnits]
  · rw [he]
  · rintro a b c' d rest' rfl; exact absurd rfl hu

theorem stringUnits_bits {a b c d : Char} {n : Nat} (hn : Text.readHex [a, b, c, d] = some n) (rest : List Char) :
    stringUnits ('\\' :: 'u' :: a :: b :: c :: d :: rest) =
      (stringUnits rest).map (fun r => (.bits n :: r.1, r.2)) := by
  rw [stringUnits, hn]

theorem joinUnits_bits {n : Nat} (hhigh : isHighSurrogate n = false) (hlow : isLowSurrogate n = false)
    (us : List StringUnit) : joinUnits (.bits n :: us) = (joinUnits us).map (Char.ofNat n :: ·) := by
  conv => lhs; unfold joinUnits
  simp only [hhigh, hlow, Bool.false_eq_true, if_false]

/-- What is written for a character is one unit of a string, and stands for that character. -/
theorem stringUnits_escapeChar (c : Char) (rest : List Char) :
    ∃ u, stringUnits (Json.escapeChar c ++ rest) = (stringUnits rest).map (fun r => (u :: r.1, r.2)) ∧
      ∀ us, joinUnits (u :: us) = (joinUnits us).map (c :: ·) := by
  have letter : ∀ e, e ≠ 'u' → escapeLetter e = some c →
      ∃ u, stringUnits (['\\', e] ++ rest) = (stringUnits rest).map (fun r => (u :: r.1, r.2)) ∧
        ∀ us, joinUnits (u :: us) = (joinUnits us).map (c :: ·) := fun e hu he =>
    ⟨.char c, stringUnits_letter hu he rest, fun us => rfl⟩
  have hself : Char.ofNat c.toNat = c := Char.ofNat_toNat c
  unfold Json.escapeChar
  split
  · rename_i h; exact letter '"' (by decide) (by rw [h]; rfl)
  split
  · rename_i h; exact letter '\\' (by decide) (by rw [h]; rfl)
  split
  · rename_i h; exact letter 'n' (by decide) (by rw [h]; rfl)
  split
  · rename_i h; exact letter 'r' (by decide) (by rw [h]; rfl)
  split
  · rename_i h; exact letter 't' (by decide) (by rw [h]; rfl)
  split
  · rename_i h; exact letter 'b' (by decide) (by rw [← hself, h]; rfl)
  split
  · rename_i h; exact letter 'f' (by decide) (by rw [← hself, h]; rfl)
  split
  · rename_i h
    have hread : Text.readHex (Text.hexDigits 4 c.toNat) = some c.toNat :=
      Text.readHex_hexDigits 4 c.toNat (Nat.lt_of_lt_of_le h (by decide))
    refine ⟨.bits c.toNat, stringUnits_bits hread rest, fun us => ?_⟩
    have hhigh : isHighSurrogate c.toNat = false := by simp [isHighSurrogate]; omega
    have hlow : isLowSurrogate c.toNat = false := by simp [isLowSurrogate]; omega
    rw [joinUnits_bits hhigh hlow, hself]
  · rename_i hquote hslash _ _ _ _ _ hlow
    exact ⟨.char c, stringUnits_plain hquote hslash hlow rest, fun us => rfl⟩

theorem stringUnits_writeChars (rest : List Char) : ∀ cs : List Char,
    ∃ us, stringUnits (Json.writeChars cs rest) = some (us, rest) ∧ joinUnits us = some cs
  | [] => ⟨[], rfl, rfl⟩
  | c :: cs => by
    obtain ⟨us, hunits, hjoin⟩ := stringUnits_writeChars rest cs
    obtain ⟨u, hunit, hchar⟩ := stringUnits_escapeChar c (Json.writeChars cs rest)
    exact ⟨u :: us, by rw [Json.writeChars, hunit, hunits]; rfl, by rw [hchar, hjoin]; rfl⟩

/-- **A string reads back**, whatever its characters are and whatever follows it. -/
theorem stringToken_writeChars (s : String) (rest : List Char) :
    stringToken (Json.writeChars s.toList rest) = some (some s, rest) := by
  obtain ⟨us, hunits, hjoin⟩ := stringUnits_writeChars rest s.toList
  unfold stringToken
  rw [hunits]
  simp only [hjoin, Option.map_some, String.ofList_toList]

/-! ## Decimal digits -/

theorem isDigit_of_isDigit {c : Char} (h : c.isDigit = true) : isDigit c = true := by
  simpa [isDigit, Char.isDigit, UInt32.le_iff_toNat_le] using h

theorem isDigit_of_isBlank {c : Char} (h : Text.isBlank c = true) : isDigit c = false := by
  simp only [Text.isBlank, Text.blankRanges, List.any_cons, List.any_nil, Bool.or_eq_true, Bool.and_eq_true,
    decide_eq_true_eq, Bool.or_false] at h
  simp only [isDigit, Bool.and_eq_false_iff, decide_eq_false_iff_not]
  have hzero : '0'.toNat = 48 := rfl
  have hnine : '9'.toNat = 57 := rfl
  omega

/-- A text that does not go on with the number before it. -/
def EndsNumber (rest : List Char) : Prop :=
  ∀ c ∈ rest.head?, isDigit c = false ∧ c ≠ '.' ∧ c ≠ 'e' ∧ c ≠ 'E'

theorem takeWhile_append_of_endsNumber {rest : List Char} (h : EndsNumber rest) :
    ∀ cs : List Char, (cs ++ rest).takeWhile isDigit = cs.takeWhile isDigit ∧
      (cs ++ rest).dropWhile isDigit = cs.dropWhile isDigit ++ rest
  | [] => by
    cases rest with
    | nil => exact ⟨rfl, rfl⟩
    | cons c rest =>
      have hc := (h c rfl).1
      simp [hc]
  | c :: cs => by
    obtain ⟨htake, hdrop⟩ := takeWhile_append_of_endsNumber h cs
    by_cases hc : isDigit c = true
    · simp [hc, htake, hdrop]
    · simp [hc]

theorem fractionPart_append {rest cs r : List Char} {f : Option (List Char)} (h : EndsNumber rest)
    (hf : fractionPart cs = some (f, r)) : fractionPart (cs ++ rest) = some (f, r ++ rest) := by
  cases cs with
  | nil =>
    cases hf
    cases rest with
    | nil => rfl
    | cons c rest =>
      show fractionPart (c :: rest) = _
      rw [fractionPart]
      · rfl
      · exact fun cs he => (h c rfl).2.1 (List.cons.inj he).1
  | cons c cs =>
    by_cases hc : c = '.'
    · subst hc
      obtain ⟨htake, hdrop⟩ := takeWhile_append_of_endsNumber h cs
      simp only [List.cons_append, fractionPart, htake, hdrop] at hf ⊢
      split at hf
      · cases hf
      · rename_i hne
        rw [if_neg hne]
        cases hf; rfl
    · have hother : ∀ cs, fractionPart (c :: cs) = some (none, c :: cs) := fun cs => by
        rw [fractionPart]
        exact fun ds he => hc (List.cons.inj he).1
      rw [hother] at hf
      cases hf
      exact hother _

/-- The digits of an exponent after its sign. -/
def exponentDigits (negative : Bool) (cs : List Char) : Option (Option (Bool × List Char) × List Char) :=
  if (cs.takeWhile isDigit).isEmpty then none
  else some (some (negative, cs.takeWhile isDigit), cs.dropWhile isDigit)

theorem exponentDigits_append {negative : Bool} {rest cs r : List Char} {e : Option (Bool × List Char)}
    (h : EndsNumber rest) (he : exponentDigits negative cs = some (e, r)) :
    exponentDigits negative (cs ++ rest) = some (e, r ++ rest) := by
  obtain ⟨htake, hdrop⟩ := takeWhile_append_of_endsNumber h cs
  unfold exponentDigits at he ⊢
  rw [htake, hdrop]
  split at he
  · cases he
  · rename_i hne
    rw [if_neg hne]
    cases he; rfl

/-- Whether an exponent has a sign is seen at its first character. -/
theorem exponentPart_cons {c : Char} (hc : (c = 'e' || c = 'E') = true) (d : Char) (ds : List Char) :
    ∃ negative digits, ∀ tail, exponentPart (c :: d :: ds ++ tail) = exponentDigits negative (digits ++ tail) := by
  by_cases hminus : d = '-'
  · subst hminus
    exact ⟨true, ds, fun tail => by simp only [List.cons_append, exponentPart, hc, if_true]; rfl⟩
  · by_cases hplus : d = '+'
    · subst hplus
      exact ⟨false, ds, fun tail => by simp only [List.cons_append, exponentPart, hc, if_true]; rfl⟩
    · refine ⟨false, d :: ds, fun tail => ?_⟩
      simp only [List.cons_append, exponentPart, hc, if_true]
      split
      · rename_i he; exact absurd (List.cons.inj he).1 hminus
      · rename_i he; exact absurd (List.cons.inj he).1 hplus
      · rfl

theorem exponentPart_append {rest cs r : List Char} {e : Option (Bool × List Char)} (h : EndsNumber rest)
    (he : exponentPart cs = some (e, r)) : exponentPart (cs ++ rest) = some (e, r ++ rest) := by
  cases cs with
  | nil =>
    cases he
    cases rest with
    | nil => rfl
    | cons c rest =>
      have hc := h c rfl
      simp [exponentPart, hc]
  | cons c cs =>
    by_cases hc : (c = 'e' || c = 'E') = true
    · cases cs with
      | nil => simp [exponentPart, hc] at he
      | cons d ds =>
        obtain ⟨negative, digits, hshape⟩ := exponentPart_cons hc d ds
        have hplain := hshape []
        rw [List.append_nil, List.append_nil] at hplain
        rw [hshape]
        exact exponentDigits_append h (hplain ▸ he)
    · simp only [List.cons_append, exponentPart, hc, Bool.false_eq_true, if_false] at he ⊢
      cases he; rfl

/-- A number after its sign. -/
def unsignedParts (negative : Bool) (cs : List Char) : Option (NumberParts × List Char) :=
  let whole := cs.takeWhile isDigit
  if whole.isEmpty || (whole.head? == some '0' && decide (1 < whole.length)) then none
  else
    match fractionPart (cs.dropWhile isDigit) with
    | none         => none
    | some (f, r₁) =>
      match exponentPart r₁ with
      | none         => none
      | some (e, r₂) => some (⟨negative, whole, f, e⟩, r₂)

theorem unsignedParts_append {negative : Bool} {rest cs r : List Char} {p : NumberParts} (h : EndsNumber rest)
    (hp : unsignedParts negative cs = some (p, r)) : unsignedParts negative (cs ++ rest) = some (p, r ++ rest) := by
  obtain ⟨htake, hdrop⟩ := takeWhile_append_of_endsNumber h cs
  unfold unsignedParts at hp ⊢
  simp only [htake, hdrop] at hp ⊢
  split at hp
  · cases hp
  · rename_i hwhole
    rw [if_neg hwhole]
    split at hp
    · cases hp
    · rename_i f r₁ hf
      rw [fractionPart_append h hf]
      simp only
      split at hp
      · cases hp
      · rename_i e r₂ he
        rw [exponentPart_append h he]
        cases hp; rfl

theorem numberParts_minus (cs : List Char) : numberParts ('-' :: cs) = unsignedParts true cs := rfl

theorem numberParts_plain {c : Char} (hc : c ≠ '-') (cs : List Char) :
    numberParts (c :: cs) = unsignedParts false (c :: cs) := by
  unfold numberParts
  split
  · rename_i heq; exact absurd (List.cons.inj heq).1 hc
  · rfl

theorem numberParts_append {rest cs r : List Char} {p : NumberParts} (h : EndsNumber rest)
    (hp : numberParts cs = some (p, r)) : numberParts (cs ++ rest) = some (p, r ++ rest) := by
  cases cs with
  | nil => cases hp
  | cons c cs =>
    by_cases hc : c = '-'
    · subst hc
      rw [numberParts_minus] at hp
      rw [List.cons_append, numberParts_minus]
      exact unsignedParts_append h hp
    · rw [numberParts_plain hc] at hp
      rw [List.cons_append, numberParts_plain hc]
      exact unsignedParts_append h hp

/-! ## Integers -/

theorem naturalOf_toDigits (n : Nat) : naturalOf (Nat.toDigits 10 n) = n := by
  have h := Nat.ofDigitChars_ten_toDigits (n := n)
  rw [Nat.ofDigitChars_eq_foldl] at h
  unfold naturalOf digitValue
  simpa only [Nat.mul_comm] using h

theorem isDigit_toDigits (n : Nat) : ∀ c ∈ Nat.toDigits 10 n, isDigit c = true := fun c hc =>
  isDigit_of_isDigit (Nat.isDigit_of_mem_toDigits (by decide) (by decide) hc)

/-- Only zero begins with a zero. -/
theorem head?_toDigits {n : Nat} (hn : 0 < n) : (Nat.toDigits 10 n).head? ≠ some '0' := by
  induction n using Nat.strongRecOn with
  | ind n ih =>
    rw [Nat.toDigits_eq_if (by decide)]
    split
    · rename_i hsmall
      simp [Nat.digitChar_eq_zero, Nat.pos_iff_ne_zero.1 hn]
    · rename_i hlarge
      have hquotient : 0 < n / 10 := Nat.div_pos (by omega) (by decide)
      rw [List.head?_append, Option.or_of_isSome (List.isSome_head?.2 Nat.toDigits_ne_nil)]
      exact ih (n / 10) (by omega) hquotient

theorem takeWhile_of_all : ∀ {ds : List Char}, (∀ c ∈ ds, isDigit c = true) →
    ds.takeWhile isDigit = ds ∧ ds.dropWhile isDigit = []
  | [], _ => ⟨rfl, rfl⟩
  | c :: ds, h => by
    obtain ⟨hc, hds⟩ := List.forall_mem_cons.1 h
    obtain ⟨htake, hdrop⟩ := takeWhile_of_all hds
    exact ⟨by rw [List.takeWhile_cons_of_pos hc, htake], by rw [List.dropWhile_cons_of_pos hc, hdrop]⟩

theorem takeWhile_toDigits (n : Nat) : (Nat.toDigits 10 n).takeWhile isDigit = Nat.toDigits 10 n ∧
    (Nat.toDigits 10 n).dropWhile isDigit = [] :=
  takeWhile_of_all (isDigit_toDigits n)

theorem unsignedParts_toDigits (negative : Bool) (n : Nat) :
    unsignedParts negative (Nat.toDigits 10 n) = some (⟨negative, Nat.toDigits 10 n, none, none⟩, []) := by
  obtain ⟨htake, hdrop⟩ := takeWhile_toDigits n
  have hfront : ((Nat.toDigits 10 n).isEmpty ||
      ((Nat.toDigits 10 n).head? == some '0' && decide (1 < (Nat.toDigits 10 n).length))) = false := by
    rcases Nat.eq_zero_or_pos n with rfl | hn
    · rfl
    · simp [head?_toDigits hn, Nat.toDigits_ne_nil]
  unfold unsignedParts
  simp only [htake, hdrop, hfront]
  rfl

theorem takeWhole_of_le (ds : List Char) (sig dropped : Nat)
    (h : ds.foldl (fun n c => n * 10 + digitValue c) sig ≤ significandLimit) :
    takeWhole ds sig dropped false = (ds.foldl (fun n c => n * 10 + digitValue c) sig, dropped, false) := by
  induction ds generalizing sig with
  | nil => rfl
  | cons c ds ih =>
    have hgrows : ∀ (ds : List Char) (sig : Nat), sig ≤ ds.foldl (fun n c => n * 10 + digitValue c) sig := by
      intro ds
      induction ds with
      | nil => exact fun sig => Nat.le_refl _
      | cons c ds ih => exact fun sig => Nat.le_trans (show sig ≤ sig * 10 + digitValue c by omega) (ih _)
    have hfits : ¬ significandLimit < sig * 10 + digitValue c :=
      Nat.not_lt.2 (Nat.le_trans (hgrows ds _) h)
    rw [takeWhole, Bool.false_or, if_neg (by simpa using hfits)]
    exact ih _ h

theorem takeWhole_toDigits {n : Nat} (h : n ≤ significandLimit) :
    takeWhole (Nat.toDigits 10 n) 0 0 false = (n, 0, false) := by
  have hn : (Nat.toDigits 10 n).foldl (fun n c => n * 10 + digitValue c) 0 = n := naturalOf_toDigits n
  have hle := hn.symm ▸ h
  rw [takeWhole_of_le _ _ _ hle, hn]

theorem NumberParts.number_toDigits (negative : Bool) {n : Nat} (h : n ≤ significandLimit) :
    (⟨negative, Nat.toDigits 10 n, none, none⟩ : NumberParts).number =
      if (!negative) = true then some (.integer n)
      else if 0 < n ∧ n ≤ Nat.pow 2 63 then some (.integer (-(n : Int)))
      else (Decimal.Magnitude.ofDecimal n 0).map (fun m => .double ⟨negative, m⟩) := by
  unfold NumberParts.number
  simp only [takeWhole_toDigits h]
  rfl

theorem numberParts_toDigits (n : Nat) :
    numberParts (Nat.toDigits 10 n) = some (⟨false, Nat.toDigits 10 n, none, none⟩, []) := by
  rw [← unsignedParts_toDigits]
  cases hdigits : Nat.toDigits 10 n with
  | nil => exact absurd hdigits Nat.toDigits_ne_nil
  | cons c ds =>
    have hc : isDigit c = true := isDigit_toDigits n c (hdigits ▸ List.mem_cons_self)
    exact numberParts_plain (by rintro rfl; revert hc; decide) ds

end Written

/-! ## Numbers -/

/-- An integer that a text can stand for. -/
def Number.InRange : Number → Prop
  | .integer n => -(Nat.pow 2 63 : Int) ≤ n ∧ n ≤ Written.significandLimit
  | .double _  => True

/-- The text of the number is read as that number. -/
def Number.ReadsBack (n : Number) : Prop :=
  (Written.numberParts (Json.numberText n)).map (fun t => (t.1.number, t.2)) = some (some n, [])

instance (n : Number) : Decidable n.ReadsBack := inferInstanceAs (Decidable (_ = _))

/-- **An integer reads back.** -/
theorem Number.readsBack_integer {n : Int} (h : (Number.integer n).InRange) : (Number.integer n).ReadsBack := by
  obtain ⟨hlow, hhigh⟩ := h
  have hpow : Nat.pow 2 63 ≤ Written.significandLimit := by decide
  have hfits : n.natAbs ≤ Written.significandLimit := by omega
  show (Written.numberParts (Json.integerText n)).map _ = _
  unfold Json.integerText
  by_cases hneg : n < 0
  · have hvalue : 0 < n.natAbs ∧ n.natAbs ≤ Nat.pow 2 63 := by omega
    rw [if_pos hneg, Written.numberParts_minus, Written.unsignedParts_toDigits, Option.map_some,
      Written.NumberParts.number_toDigits true hfits, if_neg (by decide), if_pos hvalue,
      show -(n.natAbs : Int) = n by omega]
  · rw [if_neg hneg, Written.numberParts_toDigits, Option.map_some, Written.NumberParts.number_toDigits false hfits,
      if_pos (by decide), show (n.natAbs : Int) = n by omega]

end BackOffice
