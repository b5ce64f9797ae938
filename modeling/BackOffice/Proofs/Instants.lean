import BackOffice.Calendar.Timestamp
import BackOffice.Proofs.Tokens
/-!
# Instants read back

The date of a day is a valid one and has that day again (`Date.toDays_ofDays`), for any day whatever.  So the text of
a timestamp that has been read is read as the same timestamp (`Timestamp.parse_text`), in any year that timestamps have.
-/
namespace BackOffice

namespace Calendar

/-! ## Days of an era -/

/-- An era is four centuries, a century twenty-five times four years, and the last year of four, or of four centuries,
has a day more.  The day `d` is the day `r` of a year. -/
structure InEra (d a b c r : Int) : Prop where
  centuries : 0 ≤ a ∧ a ≤ 3
  fours     : 0 ≤ b ∧ b ≤ 24
  years     : 0 ≤ c ∧ c ≤ 3
  days      : 0 ≤ r ∧ r ≤ 365
  leap      : r = 365 → c = 3 ∧ (b < 24 ∨ a = 3)
  eq        : d = 36524 * a + 1461 * b + 365 * c + r

theorem exists_inEra {d : Int} (h0 : 0 ≤ d) (h1 : d < 146097) : ∃ a b c r, InEra d a b c r := by
  by_cases hlast : d = 146096
  · exact ⟨3, 24, 3, 365, by constructor <;> omega⟩
  · refine ⟨d / 36524, d % 36524 / 1461, min (d % 36524 % 1461 / 365) 3,
      d % 36524 % 1461 - 365 * min (d % 36524 % 1461 / 365) 3, ?_⟩
    constructor <;> omega

namespace InEra

variable {d a b c r : Int}

theorem year_eq (h : InEra d a b c r) : (d - d / 1460 + d / 36524 - d / 146096) / 365 = 100 * a + 4 * b + c := by
  obtain ⟨ha, hb, hc, hr, hleap, hd⟩ := h
  have hcentury : d / 36524 - d / 146096 = a := by
    by_cases hlast : d = 146096
    · omega
    · have hfirst : d / 36524 = a := by omega
      have hzero : d / 146096 = 0 := by omega
      omega
  -- the days since the last leap day decide whether one more group of 1460 days is full
  have hfull : d / 1460 = 25 * a + b ∧ 24 * a + b + 365 * c + r < 1460 ∨
      d / 1460 = 25 * a + b + 1 ∧ 1460 ≤ 24 * a + b + 365 * c + r := by omega
  generalize d / 36524 = x at *
  generalize d / 146096 = y at *
  generalize d / 1460 = z at *
  rcases hfull with h | h <;> omega

theorem dayOfYear_eq (h : InEra d a b c r) :
    365 * (100 * a + 4 * b + c) + (100 * a + 4 * b + c) / 4 - (100 * a + 4 * b + c) / 100 = d - r := by
  obtain ⟨ha, hb, hc, -, -, hd⟩ := h
  omega

end InEra

/-! ## Dates -/

namespace Date

/-- The date that is the day `r` of the year `y`, as years go from March to February. -/
def inYear (y r : Int) : Date :=
  let month := (5 * r + 2) / 153
  let m := if month < 10 then month + 3 else month - 9
  ⟨if m ≤ 2 then y + 1 else y, m.toNat, (r - (153 * month + 2) / 5 + 1).toNat⟩

theorem ofDays_eq {n era d a b c r : Int} (hn : n + epochShift = 146097 * era + d) (hera : 0 ≤ d ∧ d < 146097)
    (h : InEra d a b c r) : ofDays n = inYear (100 * a + 4 * b + c + era * 400) r := by
  have hquotient : (n + epochShift) / 146097 = era := by omega
  have hremainder : (n + epochShift) % 146097 = d := by omega
  unfold ofDays inYear
  simp only [hquotient, hremainder, h.year_eq, h.dayOfYear_eq, Int.sub_sub_self]

theorem toDays_inYear {era d a b c r : Int} (h : InEra d a b c r) :
    (inYear (100 * a + 4 * b + c + era * 400) r).toDays = 146097 * era + d - epochShift := by
  obtain ⟨ha, hb, hc, hr, -, rfl⟩ := h
  have hmonth : 0 ≤ (5 * r + 2) / 153 ∧ (5 * r + 2) / 153 ≤ 11 := by omega
  have hday : 0 ≤ r - (153 * ((5 * r + 2) / 153) + 2) / 5 := by omega
  have hera : (100 * a + 4 * b + c + era * 400) / 400 = era := by omega
  have hyear : (100 * a + 4 * b + c + era * 400) % 400 = 100 * a + 4 * b + c := by omega
  have hleaps : (100 * a + 4 * b + c) / 4 = 25 * a + b ∧ (100 * a + 4 * b + c) / 100 = a := by omega
  unfold inYear toDays
  generalize (5 * r + 2) / 153 = p at *
  by_cases hlate : p < 10
  · have hlow : ¬ p + 3 ≤ 2 := by omega
    have hback : ((p + 3).toNat + 9 : Int) % 12 = p := by omega
    simp only [hlate, if_true, hlow, if_false, show ¬ (p + 3).toNat ≤ 2 by omega, hera, hyear, hleaps, hback]
    omega
  · have hlow : p - 9 ≤ 2 := by omega
    have hback : ((p - 9).toNat + 9 : Int) % 12 = p := by omega
    simp only [hlate, if_false, hlow, if_true, show (p - 9).toNat ≤ 2 by omega, Int.add_sub_cancel, hera, hyear, hleaps,
      hback]
    omega

/-- The year after the last of four, or of four centuries, is a leap year. -/
theorem isLeapYear_of_last {era a b c : Int} (hb : 0 ≤ b ∧ b ≤ 24)
    (h : c = 3 ∧ (b < 24 ∨ a = 3)) : isLeapYear (100 * a + 4 * b + c + era * 400 + 1) = true := by
  simp only [isLeapYear, Bool.or_eq_true, Bool.and_eq_true, beq_iff_eq, bne_iff_ne]
  omega

theorem isValid_inYear {era d a b c r : Int} (h : InEra d a b c r) :
    (inYear (100 * a + 4 * b + c + era * 400) r).isValid = true := by
  obtain ⟨ha, hb, hc, hr, hleap, -⟩ := h
  have hmonth : 153 * ((5 * r + 2) / 153) ≤ 5 * r + 2 ∧ 5 * r + 2 < 153 * ((5 * r + 2) / 153) + 153 := by omega
  unfold inYear isValid daysInMonth
  generalize (5 * r + 2) / 153 = p at *
  simp only [Bool.and_eq_true, decide_eq_true_eq]
  by_cases hlate : p < 10
  · have hfebruary : ¬ (p + 3).toNat = 2 := by omega
    simp only [hlate, if_true, hfebruary, if_false]
    split <;> omega
  · by_cases hlast : p = 11
    · subst hlast
      simp only [show ¬ ((11 : Int) < 10) by decide, if_false, show ((11 : Int) - 9).toNat = 2 by decide, if_true,
        show (11 : Int) - 9 ≤ 2 by decide]
      by_cases hday : r = 365
      · rw [isLeapYear_of_last hb (hleap hday), if_pos rfl]
        omega
      · split <;> omega
    · have hten : p = 10 := by omega
      subst hten
      simp only [show ¬ ((10 : Int) < 10) by decide, if_false, show ((10 : Int) - 9).toNat = 1 by decide,
        show ¬ (1 : Nat) = 2 by decide, show ¬ ((1 : Nat) = 4 ∨ (1 : Nat) = 6 ∨ (1 : Nat) = 9 ∨ (1 : Nat) = 11) by decide]
      omega

/-- **Every day has a valid date**, and is the day of that date. -/
theorem toDays_ofDays (n : Int) : (ofDays n).isValid = true ∧ (ofDays n).toDays = n := by
  have hera : 0 ≤ (n + epochShift) % 146097 ∧ (n + epochShift) % 146097 < 146097 := by omega
  obtain ⟨a, b, c, r, h⟩ := exists_inEra hera.1 hera.2
  have hn : n + epochShift = 146097 * ((n + epochShift) / 146097) + (n + epochShift) % 146097 := by omega
  rw [ofDays_eq hn hera h]
  exact ⟨isValid_inYear h, by rw [toDays_inYear h]; omega⟩

end Date
end Calendar

namespace Timestamp

/-! ## Parts of a text -/

theorem trimStart_cons {c : Char} (hc : Text.isBlank c = false) (cs : List Char) : Text.trimStart (c :: cs) = c :: cs :=
  List.dropWhile_cons_of_neg (by simp [hc])

theorem isBlank_of_isDigit {c : Char} (h : isDigit c = true) : Text.isBlank c = false :=
  Bool.eq_false_iff.2 fun hblank => by
    rw [isDigit, Written.isDigit_of_isBlank hblank] at h
    cases h

theorem mark_cons {c : Char} (hc : Text.isBlank c = false) (cs : List Char) : mark c (c :: cs) = some cs := by
  unfold mark
  rw [trimStart_cons hc]
  exact if_pos rfl

/-- Digits that nothing goes on with, or as many as may be taken, are read as a number. -/
theorem number_append {most : Nat} {ds rest : List Char} (hdigits : ∀ c ∈ ds, isDigit c = true) (hne : ds ≠ [])
    (hle : ds.length ≤ most) (hrest : ds.length = most ∨ ∀ c ∈ rest.head?, isDigit c = false) :
    number most (ds ++ rest) = some (Written.naturalOf ds, rest) := by
  have hstop : (rest.take (most - ds.length)).takeWhile isDigit = [] := by
    rcases hrest with hfull | hother
    · rw [hfull, Nat.sub_self]; rfl
    · cases rest with
      | nil => rw [List.take_nil]; rfl
      | cons c rest =>
        cases most - ds.length with
        | zero => rfl
        | succ k => exact List.takeWhile_cons_of_neg (by rw [hother c rfl]; decide)
  have htake : ((ds ++ rest).take most).takeWhile isDigit = ds := by
    rw [List.take_append, List.take_of_length_le hle, List.takeWhile_append_of_pos hdigits, hstop, List.append_nil]
  unfold number
  simp only [htake, List.drop_left, List.isEmpty_iff, hne, if_false]

theorem isDigit_padded (width n : Nat) : ∀ c ∈ padded width n, isDigit c = true := fun c hc => by
  rcases List.mem_append.1 hc with hc | hc
  · rw [(List.mem_replicate.1 hc).2]; decide
  · exact Written.isDigit_toDigits n c hc

theorem padded_ne_nil (width n : Nat) : padded width n ≠ [] :=
  List.append_ne_nil_of_right_ne_nil _ Nat.toDigits_ne_nil

theorem naturalOf_padded (width n : Nat) : Written.naturalOf (padded width n) = n := by
  have hzeros : ∀ k : Nat, (List.replicate k '0').foldl (fun n c => n * 10 + Written.digitValue c) 0 = 0 := by
    intro k
    induction k with
    | zero => rfl
    | succ k ih => exact ih
  unfold padded Written.naturalOf
  rw [List.foldl_append, hzeros]
  exact Written.naturalOf_toDigits n

theorem length_padded {width n : Nat} (hwidth : 0 < width) (h : n < Nat.pow 10 width) :
    (padded width n).length = width := by
  have hle := (Nat.length_toDigits_le_iff (by decide) hwidth).2 h
  unfold padded
  rw [List.length_append, List.length_replicate]
  omega

theorem head_padded (width n : Nat) : ∃ c cs, padded width n = c :: cs ∧ isDigit c = true := by
  cases hpadded : padded width n with
  | nil => exact absurd hpadded (padded_ne_nil width n)
  | cons c cs => exact ⟨c, cs, rfl, isDigit_padded width n c (hpadded ▸ List.mem_cons_self)⟩

theorem trimStart_padded (width n : Nat) (rest : List Char) :
    Text.trimStart (padded width n ++ rest) = padded width n ++ rest := by
  obtain ⟨c, cs, hcs, hc⟩ := head_padded width n
  rw [hcs, List.cons_append, trimStart_cons (isBlank_of_isDigit hc)]

theorem twoDigits_padded {n : Nat} (h : n < 100) (rest : List Char) :
    twoDigits (padded 2 n ++ rest) = some (n, rest) := by
  have hlength : (padded 2 n).length = 2 := length_padded (by decide) h
  unfold twoDigits
  rw [trimStart_padded, number_append (isDigit_padded 2 n) (padded_ne_nil 2 n) (Nat.le_of_eq hlength) (.inl hlength),
    naturalOf_padded]

theorem yearNumber_yearText (y : Int) (rest : List Char) :
    yearNumber (yearText y ++ '-' :: rest) = some (y, '-' :: rest) := by
  have hstop : ∀ c ∈ ('-' :: rest).head?, isDigit c = false := fun c hc => by cases hc; decide
  have hsigned : ∀ n : Nat, number (padded 4 n ++ '-' :: rest).length (padded 4 n ++ '-' :: rest) =
      some (n, '-' :: rest) := fun n => by
    rw [number_append (isDigit_padded 4 n) (padded_ne_nil 4 n) (by rw [List.length_append]; omega) (.inr hstop),
      naturalOf_padded]
  unfold yearText
  split
  · rename_i hy
    have hlength : (padded 4 y.toNat).length = 4 := length_padded (by decide) (show y.toNat < 10000 by omega)
    have hnumber : number 4 (padded 4 y.toNat ++ '-' :: rest) = some (_, '-' :: rest) :=
      number_append (isDigit_padded 4 y.toNat) (padded_ne_nil 4 y.toNat) (Nat.le_of_eq hlength) (.inl hlength)
    obtain ⟨c, cs, hcs, hc⟩ := head_padded 4 y.toNat
    unfold yearNumber
    rw [trimStart_padded]
    rw [naturalOf_padded] at hnumber
    rw [hcs, List.cons_append] at hnumber ⊢
    split
    · rename_i he; rw [(List.cons.inj he).1] at hc; cases hc
    · rename_i he; rw [(List.cons.inj he).1] at hc; cases hc
    · rw [hnumber, Option.map_some, Int.toNat_of_nonneg hy.1]
  · split
    · unfold yearNumber
      rw [List.cons_append, trimStart_cons (by decide)]
      simp only [hsigned, Option.map_some, Option.some.injEq, Prod.mk.injEq, and_true]
      omega
    · unfold yearNumber
      rw [List.cons_append, trimStart_cons (by decide)]
      simp only [hsigned, Option.map_some, Option.some.injEq, Prod.mk.injEq, and_true]
      omega

theorem fraction_digits {ds : List Char} (hdigits : ∀ c ∈ ds, isDigit c = true) (hne : ds ≠ []) (hle : ds.length ≤ 9) :
    fraction ('.' :: (ds ++ ['Z'])) = some (Written.naturalOf ds * Nat.pow 10 (9 - ds.length), ['Z']) := by
  have hstop : (['Z'].take (9 - ds.length)).takeWhile isDigit = [] := by
    cases 9 - ds.length <;> rfl
  have htake : ((ds ++ ['Z']).take 9).takeWhile isDigit = ds := by
    rw [List.take_append, List.take_of_length_le hle, List.takeWhile_append_of_pos hdigits, hstop, List.append_nil]
  unfold fraction
  simp only [htake, List.drop_left, List.isEmpty_iff, hne, if_false]
  rfl

/-- The fraction that is written has as many digits as are needed. -/
theorem fraction_fractionText {nano : Nat} (h : nano < 1000000000) :
    fraction (fractionText nano ++ ['Z']) = some (nano, ['Z']) := by
  have hpadded : ∀ width n : Nat, 0 < width → width ≤ 9 → n < 10 ^ width →
      fraction ('.' :: padded width n ++ ['Z']) = some (n * Nat.pow 10 (9 - width), ['Z']) := fun width n hpos hle hn => by
    have hlength := length_padded hpos hn
    rw [List.cons_append, fraction_digits (isDigit_padded width n) (padded_ne_nil width n) (by omega), naturalOf_padded,
      hlength]
  unfold fractionText
  split
  · rename_i hzero; rw [hzero]; rfl
  · split
    · rw [hpadded 3 _ (by decide) (by decide) (by omega)]
      congr 2
      show nano / 1000000 * 1000000 = nano
      omega
    · split
      · rw [hpadded 6 _ (by decide) (by decide) (by omega)]
        congr 2
        show nano / 1000 * 1000 = nano
        omega
      · rw [hpadded 9 _ (by decide) (by decide) (by omega)]
        congr 2
        exact Nat.mul_one nano

theorem datePart_text {d : Calendar.Date} (hvalid : d.isValid = true) (hyear : yearInRange d.year = true)
    (rest : List Char) :
    datePart (yearText d.year ++ '-' :: (padded 2 d.month ++ '-' :: (padded 2 d.day ++ rest))) = some (d, rest) := by
  have hsmall : d.month < 100 ∧ d.day < 100 := by
    simp only [Calendar.Date.isValid, Bool.and_eq_true, decide_eq_true_eq] at hvalid
    have hdays : Calendar.daysInMonth d.year d.month ≤ 31 := by
      unfold Calendar.daysInMonth
      (repeat' split) <;> decide
    omega
  unfold datePart
  rw [yearNumber_yearText]
  simp only [Option.bind_eq_bind, Option.bind_some, mark_cons (show Text.isBlank '-' = false by decide),
    twoDigits_padded hsmall.1, twoDigits_padded hsmall.2, hvalid, hyear, Bool.and_self, if_true]

theorem timePart_text {hour minute second nano : Nat} (hhour : hour < 24) (hminute : minute < 60) (hsecond : second ≤ 60)
    (hnano : nano < 1000000000) :
    timePart (padded 2 hour ++ ':' :: (padded 2 minute ++ ':' :: (padded 2 second ++ (fractionText nano ++ ['Z'])))) =
      some ((hour * 3600 + minute * 60 + min second 59, (if second = 60 then 1000000000 else 0) + nano), ['Z']) := by
  unfold timePart
  rw [twoDigits_padded (by omega)]
  simp only [Option.bind_eq_bind, Option.bind_some, mark_cons (show Text.isBlank ':' = false by decide),
    twoDigits_padded (show minute < 100 by omega), twoDigits_padded (show second < 100 by omega),
    fraction_fractionText hnano, hhour, hminute, hsecond, and_self, if_true]

/-! ## The text of a timestamp -/

/-- A time within a day, with a full second of nanoseconds on top only at the end of a minute, on a day of a year that
timestamps have. -/
structure WellFormed (t : Timestamp) : Prop where
  second : t.second < 86400
  nano   : t.nano < 1000000000 ∨ 1000000000 ≤ t.nano ∧ t.nano < 2000000000 ∧ t.second % 60 = 59
  year   : yearInRange (Calendar.Date.ofDays t.day).year = true

/-- The offset is whole minutes, so a leap second stays at the end of one. -/
theorem offset_whole {cs r : List Char} {shift : Int} (h : offset cs = some (shift, r)) : shift % 60 = 0 := by
  have hseconds : ∀ {cs : List Char} {t : Nat × List Char}, offsetSeconds cs = some t → (t.1 : Int) % 60 = 0 := by
    intro cs t ht
    unfold offsetSeconds at ht
    (repeat' split at ht) <;> first | cases ht; done | (cases ht; omega)
  unfold offset at h
  split at h
  · cases h; rfl
  · split at h
    · cases h; rfl
    · cases h; rfl
    · obtain ⟨t, ht, he⟩ := Option.map_eq_some_iff.1 h
      cases he
      exact hseconds ht
    · obtain ⟨t, ht, he⟩ := Option.map_eq_some_iff.1 h
      cases he
      have := hseconds ht
      omega
    · obtain ⟨t, ht, he⟩ := Option.map_eq_some_iff.1 h
      cases he
      have := hseconds ht
      omega
    · cases h

theorem naturalOf_lt : ∀ {ds : List Char}, (∀ c ∈ ds, isDigit c = true) → ∀ n : Nat,
    ds.foldl (fun n c => n * 10 + Written.digitValue c) n < (n + 1) * Nat.pow 10 ds.length
  | [], _, n => by simp
  | c :: ds, h, n => by
    obtain ⟨hc, hds⟩ := List.forall_mem_cons.1 h
    have hdigit : Written.digitValue c ≤ 9 := by
      simp only [isDigit, Written.isDigit, Bool.and_eq_true, decide_eq_true_eq] at hc
      have hzero : '0'.toNat = 48 := rfl
      have hnine : '9'.toNat = 57 := rfl
      unfold Written.digitValue
      omega
    calc (c :: ds).foldl (fun n c => n * 10 + Written.digitValue c) n
        < (n * 10 + Written.digitValue c + 1) * Nat.pow 10 ds.length := naturalOf_lt hds _
      _ ≤ ((n + 1) * 10) * Nat.pow 10 ds.length := Nat.mul_le_mul_right _ (by omega)
      _ = (n + 1) * Nat.pow 10 (c :: ds).length := by rw [Nat.mul_assoc, Nat.mul_comm 10]; rfl

theorem fraction_lt {cs r : List Char} {nano : Nat} (h : fraction cs = some (nano, r)) : nano < 1000000000 := by
  unfold fraction at h
  split at h
  · rename_i cs
    simp only at h
    split at h
    · cases h
    · cases h
      have hdigits : ∀ c ∈ (cs.take 9).takeWhile isDigit, isDigit c = true := fun c hc =>
        List.all_eq_true.1 List.all_takeWhile c hc
      have hle : ((cs.take 9).takeWhile isDigit).length ≤ 9 :=
        Nat.le_trans (List.takeWhile_sublist _).length_le (by rw [List.length_take]; omega)
      generalize (cs.take 9).takeWhile isDigit = ds at *
      have hlt : Written.naturalOf ds < 10 ^ ds.length := by
        have := naturalOf_lt hdigits 0
        rwa [Nat.zero_add, Nat.one_mul] at this
      calc Written.naturalOf ds * 10 ^ (9 - ds.length)
          < 10 ^ ds.length * 10 ^ (9 - ds.length) := Nat.mul_lt_mul_of_pos_right hlt (Nat.pow_pos (by decide))
        _ = 1000000000 := by rw [← Nat.pow_add, Nat.add_sub_cancel' hle]
  · cases h; decide

theorem timePart_bounds {cs r : List Char} {second nano : Nat} (h : timePart cs = some ((second, nano), r)) :
    second < 86400 ∧ (nano < 1000000000 ∨ 1000000000 ≤ nano ∧ nano < 2000000000 ∧ second % 60 = 59) := by
  simp only [timePart, Option.bind_eq_bind, Option.bind_eq_some_iff] at h
  obtain ⟨⟨hour, r₁⟩, -, r₂, -, ⟨minute, r₃⟩, -, r₄, -, ⟨s, r₅⟩, -, ⟨f, r₆⟩, hfraction, h⟩ := h
  have hf := fraction_lt hfraction
  split at h
  · rename_i hin
    simp only at hin
    cases h
    split <;> omega
  · cases h

theorem wellFormed_of_parse {s : String} {t : Timestamp} (h : parse s = some t) : t.WellFormed := by
  simp only [parse, Option.bind_eq_bind, Option.bind_eq_some_iff] at h
  obtain ⟨⟨date, r⟩, hdate, h⟩ := h
  cases r with
  | nil => cases h
  | cons c r =>
    simp only at h
    split at h
    · simp only [Option.bind_some, Option.bind_eq_some_iff] at h
      obtain ⟨⟨⟨second, nano⟩, r₂⟩, htime, ⟨shift, r₃⟩, hshift, h⟩ := h
      obtain ⟨hsecond, hnano⟩ := timePart_bounds htime
      have hwhole := offset_whole hshift
      split at h
      · rename_i hin
        simp only [Bool.and_eq_true] at hin
        cases h
        refine ⟨?_, ?_, hin.2⟩
        · simp only
          omega
        · simp only
          omega
      · cases h
    · cases h

/-- **The text of a timestamp is read as that timestamp.** -/
theorem WellFormed.parse_text {t : Timestamp} (h : t.WellFormed) : parse t.text = some t := by
  obtain ⟨hsecond, hnano, hyear⟩ := h
  obtain ⟨hvalid, hdays⟩ := Calendar.Date.toDays_ofDays t.day
  have htext : t.text.toList = yearText (Calendar.Date.ofDays t.day).year ++
      '-' :: (padded 2 (Calendar.Date.ofDays t.day).month ++ '-' :: (padded 2 (Calendar.Date.ofDays t.day).day ++
      'T' :: (padded 2 (t.second / 3600) ++ ':' :: (padded 2 (t.second / 60 % 60) ++
      ':' :: (padded 2 (t.second % 60 + if 1000000000 ≤ t.nano then 1 else 0) ++
      (fractionText (if 1000000000 ≤ t.nano then t.nano - 1000000000 else t.nano) ++ ['Z'])))))) := by
    simp [text, List.append_assoc]
  have htime := @timePart_text (t.second / 3600) (t.second / 60 % 60)
    (t.second % 60 + if 1000000000 ≤ t.nano then 1 else 0)
    (if 1000000000 ≤ t.nano then t.nano - 1000000000 else t.nano) (by omega) (by omega) (by split <;> omega)
    (by split <;> omega)
  have hseconds : t.second / 3600 * 3600 + t.second / 60 % 60 * 60 +
      min (t.second % 60 + if 1000000000 ≤ t.nano then 1 else 0) 59 = t.second := by split <;> omega
  have hnanos : ((if (t.second % 60 + if 1000000000 ≤ t.nano then 1 else 0) = 60 then 1000000000 else 0) +
      if 1000000000 ≤ t.nano then t.nano - 1000000000 else t.nano) = t.nano := by
    split <;> split <;> omega
  rw [hseconds, hnanos] at htime
  have hday : t.day + (t.second - 0 : Int) / 86400 = t.day := by omega
  have hsame : ((t.second - 0 : Int) % 86400).toNat = t.second := by omega
  have hoffset : offset (Text.trimStart ['Z']) = some (0, []) := by decide +kernel
  unfold parse
  rw [htext, datePart_text hvalid hyear]
  simp only [Option.bind_eq_bind, Option.bind_some, htime, hoffset, hdays, hday, hsame, hyear]
  rfl

end Timestamp
end BackOffice
