import BackOffice.Proofs.Reading
/-!
# Texts told apart

Two values with one compact text are one value (`render_inj`), as far as doubles that are written alike are one double.
What a value is can be told from the first character of its text (`Json.kindOf_write`), a string ends at the first quote
that is not escaped and a number with the last character that can belong to one; so a text goes apart in one way, and
what follows a value in it is told as well (`write_inj`).
-/
namespace BackOffice

/-! ## The characters of a number -/

/-- The characters of which written numbers are made. -/
def isNumberChar (c : Char) : Bool := Written.isDigit c || c == '-' || c == '+' || c == '.' || c == 'e'

theorem isNumberChar_of_isDigit {c : Char} (h : Written.isDigit c = true) : isNumberChar c = true := by
  simp [isNumberChar, h]

namespace Decimal

theorem isNumberChar_toDigits (n : Nat) : ∀ c ∈ Nat.toDigits 10 n, isNumberChar c = true := fun c hc =>
  isNumberChar_of_isDigit (Written.isDigit_toDigits n c hc)

theorem isNumberChar_exponentText (e : Int) : ∀ c ∈ exponentText e, isNumberChar c = true := by
  unfold exponentText
  refine List.forall_mem_cons.2 ⟨by decide, List.forall_mem_cons.2 ⟨?_, isNumberChar_toDigits _⟩⟩
  split <;> decide

theorem isNumberChar_replicate (n : Nat) : ∀ c ∈ List.replicate n '0', isNumberChar c = true := fun c hc => by
  rw [(List.mem_replicate.1 hc).2]
  decide

theorem isNumberChar_layout (n : Positional) {digits : List Char} (p : Int)
    (h : ∀ c ∈ digits, isNumberChar c = true) : ∀ c ∈ layout n digits p, isNumberChar c = true := by
  have htake : ∀ k, ∀ c ∈ digits.take k, isNumberChar c = true := fun k c hc => h c (List.mem_of_mem_take hc)
  have hdrop : ∀ k, ∀ c ∈ digits.drop k, isNumberChar c = true := fun k c hc => h c (List.mem_of_mem_drop hc)
  have hpoint : isNumberChar '.' = true := by decide
  have hzero : isNumberChar '0' = true := by decide
  unfold layout
  simp only
  split
  · exact List.forall_mem_append.2 ⟨List.forall_mem_append.2 ⟨h, isNumberChar_replicate _⟩,
      List.forall_mem_cons.2 ⟨hpoint, List.forall_mem_singleton.2 hzero⟩⟩
  split
  · exact List.forall_mem_append.2 ⟨htake _, List.forall_mem_cons.2 ⟨hpoint, hdrop _⟩⟩
  split
  · exact List.forall_mem_cons.2 ⟨hzero, List.forall_mem_cons.2 ⟨hpoint,
      List.forall_mem_append.2 ⟨isNumberChar_replicate _, h⟩⟩⟩
  split
  · exact List.forall_mem_cons.2 ⟨h _ List.mem_cons_self, isNumberChar_exponentText _⟩
  · obtain ⟨hfirst, hrest⟩ := List.forall_mem_cons.1 h
    exact List.forall_mem_cons.2 ⟨hfirst, List.forall_mem_cons.2 ⟨hpoint,
      List.forall_mem_append.2 ⟨hrest, isNumberChar_exponentText _⟩⟩⟩
  · exact isNumberChar_exponentText _

/-- A double is written with a point or with an exponent. -/
theorem point_or_exponent_layout (n : Positional) (digits : List Char) (p : Int) :
    '.' ∈ layout n digits p ∨ 'e' ∈ layout n digits p := by
  unfold layout exponentText
  simp only
  split
  · simp
  split
  · simp
  split
  · simp
  split <;> simp

theorem Binary64.isNumberChar_text (x : Binary64) : ∀ c ∈ x.text, isNumberChar c = true := by
  have hminus : isNumberChar '-' = true := by decide
  have hlayout := fun n p => isNumberChar_layout Positional.wire p (isNumberChar_toDigits n)
  have hzero : ∀ c ∈ ['0', '.', '0'], isNumberChar c = true := by simp [isNumberChar, Written.isDigit]
  unfold text
  simp only
  split <;> split
  · exact List.forall_mem_cons.2 ⟨hminus, hzero⟩
  · exact List.forall_mem_cons.2 ⟨hminus, hlayout _ _⟩
  · exact hzero
  · exact hlayout _ _

theorem Binary64.point_or_exponent (x : Binary64) : '.' ∈ x.text ∨ 'e' ∈ x.text := by
  have hlayout := fun n p => point_or_exponent_layout Positional.wire (Nat.toDigits 10 n) p
  unfold text
  simp only
  split <;> split
  · decide
  · exact (hlayout _ _).imp (List.mem_cons_of_mem _) (List.mem_cons_of_mem _)
  · decide
  · exact hlayout _ _

end Decimal

namespace Json

theorem mem_integerText {n : Int} {c : Char} (h : c ∈ integerText n) : c = '-' ∨ Written.isDigit c = true := by
  unfold integerText at h
  split at h
  · exact (List.mem_cons.1 h).imp_right (Written.isDigit_toDigits _ c)
  · exact .inr (Written.isDigit_toDigits _ c h)

theorem isNumberChar_numberText (n : Number) : ∀ c ∈ numberText n, isNumberChar c = true := by
  cases n with
  | integer n =>
    intro c hc
    rcases mem_integerText hc with rfl | hdigit
    · decide
    · exact isNumberChar_of_isDigit hdigit
  | double x => exact x.isNumberChar_text

theorem numberText_ne_nil (n : Number) : numberText n ≠ [] := by
  cases n with
  | integer n =>
    show integerText n ≠ []
    unfold integerText
    split
    · exact List.cons_ne_nil _ _
    · exact Nat.toDigits_ne_nil
  | double x =>
    intro hnil
    have hchar := x.point_or_exponent
    rw [show x.text = [] from hnil] at hchar
    simp at hchar

theorem integerText_inj {m n : Int} (h : integerText m = integerText n) : m = n := by
  have hdigit : ∀ {k : Nat} {cs : List Char}, '-' :: cs ≠ Nat.toDigits 10 k := by
    intro k cs he
    exact absurd (Written.isDigit_toDigits k '-' (he ▸ List.mem_cons_self)) (by decide)
  have habs : ∀ {j k : Nat}, Nat.toDigits 10 j = Nat.toDigits 10 k → j = k := by
    intro j k he
    rw [← Written.naturalOf_toDigits j, he, Written.naturalOf_toDigits]
  unfold integerText at h
  split at h <;> split at h
  · have := habs (List.cons.inj h).2
    omega
  · exact absurd h hdigit
  · exact absurd h.symm hdigit
  · have := habs h
    omega

/-- **Numbers with one text are one number**, where this is so of doubles. -/
theorem numberText_inj {m n : Number} (hdouble : ∀ x y, m = .double x → n = .double y → x.text = y.text → x = y)
    (h : numberText m = numberText n) : m = n := by
  have hapart : ∀ (k : Int) (x : Decimal.Binary64), integerText k ≠ x.text := by
    intro k x he
    rcases x.point_or_exponent with hc | hc <;>
      exact absurd (mem_integerText (he ▸ hc)) (by decide)
  cases m with
  | integer k =>
    cases n with
    | integer k' => exact congrArg Number.integer (integerText_inj h)
    | double y => exact absurd h (hapart k y)
  | double x =>
    cases n with
    | integer k' => exact absurd h.symm (hapart k' x)
    | double y => exact congrArg Number.double (hdouble x y rfl rfl h)

/-! ## What a text begins with -/

inductive Kind where
  | null
  | bool
  | number
  | string
  | array
  | object
deriving DecidableEq

def kind : Json → Kind
  | .null     => .null
  | .bool _   => .bool
  | .number _ => .number
  | .string _ => .string
  | .array _  => .array
  | .object _ => .object

/-- The kind of value whose text begins with the character, if any does. -/
def kindOf : Char → Option Kind
  | 'n' => some .null
  | 't' => some .bool
  | 'f' => some .bool
  | '"' => some .string
  | '[' => some .array
  | '\x7b' => some .object
  | c   => if isNumberChar c then some .number else none

theorem kindOf_of_isNumberChar {c : Char} (h : isNumberChar c = true) : kindOf c = some .number := by
  unfold kindOf
  split
  case h_7 => exact if_pos h
  all_goals exact absurd h (by decide)

/-- **The first character of a text tells what kind of value it is.** -/
theorem kindOf_write (j : Json) (rest : List Char) : ∃ c cs, write j rest = c :: cs ∧ kindOf c = some j.kind := by
  cases j with
  | null => exact ⟨_, _, rfl, rfl⟩
  | bool b => cases b <;> exact ⟨_, _, rfl, rfl⟩
  | number n =>
    obtain ⟨c, cs, htext⟩ := List.exists_cons_of_ne_nil (numberText_ne_nil n)
    refine ⟨c, cs ++ rest, ?_, kindOf_of_isNumberChar (isNumberChar_numberText n c (htext ▸ List.mem_cons_self))⟩
    rw [write, htext, List.cons_append]
  | string s => exact ⟨_, _, rfl, rfl⟩
  | array vs => cases vs <;> exact ⟨_, _, rfl, rfl⟩
  | object ms => cases ms <;> exact ⟨_, _, rfl, rfl⟩

theorem kind_eq_of_write_eq {a b : Json} {rest rest' : List Char} (h : write a rest = write b rest') :
    a.kind = b.kind := by
  obtain ⟨c, cs, ha, hkind⟩ := kindOf_write a rest
  obtain ⟨d, ds, hb, hkind'⟩ := kindOf_write b rest'
  rw [ha, hb] at h
  cases h
  exact Option.some.inj (hkind.symm.trans hkind')

theorem write_ne_cons {c : Char} (hc : kindOf c = none) (j : Json) (rest cs : List Char) : write j rest ≠ c :: cs := by
  obtain ⟨d, ds, hwrite, hkind⟩ := kindOf_write j rest
  rw [hwrite]
  rintro he
  cases he
  rw [hc] at hkind
  cases hkind

/-! ## What a value is followed by -/

/-- What may follow a value in a text: nothing, or a character that belongs to no number. -/
def Closes (rest : List Char) : Prop := ∀ c ∈ rest.head?, isNumberChar c = false

theorem closes_nil : Closes [] := fun _ h => by cases h

theorem closes_writeItems (vs : List Json) (rest : List Char) : Closes (writeItems vs rest) := by
  intro c hc
  cases vs <;> cases hc <;> decide

theorem closes_writeMembers (ms : List (String × Json)) (rest : List Char) : Closes (writeMembers ms rest) := by
  intro c hc
  cases ms <;> cases hc <;> decide

theorem append_inj_of_closes {cs ds rest rest' : List Char} (hcs : ∀ c ∈ cs, isNumberChar c = true)
    (hds : ∀ c ∈ ds, isNumberChar c = true) (hrest : Closes rest) (hrest' : Closes rest')
    (h : cs ++ rest = ds ++ rest') : cs = ds ∧ rest = rest' := by
  have hcut : ∀ {cs rest : List Char}, (∀ c ∈ cs, isNumberChar c = true) → Closes rest →
      (cs ++ rest).takeWhile isNumberChar = cs := by
    intro cs rest hcs hrest
    rw [List.takeWhile_append_of_pos hcs]
    cases rest with
    | nil => simp
    | cons c rest => rw [List.takeWhile_cons_of_neg (by simp [hrest c rfl]), List.append_nil]
  have hsame : cs = ds := by rw [← hcut hcs hrest, h, hcut hds hrest']
  subst hsame
  exact ⟨rfl, List.append_cancel_left h⟩

theorem writeString_inj {s t : String} {rest rest' : List Char} (h : writeString s rest = writeString t rest') :
    s = t ∧ rest = rest' := by
  have hread := congrArg Written.stringToken (List.cons.inj h).2
  rw [Written.stringToken_writeChars, Written.stringToken_writeChars] at hread
  cases hread
  exact ⟨rfl, rfl⟩

/-! ## Values -/

/-- Doubles of the two lists that are written alike are one double. -/
def DoublesApart (ms ns : List Number) : Prop :=
  ∀ x y, .double x ∈ ms → .double y ∈ ns → x.text = y.text → x = y

theorem DoublesApart.mono {ms ms' ns ns' : List Number} (h : DoublesApart ms' ns') (hm : ms ⊆ ms') (hn : ns ⊆ ns') :
    DoublesApart ms ns := fun x y hx hy => h x y (hm hx) (hn hy)

open Written (ofJson ofItems ofMembers itemNumbers memberNumbers)

theorem DoublesApart.of_append {ms ms' ns ns' : List Number} (h : DoublesApart (ms ++ ms') (ns ++ ns')) :
    DoublesApart ms ns ∧ DoublesApart ms' ns' :=
  ⟨h.mono (List.subset_append_left _ _) (List.subset_append_left _ _),
    h.mono (List.subset_append_right _ _) (List.subset_append_right _ _)⟩

mutual
/-- **A text goes apart in one way**: into a value and what follows it. -/
theorem write_inj : ∀ (a b : Json) {rest rest' : List Char}, DoublesApart (ofJson a).numbers (ofJson b).numbers →
    Closes rest → Closes rest' → write a rest = write b rest' → a = b ∧ rest = rest'
  | .null, b, rest, rest', _, _, _, h => by
    have hkind := kind_eq_of_write_eq h
    cases b with
    | null => simpa [write] using h
    | _ => cases hkind
  | .bool v, b, rest, rest', _, _, _, h => by
    have hkind := kind_eq_of_write_eq h
    cases b with
    | bool w => cases v <;> cases w <;> simp_all [write]
    | _ => cases hkind
  | .number m, b, rest, rest', hdouble, hrest, hrest', h => by
    have hkind := kind_eq_of_write_eq h
    cases b with
    | number n =>
      obtain ⟨htext, hfollows⟩ :=
        append_inj_of_closes (isNumberChar_numberText m) (isNumberChar_numberText n) hrest hrest' h
      refine ⟨congrArg Json.number (numberText_inj ?_ htext), hfollows⟩
      rintro x y rfl rfl
      exact hdouble x y List.mem_cons_self List.mem_cons_self
    | _ => cases hkind
  | .string s, b, rest, rest', _, _, _, h => by
    have hkind := kind_eq_of_write_eq h
    cases b with
    | string t =>
      obtain ⟨hs, hfollows⟩ := writeString_inj h
      exact ⟨congrArg Json.string hs, hfollows⟩
    | _ => cases hkind
  | .array vs, b, rest, rest', hdouble, hrest, hrest', h => by
    have hkind := kind_eq_of_write_eq h
    cases b with
    | array ws =>
      cases vs with
      | nil =>
        cases ws with
        | nil => exact ⟨rfl, (List.cons.inj (List.cons.inj h).2).2⟩
        | cons w ws => exact absurd (List.cons.inj h).2.symm (write_ne_cons (by decide) w _ _)
      | cons v vs =>
        cases ws with
        | nil => exact absurd (List.cons.inj h).2 (write_ne_cons (by decide) v _ _)
        | cons w ws =>
          -- the first item is written as the others are, but for what stands before it
          have hitems : writeItems (v :: vs) rest = writeItems (w :: ws) rest' :=
            congrArg (',' :: ·) (List.cons.inj h).2
          obtain ⟨hsame, hfollows⟩ := writeItems_inj (v :: vs) (w :: ws) hdouble hrest hrest' hitems
          exact ⟨congrArg Json.array hsame, hfollows⟩
    | _ => cases hkind
  | .object ms, b, rest, rest', hdouble, hrest, hrest', h => by
    have hkind := kind_eq_of_write_eq h
    cases b with
    | object ns =>
      cases ms with
      | nil =>
        cases ns with
        | nil => exact ⟨rfl, (List.cons.inj (List.cons.inj h).2).2⟩
        | cons n ns => exact absurd (List.cons.inj (List.cons.inj h).2).1 (by decide)
      | cons m ms =>
        cases ns with
        | nil => exact absurd (List.cons.inj (List.cons.inj h).2).1 (by decide)
        | cons n ns =>
          have hmembers : writeMembers (m :: ms) rest = writeMembers (n :: ns) rest' :=
            congrArg (',' :: ·) (List.cons.inj h).2
          obtain ⟨hsame, hfollows⟩ := writeMembers_inj (m :: ms) (n :: ns) hdouble hrest hrest' hmembers
          exact ⟨congrArg Json.object hsame, hfollows⟩
    | _ => cases hkind

theorem writeItems_inj : ∀ (vs ws : List Json) {rest rest' : List Char},
    DoublesApart (itemNumbers (ofItems vs)) (itemNumbers (ofItems ws)) → Closes rest → Closes rest' →
    writeItems vs rest = writeItems ws rest' → vs = ws ∧ rest = rest'
  | [], [], _, _, _, _, _, h => ⟨rfl, (List.cons.inj h).2⟩
  | [], _ :: _, _, _, _, _, _, h => absurd (List.cons.inj h).1 (by decide)
  | _ :: _, [], _, _, _, _, _, h => absurd (List.cons.inj h).1 (by decide)
  | v :: vs, w :: ws, rest, rest', hdouble, hrest, hrest', h => by
    obtain ⟨hhead, htail⟩ := DoublesApart.of_append hdouble
    obtain ⟨rfl, hitems⟩ := write_inj v w hhead (closes_writeItems vs rest) (closes_writeItems ws rest')
      (List.cons.inj h).2
    obtain ⟨rfl, hfollows⟩ := writeItems_inj vs ws htail hrest hrest' hitems
    exact ⟨rfl, hfollows⟩

theorem writeMembers_inj : ∀ (ms ns : List (String × Json)) {rest rest' : List Char},
    DoublesApart (memberNumbers (ofMembers ms)) (memberNumbers (ofMembers ns)) → Closes rest → Closes rest' →
    writeMembers ms rest = writeMembers ns rest' → ms = ns ∧ rest = rest'
  | [], [], _, _, _, _, _, h => ⟨rfl, (List.cons.inj h).2⟩
  | [], _ :: _, _, _, _, _, _, h => absurd (List.cons.inj h).1 (by decide)
  | _ :: _, [], _, _, _, _, _, h => absurd (List.cons.inj h).1 (by decide)
  | (k, v) :: ms, (j, w) :: ns, rest, rest', hdouble, hrest, hrest', h => by
    obtain ⟨hhead, htail⟩ := DoublesApart.of_append hdouble
    obtain ⟨rfl, hvalue⟩ := writeString_inj (List.cons.inj h).2
    obtain ⟨rfl, hmembers⟩ := write_inj v w hhead (closes_writeMembers ms rest) (closes_writeMembers ns rest')
      (List.cons.inj hvalue).2
    obtain ⟨rfl, hfollows⟩ := writeMembers_inj ms ns htail hrest hrest' hmembers
    exact ⟨rfl, hfollows⟩
end

/-- **Values with one compact text are one value**, where doubles in them that are written alike are one double. -/
theorem render_inj {a b : Json} (hdouble : DoublesApart (ofJson a).numbers (ofJson b).numbers)
    (h : a.render = b.render) : a = b :=
  (write_inj a b hdouble closes_nil closes_nil (String.ofList_injective h)).1

end Json
end BackOffice
