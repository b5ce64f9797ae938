import BackOffice.Proofs.Tokens
/-!
# Texts read back

The text that is written for a value is read as that value (`read_render`), as far as its numbers read back.
-/
namespace BackOffice

/-! ## Numbers of a value -/

mutual
/-- The numbers that occur in a value, in order. -/
def Written.numbers : Written → List Number
  | .number (some n) => [n]
  | .array ws        => itemNumbers ws
  | .object ms       => memberNumbers ms
  | .number none     => []
  | .null            => []
  | .bool _          => []
  | .string _        => []

def Written.itemNumbers : List Written → List Number
  | []      => []
  | w :: ws => w.numbers ++ itemNumbers ws

def Written.memberNumbers : List (Option String × Written) → List Number
  | []           => []
  | (_, w) :: ms => w.numbers ++ memberNumbers ms
end

namespace Json

/-! ## Lengths -/

theorem length_lt_writeChars (rest : List Char) : ∀ cs : List Char, rest.length < (writeChars cs rest).length
  | [] => Nat.lt_succ_self _
  | c :: cs => by
    rw [writeChars, List.length_append]
    exact Nat.lt_of_lt_of_le (length_lt_writeChars rest cs) (Nat.le_add_left _ _)

theorem length_lt_writeString (s : String) (rest : List Char) : rest.length < (writeString s rest).length :=
  Nat.lt_succ_of_lt (length_lt_writeChars rest s.toList)

mutual
theorem length_le_write : ∀ (j : Json) (rest : List Char), rest.length ≤ (write j rest).length
  | .null, rest => by simp only [write, List.length_cons]; omega
  | .bool true, rest => by simp only [write, List.length_cons]; omega
  | .bool false, rest => by simp only [write, List.length_cons]; omega
  | .number n, rest => by simp [write]
  | .string s, rest => Nat.le_of_lt (length_lt_writeString s rest)
  | .array [], rest => by simp only [write, List.length_cons]; omega
  | .array (v :: vs), rest => by
    have hv := length_le_write v (writeItems vs rest)
    have hvs := length_lt_writeItems vs rest
    simp only [write, List.length_cons]
    omega
  | .object [], rest => by simp only [write, List.length_cons]; omega
  | .object ((k, v) :: ms), rest => by
    have hk := length_lt_writeString k (':' :: write v (writeMembers ms rest))
    have hv := length_le_write v (writeMembers ms rest)
    have hms := length_lt_writeMembers ms rest
    simp only [write, List.length_cons] at hk ⊢
    omega

theorem length_lt_writeItems : ∀ (vs : List Json) (rest : List Char), rest.length < (writeItems vs rest).length
  | [], rest => by simp [writeItems]
  | v :: vs, rest => by
    have hv := length_le_write v (writeItems vs rest)
    have hvs := length_lt_writeItems vs rest
    simp only [writeItems, List.length_cons]
    omega

theorem length_lt_writeMembers : ∀ (ms : List (String × Json)) (rest : List Char),
    rest.length < (writeMembers ms rest).length
  | [], rest => by simp [writeMembers]
  | (k, v) :: ms, rest => by
    have hk := length_lt_writeString k (':' :: write v (writeMembers ms rest))
    have hv := length_le_write v (writeMembers ms rest)
    have hms := length_lt_writeMembers ms rest
    simp only [writeMembers, List.length_cons] at hk ⊢
    omega
end

end Json

namespace Written

/-! ## First characters -/

theorem skipSpace_cons {c : Char} (hc : isSpace c = false) (cs : List Char) : skipSpace (c :: cs) = c :: cs :=
  List.dropWhile_cons_of_neg (by simp [hc])

/-- A text that does not begin as a value of another kind does is read as a number, if it is read at all. -/
theorem value_eq_number {cs : List Char}
    (h : ∀ c r, skipSpace cs = c :: r → c ∉ ['"', '[', '\x7b', 'n', 't', 'f']) (n : Nat) :
    value (n + 1) cs = (numberParts (skipSpace cs)).map (fun t => (.number t.1.number, t.2)) := by
  unfold value
  split
  case h_7 => rfl
  all_goals
    rename_i heq
    exact absurd (by decide) (h _ _ heq)

theorem head_of_numberParts {cs : List Char} {t : NumberParts × List Char} (h : numberParts cs = some t) :
    ∃ c r, cs = c :: r ∧ (c = '-' ∨ isDigit c = true) := by
  cases cs with
  | nil => cases h
  | cons c r =>
    refine ⟨c, r, rfl, ?_⟩
    by_cases hc : c = '-'
    · exact .inl hc
    · refine .inr (Bool.of_not_eq_false fun hdigit => ?_)
      rw [numberParts_plain hc] at h
      simp [unsignedParts, hdigit] at h

/-- The first character of a number begins nothing else. -/
theorem number_head {c : Char} (h : c = '-' ∨ isDigit c = true) :
    isSpace c = false ∧ c ∉ [']', '"', '[', '\x7b', 'n', 't', 'f'] := by
  rcases h with rfl | h
  · decide
  · refine ⟨Bool.eq_false_iff.2 fun hspace => ?_, fun hmem => ?_⟩
    · simp only [isSpace, Bool.or_eq_true, decide_eq_true_eq] at hspace
      rcases hspace with ((rfl | rfl) | rfl) | rfl <;> revert h <;> decide
    · simp only [List.mem_cons, List.not_mem_nil, or_false] at hmem
      rcases hmem with rfl | rfl | rfl | rfl | rfl | rfl | rfl <;> revert h <;> decide

end Written

namespace Number

theorem ReadsBack.numberParts {m : Number} (hm : m.ReadsBack) :
    ∃ p, Written.numberParts (Json.numberText m) = some (p, []) ∧ p.number = some m := by
  obtain ⟨⟨p, r⟩, hp, hpm⟩ := Option.map_eq_some_iff.1 hm
  obtain ⟨hnumber, hrest⟩ := Prod.mk.inj hpm
  cases hrest
  exact ⟨p, hp, hnumber⟩

theorem ReadsBack.head {m : Number} (hm : m.ReadsBack) :
    ∃ c r, Json.numberText m = c :: r ∧ Written.isSpace c = false ∧ c ∉ [']', '"', '[', '\x7b', 'n', 't', 'f'] := by
  obtain ⟨p, hp, -⟩ := hm.numberParts
  obtain ⟨c, r, hcr, hc⟩ := Written.head_of_numberParts hp
  exact ⟨c, r, hcr, Written.number_head hc⟩

/-- A number that reads back is split off whatever it stands before, unless that goes on with it. -/
theorem ReadsBack.value_eq {m : Number} (hm : m.ReadsBack) {rest : List Char} (hrest : Written.EndsNumber rest)
    (n : Nat) : Written.value (n + 1) (Json.numberText m ++ rest) = some (.number (some m), rest) := by
  obtain ⟨p, hp, hnumber⟩ := hm.numberParts
  obtain ⟨c, r, hcr, hspace, hother⟩ := hm.head
  have hskip : Written.skipSpace (Json.numberText m ++ rest) = Json.numberText m ++ rest := by
    rw [hcr, List.cons_append, Written.skipSpace_cons hspace]
  rw [Written.value_eq_number, hskip, Written.numberParts_append hrest hp]
  · simp only [Option.map_some, hnumber, List.nil_append]
  · intro c' r' he hmem
    rw [hskip, hcr] at he
    cases he
    exact hother (List.mem_cons_of_mem _ hmem)

end Number

namespace Written

open Json (write writeItems writeMembers writeString)

/-! ## Values -/

theorem head_write (j : Json) (hj : ∀ m ∈ (ofJson j).numbers, m.ReadsBack) (rest : List Char) :
    ∃ c cs, write j rest = c :: cs ∧ isSpace c = false ∧ c ≠ ']' := by
  cases j with
  | null => exact ⟨_, _, rfl, by decide, by decide⟩
  | bool b => cases b <;> exact ⟨_, _, rfl, by decide, by decide⟩
  | number m =>
    obtain ⟨c, r, hcr, hspace, hother⟩ := (hj m (by simp [ofJson, numbers])).head
    exact ⟨c, r ++ rest, by simp [write, hcr], hspace, fun he => hother (he ▸ List.mem_cons_self)⟩
  | string s => exact ⟨_, _, rfl, by decide, by decide⟩
  | array vs => cases vs <;> exact ⟨_, _, rfl, by decide, by decide⟩
  | object ms => cases ms <;> exact ⟨_, _, rfl, by decide, by decide⟩

theorem endsNumber_cons {c : Char} (hc : isDigit c = false ∧ c ≠ '.' ∧ c ≠ 'e' ∧ c ≠ 'E') (cs : List Char) :
    EndsNumber (c :: cs) := by
  intro d hd
  cases hd
  exact hc

theorem endsNumber_writeItems (vs : List Json) (rest : List Char) : EndsNumber (writeItems vs rest) := by
  cases vs <;> exact endsNumber_cons (by decide) _

theorem endsNumber_writeMembers (ms : List (String × Json)) (rest : List Char) : EndsNumber (writeMembers ms rest) := by
  cases ms <;> exact endsNumber_cons (by decide) _

/-- What the items come to once the first has been read. -/
def itemsAfter (n : Nat) (w : Written) (cs : List Char) : Option (List Written × List Char) :=
  match skipSpace cs with
  | ']' :: r => some ([w], r)
  | ',' :: r => (items n r).map (fun t => (w :: t.1, t.2))
  | _ => none

theorem items_eq {n : Nat} {cs r : List Char} {w : Written} (h : value n cs = some (w, r)) :
    items (n + 1) cs = itemsAfter n w r := by
  rw [items, h]
  rfl

/-- What the members come to once the first has been read. -/
def membersAfter (n : Nat) (k : String) (w : Written) (cs : List Char) :
    Option (List (Option String × Written) × List Char) :=
  match skipSpace cs with
  | '\x7d' :: r => some ([(some k, w)], r)
  | ',' :: r => (members n r).map (fun t => ((some k, w) :: t.1, t.2))
  | _ => none

theorem members_eq {n : Nat} {cs r : List Char} {w : Written} (k : String) (h : value n cs = some (w, r)) :
    members (n + 1) (writeString k (':' :: cs)) = membersAfter n k w r := by
  rw [writeString, members, skipSpace_cons (by decide)]
  simp only [stringToken_writeChars, skipSpace_cons (show isSpace ':' = false by decide), h]
  rfl

/-- An array whose first item begins as a value does is not empty. -/
theorem value_array {c : Char} (hspace : isSpace c = false) (hclose : c ≠ ']') (n : Nat) (cs : List Char) :
    value (n + 1) ('[' :: c :: cs) = (items n (c :: cs)).map (fun t => (.array t.1, t.2)) := by
  rw [value, skipSpace_cons (by decide)]
  simp only [skipSpace_cons hspace]
  split
  · rename_i he; exact absurd (List.cons.inj he).1 hclose
  · rfl

mutual
/-- **The text written for a value is read as that value**, whatever follows that does not go on with a number. -/
theorem value_write : ∀ (j : Json), (∀ m ∈ (ofJson j).numbers, m.ReadsBack) → ∀ (rest : List Char), EndsNumber rest →
    ∀ n, 2 * (write j rest).length < n + 2 + 2 * rest.length → value (n + 1) (write j rest) = some (ofJson j, rest)
  | .null, _, _, _, _, _ => rfl
  | .bool true, _, _, _, _, _ => rfl
  | .bool false, _, _, _, _, _ => rfl
  | .number m, hj, rest, hrest, n, _ => by
    rw [write]
    exact (hj m (by simp [ofJson, numbers])).value_eq hrest n
  | .string s, _, rest, _, n, _ => by
    show (stringToken (Json.writeChars s.toList rest)).map _ = _
    rw [stringToken_writeChars]
    rfl
  | .array [], _, _, _, _, _ => rfl
  | .array (v :: vs), hj, rest, _, n, hn => by
    obtain ⟨hv, hvs⟩ := List.forall_mem_append.1 hj
    have hlength := Json.length_le_write v (writeItems vs rest)
    have hitems := Json.length_lt_writeItems vs rest
    rw [write, List.length_cons] at hn
    obtain ⟨n, rfl⟩ : ∃ m, n = m + 2 := ⟨n - 2, by omega⟩
    obtain ⟨c, cs, hcs, hspace, hclose⟩ := head_write v hv (writeItems vs rest)
    have hfirst := value_write v hv _ (endsNumber_writeItems vs rest) n (by omega)
    rw [write, hcs, value_array hspace hclose, ← hcs, items_eq hfirst,
      itemsAfter_writeItems vs hvs rest (n + 1) (ofJson v) (by omega)]
    rfl
  | .object [], _, _, _, _, _ => rfl
  | .object ((k, v) :: ms), hj, rest, _, n, hn => by
    obtain ⟨hv, hms⟩ := List.forall_mem_append.1 hj
    have hname := Json.length_lt_writeString k (':' :: write v (writeMembers ms rest))
    have hlength := Json.length_le_write v (writeMembers ms rest)
    have hmembers := Json.length_lt_writeMembers ms rest
    rw [write, List.length_cons] at hn
    rw [List.length_cons] at hname
    obtain ⟨n, rfl⟩ : ∃ m, n = m + 2 := ⟨n - 2, by omega⟩
    have hfirst := value_write v hv _ (endsNumber_writeMembers ms rest) n (by omega)
    show (members (n + 2) (writeString k (':' :: write v (writeMembers ms rest)))).map _ = _
    rw [members_eq k hfirst, membersAfter_writeMembers ms hms rest (n + 1) k (ofJson v) (by omega)]
    rfl

theorem itemsAfter_writeItems : ∀ (vs : List Json), (∀ m ∈ itemNumbers (ofItems vs), m.ReadsBack) →
    ∀ (rest : List Char) (n : Nat) (w : Written), 2 * (writeItems vs rest).length < n + 2 + 2 * rest.length →
      itemsAfter n w (writeItems vs rest) = some (w :: ofItems vs, rest)
  | [], _, _, _, _, _ => rfl
  | v :: vs, hj, rest, n, w, hn => by
    obtain ⟨hv, hvs⟩ := List.forall_mem_append.1 hj
    have hlength := Json.length_le_write v (writeItems vs rest)
    have hitems := Json.length_lt_writeItems vs rest
    rw [writeItems, List.length_cons] at hn
    obtain ⟨n, rfl⟩ : ∃ m, n = m + 2 := ⟨n - 2, by omega⟩
    have hfirst := value_write v hv _ (endsNumber_writeItems vs rest) n (by omega)
    show (items (n + 2) (write v (writeItems vs rest))).map _ = _
    rw [items_eq hfirst, itemsAfter_writeItems vs hvs rest (n + 1) (ofJson v) (by omega)]
    rfl

theorem membersAfter_writeMembers : ∀ (ms : List (String × Json)),
    (∀ m ∈ memberNumbers (ofMembers ms), m.ReadsBack) → ∀ (rest : List Char) (n : Nat) (name : String) (w : Written),
      2 * (writeMembers ms rest).length < n + 2 + 2 * rest.length →
      membersAfter n name w (writeMembers ms rest) = some ((some name, w) :: ofMembers ms, rest)
  | [], _, _, _, _, _, _ => rfl
  | (k, v) :: ms, hj, rest, n, name, w, hn => by
    obtain ⟨hv, hms⟩ := List.forall_mem_append.1 hj
    have hname := Json.length_lt_writeString k (':' :: write v (writeMembers ms rest))
    have hlength := Json.length_le_write v (writeMembers ms rest)
    have hmembers := Json.length_lt_writeMembers ms rest
    rw [writeMembers, List.length_cons] at hn
    rw [List.length_cons] at hname
    obtain ⟨n, rfl⟩ : ∃ m, n = m + 2 := ⟨n - 2, by omega⟩
    have hfirst := value_write v hv _ (endsNumber_writeMembers ms rest) n (by omega)
    show (members (n + 2) (writeString k (':' :: write v (writeMembers ms rest)))).map _ = _
    rw [members_eq k hfirst, membersAfter_writeMembers ms hms rest (n + 1) k (ofJson v) (by omega)]
    rfl
end

/-- **A value is read back from its text.** -/
theorem read_render {j : Json} (hj : ∀ m ∈ (ofJson j).numbers, m.ReadsBack) :
    read (Json.render j) = some (ofJson j) := by
  have hvalue := value_write j hj [] (fun c hc => by cases hc) (2 * (Json.render j).length + 1) (by
    rw [Json.render, String.length_ofList]
    omega)
  unfold read
  rw [show (Json.render j).toList = write j [] from String.toList_ofList, hvalue]
  rfl

/-! ## Integers of a text -/

theorem takeWhole_le : ∀ (ds : List Char) (sig dropped : Nat) (full : Bool), sig ≤ significandLimit →
    (takeWhole ds sig dropped full).1 ≤ significandLimit
  | [], _, _, _, h => h
  | c :: ds, sig, dropped, full, h => by
    unfold takeWhole
    split
    · exact takeWhole_le ds sig (dropped + 1) true h
    · rename_i hfits
      simp only [Bool.or_eq_true, decide_eq_true_eq, not_or, Nat.not_lt] at hfits
      exact takeWhole_le ds _ dropped false hfits.2

theorem NumberParts.inRange {p : NumberParts} {m : Number} (h : p.number = some m) : m.InRange := by
  have hdouble : ∀ {sig : Nat} {e : Int},
      (Decimal.Magnitude.ofDecimal sig e).map (fun x => Number.double ⟨p.negative, x⟩) = some m → m.InRange := by
    intro sig e hm
    obtain ⟨x, -, rfl⟩ := Option.map_eq_some_iff.1 hm
    trivial
  have hbound := takeWhole_le p.whole 0 0 false (Nat.zero_le _)
  unfold number at h
  simp only at h
  split at h
  · split at h
    · cases h
      exact ⟨by omega, by exact_mod_cast hbound⟩
    · split at h
      · rename_i hlow
        cases h
        exact ⟨by omega, by omega⟩
      · exact hdouble h
  · exact hdouble h

/-- All integers in a value are such as a text can stand for. -/
def InRange (w : Written) : Prop := ∀ m ∈ w.numbers, m.InRange

/-- What is read with so many steps at hand has its integers in range. -/
structure ReadsInRange (n : Nat) : Prop where
  value   : ∀ {cs w r}, value n cs = some (w, r) → w.InRange
  items   : ∀ {cs ws r}, items n cs = some (ws, r) → ∀ m ∈ itemNumbers ws, m.InRange
  members : ∀ {cs ms r}, members n cs = some (ms, r) → ∀ m ∈ memberNumbers ms, m.InRange

namespace ReadsInRange

variable {n : Nat} {cs r : List Char}

theorem value_succ (hn : ReadsInRange n) {w : Written} (h : Written.value (n + 1) cs = some (w, r)) : w.InRange := by
  unfold Written.value at h
  split at h
  · obtain ⟨t, -, ht⟩ := Option.map_eq_some_iff.1 h
    cases ht; nofun
  · split at h
    · cases h; nofun
    · obtain ⟨t, ht, he⟩ := Option.map_eq_some_iff.1 h
      cases he
      exact hn.items ht
  · split at h
    · cases h; nofun
    · obtain ⟨t, ht, he⟩ := Option.map_eq_some_iff.1 h
      cases he
      exact hn.members ht
  · obtain ⟨t, -, ht⟩ := Option.map_eq_some_iff.1 h
    cases ht; nofun
  · obtain ⟨t, -, ht⟩ := Option.map_eq_some_iff.1 h
    cases ht; nofun
  · obtain ⟨t, -, ht⟩ := Option.map_eq_some_iff.1 h
    cases ht; nofun
  · -- anything else is a number, and only there is something to show
    obtain ⟨t, -, ht⟩ := Option.map_eq_some_iff.1 h
    cases ht
    intro m hm
    cases hnumber : t.1.number with
    | none => rw [hnumber] at hm; cases hm
    | some m' =>
      rw [hnumber] at hm
      cases List.mem_singleton.1 hm
      exact NumberParts.inRange hnumber

theorem items_succ (hn : ReadsInRange n) {ws : List Written} (h : Written.items (n + 1) cs = some (ws, r)) :
    ∀ m ∈ itemNumbers ws, m.InRange := by
  unfold Written.items at h
  split at h
  · cases h
  · rename_i v r₁ hv
    have hfirst := hn.value hv
    split at h
    · cases h
      exact List.forall_mem_append.2 ⟨hfirst, nofun⟩
    · obtain ⟨t, ht, he⟩ := Option.map_eq_some_iff.1 h
      cases he
      exact List.forall_mem_append.2 ⟨hfirst, hn.items ht⟩
    · cases h

theorem members_succ (hn : ReadsInRange n) {ms : List (Option String × Written)}
    (h : Written.members (n + 1) cs = some (ms, r)) : ∀ m ∈ memberNumbers ms, m.InRange := by
  unfold Written.members at h
  split at h
  · split at h
    · cases h
    · split at h
      · split at h
        · cases h
        · rename_i v r₃ hv
          have hfirst := hn.value hv
          split at h
          · cases h
            exact List.forall_mem_append.2 ⟨hfirst, nofun⟩
          · obtain ⟨t, ht, he⟩ := Option.map_eq_some_iff.1 h
            cases he
            exact List.forall_mem_append.2 ⟨hfirst, hn.members ht⟩
          · cases h
      · cases h
  · cases h

end ReadsInRange

theorem readsInRange : ∀ n : Nat, ReadsInRange n
  | 0 => by constructor <;> intro _ _ _ h <;> cases h
  | n + 1 => ⟨(readsInRange n).value_succ, (readsInRange n).items_succ, (readsInRange n).members_succ⟩

theorem inRange_of_read {s : String} {w : Written} (h : read s = some w) : w.InRange := by
  unfold read at h
  split at h
  · cases h
  · rename_i v r hv
    split at h
    · cases h
      exact (readsInRange _).value hv
    · cases h

end Written
end BackOffice
