import BackOffice.Json.Decoder
/-!
# Members of records

Of the members of a record with one name the last counts (`Json.member?_record`), and a decoder of fields refuses a
name of its own that comes twice.  So where both accept an object, they find the same under each name that the decoder
knows (`Decoder.lookup_knownMembers`).
-/
namespace BackOffice

namespace Table

variable {κ ν : Type} [DecidableEq κ]

theorem lookup_append (k : κ) (l m : List (κ × ν)) : lookup k (l ++ m) = (lookup k l).or (lookup k m) := by
  induction l with
  | nil => rfl
  | cons a l ih =>
    rw [List.cons_append, lookup, lookup, ih]
    split <;> rfl

theorem lookup_foldl_putSorted [Ord κ] [Std.LawfulEqOrd κ] (k : κ) : ∀ ms l : List (κ × ν),
    lookup k (ms.foldl (fun l m => putSorted m.1 m.2 l) l) = (lookup k ms.reverse).or (lookup k l)
  | [], l => rfl
  | m :: ms, l => by
    rw [List.foldl_cons, lookup_foldl_putSorted k ms, lookup_putSorted, List.reverse_cons, lookup_append, Option.or_assoc,
      lookup]
    split <;> rfl

end Table

/-- **Of the members of a record with one name the last counts.** -/
theorem Json.member?_record (k : String) (ms : List (String × Json)) :
    (record ms).member? k = Table.lookup k ms.reverse := by
  show Table.lookup k (ms.foldl _ []) = _
  rw [Table.lookup_foldl_putSorted]
  exact Option.or_none

namespace Written

theorem json_object {room : Nat} {w : Written} {ms : List (String × Json)} (h : w.json room = some (.object ms)) :
    ∃ inner ws given, room = inner + 1 ∧ w = .object ws ∧ jsonMembers inner ws = some given ∧
      Json.record given = .object ms := by
  cases w with
  | object ws =>
    cases room with
    | zero => simp [json] at h
    | succ inner =>
      simp only [json, Option.map_eq_some_iff] at h
      obtain ⟨given, hgiven, hms⟩ := h
      exact ⟨inner, ws, given, rfl, rfl, hgiven, hms⟩
  | array ws => cases room <;> simp [json] at h
  | _ => simp [json] at h

end Written

namespace Decoder

/-- A decoder of fields and the strict reading of an object find the same under a known name. -/
theorem lookup_knownMembers {names : List String} {room : Nat} {k : String} (hk : k ∈ names) :
    ∀ {ws : List (Option String × Written)} {given : List (String × Written)} {ms : List (String × Json)},
      knownMembers names ws = some given → Written.jsonMembers room ws = some ms →
      (Table.lookup k given).map (Written.json room) = (Table.lookup k ms.reverse).map some
  | [], _, _, hg, hm => by
    cases hg; cases hm; rfl
  | (none, w) :: ws, _, _, hg, _ => by cases hg
  | (some name, w) :: ws, given, ms, hg, hm => by
    unfold Written.jsonMembers at hm
    split at hm
    · rename_i name' j hname hj
      cases hname
      obtain ⟨rest, hrest, rfl⟩ := Option.map_eq_some_iff.1 hm
      unfold knownMembers at hg
      cases hgiven : knownMembers names ws with
      | none => rw [hgiven] at hg; cases hg
      | some before =>
        have ih := lookup_knownMembers hk hgiven hrest
        rw [hgiven] at hg
        simp only at hg
        rw [List.reverse_cons, Table.lookup_append, Option.map_or, ← ih]
        split at hg
        · rename_i hunknown
          cases hg
          have hne : name ≠ k := by
            rintro rfl
            simp [hk] at hunknown
          simp [Table.lookup, hne]
        · split at hg
          · cases hg
          · rename_i hfresh
            cases hg
            by_cases hname : name = k
            · subst hname
              rw [Option.not_isSome_iff_eq_none.1 hfresh]
              simp [Table.lookup, hj]
            · simp [Table.lookup, hname]
    · cases hm

end Decoder
end BackOffice
