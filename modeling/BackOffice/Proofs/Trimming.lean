import BackOffice.Text.Blank
import Mathlib.Data.List.DropRight
/-!
# What trimming leaves

Of a text cut at its end there remains the front that does not end with what is dropped, and there is only one
(`dropEndWhile_eq_iff`).  Trimming drops blanks at both ends, so a word without blanks is what is left of any text that
has it with nothing but blanks around it (`trim_eq_of_padded`).
-/
namespace BackOffice
namespace Text

section

variable {p : Char → Bool} {cs ds tail : List Char}

theorem getLast?_dropEndWhile {c : Char} (h : c ∈ (dropEndWhile p cs).getLast?) : p c = false := by
  obtain ⟨hne, rfl⟩ := List.mem_getLast?_eq_getLast h
  exact Bool.eq_false_iff.2 (List.rdropWhile_last_not p cs hne)

theorem dropEndWhile_of_last (h : ∀ c ∈ cs.getLast?, p c = false) : dropEndWhile p cs = cs :=
  List.rdropWhile_eq_self_iff.2 fun hne => Bool.eq_false_iff.1 (h _ (List.getLast?_eq_getLast_of_ne_nil hne))

theorem dropEndWhile_append_of_all (h : ∀ c ∈ tail, p c = true) : dropEndWhile p (cs ++ tail) = dropEndWhile p cs := by
  unfold dropEndWhile
  rw [List.reverse_append, List.dropWhile_append_of_pos fun c hc => h c (List.mem_reverse.1 hc)]

/-- **What is left of a text cut at its end** is the one front of it with such a tail behind it and not at its own
end. -/
theorem dropEndWhile_eq_iff : dropEndWhile p cs = ds ↔
    (∀ c ∈ ds.getLast?, p c = false) ∧ ∃ tail, cs = ds ++ tail ∧ ∀ c ∈ tail, p c = true := by
  constructor
  · rintro rfl
    exact ⟨fun c => getLast?_dropEndWhile, dropEndWhile_append p cs⟩
  · rintro ⟨hlast, tail, rfl, htail⟩
    rw [dropEndWhile_append_of_all htail, dropEndWhile_of_last hlast]

/-- Behind a character that stays, the cut does not see what stands before it. -/
theorem dropEndWhile_append_of_mem {c : Char} (hc : c ∈ tail) (hp : p c = false) :
    dropEndWhile p (cs ++ tail) = cs ++ dropEndWhile p tail := by
  have hne : dropEndWhile p tail ≠ [] := fun hnil => by
    have hall := List.rdropWhile_eq_nil_iff.1 hnil c hc
    rw [hp] at hall
    cases hall
  obtain ⟨rest, htail, hrest⟩ := dropEndWhile_append p tail
  refine dropEndWhile_eq_iff.2 ⟨fun d hd => ?_, rest, ?_, hrest⟩
  · rw [List.getLast?_append_of_ne_nil _ hne] at hd
    exact getLast?_dropEndWhile hd
  · rw [List.append_assoc, ← htail]

end

/-- The text is `core` with nothing but blanks around it. -/
def Padded (core : List Char) (s : String) : Prop :=
  ∃ front back, s.toList = front ++ (core ++ back) ∧ (∀ c ∈ front, isBlank c = true) ∧ ∀ c ∈ back, isBlank c = true

theorem padded_trim (s : String) : Padded (trim s).toList s := by
  obtain ⟨back, hback, hblank⟩ := dropEndWhile_append isBlank (trimStart s.toList)
  refine ⟨s.toList.takeWhile isBlank, back, ?_, fun c => List.mem_takeWhile_imp, hblank⟩
  rw [trim, String.toList_ofList, ← hback, trimStart, List.takeWhile_append_dropWhile]

theorem trim_eq_of_padded {core : List Char} {s : String} (h : Padded core s) (hcore : ∀ c ∈ core, isBlank c = false) :
    trim s = String.ofList core := by
  obtain ⟨front, back, hs, hfront, hback⟩ := h
  have hlast : dropEndWhile isBlank core = core :=
    dropEndWhile_of_last fun c hc => hcore c (List.mem_of_getLast? hc)
  rw [trim, trimStart, hs, List.dropWhile_append_of_pos hfront]
  cases core with
  | nil => rw [List.nil_append, List.dropWhile_eq_nil_iff.2 hback, dropEndWhile_nil]
  | cons c core =>
    rw [List.cons_append, List.dropWhile_cons_of_neg (by simp [hcore c List.mem_cons_self]), ← List.cons_append,
      dropEndWhile_append_of_all hback, hlast]

end Text
end BackOffice
