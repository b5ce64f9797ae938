import BackOffice.Proofs.Members
import BackOffice.Proofs.Reading
/-!
# Decoders that read back

A value reads back if what is written for it is decoded as that value again (`Decoder.ReadsBack`).  Plain values do, and
lists, values that may be `null` and records of what reads back do as well, as long as no more levels are written than
the decoder is given.  For most types that is so whatever the value is (`Decoder.ReadsAll`); for the others it takes what
their decoder gives (`Decoder.Gives`).
-/
namespace BackOffice

/-! ## Records as written -/

theorem putSorted_of_last {κ ν : Type} [Ord κ] {k : κ} {v : ν} : ∀ {l : List (κ × ν)},
    (∀ e ∈ l, compare k e.1 = .gt) → putSorted k v l = l ++ [(k, v)]
  | [], _ => rfl
  | e :: l, h => by
    obtain ⟨he, hl⟩ := List.forall_mem_cons.1 h
    simp only [putSorted, he, List.cons_append, putSorted_of_last hl]

/-- Entries that are in order stay as they are. -/
theorem foldl_putSorted_of_increasing {κ ν : Type} [Ord κ] [Std.TransOrd κ] : ∀ {l acc : List (κ × ν)},
    KeysIncreasing (acc ++ l) → l.foldl (fun l m => putSorted m.1 m.2 l) acc = acc ++ l
  | [], acc, _ => (List.append_nil acc).symm
  | e :: l, acc, h => by
    have hlast : ∀ a ∈ acc, compare e.1 a.1 = .gt := fun a ha =>
      Std.OrientedCmp.gt_iff_lt.2 ((List.pairwise_append.1 h).2.2 a ha e List.mem_cons_self)
    rw [List.append_cons] at h
    rw [List.foldl_cons, putSorted_of_last hlast, foldl_putSorted_of_increasing h, List.append_assoc]
    rfl

theorem increasing_foldl_putSorted {κ ν : Type} [Ord κ] [Std.TransOrd κ] [Std.LawfulEqOrd κ] :
    ∀ (ms : List (κ × ν)) {l : List (κ × ν)}, KeysIncreasing l →
      KeysIncreasing (ms.foldl (fun l m => putSorted m.1 m.2 l) l)
  | [], _, h => h
  | m :: ms, _, h => increasing_foldl_putSorted ms (keysIncreasing_putSorted m.1 m.2 _ h)

theorem mem_foldl_putSorted {κ ν : Type} [Ord κ] {e : κ × ν} : ∀ (ms : List (κ × ν)) {l : List (κ × ν)},
    e ∈ ms.foldl (fun l m => putSorted m.1 m.2 l) l → e ∈ ms ∨ e ∈ l
  | [], _, h => .inr h
  | m :: ms, l, h => by
    rcases mem_foldl_putSorted ms h with h | h
    · exact .inl (List.mem_cons_of_mem m h)
    · exact (mem_putSorted m.1 m.2 e l h).imp (fun he => List.mem_cons.2 (.inl he)) id

namespace Json

/-- The members of a record are in order, and among those that were given. -/
theorem record_eq (ms : List (String × Json)) :
    ∃ sorted, record ms = .object sorted ∧ KeysIncreasing sorted ∧ ∀ m ∈ sorted, m ∈ ms :=
  ⟨_, rfl, increasing_foldl_putSorted ms List.Pairwise.nil, fun _ hm => (mem_foldl_putSorted ms hm).resolve_right nofun⟩

theorem record_of_increasing {ms : List (String × Json)} (h : KeysIncreasing ms) : record ms = .object ms :=
  congrArg Json.object (foldl_putSorted_of_increasing h)

end Json

namespace Written

theorem mem_itemNumbers {m : Number} : ∀ {vs : List Json}, m ∈ itemNumbers (ofItems vs) → ∃ v ∈ vs, m ∈ (ofJson v).numbers
  | [], h => by cases h
  | v :: vs, h => by
    rcases List.mem_append.1 h with h | h
    · exact ⟨v, List.mem_cons_self, h⟩
    · obtain ⟨v', hv', hm⟩ := mem_itemNumbers h
      exact ⟨v', List.mem_cons_of_mem v hv', hm⟩

theorem mem_memberNumbers {m : Number} : ∀ {ms : List (String × Json)}, m ∈ memberNumbers (ofMembers ms) →
    ∃ e ∈ ms, m ∈ (ofJson e.2).numbers
  | [], h => by cases h
  | e :: ms, h => by
    rcases List.mem_append.1 h with h | h
    · exact ⟨e, List.mem_cons_self, h⟩
    · obtain ⟨e', he', hm⟩ := mem_memberNumbers h
      exact ⟨e', List.mem_cons_of_mem e he', hm⟩

theorem inRange_array {vs : List Json} (h : ∀ v ∈ vs, (ofJson v).InRange) : (ofJson (.array vs)).InRange := fun m hm => by
  obtain ⟨v, hv, hm⟩ := mem_itemNumbers hm
  exact h v hv m hm

theorem inRange_record {ms : List (String × Json)} (h : ∀ e ∈ ms, (ofJson e.2).InRange) :
    (ofJson (Json.record ms)).InRange := fun m hm => by
  obtain ⟨sorted, hsorted, -, hsub⟩ := Json.record_eq ms
  rw [hsorted] at hm
  obtain ⟨e, he, hm⟩ := mem_memberNumbers hm
  exact h e (hsub e he) m hm

/-! ## Strict reading -/

theorem jsonItems_ofItems {room : Nat} : ∀ {vs : List Json}, (∀ v ∈ vs, (ofJson v).json room = some v) →
    jsonItems room (ofItems vs) = some vs
  | [], _ => rfl
  | v :: vs, h => by
    obtain ⟨hv, hvs⟩ := List.forall_mem_cons.1 h
    simp only [ofItems, jsonItems, hv, jsonItems_ofItems hvs, Option.map_some]

theorem jsonMembers_ofMembers {room : Nat} : ∀ {ms : List (String × Json)},
    (∀ m ∈ ms, (ofJson m.2).json room = some m.2) → jsonMembers room (ofMembers ms) = some ms
  | [], _ => rfl
  | m :: ms, h => by
    obtain ⟨hm, hms⟩ := List.forall_mem_cons.1 h
    simp only [ofMembers, jsonMembers, hm, jsonMembers_ofMembers hms, Option.map_some]

mutual
/-- **A value that has been read is read again from what is written for it**, within the same number of levels. -/
theorem json_again : ∀ (w : Written) {room : Nat} {j : Json}, w.json room = some j →
    (ofJson j).json room = some j ∧ (w.InRange → (ofJson j).InRange)
  | .null, _, _, h => by
    cases h; exact ⟨rfl, id⟩
  | .bool b, _, _, h => by
    cases h; exact ⟨rfl, id⟩
  | .number n, _, _, h => by
    obtain ⟨m, rfl, rfl⟩ := Option.map_eq_some_iff.1 h
    exact ⟨rfl, id⟩
  | .string s, _, _, h => by
    obtain ⟨s', rfl, rfl⟩ := Option.map_eq_some_iff.1 h
    exact ⟨rfl, id⟩
  | .array _, 0, _, h => by cases h
  | .array ws, room + 1, _, h => by
    obtain ⟨js, hjs, rfl⟩ := Option.map_eq_some_iff.1 h
    have hitems := jsonItems_again ws hjs
    refine ⟨?_, fun hin => inRange_array fun v hv => (hitems v hv).2 hin⟩
    rw [ofJson, json]
    simp only [jsonItems_ofItems fun v hv => (hitems v hv).1, Option.map_some]
  | .object _, 0, _, h => by cases h
  | .object ms, room + 1, _, h => by
    obtain ⟨js, hjs, rfl⟩ := Option.map_eq_some_iff.1 h
    have hmembers := jsonMembers_again ms hjs
    obtain ⟨sorted, hsorted, hincreasing, hsub⟩ := Json.record_eq js
    refine ⟨?_, fun hin => inRange_record fun e he => (hmembers e he).2 hin⟩
    rw [hsorted, ofJson, json]
    simp only [jsonMembers_ofMembers fun m hm => (hmembers m (hsub m hm)).1, Option.map_some,
      Json.record_of_increasing hincreasing]

theorem jsonItems_again : ∀ (ws : List Written) {room : Nat} {js : List Json}, jsonItems room ws = some js →
    ∀ j ∈ js, (ofJson j).json room = some j ∧ ((∀ m ∈ itemNumbers ws, m.InRange) → (ofJson j).InRange)
  | [], _, _, h => by
    cases h; nofun
  | w :: ws, room, js, h => by
    unfold jsonItems at h
    split at h
    · cases h
    · rename_i j hj
      obtain ⟨rest, hrest, rfl⟩ := Option.map_eq_some_iff.1 h
      have hfirst := json_again w hj
      have hlater := jsonItems_again ws hrest
      refine List.forall_mem_cons.2 ⟨⟨hfirst.1, fun hin => hfirst.2 (List.forall_mem_append.1 hin).1⟩, fun v hv => ?_⟩
      exact ⟨(hlater v hv).1, fun hin => (hlater v hv).2 (List.forall_mem_append.1 hin).2⟩

theorem jsonMembers_again : ∀ (ws : List (Option String × Written)) {room : Nat} {js : List (String × Json)},
    jsonMembers room ws = some js →
    ∀ e ∈ js, (ofJson e.2).json room = some e.2 ∧ ((∀ m ∈ memberNumbers ws, m.InRange) → (ofJson e.2).InRange)
  | [], _, _, h => by
    cases h; nofun
  | (k, w) :: ws, room, js, h => by
    unfold jsonMembers at h
    split at h
    · rename_i k j hj
      obtain ⟨rest, hrest, rfl⟩ := Option.map_eq_some_iff.1 h
      have hfirst := json_again w hj
      have hlater := jsonMembers_again ws hrest
      refine List.forall_mem_cons.2 ⟨⟨hfirst.1, fun hin => hfirst.2 (List.forall_mem_append.1 hin).1⟩, fun v hv => ?_⟩
      exact ⟨(hlater v hv).1, fun hin => (hlater v hv).2 (List.forall_mem_append.1 hin).2⟩
    · cases h
end

end Written
namespace Decoder

variable {α β : Type}

/-! ## What reads back -/

/-- What is written for a value is decoded as that value within so many levels, and its integers are ones that a text
can stand for. -/
structure ReadsBack (d : Decoder α) (f : α → Json) (room : Nat) (a : α) : Prop where
  again   : d room (.ofJson (f a)) = some a
  inRange : (Written.ofJson (f a)).InRange

/-- With at least so many levels, every value reads back. -/
def ReadsAll (d : Decoder α) (f : α → Json) (depth : Nat) : Prop := ∀ ⦃room : Nat⦄, depth ≤ room → ∀ a, d.ReadsBack f room a

/-- Of all that the decoder gives within so many levels this holds. -/
def Gives (d : Decoder α) (P : Nat → α → Prop) : Prop :=
  ∀ ⦃room : Nat⦄ ⦃w : Written⦄ ⦃a : α⦄, w.InRange → d room w = some a → P room a

theorem ReadsAll.mono {d : Decoder α} {f : α → Json} {depth depth' : Nat} (h : d.ReadsAll f depth)
    (hle : depth ≤ depth') : d.ReadsAll f depth' := fun _ hroom => h (Nat.le_trans hle hroom)

theorem readsAll_string : string.ReadsAll .string 0 := fun _ _ _ => ⟨rfl, List.forall_mem_nil _⟩

theorem readsAll_bool : bool.ReadsAll .bool 0 := fun _ _ _ => ⟨rfl, List.forall_mem_nil _⟩

/-- A text that is read in some way reads back if a value is read from its own text. -/
theorem readsBack_filterMap {parse : String → Option α} {text : α → String} {a : α} (h : parse (text a) = some a)
    (room : Nat) : (string.filterMap parse).ReadsBack (fun a => .string (text a)) room a := ⟨h, List.forall_mem_nil _⟩

/-- What is read as another type reads back if it is written as what is read. -/
theorem ReadsAll.map {d : Decoder α} {f : α → Json} {depth : Nat} (h : d.ReadsAll f depth) (g : α → β) {back : β → α}
    (hback : ∀ b, g (back b) = b) : (d.map g).ReadsAll (fun b => f (back b)) depth := by
  intro room hroom b
  obtain ⟨hagain, hrange⟩ := h hroom (back b)
  exact ⟨Option.map_eq_some_iff.2 ⟨_, hagain, hback b⟩, hrange⟩

/-- One of a list of names reads back if each value is listed under the name that is written for it. -/
theorem readsAll_oneOf {names : List (String × α)} {name : α → String}
    (h : ∀ a, Table.lookup (name a) names = some a) : (oneOf names).ReadsAll (fun a => .string (name a)) 0 :=
  fun _ _ a => ⟨h a, List.forall_mem_nil _⟩

theorem readsBack_natUpTo {limit n : Nat} (hlimit : limit ≤ Written.significandLimit) (hn : n ≤ limit) (room : Nat) :
    (natUpTo limit).ReadsBack Json.nat room n := by
  refine ⟨?_, fun m hm => ?_⟩
  · simp [natUpTo, Json.nat, Written.ofJson, hn]
  · cases List.mem_singleton.1 hm
    exact ⟨by omega, Int.ofNat_le.2 (Nat.le_trans hn hlimit)⟩

theorem gives_natUpTo (limit : Nat) : (natUpTo limit).Gives fun _ n => n ≤ limit := by
  intro room w a _ h
  unfold natUpTo at h
  split at h
  · split at h
    · rename_i hn
      cases h
      omega
    · cases h
  · cases h

theorem gives_json : json.Gives fun room j => json.ReadsBack (fun j => j) room j := fun _ w _ hin h =>
  ⟨(Written.json_again w h).1, (Written.json_again w h).2 hin⟩

theorem ne_null_of_json {room : Nat} {w : Written} {j : Json} (h : json room w = some j) (hw : w ≠ .null) : j ≠ .null := by
  rintro rfl
  cases w with
  | null => exact hw rfl
  | bool b => cases h
  | number n => obtain ⟨m, -, hm⟩ := Option.map_eq_some_iff.1 h; cases hm
  | string s => obtain ⟨m, -, hm⟩ := Option.map_eq_some_iff.1 h; cases hm
  | array ws =>
    cases room with
    | zero => cases h
    | succ room => obtain ⟨m, -, hm⟩ := Option.map_eq_some_iff.1 h; cases hm
  | object ms =>
    cases room with
    | zero => cases h
    | succ room => obtain ⟨m, -, hm⟩ := Option.map_eq_some_iff.1 h; cases hm

/-! ## Values that may be `null` -/

theorem nullable_of_ne {d : Decoder α} {room : Nat} {w : Written} (h : w ≠ .null) :
    d.nullable room w = (d room w).map some := by
  cases w <;> first | rfl | exact absurd rfl h

theorem ofJson_ne_null {j : Json} (h : j ≠ .null) : Written.ofJson j ≠ .null := by
  cases j <;> first | exact absurd rfl h | simp [Written.ofJson]

/-- What is not written as `null` reads back where `null` stands for nothing. -/
theorem ReadsBack.nullable {d : Decoder α} {f : α → Json} {room : Nat} {o : Option α}
    (h : ∀ a, o = some a → f a ≠ .null ∧ d.ReadsBack f room a) : d.nullable.ReadsBack (Json.optional f) room o := by
  cases o with
  | none => exact ⟨rfl, List.forall_mem_nil _⟩
  | some a =>
    obtain ⟨hne, hagain, hrange⟩ := h a rfl
    refine ⟨?_, hrange⟩
    show d.nullable room (.ofJson (f a)) = _
    rw [nullable_of_ne (ofJson_ne_null hne), hagain]
    rfl

theorem ReadsAll.nullable {d : Decoder α} {f : α → Json} {depth : Nat} (h : d.ReadsAll f depth) (hne : ∀ a, f a ≠ .null) :
    d.nullable.ReadsAll (Json.optional f) depth := fun _ hroom _ => ReadsBack.nullable fun a _ => ⟨hne a, h hroom a⟩

theorem Gives.nullable {d : Decoder α} {P : Nat → α → Prop} (h : d.Gives P) :
    d.nullable.Gives fun room o => ∀ a, o = some a → P room a := by
  rintro room w o hin hd a rfl
  have hw : w ≠ .null := by
    rintro rfl
    cases hd
  rw [nullable_of_ne hw] at hd
  obtain ⟨a', ha, he⟩ := Option.map_eq_some_iff.1 hd
  cases he
  exact h hin ha

theorem gives_json_nullable :
    json.nullable.Gives fun room o => ∀ j, o = some j → j ≠ .null ∧ json.ReadsBack (fun j => j) room j := by
  rintro room w o hin hd j rfl
  have hw : w ≠ .null := by
    rintro rfl
    cases hd
  refine ⟨?_, gives_json.nullable hin hd j rfl⟩
  rw [nullable_of_ne hw] at hd
  obtain ⟨j', hj, he⟩ := Option.map_eq_some_iff.1 hd
  cases he
  exact ne_null_of_json hj hw

/-! ## Lists -/

theorem gives_each {d : Decoder α} {P : Nat → α → Prop} (h : d.Gives P) {room : Nat} : ∀ {ws : List Written} {l : List α},
    (∀ m ∈ Written.itemNumbers ws, m.InRange) → each d room ws = some l → ∀ a ∈ l, P room a
  | [], _, _, hd => by
    cases hd; nofun
  | w :: ws, l, hin, hd => by
    obtain ⟨hw, hws⟩ := List.forall_mem_append.1 hin
    unfold each at hd
    split at hd
    · cases hd
    · rename_i a ha
      obtain ⟨rest, hrest, rfl⟩ := Option.map_eq_some_iff.1 hd
      exact List.forall_mem_cons.2 ⟨h hw ha, gives_each h hws hrest⟩

theorem Gives.list {d : Decoder α} {P : Nat → α → Prop} (h : d.Gives P) :
    d.list.Gives fun room l => ∀ a ∈ l, ∃ inner, room = inner + 1 ∧ P inner a := by
  intro room w l hin hd a ha
  unfold Decoder.list at hd
  split at hd
  · exact ⟨_, rfl, gives_each h hin hd a ha⟩
  · cases hd

theorem each_of_readsBack {d : Decoder α} {f : α → Json} {room : Nat} : ∀ {l : List α},
    (∀ a ∈ l, d.ReadsBack f room a) → each d room (Written.ofItems (l.map f)) = some l
  | [], _ => rfl
  | a :: l, h => by
    obtain ⟨ha, hl⟩ := List.forall_mem_cons.1 h
    simp only [List.map_cons, Written.ofItems, each, ha.again, each_of_readsBack hl, Option.map_some]

/-- A list reads back if each of its items does. -/
theorem list_readsBack {d : Decoder α} {f : α → Json} {room : Nat} {l : List α} (h : ∀ a ∈ l, d.ReadsBack f room a) :
    d.list.ReadsBack (fun l => .array (l.map f)) (room + 1) l := by
  refine ⟨each_of_readsBack h, Written.inRange_array fun v hv => ?_⟩
  obtain ⟨a, ha, rfl⟩ := List.mem_map.1 hv
  exact (h a ha).inRange

theorem ReadsAll.list {d : Decoder α} {f : α → Json} {depth : Nat} (h : d.ReadsAll f depth) :
    d.list.ReadsAll (fun l => .array (l.map f)) (depth + 1) := by
  intro room hroom l
  obtain ⟨inner, rfl⟩ : ∃ inner, room = inner + 1 := ⟨room - 1, by omega⟩
  exact list_readsBack fun a _ => h (Nat.le_of_succ_le_succ hroom) a

/-- A set is written in order and each member once. -/
theorem ReadsAll.sortedSet [Ord α] [Std.TransOrd α] [Std.LawfulEqOrd α] {d : Decoder α} {f : α → Json} {depth : Nat}
    (h : d.ReadsAll f depth) :
    (d.list.map SortedSet.ofList).ReadsAll (fun s => .array (s.toList.map f)) (depth + 1) :=
  h.list.map _ SortedSet.ofList_toList

/-! ## Fields -/

/-- All integers in the fields are such as a text can stand for. -/
def Fields.InRange (f : Fields) : Prop := ∀ e ∈ f.given, e.2.InRange

theorem mem_of_knownMembers {names : List String} {e : String × Written} :
    ∀ {ms : List (Option String × Written)} {given : List (String × Written)}, knownMembers names ms = some given →
      e ∈ given → (some e.1, e.2) ∈ ms
  | [], _, h, he => by
    cases h; cases he
  | (none, w) :: ms, _, h, _ => by cases h
  | (some k, w) :: ms, given, h, he => by
    unfold knownMembers at h
    split at h
    · cases h
    · rename_i rest hrest
      split at h
      · cases h
        exact List.mem_cons_of_mem _ (mem_of_knownMembers hrest he)
      · split at h
        · cases h
        · cases h
          rcases List.mem_cons.1 he with rfl | he
          · exact List.mem_cons_self
          · exact List.mem_cons_of_mem _ (mem_of_knownMembers hrest he)

theorem inRange_of_mem_items {w : Written} : ∀ {ws : List Written}, (∀ m ∈ Written.itemNumbers ws, m.InRange) → w ∈ ws →
    w.InRange
  | [], _, hw => by cases hw
  | v :: ws, h, hw => by
    obtain ⟨hv, hws⟩ := List.forall_mem_append.1 h
    rcases List.mem_cons.1 hw with rfl | hw
    · exact hv
    · exact inRange_of_mem_items hws hw

theorem inRange_of_mem_members {k : Option String} {w : Written} : ∀ {ms : List (Option String × Written)},
    (∀ m ∈ Written.memberNumbers ms, m.InRange) → (k, w) ∈ ms → w.InRange
  | [], _, hw => by cases hw
  | e :: ms, h, hw => by
    obtain ⟨hv, hms⟩ := List.forall_mem_append.1 h
    rcases List.mem_cons.1 hw with rfl | hw
    · exact hv
    · exact inRange_of_mem_members hms hw

/-- The fields of a record lie one level below it. -/
theorem fields_eq_some {names : List String} {room : Nat} {w : Written} {f : Fields}
    (h : fields names room w = some f) (hin : w.InRange) : room = f.room + 1 ∧ f.InRange := by
  unfold fields at h
  split at h
  · obtain ⟨given, hgiven, rfl⟩ := Option.map_eq_some_iff.1 h
    exact ⟨rfl, fun e he => inRange_of_mem_members hin (mem_of_knownMembers hgiven he)⟩
  · split at h
    · cases h
      exact ⟨rfl, fun e he => inRange_of_mem_items hin (List.of_mem_zip he).2⟩
    · cases h
  · cases h

section Given

variable {d : Decoder α} {P : Nat → α → Prop} {f : Fields} {name : String}

/-- A default has to be what the decoder could have given. -/
theorem Gives.withDefault (h : d.Gives P) (hin : f.InRange) {a₀ a : α} (hdefault : P f.room a₀)
    (hd : f.withDefault name d a₀ = some a) : P f.room a := by
  unfold Fields.withDefault at hd
  split at hd
  · cases hd
    exact hdefault
  · rename_i w hw
    exact h (hin _ (Table.mem_of_lookup hw)) hd

theorem Gives.optional {Q : Nat → Option α → Prop} (h : d.nullable.Gives Q) (hin : f.InRange) {o : Option α}
    (hnone : Q f.room none) (hd : f.optional name d = some o) : Q f.room o := h.withDefault hin hnone hd

end Given

/-- The fields of a record that has been written. -/
def Fields.ofRecord (names : List String) (room : Nat) (ms : List (String × Json)) : Fields :=
  ⟨room, ((ms.foldl (fun l m => putSorted m.1 m.2 l) []).filter (fun e => names.contains e.1)).map
    (fun e => (e.1, .ofJson e.2))⟩

theorem knownMembers_of_increasing (names : List String) : ∀ {ms : List (String × Json)}, KeysIncreasing ms →
    knownMembers names (Written.ofMembers ms) =
      some ((ms.filter (fun e => names.contains e.1)).map (fun e => (e.1, .ofJson e.2)))
  | [], _ => rfl
  | e :: ms, h => by
    obtain ⟨he, hms⟩ := List.pairwise_cons.1 h
    have hfresh : Table.lookup e.1 ((ms.filter (fun e => names.contains e.1)).map
        (fun e => (e.1, Written.ofJson e.2))) = none := by
      rw [Table.lookup_map (fun _ => Written.ofJson)]
      refine Option.map_eq_none_iff.2 (Option.eq_none_iff_forall_not_mem.2 fun j hj => ?_)
      have hlt := he _ (List.mem_filter.1 (Table.mem_of_lookup hj)).1
      rw [Std.compare_self] at hlt
      cases hlt
    simp only [Written.ofMembers, knownMembers, knownMembers_of_increasing names hms, hfresh]
    cases hknown : names.contains e.1 with
    | true => simp only [List.filter_cons, hknown, if_true]; rfl
    | false => simp only [List.filter_cons, hknown, Bool.false_eq_true, if_false]; rfl

theorem fields_record (names : List String) (room : Nat) (ms : List (String × Json)) :
    fields names (room + 1) (.ofJson (Json.record ms)) = some (.ofRecord names room ms) := by
  have hincreasing : KeysIncreasing (ms.foldl (fun l m => putSorted m.1 m.2 l) []) :=
    increasing_foldl_putSorted ms List.Pairwise.nil
  show (knownMembers names (Written.ofMembers (ms.foldl _ []))).map _ = _
  rw [knownMembers_of_increasing names hincreasing]
  rfl

theorem Fields.lookup_ofRecord {names : List String} {name : String} (h : name ∈ names) (room : Nat)
    (ms : List (String × Json)) :
    Table.lookup name (ofRecord names room ms).given = (Table.lookup name ms.reverse).map .ofJson := by
  unfold ofRecord
  rw [Table.lookup_map (fun _ => Written.ofJson), Table.lookup_filter, if_pos (by simpa using h)]
  exact congrArg _ (Json.member?_record name ms)

section Written

variable {d : Decoder α} {g : α → Json} {names : List String} {name : String} {room : Nat} {ms : List (String × Json)}

theorem ReadsBack.required {a : α} (h : d.ReadsBack g room a) (hname : name ∈ names)
    (hm : Table.lookup name ms.reverse = some (g a)) : (Fields.ofRecord names room ms).required name d = some a := by
  unfold Fields.required
  rw [Fields.lookup_ofRecord hname, hm]
  exact h.again

theorem ReadsBack.withDefault {a a₀ : α} (h : d.ReadsBack g room a) (hname : name ∈ names)
    (hm : Table.lookup name ms.reverse = some (g a)) :
    (Fields.ofRecord names room ms).withDefault name d a₀ = some a := by
  unfold Fields.withDefault
  rw [Fields.lookup_ofRecord hname, hm]
  exact h.again

theorem ReadsBack.optional {o : Option α} (h : d.nullable.ReadsBack (Json.optional g) room o) (hname : name ∈ names)
    (hm : Table.lookup name ms.reverse = some (Json.optional g o)) :
    (Fields.ofRecord names room ms).optional name d = some o := h.withDefault hname hm

/-- A field that is left out where there is nothing, as the members of the record tell it. -/
theorem lookup_leftOut (k : String) (o : Option α) :
    Table.lookup name (o.map (fun a => (k, g a))).toList.reverse = if k = name then o.map g else none := by
  cases o <;> simp [Table.lookup]

theorem ReadsBack.inRange_leftOut {o : Option α} (h : d.nullable.ReadsBack (Json.optional g) room o) (k : String) :
    ∀ e ∈ (o.map (fun a => (k, g a))).toList, (Written.ofJson e.2).InRange := by
  cases o with
  | none => nofun
  | some a =>
    intro e he
    cases List.mem_singleton.1 he
    exact h.inRange

theorem ReadsBack.leftOut {o : Option α} (h : d.nullable.ReadsBack (Json.optional g) room o) (hname : name ∈ names)
    (hm : Table.lookup name ms.reverse = o.map g) : (Fields.ofRecord names room ms).optional name d = some o := by
  cases o with
  | some a => exact h.withDefault hname hm
  | none =>
    unfold Fields.optional Fields.withDefault
    rw [Fields.lookup_ofRecord hname, hm]
    rfl

end Written

/-- A record reads back if its fields are read from their members. -/
theorem record_readsBack {names : List String} {read : Fields → Option α} {ms : α → List (String × Json)} {room : Nat} {a : α}
    (hread : read (.ofRecord names room (ms a)) = some a) (hin : ∀ e ∈ ms a, (Written.ofJson e.2).InRange) :
    ReadsBack (fun room w => (fields names room w).bind read) (fun a => Json.record (ms a)) (room + 1) a := by
  refine ⟨?_, Written.inRange_record hin⟩
  show (fields names (room + 1) _).bind read = _
  rw [fields_record]
  exact hread

theorem readsAll_record {names : List String} {read : Fields → Option α} {ms : α → List (String × Json)} {depth : Nat}
    (h : ∀ (room : Nat) (a : α), depth ≤ room →
      read (.ofRecord names room (ms a)) = some a ∧ ∀ e ∈ ms a, (Written.ofJson e.2).InRange) :
    ReadsAll (fun room w => (fields names room w).bind read) (fun a => Json.record (ms a)) (depth + 1) := by
  intro room hroom a
  obtain ⟨inner, rfl⟩ : ∃ inner, room = inner + 1 := ⟨room - 1, by omega⟩
  obtain ⟨hread, hin⟩ := h inner a (Nat.le_of_succ_le_succ hroom)
  exact record_readsBack hread hin

/-- What holds of all that is read from the fields of a record holds of what its decoder gives. -/
theorem gives_record {names : List String} {read : Fields → Option α} {P : Nat → α → Prop}
    (h : ∀ (f : Fields) (a : α), f.InRange → read f = some a → P f.room a) :
    Gives (fun room w => (fields names room w).bind read) fun room a => ∀ inner, room = inner + 1 → P inner a := by
  rintro room w a hin hd inner rfl
  obtain ⟨f, hf, hread⟩ := Option.bind_eq_some_iff.1 hd
  obtain ⟨hroom, hfields⟩ := fields_eq_some hf hin
  cases hroom
  exact h f a hfields hread

end Decoder
end BackOffice
