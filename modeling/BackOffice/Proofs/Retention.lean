import BackOffice.Proofs.Sweeps
/-!
# What a cache keeps

An entry is there from the moment it is set until it is set again or dropped, so what a cache tells after any list of
operations can be told from the list (`told_by_history`).  Where no entry's time is up in their course the cache is a
map: look-up finds what was set last, and the entries are counted by their keys.  Where entries have no time at all, and
the clock is never set back, look-up finds nothing, and takes out the entry that it was after.
-/
namespace BackOffice

namespace Table

variable {κ ν : Type} [Ord κ] [Std.LawfulEqOrd κ] [DecidableEq κ]

theorem size_eq_ncard (t : Table κ ν) : t.size = {k | ∃ v, t.get? k = some v}.ncard := by
  have hall := t.size_sub_filterKeys (fun _ => false)
  have hnone : (t.filterKeys (fun _ => false)).size = 0 := by simp [filterKeys, size]
  rw [hnone, Nat.sub_zero] at hall
  rw [hall]
  exact congrArg Set.ncard (Set.ext fun k => and_iff_right rfl)

theorem size_erase {t : Table κ ν} {k : κ} {v : ν} (h : t.get? k = some v) : (t.erase k).size + 1 = t.size := by
  have htaken := t.size_sub_filterKeys (fun l => l != k)
  have hone : {l | (l != k) = false ∧ ∃ v, t.get? l = some v} = {k} := by
    ext l
    simp only [Set.mem_ofPred_eq, Set.mem_singleton_iff, bne_eq_false_iff_eq]
    exact ⟨fun hl => hl.1, fun hl => ⟨hl, v, hl ▸ h⟩⟩
  rw [hone, Set.ncard_singleton] at htaken
  unfold erase
  omega

end Table

/-- The operation takes away what is kept under a key.  Look-up does so where entries do not last. -/
def CacheOp.drops (lasting : Bool) (key : String) : CacheOp → Bool
  | .clear            => true
  | .invalidate front => Text.startsWith key front
  | .get other        => !lasting && other == key
  | .set _ _          => false
  | .isEmpty          => false
  | .tick _           => false

/-- What is kept under a key is left as it is. -/
def CacheOp.Spares (lasting : Bool) (key : String) (op : CacheOp) : Prop :=
  (∀ v, op ≠ .set key v) ∧ op.drops lasting key = false

namespace Cache

/-! ## Operations one after the other -/

def next (c : Cache) (op : CacheOp) : Cache := (op.run c).2

def after (c : Cache) (ops : List CacheOp) : Cache := ops.foldl next c

@[simp] theorem after_nil (c : Cache) : c.after [] = c := rfl

@[simp] theorem after_cons (c : Cache) (op : CacheOp) (ops : List CacheOp) :
    c.after (op :: ops) = (c.next op).after ops := rfl

/-- The entry was made when its value was set, and no operation since has written under its key or dropped it. -/
def MadeLast (c : Cache) (ops : List CacheOp) (key : String) (e : Entry) : Prop :=
  WrittenLast next (fun c op => op.leaves? c key) c ops e

theorem entry_after_iff {c : Cache} (hc : c.entries = .empty) (ops : List CacheOp) (key : String) (e : Entry) :
    (c.after ops).entries.get? key = some e ↔ c.MadeLast ops key e := by
  refine (view_foldl_iff (fun c => c.entries.get? key) (fun c op => op.entry_run c key) e ops c).trans
    (or_iff_left ?_)
  rintro ⟨-, hentry⟩
  rw [hc] at hentry; cases hentry

/-- The value was set under the key, and no operation since has set another or dropped it. -/
def LastSet (lasting : Bool) (ops : List CacheOp) (key : String) (v : Json) : Prop :=
  ∃ before after, ops = before ++ .set key v :: after ∧ ∀ op ∈ after, op.Spares lasting key

theorem not_lastSet_nil (lasting : Bool) (key : String) (v : Json) : ¬ LastSet lasting [] key v := by simp [LastSet]

theorem lastSet_cons {lasting : Bool} {op : CacheOp} {ops : List CacheOp} {key : String} {v : Json} :
    LastSet lasting (op :: ops) key v ↔
      LastSet lasting ops key v ∨ op = .set key v ∧ ∀ op' ∈ ops, op'.Spares lasting key := by
  constructor
  · rintro ⟨before, after, he, hspares⟩
    cases before with
    | nil => cases he; exact .inr ⟨rfl, hspares⟩
    | cons first before => cases he; exact .inl ⟨before, after, rfl, hspares⟩
  · rintro (⟨before, after, rfl, hspares⟩ | ⟨rfl, hspares⟩)
    · exact ⟨op :: before, after, rfl, hspares⟩
    · exact ⟨[], ops, rfl, hspares⟩

/-! ## In the course of time -/

/-- What the clock shows before the operations and after each of them. -/
def shown : Cache → List CacheOp → List Moment
  | c, []        => [c.clock]
  | c, op :: ops => c.clock :: shown (c.next op) ops

theorem clock_mem_shown (c : Cache) (ops : List CacheOp) : c.clock ∈ c.shown ops := by
  cases ops with
  | nil => exact List.mem_singleton_self _
  | cons op ops => exact List.mem_cons_self

/-- No moment is shown that is a lifetime after one that was shown before. -/
def Outlasts (c : Cache) (ops : List CacheOp) : Prop := (c.shown ops).Pairwise fun t u => u < t.later c.lifetime

/-- The clock is never set back. -/
def Forward (c : Cache) (ops : List CacheOp) : Prop := (c.shown ops).Pairwise fun t u => t ≤ u

/-- Whether an entry has its time is the same for all that are held, and for all that will be, as long as these
operations go on. -/
structure Steady (lasting : Bool) (c : Cache) (ops : List CacheOp) : Prop where
  held : ∀ key e, c.entries.get? key = some e → ∀ u ∈ c.shown ops, decide (u < e.expires) = lasting
  made : (c.shown ops).Pairwise fun t u => decide (u < t.later c.lifetime) = lasting

/-- The value that is held under a key, whether it has its time yet or not. -/
def value? (c : Cache) (key : String) : Option Json := (c.entries.get? key).map Entry.value

theorem value?_of_empty {c : Cache} (hc : c.entries = .empty) (key : String) : c.value? key = none := by
  unfold value?
  rw [hc, Table.get?_empty]; rfl

variable {lasting : Bool} {c : Cache} {op : CacheOp} {ops : List CacheOp} {held : String → Json → Prop}

/-- Where entries have their time look-up finds what is held, and changes nothing. -/
theorem Steady.get_true (h : Steady true c ops) (key : String) : c.get key = (c.value? key, c) := by
  refine get_of_not_isUp ?_
  unfold isUp
  cases hentry : c.entries.get? key with
  | none => rfl
  | some e =>
    have hlive := h.held key e hentry _ (c.clock_mem_shown ops)
    simp [hlive]

/-- Where entries have no time look-up finds nothing, and takes out what is held. -/
theorem Steady.get_false (h : Steady false c ops) (key : String) :
    c.get key = (none, { c with entries := c.entries.erase key }) := by
  cases hentry : c.entries.get? key with
  | none =>
    rw [Table.erase_of_absent hentry]
    unfold Cache.get
    rw [hentry]
  | some e =>
    have hup := h.held key e hentry _ (c.clock_mem_shown ops)
    refine get_of_isUp ?_
    unfold isUp
    simp [hentry, hup]

theorem Steady.next (h : Steady lasting c (op :: ops)) : Steady lasting (c.next op) ops where
  held key e hentry u hu := by
    rcases CacheOp.entry_of_run hentry with rfl | ⟨-, hbefore⟩
    · have hmade : e = ⟨e.value, c.expiry⟩ :=
        Option.some.inj (hentry.symm.trans ((Table.get?_insert _ _ _ _).trans (if_pos rfl)))
      rw [hmade]
      exact (List.pairwise_cons.1 h.made).1 u hu
    · exact h.held key e hbefore u (List.mem_cons_of_mem _ hu)
  made := by
    rw [show (c.next op).lifetime = c.lifetime from op.run_lifetime c]
    exact (List.pairwise_cons.1 h.made).2

/-- An operation holds what it sets, and what was held and is spared. -/
theorem Steady.value?_next (h : Steady lasting c (op :: ops)) (key : String) (v : Json) :
    (c.next op).value? key = some v ↔ op = .set key v ∨ op.Spares lasting key ∧ c.value? key = some v := by
  have hrun : (c.next op).value? key = ((op.leaves? c key).getD (c.entries.get? key)).map Entry.value :=
    congrArg _ (op.entry_run c key)
  unfold CacheOp.Spares
  cases op with
  | get other =>
    cases lasting with
    | true =>
      have hnext : c.next (.get other) = c := congrArg Prod.snd (h.get_true other)
      simp [hnext, CacheOp.drops]
    | false =>
      have hnext : c.next (.get other) = { c with entries := c.entries.erase other } :=
        congrArg Prod.snd (h.get_false other)
      rw [hnext]
      show ((c.entries.erase other).get? key).map Entry.value = some v ↔ _
      rw [Table.get?_erase]
      by_cases hkey : key = other
      · simp [CacheOp.drops, hkey]
      · simp [CacheOp.drops, hkey, value?, Ne.symm hkey]
  | set other w =>
    rw [hrun]
    by_cases hkey : other = key <;> simp [CacheOp.leaves?, CacheOp.drops, hkey, value?]
  | invalidate front =>
    rw [hrun]
    cases hfront : Text.startsWith key front <;> simp [CacheOp.leaves?, CacheOp.drops, hfront, value?]
  | clear =>
    rw [hrun]
    simp [CacheOp.leaves?, CacheOp.drops]
  | isEmpty =>
    rw [hrun]
    simp [CacheOp.leaves?, CacheOp.drops, value?]
  | tick now =>
    rw [hrun]
    simp [CacheOp.leaves?, CacheOp.drops, value?]

/-- **A value is the one last set under its key**, or was there and has been spared. -/
theorem Steady.value?_after (key : String) (v : Json) : ∀ {ops : List CacheOp} {c : Cache}, Steady lasting c ops →
    ((c.after ops).value? key = some v ↔
      LastSet lasting ops key v ∨ (∀ op ∈ ops, op.Spares lasting key) ∧ c.value? key = some v)
  | [], c, _ => by simp [not_lastSet_nil]
  | op :: ops, c, h => by
    rw [after_cons, Steady.value?_after key v h.next, h.value?_next, lastSet_cons, List.forall_mem_cons]
    constructor
    · rintro (hlast | ⟨hspares, hset | ⟨hop, hv⟩⟩)
      · exact .inl (.inl hlast)
      · exact .inl (.inr ⟨hset, hspares⟩)
      · exact .inr ⟨⟨hop, hspares⟩, hv⟩
    · rintro ((hlast | ⟨hset, hspares⟩) | ⟨⟨hop, hspares⟩, hv⟩)
      · exact .inl hlast
      · exact .inr ⟨hspares, .inl hset⟩
      · exact .inr ⟨hspares, .inr ⟨hop, hv⟩⟩

theorem Steady.after : ∀ {ops : List CacheOp} {c : Cache}, Steady lasting c ops → Steady lasting (c.after ops) []
  | [], _, h => h
  | _ :: _, _, h => by
    rw [after_cons]
    exact Steady.after h.next

theorem steady_of_made (hc : c.entries = .empty)
    (h : (c.shown ops).Pairwise fun t u => decide (u < t.later c.lifetime) = lasting) : Steady lasting c ops where
  held key e hentry := by rw [hc] at hentry; cases hentry
  made := h

theorem Outlasts.steady (h : c.Outlasts ops) (hc : c.entries = .empty) : Steady true c ops :=
  steady_of_made hc (h.imp fun hlt => decide_eq_true hlt)

theorem Forward.steady (h : c.Forward ops) (hlifetime : c.lifetime = 0) (hc : c.entries = .empty) :
    Steady false c ops := by
  refine steady_of_made hc (h.imp fun {t u} hle => decide_eq_false ?_)
  rw [hlifetime, Moment.lt_later_iff]
  exact fun hlt => absurd hlt.1 (by simpa using hle)

theorem shown_of_untimed : ∀ {ops : List CacheOp} {c : Cache}, (∀ now, .tick now ∉ ops) → ∀ u ∈ c.shown ops, u = c.clock
  | [], c, _, u, hu => List.mem_singleton.1 hu
  | op :: ops, c, h, u, hu => by
    rcases List.mem_cons.1 hu with rfl | hu
    · rfl
    · rw [← op.run_clock c fun now hop => h now (hop ▸ List.mem_cons_self)]
      exact shown_of_untimed (fun now hnow => h now (List.mem_cons_of_mem _ hnow)) u hu

/-- Where the clock does not move, it shows one moment throughout. -/
theorem pairwise_shown_of_untimed {R : Moment → Moment → Prop} (hR : R c.clock c.clock) (h : ∀ now, .tick now ∉ ops) :
    (c.shown ops).Pairwise R :=
  List.pairwise_of_forall_mem_list fun t ht u hu => by
    rwa [shown_of_untimed h t ht, shown_of_untimed h u hu]

/-! ## What a cache tells -/

/-- What is held under which keys, as a cache counts it. -/
structure Counts (c : Cache) (held : String → Json → Prop) : Prop where
  size : c.size = {key | ∃ v, held key v}.ncard
  isEmpty : c.isEmpty = true ↔ ∀ key v, ¬ held key v
  /-- An invalidation tells how many keys with the front are held. -/
  invalidate : ∀ front, (c.invalidate front).1 = {key | Text.startsWith key front = true ∧ ∃ v, held key v}.ncard

/-- Look-up finds what is held, and nothing else, and changes nothing. -/
structure IsMap (c : Cache) (held : String → Json → Prop) : Prop extends c.Counts held where
  get : ∀ key v, (c.get key).1 = some v ↔ held key v
  get_same : ∀ key, (c.get key).2 = c

/-- Look-up finds nothing, and takes out what is held under the key that was looked up, and nothing else. -/
structure Evicts (c : Cache) (held : String → Json → Prop) : Prop extends c.Counts held where
  get : ∀ key, (c.get key).1 = none
  get_entries : ∀ key other e,
    (c.get key).2.entries.get? other = some e ↔ other ≠ key ∧ c.entries.get? other = some e
  get_held : ∀ key v, held key v → (c.get key).2.size + 1 = c.size
  get_absent : ∀ key, (∀ v, ¬ held key v) → (c.get key).2 = c

theorem exists_entry_iff (h : ∀ key v, c.value? key = some v ↔ held key v) (key : String) :
    (∃ e, c.entries.get? key = some e) ↔ ∃ v, held key v := by
  simp only [← h, value?, Option.map_eq_some_iff]
  constructor
  · rintro ⟨e, hentry⟩
    exact ⟨e.value, e, hentry, rfl⟩
  · rintro ⟨v, e, hentry, -⟩
    exact ⟨e, hentry⟩

theorem counts_of_values (h : ∀ key v, c.value? key = some v ↔ held key v) : c.Counts held where
  size := by
    refine c.entries.size_eq_ncard.trans (congrArg Set.ncard (Set.ext fun key => ?_))
    exact exists_entry_iff h key
  isEmpty := by
    refine List.isEmpty_iff.trans (List.eq_nil_iff_forall_not_mem.trans ?_)
    constructor
    · intro hnone key v hv
      obtain ⟨e, hentry⟩ := (exists_entry_iff h key).2 ⟨v, hv⟩
      exact hnone (key, e) (Table.get?_eq_some_iff.1 hentry)
    · rintro hnone ⟨key, e⟩ hmem
      obtain ⟨v, hv⟩ := (exists_entry_iff h key).1 ⟨e, Table.get?_eq_some_iff.2 hmem⟩
      exact hnone key v hv
  invalidate front := by
    refine (Table.size_sub_filterKeys _ c.entries).trans (congrArg Set.ncard (Set.ext fun key => ?_))
    exact and_congr (by simp) (exists_entry_iff h key)

theorem Steady.isMap (hc : Steady true c []) (h : ∀ key v, c.value? key = some v ↔ held key v) : c.IsMap held where
  toCounts := counts_of_values h
  get key v := by rw [hc.get_true, h]
  get_same key := by rw [hc.get_true]

theorem Steady.evicts (hc : Steady false c []) (h : ∀ key v, c.value? key = some v ↔ held key v) : c.Evicts held where
  toCounts := counts_of_values h
  get key := by rw [hc.get_false]
  get_entries key other e := by
    rw [hc.get_false, Table.get?_erase]
    by_cases hkey : other = key <;> simp [hkey]
  get_held key v hv := by
    rw [hc.get_false]
    obtain ⟨e, hentry⟩ := (exists_entry_iff h key).2 ⟨v, hv⟩
    exact Table.size_erase hentry
  get_absent key hnone := by
    have hget : c.entries.get? key = none := by
      refine Option.eq_none_iff_forall_ne_some.2 fun e hentry => ?_
      obtain ⟨v, hv⟩ := (exists_entry_iff h key).1 ⟨e, hentry⟩
      exact hnone v hv
    rw [hc.get_false, Table.erase_of_absent hget]

/-- **What a cache tells is told by what has been done to it.**  Whatever the clock shows, look-up finds the value of
the entry that was made last and not dropped since, if its time is not up.  Where the time of no entry is up in the
course of the operations the cache is the map of what was last set and not dropped since; where entries have no time and
the clock is never set back, it counts such entries too, but finds none, and drops one when it is looked up.  While the
clock stands still, it is not set back, and any time at all is enough for an entry. -/
theorem told_by_history (c : Cache) (hc : c.entries = .empty) (ops : List CacheOp) :
    (∀ key v, ((c.after ops).get key).1 = some v ↔
      ∃ e, c.MadeLast ops key e ∧ (c.after ops).clock < e.expires ∧ e.value = v) ∧
    (c.Outlasts ops → (c.after ops).IsMap (LastSet true ops)) ∧
    (c.lifetime = 0 → c.Forward ops → (c.after ops).Evicts (LastSet false ops)) ∧
    ((∀ now, .tick now ∉ ops) → c.Forward ops ∧ (0 < c.lifetime → c.clock < Moment.last → c.Outlasts ops)) := by
  have hheld : ∀ {lasting}, Steady lasting c ops → ∀ key v,
      (c.after ops).value? key = some v ↔ LastSet lasting ops key v := by
    intro lasting hsteady key v
    rw [hsteady.value?_after, value?_of_empty hc]
    simp
  refine ⟨fun key v => ?_, fun houtlasts => ?_, fun hlifetime hforward => ?_,
    fun huntimed => ⟨?_, fun hlives hlast => ?_⟩⟩
  · rw [get_eq_some_iff]
    exact exists_congr fun e => and_congr_left' (entry_after_iff hc ops key e)
  · have hsteady := houtlasts.steady hc
    exact hsteady.after.isMap (hheld hsteady)
  · have hsteady := hforward.steady hlifetime hc
    exact hsteady.after.evicts (hheld hsteady)
  · exact pairwise_shown_of_untimed (le_refl c.clock) huntimed
  · have hlater : c.clock < c.clock + c.lifetime := Int.lt_add_of_pos_right _ (Int.natCast_pos.2 hlives)
    exact pairwise_shown_of_untimed (Moment.lt_later_iff.2 ⟨hlater, hlast⟩) huntimed

/-- A listing of users, and half a minute later two of stores. -/
def listed : List CacheOp :=
  [.set "users" .null, .tick 30000000000, .set "stores" .null, .set "stores" (.bool true), .tick 59000000000,
    .invalidate "user"]

/-- Within a minute of the first, of two entries that last a minute one is swept, and the other is found as it was set
last; and neither is found where entries have no time.  While the clock stands still, a second is as good as a minute. -/
theorem found_beside_swept :
    (((ofTtl 60).after listed).get "stores").1 = some (.bool true) ∧ (((ofTtl 60).after listed).get "users").1 = none ∧
      (∀ key, (((ofTtl 0).after listed).get key).1 = none) ∧ (ofTtl 1).Outlasts [.set "users" .null, .get "users"] := by
  have houtlasts : (ofTtl 60).Outlasts listed := by
    unfold Outlasts
    decide +kernel
  have hforward : (ofTtl 0).Forward listed := by
    unfold Forward
    decide +kernel
  have hmap := (told_by_history (ofTtl 60) rfl listed).2.1 houtlasts
  have hevicts := (told_by_history (ofTtl 0) rfl listed).2.2.1 rfl hforward
  have hstill := (told_by_history (ofTtl 1) rfl [.set "users" .null, .get "users"]).2.2.2 (by simp)
  have hswept : Text.startsWith "users" "user" = true := by decide
  have hspared : Text.startsWith "stores" "user" = false := by decide
  refine ⟨(hmap.get _ _).2 ⟨[_, _, _], [_, _], rfl, ?_⟩, Option.eq_none_iff_forall_ne_some.2 fun v hv => ?_, hevicts.get,
    hstill.2 (by decide) (by decide)⟩
  · simp [CacheOp.Spares, CacheOp.drops, hspared]
  · have hlast := (hmap.get _ _).1 hv
    simp [listed, lastSet_cons, not_lastSet_nil, CacheOp.Spares, CacheOp.drops, hswept] at hlast

/-- An entry that has no time is counted until it is looked up. -/
example : ((ofTtl 0).after [.set "a" .null, .set "b" .null]).size = 2 ∧
    ((ofTtl 0).after [.set "a" .null, .set "b" .null, .get "a"]).size = 1 := by decide

/-- Where the clock is set back to a moment before it was set, it is found nevertheless. -/
example : (((ofTtl 0).after [.tick 5, .set "a" .null, .tick 4]).get "a").1 = some .null := rfl

end Cache
end BackOffice
