import BackOffice.Proofs.Attempts
/-!
# Guards and marks

A guard is an object and a mark is a name, and to let a guard go takes the mark of its name away, whoever has set it.
So the mark of a guard stands until that guard is let go, the name is ended, or another guard of the same name is let go
that was there before (`standsThrough_iff`): one whose own mark had been ended.  Where no name is ended while a guard of
it is held there are no such guards, and every mark stands as long as its own guard (`Sole.after`).
-/
namespace BackOffice

/-- The name whose mark an operation asks for. -/
def DeskOp.asks? : DeskOp → Option String
  | .single (.begin name) | .tryStart name _ => some name
  | _ => none

/-- The mark that was asked for is given. -/
def DeskResult.granted : DeskResult → Bool
  | .single (.flag given) => given
  | .started guard        => guard.isSome
  | _                     => false

namespace Issuer

variable (i : Issuer) (name other : String)

theorem mem_inFlight_start : other ∈ (i.start name).2.inFlight ↔ other = name ∨ other ∈ i.inFlight := by
  cases h : i.isInFlight name with
  | true =>
    have hmem := (i.isInFlight_iff name).1 h
    rw [i.start_of_marked name h]
    exact ⟨.inr, fun hor => hor.elim (fun heq => heq ▸ hmem) id⟩
  | false =>
    rw [i.start_of_unmarked name h]
    exact SortedSet.mem_insert _ _ _

theorem mem_inFlight_release (guard : Guard) :
    other ∈ (i.release guard).inFlight ↔ guard ≠ ⟨other⟩ ∧ other ∈ i.inFlight := by
  obtain ⟨operation⟩ := guard
  rw [Ne, Guard.mk.injEq, eq_comm, and_comm]
  exact SortedSet.mem_erase _ _ _

end Issuer

namespace GuardedIssuer

variable (g : GuardedIssuer) (slot : String) {name : String}

theorem tryStart_of_marked (h : g.issuer.isInFlight name = true) : g.tryStart name slot = (none, g) := by
  unfold tryStart Issuer.tryStart
  rw [Issuer.start_of_marked _ _ h]
  rfl

/-- The mark is set before the guard that was in the slot is let go. -/
theorem tryStart_of_free (h : g.issuer.isInFlight name = false) : g.tryStart name slot =
    (some ⟨name⟩, ⟨(g.guards.get? slot).elim (g.issuer.start name).2 (g.issuer.start name).2.release,
      g.guards.insert slot ⟨name⟩⟩) := by
  unfold tryStart Issuer.tryStart
  rw [Issuer.start_of_unmarked _ _ h]
  cases g.guards.get? slot <;> rfl

end GuardedIssuer

namespace Desk

variable {d : Desk} {op : DeskOp} {name slot : String}

def Marked (d : Desk) (name : String) : Prop := name ∈ d.held.issuer.inFlight

instance (d : Desk) (name : String) : Decidable (d.Marked name) :=
  inferInstanceAs (Decidable (name ∈ d.held.issuer.inFlight))

def guard? (d : Desk) (slot : String) : Option Guard := d.held.guards.get? slot

/-- What is held in the slot is let go: it is dropped, or a new guard is put in its place. -/
def LetsGo (d : Desk) (slot : String) (op : DeskOp) : Prop :=
  op = .drop slot ∨ ∃ name, op = .tryStart name slot ∧ ¬ d.Marked name

/-- The name is ended, or a guard of it is let go. -/
def Releases (d : Desk) (name : String) (op : DeskOp) : Prop :=
  op = .single (.finish name) ∨ ∃ slot, d.guard? slot = some ⟨name⟩ ∧ d.LetsGo slot op

/-! ## One operation -/

theorem isInFlight_iff_marked : d.held.issuer.isInFlight name = true ↔ d.Marked name :=
  d.held.issuer.isInFlight_iff name

theorem isInFlight_eq_false_iff : d.held.issuer.isInFlight name = false ↔ ¬ d.Marked name := by
  rw [← isInFlight_iff_marked, Bool.not_eq_true]

theorem act_tryStart (d : Desk) (name slot : String) :
    (d.act (.tryStart name slot)).1 = .started (d.held.tryStart name slot).1 ∧
      (d.step (.tryStart name slot)).held = (d.held.tryStart name slot).2 := ⟨rfl, rfl⟩

theorem act_tryStart_of_marked (slot : String) (h : d.Marked name) :
    (d.act (.tryStart name slot)).1 = .started none ∧ (d.step (.tryStart name slot)).held = d.held := by
  obtain ⟨hanswer, hheld⟩ := d.act_tryStart name slot
  rw [hanswer, hheld, d.held.tryStart_of_marked slot (isInFlight_iff_marked.2 h)]
  exact ⟨rfl, rfl⟩

theorem act_tryStart_of_free (slot : String) (h : ¬ d.Marked name) :
    (d.act (.tryStart name slot)).1 = .started (some ⟨name⟩) ∧
      (∀ other, (d.step (.tryStart name slot)).Marked other ↔
        d.guard? slot ≠ some ⟨other⟩ ∧ (other = name ∨ d.Marked other)) ∧
      ∀ other, (d.step (.tryStart name slot)).guard? other = if slot = other then some ⟨name⟩ else d.guard? other := by
  obtain ⟨hanswer, hheld⟩ := d.act_tryStart name slot
  rw [d.held.tryStart_of_free slot (isInFlight_eq_false_iff.2 h)] at hanswer hheld
  refine ⟨hanswer, fun other => ?_, fun other => ?_⟩
  · unfold Marked guard?
    rw [hheld]
    cases d.held.guards.get? slot with
    | none => simpa using d.held.issuer.mem_inFlight_start name other
    | some old =>
      rw [Option.elim_some, Issuer.mem_inFlight_release, Issuer.mem_inFlight_start, Ne, Ne, Option.some.injEq]
  · unfold guard?
    rw [hheld]
    exact Table.get?_insert _ _ _ _

theorem act_drop (d : Desk) (slot : String) :
    (∀ other, (d.step (.drop slot)).Marked other ↔ d.guard? slot ≠ some ⟨other⟩ ∧ d.Marked other) ∧
      ∀ other, (d.step (.drop slot)).guard? other = if other = slot then none else d.guard? other := by
  have hheld : (d.step (.drop slot)).held = (d.held.drop slot).2 := rfl
  unfold Marked guard?
  rw [hheld]
  unfold GuardedIssuer.drop
  cases hguard : d.held.guards.get? slot with
  | none =>
    refine ⟨fun other => by simp, fun other => ?_⟩
    by_cases hsame : other = slot
    · rw [if_pos hsame, hsame]
      exact hguard
    · rw [if_neg hsame]
  | some old =>
    refine ⟨fun other => ?_, fun other => Table.get?_erase _ _ _⟩
    rw [Ne, Option.some.injEq]
    exact d.held.issuer.mem_inFlight_release other old

theorem act_single (d : Desk) (op : IssuerOp) :
    (∀ name, (d.step (.single op)).Marked name ↔ op ≠ .finish name ∧ (op = .begin name ∨ d.Marked name)) ∧
      ∀ slot, (d.step (.single op)).guard? slot = d.guard? slot := by
  refine ⟨fun name => ?_, fun slot => rfl⟩
  cases hmarks : op.marks with
  | false =>
    have hsame := ((d.opLaws (.single op)).attempts hmarks).1
    have hfinish : op ≠ .finish name := by rintro rfl; cases hmarks
    have hbegin : op ≠ .begin name := by rintro rfl; cases hmarks
    unfold Marked
    rw [hsame]
    simp [hfinish, hbegin]
  | true =>
    cases op with
    | begin other =>
      refine (d.held.issuer.mem_inFlight_start other name).trans ?_
      simp [Marked, eq_comm]
    | finish other =>
      refine (d.held.issuer.mem_inFlight_release name ⟨other⟩).trans ?_
      simp [Marked]
    | isInFlight other => exact (by simp : _ ↔ d.Marked name).symm
    | _ => cases hmarks

theorem not_letsGo_single {op : IssuerOp} : ¬ d.LetsGo slot (.single op) := by
  rintro (h | ⟨_, h, -⟩) <;> cases h

theorem letsGo_drop_iff {other : String} : d.LetsGo slot (.drop other) ↔ other = slot := by
  refine ⟨?_, fun h => .inl (congrArg DeskOp.drop h)⟩
  rintro (h | ⟨_, h, -⟩) <;> cases h
  rfl

theorem letsGo_tryStart_iff {other : String} :
    d.LetsGo slot (.tryStart name other) ↔ other = slot ∧ ¬ d.Marked name := by
  constructor
  · rintro (h | ⟨_, h, hfree⟩) <;> cases h
    exact ⟨rfl, hfree⟩
  · rintro ⟨rfl, hfree⟩
    exact .inr ⟨name, rfl, hfree⟩

/-- **A mark is there that has been asked for or was there, and is not taken away.** -/
theorem marked_step_iff :
    (d.step op).Marked name ↔ ¬ d.Releases name op ∧ (op.asks? = some name ∨ d.Marked name) := by
  unfold Releases
  cases op with
  | single op =>
    rw [(d.act_single op).1 name]
    have hasks : (DeskOp.single op).asks? = some name ↔ op = .begin name := by
      cases op <;> simp [DeskOp.asks?]
    simp [hasks, not_letsGo_single]
  | tryStart other slot =>
    have hasks : (DeskOp.tryStart other slot).asks? = some name ↔ name = other := by
      simp [DeskOp.asks?, eq_comm]
    simp only [letsGo_tryStart_iff, hasks]
    by_cases hmarked : d.Marked other
    · have hsame : (d.step (.tryStart other slot)).Marked name ↔ d.Marked name := by
        unfold Marked
        rw [(act_tryStart_of_marked _ hmarked).2]
      rw [hsame]
      by_cases hname : name = other
      · simp [hname, hmarked]
      · simp [hname, hmarked]
    · rw [(act_tryStart_of_free _ hmarked).2.1 name]
      simp [hmarked]
  | drop slot =>
    rw [(d.act_drop slot).1 name]
    simp [letsGo_drop_iff, DeskOp.asks?]

/-- **A guard is held that has been taken or was held, and is not let go.** -/
theorem guard?_step_iff : (d.step op).guard? slot = some ⟨name⟩ ↔
    (op = .tryStart name slot ∧ ¬ d.Marked name) ∨ (d.guard? slot = some ⟨name⟩ ∧ ¬ d.LetsGo slot op) := by
  cases op with
  | single op => simp [(d.act_single op).2 slot, not_letsGo_single]
  | tryStart other there =>
    simp only [letsGo_tryStart_iff, DeskOp.tryStart.injEq]
    by_cases hmarked : d.Marked other
    · have hsame : (d.step (.tryStart other there)).guard? slot = d.guard? slot := by
        unfold guard?
        rw [(act_tryStart_of_marked _ hmarked).2]
      rw [hsame]
      constructor
      · exact fun h => .inr ⟨h, fun hgo => hgo.2 hmarked⟩
      · rintro (⟨⟨rfl, -⟩, hfree⟩ | h)
        · exact absurd hmarked hfree
        · exact h.1
    · rw [(act_tryStart_of_free _ hmarked).2.2 slot]
      by_cases hslot : there = slot
      · rw [if_pos hslot]
        constructor
        · rintro h
          cases h
          exact .inl ⟨⟨rfl, hslot⟩, hmarked⟩
        · rintro (⟨⟨rfl, -⟩, -⟩ | ⟨-, hkept⟩)
          · rfl
          · exact absurd ⟨hslot, hmarked⟩ hkept
      · simp [hslot]
  | drop other =>
    rw [(d.act_drop other).2 slot]
    by_cases hslot : slot = other
    · simp [hslot, letsGo_drop_iff]
    · simp [hslot, letsGo_drop_iff, Ne.symm hslot]

/-- **A mark is given exactly where it is not there**; where it is, what asks for it changes nothing. -/
theorem act_of_asks (h : op.asks? = some name) :
    ((d.act op).1.granted = true ↔ ¬ d.Marked name) ∧ (d.Marked name → (d.step op).held = d.held) := by
  cases op with
  | single op =>
    cases op with
    | begin other =>
      cases h
      have hact : (d.act (.single (.begin name))).1 = .single (.flag (d.held.issuer.start name).1) ∧
          (d.step (.single (.begin name))).held = { d.held with issuer := (d.held.issuer.start name).2 } := ⟨rfl, rfl⟩
      rw [hact.1, hact.2]
      by_cases hmarked : d.Marked name
      · rw [Issuer.start_of_marked _ _ (isInFlight_iff_marked.2 hmarked)]
        simp [DeskResult.granted, hmarked]
      · rw [Issuer.start_of_unmarked _ _ (isInFlight_eq_false_iff.2 hmarked)]
        simp [DeskResult.granted, hmarked]
    | _ => cases h
  | tryStart other slot =>
    cases h
    by_cases hmarked : d.Marked name
    · obtain ⟨hanswer, hheld⟩ := act_tryStart_of_marked slot hmarked
      rw [hanswer]
      exact ⟨by simp [DeskResult.granted, hmarked], fun _ => hheld⟩
    · rw [(act_tryStart_of_free _ hmarked).1]
      simp [DeskResult.granted, hmarked]
  | drop slot => cases h

/-! ## A mark and the guards of its name -/

/-- The mark of the name is there before every operation of the list, and after the last. -/
def StandsThrough (name : String) : Desk → List DeskOp → Prop
  | d, []        => d.Marked name
  | d, op :: ops => d.Marked name ∧ StandsThrough name (d.step op) ops

/-- No operation of the list lets go what is held in the slot. -/
def Keeps (slot : String) : Desk → List DeskOp → Prop
  | _, []        => True
  | d, op :: ops => ¬ d.LetsGo slot op ∧ Keeps slot (d.step op) ops

theorem StandsThrough.marked : ∀ {d : Desk} {ops : List DeskOp}, d.StandsThrough name ops → d.Marked name
  | _, [], h => h
  | _, _ :: _, h => h.1

theorem StandsThrough.after : ∀ {d : Desk} (before : List DeskOp) {after : List DeskOp},
    d.StandsThrough name (before ++ after) → (d.after before).StandsThrough name after
  | _, [], _, h => h
  | _, _ :: before, _, h => StandsThrough.after before h.2

/-- **A mark stands as long as its name is not ended and every guard of the name is kept** that is held when it is
there: no other comes to be held while it stands. -/
theorem standsThrough_iff : ∀ {d : Desk} {ops : List DeskOp}, d.Marked name → (d.StandsThrough name ops ↔
    .single (.finish name) ∉ ops ∧ ∀ slot, d.guard? slot = some ⟨name⟩ → d.Keeps slot ops)
  | _, [], h => by simp [StandsThrough, Keeps, h]
  | d, op :: ops, h => by
    have hmarked : (d.step op).Marked name ↔ ¬ d.Releases name op := by simp [marked_step_iff, h]
    have hguards : ¬ d.Releases name op → ∀ slot,
        (d.step op).guard? slot = some ⟨name⟩ ↔ d.guard? slot = some ⟨name⟩ := by
      intro hnot slot
      rw [guard?_step_iff]
      constructor
      · rintro (⟨-, hfree⟩ | ⟨hguard, -⟩)
        · exact absurd h hfree
        · exact hguard
      · exact fun hguard => .inr ⟨hguard, fun hgo => hnot (.inr ⟨slot, hguard, hgo⟩)⟩
    simp only [StandsThrough, Keeps, List.mem_cons, not_or]
    rw [and_iff_right h]
    constructor
    · intro hstands
      have hnot := hmarked.1 hstands.marked
      obtain ⟨hended, hkept⟩ := (standsThrough_iff (hmarked.2 hnot)).1 hstands
      refine ⟨⟨fun he => hnot (.inl he.symm), hended⟩, fun slot hguard => ⟨fun hgo => ?_, ?_⟩⟩
      · exact hnot (.inr ⟨slot, hguard, hgo⟩)
      · exact hkept slot ((hguards hnot slot).2 hguard)
    · rintro ⟨⟨hop, hended⟩, hkept⟩
      have hnot : ¬ d.Releases name op := by
        rintro (he | ⟨slot, hguard, hgo⟩)
        · exact hop he.symm
        · exact (hkept slot hguard).1 hgo
      refine (standsThrough_iff (hmarked.2 hnot)).2 ⟨hended, fun slot hguard => ?_⟩
      exact (hkept slot ((hguards hnot slot).1 hguard)).2

/-- Nothing is done to the mark of a guard that is taken into the slot: the name is not ended, the guard is kept, and so
is every guard of the name that was there before it. -/
structure Undisturbed (d : Desk) (name slot : String) (ops : List DeskOp) : Prop where
  notEnded : .single (.finish name) ∉ ops
  kept : (d.step (.tryStart name slot)).Keeps slot ops
  older : ∀ other, d.guard? other = some ⟨name⟩ → other ≠ slot ∧ (d.step (.tryStart name slot)).Keeps other ops

theorem standsThrough_tryStart_iff {ops : List DeskOp} (hfree : ¬ d.Marked name) :
    (d.step (.tryStart name slot)).StandsThrough name ops ↔ d.Undisturbed name slot ops := by
  obtain ⟨-, hmarked, hguards⟩ := act_tryStart_of_free slot hfree
  have hmarked : (d.step (.tryStart name slot)).Marked name ↔ d.guard? slot ≠ some ⟨name⟩ := by simp [hmarked]
  have hguards : ∀ other, (d.step (.tryStart name slot)).guard? other = some ⟨name⟩ ↔
      slot = other ∨ d.guard? other = some ⟨name⟩ := by
    intro other
    rw [hguards]
    by_cases hsame : slot = other <;> simp [hsame]
  constructor
  · intro hstands
    have hthere := hstands.marked
    obtain ⟨hended, hkept⟩ := (standsThrough_iff hthere).1 hstands
    refine ⟨hended, hkept slot ((hguards slot).2 (.inl rfl)), fun other hother => ⟨?_, ?_⟩⟩
    · rintro rfl
      exact hmarked.1 hthere hother
    · exact hkept other ((hguards other).2 (.inr hother))
  · rintro ⟨hended, hkept, holder⟩
    have hthere := hmarked.2 fun hguard => (holder slot hguard).1 rfl
    refine (standsThrough_iff hthere).2 ⟨hended, fun other hguard => ?_⟩
    rcases (hguards other).1 hguard with rfl | hother
    · exact hkept
    · exact (holder other hother).2

/-! ## Names that are ended only when no guard is held -/

/-- The name is not ended while a guard of it is held. -/
def EndsUnguarded (name : String) : Desk → List DeskOp → Prop
  | _, []        => True
  | d, op :: ops => (op = .single (.finish name) → ∀ slot, d.guard? slot ≠ some ⟨name⟩) ∧
      EndsUnguarded name (d.step op) ops

/-- There is one guard of the name at most, and where there is one its mark is there. -/
structure Sole (d : Desk) (name : String) : Prop where
  slot_eq : ∀ slot other, d.guard? slot = some ⟨name⟩ → d.guard? other = some ⟨name⟩ → slot = other
  marked : ∀ slot, d.guard? slot = some ⟨name⟩ → d.Marked name

theorem sole_start (mint : Mint) (name : String) : (start mint).Sole name :=
  ⟨fun _ _ h => (by cases h), fun _ h => (by cases h)⟩

theorem Sole.step (h : d.Sole name) (hend : op = .single (.finish name) → ∀ slot, d.guard? slot ≠ some ⟨name⟩) :
    (d.step op).Sole name := by
  refine ⟨fun slot other hslot hother => ?_, fun slot hslot => ?_⟩
  · rcases guard?_step_iff.1 hslot with ⟨htaken, hfree⟩ | ⟨hslot, -⟩
    · rcases guard?_step_iff.1 hother with ⟨htaken', -⟩ | ⟨hother, -⟩
      · rw [htaken] at htaken'
        cases htaken'
        rfl
      · exact absurd (h.marked other hother) hfree
    · rcases guard?_step_iff.1 hother with ⟨-, hfree⟩ | ⟨hother, -⟩
      · exact absurd (h.marked slot hslot) hfree
      · exact h.slot_eq slot other hslot hother
  · rw [marked_step_iff]
    rcases guard?_step_iff.1 hslot with ⟨rfl, hfree⟩ | ⟨hslot, hkept⟩
    · refine ⟨?_, .inl rfl⟩
      rintro (he | ⟨other, hother, -⟩)
      · cases he
      · exact hfree (h.marked other hother)
    · refine ⟨?_, .inr (h.marked slot hslot)⟩
      rintro (he | ⟨other, hother, hgo⟩)
      · exact hend he slot hslot
      · exact hkept (h.slot_eq slot other hslot hother ▸ hgo)

theorem Sole.after : ∀ {d : Desk} {ops : List DeskOp}, d.Sole name → EndsUnguarded name d ops → (d.after ops).Sole name
  | _, [], h, _ => h
  | _, _ :: _, h, hends => (h.step hends.1).after hends.2

/-! ## The laws of marks and guards -/

/-- How the mark of a name goes with the guards of it. -/
structure MarkLaws (name : String) : Prop where
  /-- The mark is given exactly where it is not there; where it is, what asks for it changes nothing. -/
  answered : ∀ (d : Desk) (op : DeskOp), op.asks? = some name →
    ((d.act op).1.granted = true ↔ ¬ d.Marked name) ∧ (d.Marked name → (d.step op).held = d.held)
  /-- The mark of a guard stands through what follows exactly if nothing is done to it. -/
  stands : ∀ (d : Desk) (slot : String) (ops : List DeskOp), (d.act (.tryStart name slot)).1.granted = true →
    ((d.step (.tryStart name slot)).StandsThrough name ops ↔ d.Undisturbed name slot ops)
  /-- Until something is, everything else that asks for the mark is refused. -/
  refused : ∀ (d : Desk) (slot : String) (ops : List DeskOp), (d.act (.tryStart name slot)).1.granted = true →
    d.Undisturbed name slot ops → ∀ before op after, ops = before ++ op :: after → op.asks? = some name →
      (((d.step (.tryStart name slot)).after before).act op).1.granted = false
  /-- Where a second guard comes beside a first, and the name is not ended between them, a still older guard of the name
  has been let go. -/
  beside : ∀ (d : Desk) (slot slot' : String) (ops : List DeskOp), (d.act (.tryStart name slot)).1.granted = true →
    (((d.step (.tryStart name slot)).after ops).act (.tryStart name slot')).1.granted = true →
    .single (.finish name) ∉ ops → (d.step (.tryStart name slot)).Keeps slot ops →
    ∃ other, d.guard? other = some ⟨name⟩ ∧ (other = slot ∨ ¬ (d.step (.tryStart name slot)).Keeps other ops)
  /-- Where the name is never ended while a guard of it is held, there are never two guards, and the mark of a guard
  stands as long as the guard is held. -/
  sole : ∀ (mint : Mint) (ops : List DeskOp), EndsUnguarded name (start mint) ops → ((start mint).after ops).Sole name

/-- **The laws of marks and guards**, for every name, from every state, and over every list of operations. -/
theorem markLaws (name : String) : MarkLaws name where
  answered _ _ h := act_of_asks h
  stands _ _ _ htaken := standsThrough_tryStart_iff ((act_of_asks rfl).1.1 htaken)
  refused d slot ops htaken hundisturbed before op after hops hasks := by
    have hstands := (standsThrough_tryStart_iff ((act_of_asks rfl).1.1 htaken)).2 hundisturbed
    rw [hops] at hstands
    have hmarked := (StandsThrough.after before hstands).marked
    exact Bool.eq_false_iff.2 fun hgranted => (act_of_asks hasks).1.1 hgranted hmarked
  beside d slot slot' ops htaken hsecond hended hkept := by
    refine Classical.byContradiction fun hnone => ?_
    have hundisturbed : d.Undisturbed name slot ops := by
      refine ⟨hended, hkept, fun other hother => ⟨fun hsame => ?_, ?_⟩⟩
      · exact hnone ⟨other, hother, .inl hsame⟩
      · exact Classical.not_not.1 fun hgone => hnone ⟨other, hother, .inr hgone⟩
    have hstands := (standsThrough_tryStart_iff ((act_of_asks rfl).1.1 htaken)).2 hundisturbed
    rw [← List.append_nil ops] at hstands
    exact (act_of_asks rfl).1.1 hsecond (StandsThrough.after ops hstands).marked
  sole mint _ hends := (sole_start mint name).after hends

/-- While a guard is held a second one is refused, and once it is dropped one is given. -/
example :
    let d := (start (.ofMillis 0)).step (.tryStart "store-create" "a")
    (d.act (.tryStart "store-create" "b")).1.granted = false ∧
      ((d.step (.drop "a")).act (.tryStart "store-create" "b")).1.granted = true := by decide

/-- A guard whose mark was ended is dropped late, and with it goes the mark of the guard that came after it: a third is
given out beside the second. -/
theorem mark_lost_to_older_guard : ¬ ∀ (mint : Mint) (earlier ops : List DeskOp) (name slot : String) (op : DeskOp),
    (((start mint).after earlier).act (.tryStart name slot)).1.granted = true → .single (.finish name) ∉ ops →
    (((start mint).after earlier).step (.tryStart name slot)).Keeps slot ops → op.asks? = some name →
    (((((start mint).after earlier).step (.tryStart name slot)).after ops).act op).1.granted = false := by
  intro hevery
  have hrefused := hevery (.ofMillis 0) [.tryStart "store-create" "a", .single (.finish "store-create")] [.drop "a"]
    "store-create" "b" (.tryStart "store-create" "c") (by decide) (by simp)
    ⟨fun hgo => absurd (letsGo_drop_iff.1 hgo) (by decide), trivial⟩ rfl
  exact absurd hrefused (by decide)

end Desk
end BackOffice
