import BackOffice.Proofs.Keys
/-!
# Attempts and marks

An issuer, the guards that are held on its marks, and the mint that its attempts are made from are worked on by single
operations (`Desk`).  What one operation does to the attempt under a name is one of four things (`Turn`): it leaves it
alone, forgets it, renews it with its keys and its binding, or makes one where there is none.  So an attempt lives until
it is forgotten, and two operations give out the same keys exactly where they meet the same attempt (`gives_same_iff`).
Marks and attempts are two tables, and no operation touches both.
-/
namespace BackOffice

/-- Operations on an issuer, and on the guards that are held on its marks. -/
inductive DeskOp where
  | single (op : IssuerOp)
  | tryStart (name slot : String)
  | drop (slot : String)

inductive DeskResult where
  | single (r : IssuerResult)
  | started (guard : Option Guard)
  | dropped (found : Bool)

structure Desk where
  held : GuardedIssuer
  mint : Mint

/-- The operation forgets the attempt under a name. -/
def IssuerOp.forgets (name : String) : IssuerOp → Bool
  | .complete other | .cancel other => other = name
  | .cancelAll => true
  | _ => false

/-- The name whose attempt an operation asks for or changes. -/
def IssuerOp.attempted? : IssuerOp → Option String
  | .obtain name | .obtainFor name _ | .obtainForRequest name _ _ _ | .markFailed name | .complete name | .cancel name
  | .attempt name => some name
  | .begin _ | .finish _ | .isInFlight _ | .cancelAll => none

def IssuerOp.marks : IssuerOp → Bool
  | .begin _ | .finish _ | .isInFlight _ => true
  | _ => false

def IssuerResult.keys? : IssuerResult → Option AttemptKeys
  | .keys k => some k
  | _ => none

namespace DeskOp

def forgets (name : String) : DeskOp → Bool
  | .single op => op.forgets name
  | .tryStart _ _ | .drop _ => false

def attempted? : DeskOp → Option String
  | .single op => op.attempted?
  | .tryStart _ _ | .drop _ => none

def marks : DeskOp → Bool
  | .single op => op.marks
  | .tryStart _ _ | .drop _ => true

end DeskOp

namespace DeskResult

def keys? : DeskResult → Option AttemptKeys
  | .single r => r.keys?
  | .started _ | .dropped _ => none

def refused? : DeskResult → Option ApiError
  | .single (.refused e) => some e
  | _ => none

end DeskResult

/-! ## One operation -/

/-- What an operation, that forgets it or not, can do to the attempt under a name. -/
inductive Attempt.Turn (fresh : FreshKeys) (name : String) : Bool → Option Attempt → Option Attempt → Prop where
  | kept (a : Option Attempt) : Turn fresh name false a a
  | forgotten (a : Option Attempt) : Turn fresh name true a none
  | renewed (a a' : Attempt) (hkeys : a'.keys = a.keys) (hstate : a'.state = .pending ∨ a'.state = .failed)
      (hprint : a.fingerprint = none ∨ a'.fingerprint = a.fingerprint) : Turn fresh name false (some a) (some a')
  | minted (a' : Attempt) (hkeys : a'.keys = Attempt.keysOf name fresh) (hstate : a'.state = .pending) :
      Turn fresh name false none (some a')

namespace Issuer

variable (i : Issuer) (fresh : FreshKeys) (name : String)

@[simp] theorem attempts_start : (i.start name).2.attempts = i.attempts := by
  unfold start
  split <;> rfl

/-- The attempt that is used under a name, whatever it is bound to. -/
def obtained (i : Issuer) (fresh : FreshKeys) (name : String) : Attempt :=
  match i.attempt? name with
  | some a => { a with state := .pending }
  | none   => .mint name fresh none

theorem turn_obtained : Attempt.Turn fresh name false (i.attempt? name) (some (i.obtained fresh name)) := by
  unfold obtained
  cases i.attempt? name with
  | none => exact .minted _ rfl rfl
  | some a => exact .renewed _ _ rfl (.inl rfl) (.inr rfl)

theorem turn_binding? {payload : Json} {a : Attempt} (h : i.binding? fresh name payload = some a) :
    Attempt.Turn fresh name false (i.attempt? name) (some a) := by
  have hstate : a.state = .pending := by
    unfold binding? at h
    split at h
    · split at h <;> cases h
      rfl
    · cases h
      rfl
  obtain ⟨hprint, ⟨b, hb, hkeys, hbound⟩ | ⟨hnone, hkeys⟩⟩ := binding?_cases h
  · rw [hb]
    exact .renewed _ _ hkeys (.inl hstate) (hbound.imp_right fun h => hprint.trans h.symm)
  · rw [hnone]
    exact .minted _ hkeys hstate

theorem attempt?_obtain (other : String) : (i.obtain fresh name).2.attempt? other =
    if name = other then some (i.obtained fresh name) else i.attempt? other := Table.get?_insert _ _ _ _

theorem attempt?_obtainFor (payload : Json) (other : String) : (i.obtainFor fresh name payload).2.attempt? other =
    if name = other then (i.binding? fresh name payload).or (i.attempt? other) else i.attempt? other := by
  rw [obtainFor_eq]
  cases i.binding? fresh name payload with
  | some a => exact Table.get?_insert _ _ _ _
  | none => simp

end Issuer

namespace IssuerOp

variable (fresh : FreshKeys) (trace : TraceId) (i : Issuer)

/-- **An operation reaches no attempt but its own**, unless it forgets all. -/
theorem attempt?_run_of_other {op : IssuerOp} {name : String} (hname : op.attempted? ≠ some name) (hall : op ≠ .cancelAll) :
    (op.run fresh trace i).2.attempt? name = i.attempt? name := by
  have hne : ∀ {other}, op.attempted? = some other → other ≠ name := fun h e => hname (e ▸ h)
  cases op with
  | begin other => exact congrArg (Table.get? · name) (i.attempts_start other)
  | finish other => rfl
  | isInFlight other => rfl
  | obtain other => exact (i.attempt?_obtain fresh other name).trans (if_neg (hne rfl))
  | obtainFor other payload => exact (i.attempt?_obtainFor fresh other payload name).trans (if_neg (hne rfl))
  | obtainForRequest other method path body =>
    exact (i.attempt?_obtainFor fresh other (requestPayload method path body) name).trans (if_neg (hne rfl))
  | markFailed other => exact (i.attempt?_markFailed other name).trans (if_neg (hne rfl).symm)
  | complete other => exact (i.attempt?_complete other name).trans (if_neg (hne rfl).symm)
  | cancel other => exact (i.attempt?_cancel other name).trans (if_neg (hne rfl).symm)
  | cancelAll => exact absurd rfl hall
  | attempt other => rfl

theorem forgets_of_other {op : IssuerOp} {name : String} (hname : op.attempted? ≠ some name) (hall : op ≠ .cancelAll) :
    op.forgets name = false := by
  cases op with
  | complete other => exact decide_eq_false fun e => hname (congrArg some e)
  | cancel other => exact decide_eq_false fun e => hname (congrArg some e)
  | cancelAll => exact absurd rfl hall
  | _ => rfl

/-- **What one operation does to the attempt under a name is one of four things.** -/
theorem run_turn (op : IssuerOp) (name : String) :
    Attempt.Turn fresh name (op.forgets name) (i.attempt? name) ((op.run fresh trace i).2.attempt? name) := by
  -- what forgets all reaches this name too; of the others only those on this name do
  by_cases hall : op = .cancelAll
  · subst hall
    exact .forgotten _
  by_cases hname : op.attempted? = some name
  · have hbinding : ∀ payload, Attempt.Turn fresh name false (i.attempt? name)
        ((i.binding? fresh name payload).or (i.attempt? name)) := by
      intro payload
      cases h : i.binding? fresh name payload with
      | some a => exact i.turn_binding? fresh name h
      | none => exact .kept _
    cases op with
    | obtain other =>
      cases hname
      have hmade := (i.attempt?_obtain fresh name name).trans (if_pos rfl)
      exact hmade ▸ i.turn_obtained fresh name
    | obtainFor other payload =>
      cases hname
      have hmade := (i.attempt?_obtainFor fresh name payload name).trans (if_pos rfl)
      exact hmade ▸ hbinding payload
    | obtainForRequest other method path body =>
      cases hname
      have hmade := (i.attempt?_obtainFor fresh name (requestPayload method path body) name).trans (if_pos rfl)
      exact hmade ▸ hbinding _
    | markFailed other =>
      cases hname
      have hmade := (i.attempt?_markFailed name name).trans (if_pos rfl)
      refine hmade ▸ ?_
      cases i.attempt? name with
      | none => exact .kept _
      | some a => exact .renewed _ _ rfl (.inr rfl) (.inr rfl)
    | complete other =>
      cases hname
      have hmade := (i.attempt?_complete name name).trans (if_pos rfl)
      rw [show (IssuerOp.complete name).forgets name = true from decide_eq_true rfl]
      exact hmade ▸ .forgotten _
    | cancel other =>
      cases hname
      have hmade := (i.attempt?_cancel name name).trans (if_pos rfl)
      rw [show (IssuerOp.cancel name).forgets name = true from decide_eq_true rfl]
      exact hmade ▸ .forgotten _
    | attempt other => exact .kept _
    | _ => cases hname
  · rw [attempt?_run_of_other fresh trace i hname hall, forgets_of_other hname hall]
    exact .kept _

theorem run_of_marks {op : IssuerOp} (h : op.marks = true) : (op.run fresh trace i).2.attempts = i.attempts := by
  cases op with
  | begin name => exact i.attempts_start name
  | finish name => rfl
  | isInFlight name => rfl
  | _ => cases h

theorem run_of_not_marks {op : IssuerOp} (h : op.marks = false) : (op.run fresh trace i).2.inFlight = i.inFlight := by
  have hfor : ∀ name payload, (i.obtainFor fresh name payload).2.inFlight = i.inFlight := by
    intro name payload
    rw [Issuer.obtainFor_eq]
    split <;> rfl
  cases op with
  | begin name => cases h
  | finish name => cases h
  | isInFlight name => cases h
  | obtainFor name payload => exact hfor name payload
  | obtainForRequest name method path body => exact hfor name (requestPayload method path body)
  | _ => rfl

theorem run_of_refused {op : IssuerOp} {e : ApiError} (h : (op.run fresh trace i).1 = .refused e) :
    e.category = .conflict ∧ (op.run fresh trace i).2 = i := by
  have hfor : ∀ {name payload}, keysOrError trace (i.obtainFor fresh name payload).1 = .refused e →
      e.category = .conflict ∧ (i.obtainFor fresh name payload).2 = i := by
    intro name payload
    rw [Issuer.obtainFor_eq]
    split
    · intro h; cases h
    · intro h; cases h; exact ⟨rfl, rfl⟩
  cases op with
  | obtainFor name payload => exact hfor h
  | obtainForRequest name method path body => exact hfor h
  | _ => cases h

theorem attempt?_of_keys {op : IssuerOp} {name : String} {k : AttemptKeys} (hname : op.attempted? = some name)
    (h : (op.run fresh trace i).1.keys? = some k) :
    ∃ a, (op.run fresh trace i).2.attempt? name = some a ∧ a.keys = k := by
  have hfor : ∀ {payload}, (keysOrError trace (i.obtainFor fresh name payload).1).keys? = some k →
      ∃ a, (i.obtainFor fresh name payload).2.attempt? name = some a ∧ a.keys = k := by
    intro payload h
    rw [Issuer.attempt?_obtainFor, if_pos rfl]
    rw [Issuer.obtainFor_eq] at h
    cases hb : i.binding? fresh name payload with
    | none => rw [hb] at h; cases h
    | some a => rw [hb] at h; cases h; exact ⟨a, rfl, rfl⟩
  cases op with
  | obtain other =>
    cases hname
    cases h
    exact ⟨_, (i.attempt?_obtain fresh name name).trans (if_pos rfl), rfl⟩
  | obtainFor other payload => cases hname; exact hfor h
  | obtainForRequest other method path body => cases hname; exact hfor h
  | _ => cases h

end IssuerOp

namespace GuardedIssuer

theorem attempts_tryStart (g : GuardedIssuer) (name slot : String) :
    (g.tryStart name slot).2.issuer.attempts = g.issuer.attempts := by
  have htaken : (g.issuer.tryStart name).2.attempts = g.issuer.attempts := g.issuer.attempts_start name
  unfold tryStart
  split
  · rename_i htry; rw [htry] at htaken; exact htaken
  · rename_i htry
    rw [htry] at htaken
    simp only
    split <;> exact htaken

theorem attempts_drop (g : GuardedIssuer) (slot : String) : (g.drop slot).2.issuer.attempts = g.issuer.attempts := by
  unfold drop
  split <;> rfl

end GuardedIssuer

/-! ## Operations one after the other -/

namespace Desk

def start (mint : Mint) : Desk := ⟨.empty, mint⟩

/-- Runs one operation.  Identifiers for an attempt and for an error are drawn for each, used or not. -/
def act (d : Desk) (op : DeskOp) : DeskResult × Desk :=
  let (key, mint) := d.mint.draw
  let (transaction, mint) := mint.draw
  let (trace, mint) := mint.draw
  match op with
  | .single op =>
    let (r, i) := op.run ⟨key, transaction⟩ (.minted trace) d.held.issuer
    (.single r, ⟨{ d.held with issuer := i }, mint⟩)
  | .tryStart name slot =>
    let (guard, held) := d.held.tryStart name slot
    (.started guard, ⟨held, mint⟩)
  | .drop slot =>
    let (found, held) := d.held.drop slot
    (.dropped found, ⟨held, mint⟩)

def step (d : Desk) (op : DeskOp) : Desk := (d.act op).2

def after (d : Desk) (ops : List DeskOp) : Desk := ops.foldl step d

@[simp] theorem after_nil (d : Desk) : d.after [] = d := rfl

@[simp] theorem after_cons (d : Desk) (op : DeskOp) (ops : List DeskOp) : d.after (op :: ops) = (d.step op).after ops := rfl

theorem after_append (d : Desk) (as bs : List DeskOp) : d.after (as ++ bs) = (d.after as).after bs := List.foldl_append

def attempt? (d : Desk) (name : String) : Option Attempt := d.held.issuer.attempt? name

/-- The identifiers of an attempt that the next operation may make. -/
def fresh (d : Desk) : FreshKeys := ⟨d.mint.supply d.mint.drawn, d.mint.supply (d.mint.drawn + 1)⟩

theorem step_mint (d : Desk) (op : DeskOp) : (d.step op).mint = { d.mint with drawn := d.mint.drawn + 3 } := by
  cases op <;> rfl

theorem mint_after : ∀ (ops : List DeskOp) (d : Desk), (d.after ops).mint.supply = d.mint.supply ∧
    d.mint.drawn ≤ (d.after ops).mint.drawn
  | [], _ => ⟨rfl, Nat.le_refl _⟩
  | op :: ops, d => by
    obtain ⟨hsupply, hdrawn⟩ := mint_after ops (d.step op)
    rw [step_mint] at hsupply hdrawn
    exact ⟨hsupply, Nat.le_trans (Nat.le_add_right _ _) hdrawn⟩

theorem step_turn (d : Desk) (op : DeskOp) (name : String) :
    Attempt.Turn d.fresh name (op.forgets name) (d.attempt? name) ((d.step op).attempt? name) := by
  cases op with
  | single op => exact IssuerOp.run_turn _ _ _ op name
  | tryStart other slot =>
    have hsame : (d.step (.tryStart other slot)).attempt? name = d.attempt? name :=
      congrArg (Table.get? · name) (d.held.attempts_tryStart other slot)
    rw [hsame]
    exact .kept _
  | drop slot =>
    have hsame : (d.step (.drop slot)).attempt? name = d.attempt? name :=
      congrArg (Table.get? · name) (d.held.attempts_drop slot)
    rw [hsame]
    exact .kept _

def Holds (d : Desk) (name : String) (k : AttemptKeys) : Prop := ∃ a, d.attempt? name = some a ∧ a.keys = k

def Gives (d : Desk) (op : DeskOp) (name : String) (k : AttemptKeys) : Prop :=
  op.attempted? = some name ∧ (d.act op).1.keys? = some k

/-- Keys of an operation that are made of two identifiers drawn one after the other. -/
def Made (d : Desk) (name : String) (k : AttemptKeys) : Prop :=
  ∃ i, i + 1 < d.mint.drawn ∧ k = Attempt.keysOf name ⟨d.mint.supply i, d.mint.supply (i + 1)⟩

variable {d : Desk} {op : DeskOp} {name name' : String} {k k' : AttemptKeys}

theorem Holds.unique (h : d.Holds name k) (h' : d.Holds name k') : k = k' := by
  obtain ⟨a, ha, rfl⟩ := h
  obtain ⟨b, hb, rfl⟩ := h'
  rw [ha] at hb
  cases hb
  rfl

theorem Gives.holds (h : d.Gives op name k) : (d.step op).Holds name k := by
  obtain ⟨hname, hkeys⟩ := h
  cases op with
  | single op => exact IssuerOp.attempt?_of_keys _ _ _ hname hkeys
  | tryStart other slot => cases hname
  | drop slot => cases hname

theorem Gives.not_forgets (h : d.Gives op name k) : op.forgets name = false := by
  -- what forgets leaves no attempt, and this operation has left the one whose keys it gave out
  obtain ⟨a, ha, -⟩ := h.holds
  have hturn := d.step_turn op name
  rw [ha] at hturn
  cases hforgets : op.forgets name with
  | false => rfl
  | true => rw [hforgets] at hturn; cases hturn

/-! ## An attempt lives until it is forgotten -/

theorem Made.step (h : d.Made name k) (op : DeskOp) : (d.step op).Made name k := by
  obtain ⟨i, hi, hk⟩ := h
  rw [Made, step_mint]
  exact ⟨i, Nat.lt_of_lt_of_le hi (Nat.le_add_right _ _), hk⟩

theorem Made.after : ∀ {d : Desk}, d.Made name k → ∀ ops, (d.after ops).Made name k
  | _, h, [] => h
  | _, h, op :: ops => (h.step op).after ops

theorem Made.name_eq (h : d.Made name k) (h' : d.Made name' k) : name = name' := by
  obtain ⟨i, -, hi⟩ := h
  obtain ⟨j, -, hj⟩ := h'
  exact (Attempt.keysOf_inj (congrArg AttemptKeys.idempotencyKey (hi.symm.trans hj))).1

theorem Made.ne_fresh (h : d.Made name k) (op : DeskOp) (hd : (d.step op).mint.Distinct) :
    Attempt.keysOf name d.fresh ≠ k := by
  intro he
  obtain ⟨i, hi, hk⟩ := h
  rw [step_mint] at hd
  have hkey := (Attempt.keysOf_inj (congrArg AttemptKeys.idempotencyKey (he.trans hk))).2
  have hsame : d.mint.drawn = i := hd _ _ (by simp) (by simp; omega) hkey
  omega

/-- **The keys of an attempt are held until the attempt is forgotten**, and are not held again. -/
theorem holds_step_iff (hk : d.Made name k) (hd : (d.step op).mint.Distinct) :
    (d.step op).Holds name k ↔ d.Holds name k ∧ op.forgets name = false := by
  -- the last of the four turns makes an attempt, but with keys of its own
  have hturn := d.step_turn op name
  have hnew := hk.ne_fresh op hd
  unfold Holds
  generalize d.attempt? name = before at hturn ⊢
  generalize (d.step op).attempt? name = next at hturn ⊢
  generalize op.forgets name = forgets at hturn ⊢
  cases hturn with
  | kept => simp
  | forgotten => simp
  | renewed a a' hkeys => simp [hkeys]
  | minted a' hkeys => simp [hkeys, hnew]

theorem distinct_of_after {ops : List DeskOp} (hd : (d.after ops).mint.Distinct) : d.mint.Distinct :=
  hd.of_le (mint_after ops d).1 (mint_after ops d).2

theorem holds_after_iff : ∀ {ops : List DeskOp} {d : Desk}, d.Made name k → (d.after ops).mint.Distinct →
    ((d.after ops).Holds name k ↔ d.Holds name k ∧ ∀ op ∈ ops, op.forgets name = false)
  | [], _, _, _ => by simp
  | op :: ops, d, hk, hd => by
    rw [after_cons, holds_after_iff (hk.step op) hd, holds_step_iff hk (distinct_of_after hd), List.forall_mem_cons,
      and_assoc]

/-- **An attempt that is not forgotten stays, with its keys and its binding.** -/
theorem lives_after : ∀ {ops : List DeskOp} {d : Desk} {a : Attempt}, d.attempt? name = some a →
    (∀ op ∈ ops, op.forgets name = false) → ∃ a', (d.after ops).attempt? name = some a' ∧ a'.keys = a.keys ∧
      (a.fingerprint = none ∨ a'.fingerprint = a.fingerprint)
  | [], _, a, ha, _ => ⟨a, ha, rfl, .inr rfl⟩
  | op :: ops, d, a, ha, hops => by
    obtain ⟨hop, hops⟩ := List.forall_mem_cons.1 hops
    have hturn := d.step_turn op name
    rw [hop, ha] at hturn
    generalize hnext : (d.step op).attempt? name = next at hturn
    cases hturn with
    | kept => exact lives_after (d := d.step op) hnext hops
    | renewed _ b hkeys hstate hprint =>
      obtain ⟨a', ha', hkeys', hprint'⟩ := lives_after (d := d.step op) hnext hops
      refine ⟨a', ha', hkeys'.trans hkeys, ?_⟩
      rcases hprint with hnone | hsame
      · exact .inl hnone
      · rw [← hsame]; exact hprint'

/-! ## What is true of every attempt that is held -/

/-- The keys of every attempt have been made, and it is pending or has failed. -/
def AttemptsOpen (d : Desk) : Prop :=
  ∀ name a, d.attempt? name = some a → d.Made name a.keys ∧ (a.state = .pending ∨ a.state = .failed)

theorem attemptsOpen_start (mint : Mint) : (start mint).AttemptsOpen := fun _ _ h => by cases h

theorem AttemptsOpen.step (h : d.AttemptsOpen) (op : DeskOp) : (d.step op).AttemptsOpen := by
  intro name a' ha'
  have hturn := d.step_turn op name
  rw [ha'] at hturn
  generalize hold : d.attempt? name = before at hturn
  generalize op.forgets name = forgets at hturn
  cases hturn with
  | kept =>
    obtain ⟨hmade, hstate⟩ := h name a' hold
    exact ⟨hmade.step op, hstate⟩
  | renewed a _ hkeys hstate =>
    rw [hkeys]
    exact ⟨(h name a hold).1.step op, hstate⟩
  | minted _ hkeys hstate =>
    refine ⟨⟨d.mint.drawn, ?_, ?_⟩, .inl hstate⟩
    · rw [step_mint]; exact Nat.add_lt_add_left (by decide) _
    · rw [step_mint]; exact hkeys

theorem AttemptsOpen.after : ∀ {d : Desk}, d.AttemptsOpen → ∀ ops, (d.after ops).AttemptsOpen
  | _, h, [] => h
  | _, h, op :: ops => (h.step op).after ops

theorem AttemptsOpen.made (h : d.AttemptsOpen) (hk : d.Holds name k) : d.Made name k := by
  obtain ⟨a, ha, rfl⟩ := hk
  exact (h name a ha).1

/-! ## The laws of a run -/

/-- What every single operation keeps to. -/
structure OpLaws (d : Desk) (op : DeskOp) : Prop where
  /-- A refusal is a conflict and leaves everything as it is. -/
  refused : ∀ e, (d.act op).1.refused? = some e → e.category = .conflict ∧ (d.step op).held = d.held
  /-- The attempts of other names are left alone, but where all are forgotten. -/
  others : op ≠ .single .cancelAll → ∀ name, op.attempted? ≠ some name → (d.step op).attempt? name = d.attempt? name
  /-- An operation on marks leaves all attempts alone. -/
  marks : op.marks = true → (d.step op).held.issuer.attempts = d.held.issuer.attempts
  /-- An operation on attempts leaves all marks alone, and the guards that hold them. -/
  attempts : op.marks = false → (d.step op).held.issuer.inFlight = d.held.issuer.inFlight ∧
    (d.step op).held.guards = d.held.guards

theorem opLaws (d : Desk) (op : DeskOp) : d.OpLaws op := by
  cases op with
  | single op =>
    refine ⟨fun e he => ?_, fun hall name hname => ?_, IssuerOp.run_of_marks _ _ _,
      fun h => ⟨IssuerOp.run_of_not_marks _ _ _ h, rfl⟩⟩
    · have hrefused : (op.run d.fresh (.minted (d.mint.supply (d.mint.drawn + 2))) d.held.issuer).1 = .refused e := by
        generalize hr : (d.act (.single op)).1 = r at he
        unfold DeskResult.refused? at he
        split at he <;> cases he
        exact DeskResult.single.inj hr
      obtain ⟨hcategory, hissuer⟩ := IssuerOp.run_of_refused _ _ _ hrefused
      exact ⟨hcategory, congrArg (fun i => { d.held with issuer := i }) hissuer⟩
    · exact IssuerOp.attempt?_run_of_other _ _ _ hname (fun h => hall (congrArg DeskOp.single h))
  | tryStart other slot =>
    have hsame := d.held.attempts_tryStart other slot
    refine ⟨fun e he => ?_, fun _ name _ => congrArg (Table.get? · name) hsame, fun _ => hsame, fun h => ?_⟩
    · cases he
    · cases h
  | drop slot =>
    have hsame := d.held.attempts_drop slot
    refine ⟨fun e he => ?_, fun _ name _ => congrArg (Table.get? · name) hsame, fun _ => hsame, fun h => ?_⟩
    · cases he
    · cases h

/-- Two operations give out the same keys exactly if they are of one name and none between them forgets its attempt. -/
def KeysOfOneAttempt (d : Desk) (ops : List DeskOp) : Prop :=
  ∀ pre a mid b post, ops = pre ++ a :: (mid ++ b :: post) → ∀ name name' k k', (d.after pre).Gives a name k →
    (((d.after pre).step a).after mid).Gives b name' k' →
    (k = k' ↔ name = name' ∧ ∀ op ∈ mid, op.forgets name = false)

/-- The keys of an attempt are held exactly as long as nothing forgets it, and as long as they are it stays bound to
what it is bound to. -/
def BindingsStand (d : Desk) (ops : List DeskOp) : Prop :=
  ∀ pre mid post, ops = pre ++ (mid ++ post) → ∀ name a, (d.after pre).attempt? name = some a →
    (((d.after pre).after mid).Holds name a.keys ↔ ∀ op ∈ mid, op.forgets name = false) ∧
    ∀ a' print, ((d.after pre).after mid).attempt? name = some a' → a'.keys = a.keys → a.fingerprint = some print →
      a'.fingerprint = some print

structure RunLaws (d : Desk) (ops : List DeskOp) : Prop where
  keys : d.KeysOfOneAttempt ops
  bindings : d.BindingsStand ops
  /-- An attempt that is held has not succeeded. -/
  states : ∀ pre post, ops = pre ++ post → ∀ name a, (d.after pre).attempt? name = some a →
    a.state = .pending ∨ a.state = .failed
  single : ∀ pre op post, ops = pre ++ op :: post → (d.after pre).OpLaws op

/-- **Two operations give out the same keys exactly where they meet the same attempt.** -/
theorem gives_same_iff (ho : d.AttemptsOpen) {a b : DeskOp} {mid : List DeskOp}
    (hd : (((d.step a).after mid).step b).mint.Distinct) (ha : d.Gives a name k)
    (hb : ((d.step a).after mid).Gives b name' k') :
    k = k' ↔ name = name' ∧ ∀ op ∈ mid, op.forgets name = false := by
  have hmade : (d.step a).Made name k := (ho.step a).made ha.holds
  have hlater : (((d.step a).after mid).step b).Made name' k' := (((ho.step a).after mid).step b).made hb.holds
  have hlives : ((d.step a).after mid).Holds name k ↔ ∀ op ∈ mid, op.forgets name = false := by
    rw [holds_after_iff hmade (@distinct_of_after _ [b] hd), and_iff_right ha.holds]
  have hstep := holds_step_iff (hmade.after mid) hd
  constructor
  · rintro rfl
    obtain rfl := ((hmade.after mid).step b).name_eq hlater
    exact ⟨rfl, hlives.1 (hstep.1 hb.holds).1⟩
  · rintro ⟨rfl, hmid⟩
    exact (hstep.2 ⟨hlives.2 hmid, hb.not_forgets⟩).unique hb.holds

theorem bindingsStand (ho : d.AttemptsOpen) {ops : List DeskOp} (hd : (d.after ops).mint.Distinct) :
    d.BindingsStand ops := by
  rintro pre mid post rfl name a ha
  rw [after_append, after_append] at hd
  have hmade := ((ho.after pre) name a ha).1
  have hlives : ((d.after pre).after mid).Holds name a.keys ↔ ∀ op ∈ mid, op.forgets name = false := by
    rw [holds_after_iff hmade (distinct_of_after hd), and_iff_right ⟨a, ha, rfl⟩]
  refine ⟨hlives, fun a' print ha' hkeys hprint => ?_⟩
  obtain ⟨b, hb, -, hbound⟩ := lives_after ha (hlives.1 ⟨a', ha', hkeys⟩)
  rw [ha'] at hb
  cases hb
  rcases hbound with hnone | hsame
  · rw [hprint] at hnone; cases hnone
  · exact hsame.trans hprint

theorem keysOfOneAttempt (ho : d.AttemptsOpen) {ops : List DeskOp} (hd : (d.after ops).mint.Distinct) :
    d.KeysOfOneAttempt ops := by
  rintro pre a mid b post rfl name name' k k' ha hb
  simp only [after_append, after_cons] at hd
  exact gives_same_iff (ho.after pre) (distinct_of_after hd) ha hb

/-- **The laws of an issuer**, for every run in which identifiers are distinct. -/
theorem runLaws (mint : Mint) (ops : List DeskOp) (hd : ((start mint).after ops).mint.Distinct) :
    (start mint).RunLaws ops where
  keys := keysOfOneAttempt (attemptsOpen_start mint) hd
  bindings := bindingsStand (attemptsOpen_start mint) hd
  states := fun pre _ _ name a ha => ((attemptsOpen_start mint).after pre name a ha).2
  single := fun _ op _ _ => opLaws _ op

/-- Opens a store, fails, tries again, succeeds, and opens another. -/
def opening : List DeskOp :=
  [.single (.obtain "store-create"), .single (.markFailed "store-create"), .single (.obtain "store-create"),
    .single (.complete "store-create"), .single (.obtain "store-create")]

theorem opening_distinct : ((start (.ofMillis 0)).after opening).mint.Distinct := by
  have hapart : ∀ i < 15, ∀ j < 15, Uuid.version7 0 i = Uuid.version7 0 j → i = j := by decide
  exact fun i j hi hj he => hapart i hi j hj he

/-- The second try has the keys of the first, and the next store has others. -/
theorem opening_keys : ∃ k k', (start (.ofMillis 0)).Gives (.single (.obtain "store-create")) "store-create" k ∧
    ((start (.ofMillis 0)).after (opening.take 2)).Gives (.single (.obtain "store-create")) "store-create" k ∧
    ((start (.ofMillis 0)).after (opening.take 4)).Gives (.single (.obtain "store-create")) "store-create" k' ∧
    k ≠ k' := by
  have hlaws := runLaws (.ofMillis 0) opening opening_distinct
  have hsame := hlaws.keys [] _ [_] _ [_, _] rfl "store-create" "store-create" _ _ ⟨rfl, rfl⟩ ⟨rfl, rfl⟩
  have hother := hlaws.keys [] _ [_, _, _] _ [] rfl "store-create" "store-create" _ _ ⟨rfl, rfl⟩ ⟨rfl, rfl⟩
  refine ⟨_, _, ⟨rfl, rfl⟩, ⟨rfl, ?_⟩, ⟨rfl, rfl⟩, fun he => ?_⟩
  · exact congrArg some (hsame.2 ⟨rfl, by simp [IssuerOp.forgets, DeskOp.forgets]⟩).symm
  · simpa [IssuerOp.forgets, DeskOp.forgets] using (hother.1 he).2

end Desk
end BackOffice
