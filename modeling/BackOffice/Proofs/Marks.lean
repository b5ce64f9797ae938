import BackOffice.Proofs.History
/-!
# Submissions under way

Of all that an action does, few things touch the marks and attempts (`Deals`), and each of them is
about one submission.  Between them a mark is set exactly while one call submits under it, and the
attempt under its name is what that call has sent, made in the context that still stands (`Owned`).
A switch forgets the attempts and leaves the marks, so a call that it overtakes keeps others from
its operation until it ends, and has no attempt to spoil.
-/
namespace BackOffice

/-- What an exchange submits: its request and the mutation it stands for. -/
def Exchange.submits? (x : Exchange) : Option (Request × Mutation) :=
  match x.purpose with
  | .submit m _ => some (x.request, m)
  | _ => none

namespace Issuer

theorem isInFlight_iff (i : Issuer) (name : String) : i.isInFlight name = true ↔ name ∈ i.inFlight := by
  simp [isInFlight, SortedSet.contains]

theorem isInFlight_insert (inFlight : SortedSet String) (attempts : Table String Attempt) (name other : String) :
    (⟨inFlight.insert name, attempts⟩ : Issuer).isInFlight other = true ↔ other = name ∨ other ∈ inFlight := by
  rw [isInFlight_iff, SortedSet.mem_insert]

theorem isInFlight_finish (i : Issuer) (name other : String) :
    (i.finish name).isInFlight other = true ↔ i.isInFlight other = true ∧ other ≠ name := by
  rw [isInFlight_iff, isInFlight_iff]
  exact SortedSet.mem_erase _ _ _

end Issuer

/-- The end of an exchange touches the issuer only where it submitted something. -/
theorem Client.concluded_issuer (s : Session) (p : Purpose) (result : Except ApiError Answer) :
    (concluded s p result).issuer = match p, result with
      | .submit m _, .ok _    => (s.issuer.complete m.operation).2.finish m.operation
      | .submit m _, .error _ => (s.issuer.markFailed m.operation).finish m.operation
      | _, _ => s.issuer := by
  unfold concluded
  rcases p with _ | stamp | ⟨resource, stamp, key⟩ | ⟨m, tenant⟩ | _ <;> rcases result with err | a <;> try rfl
  · simp only
    split
    · split <;> rfl
    · rfl
  · simp only
    split <;> rfl

theorem Client.abandon_cases (s : Session) (x : Exchange) :
    (∃ m tenant, x.purpose = .submit m tenant ∧
      abandon s x = { s with issuer := s.issuer.finish m.operation }) ∨
    (∀ m tenant, x.purpose ≠ .submit m tenant) ∧ abandon s x = s := by
  unfold abandon
  split
  · rename_i m tenant hp; exact .inl ⟨m, tenant, hp, rfl⟩
  · rename_i hp; exact .inr ⟨hp, rfl⟩

namespace Run

/-- What call `id` submits, if it is under way and submits something. -/
def submitting? (r : Run) (id : Nat) : Option (Request × Mutation) :=
  (r.ongoing.get? id).bind (fun w => w.exchange.submits?)

theorem submitting?_of_waiting {r : Run} {id : Nat} {x : Exchange} {m : Mutation} {tenant : TenantId}
    (hx : r.ongoing.get? id = some (.answer x)) (hp : x.purpose = .submit m tenant) :
    r.submitting? id = some (x.request, m) := by
  unfold submitting?
  rw [hx]
  simp only [Option.bind_some, Waiting.exchange, Exchange.submits?, hp]

theorem Completes.attempt? {r : Run} {a : Action} {m : Mutation} {tenant : TenantId} (h : r.Completes a m tenant) :
    (r.step a).session.issuer.attempt? m.operation = none := by
  obtain ⟨id, arrival, x, answer, rfl, hx, hp, hv⟩ := h
  have hissuer : (r.step (.answer id arrival)).session.issuer =
      (r.session.issuer.complete m.operation).2.finish m.operation := by
    unfold step
    rw [act_of_settled hx hv]
    exact (Client.concluded_issuer r.session x.purpose (.ok answer)).trans (by rw [hp])
  rw [hissuer, Issuer.attempt?_finish, Issuer.attempt?_complete, if_pos rfl]

/-- What an action does to the marks and attempts, and to the submissions under way. -/
inductive Deals (r : Run) : Action → Run → Prop where
  | quiet (a : Action) (r' : Run) (hi : r'.session.issuer = r.session.issuer) (hst : r'.session.stamp = r.session.stamp)
      (hs : ∀ id, r'.submitting? id = r.submitting? id) : Deals r a r'
  | opened (call : Call) (m : Mutation) (att : Attempt) (n : Nat) (r' : Run)
      (hm : Client.mutation? r.session call = some m) (hp : r.session.isAllowed m.permission = true)
      (hf : r.session.issuer.isInFlight m.operation = false)
      (hb : r.session.issuer.binding? (r.session.skip n).nextKeys m.operation m.payload = some att)
      (hn : r'.session = (Client.holding r.session m att).skip (n + 3))
      (hs : ∀ id, r'.submitting? id = if id = r.started then some (Client.mutationRequest m att.keys r.session.stamp, m)
        else r.submitting? id) : Deals r (.begin call) r'
  | completed (a : Action) (id : Nat) (q : Request) (m : Mutation) (tenant : TenantId) (r' : Run)
      (hq : r.submitting? id = some (q, m)) (hc : r.Completes a m tenant)
      (hi : r'.session.issuer = (r.session.issuer.complete m.operation).2.finish m.operation)
      (hst : r'.session.stamp = r.session.stamp)
      (hs : ∀ i, r'.submitting? i = if i = id then none else r.submitting? i) : Deals r a r'
  | failed (id : Nat) (arrival : Arrival) (q : Request) (m : Mutation) (r' : Run) (hq : r.submitting? id = some (q, m))
      (hi : r'.session.issuer = (r.session.issuer.markFailed m.operation).finish m.operation)
      (hst : r'.session.stamp = r.session.stamp)
      (hs : ∀ i, r'.submitting? i = if i = id then none else r.submitting? i) : Deals r (.answer id arrival) r'
  | dropped (id : Nat) (q : Request) (m : Mutation) (r' : Run) (hq : r.submitting? id = some (q, m))
      (hi : r'.session.issuer = r.session.issuer.finish m.operation) (hst : r'.session.stamp = r.session.stamp)
      (hs : ∀ i, r'.submitting? i = if i = id then none else r.submitting? i) : Deals r (.abandon id) r'
  | switched (subject : Subject) (r' : Run) (hi : r'.session.issuer = r.session.issuer.cancelAll.2)
      (hs : ∀ id, r'.submitting? id = r.submitting? id) : Deals r (.switch subject) r'
  | cancelled (operation : String) (r' : Run) (hi : r'.session.issuer = (r.session.issuer.cancel operation).2)
      (hst : r'.session.stamp = r.session.stamp)
      (hs : ∀ id, r'.submitting? id = r.submitting? id) : Deals r (.cancel operation) r'

variable {r r' : Run} {a : Action} {e : Event}

theorem submitting?_insert (ongoing : Table Nat Waiting) (id : Nat) (w : Waiting) (hr : r.ongoing = ongoing.insert id w)
    (i : Nat) : r.submitting? i = if i = id then w.exchange.submits?
      else (ongoing.get? i).bind (fun w => w.exchange.submits?) := by
  unfold submitting?
  rw [hr, Table.get?_insert]
  by_cases h : i = id
  · rw [if_pos h, if_pos h.symm]; rfl
  · rw [if_neg h, if_neg (Ne.symm h)]

theorem submitting?_erase (ongoing : Table Nat Waiting) (id : Nat) (hr : r.ongoing = ongoing.erase id) (i : Nat) :
    r.submitting? i = if i = id then none else (ongoing.get? i).bind (fun w => w.exchange.submits?) := by
  unfold submitting?
  rw [hr, Table.get?_erase]
  by_cases h : i = id
  · rw [if_pos h, if_pos h]; rfl
  · rw [if_neg h, if_neg h]

theorem Orderly.fresh (hr : r.Orderly) : r.ongoing.get? r.started = none := by
  cases h : r.ongoing.get? r.started with
  | none => rfl
  | some w => exact absurd (hr.numbered _ _ h) (Nat.lt_irrefl _)

/-- A call that returns in its first turn, having only drawn identifiers, leaves the run as it was but for
those and its number. -/
theorem step_of_declined (hr : r.Orderly) {call : Call} {reply : Reply} {n : Nat}
    (h : Client.start r.session call = (.returned reply, r.session.skip n)) :
    r.step (.begin call) = { r with session := r.session.skip n, started := r.started + 1 } := by
  show (({ r with started := r.started + 1 } : Run).note r.started (Client.start r.session call)).2 = _
  rw [h]
  simp only [note, Table.erase_of_absent hr.fresh]

theorem Turn.deals (h : Turn r a e r') (hr : r.Orderly) : Deals r a r' := by
  -- putting in place of a call what submits the same changes no submission
  have hsame : ∀ {id : Nat} {w : Waiting} {s : Run}, s.ongoing = r.ongoing.insert id w →
      w.exchange.submits? = r.submitting? id → ∀ i, s.submitting? i = r.submitting? i := by
    intro id w s hs hw i
    rw [submitting?_insert _ id w hs]
    split
    · rename_i hi; rw [hi]; exact hw
    · rfl
  have hgone : ∀ {id : Nat} {s : Run}, s.ongoing = r.ongoing.erase id →
      r.submitting? id = none → ∀ i, s.submitting? i = r.submitting? i := by
    intro id s hs hw i
    rw [submitting?_erase _ id hs]
    split
    · rename_i hi; rw [hi]; exact hw.symm
    · rfl
  have hfresh : r.submitting? r.started = none := by unfold submitting?; rw [hr.fresh]; rfl
  cases h with
  | begun call p s ho =>
    cases ho with
    | declined reply n => exact .quiet _ _ rfl rfl (hgone rfl hfresh)
    | served resource body hc hit => exact .quiet _ _ rfl rfl (hgone rfl hfresh)
    | listed resource hc miss => exact .quiet _ _ rfl rfl (hsame rfl hfresh.symm)
    | asked purpose hc =>
      refine .quiet _ _ rfl rfl (hsame rfl ?_)
      rw [hfresh]
      rcases hc with ⟨-, rfl⟩ | ⟨-, rfl⟩ <;> rfl
    | sent request hc => exact .quiet _ _ rfl rfl (hsame rfl hfresh.symm)
    | submitted m att n hm hp hf hb =>
      refine .opened call m att n _ hm hp hf hb rfl (fun i => ?_)
      exact submitting?_insert r.ongoing r.started (.answer (Client.submission r.session m att.keys)) rfl i
  | again id arrival x ms hx hv =>
    refine .quiet _ _ rfl rfl (hsame rfl ?_)
    unfold submitting?; rw [hx]; rfl
  | settled id arrival x result hx hv =>
    have hsub : r.submitting? id = x.submits? := by unfold submitting?; rw [hx]; rfl
    have hi := Client.concluded_issuer r.session x.purpose result
    have hst : ((Client.concluded r.session x.purpose result).skip 2).stamp = r.session.stamp := by
      unfold Session.stamp
      rw [Session.skip_contexts, Client.concluded_contexts]
    unfold Exchange.submits? at hsub
    split at hsub
    · rename_i m tenant hp
      cases result with
      | error err =>
        exact .failed id arrival x.request m _ hsub (hi.trans (by rw [hp])) hst (submitting?_erase _ id rfl)
      | ok answer =>
        exact .completed _ id x.request m tenant _ hsub ⟨id, arrival, x, answer, rfl, hx, hp, hv⟩
          (hi.trans (by rw [hp])) hst (submitting?_erase _ id rfl)
    · rename_i hp
      refine .quiet _ _ (hi.trans ?_) hst (hgone rfl hsub)
      split
      · rename_i m tenant answer h; exact absurd h (hp m tenant)
      · rename_i m tenant err h; exact absurd h (hp m tenant)
      · rfl
  | resumed id ms x hx =>
    refine .quiet _ _ rfl rfl (hsame rfl ?_)
    unfold submitting?; rw [hx]; rfl
  | dropped id w hw =>
    have hsub : r.submitting? id = w.exchange.submits? := by unfold submitting?; rw [hw]; rfl
    unfold Exchange.submits? at hsub
    rcases Client.abandon_cases r.session w.exchange with ⟨m, tenant, hp, he⟩ | ⟨hp, he⟩
    · rw [hp] at hsub
      exact .dropped id _ m _ hsub (congrArg Session.issuer he :) (congrArg Session.stamp he :)
        (submitting?_erase _ id rfl)
    · have hnone : r.submitting? id = none := by
        rw [hsub]
        split
        · rename_i m tenant h; exact absurd h (hp m tenant)
        · rfl
      exact .quiet _ _ (congrArg Session.issuer he) (congrArg Session.stamp he) (hgone rfl hnone)
  | ignored a id ha => exact .quiet _ _ rfl rfl (fun _ => rfl)
  | switched subject => exact .switched subject _ rfl (fun _ => rfl)
  | cancelled operation => exact .cancelled operation _ rfl rfl (fun _ => rfl)
  | granted set => exact .quiet _ _ rfl rfl (fun _ => rfl)
  | required key => exact .quiet _ _ rfl rfl (fun _ => rfl)
  | ticked now => exact .quiet _ _ rfl rfl (fun _ => rfl)

/-- Marks, attempts and submissions agree. -/
structure Owned (r : Run) : Prop where
  /-- A mark is set exactly while some call submits under it. -/
  marked : ∀ name, r.session.issuer.isInFlight name = true ↔ ∃ id q m, r.submitting? id = some (q, m) ∧ m.operation = name
  /-- No two calls submit under one name. -/
  sole : ∀ id id' q q' m m', r.submitting? id = some (q, m) → r.submitting? id' = some (q', m') →
    m.operation = m'.operation → id = id'
  /-- An attempt under the name of a submission is that submission's, and its context still stands. -/
  own : ∀ id q m att, r.submitting? id = some (q, m) → r.session.issuer.attempt? m.operation = some att →
    q = Client.mutationRequest m att.keys r.session.stamp ∧ att.fingerprint = some (fingerprint m.payload)

theorem owned_start (config : Config) (subject : Subject) (mint : Mint) : (start config subject mint).Owned := by
  refine ⟨fun name => ⟨fun h => ?_, ?_⟩, ?_, ?_⟩
  · cases h
  · rintro ⟨id, q, m, h, -⟩; cases h
  · intro id id' q q' m m' h; cases h
  · intro id q m att h; cases h

/-- A submission that begins takes a mark that no call holds, and its attempt is of this context. -/
theorem Owned.opened (hr : r.Orderly) (ho : r.Owned) {m : Mutation} {att : Attempt} {n : Nat}
    (hf : r.session.issuer.isInFlight m.operation = false)
    (hb : r.session.issuer.binding? (r.session.skip n).nextKeys m.operation m.payload = some att)
    (hn : r'.session = (Client.holding r.session m att).skip (n + 3))
    (hs : ∀ id, r'.submitting? id = if id = r.started then some (Client.mutationRequest m att.keys r.session.stamp, m)
      else r.submitting? id) : r'.Owned := by
  have hnew := hs r.started
  rw [if_pos rfl] at hnew
  have hold : ∀ {i : Nat} {p : Request × Mutation}, r.submitting? i = some p → r'.submitting? i = some p := by
    intro i p h
    rw [hs, if_neg]
    · exact h
    · rintro rfl
      unfold submitting? at h
      rw [hr.fresh] at h; cases h
  have hother : ∀ {i : Nat} {q' : Request} {m' : Mutation}, r.submitting? i = some (q', m') →
      m'.operation ≠ m.operation := by
    intro i q' m' h he
    have hmark := (ho.marked m'.operation).2 ⟨i, q', m', h, rfl⟩
    rw [he, hf] at hmark; cases hmark
  have hback : ∀ {i : Nat} {q' : Request} {m' : Mutation}, r'.submitting? i = some (q', m') →
      (i = r.started ∧ q' = Client.mutationRequest m att.keys r.session.stamp ∧ m' = m) ∨
        r.submitting? i = some (q', m') := by
    intro i q' m' h
    rw [hs] at h
    split at h
    · rename_i hi; cases h; exact .inl ⟨hi, rfl, rfl⟩
    · exact .inr h
  have hissuer : r'.session.issuer =
      ⟨r.session.issuer.inFlight.insert m.operation, r.session.issuer.attempts.insert m.operation att⟩ := by
    rw [hn]; rfl
  refine ⟨fun name => ?_, fun i i' q q' m₁ m₂ h h' he => ?_, fun i q' m' att' h hatt => ?_⟩
  · rw [hissuer, Issuer.isInFlight_insert, ← Issuer.isInFlight_iff, ho.marked]
    constructor
    · rintro (rfl | ⟨i, q', m', h, rfl⟩)
      · exact ⟨_, _, _, hnew, rfl⟩
      · exact ⟨_, _, _, hold h, rfl⟩
    · rintro ⟨i, q', m', h, rfl⟩
      rcases hback h with ⟨-, -, rfl⟩ | h
      · exact .inl rfl
      · exact .inr ⟨_, _, _, h, rfl⟩
  · rcases hback h with ⟨rfl, -, rfl⟩ | h <;> rcases hback h' with ⟨rfl, -, rfl⟩ | h'
    · rfl
    · exact absurd he.symm (hother h')
    · exact absurd he (hother h)
    · exact ho.sole _ _ _ _ _ _ h h' he
  · rw [hn, Client.attempt?_holding] at hatt
    rw [hn, Client.stamp_holding]
    rcases hback h with ⟨-, rfl, rfl⟩ | h
    · rw [if_pos rfl] at hatt
      cases hatt
      exact ⟨rfl, (Issuer.binding?_cases hb).1⟩
    · rw [if_neg (hother h).symm] at hatt
      exact ho.own i q' m' att' h hatt

/-- A submission that ends gives back its mark, and leaves the attempts of other names alone. -/
theorem Owned.ended (ho : r.Owned) {id : Nat} {q : Request} {m : Mutation} (hq : r.submitting? id = some (q, m))
    (hs : ∀ i, r'.submitting? i = if i = id then none else r.submitting? i)
    (hflight : ∀ name, r'.session.issuer.isInFlight name = true ↔
      r.session.issuer.isInFlight name = true ∧ name ≠ m.operation)
    (hatt : ∀ name, name ≠ m.operation → r'.session.issuer.attempt? name = r.session.issuer.attempt? name)
    (hstamp : r'.session.stamp = r.session.stamp) : r'.Owned := by
  have hback : ∀ {i : Nat} {p : Request × Mutation}, r'.submitting? i = some p → i ≠ id ∧ r.submitting? i = some p := by
    intro i p h
    rw [hs] at h
    split at h
    · cases h
    · rename_i hi; exact ⟨hi, h⟩
  have hother : ∀ {i : Nat} {q' : Request} {m' : Mutation}, i ≠ id → r.submitting? i = some (q', m') →
      m'.operation ≠ m.operation := fun hi h he => hi (ho.sole _ _ _ _ _ _ h hq he)
  refine ⟨fun name => ?_, ?_, ?_⟩
  · rw [hflight, ho.marked]
    constructor
    · rintro ⟨⟨i, q', m', h, rfl⟩, hne⟩
      refine ⟨i, q', m', ?_, rfl⟩
      rw [hs, if_neg]
      · exact h
      · rintro rfl
        rw [hq] at h; cases h
        exact hne rfl
    · rintro ⟨i, q', m', h, rfl⟩
      obtain ⟨hi, h⟩ := hback h
      exact ⟨⟨i, q', m', h, rfl⟩, hother hi h⟩
  · intro i i' q₁ q₂ m₁ m₂ h₁ h₂ he
    exact ho.sole _ _ _ _ _ _ (hback h₁).2 (hback h₂).2 he
  · intro i q' m' att h hatt'
    obtain ⟨hi, h⟩ := hback h
    rw [hatt _ (hother hi h)] at hatt'
    rw [hstamp]
    exact ho.own i q' m' att h hatt'

/-- Where no submission begins or ends the marks stand, and an attempt that is left is of this context. -/
theorem Owned.kept (ho : r.Owned) (hs : ∀ id, r'.submitting? id = r.submitting? id)
    (hflight : r'.session.issuer.inFlight = r.session.issuer.inFlight)
    (hatt : ∀ name att, r'.session.issuer.attempt? name = some att →
      r.session.issuer.attempt? name = some att ∧ r'.session.stamp = r.session.stamp) : r'.Owned := by
  refine ⟨fun name => ?_, fun id id' q q' m m' h h' he => ?_, fun id q m att h hkept => ?_⟩
  · simp only [hs, Issuer.isInFlight_iff, hflight]
    rw [← Issuer.isInFlight_iff]
    exact ho.marked name
  · exact ho.sole id id' q q' m m' (hs id ▸ h) (hs id' ▸ h') he
  · obtain ⟨hold, hst⟩ := hatt m.operation att hkept
    rw [hst]
    exact ho.own id q m att (hs id ▸ h) hold

theorem Turn.owned (h : Turn r a e r') (hr : r.Orderly) (ho : r.Owned) : r'.Owned := by
  cases h.deals hr with
  | quiet a r' hi hst hs =>
    exact ho.kept hs (congrArg Issuer.inFlight hi) (fun name att hatt => ⟨hi ▸ hatt, hst⟩)
  | opened call m att n r' hm hp hf hb hn hs => exact ho.opened hr hf hb hn hs
  | completed a id q m tenant r' hq hc hi hst hs =>
    refine ho.ended hq hs (fun name => ?_) (fun name hne => ?_) hst
    · rw [hi, Issuer.isInFlight_finish]; rfl
    · rw [hi, Issuer.attempt?_finish, Issuer.attempt?_complete, if_neg hne]
  | failed id arrival q m r' hq hi hst hs =>
    refine ho.ended hq hs (fun name => ?_) (fun name hne => ?_) hst
    · rw [hi, Issuer.isInFlight_finish]; rfl
    · rw [hi, Issuer.attempt?_finish, Issuer.attempt?_markFailed, if_neg hne]
  | dropped id q m r' hq hi hst hs =>
    refine ho.ended hq hs (fun name => ?_) (fun name hne => ?_) hst
    · rw [hi, Issuer.isInFlight_finish]
    · rw [hi]; rfl
  | switched subject r' hi hs =>
    refine ho.kept hs (congrArg Issuer.inFlight hi :) (fun name att hatt => ?_)
    rw [hi, Issuer.attempt?_cancelAll] at hatt; cases hatt
  | cancelled operation r' hi hst hs =>
    refine ho.kept hs (congrArg Issuer.inFlight hi :) (fun name att hatt => ⟨?_, hst⟩)
    rw [hi, Issuer.attempt?_cancel] at hatt
    split at hatt
    · cases hatt
    · exact hatt

theorem Reached.owned (h : r.Reached) : r.Owned :=
  h.keeps owned_start (fun _ _ _ _ ht hr ho => ht.owned hr ho)

end Run
end BackOffice
