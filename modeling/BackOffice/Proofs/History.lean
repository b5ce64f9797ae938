import BackOffice.Proofs.Turns
/-!
# Runs of the client

A run is taken apart once: what one action of the client does, or the clock, is one of eleven things
(`Turn`), and whatever each of them keeps holds after every run (`after_keeps`).  Calls are numbered in the order
they begin and no number is given twice, so a number stands for one call for all of a run, and its
exchange goes on as what it was (`continues_after`).
-/
namespace BackOffice

/-- What is done through the client or comes with time, and not to a part of the session by hand. -/
def Action.isClient : Action → Bool
  | .cache (.tick _) => true
  | .issuer _ | .cache _ | .context _ => false
  | _ => true

/-- The exchange whose request an action has handed to the transport. -/
def Event.sent? : Event → Option Exchange
  | .progressed _ (.waiting (.answer x)) => some x
  | _ => none

/-- The call whose turn an action is. -/
def Action.call? : Action → Option Nat
  | .answer id _ | .resume id | .abandon id => some id
  | _ => none

def Waiting.exchange : Waiting → Exchange
  | .answer x  => x
  | .pause _ x => x

namespace Run

def step (r : Run) (a : Action) : Run := (r.act a).2

def after (r : Run) (acts : List Action) : Run := acts.foldl step r

@[simp] theorem after_nil (r : Run) : r.after [] = r := rfl

@[simp] theorem after_cons (r : Run) (a : Action) (acts : List Action) :
    r.after (a :: acts) = (r.step a).after acts := rfl

theorem after_append (r : Run) (as bs : List Action) : r.after (as ++ bs) = (r.after as).after bs :=
  List.foldl_append

/-- The version of the context that the session is in. -/
def version (r : Run) : Nat := r.session.contexts.current Contexts.tenantKey

/-- The run when the clock has come to show another moment. -/
def tick (r : Run) (now : Moment) : Run := r.step (.cache (.tick now))

@[simp] theorem tick_clock (r : Run) : r.tick r.session.cache.clock = r := rfl

/-- What one action of the client or the clock does, and what it shows. -/
inductive Turn (r : Run) : Action → Event → Run → Prop where
  | begun (call : Call) (p : Progress) (s : Session) (h : Client.Opening r.session call p s) :
      Turn r (.begin call) (.progressed r.started p)
        (({ r with started := r.started + 1 } : Run).note r.started (p, s)).2
  | again (id : Nat) (arrival : Arrival) (x : Exchange) (ms : Nat) (hx : r.ongoing.get? id = some (.answer x))
      (hv : Client.verdict r.config r.session x arrival = .again ms) :
      Turn r (.answer id arrival) (.progressed id (.waiting (.pause ms x)))
        { r with session := r.session.skip 1, ongoing := r.ongoing.insert id (.pause ms x) }
  | settled (id : Nat) (arrival : Arrival) (x : Exchange) (result : Except ApiError Answer)
      (hx : r.ongoing.get? id = some (.answer x))
      (hv : Client.verdict r.config r.session x arrival = .settled result) :
      Turn r (.answer id arrival)
        (.progressed id (.returned (Client.settle (r.session.skip 1) x.purpose result).1))
        { r with session := (Client.concluded r.session x.purpose result).skip 2, ongoing := r.ongoing.erase id }
  | resumed (id ms : Nat) (x : Exchange) (hx : r.ongoing.get? id = some (.pause ms x)) :
      Turn r (.resume id) (.progressed id (Client.resume x))
        { r with ongoing := r.ongoing.insert id (.answer { x with attempt := x.attempt + 1 }) }
  | dropped (id : Nat) (w : Waiting) (hw : r.ongoing.get? id = some w) :
      Turn r (.abandon id) .done
        { r with session := Client.abandon r.session w.exchange, ongoing := r.ongoing.erase id }
  | ignored (a : Action) (id : Nat) (ha : a.call? = some id) : Turn r a .ignored r
  | switched (subject : Subject) :
      Turn r (.switch subject) .done { r with session := r.session.switchContext subject }
  | cancelled (operation : String) :
      Turn r (.cancel operation) (.cancelled (r.session.issuer.cancel operation).1)
        { r with session := { r.session with issuer := (r.session.issuer.cancel operation).2 } }
  | granted (set : EffectiveSet) : Turn r (.grant set) .done { r with session := r.session.grant set }
  | required (key : PermissionKey) :
      Turn r (.require key) (.required (r.session.require (.minted r.session.mint.peek) key))
        { r with session := r.session.skip 1 }
  | ticked (now : Moment) : Turn r (.cache (.tick now)) (.cache .done) (r.tick now)

theorem act_begin (r : Run) (call : Call) :
    (r.act (.begin call)).1 = .progressed r.started (Client.start r.session call).1 := rfl

theorem step_begin_session (r : Run) (call : Call) :
    (r.step (.begin call)).session = (Client.start r.session call).2 := rfl

theorem act_of_settled {r : Run} {id : Nat} {arrival : Arrival} {x : Exchange} {result : Except ApiError Answer}
    (hx : r.ongoing.get? id = some (.answer x))
    (hv : Client.verdict r.config r.session x arrival = .settled result) :
    r.act (.answer id arrival) = (.progressed id (.returned (Client.settle (r.session.skip 1) x.purpose result).1),
      { r with session := (Client.concluded r.session x.purpose result).skip 2, ongoing := r.ongoing.erase id }) := by
  simp only [act, hx, Client.arrive_of_settled hv, note]

theorem act_of_again {r : Run} {id ms : Nat} {arrival : Arrival} {x : Exchange}
    (hx : r.ongoing.get? id = some (.answer x)) (hv : Client.verdict r.config r.session x arrival = .again ms) :
    r.act (.answer id arrival) = (.progressed id (.waiting (.pause ms x)),
      { r with session := r.session.skip 1, ongoing := r.ongoing.insert id (.pause ms x) }) := by
  simp only [act, hx, Client.arrive_eq, hv, note]

theorem act_of_paused {r : Run} {id ms : Nat} {x : Exchange} (hx : r.ongoing.get? id = some (.pause ms x)) :
    r.act (.resume id) = (.progressed id (.waiting (.answer { x with attempt := x.attempt + 1 })),
      { r with ongoing := r.ongoing.insert id (.answer { x with attempt := x.attempt + 1 }) }) := by
  simp only [act, hx, note, Client.resume]

/-- **What an action of the client or the clock does is one of eleven things.** -/
theorem act_turn (r : Run) {a : Action} (h : a.isClient = true) : Turn r a (r.act a).1 (r.step a) := by
  unfold step
  cases a with
  | begin call => exact .begun call _ _ (Client.start_opening r.session call)
  | answer id arrival =>
    rcases hw : r.ongoing.get? id with _ | x | ⟨ms, x⟩
    · simp only [act, hw]; exact .ignored _ id rfl
    · cases hv : Client.verdict r.config r.session x arrival with
      | again ms =>
        rw [act_of_again hw hv]
        exact .again id arrival x ms hw hv
      | settled result =>
        rw [act_of_settled hw hv]
        exact .settled id arrival x result hw hv
    · simp only [act, hw]; exact .ignored _ id rfl
  | resume id =>
    rcases hw : r.ongoing.get? id with _ | x | ⟨ms, x⟩
    · simp only [act, hw]; exact .ignored _ id rfl
    · simp only [act, hw]; exact .ignored _ id rfl
    · rw [act_of_paused hw]; exact .resumed id ms x hw
  | abandon id =>
    rcases hw : r.ongoing.get? id with _ | x | ⟨ms, x⟩
    · simp only [act, hw]; exact .ignored _ id rfl
    · simp only [act, hw]; exact .dropped id _ hw
    · simp only [act, hw]; exact .dropped id _ hw
  | switch subject => exact .switched subject
  | cancel operation => exact .cancelled operation
  | grant set => exact .granted set
  | require key => exact .required key
  | cache op =>
    cases op with
    | tick now => exact .ticked now
    | _ => cases h
  | issuer op => cases h
  | context op => cases h

theorem after_keeps {P : Run → Prop} (hstep : ∀ r a e r', Turn r a e r' → P r → P r') {r : Run} (hr : P r) :
    ∀ {acts : List Action}, (∀ a ∈ acts, a.isClient = true) → P (r.after acts)
  | [], _ => hr
  | a :: acts, h => by
    obtain ⟨ha, hacts⟩ := List.forall_mem_cons.1 h
    exact after_keeps hstep (hstep r a _ _ (act_turn r ha) hr) hacts

/-- How every turn leaves a run beside the one before it, a whole run does. -/
theorem after_relates {R : Run → Run → Prop} (hrefl : ∀ r, R r r) (htrans : ∀ {r s t}, R r s → R s t → R r t)
    (hstep : ∀ r a e r', Turn r a e r' → R r r') {acts : List Action} (hc : ∀ a ∈ acts, a.isClient = true) (r : Run) :
    R r (r.after acts) :=
  after_keeps (P := R r) (fun _ _ _ _ ht h => htrans h (hstep _ _ _ _ ht)) (hrefl r) hc

variable {r r' : Run} {a : Action} {e : Event}

/-! ## Calls and their numbers -/

/-- An exchange that has gone on: the same request for the same purpose, perhaps sent again. -/
def Continues (x y : Exchange) : Prop := y.request = x.request ∧ y.purpose = x.purpose ∧ x.attempt ≤ y.attempt

theorem Continues.refl (x : Exchange) : Continues x x := ⟨rfl, rfl, Nat.le_refl _⟩

theorem Continues.trans {x y z : Exchange} (h : Continues x y) (k : Continues y z) : Continues x z :=
  ⟨k.1.trans h.1, k.2.1.trans h.2.1, Nat.le_trans h.2.2 k.2.2⟩

/-- The calls of a run: each has a number that has been given, has been sent at least once, and
pauses only if it reads. -/
structure Orderly (r : Run) : Prop where
  numbered : ∀ id w, r.ongoing.get? id = some w → id < r.started
  counted : ∀ id w, r.ongoing.get? id = some w → 1 ≤ w.exchange.attempt
  paused : ∀ id ms x, r.ongoing.get? id = some (.pause ms x) → x.request.method = .get

theorem orderly_start (config : Config) (subject : Subject) (mint : Mint) : (start config subject mint).Orderly := by
  refine ⟨fun id w h => ?_, fun id w h => ?_, fun id ms x h => ?_⟩
  all_goals cases h

theorem Turn.started_le (h : Turn r a e r') : r.started ≤ r'.started := by
  cases h with
  | begun call p s ho => exact Nat.le_succ _
  | _ => exact Nat.le_refl _

theorem Turn.config_eq (h : Turn r a e r') : r'.config = r.config := by
  cases h <;> rfl

/-- A call that is waiting after a turn has just begun, or was waiting before. -/
theorem Turn.waiting (h : Turn r a e r') {id : Nat} {w' : Waiting} (hw : r'.ongoing.get? id = some w') :
    (id = r.started ∧ r'.started = r.started + 1 ∧ e = .progressed id (.waiting w') ∧
        ∃ x, w' = .answer x ∧ x.attempt = 1) ∨
      ∃ w, r.ongoing.get? id = some w ∧ Continues w.exchange w'.exchange ∧
        (w' = w ∨ e = .progressed id (.waiting w')) := by
  have hsame : r.ongoing.get? id = some w' → ∃ w, r.ongoing.get? id = some w ∧ Continues w.exchange w'.exchange ∧
      (w' = w ∨ e = .progressed id (.waiting w')) := fun h => ⟨w', h, Continues.refl _, .inl rfl⟩
  cases h with
  | begun call p s ho =>
    cases p with
    | returned reply => exact .inr (hsame (Table.get?_of_erase hw))
    | waiting w =>
      rcases Table.get?_insert_cases hw with ⟨rfl, rfl⟩ | hold
      · refine .inl ⟨rfl, rfl, rfl, ?_⟩
        cases ho <;> exact ⟨_, rfl, rfl⟩
      · exact .inr (hsame hold)
  | again i arrival x ms hx hv =>
    rcases Table.get?_insert_cases hw with ⟨rfl, rfl⟩ | hold
    · exact .inr ⟨_, hx, Continues.refl _, .inr rfl⟩
    · exact .inr (hsame hold)
  | resumed i ms x hx =>
    rcases Table.get?_insert_cases hw with ⟨rfl, rfl⟩ | hold
    · exact .inr ⟨_, hx, ⟨rfl, rfl, Nat.le_succ _⟩, .inr rfl⟩
    · exact .inr (hsame hold)
  | settled i arrival x result hx hv => exact .inr (hsame (Table.get?_of_erase hw))
  | dropped i w hw' => exact .inr (hsame (Table.get?_of_erase hw))
  | _ => exact .inr (hsame hw)

/-- A request goes to the transport when its call begins, or again when a pause is over. -/
theorem Turn.sent {id : Nat} {x : Exchange} (h : Turn r a (.progressed id (.waiting (.answer x))) r') :
    (id = r.started ∧ ∃ call, a = .begin call ∧ Client.Opening r.session call (.waiting (.answer x)) r'.session) ∨
      ∃ ms y, a = .resume id ∧ r.ongoing.get? id = some (.pause ms y) ∧ x = { y with attempt := y.attempt + 1 } := by
  cases h with
  | begun call p s ho => exact .inl ⟨rfl, call, rfl, ho⟩
  | resumed i ms y hy => exact .inr ⟨ms, y, rfl, hy, rfl⟩

theorem Turn.waiting_of_event {id : Nat} {w : Waiting} (h : Turn r a (.progressed id (.waiting w)) r') :
    r'.ongoing.get? id = some w := by
  cases h with
  | begun call p s ho => exact (Table.get?_insert _ _ _ _).trans (if_pos rfl)
  | again id arrival x ms hx hv => exact (Table.get?_insert _ _ _ _).trans (if_pos rfl)
  | resumed id ms x hx => exact (Table.get?_insert _ _ _ _).trans (if_pos rfl)

/-- A call returns in its first turn, or with the answer that settles its exchange. -/
theorem Turn.returned {id : Nat} {reply : Reply} (h : Turn r a (.progressed id (.returned reply)) r') :
    id = r.started ∨ ∃ arrival x result, a = .answer id arrival ∧ r.ongoing.get? id = some (.answer x) ∧
      Client.verdict r.config r.session x arrival = .settled result ∧
      reply = (Client.settle (r.session.skip 1) x.purpose result).1 ∧
      r'.session = (Client.concluded r.session x.purpose result).skip 2 := by
  cases h with
  | begun call p s ho => exact .inl rfl
  | settled id arrival x result hx hv => exact .inr ⟨arrival, x, result, rfl, hx, hv, rfl, rfl⟩

theorem Turn.orderly (h : Turn r a e r') (hr : r.Orderly) : r'.Orderly where
  numbered id w' hw' := by
    rcases h.waiting hw' with ⟨hid, hs, -, -⟩ | ⟨w, hw, -, -⟩
    · omega
    · exact Nat.lt_of_lt_of_le (hr.numbered id w hw) h.started_le
  counted id w' hw' := by
    rcases h.waiting hw' with ⟨-, -, -, x, rfl, hx⟩ | ⟨w, hw, hc, -⟩
    · exact Nat.le_of_eq hx.symm
    · exact Nat.le_trans (hr.counted id w hw) hc.2.2
  paused id ms x hw' := by
    rcases h.waiting hw' with ⟨-, -, -, y, hy, -⟩ | ⟨w, hw, -, rfl | he⟩
    · cases hy
    · exact hr.paused id ms x hw
    · cases h with
      | begun call p s ho => cases he; cases ho
      | again i arrival y n hy hv =>
        cases he
        exact Client.method_of_again (hr.counted id _ hy) hv
      | _ => cases he

theorem orderly_after {acts : List Action} (hc : ∀ a ∈ acts, a.isClient = true) (hr : r.Orderly) :
    (r.after acts).Orderly :=
  after_keeps (P := Orderly) (fun _ _ _ _ h => h.orderly) hr hc

theorem started_le_after {acts : List Action} (hc : ∀ a ∈ acts, a.isClient = true) (r : Run) :
    r.started ≤ (r.after acts).started :=
  after_relates (R := fun r s => r.started ≤ s.started) (fun _ => Nat.le_refl _) Nat.le_trans
    (fun _ _ _ _ ht => ht.started_le) hc r

/-- A run of the client that began with nothing under way. -/
def Reached (r : Run) : Prop :=
  ∃ config subject mint acts, (∀ a ∈ acts, a.isClient = true) ∧ r = (start config subject mint).after acts

theorem Reached.orderly (h : r.Reached) : r.Orderly := by
  obtain ⟨config, subject, mint, acts, hc, rfl⟩ := h
  exact orderly_after hc (orderly_start config subject mint)

/-- What holds of a new run and is kept by every turn of an orderly one holds of all that are reached. -/
theorem Reached.keeps {P : Run → Prop} (hstart : ∀ config subject mint, P (start config subject mint))
    (hstep : ∀ r a e r', Turn r a e r' → r.Orderly → P r → P r') (h : r.Reached) : P r := by
  obtain ⟨config, subject, mint, acts, hc, rfl⟩ := h
  have hboth := after_keeps (P := fun r => r.Orderly ∧ P r)
    (fun _ _ _ _ ht h => ⟨ht.orderly h.1, hstep _ _ _ _ ht h.1 h.2⟩)
    ⟨orderly_start config subject mint, hstart config subject mint⟩ hc
  exact hboth.2

theorem Reached.after (h : r.Reached) {acts : List Action} (hc : ∀ a ∈ acts, a.isClient = true) :
    (r.after acts).Reached := by
  obtain ⟨config, subject, mint, pre, hpre, rfl⟩ := h
  refine ⟨config, subject, mint, pre ++ acts, ?_, (after_append _ _ _).symm⟩
  exact List.forall_mem_append.2 ⟨hpre, hc⟩

theorem Reached.step (h : r.Reached) (ha : a.isClient = true) : (r.step a).Reached :=
  h.after (show ∀ b ∈ [a], b.isClient = true by simpa using ha)

/-- The answer with which a mutation completes: it is a success, and comes in its context. -/
def Completes (r : Run) (a : Action) (m : Mutation) (tenant : TenantId) : Prop :=
  ∃ id arrival x answer, a = .answer id arrival ∧ r.ongoing.get? id = some (.answer x) ∧
    x.purpose = .submit m tenant ∧ Client.verdict r.config r.session x arrival = .settled (.ok answer)

/-- **A number stands for one call**: whatever waits under a number that has been given is the
exchange that waited under it before, gone on. -/
theorem continues_after : ∀ {acts : List Action} {r : Run}, (∀ a ∈ acts, a.isClient = true) →
    ∀ {id : Nat} {w' : Waiting}, id < r.started → (r.after acts).ongoing.get? id = some w' →
      ∃ w, r.ongoing.get? id = some w ∧ Continues w.exchange w'.exchange
  | [], _, _, _, w', _, hw' => ⟨w', hw', Continues.refl _⟩
  | a :: acts, r, hc, id, w', hid, hw' => by
    obtain ⟨ha, hacts⟩ := List.forall_mem_cons.1 hc
    have ht := act_turn r ha
    obtain ⟨w₁, hw₁, hc₁⟩ := continues_after hacts (Nat.lt_of_lt_of_le hid ht.started_le) hw'
    rcases ht.waiting hw₁ with ⟨hid', -⟩ | ⟨w, hw, hc₀, -⟩
    · omega
    · exact ⟨w, hw, hc₀.trans hc₁⟩

theorem gone_after {acts : List Action} (hc : ∀ a ∈ acts, a.isClient = true) {id : Nat} (hid : id < r.started)
    (hgone : r.ongoing.get? id = none) : (r.after acts).ongoing.get? id = none := by
  cases hw : (r.after acts).ongoing.get? id with
  | none => rfl
  | some w' =>
    obtain ⟨w, hw, -⟩ := continues_after hc hid hw
    rw [hgone] at hw; cases hw

/-- Call `id` has handed this very request to the transport in the course of these actions. -/
def Sent (r : Run) (acts : List Action) (id : Nat) (x : Exchange) : Prop :=
  ∃ pre a post, acts = pre ++ a :: post ∧ ((r.after pre).act a).1 = .progressed id (.waiting (.answer x))

theorem Sent.append {pre : List Action} {id : Nat} {x : Exchange} (h : r.Sent pre id x) (post : List Action) :
    r.Sent (pre ++ post) id x := by
  obtain ⟨before, a, since, rfl, he⟩ := h
  exact ⟨before, a, since ++ post, by simp, he⟩

/-- A request that is in the transport was there before, or has been sent since. -/
theorem sent_of_waiting : ∀ {acts : List Action} {r : Run}, (∀ a ∈ acts, a.isClient = true) →
    ∀ {id : Nat} {x : Exchange}, (r.after acts).ongoing.get? id = some (.answer x) →
      r.ongoing.get? id = some (.answer x) ∨ r.Sent acts id x
  | [], _, _, _, _, hx => .inl hx
  | a :: acts, r, hc, id, x, hx => by
    obtain ⟨ha, hacts⟩ := List.forall_mem_cons.1 hc
    rcases sent_of_waiting hacts hx with hx | ⟨pre, b, post, rfl, hb⟩
    · rcases (act_turn r ha).waiting hx with ⟨-, -, he, -⟩ | ⟨w, hw, -, rfl | he⟩
      · exact .inr ⟨[], a, acts, rfl, he⟩
      · exact .inl hw
      · exact .inr ⟨[], a, acts, rfl, he⟩
    · exact .inr ⟨a :: pre, b, post, rfl, hb⟩

/-- And not both: what is sent again counts as another attempt. -/
theorem not_sent_of_waiting (hr : r.Orderly) {acts : List Action} (hc : ∀ a ∈ acts, a.isClient = true)
    {id : Nat} {x : Exchange} (hx : r.ongoing.get? id = some (.answer x)) : ¬ r.Sent acts id x := by
  rintro ⟨pre, b, post, rfl, he⟩
  have hpre : ∀ a ∈ pre, a.isClient = true := fun a ha => hc a (List.mem_append_left _ ha)
  have hid := hr.numbered id _ hx
  have ht := act_turn (r.after pre) (hc b (List.mem_append_right _ List.mem_cons_self))
  rw [he] at ht
  rcases ht.sent with ⟨hnew, -⟩ | ⟨ms, y, -, hy, rfl⟩
  · have hle := started_le_after (r := r) hpre
    omega
  · obtain ⟨w, hw, -, -, hle⟩ := continues_after hpre hid hy
    rw [hx] at hw; cases hw
    exact absurd hle (Nat.not_succ_le_self y.attempt)

/-! ## Contexts -/

/-- The context changes by a switch and by nothing else. -/
theorem Turn.contexts (h : Turn r a e r') :
    (∃ subject, a = .switch subject ∧ r'.session = r.session.switchContext subject) ∨
      (∀ subject, a ≠ .switch subject) ∧ r'.session.contexts = r.session.contexts ∧
        r'.session.subject = r.session.subject := by
  cases h with
  | switched subject => exact .inl ⟨subject, rfl, rfl⟩
  | begun call p s ho =>
    refine .inr ⟨fun _ h => (by cases h), ?_⟩
    cases ho <;> exact ⟨rfl, rfl⟩
  | settled id arrival x result hx hv =>
    refine .inr ⟨fun _ h => (by cases h), ?_, ?_⟩
    · exact Client.concluded_contexts _ _ _
    · exact Client.concluded_subject _ _ _
  | dropped id w hw =>
    refine .inr ⟨fun _ h => (by cases h), ?_⟩
    unfold Client.abandon
    split <;> exact ⟨rfl, rfl⟩
  | ignored a id ha => exact .inr ⟨fun _ h => (by subst h; cases ha), rfl, rfl⟩
  | _ => exact .inr ⟨fun _ h => (by cases h), rfl, rfl⟩

theorem Turn.version_eq (h : Turn r a e r') (ha : ∀ subject, a ≠ .switch subject) : r'.version = r.version := by
  rcases h.contexts with ⟨subject, hs, -⟩ | ⟨-, hc, -⟩
  · exact absurd hs (ha subject)
  · unfold version; rw [hc]

theorem version_step_of_begin (r : Run) (call : Call) : (r.step (.begin call)).version = r.version :=
  (act_turn r rfl).version_eq fun _ h => by cases h

theorem context_step (ha : a.isClient = true) (hs : ∀ subject, a ≠ .switch subject) :
    (r.step a).session.subject = r.session.subject ∧ (r.step a).session.stamp = r.session.stamp := by
  rcases (act_turn r ha).contexts with ⟨subject, h, -⟩ | ⟨-, hcontexts, hsubject⟩
  · exact absurd h (hs subject)
  · refine ⟨hsubject, ?_⟩
    unfold Session.stamp
    rw [hcontexts]

theorem version_step_of_switch (r : Run) (subject : Subject) :
    (r.step (.switch subject)).version = r.version + 1 := by
  show (r.session.contexts.advance Contexts.tenantKey).2.current Contexts.tenantKey = _
  rw [Contexts.current_advance, if_pos rfl]
  rfl

theorem Turn.version_le (h : Turn r a e r') : r.version ≤ r'.version := by
  rcases h.contexts with ⟨subject, -, hs⟩ | ⟨hne, -⟩
  · have hnext := version_step_of_switch r subject
    unfold version at hnext ⊢
    rw [hs]
    exact Nat.le_of_lt (Nat.lt_of_lt_of_eq (Nat.lt_succ_self _) hnext.symm)
  · exact Nat.le_of_eq (h.version_eq hne).symm

theorem version_le_after {acts : List Action} (hc : ∀ a ∈ acts, a.isClient = true) (r : Run) :
    r.version ≤ (r.after acts).version :=
  after_relates (R := fun r s => r.version ≤ s.version) (fun _ => Nat.le_refl _) Nat.le_trans
    (fun _ _ _ _ ht => ht.version_le) hc r

theorem version_lt_after {acts : List Action} (hc : ∀ a ∈ acts, a.isClient = true) {subject : Subject}
    (hs : Action.switch subject ∈ acts) : r.version < (r.after acts).version := by
  obtain ⟨pre, post, rfl⟩ := List.append_of_mem hs
  rw [after_append, after_cons]
  obtain ⟨hpre, -, hpost⟩ : (∀ a ∈ pre, a.isClient = true) ∧ _ ∧ ∀ a ∈ post, a.isClient = true := by
    simpa only [List.forall_mem_append, List.forall_mem_cons] using hc
  have hpre := version_le_after hpre r
  have hpost := version_le_after hpost ((r.after pre).step (.switch subject))
  rw [version_step_of_switch] at hpost
  omega

/-! ## All that is done to a run

What is done by hand touches no call, and neither the subject nor what it may do. -/

theorem step_byHand (r : Run) {a : Action} (h : a.isClient = false) :
    (r.step a).ongoing = r.ongoing ∧ (r.step a).started = r.started ∧ (r.step a).config = r.config ∧
      (r.step a).session.subject = r.session.subject ∧ (r.step a).session.permissions = r.session.permissions ∧
      r.version ≤ (r.step a).version := by
  cases a with
  | issuer op => exact ⟨rfl, rfl, rfl, rfl, rfl, Nat.le_refl _⟩
  | cache op => exact ⟨rfl, rfl, rfl, rfl, rfl, Nat.le_refl _⟩
  | context op =>
    cases op with
    | current key => exact ⟨rfl, rfl, rfl, rfl, rfl, Nat.le_refl _⟩
    | advance key =>
      refine ⟨rfl, rfl, rfl, rfl, rfl, ?_⟩
      show r.version ≤ (r.session.contexts.advance key).2.current Contexts.tenantKey
      rw [Contexts.current_advance]
      split
      · rename_i hkey; subst hkey; exact Nat.le_succ _
      · exact Nat.le_refl _
    | stamp key name => exact ⟨rfl, rfl, rfl, rfl, rfl, Nat.le_refl _⟩
    | check name =>
      unfold step version
      simp only [act, ContextOp.run]
      cases r.stamps.get? name <;> exact ⟨rfl, rfl, rfl, rfl, rfl, Nat.le_refl _⟩
  | _ => cases h

theorem started_le_step (r : Run) (a : Action) : r.started ≤ (r.step a).started := by
  cases h : a.isClient with
  | true => exact (act_turn r h).started_le
  | false => exact Nat.le_of_eq (r.step_byHand h).2.1.symm

theorem config_step (r : Run) (a : Action) : (r.step a).config = r.config := by
  cases h : a.isClient with
  | true => exact (act_turn r h).config_eq
  | false => exact (r.step_byHand h).2.2.1

theorem version_le_step (r : Run) (a : Action) : r.version ≤ (r.step a).version := by
  cases h : a.isClient with
  | true => exact (act_turn r h).version_le
  | false => exact (r.step_byHand h).2.2.2.2.2

theorem version_le (r : Run) : ∀ acts : List Action, r.version ≤ (r.after acts).version
  | [] => Nat.le_refl _
  | a :: acts => Nat.le_trans (r.version_le_step a) (version_le (r.step a) acts)

theorem subject_step (r : Run) {a : Action} (ha : ∀ subject, a ≠ .switch subject) :
    (r.step a).session.subject = r.session.subject := by
  cases h : a.isClient with
  | true =>
    rcases (act_turn r h).contexts with ⟨subject, hs, -⟩ | ⟨-, -, hsubject⟩
    · exact absurd hs (ha subject)
    · exact hsubject
  | false => exact (r.step_byHand h).2.2.2.1

theorem subject_after : ∀ {acts : List Action} {r : Run}, (∀ subject, .switch subject ∉ acts) →
    (r.after acts).session.subject = r.session.subject
  | [], _, _ => rfl
  | a :: acts, r, hs => by
    have ha : ∀ subject, a ≠ .switch subject := fun subject h => hs subject (h ▸ List.mem_cons_self)
    have hacts : ∀ subject, .switch subject ∉ acts := fun subject h => hs subject (List.mem_cons_of_mem _ h)
    exact (subject_after (r := r.step a) hacts).trans (r.subject_step ha)

/-- In these actions the context is not left where it has the same version before and after. -/
theorem not_switched_of_version {acts : List Action} {r : Run} (h : (r.after acts).version = r.version)
    (subject : Subject) : Action.switch subject ∉ acts := by
  intro hs
  obtain ⟨pre, post, rfl⟩ := List.append_of_mem hs
  rw [after_append, after_cons] at h
  have hpre := r.version_le pre
  have hpost := ((r.after pre).step (.switch subject)).version_le post
  rw [version_step_of_switch] at hpost
  omega

/-- The context is the one it was where it has the version that it had. -/
theorem context_of_version {acts : List Action} {r : Run} (h : (r.after acts).version = r.version) :
    (r.after acts).session.subject = r.session.subject ∧ (r.after acts).session.stamp = r.session.stamp :=
  ⟨subject_after (not_switched_of_version h), congrArg (Stamp.mk Contexts.tenantKey) h⟩

/-- A call that is waiting after an action has begun with it, or was waiting before. -/
theorem waiting_step (r : Run) {a : Action} {id : Nat} {w' : Waiting} (hw : (r.step a).ongoing.get? id = some w') :
    (∃ call x, a = .begin call ∧ id = r.started ∧ (Client.start r.session call).1 = .waiting (.answer x) ∧
        w' = .answer x) ∨
      ∃ w, r.ongoing.get? id = some w ∧ Continues w.exchange w'.exchange := by
  cases h : a.isClient with
  | false =>
    rw [(r.step_byHand h).1] at hw
    exact .inr ⟨w', hw, Continues.refl _⟩
  | true =>
    have ht := act_turn r h
    rcases ht.waiting hw with ⟨hid, -, he, x, rfl, -⟩ | ⟨w, hold, hc, -⟩
    · rw [he] at ht
      rcases ht.sent with ⟨-, call, rfl, -⟩ | ⟨ms, y, rfl, hy, rfl⟩
      · rw [act_begin] at he
        injection he with _ hp
        exact .inl ⟨call, x, rfl, hid, hp, rfl⟩
      · exact .inr ⟨_, hy, rfl, rfl, Nat.le_succ _⟩
    · exact .inr ⟨w, hold, hc⟩

/-- Only its own turns touch what a call waits for. -/
theorem ongoing_step_of_other (r : Run) {a : Action} {id : Nat} (hid : id < r.started) (ha : a.call? ≠ some id) :
    (r.step a).ongoing.get? id = r.ongoing.get? id := by
  have hinsert : ∀ {i : Nat}, i ≠ id → ∀ w, (r.ongoing.insert i w).get? id = r.ongoing.get? id :=
    fun hi w => (Table.get?_insert _ _ _ _).trans (if_neg hi)
  have herase : ∀ {i : Nat}, i ≠ id → (r.ongoing.erase i).get? id = r.ongoing.get? id :=
    fun hi => (Table.get?_erase _ _ _).trans (if_neg hi.symm)
  have hown : ∀ {i : Nat}, a.call? = some i → i ≠ id := fun h e => ha (e ▸ h)
  cases h : a.isClient with
  | false => rw [(r.step_byHand h).1]
  | true =>
    have ht := act_turn r h
    generalize r.step a = r', (r.act a).1 = e at ht
    cases ht with
    | begun call p s ho =>
      cases p with
      | waiting w => exact hinsert (Nat.ne_of_gt hid) w
      | returned reply => exact herase (Nat.ne_of_gt hid)
    | again i arrival x ms hx hv => exact hinsert (hown rfl) _
    | settled i arrival x result hx hv => exact herase (hown rfl)
    | resumed i ms x hx => exact hinsert (hown rfl) _
    | dropped i w hw => exact herase (hown rfl)
    | _ => rfl

/-- Call `id` has begun in the course of these actions, with an exchange that has come to be this one. -/
def Begun (r : Run) (acts : List Action) (id : Nat) (y : Exchange) : Prop :=
  ∃ pre call post x, acts = pre ++ .begin call :: post ∧ id = (r.after pre).started ∧
    (Client.start (r.after pre).session call).1 = .waiting (.answer x) ∧ Continues x y

/-- **Every call that waits was begun**, before these actions or in the course of them. -/
theorem begun_of_waiting : ∀ {acts : List Action} {r : Run} {id : Nat} {w' : Waiting},
    (r.after acts).ongoing.get? id = some w' →
      (∃ w, r.ongoing.get? id = some w ∧ Continues w.exchange w'.exchange) ∨ r.Begun acts id w'.exchange
  | [], _, _, w', hw => .inl ⟨w', hw, Continues.refl _⟩
  | a :: acts, r, id, w', hw => by
    have hw : ((r.step a).after acts).ongoing.get? id = some w' := hw
    rcases begun_of_waiting hw with
      ⟨w₁, hw₁, hc₁⟩ | ⟨pre, call, post, x, rfl, hid, hstart, hc⟩
    · rcases r.waiting_step hw₁ with ⟨call, x, rfl, hid, hstart, rfl⟩ | ⟨w, hw, hc₀⟩
      · exact .inr ⟨[], call, acts, x, rfl, hid, hstart, hc₁⟩
      · exact .inl ⟨w, hw, hc₀.trans hc₁⟩
    · exact .inr ⟨a :: pre, call, post, x, rfl, hid, hstart, hc⟩

/-! ## The last of its kind -/

/-- Of none of these actions, in the run that it comes to, does `T` hold. -/
def Never (T : Run → Action → Prop) (r : Run) : List Action → Prop
  | []        => True
  | a :: acts => ¬ T r a ∧ Never T (r.step a) acts

/-- Of some of these actions `T` holds and of none after it; or of none at all. -/
theorem never_or_last (T : Run → Action → Prop) : ∀ (acts : List Action) (r : Run),
    Never T r acts ∨ ∃ pre a post, acts = pre ++ a :: post ∧ T (r.after pre) a ∧ Never T ((r.after pre).step a) post
  | [], _ => .inl trivial
  | a :: acts, r => by
    rcases never_or_last T acts (r.step a) with hnever | ⟨pre, b, post, rfl, hb, hpost⟩
    · by_cases ha : T r a
      · exact .inr ⟨[], a, acts, rfl, ha, hnever⟩
      · exact .inl ⟨ha, hnever⟩
    · exact .inr ⟨a :: pre, b, post, rfl, hb, hpost⟩

theorem Never.eq_after {α : Type} {T : Run → Action → Prop} (view : Run → α)
    (hstep : ∀ r a, ¬ T r a → view (r.step a) = view r) : ∀ {acts : List Action} {r : Run}, Never T r acts →
      view (r.after acts) = view r
  | [], _, _ => rfl
  | a :: _, r, h => (Never.eq_after view hstep (r := r.step a) h.2).trans (hstep r a h.1)

theorem isCurrent_iff (r : Run) (v : Nat) : r.session.isCurrent ⟨Contexts.tenantKey, v⟩ = true ↔ r.version = v :=
  beq_iff_eq

end Run

/-- Every request but one sent as it is given carries the stamp of the moment it is made. -/
theorem Client.Opening.stamped {s s' : Session} {call : Call} {w : Waiting} (h : Opening s call (.waiting w) s')
    (hcall : ∀ request, call ≠ .send request) : w.exchange.request.context = some s.stamp := by
  cases h with
  | listed resource hc miss => rfl
  | asked purpose hc => rfl
  | sent request hc => exact absurd hc (hcall request)
  | submitted m a n hm hp hf hb => rfl

end BackOffice
