import BackOffice.Proofs.Marks
import BackOffice.Proofs.Staleness
/-!
# Idempotency keys

A key names its operation and one identifier of the mint, so where identifiers are distinct two
attempts share a key only if they are one (`Session.Minted.unique`).  While the attempts under a name
that have certain keys are bound to a payload, no turn binds those keys to another (`Turn.tied`);
and once they are gone no turn brings them back, which is the same statement of no payload at all.
From the two follow the rules of a whole run (`KeysName`, `KeysRetire`, `KeysHold`).
-/
namespace BackOffice

/-- The operation that an exchange submits. -/
def Exchange.operation? (x : Exchange) : Option String := x.submits?.map (fun p => p.2.operation)

/-- Whether a reply tells that a mutation has been completed. -/
def Reply.isCompleted : Reply → Bool
  | .storeCreated (.ok (.completed _)) | .userCreated (.ok (.completed _)) | .policySaved (.ok (.saved _)) => true
  | _ => false

theorem Reply.error?_of_completed {reply : Reply} (h : reply.isCompleted = true) : reply.error? = none := by
  unfold isCompleted at h
  split at h
  · rfl
  · rfl
  · rfl
  · cases h

/-! ## What a key tells -/

theorem Uuid.simpleText_inj {u v : Uuid} (h : u.simpleText = v.simpleText) : u = v := by
  have hdigits : u.digits = v.digits := String.ofList_injective h
  have hbits : some u.bits = some v.bits := by rw [← u.readHex_digits, ← v.readHex_digits, hdigits]
  cases u; cases v; cases hbits; rfl

/-- The last digits of a key are its identifier, and what stands before them is its operation. -/
theorem Attempt.keysOf_inj {name name' : String} {fresh fresh' : FreshKeys}
    (h : (keysOf name fresh).idempotencyKey = (keysOf name' fresh').idempotencyKey) :
    name = name' ∧ fresh.key = fresh'.key := by
  have hlist := congrArg String.toList h
  simp only [keysOf, String.toList_append, List.append_assoc] at hlist
  have hlen : ("-".toList ++ fresh.key.simpleText.toList).length =
      ("-".toList ++ fresh'.key.simpleText.toList).length := by
    simp [Uuid.simpleText, Uuid.length_digits]
  obtain ⟨hname, htail⟩ := List.append_inj' hlist hlen
  exact ⟨String.toList_injective hname, Uuid.simpleText_inj (String.toList_injective (List.append_cancel_left htail))⟩

theorem requestPayload_eq (method path : String) (body : Json) : requestPayload method path body =
    .object [("body", body), ("method", .string method), ("path", .string path)] := by
  have hpath : compare "path" "method" = .gt := by decide
  have hbody : compare "body" "method" = .lt := by decide
  simp only [requestPayload, Json.record, List.foldl_cons, List.foldl_nil, putSorted, hpath, hbody]

/-- Two mutations ask for the same: in the same way, of the same path, with the same body. -/
def Mutation.SameRequest (m m' : Mutation) : Prop := m.method = m'.method ∧ m.path = m'.path ∧ m.body = m'.body

theorem Mutation.payload_eq_iff (m m' : Mutation) : m.payload = m'.payload ↔ m.SameRequest m' := by
  unfold payload SameRequest
  rw [requestPayload_eq, requestPayload_eq]
  constructor
  · intro h
    simp only [Json.object.injEq, List.cons.injEq, Prod.mk.injEq, true_and, Json.string.injEq, and_true] at h
    obtain ⟨hbody, hmethod, hpath⟩ := h
    refine ⟨?_, hpath, hbody⟩
    cases hm : m.method; cases hm' : m'.method
    rw [hm, hm'] at hmethod
    exact congrArg Method.mk hmethod
  · rintro ⟨hmethod, hpath, hbody⟩
    rw [hmethod, hpath, hbody]

theorem Client.mutationRequest_congr {m m' : Mutation} (h : m.SameRequest m') (keys : AttemptKeys) (stamp : Stamp) :
    mutationRequest m keys stamp = mutationRequest m' keys stamp := by
  obtain ⟨hmethod, hpath, hbody⟩ := h
  unfold mutationRequest
  rw [hmethod, hpath, hbody]

/-! ## Keys and the mint -/

/-- No identifier has been drawn twice. -/
def Mint.Distinct (m : Mint) : Prop := ∀ i j, i < m.drawn → j < m.drawn → m.supply i = m.supply j → i = j

theorem Mint.Distinct.of_le {m m' : Mint} (h : m'.Distinct) (hs : m'.supply = m.supply) (hd : m.drawn ≤ m'.drawn) :
    m.Distinct := by
  intro i j hi hj he
  exact h i j (Nat.lt_of_lt_of_le hi hd) (Nat.lt_of_lt_of_le hj hd) (hs ▸ he)

namespace Session

/-- Keys of an operation that are made of two identifiers drawn one after the other. -/
def Minted (s : Session) (name : String) (keys : AttemptKeys) : Prop :=
  ∃ i, i + 1 < s.mint.drawn ∧ keys = Attempt.keysOf name ⟨s.mint.supply i, s.mint.supply (i + 1)⟩

theorem Minted.mono {s s' : Session} {name : String} {keys : AttemptKeys} (h : s.Minted name keys)
    (hs : s'.mint.supply = s.mint.supply) (hd : s.mint.drawn ≤ s'.mint.drawn) : s'.Minted name keys := by
  obtain ⟨i, hi, hk⟩ := h
  exact ⟨i, Nat.lt_of_lt_of_le hi hd, by rw [hs]; exact hk⟩

/-- **One key, one attempt.** -/
theorem Minted.unique {s : Session} (hd : s.mint.Distinct) {name name' : String} {keys keys' : AttemptKeys}
    (h : s.Minted name keys) (h' : s.Minted name' keys') (he : keys.idempotencyKey = keys'.idempotencyKey) :
    name = name' ∧ keys = keys' := by
  obtain ⟨i, hi, rfl⟩ := h
  obtain ⟨j, hj, rfl⟩ := h'
  obtain ⟨rfl, hkey⟩ := Attempt.keysOf_inj he
  have hij : i = j := hd i j (by omega) (by omega) hkey
  exact ⟨rfl, by rw [hij]⟩

end Session

namespace Run

variable {r r' : Run} {a : Action} {e : Event}

theorem Turn.mint (h : Turn r a e r') :
    r'.session.mint.supply = r.session.mint.supply ∧ r.session.mint.drawn ≤ r'.session.mint.drawn := by
  cases h with
  | begun call p s ho => cases ho <;> exact ⟨rfl, Nat.le_add_right _ _⟩
  | settled id arrival x result hx hv =>
    have hmint : ((Client.concluded r.session x.purpose result).skip 2).mint =
        { r.session.mint with drawn := r.session.mint.drawn + 2 } := by
      unfold Session.skip; rw [Client.concluded_mint]
    rw [hmint]
    exact ⟨rfl, Nat.le_add_right _ _⟩
  | dropped id w hw =>
    show (Client.abandon r.session w.exchange).mint.supply = _ ∧ _ ≤ (Client.abandon r.session w.exchange).mint.drawn
    rcases Client.abandon_cases r.session w.exchange with ⟨m, tenant, -, he⟩ | ⟨-, he⟩ <;> rw [he] <;>
      exact ⟨rfl, Nat.le_refl _⟩
  | again id arrival x ms hx hv => exact ⟨rfl, Nat.le_add_right _ _⟩
  | required key => exact ⟨rfl, Nat.le_add_right _ _⟩
  | _ => exact ⟨rfl, Nat.le_refl _⟩

theorem mint_after {acts : List Action} (hc : ∀ a ∈ acts, a.isClient = true) (r : Run) :
    (r.after acts).session.mint.supply = r.session.mint.supply ∧
      r.session.mint.drawn ≤ (r.after acts).session.mint.drawn :=
  after_relates (R := fun r s => s.session.mint.supply = r.session.mint.supply ∧
      r.session.mint.drawn ≤ s.session.mint.drawn) (fun _ => ⟨rfl, Nat.le_refl _⟩)
    (fun h k => ⟨k.1.trans h.1, Nat.le_trans h.2 k.2⟩) (fun _ _ _ _ ht => ht.mint) hc r

theorem distinct_of_after {acts : List Action} (hc : ∀ a ∈ acts, a.isClient = true)
    (hd : (r.after acts).session.mint.Distinct) : r.session.mint.Distinct :=
  hd.of_le (mint_after hc r).1 (mint_after hc r).2

theorem minted_after {acts : List Action} (hc : ∀ a ∈ acts, a.isClient = true) {name : String} {keys : AttemptKeys}
    (hk : r.session.Minted name keys) : (r.after acts).session.Minted name keys :=
  hk.mono (mint_after hc r).1 (mint_after hc r).2

/-! ## What a turn does to the attempt under a name -/

/-- An attempt that is there after a turn was there with its keys and its binding, or is new. -/
theorem Turn.attempt_cases (h : Turn r a e r') (hr : r.Orderly) {name : String} {att' : Attempt}
    (hatt' : r'.session.issuer.attempt? name = some att') :
    (∃ att, r.session.issuer.attempt? name = some att ∧ att'.keys = att.keys ∧
        (att.fingerprint = none ∨ att.fingerprint = att'.fingerprint)) ∨
      ∃ i, r.session.mint.drawn ≤ i ∧ i + 1 < r'.session.mint.drawn ∧
        att'.keys = Attempt.keysOf name ⟨r.session.mint.supply i, r.session.mint.supply (i + 1)⟩ := by
  have hsame : ∀ {att : Attempt}, r.session.issuer.attempt? name = some att → att' = att →
      ∃ att, r.session.issuer.attempt? name = some att ∧ att'.keys = att.keys ∧
        (att.fingerprint = none ∨ att.fingerprint = att'.fingerprint) := by
    intro att h e
    exact ⟨att, h, by rw [e], .inr (by rw [e])⟩
  cases h.deals hr with
  | quiet a r' hi hst hs => exact .inl (hsame (hi ▸ hatt') rfl)
  | opened call m att n r' hm hp hf hb hn hs =>
    have hdrawn : r'.session.mint.drawn = r.session.mint.drawn + (n + 3) := by rw [hn]; rfl
    rw [hn, Client.attempt?_holding] at hatt'
    split at hatt'
    · rename_i hname
      cases hatt'; subst hname
      obtain ⟨hprint, ⟨b, hold, hk, hbound⟩ | ⟨-, hk⟩⟩ := Issuer.binding?_cases hb
      · exact .inl ⟨b, hold, hk, hbound.imp_right (fun h => h.trans hprint.symm)⟩
      · exact .inr ⟨r.session.mint.drawn + n, by omega, by omega, hk⟩
    · exact .inl (hsame hatt' rfl)
  | completed a id q m tenant r' hq hc hi hst hs =>
    rw [hi, Issuer.attempt?_finish, Issuer.attempt?_complete] at hatt'
    split at hatt'
    · cases hatt'
    · exact .inl (hsame hatt' rfl)
  | failed id arrival q m r' hq hi hst hs =>
    rw [hi, Issuer.attempt?_finish, Issuer.attempt?_markFailed] at hatt'
    split at hatt'
    · obtain ⟨att, hatt, rfl⟩ := Option.map_eq_some_iff.1 hatt'
      exact .inl ⟨att, hatt, rfl, .inr rfl⟩
    · exact .inl (hsame hatt' rfl)
  | dropped id q m r' hq hi hst hs => exact .inl (hsame (hi ▸ hatt' :) rfl)
  | switched subject r' hi hs => rw [hi, Issuer.attempt?_cancelAll] at hatt'; cases hatt'
  | cancelled operation r' hi hst hs =>
    rw [hi, Issuer.attempt?_cancel] at hatt'
    split at hatt'
    · cases hatt'
    · exact .inl (hsame hatt' rfl)

/-- The keys of every attempt come from the mint. -/
def AttemptsMinted (r : Run) : Prop :=
  ∀ name att, r.session.issuer.attempt? name = some att → r.session.Minted name att.keys

theorem attemptsMinted_start (config : Config) (subject : Subject) (mint : Mint) :
    (start config subject mint).AttemptsMinted := fun _ _ h => by cases h

theorem Turn.attemptsMinted (h : Turn r a e r') (hr : r.Orderly) (hm : r.AttemptsMinted) : r'.AttemptsMinted := by
  intro name att' hatt'
  obtain ⟨hs, hd⟩ := h.mint
  rcases h.attempt_cases hr hatt' with ⟨att, hatt, hk, -⟩ | ⟨i, -, hi, hk⟩
  · rw [hk]
    exact (hm name att hatt).mono hs hd
  · exact ⟨i, hi, by rw [hs]; exact hk⟩

theorem Reached.attemptsMinted (h : r.Reached) : r.AttemptsMinted :=
  h.keeps attemptsMinted_start (fun _ _ _ _ ht hr hm => ht.attemptsMinted hr hm)

/-- An attempt under this name that has these keys is bound, and to something of which `P` holds. -/
def Tied (r : Run) (name : String) (keys : AttemptKeys) (P : String → Prop) : Prop :=
  ∀ att, r.session.issuer.attempt? name = some att → att.keys = keys → ∃ print, att.fingerprint = some print ∧ P print

/-- **Keys that have been minted are not bound to anything else**, and not minted again. -/
theorem Turn.tied (h : Turn r a e r') (hr : r.Orderly) (hd : r'.session.mint.Distinct) {name : String}
    {keys : AttemptKeys} (hk : r.session.Minted name keys) {P : String → Prop} (ht : r.Tied name keys P) :
    r'.Tied name keys P := by
  intro att' hatt' hkeys
  rcases h.attempt_cases hr hatt' with ⟨att, hatt, hsame, hbound⟩ | ⟨i, hi, hlt, hnew⟩
  · obtain ⟨print, hprint, hP⟩ := ht att hatt (hsame.symm.trans hkeys)
    rcases hbound with hnone | hbound
    · rw [hprint] at hnone; cases hnone
    · exact ⟨print, hbound.symm.trans hprint, hP⟩
  · obtain ⟨j, hj, hold⟩ := hk
    obtain ⟨hs, hle⟩ := h.mint
    have hkey := congrArg AttemptKeys.idempotencyKey (hnew.symm.trans (hkeys.trans hold))
    have hij : i = j := hd i j (by omega) (by omega) (by rw [hs]; exact (Attempt.keysOf_inj hkey).2)
    omega

theorem tied_after {name : String} {keys : AttemptKeys} {P : String → Prop} :
    ∀ {acts : List Action} {r : Run}, (∀ a ∈ acts, a.isClient = true) → r.Orderly →
      (r.after acts).session.mint.Distinct → r.session.Minted name keys → r.Tied name keys P →
      (r.after acts).Tied name keys P
  | [], _, _, _, _, _, ht => ht
  | a :: acts, r, hc, hr, hd, hk, ht => by
    obtain ⟨ha, hacts⟩ := List.forall_mem_cons.1 hc
    have hturn := act_turn r ha
    have hk' := hk.mono hturn.mint.1 hturn.mint.2
    have ht' := hturn.tied hr (distinct_of_after hacts hd) hk ht
    exact tied_after (r := r.step a) hacts (hturn.orderly hr) hd hk' ht'

/-! ## Mutating requests -/

/-- An action hands a mutating request with this key to the transport. -/
def SendsUnder (r : Run) (a : Action) (key : String) (x : Exchange) : Prop :=
  (r.act a).1.sent? = some x ∧ x.request.isMutation = true ∧
    x.request.header? Request.idempotencyHeader = some key

end Run

/-- What is done through the calls of the client, with no request given by hand. -/
def Action.isPlain : Action → Bool
  | .begin (.send _) => false
  | a => a.isClient

theorem Action.isClient_of_isPlain {a : Action} (h : a.isPlain = true) : a.isClient = true := by
  unfold isPlain at h
  split at h
  · cases h
  · exact h

theorem Action.forall_isClient {acts : List Action} (h : ∀ a ∈ acts, a.isPlain = true) :
    ∀ a ∈ acts, a.isClient = true := fun a ha => isClient_of_isPlain (h a ha)

namespace Run

variable {r r' : Run} {a : Action} {e : Event}

/-- **A mutating request is sent by the first turn of a call that submits a mutation.** -/
theorem Turn.submitted (h : Turn r a e r') (hr : r.Orderly) (ha : a.isPlain = true) {x : Exchange}
    (hs : e.sent? = some x) (hx : x.request.isMutation = true) :
    ∃ call m att, a = .begin call ∧ Client.mutation? r.session call = some m ∧
      x = Client.submission r.session m att.keys ∧ r'.session.issuer.attempt? m.operation = some att ∧
      att.fingerprint = some (fingerprint m.payload) := by
  cases h with
  | begun call p s ho =>
    cases ho with
    | declined reply n => cases hs
    | served resource body hc hit => cases hs
    | listed resource hc miss => cases hs; cases hx
    | asked purpose hc =>
      cases hs
      exact absurd hx (Bool.eq_false_iff.1 (Request.isMutation_of_get (Client.permissionRequest_method _)))
    | sent request hc => subst hc; cases ha
    | submitted m att n hm hp hf hb =>
      cases hs
      refine ⟨call, m, att, rfl, hm, rfl, ?_, (Issuer.binding?_cases hb).1⟩
      exact (Client.attempt?_holding _ _ _ _ _).trans (if_pos rfl)
  | resumed id ms y hy =>
    cases hs
    exact absurd hx (Bool.eq_false_iff.1 (Request.isMutation_of_get (hr.paused id ms y hy)))
  | _ => cases hs

/-- A request that is sent under a key submits a mutation, whose attempt has the key and is bound to it. -/
theorem SendsUnder.submission (hr : r.Reached) (ha : a.isPlain = true) {key : String} {x : Exchange}
    (h : r.SendsUnder a key x) :
    ∃ call m att, a = .begin call ∧ Client.mutation? r.session call = some m ∧
      x = Client.submission r.session m att.keys ∧ key = att.keys.idempotencyKey ∧
      (r.step a).session.issuer.attempt? m.operation = some att ∧ att.fingerprint = some (fingerprint m.payload) := by
  obtain ⟨hsent, hmutating, hkey⟩ := h
  have hturn := act_turn r (Action.isClient_of_isPlain ha)
  obtain ⟨call, m, att, rfl, hm, rfl, hkept, hbound⟩ := hturn.submitted hr.orderly ha hsent hmutating
  have hsame := hkey.symm.trans (Client.header?_mutationRequest m att.keys r.session.stamp)
  exact ⟨call, m, att, rfl, hm, rfl, Option.some.inj hsame, hkept, hbound⟩

theorem SendsUnder.later (hr : r.Reached) {name : String} {keys : AttemptKeys} {P : String → Prop}
    (hk : r.session.Minted name keys) (ht : r.Tied name keys P) {mid : List Action} {b : Action}
    (hmid : ∀ a ∈ mid, a.isClient = true) (hb : b.isPlain = true)
    (hd : ((r.after mid).step b).session.mint.Distinct) {y : Exchange}
    (hy : (r.after mid).SendsUnder b keys.idempotencyKey y) :
    ∃ call m, b = .begin call ∧ Client.mutation? (r.after mid).session call = some m ∧
      y = Client.submission (r.after mid).session m keys ∧ m.operation = name ∧ P (fingerprint m.payload) := by
  have hclient := Action.isClient_of_isPlain hb
  have hone : ∀ a ∈ mid ++ [b], a.isClient = true := List.forall_mem_append.2 ⟨hmid, by simpa using hclient⟩
  have hlast : r.after (mid ++ [b]) = (r.after mid).step b := after_append r mid [b]
  obtain ⟨call, m, att, rfl, hm, rfl, hkey, hkept, hbound⟩ := hy.submission (hr.after hmid) hb
  -- both keys come from the mint, so they are those of one attempt
  have hminted := ((hr.after hmid).step hclient).attemptsMinted _ _ hkept
  obtain ⟨rfl, rfl⟩ := Session.Minted.unique hd (hlast ▸ minted_after hone hk) hminted hkey
  have htied := tied_after hone hr.orderly (hlast ▸ hd) hk ht
  rw [hlast] at htied
  obtain ⟨print, hprint, hP⟩ := htied att hkept rfl
  rw [hbound] at hprint
  cases hprint
  exact ⟨call, m, rfl, hm, rfl, rfl, hP⟩

/-! ## An attempt that is kept -/

/-- What forgets the attempt with a key under a name: to cancel it, to leave its context, and the
success of what was sent with the key. -/
def Removes (r : Run) (key name : String) : Action → Prop
  | .cancel operation => operation = name
  | .switch _ => True
  | .answer id arrival => ∃ x m tenant answer, r.ongoing.get? id = some (.answer x) ∧ x.purpose = .submit m tenant ∧
      x.request.header? Request.idempotencyHeader = some key ∧
      Client.verdict r.config r.session x arrival = .settled (.ok answer)
  | _ => False

/-- Nothing in these actions forgets the attempt. -/
def Live (r : Run) (key name : String) : List Action → Prop
  | []        => True
  | a :: acts => ¬ r.Removes key name a ∧ (r.step a).Live key name acts

/-- The attempt under a name has these keys and this binding, and the context is still this one. -/
structure Holds (r : Run) (name : String) (keys : AttemptKeys) (print : String) (stamp : Stamp) : Prop where
  current : r.session.stamp = stamp
  kept : ∃ att, r.session.issuer.attempt? name = some att ∧ att.keys = keys ∧ att.fingerprint = some print

theorem Turn.holds (h : Turn r a e r') (hr : r.Orderly) (ho : r.Owned) {name print : String} {keys : AttemptKeys}
    {stamp : Stamp} (hlive : ¬ r.Removes keys.idempotencyKey name a) (hh : r.Holds name keys print stamp) :
    r'.Holds name keys print stamp := by
  obtain ⟨hcurrent, att, hatt, hkeys, hprint⟩ := hh
  cases h.deals hr with
  | quiet a r' hi hst hs => exact ⟨hst.trans hcurrent, att, hi ▸ hatt, hkeys, hprint⟩
  | opened call m new n r' hm hp hf hb hn hs =>
    refine ⟨by rw [hn, Client.stamp_holding, hcurrent], ?_⟩
    rw [hn, Client.attempt?_holding]
    split
    · rename_i hname
      subst hname
      rw [Issuer.binding?_of_bound hatt hprint] at hb
      split at hb
      · rename_i hsame
        cases hb
        exact ⟨_, rfl, hkeys, by rw [hsame]⟩
      · cases hb
    · exact ⟨att, hatt, hkeys, hprint⟩
  | completed a id q m tenant r' hq hc hi hst hs =>
    refine ⟨hst.trans hcurrent, att, ?_, hkeys, hprint⟩
    rw [hi, Issuer.attempt?_finish, Issuer.attempt?_complete, if_neg]
    · exact hatt
    · rintro rfl
      obtain ⟨i, arrival, x, answer, rfl, hx, hp, hv⟩ := hc
      obtain ⟨hown, -⟩ := ho.own i _ m att (submitting?_of_waiting hx hp) hatt
      refine hlive ⟨x, m, tenant, answer, hx, hp, ?_, hv⟩
      rw [hown, Client.header?_mutationRequest, hkeys]
  | failed id arrival q m r' hq hi hst hs =>
    refine ⟨hst.trans hcurrent, ?_⟩
    rw [hi, Issuer.attempt?_finish, Issuer.attempt?_markFailed]
    split
    · exact ⟨{ att with state := .failed }, by rw [hatt]; rfl, hkeys, hprint⟩
    · exact ⟨att, hatt, hkeys, hprint⟩
  | dropped id q m r' hq hi hst hs => exact ⟨hst.trans hcurrent, att, hi ▸ hatt, hkeys, hprint⟩
  | switched subject r' hi hs => exact absurd trivial hlive
  | cancelled operation r' hi hst hs =>
    refine ⟨hst.trans hcurrent, att, ?_, hkeys, hprint⟩
    rw [hi, Issuer.attempt?_cancel, if_neg]
    · exact hatt
    · rintro rfl; exact hlive rfl

theorem holds_after {name print : String} {keys : AttemptKeys} {stamp : Stamp} :
    ∀ {acts : List Action} {r : Run}, (∀ a ∈ acts, a.isClient = true) → r.Orderly → r.Owned →
      r.Live keys.idempotencyKey name acts → r.Holds name keys print stamp →
      (r.after acts).Holds name keys print stamp
  | [], _, _, _, _, _, hh => hh
  | a :: acts, r, hc, hr, ho, hlive, hh => by
    obtain ⟨ha, hacts⟩ := List.forall_mem_cons.1 hc
    have hturn := act_turn r ha
    exact holds_after (r := r.step a) hacts (hturn.orderly hr) (hturn.owned hr ho) hlive.2
      (hturn.holds hr ho hlive.1 hh)

/-! ## The rules of a run -/

/-- A call that passes its gates and asks for what the attempt under its name is bound to sends it again. -/
theorem sent_of_kept {m m' : Mutation} {att : Attempt} (hatt : r.session.issuer.attempt? m.operation = some att)
    (hprint : att.fingerprint = some (fingerprint m.payload)) {call : Call}
    (hm : Client.mutation? r.session call = some m') (hname : m'.operation = m.operation) (hsame : m.SameRequest m')
    (hp : r.session.isAllowed m'.permission = true) (hf : r.session.issuer.isInFlight m.operation = false) :
    ∃ y, (r.act (.begin call)).1 = .progressed r.started (.waiting (.answer y)) ∧
      y.request = Client.mutationRequest m att.keys r.session.stamp := by
  obtain ⟨n, hstart⟩ := Client.start_of_gated hm hp (hname ▸ hf)
  have hpayload : fingerprint m.payload = fingerprint m'.payload := by rw [(Mutation.payload_eq_iff m m').2 hsame]
  rw [hname, Issuer.binding?_of_bound hatt hprint, if_pos hpayload] at hstart
  refine ⟨Client.submission r.session m' att.keys, ?_, (Client.mutationRequest_congr hsame _ _).symm⟩
  rw [act_begin, hstart]

/-- Two mutating requests with one key are one request: of one operation, in the same way, of the same
path, with the same body. -/
def KeysName (r : Run) (acts : List Action) : Prop :=
  ∀ pre a mid b post, acts = pre ++ a :: (mid ++ b :: post) → ∀ key x y,
    (r.after pre).SendsUnder a key x → (((r.after pre).step a).after mid).SendsUnder b key y →
    ∃ name, x.operation? = some name ∧ y.operation? = some name ∧ x.request.method = y.request.method ∧
      x.request.path = y.request.path ∧ x.request.body = y.request.body

/-- After a call has completed what it sent with a key, no request carries the key. -/
def KeysRetire (r : Run) (acts : List Action) : Prop :=
  ∀ pre a mid b post c rest, acts = pre ++ a :: (mid ++ b :: (post ++ c :: rest)) → ∀ key id x y reply,
    (r.after pre).SendsUnder a key x → ((r.after pre).act a).1 = .progressed id (.waiting (.answer x)) →
    ((((r.after pre).step a).after mid).act b).1 = .progressed id (.returned reply) → reply.isCompleted = true →
    ¬ (((((r.after pre).step a).after mid).step b).after post).SendsUnder c key y

/-- As long as nothing forgets the attempt of a request, what passes the gates of its operation is the
same and is sent as it was, or is another and is a conflict that sends nothing. -/
def KeysHold (r : Run) (acts : List Action) : Prop :=
  ∀ pre a mid call post, acts = pre ++ a :: (mid ++ .begin call :: post) → ∀ key x m tenant m',
    (r.after pre).SendsUnder a key x → x.purpose = .submit m tenant →
    ((r.after pre).step a).Live key m.operation mid →
    let now := ((r.after pre).step a).after mid
    Client.mutation? now.session call = some m' → m'.operation = m.operation →
    now.session.isAllowed m'.permission = true → now.session.issuer.isInFlight m.operation = false →
    (m.SameRequest m' ∧ ∃ y, (now.act (.begin call)).1 = .progressed now.started (.waiting (.answer y)) ∧
      y.request = x.request) ∨
    (¬ m.SameRequest m' ∧ ∃ reply err, (now.act (.begin call)).1 = .progressed now.started (.returned reply) ∧
      reply.error? = some err ∧ err.category = .conflict)

/-- The mutations that are asked for in the course of these actions. -/
def Asked (r : Run) (acts : List Action) (m : Mutation) : Prop :=
  ∃ pre call post, acts = pre ++ .begin call :: post ∧ Client.mutation? (r.after pre).session call = some m

/-- The fingerprints of what is asked for do not collide. -/
def PrintsApart (r : Run) (acts : List Action) : Prop :=
  ∀ m m', r.Asked acts m → r.Asked acts m' → fingerprint m.payload = fingerprint m'.payload → m.payload = m'.payload

theorem asked_later {pre mid post : List Action} {a : Action} {call : Call} {m : Mutation}
    (hm : Client.mutation? (((r.after pre).step a).after mid).session call = some m) :
    r.Asked (pre ++ a :: (mid ++ .begin call :: post)) m := by
  refine ⟨pre ++ a :: mid, call, post, by simp, ?_⟩
  rw [after_append, after_cons]
  exact hm

theorem keysName (hr : r.Reached) {acts : List Action} (hplain : ∀ a ∈ acts, a.isPlain = true)
    (hd : (r.after acts).session.mint.Distinct) (hprints : r.PrintsApart acts) : r.KeysName acts := by
  rintro pre a mid b post rfl key x y hx hy
  obtain ⟨hpre, ha, hmid, hb, hpost⟩ : (∀ a ∈ pre, a.isPlain = true) ∧ a.isPlain = true ∧
      (∀ a ∈ mid, a.isPlain = true) ∧ b.isPlain = true ∧ ∀ a ∈ post, a.isPlain = true := by
    simpa only [List.forall_mem_append, List.forall_mem_cons] using hplain
  have hr₁ := hr.after (Action.forall_isClient hpre)
  have hr₂ := hr₁.step (Action.isClient_of_isPlain ha)
  obtain ⟨call, m, att, rfl, hm, rfl, rfl, hkept, hbound⟩ := hx.submission hr₁ ha
  have htied : ((r.after pre).step (.begin call)).Tied m.operation att.keys (· = fingerprint m.payload) := by
    intro att' hatt' _
    rw [hkept] at hatt'; cases hatt'
    exact ⟨_, hbound, rfl⟩
  have hd' : (((((r.after pre).step (.begin call)).after mid).step b).session.mint).Distinct := by
    simp only [after_append, after_cons] at hd
    exact distinct_of_after (Action.forall_isClient hpost) hd
  obtain ⟨call', m', rfl, hm', rfl, hname, hprint⟩ :=
    hy.later hr₂ (hr₂.attemptsMinted _ _ hkept) htied (Action.forall_isClient hmid) hb hd'
  have hsame := hprints m' m (asked_later hm') ⟨pre, call, _, rfl, hm⟩ hprint
  obtain ⟨hmethod, hpath, hbody⟩ := (Mutation.payload_eq_iff m' m).1 hsame
  refine ⟨m.operation, rfl, congrArg some hname, hmethod.symm, hpath.symm, ?_⟩
  show some (Json.setMember _ _ m.body) = some (Json.setMember _ _ m'.body)
  rw [hbody]

theorem completes_of_returned (hr : r.Orderly) {id : Nat} {x : Exchange} {m : Mutation} {tenant : TenantId}
    (hx : r.ongoing.get? id = some (.answer x)) (hp : x.purpose = .submit m tenant) {mid : List Action} {b : Action}
    (hmid : ∀ a ∈ mid, a.isClient = true) (hb : b.isClient = true) {reply : Reply}
    (hreply : ((r.after mid).act b).1 = .progressed id (.returned reply)) (hcompleted : reply.isCompleted = true) :
    (r.after mid).Completes b m tenant := by
  have hid := hr.numbered _ _ hx
  have hturn := act_turn (r.after mid) hb
  rw [hreply] at hturn
  rcases hturn.returned with hnew | ⟨arrival, z, result, rfl, hz, hv, rfl, -⟩
  · have hle := started_le_after hmid r
    omega
  · obtain ⟨w, hw, -, hsame, -⟩ := continues_after hmid hid hz
    rw [hx] at hw
    cases hw
    cases result with
    | ok answer => exact ⟨id, arrival, z, answer, rfl, hz, hsame.trans hp, hv⟩
    | error err =>
      have herror := Reply.error?_of_completed hcompleted
      rw [Client.settle_error] at herror
      cases herror

theorem keysRetire (hr : r.Reached) {acts : List Action} (hplain : ∀ a ∈ acts, a.isPlain = true)
    (hd : (r.after acts).session.mint.Distinct) : r.KeysRetire acts := by
  rintro pre a mid b post c rest rfl key id x y reply hx hsent hreply hcompleted hy
  obtain ⟨hpre, ha, hmid, hb, hpost, hc, hrest⟩ :
      (∀ a ∈ pre, a.isPlain = true) ∧ a.isPlain = true ∧ (∀ a ∈ mid, a.isPlain = true) ∧ b.isPlain = true ∧
        (∀ a ∈ post, a.isPlain = true) ∧ c.isPlain = true ∧ ∀ a ∈ rest, a.isPlain = true := by
    simpa only [List.forall_mem_append, List.forall_mem_cons] using hplain
  have hr₁ := hr.after (Action.forall_isClient hpre)
  have hr₂ := hr₁.step (Action.isClient_of_isPlain ha)
  have hr₃ := hr₂.after (Action.forall_isClient hmid)
  have hr₄ := hr₃.step (Action.isClient_of_isPlain hb)
  obtain ⟨call, m, att, rfl, hm, rfl, rfl, hkept, -⟩ := hx.submission hr₁ ha
  have hturn := act_turn (r.after pre) (Action.isClient_of_isPlain ha)
  rw [hsent] at hturn
  have hcompletes := completes_of_returned hr₂.orderly hturn.waiting_of_event rfl (Action.forall_isClient hmid)
    (Action.isClient_of_isPlain hb) hreply hcompleted
  have htied : ((((r.after pre).step (.begin call)).after mid).step b).Tied m.operation att.keys (fun _ => False) := by
    intro att' hatt' _
    rw [hcompletes.attempt?] at hatt'; cases hatt'
  have hminted : ((((r.after pre).step (.begin call)).after mid).step b).session.Minted m.operation att.keys := by
    obtain ⟨hs, hle⟩ := (act_turn _ (Action.isClient_of_isPlain hb)).mint
    exact (minted_after (Action.forall_isClient hmid) (hr₂.attemptsMinted _ _ hkept)).mono hs hle
  have hd' : ((((((r.after pre).step (.begin call)).after mid).step b).after post).step c).session.mint.Distinct := by
    simp only [after_append, after_cons] at hd
    exact distinct_of_after (Action.forall_isClient hrest) hd
  obtain ⟨call', m', -, -, -, -, hfalse⟩ := hy.later hr₄ hminted htied (Action.forall_isClient hpost) hc hd'
  exact hfalse

theorem keysHold (hr : r.Reached) {acts : List Action} (hplain : ∀ a ∈ acts, a.isPlain = true)
    (hprints : r.PrintsApart acts) : r.KeysHold acts := by
  rintro pre a mid call post rfl key x m tenant m' hx hp hlive now hm' hname hallowed hfree
  obtain ⟨hpre, ha, hmid, hcall, -⟩ : (∀ a ∈ pre, a.isPlain = true) ∧ a.isPlain = true ∧
      (∀ a ∈ mid, a.isPlain = true) ∧ (Action.begin call).isPlain = true ∧ ∀ a ∈ post, a.isPlain = true := by
    simpa only [List.forall_mem_append, List.forall_mem_cons] using hplain
  have hr₁ := hr.after (Action.forall_isClient hpre)
  have hr₂ := hr₁.step (Action.isClient_of_isPlain ha)
  obtain ⟨first, m₀, att, rfl, hm, rfl, rfl, hkept, hbound⟩ := hx.submission hr₁ ha
  cases hp
  have hstamp := (context_step (r := r.after pre) (a := .begin first) rfl (fun _ e => by cases e)).2
  obtain ⟨hcurrent, att', hatt', hkeys, hprint⟩ := holds_after (Action.forall_isClient hmid) hr₂.orderly hr₂.owned hlive
    ⟨hstamp, att, hkept, rfl, hbound⟩
  by_cases hsame : fingerprint m.payload = fingerprint m'.payload
  · left
    have hrequest := (Mutation.payload_eq_iff m m').1
      (hprints m m' ⟨pre, first, _, rfl, hm⟩ (asked_later hm') hsame)
    obtain ⟨y, hy, hagain⟩ := sent_of_kept hatt' hprint hm' hname hrequest hallowed hfree
    refine ⟨hrequest, y, hy, ?_⟩
    rw [hagain, hkeys, show now.session.stamp = _ from hcurrent]
    rfl
  · right
    obtain ⟨n, hstart⟩ := Client.start_of_gated hm' hallowed (hname ▸ hfree)
    rw [hname, Issuer.binding?_of_bound hatt' hprint, if_neg hsame] at hstart
    refine ⟨fun hrequest => hsame (by rw [(Mutation.payload_eq_iff m m').2 hrequest]), ?_⟩
    rw [act_begin, hstart]
    exact ⟨_, .conflict _ _, rfl, Client.submissionReply_error _ m'.intent _, rfl⟩

/-- **The discipline of keys**, for every run in which identifiers are distinct and fingerprints do not
collide. -/
theorem keys_disciplined (hr : r.Reached) {acts : List Action} (hplain : ∀ a ∈ acts, a.isPlain = true)
    (hd : (r.after acts).session.mint.Distinct) (hprints : r.PrintsApart acts) :
    r.KeysName acts ∧ r.KeysRetire acts ∧ r.KeysHold acts :=
  ⟨keysName hr hplain hd hprints, keysRetire hr hplain hd, keysHold hr hplain hprints⟩

/-- A store is to be opened, and that fails. -/
def openingFailed : List Action := [.begin (.createStore ⟨"North", none⟩), .answer 0 (.ok (.make 503 ""))]

/-- A store is to be opened, that fails, and is tried again. -/
def openingTwice : List Action := openingFailed ++ [.begin (.createStore ⟨"North", none⟩)]

theorem openingTwice_drawn : (storeKeeping.after openingTwice).session.mint.drawn = 10 := by
  have hallowed : (storeKeeping.after openingFailed).session.isAllowed Permission.createStores = true := rfl
  have hfree : (storeKeeping.after openingFailed).session.issuer.isInFlight "store-create" = false := rfl
  have hdrawn : (storeKeeping.after openingFailed).session.mint.drawn = 6 := rfl
  rw [openingTwice, after_append, after_cons, after_nil, step_begin_session]
  generalize (storeKeeping.after openingFailed).session = s at *
  show (Client.mutate s (Client.storeMutation s ⟨"North", none⟩)).2.mint.drawn = 10
  rw [Client.mutate_of_free s (Client.storeMutation s ⟨"North", none⟩) hallowed hfree]
  cases s.issuer.binding? (s.skip 1).nextKeys (Client.storeMutation s ⟨"North", none⟩).operation
    (Client.storeMutation s ⟨"North", none⟩).payload <;> exact congrArg (· + 4) hdrawn

theorem openingTwice_distinct : (storeKeeping.after openingTwice).session.mint.Distinct := by
  have hclient : ∀ a ∈ openingTwice, a.isClient = true := by
    simp [openingTwice, openingFailed, Action.isClient]
  have hsupply : (storeKeeping.after openingTwice).session.mint.supply = Uuid.version7 0 := (mint_after hclient _).1
  have hapart : ∀ i < 10, ∀ j < 10, Uuid.version7 0 i = Uuid.version7 0 j → i = j := by decide
  intro i j hi hj he
  rw [openingTwice_drawn] at hi hj
  rw [hsupply] at he
  exact hapart i hi j hj he

theorem openingTwice_printsApart : storeKeeping.PrintsApart openingTwice := by
  have hone : ∀ m, storeKeeping.Asked openingTwice m →
      m.payload = (Client.storeMutation storeKeeping.session ⟨"North", none⟩).payload := by
    rintro m ⟨pre, call, post, he, hm⟩
    rcases pre with _ | ⟨a, _ | ⟨b, _ | ⟨c, pre⟩⟩⟩
    · cases he; cases hm; rfl
    · cases he
    · cases he; cases hm; rfl
    · exact absurd he (by simp [openingTwice, openingFailed])
  intro m m' hm hm' _
  rw [hone m hm, hone m' hm']

theorem opening_retried_as_it_was :
    ∃ x y, (storeKeeping.act (.begin (.createStore ⟨"North", none⟩))).1.sent? = some x ∧
      ((storeKeeping.after openingFailed).act (.begin (.createStore ⟨"North", none⟩))).1.sent? = some y ∧
      y.request = x.request := by
  have hplain : ∀ a ∈ openingTwice, a.isPlain = true := by
    simp [openingTwice, openingFailed, Action.isPlain, Action.isClient]
  have hhold := (keys_disciplined storeKeeping_reached hplain openingTwice_distinct openingTwice_printsApart).2.2
  have hlive : ∀ key, (storeKeeping.step (.begin (.createStore ⟨"North", none⟩))).Live key "store-create"
      [.answer 0 (.ok (.make 503 ""))] := by
    refine fun key => ⟨?_, trivial⟩
    rintro ⟨x, m, tenant, answer, hx, -, -, hv⟩
    cases hx
    cases hv
  have hfirst : (storeKeeping.after []).SendsUnder (.begin (.createStore ⟨"North", none⟩)) _ _ := ⟨rfl, rfl, rfl⟩
  rcases hhold [] _ [_] _ [] rfl _ _ _ _ _ hfirst rfl (hlive _) rfl rfl rfl rfl with ⟨-, y, hy, hsame⟩ | ⟨hother, -⟩
  · exact ⟨_, y, rfl, congrArg Event.sent? hy, hsame⟩
  · exact absurd ⟨rfl, rfl, rfl⟩ hother

end Run
end BackOffice
