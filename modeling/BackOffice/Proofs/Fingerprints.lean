import BackOffice.Proofs.Attempts
import BackOffice.Proofs.Canonical
import BackOffice.Proofs.Rendering
/-!
# Fingerprints

The fingerprint of a payload is a digest of the compact text of its canonical form.  The text tells the canonical form,
and the canonical form tells everything but the order of members; so as far as digests do not collide, and doubles that
are written alike are one double, two payloads have one fingerprint exactly if they are alike (`fingerprint_eq_iff`).
An attempt that is bound to a request is then given out for that request and for no other (`Bound.answers`), and it
stays bound until it is forgotten (`Bound.after`).
-/
namespace BackOffice

open Written (ofJson)

/-- What is assumed of the fingerprints of two values: doubles in them that are written alike are one double, and the
digests of their canonical texts do not collide. -/
structure Json.PrintsApart (a b : Json) : Prop where
  doubles : DoublesApart (ofJson a).numbers (ofJson b).numbers
  digests : Sha256.ofText a.canonical.render = Sha256.ofText b.canonical.render →
    a.canonical.render = b.canonical.render

/-! ## Payloads -/

/-- Values that are alike have one fingerprint, whatever is true of digests. -/
theorem fingerprint_of_alike {a b : Json} (h : a.Alike b) : fingerprint a = fingerprint b := by
  unfold fingerprint
  rw [(Json.canonical_eq_iff a b).2 h]

/-- **Fingerprints tell apart what is not alike.** -/
theorem fingerprint_eq_iff {a b : Json} (h : a.PrintsApart b) : fingerprint a = fingerprint b ↔ a.Alike b := by
  refine ⟨fun hprint => ?_, fingerprint_of_alike⟩
  have hdoubles := h.doubles.mono (Json.numbers_canonical a) (Json.numbers_canonical b)
  exact (Json.canonical_eq_iff a b).1 (Json.render_inj hdoubles (h.digests hprint))

theorem canonical_requestPayload (method path : String) (body : Json) :
    (requestPayload method path body).canonical = requestPayload method path body.canonical := by
  have hrecord : ∀ v : Json, Json.record [("body", v), ("method", .string method), ("path", .string path)] =
      .object [("body", v), ("method", .string method), ("path", .string path)] := by
    intro v
    have hbody : compare "body" "method" = .lt ∧ compare "body" "path" = .lt := by decide
    have hmethod : compare "method" "path" = .lt := by decide
    exact Json.record_of_increasing (by simp [hbody, hmethod])
  rw [requestPayload_eq, requestPayload_eq, Json.canonical_object]
  exact hrecord body.canonical

theorem alike_requestPayload_iff {method path method' path' : String} {body body' : Json} :
    (requestPayload method path body).Alike (requestPayload method' path' body') ↔
      method = method' ∧ path = path' ∧ body.Alike body' := by
  rw [← Json.canonical_eq_iff, ← Json.canonical_eq_iff, canonical_requestPayload, canonical_requestPayload,
    requestPayload_eq, requestPayload_eq]
  simp only [Json.object.injEq, List.cons.injEq, Prod.mk.injEq, true_and, and_true, Json.string.injEq]
  exact and_rotate

/-! ## Attempts -/

namespace Issuer

variable {i : Issuer} {name : String} {a : Attempt} {payload : Json}

/-- **An attempt that is bound is given out for what it is bound to**, and for nothing else. -/
theorem obtainFor_of_bound (ha : i.attempt? name = some a) (hbound : a.fingerprint = some (fingerprint payload))
    {payload' : Json} (hprints : payload'.PrintsApart payload) (fresh : FreshKeys) :
    (payload'.Alike payload ∧ (i.obtainFor fresh name payload').1 = .ok a.keys) ∨
      (¬ payload'.Alike payload ∧ i.obtainFor fresh name payload' = (.error ⟨name⟩, i)) := by
  rw [obtainFor_eq, binding?_of_bound ha hbound, ← fingerprint_eq_iff hprints]
  by_cases hsame : fingerprint payload = fingerprint payload'
  · exact .inl ⟨hsame.symm, by rw [if_pos hsame]⟩
  · exact .inr ⟨Ne.symm hsame, by rw [if_neg hsame]⟩

/-- Keys that are given out for a payload are those of an attempt that is bound to it. -/
theorem bound_of_obtainFor {fresh : FreshKeys} {k : AttemptKeys} (h : (i.obtainFor fresh name payload).1 = .ok k) :
    ∃ a, (i.obtainFor fresh name payload).2.attempt? name = some a ∧ a.keys = k ∧
      a.fingerprint = some (fingerprint payload) := by
  rw [attempt?_obtainFor, if_pos rfl]
  rw [obtainFor_eq] at h
  cases hb : i.binding? fresh name payload with
  | none =>
    rw [hb] at h
    cases h
  | some a =>
    rw [hb] at h
    cases h
    exact ⟨a, rfl, rfl, (binding?_cases hb).1⟩

end Issuer

namespace Desk

variable {d : Desk} {name method path : String} {body : Json} {k : AttemptKeys}

theorem act_obtainForRequest (d : Desk) (name method path : String) (body : Json) :
    (d.act (.single (.obtainForRequest name method path body))).1 = .single (IssuerOp.keysOrError
        (.minted (d.mint.supply (d.mint.drawn + 2)))
        (d.held.issuer.obtainFor d.fresh name (requestPayload method path body)).1) ∧
      (d.step (.single (.obtainForRequest name method path body))).held =
        { d.held with issuer := (d.held.issuer.obtainFor d.fresh name (requestPayload method path body)).2 } :=
  ⟨rfl, rfl⟩

/-- The attempt under the name has these keys and is bound to the request. -/
def Bound (d : Desk) (name method path : String) (body : Json) (k : AttemptKeys) : Prop :=
  ∃ a, d.attempt? name = some a ∧ a.keys = k ∧ a.fingerprint = some (fingerprint (requestPayload method path body))

theorem bound_of_keys (h : (d.act (.single (.obtainForRequest name method path body))).1.keys? = some k) :
    (d.step (.single (.obtainForRequest name method path body))).Bound name method path body k := by
  obtain ⟨hanswer, hheld⟩ := d.act_obtainForRequest name method path body
  rw [hanswer] at h
  unfold Bound attempt?
  rw [hheld]
  refine Issuer.bound_of_obtainFor ?_
  cases hgiven : (d.held.issuer.obtainFor d.fresh name (requestPayload method path body)).1 with
  | ok k' =>
    rw [hgiven] at h
    cases h
    rfl
  | error c =>
    rw [hgiven] at h
    cases h

/-- **An attempt stays bound until it is forgotten.** -/
theorem Bound.after (h : d.Bound name method path body k) {ops : List DeskOp}
    (hops : ∀ op ∈ ops, op.forgets name = false) : (d.after ops).Bound name method path body k := by
  obtain ⟨a, ha, rfl, hprint⟩ := h
  obtain ⟨a', ha', hkeys, hnone | hsame⟩ := lives_after ha hops
  · rw [hprint] at hnone
    cases hnone
  · exact ⟨a', ha', hkeys, hsame.trans hprint⟩

/-- What a desk answers to a request under a name whose attempt is bound: the keys of the attempt if method, path and
body are those it is bound to, but for the order of members, and else a conflict that changes nothing. -/
def Answers (d : Desk) (name method path : String) (body : Json) (k : AttemptKeys) (method' path' : String)
    (body' : Json) : Prop :=
  let again : DeskOp := .single (.obtainForRequest name method' path' body')
  ((method' = method ∧ path' = path ∧ body'.Alike body) ∧ (d.act again).1.keys? = some k) ∨
    (¬ (method' = method ∧ path' = path ∧ body'.Alike body) ∧
      ∃ e, (d.act again).1.refused? = some e ∧ e.category = .conflict ∧ (d.step again).held = d.held)

theorem Bound.answers (h : d.Bound name method path body k) {method' path' : String} {body' : Json}
    (hprints : (requestPayload method' path' body').PrintsApart (requestPayload method path body)) :
    d.Answers name method path body k method' path' body' := by
  obtain ⟨a, ha, rfl, hbound⟩ := h
  obtain ⟨hanswer, hheld⟩ := d.act_obtainForRequest name method' path' body'
  unfold Answers
  rw [← alike_requestPayload_iff]
  simp only [hanswer, hheld]
  rcases Issuer.obtainFor_of_bound ha hbound hprints d.fresh with ⟨hsame, hgiven⟩ | ⟨hother, hrefused⟩
  · refine .inl ⟨hsame, ?_⟩
    rw [hgiven]
    rfl
  · refine .inr ⟨hother, ?_⟩
    rw [hrefused]
    exact ⟨_, rfl, rfl, rfl⟩

/-- **Fingerprints tell requests apart**, for all values of any depth: they are the same exactly for values that are
alike.  So a request that is given keys under a name binds the attempt, and as long as the attempt is not forgotten,
whatever else is done, the name answers with these keys to that request, up to the order of members in its body, and
with a conflict to every other. -/
theorem requests_told_apart :
    (∀ a b : Json, a.PrintsApart b → (fingerprint a = fingerprint b ↔ a.Alike b)) ∧
    (∀ (d : Desk) (name method path : String) (body : Json) (k : AttemptKeys),
      (d.act (.single (.obtainForRequest name method path body))).1.keys? = some k →
      (d.step (.single (.obtainForRequest name method path body))).Bound name method path body k) ∧
    ∀ (d : Desk) (name method path : String) (body : Json) (k : AttemptKeys), d.Bound name method path body k →
      ∀ ops : List DeskOp, (∀ op ∈ ops, op.forgets name = false) → ∀ (method' path' : String) (body' : Json),
      (requestPayload method' path' body').PrintsApart (requestPayload method path body) →
      (d.after ops).Answers name method path body k method' path' body' :=
  ⟨fun _ _ => fingerprint_eq_iff, fun _ _ _ _ _ _ => bound_of_keys,
    fun _ _ _ _ _ _ hbound _ hops _ _ _ hprints => (hbound.after hops).answers hprints⟩

def northBody : Json := .object [("name", .string "North"), ("floors", .array [.nat 2, .nat 1])]

def northReordered : Json := .object [("floors", .array [.nat 2, .nat 1]), ("name", .string "North")]

theorem northBody_alike : northBody.Alike northReordered :=
  Json.alike_of_perm (by simp) (List.Perm.swap _ _ _)

/-- The members of a body can be sent in another order, and the path cannot be another. -/
theorem reordered_request_has_its_keys :
    let d := start (.ofMillis 0)
    let opening : DeskOp := .single (.obtainForRequest "store-create" "POST" "/stores" northBody)
    let later := (d.step opening).after [.single (.markFailed "store-create")]
    fingerprint northBody = fingerprint northReordered ∧
      ∃ k, (d.act opening).1.keys? = some k ∧
        (later.act (.single (.obtainForRequest "store-create" "POST" "/stores" northReordered))).1.keys? = some k ∧
        ∃ e, (later.act (.single (.obtainForRequest "store-create" "POST" "/shops" northBody))).1.refused? =
          some e := by
  intro d opening later
  obtain ⟨hprints, hbinds, hanswers⟩ := requests_told_apart
  have halike : (requestPayload "POST" "/stores" northReordered).Alike (requestPayload "POST" "/stores" northBody) :=
    alike_requestPayload_iff.2 ⟨rfl, rfl, Json.alike_of_perm (by simp) (List.Perm.swap _ _ _)⟩
  have hintegers : ∀ ns, Json.DoublesApart [.integer 2, .integer 1] ns := fun _ _ _ hx => by simp at hx
  have hbody : northBody.PrintsApart northReordered :=
    ⟨hintegers _, fun _ => congrArg Json.render ((Json.canonical_eq_iff _ _).2 northBody_alike)⟩
  have hreordered : (requestPayload "POST" "/stores" northReordered).PrintsApart
      (requestPayload "POST" "/stores" northBody) :=
    ⟨hintegers _, fun _ => congrArg Json.render ((Json.canonical_eq_iff _ _).2 halike)⟩
  have hmoved : (requestPayload "POST" "/shops" northBody).PrintsApart (requestPayload "POST" "/stores" northBody) :=
    ⟨hintegers _, fun h => absurd h (by decide +kernel)⟩
  have hkept : ∀ op ∈ [DeskOp.single (.markFailed "store-create")], op.forgets "store-create" = false := by
    simp [DeskOp.forgets, IssuerOp.forgets]
  obtain ⟨k, hk⟩ : ∃ k, (d.act opening).1.keys? = some k := ⟨_, rfl⟩
  have hbound := hbinds d "store-create" "POST" "/stores" northBody k hk
  refine ⟨(hprints _ _ hbody).2 northBody_alike, k, hk, ?_, ?_⟩
  · rcases hanswers _ _ _ _ _ _ hbound _ hkept _ _ _ hreordered with ⟨-, hgiven⟩ | ⟨hother, -⟩
    · exact hgiven
    · exact absurd (alike_requestPayload_iff.1 halike) hother
  · rcases hanswers _ _ _ _ _ _ hbound _ hkept _ _ _ hmoved with ⟨⟨-, hpath, -⟩, -⟩ | ⟨-, e, hrefused, -⟩
    · exact absurd hpath (by decide)
    · exact ⟨e, hrefused⟩

end Desk

end BackOffice
