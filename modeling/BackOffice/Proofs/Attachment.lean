import BackOffice.Http.Request
/-!
# Attached keys

A request carries the key of one submission.  To attach keys takes out every header of that name, in whatever letter
case it is written, and puts one in at the end; with the field, a body that is an object gets the transaction identifier
as a member, in place of any that it has.  Nothing else of the request changes (`attached_withIdempotency`), and of keys
that are attached one after the other the last are left alone (`withIdempotency_withIdempotency`).
-/
namespace BackOffice

/-! ## Members -/

/-- The members of an object, before and after one of them is set. -/
structure SetsMember (name : String) (v : Json) (members members' : List (String × Json)) : Prop where
  value : ∀ other, Table.lookup other members' = if name = other then some v else Table.lookup other members
  others : members'.filter (fun m => m.1 != name) = members.filter (fun m => m.1 != name)
  /-- Members in order of their names, each name once, are so afterwards, and one of them has this name. -/
  increasing : KeysIncreasing members →
    KeysIncreasing members' ∧ members'.filter (fun m => m.1 == name) = [(name, v)]

theorem setsMember_putSorted (name : String) (v : Json) (members : List (String × Json)) :
    SetsMember name v members (putSorted name v members) where
  value other := Table.lookup_putSorted name other v members
  others := filter_ne_putSorted name v members
  increasing h := by
    have hput : KeysIncreasing (putSorted name v members) := keysIncreasing_putSorted name v members h
    exact ⟨hput, Table.filter_key_of_lookup hput ((Table.lookup_putSorted name name v members).trans (if_pos rfl))⟩

namespace Json

theorem setMember_setMember (name : String) (v w : Json) (body : Json) :
    setMember name w (setMember name v body) = setMember name w body := by
  cases body with
  | object members => exact congrArg object (putSorted_putSorted name v w members)
  | _ => rfl

theorem setMember_of_ne_object {body : Json} (h : ∀ members, body ≠ .object members) (name : String) (v : Json) :
    setMember name v body = body := by
  cases body with
  | object members => exact absurd rfl (h members)
  | _ => rfl

end Json

namespace Request

variable (r : Request) (keys : AttemptKeys) (field : Bool)

/-! ## Headers -/

theorem isNamed_idempotencyHeader (value : String) : isNamed idempotencyHeader (idempotencyHeader, value) = true :=
  Text.sameIgnoringCase_self idempotencyHeader

theorem isNamed_congr {name name' : String} (h : Text.sameIgnoringCase name name' = true) :
    isNamed name = isNamed name' := by
  funext header
  unfold isNamed
  rw [Text.sameIgnoringCase, (Text.sameIgnoringCase_iff name name').1 h]
  rfl

/-- A header of one name has no other. -/
theorem isNamed_eq_false {name name' : String} (h : Text.sameIgnoringCase name name' = false) {header : String × String}
    (hname : isNamed name header = true) : isNamed name' header = false := by
  have hlower : Text.lower header.1 = Text.lower name := (Text.sameIgnoringCase_iff _ _).1 hname
  unfold isNamed Text.sameIgnoringCase
  rw [hlower]
  exact h

theorem headers_withIdempotency : (r.withIdempotency keys field).headers =
    r.headers.filter (fun h => !isNamed idempotencyHeader h) ++ [(idempotencyHeader, keys.idempotencyKey)] := rfl

theorem filter_isNamed_withIdempotency : (r.withIdempotency keys field).headers.filter (isNamed idempotencyHeader) =
    [(idempotencyHeader, keys.idempotencyKey)] := by
  have hgone : (r.headers.filter (fun h => !isNamed idempotencyHeader h)).filter (isNamed idempotencyHeader) = [] := by
    simp [List.filter_filter]
  rw [headers_withIdempotency, List.filter_append, hgone, List.nil_append,
    List.filter_cons_of_pos (isNamed_idempotencyHeader _), List.filter_nil]

theorem filter_not_isNamed_withIdempotency :
    (r.withIdempotency keys field).headers.filter (fun h => !isNamed idempotencyHeader h) =
      r.headers.filter (fun h => !isNamed idempotencyHeader h) := by
  rw [headers_withIdempotency, List.filter_append, List.filter_filter,
    List.filter_cons_of_neg (by simp [isNamed_idempotencyHeader]), List.filter_nil, List.append_nil]
  simp only [Bool.and_self]

/-- **The key is found under its name in every letter case**, and under any other name what was found before. -/
theorem header?_withIdempotency (name : String) : (r.withIdempotency keys field).header? name =
    if Text.sameIgnoringCase name idempotencyHeader then some keys.idempotencyKey else r.header? name := by
  unfold header?
  rw [headers_withIdempotency, List.find?_append, List.find?_filter]
  cases hname : Text.sameIgnoringCase name idempotencyHeader with
  | true =>
    have hgone : r.headers.find? (fun h => decide ((!isNamed idempotencyHeader h) = true ∧
        isNamed idempotencyHeader h = true)) = none := List.find?_eq_none.2 fun h _ => by simp
    rw [isNamed_congr hname, hgone, Option.none_or, List.find?_cons_of_pos (isNamed_idempotencyHeader _)]
    rfl
  | false =>
    have hkept : (fun h => decide ((!isNamed idempotencyHeader h) = true ∧ isNamed name h = true)) = isNamed name := by
      funext h
      cases hh : isNamed name h with
      | true => simp [isNamed_eq_false hname hh]
      | false => simp
    have hlast : isNamed name (idempotencyHeader, keys.idempotencyKey) = false := by
      refine Bool.eq_false_iff.2 fun h => ?_
      have hnot := isNamed_eq_false hname h
      rw [isNamed_idempotencyHeader] at hnot
      cases hnot
    rw [hkept, List.find?_cons_of_neg (by simp [hlast]), List.find?_nil, Option.or_none]
    rfl

/-! ## The whole request -/

/-- A request before and after keys are attached to it. -/
structure Attached (r : Request) (keys : AttemptKeys) (field : Bool) (r' : Request) : Prop where
  /-- There is one header of the name, in whatever letter case. -/
  sole : r'.headers.filter (isNamed idempotencyHeader) = [(idempotencyHeader, keys.idempotencyKey)]
  /-- The others are the same, in the same order. -/
  others : r'.headers.filter (fun h => !isNamed idempotencyHeader h) =
    r.headers.filter (fun h => !isNamed idempotencyHeader h)
  found : ∀ name, r'.header? name =
    if Text.sameIgnoringCase name idempotencyHeader then some keys.idempotencyKey else r.header? name
  told : field = true → ∀ members, r.body = some (.object members) → ∃ members', r'.body = some (.object members') ∧
    SetsMember transactionField (.string keys.transactionId) members members'
  untold : (field = false ∨ ∀ members, r.body ≠ some (.object members)) → r'.body = r.body
  method : r'.method = r.method
  path : r'.path = r.path
  query : r'.query = r.query
  context : r'.context = r.context

theorem attached_withIdempotency : r.Attached keys field (r.withIdempotency keys field) where
  sole := r.filter_isNamed_withIdempotency keys field
  others := r.filter_not_isNamed_withIdempotency keys field
  found := r.header?_withIdempotency keys field
  told := by
    rintro rfl members hbody
    refine ⟨putSorted transactionField (.string keys.transactionId) members, ?_, setsMember_putSorted _ _ members⟩
    show r.body.map (Json.setMember _ _) = _
    rw [hbody]
    rfl
  untold := by
    rintro (rfl | hbody)
    · rfl
    · cases field with
      | false => rfl
      | true =>
        show r.body.map (Json.setMember _ _) = _
        cases hb : r.body with
        | none => rfl
        | some body =>
          refine congrArg some (Json.setMember_of_ne_object (fun members h => ?_) _ _)
          exact hbody members (hb.trans (congrArg some h))
  method := rfl
  path := rfl
  query := rfl
  context := rfl

/-- **Of keys that are attached one after the other the last alone are left**, where a transaction that was told is told
again. -/
theorem withIdempotency_withIdempotency {field field' : Bool} (h : field = true → field' = true)
    (keys' : AttemptKeys) :
    (r.withIdempotency keys field).withIdempotency keys' field' = r.withIdempotency keys' field' := by
  have hheaders : ((r.withIdempotency keys field).withIdempotency keys' field').headers =
      (r.withIdempotency keys' field').headers := by
    rw [headers_withIdempotency, filter_not_isNamed_withIdempotency]
    rfl
  have hbody : ((r.withIdempotency keys field).withIdempotency keys' field').body =
      (r.withIdempotency keys' field').body := by
    cases field with
    | false => rfl
    | true =>
      obtain rfl := h rfl
      show (r.body.map (Json.setMember _ _)).map (Json.setMember _ _) = r.body.map (Json.setMember _ _)
      rw [Option.map_map]
      congr 1
      funext body
      exact Json.setMember_setMember _ _ _ body
  calc (r.withIdempotency keys field).withIdempotency keys' field'
    _ = { r with
          headers := ((r.withIdempotency keys field).withIdempotency keys' field').headers
          body := ((r.withIdempotency keys field).withIdempotency keys' field').body } := rfl
    _ = r.withIdempotency keys' field' := by rw [hheaders, hbody]; rfl

/-- **Attaching keys is a clean overwrite**, for every request, whatever steps have given it its headers and its body. -/
theorem keys_overwritten (r : Request) (keys : AttemptKeys) (field : Bool) :
    r.Attached keys field (r.withIdempotency keys field) ∧
      ∀ keys' : AttemptKeys, (r.withIdempotency keys field).withIdempotency keys' field = r.withIdempotency keys' field :=
  ⟨r.attached_withIdempotency keys field, r.withIdempotency_withIdempotency keys id⟩

/-- Whatever the letter case, the keys that were there are gone. -/
example : ((((make .post "/stores").withHeader "IDEMPOTENCY-key" "old").withHeader "Accept" "*/*").withIdempotency
    ⟨"new", "t"⟩ true).headers = [("Accept", "*/*"), ("Idempotency-Key", "new")] := by decide +kernel

end Request
end BackOffice
