import BackOffice.Proofs.Failures
/-!
# What a server's text can do

An answer that is no success becomes an error.  Its status fixes the kind of the error and with it whether the call is
sent again, and for most statuses the category as well.  For the others the words of the error code count, and where
none of these is known the words of the message; nothing else that the server writes has any effect on how the error is
filed (`filed_alike`).  No text files an error as cancelled, or under the server's failures beside its statuses.
-/
namespace BackOffice

namespace Category

/-- The statuses whose category does not depend on what the server writes. -/
def IsFixed (status : Nat) : Prop :=
  status ∈ [400, 401, 403, 404, 408, 409, 410, 412, 422] ∨ 500 ≤ status ∧ status ≤ 599

instance (status : Nat) : Decidable (IsFixed status) :=
  inferInstanceAs (Decidable (status ∈ [400, 401, 403, 404, 408, 409, 410, 412, 422] ∨ 500 ≤ status ∧ status ≤ 599))

theorem ofStatus_eq_none_iff (n : Nat) : ofStatus n = none ↔ ¬ IsFixed n := by
  unfold ofStatus IsFixed
  (repeat' split) <;> simp <;> omega

/-- Some word of the rules occurs in the text, in any letter case. -/
def Matches (rules : List (List String × Category)) (text : String) : Prop :=
  ∃ rule ∈ rules, ∃ word ∈ rule.1, Text.contains (Text.lower text) word = true

theorem ofWords_eq_none_iff (rules : List (List String × Category)) (text : String) :
    ofWords rules text = none ↔ ¬ Matches rules text := by
  unfold Matches
  induction rules with
  | nil => simp [ofWords]
  | cons rule rules ih =>
    unfold ofWords
    by_cases hrule : rule.1.any (Text.contains (Text.lower text)) = true
    · rw [if_pos hrule]
      refine iff_of_false (by simp) (fun hnone => hnone ⟨rule, List.mem_cons_self, ?_⟩)
      obtain ⟨word, hword, hoccurs⟩ := List.any_eq_true.1 hrule
      exact ⟨word, hword, hoccurs⟩
    · rw [if_neg hrule, ih]
      simp only [List.mem_cons, exists_eq_or_imp]
      rw [List.any_eq_true] at hrule
      exact not_congr (iff_or_self.2 fun h => absurd h hrule)

theorem ofWords_congr (rules : List (List String × Category)) {text text' : String}
    (h : Text.sameIgnoringCase text text' = true) : ofWords rules text = ofWords rules text' := by
  have hlower : Text.lower text = Text.lower text' := (Text.sameIgnoringCase_iff text text').1 h
  induction rules with
  | nil => rfl
  | cons rule rules ih =>
    unfold ofWords
    rw [hlower, ih]

theorem matches_congr (rules : List (List String × Category)) {text text' : String}
    (h : Text.sameIgnoringCase text text' = true) : Matches rules text ↔ Matches rules text' := by
  unfold Matches
  rw [(Text.sameIgnoringCase_iff text text').1 h]

/-- **The status decides where it can.** -/
theorem classify_of_fixed {n : Nat} (h : IsFixed n) (code code' : Option String) (message message' : String) :
    classify (some n) code message = classify (some n) code' message' := by
  obtain ⟨c, hc⟩ := Option.ne_none_iff_exists'.1 fun hnone => (ofStatus_eq_none_iff n).1 hnone h
  unfold classify
  rw [Option.bind_some, hc, Option.some_or, Option.some_or]

/-- A code that some word matches is filed by its words, whatever the message. -/
theorem classify_of_code {n : Nat} (hn : ¬ IsFixed n) {code : String} (hcode : Matches codeRules code) (message : String) :
    ofWords codeRules code = some (classify (some n) (some code) message) := by
  obtain ⟨c, hc⟩ := Option.ne_none_iff_exists'.1 fun hnone => (ofWords_eq_none_iff codeRules code).1 hnone hcode
  unfold classify
  rw [Option.bind_some, (ofStatus_eq_none_iff n).2 hn, Option.none_or, Option.bind_some, hc, Option.some_or,
    Option.getD_some]

/-- Without such a code an error is filed by the words of its message. -/
theorem classify_of_message {n : Nat} (hn : ¬ IsFixed n) {code : Option String}
    (hcode : ∀ text, code = some text → ¬ Matches codeRules text) (message : String) :
    classify (some n) code message = (ofWords messageRules message).getD .unknown := by
  have hnone : code.bind (ofWords codeRules) = none :=
    Option.bind_eq_none_iff.2 fun text h => (ofWords_eq_none_iff codeRules text).2 (hcode text h)
  unfold classify
  rw [Option.bind_some, (ofStatus_eq_none_iff n).2 hn, hnone, Option.none_or, Option.none_or]

end Category

/-- The body keeps to the server's form, and the rules for codes know its code. -/
def RawResponse.BearsKnownCode (raw : RawResponse) : Prop :=
  ∃ envelope, ErrorEnvelope.decoder.text raw.body = some envelope ∧ Category.Matches Category.codeRules envelope.code

namespace ApiError

theorem ofResponse_code (fresh : Uuid) (raw : RawResponse) :
    (ofResponse fresh raw).code = (ErrorEnvelope.decoder.text raw.body).map ErrorEnvelope.code := by
  unfold ofResponse
  cases ErrorEnvelope.decoder.text raw.body <;> rfl

theorem ofResponse_category_eq (fresh : Uuid) (raw : RawResponse) : (ofResponse fresh raw).category =
    Category.classify (some raw.status) (ofResponse fresh raw).code (ofResponse fresh raw).message := by
  unfold ofResponse
  cases ErrorEnvelope.decoder.text raw.body <;> rfl

theorem ofResponse_failureKind (fresh : Uuid) (raw : RawResponse) : (ofResponse fresh raw).failureKind =
    if 500 ≤ raw.status then .http5xx raw.status else .http4xx raw.status :=
  failureKind_of_status (ofResponse_filed fresh raw).1 (ofResponse_filed fresh raw).2

theorem ofResponse_isRetryable (fresh : Uuid) (raw : RawResponse) :
    (ofResponse fresh raw).isRetryable = decide (500 ≤ raw.status) :=
  isRetryable_of_status (ofResponse_filed fresh raw).1 (ofResponse_filed fresh raw).2

theorem category_of_code {raw : RawResponse} (hopen : ¬ Category.IsFixed raw.status) {envelope : ErrorEnvelope}
    (henvelope : ErrorEnvelope.decoder.text raw.body = some envelope)
    (hknown : Category.Matches Category.codeRules envelope.code) (fresh : Uuid) :
    Category.ofWords Category.codeRules envelope.code = some (ofResponse fresh raw).category := by
  have hcode : (ofResponse fresh raw).code = some envelope.code := by rw [ofResponse_code, henvelope]; rfl
  rw [ofResponse_category_eq, hcode]
  exact Category.classify_of_code hopen hknown _

theorem category_of_message {raw : RawResponse} (hopen : ¬ Category.IsFixed raw.status) (hunknown : ¬ raw.BearsKnownCode)
    (fresh : Uuid) : (ofResponse fresh raw).category =
      (Category.ofWords Category.messageRules (ofResponse fresh raw).message).getD .unknown := by
  rw [ofResponse_category_eq]
  refine Category.classify_of_message hopen (fun code hcode hknown => hunknown ?_) _
  rw [ofResponse_code] at hcode
  obtain ⟨envelope, henvelope, rfl⟩ := Option.map_eq_some_iff.1 hcode
  exact ⟨envelope, henvelope, hknown⟩

/-- **What the server writes counts only as far as the status leaves it open.**  Two answers of one status, whatever
else they hold, become errors of one kind, and are both tried again or both not.  A fixed status gives them one category
and so one offer to try again.  Else known codes that differ in letter case at most give them one category whatever the
messages, and so do, without known codes, messages that differ in letter case at most.  No answer is filed as cancelled,
and under the server's failures none but those with a status from 500 to 599. -/
theorem filed_alike (fresh fresh' : Uuid) {raw raw' : RawResponse} (hstatus : raw.status = raw'.status) :
    let err := ofResponse fresh raw
    let err' := ofResponse fresh' raw'
    (err.failureKind = err'.failureKind ∧ err.isRetryable = err'.isRetryable) ∧
    (Category.IsFixed raw.status → err.category = err'.category ∧
      ∀ idempotent, err.offersRetry idempotent = err'.offersRetry idempotent) ∧
    (¬ Category.IsFixed raw.status →
      (∀ envelope envelope', ErrorEnvelope.decoder.text raw.body = some envelope →
        ErrorEnvelope.decoder.text raw'.body = some envelope' →
        Text.sameIgnoringCase envelope.code envelope'.code = true →
        Category.Matches Category.codeRules envelope.code → err.category = err'.category) ∧
      (¬ raw.BearsKnownCode → ¬ raw'.BearsKnownCode → Text.sameIgnoringCase err.message err'.message = true →
        err.category = err'.category)) ∧
    err.category ≠ .cancelled ∧ (err.category = .server ↔ 500 ≤ raw.status ∧ raw.status ≤ 599) := by
  intro err err'
  have hfixed : Category.IsFixed raw.status → err.category = err'.category := by
    intro h
    show (ofResponse fresh raw).category = (ofResponse fresh' raw').category
    rw [ofResponse_category_eq, ofResponse_category_eq, ← hstatus]
    exact Category.classify_of_fixed h _ _ _ _
  refine ⟨⟨?_, ?_⟩, fun h => ⟨hfixed h, fun idempotent => ?_⟩, fun hopen => ⟨?_, ?_⟩, (ofResponse_filed fresh raw).1,
    ofResponse_category fresh raw⟩
  · rw [ofResponse_failureKind, ofResponse_failureKind, hstatus]
  · rw [ofResponse_isRetryable, ofResponse_isRetryable, hstatus]
  · unfold offersRetry
    rw [hfixed h]
  · intro envelope envelope' henvelope henvelope' hsame hknown
    have hknown' : Category.Matches Category.codeRules envelope'.code :=
      (Category.matches_congr Category.codeRules hsame).1 hknown
    have hcode := category_of_code hopen henvelope hknown fresh
    have hcode' := category_of_code (hstatus ▸ hopen) henvelope' hknown' fresh'
    rw [Category.ofWords_congr Category.codeRules hsame, hcode'] at hcode
    exact (Option.some.inj hcode).symm
  · intro hunknown hunknown' hsame
    show (ofResponse fresh raw).category = (ofResponse fresh' raw').category
    rw [category_of_message hopen hunknown, category_of_message (hstatus ▸ hopen) hunknown',
      Category.ofWords_congr Category.messageRules hsame]

/-- Two answers to requests that came too often, with one code in different letter case and messages of their own. -/
def throttled : RawResponse := .make 429 "\x7b\"code\":\"UPSTREAM_Timeout\",\"message\":\"later\"\x7d"

def throttledAgain : RawResponse := .make 429 "\x7b\"message\":\"already exists\",\"code\":\"upstream_timeout\"\x7d"

theorem throttled_alike : (ofResponse default throttled).category = (ofResponse default throttledAgain).category ∧
    (ofResponse default throttled).category = .timeout := by
  have hcode : (ErrorEnvelope.decoder.text throttled.body).map ErrorEnvelope.code = some "UPSTREAM_Timeout" := by
    decide +kernel
  have hcode' : (ErrorEnvelope.decoder.text throttledAgain.body).map ErrorEnvelope.code = some "upstream_timeout" := by
    decide +kernel
  obtain ⟨envelope, henvelope, hname⟩ := Option.map_eq_some_iff.1 hcode
  obtain ⟨envelope', henvelope', hname'⟩ := Option.map_eq_some_iff.1 hcode'
  have hopen : ¬ Category.IsFixed throttled.status := by decide
  have hknown : Category.Matches Category.codeRules envelope.code := by
    rw [hname]
    exact ⟨(["timeout"], .timeout), by simp [Category.codeRules], "timeout", List.mem_singleton_self _, by decide +kernel⟩
  have hsame : Text.sameIgnoringCase envelope.code envelope'.code = true := by
    rw [hname, hname']
    decide +kernel
  obtain ⟨-, -, halike, -⟩ := @filed_alike default default throttled throttledAgain rfl
  refine ⟨(halike hopen).1 envelope envelope' henvelope henvelope' hsame hknown, ?_⟩
  have hfiled := category_of_code hopen henvelope hknown default
  rw [hname, show Category.ofWords Category.codeRules "UPSTREAM_Timeout" = some .timeout by decide +kernel] at hfiled
  exact (Option.some.inj hfiled).symm

end ApiError
end BackOffice
