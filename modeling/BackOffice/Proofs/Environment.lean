import BackOffice.Proofs.Acceptance
import BackOffice.Proofs.Numerals
/-!
# What the environment says

A variable that is set has a text, and the text is told here by what stands between its blanks: a numeral, or one of
eight words.  Where the text of every variable stands for something, the environment describes settings, and these are
read unless a check stops them; where it does not, the first variable whose text stands for nothing is named
(`Config.ofEnvironment_exact`).
-/
namespace BackOffice

namespace Config

/-! ## Switches -/

/-- The words for a position of a switch. -/
def switchWords : Bool → List String
  | true  => ["1", "true", "yes", "on"]
  | false => ["0", "false", "no", "off"]

/-- A text that stands for a position of a switch, in letters of either case. -/
def SaysSwitch (s : String) (b : Bool) : Prop :=
  ∃ core, String.ofList (core.map Text.lowerChar) ∈ switchWords b ∧ Text.Padded core s

theorem parseSwitch_eq_some_iff {s : String} {b : Bool} : parseSwitch s = some b ↔ s ∈ switchWords b := by
  have hapart : ∀ w ∈ switchWords true, ¬ w ∈ switchWords false := by decide
  have htrue : ["1", "true", "yes", "on"].contains s = true ↔ s ∈ switchWords true := List.contains_iff_mem
  have hfalse : ["0", "false", "no", "off"].contains s = true ↔ s ∈ switchWords false := List.contains_iff_mem
  unfold parseSwitch
  split
  · rename_i hs
    have hs := htrue.1 hs
    cases b with
    | true => exact ⟨fun _ => hs, fun _ => rfl⟩
    | false => exact ⟨fun h => (by cases h), fun h => absurd h (hapart s hs)⟩
  · rename_i hnot
    split
    · rename_i hs
      have hs := hfalse.1 hs
      cases b with
      | true => exact ⟨fun h => (by cases h), fun h => absurd (htrue.2 h) hnot⟩
      | false => exact ⟨fun _ => hs, fun _ => rfl⟩
    · rename_i hneither
      refine ⟨fun h => (by cases h), fun h => ?_⟩
      cases b with
      | true => exact absurd (htrue.2 h) hnot
      | false => exact absurd (hfalse.2 h) hneither

theorem isBlank_eq_false_of_word {core : List Char} {b : Bool}
    (h : String.ofList (core.map Text.lowerChar) ∈ switchWords b) : ∀ c ∈ core, Text.isBlank c = false := by
  have hwords : ∀ b, ∀ w ∈ switchWords b, w.toList.all (fun c => !Text.isBlank c) = true := by decide
  intro c hc
  -- a blank is no capital letter, so it would stand in the word itself
  refine Bool.eq_false_iff.2 fun hblank => ?_
  have hself : Text.lowerChar c = c := by
    have hA : 'A'.toNat = 65 := rfl
    have hZ : 'Z'.toNat = 90 := rfl
    simp only [Text.isBlank, Text.blankRanges, List.any_cons, List.any_nil, Bool.or_eq_true, Bool.and_eq_true,
      decide_eq_true_eq, Bool.or_false] at hblank
    exact if_neg (by omega)
  have hmem := List.all_eq_true.1 (hwords b _ h) (Text.lowerChar c)
    (by rw [String.toList_ofList]; exact List.mem_map_of_mem hc)
  rw [hself, hblank] at hmem
  cases hmem

theorem parseSwitch_trim_eq_some_iff {s : String} {b : Bool} :
    parseSwitch (Text.lower (Text.trim s)) = some b ↔ SaysSwitch s b := by
  rw [parseSwitch_eq_some_iff, Text.lower]
  refine ⟨fun h => ⟨_, h, Text.padded_trim s⟩, ?_⟩
  rintro ⟨core, hcore, hs⟩
  rwa [Text.trim_eq_of_padded hs (isBlank_eq_false_of_word hcore), String.toList_ofList]

end Config

/-! ## Variables -/

namespace Variable

open Config (SaysNumber SaysSwitch standard)

/-- The place of a variable in the order in which they are read. -/
def rank : Variable → Nat
  | .apiUrl       => 0
  | .timeoutSecs  => 1
  | .maxAttempts  => 2
  | .backoffMs    => 3
  | .verifyTls    => 4
  | .cacheTtlSecs => 5
  | .token        => 6

/-- The text of a variable says what its setting is. -/
def Says (s : String) (c : Config) : Variable → Prop
  | .apiUrl       => c.baseUrl = s
  | .timeoutSecs  => SaysNumber Config.limit64 s c.timeoutSecs
  | .maxAttempts  => SaysNumber Config.limit32 s c.maxAttempts
  | .backoffMs    => SaysNumber Config.limit64 s c.backoffMs
  | .verifyTls    => SaysSwitch s c.verifyTls
  | .cacheTtlSecs => SaysNumber Config.limit64 s c.cacheTtlSecs
  | .token        => c.token = if s = "" then none else some s

/-- The setting of a variable is as it is where nothing is said. -/
def Silent (c : Config) : Variable → Prop
  | .apiUrl       => c.baseUrl = standard.baseUrl
  | .timeoutSecs  => c.timeoutSecs = standard.timeoutSecs
  | .maxAttempts  => c.maxAttempts = standard.maxAttempts
  | .backoffMs    => c.backoffMs = standard.backoffMs
  | .verifyTls    => c.verifyTls = standard.verifyTls
  | .cacheTtlSecs => c.cacheTtlSecs = standard.cacheTtlSecs
  | .token        => c.token = standard.token

/-- The text of a variable stands for some setting. -/
def Understood (v : Variable) (s : String) : Prop := ∃ c, v.Says s c

theorem silent_standard (v : Variable) : v.Silent standard := by
  cases v <;> rfl

end Variable

namespace Config

/-- The setting of a variable is what the environment says, or as it is where nothing is said. -/
structure Follows (env : Environment) (c : Config) (v : Variable) : Prop where
  said : ∀ s, env v = some s → v.Says s c
  unsaid : env v = none → v.Silent c

/-- The settings that an environment describes. -/
def DescribedBy (env : Environment) (c : Config) : Prop := ∀ v, Follows env c v

/-- The first variable whose text is not understood. -/
structure FirstFault (env : Environment) (v : Variable) (s : String) : Prop where
  given : env v = some s
  fault : ¬ v.Understood s
  earlier : ∀ w : Variable, w.rank < v.rank → ∀ t, env w = some t → w.Understood t

variable {env : Environment} {c : Config}

/-- Of variables whose texts are understood, there are settings that follow them all. -/
theorem exists_follows {which : Variable → Prop} (h : ∀ v, which v → ∀ s, env v = some s → v.Understood s) :
    ∃ c, ∀ v, which v → Follows env c v := by
  have hone : ∀ v, ∃ c, which v → Follows env c v := by
    intro v
    cases hv : env v with
    | none => exact ⟨standard, fun _ => ⟨fun s hs => (by rw [hv] at hs; cases hs), fun _ => v.silent_standard⟩⟩
    | some s =>
      by_cases hwhich : which v
      · obtain ⟨c, hc⟩ := h v hwhich s hv
        refine ⟨c, fun _ => ⟨fun t ht => ?_, fun hnone => (by rw [hv] at hnone; cases hnone)⟩⟩
        cases hv.symm.trans ht
        exact hc
      · exact ⟨standard, fun hv => absurd hv hwhich⟩
  choose pick hpick using hone
  -- whether settings follow a variable is seen at its own setting alone
  refine ⟨⟨(pick .apiUrl).baseUrl, (pick .timeoutSecs).timeoutSecs, (pick .maxAttempts).maxAttempts,
    (pick .backoffMs).backoffMs, (pick .verifyTls).verifyTls, (pick .cacheTtlSecs).cacheTtlSecs,
    (pick .token).token⟩, fun v hv => ⟨fun s hs => ?_, fun hnone => ?_⟩⟩
  · have htold := (hpick v hv).said s hs
    cases v <;> exact htold
  · have hsilent := (hpick v hv).unsaid hnone
    cases v <;> exact hsilent

/-! ## Reading one variable -/

/-- What is read from a variable whose texts are read by `p`. -/
def readVar {α : Type} (env : Environment) (v : Variable) (p : String → Option α) (default : α) :
    Except ConfigError α :=
  match env v with
  | none   => .ok default
  | some s => match p s with
    | some a => .ok a
    | none   => .error (.badVariable v s)

theorem numberVar_eq (env : Environment) (v : Variable) (limit default : Nat) :
    numberVar env v limit default = readVar env v (fun s => parseNat limit (Text.trim s)) default := by
  unfold numberVar readVar
  cases env v with
  | none => rfl
  | some s =>
    dsimp only
    cases parseNat limit (Text.trim s) <;> rfl

theorem switchVar_eq (env : Environment) (v : Variable) (default : Bool) :
    switchVar env v default = readVar env v (fun s => parseSwitch (Text.lower (Text.trim s))) default := by
  unfold switchVar readVar
  cases env v with
  | none => rfl
  | some s =>
    dsimp only
    cases parseSwitch (Text.lower (Text.trim s)) <;> rfl

section

variable {α : Type} {p : String → Option α} {Says : String → α → Prop} {v : Variable} {default : α}

theorem readVar_of_said (hp : ∀ s a, p s = some a ↔ Says s a) {a : α} (hsaid : ∀ s, env v = some s → Says s a)
    (hunsaid : env v = none → a = default) : readVar env v p default = .ok a := by
  unfold readVar
  split
  · rename_i hnone
    rw [hunsaid hnone]
  · rename_i s hs
    rw [(hp s a).2 (hsaid s hs)]

theorem readVar_of_fault (hp : ∀ s a, p s = some a ↔ Says s a) {s : String} (hs : env v = some s)
    (hfault : ¬ ∃ a, Says s a) : readVar env v p default = .error (.badVariable v s) := by
  cases ha : p s with
  | some a => exact absurd ⟨a, (hp s a).1 ha⟩ hfault
  | none => simp only [readVar, hs, ha]

end

theorem numberVar_of_said {v : Variable} {limit n default : Nat} (hsaid : ∀ s, env v = some s → SaysNumber limit s n)
    (hunsaid : env v = none → n = default) : numberVar env v limit default = .ok n := by
  rw [numberVar_eq]
  exact readVar_of_said (fun _ _ => parseNat_trim_eq_some_iff) hsaid hunsaid

theorem numberVar_of_fault {v : Variable} {limit default : Nat} {s : String} (hs : env v = some s)
    (hfault : ¬ ∃ n, SaysNumber limit s n) : numberVar env v limit default = .error (.badVariable v s) := by
  rw [numberVar_eq]
  exact readVar_of_fault (fun _ _ => parseNat_trim_eq_some_iff) hs hfault

theorem switchVar_of_said {v : Variable} {b default : Bool} (hsaid : ∀ s, env v = some s → SaysSwitch s b)
    (hunsaid : env v = none → b = default) : switchVar env v default = .ok b := by
  rw [switchVar_eq]
  exact readVar_of_said (fun _ _ => parseSwitch_trim_eq_some_iff) hsaid hunsaid

theorem switchVar_of_fault {v : Variable} {default : Bool} {s : String} (hs : env v = some s)
    (hfault : ¬ ∃ b, SaysSwitch s b) : switchVar env v default = .error (.badVariable v s) := by
  rw [switchVar_eq]
  exact readVar_of_fault (fun _ _ => parseSwitch_trim_eq_some_iff) hs hfault

/-! ## Reading each of them -/

theorem Follows.baseUrl_eq (h : Follows env c .apiUrl) : (env .apiUrl).getD standard.baseUrl = c.baseUrl := by
  cases hv : env .apiUrl with
  | none => exact (h.unsaid hv).symm
  | some s => exact (h.said s hv).symm

theorem Follows.timeoutSecs_eq (h : Follows env c .timeoutSecs) :
    numberVar env .timeoutSecs limit64 standard.timeoutSecs = .ok c.timeoutSecs := numberVar_of_said h.said h.unsaid

theorem Follows.maxAttempts_eq (h : Follows env c .maxAttempts) :
    numberVar env .maxAttempts limit32 standard.maxAttempts = .ok c.maxAttempts := numberVar_of_said h.said h.unsaid

theorem Follows.backoffMs_eq (h : Follows env c .backoffMs) :
    numberVar env .backoffMs limit64 standard.backoffMs = .ok c.backoffMs := numberVar_of_said h.said h.unsaid

theorem Follows.verifyTls_eq (h : Follows env c .verifyTls) :
    switchVar env .verifyTls standard.verifyTls = .ok c.verifyTls := switchVar_of_said h.said h.unsaid

theorem Follows.cacheTtlSecs_eq (h : Follows env c .cacheTtlSecs) :
    numberVar env .cacheTtlSecs limit64 standard.cacheTtlSecs = .ok c.cacheTtlSecs := numberVar_of_said h.said h.unsaid

theorem Follows.token_eq (h : Follows env c .token) : (env .token).filter (fun t => !t.isEmpty) = c.token := by
  cases hv : env .token with
  | none => exact (h.unsaid hv).symm
  | some s =>
    have htold : c.token = if s = "" then none else some s := h.said s hv
    rw [htold]
    by_cases hempty : s = "" <;> simp [hempty]

/-- An environment describes one set of settings at most. -/
theorem DescribedBy.unique {d : Config} (hc : DescribedBy env c) (hd : DescribedBy env d) : c = d := by
  have hurl := (hc _).baseUrl_eq.symm.trans (hd _).baseUrl_eq
  have htimeout := Except.ok.inj ((hc _).timeoutSecs_eq.symm.trans (hd _).timeoutSecs_eq)
  have hattempts := Except.ok.inj ((hc _).maxAttempts_eq.symm.trans (hd _).maxAttempts_eq)
  have hbackoff := Except.ok.inj ((hc _).backoffMs_eq.symm.trans (hd _).backoffMs_eq)
  have hverify := Except.ok.inj ((hc _).verifyTls_eq.symm.trans (hd _).verifyTls_eq)
  have hcache := Except.ok.inj ((hc _).cacheTtlSecs_eq.symm.trans (hd _).cacheTtlSecs_eq)
  have htoken := (hc _).token_eq.symm.trans (hd _).token_eq
  cases c
  cases d
  simp_all only

/-! ## Reading all of them -/

/-- Settings that are described are read, and then checked. -/
theorem ofEnvironment_of_describedBy (h : DescribedBy env c) : ofEnvironment env = c.validate.map (fun _ => c) := by
  unfold ofEnvironment
  rw [(h _).timeoutSecs_eq, (h _).maxAttempts_eq, (h _).backoffMs_eq, (h _).verifyTls_eq, (h _).cacheTtlSecs_eq,
    (h _).baseUrl_eq, (h _).token_eq]
  show (c.validate >>= fun _ => Except.ok c) = _
  cases c.validate <;> rfl

/-- Where some text is not understood, the first such variable is reported. -/
theorem ofEnvironment_of_firstFault {v : Variable} {s : String} (h : FirstFault env v s) :
    ofEnvironment env = .error (.badVariable v s) := by
  obtain ⟨c, hc⟩ := exists_follows h.earlier
  unfold ofEnvironment
  cases v with
  | apiUrl => exact absurd ⟨standard.withBaseUrl s, rfl⟩ h.fault
  | timeoutSecs =>
    rw [numberVar_of_fault h.given fun ⟨n, hn⟩ => h.fault ⟨{ standard with timeoutSecs := n }, hn⟩]
    rfl
  | maxAttempts =>
    rw [(hc .timeoutSecs (by decide)).timeoutSecs_eq,
      numberVar_of_fault h.given fun ⟨n, hn⟩ => h.fault ⟨{ standard with maxAttempts := n }, hn⟩]
    rfl
  | backoffMs =>
    rw [(hc .timeoutSecs (by decide)).timeoutSecs_eq, (hc .maxAttempts (by decide)).maxAttempts_eq,
      numberVar_of_fault h.given fun ⟨n, hn⟩ => h.fault ⟨{ standard with backoffMs := n }, hn⟩]
    rfl
  | verifyTls =>
    rw [(hc .timeoutSecs (by decide)).timeoutSecs_eq, (hc .maxAttempts (by decide)).maxAttempts_eq,
      (hc .backoffMs (by decide)).backoffMs_eq,
      switchVar_of_fault h.given fun ⟨b, hb⟩ => h.fault ⟨{ standard with verifyTls := b }, hb⟩]
    rfl
  | cacheTtlSecs =>
    rw [(hc .timeoutSecs (by decide)).timeoutSecs_eq, (hc .maxAttempts (by decide)).maxAttempts_eq,
      (hc .backoffMs (by decide)).backoffMs_eq, (hc .verifyTls (by decide)).verifyTls_eq,
      numberVar_of_fault h.given fun ⟨n, hn⟩ => h.fault ⟨{ standard with cacheTtlSecs := n }, hn⟩]
    rfl
  | token => exact absurd ⟨{ standard with token := if s = "" then none else some s }, rfl⟩ h.fault

theorem exists_firstFault_iff :
    (∃ v s, FirstFault env v s) ↔ ¬ ∀ v : Variable, ∀ s, env v = some s → v.Understood s := by
  rw [← exists_first_iff Variable.rank fun v => ∀ s, env v = some s → v.Understood s]
  constructor
  · rintro ⟨v, s, h⟩
    exact ⟨v, fun hall => h.fault (hall s h.given), h.earlier⟩
  · rintro ⟨v, hnot, hearlier⟩
    obtain ⟨s, hs⟩ := not_forall.1 hnot
    obtain ⟨hgiven, hfault⟩ := Classical.not_imp.1 hs
    exact ⟨v, s, hgiven, hfault, hearlier⟩

theorem exists_describedBy_iff :
    (∃ c, DescribedBy env c) ↔ ∀ v : Variable, ∀ s, env v = some s → v.Understood s := by
  constructor
  · rintro ⟨c, hc⟩ v s hs
    exact ⟨c, (hc v).said s hs⟩
  · intro h
    obtain ⟨c, hc⟩ := @exists_follows env (fun _ => True) fun v _ => h v
    exact ⟨c, fun v => hc v trivial⟩

/-- There are settings that the environment describes, or there is a first text that is not understood. -/
theorem described_or_fault (env : Environment) : (∃ c, DescribedBy env c) ∨ ∃ v s, FirstFault env v s := by
  rw [exists_describedBy_iff, exists_firstFault_iff]
  exact Classical.em _

/-- A text that is reported is the text of the variable that is reported. -/
theorem given_of_badVariable {v : Variable} {s : String} (h : ofEnvironment env = .error (.badVariable v s)) :
    env v = some s := by
  rcases described_or_fault env with ⟨c, hc⟩ | ⟨w, s', hfirst⟩
  · rw [ofEnvironment_of_describedBy hc] at h
    cases hvalid : c.validate with
    | ok u => rw [hvalid] at h; cases h
    | error fault =>
      rw [hvalid] at h
      cases h
      -- no check reports a variable
      obtain ⟨check, -, hfault⟩ := (c.validate_eq_error_iff _).1 hvalid
      cases check <;> cases hfault
  · rw [ofEnvironment_of_firstFault hfirst] at h
    cases h
    exact hfirst.given

/-! ## By their names -/

theorem ofLookup_eq {lookup : String → Option String} (h : ∀ v : Variable, lookup v.name = env v) :
    ofLookup lookup = ofEnvironment env := by
  unfold ofLookup
  rw [show (fun v : Variable => lookup v.name) = env from funext h]

/-- Since no two variables have one name, texts may be given to them by their names. -/
theorem exists_lookup (env : Environment) : ∃ lookup : String → Option String, ∀ v : Variable, lookup v.name = env v := by
  classical
  refine ⟨fun name => if h : ∃ v : Variable, v.name = name then env h.choose else none, fun v => ?_⟩
  have hthere : ∃ w : Variable, w.name = v.name := ⟨v, rfl⟩
  refine (dif_pos hthere).trans (congrArg env ?_)
  exact Variable.name_injective hthere.choose_spec

/-- **Settings from the environment**, whatever its texts are.  It describes settings, and one set of them, exactly if
the text of every variable that is set is understood.  Settings are read exactly if they are the ones described and pass
every check.  Any error is one of two: that of the first variable, in their order, whose text is not understood, with
the text as it was given; or, where there is no such variable, that of the first check that the settings described do
not pass.  Some source of texts by name gives this environment, and any that does is read as it is; if a text of its is
reported, that is what it gives for the name of the variable reported. -/
theorem ofEnvironment_exact (env : Environment) :
    ((∃! c, DescribedBy env c) ↔ ∀ v : Variable, ∀ s, env v = some s → v.Understood s) ∧
    (∀ c, ofEnvironment env = .ok c ↔ DescribedBy env c ∧ ∀ check : Check, check.Passes c) ∧
    (∀ e, ofEnvironment env = .error e ↔ (∃ v s, FirstFault env v s ∧ e = .badVariable v s) ∨
      ∃ c, DescribedBy env c ∧ ∃ check : Check, check.Stops c ∧ e = check.fault c) ∧
    (∃ lookup : String → Option String, ∀ v : Variable, lookup v.name = env v) ∧
    ∀ lookup : String → Option String, (∀ v : Variable, lookup v.name = env v) → ofLookup lookup = ofEnvironment env ∧
      ∀ v s, ofLookup lookup = .error (.badVariable v s) → lookup v.name = some s := by
  have hdescribed : (∃! c, DescribedBy env c) ↔ ∀ v : Variable, ∀ s, env v = some s → v.Understood s := by
    rw [← exists_describedBy_iff]
    exact ⟨fun h => h.exists, fun ⟨c, hc⟩ => ⟨c, hc, fun d hd => hd.unique hc⟩⟩
  refine ⟨hdescribed, fun c => ⟨fun h => ?_, ?_⟩, fun e => ⟨fun h => ?_, ?_⟩, exists_lookup env,
    fun lookup hlookup => ⟨ofLookup_eq hlookup, fun v s h => ?_⟩⟩
  · rcases described_or_fault env with ⟨d, hd⟩ | ⟨v, s, hfirst⟩
    · rw [ofEnvironment_of_describedBy hd] at h
      cases hvalid : d.validate with
      | error e => rw [hvalid] at h; cases h
      | ok u =>
        rw [hvalid] at h
        cases h
        exact ⟨hd, (validate_eq_ok_iff _).1 hvalid⟩
    · rw [ofEnvironment_of_firstFault hfirst] at h
      cases h
  · rintro ⟨hc, hpasses⟩
    rw [ofEnvironment_of_describedBy hc, c.validate_of_passes hpasses]
    rfl
  · rcases described_or_fault env with ⟨c, hc⟩ | ⟨v, s, hfirst⟩
    · rw [ofEnvironment_of_describedBy hc] at h
      cases hvalid : c.validate with
      | ok u => rw [hvalid] at h; cases h
      | error fault =>
        rw [hvalid] at h
        cases h
        obtain ⟨check, hstops, hfault⟩ := (c.validate_eq_error_iff _).1 hvalid
        exact .inr ⟨c, hc, check, hstops, hfault.symm⟩
    · rw [ofEnvironment_of_firstFault hfirst] at h
      exact .inl ⟨v, s, hfirst, (Except.error.inj h).symm⟩
  · rintro (⟨v, s, hfirst, rfl⟩ | ⟨c, hc, check, hstops, rfl⟩)
    · exact ofEnvironment_of_firstFault hfirst
    · rw [ofEnvironment_of_describedBy hc, c.validate_of_stops hstops]
      rfl
  · rw [hlookup]
    exact given_of_badVariable (ofLookup_eq hlookup ▸ h)

/-- Of two texts that are not understood and settings that no check would pass, the first text is reported. -/
example : ofEnvironment (fun
      | .apiUrl => some "ftp://shop"
      | .timeoutSecs => some " +0 "
      | .maxAttempts => some " 4294967296"
      | .verifyTls => some "maybe"
      | _ => none) = .error (.badVariable .maxAttempts " 4294967296") := by
  decide

end Config
end BackOffice
