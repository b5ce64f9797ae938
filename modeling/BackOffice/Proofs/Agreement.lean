import BackOffice.Policy.Evaluation
import BackOffice.Policy.Explanation
import BackOffice.Proofs.Resolution
/-!
# One answer everywhere

A key is decided about by itself, with all the keys that the layers mention, or with a list of keys; the
verdicts are read off again from the effective set, from its ceiling, and from the explanation of a
decision.  All of these answer as `PolicyLayers.resolve` does.  They start from tables and sets that are
in order of the keys and hold each key once, so the order and the repetitions of a list make no
difference; and a key that is left out is denied, as the layers deny a key that none of them mentions.
-/
namespace BackOffice

/-- An evaluation that decides about the keys of a list and no other, about each once and as the layers do;
its denied and its allowed keys are two parts of them. -/
structure Evaluation.Decides (e : Evaluation) (l : PolicyLayers) (keys : List PermissionKey) : Prop where
  decision : ∀ key, e.decision? key = if key ∈ keys then some (l.resolve key) else none
  entries : e.decisions.entries = (SortedSet.ofList keys).toList.map (fun k => (k, l.resolve k))
  size : e.size = (SortedSet.ofList keys).toList.length
  denied : ∀ key, key ∈ e.deniedKeys ↔ key ∈ keys ∧ (l.resolve key).isAllowed = false
  allowed : ∀ key, key ∈ e.effectiveSet.allowedKeys ↔ key ∈ keys ∧ (l.resolve key).isAllowed = true
  disjoint : ∀ key ∈ e.deniedKeys, ¬ key ∈ e.effectiveSet.allowedKeys
  covered : e.deniedKeys.union e.effectiveSet.allowedKeys = .ofList keys

/-- An explanation that agrees with the decision about a key and with what the layers say. -/
structure Explanation.AgreesWith (e : Explanation) (l : PolicyLayers) (key : PermissionKey) : Prop where
  key_eq : e.key = key
  granted : e.granted = (l.resolve key).isAllowed
  trail : e.trail = (l.resolve key).trail
  mem_trail : ∀ c, c ∈ e.trail ↔ key ∈ (l.get c.layer).keysTo c.effect
  granted_iff : e.granted = true ↔ ∃ kind, e.trail.getLast? = some ⟨kind, .allow⟩
  overridden : e.overriddenDenies = if (l.resolve key).isAllowed = true then
    LayerKind.all.filter (fun kind => (l.get kind).deny.contains key) else []
  reason : e.reason = match e.trail.getLast? with
    | none => .noGrant key
    | some ⟨kind, .allow⟩ => .allowedBy kind e.overriddenDenies
    | some ⟨kind, .deny⟩ => .deniedBy kind
  suggestions : e.suggestions = [] ↔ e.granted = true

namespace PolicyLayers

theorem mem_mentionedKeys (l : PolicyLayers) (key : PermissionKey) :
    key ∈ l.mentionedKeys ↔ ∃ kind effect, key ∈ (l.get kind).keysTo effect := by
  have hkeys : ∀ layer : PolicyLayer, key ∈ layer.keys ↔ ∃ effect, key ∈ layer.keysTo effect := by
    intro layer
    unfold PolicyLayer.keys
    rw [List.mem_append]
    constructor
    · rintro (h | h)
      · exact ⟨.allow, h⟩
      · exact ⟨.deny, h⟩
    · rintro ⟨_ | _, h⟩
      · exact .inl h
      · exact .inr h
  rw [mentionedKeys, SortedSet.mem_ofList, List.mem_flatMap]
  constructor
  · rintro ⟨kind, -, h⟩
    exact ⟨kind, (hkeys _).1 h⟩
  · rintro ⟨kind, h⟩
    exact ⟨kind, kind.mem_all, (hkeys _).2 h⟩

theorem isAllowed_iff_trail (l : PolicyLayers) (key : PermissionKey) :
    (l.resolve key).isAllowed = true ↔ ∃ kind, (l.resolve key).trail.getLast? = some ⟨kind, .allow⟩ := by
  rw [isAllowed_resolve, (l.followsTrail_resolve key).final_eq]
  cases h : (l.resolve key).trail.getLast? with
  | none => simp
  | some c =>
    obtain ⟨kind, effect⟩ := c
    cases effect <;> simp

theorem mentioned_of_allowed {l : PolicyLayers} {key : PermissionKey} (h : (l.resolve key).isAllowed = true) :
    key ∈ l.mentionedKeys := by
  obtain ⟨kind, hlast⟩ := (l.isAllowed_iff_trail key).1 h
  have hmem := List.mem_of_getLast? hlast
  exact (l.mem_mentionedKeys key).2 ⟨kind, .allow, (l.mem_trail key _).1 hmem⟩

variable (l : PolicyLayers) (subject : Subject)

/-! ## Evaluations -/

theorem decision?_evaluate (keys : List PermissionKey) (key : PermissionKey) :
    (l.evaluate subject keys).decision? key = if key ∈ keys then some (l.resolve key) else none :=
  Table.get?_tabulate l.resolve keys key

theorem entries_evaluate (keys : List PermissionKey) :
    (l.evaluate subject keys).decisions.entries = (SortedSet.ofList keys).toList.map (fun k => (k, l.resolve k)) :=
  Table.entries_tabulate l.resolve keys

theorem values_evaluate (keys : List PermissionKey) :
    (l.evaluate subject keys).decisions.values = (SortedSet.ofList keys).toList.map l.resolve := by
  unfold Table.values
  rw [entries_evaluate, List.map_map]
  rfl

theorem size_evaluate (keys : List PermissionKey) :
    (l.evaluate subject keys).size = (SortedSet.ofList keys).toList.length := by
  unfold Evaluation.size Table.size
  rw [entries_evaluate, List.length_map]

theorem map_key_resolve (keys : List PermissionKey) : (keys.map l.resolve).map Decision.key = keys := by
  rw [List.map_map]
  exact (List.map_congr_left fun k _ => l.resolve_key k).trans (List.map_id keys)

theorem deniedKeys_evaluate (keys : List PermissionKey) :
    (l.evaluate subject keys).deniedKeys = (SortedSet.ofList keys).filter (fun k => !(l.resolve k).isAllowed) := by
  refine SortedSet.ext fun key => ?_
  unfold Evaluation.deniedKeys
  rw [SortedSet.mem_ofList, SortedSet.mem_filter, values_evaluate, List.filter_map, map_key_resolve, List.mem_filter]
  exact Iff.rfl

theorem isAllowed_evaluate (keys : List PermissionKey) (key : PermissionKey) :
    (l.evaluate subject keys).effectiveSet.isAllowed key = true ↔ key ∈ keys ∧ (l.resolve key).isAllowed = true := by
  -- the set is filled from the decisions alone, which bear the keys they are filed under
  have hpairs : (l.evaluate subject keys).decisions.values.map (fun d => (d.key, d.isAllowed)) =
      (SortedSet.ofList keys).toList.map (fun k => (k, (l.resolve k).isAllowed)) := by
    rw [values_evaluate, List.map_map]
    exact List.map_congr_left fun k _ => by rw [Function.comp_apply, resolve_key]
  have hmem : key ∈ (SortedSet.ofList keys).toList ↔ key ∈ keys := SortedSet.mem_ofList key keys
  unfold Evaluation.effectiveSet EffectiveSet.ofDecisions EffectiveSet.ofPairs EffectiveSet.isAllowed
  simp only [hpairs, Table.get?_tabulate (fun k => (l.resolve k).isAllowed)]
  by_cases hkey : key ∈ keys
  · simp [hmem, hkey]
  · simp [hmem, hkey]

theorem resolveAll_eq : l.resolveAll = (l.evaluateAll subject).decisions.values := by
  unfold resolveAll evaluateAll
  rw [values_evaluate, SortedSet.ofList_toList]

/-- To leave out the keys that no layer mentions changes nothing: they are denied either way. -/
theorem isAllowed_evaluateAll (key : PermissionKey) :
    (l.evaluateAll subject).effectiveSet.isAllowed key = (l.resolve key).isAllowed := by
  rw [Bool.eq_iff_iff]
  unfold evaluateAll
  rw [isAllowed_evaluate]
  exact and_iff_right_of_imp mentioned_of_allowed

theorem ceilingViolations_evaluateAll (requested : KeySet) :
    (l.evaluateAll subject).effectiveSet.ceilingViolations requested =
      requested.filter (fun k => !(l.resolve k).isAllowed) := by
  refine SortedSet.ext fun key => ?_
  rw [EffectiveSet.mem_ceilingViolations, isAllowed_evaluateAll, SortedSet.mem_filter, Bool.not_eq_true']

/-! ## Explanations -/

theorem overriddenDenies_resolve (key : PermissionKey) :
    (l.resolve key).overriddenDenies = if (l.resolve key).isAllowed = true then
      LayerKind.all.filter (fun kind => (l.get kind).deny.contains key) else [] := by
  unfold Decision.overriddenDenies
  rw [resolve_denySources]

/-- The last contribution is the reason that is given. -/
theorem reason_resolve (key : PermissionKey) : (l.resolve key).reason = match (l.resolve key).trail.getLast? with
    | none => .noGrant key
    | some ⟨kind, .allow⟩ => .allowedBy kind (l.resolve key).overriddenDenies
    | some ⟨kind, .deny⟩ => .deniedBy kind := by
  have hfinal := (l.followsTrail_resolve key).final_eq
  unfold Decision.reason Decision.decidedBy
  rw [hfinal, resolve_key]
  cases (l.resolve key).trail.getLast? with
  | none => rfl
  | some c =>
    obtain ⟨kind, effect⟩ := c
    cases effect <;> rfl

theorem suggestions_resolve (key : PermissionKey) :
    (l.resolve key).suggestions = [] ↔ (l.resolve key).isAllowed = true := by
  have hfinal := (l.followsTrail_resolve key).final_eq
  rw [isAllowed_iff_trail]
  unfold Decision.suggestions Decision.decidedBy
  rw [hfinal]
  cases (l.resolve key).trail.getLast? with
  | none => simp
  | some c =>
    obtain ⟨kind, effect⟩ := c
    cases effect <;> simp

theorem decides_evaluate (keys : List PermissionKey) : (l.evaluate subject keys).Decides l keys := by
  have hdenied : ∀ key, key ∈ (l.evaluate subject keys).deniedKeys ↔
      key ∈ keys ∧ (l.resolve key).isAllowed = false := by
    intro key
    rw [deniedKeys_evaluate, SortedSet.mem_filter, SortedSet.mem_ofList, Bool.not_eq_true']
  have hallowed : ∀ key, key ∈ (l.evaluate subject keys).effectiveSet.allowedKeys ↔
      key ∈ keys ∧ (l.resolve key).isAllowed = true := by
    intro key
    rw [EffectiveSet.mem_allowedKeys, isAllowed_evaluate]
  refine ⟨l.decision?_evaluate subject keys, l.entries_evaluate subject keys, l.size_evaluate subject keys,
    hdenied, hallowed, fun key hd ha => ?_, SortedSet.ext fun key => ?_⟩
  · have hno := ((hdenied key).1 hd).2
    rw [((hallowed key).1 ha).2] at hno; cases hno
  · rw [SortedSet.mem_union, hdenied, hallowed, SortedSet.mem_ofList]
    cases (l.resolve key).isAllowed <;> simp

theorem explain_resolve (key : PermissionKey) : (l.resolve key).explain.AgreesWith l key where
  key_eq := l.resolve_key key
  granted := rfl
  trail := rfl
  mem_trail := l.mem_trail key
  granted_iff := l.isAllowed_iff_trail key
  overridden := l.overriddenDenies_resolve key
  reason := l.reason_resolve key
  suggestions := l.suggestions_resolve key

/-- **One answer everywhere.**  For all layers and every key: the effective set of all mentioned keys allows
what `resolve` allows; the list of all decisions is that of their evaluation, one decision for each mentioned
key in increasing order; an evaluation of any list decides about the keys of the list; the ceiling of the
effective set is passed by the requested keys that `resolve` denies; and explanations agree with all this. -/
theorem answers_agree :
    (∀ key, (l.evaluateAll subject).effectiveSet.isAllowed key = (l.resolve key).isAllowed) ∧
    (l.resolveAll = (l.evaluateAll subject).decisions.values ∧ l.resolveAll = l.mentionedKeys.toList.map l.resolve ∧
      Increasing (l.resolveAll.map Decision.key) ∧
      ∀ key, key ∈ l.resolveAll.map Decision.key ↔ ∃ kind effect, key ∈ (l.get kind).keysTo effect) ∧
    (∀ keys, (l.evaluate subject keys).Decides l keys) ∧
    (∀ requested : KeySet, (l.evaluateAll subject).effectiveSet.ceilingViolations requested =
      requested.filter (fun k => !(l.resolve k).isAllowed)) ∧
    ∀ key, (l.resolve key).explain.AgreesWith l key := by
  have hkeys : l.resolveAll.map Decision.key = l.mentionedKeys.toList := l.map_key_resolve _
  refine ⟨l.isAllowed_evaluateAll subject, ⟨l.resolveAll_eq subject, rfl, ?_, fun key => ?_⟩,
    l.decides_evaluate subject, l.ceilingViolations_evaluateAll subject, l.explain_resolve⟩
  · rw [hkeys]
    exact l.mentionedKeys.increasing
  · rw [hkeys]
    exact l.mem_mentionedKeys key

end PolicyLayers
end BackOffice
