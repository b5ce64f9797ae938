import BackOffice.Policy.Evaluation
/-!
# What the layers come to

The four layers are applied one after the other, and each overwrites what stands before it.  So the
final effect is read off from above: the highest layer that says anything about a key decides
(`resolve_final`), and under a user's layer that says nothing the three shared layers do
(`resolve_withLayer_user`).  At any one layer the rest come to what the layers after it say and what
those before it say (`isAllowed_withLayer`).

The trail of a decision is what the layers say about the key one after the other (`resolve_trail`), and
the decision follows it: the last contribution decides, and a layer is among those that denied exactly
if the trail has a denial of it (`followsTrail_resolve`).
-/
namespace BackOffice

theorem LayerKind.mem_all (kind : LayerKind) : kind ∈ LayerKind.all := by
  cases kind <;> decide

theorem LayerKind.increasing_all : Increasing LayerKind.all := by decide

/-- What a layer by itself says about a key; its denial stands before its allowance. -/
def PolicyLayer.verdict? (l : PolicyLayer) (key : PermissionKey) : Option Effect :=
  if key ∈ l.deny then some .deny else if key ∈ l.allow then some .allow else none

theorem PolicyLayer.verdict?_empty (key : PermissionKey) : PolicyLayer.empty.verdict? key = none := rfl

theorem PolicyLayer.verdict?_allowing (key : PermissionKey) :
    (PolicyLayer.empty.allowing key).verdict? key = some .allow := by
  have hallow : key ∈ (PolicyLayer.empty.allowing key).allow := (SortedSet.mem_insert _ _ _).2 (.inl rfl)
  have hdeny : ¬ key ∈ (PolicyLayer.empty.allowing key).deny := SortedSet.not_mem_empty key
  unfold verdict?
  rw [if_neg hdeny, if_pos hallow]

theorem Decision.applyLayer_eq (d : Decision) (kind : LayerKind) (layer : PolicyLayer) :
    d.applyLayer kind layer =
      if d.key ∈ layer.allow then
        if d.key ∈ layer.deny then (d.applyAllow kind).applyDeny kind else d.applyAllow kind
      else if d.key ∈ layer.deny then d.applyDeny kind else d := by
  unfold applyLayer
  by_cases ha : d.key ∈ layer.allow <;> by_cases hd : d.key ∈ layer.deny <;>
    simp [SortedSet.contains, ha, hd, applyAllow]

theorem Decision.applyLayer_key (d : Decision) (kind : LayerKind) (layer : PolicyLayer) :
    (d.applyLayer kind layer).key = d.key := by
  rw [applyLayer_eq]
  split <;> split <;> rfl

/-- A layer overwrites the effect so far with its own verdict. -/
theorem Decision.applyLayer_final (d : Decision) (kind : LayerKind) (layer : PolicyLayer) :
    (d.applyLayer kind layer).final = (layer.verdict? d.key).getD d.final := by
  rw [applyLayer_eq]
  unfold PolicyLayer.verdict?
  by_cases ha : d.key ∈ layer.allow <;> by_cases hd : d.key ∈ layer.deny <;> simp [ha, hd, applyAllow, applyDeny]

namespace PolicyLayers

/-- **The highest layer that says anything about a key decides**, and a key of which no layer says
anything is denied. -/
theorem resolve_final (l : PolicyLayers) (key : PermissionKey) :
    (l.resolve key).final = ((l.user.verdict? key).or ((l.store.verdict? key).or
      ((l.tenant.verdict? key).or (l.template.verdict? key)))).getD .deny := by
  unfold resolve LayerKind.all
  simp only [List.foldl_cons, List.foldl_nil, Decision.applyLayer_final, Decision.applyLayer_key,
    Decision.undecided, get]
  cases l.user.verdict? key <;> cases l.store.verdict? key <;> cases l.tenant.verdict? key <;>
    cases l.template.verdict? key <;> rfl

theorem isAllowed_resolve (l : PolicyLayers) (key : PermissionKey) :
    (l.resolve key).isAllowed = true ↔ (l.resolve key).final = .allow := beq_iff_eq

/-- Whether the three layers below the user's allow a key. -/
def allowsBelowUser (l : PolicyLayers) (key : PermissionKey) : Bool :=
  ((l.withLayer .user .empty).resolve key).isAllowed

/-- **A user's layer decides where it speaks**, and leaves the rest to the layers below it. -/
theorem resolve_withLayer_user (l : PolicyLayers) (layer : PolicyLayer) (key : PermissionKey) :
    ((l.withLayer .user layer).resolve key).isAllowed = true ↔
      ¬ key ∈ layer.deny ∧ (key ∈ layer.allow ∨ l.allowsBelowUser key = true) := by
  unfold allowsBelowUser
  rw [isAllowed_resolve, isAllowed_resolve, resolve_final, resolve_final]
  simp only [withLayer, PolicyLayer.verdict?_empty, Option.none_or]
  unfold PolicyLayer.verdict?
  by_cases hd : key ∈ layer.deny
  · simp [hd]
  · by_cases ha : key ∈ layer.allow <;> simp [hd, ha]

/-! ## One layer among the others -/

/-- What the layers after one say about a key: the highest of them that says anything. -/
def later? (l : PolicyLayers) (kind : LayerKind) (key : PermissionKey) : Option Effect :=
  (LayerKind.all.drop (kind.rank + 1)).reverse.findSome? (fun k => (l.get k).verdict? key)

/-- What the layers before one say about a key. -/
def earlier? (l : PolicyLayers) (kind : LayerKind) (key : PermissionKey) : Option Effect :=
  (LayerKind.all.take kind.rank).reverse.findSome? (fun k => (l.get k).verdict? key)

theorem earlier?_template (l : PolicyLayers) (key : PermissionKey) : l.earlier? .template key = none := rfl

theorem resolve_withLayer_final (l : PolicyLayers) (kind : LayerKind) (layer : PolicyLayer) (key : PermissionKey) :
    ((l.withLayer kind layer).resolve key).final =
      ((l.later? kind key).or ((layer.verdict? key).or (l.earlier? kind key))).getD .deny := by
  rw [resolve_final]
  -- with the position known both sides are the last of four verdicts that is one
  cases kind <;> simp only [later?, earlier?, LayerKind.all, LayerKind.rank, withLayer, get, List.take, List.drop,
    List.reverse_cons, List.reverse_nil, List.nil_append, List.cons_append, List.findSome?_cons, List.findSome?_nil] <;>
  cases l.template.verdict? key <;> cases l.tenant.verdict? key <;> cases l.store.verdict? key <;>
    cases l.user.verdict? key <;> cases layer.verdict? key <;> rfl

/-- **A layer counts where no later one speaks**: it allows what it does not deny and either allows itself
or leaves to earlier layers that allow. -/
theorem isAllowed_withLayer (l : PolicyLayers) (kind : LayerKind) (layer : PolicyLayer) (key : PermissionKey) :
    ((l.withLayer kind layer).resolve key).isAllowed = true ↔ l.later? kind key = some .allow ∨
      l.later? kind key = none ∧ ¬ key ∈ layer.deny ∧ (key ∈ layer.allow ∨ l.earlier? kind key = some .allow) := by
  rw [isAllowed_resolve, resolve_withLayer_final]
  unfold PolicyLayer.verdict?
  rcases l.later? kind key with _ | effect
  · by_cases hd : key ∈ layer.deny
    · simp [hd]
    · by_cases ha : key ∈ layer.allow
      · simp [hd, ha]
      · cases l.earlier? kind key <;> simp [hd, ha]
  · simp

end PolicyLayers

/-! ## The trail -/

/-- The keys to which a layer gives an effect. -/
def PolicyLayer.keysTo (l : PolicyLayer) : Effect → KeySet
  | .allow => l.allow
  | .deny  => l.deny

/-- What a layer by itself adds to the trail of a key. -/
def PolicyLayer.contributions (l : PolicyLayer) (kind : LayerKind) (key : PermissionKey) : List Contribution :=
  (if key ∈ l.allow then [⟨kind, .allow⟩] else []) ++ (if key ∈ l.deny then [⟨kind, .deny⟩] else [])

theorem PolicyLayer.mem_contributions (l : PolicyLayer) (kind : LayerKind) (key : PermissionKey) (c : Contribution) :
    c ∈ l.contributions kind key ↔ c.layer = kind ∧ key ∈ l.keysTo c.effect := by
  obtain ⟨layer, effect⟩ := c
  unfold contributions keysTo
  by_cases ha : key ∈ l.allow <;> by_cases hd : key ∈ l.deny <;> cases effect <;> simp [ha, hd]

/-- The effect is that of the last contribution, and the layers that denied are those of the trail's denials. -/
structure Decision.FollowsTrail (d : Decision) : Prop where
  final_eq : d.final = (d.trail.getLast?.map Contribution.effect).getD .deny
  mem_denySources : ∀ kind, kind ∈ d.denySources ↔ (⟨kind, .deny⟩ : Contribution) ∈ d.trail

namespace Decision

theorem followsTrail_undecided (key : PermissionKey) : (undecided key).FollowsTrail :=
  ⟨rfl, fun kind => iff_of_false (SortedSet.not_mem_empty kind) List.not_mem_nil⟩

theorem FollowsTrail.applyAllow {d : Decision} (h : d.FollowsTrail) (kind : LayerKind) :
    (d.applyAllow kind).FollowsTrail := by
  constructor
  · simp [Decision.applyAllow]
  · intro k
    simpa [Decision.applyAllow] using h.mem_denySources k

theorem FollowsTrail.applyDeny {d : Decision} (h : d.FollowsTrail) (kind : LayerKind) :
    (d.applyDeny kind).FollowsTrail := by
  constructor
  · simp [Decision.applyDeny]
  · intro k
    have hinsert : k ∈ (d.applyDeny kind).denySources ↔ k = kind ∨ k ∈ d.denySources :=
      SortedSet.mem_insert kind k d.denySources
    rw [hinsert, h.mem_denySources]
    simp [Decision.applyDeny, or_comm]

theorem FollowsTrail.applyLayer {d : Decision} (h : d.FollowsTrail) (kind : LayerKind) (layer : PolicyLayer) :
    (d.applyLayer kind layer).FollowsTrail := by
  rw [Decision.applyLayer_eq]
  by_cases ha : d.key ∈ layer.allow
  · rw [if_pos ha]
    split
    · exact (h.applyAllow kind).applyDeny kind
    · exact h.applyAllow kind
  · rw [if_neg ha]
    split
    · exact h.applyDeny kind
    · exact h

theorem applyLayer_trail (d : Decision) (kind : LayerKind) (layer : PolicyLayer) :
    (d.applyLayer kind layer).trail = d.trail ++ layer.contributions kind d.key := by
  rw [applyLayer_eq]
  unfold PolicyLayer.contributions
  by_cases ha : d.key ∈ layer.allow <;> by_cases hd : d.key ∈ layer.deny <;> simp [ha, hd, applyAllow, applyDeny]

def after (l : PolicyLayers) (d : Decision) (kinds : List LayerKind) : Decision :=
  kinds.foldl (fun d kind => d.applyLayer kind (l.get kind)) d

theorem after_key (l : PolicyLayers) : ∀ (kinds : List LayerKind) (d : Decision), (after l d kinds).key = d.key
  | [], _ => rfl
  | kind :: kinds, d => (after_key l kinds _).trans (d.applyLayer_key kind (l.get kind))

theorem after_trail (l : PolicyLayers) : ∀ (kinds : List LayerKind) (d : Decision),
    (after l d kinds).trail = d.trail ++ kinds.flatMap (fun kind => (l.get kind).contributions kind d.key)
  | [], d => (List.append_nil d.trail).symm
  | kind :: kinds, d => by
    rw [after, List.foldl_cons, ← after, after_trail l kinds, applyLayer_trail, applyLayer_key, List.flatMap_cons,
      List.append_assoc]

theorem FollowsTrail.after (l : PolicyLayers) : ∀ (kinds : List LayerKind) {d : Decision}, d.FollowsTrail →
    (Decision.after l d kinds).FollowsTrail
  | [], _, h => h
  | kind :: kinds, _, h => FollowsTrail.after l kinds (h.applyLayer kind (l.get kind))

end Decision

namespace PolicyLayers

theorem resolve_key (l : PolicyLayers) (key : PermissionKey) : (l.resolve key).key = key :=
  Decision.after_key l LayerKind.all (.undecided key)

/-- **The trail is what the layers say, in their order.** -/
theorem resolve_trail (l : PolicyLayers) (key : PermissionKey) :
    (l.resolve key).trail = LayerKind.all.flatMap (fun kind => (l.get kind).contributions kind key) :=
  Decision.after_trail l LayerKind.all (.undecided key)

theorem followsTrail_resolve (l : PolicyLayers) (key : PermissionKey) : (l.resolve key).FollowsTrail :=
  (Decision.followsTrail_undecided key).after l LayerKind.all

theorem mem_trail (l : PolicyLayers) (key : PermissionKey) (c : Contribution) :
    c ∈ (l.resolve key).trail ↔ key ∈ (l.get c.layer).keysTo c.effect := by
  rw [resolve_trail, List.mem_flatMap]
  constructor
  · rintro ⟨kind, -, hc⟩
    obtain ⟨rfl, hkey⟩ := (PolicyLayer.mem_contributions _ _ _ _).1 hc
    exact hkey
  · intro hkey
    exact ⟨c.layer, c.layer.mem_all, (PolicyLayer.mem_contributions _ _ _ _).2 ⟨rfl, hkey⟩⟩

/-- The layers that denied a key, in the order of the layers. -/
theorem resolve_denySources (l : PolicyLayers) (key : PermissionKey) :
    (l.resolve key).denySources.toList = LayerKind.all.filter (fun kind => (l.get kind).deny.contains key) := by
  refine eq_of_increasing _ _ (SortedSet.increasing _) (LayerKind.increasing_all.filter _) (fun kind => ?_)
  have hmem := (l.followsTrail_resolve key).mem_denySources kind
  rw [mem_trail] at hmem
  rw [List.mem_filter]
  exact hmem.trans ⟨fun h => ⟨kind.mem_all, decide_eq_true h⟩, fun h => of_decide_eq_true h.2⟩

end PolicyLayers
end BackOffice
