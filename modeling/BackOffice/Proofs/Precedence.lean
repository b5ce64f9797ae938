import BackOffice.Proofs.Agreement
/-!
# Which layer decides

A decision read off the layers without applying them.  A layer mentions a key that it allows or denies, and of the
layers that mention a key the highest decides (`decidedBy_resolve`): by its denial if it has one, else by its
allowance.  The trail holds every fact that the layers state about the key, in the one order that there is of facts
(`resolve_trail_eq_filter`), and the denials that an allowance sets aside are all denials there are, each in a layer
below the one that allows (`rank_lt_of_overridden`).  Nothing that the layers say about other keys counts
(`resolve_congr`).
-/
namespace BackOffice

namespace LayerKind

theorem all_eq_split (kind : LayerKind) : all = all.take kind.rank ++ kind :: all.drop (kind.rank + 1) := by
  cases kind <;> rfl

theorem mem_drop_all (kind later : LayerKind) : later ∈ all.drop (kind.rank + 1) ↔ kind.rank < later.rank := by
  cases kind <;> cases later <;> decide

/-- What is found first from above belongs to a layer above which nothing is found. -/
theorem findSome?_reverse_all {α : Type} (f : LayerKind → Option α) (a : α) : all.reverse.findSome? f = some a ↔
    ∃ kind, f kind = some a ∧ ∀ later, kind.rank < later.rank → f later = none := by
  rw [List.findSome?_eq_some_iff]
  constructor
  · rintro ⟨above, kind, below, hsplit, hkind, habove⟩
    have hall : all = below.reverse ++ kind :: above.reverse := by
      rw [← List.reverse_reverse all, hsplit, List.reverse_append, List.reverse_cons, List.append_assoc]
      rfl
    have hranks : all.Pairwise (fun a b => a.rank < b.rank) := by decide
    rw [hall, List.pairwise_append, List.pairwise_cons] at hranks
    refine ⟨kind, hkind, fun later hlater => ?_⟩
    have hmem : later ∈ below.reverse ++ kind :: above.reverse := hall ▸ later.mem_all
    rcases List.mem_append.1 hmem with hbelow | hrest
    · have hlow := hranks.2.2 later hbelow kind List.mem_cons_self
      omega
    · rcases List.mem_cons.1 hrest with rfl | hafter
      · exact absurd hlater (Nat.lt_irrefl _)
      · exact habove later (List.mem_reverse.1 hafter)
  · rintro ⟨kind, hkind, hlater⟩
    refine ⟨(all.drop (kind.rank + 1)).reverse, kind, (all.take kind.rank).reverse, ?_, hkind, fun later hmem => ?_⟩
    · conv => lhs; rw [kind.all_eq_split]
      rw [List.reverse_append, List.reverse_cons, List.append_assoc]
      rfl
    · exact hlater later ((kind.mem_drop_all later).1 (List.mem_reverse.1 hmem))

end LayerKind

def PolicyLayer.Mentions (l : PolicyLayer) (key : PermissionKey) : Prop := key ∈ l.allow ∨ key ∈ l.deny

namespace PolicyLayer

instance (l : PolicyLayer) (key : PermissionKey) : Decidable (l.Mentions key) :=
  inferInstanceAs (Decidable (key ∈ l.allow ∨ key ∈ l.deny))

theorem verdict?_eq_none_iff (l : PolicyLayer) (key : PermissionKey) : l.verdict? key = none ↔ ¬ l.Mentions key := by
  unfold verdict? Mentions
  by_cases hd : key ∈ l.deny <;> by_cases ha : key ∈ l.allow <;> simp [hd, ha]

theorem verdict?_eq_allow_iff (l : PolicyLayer) (key : PermissionKey) :
    l.verdict? key = some .allow ↔ key ∈ l.allow ∧ ¬ key ∈ l.deny := by
  unfold verdict?
  by_cases hd : key ∈ l.deny <;> by_cases ha : key ∈ l.allow <;> simp [hd, ha]

theorem getLast?_contributions (l : PolicyLayer) (kind : LayerKind) (key : PermissionKey) :
    (l.contributions kind key).getLast? = (l.verdict? key).map (Contribution.mk kind) := by
  unfold contributions verdict?
  by_cases hd : key ∈ l.deny <;> by_cases ha : key ∈ l.allow <;> simp [hd, ha]

theorem contributions_congr {l l' : PolicyLayer} {key : PermissionKey}
    (h : ∀ effect, key ∈ l.keysTo effect ↔ key ∈ l'.keysTo effect) (kind : LayerKind) :
    l.contributions kind key = l'.contributions kind key := by
  have hallow : key ∈ l.allow ↔ key ∈ l'.allow := h .allow
  have hdeny : key ∈ l.deny ↔ key ∈ l'.deny := h .deny
  unfold contributions
  simp only [hallow, hdeny]

end PolicyLayer

/-- The facts that a layer can state about a key, in the order in which they are recorded: layer by layer, and in a
layer the allowance before the denial. -/
def Contribution.all : List Contribution :=
  LayerKind.all.flatMap (fun kind => [⟨kind, .allow⟩, ⟨kind, .deny⟩])

/-- A decision that follows its trail is told by it. -/
theorem Decision.FollowsTrail.eq {d d' : Decision} (h : d.FollowsTrail) (h' : d'.FollowsTrail) (hkey : d.key = d'.key)
    (htrail : d.trail = d'.trail) : d = d' := by
  have hfinal : d.final = d'.final := by rw [h.final_eq, h'.final_eq, htrail]
  have hdenies : d.denySources = d'.denySources :=
    SortedSet.ext fun kind => by rw [h.mem_denySources, h'.mem_denySources, htrail]
  cases d
  cases d'
  simp only at hkey hfinal htrail hdenies
  rw [hkey, hfinal, htrail, hdenies]

namespace PolicyLayers

def states (l : PolicyLayers) (key : PermissionKey) (c : Contribution) : Bool :=
  ((l.get c.layer).keysTo c.effect).contains key

/-- The layer mentions the key, and no layer after it does. -/
def MentionsLast (l : PolicyLayers) (kind : LayerKind) (key : PermissionKey) : Prop :=
  (l.get kind).Mentions key ∧ ∀ later, kind.rank < later.rank → ¬ (l.get later).Mentions key

variable (l : PolicyLayers) (key : PermissionKey)

/-- **The trail is all that is stated**, in its order. -/
theorem resolve_trail_eq_filter : (l.resolve key).trail = Contribution.all.filter (l.states key) := by
  have hlayer : ∀ kind, ([⟨kind, .allow⟩, ⟨kind, .deny⟩] : List Contribution).filter (l.states key) =
      (l.get kind).contributions kind key := by
    intro kind
    unfold PolicyLayer.contributions
    by_cases ha : key ∈ (l.get kind).allow <;> by_cases hd : key ∈ (l.get kind).deny <;>
      simp [states, PolicyLayer.keysTo, SortedSet.contains, ha, hd]
  rw [resolve_trail, Contribution.all, List.filter_flatMap]
  simp only [hlayer]

/-- **The last fact of a trail is the verdict of the highest layer that has one.** -/
theorem getLast?_trail (c : Contribution) : (l.resolve key).trail.getLast? = some c ↔
    (l.get c.layer).verdict? key = some c.effect ∧
      ∀ later, c.layer.rank < later.rank → (l.get later).verdict? key = none := by
  obtain ⟨kind, effect⟩ := c
  rw [resolve_trail, List.getLast?_flatMap]
  simp only [PolicyLayer.getLast?_contributions]
  rw [LayerKind.findSome?_reverse_all]
  simp only [Option.map_eq_some_iff, Option.map_eq_none_iff, Contribution.mk.injEq]
  constructor
  · rintro ⟨_, ⟨_, hverdict, rfl, rfl⟩, hlater⟩
    exact ⟨hverdict, hlater⟩
  · rintro ⟨hverdict, hlater⟩
    exact ⟨kind, ⟨effect, hverdict, rfl, rfl⟩, hlater⟩

theorem trail_eq_nil_iff : (l.resolve key).trail = [] ↔ ∀ kind, ¬ (l.get kind).Mentions key := by
  rw [resolve_trail_eq_filter, List.filter_eq_nil_iff]
  constructor
  · rintro h kind (ha | hd)
    · exact h ⟨kind, .allow⟩ (by cases kind <;> decide) (decide_eq_true ha)
    · exact h ⟨kind, .deny⟩ (by cases kind <;> decide) (decide_eq_true hd)
  · rintro h ⟨kind, _ | _⟩ - hstated
    · exact h kind (.inl (of_decide_eq_true hstated))
    · exact h kind (.inr (of_decide_eq_true hstated))

theorem decidedBy_resolve (kind : LayerKind) : (l.resolve key).decidedBy = some kind ↔ l.MentionsLast kind key := by
  unfold Decision.decidedBy MentionsLast
  have hmentions : ∀ kind, (∃ effect, (l.get kind).verdict? key = some effect) ↔ (l.get kind).Mentions key := by
    intro kind
    rw [← Option.ne_none_iff_exists', Ne, PolicyLayer.verdict?_eq_none_iff, Decidable.not_not]
  rw [Option.map_eq_some_iff, ← hmentions]
  simp only [← PolicyLayer.verdict?_eq_none_iff]
  constructor
  · rintro ⟨c, hlast, rfl⟩
    obtain ⟨hverdict, hlater⟩ := (l.getLast?_trail key c).1 hlast
    exact ⟨⟨c.effect, hverdict⟩, hlater⟩
  · rintro ⟨⟨effect, hverdict⟩, hlater⟩
    exact ⟨⟨kind, effect⟩, (l.getLast?_trail key _).2 ⟨hverdict, hlater⟩, rfl⟩

theorem decidedBy_eq_none_iff : (l.resolve key).decidedBy = none ↔ ∀ kind, ¬ (l.get kind).Mentions key := by
  rw [← trail_eq_nil_iff]
  unfold Decision.decidedBy
  rw [Option.map_eq_none_iff, List.getLast?_eq_none_iff]

/-- **A key is allowed where the highest layer that mentions it allows it and does not deny it.** -/
theorem final_eq_allow_iff : (l.resolve key).final = .allow ↔ ∃ kind, key ∈ (l.get kind).allow ∧
    ¬ key ∈ (l.get kind).deny ∧ ∀ later, kind.rank < later.rank → ¬ (l.get later).Mentions key := by
  rw [← isAllowed_resolve, isAllowed_iff_trail]
  simp only [getLast?_trail, PolicyLayer.verdict?_eq_allow_iff, PolicyLayer.verdict?_eq_none_iff, and_assoc]

theorem MentionsLast.rank_le {l : PolicyLayers} {key : PermissionKey} {kind other : LayerKind}
    (h : l.MentionsLast kind key) (hother : (l.get other).Mentions key) : other.rank ≤ kind.rank :=
  Nat.le_of_not_lt fun hlater => h.2 other hlater hother

theorem rank_lt_of_overridden {l : PolicyLayers} {key : PermissionKey} {kind top : LayerKind}
    (hallowed : (l.resolve key).final = .allow) (htop : l.MentionsLast top key) (hdeny : key ∈ (l.get kind).deny) :
    kind.rank < top.rank := by
  -- the layer that allows is the highest that mentions the key, so it is the one that decides
  obtain ⟨decider, hallow, hnot, hlast⟩ := (l.final_eq_allow_iff key).1 hallowed
  have hdecider : l.MentionsLast decider key := ⟨.inl hallow, hlast⟩
  have hsame : decider = top :=
    LayerKind.eq_of_rank_eq (Nat.le_antisymm (htop.rank_le hdecider.1) (hdecider.rank_le htop.1))
  rw [← hsame]
  refine Nat.lt_of_le_of_ne (hdecider.rank_le (.inr hdeny)) fun hrank => hnot ?_
  rw [← LayerKind.eq_of_rank_eq hrank]
  exact hdeny

/-- Two sets of layers say the same about a key, whatever they say about others. -/
def AgreeOn (l l' : PolicyLayers) (key : PermissionKey) : Prop :=
  ∀ kind effect, key ∈ (l.get kind).keysTo effect ↔ key ∈ (l'.get kind).keysTo effect

/-- **The decision about a key depends on nothing else.** -/
theorem resolve_congr {l l' : PolicyLayers} {key : PermissionKey} (h : l.AgreeOn l' key) :
    l.resolve key = l'.resolve key := by
  have htrail : (l.resolve key).trail = (l'.resolve key).trail := by
    rw [resolve_trail, resolve_trail]
    simp only [fun kind => PolicyLayer.contributions_congr (h kind) kind]
  have hkey := (l.resolve_key key).trans (l'.resolve_key key).symm
  exact (l.followsTrail_resolve key).eq (l'.followsTrail_resolve key) hkey htrail

/-- The decision about a key, as the layers tell it. -/
structure Specifies (l : PolicyLayers) (key : PermissionKey) (d : Decision) : Prop where
  key_eq : d.key = key
  allowed : d.final = .allow ↔ ∃ kind, key ∈ (l.get kind).allow ∧ ¬ key ∈ (l.get kind).deny ∧
    ∀ later, kind.rank < later.rank → ¬ (l.get later).Mentions key
  trail : d.trail = Contribution.all.filter (l.states key)
  denied : ∀ kind, kind ∈ d.denySources ↔ key ∈ (l.get kind).deny
  decided : ∀ kind, d.decidedBy = some kind ↔ l.MentionsLast kind key
  undecided : d.decidedBy = none ↔ ∀ kind, ¬ (l.get kind).Mentions key
  overridden : d.final = .allow → ∃ top, d.decidedBy = some top ∧
    (∀ kind, kind ∈ d.overriddenDenies ↔ key ∈ (l.get kind).deny) ∧ ∀ kind ∈ d.overriddenDenies, kind.rank < top.rank
  kept : d.final = .deny → d.overriddenDenies = []

theorem specifies_resolve : l.Specifies key (l.resolve key) where
  key_eq := l.resolve_key key
  allowed := l.final_eq_allow_iff key
  trail := l.resolve_trail_eq_filter key
  denied kind := by rw [(l.followsTrail_resolve key).mem_denySources, mem_trail]; rfl
  decided := l.decidedBy_resolve key
  undecided := l.decidedBy_eq_none_iff key
  overridden hallowed := by
    obtain ⟨top, hallow, -, hlast⟩ := (l.final_eq_allow_iff key).1 hallowed
    have htop : l.MentionsLast top key := ⟨.inl hallow, hlast⟩
    have hmem : ∀ kind, kind ∈ (l.resolve key).overriddenDenies ↔ key ∈ (l.get kind).deny := by
      intro kind
      rw [overriddenDenies_resolve, if_pos ((l.isAllowed_resolve key).2 hallowed), List.mem_filter]
      exact ⟨fun h => of_decide_eq_true h.2, fun h => ⟨kind.mem_all, decide_eq_true h⟩⟩
    exact ⟨top, (l.decidedBy_resolve key top).2 htop, hmem, fun kind hkind =>
      rank_lt_of_overridden hallowed htop ((hmem kind).1 hkind)⟩
  kept hdenied := by
    have hnot : ¬ (l.resolve key).isAllowed = true := by
      rw [isAllowed_resolve, hdenied]
      decide
    rw [overriddenDenies_resolve, if_neg hnot]

/-- **What the layers come to**, for all layers and every key: the decision is the one that they tell, and layers that
agree on the key come to the same decision. -/
theorem resolve_specified :
    l.Specifies key (l.resolve key) ∧ ∀ l' : PolicyLayers, l.AgreeOn l' key → l.resolve key = l'.resolve key :=
  ⟨l.specifies_resolve key, fun _ h => resolve_congr h⟩

/-- The user's allowance sets aside the denial of the tenant, and not its own. -/
example :
    let l : PolicyLayers := ⟨.empty, .ofLists [] [⟨"a"⟩, ⟨"b"⟩], .empty, .ofLists [⟨"a"⟩, ⟨"b"⟩] [⟨"b"⟩]⟩
    (l.resolve ⟨"a"⟩).decidedBy = some .user ∧ (l.resolve ⟨"a"⟩).overriddenDenies = [.tenant] ∧
      (l.resolve ⟨"b"⟩).final = .deny := by decide

end PolicyLayers
end BackOffice
