import BackOffice.Proofs.Precedence
/-!
# What comes of a suggestion

The edits that the explanation of a denial suggests, and the decision after them.  To allow a key after every layer
that mentions it puts an allowance at the end of its trail (`trail_apply_allow`), so such an edit always opens the key.
To take the deciding denial away takes the last contribution off the trail (`trail_apply_undeny`), so that edit opens
the key exactly where the contribution before it is an allowance: under the denial another one may stand, or nothing.
-/
namespace BackOffice

/-- A change of one list of one layer by one key. -/
inductive LayerEdit where
  | allow (kind : LayerKind) (key : PermissionKey)
  | undeny (kind : LayerKind) (key : PermissionKey)
deriving DecidableEq, Repr

def LayerEdit.apply (l : PolicyLayers) : LayerEdit → PolicyLayers
  | .allow kind key  => l.withLayer kind ((l.get kind).allowing key)
  | .undeny kind key => l.withLayer kind { l.get kind with deny := (l.get kind).deny.erase key }

/-- The edits that a suggestion names; that the role template be looked at names none. -/
def Suggestion.edits : Suggestion → List LayerEdit
  | .grant key           => [.allow .tenant key, .allow .store key, .allow .user key]
  | .reviewTemplate      => []
  | .allowAfter key kind => (LayerKind.all.drop (kind.rank + 1)).map (LayerEdit.allow · key)
  | .removeDeny key kind => [.undeny kind key]

/-- The edit is named by one of the suggestions of the explanation. -/
def Decision.Suggests (d : Decision) (e : LayerEdit) : Prop := ∃ s ∈ d.explain.suggestions, e ∈ s.edits

instance (d : Decision) (e : LayerEdit) : Decidable (d.Suggests e) :=
  inferInstanceAs (Decidable (∃ s ∈ d.explain.suggestions, e ∈ s.edits))

/-- The place of a fact in the order of facts. -/
def Contribution.place (c : Contribution) : Nat := 2 * c.layer.rank + if c.effect = .deny then 1 else 0

theorem Contribution.all_eq_split (c : Contribution) : all = all.take c.place ++ c :: all.drop (c.place + 1) := by
  obtain ⟨layer, effect⟩ := c
  cases layer <;> cases effect <;> rfl

theorem Contribution.rank_le_of_mem_drop {c d : Contribution} (h : d ∈ all.drop (c.place + 1)) :
    c.layer.rank ≤ d.layer.rank := by
  have hlater : ∀ c ∈ all, ∀ d ∈ all.drop (c.place + 1), c.layer.rank ≤ d.layer.rank := by decide
  exact hlater c (by rw [c.all_eq_split]; simp) d h

theorem Contribution.nodup_all : all.Nodup := by decide

/-- To keep one fact more, where none from its layer on is kept, puts it last. -/
theorem Contribution.filter_all_or {p : Contribution → Bool} {c : Contribution}
    (h : ∀ d : Contribution, c.layer.rank ≤ d.layer.rank → p d = false) :
    all.filter (fun d => p d || d == c) = all.filter p ++ [c] := by
  have hnodup := nodup_all
  rw [c.all_eq_split] at hnodup ⊢
  obtain ⟨-, hcons, hapart⟩ := List.nodup_append.1 hnodup
  have hbefore : (all.take c.place).filter (fun d => p d || d == c) = (all.take c.place).filter p := by
    refine List.filter_congr fun d hd => ?_
    rw [beq_eq_false_iff_ne.2 (hapart d hd c List.mem_cons_self), Bool.or_false]
  have hafter : ∀ d ∈ all.drop (c.place + 1), (p d || d == c) = false ∧ p d = false := by
    intro d hd
    have hother : d ≠ c := fun heq => (List.nodup_cons.1 hcons).1 (heq ▸ hd)
    have hunkept := h d (rank_le_of_mem_drop hd)
    exact ⟨by rw [hunkept, beq_eq_false_iff_ne.2 hother, Bool.or_false], hunkept⟩
  have hrest : (c :: all.drop (c.place + 1)).filter (fun d => p d || d == c) = [c] := by
    rw [List.filter_cons, if_pos (by simp), List.filter_eq_nil_iff.2 fun d hd => Bool.eq_false_iff.1 (hafter d hd).1]
  have hnone : (c :: all.drop (c.place + 1)).filter p = [] := by
    refine List.filter_eq_nil_iff.2 fun d hd => Bool.eq_false_iff.1 ?_
    rcases List.mem_cons.1 hd with rfl | hd
    · exact h d (Nat.le_refl _)
    · exact (hafter d hd).2
  rw [List.filter_append, List.filter_append, hbefore, hrest, hnone, List.append_nil]

namespace PolicyLayers

variable {l : PolicyLayers} {key : PermissionKey} {kind : LayerKind}

/-! ## The trail after an edit -/

theorem states_apply_allow (l : PolicyLayers) (key : PermissionKey) (kind : LayerKind) (c : Contribution) :
    ((LayerEdit.allow kind key).apply l).states key c = (l.states key c || c == ⟨kind, .allow⟩) := by
  obtain ⟨layer, effect⟩ := c
  have hinsert : key ∈ ((l.get kind).allowing key).allow := (SortedSet.mem_insert _ _ _).2 (.inl rfl)
  unfold states LayerEdit.apply
  simp only [get_withLayer]
  by_cases hlayer : layer = kind
  · subst hlayer
    cases effect
    · simpa [PolicyLayer.keysTo, SortedSet.contains] using hinsert
    · simp [PolicyLayer.keysTo, PolicyLayer.allowing]
  · simp [hlayer]

theorem states_apply_undeny (l : PolicyLayers) (key : PermissionKey) (kind : LayerKind) (c : Contribution) :
    ((LayerEdit.undeny kind key).apply l).states key c = (l.states key c && c != ⟨kind, .deny⟩) := by
  obtain ⟨layer, effect⟩ := c
  unfold states LayerEdit.apply
  simp only [get_withLayer]
  by_cases hlayer : layer = kind
  · subst hlayer
    cases effect
    · simp [PolicyLayer.keysTo]
    · simp [PolicyLayer.keysTo, SortedSet.contains, SortedSet.mem_erase]
  · simp [hlayer]

theorem mem_trail_iff_states (l : PolicyLayers) (key : PermissionKey) (c : Contribution) :
    c ∈ (l.resolve key).trail ↔ l.states key c = true := by
  rw [mem_trail]
  exact (decide_eq_true_iff).symm

/-- **An allowance after all that is said stands last.** -/
theorem trail_apply_allow (h : ∀ c ∈ (l.resolve key).trail, c.layer.rank < kind.rank) :
    (((LayerEdit.allow kind key).apply l).resolve key).trail = (l.resolve key).trail ++ [⟨kind, .allow⟩] := by
  have hunsaid : ∀ c : Contribution, kind.rank ≤ c.layer.rank → l.states key c = false := fun c hrank =>
    Bool.eq_false_iff.2 fun hstated => Nat.not_lt.2 hrank (h c ((l.mem_trail_iff_states key c).2 hstated))
  rw [resolve_trail_eq_filter, resolve_trail_eq_filter,
    List.filter_congr fun c _ => states_apply_allow l key kind c]
  exact Contribution.filter_all_or hunsaid

/-- **To take back the last denial takes it off the trail.** -/
theorem trail_apply_undeny (h : (l.resolve key).trail.getLast? = some ⟨kind, .deny⟩) :
    (((LayerEdit.undeny kind key).apply l).resolve key).trail = (l.resolve key).trail.dropLast := by
  have hfilter : (((LayerEdit.undeny kind key).apply l).resolve key).trail =
      (l.resolve key).trail.filter (fun c => c != ⟨kind, .deny⟩) := by
    rw [resolve_trail_eq_filter, resolve_trail_eq_filter, List.filter_filter]
    refine List.filter_congr fun c _ => ?_
    rw [states_apply_undeny, Bool.and_comm]
  have hnodup : (l.resolve key).trail.Nodup := by
    rw [resolve_trail_eq_filter]
    exact Contribution.nodup_all.filter _
  obtain ⟨rest, hrest⟩ := List.getLast?_eq_some_iff.1 h
  rw [hrest] at hnodup
  have hapart : ∀ c ∈ rest, (c != ⟨kind, .deny⟩) = true := fun c hc =>
    bne_iff_ne.2 ((List.nodup_append.1 hnodup).2.2 c hc _ (List.mem_singleton.2 rfl))
  rw [hfilter, hrest, List.dropLast_concat, List.filter_append, List.filter_eq_self.2 hapart,
    List.filter_cons_of_neg (by simp), List.filter_nil, List.append_nil]

/-! ## Which edits are suggested -/

/-- What is suggested for a key that is not allowed hangs on the last contribution to its trail: on there being none,
or on the layer of the denial that it is. -/
theorem mem_suggestions_resolve (l : PolicyLayers) (key : PermissionKey) (s : Suggestion) :
    s ∈ (l.resolve key).suggestions ↔
      (l.resolve key).trail = [] ∧ (s = .grant key ∨ s = .reviewTemplate) ∨
      ∃ kind, (l.resolve key).trail.getLast? = some ⟨kind, .deny⟩ ∧
        (kind ≠ .user ∧ s = .allowAfter key kind ∨ s = .removeDeny key kind) := by
  have hfinal := (l.followsTrail_resolve key).final_eq
  unfold Decision.suggestions Decision.decidedBy
  rw [hfinal, resolve_key]
  cases htrail : (l.resolve key).trail.getLast? with
  | none => simp [List.getLast?_eq_none_iff.1 htrail]
  | some c =>
    have hsome : (l.resolve key).trail ≠ [] := fun hnil => by simp [hnil] at htrail
    obtain ⟨kind, effect⟩ := c
    cases effect with
    | allow => simp [hsome]
    | deny => by_cases huser : kind = .user <;> simp [hsome, huser]

theorem rank_le_of_mem_trail {c d : Contribution} (hlast : (l.resolve key).trail.getLast? = some d)
    (h : c ∈ (l.resolve key).trail) : c.layer.rank ≤ d.layer.rank := by
  refine Nat.le_of_not_lt fun hafter => ?_
  have hsilent := ((l.getLast?_trail key d).1 hlast).2 c.layer hafter
  refine ((PolicyLayer.verdict?_eq_none_iff _ _).1 hsilent) ?_
  have hstated := (l.mem_trail key c).1 h
  rcases c with ⟨layer, _ | _⟩
  · exact .inl hstated
  · exact .inr hstated

/-- **What is suggested**: for a key that is not allowed, an allowance in any layer after all that mention it, the
template apart; and that the denial which decides be taken back. -/
theorem suggests_iff (l : PolicyLayers) (key : PermissionKey) (e : LayerEdit) : (l.resolve key).Suggests e ↔
    (l.resolve key).isAllowed = false ∧
      ((∃ kind, e = .allow kind key ∧ kind ≠ .template ∧ ∀ c ∈ (l.resolve key).trail, c.layer.rank < kind.rank) ∨
        ∃ kind, e = .undeny kind key ∧ (l.resolve key).trail.getLast? = some ⟨kind, .deny⟩) := by
  rw [Bool.eq_false_iff, Ne, isAllowed_iff_trail]
  unfold Decision.Suggests Decision.explain
  simp only [mem_suggestions_resolve]
  constructor
  · rintro ⟨s, ⟨hnil, rfl | rfl⟩ | ⟨kind, hlast, ⟨-, rfl⟩ | rfl⟩, he⟩
    · refine ⟨by simp [hnil], .inl ?_⟩
      simp only [Suggestion.edits, List.mem_cons, List.not_mem_nil, or_false] at he
      rcases he with rfl | rfl | rfl <;> exact ⟨_, rfl, by decide, by simp [hnil]⟩
    · exact absurd he List.not_mem_nil
    · obtain ⟨later, hlater, rfl⟩ := List.mem_map.1 he
      have hrank := (kind.mem_drop_all later).1 hlater
      refine ⟨by simp [hlast], .inl ⟨later, rfl, fun htemplate => ?_, fun c hc => ?_⟩⟩
      · rw [htemplate] at hrank
        exact Nat.not_lt_zero _ hrank
      · exact Nat.lt_of_le_of_lt (rank_le_of_mem_trail hlast hc) hrank
    · exact ⟨by simp [hlast], .inr ⟨kind, List.mem_singleton.1 he, hlast⟩⟩
  · rintro ⟨hdenied, ⟨kind, rfl, htemplate, hafter⟩ | ⟨kind, rfl, hlast⟩⟩
    · cases hlast : (l.resolve key).trail.getLast? with
      | none =>
        refine ⟨.grant key, .inl ⟨List.getLast?_eq_none_iff.1 hlast, .inl rfl⟩, ?_⟩
        cases kind <;> simp_all [Suggestion.edits]
      | some c =>
        obtain ⟨top, effect⟩ := c
        have htop : top.rank < kind.rank := hafter _ (List.mem_of_getLast? hlast)
        cases effect with
        | allow => exact absurd ⟨top, hlast⟩ hdenied
        | deny =>
          have huser : top ≠ .user := by
            rintro rfl
            cases kind <;> exact absurd htop (by decide)
          exact ⟨.allowAfter key top, .inr ⟨top, rfl, .inl ⟨huser, rfl⟩⟩,
            List.mem_map.2 ⟨kind, (top.mem_drop_all kind).2 htop, rfl⟩⟩
    · exact ⟨.removeDeny key kind, .inr ⟨kind, hlast, .inr rfl⟩, List.mem_singleton.2 rfl⟩

/-- **What comes of a suggested edit**, for all layers and every key that they deny.  An allowance opens the key: it
stands last in the trail.  To take back the deciding denial leaves what was said before it, and opens the key exactly
where that ends with an allowance, be it of the same layer or of one below. -/
theorem isAllowed_suggested (l : PolicyLayers) (key : PermissionKey) (e : LayerEdit)
    (hsuggested : (l.resolve key).Suggests e) :
    (l.resolve key).isAllowed = false ∧
    ((∃ kind, e = .allow kind key ∧ ((e.apply l).resolve key).trail = (l.resolve key).trail ++ [⟨kind, .allow⟩] ∧
        ((e.apply l).resolve key).isAllowed = true) ∨
      (∃ kind before, e = .undeny kind key ∧ (l.resolve key).trail = before ++ [⟨kind, .deny⟩] ∧
        ((e.apply l).resolve key).trail = before ∧
        (((e.apply l).resolve key).isAllowed = true ↔ ∃ earlier, before.getLast? = some ⟨earlier, .allow⟩))) := by
  obtain ⟨hdenied, hedit⟩ := (l.suggests_iff key e).1 hsuggested
  refine ⟨hdenied, ?_⟩
  rcases hedit with ⟨kind, rfl, -, hafter⟩ | ⟨kind, rfl, hlast⟩
  · have htrail := trail_apply_allow hafter
    refine .inl ⟨kind, rfl, htrail, ?_⟩
    rw [isAllowed_iff_trail, htrail]
    exact ⟨kind, List.getLast?_concat⟩
  · obtain ⟨before, hbefore⟩ := List.getLast?_eq_some_iff.1 hlast
    have htrail : (((LayerEdit.undeny kind key).apply l).resolve key).trail = before := by
      rw [trail_apply_undeny hlast, hbefore, List.dropLast_concat]
    refine .inr ⟨kind, before, rfl, hbefore, htrail, ?_⟩
    rw [isAllowed_iff_trail, htrail]

/-- Under the tenant's denial stands the allowance of the template. -/
theorem isAllowed_of_tenant_denial_removed :
    let l : PolicyLayers := ⟨.ofLists [⟨"audit.view"⟩] [], .ofLists [] [⟨"audit.view"⟩], .empty, .empty⟩
    let e : LayerEdit := .undeny .tenant ⟨"audit.view"⟩
    (l.resolve ⟨"audit.view"⟩).Suggests e ∧ ((e.apply l).resolve ⟨"audit.view"⟩).isAllowed = true := by
  intro l e
  have hsuggested : (l.resolve ⟨"audit.view"⟩).Suggests e := by decide
  refine ⟨hsuggested, ?_⟩
  rcases (isAllowed_suggested l ⟨"audit.view"⟩ e hsuggested).2 with ⟨_, -, -, hallowed⟩ | ⟨_, _, -, -, htrail, hiff⟩
  · exact hallowed
  · exact hiff.2 (htrail ▸ ⟨.template, by decide⟩)

/-- Not every suggested edit opens the key: under the denial of a user's layer there may be no allowance. -/
theorem not_isAllowed_of_every_suggested : ¬ ∀ (l : PolicyLayers) (key : PermissionKey),
    (l.resolve key).isAllowed = false → ∀ e, (l.resolve key).Suggests e →
      ((e.apply l).resolve key).isAllowed = true := by
  intro hevery
  have hopened := hevery ⟨.empty, .empty, .empty, .ofLists [] [⟨"audit.view"⟩]⟩ ⟨"audit.view"⟩ (by decide)
    (.undeny .user ⟨"audit.view"⟩) (by decide)
  exact absurd hopened (by decide)

end PolicyLayers
end BackOffice
