import BackOffice.Proofs.Agreement
import BackOffice.Wire.PermissionReport
/-!
# Which keys are reported

A key is reported as a mismatch where some entry for it is not the verdict of the layers (`mem_mismatches`).  What
counts for a session is the last entry for a key (`exists_isAllowed_eq`), so every key on which the effective set and
the layers differ is reported, and so is every key on which the report contradicts itself, even where the verdict that
counts is that of the layers.
-/
namespace BackOffice.PermissionReport

/-- The report has entries of both verdicts on the key. -/
def Contradicts (r : PermissionReport) (key : PermissionKey) : Prop :=
  ∀ allowed, ∃ e ∈ r.entries, e.key = key ∧ e.allowed = allowed

instance (r : PermissionReport) (key : PermissionKey) : Decidable (r.Contradicts key) :=
  inferInstanceAs (Decidable (∀ allowed, ∃ e ∈ r.entries, e.key = key ∧ e.allowed = allowed))

variable (r : PermissionReport) (subject : Subject) (key : PermissionKey)

theorem mem_mismatches : key ∈ r.mismatches subject ↔
    ∃ e ∈ r.entries, e.key = key ∧ e.allowed ≠ (r.layers.resolve key).isAllowed := by
  -- every listed key is decided about, so no entry is passed over
  have hdecision : ∀ e ∈ r.entries, (r.evaluation subject).decision? e.key = some (r.layers.resolve e.key) := by
    intro e he
    have hlisted : e.key ∈ (r.layers.mentionedKeys.union (.ofList (r.entries.map PermissionEntry.key))).toList :=
      (SortedSet.mem_union _ _ _).2 (.inr ((SortedSet.mem_ofList _ _).2 (List.mem_map_of_mem he)))
    unfold evaluation
    rw [PolicyLayers.decision?_evaluate, if_pos hlisted]
  unfold mismatches
  rw [SortedSet.mem_ofList, List.mem_map]
  constructor
  · rintro ⟨e, he, rfl⟩
    obtain ⟨hmem, hdiffers⟩ := List.mem_filter.1 he
    rw [hdecision e hmem] at hdiffers
    exact ⟨e, hmem, rfl, Ne.symm (bne_iff_ne.1 hdiffers)⟩
  · rintro ⟨e, hmem, rfl, hdiffers⟩
    refine ⟨e, List.mem_filter.2 ⟨hmem, ?_⟩, rfl⟩
    rw [hdecision e hmem]
    exact bne_iff_ne.2 (Ne.symm hdiffers)

/-- Where there are entries for a key, one of them is the last. -/
theorem exists_last_entry {key : PermissionKey} : ∀ {entries : List PermissionEntry},
    (∃ e ∈ entries, e.key = key) →
      ∃ before e after, entries = before ++ e :: after ∧ e.key = key ∧ ∀ f ∈ after, f.key ≠ key
  | [], h => by obtain ⟨e, he, -⟩ := h; cases he
  | e :: rest, h => by
    by_cases hrest : ∃ f ∈ rest, f.key = key
    · obtain ⟨before, f, after, hsplit, hlast⟩ := exists_last_entry hrest
      exact ⟨e :: before, f, after, by rw [hsplit, List.cons_append], hlast⟩
    · refine ⟨[], e, rest, rfl, ?_, fun f hf hkey => hrest ⟨f, hf, hkey⟩⟩
      obtain ⟨f, hf, hkey⟩ := h
      rcases List.mem_cons.1 hf with rfl | hf
      · exact hkey
      · exact absurd ⟨f, hf, hkey⟩ hrest

/-- **One of the entries for a key is the verdict that counts**, the last. -/
theorem exists_isAllowed_eq {key : PermissionKey} (h : ∃ e ∈ r.entries, e.key = key) :
    ∃ e ∈ r.entries, e.key = key ∧ e.allowed = r.effectiveSet.isAllowed key := by
  obtain ⟨before, e, after, hsplit, rfl, hlast⟩ := exists_last_entry h
  have hget : r.effectiveSet.verdicts.get? e.key = some e.allowed := by
    refine Table.get?_ofList_eq_some_iff.2
      ⟨before.map (fun f => (f.key, f.allowed)), after.map (fun f => (f.key, f.allowed)), ?_, fun p hp => ?_⟩
    · rw [hsplit, List.map_append, List.map_cons]
    · obtain ⟨f, hf, rfl⟩ := List.mem_map.1 hp
      exact hlast f hf
  refine ⟨e, hsplit ▸ List.mem_append_right _ List.mem_cons_self, rfl, ?_⟩
  rw [EffectiveSet.isAllowed, hget, Option.getD_some]

/-- Of the verdicts on a key both are there if one is that is not the one that counts. -/
theorem contradicts_of_mem {e : PermissionEntry} (he : e ∈ r.entries)
    (h : e.allowed ≠ r.effectiveSet.isAllowed e.key) : r.Contradicts e.key := by
  intro allowed
  by_cases hsame : e.allowed = allowed
  · exact ⟨e, he, rfl, hsame⟩
  · obtain ⟨f, hf, hkey, hcounts⟩ := r.exists_isAllowed_eq ⟨e, he, rfl⟩
    refine ⟨f, hf, hkey, ?_⟩
    rw [hcounts, Bool.eq_not.2 (Ne.symm h), Bool.eq_not.2 hsame, Bool.not_not]

theorem mem_mismatches_iff_differs : key ∈ r.mismatches subject ↔ (∃ e ∈ r.entries, e.key = key) ∧
    (r.effectiveSet.isAllowed key ≠ (r.layers.resolve key).isAllowed ∨ r.Contradicts key) := by
  rw [mem_mismatches]
  constructor
  · rintro ⟨e, he, rfl, hdiffers⟩
    refine ⟨⟨e, he, rfl⟩, ?_⟩
    by_cases hcounts : e.allowed = r.effectiveSet.isAllowed e.key
    · exact .inl (hcounts ▸ hdiffers)
    · exact .inr (r.contradicts_of_mem he hcounts)
  · rintro ⟨hlisted, hdiffers | hcontradicts⟩
    · obtain ⟨e, he, hkey, hcounts⟩ := r.exists_isAllowed_eq hlisted
      exact ⟨e, he, hkey, hcounts ▸ hdiffers⟩
    · obtain ⟨e, he, hkey, hother⟩ := hcontradicts (!(r.layers.resolve key).isAllowed)
      exact ⟨e, he, hkey, Bool.eq_not.1 hother⟩

/-- **Which keys are reported**, for every report and subject: the listed keys on which the set that the session
installs differs from the layers, and those on which the report contradicts itself.  So the report is that of the
listed keys with a difference exactly unless some verdict is set aside that differs from the one that counts, and this
is the one of the layers. -/
theorem mem_mismatches_iff (r : PermissionReport) (subject : Subject) (key : PermissionKey) :
    (key ∈ r.mismatches subject ↔ (∃ e ∈ r.entries, e.key = key) ∧
      (r.effectiveSet.isAllowed key ≠ (r.layers.resolve key).isAllowed ∨ r.Contradicts key)) ∧
    ((key ∈ r.mismatches subject ↔ (∃ e ∈ r.entries, e.key = key) ∧
        r.effectiveSet.isAllowed key ≠ (r.layers.resolve key).isAllowed) ↔
      ¬ (r.Contradicts key ∧ r.effectiveSet.isAllowed key = (r.layers.resolve key).isAllowed)) := by
  refine ⟨r.mem_mismatches_iff_differs subject key, ?_⟩
  rw [mem_mismatches_iff_differs]
  constructor
  · rintro hclaimed ⟨hcontradicts, hsame⟩
    obtain ⟨e, he, hkey, -⟩ := hcontradicts true
    exact (hclaimed.1 ⟨⟨e, he, hkey⟩, .inr hcontradicts⟩).2 hsame
  · refine fun hnot => ⟨fun h => ⟨h.1, fun hsame => ?_⟩, fun h => ⟨h.1, .inl h.2⟩⟩
    exact hnot ⟨h.2.resolve_left (not_not_intro hsame), hsame⟩

/-- A key is allowed and then denied, and the layers do not mention it: it is reported, though the set agrees with the
layers. -/
theorem mismatch_without_difference : ¬ ∀ (r : PermissionReport) (subject : Subject) (key : PermissionKey),
    key ∈ r.mismatches subject ↔ (∃ e ∈ r.entries, e.key = key) ∧
      r.effectiveSet.isAllowed key ≠ (r.layers.resolve key).isAllowed := by
  intro hevery
  have hexact := hevery ⟨.null, [⟨⟨"audit.view"⟩, true, none⟩, ⟨⟨"audit.view"⟩, false, none⟩], [], .empty, none⟩
    (.ofUser ⟨.ofNat 1⟩ ⟨.ofNat 2⟩ ⟨"manager"⟩) ⟨"audit.view"⟩
  exact absurd (hexact.1 (by decide)).2 (by decide)

end BackOffice.PermissionReport
