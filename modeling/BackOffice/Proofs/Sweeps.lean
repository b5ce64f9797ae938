import BackOffice.Proofs.CacheKeys
import BackOffice.Proofs.Isolation
import BackOffice.Proofs.Staleness
import Mathlib.Data.Set.Card
/-!
# What an invalidation drops

A completed mutation drops every entry whose key begins with its resource and tenant.  That is a statement about texts,
and it comes to one about reads: a resource without a colon ends at the first colon of a key, and all tenants are
written with characters other than the slash that follows them, so no other resource and no other tenant can stand at
the front (`startsWith_key_iff`).  Where every key was made for a read, what is dropped are the reads of that resource
by that tenant, at whatever store and path, and nothing else (`invalidation_exact`).
-/
namespace BackOffice

/-! ## What a filter takes from a table -/

namespace Table

variable {κ ν : Type} [Ord κ] [Std.TransOrd κ] [Std.LawfulEqOrd κ] [DecidableEq κ]

omit [Std.TransOrd κ] [DecidableEq κ] in
theorem nodup_keys (t : Table κ ν) : t.keys.Nodup := by
  refine t.increasing_keys.imp fun {a b} hlt hab => ?_
  rw [Std.compare_eq_iff_eq.2 hab] at hlt
  cases hlt

omit [Std.TransOrd κ] in
/-- The entries that a filter takes from a table are counted by their keys. -/
theorem size_sub_filterKeys (p : κ → Bool) (t : Table κ ν) :
    t.size - (t.filterKeys p).size = {k | p k = false ∧ ∃ v, t.get? k = some v}.ncard := by
  have hsplit : t.keys.length = (t.keys.filter p).length + (t.keys.filter (fun k => !p k)).length :=
    List.length_eq_length_filter_add p
  have hkept : (t.filterKeys p).size = (t.keys.filter p).length := by
    unfold size filterKeys keys
    rw [List.filter_map, List.length_map]
    rfl
  have hset : {k | p k = false ∧ ∃ v, t.get? k = some v} = ((t.keys.filter (fun k => !p k)).toFinset : Set κ) := by
    ext k
    simp only [Set.mem_ofPred_eq, List.coe_toFinset, List.mem_filter, mem_keys, Bool.not_eq_true']
    exact and_comm
  have hnodup : (t.keys.filter (fun k => !p k)).Nodup := t.nodup_keys.filter _
  rw [hset, Set.ncard_coe_finset, List.toFinset_card_of_nodup hnodup, hkept,
    show t.size = t.keys.length from (List.length_map _).symm]
  omega

end Table

namespace Cache

/-! ## Keys and their fronts -/

/-- **A front fits the keys of its resource and tenant only.** -/
theorem startsWith_key_iff {resource resource' : String} (hr : ':' ∉ resource.toList) (hr' : ':' ∉ resource'.toList)
    (tenant : TenantId) (subject : Subject) (path : String) (query : List (String × String)) :
    Text.startsWith (key resource' subject.scope path query) (resourceFront resource tenant.text) = true ↔
      resource = resource' ∧ subject.tenant = tenant := by
  have hcolon : ":".toList = [':'] := rfl
  have hslash : "/".toList = ['/'] := rfl
  rw [Text.startsWith_iff, toList_key]
  simp only [resourceFront, Subject.scope, String.toList_append, hcolon, hslash, List.append_assoc,
    List.singleton_append]
  constructor
  · rintro ⟨rest, h⟩
    obtain ⟨hresource, h⟩ := Text.cut_first h hr' hr
    obtain ⟨htenant, -⟩ := Text.cut_first h (EntityId.slash_not_mem_text _) (EntityId.slash_not_mem_text _)
    exact ⟨(String.toList_injective hresource).symm, EntityId.text_injective (String.toList_injective htenant)⟩
  · rintro ⟨rfl, rfl⟩
    exact ⟨_, rfl⟩

/-- A key was made for what some subject of the tenant read of the resource, at whatever store, path and query. -/
def IsRead (resource : String) (tenant : TenantId) (k : String) : Prop :=
  ∃ (subject : Subject) (path : String) (query : List (String × String)), subject.tenant = tenant ∧
    k = key resource subject.scope path query

/-- Every key of the cache was made for a read, of a resource without a colon. -/
def Filed (c : Cache) : Prop :=
  ∀ k e, c.entries.get? k = some e → ∃ resource tenant, ':' ∉ resource.toList ∧ IsRead resource tenant k

theorem startsWith_iff_isRead {resource resource' : String} {tenant tenant' : TenantId} {k : String}
    (hr : ':' ∉ resource.toList) (hr' : ':' ∉ resource'.toList) (hk : IsRead resource' tenant' k) :
    Text.startsWith k (resourceFront resource tenant.text) = true ↔ IsRead resource tenant k := by
  constructor
  · obtain ⟨subject, path, query, rfl, rfl⟩ := hk
    intro h
    obtain ⟨rfl, rfl⟩ := (startsWith_key_iff hr hr' tenant subject path query).1 h
    exact ⟨subject, path, query, rfl, rfl⟩
  · rintro ⟨subject, path, query, htenant, rfl⟩
    exact (startsWith_key_iff hr hr tenant subject path query).2 ⟨rfl, htenant⟩

/-! ## Sweeps -/

/-- The reads of a resource by a tenant have been dropped from a cache and counted, and all else stands. -/
structure Swept (before : Cache) (resource : String) (tenant : TenantId) (dropped : Nat) (after : Cache) : Prop where
  gone : ∀ k, IsRead resource tenant k → after.entries.get? k = none
  kept : ∀ k, ¬ IsRead resource tenant k → after.entries.get? k = before.entries.get? k
  counted : dropped = {k | IsRead resource tenant k ∧ ∃ e, before.entries.get? k = some e}.ncard
  lifetime : after.lifetime = before.lifetime
  clock : after.clock = before.clock

/-- **An invalidation is exact** where every key was made for a read. -/
theorem swept_invalidate {c : Cache} (hc : c.Filed) {resource : String} (hr : ':' ∉ resource.toList)
    (tenant : TenantId) :
    c.Swept resource tenant (c.invalidate (resourceFront resource tenant.text)).1
      (c.invalidate (resourceFront resource tenant.text)).2 := by
  have hget : ∀ k, (c.invalidate (resourceFront resource tenant.text)).2.entries.get? k =
      if !Text.startsWith k (resourceFront resource tenant.text) then c.entries.get? k else none :=
    fun k => Table.get?_filterKeys _ _ _
  have hfront : ∀ {k e}, c.entries.get? k = some e →
      (Text.startsWith k (resourceFront resource tenant.text) = true ↔ IsRead resource tenant k) := by
    intro k e hentry
    obtain ⟨resource', tenant', hr', hk⟩ := hc k e hentry
    exact startsWith_iff_isRead hr hr' hk
  refine ⟨fun k hk => ?_, fun k hk => ?_, ?_, rfl, rfl⟩
  · rw [hget, (startsWith_iff_isRead hr hr hk).2 hk]
    rfl
  · rw [hget]
    cases hentry : c.entries.get? k with
    | none => exact ite_self _
    | some e =>
      rw [if_pos]
      rw [Bool.not_eq_true', ← Bool.not_eq_true, hfront hentry]
      exact hk
  · refine (Table.size_sub_filterKeys _ c.entries).trans (congrArg Set.ncard ?_)
    ext k
    simp only [Set.mem_ofPred_eq, Bool.not_eq_false']
    refine and_congr_left ?_
    rintro ⟨e, hentry⟩
    exact hfront hentry

end Cache

theorem Resource.colon_not_mem_name (resource : Resource) : ':' ∉ resource.name.toList := by
  cases resource <;> decide

namespace Run

/-- In every run of the client each key of the cache was made for a read. -/
theorem Reached.filed {r : Run} (h : r.Reached) : r.session.cache.Filed := by
  obtain ⟨config, subject, mint, acts, hc, rfl⟩ := h
  have hempty : (start config subject mint).CacheFetched [] := fun k e h => (by cases h)
  have hfetched := hempty.append rfl hc
  rw [List.nil_append] at hfetched
  intro k e hentry
  obtain ⟨resource, rfl, -⟩ := hfetched k e hentry
  exact ⟨resource.name, _, resource.colon_not_mem_name, _, _, _, rfl, rfl⟩

/-- **Invalidation is exact.**  The front of a resource and a tenant fits the keys of that resource and tenant and no
others.  Where every key of a cache was made for a read, its invalidation drops the reads of that resource by that
tenant, at every store and path, tells their number, and keeps every other entry as it was; and that is what a
completed mutation does to the cache of its session. -/
theorem invalidation_exact :
    (∀ resource resource' : String, ':' ∉ resource.toList → ':' ∉ resource'.toList →
      ∀ (tenant : TenantId) (subject : Subject) (path : String) (query : List (String × String)),
        Text.startsWith (Cache.key resource' subject.scope path query)
          (Cache.resourceFront resource tenant.text) = true ↔
          resource = resource' ∧ subject.tenant = tenant) ∧
    (∀ (c : Cache) (resource : String) (tenant : TenantId), c.Filed → ':' ∉ resource.toList →
      c.Swept resource tenant (c.invalidate (Cache.resourceFront resource tenant.text)).1
        (c.invalidate (Cache.resourceFront resource tenant.text)).2) ∧
    ∀ (r : Run) (a : Action) (m : Mutation) (tenant : TenantId), r.Completes a m tenant → r.session.cache.Filed →
      ∃ dropped, r.session.cache.invalidate (Cache.resourceFront m.resource.name tenant.text) =
          (dropped, (r.step a).session.cache) ∧
        r.session.cache.Swept m.resource.name tenant dropped (r.step a).session.cache := by
  refine ⟨fun resource resource' hr hr' => Cache.startsWith_key_iff hr hr',
    fun c resource tenant hc hr => Cache.swept_invalidate hc hr tenant, fun r a m tenant ha hc => ?_⟩
  have hstep : (r.step a).session.cache =
      (r.session.cache.invalidate (Cache.resourceFront m.resource.name tenant.text)).2 := by
    rw [r.step_cache a, ha.cacheOp?]
    rfl
  rw [hstep]
  exact ⟨_, rfl, Cache.swept_invalidate hc m.resource.colon_not_mem_name tenant⟩

/-- Both listings are in the cache, and a store is to be opened. -/
def bothListed : List Action :=
  [.begin (.list .stores), .answer 0 (.ok (.make 200 "[]")), .begin (.list .users), .answer 1 (.ok (.make 200 "[]")),
    .begin (.createStore ⟨"North", none⟩)]

theorem bothListed_reached : (storeKeeping.after bothListed).Reached :=
  storeKeeping_reached.after (by simp [bothListed, Action.isClient])

/-- When the store has been opened the listing of stores is gone, and that of users is there as it was. -/
theorem opening_sweeps_stores :
    let before := (storeKeeping.after bothListed).session
    let after := ((storeKeeping.after bothListed).step (.answer 2 (.ok (.make 201 "")))).session
    before.cache.entries.contains (Client.listKey before .stores) = true ∧
      after.cache.entries.get? (Client.listKey before .stores) = none ∧
    before.cache.entries.contains (Client.listKey before .users) = true ∧
      after.cache.entries.get? (Client.listKey before .users) =
        before.cache.entries.get? (Client.listKey before .users) := by
  intro before after
  have hcompletes : (storeKeeping.after bothListed).Completes (.answer 2 (.ok (.make 201 "")))
      (Client.storeMutation before ⟨"North", none⟩) ⟨.ofNat 2⟩ := ⟨_, _, _, _, rfl, rfl, rfl, rfl⟩
  obtain ⟨hfits, -, hsweep⟩ := invalidation_exact
  obtain ⟨dropped, -, hswept⟩ := hsweep _ _ _ _ hcompletes bothListed_reached.filed
  refine ⟨by decide +kernel, hswept.gone _ ⟨before.subject, _, _, rfl, rfl⟩, by decide +kernel, hswept.kept _ ?_⟩
  rintro ⟨subject, path, query, htenant, hkey⟩
  -- a key of the users' listing does not begin with the front of the stores
  have hfront := (hfits "stores" "stores" (by decide) (by decide) ⟨.ofNat 2⟩ subject path query).2 ⟨rfl, htenant⟩
  rw [← show Client.listKey before .users = Cache.key "stores" subject.scope path query from hkey] at hfront
  exact absurd ((hfits "stores" "users" (by decide) (by decide) ⟨.ofNat 2⟩ before.subject _ _).1 hfront).1 (by decide)

end Run
end BackOffice
