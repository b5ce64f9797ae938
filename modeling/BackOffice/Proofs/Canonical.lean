import Mathlib.Data.List.Forall2
import BackOffice.Proofs.Records
/-!
# Values alike

Two values are alike if they differ in nothing but the order in which the members of objects stand (`Json.Alike`), at
whatever depth.  This is what the canonical form leaves of a value, neither more nor less (`Json.canonical_eq_iff`).
-/
namespace BackOffice

/-- Two sorted tables that look up the same are the same. -/
theorem Table.eq_of_lookup {κ ν : Type} [DecidableEq κ] [Ord κ] [Std.TransOrd κ] [Std.LawfulEqOrd κ]
    {l m : List (κ × ν)} (hl : KeysIncreasing l) (hm : KeysIncreasing m) (h : ∀ k, lookup k l = lookup k m) :
    l = m := by
  have hnodup : ∀ {l : List (κ × ν)}, KeysIncreasing l → l.Nodup := fun {l} hl =>
    List.Pairwise.imp (fun {a b} hab he => by subst he; simp at hab) hl
  have hasymm : ∀ a b : κ × ν, compare a.1 b.1 = .lt → compare b.1 a.1 ≠ .lt := fun _ _ h =>
    Std.OrientedCmp.not_lt_of_lt h
  have hperm : l.Perm m := by
    refine (List.perm_ext_iff_of_nodup (hnodup hl) (hnodup hm)).2 fun e => ?_
    exact ⟨fun he => mem_of_lookup ((h e.1).symm.trans (lookup_of_mem hl he)),
      fun he => mem_of_lookup ((h e.1).trans (lookup_of_mem hm he))⟩
  exact hperm.eq_of_pairwise (fun a b _ _ hab hba => absurd hba (hasymm a b hab)) hl hm

theorem Table.lookup_eq_of_perm {κ ν : Type} [DecidableEq κ] (k : κ) {l m : List (κ × ν)}
    (hkeys : (l.map Prod.fst).Nodup) (h : l.Perm m) : lookup k l = lookup k m := by
  induction h with
  | nil => rfl
  | cons e _ ih =>
    obtain ⟨-, hrest⟩ := List.nodup_cons.1 hkeys
    rw [lookup, lookup, ih hrest]
  | swap a b l =>
    obtain ⟨hb, -⟩ := List.nodup_cons.1 hkeys
    have hne : b.1 ≠ a.1 := fun he => hb (he ▸ List.mem_cons_self)
    simp only [lookup]
    by_cases hka : a.1 = k
    · have hkb : b.1 ≠ k := fun hkb => hne (hkb.trans hka.symm)
      simp [hka, hkb]
    · simp [hka]
  | trans hlm _ ih ih' => exact (ih hkeys).trans (ih' ((hlm.map Prod.fst).nodup_iff.1 hkeys))

namespace Json

/-! ## The same but for the order of members -/

/-- The same value, but for the order in which the members of objects stand; of members with one name the last
counts. -/
inductive Alike : Json → Json → Prop
  | null : Alike .null .null
  | bool (b : Bool) : Alike (.bool b) (.bool b)
  | number (n : Number) : Alike (.number n) (.number n)
  | string (s : String) : Alike (.string s) (.string s)
  | array {vs ws : List Json} (h : List.Forall₂ Alike vs ws) : Alike (.array vs) (.array ws)
  | object {ms ns : List (String × Json)}
      (h : ∀ name, Option.Rel Alike (Table.lookup name ms.reverse) (Table.lookup name ns.reverse)) :
      Alike (.object ms) (.object ns)

theorem canonicalItems_eq_map : ∀ vs : List Json, canonicalItems vs = vs.map canonical
  | [] => rfl
  | v :: vs => congrArg (canonical v :: ·) (canonicalItems_eq_map vs)

theorem canonicalMembers_eq_map : ∀ ms : List (String × Json),
    canonicalMembers ms = ms.map (fun m => (m.1, m.2.canonical))
  | [] => rfl
  | m :: ms => congrArg ((m.1, m.2.canonical) :: ·) (canonicalMembers_eq_map ms)

theorem canonical_array (vs : List Json) : (Json.array vs).canonical = .array (vs.map canonical) := by
  rw [canonical, canonicalItems_eq_map]

theorem canonical_object (ms : List (String × Json)) :
    (Json.object ms).canonical = record (ms.map (fun m => (m.1, m.2.canonical))) := by
  rw [canonical, canonicalMembers_eq_map, record]

/-- Records are the same exactly where they have the same under each name. -/
theorem record_inj_iff (ms ns : List (String × Json)) :
    record ms = record ns ↔ ∀ name, Table.lookup name ms.reverse = Table.lookup name ns.reverse := by
  constructor
  · intro h name
    rw [← member?_record, h, member?_record]
  · intro h
    have hlookup : ∀ (ms : List (String × Json)) name,
        Table.lookup name (ms.foldl (fun l m => putSorted m.1 m.2 l) []) = Table.lookup name ms.reverse :=
      fun ms name => member?_record name ms
    refine congrArg Json.object (Table.eq_of_lookup (increasing_foldl_putSorted ms List.Pairwise.nil)
      (increasing_foldl_putSorted ns List.Pairwise.nil) fun name => ?_)
    rw [hlookup, hlookup, h name]

theorem lookup_map_canonical (name : String) (ms : List (String × Json)) :
    Table.lookup name (ms.map (fun m => (m.1, m.2.canonical))).reverse =
      (Table.lookup name ms.reverse).map canonical := by
  rw [← List.map_reverse]
  exact Table.lookup_map (fun _ v => canonical v) name ms.reverse

theorem map_eq_iff_forall₂ {α β : Type} {f : α → β} {R : α → α → Prop} : ∀ {vs ws : List α},
    (∀ v ∈ vs, ∀ w, f v = f w ↔ R v w) → (vs.map f = ws.map f ↔ List.Forall₂ R vs ws)
  | [], [], _ => by simp
  | [], _ :: _, _ => by simp
  | _ :: _, [], _ => by simp
  | v :: vs, w :: ws, h => by
    obtain ⟨hv, hvs⟩ := List.forall_mem_cons.1 h
    rw [List.map_cons, List.map_cons, List.cons.injEq, List.forall₂_cons, hv w, map_eq_iff_forall₂ hvs]

theorem map_eq_iff_rel {α β : Type} {f : α → β} {R : α → α → Prop} {x y : Option α}
    (h : ∀ v ∈ x, ∀ w, f v = f w ↔ R v w) : x.map f = y.map f ↔ Option.Rel R x y := by
  cases x with
  | none => cases y <;> simp
  | some v =>
    cases y with
    | none => simp
    | some w => simpa using h v rfl w

mutual
/-- **The canonical form tells apart what is not alike, and nothing else.** -/
theorem canonical_eq_iff : ∀ a b : Json, a.canonical = b.canonical ↔ a.Alike b
  | .null, b => by
    cases b with
    | null => exact iff_of_true rfl .null
    | _ => exact iff_of_false (by simp [canonical]) nofun
  | .bool v, b => by
    cases b with
    | bool w =>
      rw [canonical, canonical, Json.bool.injEq]
      exact ⟨fun h => h ▸ .bool v, fun h => by cases h; rfl⟩
    | _ => exact iff_of_false (by simp [canonical]) nofun
  | .number m, b => by
    cases b with
    | number n =>
      rw [canonical, canonical, Json.number.injEq]
      exact ⟨fun h => h ▸ .number m, fun h => by cases h; rfl⟩
    | _ => exact iff_of_false (by simp [canonical]) nofun
  | .string s, b => by
    cases b with
    | string t =>
      rw [canonical, canonical, Json.string.injEq]
      exact ⟨fun h => h ▸ .string s, fun h => by cases h; rfl⟩
    | _ => exact iff_of_false (by simp [canonical]) nofun
  | .array vs, b => by
    cases b with
    | array ws =>
      rw [canonical_array, canonical_array, Json.array.injEq, map_eq_iff_forall₂ (items_canonical_eq_iff vs)]
      refine ⟨.array, fun h => ?_⟩
      cases h with
      | array h => exact h
    | _ => exact iff_of_false (by simp [canonical]) nofun
  | .object ms, b => by
    cases b with
    | object ns =>
      rw [canonical_object, canonical_object, record_inj_iff]
      have hrel : ∀ name, (Table.lookup name ms.reverse).map canonical = (Table.lookup name ns.reverse).map canonical ↔
          Option.Rel Alike (Table.lookup name ms.reverse) (Table.lookup name ns.reverse) := fun name =>
        map_eq_iff_rel fun v hv =>
          members_canonical_eq_iff ms (name, v) (List.mem_reverse.1 (Table.mem_of_lookup hv))
      simp only [lookup_map_canonical, hrel]
      refine ⟨.object, fun h => ?_⟩
      cases h with
      | object h => exact h
    | _ => exact iff_of_false (by simp [canonical]) nofun

theorem items_canonical_eq_iff : ∀ vs : List Json, ∀ v ∈ vs, ∀ b : Json, v.canonical = b.canonical ↔ v.Alike b
  | v :: vs, w, hw, b => by
    rcases List.mem_cons.1 hw with heq | hw
    · rw [heq]
      exact canonical_eq_iff v b
    · exact items_canonical_eq_iff vs w hw b

theorem members_canonical_eq_iff : ∀ ms : List (String × Json), ∀ m ∈ ms, ∀ b : Json,
    m.2.canonical = b.canonical ↔ m.2.Alike b
  | (k, v) :: ms, m, hm, b => by
    rcases List.mem_cons.1 hm with heq | hm
    · rw [heq]
      exact canonical_eq_iff v b
    · exact members_canonical_eq_iff ms m hm b
end

/-! ## The order of members -/

theorem alike_refl (j : Json) : j.Alike j := (canonical_eq_iff j j).1 rfl

/-- **Members of an object whose names are distinct can stand in any order.** -/
theorem alike_of_perm {ms ns : List (String × Json)} (hnames : (ms.map Prod.fst).Nodup) (h : ms.Perm ns) :
    (Json.object ms).Alike (.object ns) := by
  refine .object fun name => ?_
  have hreverse : (ms.reverse.map Prod.fst).Nodup := ((List.reverse_perm ms).map Prod.fst).nodup_iff.2 hnames
  rw [Table.lookup_eq_of_perm name hreverse ((List.reverse_perm ms).trans (h.trans (List.reverse_perm ns).symm))]
  cases Table.lookup name ns.reverse with
  | none => exact .none
  | some v => exact .some (alike_refl v)

/-! ## Numbers -/

open Written (ofJson ofItems ofMembers itemNumbers memberNumbers)

theorem mem_memberNumbers_of_mem {n : Number} {m : String × Json} : ∀ {ms : List (String × Json)}, m ∈ ms →
    n ∈ (ofJson m.2).numbers → n ∈ memberNumbers (ofMembers ms)
  | e :: ms, hm, hn => by
    refine List.mem_append.2 ?_
    rcases List.mem_cons.1 hm with rfl | hm
    · exact .inl hn
    · exact .inr (mem_memberNumbers_of_mem hm hn)

mutual
/-- **The canonical form has no numbers of its own.** -/
theorem numbers_canonical : ∀ j : Json, (ofJson j.canonical).numbers ⊆ (ofJson j).numbers
  | .null => List.Subset.refl _
  | .bool _ => List.Subset.refl _
  | .number _ => List.Subset.refl _
  | .string _ => List.Subset.refl _
  | .array vs => itemNumbers_canonicalItems vs
  | .object ms => fun n hn => by
    obtain ⟨m, hm, hn⟩ := Written.mem_memberNumbers hn
    have hmem : m ∈ canonicalMembers ms := (mem_foldl_putSorted (canonicalMembers ms) hm).resolve_right nofun
    exact memberNumbers_canonicalMembers ms (mem_memberNumbers_of_mem hmem hn)

theorem itemNumbers_canonicalItems : ∀ vs : List Json,
    itemNumbers (ofItems (canonicalItems vs)) ⊆ itemNumbers (ofItems vs)
  | [] => List.Subset.refl _
  | v :: vs => fun _ hn => List.mem_append.2 ((List.mem_append.1 hn).imp (@numbers_canonical v _)
    (@itemNumbers_canonicalItems vs _))

theorem memberNumbers_canonicalMembers : ∀ ms : List (String × Json),
    memberNumbers (ofMembers (canonicalMembers ms)) ⊆ memberNumbers (ofMembers ms)
  | [] => List.Subset.refl _
  | (_, v) :: ms => fun _ hn => List.mem_append.2 ((List.mem_append.1 hn).imp (@numbers_canonical v _)
    (@memberNumbers_canonicalMembers ms _))
end

end Json
end BackOffice
