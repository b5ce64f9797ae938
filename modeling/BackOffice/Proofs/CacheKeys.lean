import BackOffice.Proofs.RoundTrip
import BackOffice.Session.Cache
import BackOffice.Policy.Subject
/-!
# What a cache key tells of its read

A key is put together of the resource, the scope, the path and the query of a read, with a separator after each part and
none of them escaped.  A resource without a colon and a scope, which never has one, are cut off again at the first two
colons, so they can be told from the key (`key_eq_parts`).  Of the rest the key keeps the text alone.  The path and the
pairs of the query, in whatever order, can be told from that text where the separators do not stand in the data
(`key_eq_iff`), and not otherwise (`key_shared_by_two_reads`).
-/
namespace BackOffice

/-! ## Cutting at a separator -/

namespace Text

/-- A text is cut in one way at the first of its separators. -/
theorem cut_first {sep : Char} : ∀ {a a' b b' : List Char}, a ++ sep :: b = a' ++ sep :: b' → sep ∉ a → sep ∉ a' →
    a = a' ∧ b = b'
  | [], [], _, _, h, _, _ => ⟨rfl, (List.cons.inj h).2⟩
  | [], c :: a', _, _, h, _, ha' => absurd (List.mem_cons.2 (.inl (List.cons.inj h).1)) ha'
  | c :: a, [], _, _, h, ha, _ => absurd (List.mem_cons.2 (.inl (List.cons.inj h).1.symm)) ha
  | c :: a, c' :: a', _, _, h, ha, ha' => by
    obtain ⟨rfl, hrest⟩ := List.cons.inj h
    obtain ⟨hfront, hback⟩ := cut_first hrest (fun hmem => ha (List.mem_cons_of_mem _ hmem))
      (fun hmem => ha' (List.mem_cons_of_mem _ hmem))
    exact ⟨congrArg _ hfront, hback⟩

/-- And in one way at the last of them. -/
theorem cut_last {sep : Char} {a a' b b' : List Char} (h : a ++ sep :: b = a' ++ sep :: b') (hb : sep ∉ b)
    (hb' : sep ∉ b') : a = a' ∧ b = b' := by
  have hreverse := congrArg List.reverse h
  simp only [List.reverse_append, List.reverse_cons, List.append_assoc, List.singleton_append] at hreverse
  obtain ⟨hb, ha⟩ := cut_first hreverse (by rwa [List.mem_reverse]) (by rwa [List.mem_reverse])
  exact ⟨List.reverse_inj.1 ha, List.reverse_inj.1 hb⟩

end Text

/-! ## Scopes -/

namespace EntityId

variable {e : Entity}

theorem text_injective {i j : EntityId e} (h : i.text = j.text) : i = j := by
  have hparse : some i.uuid = some j.uuid := by rw [← i.uuid.parse_text, ← j.uuid.parse_text]; exact congrArg _ h
  cases i; cases j
  exact congrArg EntityId.mk (Option.some.inj hparse)

theorem mem_text {i : EntityId e} {c : Char} (h : c ∈ i.text.toList) : c = '-' ∨ ∃ d < 16, c = Text.hexDigit d := by
  have hmem : c ∈ Uuid.hyphenate i.uuid.digits := by
    rwa [show i.text.toList = Uuid.hyphenate i.uuid.digits from String.toList_ofList] at h
  have hdigit : c ∈ i.uuid.digits → ∃ d < 16, c = Text.hexDigit d := Uuid.mem_hexDigits
  simp only [Uuid.hyphenate, List.mem_append, List.mem_cons] at hmem
  rcases hmem with hc | hc | hc | hc | hc | hc | hc | hc | hc
  · exact .inr (hdigit (List.mem_of_mem_take hc))
  · exact .inl hc
  · exact .inr (hdigit (List.mem_of_mem_drop (List.mem_of_mem_take hc)))
  · exact .inl hc
  · exact .inr (hdigit (List.mem_of_mem_drop (List.mem_of_mem_take hc)))
  · exact .inl hc
  · exact .inr (hdigit (List.mem_of_mem_drop (List.mem_of_mem_take hc)))
  · exact .inl hc
  · exact .inr (hdigit (List.mem_of_mem_drop hc))

theorem colon_not_mem_text (i : EntityId e) : ':' ∉ i.text.toList := by
  intro h
  rcases mem_text h with hc | ⟨d, hd, hc⟩
  · exact absurd hc (by decide)
  · exact absurd hc.symm ((by decide : ∀ d < 16, Text.hexDigit d ≠ ':') d hd)

theorem slash_not_mem_text (i : EntityId e) : '/' ∉ i.text.toList := by
  intro h
  rcases mem_text h with hc | ⟨d, hd, hc⟩
  · exact absurd hc (by decide)
  · exact absurd hc.symm ((by decide : ∀ d < 16, Text.hexDigit d ≠ '/') d hd)

end EntityId

theorem Subject.colon_not_mem_scope (s : Subject) : ':' ∉ s.scope.toList := by
  unfold scope
  simp only [String.toList_append, List.mem_append, not_or]
  refine ⟨⟨EntityId.colon_not_mem_text _, by decide⟩, ?_⟩
  cases s.store with
  | none => decide
  | some store => exact EntityId.colon_not_mem_text store

namespace Cache

/-! ## Queries -/

/-- Query pairs as they are written one after the other. -/
def joined (pairs : List (String × String)) : String :=
  String.intercalate "&" (pairs.map (fun p => p.1 ++ "=" ++ p.2))

/-- The separators of a query stand in none of its pairs where they would be read as separators. -/
def Parted (pairs : List (String × String)) : Prop := ∀ p ∈ pairs, '=' ∉ p.1.toList ∧ '&' ∉ p.2.toList

/-- What is written after a value. -/
def afterValue : List (String × String) → List Char
  | []         => []
  | p :: pairs => '&' :: (joined (p :: pairs)).toList

theorem joined_cons (p : String × String) (pairs : List (String × String)) :
    (joined (p :: pairs)).toList = p.1.toList ++ '=' :: (p.2.toList ++ afterValue pairs) := by
  have hequals : "=".toList = ['='] := rfl
  have hand : "&".toList = ['&'] := rfl
  cases pairs with
  | nil => simp [joined, afterValue, String.toList_append, hequals]
  | cons q pairs => simp [joined, afterValue, String.toList_append, String.intercalate_cons_cons, hequals, hand]

/-- A value ends where the next pair begins, or with the text. -/
theorem value_cut {v v' : List Char} {pairs pairs' : List (String × String)}
    (h : v ++ afterValue pairs = v' ++ afterValue pairs') (hv : '&' ∉ v) (hv' : '&' ∉ v') :
    v = v' ∧ joined pairs = joined pairs' := by
  cases pairs with
  | nil =>
    cases pairs' with
    | nil => exact ⟨by simpa [afterValue] using h, rfl⟩
    | cons q' pairs' =>
      refine absurd ?_ hv
      rw [show v = v' ++ _ from (List.append_nil v).symm.trans h]
      exact List.mem_append_right _ List.mem_cons_self
  | cons q pairs =>
    cases pairs' with
    | nil =>
      refine absurd ?_ hv'
      rw [show v' = v ++ _ from (List.append_nil v').symm.trans h.symm]
      exact List.mem_append_right _ List.mem_cons_self
    | cons q' pairs' =>
      obtain ⟨hvalue, hrest⟩ := Text.cut_first h hv hv'
      exact ⟨hvalue, String.toList_injective hrest⟩

theorem joined_cons_ne_nil (p : String × String) (pairs : List (String × String)) :
    joined (p :: pairs) ≠ joined [] := by
  intro h
  have hlist := congrArg String.toList h
  rw [joined_cons] at hlist
  exact absurd hlist (by simp [joined])

/-- **Pairs are told from their text** where no name holds `=` and no value holds `&`. -/
theorem joined_injective : ∀ {pairs pairs' : List (String × String)}, joined pairs = joined pairs' → Parted pairs →
    Parted pairs' → pairs = pairs'
  | [], [], _, _, _ => rfl
  | [], q :: pairs', h, _, _ => absurd h.symm (joined_cons_ne_nil q pairs')
  | p :: pairs, [], h, _, _ => absurd h (joined_cons_ne_nil p pairs)
  | p :: pairs, q :: pairs', h, hp, hp' => by
    obtain ⟨⟨hn, hv⟩, hpairs⟩ := List.forall_mem_cons.1 hp
    obtain ⟨⟨hn', hv'⟩, hpairs'⟩ := List.forall_mem_cons.1 hp'
    have hlist := congrArg String.toList h
    rw [joined_cons, joined_cons] at hlist
    obtain ⟨hname, hlist⟩ := Text.cut_first hlist hn hn'
    obtain ⟨hvalue, hrest⟩ := value_cut hlist hv hv'
    have hpair : p = q := Prod.ext (String.toList_injective hname) (String.toList_injective hvalue)
    rw [hpair, joined_injective hrest hpairs hpairs']

/-! ## The order of a query -/

/-- Query pairs are compared by name, and those of one name by value. -/
abbrev pairCompare : String × String → String × String → Ordering :=
  compareLex (compareOn Prod.fst) (compareOn Prod.snd)

theorem pairLe_eq (a b : String × String) : pairLe a b = (pairCompare a b).isLE := by
  unfold pairLe pairCompare compareLex compareOn
  cases compare a.1 b.1 <;> rfl

theorem pairLe_trans (a b c : String × String) (hab : pairLe a b = true) (hbc : pairLe b c = true) :
    pairLe a c = true := by
  rw [pairLe_eq] at hab hbc ⊢
  exact Std.TransCmp.isLE_trans hab hbc

theorem pairLe_total (a b : String × String) : (pairLe a b || pairLe b a) = true := by
  rw [pairLe_eq, pairLe_eq, @Std.OrientedCmp.eq_swap _ pairCompare _]
  cases pairCompare b a <;> rfl

theorem pairLe_antisymm {a b : String × String} (hab : pairLe a b = true) (hba : pairLe b a = true) : a = b := by
  rw [pairLe_eq] at hab hba
  obtain ⟨hname, hvalue⟩ := compareLex_eq_eq.1 (Std.OrientedCmp.isLE_antisymm hab hba)
  exact Prod.ext (Std.LawfulEqOrd.eq_of_compare hname) (Std.LawfulEqOrd.eq_of_compare hvalue)

/-- **A query is put in one order**, whatever the order it was given in. -/
theorem mergeSort_eq_iff (query query' : List (String × String)) :
    query.mergeSort pairLe = query'.mergeSort pairLe ↔ query.Perm query' := by
  constructor
  · intro h
    exact (List.mergeSort_perm query pairLe).symm.trans (h ▸ List.mergeSort_perm query' pairLe)
  · intro h
    have hperm := (List.mergeSort_perm query pairLe).trans (h.trans (List.mergeSort_perm query' pairLe).symm)
    exact hperm.eq_of_pairwise (fun _ _ _ _ => pairLe_antisymm) (List.pairwise_mergeSort pairLe_trans pairLe_total _)
      (List.pairwise_mergeSort pairLe_trans pairLe_total _)

theorem queryText_eq_of_perm {query query' : List (String × String)} (h : query.Perm query') :
    queryText query = queryText query' := by
  unfold queryText
  rw [(mergeSort_eq_iff query query').2 h]

theorem queryText_eq_iff {query query' : List (String × String)} (h : Parted query) (h' : Parted query') :
    queryText query = queryText query' ↔ query.Perm query' := by
  refine ⟨fun he => (mergeSort_eq_iff _ _).1 (joined_injective he ?_ ?_), queryText_eq_of_perm⟩
  · exact fun p hp => h p (List.mem_mergeSort.1 hp)
  · exact fun p hp => h' p (List.mem_mergeSort.1 hp)

/-! ## Keys -/

/-- What a key keeps of a path and a query. -/
def readText (path : String) (query : List (String × String)) : String := path ++ "?" ++ queryText query

theorem toList_key (resource scope path : String) (query : List (String × String)) :
    (key resource scope path query).toList =
      resource.toList ++ ':' :: (scope.toList ++ ':' :: (readText path query).toList) := by
  have hcolon : ":".toList = [':'] := rfl
  simp [key, readText, String.toList_append, hcolon]

/-- **Resource and scope are told from a key**, and of the rest its text. -/
theorem key_eq_parts {resource resource' scope scope' : String} (hr : ':' ∉ resource.toList)
    (hr' : ':' ∉ resource'.toList) (hs : ':' ∉ scope.toList) (hs' : ':' ∉ scope'.toList) (path path' : String)
    (query query' : List (String × String)) :
    key resource scope path query = key resource' scope' path' query' ↔
      resource = resource' ∧ scope = scope' ∧ readText path query = readText path' query' := by
  constructor
  · intro h
    have hlist := congrArg String.toList h
    rw [toList_key, toList_key] at hlist
    obtain ⟨hresource, hlist⟩ := Text.cut_first hlist hr hr'
    obtain ⟨hscope, hread⟩ := Text.cut_first hlist hs hs'
    exact ⟨String.toList_injective hresource, String.toList_injective hscope, String.toList_injective hread⟩
  · rintro ⟨rfl, rfl, hread⟩
    refine String.toList_injective ?_
    rw [toList_key, toList_key, hread]

/-- The question mark between path and query is the first one of both texts, or the last one of both. -/
def MarkedApart (path path' : String) (query query' : List (String × String)) : Prop :=
  '?' ∉ path.toList ∧ '?' ∉ path'.toList ∨ '?' ∉ (queryText query).toList ∧ '?' ∉ (queryText query').toList

theorem readText_eq_iff {path path' : String} {query query' : List (String × String)}
    (h : MarkedApart path path' query query') :
    readText path query = readText path' query' ↔ path = path' ∧ queryText query = queryText query' := by
  constructor
  · intro he
    have hlist := congrArg String.toList he
    have hmark : "?".toList = ['?'] := rfl
    simp only [readText, String.toList_append, hmark, List.append_assoc, List.singleton_append] at hlist
    have hparts : path.toList = path'.toList ∧ (queryText query).toList = (queryText query').toList := by
      rcases h with ⟨hpath, hpath'⟩ | ⟨hquery, hquery'⟩
      · exact Text.cut_first hlist hpath hpath'
      · exact Text.cut_last hlist hquery hquery'
    exact ⟨String.toList_injective hparts.1, String.toList_injective hparts.2⟩
  · rintro ⟨rfl, hquery⟩
    unfold readText
    rw [hquery]

/-- **What a key tells of its read.**  Two reads of resources without a colon share a key exactly where resource, scope
and the text of path and query are the same.  The order of a query never counts.  And where names hold no `=`, values
no `&`, and the question mark is not mistaken, they share it exactly where resource, scope and path are the same and
the queries hold the same pairs. -/
theorem key_eq_iff {resource resource' : String} (hr : ':' ∉ resource.toList) (hr' : ':' ∉ resource'.toList)
    (s s' : Subject) (path path' : String) (query query' : List (String × String)) :
    (key resource s.scope path query = key resource' s'.scope path' query' ↔
      resource = resource' ∧ s.scope = s'.scope ∧ readText path query = readText path' query') ∧
    (resource = resource' ∧ s.scope = s'.scope ∧ path = path' ∧ query.Perm query' →
      key resource s.scope path query = key resource' s'.scope path' query') ∧
    (Parted query → Parted query' → MarkedApart path path' query query' →
      (key resource s.scope path query = key resource' s'.scope path' query' ↔
        resource = resource' ∧ s.scope = s'.scope ∧ path = path' ∧ query.Perm query')) := by
  have hparts := key_eq_parts hr hr' s.colon_not_mem_scope s'.colon_not_mem_scope path path' query query'
  refine ⟨hparts, ?_, fun hq hq' hmark => ?_⟩
  · rintro ⟨hresource, hscope, rfl, hperm⟩
    exact hparts.2 ⟨hresource, hscope, congrArg (path ++ "?" ++ ·) (queryText_eq_of_perm hperm)⟩
  · rw [hparts, readText_eq_iff hmark, queryText_eq_iff hq hq']

/-- Two pages of users, asked for with the query in either order. -/
theorem pages_told_apart :
    let scope := (Subject.ofUser ⟨.ofNat 1⟩ ⟨.ofNat 2⟩ ⟨"clerk"⟩).scope
    key "users" scope "/users" [("page", "2"), ("active", "true")] =
        key "users" scope "/users" [("active", "true"), ("page", "2")] ∧
      key "users" scope "/users" [("page", "2"), ("active", "true")] ≠
        key "users" scope "/users" [("page", "3"), ("active", "true")] := by
  intro scope
  have hparted : ∀ page ∈ ["2", "3"], Parted [("page", page), ("active", "true")] := by
    unfold Parted
    decide
  obtain ⟨-, hagree, -⟩ := @key_eq_iff "users" "users" (by decide) (by decide) (.ofUser ⟨.ofNat 1⟩ ⟨.ofNat 2⟩ ⟨"clerk"⟩)
    (.ofUser ⟨.ofNat 1⟩ ⟨.ofNat 2⟩ ⟨"clerk"⟩) "/users" "/users" [("page", "2"), ("active", "true")]
    [("active", "true"), ("page", "2")]
  obtain ⟨-, -, htold⟩ := @key_eq_iff "users" "users" (by decide) (by decide) (.ofUser ⟨.ofNat 1⟩ ⟨.ofNat 2⟩ ⟨"clerk"⟩)
    (.ofUser ⟨.ofNat 1⟩ ⟨.ofNat 2⟩ ⟨"clerk"⟩) "/users" "/users" [("page", "2"), ("active", "true")]
    [("page", "3"), ("active", "true")]
  refine ⟨hagree ⟨rfl, rfl, rfl, .swap _ _ _⟩, fun hsame => ?_⟩
  obtain ⟨-, -, -, hperm⟩ := (htold (hparted "2" (by decide)) (hparted "3" (by decide))
    (.inl ⟨by decide, by decide⟩)).1 hsame
  exact absurd (hperm.subset List.mem_cons_self) (by decide)

/-- **Reads that differ may share a key**: a value that holds `&` is taken for two pairs, a name that holds `=` for
another one, and a path that holds `?` for a path with a query. -/
theorem key_shared_by_two_reads :
    let scope := (Subject.ofUser ⟨.ofNat 1⟩ ⟨.ofNat 2⟩ ⟨"clerk"⟩).scope
    key "users" scope "/users" [("name", "a"), ("role", "b")] = key "users" scope "/users" [("name", "a&role=b")] ∧
      ¬ [("name", "a"), ("role", "b")].Perm [("name", "a&role=b")] ∧
    key "users" scope "/users" [("name=a", "b")] = key "users" scope "/users" [("name", "a=b")] ∧
      ¬ [("name=a", "b")].Perm [("name", "a=b")] ∧
    key "users" scope "/users?name=a" [] = key "users" scope "/users" [("name", "a?")] ∧
      "/users?name=a" ≠ "/users" := by
  intro scope
  have hcolon : ':' ∉ scope.toList := Subject.colon_not_mem_scope _
  have hshared : ∀ {path path' : String} {query query' : List (String × String)},
      readText path query = readText path' query' → key "users" scope path query = key "users" scope path' query' :=
    fun h => (key_eq_parts (by decide) (by decide) hcolon hcolon _ _ _ _).2 ⟨rfl, rfl, h⟩
  have hsorted : [("name", "a"), ("role", "b")].mergeSort pairLe = [("name", "a"), ("role", "b")] :=
    List.mergeSort_of_pairwise (by decide)
  have hpairs : readText "/users" [("name", "a"), ("role", "b")] = readText "/users" [("name", "a&role=b")] := by
    unfold readText queryText
    rw [hsorted, List.mergeSort_singleton]
    rfl
  refine ⟨hshared hpairs, by decide, hshared ?_, by decide, hshared ?_, by decide⟩
  · decide +kernel
  · decide +kernel

end Cache
end BackOffice
