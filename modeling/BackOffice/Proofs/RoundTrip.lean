import BackOffice.Proofs.Records
import BackOffice.Proofs.Instants
import BackOffice.Wire.Store
import BackOffice.Wire.User
import BackOffice.Wire.PermissionReport
import BackOffice.Failure.ApiError
import BackOffice.Config.Settings
import BackOffice.Session.Issuer
/-!
# What goes over the wire comes back

A text that decodes to a value gives it in one of several forms: by the names of its fields in any order, by position,
with fields left out, with members that nobody knows, with sets in disorder.  What is written for the value is one text,
and it decodes to the same value (`WireType.decode_written`).  Settings alone lose something on the way, their token.
The two halves meet at what makes a value well formed: all that is decoded is well formed, and every well-formed value is
decoded from what is written for it (`WireType.decode_of_wellFormed`).  Of most types all values are.  Each type is shown
on its own to read back within the levels that its values may take up, from the types of its fields; the texts come in at
the end only.
-/
namespace BackOffice

open Decoder

/-! ## Identifiers -/

namespace Uuid

theorem mem_hexDigits {c : Char} : ∀ {width n : Nat}, c ∈ Text.hexDigits width n → ∃ d < 16, c = Text.hexDigit d
  | 0, _, h => by cases h
  | width + 1, n, h => by
    rcases List.mem_append.1 h with h | h
    · exact mem_hexDigits h
    · exact ⟨n % 16, Nat.mod_lt _ (by decide), List.mem_singleton.1 h⟩

theorem hexDigit_other : ∀ d < 16, Text.hexDigit d ≠ '-' ∧ Text.hexDigit d ≠ '\x7b' ∧
    Text.lowerChar (Text.hexDigit d) ≠ 'u' := by decide

theorem take_append_drop_drop (ds : List Char) (m n : Nat) : (ds.drop m).take n ++ ds.drop (m + n) = ds.drop m := by
  rw [← List.drop_drop, List.take_append_drop]

theorem filter_hyphenate {ds : List Char} (h : ∀ c ∈ ds, c ≠ '-') : (hyphenate ds).filter (fun c => c != '-') = ds := by
  have hself : ∀ {cs : List Char}, (∀ c ∈ cs, c ∈ ds) → cs.filter (fun c => c != '-') = cs := fun hcs =>
    List.filter_eq_self.2 fun c hc => by simpa using h c (hcs c hc)
  have htake : ∀ n, ∀ c ∈ (ds.drop n).take 4, c ∈ ds := fun n c hc => List.mem_of_mem_drop (List.mem_of_mem_take hc)
  simp only [hyphenate, List.filter_append, List.filter_cons, bne_self_eq_false, Bool.false_eq_true, if_false]
  rw [hself (fun c => List.mem_of_mem_take), hself (htake 8), hself (htake 12), hself (htake 16),
    hself (fun c => List.mem_of_mem_drop), take_append_drop_drop ds 16, take_append_drop_drop ds 12,
    take_append_drop_drop ds 8, List.take_append_drop]

/-- **A UUID is read from its hyphenated form.** -/
theorem parse_text (u : Uuid) : parse u.text = some u := by
  have hdigit : ∀ c ∈ u.digits, c ≠ '-' ∧ c ≠ '\x7b' ∧ Text.lowerChar c ≠ 'u' := fun c hc => by
    obtain ⟨d, hd, rfl⟩ := mem_hexDigits hc
    exact hexDigit_other d hd
  have hfilter := filter_hyphenate fun c hc => (hdigit c hc).1
  have hlength : (hyphenate u.digits).length = 36 := by simp [hyphenate, u.length_digits]
  have hread : ofHyphenated (hyphenate u.digits) = some u := by
    unfold ofHyphenated
    simp only [hfilter, u.length_digits, and_self, if_true, ofDigits_digits]
  obtain ⟨c, cs, hcs, hc⟩ : ∃ c cs, hyphenate u.digits = c :: cs ∧ c ∈ u.digits := by
    cases hdigits : u.digits with
    | nil => exact absurd u.length_digits (by rw [hdigits]; decide)
    | cons c cs => exact ⟨c, _, rfl, List.mem_cons_self⟩
  obtain ⟨-, hbrace, hurn⟩ := hdigit c hc
  have hfront : (((hyphenate u.digits).take 9).map Text.lowerChar).head? ≠ some 'u' := by
    rw [hcs]; simpa using hurn
  unfold parse
  rw [show u.text.toList = hyphenate u.digits from String.toList_ofList]
  simp only [hlength]
  split
  · rename_i rest he
    rw [hcs] at he
    exact absurd (List.cons.inj he).1 hbrace
  · rw [if_neg (by decide), if_neg, hread]
    intro he
    rw [he] at hfront
    exact hfront rfl

end Uuid

/-! ## Plain values -/

theorem EntityId.readsAll {e : Entity} : (decoder : Decoder (EntityId e)).ReadsAll toJson 0 := by
  intro room _ i
  have hread : (Uuid.parse i.text).map EntityId.mk = some i := by
    unfold text
    rw [i.uuid.parse_text]
    rfl
  exact @readsBack_filterMap _ (fun s => (Uuid.parse s).map EntityId.mk) text i hread room

theorem Timestamp.readsBack {t : Timestamp} (h : t.WellFormed) (room : Nat) : decoder.ReadsBack toJson room t :=
  readsBack_filterMap h.parse_text room

theorem Timestamp.gives : decoder.Gives fun _ t => t.WellFormed := by
  intro room w t _ h
  obtain ⟨s, -, hs⟩ := Option.bind_eq_some_iff.1 h
  exact wellFormed_of_parse hs

theorem PermissionKey.readsAll : decoder.ReadsAll toJson 0 := readsAll_string.map _ fun _ => rfl

theorem KeySet.readsAll : decoder.ReadsAll toJson 1 := PermissionKey.readsAll.sortedSet

theorem Role.readsAll : decoder.ReadsAll toJson 0 := readsAll_string.map _ fun _ => rfl

theorem LayerKind.readsAll : decoder.ReadsAll toJson 0 := readsAll_oneOf fun k => by cases k <;> rfl

theorem Effect.readsAll : decoder.ReadsAll toJson 0 := readsAll_oneOf fun e => by cases e <;> rfl

theorem AttemptState.readsAll : decoder.ReadsAll toJson 0 := readsAll_oneOf fun s => by cases s <;> rfl

theorem Category.readsAll : decoder.ReadsAll toJson 0 := readsAll_oneOf fun c => by cases c <;> rfl

theorem string_optional_readsAll : Decoder.string.nullable.ReadsAll (Json.optional .string) 0 :=
  readsAll_string.nullable nofun

theorem EntityId.optional_readsAll {e : Entity} :
    (decoder : Decoder (EntityId e)).nullable.ReadsAll (Json.optional toJson) 0 := readsAll.nullable nofun

/-! ## Records of which all values are well formed -/

theorem Subject.readsAll : decoder.ReadsAll toJson 1 := by
  refine readsAll_record fun room s hroom => ?_
  have huser := EntityId.readsAll hroom s.user
  have htenant := EntityId.readsAll hroom s.tenant
  have hstore := EntityId.optional_readsAll hroom s.store
  have hrole := Role.readsAll hroom s.role
  constructor
  · simp [Table.lookup, Table.lookup_append, lookup_leftOut, huser.required, htenant.required, hstore.leftOut,
      hrole.required]
  · simp only [List.forall_mem_append, List.forall_mem_cons]
    exact ⟨⟨huser.inRange, htenant.inRange, hrole.inRange, List.forall_mem_nil _⟩, hstore.inRange_leftOut _⟩

theorem Contribution.readsAll : decoder.ReadsAll toJson 1 := by
  refine readsAll_record fun room c hroom => ?_
  have hlayer := LayerKind.readsAll hroom c.layer
  have heffect := Effect.readsAll hroom c.effect
  constructor
  · simp [Table.lookup, hlayer.required, heffect.required]
  · simp only [List.forall_mem_cons]
    exact ⟨hlayer.inRange, heffect.inRange, List.forall_mem_nil _⟩

theorem Decision.readsAll : decoder.ReadsAll toJson 3 := by
  refine readsAll_record fun room d hroom => ?_
  have hkey := (PermissionKey.readsAll.mono (Nat.zero_le 2)) hroom d.key
  have hfinal := (Effect.readsAll.mono (Nat.zero_le 2)) hroom d.final
  have htrail := Contribution.readsAll.list hroom d.trail
  have hsources := (LayerKind.readsAll.sortedSet.mono (Nat.le_succ 1)) hroom d.denySources
  constructor
  · simp [Table.lookup, hkey.required, hfinal.required, htrail.required, hsources.required]
  · simp only [List.forall_mem_cons]
    exact ⟨hkey.inRange, hfinal.inRange, htrail.inRange, hsources.inRange, List.forall_mem_nil _⟩

theorem PolicyLayer.readsAll : decoder.ReadsAll toJson 2 := by
  refine readsAll_record fun room l hroom => ?_
  have hallow := KeySet.readsAll hroom l.allow
  have hdeny := KeySet.readsAll hroom l.deny
  constructor
  · simp [Table.lookup, hallow.withDefault, hdeny.withDefault]
  · simp only [List.forall_mem_cons]
    exact ⟨hallow.inRange, hdeny.inRange, List.forall_mem_nil _⟩

theorem PolicyLayers.readsAll : decoder.ReadsAll toJson 3 := by
  refine readsAll_record fun room l hroom => ?_
  have htemplate := PolicyLayer.readsAll hroom l.template
  have htenant := PolicyLayer.readsAll hroom l.tenant
  have hstore := PolicyLayer.readsAll hroom l.store
  have huser := PolicyLayer.readsAll hroom l.user
  constructor
  · simp [LayerKind.all, LayerKind.name, get, Table.lookup, htemplate.withDefault, htenant.withDefault,
      hstore.withDefault, huser.withDefault]
  · simp only [LayerKind.all, List.map_cons, List.map_nil, List.forall_mem_cons]
    exact ⟨htemplate.inRange, htenant.inRange, hstore.inRange, huser.inRange, List.forall_mem_nil _⟩

theorem PermissionEntry.readsAll : decoder.ReadsAll toJson 1 := by
  refine readsAll_record fun room e hroom => ?_
  have hkey := PermissionKey.readsAll hroom e.key
  have hallowed := readsAll_bool hroom e.allowed
  have hsource := string_optional_readsAll hroom e.source
  constructor
  · simp [Table.lookup, hkey.required, hallowed.required, hsource.optional]
  · simp only [List.forall_mem_cons]
    exact ⟨hkey.inRange, hallowed.inRange, hsource.inRange, List.forall_mem_nil _⟩

theorem NewStore.readsAll : decoder.ReadsAll toJson 1 := by
  refine readsAll_record fun room s hroom => ?_
  have hname := readsAll_string hroom s.name
  have hcode := string_optional_readsAll hroom s.code
  constructor
  · simp [Table.lookup, Table.lookup_append, lookup_leftOut, hname.required, hcode.leftOut]
  · simp only [List.forall_mem_append, List.forall_mem_cons]
    exact ⟨⟨hname.inRange, List.forall_mem_nil _⟩, hcode.inRange_leftOut _⟩

theorem User.readsAll : decoder.ReadsAll toJson 1 := by
  refine readsAll_record fun room u hroom => ?_
  have hid := EntityId.readsAll hroom u.id
  have htenant := EntityId.readsAll hroom u.tenant
  have hemail := readsAll_string hroom u.email
  have hname := string_optional_readsAll hroom u.displayName
  have hrole := Role.readsAll hroom u.role
  have hstore := EntityId.optional_readsAll hroom u.store
  constructor
  · simp [Table.lookup, hid.required, htenant.required, hemail.required, hname.optional, hrole.required,
      hstore.optional]
  · simp only [List.forall_mem_cons]
    exact ⟨hid.inRange, htenant.inRange, hemail.inRange, hname.inRange, hrole.inRange, hstore.inRange,
      List.forall_mem_nil _⟩

theorem NewUser.readsAll : decoder.ReadsAll toJson 1 := by
  refine readsAll_record fun room u hroom => ?_
  have hemail := readsAll_string hroom u.email
  have hname := string_optional_readsAll hroom u.displayName
  have hrole := Role.readsAll hroom u.role
  have hstore := EntityId.optional_readsAll hroom u.store
  constructor
  · simp [Table.lookup, Table.lookup_append, lookup_leftOut, hemail.required, hname.leftOut, hrole.required,
      hstore.leftOut]
  · simp only [List.forall_mem_append, List.forall_mem_cons]
    exact ⟨⟨⟨hemail.inRange, hrole.inRange, List.forall_mem_nil _⟩, hname.inRange_leftOut _⟩, hstore.inRange_leftOut _⟩

/-! ## Stores -/

namespace Store

/-- The time of a store is one that can be written. -/
def WellFormed (s : Store) : Prop := ∀ t, s.createdAt = some t → t.WellFormed

theorem gives : decoder.Gives fun _ s => s.WellFormed := by
  intro room w s hin hd
  obtain ⟨f, hf, h⟩ := Option.bind_eq_some_iff.1 hd
  obtain ⟨-, hin⟩ := fields_eq_some hf hin
  simp only [Option.bind_eq_bind, Option.bind_eq_some_iff] at h
  obtain ⟨id, hid, tenant, htenant, name, hname, code, hcode, createdAt, hcreatedAt, h⟩ := h
  cases h
  exact Timestamp.gives.nullable.optional hin nofun hcreatedAt

theorem readsBack {s : Store} (h : s.WellFormed) (room : Nat) : decoder.ReadsBack toJson (room + 1) s := by
  have hid := EntityId.readsAll (Nat.zero_le room) s.id
  have htenant := EntityId.readsAll (Nat.zero_le room) s.tenant
  have hname := readsAll_string (Nat.zero_le room) s.name
  have hcode := string_optional_readsAll (Nat.zero_le room) s.code
  have hcreatedAt : Timestamp.decoder.nullable.ReadsBack (Json.optional Timestamp.toJson) room s.createdAt :=
    ReadsBack.nullable fun t ht => ⟨nofun, Timestamp.readsBack (h t ht) room⟩
  refine record_readsBack ?_ ?_
  · simp [Table.lookup, hid.required, htenant.required, hname.required, hcode.optional, hcreatedAt.optional]
  · simp only [List.forall_mem_cons]
    exact ⟨hid.inRange, htenant.inRange, hname.inRange, hcode.inRange, hcreatedAt.inRange, List.forall_mem_nil _⟩

end Store

/-! ## Envelopes of errors -/

namespace ErrorEnvelope

/-- The details, if there are any, can be written within so many levels, and told from none. -/
def WellFormed (levels : Nat) (e : ErrorEnvelope) : Prop :=
  ∀ j, e.details = some j → j ≠ .null ∧ Decoder.json.ReadsBack (fun j => j) levels j

theorem gives : decoder.Gives fun room e => ∀ levels, room = levels + 1 → e.WellFormed levels := by
  refine gives_record fun f e hin h => ?_
  simp only [Option.bind_eq_bind, Option.bind_eq_some_iff] at h
  obtain ⟨code, hcode, message, hmessage, details, hdetails, trace, htrace, h⟩ := h
  cases h
  exact gives_json_nullable.optional hin nofun hdetails

theorem readsBack {levels : Nat} {e : ErrorEnvelope} (h : e.WellFormed levels) :
    decoder.ReadsBack toJson (levels + 1) e := by
  have hcode := readsAll_string (Nat.zero_le levels) e.code
  have hmessage := readsAll_string (Nat.zero_le levels) e.message
  have hdetails : Decoder.json.nullable.ReadsBack (Json.optional fun j => j) levels e.details := ReadsBack.nullable h
  have htrace := string_optional_readsAll (Nat.zero_le levels) e.traceId
  have hgiven : ∀ name, Table.lookup name (e.details.map (fun d => ("details", d))).toList.reverse =
      if "details" = name then e.details else none := fun name => by
    simpa using lookup_leftOut (g := fun j => j) "details" e.details
  refine record_readsBack ?_ ?_
  · simp [Table.lookup, Table.lookup_append, lookup_leftOut, hgiven, hcode.required, hmessage.required,
      hdetails.leftOut, htrace.leftOut]
  · simp only [List.forall_mem_append, List.forall_mem_cons]
    exact ⟨⟨⟨hcode.inRange, hmessage.inRange, List.forall_mem_nil _⟩, hdetails.inRange_leftOut _⟩,
      htrace.inRange_leftOut _⟩

end ErrorEnvelope

/-! ## Reports on permissions -/

namespace PermissionReport

/-- What the report holds of any form can be written within so many levels. -/
structure WellFormed (levels : Nat) (r : PermissionReport) : Prop where
  subject : Decoder.json.ReadsBack (fun j => j) levels r.subject
  denies  : ∀ j ∈ r.denies, ∃ inner, levels = inner + 1 ∧ Decoder.json.ReadsBack (fun j => j) inner j

theorem gives : decoder.Gives fun room r => ∀ levels, room = levels + 1 → r.WellFormed levels := by
  refine gives_record fun f r hin h => ?_
  simp only [Option.bind_eq_bind, Option.bind_eq_some_iff] at h
  obtain ⟨subject, hsubject, entries, hentries, denies, hdenies, layers, hlayers, trace, htrace, h⟩ := h
  cases h
  have hnull : Decoder.json.ReadsBack (fun j => j) f.room .null := ⟨rfl, List.forall_mem_nil _⟩
  exact ⟨gives_json.withDefault hin hnull hsubject, gives_json.list.withDefault hin (List.forall_mem_nil _) hdenies⟩

theorem readsBack {levels : Nat} (hlevels : 3 ≤ levels) {r : PermissionReport} (h : r.WellFormed levels) :
    decoder.ReadsBack toJson (levels + 1) r := by
  obtain ⟨inner, rfl⟩ : ∃ inner, levels = inner + 1 := ⟨levels - 1, by omega⟩
  have hsubject := h.subject
  have hentries := (PermissionEntry.readsAll.list.mono (Nat.le_succ 2)) hlevels r.entries
  have hdenies : Decoder.json.list.ReadsBack (fun l => .array (l.map fun j => j)) (inner + 1) r.denies :=
    list_readsBack fun j hj => by
      obtain ⟨inner', hinner, hback⟩ := h.denies j hj
      cases hinner
      exact hback
  have hlayers := PolicyLayers.readsAll hlevels r.layers
  have htrace := (string_optional_readsAll.mono (Nat.zero_le 3)) hlevels r.traceId
  refine record_readsBack ?_ ?_
  · simp [Table.lookup, hsubject.withDefault, hentries.withDefault, hdenies.withDefault, hlayers.withDefault,
      htrace.optional]
  · simp only [List.forall_mem_cons]
    exact ⟨hsubject.inRange, hentries.inRange, by simpa using hdenies.inRange, hlayers.inRange, htrace.inRange,
      List.forall_mem_nil _⟩

end PermissionReport

/-! ## Settings -/

namespace Config

/-- The numbers of the settings lie within their limits. -/
structure WellFormed (c : Config) : Prop where
  timeoutSecs  : c.timeoutSecs ≤ limit64
  maxAttempts  : c.maxAttempts ≤ limit32
  backoffMs    : c.backoffMs ≤ limit64
  cacheTtlSecs : c.cacheTtlSecs ≤ limit64

theorem gives : decoder.Gives fun _ c => c.WellFormed := by
  intro room w c hin hd
  obtain ⟨f, hf, h⟩ := Option.bind_eq_some_iff.1 hd
  obtain ⟨-, hin⟩ := fields_eq_some hf hin
  simp only [Option.bind_eq_bind, Option.bind_eq_some_iff] at h
  obtain ⟨url, hurl, timeout, htimeout, attempts, hattempts, pause, hpause, tls, htls, ttl, httl, token, -, h⟩ := h
  cases h
  exact ⟨(gives_natUpTo _).withDefault hin (by decide) htimeout, (gives_natUpTo _).withDefault hin (by decide) hattempts,
    (gives_natUpTo _).withDefault hin (by decide) hpause, (gives_natUpTo _).withDefault hin (by decide) httl⟩

/-- Settings come back without the token. -/
theorem without_token {c : Config} (h : c.WellFormed) (room : Nat) :
    decoder (room + 1) (.ofJson c.toJson) = some { c with token := none } ∧ (Written.ofJson c.toJson).InRange := by
  have hurl := readsAll_string (Nat.zero_le room) c.baseUrl
  have htimeout := readsBack_natUpTo (by decide) h.timeoutSecs room
  have hattempts := readsBack_natUpTo (by decide) h.maxAttempts room
  have hpause := readsBack_natUpTo (by decide) h.backoffMs room
  have htls := readsAll_bool (Nat.zero_le room) c.verifyTls
  have httl := readsBack_natUpTo (by decide) h.cacheTtlSecs room
  -- the token is not among what is written, and a token that is not given is none
  have htoken := string_optional_readsAll (Nat.zero_le room) none
  constructor
  · show (fields _ (room + 1) (.ofJson (Json.record _))).bind _ = _
    rw [fields_record]
    simp [Table.lookup, hurl.withDefault, htimeout.withDefault, hattempts.withDefault, hpause.withDefault,
      htls.withDefault, httl.withDefault, htoken.leftOut]
  · refine Written.inRange_record ?_
    simp only [List.forall_mem_cons]
    exact ⟨hurl.inRange, htimeout.inRange, hattempts.inRange, hpause.inRange, htls.inRange, httl.inRange,
      List.forall_mem_nil _⟩

end Config

/-! ## All of them -/

/-- The types of the values that are exchanged with the server or kept as settings. -/
inductive WireType where
  | id (e : Entity)
  | permissionKey
  | role
  | subject
  | layerKind
  | effect
  | contribution
  | decision
  | policyLayer
  | policyLayers
  | attemptState
  | category
  | errorEnvelope
  | permissionEntry
  | permissionReport
  | store
  | user
  | newStore
  | newUser
  | config

namespace WireType

def Value : WireType → Type
  | .id e             => EntityId e
  | .permissionKey    => PermissionKey
  | .role             => Role
  | .subject          => Subject
  | .layerKind        => LayerKind
  | .effect           => Effect
  | .contribution     => Contribution
  | .decision         => Decision
  | .policyLayer      => PolicyLayer
  | .policyLayers     => PolicyLayers
  | .attemptState     => AttemptState
  | .category         => Category
  | .errorEnvelope    => ErrorEnvelope
  | .permissionEntry  => PermissionEntry
  | .permissionReport => PermissionReport
  | .store            => Store
  | .user             => User
  | .newStore         => NewStore
  | .newUser          => NewUser
  | .config           => Config

def decoder : (t : WireType) → Decoder t.Value
  | .id _             => EntityId.decoder
  | .permissionKey    => PermissionKey.decoder
  | .role             => Role.decoder
  | .subject          => Subject.decoder
  | .layerKind        => LayerKind.decoder
  | .effect           => Effect.decoder
  | .contribution     => Contribution.decoder
  | .decision         => Decision.decoder
  | .policyLayer      => PolicyLayer.decoder
  | .policyLayers     => PolicyLayers.decoder
  | .attemptState     => AttemptState.decoder
  | .category         => Category.decoder
  | .errorEnvelope    => ErrorEnvelope.decoder
  | .permissionEntry  => PermissionEntry.decoder
  | .permissionReport => PermissionReport.decoder
  | .store            => Store.decoder
  | .user             => User.decoder
  | .newStore         => NewStore.decoder
  | .newUser          => NewUser.decoder
  | .config           => Config.decoder

def toJson : (t : WireType) → t.Value → Json
  | .id _             => EntityId.toJson
  | .permissionKey    => PermissionKey.toJson
  | .role             => Role.toJson
  | .subject          => Subject.toJson
  | .layerKind        => LayerKind.toJson
  | .effect           => Effect.toJson
  | .contribution     => Contribution.toJson
  | .decision         => Decision.toJson
  | .policyLayer      => PolicyLayer.toJson
  | .policyLayers     => PolicyLayers.toJson
  | .attemptState     => AttemptState.toJson
  | .category         => Category.toJson
  | .errorEnvelope    => ErrorEnvelope.toJson
  | .permissionEntry  => PermissionEntry.toJson
  | .permissionReport => PermissionReport.toJson
  | .store            => Store.toJson
  | .user             => User.toJson
  | .newStore         => NewStore.toJson
  | .newUser          => NewUser.toJson
  | .config           => Config.toJson

/-- What is written of a value: all of it, except that settings go without the token. -/
def written : (t : WireType) → t.Value → t.Value
  | .config, c => { c with token := none }
  | .id _, v | .permissionKey, v | .role, v | .subject, v | .layerKind, v | .effect, v | .contribution, v
  | .decision, v | .policyLayer, v | .policyLayers, v | .attemptState, v | .category, v | .errorEnvelope, v
  | .permissionEntry, v | .permissionReport, v | .store, v | .user, v | .newStore, v | .newUser, v => v

/-- Every value of a type is well formed, unless it holds a time, a large number or a value of any form. -/
def WellFormed : (t : WireType) → t.Value → Prop
  | .store, s            => Store.WellFormed s
  | .errorEnvelope, e    => ErrorEnvelope.WellFormed (Written.nestingLimit - 1) e
  | .permissionReport, r => PermissionReport.WellFormed (Written.nestingLimit - 1) r
  | .config, c           => Config.WellFormed c
  | .id _, _ | .permissionKey, _ | .role, _ | .subject, _ | .layerKind, _ | .effect, _ | .contribution, _ | .decision, _
  | .policyLayer, _ | .policyLayers, _ | .attemptState, _ | .category, _ | .permissionEntry, _ | .user, _ | .newStore, _
  | .newUser, _          => True

/-- What is decoded within the levels of a text is well formed. -/
theorem gives (t : WireType) {w : Written} {v : t.Value} (hin : w.InRange)
    (h : t.decoder Written.nestingLimit w = some v) : t.WellFormed v := by
  cases t with
  | store => exact Store.gives hin h
  | errorEnvelope => exact ErrorEnvelope.gives hin h _ rfl
  | permissionReport => exact PermissionReport.gives hin h _ rfl
  | config => exact Config.gives hin h
  | _ => trivial

/-- What is well formed is written within the levels of a text, and read from there as it was written. -/
theorem again (t : WireType) {v : t.Value} (h : t.WellFormed v) :
    t.decoder Written.nestingLimit (.ofJson (t.toJson v)) = some (t.written v) ∧
      (Written.ofJson (t.toJson v)).InRange := by
  have plain : ∀ {α : Type} {d : Decoder α} {f : α → Json} {a : α}, d.ReadsBack f Written.nestingLimit a →
      d Written.nestingLimit (.ofJson (f a)) = some a ∧ (Written.ofJson (f a)).InRange := fun ha =>
    ⟨ha.again, ha.inRange⟩
  cases t with
  | id e => exact plain (EntityId.readsAll (by decide) v)
  | permissionKey => exact plain (PermissionKey.readsAll (by decide) v)
  | role => exact plain (Role.readsAll (by decide) v)
  | subject => exact plain (Subject.readsAll (by decide) v)
  | layerKind => exact plain (LayerKind.readsAll (by decide) v)
  | effect => exact plain (Effect.readsAll (by decide) v)
  | contribution => exact plain (Contribution.readsAll (by decide) v)
  | decision => exact plain (Decision.readsAll (by decide) v)
  | policyLayer => exact plain (PolicyLayer.readsAll (by decide) v)
  | policyLayers => exact plain (PolicyLayers.readsAll (by decide) v)
  | attemptState => exact plain (AttemptState.readsAll (by decide) v)
  | category => exact plain (Category.readsAll (by decide) v)
  | errorEnvelope => exact plain (ErrorEnvelope.readsBack h)
  | permissionEntry => exact plain (PermissionEntry.readsAll (by decide) v)
  | permissionReport => exact plain (PermissionReport.readsBack (by decide) h)
  | store => exact plain (Store.readsBack h _)
  | user => exact plain (User.readsAll (by decide) v)
  | newStore => exact plain (NewStore.readsAll (by decide) v)
  | newUser => exact plain (NewUser.readsAll (by decide) v)
  | config => exact Config.without_token h _

/-- **Every well-formed value is decoded from its own text**, as long as each double in it is read from its digits. -/
theorem decode_of_wellFormed (t : WireType) {v : t.Value} (h : t.WellFormed v)
    (hdoubles : ∀ x, Number.double x ∈ (Written.ofJson (t.toJson v)).numbers → (Number.double x).ReadsBack) :
    t.decoder.text (Json.render (t.toJson v)) = some (t.written v) := by
  obtain ⟨hagain, hrange⟩ := t.again h
  have hread : Written.read (Json.render (t.toJson v)) = some (.ofJson (t.toJson v)) :=
    Written.read_render fun m hm => by
      cases m with
      | integer n => exact Number.readsBack_integer (hrange _ hm)
      | double x => exact hdoubles x hm
  unfold Decoder.text
  rw [hread]
  exact hagain

/-- **What is decoded comes back from its own text**: a text that decodes to a value of one of the types, in whichever
form it gives the value, may be replaced by the text that is written for the value, and that decodes to the same value,
as long as each double in it is read from its digits.  Only settings come back without their token, and what is written
for them does not tell the token. -/
theorem decode_written :
    (∀ (t : WireType) {s : String} {v : t.Value}, t.decoder.text s = some v →
      (∀ x, Number.double x ∈ (Written.ofJson (t.toJson v)).numbers → (Number.double x).ReadsBack) →
      t.decoder.text (Json.render (t.toJson v)) = some (t.written v)) ∧
    ∀ (c : Config) (token : Option String), Json.render { c with token := token }.toJson = Json.render c.toJson := by
  refine ⟨fun t s v h hdoubles => ?_, fun c token => rfl⟩
  unfold Decoder.text at h
  split at h
  · cases h
  · rename_i w hw
    exact t.decode_of_wellFormed (t.gives (Written.inRange_of_read hw) h) hdoubles

/-- An envelope in the form of an array that stops early, with a name given twice in its details. -/
def listedEnvelope : String := "[\"gone\",\"no such store\",\x7b\"b\":[0.5,1e2],\"a\":1,\"a\":2\x7d]"

/-- The same envelope as it is written. -/
def namedEnvelope : String :=
  "\x7b\"code\":\"gone\",\"details\":\x7b\"a\":2,\"b\":[0.5,100.0]\x7d,\"message\":\"no such store\"\x7d"

/-- Settings with a token, and the rest mostly left out. -/
def tokenSettings : String := "\x7b\"token\":\"secret\",\"retry_max_attempts\":5\x7d"

theorem listed_envelope_comes_back :
    (∃ e, ErrorEnvelope.decoder.text listedEnvelope = some e ∧ Json.render e.toJson = namedEnvelope ∧
      ErrorEnvelope.decoder.text (Json.render e.toJson) = some e) ∧
    ∃ c, Config.decoder.text tokenSettings = some c ∧ c.token = some "secret" ∧
      Config.decoder.text (Json.render c.toJson) = some { c with token := none } := by
  constructor
  · have hread : (ErrorEnvelope.decoder.text listedEnvelope).map (fun e : ErrorEnvelope =>
        (Json.render e.toJson, decide (∀ m ∈ (Written.ofJson e.toJson).numbers, m.ReadsBack))) =
        some (namedEnvelope, true) := by decide +kernel
    obtain ⟨e, he, hboth⟩ := Option.map_eq_some_iff.1 hread
    obtain ⟨htext, hdoubles⟩ := Prod.mk.inj hboth
    exact ⟨e, he, htext, decode_written.1 .errorEnvelope he fun x hx => of_decide_eq_true hdoubles _ hx⟩
  · have hread : (Config.decoder.text tokenSettings).map (fun c : Config =>
        (c.token, decide (∀ m ∈ (Written.ofJson c.toJson).numbers, m.ReadsBack))) = some (some "secret", true) := by
      decide +kernel
    obtain ⟨c, hc, hboth⟩ := Option.map_eq_some_iff.1 hread
    obtain ⟨htoken, hdoubles⟩ := Prod.mk.inj hboth
    exact ⟨c, hc, htoken, decode_written.1 .config hc fun x hx => of_decide_eq_true hdoubles _ hx⟩

end WireType
end BackOffice
