import BackOffice.Proofs.RoundTrip
import Mathlib.Data.List.Induction
/-!
# The spellings of an identifier

An identifier has thirty-two digits, and a text spells them bare, in groups, in groups within braces, or in groups after
`urn:uuid:`; nothing else is read (`Uuid.parse_eq_some_iff`).  The digits decide which identifier it is, whatever the
spelling and the case of the letters, and a JSON string is read as the text that it holds (`EntityId.spellings_exact`).
-/
namespace BackOffice

/-! ## Digits in either case -/

namespace Text

def IsHexDigit (c : Char) : Prop := c ∈ "0123456789abcdefABCDEF".toList

/-- So many hexadecimal digits. -/
def DigitGroup (n : Nat) (ds : List Char) : Prop := ds.length = n ∧ ∀ c ∈ ds, IsHexDigit c

instance (c : Char) : Decidable (IsHexDigit c) := inferInstanceAs (Decidable (c ∈ _))

-- the digits are gone through one by one, and not all characters there are
instance (n : Nat) (ds : List Char) : Decidable (DigitGroup n ds) :=
  @instDecidableAnd _ _ (instDecidableEqNat _ _) (List.decidableBAll IsHexDigit ds)

theorem IsHexDigit.ne {c : Char} (h : IsHexDigit c) : c ≠ '-' ∧ c ≠ '\x7b' ∧ lowerChar c ≠ 'u' := by
  have hall : "0123456789abcdefABCDEF".toList.all
      (fun c => decide (c ≠ '-' ∧ c ≠ '\x7b' ∧ lowerChar c ≠ 'u')) = true := by decide
  exact of_decide_eq_true (List.all_eq_true.1 hall c h)

theorem IsHexDigit.hexValue {c : Char} (h : IsHexDigit c) :
    ∃ d, hexValue c = some d ∧ d < 16 ∧ lowerChar c = hexDigit d := by
  have hall : "0123456789abcdefABCDEF".toList.all
      (fun c => (Text.hexValue c).any fun d => decide (d < 16 ∧ lowerChar c = hexDigit d)) = true := by decide
  obtain ⟨d, hvalue, hd⟩ := (Option.any_eq_true _ _).1 (List.all_eq_true.1 hall c h)
  exact ⟨d, hvalue, of_decide_eq_true hd⟩

theorem isHexDigit_of_hexValue {c : Char} {d : Nat} (h : hexValue c = some d) : IsHexDigit c := by
  have hall : ∀ n < 128, (hexValue (Char.ofNat n)).isSome → IsHexDigit (Char.ofNat n) := by decide
  have hsmall : c.toNat < 128 := by
    have hbounds : '9'.toNat = 57 ∧ 'F'.toNat = 70 ∧ 'f'.toNat = 102 := ⟨rfl, rfl, rfl⟩
    unfold hexValue at h
    split at h
    · omega
    split at h
    · omega
    split at h
    · omega
    · cases h
  have hc := hall c.toNat hsmall
  rw [Char.ofNat_toNat, h] at hc
  exact hc rfl

/-- The value of a digit tells its small letter. -/
theorem hexValue_eq_some {c : Char} {d : Nat} (h : hexValue c = some d) : d < 16 ∧ lowerChar c = hexDigit d := by
  obtain ⟨e, hvalue, he⟩ := (isHexDigit_of_hexValue h).hexValue
  cases h.symm.trans hvalue
  exact he

theorem readHexFrom_isSome_iff {ds : List Char} {acc : Nat} :
    (readHexFrom acc ds).isSome ↔ ∀ c ∈ ds, IsHexDigit c := by
  induction ds generalizing acc with
  | nil => simp [readHexFrom]
  | cons c ds ih =>
    rw [List.forall_mem_cons, readHexFrom]
    cases hc : hexValue c with
    | none =>
      constructor
      · intro h
        cases h
      · intro h
        obtain ⟨d, hd, -⟩ := h.1.hexValue
        cases hc.symm.trans hd
    | some d => exact ih.trans (and_iff_right (isHexDigit_of_hexValue hc)).symm

/-- **A number that is read from digits has these digits**, in small letters. -/
theorem hexDigits_of_readHex {ds : List Char} {n : Nat} (h : readHex ds = some n) :
    n < Nat.pow 16 ds.length ∧ ds.map lowerChar = hexDigits ds.length n := by
  induction ds using List.reverseRecOn generalizing n with
  | nil => cases h; exact ⟨Nat.one_pos, rfl⟩
  | append_singleton ds c ih =>
    rw [readHex, readHexFrom_append] at h
    obtain ⟨m, hm, h⟩ := Option.bind_eq_some_iff.1 h
    obtain ⟨hlt, hmap⟩ := ih hm
    rw [readHexFrom] at h
    cases hc : hexValue c with
    | none => rw [hc] at h; cases h
    | some d =>
      rw [hc] at h
      cases h
      obtain ⟨hd, hlower⟩ := hexValue_eq_some hc
      have hquot : (16 * m + d) / 16 = m := by omega
      have hrem : (16 * m + d) % 16 = d := by omega
      rw [List.length_append, List.length_singleton, List.map_append, List.map_singleton, hexDigits, hquot, hrem, hmap,
        hlower]
      refine ⟨?_, rfl⟩
      show 16 * m + d < 16 ^ ds.length * 16
      have hlt : m < 16 ^ ds.length := hlt
      omega

end Text

namespace Uuid

open Text (DigitGroup IsHexDigit lowerChar)

/-! ## The four forms -/

/-- Groups of 8, 4, 4, 4 and 12 digits, with hyphens between them; `ds` are the digits of all groups. -/
def Grouped (cs ds : List Char) : Prop :=
  ∃ a b c d e, DigitGroup 8 a ∧ DigitGroup 4 b ∧ DigitGroup 4 c ∧ DigitGroup 4 d ∧ DigitGroup 12 e ∧
    cs = ['-'].intercalate [a, b, c, d, e] ∧ ds = [a, b, c, d, e].flatten

/-- A text that spells an identifier, and its digits. -/
inductive Spells : List Char → List Char → Prop
  | bare {ds : List Char} (h : DigitGroup 32 ds) : Spells ds ds
  | grouped {cs ds : List Char} (h : Grouped cs ds) : Spells cs ds
  | braced {cs ds : List Char} (h : Grouped cs ds) : Spells ('\x7b' :: (cs ++ ['\x7d'])) ds
  | urn {front cs ds : List Char} (hfront : front.map lowerChar = "urn:uuid:".toList) (h : Grouped cs ds) :
      Spells (front ++ cs) ds

variable {s : String} {cs ds : List Char} {u : Uuid}

/-- Grouping is putting in the hyphens. -/
theorem grouped_iff : Grouped cs ds ↔ DigitGroup 32 ds ∧ hyphenate ds = cs := by
  constructor
  · rintro ⟨a, b, c, d, e, ⟨ha, hna⟩, ⟨hb, hnb⟩, ⟨hc, hnc⟩, ⟨hd, hnd⟩, ⟨he, hne⟩, rfl, rfl⟩
    refine ⟨⟨by simp [ha, hb, hc, hd, he], ?_⟩, ?_⟩
    · simpa only [List.flatten_cons, List.flatten_nil, List.append_nil, List.forall_mem_append] using
        ⟨hna, hnb, hnc, hnd, hne⟩
    · have hflat : [a, b, c, d, e].flatten = a ++ (b ++ (c ++ (d ++ e))) := by simp
      have h8 : [a, b, c, d, e].flatten.drop 8 = b ++ (c ++ (d ++ e)) := by rw [hflat, List.drop_left' ha]
      have h12 : [a, b, c, d, e].flatten.drop 12 = c ++ (d ++ e) := by
        rw [show 12 = 8 + 4 from rfl, ← List.drop_drop, h8, List.drop_left' hb]
      have h16 : [a, b, c, d, e].flatten.drop 16 = d ++ e := by
        rw [show 16 = 12 + 4 from rfl, ← List.drop_drop, h12, List.drop_left' hc]
      have h20 : [a, b, c, d, e].flatten.drop 20 = e := by
        rw [show 20 = 16 + 4 from rfl, ← List.drop_drop, h16, List.drop_left' hd]
      rw [hyphenate, h8, h12, h16, h20, hflat, List.take_left' ha, List.take_left' hb, List.take_left' hc,
        List.take_left' hd]
      simp [List.intercalate]
  · rintro ⟨⟨hlength, hdigits⟩, rfl⟩
    have hpart : ∀ m n, m + n ≤ 32 → DigitGroup n ((ds.drop m).take n) := fun m n hle =>
      ⟨by simp [hlength]; omega, fun c hc => hdigits c (List.mem_of_mem_drop (List.mem_of_mem_take hc))⟩
    have hlast : (ds.drop 20).take 12 = ds.drop 20 := List.take_of_length_le (by simp [hlength])
    refine ⟨_, _, _, _, _, hpart 0 8 (by decide), hpart 8 4 (by decide), hpart 12 4 (by decide), hpart 16 4 (by decide),
      hpart 20 12 (by decide), ?_, ?_⟩
    · simp [hyphenate, List.intercalate, hlast]
    · simp only [List.flatten_cons, List.flatten_nil, List.append_nil, hlast, List.drop_zero]
      rw [take_append_drop_drop ds 16, take_append_drop_drop ds 12, take_append_drop_drop ds 8, List.take_append_drop]

theorem digits_inj {v : Uuid} : u.digits = v.digits ↔ u = v := by
  refine ⟨fun h => ?_, congrArg digits⟩
  have hu := u.ofDigits_digits
  rw [h, v.ofDigits_digits] at hu
  exact (Option.some.inj hu).symm

theorem exists_ofDigits (h : DigitGroup 32 ds) : ∃ u, ofDigits ds = some u ∧ ds.map lowerChar = u.digits := by
  obtain ⟨hlength, hdigits⟩ := h
  obtain ⟨n, hn⟩ := Option.isSome_iff_exists.1 (Text.readHexFrom_isSome_iff.2 hdigits)
  obtain ⟨hlt, hmap⟩ := Text.hexDigits_of_readHex hn
  rw [hlength] at hlt hmap
  refine ⟨⟨n, hlt⟩, ?_, hmap⟩
  rw [ofDigits, if_pos hlength, show Text.readHex ds = some n from hn]
  exact dif_pos hlt

theorem digitGroup_of_ofDigits (h : ofDigits ds = some u) : DigitGroup 32 ds := by
  unfold ofDigits at h
  split at h
  · rename_i hlength
    split at h
    · cases h
    · rename_i n hn
      exact ⟨hlength, Text.readHexFrom_isSome_iff.1 (Option.isSome_of_eq_some hn)⟩
  · cases h

/-! ## Reading each form -/

/-- Thirty-two digits are read as the one identifier that has them. -/
theorem ofDigits_eq_some_iff : ofDigits ds = some u ↔ DigitGroup 32 ds ∧ ds.map lowerChar = u.digits := by
  constructor
  · intro h
    have hgroup := digitGroup_of_ofDigits h
    obtain ⟨v, hv, hmap⟩ := exists_ofDigits hgroup
    cases h.symm.trans hv
    exact ⟨hgroup, hmap⟩
  · rintro ⟨hgroup, hmap⟩
    obtain ⟨v, hv, hmap'⟩ := exists_ofDigits hgroup
    rw [hv, digits_inj.1 (hmap.symm.trans hmap')]

theorem ofHyphenated_eq_some_iff : ofHyphenated cs = some u ↔ ∃ ds, Grouped cs ds ∧ ds.map lowerChar = u.digits := by
  unfold ofHyphenated
  constructor
  · intro h
    dsimp only at h
    split at h
    · rename_i hform
      obtain ⟨hgroup, hmap⟩ := ofDigits_eq_some_iff.1 h
      exact ⟨_, grouped_iff.2 ⟨hgroup, hform.2⟩, hmap⟩
    · cases h
  · rintro ⟨ds, hcs, hmap⟩
    obtain ⟨hgroup, rfl⟩ := grouped_iff.1 hcs
    have hfilter := filter_hyphenate fun c hc => (hgroup.2 c hc).ne.1
    simp only [hfilter]
    rw [if_pos ⟨hgroup.1, trivial⟩, ofDigits_eq_some_iff]
    exact ⟨hgroup, hmap⟩

theorem Grouped.length_eq (h : Grouped cs ds) : cs.length = 36 := by
  obtain ⟨hgroup, rfl⟩ := grouped_iff.1 h
  simp [hyphenate, hgroup.1]

/-- A text in groups begins with a digit. -/
theorem Grouped.head (h : Grouped cs ds) : ∃ c rest, cs = c :: rest ∧ IsHexDigit c := by
  obtain ⟨⟨hlength, hdigits⟩, rfl⟩ := grouped_iff.1 h
  cases ds with
  | nil => cases hlength
  | cons c ds => exact ⟨c, _, rfl, hdigits c List.mem_cons_self⟩

theorem parse_of_brace {rest : List Char} (h : s.toList = '\x7b' :: rest) :
    parse s = if rest.getLast? = some '\x7d' then ofHyphenated rest.dropLast else none := by
  unfold parse
  rw [h]
  rfl

theorem parse_of_noBrace (h : s.toList.head? ≠ some '\x7b') :
    parse s = if s.toList.length = 32 then ofDigits s.toList
      else if (s.toList.take 9).map lowerChar = urnFront then ofHyphenated (s.toList.drop 9)
      else ofHyphenated s.toList := by
  unfold parse
  dsimp only
  split
  · rename_i rest he
    rw [he] at h
    exact absurd rfl h
  · rfl

theorem parse_bare (h : DigitGroup 32 s.toList) : parse s = ofDigits s.toList := by
  rw [parse_of_noBrace fun hhead => (h.2 _ (List.mem_of_mem_head? hhead)).ne.2.1 rfl, if_pos h.1]

theorem parse_grouped (h : Grouped s.toList ds) : parse s = ofHyphenated s.toList := by
  obtain ⟨c, rest, hs, hc⟩ := h.head
  have hfront : (s.toList.take 9).map lowerChar ≠ urnFront := fun he => by
    rw [hs] at he
    exact hc.ne.2.2 (List.cons.inj (he.trans (show urnFront = 'u' :: "rn:uuid:".toList from rfl))).1
  rw [parse_of_noBrace, if_neg (by rw [h.length_eq]; decide), if_neg hfront]
  rw [hs]
  exact fun hhead => hc.ne.2.1 (Option.some.inj hhead)

theorem parse_braced (h : s.toList = '\x7b' :: (cs ++ ['\x7d'])) : parse s = ofHyphenated cs := by
  rw [parse_of_brace h, if_pos List.getLast?_concat, List.dropLast_concat]

theorem parse_urn {front : List Char} (hfront : front.map lowerChar = urnFront) (h : Grouped cs ds)
    (hs : s.toList = front ++ cs) : parse s = ofHyphenated cs := by
  have hnine : front.length = 9 := by
    rw [← List.length_map lowerChar, hfront]
    rfl
  have hletters : urnFront = 'u' :: "rn:uuid:".toList := rfl
  obtain ⟨c, rest, rfl, hc, -⟩ := List.map_eq_cons_iff.1 (hfront.trans hletters)
  rw [parse_of_noBrace, hs, if_neg (by rw [List.length_append, hnine, h.length_eq]; decide), List.take_left' hnine,
    if_pos hfront, List.drop_left' hnine]
  rw [hs]
  intro hhead
  rw [Option.some.inj hhead] at hc
  exact absurd hc (by decide)

/-- **An identifier is read exactly from its spellings.** -/
theorem parse_eq_some_iff : parse s = some u ↔ ∃ ds, Spells s.toList ds ∧ ds.map lowerChar = u.digits := by
  constructor
  · intro h
    by_cases hbrace : s.toList.head? = some '\x7b'
    · obtain ⟨rest, hs⟩ := List.head?_eq_some_iff.1 hbrace
      rw [parse_of_brace hs] at h
      split at h
      · rename_i hlast
        obtain ⟨ds, hgroup, hmap⟩ := ofHyphenated_eq_some_iff.1 h
        obtain ⟨cs, rfl⟩ := List.getLast?_eq_some_iff.1 hlast
        rw [List.dropLast_concat] at hgroup
        exact ⟨ds, hs ▸ .braced hgroup, hmap⟩
      · cases h
    · rw [parse_of_noBrace hbrace] at h
      split at h
      · obtain ⟨hgroup, hmap⟩ := ofDigits_eq_some_iff.1 h
        exact ⟨_, .bare hgroup, hmap⟩
      split at h
      · rename_i hfront
        obtain ⟨ds, hgroup, hmap⟩ := ofHyphenated_eq_some_iff.1 h
        exact ⟨ds, List.take_append_drop 9 s.toList ▸ .urn hfront hgroup, hmap⟩
      · obtain ⟨ds, hgroup, hmap⟩ := ofHyphenated_eq_some_iff.1 h
        exact ⟨ds, .grouped hgroup, hmap⟩
  · rintro ⟨ds, hs, hmap⟩
    have hread : ∀ {cs}, Grouped cs ds → ofHyphenated cs = some u := fun hgroup =>
      ofHyphenated_eq_some_iff.2 ⟨ds, hgroup, hmap⟩
    generalize hcs : s.toList = cs at hs
    cases hs with
    | bare hgroup =>
      subst hcs
      exact (parse_bare hgroup).trans (ofDigits_eq_some_iff.2 ⟨hgroup, hmap⟩)
    | grouped hgroup =>
      subst hcs
      exact (parse_grouped hgroup).trans (hread hgroup)
    | braced hgroup => exact (parse_braced hcs).trans (hread hgroup)
    | urn hfront hgroup => exact (parse_urn hfront hgroup hcs).trans (hread hgroup)

/-- What is spelled are thirty-two digits. -/
theorem Spells.digitGroup (h : Spells cs ds) : DigitGroup 32 ds := by
  cases h with
  | bare h => exact h
  | grouped h | braced h | urn _ h => exact (grouped_iff.1 h).1

/-- What a text spells is read, as the identifier with these digits. -/
theorem Spells.parse (h : Spells s.toList ds) : ∃ u, Uuid.parse s = some u ∧ ds.map lowerChar = u.digits := by
  obtain ⟨u, -, hmap⟩ := exists_ofDigits h.digitGroup
  exact ⟨u, parse_eq_some_iff.2 ⟨ds, h, hmap⟩, hmap⟩

end Uuid

/-! ## Identifiers -/

theorem Json.parse_eq_string_iff {text s : String} :
    Json.parse text = some (.string s) ↔ Written.read text = some (.string (some s)) := by
  have hstring : ∀ w : Written, w.json Written.nestingLimit = some (.string s) ↔ w = .string (some s) := fun w => by
    cases w <;> simp [Written.json, Written.nestingLimit, Json.record]
  unfold Json.parse
  cases Written.read text with
  | none => exact ⟨nofun, nofun⟩
  | some w => exact (hstring w).trans (by rw [Option.some.injEq])

/-- What is made of strings is decoded from a text that is a string, and from nothing else. -/
theorem Decoder.text_filterMap_string {α : Type} {f : String → Option α} {text : String} {a : α} :
    (Decoder.string.filterMap f).text text = some a ↔ ∃ s, Json.parse text = some (.string s) ∧ f s = some a := by
  have hstring : ∀ (w : Written) (s : String), Decoder.string Written.nestingLimit w = some s ↔ w = .string (some s) :=
    fun w s => by cases w <;> simp [Decoder.string]
  simp only [Json.parse_eq_string_iff]
  unfold Decoder.text
  cases Written.read text with
  | none => exact ⟨nofun, nofun⟩
  | some w =>
    show (Decoder.string Written.nestingLimit w).bind f = some a ↔ _
    rw [Option.bind_eq_some_iff]
    exact exists_congr fun s => and_congr_left' ((hstring w s).trans (by rw [Option.some.injEq]))

namespace EntityId

open Uuid (Spells)
open Text (lowerChar)

variable {e : Entity}

theorem parse_eq_ok_iff {s : String} {i : EntityId e} : parse s = .ok i ↔ Uuid.parse s = some i.uuid := by
  obtain ⟨u⟩ := i
  unfold parse
  split
  · rename_i v hv
    rw [hv]
    exact ⟨fun h => by cases h; rfl, fun h => by cases h; rfl⟩
  · rename_i hnone
    rw [hnone]
    exact ⟨nofun, nofun⟩

theorem text_decoder_eq_some_iff {text : String} {i : EntityId e} :
    decoder.text text = some i ↔ ∃ s, Json.parse text = some (.string s) ∧ parse s = .ok i := by
  rw [decoder, Decoder.text_filterMap_string]
  refine exists_congr fun s => and_congr_right fun _ => ?_
  rw [parse_eq_ok_iff, Option.map_eq_some_iff]
  exact ⟨fun ⟨u, hu, hi⟩ => hi ▸ hu, fun h => ⟨_, h, rfl⟩⟩

/-- What a text spells is read, as the identifier with these digits. -/
theorem exists_parse {s : String} {ds : List Char} (h : Spells s.toList ds) :
    ∃ i : EntityId e, parse s = .ok i ∧ ds.map lowerChar = i.uuid.digits := by
  obtain ⟨u, hu, hmap⟩ := h.parse
  exact ⟨⟨u⟩, parse_eq_ok_iff.2 hu, hmap⟩

/-- **The spellings of an identifier**, of a tenant, a store or a user alike.  Every identifier is read from its own
text.  A text is read exactly if it spells digits, and then as the identifier with these digits in small letters; so two
texts are read as the same identifier exactly if their digits agree up to the case of the letters.  A JSON text is
decoded exactly if it is a string that is read, as the same identifier, and any text can be given as such a string. -/
theorem spellings_exact :
    (∀ i : EntityId e, parse i.text = .ok i) ∧
    (∀ s, (∃ i : EntityId e, parse s = .ok i) ↔ ∃ ds, Spells s.toList ds) ∧
    (∀ (s : String) (ds : List Char) (i : EntityId e), Spells s.toList ds →
      (parse s = .ok i ↔ ds.map lowerChar = i.uuid.digits)) ∧
    (∀ (s t : String) (ds es : List Char), Spells s.toList ds → Spells t.toList es →
      ((parse s : Except InvalidId (EntityId e)) = parse t ↔ ds.map lowerChar = es.map lowerChar)) ∧
    (∀ (text : String) (i : EntityId e),
      decoder.text text = some i ↔ ∃ s, Json.parse text = some (.string s) ∧ parse s = .ok i) ∧
    ∀ s, Json.parse (Json.render (.string s)) = some (.string s) := by
  refine ⟨fun i => parse_eq_ok_iff.2 i.uuid.parse_text, fun s => ⟨?_, ?_⟩, fun s ds i hs => ?_,
    fun s t ds es hs ht => ?_, fun _ _ => text_decoder_eq_some_iff, fun s => ?_⟩
  · rintro ⟨i, hi⟩
    obtain ⟨ds, hs, -⟩ := Uuid.parse_eq_some_iff.1 (parse_eq_ok_iff.1 hi)
    exact ⟨ds, hs⟩
  · rintro ⟨ds, hs⟩
    obtain ⟨i, hi, -⟩ := exists_parse hs
    exact ⟨i, hi⟩
  · obtain ⟨j, hj, hmap⟩ := @exists_parse e _ _ hs
    rw [hj, hmap, Except.ok.injEq, Uuid.digits_inj]
    exact ⟨congrArg uuid, fun h => congrArg mk h⟩
  · obtain ⟨i, hi, hmap⟩ := @exists_parse e _ _ hs
    obtain ⟨j, hj, hmap'⟩ := @exists_parse e _ _ ht
    rw [hi, hj, hmap, hmap', Except.ok.injEq, Uuid.digits_inj]
    exact ⟨congrArg uuid, fun h => congrArg mk h⟩
  · exact Json.parse_eq_string_iff.2 (Written.read_render fun m hm => by cases hm)

/-- The same identifier after the front in capitals, in braces, and bare. -/
theorem spellings_of_one :
    (parse "URN:Uuid:67E55044-10b1-426F-9247-bb680e5fe0c8" : Except InvalidId TenantId) =
        parse "67e5504410b1426f9247bb680e5fe0c8" ∧
      ∃ i : TenantId, parse "\x7b67e55044-10b1-426f-9247-bb680e5fe0c8\x7d" = .ok i := by
  have hgroups : Uuid.Grouped "67e55044-10b1-426f-9247-bb680e5fe0c8".toList "67e5504410b1426f9247bb680e5fe0c8".toList :=
    ⟨"67e55044".toList, "10b1".toList, "426f".toList, "9247".toList, "bb680e5fe0c8".toList, by decide⟩
  have hcapitals : Uuid.Grouped "67E55044-10b1-426F-9247-bb680e5fe0c8".toList
      "67E5504410b1426F9247bb680e5fe0c8".toList :=
    ⟨"67E55044".toList, "10b1".toList, "426F".toList, "9247".toList, "bb680e5fe0c8".toList, by decide⟩
  have hbraced : Spells "\x7b67e55044-10b1-426f-9247-bb680e5fe0c8\x7d".toList _ := .braced hgroups
  have hurn : Spells "URN:Uuid:67E55044-10b1-426F-9247-bb680e5fe0c8".toList _ :=
    @Spells.urn "URN:Uuid:".toList _ _ (by decide) hcapitals
  have hbare : Spells "67e5504410b1426f9247bb680e5fe0c8".toList _ := .bare (by decide)
  obtain ⟨-, haccepted, -, hsame, -⟩ := @spellings_exact .tenant
  exact ⟨(hsame _ _ _ _ hurn hbare).2 (by decide), (haccepted _).2 ⟨_, hbraced⟩⟩

end EntityId
end BackOffice
