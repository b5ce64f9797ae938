import BackOffice.Config.Settings
import BackOffice.Proofs.Trimming
import BackOffice.Sorted.Order
/-!
# Settings that are accepted

Three checks are made of settings, in a fixed order, and the first that fails is reported (`Config.validate_eq_ok_iff`,
`Config.validate_eq_error_iff`).  The address is checked as it was given and used without the slashes at its end.  The
two part where nothing but slashes follows the scheme, for the slashes of the scheme go with them
(`Config.normalized_accepted_iff`).
-/
namespace BackOffice.Config

/-- What an address may begin with. -/
def schemes : List String := ["http://", "https://"]

/-! ## The checks in their order -/

/-- What is checked of settings. -/
inductive Check where
  | address
  | attempts
  | timeout

namespace Check

/-- The place of a check in their order. -/
def rank : Check → Nat
  | .address  => 0
  | .attempts => 1
  | .timeout  => 2

def Passes (c : Config) : Check → Prop
  | .address  => ∃ scheme ∈ schemes, ∃ rest, c.baseUrl.toList = scheme.toList ++ rest
  | .attempts => 0 < c.maxAttempts
  | .timeout  => 0 < c.timeoutSecs

/-- What is reported of settings that do not pass. -/
def fault (c : Config) : Check → ConfigError
  | .address  => .badUrl c.baseUrl
  | .attempts => .noAttempts
  | .timeout  => .noTimeout

/-- The first check that settings do not pass. -/
def Stops (c : Config) (check : Check) : Prop :=
  ¬ check.Passes c ∧ ∀ earlier : Check, earlier.rank < check.rank → earlier.Passes c

end Check

variable (c : Config)

theorem passes_address_iff :
    (Text.startsWith c.baseUrl "http://" || Text.startsWith c.baseUrl "https://") = true ↔ Check.address.Passes c := by
  simp only [Check.Passes, schemes, List.mem_cons, List.not_mem_nil, or_false, exists_eq_or_imp, exists_eq_left,
    Bool.or_eq_true, Text.startsWith_iff]

theorem validate_of_passes (h : ∀ check : Check, check.Passes c) : c.validate = .ok () := by
  have hattempts : c.maxAttempts ≠ 0 := Nat.pos_iff_ne_zero.1 (h .attempts)
  have htimeout : c.timeoutSecs ≠ 0 := Nat.pos_iff_ne_zero.1 (h .timeout)
  rw [validate, (passes_address_iff c).2 (h .address), if_neg (by decide), if_neg hattempts, if_neg htimeout]

theorem validate_of_stops {check : Check} (h : check.Stops c) : c.validate = .error (check.fault c) := by
  obtain ⟨hfails, hearlier⟩ := h
  have haddress : 0 < check.rank →
      (Text.startsWith c.baseUrl "http://" || Text.startsWith c.baseUrl "https://") = true := fun hrank =>
    (passes_address_iff c).2 (hearlier .address hrank)
  cases check with
  | address =>
    rw [validate, Bool.eq_false_iff.2 (fun h => hfails ((passes_address_iff c).1 h)), if_pos (by decide)]
    rfl
  | attempts =>
    rw [validate, haddress (by decide), if_neg (by decide), if_pos (Nat.eq_zero_of_not_pos hfails)]
    rfl
  | timeout =>
    have hattempts : c.maxAttempts ≠ 0 := Nat.pos_iff_ne_zero.1 (hearlier .attempts (by decide))
    rw [validate, haddress (by decide), if_neg (by decide), if_neg hattempts, if_pos (Nat.eq_zero_of_not_pos hfails)]
    rfl

theorem Check.exists_stops_iff : (∃ check : Check, check.Stops c) ↔ ¬ ∀ check : Check, check.Passes c :=
  exists_first_iff rank (Passes c)

/-- **Settings are accepted where they pass every check.** -/
theorem validate_eq_ok_iff : c.validate = .ok () ↔ ∀ check : Check, check.Passes c := by
  refine ⟨fun h => Classical.byContradiction fun hfails => ?_, c.validate_of_passes⟩
  obtain ⟨check, hstops⟩ := (Check.exists_stops_iff c).2 hfails
  rw [c.validate_of_stops hstops] at h
  cases h

/-- **The first check that fails is reported.** -/
theorem validate_eq_error_iff (e : ConfigError) :
    c.validate = .error e ↔ ∃ check : Check, check.Stops c ∧ check.fault c = e := by
  constructor
  · intro h
    obtain ⟨check, hstops⟩ := (Check.exists_stops_iff c).2 fun hpasses => by
      rw [c.validate_of_passes hpasses] at h
      cases h
    rw [c.validate_of_stops hstops] at h
    exact ⟨check, hstops, Except.error.inj h⟩
  · rintro ⟨check, hstops, rfl⟩
    exact c.validate_of_stops hstops

/-! ## The address as it is used -/

/-- The settings with the address as it is used. -/
def normalized : Config := c.withBaseUrl c.normalizedBaseUrl

/-- Something other than slashes follows the scheme of an address. -/
def NamesHost (url : String) : Prop :=
  ∃ scheme ∈ schemes, ∃ rest, url.toList = scheme.toList ++ rest ∧ ∃ ch ∈ rest, ch ≠ '/'

theorem toList_normalizedBaseUrl :
    c.normalizedBaseUrl.toList = Text.dropEndWhile (fun ch => ch == '/') c.baseUrl.toList := String.toList_ofList

theorem last_normalizedBaseUrl : c.normalizedBaseUrl.toList.getLast? ≠ some '/' := fun hlast => by
  rw [toList_normalizedBaseUrl] at hlast
  exact absurd (Text.getLast?_dropEndWhile hlast) (by decide)

theorem baseUrl_eq_append : ∃ n, c.baseUrl = c.normalizedBaseUrl ++ String.ofList (List.replicate n '/') := by
  obtain ⟨tail, htail, hslashes⟩ := Text.dropEndWhile_append (fun ch => ch == '/') c.baseUrl.toList
  refine ⟨tail.length, String.toList_injective ?_⟩
  rw [String.toList_append, String.toList_ofList, toList_normalizedBaseUrl,
    ← List.eq_replicate_of_mem fun ch hch => by simpa using hslashes ch hch]
  exact htail

theorem normalizedBaseUrl_normalized : c.normalized.normalizedBaseUrl = c.normalizedBaseUrl := by
  refine String.toList_injective ((toList_normalizedBaseUrl _).trans (Text.dropEndWhile_of_last fun ch hch => ?_))
  exact beq_eq_false_iff_ne.2 fun hslash => c.last_normalizedBaseUrl (hslash ▸ hch)

/-- The address as it is used begins with a scheme exactly if the address names a host. -/
theorem passes_address_normalized_iff : Check.address.Passes c.normalized ↔ NamesHost c.baseUrl := by
  have hslash : ∀ scheme ∈ schemes, scheme.toList.getLast? = some '/' := by decide
  show (∃ scheme ∈ schemes, ∃ rest, c.normalizedBaseUrl.toList = scheme.toList ++ rest) ↔ _
  constructor
  · rintro ⟨scheme, hscheme, rest, hrest⟩
    obtain ⟨n, hn⟩ := c.baseUrl_eq_append
    refine ⟨scheme, hscheme, rest ++ List.replicate n '/', ?_, ?_⟩
    · rw [hn, String.toList_append, hrest, String.toList_ofList, List.append_assoc]
    · -- the scheme ends with a slash and the address does not, so what follows has a last character
      have hlast := c.last_normalizedBaseUrl
      rw [hrest, List.getLast?_append] at hlast
      cases hend : rest.getLast? with
      | none => exact absurd (by rw [hend, hslash scheme hscheme]; rfl) hlast
      | some ch =>
        refine ⟨ch, List.mem_append_left _ (List.mem_of_getLast? hend), fun heq => hlast ?_⟩
        rw [hend, heq]
        rfl
  · rintro ⟨scheme, hscheme, rest, hrest, ch, hch, hne⟩
    have hkept : (ch == '/') = false := beq_eq_false_iff_ne.2 hne
    refine ⟨scheme, hscheme, Text.dropEndWhile (fun ch => ch == '/') rest, ?_⟩
    rw [toList_normalizedBaseUrl, hrest]
    exact Text.dropEndWhile_append_of_mem hch hkept

/-- Where no host is named, the slashes of the scheme go too. -/
theorem normalizedBaseUrl_of_not_namesHost (h : Check.address.Passes c) (hhost : ¬ NamesHost c.baseUrl) :
    c.normalizedBaseUrl ∈ ["http:", "https:"] := by
  obtain ⟨scheme, hscheme, rest, hrest⟩ := h
  have hslashes : ∀ ch ∈ rest, (ch == '/') = true := fun ch hch =>
    beq_iff_eq.2 (Classical.byContradiction fun hne => hhost ⟨scheme, hscheme, rest, hrest, ch, hch, hne⟩)
  have hcut : ∀ scheme ∈ schemes,
      String.ofList (Text.dropEndWhile (fun ch => ch == '/') scheme.toList) ∈ ["http:", "https:"] := by decide
  rw [normalizedBaseUrl, hrest, Text.dropEndWhile_append_of_all hslashes]
  exact hcut scheme hscheme

/-- **The address as it is used**, for all settings.  It does not end with a slash, the address that was given is it
followed by slashes only, and cutting it again changes nothing.  With it in the place of the address the settings are
accepted exactly if they were accepted before and the address names a host; an accepted address that does not comes to a
scheme without its slashes, which is refused. -/
theorem normalized_accepted_iff (c : Config) :
    c.normalizedBaseUrl.toList.getLast? ≠ some '/' ∧
    (∃ n, c.baseUrl = c.normalizedBaseUrl ++ String.ofList (List.replicate n '/')) ∧
    c.normalized.normalizedBaseUrl = c.normalizedBaseUrl ∧
    (c.normalized.validate = .ok () ↔ c.validate = .ok () ∧ NamesHost c.baseUrl) ∧
    (c.validate = .ok () → ¬ NamesHost c.baseUrl → c.normalizedBaseUrl ∈ ["http:", "https:"] ∧
      c.normalized.validate = .error (.badUrl c.normalizedBaseUrl)) := by
  refine ⟨c.last_normalizedBaseUrl, c.baseUrl_eq_append, c.normalizedBaseUrl_normalized, ?_, fun h hhost => ⟨?_, ?_⟩⟩
  · rw [validate_eq_ok_iff, validate_eq_ok_iff]
    constructor
    · intro h
      have hhost := c.passes_address_normalized_iff.1 (h .address)
      refine ⟨?_, hhost⟩
      rintro (_ | _ | _)
      · obtain ⟨scheme, hscheme, rest, hrest, -⟩ := hhost
        exact ⟨scheme, hscheme, rest, hrest⟩
      · exact h .attempts
      · exact h .timeout
    · rintro ⟨h, hhost⟩ (_ | _ | _)
      · exact c.passes_address_normalized_iff.2 hhost
      · exact h .attempts
      · exact h .timeout
  · exact c.normalizedBaseUrl_of_not_namesHost (c.validate_eq_ok_iff.1 h .address) hhost
  · have hstops : Check.address.Stops c.normalized :=
      ⟨fun h => hhost (c.passes_address_normalized_iff.1 h), fun _ hrank => absurd hrank (Nat.not_lt_zero _)⟩
    exact c.normalized.validate_of_stops hstops

/-- Of an address that names a host the slashes at its end go, and no others. -/
theorem host_kept_when_used :
    let c := standard.withBaseUrl "https://shop.example/desk//"
    c.normalizedBaseUrl = "https://shop.example/desk" ∧ c.normalized.validate = .ok () := by
  intro c
  obtain ⟨-, -, -, haccepted, -⟩ := normalized_accepted_iff c
  exact ⟨by decide, haccepted.2 ⟨by decide, "https://", by decide, "shop.example/desk//".toList, by decide,
    's', by decide, by decide⟩⟩

/-- An address of nothing but a scheme is accepted, and refused as it is used. -/
theorem bare_scheme_refused_when_used :
    let c := standard.withBaseUrl "http://"
    c.validate = .ok () ∧ c.normalizedBaseUrl = "http:" ∧ c.normalized.validate = .error (.badUrl "http:") := by
  decide

end BackOffice.Config
