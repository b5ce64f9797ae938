import BackOffice.Config.Settings
/-!
# Settings from the environment

Each setting may be given by a variable.  A number is decimal digits, perhaps after a plus sign,
within the range of its setting; a switch is one of eight words in any letter case; blanks around
either do not count.  The variables are read in a fixed order and the first that is not understood
is reported as it was given; what has been read is then checked as a whole.
-/
namespace BackOffice
namespace Config

/-- The text of each variable that is set. -/
abbrev Environment := Variable → Option String

/-- A decimal number up to `limit`, perhaps after a plus sign. -/
def parseNat (limit : Nat) (s : String) : Option Nat :=
  let ds := match s.toList with
    | '+' :: r => r
    | r        => r
  if ds.isEmpty || !ds.all Written.isDigit then none
  else
    let n := Written.naturalOf ds
    if n ≤ limit then some n else none

/-- A number from a variable, or the default where it is not set. -/
def numberVar (env : Environment) (var : Variable) (limit default : Nat) : Except ConfigError Nat :=
  match env var with
  | none   => .ok default
  | some s => match parseNat limit (Text.trim s) with
    | some n => .ok n
    | none   => .error (.badVariable var s)

def parseSwitch (s : String) : Option Bool :=
  if ["1", "true", "yes", "on"].contains s then some true
  else if ["0", "false", "no", "off"].contains s then some false
  else none

/-- A switch from a variable, or the default where it is not set. -/
def switchVar (env : Environment) (var : Variable) (default : Bool) : Except ConfigError Bool :=
  match env var with
  | none   => .ok default
  | some s => match parseSwitch (Text.lower (Text.trim s)) with
    | some b => .ok b
    | none   => .error (.badVariable var s)

/-- Reads the settings; an empty token counts as none. -/
def ofEnvironment (env : Environment) : Except ConfigError Config := do
  let timeout ← numberVar env .timeoutSecs limit64 standard.timeoutSecs
  let attempts ← numberVar env .maxAttempts limit32 standard.maxAttempts
  let backoff ← numberVar env .backoffMs limit64 standard.backoffMs
  let verify ← switchVar env .verifyTls standard.verifyTls
  let ttl ← numberVar env .cacheTtlSecs limit64 standard.cacheTtlSecs
  let config : Config :=
    { baseUrl := (env .apiUrl).getD standard.baseUrl
      timeoutSecs := timeout
      maxAttempts := attempts
      backoffMs := backoff
      verifyTls := verify
      cacheTtlSecs := ttl
      token := (env .token).filter (fun t => !t.isEmpty) }
  config.validate
  return config

/-- Reads the settings from a source that is asked for each variable by its name. -/
def ofLookup (lookup : String → Option String) : Except ConfigError Config := ofEnvironment fun v => lookup v.name

end Config
end BackOffice
