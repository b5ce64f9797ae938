import BackOffice.Text.Ascii
import BackOffice.Text.Blank
import BackOffice.Json.Decoder
/-!
# Settings of the client

Where the server is, how long to wait for it, how often and after which pause to ask again, and how
long an answer may be kept.
-/
namespace BackOffice

/-- The variables that settings may be read from, in the order in which they are read. -/
inductive Variable where
  | apiUrl
  | timeoutSecs
  | maxAttempts
  | backoffMs
  | verifyTls
  | cacheTtlSecs
  | token
deriving DecidableEq, Repr

def Variable.name : Variable → String
  | .apiUrl       => "STOREDESK_API_URL"
  | .timeoutSecs  => "STOREDESK_TIMEOUT_SECS"
  | .maxAttempts  => "STOREDESK_RETRY_MAX_ATTEMPTS"
  | .backoffMs    => "STOREDESK_RETRY_BACKOFF_MS"
  | .verifyTls    => "STOREDESK_VERIFY_TLS"
  | .cacheTtlSecs => "STOREDESK_CACHE_TTL_SECS"
  | .token        => "STOREDESK_AUTH_TOKEN"

/-- No two variables have one name. -/
theorem Variable.name_injective {v w : Variable} (h : v.name = w.name) : v = w := by
  cases v <;> cases w <;> first | rfl | exact absurd h (by decide)

/-- Why settings are refused. -/
inductive ConfigError where
  | badVariable (name : Variable) (value : String)
  | badUrl (url : String)
  | noAttempts
  | noTimeout
deriving DecidableEq, Repr

def ConfigError.message : ConfigError → String
  | .badVariable v value => s!"invalid value '{value}' for {v.name}"
  | .badUrl url => s!"invalid configuration: base_url must be an http(s) URL, got '{url}'"
  | .noAttempts => "invalid configuration: retry_max_attempts must be at least 1"
  | .noTimeout  => "invalid configuration: timeout_secs must be at least 1"

structure Config where
  baseUrl      : String
  timeoutSecs  : Nat
  maxAttempts  : Nat
  backoffMs    : Nat
  verifyTls    : Bool
  cacheTtlSecs : Nat
  token        : Option String
deriving DecidableEq, Repr

namespace Config

def standard : Config :=
  { baseUrl := "http://localhost:8080"
    timeoutSecs := 15
    maxAttempts := 3
    backoffMs := 250
    verifyTls := true
    cacheTtlSecs := 20
    token := none }

instance : Inhabited Config := ⟨standard⟩

/-- The greatest number of 64 bits. -/
def limit64 : Nat := Nat.pow 2 64 - 1

/-- The greatest number of 32 bits. -/
def limit32 : Nat := Nat.pow 2 32 - 1

/-- Checks the address, then the number of attempts, then the time to wait. -/
def validate (c : Config) : Except ConfigError Unit :=
  if !(Text.startsWith c.baseUrl "http://" || Text.startsWith c.baseUrl "https://") then
    .error (.badUrl c.baseUrl)
  else if c.maxAttempts = 0 then .error .noAttempts
  else if c.timeoutSecs = 0 then .error .noTimeout
  else .ok ()

def withBaseUrl (c : Config) (url : String) : Config := { c with baseUrl := url }

def withToken (c : Config) (token : String) : Config := { c with token := some token }

def withRetry (c : Config) (attempts backoffMs : Nat) : Config :=
  { c with maxAttempts := attempts, backoffMs := backoffMs }

def withTimeoutSecs (c : Config) (secs : Nat) : Config := { c with timeoutSecs := secs }

def withCacheTtlSecs (c : Config) (secs : Nat) : Config := { c with cacheTtlSecs := secs }

/-- The pause after the given attempt, in milliseconds. -/
def backoffFor (c : Config) (attempt : Nat) : Nat := min (c.backoffMs * attempt) limit64

/-- The address without slashes at the end. -/
def normalizedBaseUrl (c : Config) : String :=
  String.ofList (Text.dropEndWhile (fun ch => ch == '/') c.baseUrl.toList)

def decoder : Decoder Config := fun room w => do
  let f ← Decoder.fields ["base_url", "timeout_secs", "retry_max_attempts", "retry_backoff_ms",
    "verify_tls", "cache_ttl_secs", "token"] room w
  some {
    baseUrl := ← f.withDefault "base_url" Decoder.string standard.baseUrl
    timeoutSecs := ← f.withDefault "timeout_secs" (Decoder.natUpTo limit64) standard.timeoutSecs
    maxAttempts := ← f.withDefault "retry_max_attempts" (Decoder.natUpTo limit32)
      standard.maxAttempts
    backoffMs := ← f.withDefault "retry_backoff_ms" (Decoder.natUpTo limit64) standard.backoffMs
    verifyTls := ← f.withDefault "verify_tls" Decoder.bool standard.verifyTls
    cacheTtlSecs := ← f.withDefault "cache_ttl_secs" (Decoder.natUpTo limit64)
      standard.cacheTtlSecs
    token := ← f.optional "token" Decoder.string }

/-- The token is never written. -/
def toJson (c : Config) : Json :=
  Json.record [("base_url", .string c.baseUrl), ("timeout_secs", Json.nat c.timeoutSecs),
    ("retry_max_attempts", Json.nat c.maxAttempts), ("retry_backoff_ms", Json.nat c.backoffMs),
    ("verify_tls", .bool c.verifyTls), ("cache_ttl_secs", Json.nat c.cacheTtlSecs)]

end Config
end BackOffice
