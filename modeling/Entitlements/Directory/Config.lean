import Entitlements.Directory.Cache
import Entitlements.Retry.Delay
import Entitlements.Text.Digits

/-! # Configuration

How to reach the service: account, address, token, time limits, retries and the size of the cache.
`DirectoryConfig.ofEnvironment` reads it from environment variables, `DirectoryConfig.validate`
says whether the service can be reached with it. -/

namespace Entitlements

/-- What is wrong with a configuration. -/
inductive ConfigError where
  /-- A variable that is needed is not set. -/
  | missing (variableName : String)
  /-- A variable has an unusable value. -/
  | invalid (variableName detail : String)
  deriving DecidableEq, Repr

/-- The error in words. -/
def ConfigError.message : ConfigError → String
  | missing variableName => "Missing required environment variable: " ++ variableName
  | invalid variableName detail =>
    "Invalid configuration value for " ++ variableName ++ ": " ++ detail

/-- How to reach the service. -/
structure DirectoryConfig where
  account : String := ""
  apiUrl : String := "https://api.dynatrace.com/iam/v1"
  bearerToken : Option String := none
  timeoutSeconds : Nat := 30
  /-- The attempts after the first one. -/
  maxRetries : Nat := 3
  cacheTtlSeconds : Nat := 300
  cacheCapacity : Nat := Cache.defaultCapacity
  deriving DecidableEq, Repr

namespace DirectoryConfig

/-- The number that a variable's text stands for: digits, with a `+` in front or not, below
`2 ^ width`. -/
def number? (width : Nat) (s : String) : Option Nat :=
  let digits :=
    match s.toList with
    | '+' :: ds => ds
    | ds => ds
  let n := natOfDigits digits
  if !digits.isEmpty && digits.all Char.isDigit && n < Nat.pow 2 width then some n else none

/-- The configuration of an environment; what it does not give, or not as a number, is the
default. -/
def ofEnvironment (env : String → Option String) : DirectoryConfig :=
  let standard : DirectoryConfig := {}
  let number := fun width name default => ((env name).bind (number? width)).getD default
  { account := (env "DTIAM_ACCOUNT_UUID").getD standard.account
    apiUrl := (env "DTIAM_API_URL").getD standard.apiUrl
    bearerToken := env "DTIAM_BEARER_TOKEN"
    timeoutSeconds := number 64 "DTIAM_TIMEOUT_SECS" standard.timeoutSeconds
    maxRetries := number 32 "DTIAM_MAX_RETRIES" standard.maxRetries
    cacheTtlSeconds := number 64 "DTIAM_CACHE_TTL_SECS" standard.cacheTtlSeconds
    cacheCapacity := number 64 "DTIAM_CACHE_CAPACITY" standard.cacheCapacity }

variable (c : DirectoryConfig)

/-- Whether the service can be reached with the configuration. -/
def validate : Except ConfigError Unit :=
  if c.account.isEmpty then .error (.missing "DTIAM_ACCOUNT_UUID")
  else if c.bearerToken.isNone then .error (.missing "DTIAM_BEARER_TOKEN")
  else if !c.apiUrl.startsWith "http://" && !c.apiUrl.startsWith "https://" then
    .error (.invalid "DTIAM_API_URL" ("expected an http(s) URL, got '" ++ c.apiUrl ++ "'"))
  else .ok ()

/-- The time limit of a request. -/
def timeout : Duration := .ofSeconds c.timeoutSeconds

/-- For how long an answer is kept. -/
def cacheTtl : Duration := .ofSeconds c.cacheTtlSeconds

/-- The standard policy with one attempt more than retries, but no more than 32 bits can count. -/
def retryPolicy : RetryPolicy :=
  { RetryPolicy.standard with maxAttempts := min (c.maxRetries + 1) (Nat.pow 2 32 - 1) }

/-- The text without slashes at its start. -/
def dropSlashes (s : String) : String := .ofList (s.toList.dropWhile (· == '/'))

/-- The text without slashes at its end. -/
def dropSlashesEnd (s : String) : String :=
  .ofList (s.toList.reverse.dropWhile (· == '/')).reverse

/-- The address of a path below the service's address. -/
def url (path : String) : String := dropSlashesEnd c.apiUrl ++ "/" ++ dropSlashes path

/-- The address of a resource of the account. -/
def accountUrl (path : String) : String :=
  c.url ("accounts/" ++ c.account ++ "/" ++ dropSlashes path)

/-- The address of a resource of the account's repository. -/
def repositoryUrl (path : String) : String :=
  c.url ("repo/account/" ++ c.account ++ "/" ++ dropSlashes path)

end DirectoryConfig

/-! ### Wire form -/

open Json in
instance : Wire DirectoryConfig where
  toJson c := .obj [("account_uuid", .str c.account), ("api_url", .str c.apiUrl),
    ("bearer_token", c.bearerToken.elim .null .str), ("timeout_secs", .ofNat c.timeoutSeconds),
    ("max_retries", .ofNat c.maxRetries), ("cache_ttl_secs", .ofNat c.cacheTtlSeconds),
    ("cache_capacity", .ofNat c.cacheCapacity)]
  ofJson? j := do
    let f ← j.fields? ["account_uuid", "api_url", "bearer_token", "timeout_secs", "max_retries",
      "cache_ttl_secs", "cache_capacity"]
    return {
      account := ← f.required "account_uuid" asString?
      apiUrl := ← f.required "api_url" asString?
      bearerToken := ← f.nullable "bearer_token" asString?
      timeoutSeconds := ← f.required "timeout_secs" (asNat? 64)
      maxRetries := ← f.required "max_retries" (asNat? 32)
      cacheTtlSeconds := ← f.required "cache_ttl_secs" (asNat? 64)
      cacheCapacity := ← f.required "cache_capacity" (asNat? 64) }

end Entitlements
