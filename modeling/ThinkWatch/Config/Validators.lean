import ThinkWatch.Config.Settings
import ThinkWatch.Lib.Result
import ThinkWatch.Policy.Constraints
import ThinkWatch.Validation

/-!
# The two validators of a settings update

An update of the settings goes through `validate_setting` of
`crates/server/src/handlers/admin/settings.rs` and then, in `DynamicConfig::update`, through the
`validate_setting` of `crates/common/src/dynamic_config.rs`, which is the only one on other ways to
write a setting. The arms of the second are tried in order, and its first one takes every key with
a suffix of time.
-/

namespace ThinkWatch.Config

open Lib Policy

/-- `Value::as_bool`. -/
def asBool : Json → Option Bool
  | .bool b => some b
  | _ => none

/-! ## Host names -/

/-- What `bare_host` takes from the standard library and from the `url` crate. -/
structure HostParsers where
  isIpv6 : String → Bool
  parseHost : String → Option String

/-- The characters of a host name or an IP address. -/
def isHostChar (c : Char) : Bool :=
  c.isAlphanum || ['.', '-', '_', ':', '[', ']'].contains c

/-- `bare_host` of `crates/common/src/validation.rs`. -/
def bareHost (parsers : HostParsers) (host : String) : Option String := do
  let host := trim host
  if host.isEmpty then none
  let parsed ← parsers.parseHost (if parsers.isIpv6 host then s!"[{host}]" else host)
  if parsed.toList.all isHostChar then some parsed else none

/-! ## The validator of the store -/

namespace DynamicConfig

variable (parsers : HostParsers)

def expectI64 (key what : String) (value : Json) : Except String Int :=
  orRefuse value.asI64 s!"{key}: expected {what}"

def expectStr (key what : String) (value : Json) : Except String String :=
  orRefuse value.asStr s!"{key}: expected {what}"

def expectBool (key : String) (value : Json) : Except String Unit := do
  let _ ← orRefuse (asBool value) s!"{key}: expected a boolean value"

/-- An integer in a range, or the message that says which. -/
def expectInRange (key what : String) (lo hi : Int) (range : String) (value : Json) :
    Except String Unit := do
  let n ← expectI64 key what value
  refuseIf (¬(lo ≤ n ∧ n ≤ hi)) s!"{key}: {range}"

/-- A string out of a list, or the message that names them. -/
def expectOneOf (key : String) (values : List String) (names : String) (value : Json) :
    Except String Unit := do
  let s ← expectStr key "a string" value
  refuseIf (s ∉ values) s!"{key}: must be {names}"

def hasTimeSuffix (key : String) : Bool :=
  ["_secs", "_days", "_hours"].any fun suffix => suffix.toList.isSuffixOf key.toList

def validateJwtAccessTtl (key : String) (value : Json) : Except String Unit :=
  expectInRange key "integer" 60 86400 "must be between 60 and 86400 seconds" value

def validateJwtRefreshTtl (key : String) (value : Json) : Except String Unit :=
  expectInRange key "integer" 1 365 "must be between 1 and 365 days" value

def validatePublicHost (key : String) (value : Json) : Except String Unit := do
  let s ← expectStr key "a string" value
  refuseIf (253 < s.utf8ByteSize) s!"{key}: host too long"
  refuseIf (s ≠ "" ∧ bareHost parsers s = none)
    s!"{key}: must be a host name or an IP address only (no scheme, port, path or user)"

def validateIssuerUrl (key : String) (value : Json) : Except String Unit := do
  let s ← expectStr key "a string" value
  refuseIf (s ≠ "" ∧ ¬ "https://".toList <+: s.toList ∧ ¬ "http://".toList <+: s.toList)
    s!"{key}: must be a valid http/https URL"

/-- `validate_setting`. -/
def validateSetting (key : String) (value : Json) : Except String Unit :=
  if hasTimeSuffix key then do
    let n ← expectI64 key "an integer value" value
    refuseIf (n < 0) s!"{key}: value must be non-negative, got {n}"
  else
    match key with
    | "auth.jwt_access_ttl_secs" => validateJwtAccessTtl key value
    | "auth.jwt_refresh_ttl_days" => validateJwtRefreshTtl key value
    | "setup.initialized" | "auth.allow_registration" | "security.rate_limit_fail_closed"
    | "security.totp_required" => expectBool key value
    | "mcp_store.registry_url" | "auth.default_role" => do
      let _ ← expectStr key "a string" value
    | "security.client_ip_source" =>
      expectOneOf key ["connection", "xff", "x-real-ip"] "\"connection\", \"xff\", or \"x-real-ip\""
        value
    | "security.client_ip_xff_position" =>
      expectOneOf key ["left", "right"] "\"left\" or \"right\"" value
    | "security.client_ip_xff_depth" =>
      expectInRange key "an integer" 1 20 "must be between 1 and 20" value
    | "gateway.default_routing_strategy" =>
      expectOneOf key ["weighted", "latency", "health", "latency_health"]
        "one of \"weighted\", \"latency\", \"health\", \"latency_health\"" value
    | "general.public_protocol" =>
      expectOneOf key ["", "http", "https"] "\"http\", \"https\", or empty for auto-detect" value
    | "general.public_host" => validatePublicHost parsers key value
    | "general.public_port" =>
      expectInRange key "an integer" 0 65535 "must be between 0 and 65535 (0 = auto)" value
    | "setup.site_name" => do
      let s ← expectStr key "a string value" value
      refuseIf (s = "" ∨ 200 < s.utf8ByteSize) s!"{key}: must be between 1 and 200 characters"
    | "oidc.enabled" => expectBool key value
    | "oidc.issuer_url" => validateIssuerUrl key value
    | "oidc.client_id" | "oidc.redirect_url" | "oidc.client_secret_encrypted" => do
      let _ ← expectStr key "a string" value
    | _ => .ok ()

end DynamicConfig

/-! ## Lifetimes of a session -/

def accessTtlKey : String := "auth.jwt_access_ttl_secs"

def refreshTtlKey : String := "auth.jwt_refresh_ttl_days"

/-- The value passes both validators, in the order of an update. -/
def PassesBoth (parsers : HostParsers) (key : String) (value : Json) : Prop :=
  validateSetting key value.asI64 = .ok () ∧
    DynamicConfig.validateSetting parsers key value = .ok ()

/-- The value is an integer of a range. -/
def IntegerIn (lo hi : Int) (value : Json) : Prop := ∃ n, value = .int n ∧ lo ≤ n ∧ n ≤ hi

variable {parsers : HostParsers} {key : String} {value : Json}

theorem asI64_eq_some {n : Int} :
    value.asI64 = some n ↔ value = .int n ∧ -2 ^ 63 ≤ n ∧ n < 2 ^ 63 := by
  cases value with
  | int m =>
    simp only [Json.asI64, Option.ite_none_right_eq_some, Option.some.injEq, Json.int.injEq]
    constructor
    · rintro ⟨h, rfl⟩
      exact ⟨rfl, h⟩
    · rintro ⟨rfl, h⟩
      exact ⟨h, rfl⟩
  | _ => simp [Json.asI64]

/-- The arm for a key with a suffix of time is the first: the ones below it are not reached. -/
theorem dynamic_ok_of_timeSuffix (hkey : DynamicConfig.hasTimeSuffix key = true) :
    DynamicConfig.validateSetting parsers key value = .ok () ↔ IntegerIn 0 (2 ^ 63 - 1) value := by
  unfold DynamicConfig.validateSetting DynamicConfig.expectI64 IntegerIn
  rw [if_pos hkey, bind_ok]
  simp only [orRefuse_ok, refuseIf_ok, asI64_eq_some]
  constructor
  · rintro ⟨n, ⟨rfl, -, hlt⟩, hpos⟩
    exact ⟨n, rfl, by omega, by omega⟩
  · rintro ⟨n, rfl, hpos, hlt⟩
    exact ⟨n, ⟨rfl, by omega, by omega⟩, by omega⟩

theorem handler_ok {hi : Int} (hkey : positiveIntBound key = some hi) (hhi : hi < 2 ^ 63) :
    validateSetting key value.asI64 = .ok () ↔ IntegerIn 1 hi value := by
  unfold validateSetting IntegerIn
  rw [hkey]
  simp only
  cases h : value.asI64 with
  | none =>
    simp only [validateInRange, reduceCtorEq, false_iff]
    rintro ⟨n, rfl, hlo, hle⟩
    have hsome : (Json.int n).asI64 = some n := asI64_eq_some.mpr ⟨rfl, by omega, by omega⟩
    rw [h] at hsome
    cases hsome
  | some n =>
    obtain ⟨rfl, -⟩ := asI64_eq_some.mp h
    rw [validateInRange_ok]
    simp

/-- The integers of one range are all in another when none is below it or above it. -/
theorem integerIn_imp_iff {a b lo hi : Int} (ha : a ≤ lo) (hle : lo ≤ hi) (hb : hi ≤ b) :
    (IntegerIn a b value → IntegerIn lo hi value) ↔
      ¬ IntegerIn a (lo - 1) value ∧ ¬ IntegerIn (hi + 1) b value := by
  constructor
  · intro h
    constructor
    · rintro ⟨n, rfl, hge, hlt⟩
      obtain ⟨m, hm, hlo, -⟩ := h ⟨n, rfl, hge, by omega⟩
      cases hm
      omega
    · rintro ⟨n, rfl, hgt, hle⟩
      obtain ⟨m, hm, -, hhi⟩ := h ⟨n, rfl, by omega, hle⟩
      cases hm
      omega
  · rintro ⟨hbelow, habove⟩ ⟨n, rfl, hlo, hle⟩
    refine ⟨n, rfl, ?_, ?_⟩
    · by_contra hlt
      exact hbelow ⟨n, rfl, hlo, by omega⟩
    · by_contra hgt
      exact habove ⟨n, rfl, by omega, hle⟩

theorem access_passesBoth : PassesBoth parsers accessTtlKey value ↔ IntegerIn 1 86400 value := by
  unfold PassesBoth
  rw [@handler_ok accessTtlKey _ 86400 rfl (by decide), dynamic_ok_of_timeSuffix (by decide)]
  constructor
  · exact And.left
  · rintro ⟨n, rfl, hlo, hle⟩
    exact ⟨⟨n, rfl, hlo, hle⟩, n, rfl, by omega, by omega⟩

theorem refresh_passesBoth : PassesBoth parsers refreshTtlKey value → IntegerIn 1 365 value :=
  fun h => (handler_ok rfl (by decide)).mp h.1

/--
Of the values that an update may set, the lifetimes of an access token that are too short are those
below a minute; those of a refresh token are right. The validator of the store alone also lets
through zero and everything that is too long.
-/
theorem lifetimes_bounded_iff (parsers : HostParsers) (value : Json) :
    ((PassesBoth parsers accessTtlKey value → IntegerIn 60 86400 value) ↔
      ¬ IntegerIn 1 59 value) ∧
    (PassesBoth parsers refreshTtlKey value → IntegerIn 1 365 value) ∧
    ((DynamicConfig.validateSetting parsers accessTtlKey value = .ok () →
        IntegerIn 60 86400 value) ↔
      ¬ IntegerIn 0 59 value ∧ ¬ IntegerIn 86401 (2 ^ 63 - 1) value) ∧
    ((DynamicConfig.validateSetting parsers refreshTtlKey value = .ok () →
        IntegerIn 1 365 value) ↔
      ¬ IntegerIn 0 0 value ∧ ¬ IntegerIn 366 (2 ^ 63 - 1) value) := by
  refine ⟨?_, refresh_passesBoth, ?_, ?_⟩
  · rw [access_passesBoth, integerIn_imp_iff (by decide) (by decide) (by decide)]
    refine and_iff_left ?_
    rintro ⟨n, -, hlo, hle⟩
    omega
  · rw [dynamic_ok_of_timeSuffix (by decide), integerIn_imp_iff (by decide) (by decide) (by decide)]
    rfl
  · rw [dynamic_ok_of_timeSuffix (by decide), integerIn_imp_iff (by decide) (by decide) (by decide)]
    rfl

theorem lifetimes_bounded_iff_hour :
    IntegerIn 1 365 (.int 7) ∧
      (PassesBoth ⟨fun _ => false, fun _ => none⟩ accessTtlKey (.int 3600) →
        IntegerIn 60 86400 (.int 3600)) :=
  ⟨(lifetimes_bounded_iff ⟨fun _ => false, fun _ => none⟩ (.int 7)).2.1 ⟨rfl, rfl⟩,
    (lifetimes_bounded_iff ⟨fun _ => false, fun _ => none⟩ (.int 3600)).1.mpr
      fun ⟨n, hn, _, hle⟩ => by cases hn; omega⟩

/-- A lifetime of one second passes both validators. -/
theorem one_second_accepted :
    validateSetting "auth.jwt_access_ttl_secs" (Json.int 1).asI64 = .ok () ∧
      (∀ parsers, DynamicConfig.validateSetting parsers "auth.jwt_access_ttl_secs" (.int 1) =
        .ok ()) ∧
      ¬ IntegerIn 60 86400 (.int 1) :=
  ⟨by decide +kernel, fun _ => rfl, fun ⟨n, hn, hle, _⟩ => by cases hn; omega⟩

end ThinkWatch.Config
