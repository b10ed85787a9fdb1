import ThinkWatch.Errors

/-!
# Integer settings

`validate_setting` of `crates/server/src/handlers/admin/settings.rs`, for the settings whose value
is an integer in a range, and the getters of `crates/common/src/dynamic_config.rs` that read them.
A value is what `as_i64` makes of the JSON (`none` when it is not an integer).
-/

namespace ThinkWatch.Config

def maxRetentionDays : Int := 36500

def signatureDriftMaxSecs : Int := 300

def retryWaitMaxSecs : Int := 600

/-! ## Validation -/

/-- `positive_int_bound`: the largest value of a setting that must be at least one. -/
def positiveIntBound : String → Option Int
  | "auth.jwt_access_ttl_secs" => some 86400
  | "auth.jwt_refresh_ttl_days" => some 365
  | "gateway.cache_ttl_secs" => some 86400
  | "gateway.request_timeout_secs" => some 600
  | "gateway.body_limit_bytes" => some (100 * 1024 * 1024)
  | "console.request_timeout_secs" => some 600
  | "console.body_limit_bytes" => some (100 * 1024 * 1024)
  | "security.signature_nonce_ttl_secs" => some 3600
  | "audit.batch_size" => some 10000
  | "audit.flush_interval_secs" => some 300
  | "audit.channel_capacity" => some 1000000
  | "audit.body_retention_days" => some maxRetentionDays
  | "audit.body_s3_lifecycle_days" => some maxRetentionDays
  | "api_keys.rotation_grace_period_hours" => some (24 * 30)
  | _ => none

/-- The other integer settings: the range, and the name the message gives the setting. -/
def intRange : String → Option (Int × Int × String)
  | "security.signature_drift_secs" =>
    some (1, signatureDriftMaxSecs, "security.signature_drift_secs")
  | "mcp.health_interval_secs" => some (5, 86400, "mcp.health_interval_secs")
  | "mcp.session_ttl_secs" => some (60, 86400, "mcp.session_ttl_secs")
  | "mcp.cache_ttl_secs" => some (0, 86400, "mcp.cache_ttl_secs")
  | "api_keys.default_expiry_days" => some (0, maxRetentionDays, "api_keys.default_expiry_days")
  | "api_keys.inactivity_timeout_days" =>
    some (0, maxRetentionDays, "api_keys.inactivity_timeout_days")
  | "api_keys.rotation_period_days" => some (0, maxRetentionDays, "api_keys.rotation_period_days")
  | "data.retention_days_audit" => some (0, maxRetentionDays, "data.retention_days_audit")
  | "data.retention_days_gateway" => some (0, maxRetentionDays, "data.retention_days_gateway")
  | "data.retention_days_mcp" => some (0, maxRetentionDays, "data.retention_days_mcp")
  | "data.retention_days_access" => some (0, maxRetentionDays, "data.retention_days_access")
  | "data.retention_days_app" => some (0, maxRetentionDays, "data.retention_days_app")
  | "security.client_ip_xff_depth" => some (1, 20, "client_ip_xff_depth")
  | "general.public_port" => some (0, 65535, "public_port")
  | "gateway.default_affinity_ttl_secs" => some (0, 86400, "default_affinity_ttl_secs")
  | "gateway.retry_wait_secs" => some (0, retryWaitMaxSecs, "retry_wait_secs")
  | "gateway.cb_error_pct" => some (1, 100, "cb_error_pct")
  | "gateway.cb_min_samples" => some (1, 100000, "cb_min_samples")
  | "gateway.cb_window_secs" => some (5, 3600, "cb_window_secs")
  | "gateway.cb_open_secs" => some (1, 3600, "cb_open_secs")
  | _ => none

/-- The check that every integer setting goes through. -/
def validateInRange (key name : String) (lo hi : Int) (value : Option Int) :
    Except AppError Unit :=
  match value with
  | none => .error (.badRequest s!"{key} must be an integer")
  | some v =>
    if lo ≤ v ∧ v ≤ hi then .ok ()
    else .error (.badRequest s!"{name} must be between {lo} and {hi}")

/-- `validate_setting` on the integer settings. Settings of other types are not modelled. -/
def validateSetting (key : String) (value : Option Int) : Except AppError Unit :=
  match positiveIntBound key with
  | some max => validateInRange key key 1 max value
  | none =>
    match intRange key with
    | some (lo, hi, name) => validateInRange key name lo hi value
    | none => .error (.badRequest s!"Unknown setting: {key}")

theorem validateInRange_ok (key name : String) {lo hi v : Int} :
    validateInRange key name lo hi (some v) = .ok () ↔ lo ≤ v ∧ v ≤ hi := by
  simp only [validateInRange]
  split
  · next h => simp [h]
  · next h => simp [h]

theorem validateSetting_drift {v : Int} :
    validateSetting "security.signature_drift_secs" (some v) = .ok () ↔ 1 ≤ v ∧ v ≤ 300 :=
  validateInRange_ok "security.signature_drift_secs" _

theorem validateSetting_nonceTtl {v : Int} :
    validateSetting "security.signature_nonce_ttl_secs" (some v) = .ok () ↔ 1 ≤ v ∧ v ≤ 3600 :=
  validateInRange_ok "security.signature_nonce_ttl_secs" _

theorem validateSetting_cbWindow {v : Int} :
    validateSetting "gateway.cb_window_secs" (some v) = .ok () ↔ 5 ≤ v ∧ v ≤ 3600 :=
  validateInRange_ok "gateway.cb_window_secs" _

theorem validateSetting_cbOpen {v : Int} :
    validateSetting "gateway.cb_open_secs" (some v) = .ok () ↔ 1 ≤ v ∧ v ≤ 3600 :=
  validateInRange_ok "gateway.cb_open_secs" _

/-! ## Getters -/

/-- The integer settings in the cache of `DynamicConfig`. -/
abbrev DynamicConfig := String → Option Int

namespace DynamicConfig

/-- Clamped on every read. -/
def signatureDriftSecs (c : DynamicConfig) : Int :=
  max 1 (min signatureDriftMaxSecs ((c "security.signature_drift_secs").getD 300))

def signatureNonceTtlSecs (c : DynamicConfig) : Int :=
  (c "security.signature_nonce_ttl_secs").getD 600

def jwtRefreshTtlDays (c : DynamicConfig) : Int := (c "auth.jwt_refresh_ttl_days").getD 7

/-- Clamped on every read, as the cooldown is. -/
def cbWindowSecs (c : DynamicConfig) : Int :=
  max 5 (min 3600 ((c "gateway.cb_window_secs").getD 60))

def cbOpenSecs (c : DynamicConfig) : Int :=
  max 1 (min 3600 ((c "gateway.cb_open_secs").getD 30))

end DynamicConfig

end ThinkWatch.Config
