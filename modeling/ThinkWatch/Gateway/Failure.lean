import Mathlib.Tactic.Common

/-!
# How an attempt's error counts

`crates/gateway/src/error.rs` (`GatewayError` with its tag, status and text), the two
classifications made of it, `is_upstream_failure` (`proxy/routing.rs`) and `is_transient`
(`proxy/retry.rs`), and what a request records against its route when an attempt ends in an
error: a buffered request in `select_route_with_failover`, a streamed one in the pump, in
`record_outcome` (`lifecycle/mod.rs`) and in `finalize_health`.
-/

namespace ThinkWatch.Gateway

/-! ## `GatewayError` -/

/-- Statuses are wire numbers, waits milliseconds. -/
inductive GatewayError where
  | providerError (said : String)
  | providerHttpError (status : Nat) (message : String) (retryAfter : Option Nat)
  | providerTimeout (said : String)
  | providerInvalidResponse (said : String)
  | transformError (said : String)
  | networkError (said : String)
  | upstreamRateLimited (retryAfterSecs : Option Nat)
  | upstreamAuthError (status : Nat) (message : String)
  | localRateLimited (label : String) (retryAfterSecs : Nat) (retry : Bool)
  | policyBlocked (said : String)
  | sealedHistoryRefused (status : Nat) (provider said : String)
  | sealedHistoryUnavailable (provider model : String)
  | upstreamTooSlow (provider : String) (rate min secs : Nat)
deriving DecidableEq, Repr

namespace GatewayError

def statusCode : GatewayError → Nat
  | providerError _ => 502
  | providerHttpError status _ _ => status
  | providerTimeout _ => 504
  | providerInvalidResponse _ => 502
  | transformError _ => 400
  | networkError _ => 502
  | upstreamRateLimited _ => 429
  | localRateLimited _ _ _ => 429
  | upstreamAuthError _ _ => 401
  | policyBlocked _ => 403
  | sealedHistoryRefused status _ _ => status
  | sealedHistoryUnavailable _ _ => 409
  | upstreamTooSlow _ _ _ _ => 503

def errorTag : GatewayError → String
  | providerError _ => "ProviderError"
  | providerHttpError _ _ _ => "ProviderHttpError"
  | providerTimeout _ => "ProviderTimeout"
  | providerInvalidResponse _ => "ProviderInvalidResponse"
  | transformError _ => "TransformError"
  | networkError _ => "NetworkError"
  | upstreamRateLimited _ => "UpstreamRateLimited"
  | localRateLimited _ _ _ => "LocalRateLimited"
  | upstreamAuthError _ _ => "UpstreamAuthError"
  | policyBlocked _ => "PolicyBlocked"
  | sealedHistoryRefused _ _ _ => "SealedHistoryRefused"
  | sealedHistoryUnavailable _ _ => "SealedHistoryUnavailable"
  | upstreamTooSlow _ _ _ _ => "UpstreamTooSlow"

/-- `err.to_string()`. -/
def display : GatewayError → String
  | providerError said => "Provider error: " ++ said
  | providerHttpError status message _ => "Provider HTTP " ++ toString status ++ ": " ++ message
  | providerTimeout said => "Provider timeout: " ++ said
  | providerInvalidResponse said => "Provider returned invalid response: " ++ said
  | transformError said => "Request transform error: " ++ said
  | networkError said => "Network error: " ++ said
  | upstreamRateLimited _ => "Rate limited by upstream"
  | upstreamAuthError _ _ => "Authentication failed with upstream"
  | localRateLimited label _ _ => "Rate limited: " ++ label
  | policyBlocked said => "Blocked by policy: " ++ said
  | sealedHistoryRefused _ provider said =>
    "Provider `" ++ provider ++ "` cannot read this conversation's encrypted history: another " ++
      "provider encrypted it, and only that one can read it. Route the conversation back to " ++
      "that provider, or start a new conversation. The provider said: " ++ said
  | sealedHistoryUnavailable provider model =>
    "This conversation's history is encrypted by provider `" ++ provider ++ "`, which can no " ++
      "longer serve model `" ++ model ++ "`, and no other provider can read it. Start a new " ++
      "conversation."
  | upstreamTooSlow provider rate min secs =>
    "Upstream `" ++ provider ++ "` generated " ++ toString rate ++ " tokens per second over the " ++
      "last " ++ toString secs ++ " seconds, below the minimum of " ++ toString min ++ "."

end GatewayError

/-! ## The two classifications -/

/-- Did the upstream fail, as opposed to refusing this request? From a tag and a status. -/
def fails (errorTag : String) (status : Nat) : Bool :=
  if errorTag = "ProviderHttpError" then decide (status ≥ 500) || status == 408
  else if errorTag = "TransformError" ∨ errorTag = "PolicyBlocked" ∨
      errorTag = "LocalRateLimited" ∨ errorTag = "SealedHistoryRefused" ∨
      errorTag = "SealedHistoryUnavailable" then false
  else true

def isUpstreamFailure (e : GatewayError) : Bool := fails e.errorTag e.statusCode

/-- Did the upstream fail for the moment? -/
def transient (errorTag : String) (status : Nat) : Bool :=
  if errorTag = "ProviderHttpError" then
    status == 500 || status == 502 || status == 503 || status == 504 || status == 529
  else errorTag == "NetworkError" || errorTag == "transport"

def isTransient (e : GatewayError) : Bool := transient e.errorTag e.statusCode

/-- What is sent again is a failure. -/
theorem fails_of_transient {errorTag : String} {status : Nat}
    (h : transient errorTag status = true) : fails errorTag status = true := by
  unfold transient at h
  unfold fails
  split at h
  next htag =>
    simp only [htag, if_true]
    simp only [Bool.or_eq_true, beq_iff_eq] at h
    simp only [Bool.or_eq_true, decide_eq_true_eq]
    left
    omega
  next htag =>
    simp only [Bool.or_eq_true, beq_iff_eq] at h
    rw [if_neg htag]
    rcases h with rfl | rfl <;> decide

theorem isUpstreamFailure_of_isTransient {e : GatewayError} (h : isTransient e = true) :
    isUpstreamFailure e = true :=
  fails_of_transient h

/-! ## What is recorded against the route -/

/-- A sample of `HealthTracker::record`, by its `is_error`. -/
inductive Sample where
  | success
  | error
deriving DecidableEq, Repr

/-- How a stream ended. -/
inductive StreamOutcome where
  | natural
  | clientCancelled
  | upstreamError (errorType message : String) (statusCode : Nat)
deriving DecidableEq, Repr

/-- The outcome the pump tells for an error. -/
def told (e : GatewayError) : StreamOutcome := .upstreamError e.errorTag e.display e.statusCode

/-- The `success` of `record_outcome` on a streaming view. -/
def StreamOutcome.success : StreamOutcome → Bool
  | natural => true
  | clientCancelled => true
  | upstreamError errorType _ statusCode => !fails errorType statusCode

/-- `finalize_health`. -/
def finalizeHealth (counted success : Bool) : Option Sample :=
  if counted then none else some (if success then .success else .error)

/-- The last two arms of an attempt's `match` in `select_route_with_failover`. -/
def bufferedSample (e : GatewayError) : Option Sample :=
  if isUpstreamFailure e then some .error
  else
    match e with
    | .providerHttpError _ _ _ => some .success
    | .sealedHistoryRefused _ _ _ => some .success
    | _ => none

/--
An attempt of a stream that ends in `e` before any of the answer. Sent again, `Resend::admit`
recorded an error; otherwise the outcome is told and the tail records it.
-/
def streamedSample (e : GatewayError) (resent : Bool) : Option Sample :=
  if resent then some .error else finalizeHealth false (told e).success

/-- The errors of the gateway's own making. -/
def GatewayError.ownMaking : GatewayError → Bool
  | transformError _ => true
  | policyBlocked _ => true
  | localRateLimited _ _ _ => true
  | sealedHistoryUnavailable _ _ => true
  | _ => false

theorem streamedSample_told (e : GatewayError) :
    streamedSample e false = some (if isUpstreamFailure e then .error else .success) := by
  change some (if !fails e.errorTag e.statusCode then Sample.success else .error) = _
  unfold isUpstreamFailure
  cases fails e.errorTag e.statusCode <;> rfl

/-- Resending does not change what is recorded: only a failure is sent again. -/
theorem streamedSample_resent {e : GatewayError} {resent : Bool}
    (h : resent = true → isTransient e = true) :
    streamedSample e resent = streamedSample e false := by
  cases resent with
  | false => rfl
  | true =>
    rw [streamedSample_told, isUpstreamFailure_of_isTransient (h rfl)]
    rfl

/-- The gateway's own errors are no failures, and nothing is recorded for them when buffered. -/
theorem bufferedSample_ownMaking {e : GatewayError} (h : e.ownMaking = true) :
    isUpstreamFailure e = false ∧ bufferedSample e = none := by
  cases e with
  | transformError _ | policyBlocked _ | localRateLimited _ _ _ | sealedHistoryUnavailable _ _ =>
    exact ⟨rfl, rfl⟩
  | _ => cases h

/-- Every other error is recorded by whether the upstream failed. -/
theorem bufferedSample_upstream {e : GatewayError} (h : e.ownMaking = false) :
    bufferedSample e = some (if isUpstreamFailure e then .error else .success) := by
  unfold bufferedSample
  cases hf : isUpstreamFailure e with
  | true => rfl
  | false =>
    cases e with
    | providerHttpError _ _ _ => rfl
    | sealedHistoryRefused _ _ _ => rfl
    | transformError _ | policyBlocked _ | localRateLimited _ _ _ | sealedHistoryUnavailable _ _ =>
      cases h
    | _ => cases hf

/--
Streamed and buffered requests record the same of an attempt's error exactly when it is not of
the gateway's own making.
-/
theorem samples_agree_iff (e : GatewayError) (resent : Bool)
    (h : resent = true → isTransient e = true) :
    streamedSample e resent = bufferedSample e ↔ e.ownMaking = false := by
  rw [streamedSample_resent h, streamedSample_told]
  cases hown : e.ownMaking with
  | false => exact iff_of_true (bufferedSample_upstream hown).symm rfl
  | true =>
    obtain ⟨hf, hb⟩ := bufferedSample_ownMaking hown
    rw [hf, hb]
    exact iff_of_false nofun nofun

/-- An overloaded upstream counts as an error on both paths, also when the stream is sent again. -/
theorem samples_agree_overloaded :
    (streamedSample (.providerHttpError 503 "overloaded" none) true =
        bufferedSample (.providerHttpError 503 "overloaded" none)) ↔
      (GatewayError.providerHttpError 503 "overloaded" none).ownMaking = false :=
  samples_agree_iff _ true fun _ => by decide

/-- The pump's memory refusal counts as a success of the route; buffered it does not count. -/
theorem memory_refusal_recorded :
    streamedSample (.localRateLimited "gateway_memory" 1 true) false = some .success ∧
      bufferedSample (.localRateLimited "gateway_memory" 1 true) = none := by
  decide

end ThinkWatch.Gateway
