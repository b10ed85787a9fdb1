import ThinkWatch.Mcp.SseBroken

/-!
# What counts against the breaker of an MCP server

`record_outcome` and `response_for_hooks` of `crates/mcp-gateway/src/lifecycle/mod.rs`,
`record_breaker_for_response` of `proxy.rs`, and `error_response` of `pool.rs`. A call that has no
response of its own is given one, whose code is then tested as if the upstream had sent it.
-/

namespace ThinkWatch.Mcp

open Lib Policy ThinkWatch.Gateway

/-! ## How a call ends -/

/-- `resources::ReadError`. -/
inductive ReadError where
  | tooLarge
  | busy
  | transport (said : String)

def ReadError.display : ReadError → String
  | tooLarge => "The response exceeds the gateway buffering limit"
  | busy => "The gateway buffering budget is occupied; retry shortly"
  | transport said => said

inductive PoolError where
  | requestFailed (said : String)
  | upstreamError (status : Nat) (body : String)
  | parseError (said : String)
  | buffering (e : ReadError)

def PoolError.display : PoolError → String
  | requestFailed said => s!"HTTP request to upstream MCP server failed: {said}"
  | upstreamError status body => s!"Upstream MCP server returned non-success status {status}: {body}"
  | parseError said => s!"Failed to parse upstream JSON-RPC response: {said}"
  | buffering e => e.display

/-- `matches!(error, PoolError::Buffering(ReadError::Busy))`. -/
def PoolError.isBusy : PoolError → Bool
  | buffering .busy => true
  | _ => false

def errorResponse (id : Option Json) (error : PoolError) : JsonRpcResponse :=
  errResponse id (if error.isBusy then resourceBusy else internalError)
    s!"Upstream server error: {error.display}"

variable {parse : String → Option Json} {requestId : Option Json}

/-- A call whose answer is streamed: what the source of its body gives, how far the body gets before
it ends or is dropped, and what the tail finds. -/
structure StreamedCall (parse : String → Option Json) (requestId : Option Json) where
  source : List Incoming
  ran : List Emitted
  outcome : StreamOutcome
  events : List Json
  isPrefix : ran <+: buildPassthroughBody requestId source
  finds : Finds parse ran outcome events

/-- How a `tools/call` ends that has gone to its upstream. -/
inductive CallEnd (parse : String → Option Json) (requestId : Option Json) where
  | replied (response : JsonRpcResponse)
  | failed (error : PoolError)
  | streamed (call : StreamedCall parse requestId)

inductive CapturedView where
  | buffered (response : JsonRpcResponse)
  | streaming (outcome : StreamOutcome) (captured : List Json)

def CallEnd.view : CallEnd parse requestId → CapturedView
  | replied response => .buffered response
  | failed error => .buffered (errorResponse requestId error)
  | streamed call => .streaming call.outcome call.events

/-! ## What is recorded -/

inductive BreakerCall where
  | recordSuccess
  | recordFailure
deriving DecidableEq, Repr

/-- The message of the response that stands for one that did not arrive. -/
def noEnvelopeMessage : StreamOutcome → String
  | .natural => "Upstream stream ended without a response envelope"
  | .upstreamError _ message _ => s!"Upstream stream error: {message}"
  | .clientCancelled => "Client cancelled before upstream replied"

def responseForHooks (requestId : Option Json) : CapturedView → JsonRpcResponse
  | .buffered response => response
  | .streaming outcome captured =>
    match outcome with
    | .upstreamError "gateway_memory" message _ => errResponse requestId resourceBusy message
    | outcome => (pickResponseEnvelope captured requestId).getD
        (errResponse requestId internalError (noEnvelopeMessage outcome))

/-- An internal error, or a server's own. -/
def isServerFailure (code : Int) : Bool := code = internalError || (-32099 ≤ code && code ≤ -32000)

def recordBreakerForResponse (response : JsonRpcResponse) : Option BreakerCall :=
  match response.error with
  | none => some .recordSuccess
  | some error =>
    if error.code = resourceBusy then none
    else if isServerFailure error.code then some .recordFailure
    else some .recordSuccess

def recordOutcome (requestId : Option Json) (view : CapturedView) : Option BreakerCall :=
  match view with
  | .streaming (.upstreamError errorType _ _) _ =>
    if errorType = "gateway_memory" then none else some .recordFailure
  | view => recordBreakerForResponse (responseForHooks requestId view)

/-! ## Faults of the upstream -/

/-- The response carries the code of an internal error or one of a server's own. -/
def JsonRpcResponse.Faulty (response : JsonRpcResponse) : Prop :=
  ∃ error, response.error = some error ∧ isServerFailure error.code = true

/-- A request that failed, a reply that could not be read as a response or was too large, and what a
stream says: an error of its transport, an event without end, an end without a response, and a
response with such a code. -/
def CallEnd.UpstreamFault : CallEnd parse requestId → Prop
  | replied response => response.Faulty
  | failed error => error.isBusy = false
  | streamed call => (∃ message, call.outcome = brokenOutcome message) ∨
      call.outcome = overflowOutcome ∨
      call.outcome = .natural ∧ pickResponseEnvelope call.events requestId = none ∨
      ∃ response, pickResponseEnvelope call.events requestId = some response ∧ response.Faulty

/-- The consumer dropped the body before a response was captured. -/
def CallEnd.ClientLeft : CallEnd parse requestId → Prop
  | streamed call =>
    call.outcome = .clientCancelled ∧ pickResponseEnvelope call.events requestId = none
  | _ => False

def CallEnd.MemoryRefused : CallEnd parse requestId → Prop
  | replied _ => False
  | failed error => error.isBusy = true
  | streamed call => call.outcome = refusedOutcome

/-- A failure is recorded for a fault of the upstream only. -/
def CallEnd.CountsUpstream (e : CallEnd parse requestId) : Prop :=
  (recordOutcome requestId e.view = some .recordFailure → e.UpstreamFault) ∧
    (e.ClientLeft ∨ e.MemoryRefused → recordOutcome requestId e.view ≠ some .recordFailure)

theorem faulty_of_recorded {response : JsonRpcResponse}
    (h : recordBreakerForResponse response = some .recordFailure) : response.Faulty := by
  unfold recordBreakerForResponse at h
  split at h
  next => cases h
  next error herr =>
    split_ifs at h with hbusy hcode
    · exact ⟨error, herr, hcode⟩
    · cases h

/-- What the tail of a stream can find. -/
theorem StreamedCall.outcome_cases (call : StreamedCall parse requestId) :
    call.outcome = .natural ∨ call.outcome = .clientCancelled ∨ call.outcome = refusedOutcome ∨
      call.outcome = overflowOutcome ∨ ∃ message, call.outcome = brokenOutcome message := by
  obtain ⟨source, ran, outcome, events, hpre, hfinds⟩ := call
  cases hfinds with
  | dropped _ => exact .inr (.inl rfl)
  | @told fs outcome hfs hout =>
    have hmem : outcome ∈ outcomes (buildPassthroughBody requestId source) := by
      obtain ⟨t, ht⟩ := hfs.trans hpre
      rw [← ht, outcomes_append]
      exact List.mem_append_left _ (List.mem_of_head? hout)
    rcases outcomes_body requestId source with h | ⟨last, -, h⟩
    · exact .inl (List.mem_singleton.mp (h ▸ hmem))
    · obtain rfl := List.mem_singleton.mp (h ▸ hmem)
      match last with
      | .failed message => exact .inr (.inr (.inr (.inr ⟨message, rfl⟩)))
      | .chunk _ true => exact .inr (.inr (.inr (.inl rfl)))
      | .chunk _ false => exact .inr (.inr (.inl rfl))

/-- A stream that ended by itself, or was left, is recorded by the response among its events. -/
theorem recorded_of_events {outcome : StreamOutcome} {events : List Json}
    (h : outcome = .natural ∨ outcome = .clientCancelled) :
    recordOutcome requestId (.streaming outcome events) =
      recordBreakerForResponse ((pickResponseEnvelope events requestId).getD
        (errResponse requestId internalError (noEnvelopeMessage outcome))) := by
  rcases h with rfl | rfl
  · rfl
  · rfl

theorem CallEnd.not_recorded_refused {e : CallEnd parse requestId} (h : e.MemoryRefused) :
    recordOutcome requestId e.view = none := by
  cases e with
  | replied response => exact h.elim
  | failed error =>
    have hbusy : error.isBusy = true := h
    simp [recordOutcome, CallEnd.view, responseForHooks, errorResponse, hbusy, errResponse,
      recordBreakerForResponse]
  | streamed call =>
    have hout : call.outcome = refusedOutcome := h
    rw [CallEnd.view, hout]
    rfl

/-- The consumer drops the body before the upstream has sent what it would send. -/
def leftAtOnce : CallEnd (fun _ => none) none :=
  .streamed ⟨[.chunk wholeEvent true], [], .clientCancelled, [], List.nil_prefix, .dropped rfl⟩

end ThinkWatch.Mcp
