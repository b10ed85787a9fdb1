import ThinkWatch.Mcp.Breaker

/-!
# The readers of a buffered event stream

`parse_sse_json_rpc` of `crates/mcp-gateway/src/pool.rs`, which keeps every event of a reply and
picks the response among them, and `parse_sse_json` of `crates/server/src/mcp_runtime.rs`, with
which tool discovery reads a reply. Both collect the texts of `data:` lines up to an empty line. The
second stops at the first text that is JSON, whatever it is, so it reads the response only when no
notification comes before it.
-/

namespace ThinkWatch.Mcp

open Lib Policy

variable {parse : String → Option Json} {ls : List (List Char)} {buf : List Char}
  {requestId : Option Json} {es : List Json}

/-! ## `parse_sse_json_rpc` -/

/-- A payload at the end of `data_buf`. -/
def appendData (dataBuf payload : List Char) : List Char :=
  (if dataBuf = [] then [] else dataBuf ++ ['\n']) ++ payload

def maxAuditEvents : Nat := 1024

structure RpcReader where
  events : List Json
  truncatedCount : Nat
  dataBuf : List Char

/-- A response is kept in any case, a notification up to the cap. -/
def RpcReader.push (s : RpcReader) (parsed : Json) : RpcReader :=
  if hasResultOrError parsed || s.events.length < maxAuditEvents then
    { s with events := s.events ++ [parsed], dataBuf := [] }
  else { s with truncatedCount := s.truncatedCount + 1, dataBuf := [] }

def RpcReader.flush (parse : String → Option Json) (s : RpcReader) : RpcReader :=
  if s.dataBuf = [] then s else s.push (parseEvent parse (String.ofList s.dataBuf))

def RpcReader.line (parse : String → Option Json) (s : RpcReader) (line : List Char) : RpcReader :=
  match dataField line with
  | some payload => { s with dataBuf := appendData s.dataBuf payload }
  | none => if line = [] then s.flush parse else s

/-- The marker of what was left out. -/
def truncationMarker (n : Nat) : Json := .obj [("_truncated_events", .int n)]

/-- The events that are kept of a reply. -/
def auditEvents (parse : String → Option Json) (text : List Char) : List Json :=
  let s := ((lines text).foldl (RpcReader.line parse) ⟨[], 0, []⟩).flush parse
  if s.truncatedCount > 0 then s.events ++ [truncationMarker s.truncatedCount] else s.events

/-- The event with the response. -/
def responseEvent (events : List Json) (requestId : Option Json) : Option Json :=
  match requestId with
  | some rid =>
    (events.reverse.find? fun e =>
      match e.get "id" with
      | some id => sameJson id rid && hasResultOrError e
      | none => false).or (events.reverse.find? hasResultOrError)
  | none => events.reverse.find? hasResultOrError

/-- The events go into the audit log as text. What serde says of a response that it cannot read is
left out. -/
def parseSseJsonRpc (parse : String → Option Json) (text : List Char) (requestId : Option Json) :
    Except PoolError (JsonRpcResponse × List Json) :=
  let events := auditEvents parse text
  if events.isEmpty then .error (.parseError "No SSE events found in stream")
  else
    match responseEvent events requestId with
    | none => .error (.parseError
        s!"SSE stream had {events.length} event(s) but none carried a result or error")
    | some e =>
      match JsonRpcResponse.fromValue e with
      | none => .error (.parseError "matched SSE event failed to deserialize")
      | some response => .ok (response, events)

/-! ## `parse_sse_json` -/

def parseSseJsonLoop (parse : String → Option Json) :
    List Char → List (List Char) → Except String Json
  | dataBuf, [] =>
    match if dataBuf = [] then none else parse (String.ofList dataBuf) with
    | some val => .ok val
    | none => .error "No valid JSON found in SSE stream"
  | dataBuf, line :: ls =>
    match dataField line with
    | some payload => parseSseJsonLoop parse (appendData dataBuf payload) ls
    | none =>
      if line = [] ∧ dataBuf ≠ [] then
        -- the first text that is JSON is returned, be it a response or not
        match parse (String.ofList dataBuf) with
        | some val => .ok val
        | none => parseSseJsonLoop parse [] ls
      else parseSseJsonLoop parse dataBuf ls

def parseSseJson (parse : String → Option Json) (text : List Char) : Except String Json :=
  parseSseJsonLoop parse [] (lines text)

/-! ## The texts they read -/

/-- The texts of the events, with what `data_buf` has before the first line. -/
def eventTexts : List Char → List (List Char) → List (List Char)
  | buf, [] => if buf = [] then [] else [buf]
  | buf, line :: ls =>
    match dataField line with
    | some payload => eventTexts (appendData buf payload) ls
    | none =>
      if line = [] then (if buf = [] then [] else [buf]) ++ eventTexts [] ls
      else eventTexts buf ls

/-- The events of a reply, without the cap. -/
def replyEvents (parse : String → Option Json) (text : List Char) : List Json :=
  (eventTexts [] (lines text)).map fun t => parseEvent parse (String.ofList t)

/-- The reader with nothing in `data_buf`. -/
def RpcReader.clear (s : RpcReader) : RpcReader := { s with dataBuf := [] }

theorem RpcReader.clear_of_nil {s : RpcReader} (h : s.dataBuf = []) : s.clear = s := by
  rw [clear, ← h]

theorem RpcReader.push_clear (s : RpcReader) (e : Json) : (s.push e).clear = s.push e := by
  unfold push
  split
  · rfl
  · rfl

/-- The reader keeps the events of the texts. -/
theorem RpcReader.fold_line (s : RpcReader) : (ls.foldl (RpcReader.line parse) s).flush parse =
    ((eventTexts s.dataBuf ls).map fun t => parseEvent parse (String.ofList t)).foldl
      RpcReader.push s.clear := by
  have hflush : ∀ s : RpcReader, s.flush parse =
      ((if s.dataBuf = [] then [] else [s.dataBuf]).map fun t =>
        parseEvent parse (String.ofList t)).foldl RpcReader.push s.clear := by
    intro s
    unfold flush
    split
    next h => exact (clear_of_nil h).symm
    next => rfl
  induction ls generalizing s with
  | nil => exact hflush s
  | cons l ls ih =>
    rw [List.foldl_cons, ih, eventTexts, line]
    cases hl : dataField l with
    | some payload => rfl
    | none =>
      dsimp only
      split
      next =>
        have hclear : (s.flush parse).dataBuf = [] ∧ (s.flush parse).clear = s.flush parse := by
          unfold flush
          split
          next h => exact ⟨h, clear_of_nil h⟩
          next => exact ⟨congrArg dataBuf (s.push_clear _).symm, s.push_clear _⟩
        rw [hclear.1, hclear.2, hflush s, List.map_append, List.foldl_append]
      next => rfl

/-- What is kept of some events: every response, and what is kept is among them in order. -/
theorem filter_foldl_push (s : RpcReader) (es : List Json) :
    (es.foldl RpcReader.push s).events.filter hasResultOrError =
      s.events.filter hasResultOrError ++ es.filter hasResultOrError := by
  induction es generalizing s with
  | nil => simp
  | cons e es ih =>
    rw [List.foldl_cons, ih, RpcReader.push]
    cases he : hasResultOrError e with
    | true => simp [he]
    | false =>
      split
      · simp [he]
      · simp [he]

theorem auditEvents_eq (parse : String → Option Json) (text : List Char) : auditEvents parse text =
    let s := (replyEvents parse text).foldl RpcReader.push ⟨[], 0, []⟩
    if s.truncatedCount > 0 then s.events ++ [truncationMarker s.truncatedCount] else s.events := by
  rw [auditEvents, RpcReader.fold_line]
  rfl

/-- The cap and its marker leave the responses as they are. -/
theorem filter_auditEvents (parse : String → Option Json) (text : List Char) :
    (auditEvents parse text).filter hasResultOrError =
      (replyEvents parse text).filter hasResultOrError := by
  have hkept := filter_foldl_push ⟨[], 0, []⟩ (replyEvents parse text)
  have hmarker : ∀ n, hasResultOrError (truncationMarker n) = false := fun n => rfl
  rw [auditEvents_eq]
  dsimp only
  split
  next =>
    rw [List.filter_append, hkept]
    simp [hmarker]
  next => simpa using hkept

/-! ## The response they find -/

/-- The last event with a result or an error and the id of the request, else the last with
either. -/
def lastResponse (events : List Json) (requestId : Option Json) : Option Json :=
  (pickEvent events requestId true).or (pickEvent events requestId false)

/-- The responses alone decide. -/
theorem pickEvent_filter (withId : Bool) : pickEvent (es.filter hasResultOrError) requestId withId =
    pickEvent es requestId withId := by
  unfold pickEvent
  rw [← List.filter_reverse, List.find?_filter]
  congr 1
  funext e
  cases hasResultOrError e with
  | true => simp
  | false => simp

theorem lastResponse_filter :
    lastResponse (es.filter hasResultOrError) requestId = lastResponse es requestId := by
  rw [lastResponse, pickEvent_filter, pickEvent_filter, lastResponse]

/-- The two pickers find the same event. -/
theorem responseEvent_eq (events : List Json) (requestId : Option Json) :
    responseEvent events requestId = lastResponse events requestId := by
  have hlast : pickEvent events requestId false = events.reverse.find? hasResultOrError := by
    simp [pickEvent]
  cases requestId with
  | none =>
    have hnone : pickEvent events none true = none := by simp [pickEvent]
    rw [lastResponse, hnone, hlast]
    rfl
  | some rid =>
    have hid : pickEvent events (some rid) true = events.reverse.find? fun e =>
        match e.get "id" with
        | some id => sameJson id rid && hasResultOrError e
        | none => false := by
      unfold pickEvent
      congr 1
      funext e
      cases e.get "id" with
      | none => simp
      | some id => simp [Bool.and_comm]
    rw [lastResponse, hid, hlast]
    rfl

theorem responseEvent_auditEvents (parse : String → Option Json) (text : List Char)
    (requestId : Option Json) : responseEvent (auditEvents parse text) requestId =
      lastResponse (replyEvents parse text) requestId := by
  rw [responseEvent_eq, ← lastResponse_filter, filter_auditEvents, lastResponse_filter]

theorem pickResponseEnvelope_eq (events : List Json) (requestId : Option Json) :
    pickResponseEnvelope events requestId =
      (lastResponse events requestId).bind JsonRpcResponse.fromValue := rfl

/-! ## What tool discovery reads -/

/-- The events of a reply that are JSON. -/
def jsonEvents (parse : String → Option Json) (text : List Char) : List Json :=
  (eventTexts [] (lines text)).filterMap fun t => parse (String.ofList t)

theorem parseSseJsonLoop_eq (buf : List Char) (ls : List (List Char)) :
    parseSseJsonLoop parse buf ls =
      match (eventTexts buf ls).filterMap fun t => parse (String.ofList t) with
      | val :: _ => .ok val
      | [] => .error "No valid JSON found in SSE stream" := by
  induction ls generalizing buf with
  | nil =>
    rw [parseSseJsonLoop, eventTexts]
    split_ifs with hbuf
    · rfl
    · cases hp : parse (String.ofList buf) with
      | none => simp [hp]
      | some val => simp [hp]
  | cons l ls ih =>
    rw [parseSseJsonLoop, eventTexts]
    cases hl : dataField l with
    | some payload => exact ih _
    | none =>
      dsimp only
      by_cases hempty : l = []
      · by_cases hbuf : buf = []
        · rw [if_neg (fun h => h.2 hbuf), if_pos hempty, if_pos hbuf, ih, hbuf]
          rfl
        · rw [if_pos ⟨hempty, hbuf⟩, if_pos hempty, if_neg hbuf, List.singleton_append,
            List.filterMap_cons]
          cases hp : parse (String.ofList buf) with
          | none => exact ih []
          | some val => rfl
      · rw [if_neg (fun h => hempty h.1), if_neg hempty, ih]

/-- What is not JSON is no response. -/
theorem filter_replyEvents (parse : String → Option Json) (text : List Char) :
    (replyEvents parse text).filter hasResultOrError =
      (jsonEvents parse text).filter hasResultOrError := by
  unfold replyEvents jsonEvents
  induction eventTexts [] (lines text) with
  | nil => rfl
  | cons t ts ih =>
    rw [List.map_cons, List.filterMap_cons, List.filter_cons, ih, parseEvent]
    cases parse (String.ofList t) with
    | none => rfl
    | some val => rw [List.filter_cons]; rfl

/-- The event answers the request: it has a result or an error, and the request's id. -/
def answers (requestId : Option Json) (e : Json) : Bool :=
  hasResultOrError e &&
    match requestId, e.get "id" with
    | some rid, some id => sameJson id rid
    | _, _ => false

/-- The last event that `p` is true of. -/
def lastWith (p : Json → Bool) (es : List Json) : Option Json := es.reverse.find? p

/-- The first event that is JSON is a response, and if the last answer to the request is a later
event, or, where nothing answers it, the last response, then that is the same one again. -/
def AnsweredFirst (requestId : Option Json) : List Json → Prop
  | [] => False
  | e :: es => hasResultOrError e = true ∧
    if answers requestId e then ∀ x ∈ lastWith (answers requestId) es, x = e
    else lastWith (answers requestId) es = none ∧ ∀ x ∈ lastWith hasResultOrError es, x = e

theorem lastWith_cons (p : Json → Bool) (e : Json) (es : List Json) :
    lastWith p (e :: es) = (lastWith p es).or (if p e then some e else none) := by
  rw [lastWith, List.reverse_cons, List.find?_append, lastWith]
  cases hp : p e with
  | true => simp [hp]
  | false => simp [hp]

theorem lastResponse_eq (es : List Json) (requestId : Option Json) :
    lastResponse es requestId =
      (lastWith (answers requestId) es).or (lastWith hasResultOrError es) := by
  have hid : pickEvent es requestId true = lastWith (answers requestId) es := by
    unfold pickEvent lastWith
    congr 1
    funext e
    unfold answers
    cases requestId with
    | none => rfl
    | some rid =>
      cases e.get "id" with
      | none => rfl
      | some id => rfl
  have hany : pickEvent es requestId false = lastWith hasResultOrError es := by
    simp [pickEvent, lastWith]
  rw [lastResponse, hid, hany]

/-- The event found is the first exactly when nothing later displaces it. -/
theorem lastResponse_first_iff (e : Json) (es : List Json) :
    (hasResultOrError e = true ∧ lastResponse (e :: es) requestId = some e) ↔
      AnsweredFirst requestId (e :: es) := by
  rw [AnsweredFirst, lastResponse_eq, lastWith_cons, lastWith_cons]
  refine and_congr_right fun he => ?_
  rw [if_pos he]
  cases ha : answers requestId e with
  | true =>
    cases hlast : lastWith (answers requestId) es with
    | none => simp
    | some x => simp
  | false =>
    cases hlast : lastWith (answers requestId) es with
    | none =>
      cases hany : lastWith hasResultOrError es with
      | none => simp
      | some x => simp
    | some x =>
      have hx : answers requestId x = true := List.find?_some hlast
      have hne : x ≠ e := by
        rintro rfl
        rw [ha] at hx
        cases hx
      simp [hne]

/-- If some event of the reply carries a result, tool discovery reads an event that carries a result
or an error, and it is the one that a call with this id would take for the response. -/
def DiscoveryReadsResponse (parse : String → Option Json) (text : List Char)
    (requestId : Option Json) : Prop :=
  (∃ e ∈ replyEvents parse text, (e.get "result").isSome) →
    ∃ e, parseSseJson parse text = .ok e ∧ hasResultOrError e = true ∧
      responseEvent (auditEvents parse text) requestId = some e

theorem discovery_reads_response_iff (parse : String → Option Json) (text : List Char)
    (requestId : Option Json) : DiscoveryReadsResponse parse text requestId ↔
      ((∃ e ∈ replyEvents parse text, (e.get "result").isSome) →
        AnsweredFirst requestId (jsonEvents parse text)) := by
  refine imp_congr_right fun _ => ?_
  have hlast : responseEvent (auditEvents parse text) requestId =
      lastResponse (jsonEvents parse text) requestId := by
    rw [responseEvent_auditEvents, ← lastResponse_filter, filter_replyEvents, lastResponse_filter]
  have hfirst : parseSseJson parse text = match jsonEvents parse text with
      | val :: _ => .ok val
      | [] => .error "No valid JSON found in SSE stream" := parseSseJsonLoop_eq [] (lines text)
  rw [hlast, hfirst]
  cases jsonEvents parse text with
  | nil => simp [AnsweredFirst]
  | cons e es =>
    rw [← lastResponse_first_iff]
    refine ⟨?_, fun h => ⟨e, rfl, h⟩⟩
    rintro ⟨x, hx, h⟩
    cases hx
    exact h

/-! ## A notification before the response -/

def progressText : String := "\x7b\"method\":\"notifications/progress\"\x7d"

def resultText : String := "\x7b\"id\":1,\"jsonrpc\":\"2.0\",\"result\":2\x7d"

def progressEvent : Json := .obj [("method", .str "notifications/progress")]

def resultEvent : Json := .obj [("id", .int 1), ("jsonrpc", .str "2.0"), ("result", .int 2)]

/-- `serde_json` on the two texts. -/
def parseTwo (t : String) : Option Json :=
  if t = progressText then some progressEvent else if t = resultText then some resultEvent else none

/-- The reply of a server that reports its progress first. -/
def progressReply : List Char :=
  ("data: " ++ progressText ++ "\n\ndata: " ++ resultText ++ "\n\n").toList

theorem discovery_reads_notification :
    ¬ DiscoveryReadsResponse parseTwo progressReply (some (.int 1)) := by
  have htexts : eventTexts [] (lines progressReply) = [progressText.toList, resultText.toList] := by
    decide +kernel
  have hp : parseTwo progressText = some progressEvent := rfl
  have hr : parseTwo resultText = some resultEvent := by
    rw [parseTwo, if_neg (by decide +kernel), if_pos rfl]
  intro h
  obtain ⟨e, hread, he, -⟩ := h ⟨resultEvent, by simp [replyEvents, htexts, parseEvent, hr], rfl⟩
  rw [parseSseJson, parseSseJsonLoop_eq, htexts] at hread
  simp only [List.filterMap_cons, String.ofList_toList, hp] at hread
  cases hread
  exact absurd he (by decide)

end ThinkWatch.Mcp
