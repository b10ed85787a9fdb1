import ThinkWatch.Gateway.Failure
import ThinkWatch.Lib.Framing
import ThinkWatch.Lib.Lines
import ThinkWatch.Lib.Utf8
import ThinkWatch.Mcp.ResponseCache
import ThinkWatch.Validation

/-!
# The event stream of a tool call

`crates/mcp-gateway/src/proxy/streaming.rs`: the parser of the wire, the picker of the response
envelope, and `build_passthrough_body`, which passes the events of the upstream on as they arrive.

A text is a list of characters. What the body does is a list of actions, in order: events it
captures and yields, its own error for a refused reservation, and the outcome it tells. A consumer
that drops the body sees the beginning of that list. `drainBlocks_eq_frames` says that the loop over
the terminators cuts the text as a reader would that looks at every character.
-/

namespace ThinkWatch.Mcp

open Lib Policy ThinkWatch.Gateway

/-! ## The wire -/

/-- Where the first `sep` ends. -/
def findEnd (sep s : List Char) : Option Nat := (cut sep s).map fun r => r.1.length + sep.length

def findSseEventTerminator (s : List Char) : Option Nat :=
  let lf := findEnd ['\n', '\n'] s
  let crlf := findEnd ['\r', '\n', '\r', '\n'] s
  match lf, crlf with
  | some a, some b => some (min a b)
  | a, b => a.or b

/-- The text of a `data:` line. -/
def dataField (line : List Char) : Option (List Char) :=
  if "data:".toList <+: line then some ((line.drop 5).dropWhile isWhitespace) else none

/-- One line of `extract_sse_data_payload`, on its `out` and `had_data`. -/
def extractLine (acc : List Char × Bool) (line : List Char) : List Char × Bool :=
  match dataField line with
  | some payload => ((if acc.2 then acc.1 ++ ['\n'] else acc.1) ++ payload, true)
  | none => acc

def extractSseDataPayload (eventBlock : List Char) : Option (List Char) :=
  let acc := (lines eventBlock).foldl extractLine ([], false)
  if acc.2 then some acc.1 else none

/-- `while let Some(end) = find_sse_event_terminator(&text_buf)`: the blocks and the text left. -/
def drainLoop : Nat → List Char → List (List Char) × List Char
  | 0, textBuf => ([], textBuf)
  | n + 1, textBuf =>
    match findSseEventTerminator textBuf with
    | none => ([], textBuf)
    | some e =>
      (textBuf.take e :: (drainLoop n (textBuf.drop e)).1, (drainLoop n (textBuf.drop e)).2)

/-- A text has fewer blocks than characters. -/
def drainBlocks (textBuf : List Char) : List (List Char) × List Char :=
  drainLoop textBuf.length textBuf

/-- `trim_end_matches(['\n', '\r'])`. -/
def trimEndNewlines (s : List Char) : List Char :=
  (s.reverse.dropWhile fun c => c = '\n' || c = '\r').reverse

/-! ## The response among the events -/

/-- The text of a zero. -/
def isZeroFloat (text : String) : Bool := text == "0.0" || text == "-0.0"

mutual

/-- `==` of `serde_json::Value`. -/
def sameJson : Json → Json → Bool
  | .null, .null => true
  | .bool a, .bool b => a == b
  | .int m, .int n => m == n
  | .float a, .float b => a == b || (isZeroFloat a && isZeroFloat b)
  | .str a, .str b => a == b
  | .arr a, .arr b => sameItems a b
  | .obj a, .obj b => sameFields a b
  | _, _ => false

def sameItems : List Json → List Json → Bool
  | [], [] => true
  | a :: as, b :: bs => sameJson a b && sameItems as bs
  | _, _ => false

def sameFields : List (String × Json) → List (String × Json) → Bool
  | [], [] => true
  | (k, a) :: as, (l, b) :: bs => k == l && sameJson a b && sameFields as bs
  | _, _ => false

end

def hasResultOrError (e : Json) : Bool := (e.get "result").isSome || (e.get "error").isSome

/-- A number that an `i32` holds. -/
def asI32 : Json → Option Int
  | .int n => if -2147483648 ≤ n ∧ n ≤ 2147483647 then some n else none
  | _ => none

def JsonRpcError.ofFields (code message : Option Json) : Option JsonRpcError := do
  let code ← asI32 (← code)
  let message ← Json.asStr (← message)
  return ⟨code, message⟩

/-- An error has three fields, of which `data` may be anything. -/
def JsonRpcError.fromValue : Json → Option JsonRpcError
  | .obj fields => JsonRpcError.ofFields (fields.lookup "code") (fields.lookup "message")
  | .arr [code, message, _] => JsonRpcError.ofFields (some code) (some message)
  | _ => none

def optionalError : Option Json → Option (Option JsonRpcError)
  | none => some none
  | some .null => some none
  | some e => (JsonRpcError.fromValue e).map some

def JsonRpcResponse.ofFields (jsonrpc id result error : Option Json) : Option JsonRpcResponse := do
  let jsonrpc ← Json.asStr (← jsonrpc)
  let error ← optionalError error
  return ⟨jsonrpc, optionalValue id, optionalValue result, error⟩

/-- `serde_json::from_value`. -/
def JsonRpcResponse.fromValue : Json → Option JsonRpcResponse
  | .obj fields => JsonRpcResponse.ofFields (fields.lookup "jsonrpc") (fields.lookup "id")
      (fields.lookup "result") (fields.lookup "error")
  | .arr [jsonrpc, id, result, error] =>
    JsonRpcResponse.ofFields (some jsonrpc) (some id) (some result) (some error)
  | _ => none

/-- The `pick` of `pick_response_envelope`. -/
def pickEvent (events : List Json) (requestId : Option Json) (withId : Bool) : Option Json :=
  events.reverse.find? fun e =>
    hasResultOrError e &&
      if withId then
        match requestId with
        | some rid => match e.get "id" with
          | some id => sameJson id rid
          | none => false
        | none => false
      else true

def pickResponseEnvelope (events : List Json) (requestId : Option Json) :
    Option JsonRpcResponse := do
  let matched ← (pickEvent events requestId true).or (pickEvent events requestId false)
  JsonRpcResponse.fromValue matched

/-! ## The body -/

def resourceBusy : Int := -32005

def internalError : Int := -32603

def errResponse (id : Option Json) (code : Int) (message : String) : JsonRpcResponse :=
  ⟨"2.0", id, none, some ⟨code, message⟩⟩

/-- What the source of the body gives: a chunk, with whether the memory budget admits it, or the
error that it ends with. -/
inductive Incoming where
  | chunk (bytes : List UInt8) (admitted : Bool)
  | failed (message : String)
deriving DecidableEq, Repr

/-- What the body does. An event is captured and then yielded. -/
inductive Emitted where
  | event (payload : String)
  | busy (error : JsonRpcResponse)
  | told (outcome : StreamOutcome)

def maxSseEventBytes : Nat := 8 * 1024 * 1024

/-- `text_buf.len()`. -/
def textBytes (s : List Char) : Nat := (s.map Char.utf8Size).sum

def busyMessage : String := "Gateway buffering capacity is occupied; retry shortly"

def refusedOutcome : StreamOutcome := .upstreamError "gateway_memory" busyMessage 429

def overflowOutcome : StreamOutcome :=
  .upstreamError "transport" s!"MCP SSE event exceeded {maxSseEventBytes} bytes without delimiter"
    502

def brokenOutcome (message : String) : StreamOutcome := .upstreamError "transport" message 502

/-- `done_tx.take()` and `send`. -/
def tell (doneTx : Bool) (outcome : StreamOutcome) : List Emitted :=
  if doneTx then [.told outcome] else []

/-- The payload of a block, unless it is empty. -/
def blockPayload (block : List Char) : Option String :=
  match extractSseDataPayload block with
  | some payload => if payload = [] then none else some (String.ofList payload)
  | none => none

def blockEvents (blocks : List (List Char)) : List Emitted :=
  (blocks.filterMap blockPayload).map .event

/-- What follows the loop: the text that is left, and `Natural` when nothing has been told. -/
def flush (textBuf : List Char) (doneTx : Bool) : List Emitted :=
  let trailing := trimEndNewlines textBuf
  (if trailing = [] then [] else blockEvents [trailing]) ++ tell doneTx .natural

/-- The loop of the body, from its `text_buf` and whether `done_tx` is still there. -/
def passthroughLoop (requestId : Option Json) :
    List Char → Bool → List Incoming → List Emitted
  | textBuf, doneTx, [] => flush textBuf doneTx
  | textBuf, doneTx, .failed message :: _ =>
    -- the `break` leaves `text_buf` as it is for the flush
    tell doneTx (brokenOutcome message) ++ flush textBuf false
  | textBuf, doneTx, .chunk bytes admitted :: source =>
    if !admitted then
      -- here `text_buf` is cleared first
      tell doneTx refusedOutcome ++
        .busy (errResponse requestId resourceBusy busyMessage) :: flush [] false
    else if textBytes textBuf + bytes.length > maxSseEventBytes then
      tell doneTx overflowOutcome ++ flush textBuf false
    else
      -- each chunk is decoded on its own
      let r := drainBlocks (textBuf ++ Utf8.decode bytes)
      blockEvents r.1 ++ passthroughLoop requestId r.2 doneTx source

def buildPassthroughBody (requestId : Option Json) (source : List Incoming) : List Emitted :=
  passthroughLoop requestId [] true source

/-- The payloads a consumer is given, the error of a refused reservation apart. -/
def payloads (es : List Emitted) : List String :=
  es.filterMap fun
    | .event payload => some payload
    | _ => none

def outcomes (es : List Emitted) : List StreamOutcome :=
  es.filterMap fun
    | .told outcome => some outcome
    | _ => none

/-- `serde_json::from_str`, or the text itself. -/
def parseEvent (parse : String → Option Json) (payload : String) : Json :=
  (parse payload).getD (.str payload)

/-- `events_buf` after what the body has done. -/
def captured (parse : String → Option Json) (es : List Emitted) : List Json :=
  (payloads es).map (parseEvent parse)

/-- What the tail finds of what the body has done before it ended or was dropped: it waits for an
outcome, or for the drop, and then takes the events, of which more may be captured afterwards. -/
inductive Finds (parse : String → Option Json) (es : List Emitted) :
    StreamOutcome → List Json → Prop
  | told {fs : List Emitted} {outcome : StreamOutcome} : fs <+: es →
      (outcomes fs).head? = some outcome → Finds parse es outcome (captured parse fs)
  | dropped : outcomes es = [] → Finds parse es .clientCancelled (captured parse es)

variable {sep s t textBuf : List Char} {e k : Nat} {es fs : List Emitted} {requestId : Option Json}
  {chunks : List (List UInt8)}

/-! ## Terminators -/

theorem findEnd_of_some (h : findEnd sep s = some e) : e ≤ s.length ∧ sep <:+ s.take e := by
  obtain ⟨⟨p, t⟩, hcut, rfl⟩ := Option.map_eq_some_iff.mp h
  obtain rfl := eq_of_cut hcut
  refine ⟨by simp, p, ?_⟩
  rw [← List.length_append, List.take_left]

/-- The place is the first: no beginning of the text that is shorter ends with `sep`. -/
theorem findEnd_first (h : ∀ e, findEnd sep s = some e → k < e) :
    ¬ sep <:+ s.take k := by
  rintro ⟨u, hu⟩
  have hs : s = u ++ sep ++ s.drop k := by rw [hu, List.take_append_drop]
  cases hcut : cut sep s with
  | none => exact cut_eq_none.mp hcut ⟨u, s.drop k, hs.symm⟩
  | some r =>
    obtain ⟨p, t⟩ := r
    have hk := h _ (by rw [findEnd, hcut]; rfl)
    have hsp := eq_of_cut hcut
    have hlen : u.length < p.length := by
      have := congrArg List.length hu
      have := List.length_take_le k s
      simp only [List.length_append] at *
      omega
    obtain ⟨v, rfl⟩ : u <+: p := by
      have hu' : u <+: s := ⟨sep ++ s.drop k, by rw [← List.append_assoc]; exact hs.symm⟩
      have hp' : p <+: s := ⟨sep ++ t, by rw [← List.append_assoc]; exact hsp.symm⟩
      exact List.prefix_of_prefix_length_le hu' hp' hlen.le
    have hv : v ≠ [] := by
      rintro rfl
      simp at hlen
    refine not_isPrefix_of_cut hcut rfl hv ⟨s.drop k, ?_⟩
    rw [hs] at hsp
    simpa [List.append_assoc] using hsp

/-- What has been read ends with a terminator. -/
def endsBlock (s : List Char) : Bool :=
  decide (['\n', '\n'] <:+ s) || decide (['\r', '\n', '\r', '\n'] <:+ s)

theorem endsBlock_eq_false : endsBlock s = false ↔
    ¬ ['\n', '\n'] <:+ s ∧ ¬ ['\r', '\n', '\r', '\n'] <:+ s := by
  simp [endsBlock]

/-- The first of the two terminators. -/
theorem findSseEventTerminator_cases (s : List Char) :
    (findSseEventTerminator s = none ∧ findEnd ['\n', '\n'] s = none ∧
      findEnd ['\r', '\n', '\r', '\n'] s = none) ∨
    ∃ e, findSseEventTerminator s = some e ∧
      (findEnd ['\n', '\n'] s = some e ∨ findEnd ['\r', '\n', '\r', '\n'] s = some e) ∧
      (∀ a, findEnd ['\n', '\n'] s = some a → e ≤ a) ∧
      ∀ b, findEnd ['\r', '\n', '\r', '\n'] s = some b → e ≤ b := by
  unfold findSseEventTerminator
  cases findEnd ['\n', '\n'] s with
  | none =>
    cases findEnd ['\r', '\n', '\r', '\n'] s with
    | none => exact .inl ⟨rfl, rfl, rfl⟩
    | some b => exact .inr ⟨b, rfl, .inr rfl, by simp, by simp⟩
  | some a =>
    cases findEnd ['\r', '\n', '\r', '\n'] s with
    | none => exact .inr ⟨a, rfl, .inl rfl, by simp, by simp⟩
    | some b =>
      refine .inr ⟨min a b, rfl, ?_, by simp, by simp⟩
      rcases Nat.le_total a b with h | h
      · exact .inl (by rw [Nat.min_eq_left h])
      · exact .inr (by rw [Nat.min_eq_right h])

theorem not_endsBlock_of_none (h : findSseEventTerminator s = none) (k : Nat) :
    endsBlock (s.take k) = false := by
  obtain ⟨-, hlf, hcrlf⟩ | ⟨e, he, -⟩ := findSseEventTerminator_cases s
  · exact endsBlock_eq_false.mpr
      ⟨findEnd_first (by simp [hlf]), findEnd_first (by simp [hcrlf])⟩
  · rw [h] at he
    cases he

theorem endsBlock_of_some (h : findSseEventTerminator s = some e) :
    e ≤ s.length ∧ endsBlock (s.take e) = true ∧ ∀ k < e, endsBlock (s.take k) = false := by
  obtain ⟨hn, -⟩ | ⟨e, he, hsep, hlf, hcrlf⟩ := findSseEventTerminator_cases s
  · rw [hn] at h
    cases h
  · obtain rfl := Option.some.inj (he.symm.trans h)
    refine ⟨?_, ?_, fun k hk => endsBlock_eq_false.mpr
      ⟨findEnd_first fun a ha => hk.trans_le (hlf a ha),
        findEnd_first fun b hb => hk.trans_le (hcrlf b hb)⟩⟩
    · rcases hsep with hsep | hsep
      · exact (findEnd_of_some hsep).1
      · exact (findEnd_of_some hsep).1
    · rcases hsep with hsep | hsep
      · simp [endsBlock, (findEnd_of_some hsep).2]
      · simp [endsBlock, (findEnd_of_some hsep).2]

theorem endsBlock_nil : endsBlock [] = false := by decide

/-- The loop over the terminators cuts the text as it is read. -/
theorem drainLoop_eq_frames {n : Nat} (hn : s.length ≤ n) :
    drainLoop n s = frames endsBlock [] s := by
  induction n generalizing s with
  | zero =>
    obtain rfl := List.length_eq_zero_iff.mp (Nat.le_zero.mp hn)
    rfl
  | succ n ih =>
    rw [drainLoop]
    split
    next h =>
      rw [frames_of_not_ends, List.nil_append]
      intro q _ hq
      rw [List.nil_append, List.prefix_iff_eq_take.mp hq]
      exact not_endsBlock_of_none h _
    next e h =>
      obtain ⟨hle, he, hfirst⟩ := endsBlock_of_some h
      have hpos : e ≠ 0 := by
        rintro rfl
        rw [List.take_zero, endsBlock_nil] at he
        cases he
      conv_rhs => rw [← List.take_append_drop e s]
      rw [frames_of_ends, ih, List.nil_append]
      · rw [List.length_drop]
        omega
      · intro htake
        rw [htake, endsBlock_nil] at he
        cases he
      · exact he
      · intro q _ hq hne
        have hlen : q.length < e := by
          have := hq.length_le
          have := List.length_take_le e s
          by_contra hge
          exact hne (hq.eq_of_length (by omega))
        rw [List.nil_append, List.prefix_iff_eq_take.mp hq, List.take_take,
          Nat.min_eq_left hlen.le]
        exact hfirst _ hlen

theorem drainBlocks_eq_frames (s : List Char) : drainBlocks s = frames endsBlock [] s :=
  drainLoop_eq_frames (Nat.le_refl _)

/-- Text that has been drained is drained on as if it had come at once. -/
theorem drainBlocks_append (s t : List Char) : drainBlocks (s ++ t) =
    ((drainBlocks s).1 ++ (drainBlocks ((drainBlocks s).2 ++ t)).1,
      (drainBlocks ((drainBlocks s).2 ++ t)).2) := by
  simp only [drainBlocks_eq_frames]
  rw [frames_append, frames_append (s := (frames endsBlock [] s).2), frames_rest endsBlock rfl,
    List.nil_append]

/-! ## Chunks that pass -/

/-- The chunks of a source whose memory is admitted. -/
def arrived (chunks : List (List UInt8)) : List Incoming := chunks.map fun bytes => .chunk bytes true

/-- Their text, as the body decodes it. -/
def received (chunks : List (List UInt8)) : List Char := chunks.flatMap Utf8.decode

/-- No chunk is past the cap, with `text_buf` before the first. -/
def Fits : List Char → List (List UInt8) → Prop
  | _, [] => True
  | textBuf, bytes :: chunks => textBytes textBuf + bytes.length ≤ maxSseEventBytes ∧
    Fits (drainBlocks (textBuf ++ Utf8.decode bytes)).2 chunks

instance decidableFits : (textBuf : List Char) → (chunks : List (List UInt8)) →
    Decidable (Fits textBuf chunks)
  | _, [] => isTrue trivial
  | textBuf, bytes :: chunks =>
    have := decidableFits (drainBlocks (textBuf ++ Utf8.decode bytes)).2 chunks
    inferInstanceAs (Decidable (_ ∧ _))

@[simp] theorem payloads_append : payloads (es ++ fs) = payloads es ++ payloads fs :=
  List.filterMap_append ..

@[simp] theorem outcomes_append : outcomes (es ++ fs) = outcomes es ++ outcomes fs :=
  List.filterMap_append ..

@[simp] theorem payloads_blockEvents (blocks : List (List Char)) :
    payloads (blockEvents blocks) = blocks.filterMap blockPayload := by
  simp [payloads, blockEvents, List.filterMap_map]

@[simp] theorem outcomes_blockEvents (blocks : List (List Char)) :
    outcomes (blockEvents blocks) = [] := by
  simp [outcomes, blockEvents]

@[simp] theorem payloads_tell (doneTx : Bool) (outcome : StreamOutcome) :
    payloads (tell doneTx outcome) = [] := by
  cases doneTx
  · rfl
  · rfl

/-- The text that is left when the source ends is one more block, without an end. -/
theorem flush_eq (textBuf : List Char) (doneTx : Bool) : flush textBuf doneTx =
    blockEvents [trimEndNewlines textBuf] ++ tell doneTx .natural := by
  rw [flush]
  split
  next h =>
    rw [h]
    rfl
  next => rfl

theorem blockEvents_append (as bs : List (List Char)) :
    blockEvents (as ++ bs) = blockEvents as ++ blockEvents bs := by
  simp [blockEvents]

/-- What is left is without a terminator. -/
theorem drainBlocks_rest (s : List Char) :
    drainBlocks (drainBlocks s).2 = ([], (drainBlocks s).2) := by
  simp only [drainBlocks_eq_frames]
  exact frames_rest endsBlock rfl

theorem drainBlocks_received (textBuf : List Char) (bytes : List UInt8)
    (chunks : List (List UInt8)) :
    drainBlocks (textBuf ++ received (bytes :: chunks)) =
      ((drainBlocks (textBuf ++ Utf8.decode bytes)).1 ++
        (drainBlocks ((drainBlocks (textBuf ++ Utf8.decode bytes)).2 ++ received chunks)).1,
      (drainBlocks ((drainBlocks (textBuf ++ Utf8.decode bytes)).2 ++ received chunks)).2) := by
  rw [← drainBlocks_append, List.append_assoc]
  rfl

/-- What the body has done when all of the chunks have passed. -/
theorem passthroughLoop_arrived (hb : drainBlocks textBuf = ([], textBuf))
    (h : Fits textBuf chunks) (source : List Incoming) :
    passthroughLoop requestId textBuf true (arrived chunks ++ source) =
      blockEvents (drainBlocks (textBuf ++ received chunks)).1 ++
        passthroughLoop requestId (drainBlocks (textBuf ++ received chunks)).2 true source := by
  induction chunks generalizing textBuf with
  | nil => simp [arrived, received, hb, blockEvents]
  | cons bytes chunks ih =>
    obtain ⟨hfit, h⟩ := h
    rw [drainBlocks_received, blockEvents_append, List.append_assoc,
      ← ih (drainBlocks_rest _) h]
    rw [arrived, List.map_cons, List.cons_append, passthroughLoop, if_neg (by simp),
      if_neg (Nat.not_lt.mpr hfit)]
    rfl

theorem buildPassthroughBody_arrived (h : Fits [] chunks) (source : List Incoming) :
    buildPassthroughBody requestId (arrived chunks ++ source) =
      blockEvents (drainBlocks (received chunks)).1 ++
        passthroughLoop requestId (drainBlocks (received chunks)).2 true source :=
  passthroughLoop_arrived rfl h source

end ThinkWatch.Mcp
