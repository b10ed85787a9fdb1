import ThinkWatch.Gateway.Failure

/-!
# What reads a stream as it passes

The readers of the stream pump (`crates/gateway/src/lifecycle/mod.rs`): `ErrorWatch`, `Readers`,
`Opening` and `LastFrame`, the part of `SpeedWatch` (`proxy/min_speed.rs`) that says whether there
is anything to judge, and `StreamShaper` (`proxy/shaper.rs`). What they read with is a parameter:
the dialects, the converters and the frames of `tw-dialect`, the event stream of `tw-bedrock`, the
restorer and the tool wall of `tw-guard`. All of it is a function of its state and its input.
-/

namespace ThinkWatch.Gateway.Stream

abbrev Bytes := List UInt8

inductive Dialect where
  | chat
  | responses
  | anthropic
  | gemini
  | bedrock
deriving DecidableEq, Repr

inductive Delta where
  | text (t : String)
  | thinking (t : String)
  | toolInput (t : String)
  | other
deriving DecidableEq, Repr

/-- What a piece of an answer says, in every dialect. -/
inductive Event where
  | start
  | usage
  | error
  | delta (d : Delta)
  | stop
  | other
deriving DecidableEq, Repr

namespace Event

def isError : Event → Bool
  | error => true
  | _ => false

/-- Not yet the answer. -/
def isOpening : Event → Bool
  | start | usage => true
  | _ => false

/-- Text that starts the clock of the minimum speed. -/
def generates : Event → Bool
  | delta (.text t) | delta (.thinking t) | delta (.toolInput t) => t ≠ ""
  | _ => false

theorem generates_of_isOpening {e : Event} (h : e.isOpening = true) : e.generates = false := by
  cases e with
  | start | usage => rfl
  | error | delta d | stop | other => cases h

end Event

/-- An error the upstream reported in its stream. -/
structure Said where
  message : String
  status : Option Nat
  sealed : Bool
deriving DecidableEq, Repr

/-- `tw_bedrock::eventstream::StreamError`. -/
inductive StreamError where
  | malformed (said : String)
  | upstream (kind message : String)
deriving DecidableEq, Repr

/-- What the pump reads and writes bytes with. -/
structure Codec where
  Frame : Type
  Decoder : Type
  decoder : Decoder
  decode : Decoder → Bytes → Decoder × List Frame
  flush : Decoder → Decoder × List Frame
  endsAnswer : Dialect → Frame → Bool
  saidIn : Dialect → Frame → Option Said
  Reader : Type
  reader : Dialect → Reader
  readEvents : Reader → Bytes → Reader × List Event
  Sniffer : Type
  sniffer : Sniffer
  sniff : Sniffer → Bytes → Sniffer
  Collect : Type
  Collector : Type
  collector : Collect → Collector
  collect : Collector → Bytes → Collector
  Conversion : Type
  Converter : Type
  stream : Conversion → Converter
  convert : Converter → Bytes → Converter × Bytes
  finishConverter : Converter → Converter × Bytes
  failConverter : Converter → String → Converter × Bytes
  Transcoder : Type
  transcoder : Transcoder
  unframe : Transcoder → Bytes → Except StreamError (Transcoder × Bytes)
  streamErrorText : StreamError → String
  Ledger : Type
  Restorer : Type
  /-- `None`: nothing to restore. -/
  restorer : Ledger → Dialect → Option Restorer
  Shaping : Type
  shape : Shaping → Option Restorer → Bytes → Shaping × Option Restorer × Bytes
  finishShaping : Shaping → Option Restorer → Shaping × Option Restorer × Bytes
  rename : Shaping → Bytes → Bytes
  Inspector : Type
  check : Inspector → Bytes → Inspector × Option (GatewayError × Nat)
  finishInspection : Inspector → Inspector × Option GatewayError
  errorFrame : Dialect → Nat → String → Bytes

variable {K : Codec}

/-! ## Errors in the stream -/

structure ErrorWatch (K : Codec) where
  upstream : Dialect
  frames : K.Decoder

namespace ErrorWatch

def new (upstream : Dialect) : ErrorWatch K := ⟨upstream, K.decoder⟩

def first (w : ErrorWatch K) (frames : List K.Frame) : Option Said :=
  frames.findSome? (K.saidIn w.upstream)

def feed (w : ErrorWatch K) (chunk : Bytes) : ErrorWatch K × Option Said :=
  let r := K.decode w.frames chunk
  ({ w with frames := r.1 }, w.first r.2)

def flush (w : ErrorWatch K) : ErrorWatch K × Option Said :=
  let r := K.flush w.frames
  ({ w with frames := r.1 }, w.first r.2)

end ErrorWatch

/-- `Wire`: how the upstream that answered is read. -/
structure Wire (K : Codec) where
  dialect : Dialect
  convert : Option K.Conversion
  collect : K.Collect
  ledger : K.Ledger

/-- What the pump reads off the upstream's bytes, for the tail. -/
structure Readers (K : Codec) where
  sniffer : Option K.Sniffer
  collector : Option K.Collector
  /-- `none` once it found an error. -/
  errors : Option (ErrorWatch K)
  ledger : Option K.Ledger
  said : Option Said

namespace Readers

/-- `Readers::default()`. -/
def unset : Readers K := ⟨none, none, none, none, none⟩

/-- The readers of an upstream that answered. -/
def of (wire : Wire K) : Readers K :=
  ⟨some K.sniffer, some (K.collector wire.collect), some (.new wire.dialect), some wire.ledger,
    none⟩

def feed (r : Readers K) (chunk : Bytes) : Readers K :=
  let r := { r with
    sniffer := r.sniffer.map (K.sniff · chunk)
    collector := r.collector.map (K.collect · chunk) }
  match r.errors with
  | none => r
  | some w =>
    match w.feed chunk with
    | (_, some said) => { r with said := some said, errors := none }
    | (w, none) => { r with errors := some w }

def sealedRefusal (r : Readers K) : Option Said := r.said.filter (·.sealed)

/-- The error the upstream reported so far. `ended`: a last frame without a blank line too. -/
def reported (r : Readers K) (ended : Bool) : Readers K × Option Said :=
  if ended && r.said.isNone then
    match r.errors with
    | none => (r, none)
    | some w =>
      match w.flush with
      | (_, some said) => ({ r with said := some said, errors := none }, some said)
      | (w, none) => ({ r with errors := some w }, none)
  else (r, r.said)

/-- The error the upstream reported, read to the end. -/
def upstreamError (r : Readers K) : Readers K × Option Said :=
  match r.errors with
  | none => ({ r with said := none }, r.said)
  | some w => ({ r with errors := none, said := none }, r.said.or w.flush.2)

end Readers

/-! ## The opening -/

/-- A stream's opening, held back while a failure could still be sent again. -/
structure Opening (K : Codec) where
  reader : K.Reader
  held : Bytes

namespace Opening

/-- `Opening::MAX`. -/
def max : Nat := 1024 * 1024

def new (upstream : Dialect) : Opening K := ⟨K.reader upstream, []⟩

/-- Hold `chunk` back. True once it carries content ahead of any error. -/
def feed (h : Opening K) (chunk : Bytes) : Opening K × Bool :=
  let held := h.held ++ chunk
  let r := K.readEvents h.reader chunk
  let content := (r.2.takeWhile (!·.isError)).any (!·.isOpening)
  (⟨r.1, held⟩, content || decide (held.length > max))

end Opening

/-! ## The minimum speed -/

/-- `MinSpeed`. -/
structure MinSpeed where
  tokensPerSec : Nat
  windowSecs : Nat
deriving DecidableEq, Repr

/-- One stream's speed, but for the count of its tokens. -/
structure SpeedWatch (K : Codec) where
  min : MinSpeed
  upstream : Dialect
  reader : K.Reader
  frames : K.Decoder
  /-- The first content arrived. -/
  first : Bool
  done : Bool

namespace SpeedWatch

def new (min : MinSpeed) (upstream : Dialect) : SpeedWatch K :=
  ⟨min, upstream, K.reader upstream, K.decoder, false, false⟩

def started (w : SpeedWatch K) : Bool := w.first && !w.done

def feed (w : SpeedWatch K) (chunk : Bytes) : SpeedWatch K :=
  let frames := K.decode w.frames chunk
  let events := K.readEvents w.reader chunk
  { w with
    reader := events.1
    frames := frames.1
    first := w.first || events.2.any Event.generates
    done := w.done || frames.2.any (K.endsAnswer w.upstream) || events.2.any (· == .stop) }

end SpeedWatch

/-! ## What the client receives -/

/-- Watches what the client receives for the answer's last frame. -/
structure LastFrame (K : Codec) where
  client : Dialect
  /-- `none` once the frame was seen, and for an answer without one. -/
  frames : Option K.Decoder

namespace LastFrame

def new (client : Dialect) (clientSse : Bool) : LastFrame K :=
  ⟨client, if clientSse && client != .gemini && client != .bedrock then some K.decoder else none⟩

def isIn (w : LastFrame K) (out : Bytes) : LastFrame K × Bool :=
  match w.frames with
  | none => (w, false)
  | some frames =>
    let r := K.decode frames out
    if r.2.any (K.endsAnswer w.client) then ({ w with frames := none }, true)
    else ({ w with frames := some r.1 }, false)

end LastFrame

/-- `StreamShaper`: what restores, and the rest. -/
structure StreamShaper (K : Codec) where
  client : Dialect
  shaping : K.Shaping
  restorer : Option K.Restorer

namespace StreamShaper

/-- Restore with `ledger` from here on. -/
def restoreWith (s : StreamShaper K) (ledger : K.Ledger) : StreamShaper K :=
  { s with restorer := K.restorer ledger s.client }

def process (s : StreamShaper K) (chunk : Bytes) : StreamShaper K × Bytes :=
  let r := K.shape s.shaping s.restorer chunk
  ({ s with shaping := r.1, restorer := r.2.1 }, r.2.2)

def finish (s : StreamShaper K) : StreamShaper K × Bytes :=
  let r := K.finishShaping s.shaping s.restorer
  ({ s with shaping := r.1, restorer := r.2.1 }, r.2.2)

/-- Frames the gateway writes itself, with the caller's model name put in. -/
def rename (s : StreamShaper K) (sse : Bytes) : Bytes := K.rename s.shaping sse

end StreamShaper

end ThinkWatch.Gateway.Stream
