import ThinkWatch.Gateway.Readers
import ThinkWatch.Gateway.Retry
import ThinkWatch.Gateway.Selection

/-!
# The stream pump

`build_chat_pump` of `crates/gateway/src/lifecycle/mod.rs` with its tail, `Resend::admit`
(`proxy/routing.rs`) and what the tail records against the route (`launch_stream_pump` and
`record_outcome`). The body runs from one await or yield to the next, and the client may drop it at
each. What it awaits is the action: the upstream's answer and its pieces, room in the request's
memory, the Redis scripts, a tick, the judgement of the speed. Clocks and the factor the backoff is
spread by are arguments.

The state also keeps what the body itself forgets: all bytes that went out, the pieces of the
attempt's stream and those that were passed to `deliver` or to the readers, and the samples.
-/

namespace ThinkWatch.Gateway.Stream

variable {K : Codec}

/-! ## Errors on their way out -/

/-- `transport::status_error`, without a wait. -/
def statusError (status : Nat) (message : String) : GatewayError :=
  if status = 429 then .upstreamRateLimited none
  else if status = 401 ∨ status = 403 then .upstreamAuthError status message
  else .providerHttpError status message none

/-- The first 500 characters. -/
def Said.words (said : Said) : String := String.ofList (said.message.toList.take 500)

def sealedRefused (provider : String) (said : Said) : GatewayError :=
  .sealedHistoryRefused (said.status.getD 400) provider said.words

/-- `outcome_of`; `failed_partway` adds a log line. -/
def outcomeOf (provider : String) (said : Said) : StreamOutcome :=
  if said.sealed then told (sealedRefused provider said)
  else
    let what := provider ++ " reported an error partway through the answer: " ++ said.words
    let e := match said.status with
      | some status => statusError status what
      | none => .providerError what
    let message := match e with
      | .upstreamRateLimited _ => e.display ++ ": " ++ what
      | .upstreamAuthError _ _ =>
        e.display ++ ": " ++ provider ++ " reported it partway through the answer"
      | _ => e.display
    .upstreamError e.errorTag message e.statusCode

/-- `broke_off`. -/
def brokeOff (message : String) : String × StreamOutcome :=
  (message, .upstreamError "transport" message 502)

/-- ASCII letters in either case. -/
def eqIgnoreAsciiCase (a b : String) : Bool := a.toLower == b.toLower

def bedrockStatus (kind : String) : Nat :=
  let statuses := [("throttlingException", 429), ("serviceUnavailableException", 503),
    ("validationException", 400), ("accessDeniedException", 403), ("modelTimeoutException", 504)]
  ((statuses.find? fun s => eqIgnoreAsciiCase s.1 kind).map Prod.snd).getD 500

def bedrockEnded (K : Codec) (provider : String) (e : StreamError) : String × StreamOutcome :=
  let told := "Bedrock ended the stream: " ++ K.streamErrorText e
  match e with
  | .malformed _ => brokeOff told
  | .upstream kind message =>
    (told, outcomeOf provider ⟨kind ++ ": " ++ message, some (bedrockStatus kind), false⟩)

/-! ## The state -/

/-- What a stream is pumped with. -/
structure StreamCtx (K : Codec) where
  client : Dialect
  clientSse : Bool
  provider : String
  minSpeed : Option MinSpeed
  pinnedOnly : Bool
  budget : Budget
  shaper : StreamShaper K
  inspector : Option K.Inspector

/-- `keeps_alive`: no comments for a Gemini client. -/
def keepsAlive (client : Dialect) : Bool := client != .gemini

/-- What the client received: a comment, or bytes that went out during an attempt. -/
inductive Piece where
  | keepAlive
  | answer (attempt : Nat) (bytes : Bytes)
deriving DecidableEq, Repr

structure Sent where
  retries : Nat
  /-- Waiting to go out again: the attempt that failed was counted already. -/
  waiting : Bool
  tooSlow : Option Nat
deriving DecidableEq, Repr

/-- A failure that may be sent again. -/
inductive Failed where
  | refused (e : GatewayError)
  | ended
  | reported
  | brokeOff (message : String) (outcome : StreamOutcome)
deriving DecidableEq, Repr

/-- What `Resend::admit` waits for. `ran`: the script that records the sample has run. -/
inductive Admitting where
  | snapshot
  | caps
  | recording (ran : Bool)
deriving DecidableEq, Repr

/-- What follows a piece that is delivered. -/
inductive Next where
  | pull
  | finish
  | fail (message : String) (outcome : StreamOutcome)
deriving DecidableEq, Repr

/-- How the body ended. -/
inductive Ending where
  | refused
  | tooSlow
  | memoryBusy
  | sealed
  | stopped
  | finished
  | brokeOff
deriving DecidableEq, Repr

inductive Phase where
  | unpolled
  | waiting
  | opening
  | pulling
  | reading (chunk : Bytes)
  | admitting (failed : Failed) (wait : Int) (stage : Admitting)
  | delivering (chunk : Bytes) (next : Next)
  | finishing
  | failing (message : String) (outcome : StreamOutcome)
  | returned (ending : Ending)
  | dropped
deriving DecidableEq, Repr

structure Pump (K : Codec) where
  phase : Phase
  budget : Budget
  shaper : StreamShaper K
  inspector : Option K.Inspector
  lastFrame : LastFrame K
  delivered : Bool
  sent : Sent
  readers : Readers K
  -- the attempt's own
  wire : Option (Wire K)
  convert : Option K.Converter
  unframe : Option K.Transcoder
  hold : Option (Opening K)
  speed : Option (SpeedWatch K)
  /-- The outcomes told; the tail gets the first. -/
  outcomes : List StreamOutcome
  -- what went on
  opened : Nat
  out : List Piece
  received : List Bytes
  passed : List Bytes
  fed : List Bytes
  samples : List Sample
  settled : Bool

namespace Pump

variable (c : StreamCtx K) (s : Pump K)

def start : Pump K where
  phase := .unpolled
  budget := c.budget
  shaper := c.shaper
  inspector := c.inspector
  lastFrame := .new c.client c.clientSse
  delivered := false
  sent := ⟨0, false, none⟩
  readers := .unset
  wire := none
  convert := none
  unframe := none
  hold := none
  speed := none
  outcomes := []
  opened := 0
  out := []
  received := []
  passed := []
  fed := []
  samples := []
  settled := false

/-! ## The body -/

/-- Bytes for the client. -/
def yield (bytes : Bytes) : Pump K := { s with out := s.out ++ [.answer s.opened bytes] }

def tick : Pump K := { s with out := s.out ++ [.keepAlive] }

/-- The outcome is told, and the last bytes go out. -/
def stop (ending : Ending) (outcome : StreamOutcome) (bytes : Bytes) : Pump K :=
  { s.yield bytes with outcomes := s.outcomes ++ [outcome], phase := .returned ending }

/-- The top of the loop: an attempt starts. -/
def goOut : Pump K :=
  { s with
    phase := .opening
    sent := ⟨s.budget.retries, false, none⟩
    -- what an attempt that failed had read is not this one's
    readers := .unset
    wire := none
    convert := none
    unframe := none
    hold := none
    speed := none
    opened := s.opened + 1
    received := []
    passed := []
    fed := [] }

/-- An error's frame, and what the shaper still holds. -/
def failure (bytes : Bytes) : Pump K × Bytes :=
  let r := s.shaper.process bytes
  let f := r.1.finish
  ({ s with shaper := f.1 }, r.2 ++ f.2)

/-- A refusal is said in the stream. -/
def refuse (e : GatewayError) : Pump K :=
  let r := s.failure (K.errorFrame c.client e.statusCode e.display)
  r.1.stop .refused (told e) r.2

/-- `cut`: `safe`, then the refusal. -/
def cut (convert : Option K.Converter) (safe : Bytes) (err : GatewayError) : Bytes :=
  let refusal := match convert with
    | some cv => (K.failConverter cv err.display).2
    | none => K.errorFrame c.client err.statusCode err.display
  safe ++ s.shaper.rename refusal

/-- The upstream answered: its stream is read. -/
def answered (wire : Wire K) (now : Int) : Pump K :=
  { s with
    phase := .pulling
    readers := .of wire
    shaper := s.shaper.restoreWith wire.ledger
    wire := some wire
    convert := wire.convert.map K.stream
    unframe := if wire.dialect = .bedrock then some K.transcoder else none
    -- held back while a failure could still be sent again
    hold := if s.budget.isOpen now then some (.new wire.dialect) else none
    speed := c.minSpeed.map fun min => .new min wire.dialect }

/-- The upstream's answer, or why there is none. -/
def afterOpen (answer : Except GatewayError (Wire K)) (now : Int) (jitter : ℚ) : Pump K :=
  match answer with
  | .ok wire => s.answered c wire now
  | .error e =>
    match s.budget.waitAfter now jitter e with
    | some wait => { s with phase := .admitting (.refused e) wait .snapshot }
    | none => s.refuse c e

/-- `retry_after_said`. -/
def retryAfterSaid (said : Said) (now : Int) (jitter : ℚ) : Option Int :=
  match outcomeOf c.provider said with
  | .upstreamError errorType _ status => s.budget.waitAfterOutcome now jitter errorType status
  | _ => none

/-- The opening goes out. -/
def release (next : Next) : Pump K :=
  { s with
    phase := .delivering ((s.hold.map Opening.held).getD []) next
    hold := none }

/-- The converter's and the shaper's last bytes, inspected. -/
def finish : Pump K :=
  let cv := s.convert.map K.finishConverter
  let r := s.failure ((cv.map Prod.snd).getD [])
  let s := { r.1 with convert := cv.map Prod.fst }
  let checked := s.inspector.map (K.check · r.2)
  let last := checked.map fun i => (K.finishInspection i.1)
  match (checked.bind Prod.snd).or ((last.bind Prod.snd).map (·, 0)) with
  | some (err, safe) => s.stop .stopped (told err) (s.cut c none (r.2.take safe) err)
  | none =>
    let e := s.readers.upstreamError
    let outcome := match e.2 with
      | some said => outcomeOf c.provider said
      | none => .natural
    let s := { s with readers := e.1 }
    if r.2 = [] then { s with outcomes := s.outcomes ++ [outcome], phase := .returned .finished }
    else s.stop .finished outcome r.2

/-- The stream broke off, which is said in the stream. -/
def fail (message : String) (outcome : StreamOutcome) : Pump K :=
  let tail := match s.convert with
    | some cv => (K.failConverter cv message).2
    | none => K.errorFrame c.client 502 message
  let r := s.failure tail
  r.1.stop .brokeOff outcome r.2

/-- The upstream's stream ended. -/
def streamEnded (now : Int) (jitter : ℚ) : Pump K :=
  match s.hold with
  | none => s.finish c
  | some _ =>
    -- it ended without content: an error in its last frame may be sent again
    let r := s.readers.reported true
    let s := { s with readers := r.1 }
    match r.2.bind fun said => s.retryAfterSaid c said now jitter with
    | some wait => { s with phase := .admitting .ended wait .snapshot }
    | none => s.release .finish

/-- The stream broke off. -/
def broke (message : String) (outcome : StreamOutcome) (now : Int) (jitter : ℚ) : Pump K :=
  match s.hold with
  | none => s.fail c message outcome
  | some _ =>
    let wait := match outcome with
      | .upstreamError errorType _ status => s.budget.waitAfterOutcome now jitter errorType status
      | _ => none
    match wait with
    | some wait => { s with phase := .admitting (.brokeOff message outcome) wait .snapshot }
    | none => s.release (.fail message outcome)

/-- A piece of the stream, and whether the request's memory has room for it. -/
def receive (chunk : Bytes) (room : Bool) : Pump K :=
  let s := { s with received := s.received ++ [chunk] }
  if room then
    { s with phase := .reading chunk, speed := s.speed.map (·.feed chunk) }
  else
    let err : GatewayError := .localRateLimited "gateway_memory" 1 true
    s.stop .memoryBusy (told err) (s.cut c s.convert [] err)

/-- What the upstream's stream gives next. -/
def pull (item : Option (Except String Bytes)) (room : Bool) (now : Int) (jitter : ℚ) : Pump K :=
  match item with
  | none => s.streamEnded c now jitter
  | some (.error e) =>
    let b := brokeOff ("The upstream stream broke off: " ++ e)
    s.broke c b.1 b.2 now jitter
  | some (.ok raw) =>
    match s.unframe with
    | none => s.receive c raw room
    | some t =>
      -- a damaged frame breaks the stream off as the transport does
      match K.unframe t raw with
      | .ok (t, chunk) => { s with unframe := some t }.receive c chunk room
      | .error e =>
        let b := bedrockEnded K c.provider e
        s.broke c b.1 b.2 now jitter

/-- The readers read a piece, and the opening holds it back. -/
def read (chunk : Bytes) (now : Int) (jitter : ℚ) : Pump K :=
  let s := { s with readers := s.readers.feed chunk, fed := s.fed ++ [chunk] }
  match s.readers.sealedRefusal with
  | some said =>
    let err := sealedRefused c.provider said
    s.stop .sealed (told err) (s.cut c s.convert [] err)
  | none =>
    let r := s.readers.reported false
    match s.hold with
    | none => { s with phase := .delivering chunk .pull }
    | some h =>
      let f := h.feed chunk
      let s := { s with hold := some f.1 }
      if f.2 then s.release .pull
      else
        -- no content yet: an error is sent again or is the answer
        match r.2 with
        | none => { s with phase := .pulling }
        | some said =>
          match s.retryAfterSaid c said now jitter with
          | some wait => { s with phase := .admitting .reported wait .snapshot }
          | none => s.release .pull

/-- What follows a piece that went out. -/
def goOn (next : Next) : Pump K :=
  match next with
  | .pull => { s with phase := .pulling }
  | .finish => s.finish c
  | .fail message outcome => s.fail c message outcome

/-- The phase after a yield. -/
def Next.phase : Next → Phase
  | .pull => .pulling
  | .finish => .finishing
  | .fail message outcome => .failing message outcome

/-- `deliver`, and the yield of what it gives. -/
def deliver (chunk : Bytes) (next : Next) : Pump K :=
  let cv := s.convert.map (K.convert · chunk)
  let r := s.shaper.process ((cv.map Prod.snd).getD chunk)
  let checked := s.inspector.map (K.check · r.2)
  let s := { s with
    convert := cv.map Prod.fst
    shaper := r.1
    inspector := checked.map Prod.fst
    passed := s.passed ++ [chunk] }
  match checked.bind Prod.snd with
  | some (err, safe) => s.stop .stopped (told err) (s.cut c s.convert (r.2.take safe) err)
  | none =>
    if r.2 = [] then s.goOn c next
    else
      match next with
      -- the opening of a stream that broke off: the error's frame comes last
      | .fail _ _ => { s.yield r.2 with phase := Next.phase next }
      | _ =>
        let l := s.lastFrame.isIn r.2
        { s.yield r.2 with
          phase := Next.phase next
          lastFrame := l.1
          delivered := s.delivered || l.2 }

/-- The stream generates at `rate`, below the minimum. -/
def cutSlow (min : MinSpeed) (rate : Nat) : Pump K :=
  let err : GatewayError := .upstreamTooSlow c.provider rate min.tokensPerSec min.windowSecs
  let r := s.failure (K.errorFrame c.client err.statusCode err.display)
  { r.1 with sent := { r.1.sent with tooSlow := some rate } }.stop .tooSlow (told err) r.2

/-! ## Sending again -/

/-- `resending`, and the backoff. -/
def resending : Pump K :=
  { s with
    phase := .waiting
    budget := s.budget.sent
    readers := .unset
    sent := ⟨s.budget.sent.retries, true, none⟩ }

/-- The failure is the answer. -/
def declined (failed : Failed) : Pump K :=
  match failed with
  | .refused e => s.refuse c e
  | .ended => s.release .finish
  | .reported => s.release .pull
  | .brokeOff message outcome => s.release (.fail message outcome)

/-! ## The tail -/

def outcome : StreamOutcome :=
  match s.outcomes with
  | outcome :: _ => outcome
  -- dropped before an outcome was told
  | [] =>
    match s.readers.upstreamError.2 with
    | some said => outcomeOf c.provider said
    | none => if s.delivered then .natural else .clientCancelled

/-- What the tail records against the route. `ran`: Redis ran the script. -/
def tail (ran : Bool) : Pump K :=
  { s with
    -- an attempt that waits to go out again was counted by `admit`
    samples := s.samples ++
      if ran then (finalizeHealth s.sent.waiting (s.outcome c).success).toList else []
    settled := true }

end Pump

/-! ## The steps -/

inductive Action (K : Codec) where
  | poll
  | tick
  | wake
  | opened (answer : Except GatewayError (Wire K)) (now : Int) (jitter : ℚ)
  | pull (item : Option (Except String Bytes)) (room : Bool) (now : Int) (jitter : ℚ)
  | judge (rate : Option Nat)
  | read (now : Int) (jitter : ℚ)
  | deliver
  | goOn
  | snapshot (state : BreakerState)
  | caps (admission : Except GatewayError Admission)
  | record
  | recorded
  | drop
  | tail (ran : Bool)

inductive Step (c : StreamCtx K) : Pump K → Action K → Pump K → Prop where
  | poll {s : Pump K} (at_ : s.phase = .unpolled) : Step c s .poll s.goOut
  | wake {s : Pump K} (at_ : s.phase = .waiting) : Step c s .wake s.goOut
  | tickWaiting {s : Pump K} (at_ : s.phase = .waiting) (keeps : keepsAlive c.client = true) :
      Step c s .tick s.tick
  | tickOpening {s : Pump K} (at_ : s.phase = .opening) (resent : 0 < s.budget.retries)
      (keeps : keepsAlive c.client = true) : Step c s .tick s.tick
  | tickPulling {s : Pump K} (at_ : s.phase = .pulling) (held : s.hold.isSome)
      (keeps : keepsAlive c.client = true) : Step c s .tick s.tick
  | opened {s : Pump K} {answer : Except GatewayError (Wire K)} {now : Int} {jitter : ℚ}
      (at_ : s.phase = .opening) :
      Step c s (.opened answer now jitter) (s.afterOpen c answer now jitter)
  | pull {s : Pump K} {item : Option (Except String Bytes)} {room : Bool} {now : Int} {jitter : ℚ}
      (at_ : s.phase = .pulling) :
      Step c s (.pull item room now jitter) (s.pull c item room now jitter)
  | fast {s : Pump K} {w : SpeedWatch K} (at_ : s.phase = .pulling) (speed : s.speed = some w)
      (started : w.started = true) : Step c s (.judge none) s
  | slow {s : Pump K} {w : SpeedWatch K} {rate : Nat} (at_ : s.phase = .pulling)
      (speed : s.speed = some w) (started : w.started = true) :
      Step c s (.judge (some rate)) (s.cutSlow c w.min rate)
  | read {s : Pump K} {chunk : Bytes} {now : Int} {jitter : ℚ} (at_ : s.phase = .reading chunk) :
      Step c s (.read now jitter) (s.read c chunk now jitter)
  | deliver {s : Pump K} {chunk : Bytes} {next : Next} (at_ : s.phase = .delivering chunk next) :
      Step c s .deliver (s.deliver c chunk next)
  | finish {s : Pump K} (at_ : s.phase = .finishing) : Step c s .goOn (s.finish c)
  | fail {s : Pump K} {message : String} {outcome : StreamOutcome}
      (at_ : s.phase = .failing message outcome) : Step c s .goOn (s.fail c message outcome)
  | shut {s : Pump K} {failed : Failed} {wait : Int}
      (at_ : s.phase = .admitting failed wait .snapshot) (unpinned : c.pinnedOnly = false) :
      Step c s (.snapshot .opened) (s.declined c failed)
  | snapshot {s : Pump K} {failed : Failed} {wait : Int} {state : BreakerState}
      (at_ : s.phase = .admitting failed wait .snapshot)
      (open_ : state = .opened → c.pinnedOnly = true) :
      Step c s (.snapshot state) { s with phase := .admitting failed wait .caps }
  | admitted {s : Pump K} {failed : Failed} {wait : Int}
      (at_ : s.phase = .admitting failed wait .caps) :
      Step c s (.caps (.ok .admitted))
        { s with phase := .admitting failed wait (.recording false) }
  | capped {s : Pump K} {failed : Failed} {wait : Int} {admission : Except GatewayError Admission}
      (at_ : s.phase = .admitting failed wait .caps) (refused : admission ≠ .ok .admitted) :
      Step c s (.caps admission) (s.declined c failed)
  | record {s : Pump K} {failed : Failed} {wait : Int}
      (at_ : s.phase = .admitting failed wait (.recording false)) :
      Step c s .record { s with
        phase := .admitting failed wait (.recording true), samples := s.samples ++ [.error] }
  | recorded {s : Pump K} {failed : Failed} {wait : Int} {ran : Bool}
      (at_ : s.phase = .admitting failed wait (.recording ran)) : Step c s .recorded s.resending
  | drop {s : Pump K} (under : ∀ ending, s.phase ≠ .returned ending) (held : s.phase ≠ .dropped) :
      Step c s .drop { s with phase := .dropped }
  | tail {s : Pump K} {ran : Bool}
      (ended : (∃ ending, s.phase = .returned ending) ∨ s.phase = .dropped)
      (unsettled : s.settled = false) : Step c s (.tail ran) (s.tail c ran)

/-! ## What the body does to an attempt -/

/-- An attempt is under way, and not yet counted. -/
def Phase.underWay : Phase → Bool
  | unpolled | waiting | dropped | admitting _ _ (.recording true) => false
  | _ => true

namespace Pump

variable {c : StreamCtx K} {s s' : Pump K}

/-- The body goes on with the attempt, or ends. -/
structure Proceeds (s s' : Pump K) : Prop where
  opened : s'.opened = s.opened
  samples : s'.samples = s.samples
  waiting : s'.sent.waiting = s.sent.waiting
  settled : s'.settled = s.settled
  underWay : s'.phase.underWay = true

theorem proceeds_finish : s.Proceeds (s.finish c) := by
  unfold finish
  simp only
  split
  next => exact ⟨rfl, rfl, rfl, rfl, rfl⟩
  next => split <;> exact ⟨rfl, rfl, rfl, rfl, rfl⟩

theorem proceeds_fail (message : String) (outcome : StreamOutcome) :
    s.Proceeds (s.fail c message outcome) := ⟨rfl, rfl, rfl, rfl, rfl⟩

theorem proceeds_afterOpen (answer : Except GatewayError (Wire K)) (now : Int) (jitter : ℚ) :
    s.Proceeds (s.afterOpen c answer now jitter) := by
  unfold afterOpen
  cases answer with
  | ok wire => exact ⟨rfl, rfl, rfl, rfl, rfl⟩
  | error e =>
    simp only
    split <;> exact ⟨rfl, rfl, rfl, rfl, rfl⟩

theorem proceeds_streamEnded (now : Int) (jitter : ℚ) :
    s.Proceeds (s.streamEnded c now jitter) := by
  unfold streamEnded
  split
  next => exact proceeds_finish
  next =>
    simp only
    split <;> exact ⟨rfl, rfl, rfl, rfl, rfl⟩

theorem proceeds_broke (message : String) (outcome : StreamOutcome) (now : Int) (jitter : ℚ) :
    s.Proceeds (s.broke c message outcome now jitter) := by
  unfold broke
  split
  next => exact proceeds_fail message outcome
  next =>
    simp only
    split <;> exact ⟨rfl, rfl, rfl, rfl, rfl⟩

theorem proceeds_receive (chunk : Bytes) (room : Bool) :
    s.Proceeds (s.receive c chunk room) := by
  cases room <;> exact ⟨rfl, rfl, rfl, rfl, rfl⟩

theorem proceeds_pull (item : Option (Except String Bytes)) (room : Bool) (now : Int)
    (jitter : ℚ) : s.Proceeds (s.pull c item room now jitter) := by
  unfold pull
  split
  next => exact proceeds_streamEnded now jitter
  next => exact proceeds_broke ..
  next raw =>
    split
    next => exact proceeds_receive raw room
    next =>
      split
      next => exact { proceeds_receive _ room with }
      next => exact proceeds_broke ..

theorem proceeds_read (chunk : Bytes) (now : Int) (jitter : ℚ) :
    s.Proceeds (s.read c chunk now jitter) := by
  unfold read
  simp only
  split
  next => exact ⟨rfl, rfl, rfl, rfl, rfl⟩
  next =>
    split
    next => exact ⟨rfl, rfl, rfl, rfl, rfl⟩
    next =>
      split
      next => exact ⟨rfl, rfl, rfl, rfl, rfl⟩
      next =>
        split
        next => exact ⟨rfl, rfl, rfl, rfl, rfl⟩
        next => split <;> exact ⟨rfl, rfl, rfl, rfl, rfl⟩

theorem proceeds_deliver (chunk : Bytes) (next : Next) : s.Proceeds (s.deliver c chunk next) := by
  unfold deliver
  simp only
  split
  next => exact ⟨rfl, rfl, rfl, rfl, rfl⟩
  next =>
    split
    next =>
      cases next with
      | pull => exact ⟨rfl, rfl, rfl, rfl, rfl⟩
      | finish => exact { proceeds_finish (s := _) with }
      | fail message outcome => exact ⟨rfl, rfl, rfl, rfl, rfl⟩
    next => cases next <;> exact ⟨rfl, rfl, rfl, rfl, rfl⟩

theorem proceeds_cutSlow (min : MinSpeed) (rate : Nat) : s.Proceeds (s.cutSlow c min rate) :=
  ⟨rfl, rfl, rfl, rfl, rfl⟩

theorem proceeds_declined (failed : Failed) : s.Proceeds (s.declined c failed) := by
  cases failed <;> exact ⟨rfl, rfl, rfl, rfl, rfl⟩

/-- A step, by what it does to the attempts. -/
inductive Effect (c : StreamCtx K) (s : Pump K) : Action K → Pump K → Prop where
  | begins {a : Action K} (at_ : s.phase = .unpolled ∨ s.phase = .waiting) : Effect c s a s.goOut
  | proceeds {a : Action K} {s' : Pump K} (under : s.phase.underWay = true)
      (running : ∀ ending, s.phase ≠ .returned ending) (proceeds : s.Proceeds s') : Effect c s a s'
  | tick (at_ : s.phase = .waiting) : Effect c s .tick s.tick
  | record {failed : Failed} {wait : Int}
      (at_ : s.phase = .admitting failed wait (.recording false)) :
      Effect c s .record { s with
        phase := .admitting failed wait (.recording true), samples := s.samples ++ [.error] }
  | recorded {failed : Failed} {wait : Int} {ran : Bool}
      (at_ : s.phase = .admitting failed wait (.recording ran)) : Effect c s .recorded s.resending
  | drop (under : ∀ ending, s.phase ≠ .returned ending) (held : s.phase ≠ .dropped) :
      Effect c s .drop { s with phase := .dropped }
  | tail {ran : Bool} (ended : (∃ ending, s.phase = .returned ending) ∨ s.phase = .dropped)
      (unsettled : s.settled = false) : Effect c s (.tail ran) (s.tail c ran)

/-- A step within an attempt. -/
theorem effect_proceeds {a : Action K} {phase : Phase} (h : s.phase = phase)
    (hunder : phase.underWay = true) (hrunning : ∀ ending, phase ≠ .returned ending)
    (hproceeds : s.Proceeds s') : s.Effect c a s' :=
  .proceeds (h ▸ hunder) (h ▸ hrunning) hproceeds

/-- A step that only the client or the clock notices. -/
theorem proceeds_self {phase : Phase} (h : s.phase = phase) (hunder : phase.underWay = true)
    (hout : s' = { s with out := s'.out }) : s.Proceeds s' := by
  rw [hout]
  exact ⟨rfl, rfl, rfl, rfl, h ▸ hunder⟩

theorem step_effect {a : Action K} (h : Step c s a s') : s.Effect c a s' := by
  cases h with
  | poll at_ => exact .begins (.inl at_)
  | wake at_ => exact .begins (.inr at_)
  | tickWaiting at_ => exact .tick at_
  | tickOpening at_ => exact effect_proceeds at_ rfl nofun (proceeds_self at_ rfl rfl)
  | tickPulling at_ => exact effect_proceeds at_ rfl nofun (proceeds_self at_ rfl rfl)
  | fast at_ => exact effect_proceeds at_ rfl nofun (proceeds_self at_ rfl rfl)
  | opened at_ => exact effect_proceeds at_ rfl nofun (proceeds_afterOpen ..)
  | pull at_ => exact effect_proceeds at_ rfl nofun (proceeds_pull ..)
  | slow at_ => exact effect_proceeds at_ rfl nofun (proceeds_cutSlow ..)
  | read at_ => exact effect_proceeds at_ rfl nofun (proceeds_read ..)
  | deliver at_ => exact effect_proceeds at_ rfl nofun (proceeds_deliver ..)
  | finish at_ => exact effect_proceeds at_ rfl nofun proceeds_finish
  | fail at_ => exact effect_proceeds at_ rfl nofun (proceeds_fail ..)
  | shut at_ => exact effect_proceeds at_ rfl nofun (proceeds_declined _)
  | capped at_ => exact effect_proceeds at_ rfl nofun (proceeds_declined _)
  | snapshot at_ => exact effect_proceeds at_ rfl nofun ⟨rfl, rfl, rfl, rfl, rfl⟩
  | admitted at_ => exact effect_proceeds at_ rfl nofun ⟨rfl, rfl, rfl, rfl, rfl⟩
  | record at_ => exact .record at_
  | recorded at_ => exact .recorded at_
  | drop under held => exact .drop under held
  | tail ended unsettled => exact .tail ended unsettled

end Pump

end ThinkWatch.Gateway.Stream
