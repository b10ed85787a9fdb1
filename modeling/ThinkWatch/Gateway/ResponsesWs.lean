import ThinkWatch.Lib.KeyedList
import ThinkWatch.Lib.Run
import ThinkWatch.Policy.Document

/-!
# The Responses API over a WebSocket

`crates/gateway/src/proxy/responses_ws.rs`: the turns of one connection and the response that it keeps
between them. Each await is a step: the client's next frame, the pipeline's answer to a turn, a piece
of the answer's stream, a refusal on its way out. The decoder of the stream is outside, so a piece
comes as its frames; each says whether it ends the answer (`ends_answer`).
-/

namespace ThinkWatch.Gateway.ResponsesWs

open Lib Policy

/-! ## The body of a turn -/

/-- `serde_json::Map`. The order of the keys plays no role. -/
abbrev Fields := List (String × Json)

namespace Fields

def remove (key : String) (fields : Fields) : Fields := fields.filter fun f => f.1 ≠ key

def insert (key : String) (value : Json) (fields : Fields) : Fields :=
  (key, value) :: fields.remove key

theorem lookup_remove_self (key : String) (fields : Fields) :
    (fields.remove key).lookup key = none := lookup_filter_self key fields

theorem lookup_remove_ne {key k : String} (h : k ≠ key) (fields : Fields) :
    (fields.remove key).lookup k = fields.lookup k := lookup_filter_ne h fields

theorem lookup_insert_self (key : String) (value : Json) (fields : Fields) :
    (fields.insert key value).lookup key = some value := by
  simp [insert]

theorem lookup_insert_ne {key k : String} (h : k ≠ key) (value : Json) (fields : Fields) :
    (fields.insert key value).lookup k = fields.lookup k := by
  have hk : (k == key) = false := by simpa using h
  rw [insert, List.lookup_cons, hk]
  exact lookup_remove_ne h fields

end Fields

/-- A WebSocket frame from the client. -/
inductive Message where
  | text (t : String)
  | binary (bytes : List UInt8)
  | ping
  | pong
  | close
deriving DecidableEq, Repr

/-- Text and binary frames are turns, or answered with a refusal. -/
def Message.isTurn : Message → Bool
  | text _ | binary _ => true
  | _ => false

def notCreate : String := "Only response.create messages are accepted on this connection."

/-- The type of a frame or of an event. -/
def typeOf (value : Json) : Option String := (value.get "type").bind Json.asStr

variable (parse : String → Option Json)

/-- `request_of`. -/
def requestOf (text : String) : Except String Fields :=
  match parse text with
  | some (.obj frame) =>
    if typeOf (.obj frame) ≠ some "response.create" then .error notCreate
    else
      let frame := Fields.remove "type" frame
      let body := match frame.lookup "response" with
        | some (.obj nested) => nested
        | _ => Fields.remove "response" frame
      .ok (Fields.insert "stream" (.bool true) body)
  | _ => .error notCreate

/-- The body that a frame asks for. -/
def bodyOf : Message → Except String Fields
  | .text t => requestOf parse t
  | _ => .error "Send response.create as a text frame."

/-! ## The response that is kept -/

structure Last where
  id : String
  items : List Json

/-- An output item as it is sent back as input: without its `id` and `status`. -/
def withoutId : Json → Json
  | .obj o => .obj (Fields.remove "status" (Fields.remove "id" o))
  | item => item

/-- `Last::of`. -/
def Last.ofResponse (items : List Json) (response : Json) : Option Last := do
  let id ← (← response.get "id").asStr
  let output ← (← response.get "output").asArray
  return ⟨id, output.foldl (fun items item => items ++ [withoutId item]) items⟩

/-- `input_items`. -/
def inputItems (body : Fields) : List Json :=
  match body.lookup "input" with
  | some (.arr items) => items
  | some (.str text) =>
    [.obj [("type", .str "message"), ("role", .str "user"), ("content", .str text)]]
  | _ => []

/-- The response that a turn names. -/
def named (body : Fields) : Option String :=
  (body.lookup "previous_response_id").bind Json.asStr

/-- `continue_from`: the body that goes upstream, and the whole conversation if it is all here. -/
def continueFrom (body : Fields) (last : Option Last) : Fields × Option (List Json) :=
  let held : Option (List Json) := match named body, last with
    | none, _ => some []
    | some p, some l => if p = l.id then some l.items else none
    | some _, none => none
  match held with
  | none => (body, none)
  | some held =>
    let items := held ++ inputItems body
    (if (named body).isSome then
        Fields.insert "input" (.arr items) (Fields.remove "previous_response_id" body)
      else body,
      some items)

/-! ## The connection -/

/-- A frame of the answer's stream; `ends` is what `ends_answer` says of it. -/
structure Frame where
  data : String
  ends : Bool
deriving DecidableEq, Repr

/-- What `relay` keeps; `frames` went out to the client. -/
structure Relay where
  completed : Option Json
  frames : List Frame

/-- How a turn ended: refused with a frame, relayed to its end, or the client is gone. -/
inductive Outcome where
  | refused (status : Nat) (message : String)
  | relayed (frames : List Frame)
  | gone
deriving DecidableEq, Repr

/-- A frame that was taken up, the body that went upstream for it, and how it ended. -/
structure Turn where
  message : Message
  upstream : Option Fields
  outcome : Outcome

inductive Phase where
  | idle
  | refusing (message : Message) (upstream : Option Fields) (status : Int) (why : String)
  | generating (message : Message) (upstream : Fields) (history : Option (List Json))
  | relaying (message : Message) (upstream : Fields) (history : Option (List Json)) (relay : Relay)
  | closed

/-- `arrived` are all frames from the client so far; those in `rx` have not been read. -/
structure Conn where
  arrived : List Message
  rx : List Message
  queued : List Message
  last : Option Last
  phase : Phase
  log : List Turn

/-- In a piece of the stream and in a refusal, `stays` counts the frames that still reach the client. -/
inductive Event where
  | arrive (m : Message)
  | lost
  | next
  | refused (stays : Bool)
  | answer
  | fail (status : Int) (message : String)
  | chunk (frames : List Frame) (ended : Bool) (stays : Option Nat)
  | read

/-- `u16::try_from(status).unwrap_or(502)`. -/
def clampStatus (status : Int) : Nat :=
  if 0 ≤ status ∧ status ≤ 65535 then status.toNat else 502

/-- The event that carries the response. -/
def isCompleted (event : Json) : Bool := typeOf event == some "response.completed"

/--
The loop over the frames of a piece: what `relay` keeps then, whether the answer is over, and whether
the client is still there.
-/
def relayFrames : List Frame → Option Nat → Relay → Bool → Relay × Bool × Bool
  | [], _, relay, ended => (relay, ended, true)
  | f :: frames, stays, relay, ended =>
    match parse f.data with
    | none => relayFrames frames stays relay ended
    | some event =>
      if stays = some 0 then (relay, ended, false)
      else
        let completed := if isCompleted event then event.get "response" else relay.completed
        relayFrames frames (stays.map (· - 1)) ⟨completed, relay.frames ++ [f]⟩ (ended || f.ends)

namespace Conn

def start : Conn := ⟨[], [], [], none, .idle, []⟩

/-- The turn is over; the connection is ready for the next. -/
def finish (s : Conn) (turn : Turn) (last : Option Last) : Conn :=
  { s with last := last, phase := .idle, log := s.log ++ [turn] }

/-- The client is gone. -/
def leave (s : Conn) (turn : Turn) : Conn :=
  { s with phase := .closed, log := s.log ++ [turn] }

/-- What a frame that was taken up leads to. -/
def handle (s : Conn) (m : Message) : Phase :=
  match m with
  | .text _ | .binary _ =>
    match bodyOf parse m with
    | .ok body => .generating m (continueFrom body s.last).1 (continueFrom body s.last).2
    | .error why => .refusing m none 400 why
  | .close => .closed
  | .ping | .pong => .idle

/-- `last` after a turn that was relayed. -/
def keep (s : Conn) (history : Option (List Json)) (completed : Option Json) : Option Last :=
  match history, completed with
  | some history, some done => (Last.ofResponse history done).or s.last
  | _, _ => s.last

def step (s : Conn) : Event → Option Conn
  | .arrive m => some { s with arrived := s.arrived ++ [m], rx := s.rx ++ [m] }
  | .lost =>
    match s.phase with
    | .idle => if s.queued = [] then some { s with phase := .closed } else none
    | .relaying m upstream _ _ => some (s.leave ⟨m, some upstream, .gone⟩)
    | _ => none
  | .next =>
    match s.phase, s.queued, s.rx with
    | .idle, m :: queued, _ => some { s with queued := queued, phase := s.handle parse m }
    | .idle, [], m :: rx => some { s with rx := rx, phase := s.handle parse m }
    | _, _, _ => none
  | .refused stays =>
    match s.phase with
    | .refusing m upstream status why =>
      some (if stays then s.finish ⟨m, upstream, .refused (clampStatus status) why⟩ s.last
        else s.leave ⟨m, upstream, .gone⟩)
    | _ => none
  | .answer =>
    match s.phase with
    | .generating m upstream history =>
      some { s with phase := .relaying m upstream history ⟨none, []⟩ }
    | _ => none
  | .fail status message =>
    match s.phase with
    | .generating m upstream _ =>
      some { s with phase := .refusing m (some upstream) status message }
    | _ => none
  | .chunk frames ended stays =>
    match s.phase with
    | .relaying m upstream history relay =>
      match relayFrames parse frames stays relay ended with
      | (_, _, false) => some (s.leave ⟨m, some upstream, .gone⟩)
      | (relay, true, true) =>
        some (s.finish ⟨m, some upstream, .relayed relay.frames⟩ (s.keep history relay.completed))
      | (relay, false, true) => some { s with phase := .relaying m upstream history relay }
    | _ => none
  | .read =>
    match s.phase, s.rx with
    | .relaying m upstream _ _, .close :: rx =>
      some ({ s with rx := rx }.leave ⟨m, some upstream, .gone⟩)
    | .relaying _ _ _ _, n :: rx =>
      some { s with rx := rx, queued := if n.isTurn then s.queued ++ [n] else s.queued }
    | _, _ => none

end Conn

/-! ## What the connection is for -/

/-- One turn of a conversation: its own input, and the output items of the response. -/
structure Exchange where
  input : List Json
  output : List Json

/-- The conversation up to and including the response `id`. -/
structure Chain where
  id : String
  exchanges : List Exchange

def Chain.items (c : Chain) : List Json := c.exchanges.flatMap fun e => e.input ++ e.output

def Chain.last (c : Chain) : Last := ⟨c.id, c.items⟩

/-- The id of a response and its output items as they are sent back. -/
def answered (response : Json) : Option (String × List Json) := do
  let id ← (← response.get "id").asStr
  let output ← (← response.get "output").asArray
  return (id, output.map withoutId)

/-- The events that went out. -/
def events (frames : List Frame) : List Json := frames.filterMap fun f => parse f.data

/-- The response of the last `response.completed` that went out. -/
def completedResponse (frames : List Frame) : Option Json :=
  ((events parse frames).filter isCompleted).getLast?.bind (Json.get "response")

namespace Turn

/-- The client has received a `response.completed`. -/
def Completes (t : Turn) : Prop :=
  ∃ frames, t.outcome = .relayed frames ∧ ∃ event ∈ events parse frames, isCompleted event = true

def completed (t : Turn) : Option (String × List Json) :=
  match t.outcome with
  | .relayed frames => (completedResponse parse frames).bind answered
  | _ => none

/-- The chain after a turn. -/
def extend (chain : Option Chain) (t : Turn) : Option Chain :=
  match bodyOf parse t.message, t.completed parse with
  | .ok body, some (id, output) =>
    match named body, chain with
    | none, _ => some ⟨id, [⟨inputItems body, output⟩]⟩
    | some p, some c =>
      if p = c.id then some ⟨id, c.exchanges ++ [⟨inputItems body, output⟩]⟩ else some c
    | some _, none => none
  | _, _ => chain

end Turn

/-- The chain that a sequence of turns leaves. -/
def remembered (turns : List Turn) : Option Chain := turns.foldl (Turn.extend parse) none

/-- What goes upstream for a body, when `chain` is the chain so far. -/
structure Faithful (chain : Option Chain) (body upstream : Fields) : Prop where
  continued : ∀ c, chain = some c → named body = some c.id →
    upstream.lookup "previous_response_id" = none ∧
    upstream.lookup "input" = some (.arr (c.items ++ inputItems body)) ∧
    ∀ key, key ≠ "previous_response_id" → key ≠ "input" → upstream.lookup key = body.lookup key
  asSent : (∀ c, chain = some c → named body ≠ some c.id) → upstream = body

/-! ## One turn -/

section

variable {parse}

theorem ofResponse_eq (items : List Json) (response : Json) :
    Last.ofResponse items response = (answered response).map fun a => ⟨a.1, items ++ a.2⟩ := by
  have hfold : ∀ output : List Json,
      output.foldl (fun items item => items ++ [withoutId item]) items =
        items ++ output.map withoutId := by
    intro output
    rw [List.foldl_append_eq_append, ← List.flatMap_def, ← List.map_eq_flatMap]
  unfold Last.ofResponse answered
  simp only [hfold]
  cases response.get "id" with
  | none => rfl
  | some id =>
    cases hid : id.asStr with
    | none => simp [hid]
    | some id => cases response.get "output" <;> simp [hid, Option.map_bind]

/-- The turn's whole conversation is there: it names no response, or the one that is held. -/
theorem continueFrom_eq (body : Fields) (chain : Option Chain) :
    continueFrom body (chain.map Chain.last) =
      match named body, chain with
      | none, _ => (body, some (inputItems body))
      | some p, some c =>
        if p = c.id then
          (Fields.insert "input" (.arr (c.items ++ inputItems body))
            (Fields.remove "previous_response_id" body), some (c.items ++ inputItems body))
        else (body, none)
      | some _, none => (body, none) := by
  unfold continueFrom
  cases hnamed : named body with
  | none => cases chain <;> rfl
  | some p =>
    cases chain with
    | none => rfl
    | some c =>
      by_cases hp : p = c.id
      · simp [Chain.last, hp]
      · simp [Chain.last, hp]

theorem faithful_continueFrom (chain : Option Chain) (body : Fields) :
    Faithful chain body (continueFrom body (chain.map Chain.last)).1 := by
  rw [continueFrom_eq]
  constructor
  · rintro c rfl hnamed
    rw [hnamed]
    simp only [if_true]
    refine ⟨?_, Fields.lookup_insert_self _ _ _, fun key hprev hinput => ?_⟩
    · rw [Fields.lookup_insert_ne (by decide)]
      exact Fields.lookup_remove_self _ _
    · rw [Fields.lookup_insert_ne hinput, Fields.lookup_remove_ne hprev]
  · intro hne
    cases hnamed : named body with
    | none => cases chain <;> rfl
    | some p =>
      cases chain with
      | none => rfl
      | some c =>
        have hp : p ≠ c.id := fun h => hne c rfl (hnamed.trans (congrArg some h))
        simp [hp]

theorem completedResponse_snoc {f : Frame} {event : Json} (h : parse f.data = some event)
    (frames : List Frame) :
    completedResponse parse (frames ++ [f]) =
      if isCompleted event then event.get "response" else completedResponse parse frames := by
  have hevents : events parse (frames ++ [f]) = events parse frames ++ [event] := by
    simp [events, List.filterMap_append, h]
  unfold completedResponse
  rw [hevents, List.filter_append]
  cases hevent : isCompleted event <;> simp [hevent]

/-- What `relay` keeps is the response of the last `response.completed` that went out. -/
theorem relayFrames_completed (frames : List Frame) (stays : Option Nat) {relay : Relay}
    (ended : Bool) (h : relay.completed = completedResponse parse relay.frames) :
    (relayFrames parse frames stays relay ended).1.completed =
      completedResponse parse (relayFrames parse frames stays relay ended).1.frames := by
  induction frames generalizing stays relay ended with
  | nil => exact h
  | cons f frames ih =>
    unfold relayFrames
    split
    · exact ih stays ended h
    · next event hevent =>
      split
      · exact h
      · refine ih _ _ ?_
        rw [completedResponse_snoc hevent, ← h]

theorem completed_eq_none {t : Turn} (h : ¬ t.Completes parse) : t.completed parse = none := by
  unfold Turn.completed
  split
  · next frames hrelayed =>
    have hnone : (events parse frames).filter isCompleted = [] :=
      List.filter_eq_nil_iff.mpr fun event hevent hcompleted =>
        h ⟨frames, hrelayed, event, hevent, hcompleted⟩
    simp [completedResponse, hnone]
  · rfl

theorem extend_of_completed_none {t : Turn} (h : t.completed parse = none)
    (chain : Option Chain) : t.extend parse chain = chain := by
  unfold Turn.extend
  rw [h]
  cases bodyOf parse t.message <;> rfl

/-- A turn that names a response that is not held leaves the chain alone, however it ends. -/
theorem extend_of_named {t : Turn} {body : Fields} {p : String} {chain : Option Chain}
    (hbody : bodyOf parse t.message = .ok body) (hnamed : named body = some p)
    (hne : ∀ c, chain = some c → c.id ≠ p) : t.extend parse chain = chain := by
  unfold Turn.extend
  rw [hbody]
  cases t.completed parse with
  | none => rfl
  | some a =>
    cases chain with
    | none => simp [hnamed]
    | some c => simp [hnamed, (hne c rfl).symm]

theorem keep_eq (s : Conn) (history : Option (List Json)) (completed : Option Json) :
    s.keep history completed =
      (history.bind fun items =>
        (completed.bind answered).map fun a => ⟨a.1, items ++ a.2⟩).or s.last := by
  unfold Conn.keep
  cases history with
  | none => rfl
  | some items =>
    cases completed with
    | none => rfl
    | some done =>
      show (Last.ofResponse items done).or s.last = _
      rw [ofResponse_eq]
      rfl

/-- `last` after a turn is the chain after it. -/
theorem keep_relayed {s : Conn} {chain : Option Chain} {m : Message} {body : Fields}
    {upstream : Option Fields} {frames : List Frame} (hlast : s.last = chain.map Chain.last)
    (hbody : bodyOf parse m = .ok body) :
    s.keep (continueFrom body s.last).2 (completedResponse parse frames) =
      (Turn.extend parse chain ⟨m, upstream, .relayed frames⟩).map Chain.last := by
  rw [keep_eq, hlast, continueFrom_eq]
  unfold Turn.extend
  simp only [hbody, Turn.completed]
  cases (completedResponse parse frames).bind answered with
  | none => simp
  | some a =>
    cases hnamed : named body with
    | none => cases chain <;> simp [hnamed, Chain.last, Chain.items]
    | some p =>
      cases chain with
      | none => simp [hnamed]
      | some c =>
        by_cases hp : p = c.id
        · simp [hnamed, hp, Chain.last, Chain.items]
        · simp [hnamed, hp]

end

/-! ## The invariant -/

/-- The body that goes upstream for a frame. -/
def sentFor (last : Option Last) (m : Message) : Option Fields :=
  (bodyOf parse m).toOption.map fun body => (continueFrom body last).1

namespace Phase

/-- The frame that is being handled. -/
def current : Phase → List Message
  | refusing m _ _ _ | generating m _ _ | relaying m _ _ _ => [m]
  | _ => []

/-- The body that is upstream for the frame. -/
def inFlight : Phase → Option (Message × Fields)
  | generating m upstream _ | relaying m upstream _ _ => some (m, upstream)
  | _ => none

/-- What is upstream follows from the frame and the response that was kept when it was taken up. -/
def Holds (last : Option Last) : Phase → Prop
  | idle | closed => True
  | refusing m upstream _ _ => upstream = sentFor parse last m
  | generating m upstream history =>
    ∃ body, bodyOf parse m = .ok body ∧ continueFrom body last = (upstream, history)
  | relaying m upstream history relay =>
    (∃ body, bodyOf parse m = .ok body ∧ continueFrom body last = (upstream, history)) ∧
      relay.completed = completedResponse parse relay.frames

end Phase

structure Sound (s : Conn) : Prop where
  last : s.last = (remembered parse s.log).map Chain.last
  sent : ∀ before t after, s.log = before ++ t :: after →
    t.upstream = sentFor parse ((remembered parse before).map Chain.last) t.message
  phase : s.phase.Holds parse s.last
  order : s.arrived.filter Message.isTurn =
    s.log.map Turn.message ++ s.phase.current ++ (s.queued ++ s.rx).filter Message.isTurn

section

variable {parse} {s s' : Conn} {e : Event}

theorem remembered_snoc (log : List Turn) (t : Turn) :
    remembered parse (log ++ [t]) = t.extend parse (remembered parse log) := by
  rw [remembered, List.foldl_append]
  rfl

theorem sound_start : Sound parse Conn.start where
  last := rfl
  sent before t after h := by simp [Conn.start] at h
  phase := trivial
  order := rfl

/-- A frame that is taken up: it is being handled, or was no turn. -/
theorem handle_current (m : Message) : (s.handle parse m).current = [m].filter Message.isTurn := by
  unfold Conn.handle
  cases m with
  | text t => simp only; split <;> rfl
  | binary bytes => rfl
  | ping => rfl
  | pong => rfl
  | close => rfl

theorem handle_holds (m : Message) : (s.handle parse m).Holds parse s.last := by
  have hbegin : Phase.Holds parse s.last (match bodyOf parse m with
      | .ok body => .generating m (continueFrom body s.last).1 (continueFrom body s.last).2
      | .error why => .refusing m none 400 why) := by
    split
    · next body hbody => exact ⟨body, hbody, rfl⟩
    · next why hwhy =>
      show none = sentFor parse s.last m
      simp [sentFor, hwhy, Except.toOption]
  unfold Conn.handle
  cases m with
  | text t => exact hbegin
  | binary bytes => exact hbegin
  | ping => trivial
  | pong => trivial
  | close => trivial

theorem Phase.Holds.inFlight {phase : Phase} {last : Option Last} (h : phase.Holds parse last)
    {m : Message} {sent : Fields} (hflight : phase.inFlight = some (m, sent)) :
    ∃ body, bodyOf parse m = .ok body ∧ (continueFrom body last).1 = sent := by
  cases phase with
  | generating n upstream history =>
    obtain ⟨rfl, rfl⟩ := Prod.mk.inj (Option.some.inj hflight)
    obtain ⟨body, hbody, hcontinue⟩ := h
    exact ⟨body, hbody, congrArg Prod.fst hcontinue⟩
  | relaying n upstream history relay =>
    obtain ⟨rfl, rfl⟩ := Prod.mk.inj (Option.some.inj hflight)
    obtain ⟨⟨body, hbody, hcontinue⟩, -⟩ := h
    exact ⟨body, hbody, congrArg Prod.fst hcontinue⟩
  | idle => cases hflight
  | refusing n upstream status why => cases hflight
  | closed => cases hflight

theorem Phase.Holds.sent {phase : Phase} {last : Option Last} (h : phase.Holds parse last)
    {m : Message} {sent : Fields} (hflight : phase.inFlight = some (m, sent)) :
    some sent = sentFor parse last m := by
  obtain ⟨body, hbody, rfl⟩ := h.inFlight hflight
  unfold sentFor
  rw [hbody]
  rfl

namespace Sound

/-- The steps of a turn that do not end it, and those between two turns. -/
theorem aside (hs : Sound parse s) (hlog : s'.log = s.log) (hlast : s'.last = s.last)
    (hphase : s'.phase.Holds parse s.last)
    (horder : s'.arrived.filter Message.isTurn = s.log.map Turn.message ++ s'.phase.current ++
      (s'.queued ++ s'.rx).filter Message.isTurn) : Sound parse s' where
  last := by rw [hlast, hlog, hs.last]
  sent := by rw [hlog]; exact hs.sent
  phase := by rw [hlast]; exact hphase
  order := by rw [hlog]; exact horder

/-- The steps that end a turn. -/
theorem ended (hs : Sound parse s) {t : Turn} (hcurrent : s.phase.current = [t.message])
    (hsent : t.upstream = sentFor parse s.last t.message) (hlog : s'.log = s.log ++ [t])
    (hlast : s'.last = (t.extend parse (remembered parse s.log)).map Chain.last)
    (hphase : s'.phase = .idle ∨ s'.phase = .closed) (harrived : s'.arrived = s.arrived)
    (hunread : (s'.queued ++ s'.rx).filter Message.isTurn =
      (s.queued ++ s.rx).filter Message.isTurn) : Sound parse s' where
  last := by rw [hlast, hlog, remembered_snoc]
  sent before t' after h := by
    rw [hlog] at h
    rcases List.eq_nil_or_concat after with rfl | ⟨after', last, rfl⟩
    · obtain ⟨rfl, htt⟩ := List.append_inj' h rfl
      obtain rfl := List.cons.inj htt |>.1
      rw [hsent, hs.last]
    · have hsplit : s.log ++ [t] = (before ++ t' :: after') ++ [last] := by simpa using h
      exact hs.sent before t' after' (List.append_inj' hsplit rfl).1
  phase := by rcases hphase with h | h <;> rw [h] <;> trivial
  order := by
    have hnone : s'.phase.current = [] := by rcases hphase with h | h <;> rw [h] <;> rfl
    rw [harrived, hs.order, hunread, hlog, hcurrent, hnone]
    simp

/-- A turn that the client left, or that was refused, ends without a response. -/
theorem unanswered (hs : Sound parse s) {t : Turn} (hcurrent : s.phase.current = [t.message])
    (hsent : t.upstream = sentFor parse s.last t.message) (hnone : t.completed parse = none)
    (hlog : s'.log = s.log ++ [t]) (hlast : s'.last = s.last)
    (hphase : s'.phase = .idle ∨ s'.phase = .closed) (harrived : s'.arrived = s.arrived)
    (hunread : (s'.queued ++ s'.rx).filter Message.isTurn =
      (s.queued ++ s.rx).filter Message.isTurn) : Sound parse s' :=
  hs.ended hcurrent hsent hlog
    (by rw [hlast, hs.last, extend_of_completed_none hnone]) hphase harrived hunread

theorem step (hs : Sound parse s) (h : s.step parse e = some s') : Sound parse s' := by
  have hphase := hs.phase
  have horder := hs.order
  cases e with
  | arrive m =>
    obtain rfl := Option.some.inj h
    refine hs.aside rfl rfl hphase ?_
    simp only [List.filter_append, horder, List.append_assoc]
  | lost =>
    simp only [Conn.step] at h
    split at h
    · next hidle =>
      split at h
      · obtain rfl := Option.some.inj h
        refine hs.aside rfl rfl trivial ?_
        rw [hidle] at horder
        exact horder
      · cases h
    · next m upstream history relay hrelaying =>
      obtain rfl := Option.some.inj h
      have hsent : some upstream = sentFor parse s.last m := hphase.sent (by rw [hrelaying]; rfl)
      exact hs.unanswered (by rw [hrelaying]; rfl) hsent rfl rfl rfl (Or.inr rfl) rfl rfl
    · cases h
  | next =>
    simp only [Conn.step] at h
    split at h
    · next _ m queued hidle hqueued =>
      obtain rfl := Option.some.inj h
      refine hs.aside rfl rfl (handle_holds m) ?_
      rw [handle_current, List.append_assoc, ← List.filter_append, horder, hidle, hqueued]
      simp only [Phase.current, List.append_nil, List.nil_append, List.cons_append]
    · next m rx hidle hqueued hrx =>
      obtain rfl := Option.some.inj h
      refine hs.aside rfl rfl (handle_holds m) ?_
      rw [handle_current, List.append_assoc, ← List.filter_append, horder, hidle, hqueued, hrx]
      simp only [Phase.current, List.append_nil, List.nil_append, List.cons_append]
    · cases h
  | refused stays =>
    simp only [Conn.step] at h
    split at h
    · next m upstream status why hrefusing =>
      obtain rfl := Option.some.inj h
      rw [hrefusing] at hphase
      have hcurrent : s.phase.current = [m] := by rw [hrefusing]; rfl
      split
      · exact hs.unanswered (t := ⟨m, upstream, _⟩) hcurrent hphase rfl rfl rfl (Or.inl rfl) rfl rfl
      · exact hs.unanswered (t := ⟨m, upstream, _⟩) hcurrent hphase rfl rfl rfl (Or.inr rfl) rfl rfl
    · cases h
  | answer =>
    simp only [Conn.step] at h
    split at h
    · next m upstream history hgenerating =>
      obtain rfl := Option.some.inj h
      rw [hgenerating] at hphase horder
      exact hs.aside rfl rfl ⟨hphase, rfl⟩ horder
    · cases h
  | fail status message =>
    simp only [Conn.step] at h
    split at h
    · next m upstream history hgenerating =>
      obtain rfl := Option.some.inj h
      have hsent : some upstream = sentFor parse s.last m :=
        hphase.sent (by rw [hgenerating]; rfl)
      rw [hgenerating] at horder
      exact hs.aside rfl rfl hsent horder
    · cases h
  | chunk frames ended stays =>
    simp only [Conn.step] at h
    split at h
    · next m upstream history relay hrelaying =>
      have hsent : some upstream = sentFor parse s.last m := hphase.sent (by rw [hrelaying]; rfl)
      rw [hrelaying] at hphase
      obtain ⟨⟨body, hbody, hcontinue⟩, hrelay⟩ := hphase
      have hcompleted := relayFrames_completed frames stays ended hrelay
      split at h
      · obtain rfl := Option.some.inj h
        exact hs.unanswered (by rw [hrelaying]; rfl) hsent rfl rfl rfl (Or.inr rfl) rfl rfl
      · next relay' hframes =>
        obtain rfl := Option.some.inj h
        rw [hframes] at hcompleted
        refine hs.ended (by rw [hrelaying]; rfl) hsent rfl ?_ (Or.inl rfl) rfl rfl
        have hhistory : history = (continueFrom body s.last).2 := by rw [hcontinue]
        show s.keep history relay'.completed = _
        rw [hcompleted, hhistory]
        exact keep_relayed hs.last hbody
      · next relay' hframes =>
        obtain rfl := Option.some.inj h
        rw [hframes] at hcompleted
        rw [hrelaying] at horder
        exact hs.aside rfl rfl ⟨⟨body, hbody, hcontinue⟩, hcompleted⟩ horder
    · cases h
  | read =>
    simp only [Conn.step] at h
    split at h
    · next m upstream history relay rx hrelaying hrx =>
      obtain rfl := Option.some.inj h
      have hsent : some upstream = sentFor parse s.last m := hphase.sent (by rw [hrelaying]; rfl)
      refine hs.unanswered (by rw [hrelaying]; rfl) hsent rfl rfl rfl (Or.inr rfl) rfl ?_
      simp [Conn.leave, hrx, Message.isTurn]
    · next m upstream history relay n rx hrelaying _ hrx =>
      obtain rfl := Option.some.inj h
      refine hs.aside rfl rfl hphase ?_
      rw [horder, hrx]
      cases hn : n.isTurn <;> simp [hn]
    · cases h

end Sound

theorem sound_run {es : List Event}
    (h : Steps (fun s e s' => s.step parse e = some s') Conn.start es s) : Sound parse s :=
  h.invariant (fun _ _ _ hs hstep => hs.step hstep) sound_start

/-- Between two turns the oldest frame that has not been handled is the next one. -/
theorem next_oldest (hidle : s.phase = .idle) {m : Message} {rest : List Message}
    (hunread : s.queued ++ s.rx = m :: rest) :
    ∃ s', s.step parse .next = some s' ∧ s'.queued ++ s'.rx = rest ∧
      s'.phase.current = [m].filter Message.isTurn := by
  cases hqueued : s.queued with
  | cons n queued =>
    rw [hqueued, List.cons_append] at hunread
    obtain ⟨rfl, rfl⟩ := List.cons.inj hunread
    refine ⟨{ s with queued := queued, phase := s.handle parse n }, ?_, rfl, handle_current n⟩
    simp only [Conn.step, hidle, hqueued]
  | nil =>
    rw [hqueued, List.nil_append] at hunread
    refine ⟨{ s with rx := rest, phase := s.handle parse m }, ?_, ?_, handle_current m⟩
    · simp only [Conn.step, hidle, hqueued, hunread]
    · rw [hqueued, List.nil_append]

theorem faithful_of_sent {chain : Option Chain} {m : Message} {body : Fields}
    {upstream : Option Fields} (hsent : upstream = sentFor parse (chain.map Chain.last) m)
    (hbody : bodyOf parse m = .ok body) :
    ∃ sent, upstream = some sent ∧ Faithful chain body sent := by
  refine ⟨_, ?_, faithful_continueFrom chain body⟩
  rw [hsent, sentFor, hbody]
  rfl

/--
In every run: the response that is kept is that of the turns so far. What went upstream for a turn, or
is upstream, continues the chain before it when the turn names its response, and is what the client
sent when not. A turn without a `response.completed`, and one that names a response that is not held,
leave the chain alone. The turns are the frames of the client in the order they arrived, those not
handled yet still wait in that order, and between two turns the oldest of them is next.
-/
theorem chain_faithful {es : List Event}
    (h : Steps (fun s e s' => s.step parse e = some s') Conn.start es s) :
    s.last = (remembered parse s.log).map Chain.last ∧
    (∀ before t after, s.log = before ++ t :: after →
      (∀ body, bodyOf parse t.message = .ok body →
        ∃ sent, t.upstream = some sent ∧ Faithful (remembered parse before) body sent) ∧
      (¬ t.Completes parse → remembered parse (before ++ [t]) = remembered parse before) ∧
      ∀ body p, bodyOf parse t.message = .ok body → named body = some p →
        (∀ c, remembered parse before = some c → c.id ≠ p) →
        remembered parse (before ++ [t]) = remembered parse before) ∧
    (∀ m sent, s.phase.inFlight = some (m, sent) →
      ∃ body, bodyOf parse m = .ok body ∧ Faithful (remembered parse s.log) body sent) ∧
    s.arrived.filter Message.isTurn =
      s.log.map Turn.message ++ s.phase.current ++ (s.queued ++ s.rx).filter Message.isTurn ∧
    (s.phase = .idle → ∀ m rest, s.queued ++ s.rx = m :: rest →
      ∃ s', s.step parse .next = some s' ∧ s'.queued ++ s'.rx = rest ∧
        s'.phase.current = [m].filter Message.isTurn) := by
  have hs := sound_run h
  refine ⟨hs.last, fun before t after hlog => ⟨fun body hbody => ?_, fun hfailed => ?_,
    fun body p hbody hnamed hne => ?_⟩, fun m sent hflight => ?_, hs.order,
    fun hidle m rest => next_oldest hidle⟩
  · exact faithful_of_sent (hs.sent before t after hlog) hbody
  · rw [remembered_snoc, extend_of_completed_none (completed_eq_none hfailed)]
  · rw [remembered_snoc, extend_of_named hbody hnamed hne]
  · obtain ⟨body, hbody, rfl⟩ := hs.phase.inFlight hflight
    rw [hs.last]
    exact ⟨body, hbody, faithful_continueFrom _ body⟩

end

/-! ## Two turns, the second sent while the first runs -/

def firstText : String := "\x7b\"type\":\"response.create\",\"input\":\"one\"\x7d"

def secondText : String :=
  "\x7b\"type\":\"response.create\",\"previous_response_id\":\"resp_1\",\"input\":\"two\"\x7d"

def completedText : String :=
  "\x7b\"type\":\"response.completed\",\"response\":\x7b\"id\":\"resp_1\",\"output\":" ++
    "[\x7b\"id\":\"msg_1\",\"content\":\"hi\"\x7d]\x7d\x7d"

/-- `serde_json::from_str` on the three texts. -/
def parseThree (text : String) : Option Json :=
  if text = firstText then
    some (.obj [("type", .str "response.create"), ("input", .str "one")])
  else if text = secondText then
    some (.obj [("type", .str "response.create"), ("previous_response_id", .str "resp_1"),
      ("input", .str "two")])
  else if text = completedText then
    some (.obj [("type", .str "response.completed"), ("response", .obj [("id", .str "resp_1"),
      ("output", .arr [.obj [("id", .str "msg_1"), ("content", .str "hi")]])])])
  else none

def twoTurns : List Event :=
  [.arrive (.text firstText), .next, .answer, .arrive (.text secondText), .read,
    .chunk [⟨completedText, true⟩] false none, .next]

/-- What the items of a body's input say. -/
def contents (body : Fields) : Option (List (Option String)) :=
  ((body.lookup "input").bind Json.asArray).map fun items =>
    items.map fun item => (item.get "content").bind Json.asStr

theorem chain_faithful_two : ∃ s m sent body,
    Steps (fun s e s' => s.step parseThree e = some s') Conn.start twoTurns s ∧
    s.phase.inFlight = some (m, sent) ∧ bodyOf parseThree m = .ok body ∧
    Faithful (remembered parseThree s.log) body sent ∧
    contents sent = some [some "one", some "hi", some "two"] := by
  have hrun : ((twoTurns.foldlM (Conn.step parseThree) Conn.start).bind fun s =>
      s.phase.inFlight.map fun f => contents f.2) =
      some (some [some "one", some "hi", some "two"]) := by
    decide +kernel
  obtain ⟨s, hsteps, hflight⟩ := Option.bind_eq_some_iff.mp hrun
  obtain ⟨⟨m, sent⟩, hsent, hcontents⟩ := Option.map_eq_some_iff.mp hflight
  have h := Steps.of_foldlM hsteps
  obtain ⟨body, hbody, hfaithful⟩ := (chain_faithful h).2.2.1 m sent hsent
  exact ⟨s, m, sent, body, h, hsent, hbody, hfaithful, hcontents⟩

end ThinkWatch.Gateway.ResponsesWs
