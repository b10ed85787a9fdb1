import ThinkWatch.Gateway.Failover
import ThinkWatch.Gateway.Readers
import ThinkWatch.Lib.Expiring
import ThinkWatch.Lib.Cut

/-!
# Conversations with sealed history

`crates/gateway/src/proxy/sealed.rs`: what a conversation remembers of the provider that last
answered it, and where a request that carries sealed history may go; and the requests of a gateway
that reads and writes that memory (`run` of `proxy/generate.rs`, `select_route_for_stream` and
`Resend` of `proxy/routing.rs`, `record_outcome` of `lifecycle/mod.rs`). What a request carries
sealed is the conversation library's to say and is an input. A Redis value is the holder it is read
as (`Holder.parse_encode`).
-/

namespace ThinkWatch.Gateway.SealedHistory

open Lib

/-- `tw_dialect::sealed::Sealed`. -/
inductive Sealed where
  | reasoning
  | content
deriving DecidableEq, Repr

def bindingTtlSecs : Int := 30 * 24 * 60 * 60

/-- An authenticated user's session. -/
structure Conversation where
  user : String
  session : String
deriving DecidableEq, Repr

/-- What a conversation is remembered under. -/
def Conversation.key (c : Conversation) : String := "sealed_holder:" ++ c.user ++ ":" ++ c.session

def Conversation.of (user session : Option String) : Option Conversation :=
  match user, session with
  | some user, some session => some ⟨user, session⟩
  | _, _ => none

structure Holder where
  providerId : Uuid
  providerName : String
deriving DecidableEq, Repr

/-- The text of an id and its parser, as far as they are relied on. -/
structure UuidText where
  text : Uuid → List Char
  parse : List Char → Option Uuid
  parse_text : ∀ id, parse (text id) = some id
  plain : ∀ id, ' ' ∉ text id

/-- `<provider id> <provider name>`. -/
def Holder.encode (u : UuidText) (h : Holder) : List Char :=
  u.text h.providerId ++ ' ' :: h.providerName.toList

def Holder.parse (u : UuidText) (value : List Char) : Option Holder :=
  (cut [' '] value).bind fun (id, name) => (u.parse id).map fun id => ⟨id, String.ofList name⟩

/-- A holder is read as it was written, spaces in its name or not. -/
theorem Holder.parse_encode (u : UuidText) (h : Holder) :
    Holder.parse u (h.encode u) = some h := by
  rw [parse, encode, cut_of_notMem (u.plain _), Option.bind_some]
  dsimp only
  rw [u.parse_text, Option.map_some, String.ofList_toList]

def decide (sealed : Option Sealed) (holder : Option Holder) (providers : List Uuid)
    (model : String) : Except GatewayError (Option Pin) :=
  match sealed, holder with
  | some sealed, some holder =>
    match sealed, providers.any (· == holder.providerId) with
    | .content, true => .ok (some (.only holder.providerId))
    | .content, false => .error (.sealedHistoryUnavailable holder.providerName model)
    | .reasoning, true => .ok (some (.first holder.providerId))
    | .reasoning, false => .ok none
  | _, _ => .ok none

/-! ## The requests of a gateway -/

/-- A request, and the routes of its model when it came. -/
structure Turn where
  dialect : Stream.Dialect
  user : Option String
  session : Option String
  sealed : Option Sealed
  stream : Bool
  group : List RouteEntry
  modelId : String
  failClosed : Bool

/-- Only Responses seals history. -/
def Turn.conversation (t : Turn) : Option Conversation :=
  if t.dialect = .responses then Conversation.of t.user t.session else none

def Turn.ctx (t : Turn) (pin : Option Pin) : SelectionCtx := ⟨t.group, t.modelId, pin, t.failClosed⟩

/-- Where a request stands. `resent` are the routes a stream went out to again. -/
inductive Progress where
  | arrived
  | refused (e : GatewayError)
  | routed (pin : Option Pin) (selection : Selection) (resent : List RouteEntry)

/-- A request, what it found when it asked for its conversation's holder, and when. -/
structure Request where
  turn : Turn
  found : Option (Holder × Int)
  progress : Progress

/-- A whole answer of a turn. -/
structure Answer where
  conversation : Conversation
  holder : Holder
  time : Int

/-- The gateway's Redis and what has happened. Times are milliseconds. -/
structure State where
  redis : Store String Holder
  clock : Int
  requests : Nat → Option Request
  answers : List Answer

def State.start (clock : Int) : State := ⟨Store.empty, clock, fun _ => none, []⟩

def State.set (s : State) (i : Nat) (r : Request) : State :=
  { s with requests := fun j => if j = i then some r else s.requests j }

/-- What `holder` finds: a Redis that cannot be read remembers nothing. -/
def State.holder (s : State) (c : Conversation) (readable : Bool) : Option Holder :=
  if readable then s.redis.get s.clock c.key else none

/-- What a request is routed with, and what it found to be routed by. -/
def State.pin (s : State) (t : Turn) (readable : Bool) :
    Except GatewayError (Option Pin) × Option (Holder × Int) :=
  match t.conversation, t.sealed with
  | some conversation, some sealed =>
    let holder := s.holder conversation readable
    (decide (some sealed) holder (t.group.map RouteEntry.providerId) t.modelId,
      holder.map fun h => (h, s.clock))
  | _, _ => (.ok none, none)

/-- A stream is sent to the route of one pick: it neither fails over nor begins another round. -/
def streamInput {K : Type*} : Input K → Bool
  | .other _ => true
  | .pass _ _ _ => true
  | .answered => true
  | _ => false

inductive Action (K : Type*) where
  | tick (ms : Nat)
  | lose (key : String)
  | arrive (i : Nat) (turn : Turn)
  | route (i : Nat) (readable : Bool) (limits : Limits.Redis) (budget : Budget)
  | select (i : Nat) (input : Input K)
  | resend (i : Nat)
  | record (i : Nat)

/-- What `record_outcome` writes for a turn that was answered whole. -/
def State.answeredBy (s : State) (t : Turn) (entry : RouteEntry) : State :=
  match t.conversation with
  | none => s
  | some conversation =>
    { s with
      redis := s.redis.setEx s.clock conversation.key ⟨entry.providerId, entry.providerName⟩
        (bindingTtlSecs * 1000)
      answers := ⟨conversation, ⟨entry.providerId, entry.providerName⟩, s.clock⟩ :: s.answers }

/-- The steps of the gateway, in any order. The id of a user is the text of a UUID. -/
inductive Next {K : Type*} [AddMonoid K] [LinearOrder K] : State → Action K → State → Prop where
  | tick {s : State} (ms : Nat) : Next s (.tick ms) { s with clock := s.clock + ms }
  | lose {s : State} (key : String) : Next s (.lose key) { s with redis := s.redis.del key }
  | arrive {s : State} {i : Nat} (t : Turn) (hnew : s.requests i = none)
      (huser : ∀ u, t.user = some u → ':' ∉ u.toList) :
      Next s (.arrive i t) (s.set i ⟨t, none, .arrived⟩)
  | route {s : State} {i : Nat} {t : Turn} {found : Option (Holder × Int)} (readable : Bool)
      (limits : Limits.Redis) (budget : Budget) {pin : Option Pin}
      (h : s.requests i = some ⟨t, none, .arrived⟩) (hpin : s.pin t readable = (.ok pin, found)) :
      Next s (.route i readable limits budget)
        (s.set i ⟨t, found, .routed pin (Selection.start (t.ctx pin) limits budget) []⟩)
  | refuse {s : State} {i : Nat} {t : Turn} {found : Option (Holder × Int)} (readable : Bool)
      (limits : Limits.Redis) (budget : Budget) {e : GatewayError}
      (h : s.requests i = some ⟨t, none, .arrived⟩)
      (hpin : s.pin t readable = (.error e, found)) :
      Next s (.route i readable limits budget) (s.set i ⟨t, found, .refused e⟩)
  | select {s : State} {i : Nat} {t : Turn} {found : Option (Holder × Int)} {pin : Option Pin}
      {sel sel' : Selection} {resent : List RouteEntry} (input : Input K)
      (h : s.requests i = some ⟨t, found, .routed pin sel resent⟩)
      (hstream : t.stream = true → streamInput input = true)
      (hstep : SelectionStep (t.ctx pin) sel input sel') :
      Next s (.select i input) (s.set i ⟨t, found, .routed pin sel' resent⟩)
  | resend {s : State} {i : Nat} {t : Turn} {found : Option (Holder × Int)} {pin : Option Pin}
      {sel : Selection} {resent : List RouteEntry} {entry : RouteEntry}
      (h : s.requests i = some ⟨t, found, .routed pin sel resent⟩) (hstream : t.stream = true)
      (hphase : sel.phase = .sending entry) :
      Next s (.resend i) (s.set i ⟨t, found, .routed pin sel (entry :: resent)⟩)
  | record {s : State} {i : Nat} {t : Turn} {found : Option (Holder × Int)} {pin : Option Pin}
      {sel : Selection} {resent : List RouteEntry} {entry : RouteEntry}
      (h : s.requests i = some ⟨t, found, .routed pin sel resent⟩)
      (hphase : sel.phase = .finished (.ok entry)) :
      Next s (.record i) (s.answeredBy t entry)

/-- The providers a request went to. -/
def Request.sentTo (r : Request) : List Uuid :=
  match r.progress with
  | .routed _ sel resent => resent.map RouteEntry.providerId ++ Gateway.sentTo sel.history
  | _ => []

end ThinkWatch.Gateway.SealedHistory
