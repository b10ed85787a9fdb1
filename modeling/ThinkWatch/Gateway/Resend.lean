import ThinkWatch.Gateway.EffortMemory
import ThinkWatch.Gateway.Router
import ThinkWatch.Lib.Recent
import ThinkWatch.Lib.Run

/-!
# A request that is sent to one upstream

`generate::send` (`crates/gateway/src/proxy/generate.rs`) with what it calls: `cache_marks.rs`,
`protocol_relearn.rs` and `effort.rs`. An upstream that refuses what can be left out, or the format,
gets the request again. `send` is a machine that goes on with every answer; `State` is a gateway of
several replicas, whose requests and tasks share the Redis memory and, in one replica, the table of
the models whose breakpoints an upstream refused. Addressing a request is a parameter.
-/

namespace ThinkWatch.Gateway.Learned

open Lib
open Gateway.Stream (Dialect)

variable {J β : Type} (D : Dialects J β)

/-! ## The request on its way -/

/-- `Outbound::address`: the request in one format. `effort` is the change of the model's setting. -/
structure Addressed (β : Type) where
  body : β
  dialect : Dialect
  autoCache : Bool
  effort : Option EffortChange
deriving DecidableEq, Repr

structure Wire (β : Type) extends Addressed β where
  pre : Option WrittenEffort
  remembered : Bool
deriving DecidableEq, Repr

def Addressed.wire (a : Addressed β) : Wire β := ⟨a, none, false⟩

/-- The breakpoints that were added are taken out, and whether there were any. -/
def Wire.dropAddedMarks (w : Wire β) : Wire β × Bool :=
  if w.autoCache then
    match D.stripMarks w.dialect w.body with
    | some body => ({ w with body := body, autoCache := false }, true)
    | none => ({ w with autoCache := false }, false)
  else (w, false)

def Wire.writtenEffort (w : Wire β) : Option WrittenEffort := written D w.dialect w.body

/-- The hop with the effort rewritten; none if nothing changed. -/
def Wire.fixEffort (w : Wire β) (fix : EffortFix) (replaced : WrittenEffort) (reason : Reason) :
    Option (Wire β) :=
  (applyFix D w.dialect w.body fix).map fun (body, sent) =>
    { w with body := body, effort := some ⟨replaced.slug D, sent, reason⟩ }

/-- What the memory rewrites in a hop: the effort it writes, and the fix. -/
def Wire.rewrite (w : Wire β) (memory : Memory) (now : Int) :
    Option (WrittenEffort × EffortFix × Wire β) := do
  let written ← w.writtenEffort D
  let fix ← memory.insteadOf D written now
  let fixed ← w.fixEffort D fix written .remembered
  some (written, fix, { fixed with pre := some written, remembered := true })

/-- `Wire::remembered`. -/
def Wire.rememberedBy (w : Wire β) (memory : Memory) (now : Int) : Wire β :=
  if memory.isEmpty then w
  else match w.rewrite D memory now with
    | some (_, _, w') => w'
    | none => w

/-! ## What an upstream refuses -/

def lower (s : List Char) : List Char := s.map Char.toLower

/-- `cache_marks::is_refusal`. -/
def isRefusal (err : GatewayError) (label : String) : Bool :=
  match err with
  | .providerHttpError status message _ =>
    status == 400 &&
      ["cache_control", "cachepoint", "cache_point", "cache point", "prompt caching",
        "prompt_caching"].any fun w =>
          decide (w.toList <:+: lower (saidBy label message))
  | _ => false

/-- `protocol_relearn::is_protocol_mismatch`. -/
def isProtocolMismatch (err : GatewayError) : Bool :=
  match err with
  | .providerHttpError status message _ =>
    let m := lower message.toList
    400 ≤ status && status < 500 &&
      (["/v1/chat/completions", "/v1/messages", "/v1/responses", "chat/completions",
        "generatecontent"].any fun w => decide (w.toList <:+: m)) &&
      ["not support", "unsupported", "not available", "invalid endpoint", "unknown endpoint"].any
        fun w => decide (w.toList <:+: m)
  | _ => false

/-- `sealed::explain_refusal`. -/
def explainRefusal (wire : Dialect) (provider label : String) (e : GatewayError) : GatewayError :=
  match e with
  | .providerHttpError status message _ =>
    if 400 ≤ status ∧ status < 500 ∧ wire = .responses ∧ D.sealedRefused wire message = true then
      .sealedHistoryRefused status provider (String.ofList (saidBy label message))
    else e
  | _ => e

/-! ## `send` -/

/-- What a request is sent with. `any` is whether it can carry an effort. -/
structure Send (β : Type) where
  entry : RouteEntry
  label : String
  model : String
  any : Bool
  address : UpstreamProtocol → Except GatewayError (Addressed β)

/-- Which of its requests a `send` has sent. -/
inductive Stage where
  | first
  | unmarked
  | refixed (pre : WrittenEffort) (fix : EffortFix) (remembered : Bool)
  | alternate (protocol : UpstreamProtocol) (rest : List UpstreamProtocol)
deriving DecidableEq, Repr

inductive Phase (β : Type) where
  | recalling (wire : Wire β) (stage : Stage)
  | waiting (wire : Wire β) (stage : Stage)
  | done (result : Except GatewayError (Wire β))

/-- What a `send` does besides sending. -/
inductive Effect where
  | noteMarks
  | remember (dialect : Dialect) (pre : WrittenEffort) (fix : EffortFix)
  | forget (dialect : Dialect) (pre : WrittenEffort)
  | persist (protocol : UpstreamProtocol)
deriving DecidableEq, Repr

namespace Send

variable (c : Send β)

/-- `address(protocol)`, then `for_upstream`: the memory is asked next. -/
def addressed (marks : Noted String) (protocol : UpstreamProtocol) (stage : Stage) : Phase β :=
  match c.address protocol with
  | .error e => .done (.error e)
  | .ok a =>
    .recalling (if a.autoCache && marks.contains c.model then (a.wire.dropAddedMarks D).1
      else a.wire) stage

/-- The alternates that are left, when the last answer was `last`. -/
def tryAlternates (marks : Noted String) (dialect : Dialect) (last : GatewayError) :
    List UpstreamProtocol → Phase β
  | [] => .done (.error (explainRefusal D dialect c.entry.providerName c.label last))
  | protocol :: rest =>
    if isProtocolMismatch last then c.addressed D marks protocol (.alternate protocol rest)
    else .done (.error (explainRefusal D dialect c.entry.providerName c.label last))

/-- The effort was refused: the fix, what it is remembered under, and the hop with it. -/
def refix (wire : Wire β) (last : GatewayError) : Option (WrittenEffort × EffortFix × Wire β) :=
  match last with
  | .providerHttpError 400 _ _ => do
    let sent ← wire.writtenEffort D
    let fix ← rejection D last c.label sent
    let fixed ← wire.fixEffort D fix (wire.pre.getD sent) .rejected
    some (wire.pre.getD sent, fix, fixed)
  | _ => none

def tryEffort (marks : Noted String) (wire : Wire β) (last : GatewayError) : Phase β :=
  match c.refix D wire last with
  | some (pre, fix, fixed) => .waiting fixed (.refixed pre fix wire.remembered)
  | none => c.tryAlternates D marks wire.dialect last c.entry.alternates

/-- The next phase after `wire` was refused with `last`, and what is done besides. -/
def failed (marks : Noted String) (wire : Wire β) (stage : Stage) (last : GatewayError) :
    Phase β × List Effect :=
  match stage with
  | .first =>
    if wire.autoCache && isRefusal last c.label then
      match wire.dropAddedMarks D with
      | (wire', true) => (.waiting wire' .unmarked, [.noteMarks])
      | (wire', false) => (c.tryEffort D marks wire' last, [])
    else (c.tryEffort D marks wire last, [])
  | .unmarked => (c.tryEffort D marks wire last, [])
  | .refixed pre _ remembered =>
    (c.tryAlternates D marks wire.dialect last c.entry.alternates,
      if remembered then [.forget wire.dialect pre] else [])
  | .alternate _ rest => (c.tryAlternates D marks wire.dialect last rest, [])

/-- What is done when `wire` was answered. -/
def answered (wire : Wire β) : Stage → List Effect
  | .refixed pre fix _ => [.remember wire.dialect pre fix]
  | .alternate protocol _ => [.persist protocol]
  | _ => []

end Send

/-! ## A gateway of several replicas -/

/-- One model asked of one provider in one format. -/
structure Key where
  provider : Uuid
  dialect : Dialect
  model : String
deriving DecidableEq, Repr

/-- A request, the upstream object of its replica that it goes to, what it has sent and how that
failed, the newest first. -/
structure Request (β : Type) where
  send : Send β
  upstream : Nat
  phase : Phase β
  calls : List (Wire β)
  failures : List GatewayError

/-- What `update` changes in a memory. -/
inductive Change where
  | remember (pre : WrittenEffort) (fix : EffortFix)
  | forget (pre : WrittenEffort)
deriving DecidableEq, Repr

def Change.apply (change : Change) (m : Memory) (now : Int) : Memory :=
  match change with
  | .remember pre fix => m.note D pre fix now
  | .forget pre => m.forget D pre

/-- `update`, in a task of its own: it reads the memory, and writes it when it has changed. -/
inductive Task where
  | reading (key : Key) (change : Change)
  | writing (key : Key) (memory : Memory)
  | finished
deriving DecidableEq, Repr

/-- What has happened. -/
inductive Event where
  /-- The upstream refused the effort that was written. -/
  | refused (key : Key) (effort : WrittenEffort)
  /-- It answered the request in which `fix` stood for `pre`. -/
  | answered (key : Key) (pre : WrittenEffort) (fix : EffortFix)
  | noted (key : Key) (pre : WrittenEffort) (fix : EffortFix) (now : Int)
  /-- A request went out with `fix` for the effort it would have written. -/
  | used (key : Key) (written : WrittenEffort) (fix : EffortFix) (now : Int)
  | marked (upstream : Nat) (model : String)
  | persisted (i : Nat) (protocol : UpstreamProtocol)
deriving DecidableEq, Repr

/-- The memory in Redis, the tables of the upstream objects, and what is going on. Times are
seconds, the log is the newest first. -/
structure State (β : Type) where
  clock : Int
  redis : Key → Option Memory
  marks : Nat → Noted String
  requests : Nat → Option (Request β)
  tasks : List Task
  log : List Event

def State.start (clock : Int) : State β :=
  ⟨clock, fun _ => none, fun _ => .empty, fun _ => none, [], []⟩

/-- At most this many models are remembered of one upstream. -/
def maxModels : Nat := 1024

inductive Action (β : Type) where
  | tick (secs : Nat)
  /-- The hash of a provider expires, or is deleted. -/
  | lose (provider : Uuid)
  | arrive (i : Nat) (send : Send β) (upstream : Nat)
  | askMemory (i : Nat) (readable : Bool)
  | answer (i : Nat) (result : Except GatewayError Unit)
  | taskRead (j : Nat) (readable : Bool)
  | taskWrite (j : Nat)

namespace Request

variable (r : Request β)

def key (dialect : Dialect) : Key := ⟨r.send.entry.providerId, dialect, r.send.model⟩

/-- The effort an upstream refuses with its answer. -/
def refusedEffort (wire : Wire β) (e : GatewayError) : Option WrittenEffort := do
  let sent ← wire.writtenEffort D
  let _ ← rejection D e r.send.label sent
  some sent

/-- The phase is entered: a hop that waits for its answer was sent. -/
def enter (phase : Phase β) : Request β :=
  match phase with
  | .waiting wire _ => { r with phase := phase, calls := wire :: r.calls }
  | _ => { r with phase := phase }

end Request

namespace State

variable (s : State β)

def set (i : Nat) (r : Request β) : State β :=
  { s with requests := fun j => if j = i then some r else s.requests j }

/-- `recall`: a Redis that cannot be read remembers nothing. -/
def recalled (key : Key) (readable : Bool) : Memory :=
  if readable then (s.redis key).getD .empty else .empty

/-- `forget_provider`. -/
def forgetProvider (provider : Uuid) : State β :=
  { s with redis := fun k => if k.provider = provider then none else s.redis k }

def perform (i : Nat) (r : Request β) (effect : Effect) : State β :=
  match effect with
  | .noteMarks =>
    { s with
      marks := fun u => if u = r.upstream then (s.marks u).note maxModels r.send.model else s.marks u
      log := .marked r.upstream r.send.model :: s.log }
  | .remember dialect pre fix =>
    { s with
      tasks := s.tasks ++ [.reading (r.key dialect) (.remember pre fix)]
      log := .answered (r.key dialect) pre fix :: s.log }
  | .forget dialect pre =>
    { s with tasks := s.tasks ++ [.reading (r.key dialect) (.forget pre)] }
  | .persist protocol =>
    { s.forgetProvider r.send.entry.providerId with log := .persisted i protocol :: s.log }

/-- The memory is read, and the hop is sent with what it says. -/
def askMemory (i : Nat) (readable : Bool) : Option (State β) :=
  match s.requests i with
  | some r =>
    match r.phase with
    | .recalling wire stage =>
      let key := r.key wire.dialect
      let memory := if r.send.any then s.recalled key readable else .empty
      let sent := wire.rememberedBy D memory s.clock
      let uses := if memory.isEmpty then [] else
        match wire.rewrite D memory s.clock with
        | some (written, fix, _) => [.used key written fix s.clock]
        | none => []
      some { s.set i (r.enter (.waiting sent stage)) with log := uses ++ s.log }
    | _ => none
  | none => none

/-- The upstream answers, or refuses, and `send` goes on. -/
def answer (i : Nat) (result : Except GatewayError Unit) : Option (State β) :=
  match s.requests i with
  | some r =>
    match r.phase with
    | .waiting wire stage =>
      match result with
      | .ok () =>
        some ((Send.answered wire stage).foldl (fun s effect => s.perform i r effect)
          (s.set i (r.enter (.done (.ok wire)))))
      | .error e =>
        let next := r.send.failed D (s.marks r.upstream) wire stage e
        let refused := (r.refusedEffort D wire e).toList.map (.refused (r.key wire.dialect))
        let s := { s.set i ({ r with failures := e :: r.failures }.enter next.1) with
          log := refused ++ s.log }
        some (next.2.foldl (fun s effect => s.perform i r effect) s)
    | _ => none
  | none => none

def taskRead (j : Nat) (readable : Bool) : Option (State β) :=
  match s.tasks[j]? with
  | some (.reading key change) =>
    let memory := s.recalled key readable
    let changed := change.apply D memory s.clock
    if changed = memory then some { s with tasks := s.tasks.set j .finished }
    else
      let noted := match change with
        | .remember pre fix => [.noted key pre fix s.clock]
        | .forget _ => []
      some { s with tasks := s.tasks.set j (.writing key changed), log := noted ++ s.log }
  | _ => none

/-- A memory that is empty is deleted. -/
def taskWrite (j : Nat) : Option (State β) :=
  match s.tasks[j]? with
  | some (.writing key memory) =>
    some { s with
      redis := fun k => if k = key then (if memory.isEmpty then none else some memory)
        else s.redis k
      tasks := s.tasks.set j .finished }
  | _ => none

def arrive (i : Nat) (send : Send β) (upstream : Nat) : Option (State β) :=
  match s.requests i with
  | none =>
    let phase := send.addressed D (s.marks upstream) send.entry.protocol .first
    some (s.set i ⟨send, upstream, phase, [], []⟩)
  | some _ => none

def step : Action β → Option (State β)
  | .tick secs => some { s with clock := s.clock + secs }
  | .lose provider => some (s.forgetProvider provider)
  | .arrive i send upstream => s.arrive D i send upstream
  | .askMemory i readable => s.askMemory D i readable
  | .answer i result => s.answer D i result
  | .taskRead j readable => s.taskRead D j readable
  | .taskWrite j => s.taskWrite j

end State

/-- Everything happens in any order. -/
def Next (s : State β) (a : Action β) (s' : State β) : Prop := s.step D a = some s'

end ThinkWatch.Gateway.Learned
