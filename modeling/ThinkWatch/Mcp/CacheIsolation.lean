import Mathlib.Data.Fintype.EquivFin
import ThinkWatch.Lib.Run
import ThinkWatch.Mcp.ResponseCache

/-!
# Whose response a call is answered with

`handle_tools_call` of `crates/mcp-gateway/src/proxy.rs` around the response cache. A call is looked
up, goes upstream with the caller's credential and the custom headers, and its answer is kept once
it has arrived. Other calls, and changes of the credentials, come in between.

Two places disagree. The scope of an anonymous server is one lane for all callers, but the resolver
still sends the token of a caller who has a row there. And the key takes the empty label for no
label, but the resolver looks for a row with that label.
-/

namespace ThinkWatch.Mcp.Caching

open Lib Policy

/-! ## Calls -/

/-- What all calls have in common. -/
structure Deployment (β : Type) where
  servers : Registry
  /-- The registry is a map from ids. -/
  ids : ∀ a ∈ servers, ∀ b ∈ servers, a.id = b.id → a = b
  scopes : ∀ a ∈ servers,
    a.cacheScope = determineCacheScope a.authShape a.customHeaders a.credentialOwner
  email : Uuid → String
  cacheTtlSecs : Nat
  crypto : Crypto β
  hashing : Hashing

structure ToolsCall where
  userId : Uuid
  mcpAccountOverrides : Json
  request : JsonRpcRequest

def ToolsCall.caller (c : ToolsCall) : ResolverCaller := ⟨c.userId, c.mcpAccountOverrides⟩

/-- The caller's part of the key. -/
def callerScope (server : RegisteredServer) (c : ToolsCall) : Option CallerScope :=
  match server.cacheScope with
  | .global => none
  | .perCaller => some ⟨c.userId, accountLabelForServer c.mcpAccountOverrides server.id⟩

/-- `Map::insert` of a key that the object has. -/
def setField (key : String) (value : Json) : Json → Json
  | .obj fields => .obj (fields.map fun f => if f.1 = key then (key, value) else f)
  | j => j

def invalidParams (message : String) : JsonRpcError := ⟨-32602, message⟩

namespace Deployment

variable {β : Type} (d : Deployment β)

/-- The server of a call, and the request that goes there. -/
def upstreamRequest (c : ToolsCall) : Except JsonRpcError (RegisteredServer × JsonRpcRequest) := do
  let params ← orRefuse c.request.params (invalidParams "Missing params for tools/call")
  let name ← orRefuse ((params.get "name").bind Json.asStr)
    (invalidParams "Missing or invalid 'name' in params")
  let (server, tool) ← orRefuse (d.servers.findServerForTool name)
    (invalidParams ("Unknown tool: " ++ name))
  return (server, ⟨"2.0", c.request.id, "tools/call", some (setField "name" (.str tool) params)⟩)

def effectiveCacheTtl (server : RegisteredServer) : Nat :=
  server.cacheTtlSecs.getD d.cacheTtlSecs

def checkCache (cache : ResponseCache) (server : RegisteredServer) (c : ToolsCall)
    (request : JsonRpcRequest) (now : Int) : Option JsonRpcResponse :=
  if d.effectiveCacheTtl server = 0 then none
  else
    (cache.lookup d.hashing server.id (callerScope server c) request now).map fun cached =>
      { cached with id := c.request.id }

def customHeaders (server : RegisteredServer) (c : ToolsCall) : List (String × String) :=
  resolvedHeaders server.customHeaders c.userId (d.email c.userId)

end Deployment

/-- A call for which the cache had nothing, and the request it goes upstream with. -/
structure Target where
  call : ToolsCall
  server : RegisteredServer
  request : JsonRpcRequest

namespace Target

variable {β : Type} (d : Deployment β) (x : Target)

def key : String := cacheKey d.hashing x.server.id (callerScope x.server x.call) x.request

/-- Whether `write_cache` keeps a response. -/
def keeps (response : JsonRpcResponse) : Bool :=
  d.effectiveCacheTtl x.server ≠ 0 && response.error.isNone

/-- `write_cache`, for an answer that has arrived as a whole. -/
def writeCache (cache : ResponseCache) (response : JsonRpcResponse) (now : Int) : ResponseCache :=
  if d.effectiveCacheTtl x.server = 0 then cache
  else cache.insert d.hashing x.server.id (callerScope x.server x.call) x.request response
    (d.effectiveCacheTtl x.server) now

end Target

section WriteCache

variable {β : Type} {d : Deployment β} {x : Target} {response : JsonRpcResponse} {now : Int}

theorem writeCache_of_not_keeps (h : x.keeps d response = false) (cache : ResponseCache) :
    x.writeCache d cache response now = cache := by
  unfold Target.keeps at h
  unfold Target.writeCache ResponseCache.insert
  split
  next => rfl
  next httl =>
    rw [decide_eq_true httl, Bool.true_and, Option.isNone_eq_false_iff] at h
    rw [if_pos h]

theorem writeCache_of_keeps (h : x.keeps d response = true) (cache : ResponseCache) :
    x.writeCache d cache response now =
      cache.setEx now (x.key d) response (d.effectiveCacheTtl x.server * 1000) := by
  unfold Target.keeps at h
  rw [Bool.and_eq_true, decide_eq_true_eq, Option.isNone_iff_eq_none] at h
  have hnot : ¬ response.error.isSome = true := by simp [h.2]
  unfold Target.writeCache ResponseCache.insert
  rw [if_neg h.1, if_neg hnot]
  rfl

theorem writeCache_ne {k : String} (hk : k ≠ x.key d) (cache : ResponseCache) :
    x.writeCache d cache response now k = cache k := by
  cases hkeeps : x.keeps d response with
  | false => rw [writeCache_of_not_keeps hkeeps]
  | true =>
    rw [writeCache_of_keeps hkeeps]
    exact Store.put_ne cache hk _

/-- The entry of an answer is under the key of its request. -/
theorem writeCache_eq_some {cache : ResponseCache} {k : String} {e : Entry JsonRpcResponse}
    (h : x.writeCache d cache response now k = some e) :
    cache k = some e ∨ k = x.key d ∧ e.value = response := by
  cases hkeeps : x.keeps d response with
  | false =>
    rw [writeCache_of_not_keeps hkeeps] at h
    exact .inl h
  | true =>
    by_cases hk : k = x.key d
    · rw [writeCache_of_keeps hkeeps, hk, Store.setEx, Store.put_self] at h
      cases h
      exact .inr ⟨hk, rfl⟩
    · exact .inl ((writeCache_ne hk cache).symm.trans h)

/-- What has been kept is served to the callers of the lane, until it expires. -/
theorem checkCache_writeCache {cache : ResponseCache} {c : ToolsCall} {t : Int}
    (hkeeps : x.keeps d response = true)
    (hscope : callerScope x.server c = callerScope x.server x.call)
    (ht : t ≤ now + d.effectiveCacheTtl x.server * 1000) :
    d.checkCache (x.writeCache d cache response now) x.server c x.request t =
      some { response with id := c.request.id } := by
  have httl : d.effectiveCacheTtl x.server ≠ 0 :=
    of_decide_eq_true (Bool.and_eq_true_iff.mp hkeeps).1
  rw [writeCache_of_keeps hkeeps]
  unfold Deployment.checkCache ResponseCache.lookup
  rw [if_neg httl, hscope]
  change ((cache.setEx now (x.key d) response _).get t (x.key d)).map _ = _
  rw [Store.get_setEx_self, if_pos ht]
  rfl

end WriteCache

/--
A request that has gone upstream: the tables it found, and the credential that the resolver gave it.
-/
structure Exchange {β : Type} (d : Deployment β) extends Target where
  db : Credentials β
  endpoint : TokenEndpoint
  now : Int
  auth : Option AuthInjection
  found : d.upstreamRequest call = .ok (server, request)
  resolved : (resolve d.crypto endpoint db server call.caller now).1 = .ok auth

/-! ## The system -/

/--
The tables, the cache, the calls that are past `check_cache` and the requests that are upstream.
Nothing looks at `answered`.
-/
structure Proxy {β : Type} (d : Deployment β) where
  db : Credentials β
  cache : ResponseCache
  passed : List ToolsCall
  inFlight : List (Exchange d)
  answered : List (Exchange d × JsonRpcResponse)

inductive Action where
  | checkCache (c : ToolsCall) (now : Int)
  | send (c : ToolsCall) (endpoint : TokenEndpoint) (now : Int)
  | answer (response : JsonRpcResponse) (complete : Bool) (now : Int)
  /-- The users and the administrators change credentials, and the cache loses entries. -/
  | other

section System

variable {β : Type} {d : Deployment β}

/-- Any credentials may be there at the start. -/
def Proxy.start (d : Deployment β) (db : Credentials β) : Proxy d := ⟨db, .empty, [], [], []⟩

/-- The change that a refresh makes. -/
def Proxy.changed (g : Proxy d) (locator : CredLocator) : Option (Credentials β) → Proxy d
  | none => g
  | some db => { g with db, cache := g.cache.invalidateAfterChange locator }

inductive Step : Proxy d → Action → Proxy d → Prop where
  | unknown {g : Proxy d} {c : ToolsCall} {now : Int} {e : JsonRpcError}
      (refused : d.upstreamRequest c = .error e) : Step g (.checkCache c now) g
  | hit {g : Proxy d} {c : ToolsCall} {now : Int} {server : RegisteredServer}
      {request : JsonRpcRequest} {response : JsonRpcResponse}
      (found : d.upstreamRequest c = .ok (server, request))
      (served : d.checkCache g.cache server c request now = some response) :
      Step g (.checkCache c now) g
  | miss {g : Proxy d} {c : ToolsCall} {now : Int} {server : RegisteredServer}
      {request : JsonRpcRequest} (found : d.upstreamRequest c = .ok (server, request))
      (missed : d.checkCache g.cache server c request now = none) :
      Step g (.checkCache c now) { g with passed := c :: g.passed }
  | refused {g : Proxy d} {c : ToolsCall} {endpoint : TokenEndpoint} {now : Int}
      {server : RegisteredServer} {request : JsonRpcRequest} {l r : List ToolsCall}
      {e : ResolverError} (waiting : g.passed = l ++ c :: r)
      (found : d.upstreamRequest c = .ok (server, request))
      (error : (resolve d.crypto endpoint g.db server c.caller now).1 = .error e) :
      Step g (.send c endpoint now)
        { g.changed (locatorFor server c.caller)
            (resolve d.crypto endpoint g.db server c.caller now).2 with passed := l ++ r }
  | send {g : Proxy d} {l r : List ToolsCall} (x : Exchange d)
      (waiting : g.passed = l ++ x.call :: r) (tables : x.db = g.db) :
      Step g (.send x.call x.endpoint x.now)
        { g.changed (locatorFor x.server x.call.caller)
            (resolve d.crypto x.endpoint g.db x.server x.call.caller x.now).2 with
          passed := l ++ r, inFlight := x :: g.inFlight }
  | answer {g : Proxy d} {x : Exchange d} {l r : List (Exchange d)} {response : JsonRpcResponse}
      {now : Int} (waiting : g.inFlight = l ++ x :: r) :
      Step g (.answer response true now)
        { g with
          inFlight := l ++ r, answered := (x, response) :: g.answered,
          cache := x.writeCache d g.cache response now }
  | broken {g : Proxy d} {x : Exchange d} {l r : List (Exchange d)} {response : JsonRpcResponse}
      {now : Int} (waiting : g.inFlight = l ++ x :: r) :
      Step g (.answer response false now)
        { g with inFlight := l ++ r, answered := (x, response) :: g.answered }
  | other {g : Proxy d} {db : Credentials β} {cache : ResponseCache}
      (kept : ∀ k, cache k = none ∨ cache k = g.cache k) : Step g .other { g with db, cache }

/-! ## What is claimed -/

/--
A response from the cache was the answer to a request to the same server, with the same method and
parameters, for which the resolver would have given this caller the same credential, and the custom
headers of this caller are the same. A server with one lane for all gets the same credential and the
same custom headers from every caller.
-/
def Isolated (g : Proxy d) : Action → Prop
  | .checkCache c now => ∀ server request response,
      d.upstreamRequest c = .ok (server, request) →
      d.checkCache g.cache server c request now = some response →
        ∃ x answer, (x, answer) ∈ g.answered ∧ response = { answer with id := c.request.id } ∧
          x.server = server ∧ x.request.method = request.method ∧
          x.request.params = request.params ∧
          (resolve d.crypto x.endpoint x.db server c.caller x.now).1 = .ok x.auth ∧
          d.customHeaders server c = d.customHeaders server x.call
  | .send c endpoint now => ∀ server request, d.upstreamRequest c = .ok (server, request) →
      server.cacheScope = .global → ∀ c' : ToolsCall,
        resolve d.crypto endpoint g.db server c'.caller now =
            resolve d.crypto endpoint g.db server c.caller now ∧
          d.customHeaders server c' = d.customHeaders server c
  | _ => True

/-- The overrides of the call do not name the empty label where the label matters. -/
def NamesLabel (server : RegisteredServer) (c : ToolsCall) : Prop :=
  server.cacheScope = .perCaller → server.credentialOwner = .perUser →
    accountLabelForServer c.mcpAccountOverrides server.id ≠ some ""

/-- No user has a credential on a server of users that is one lane for all. -/
def NoLeftover (db : Credentials β) (server : RegisteredServer) : Prop :=
  server.cacheScope = .global → server.credentialOwner = .perUser →
    ∀ r ∈ db.users, r.serverId ≠ server.id

/-- The condition on each call. -/
def Routable (g : Proxy d) : Action → Prop
  | .checkCache c _ => ∀ server request, d.upstreamRequest c = .ok (server, request) →
      NamesLabel server c
  | .send c _ _ => ∀ server request, d.upstreamRequest c = .ok (server, request) →
      NamesLabel server c ∧ NoLeftover g.db server
  | _ => True

/-- The requests of the calls are among `requests`. -/
def Among (d : Deployment β) (requests : JsonRpcRequest → Prop) : Action → Prop
  | .checkCache c _ | .send c _ _ => ∀ server request,
      d.upstreamRequest c = .ok (server, request) → requests request
  | _ => True

def CollisionFree (hashing : Hashing) (requests : JsonRpcRequest → Prop) : Prop :=
  ∀ r r', requests r → requests r' → hashing.requestHash r = hashing.requestHash r' →
    r.method = r'.method ∧ r.params = r'.params

/-! ## One lane, one upstream identity -/

section Lane

variable {c c' : ToolsCall} {server server' : RegisteredServer} {request request' : JsonRpcRequest}
  {db : Credentials β} {endpoint : TokenEndpoint} {now : Int}

theorem found_mem (h : d.upstreamRequest c = .ok (server, request)) : server ∈ d.servers := by
  simp only [Deployment.upstreamRequest, bind_ok, orRefuse_ok, pure_ok] at h
  obtain ⟨params, -, name, -, ⟨server₂, tool⟩, htool, heq⟩ := h
  cases heq
  obtain ⟨_, _, _, _, _, hfind, _⟩ := findServerForTool_eq.mp htool
  exact List.mem_of_find?_eq_some hfind

theorem callerScope_global (h : server.cacheScope = .global) (c : ToolsCall) :
    callerScope server c = none := by
  unfold callerScope
  rw [h]

theorem namesLabel_of_global (h : server.cacheScope = .global) (c : ToolsCall) :
    NamesLabel server c := by
  intro hperCaller
  rw [h] at hperCaller
  cases hperCaller

/-- Callers of one lane are the same caller, as far as the resolver and the headers can tell. -/
theorem same_upstream (hserver : server ∈ d.servers)
    (hlane : callerKeyParts (callerScope server c) = callerKeyParts (callerScope server c'))
    (hlabel : NamesLabel server c) (hlabel' : NamesLabel server c') (hrows : NoLeftover db server) :
    resolve d.crypto endpoint db server c.caller now =
        resolve d.crypto endpoint db server c'.caller now ∧
      d.customHeaders server c = d.customHeaders server c' := by
  have hscope := d.scopes server hserver
  cases hglobal : server.cacheScope with
  | global =>
    rw [hglobal] at hscope
    refine ⟨?_, ?_⟩
    · cases howner : server.credentialOwner with
      | adminShared =>
        refine resolve_congr _ _ _ ?_
        rw [locatorFor_adminShared howner, locatorFor_adminShared howner]
      | perUser =>
        -- the server is anonymous, so a caller without a row goes without a credential
        rw [howner] at hscope
        have hshape := anonymous_of_global hscope.symm
        have hnone : ∀ caller : ResolverCaller,
            resolve d.crypto endpoint db server caller now = (.ok none, none) := by
          intro caller
          refine resolve_of_fetchRow_none _ _ _ ?_ hshape
          rw [locatorFor_perUser howner]
          exact fetchRow_perUser_none (hrows hglobal howner)
        rw [hnone, hnone]
    · unfold Deployment.customHeaders
      rw [resolvedHeaders_of_global hscope.symm, resolvedHeaders_of_global hscope.symm]
  | perCaller =>
    -- the lane has the user, and the label as long as it is not empty
    simp only [callerScope, hglobal, callerKeyParts, Prod.mk.injEq] at hlane
    have huser : c.userId = c'.userId := simple_injective hlane.1
    refine ⟨resolve_congr _ _ _ ?_, ?_⟩
    · cases howner : server.credentialOwner with
      | adminShared => rw [locatorFor_adminShared howner, locatorFor_adminShared howner]
      | perUser =>
        have hsame := labelPart_inj (hlabel hglobal howner) (hlabel' hglobal howner) hlane.2
        rw [locatorFor_perUser howner, locatorFor_perUser howner]
        exact congrArg₂ (CredLocator.perUser server.id) huser hsame
    · unfold Deployment.customHeaders
      rw [huser]

/-- The overrides that name one label for one server. -/
def overriding (serverId : Uuid) (label : String) : Json :=
  .obj [(String.ofList (hyphenated serverId), .str label)]

theorem accountLabelForServer_overriding (serverId : Uuid) (label : String) :
    accountLabelForServer (overriding serverId label) serverId = some label := by
  simp [accountLabelForServer, overriding, Json.get, Json.asStr]

/-- A server in one lane is treated alike by all callers exactly when no user has a row there. -/
theorem isolated_send_iff {g : Proxy d} (hfound : d.upstreamRequest c = .ok (server, request)) :
    Isolated g (.send c endpoint now) ↔ NoLeftover g.db server := by
  constructor
  · intro h hglobal howner r hr hid
    -- one caller has the row, and another has none
    obtain ⟨stranger, hstranger⟩ :=
      Infinite.exists_notMem_finset (g.db.users.map (·.userId)).toFinset
    have hnot : ∀ k ∈ g.db.users, k.userId ≠ stranger := by
      rintro k hk rfl
      exact hstranger (List.mem_toFinset.mpr (List.mem_map_of_mem hk))
    have hscope := d.scopes server (found_mem hfound)
    rw [hglobal, howner] at hscope
    have hnone : resolve d.crypto endpoint g.db server ⟨stranger, .null⟩ now = (.ok none, none) := by
      refine resolve_of_fetchRow_none _ _ _ ?_ (anonymous_of_global hscope.symm)
      rw [locatorFor_perUser howner]
      exact fetchRow_stranger hnot
    have hsome : (resolve d.crypto endpoint g.db server
        ⟨r.userId, overriding server.id r.accountLabel⟩ now).1 ≠ .ok none := by
      refine resolve_ne_none _ _ _ ?_
      rw [locatorFor_perUser howner, accountLabelForServer_overriding, ← hid]
      exact fetchRow_named hr
    have hsame := h server request hfound hglobal
    apply hsome
    calc (resolve d.crypto endpoint g.db server
            ⟨r.userId, overriding server.id r.accountLabel⟩ now).1
        = (resolve d.crypto endpoint g.db server c.caller now).1 :=
          congrArg Prod.fst (hsame ⟨r.userId, overriding server.id r.accountLabel, c.request⟩).1
      _ = (resolve d.crypto endpoint g.db server ⟨stranger, .null⟩ now).1 :=
          congrArg Prod.fst (hsame ⟨stranger, .null, c.request⟩).1.symm
      _ = .ok none := congrArg Prod.fst hnone
  · intro hrows server₂ request₂ hfound₂ hglobal c'
    cases hfound.symm.trans hfound₂
    have hlane : callerKeyParts (callerScope server c') = callerKeyParts (callerScope server c) := by
      rw [callerScope_global hglobal, callerScope_global hglobal]
    exact same_upstream (found_mem hfound) hlane (namesLabel_of_global hglobal c')
      (namesLabel_of_global hglobal c) hrows

end Lane

/-! ## What is in the cache -/

section Invariant

variable {requests : JsonRpcRequest → Prop} {g g' : Proxy d} {a : Action}

/-- A request that was sent when the condition held. -/
structure Proper (requests : JsonRpcRequest → Prop) (x : Exchange d) : Prop where
  label : NamesLabel x.server x.call
  rows : NoLeftover x.db x.server
  request : requests x.request

/-- Every entry is the answer to a proper request, under its key. -/
structure Sourced (requests : JsonRpcRequest → Prop) (g : Proxy d) : Prop where
  cache : ∀ {k e}, g.cache k = some e → ∃ x, (x, e.value) ∈ g.answered ∧ k = x.key d
  inFlight : ∀ x ∈ g.inFlight, Proper requests x
  answered : ∀ p ∈ g.answered, Proper requests p.1

theorem sourced_start (db : Credentials β) : Sourced requests (.start d db) :=
  ⟨nofun, fun _ h => absurd h List.not_mem_nil, fun _ h => absurd h List.not_mem_nil⟩

theorem scanAndDelete_eq_some {cache : ResponseCache} {head : List Char} {k : String}
    {e : Entry JsonRpcResponse} (h : cache.scanAndDelete head k = some e) : cache k = some e := by
  unfold ResponseCache.scanAndDelete at h
  split at h
  next => cases h
  next => exact h

theorem invalidateAfterChange_eq_some {cache : ResponseCache} {locator : CredLocator} {k : String}
    {e : Entry JsonRpcResponse} (h : cache.invalidateAfterChange locator k = some e) :
    cache k = some e := by
  cases locator with
  | perUser => exact scanAndDelete_eq_some h
  | adminShared => exact scanAndDelete_eq_some h

theorem changed_cache {locator : CredLocator} {change : Option (Credentials β)} {k : String}
    {e : Entry JsonRpcResponse} (h : (g.changed locator change).cache k = some e) :
    g.cache k = some e := by
  cases change with
  | none => exact h
  | some db => exact invalidateAfterChange_eq_some h

@[simp] theorem changed_inFlight (locator : CredLocator) (change : Option (Credentials β)) :
    (g.changed locator change).inFlight = g.inFlight := by
  cases change <;> rfl

@[simp] theorem changed_answered (locator : CredLocator) (change : Option (Credentials β)) :
    (g.changed locator change).answered = g.answered := by
  cases change <;> rfl

theorem mem_of_mem_rest {γ : Type} {x y : γ} {l r : List γ} (h : y ∈ l ++ r) :
    y ∈ l ++ x :: r := by
  rcases List.mem_append.mp h with hl | hr
  · exact List.mem_append_left _ hl
  · exact List.mem_append_right _ (List.mem_cons_of_mem x hr)

/-- The answer to a request in flight, which is kept or not. -/
theorem Sourced.arrived {x : Exchange d} {l r : List (Exchange d)} {response : JsonRpcResponse}
    {cache : ResponseCache} (h : Sourced requests g) (waiting : g.inFlight = l ++ x :: r)
    (hcache : ∀ {k e}, cache k = some e → g.cache k = some e ∨ k = x.key d ∧ e.value = response) :
    Sourced requests
      { g with inFlight := l ++ r, answered := (x, response) :: g.answered, cache } := by
  have hx : Proper requests x := h.inFlight x (waiting ▸ List.mem_append_cons_self)
  refine ⟨fun {k e} hk => ?_, fun y hy => ?_, fun p hp => ?_⟩
  · rcases hcache hk with hold | ⟨rfl, hvalue⟩
    · obtain ⟨y, hy, hkey⟩ := h.cache hold
      exact ⟨y, List.mem_cons_of_mem _ hy, hkey⟩
    · exact ⟨x, hvalue ▸ List.mem_cons_self, rfl⟩
  · exact h.inFlight y (waiting ▸ mem_of_mem_rest hy)
  · rcases List.mem_cons.mp hp with rfl | hp
    · exact hx
    · exact h.answered p hp

theorem Sourced.step (h : Sourced requests g) (hok : Routable g a) (hamong : Among d requests a)
    (hstep : Step g a g') : Sourced requests g' := by
  cases hstep with
  | unknown => exact h
  | hit => exact h
  | miss => exact ⟨h.cache, h.inFlight, h.answered⟩
  | refused =>
    refine ⟨fun hk => ?_, ?_, ?_⟩
    · simpa using h.cache (changed_cache hk)
    · simpa using h.inFlight
    · simpa using h.answered
  | send x waiting tables =>
    obtain ⟨hlabel, hrows⟩ := hok x.server x.request x.found
    have hx : Proper requests x := ⟨hlabel, tables ▸ hrows, hamong x.server x.request x.found⟩
    refine ⟨fun hk => ?_, ?_, ?_⟩
    · simpa using h.cache (changed_cache hk)
    · intro y hy
      rcases List.mem_cons.mp hy with rfl | hy
      · exact hx
      · exact h.inFlight y hy
    · simpa using h.answered
  | answer waiting => exact h.arrived waiting writeCache_eq_some
  | broken waiting => exact h.arrived waiting .inl
  | other kept =>
    refine ⟨fun {k e} hk => ?_, h.inFlight, h.answered⟩
    rcases kept k with hnone | hsame
    · cases hnone.symm.trans hk
    · exact h.cache (hsame.symm.trans hk)

/-- What is served from a sourced cache is isolated. -/
theorem Sourced.isolated (h : Sourced requests g) (hok : Routable g a) (hamong : Among d requests a)
    (hfree : CollisionFree d.hashing requests) : Isolated g a := by
  cases a with
  | checkCache c now =>
    intro server request response hfound hserved
    unfold Deployment.checkCache at hserved
    split at hserved
    next => cases hserved
    next =>
      obtain ⟨cached, hcached, rfl⟩ := Option.map_eq_some_iff.mp hserved
      obtain ⟨e, he, -, rfl⟩ := Store.get_eq_some.mp hcached
      obtain ⟨x, hx, hkey⟩ := h.cache he
      have hproper : Proper requests x := h.answered _ hx
      obtain ⟨hid, hlane, hhash⟩ := cacheKey_inj hkey
      -- the key is that of the exchange, so every segment of it agrees
      have hserver : server = x.server :=
        d.ids server (found_mem hfound) x.server (found_mem x.found) hid
      subst hserver
      obtain ⟨hmethod, hparams⟩ :=
        hfree x.request request hproper.request (hamong _ _ hfound) hhash.symm
      obtain ⟨hsame, hheaders⟩ := @same_upstream _ d c x.call x.server x.db x.endpoint x.now
        (found_mem x.found) hlane (hok _ _ hfound) hproper.label hproper.rows
      exact ⟨x, e.value, hx, rfl, rfl, hmethod, hparams, hsame ▸ x.resolved, hheaders⟩
  | send c endpoint now =>
    intro server request hfound
    exact (isolated_send_iff hfound).mpr (hok server request hfound).2 server request hfound
  | answer => trivial
  | other => trivial

end Invariant

/-! ## Main result -/

/--
Whatever credentials there are at the start: in a run in which no call goes to a server of users
that is one lane for all while users have credentials there, and no call names the empty label on
another server of users, every response from the cache is one that its caller could have received.
-/
theorem responses_isolated {requests : JsonRpcRequest → Prop}
    (hfree : CollisionFree d.hashing requests) (db : Credentials β) {as : List Action} {g : Proxy d}
    (hrun : Steps (fun g a g' => (Routable g a ∧ Among d requests a) ∧ Step g a g')
      (.start d db) as g) :
    Steps (fun g a g' => Isolated g a ∧ Step g a g') (.start d db) as g := by
  refine hrun.under (I := Sourced requests) ?_ (sourced_start db)
  rintro g a g' hg ⟨⟨hok, hamong⟩, hstep⟩
  exact ⟨hg.step hok hamong hstep, hg.isolated hok hamong hfree, hstep⟩

end System

/-! ## Two runs -/

def issuesServer : RegisteredServer := publicServer 7 "GitHub" "github" ["list_issues"]

theorem issuesServer_global : issuesServer.cacheScope = .global := rfl

/-- A deployment with one server, which is anonymous. -/
def deployment : Deployment String where
  servers := [issuesServer]
  ids := by
    intro a ha b hb _
    rw [List.mem_singleton.mp ha, List.mem_singleton.mp hb]
  scopes := by
    intro a ha
    rw [List.mem_singleton.mp ha]
    rfl
  email := fun userId => if userId = 1 then "one@example.com" else "two@example.com"
  cacheTtlSecs := 900
  crypto := ⟨.ok, .ok⟩
  hashing := ⟨fun _ => "\x7b\"name\":\"list_issues\"\x7d", fun _ => 0x86ac57ba45648e1b79503b4aff5719d5⟩

/-- A user calls the tool. -/
def listIssues (userId : Uuid) : ToolsCall where
  userId := userId
  mcpAccountOverrides := .obj []
  request := ⟨"2.0", some (.int 1), "tools/call", some (.obj [("name", .str "github__list_issues")])⟩

def issuesRequest : JsonRpcRequest :=
  ⟨"2.0", some (.int 1), "tools/call", some (.obj [("name", .str "list_issues")])⟩

def issuesResponse : JsonRpcResponse := ⟨"2.0", some (.int 1), some (.arr []), none⟩

/-- No token is refreshed. -/
def noEndpoint : TokenEndpoint := fun _ _ => .error (.transient "")

theorem upstreamRequest_listIssues (userId : Uuid) :
    deployment.upstreamRequest (listIssues userId) = .ok (issuesServer, issuesRequest) := by
  rfl

theorem issuesRequest_collisionFree : CollisionFree deployment.hashing (· = issuesRequest) := by
  rintro r r' rfl rfl -
  exact ⟨rfl, rfl⟩

/-- The call of the first user, with these tables. -/
def firstExchange (db : Credentials String) (auth : Option AuthInjection)
    (h : (resolve deployment.crypto noEndpoint db issuesServer (listIssues 1).caller 0).1 = .ok auth) :
    Exchange deployment :=
  ⟨⟨listIssues 1, issuesServer, issuesRequest⟩, db, noEndpoint, 0, auth,
    upstreamRequest_listIssues 1, h⟩

def firstCall : List Action :=
  [.checkCache (listIssues 1) 0, .send (listIssues 1) noEndpoint 0, .answer issuesResponse true 0]

section Runs

variable {db : Credentials String} {auth : Option AuthInjection}
  {h : (resolve deployment.crypto noEndpoint db issuesServer (listIssues 1).caller 0).1 = .ok auth}

/-- The first user has called the tool. -/
def answeredProxy (x : Exchange deployment) : Proxy deployment :=
  ⟨x.db, x.writeCache deployment .empty issuesResponse 0, [], [], [(x, issuesResponse)]⟩

theorem answeredProxy_cache (x : Exchange deployment) :
    (answeredProxy x).cache = x.writeCache deployment .empty issuesResponse 0 := rfl

theorem firstCall_run {C : Proxy deployment → Action → Prop}
    (hquiet : (resolve deployment.crypto noEndpoint db issuesServer (listIssues 1).caller 0).2 = none)
    (hcheck : C (.start deployment db) (.checkCache (listIssues 1) 0))
    (hsend : C ⟨db, .empty, [listIssues 1], [], []⟩ (.send (listIssues 1) noEndpoint 0))
    (hanswer : C ⟨db, .empty, [], [firstExchange db auth h], []⟩ (.answer issuesResponse true 0)) :
    Steps (fun g a g' => C g a ∧ Step g a g') (.start deployment db) firstCall
      (answeredProxy (firstExchange db auth h)) := by
  refine .cons ⟨hcheck, .miss (upstreamRequest_listIssues 1) rfl⟩ (.cons ⟨hsend, ?_⟩
    (.single ⟨hanswer, .answer (l := []) (r := []) rfl⟩))
  have hstep := Step.send (g := ⟨db, .empty, [listIssues 1], [], []⟩) (l := []) (r := [])
    (firstExchange db auth h) rfl rfl
  have hchange : (resolve deployment.crypto (firstExchange db auth h).endpoint db
      (firstExchange db auth h).server (firstExchange db auth h).call.caller
      (firstExchange db auth h).now).2 = none := hquiet
  rw [hchange] at hstep
  exact hstep

/-- A second user is served what the first user's call has returned. -/
theorem second_served :
    deployment.checkCache (answeredProxy (firstExchange db auth h)).cache issuesServer (listIssues 2)
      issuesRequest 1000 = some issuesResponse := by
  rw [answeredProxy_cache]
  exact checkCache_writeCache (x := (firstExchange db auth h).toTarget) (c := listIssues 2) rfl
    ((callerScope_global issuesServer_global _).trans (callerScope_global issuesServer_global _).symm)
    (show (1000 : Int) ≤ 0 + (900 : Nat) * 1000 by decide)

end Runs

theorem listIssues_found {userId : Uuid} {server : RegisteredServer} {request : JsonRpcRequest}
    (h : deployment.upstreamRequest (listIssues userId) = .ok (server, request)) :
    server = issuesServer ∧ request = issuesRequest := by
  rw [upstreamRequest_listIssues] at h
  cases h
  exact ⟨rfl, rfl⟩

theorem listIssues_among (userId : Uuid) (now : Int) :
    Among deployment (· = issuesRequest) (.checkCache (listIssues userId) now) :=
  fun _ _ hfound => (listIssues_found hfound).2

theorem listIssues_routable (g : Proxy deployment) (userId : Uuid) (now : Int) :
    Routable g (.checkCache (listIssues userId) now) := by
  intro server request hfound
  rw [(listIssues_found hfound).1]
  exact namesLabel_of_global issuesServer_global _

/-- Nobody has a credential, and the second user is served the response of the first. -/
theorem responses_isolated_public : ∃ g,
    Steps (fun g a g' => Isolated g a ∧ Step g a g') (.start deployment ⟨[], []⟩)
      (firstCall ++ [.checkCache (listIssues 2) 1000]) g ∧
    deployment.checkCache g.cache issuesServer (listIssues 2) issuesRequest 1000 =
      some issuesResponse := by
  have hsend : ∀ g : Proxy deployment, g.db = ⟨[], []⟩ →
      Routable g (.send (listIssues 1) noEndpoint 0) := by
    intro g hdb server request hfound
    rw [(listIssues_found hfound).1, hdb]
    exact ⟨namesLabel_of_global issuesServer_global _, fun _ _ _ hr => absurd hr List.not_mem_nil⟩
  have hrun := @firstCall_run ⟨[], []⟩ none rfl
    (fun g a => Routable g a ∧ Among deployment (· = issuesRequest) a) rfl
    ⟨listIssues_routable _ 1 0, listIssues_among 1 0⟩ ⟨hsend _ rfl, listIssues_among 1 0⟩
    ⟨trivial, trivial⟩
  have hhit := Step.hit (upstreamRequest_listIssues 2) (@second_served ⟨[], []⟩ none rfl)
  exact ⟨_, responses_isolated issuesRequest_collisionFree ⟨[], []⟩
    (hrun.snoc ⟨⟨listIssues_routable _ 2 1000, listIssues_among 2 1000⟩, hhit⟩), second_served⟩

/-- The first user's authorization came to its end after the server had become anonymous. -/
def leftover : Credentials String where
  users := [⟨7, 1, "work", true, ⟨.oauthAuthcode, "tok-1", none, some 3600⟩⟩]
  shared := []

def leftoverInjection : AuthInjection := ⟨"Authorization", "Bearer tok-1"⟩

theorem leftover_first :
    resolve deployment.crypto noEndpoint leftover issuesServer (listIssues 1).caller 0 =
      (.ok (some leftoverInjection), none) := rfl

theorem leftover_second :
    resolve deployment.crypto noEndpoint leftover issuesServer (listIssues 2).caller 0 =
      (.ok none, none) := rfl

/-- The second user, who has no account, is served what the first user's token has fetched. -/
theorem foreign_response_served : ∃ g,
    CollisionFree deployment.hashing (· = issuesRequest) ∧
    Steps (fun g a g' => Among deployment (· = issuesRequest) a ∧ Step g a g')
      (.start deployment leftover) firstCall g ∧
    Among deployment (· = issuesRequest) (.checkCache (listIssues 2) 1000) ∧
    Step g (.checkCache (listIssues 2) 1000) g ∧
    ¬ Isolated g (.checkCache (listIssues 2) 1000) := by
  have hauth := congrArg Prod.fst leftover_first
  have hrun := firstCall_run (C := fun _ a => Among deployment (· = issuesRequest) a) (h := hauth)
    (congrArg Prod.snd leftover_first) (listIssues_among 1 0) (listIssues_among 1 0) trivial
  refine ⟨_, issuesRequest_collisionFree, hrun, listIssues_among 2 1000,
    .hit (upstreamRequest_listIssues 2) second_served, ?_⟩
  intro hisolated
  obtain ⟨x, answer, hx, -, -, -, -, hresolve, -⟩ := hisolated issuesServer issuesRequest
    issuesResponse (upstreamRequest_listIssues 2) second_served
  -- the only answer so far is the one to the first user
  cases List.mem_singleton.mp hx
  have hnone : (resolve deployment.crypto noEndpoint leftover issuesServer (listIssues 2).caller 0).1
      = .ok (some leftoverInjection) := hresolve
  rw [leftover_second] at hnone
  cases hnone

end ThinkWatch.Mcp.Caching
