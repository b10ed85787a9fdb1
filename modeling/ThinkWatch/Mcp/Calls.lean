import ThinkWatch.Lib.Threads
import ThinkWatch.Mcp.CacheIsolation
import Mathlib.Logic.Function.Basic

/-!
# Calls side by side

`tools/call` requests of one process, statement by statement: the look-up in the response cache,
`resolve` with its mutex for each credential, its statements and its request to the token endpoint,
the answer from upstream and its write to the cache. A refresh that the provider rejects and an
account that is disconnected end a credential in the same way: the row is changed, then the cache is
wiped. The commands of the calls interleave. Failures of the database are left out.

The state counts the changes of each credential, and remembers which credential the cached answers
were fetched with. Nothing looks at these.
-/

namespace ThinkWatch.Mcp.Calls

open Lib Policy
open Caching (Deployment Target ToolsCall callerScope)

/-! ## One call -/

/--
What `refresh_locked` is called with: the row as it was before the wait for the mutex. `rotations`
counts how often the refresh token had been replaced then.
-/
structure Refresh (β : Type) where
  locator : CredLocator
  row : CredentialRow β
  cfg : OAuthClientCfg
  rotations : Nat

/-- A credential, and how many changes of it had been made. -/
structure Epoch where
  locator : CredLocator
  version : Nat
deriving DecidableEq, Repr

/-- Where a call stands, or the change of a credential from outside. -/
inductive Phase (β : Type) where
  | fetching (x : Target)
  | waiting (x : Target) (w : Refresh β)
  | holding (x : Target) (w : Refresh β)
  | asking (x : Target) (w : Refresh β) (refreshBytes : β) (refreshToken : String) (now : Int)
  | asked (x : Target) (w : Refresh β) (refreshBytes : β) (refreshToken : String) (now : Int)
  | storing (x : Target) (w : Refresh β) (refreshBytes : β) (new : TokenResponse) (now : Int)
  | deleting (x : Target) (w : Refresh β) (msg : String)
  | wiping (x : Target) (changed : Epoch) (result : Except ResolverError String)
  | revoked (changed : Epoch)
  | upstream (x : Target) (auth : Option AuthInjection) (used : Option Epoch)
  | refused (e : ResolverError)
  | ended

/-- The credential whose mutex is held. -/
def Phase.holds {β : Type} : Phase β → Option CredLocator
  | holding _ w | asking _ w .. | asked _ w .. | storing _ w .. | deleting _ w _ => some w.locator
  | wiping _ changed _ => some changed.locator
  | _ => none

/-! ## The process -/

variable {β : Type}

/--
The tables, the cache and the calls. `versions` counts the changes of a credential's row, `rotations`
those that replaced its refresh token, `settled` the last change after which the cache was wiped;
`replaced` has the refresh tokens that the provider has taken back for others, and `source` the
credential with which the answer under a key was fetched.
-/
structure Runtime (β : Type) where
  db : Credentials β
  cache : ResponseCache
  calls : Threads (Phase β)
  versions : CredLocator → Nat
  rotations : CredLocator → Nat
  settled : CredLocator → Nat
  replaced : CredLocator → List String
  source : String → Option Epoch

def Runtime.start (db : Credentials β) : Runtime β :=
  ⟨db, .empty, .none, fun _ => 0, fun _ => 0, fun _ => 0, fun _ => [], fun _ => none⟩

/-- The refresh token of a row, in the clear. -/
def refreshToken (crypto : Crypto β) (row : CredentialRow β) : Option String :=
  row.refreshTokenEncrypted.bind fun bytes => (crypto.decrypt bytes).toOption

/-- The refresh token that is stored for a credential. -/
def heldToken (crypto : Crypto β) (db : Credentials β) (locator : CredLocator) : Option String :=
  (db.fetchRow locator).bind (refreshToken crypto)

/-- What the resolver's answer leads to. -/
def sendWith (x : Target) (used : Epoch) : Except ResolverError String → Phase β
  | .ok token => .upstream x (some (buildInjection x.server token)) (some used)
  | .error e => .refused e

/-- What a re-read row leads to: its own token, or a refresh with the row as it was before. -/
def recheck (crypto : Crypto β) (db : Credentials β) (locator : CredLocator)
    (row : CredentialRow β) (cfg : OAuthClientCfg) (now : Int) :
    Except ResolverError (String ⊕ (β × String)) :=
  match db.fetchRow locator with
  | none => .error (.needsUserCredentials locator.serverId cfg.authorizationEndpoint locator.owner)
  | some current =>
    -- a row without an expiry counts as about to expire here, and as lasting in `resolve`
    if !nearExpiry current.expiresAt now true then
      (crypto.decryptToString current.accessTokenEncrypted).map .inl
    -- not the row that was read just now
    else (storedRefreshToken crypto locator row).map .inr

/-- What the endpoint's answer to `token` takes back: a token that it replaces by another. -/
def replace (token : String) (taken : List String) :
    Except OAuthRefreshFailure TokenResponse → List String
  | .ok ⟨_, some new, _⟩ => if new = token then taken else token :: taken.filter (· ≠ new)
  | _ => taken

namespace Runtime

def go (s : Runtime β) (i : Nat) (p : Phase β) : Runtime β := { s with calls := s.calls.set i p }

@[simp] theorem go_calls_self (s : Runtime β) (i : Nat) (p : Phase β) :
    (s.go i p).calls i = some p :=
  Threads.set_self s.calls i p

@[simp] theorem go_go (s : Runtime β) (i : Nat) (p q : Phase β) : (s.go i p).go i q = s.go i q := by
  unfold go
  simp only [Threads.set_set]

def epoch (s : Runtime β) (locator : CredLocator) : Epoch := ⟨locator, s.versions locator⟩

/-- `resolve` up to the mutex. -/
def fetched (d : Deployment β) (s : Runtime β) (x : Target) (now : Int) : Phase β :=
  match s.db.fetchRow (locatorFor x.server x.call.caller) with
  | none =>
    if x.server.authShape.needsCredential then
      .refused (.needsUserCredentials x.server.id none x.server.credentialOwner)
    else .upstream x none none
  | some row =>
    let locator := refreshLocator (locatorFor x.server x.call.caller) row
    let stored := sendWith x (s.epoch locator) (d.crypto.decryptToString row.accessTokenEncrypted)
    match row.credentialType with
    | .staticToken => stored
    | .oauthAuthcode =>
      if !nearExpiry row.expiresAt now false then stored
      else
        match x.server.oauthCfg with
        | none => .refused (.badTokenResponse
            "oauth_authcode credential exists but server has no oauth client config")
        | some cfg => .waiting x ⟨locator, row, cfg, s.rotations locator⟩

/-- The re-check under the mutex. -/
def rechecked (d : Deployment β) (s : Runtime β) (x : Target) (w : Refresh β) (now : Int) :
    Phase β :=
  match recheck d.crypto s.db w.locator w.row w.cfg now with
  | .error e => .refused e
  | .ok (.inl token) => sendWith x (s.epoch w.locator) (.ok token)
  | .ok (.inr (bytes, token)) => .asking x w bytes token now

/-- The row of a credential is changed. -/
def change (s : Runtime β) (db : Credentials β) (locator : CredLocator) : Runtime β :=
  { s with db, versions := Function.update s.versions locator (s.versions locator + 1) }

/-- The row of a credential is changed by a refresh. -/
def rotate (d : Deployment β) (s : Runtime β) (db : Credentials β) (locator : CredLocator) :
    Runtime β :=
  { s.change db locator with
    rotations :=
      if heldToken d.crypto db locator = heldToken d.crypto s.db locator then s.rotations
      else Function.update s.rotations locator (s.rotations locator + 1) }

@[simp] theorem change_versions_self (s : Runtime β) (db : Credentials β) (locator : CredLocator) :
    (s.change db locator).versions locator = s.versions locator + 1 :=
  Function.update_self ..

@[simp] theorem rotate_versions_self (d : Deployment β) (s : Runtime β) (db : Credentials β)
    (locator : CredLocator) :
    (s.rotate d db locator).versions locator = s.versions locator + 1 :=
  Function.update_self ..

/-- The token endpoint answers a refresh. -/
def take (s : Runtime β) (locator : CredLocator) (token : String)
    (answer : Except OAuthRefreshFailure TokenResponse) : Runtime β :=
  { s with replaced :=
      Function.update s.replaced locator (replace token (s.replaced locator) answer) }

/-- `invalidate_cache_after_change`. -/
def wipe (s : Runtime β) (changed : Epoch) : Runtime β :=
  { s with
    cache := s.cache.invalidateAfterChange changed.locator
    settled := Function.update s.settled changed.locator
      (max (s.settled changed.locator) changed.version) }

end Runtime

/-- What the token endpoint's answer leads to. -/
def answered (x : Target) (w : Refresh β) (bytes : β) (now : Int) :
    Except OAuthRefreshFailure TokenResponse → Phase β
  | .error (.transient msg) => .refused (.refreshFailed w.locator.serverId .transient msg)
  | .error (.permanent msg) => .deleting x w msg
  | .ok new => .storing x w bytes new now

/-- The answer to a call is kept, unless it is an error. -/
def Runtime.keep (d : Deployment β) (s : Runtime β) (x : Target) (used : Option Epoch)
    (response : JsonRpcResponse) (now : Int) : Runtime β :=
  { s with
    cache := x.writeCache d s.cache response now
    source := if x.keeps d response then Function.update s.source (x.key d) used else s.source }

inductive Action (β : Type) where
  | check (i : Nat) (c : ToolsCall) (now : Int)
  | fetch (i : Nat) (now : Int)
  | lock (i : Nat)
  | recheck (i : Nat) (now : Int)
  | ask (i : Nat)
  | answer (i : Nat) (answer : Except OAuthRefreshFailure TokenResponse)
  | store (i : Nat)
  | delete (i : Nat)
  | wipe (i : Nat)
  | reply (i : Nat) (response : JsonRpcResponse) (complete : Bool) (now : Int)
  /-- An owner or an administrator stores or deletes the row of a credential. -/
  | revoke (i : Nat) (locator : CredLocator) (db : Credentials β)
  /-- Entries expire. -/
  | evict

variable {d : Deployment β} {s s' : Runtime β}

inductive Step (d : Deployment β) : Runtime β → Action β → Runtime β → Prop where
  | unknown {s : Runtime β} {i : Nat} {c : ToolsCall} {now : Int} {e : JsonRpcError}
      (free : s.calls i = none) (refused : d.upstreamRequest c = .error e) :
      Step d s (.check i c now) (s.go i .ended)
  | hit {s : Runtime β} {i : Nat} {c : ToolsCall} {now : Int} {server : RegisteredServer}
      {request : JsonRpcRequest} {response : JsonRpcResponse} (free : s.calls i = none)
      (found : d.upstreamRequest c = .ok (server, request))
      (served : d.checkCache s.cache server c request now = some response) :
      Step d s (.check i c now) (s.go i .ended)
  | miss {s : Runtime β} {i : Nat} {c : ToolsCall} {now : Int} {server : RegisteredServer}
      {request : JsonRpcRequest} (free : s.calls i = none)
      (found : d.upstreamRequest c = .ok (server, request))
      (missed : d.checkCache s.cache server c request now = none) :
      Step d s (.check i c now) (s.go i (.fetching ⟨c, server, request⟩))
  | fetch {s : Runtime β} {i : Nat} {x : Target} {now : Int}
      (at_ : s.calls i = some (.fetching x)) :
      Step d s (.fetch i now) (s.go i (s.fetched d x now))
  | lock {s : Runtime β} {i : Nat} {x : Target} {w : Refresh β}
      (at_ : s.calls i = some (.waiting x w))
      (unlocked : ∀ j p, s.calls j = some p → p.holds ≠ some w.locator) :
      Step d s (.lock i) (s.go i (.holding x w))
  | recheck {s : Runtime β} {i : Nat} {x : Target} {w : Refresh β} {now : Int}
      (at_ : s.calls i = some (.holding x w)) :
      Step d s (.recheck i now) (s.go i (s.rechecked d x w now))
  | ask {s : Runtime β} {i : Nat} {x : Target} {w : Refresh β} {bytes : β} {token : String}
      {now : Int} (at_ : s.calls i = some (.asking x w bytes token now)) :
      Step d s (.ask i) (s.go i (.asked x w bytes token now))
  | answer {s : Runtime β} {i : Nat} {x : Target} {w : Refresh β} {bytes : β} {token : String}
      {now : Int} {answer : Except OAuthRefreshFailure TokenResponse}
      (at_ : s.calls i = some (.asked x w bytes token now)) :
      Step d s (.answer i answer)
        ((s.take w.locator token answer).go i (answered x w bytes now answer))
  | store {s : Runtime β} {i : Nat} {x : Target} {w : Refresh β} {bytes : β} {new : TokenResponse}
      {now : Int} {db : Credentials β} (at_ : s.calls i = some (.storing x w bytes new now))
      (ok : storeRefreshed d.crypto s.db w.locator bytes new now = .ok db) :
      Step d s (.store i)
        ((s.rotate d db w.locator).go i
          (.wiping x ((s.rotate d db w.locator).epoch w.locator) (.ok new.accessToken)))
  | storeRefused {s : Runtime β} {i : Nat} {x : Target} {w : Refresh β} {bytes : β}
      {new : TokenResponse} {now : Int} {e : ResolverError}
      (at_ : s.calls i = some (.storing x w bytes new now))
      (error : storeRefreshed d.crypto s.db w.locator bytes new now = .error e) :
      Step d s (.store i) (s.go i (.refused e))
  | delete {s : Runtime β} {i : Nat} {x : Target} {w : Refresh β} {msg : String}
      {db : Credentials β} (at_ : s.calls i = some (.deleting x w msg))
      (ok : s.db.deleteRow w.locator = .ok db) :
      Step d s (.delete i)
        ((s.change db w.locator).go i (.wiping x ((s.change db w.locator).epoch w.locator)
          (.error (.refreshFailed w.locator.serverId .permanent msg))))
  | deleteRefused {s : Runtime β} {i : Nat} {x : Target} {w : Refresh β} {msg : String}
      {e : ResolverError} (at_ : s.calls i = some (.deleting x w msg))
      (error : s.db.deleteRow w.locator = .error e) :
      Step d s (.delete i) (s.go i (.refused e))
  | wipe {s : Runtime β} {i : Nat} {x : Target} {changed : Epoch}
      {result : Except ResolverError String} (at_ : s.calls i = some (.wiping x changed result)) :
      Step d s (.wipe i) ((s.wipe changed).go i (sendWith x changed result))
  | reply {s : Runtime β} {i : Nat} {x : Target} {auth : Option AuthInjection}
      {used : Option Epoch} {response : JsonRpcResponse} {now : Int}
      (at_ : s.calls i = some (.upstream x auth used)) :
      Step d s (.reply i response true now)
        ((s.keep d x used response now).go i .ended)
  | broken {s : Runtime β} {i : Nat} {x : Target} {auth : Option AuthInjection}
      {used : Option Epoch} {response : JsonRpcResponse} {now : Int}
      (at_ : s.calls i = some (.upstream x auth used)) :
      Step d s (.reply i response false now) (s.go i .ended)
  | revoke {s : Runtime β} {i : Nat} {locator : CredLocator} {db : Credentials β}
      (free : s.calls i = none) :
      Step d s (.revoke i locator db)
        ((s.change db locator).go i (.revoked ((s.change db locator).epoch locator)))
  | wipeRevoked {s : Runtime β} {i : Nat} {changed : Epoch}
      (at_ : s.calls i = some (.revoked changed)) :
      Step d s (.wipe i) ((s.wipe changed).go i .ended)
  | evict {s : Runtime β} {cache : ResponseCache}
      (kept : ∀ k, cache k = none ∨ cache k = s.cache k) : Step d s .evict { s with cache }

/-! ## One call alone -/

/-- Without another call in between, `refresh_locked` is the re-check, the endpoint and the write. -/
theorem refreshLocked_eq (crypto : Crypto β) (endpoint : TokenEndpoint) (db : Credentials β)
    (locator : CredLocator) (row : CredentialRow β) (cfg : OAuthClientCfg) (now : Int) :
    refreshLocked crypto endpoint db locator row cfg now =
      match recheck crypto db locator row cfg now with
      | .error e => (.error e, none)
      | .ok (.inl token) => (.ok token, none)
      | .ok (.inr (bytes, token)) =>
        match endpoint cfg token with
        | .error (.transient msg) => (.error (.refreshFailed locator.serverId .transient msg), none)
        | .error (.permanent msg) =>
          match db.deleteRow locator with
          | .error e => (.error e, none)
          | .ok db' => (.error (.refreshFailed locator.serverId .permanent msg), some db')
        | .ok new =>
          match storeRefreshed crypto db locator bytes new now with
          | .error e => (.error e, none)
          | .ok db' => (.ok new.accessToken, some db') := by
  unfold refreshLocked recheck
  cases db.fetchRow locator with
  | none => rfl
  | some current =>
    simp only
    split
    next =>
      cases crypto.decryptToString current.accessTokenEncrypted with
      | error e => rfl
      | ok token => rfl
    next =>
      cases storedRefreshToken crypto locator row with
      | error e => rfl
      | ok r => rfl

/-! ## A refresh -/

def githubClient : OAuthClientCfg :=
  ⟨"https://github.com/login/oauth/access_token", none, "thinkwatch", none, []⟩

/-- A server to which every user connects accounts of their own. -/
def githubServer : RegisteredServer :=
  { Caching.issuesServer with
    oauthCfg := some githubClient
    authShape := .oauth
    cacheScope := .perCaller }

def github : Deployment String where
  servers := [githubServer]
  ids := by
    intro a ha b hb _
    rw [List.mem_singleton.mp ha, List.mem_singleton.mp hb]
  scopes := by
    intro a ha
    rw [List.mem_singleton.mp ha]
    rfl
  email := Caching.deployment.email
  cacheTtlSecs := 900
  crypto := Caching.deployment.crypto
  hashing := Caching.deployment.hashing

/-- User 1 has connected an account, whose token expires at 1000. -/
def connected : Credentials String where
  users := [⟨7, 1, "work", true, ⟨.oauthAuthcode, "tok-1", some "ref-1", some 1000⟩⟩]
  shared := []

def listIssues : ToolsCall := Caching.listIssues 1

def githubTarget : Target := ⟨listIssues, githubServer, Caching.issuesRequest⟩

theorem upstreamRequest_github :
    github.upstreamRequest listIssues = .ok (githubServer, Caching.issuesRequest) := rfl

def account : CredLocator := .perUser 7 1 (some "work")

/-- The header that the account's token goes upstream in. -/
def injection : AuthInjection := buildInjection githubServer "tok-1"

/-- The token is not about to expire. -/
theorem fetched_connected {s : Runtime String} (h : s.db = connected) :
    s.fetched github githubTarget 0 =
      .upstream githubTarget (some injection) (some ⟨account, s.versions account⟩) := by
  unfold Runtime.fetched
  rw [h]
  rfl

/-- The row as it was read. -/
def connectedRow : CredentialRow String :=
  ⟨⟨.oauthAuthcode, "tok-1", some "ref-1", some 1000⟩, some "work"⟩

def refresh : Refresh String := ⟨account, connectedRow, githubClient, 0⟩

theorem fetched_expiring {s : Runtime String} (h : s.db = connected)
    (hrotations : s.rotations account = 0) :
    s.fetched github githubTarget 950 = .waiting githubTarget refresh := by
  unfold Runtime.fetched refresh
  rw [h, ← hrotations]
  rfl

theorem rechecked_expiring {s : Runtime String} (h : s.db = connected) :
    s.rechecked github githubTarget refresh 950 =
      .asking githubTarget refresh "ref-1" "ref-1" 950 := by
  unfold Runtime.rechecked
  rw [h]
  rfl

/-- The steps of a call that finds the token about to expire. -/
def refreshing (i : Nat) (new : TokenResponse) : List (Action String) :=
  [.fetch i 950, .lock i, .recheck i 950, .ask i, .answer i (.ok new), .store i, .wipe i]

/-- The refresh of call `i`, in runs whose steps meet `C`. -/
theorem refreshing_run {C : Runtime String → Action String → Prop} {s : Runtime String} {i : Nat}
    {new : TokenResponse} {db : Credentials String} (hdb : s.db = connected)
    (hrotations : s.rotations account = 0)
    (hunlocked : ∀ j p, j ≠ i → s.calls j = some p → p.holds ≠ some account)
    (hstored : storeRefreshed github.crypto connected account "ref-1" new 950 = .ok db)
    (hC : ∀ u, ∀ a ∈ refreshing i new, (∀ now, a = .recheck i now →
      u.calls i = some (.holding githubTarget refresh) ∧ u.rotations account = 0) → C u a) :
    ∃ t, Steps (fun s a s' => C s a ∧ Step github s a s') (s.go i (.fetching githubTarget))
        (refreshing i new) t ∧
      (∀ j, j ≠ i → t.calls j = s.calls j) ∧ (∀ p, t.calls i = some p → p.holds = none) ∧
      t.settled account = max (s.settled account) (s.versions account + 1) ∧ t.db = db ∧
      t.replaced account = replace "ref-1" (s.replaced account) (.ok new) := by
  have hfetch : Step github (s.go i (.fetching githubTarget)) (.fetch i 950) _ :=
    .fetch (s.go_calls_self i _)
  rw [@fetched_expiring (s.go i (.fetching githubTarget)) hdb hrotations, Runtime.go_go] at hfetch
  have hlock : Step github (s.go i (.waiting githubTarget refresh)) (.lock i)
      ((s.go i (.waiting githubTarget refresh)).go i (.holding githubTarget refresh)) := by
    refine .lock (s.go_calls_self i _) fun j p hj => ?_
    rcases Threads.set_eq_some hj with ⟨-, rfl⟩ | ⟨hji, hj⟩
    · exact nofun
    · exact hunlocked j p hji hj
  rw [Runtime.go_go] at hlock
  have hrecheck : Step github (s.go i (.holding githubTarget refresh)) (.recheck i 950) _ :=
    .recheck (s.go_calls_self i _)
  rw [@rechecked_expiring (s.go i (.holding githubTarget refresh)) hdb, Runtime.go_go] at hrecheck
  have hask : Step github (s.go i (.asking githubTarget refresh "ref-1" "ref-1" 950)) (.ask i) _ :=
    .ask (s.go_calls_self i _)
  rw [Runtime.go_go] at hask
  have hanswer : Step github (s.go i (.asked githubTarget refresh "ref-1" "ref-1" 950))
      (.answer i (.ok new)) (((s.take account "ref-1" (.ok new)).go i
        (.asked githubTarget refresh "ref-1" "ref-1" 950)).go i
          (.storing githubTarget refresh "ref-1" new 950)) :=
    .answer (s.go_calls_self i _)
  rw [Runtime.go_go] at hanswer
  have hreplaced : (s.take account "ref-1" (.ok new)).replaced account =
      replace "ref-1" (s.replaced account) (.ok new) :=
    Function.update_self account _ s.replaced
  generalize hu : s.take account "ref-1" (.ok new) = u at hanswer hreplaced
  obtain ⟨hdb', hcalls, hversions, hsettled⟩ : u.db = connected ∧ u.calls = s.calls ∧
      u.versions = s.versions ∧ u.settled = s.settled := by
    subst hu
    exact ⟨hdb, rfl, rfl, rfl⟩
  have hstore : Step github (u.go i (.storing githubTarget refresh "ref-1" new 950)) (.store i)
      (((u.rotate github db account).go i (.storing githubTarget refresh "ref-1" new 950)).go i
        (.wiping githubTarget ((u.rotate github db account).epoch account)
          (.ok new.accessToken))) := by
    refine .store (u.go_calls_self i _) ?_
    show storeRefreshed github.crypto u.db account "ref-1" new 950 = _
    rw [hdb']
    exact hstored
  rw [Runtime.go_go] at hstore
  have hdb'' : (u.rotate github db account).db = db := rfl
  have hreplaced' : (u.rotate github db account).replaced = u.replaced := rfl
  generalize hv : u.rotate github db account = v at hstore hdb'' hreplaced'
  refine ⟨_, .cons ⟨hC _ _ (by simp [refreshing]) nofun, hfetch⟩ (.cons
    ⟨hC _ _ (by simp [refreshing]) nofun, hlock⟩ (.cons
    ⟨hC _ _ (by simp [refreshing]) fun _ _ => ⟨s.go_calls_self i _, hrotations⟩, hrecheck⟩ (.cons
    ⟨hC _ _ (by simp [refreshing]) nofun, hask⟩ (.cons
    ⟨hC _ _ (by simp [refreshing]) nofun, hanswer⟩ (.cons
    ⟨hC _ _ (by simp [refreshing]) nofun, hstore⟩ (.single
    ⟨hC _ _ (by simp [refreshing]) nofun, .wipe (v.go_calls_self i _)⟩)))))), ?_, ?_, ?_, hdb'', ?_⟩
  · intro j hji
    refine (Threads.set_ne _ hji _).trans ((Threads.set_ne _ hji _).trans ?_)
    rw [← hcalls, ← hv]
    rfl
  · intro p hp
    obtain rfl := Option.some.inj ((Threads.set_self _ i _).symm.trans hp)
    rfl
  · show Function.update v.settled account (max (v.settled account) (v.versions account)) account = _
    rw [Function.update_self, ← hsettled, ← hversions, ← hv, Runtime.rotate_versions_self]
    rfl
  · rw [← hreplaced, ← hreplaced']
    rfl

end ThinkWatch.Mcp.Calls
