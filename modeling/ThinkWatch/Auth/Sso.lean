import ThinkWatch.Lib.Run
import ThinkWatch.Lib.Threads
import ThinkWatch.Lib.Ticket
import ThinkWatch.Validation

/-!
# Single sign-on

`sso_authorize` and `sso_callback` of `crates/server/src/handlers/sso.rs`, and the test login of the
settings wizard, which stores its session under the same keys. Requests of any browsers interleave;
every Redis command and every query is a step of its own. The hashes, the identity provider's
answers and the random tokens are inputs. `tamper` is a write to Redis by someone else, who gives a
session any time to live, or takes it out.
-/

namespace ThinkWatch.Auth.Sso

open Lib

/-! ## The session of an authorization -/

inductive SessionMode where
  | live
  | test
deriving DecidableEq, Repr

structure TestConfigSnapshot where
  issuerUrl : String
  clientId : String
  clientSecretEncrypted : String
  redirectUrl : String
  emailClaim : String
  nameClaim : String
deriving DecidableEq, Repr

structure OidcSessionData where
  nonce : String
  binding : String
  browserBinding : Option String
  mode : SessionMode
  testSnapshot : Option TestConfigSnapshot
deriving DecidableEq, Repr

structure OidcUserInfo where
  subject : String
  email : Option String
  name : Option String
  issuer : String
deriving DecidableEq, Repr

/-- SHA-256, HMAC-SHA256 under the encryption key, both in hex, and `Uuid::new_v5`. -/
structure Hashes where
  sha256 : String → String
  hmac : String → String
  uuidV5 : String → String

def Hashes.stateNonceBinding (h : Hashes) (state nonce : String) : String :=
  h.hmac (state ++ ":" ++ nonce)

def oidcStateKey (state : String) : String := "oidc:state:" ++ state

def oidcStateTtlSecs : Int := 600

/-- The cookie of a live login is that of the browser that began it. -/
def Hashes.checkBrowser (h : Hashes) (session : OidcSessionData) (cookie : Option String) :
    Except AppError Unit := do
  let expected ← orRefuse session.browserBinding (AppError.badRequest
    "SSO session missing browser binding — start a fresh login")
  let token ← orRefuse cookie (AppError.badRequest "SSO browser binding cookie missing")
  refuseIf (h.sha256 token ≠ expected) (AppError.badRequest
    "SSO browser binding mismatch — start a fresh login")

/-- What `sso_callback` checks once it has taken the session out. -/
def Hashes.checkCallback (h : Hashes) (state : String) (session : OidcSessionData)
    (cookie : Option String) : Except AppError Unit := do
  (if session.mode = .live then h.checkBrowser session cookie else .ok ())
  refuseIf (h.stateNonceBinding state session.nonce ≠ session.binding)
    (AppError.badRequest "SSO session binding failed; please retry")

/-! ## The user -/

structure User where
  id : Uuid
  email : String
  displayName : String
  oidc : Option (String × String)
  isActive : Bool
  deletedAt : Option Int
deriving DecidableEq, Repr

def findByOidcIdentity (users : List User) (subject issuer : String) : Option User :=
  users.find? fun u => u.oidc = some (subject, issuer)

/-- The row, or the unique violation of `email`, of its lower case or of the identity. -/
def insertOidcUser (users : List User) (id : Uuid) (email displayName subject issuer : String) :
    Except AppError User := do
  refuseIf (users.any fun u => u.id = id || u.email.toList.map Char.toLower =
      email.toList.map Char.toLower || u.oidc = some (subject, issuer))
    (AppError.conflict "Resource already exists")
  return ⟨id, email, displayName, some (subject, issuer), true, none⟩

/-- The address of a new account. -/
def Hashes.emailFor (h : Hashes) (info : OidcUserInfo) : Except AppError String :=
  match info.email with
  | some raw =>
    match validateEmail (normalizeEmail raw) with
    | .ok _ => .ok (normalizeEmail raw)
    -- it is not replaced by the address below: the account is refused
    | .error _ =>
      .error (.badRequest "Identity provider returned an invalid email address")
  | none => .ok ("sso-" ++ h.uuidV5 (info.issuer ++ "|" ++ info.subject) ++ "@oidc.invalid")

def displayNameFor (info : OidcUserInfo) (email : String) : String :=
  (info.name.or info.email).getD email

/-! ## The machine -/

/-- A browser, which sends the cookie it has, or anything else, which sends what it likes. -/
inductive Origin where
  | browser (b : Nat)
  | other
deriving DecidableEq, Repr

/-- A callback that has passed its checks. -/
structure Login where
  state : String
  nonce : String
  cookie : String
  origin : Origin
  takenAt : Int
deriving DecidableEq, Repr

/-- How far a request has got. -/
inductive Request where
  | authorizing (b : Nat) (token : String)
  | exchanging (l : Login)
  | looking (l : Login) (info : OidcUserInfo)
  | provisioning (l : Login) (info : OidcUserInfo)
  | assigning (l : Login) (info : OidcUserInfo) (u : User)
  | signingIn (l : Login) (info : OidcUserInfo) (u : User)
  | answered (answer : Except AppError Unit)

/-- An authorization that was begun; a live one for a browser, which is given a token. -/
structure Begun where
  state : String
  nonce : String
  mode : SessionMode
  snapshot : Option TestConfigSnapshot
  browser : Option (Nat × String)
  time : Int
deriving DecidableEq, Repr

/-- The session that `store_oidc_session_with_snapshot` writes. -/
def Hashes.sessionOf (h : Hashes) (a : Begun) : OidcSessionData where
  nonce := a.nonce
  binding := h.stateNonceBinding a.state a.nonce
  browserBinding := a.browser.map fun given => h.sha256 given.2
  mode := a.mode
  testSnapshot := a.snapshot

/-- A session that was given. -/
structure Issued where
  login : Login
  info : OidcUserInfo
  user : User
deriving DecidableEq, Repr

/--
`begun` and `issued` record the authorizations and the sessions, `taken` the keys that were taken
out of Redis, `exchanged` the states and nonces a code was exchanged with, `macs` the bindings that
were made.
-/
structure State where
  clock : Int
  redis : Store String OidcSessionData
  jar : Nat → Option String
  users : List User
  requests : Threads Request
  begun : List Begun
  taken : List String
  exchanged : List (String × String)
  issued : List Issued
  macs : List String

inductive Action where
  | tick (t : Int)
  | authorize (i b : Nat) (state nonce token : String) (stored : Bool)
  | respond (i : Nat)
  | testLogin (state nonce : String) (snapshot : TestConfigSnapshot)
  | callback (i : Nat) (origin : Origin) (cookie : Option String) (state : String)
  | exchange (i : Nat) (answer : Option OidcUserInfo)
  | look (i : Nat)
  | provision (i : Nat) (id : Uuid)
  | assign (i : Nat)
  | signIn (i : Nat)
  | fail (i : Nat) (e : AppError)
  | others (users : List User)
  | tamper (key : String) (entry : Option (Entry OidcSessionData))

namespace State

def start (clock : Int) (users : List User) : State :=
  ⟨clock, .empty, fun _ => none, users, .none, [], [], [], [], []⟩

/-- The tokens of browsers. -/
def tokens (s : State) : List String := s.begun.filterMap fun a => a.browser.map Prod.snd

/-- Random tokens are new, and have no colon. -/
def Fresh (s : State) (a : Begun) : Prop :=
  a.state ∉ s.begun.map Begun.state ∧ (∀ token ∈ a.browser.map Prod.snd, token ∉ s.tokens) ∧
    ':' ∉ a.state.toList ∧ ':' ∉ a.nonce.toList

instance (s : State) (a : Begun) : Decidable (s.Fresh a) := inferInstanceAs (Decidable (_ ∧ _))

/-- `SET` of a new session. -/
def store (h : Hashes) (s : State) (a : Begun) : State :=
  { s with
    redis := s.redis.setEx s.clock (oidcStateKey a.state) (h.sessionOf a) (oidcStateTtlSecs * 1000)
    begun := a :: s.begun
    macs := h.stateNonceBinding a.state a.nonce :: s.macs }

def answer (s : State) (i : Nat) (r : Except AppError Unit) : State :=
  { s with requests := s.requests.set i (.answered r) }

/-- A session that is taken out. -/
def takeOut (s : State) (key : String) : State :=
  { s with redis := s.redis.del key, taken := key :: s.taken }

/-- A callback that has passed its checks; a test login ends with the exchange of its code. -/
def accept (s : State) (i : Nat) (origin : Origin) (cookie : Option String) (state : String)
    (session : OidcSessionData) : State :=
  let s' := { s with exchanged := (state, session.nonce) :: s.exchanged }
  match session.mode with
  | .live =>
    let l := ⟨state, session.nonce, cookie.getD "", origin, s.clock⟩
    { s' with requests := s.requests.set i (.exchanging l) }
  | .test =>
    match session.testSnapshot with
    | none => s'.answer i (.error (.badRequest "Test session is missing config snapshot"))
    | some _ => s'.answer i (.ok ())

/-- `GETDEL` and the checks. -/
def callback (h : Hashes) (s : State) (i : Nat) (origin : Origin) (cookie : Option String)
    (state : String) : State :=
  match s.redis.get s.clock (oidcStateKey state) with
  | none =>
    ({ s with redis := s.redis.del (oidcStateKey state) }).answer i
      (.error (.badRequest "Invalid or expired SSO state"))
  | some session =>
    match h.checkCallback state session cookie with
    | .error e => (s.takeOut (oidcStateKey state)).answer i (.error e)
    | .ok _ => (s.takeOut (oidcStateKey state)).accept i origin cookie state session

/-- What a request does next, once it has its answer from outside. -/
def step (h : Hashes) (s : State) : Action → Option State
  | .tick t => if s.clock ≤ t then some { s with clock := t } else none
  | .authorize i b state nonce token stored =>
    match s.requests i with
    | none =>
      let a := ⟨state, nonce, .live, none, some (b, token), s.clock⟩
      if s.Fresh a then
        if stored then
          some { s.store h a with requests := s.requests.set i (.authorizing b token) }
        -- the answer to the write was lost
        else some ((s.store h a).answer i (.error (.internal "Redis error")))
      else none
    | some _ => none
  | .respond i =>
    match s.requests i with
    | some (.authorizing b token) =>
      some (({ s with jar := fun b' => if b' = b then some token else s.jar b' }).answer i (.ok ()))
    | _ => none
  | .testLogin state nonce snapshot =>
    let a := ⟨state, nonce, .test, some snapshot, none, s.clock⟩
    if s.Fresh a then some (s.store h a) else none
  | .callback i origin cookie state =>
    match s.requests i with
    | none =>
      match origin with
      | .browser b =>
        if cookie = none ∨ cookie = s.jar b then some (s.callback h i origin cookie state) else none
      | .other => some (s.callback h i origin cookie state)
    | some _ => none
  | .exchange i answer =>
    match s.requests i with
    | some (.exchanging l) =>
      match answer with
      | some info => some { s with requests := s.requests.set i (.looking l info) }
      | none => some (s.answer i (.error (.badRequest "SSO authentication failed")))
    | _ => none
  | .look i =>
    match s.requests i with
    | some (.looking l info) =>
      match findByOidcIdentity s.users info.subject info.issuer with
      | some u =>
        if u.deletedAt.isSome then
          some (s.answer i (.error (.forbidden "Account has been deleted")))
        else some { s with requests := s.requests.set i (.signingIn l info u) }
      | none => some { s with requests := s.requests.set i (.provisioning l info) }
    | _ => none
  | .provision i id =>
    match s.requests i with
    | some (.provisioning l info) =>
      match (do
        let email ← h.emailFor info
        insertOidcUser s.users id email (displayNameFor info email) info.subject info.issuer) with
      | .error e => some (s.answer i (.error e))
      | .ok u =>
        some { s with
          users := u :: s.users
          requests := s.requests.set i (.assigning l info u) }
    | _ => none
  | .assign i =>
    match s.requests i with
    | some (.assigning l info u) =>
      some { s with requests := s.requests.set i (.signingIn l info u) }
    | _ => none
  | .signIn i =>
    match s.requests i with
    | some (.signingIn l info u) =>
      if u.isActive then
        some (({ s with issued := ⟨l, info, u⟩ :: s.issued }).answer i (.ok ()))
      else some (s.answer i (.error (.forbidden "Account is deactivated")))
    | _ => none
  -- a query or a command of the request does not answer
  | .fail i e =>
    match s.requests i with
    | some (.answered _) | none => none
    | some _ => some (s.answer i (.error e))
  | .others users => some { s with users := users }
  | .tamper key entry => some { s with redis := s.redis.put key entry }

end State

end ThinkWatch.Auth.Sso
