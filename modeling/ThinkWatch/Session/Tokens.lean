import ThinkWatch.Config.Settings
import ThinkWatch.Lib.Expiring

/-!
# Tokens, epochs and blacklists

What a session rests on: the JWTs of `crates/auth/src/jwt.rs`, the `pw_epoch` key of
`services/session_service.rs`, the refresh blacklist of `services/refresh_blacklist.rs`, and the
`users` row that `require_auth` and `refresh` look at.

A token stands for its claims: signing is deterministic, and a client cannot make a token that was
not issued. The crate that decodes tokens is outside the repository; what is used of it is its
documented check of `exp` with a leeway (`JwtManager.decode_iff`). Times are milliseconds, claims
and epochs whole seconds.
-/

namespace ThinkWatch.Session

open Lib Config

/-! ## Tokens -/

inductive TokenType where
  | access
  | refresh
deriving DecidableEq, Repr

/-- `Claims`, without the constant audience and issuer. -/
structure Claims where
  sub : Uuid
  email : String
  exp : Int
  iat : Int
  tokenType : TokenType
deriving DecidableEq, Repr

def maxJwtLeewaySecs : Int := 300

/-- `JwtManager`: the leeway, and what `decode` makes of an issued token at a given second. -/
structure JwtManager where
  leewaySecs : Int
  decode : Claims → Int → Bool
  leeway_range : 0 ≤ leewaySecs ∧ leewaySecs ≤ maxJwtLeewaySecs
  decode_iff : ∀ c now, decode c now = true ↔ now ≤ c.exp + leewaySecs

/-- `JwtManager::with_leeway` clamps what it is asked for. -/
def JwtManager.withLeeway (leewaySecs : Nat) : JwtManager where
  leewaySecs := min (leewaySecs : Int) maxJwtLeewaySecs
  decode c now := decide (now ≤ c.exp + min (leewaySecs : Int) maxJwtLeewaySecs)
  leeway_range := by unfold maxJwtLeewaySecs; omega
  decode_iff := by simp

/-- `create_access_token_with_ttl` at time `t`. -/
def createAccessToken (t : Int) (user : Uuid) (email : String) (ttlSecs : Int) : Claims :=
  ⟨user, email, (t + ttlSecs * 1000) / 1000, t / 1000, .access⟩

/-- `create_refresh_token_with_ttl` at time `t`. -/
def createRefreshToken (t : Int) (user : Uuid) (email : String) (ttlDays : Int) : Claims :=
  ⟨user, email, (t + ttlDays * 86400 * 1000) / 1000, t / 1000, .refresh⟩

/-! ## Redis and the `users` table -/

inductive Key where
  | pwEpoch (user : Uuid)
  | refreshBlacklist (token : Claims)
  | jwtBlacklist (token : Claims)
deriving DecidableEq, Repr

/-- The values are decimal numbers: an epoch in seconds, or the 1 of a blacklist. -/
abbrev Redis := Store Key Int

/-- The columns of `users` that decide whether a session may go on. -/
structure Account where
  isActive : Bool
  deleted : Bool
deriving DecidableEq, Repr

abbrev Users := Uuid → Option Account

/-- `SELECT is_active FROM users WHERE id = $1 AND deleted_at IS NULL`. -/
def isActive (users : Users) (user : Uuid) : Option Bool :=
  match users user with
  | none => none
  | some a => if a.deleted then none else some a.isActive

/--
`invalidate_refresh_tokens`: the epoch is the second of `now`, the write happens at `t`. Redis
accepts the first attempt.
-/
def invalidateRefreshTokens (s : Redis) (now t : Int) (user : Uuid) (refreshTtlDays : Int) :
    Redis :=
  s.setEx t (.pwEpoch user) (now / 1000) (refreshTtlDays * 86400 * 1000)

/-- The time to live of a claimed refresh token: `(token_exp_unix - now).max(60)`. -/
def claimTtlSecs (now : Int) (token : Claims) : Int := max (token.exp - now / 1000) 60

/-- `refresh_blacklist::claim`, with the time to live worked out before. -/
def claim (s : Redis) (t : Int) (token : Claims) (ttlSecs : Int) : Redis × Bool :=
  s.setNx t (.refreshBlacklist token) 1 (ttlSecs * 1000)

/-- `claims.iat <= epoch`, when there is an epoch. -/
def revokedByEpoch (epoch : Option Int) (token : Claims) : Bool :=
  match epoch with
  | some e => decide (token.iat ≤ e)
  | none => false

/-! ## The two checks, one command at a time -/

/-- Who looks at the token. -/
inductive Check where
  | requireAuth
  | refresh
deriving DecidableEq, Repr

def Check.tokenType : Check → TokenType
  | .requireAuth => .access
  | .refresh => .refresh

/-- Where a request stands. -/
inductive Pc where
  | arrived
  | verified
  | unrevoked
  | current
  | active
  | claiming (ttlSecs : Int)
  | claimed
  | accepted
  | refused
deriving DecidableEq, Repr

/-- The read of `pw_epoch`. -/
def checkEpoch (s : Redis) (t : Int) (token : Claims) : Pc :=
  if revokedByEpoch (s.get t (.pwEpoch token.sub)) token then .refused else .current

/--
The next action of a request, at time `t`. `require_auth` reads the JWT blacklist, the epoch and
the user; `refresh` reads the epoch and the user, claims the token and issues a session.
-/
def advance (jwt : JwtManager) (t : Int) (users : Users) (token : Claims) (check : Check)
    (s : Redis) : Pc → Redis × Pc
  | .arrived =>
    if jwt.decode token (t / 1000) = true ∧ token.tokenType = check.tokenType then (s, .verified)
    else (s, .refused)
  | .verified =>
    match check with
    | .requireAuth =>
      if (s.get t (.jwtBlacklist token)).isSome then (s, .refused) else (s, .unrevoked)
    | .refresh => (s, checkEpoch s t token)
  | .unrevoked => (s, checkEpoch s t token)
  | .current =>
    if isActive users token.sub = some true then
      match check with
      | .requireAuth => (s, .accepted)
      | .refresh => (s, .active)
    else (s, .refused)
  | .active => (s, .claiming (claimTtlSecs t token))
  | .claiming ttlSecs =>
    let r := claim s t token ttlSecs
    if r.2 then (r.1, .claimed) else (r.1, .refused)
  | .claimed => (s, .accepted)
  | .accepted => (s, .accepted)
  | .refused => (s, .refused)

end ThinkWatch.Session
