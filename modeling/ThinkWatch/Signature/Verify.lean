import Mathlib.Algebra.Group.Int.Defs
import Mathlib.Algebra.Group.Nat.Defs
import ThinkWatch.Config.Settings
import ThinkWatch.Lib.Expiring

/-!
# The request-signature middleware

`crates/server/src/middleware/verify_signature.rs`. A request runs as a small program whose atomic
actions are its Redis commands; `advance` is the next action of a request at a given time, so that
requests can be interleaved command by command.

SHA-256, base64url and ECDSA are outside the repository and come in as `Crypto`. Times are
milliseconds; `chrono::Utc::now().timestamp()` at time `t` is `t / 1000`.
-/

namespace ThinkWatch.Signature

open Lib Config

/-! ## Redis -/

/-- The keys the middleware and `store_public_key` use. -/
inductive RedisKey where
  | signingPubkey (user : Uuid)
  | signingKeyIp (user : Uuid)
  | nonce (user : Uuid) (nonce : String)
deriving DecidableEq, Repr

abbrev Redis := Store RedisKey String

/-- `StoreKeyOutcome`. -/
inductive StoreKeyOutcome where
  | stored
  | alreadyExists
deriving DecidableEq, Repr

/-- `store_public_key`: the key is written at `t`, the address at `t'`. -/
def storePublicKey (s : Redis) (t t' : Int) (user : Uuid) (pubkeyJwkJson : String)
    (clientIp : Option String) (ttlSecs : Int) : Redis × StoreKeyOutcome :=
  let r := s.setNx t (.signingPubkey user) pubkeyJwkJson (ttlSecs * 1000)
  if r.2 then
    match clientIp with
    | some ip => (r.1.setEx t' (.signingKeyIp user) ip (ttlSecs * 1000), .stored)
    | none => (r.1, .stored)
  else (r.1, .alreadyExists)

/-! ## Requests -/

/-- `StatusCode`, as far as the middleware answers with one. -/
inductive Status where
  | badRequest
  | unauthorized
  | internalServerError
deriving DecidableEq, Repr

/-- A header of a request: missing, not readable as text, or text. -/
inductive Header where
  | absent
  | binary
  | text (s : String)
deriving DecidableEq, Repr

/-- What `require_auth` leaves in the request. -/
structure AuthUser where
  sub : Uuid
  iat : Int
  ip : Option String
deriving DecidableEq, Repr

structure Request where
  method : String
  path : String
  pathAndQuery : Option String
  apiKeyAuthenticated : Bool
  authUser : Option AuthUser
  timestamp : Header
  nonce : Header
  signature : Header
  body : List UInt8
deriving DecidableEq, Repr

/-- Requests that are let through unchecked: preflight, API keys, and key registration itself. -/
def Request.exempt (r : Request) : Bool :=
  r.method == "OPTIONS" || r.apiKeyAuthenticated || r.path == "/api/auth/register-key"

def Header.toStr : Header → Except Status String
  | .text s => .ok s
  | _ => .error .badRequest

/-! ## Numbers -/

def parseDigits : List Char → Nat → Option Nat
  | [], acc => some acc
  | c :: cs, acc =>
    if c.isDigit then parseDigits cs (acc * 10 + (c.toNat - 48)) else none

def inI64 (n : Int) : Option Int := if -2 ^ 63 ≤ n ∧ n < 2 ^ 63 then some n else none

/-- `str::parse::<i64>`. -/
def parseI64 (s : String) : Option Int :=
  match s.toList with
  | [] => none
  | ['+'] => none
  | ['-'] => none
  | '+' :: cs => (parseDigits cs 0).bind fun n => inI64 n
  | '-' :: cs => (parseDigits cs 0).bind fun n => inI64 (-n)
  | cs => (parseDigits cs 0).bind fun n => inI64 n

/-- An `i64` result in the release build, which wraps. -/
def wrapI64 (x : Int) : Int := Int.bmod x (2 ^ 64)

/-- `(now - timestamp).abs() > max_drift`. -/
def driftTooLarge (now timestamp maxDrift : Int) : Bool :=
  decide (wrapI64 (wrapI64 (now - timestamp)).natAbs > maxDrift)

/-! ## The checks without Redis -/

/-- `SignatureCheck`. -/
inductive SignatureCheck where
  | badKey (e : String)
  | badSignature (e : String)
  | mismatch
deriving DecidableEq, Repr

structure Crypto where
  /-- `hex::encode(Sha256::digest(body))` -/
  sha256Hex : List UInt8 → String
  /-- `BASE64URL_NOPAD.decode` -/
  base64Url : String → Option (List UInt8)
  /-- `verify_p256_jwk`: key, message, signature -/
  verifyP256Jwk : String → String → List UInt8 → Except SignatureCheck Unit

/-- The locals of the middleware once the headers are read. -/
structure Locals where
  user : AuthUser
  timestampStr : String
  nonce : String
  signatureHeader : String
deriving DecidableEq, Repr

/-- From the headers to the drift check, at second `now`. -/
def readHeaders (cfg : DynamicConfig) (now : Int) (user : AuthUser) (req : Request) :
    Except Status Locals := do
  let timestampStr ← req.timestamp.toStr
  let nonce ← req.nonce.toStr
  let signatureHeader ← req.signature.toStr
  match parseI64 timestampStr with
  | none => .error .badRequest
  | some timestamp =>
    if driftTooLarge now timestamp cfg.signatureDriftSecs then .error .unauthorized
    else .ok ⟨user, timestampStr, nonce, signatureHeader⟩

/-- The session binding: the bound address against the address of the request. -/
def checkBinding (boundIp : Option String) (requestIp : String) : Except Status Unit :=
  match boundIp, requestIp.isEmpty with
  | some bound, false => if bound ≠ requestIp then .error .unauthorized else .ok ()
  | none, _ => .error .unauthorized
  | some _, true => .error .unauthorized

def stripEcdsaTag (s : String) : Option String :=
  if "ecdsa-p256:".toList.isPrefixOf s.toList then some (String.ofList (s.toList.drop 11)) else none

def stringToSign (crypto : Crypto) (req : Request) (l : Locals) : String :=
  req.method ++ "\n" ++ req.pathAndQuery.getD req.path ++ "\n" ++ l.timestampStr ++ "\n" ++ l.nonce
    ++ "\n" ++ crypto.sha256Hex req.body

/-- From the signature header to `verify_p256_jwk`. -/
def checkSignature (crypto : Crypto) (req : Request) (l : Locals) (pubkeyJson : String) :
    Except Status Unit :=
  match stripEcdsaTag l.signatureHeader with
  | none => .error .badRequest
  | some sigB64 =>
    match crypto.base64Url sigB64 with
    | none => .error .badRequest
    | some sigBytes =>
      if req.body.length > 10 * 1024 * 1024 then .error .badRequest
      else
        match crypto.verifyP256Jwk pubkeyJson (stringToSign crypto req l) sigBytes with
        | .ok () => .ok ()
        | .error (.badKey _) => .error .internalServerError
        | .error (.badSignature _) => .error .badRequest
        | .error .mismatch => .error .unauthorized

/-! ## The middleware, one Redis command at a time -/

/-- Where a request stands: the next command it will send. -/
inductive Pc where
  | arrived
  | fresh (l : Locals)
  | claimed (l : Locals)
  | keyed (l : Locals) (pubkeyJson : String)
  | verified (l : Locals)
  | passed
  | refused (status : Status)
deriving DecidableEq, Repr

def registerKeyGraceSecs : Int := 120

/-- Up to the drift check. A request without a signature is settled here. -/
def enter (cfg : DynamicConfig) (t : Int) (s : Redis) (req : Request) : Pc :=
  if req.exempt then .passed
  else
    match req.authUser with
    | none => .refused .unauthorized
    | some user =>
      if req.signature = .absent then
        if (s.get t (.signingPubkey user.sub)).isSome then .refused .unauthorized
        else if t / 1000 - user.iat > registerKeyGraceSecs then .refused .unauthorized
        else .passed
      else
        match readHeaders cfg (t / 1000) user req with
        | .error st => .refused st
        | .ok l => .fresh l

/-- The next atomic action of a request, at time `t`. -/
def advance (crypto : Crypto) (cfg : DynamicConfig) (t : Int) (req : Request) (s : Redis) :
    Pc → Redis × Pc
  | .arrived => (s, enter cfg t s req)
  | .fresh l =>
    -- a nil reply to `SET NX` is refused too, whichever way it is decoded
    let r := s.setNx t (.nonce l.user.sub l.nonce) "1" (cfg.signatureNonceTtlSecs * 1000)
    (r.1, if r.2 then .claimed l else .refused .unauthorized)
  | .claimed l =>
    match s.get t (.signingPubkey l.user.sub) with
    | none => (s, .refused .unauthorized)
    | some pubkeyJson => (s, .keyed l pubkeyJson)
  | .keyed l pubkeyJson =>
    match checkBinding (s.get t (.signingKeyIp l.user.sub)) (l.user.ip.getD "") with
    | .error st => (s, .refused st)
    | .ok () =>
      match checkSignature crypto req l pubkeyJson with
      | .error st => (s, .refused st)
      | .ok () => (s, .verified l)
  | .verified l =>
    (s.expire t (.signingPubkey l.user.sub) (cfg.jwtRefreshTtlDays * 86400 * 1000), .passed)
  | .passed => (s, .passed)
  | .refused st => (s, .refused st)

end ThinkWatch.Signature
