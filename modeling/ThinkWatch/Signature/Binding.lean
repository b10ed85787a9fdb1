import ThinkWatch.Lib.Run
import ThinkWatch.Signature.Verify

/-!
# A signed session in continuous use

`register-key` writes the public key and the client address with the lifetime of a refresh token.
Every verified request extends the key; none extends the address. So a session that is used all
the time keeps its key, and still loses its address one lifetime after the registration: a request
passes exactly when its address is looked up before that (`passes_iff`).
-/

namespace ThinkWatch.Signature

open Lib Config

/-- The refresh-token lifetime in milliseconds, as `register_key` and the middleware read it. -/
def lifetimeMs (cfg : DynamicConfig) : Int := cfg.jwtRefreshTtlDays * 86400 * 1000

/-- A registration that was accepted. The key is written at `keyAt`, the address at `ipAt`. -/
structure Registration where
  before : Redis
  cfg : DynamicConfig
  user : Uuid
  jwk : String
  ip : String
  keyAt : Int
  ipAt : Int
  ip_nonempty : ip.isEmpty = false
  later : keyAt ≤ ipAt
  stored : (storePublicKey before keyAt ipAt user jwk (some ip)
    (cfg.jwtRefreshTtlDays * 86400)).2 = .stored

/-- Redis when the registration is done. -/
def Registration.redis (reg : Registration) : Redis :=
  (storePublicKey reg.before reg.keyAt reg.ipAt reg.user reg.jwk (some reg.ip)
    (reg.cfg.jwtRefreshTtlDays * 86400)).1

/-- A request, the settings it runs under, and the times of its five actions. -/
structure Handling where
  req : Request
  cfg : DynamicConfig
  checkedAt : Int
  claimedAt : Int
  lookedUpAt : Int
  boundAt : Int
  extendedAt : Int

/-- The request from its arrival to its answer. -/
def handle (crypto : Crypto) (s : Redis) (h : Handling) : Redis × Pc :=
  let r₁ := advance crypto h.cfg h.checkedAt h.req s .arrived
  let r₂ := advance crypto h.cfg h.claimedAt h.req r₁.1 r₁.2
  let r₃ := advance crypto h.cfg h.lookedUpAt h.req r₂.1 r₂.2
  let r₄ := advance crypto h.cfg h.boundAt h.req r₃.1 r₃.2
  advance crypto h.cfg h.extendedAt h.req r₄.1 r₄.2

/--
The session: Redis, the clock, and when the last request of the user was done, with the lifetime
read then.
-/
structure Session where
  redis : Redis
  clock : Int
  lastAt : Int
  lifeMs : Int

def Registration.session (reg : Registration) : Session :=
  ⟨reg.redis, reg.ipAt, reg.keyAt, lifetimeMs reg.cfg⟩

/-- `h` handles a validly signed request from the registered address, soon enough after the last. -/
structure Active (crypto : Crypto) (reg : Registration) (s : Session) (h : Handling) : Prop where
  later : s.clock ≤ h.checkedAt
  inOrder : h.checkedAt ≤ h.claimedAt ∧ h.claimedAt ≤ h.lookedUpAt ∧ h.lookedUpAt ≤ h.boundAt ∧
    h.boundAt ≤ h.extendedAt
  gap : h.extendedAt - s.lastAt < s.lifeMs
  valid : ∃ l, enter h.cfg h.checkedAt s.redis h.req = .fresh l ∧ l.user.sub = reg.user ∧
    l.user.ip = some reg.ip ∧ s.redis.get h.claimedAt (.nonce reg.user l.nonce) = none ∧
    checkSignature crypto h.req l reg.jwk = .ok ()

inductive SessionEvent where
  | request (h : Handling)
  | other (t : Int) (redis : Redis)

/-- The session goes on. The rest of the server leaves the user's key and address alone. -/
inductive SessionStep (crypto : Crypto) (reg : Registration) :
    Session → SessionEvent → Session → Prop where
  | request {s : Session} {h : Handling} (active : Active crypto reg s h) :
      SessionStep crypto reg s (.request h)
        ⟨(handle crypto s.redis h).1, h.extendedAt, h.extendedAt, lifetimeMs h.cfg⟩
  | other {s : Session} {t : Int} {redis : Redis} (later : s.clock ≤ t)
      (key : redis (.signingPubkey reg.user) = s.redis (.signingPubkey reg.user))
      (ip : redis (.signingKeyIp reg.user) = s.redis (.signingKeyIp reg.user)) :
      SessionStep crypto reg s (.other t redis) { s with redis := redis, clock := t }

/-! ## The registration -/

namespace Registration

variable (reg : Registration)

/-- The address is there for one lifetime, counted from the registration. -/
def ipDeadline : Int := reg.ipAt + lifetimeMs reg.cfg

theorem redis_eq : reg.redis = (reg.before.setEx reg.keyAt (.signingPubkey reg.user) reg.jwk
    (lifetimeMs reg.cfg)).setEx reg.ipAt (.signingKeyIp reg.user) reg.ip (lifetimeMs reg.cfg) := by
  have hstored := reg.stored
  unfold redis storePublicKey at *
  cases hget : reg.before.get reg.keyAt (.signingPubkey reg.user) with
  | none =>
    rw [Store.setNx_of_none hget]
    rfl
  | some v =>
    rw [Store.setNx_of_some hget] at hstored
    cases hstored

end Registration

/-! ## One request -/

section Request

variable {crypto : Crypto} {s : Redis} {h : Handling} {l : Locals} {jwk ip : String}

/-- The first two actions of a fresh request whose nonce is absent. -/
theorem handle_claimed (hfresh : enter h.cfg h.checkedAt s h.req = .fresh l)
    (hnonce : s.get h.claimedAt (.nonce l.user.sub l.nonce) = none) :
    handle crypto s h =
      let r := s.setEx h.claimedAt (.nonce l.user.sub l.nonce) "1"
        (h.cfg.signatureNonceTtlSecs * 1000)
      let r₃ := advance crypto h.cfg h.lookedUpAt h.req r (.claimed l)
      let r₄ := advance crypto h.cfg h.boundAt h.req r₃.1 r₃.2
      advance crypto h.cfg h.extendedAt h.req r₄.1 r₄.2 := by
  have h1 : advance crypto h.cfg h.checkedAt h.req s .arrived = (s, .fresh l) := by
    simp [advance, hfresh]
  have h2 : advance crypto h.cfg h.claimedAt h.req s (.fresh l)
      = (s.setEx h.claimedAt (.nonce l.user.sub l.nonce) "1"
        (h.cfg.signatureNonceTtlSecs * 1000), .claimed l) := by
    simp [advance, Store.setNx_of_none hnonce]
  unfold handle
  simp only [h1, h2]

/-- No action changes the bound address. -/
theorem advance_ip (crypto : Crypto) (cfg : DynamicConfig) (t : Int) (req : Request) (r : Redis)
    (pc : Pc) (u : Uuid) :
    (advance crypto cfg t req r pc).1 (.signingKeyIp u) = r (.signingKeyIp u) := by
  cases pc with
  | arrived => rfl
  | fresh l =>
    simp only [advance, Store.setNx]
    split
    · rfl
    · have hne : RedisKey.signingKeyIp u ≠ .nonce l.user.sub l.nonce := by simp
      simp only [Store.setEx, Store.put_ne r hne]
  | claimed l =>
    simp only [advance]
    split <;> rfl
  | keyed l jwk =>
    simp only [advance]
    split
    · rfl
    · split <;> rfl
  | verified l => exact Store.expire_ne r t (by simp) _
  | passed => rfl
  | refused st => rfl

theorem handle_ip (crypto : Crypto) (s : Redis) (h : Handling) (u : Uuid) :
    (handle crypto s h).1 (.signingKeyIp u) = s (.signingKeyIp u) := by
  unfold handle
  simp only [advance_ip]

theorem checkBinding_self {ip : String} (hne : ip.isEmpty = false) :
    checkBinding (some ip) ip = .ok () := by
  unfold checkBinding
  rw [hne]
  simp

/-- With key and address there, a valid request passes, and it extends the key. -/
theorem handle_passes (hfresh : enter h.cfg h.checkedAt s h.req = .fresh l)
    (hnonce : s.get h.claimedAt (.nonce l.user.sub l.nonce) = none)
    (huip : l.user.ip = some ip) (hne : ip.isEmpty = false)
    (hsig : checkSignature crypto h.req l jwk = .ok ())
    (hkey : s.get h.lookedUpAt (.signingPubkey l.user.sub) = some jwk)
    (hip : s.get h.boundAt (.signingKeyIp l.user.sub) = some ip) :
    handle crypto s h = ((s.setEx h.claimedAt (.nonce l.user.sub l.nonce) "1"
      (h.cfg.signatureNonceTtlSecs * 1000)).expire h.extendedAt (.signingPubkey l.user.sub)
      (lifetimeMs h.cfg), .passed) := by
  have hkey' := (Store.get_setEx_ne s h.claimedAt h.lookedUpAt (k := .nonce l.user.sub l.nonce)
    (by simp) "1" (h.cfg.signatureNonceTtlSecs * 1000)).trans hkey
  have hip' := (Store.get_setEx_ne s h.claimedAt h.boundAt (k := .nonce l.user.sub l.nonce)
    (by simp) "1" (h.cfg.signatureNonceTtlSecs * 1000)).trans hip
  rw [handle_claimed hfresh hnonce]
  simp only [advance, hkey', hip', huip, Option.getD_some, checkBinding_self hne, hsig, lifetimeMs]

/-- Without a bound address no request passes. -/
theorem handle_unbound (hfresh : enter h.cfg h.checkedAt s h.req = .fresh l)
    (hnonce : s.get h.claimedAt (.nonce l.user.sub l.nonce) = none)
    (hip : s.get h.boundAt (.signingKeyIp l.user.sub) = none) :
    (handle crypto s h).2 = .refused .unauthorized := by
  have hip' := (Store.get_setEx_ne s h.claimedAt h.boundAt (k := .nonce l.user.sub l.nonce)
    (by simp) "1" (h.cfg.signatureNonceTtlSecs * 1000)).trans hip
  rw [handle_claimed hfresh hnonce]
  cases hkey : (s.setEx h.claimedAt (.nonce l.user.sub l.nonce) "1"
      (h.cfg.signatureNonceTtlSecs * 1000)).get h.lookedUpAt (.signingPubkey l.user.sub) with
  | none => simp only [advance, hkey]
  | some jwk => simp only [advance, hkey, hip', checkBinding]

end Request

/-! ## The invariant -/

/-- What holds of a session in continuous use. -/
structure Kept (reg : Registration) (s : Session) : Prop where
  ip : s.redis (.signingKeyIp reg.user) = some ⟨reg.ip, some reg.ipDeadline⟩
  /-- As long as the address is there, every request has extended the key. -/
  key : s.clock ≤ reg.ipDeadline →
    s.redis (.signingPubkey reg.user) = some ⟨reg.jwk, some (s.lastAt + s.lifeMs)⟩

section Invariant

variable {crypto : Crypto} {reg : Registration} {s s' : Session} {h : Handling}

theorem kept_init (reg : Registration) : Kept reg reg.session where
  ip := by
    show reg.redis (.signingKeyIp reg.user) = _
    rw [reg.redis_eq]
    exact Store.put_self _ _ _
  key := by
    intro _
    have hne : RedisKey.signingPubkey reg.user ≠ .signingKeyIp reg.user := by simp
    show reg.redis (.signingPubkey reg.user) = _
    rw [reg.redis_eq]
    exact (Store.put_ne _ hne _).trans (Store.put_self _ _ _)

/-- A request whose address is looked up in time passes, and leaves the key extended. -/
theorem Kept.passes (hk : Kept reg s) (ha : Active crypto reg s h)
    (hin : h.boundAt ≤ reg.ipDeadline) :
    (handle crypto s.redis h).2 = .passed ∧
      (handle crypto s.redis h).1 (.signingPubkey reg.user)
        = some ⟨reg.jwk, some (h.extendedAt + lifetimeMs h.cfg)⟩ := by
  obtain ⟨hchk, hclaim, hlook, hbound⟩ := ha.inOrder
  obtain ⟨l, hfresh, hu, huip, hnonce, hsig⟩ := ha.valid
  have hgap := ha.gap
  have hlater := ha.later
  have hentry := hk.key (by omega)
  have hlive : ∀ t, t ≤ h.extendedAt →
      s.redis.get t (.signingPubkey reg.user) = some reg.jwk := by
    intro t ht
    exact Store.get_of_le_deadline hentry (by omega)
  have hip : s.redis.get h.boundAt (.signingKeyIp reg.user) = some reg.ip :=
    Store.get_of_le_deadline hk.ip hin
  rw [← hu] at hnonce hlive hip ⊢
  rw [handle_passes hfresh hnonce huip reg.ip_nonempty hsig (hlive _ (by omega)) hip]
  refine ⟨rfl, ?_⟩
  -- the key is still there when `EXPIRE` comes
  have hne : RedisKey.signingPubkey l.user.sub ≠ .nonce l.user.sub l.nonce := by simp
  have hget := (Store.get_setEx_ne s.redis h.claimedAt h.extendedAt hne "1"
    (h.cfg.signatureNonceTtlSecs * 1000)).trans (hlive _ (Int.le_refl _))
  simp only [Store.expire, hget]
  exact Store.put_self _ _ _

/-- A request whose address is looked up too late is refused. -/
theorem Kept.refused (hk : Kept reg s) (ha : Active crypto reg s h)
    (hlate : reg.ipDeadline < h.boundAt) :
    (handle crypto s.redis h).2 = .refused .unauthorized := by
  obtain ⟨l, hfresh, hu, -, hnonce, -⟩ := ha.valid
  have hip : s.redis.get h.boundAt (.signingKeyIp reg.user) = none :=
    Store.get_of_deadline_lt hk.ip hlate
  rw [← hu] at hnonce hip
  exact handle_unbound hfresh hnonce hip

theorem kept_step {e : SessionEvent} (hk : Kept reg s) (hstep : SessionStep crypto reg s e s') :
    Kept reg s' := by
  cases hstep with
  | request ha =>
    refine ⟨(handle_ip crypto s.redis _ reg.user).trans hk.ip, ?_⟩
    intro hin
    obtain ⟨-, -, -, hbound⟩ := ha.inOrder
    exact (hk.passes ha (Int.le_trans hbound hin)).2
  | other later key ip =>
    refine ⟨ip.trans hk.ip, ?_⟩
    intro hin
    exact key.trans (hk.key (Int.le_trans later hin))

end Invariant

/-! ## Main result -/

/--
In every run of a session in continuous use, a request passes the key lookup and the address
binding if and only if its address is looked up within one refresh-token lifetime of the
registration.
-/
theorem passes_iff {crypto : Crypto} {reg : Registration} {es : List SessionEvent} {s : Session}
    (hrun : Steps (SessionStep crypto reg) reg.session es s) {h : Handling}
    (ha : Active crypto reg s h) :
    (handle crypto s.redis h).2 = .passed ↔ h.boundAt ≤ reg.ipAt + lifetimeMs reg.cfg := by
  have hk : Kept reg s := hrun.invariant (fun _ _ _ hk hs => kept_step hk hs) (kept_init reg)
  constructor
  · intro hpass
    by_contra hlate
    have href := hk.refused ha (Int.not_le.mp hlate)
    rw [hpass] at href
    cases href
  · intro hin
    exact (hk.passes ha hin).1

/-! ### A session of 40 hours with a lifetime of one day -/

/-- A verifier that accepts what the holder of the key "jwk" has signed. -/
def keyHolder : Crypto where
  sha256Hex _ := ""
  base64Url _ := some []
  verifyP256Jwk key _ _ := if key = "jwk" then .ok () else .error .mismatch

def oneDay : DynamicConfig
  | "auth.jwt_refresh_ttl_days" => some 1
  | _ => none

def dayRegistration : Registration where
  before := Store.empty
  cfg := oneDay
  user := 1
  jwk := "jwk"
  ip := "10.0.0.5"
  keyAt := 0
  ipAt := 0
  ip_nonempty := by decide
  later := by decide
  stored := by decide

/-- A request signed and handled at one second of the clock. -/
def requestAt (timestampStr nonce : String) (secs : Int) : Handling :=
  ⟨⟨"POST", "/api/admin/users", none, false, some ⟨1, 0, some "10.0.0.5"⟩, .text timestampStr,
      .text nonce, .text "ecdsa-p256:", []⟩,
    oneDay, secs * 1000, secs * 1000, secs * 1000, secs * 1000, secs * 1000⟩

/-- The request after 20 hours. -/
def firstRequest : Handling := requestAt "72000" "n1" 72000

/-- The request after 40 hours. -/
def secondRequest : Handling := requestAt "144000" "n2" 144000

theorem firstRequest_active :
    Active keyHolder dayRegistration dayRegistration.session firstRequest where
  later := by decide
  inOrder := by decide
  gap := by decide
  valid := ⟨⟨⟨1, 0, some "10.0.0.5"⟩, "72000", "n1", "ecdsa-p256:"⟩, by decide, rfl, rfl, by decide,
    by decide⟩

/-- The session after the first request. -/
def afterFirst : Session :=
  ⟨(handle keyHolder dayRegistration.redis firstRequest).1, 72000000, 72000000, 86400000⟩

theorem secondRequest_active : Active keyHolder dayRegistration afterFirst secondRequest where
  later := by decide
  inOrder := by decide
  gap := by decide
  valid := ⟨⟨⟨1, 0, some "10.0.0.5"⟩, "144000", "n2", "ecdsa-p256:"⟩, by decide, rfl, rfl,
    by decide, by decide⟩

/-- The first request passes. -/
theorem passes_after_twenty_hours :
    (handle keyHolder dayRegistration.session.redis firstRequest).2 = .passed :=
  (passes_iff (.nil _) firstRequest_active).mpr (by decide)

/-- The second does not, although the session was never idle for a day. -/
theorem refused_after_forty_hours :
    ¬ ∀ (crypto : Crypto) (reg : Registration) (es : List SessionEvent) (s : Session)
        (h : Handling),
      Steps (SessionStep crypto reg) reg.session es s → Active crypto reg s h →
      (handle crypto s.redis h).2 = .passed := by
  intro hall
  have hstep : SessionStep keyHolder dayRegistration dayRegistration.session
      (.request firstRequest) afterFirst := .request firstRequest_active
  have hpass := hall keyHolder dayRegistration _ afterFirst secondRequest (.single hstep)
    secondRequest_active
  have hkept := kept_step (kept_init dayRegistration) hstep
  rw [hkept.refused secondRequest_active (by decide)] at hpass
  cases hpass

end ThinkWatch.Signature
