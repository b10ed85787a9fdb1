import ThinkWatch.Lib.Utf8
import ThinkWatch.Mcp.Breaker
import ThinkWatch.Mcp.RefreshRace

/-!
# What becomes of a refresh answer

`oauth_refresh` of `crates/mcp-gateway/src/user_token.rs` with `read_response` of
`crates/common/src/resources.rs`, and `refresh_locked` around it. The old refresh token is spent when
the endpoint has answered. `refresh_kept_iff`: an answer that carries tokens is stored exactly if its
body fits the buffer and the expiry that it names is a date `chrono` has. A body that does not fit
counts as a transient failure and the row keeps the token that is spent; a later date is a panic in
`now + Duration::seconds(..)`, before the row is written.

Instants are in seconds, as in `refreshLocked`.
-/

namespace ThinkWatch.Mcp

open Lib Policy

/-! ## Reading a body -/

/-- A part of a body, and what other bodies hold of the buffering budget when it comes. -/
structure Chunk where
  bytes : List UInt8
  others : Nat
deriving DecidableEq, Repr

/-- An answer as it arrives. `broken` is the error of a connection that ends within the body. -/
structure HttpAnswer where
  status : Nat
  statusText : String
  contentLength : Option Nat
  chunks : List Chunk
  broken : Option String
deriving DecidableEq, Repr

def HttpAnswer.body (answer : HttpAnswer) : List UInt8 := answer.chunks.flatMap Chunk.bytes

/-- `policy().max_body_bytes`, and the limit of `body_budget()`. -/
structure Buffers where
  maxBodyBytes : Nat
  budget : Nat
deriving DecidableEq, Repr

def bodyHeadroom : Nat := 32

/-- `Reservation::grow`: what the reservation holds afterwards. -/
def grow (budget others charged bytes : Nat) : Option Nat :=
  let extra := bytes - charged
  if extra > budget - (others + charged) then none else some (charged + extra)

def readChunks (max budget : Nat) (broken : Option String) :
    List UInt8 → Nat → List Chunk → Except ReadError (List UInt8)
  | data, _, [] =>
    match broken with
    | some msg => .error (.transport msg)
    | none => .ok data
  | data, charged, chunk :: chunks =>
    let size := data.length + chunk.bytes.length
    if size > max then .error .tooLarge
    else
      match grow budget chunk.others charged (size * bodyHeadroom) with
      | none => .error .busy
      | some charged => readChunks max budget broken (data ++ chunk.bytes) charged chunks

def readResponse (buffers : Buffers) (max : Nat) (answer : HttpAnswer) :
    Except ReadError (List UInt8) :=
  let max := min max buffers.maxBodyBytes
  if ∃ n ∈ answer.contentLength, n > max then .error .tooLarge
  else readChunks max buffers.budget answer.broken [] 0 answer.chunks

/-! ## The token endpoint -/

/-- `serde_json::from_str`, for the two types that are read here. -/
structure Serde where
  tokens : List Char → Except String TokenResponse
  value : List Char → Option Json

def isSuccess (status : Nat) : Bool := 200 ≤ status && status < 300

def errorField (serde : Serde) (text : List Char) : Option String :=
  ((serde.value text).bind (·.get "error")).bind Json.asStr

/-- The answer says that the grant is dead. -/
def rejects (serde : Serde) (status : Nat) (text : List Char) : Bool :=
  status = 401 || (status = 400 && errorField serde text = some "invalid_grant")

def readAnswer (serde : Serde) (answer : HttpAnswer) (bytes : List UInt8) :
    Except OAuthRefreshFailure TokenResponse :=
  let text := Utf8.decode bytes
  if !isSuccess answer.status then
    let msg := s!"token_endpoint returned {answer.statusText}: {String.ofList text}"
    .error (if rejects serde answer.status text then .permanent msg else .transient msg)
  else (serde.tokens text).mapError fun e => .permanent s!"parse: {e}"

/-- The fields of the form. -/
def refreshForm (cfg : OAuthClientCfg) (refreshToken : String) : List (String × String) :=
  [("grant_type", "refresh_token"), ("refresh_token", refreshToken), ("client_id", cfg.clientId)] ++
    (cfg.clientSecret.map fun secret => ("client_secret", secret)).toList ++
    if cfg.scopes = [] then [] else [("scope", " ".intercalate cfg.scopes)]

/-- A form is posted to a URL and answered, unless that fails. -/
abbrev Http := String → List (String × String) → Except String HttpAnswer

def maxTokenAnswer : Nat := 64 * 1024

def oauthRefresh (serde : Serde) (buffers : Buffers) (http : Http) : TokenEndpoint :=
  fun cfg refreshToken =>
    match http cfg.tokenEndpoint (refreshForm cfg refreshToken) with
    | .error e => .error (.transient s!"network: {e}")
    | .ok answer =>
      match readResponse buffers maxTokenAnswer answer with
      | .error e => .error (.transient s!"token response read: {e.display}")
      | .ok bytes => readAnswer serde answer bytes

/-! ## The expiry -/

/-- The last second of `DateTime<Utc>`, of the year 262142. -/
def maxTimestamp : Int := 8210266876799

/-- `Duration::seconds` takes at most `i64::MAX` milliseconds. -/
def maxDurationSecs : Nat := (2 ^ 63 - 1) / 1000

/-- `now + Duration::seconds(secs)`; `none` is a panic. -/
def addSeconds (now : Int) (secs : Nat) : Option Int :=
  if secs ≤ maxDurationSecs ∧ now + secs ≤ maxTimestamp then some (now + secs) else none

/-- `new_expires_at`, where `none` is a panic. -/
def expiryOrPanic (expiresIn : Option Nat) (now : Int) : Option (Option Int) :=
  match expiresIn.filter (· < 2 ^ 63) with
  | some secs => (addSeconds now secs).map some
  | none => some none

/-! ## The refresh -/

section Refresh

variable {β : Type} (crypto : Crypto β) (endpoint : TokenEndpoint) (db : Credentials β)

/-- The tokens are encrypted, the expiry is computed, the row is written. -/
def storeOrPanic (locator : CredLocator) (refreshBytes : β) (new : TokenResponse) (now : Int) :
    Option (Except ResolverError (Credentials β)) :=
  let tokens : Except ResolverError (β × β) := do
    let access ← crypto.encryptToken new.accessToken
    let refresh ←
      match new.refreshToken with
      | some r => crypto.encryptToken r
      | none => pure refreshBytes
    return (access, refresh)
  match tokens with
  | .error e => some (.error e)
  | .ok (access, refresh) =>
    (expiryOrPanic new.expiresIn now).map (db.writeRefreshedRow locator access (some refresh))

/-- `refresh_locked`, where `none` is a panic. -/
def refreshOrPanic (locator : CredLocator) (row : CredentialRow β) (cfg : OAuthClientCfg)
    (now : Int) : Option (Except ResolverError String × Option (Credentials β)) :=
  match Calls.recheck crypto db locator row cfg now with
  | .error e => some (.error e, none)
  | .ok (.inl token) => some (.ok token, none)
  | .ok (.inr (refreshBytes, refreshToken)) =>
    match endpoint cfg refreshToken with
    | .error (.transient msg) =>
      some (.error (.refreshFailed locator.serverId .transient msg), none)
    | .error (.permanent msg) =>
      match db.deleteRow locator with
      | .error e => some (.error e, none)
      | .ok db' => some (.error (.refreshFailed locator.serverId .permanent msg), some db')
    | .ok new =>
      (storeOrPanic crypto db locator refreshBytes new now).map fun
        | .error e => (.error e, none)
        | .ok db' => (.ok new.accessToken, some db')

end Refresh

/-! ## When a body is read -/

/-- With every part that has come, the budget has room for what has come so far. -/
def FitsBudget (budget : Nat) : Nat → List Chunk → Prop
  | _, [] => True
  | size, chunk :: chunks =>
    (chunk.bytes ≠ [] →
        chunk.others + (size + chunk.bytes.length) * bodyHeadroom ≤ budget) ∧
      FitsBudget budget (size + chunk.bytes.length) chunks

instance decFitsBudget (budget : Nat) : ∀ size chunks, Decidable (FitsBudget budget size chunks)
  | _, [] => isTrue trivial
  | size, chunk :: chunks =>
    have := decFitsBudget budget (size + chunk.bytes.length) chunks
    inferInstanceAs (Decidable (_ ∧ _))

/-- The answer fits the limit of the reader and the buffering budget. -/
structure HttpAnswer.Fits (answer : HttpAnswer) (buffers : Buffers) (max : Nat) : Prop where
  announced : ∀ n ∈ answer.contentLength, n ≤ min max buffers.maxBodyBytes
  size : answer.body.length ≤ min max buffers.maxBodyBytes
  room : FitsBudget buffers.budget 0 answer.chunks

theorem grow_eq_some {budget others size more charged : Nat} :
    grow budget others (size * bodyHeadroom) ((size + more) * bodyHeadroom) = some charged ↔
      (more ≠ 0 → others + (size + more) * bodyHeadroom ≤ budget) ∧
        charged = (size + more) * bodyHeadroom := by
  unfold grow bodyHeadroom
  dsimp only
  split
  · refine ⟨nofun, ?_⟩
    rintro ⟨h, -⟩
    omega
  · rw [Option.some.injEq]
    omega

theorem readChunks_ok {max budget : Nat} {broken : Option String} (chunks : List Chunk)
    (data : List UInt8) {bytes : List UInt8} (hdata : data.length ≤ max) :
    readChunks max budget broken data (data.length * bodyHeadroom) chunks = .ok bytes ↔
      (data ++ chunks.flatMap Chunk.bytes).length ≤ max ∧ FitsBudget budget data.length chunks ∧
        broken = none ∧ bytes = data ++ chunks.flatMap Chunk.bytes := by
  induction chunks generalizing data with
  | nil =>
    unfold readChunks
    cases broken with
    | some msg => simp
    | none => simp [hdata, FitsBudget, eq_comm]
  | cons chunk chunks ih =>
    unfold readChunks
    dsimp only
    rw [List.flatMap_cons, ← List.append_assoc, FitsBudget]
    split
    next hsize =>
      refine ⟨nofun, ?_⟩
      rintro ⟨h, -⟩
      rw [List.length_append, List.length_append] at h
      omega
    next hsize =>
      cases hgrow : grow budget chunk.others (data.length * bodyHeadroom)
          ((data.length + chunk.bytes.length) * bodyHeadroom) with
      | none =>
        refine ⟨nofun, ?_⟩
        rintro ⟨-, ⟨hroom, -⟩, -⟩
        have hsome := grow_eq_some.mpr
          ⟨fun hne => hroom fun hnil => hne (by rw [hnil, List.length_nil]), rfl⟩
        rw [hgrow] at hsome
        cases hsome
      | some charged =>
        obtain ⟨hroom, rfl⟩ := grow_eq_some.mp hgrow
        have hlength : (data ++ chunk.bytes).length = data.length + chunk.bytes.length :=
          List.length_append
        have hrest := ih (data ++ chunk.bytes) (hlength ▸ Nat.not_lt.mp hsize)
        rw [hlength] at hrest
        show readChunks max budget broken (data ++ chunk.bytes) _ chunks = .ok bytes ↔ _
        rw [hrest]
        have hchunk : chunk.bytes ≠ [] →
            chunk.others + (data.length + chunk.bytes.length) * bodyHeadroom ≤ budget :=
          fun hne => hroom fun hnil => hne (List.length_eq_zero_iff.mp hnil)
        constructor
        · rintro ⟨hmax, hfits, hbroken, hbytes⟩
          exact ⟨hmax, ⟨hchunk, hfits⟩, hbroken, hbytes⟩
        · rintro ⟨hmax, ⟨-, hfits⟩, hbroken, hbytes⟩
          exact ⟨hmax, hfits, hbroken, hbytes⟩

/-- A body is read when it fits and arrives to its end, and then it is read as a whole. -/
theorem readResponse_ok {buffers : Buffers} {max : Nat} {answer : HttpAnswer}
    {bytes : List UInt8} :
    readResponse buffers max answer = .ok bytes ↔
      answer.Fits buffers max ∧ answer.broken = none ∧ bytes = answer.body := by
  unfold readResponse
  dsimp only
  split
  next h =>
    obtain ⟨n, hn, hlt⟩ := h
    exact ⟨nofun, fun h => absurd (h.1.announced n hn) (Nat.not_le.mpr hlt)⟩
  next h =>
    rw [show (0 : Nat) = ([] : List UInt8).length * bodyHeadroom from rfl,
      readChunks_ok answer.chunks [] (Nat.zero_le _), List.nil_append]
    constructor
    · rintro ⟨hsize, hroom, hbroken, hbytes⟩
      exact ⟨⟨fun n hn => Nat.not_lt.mp fun hlt => h ⟨n, hn, hlt⟩, hsize, hroom⟩, hbroken, hbytes⟩
    · rintro ⟨⟨-, hsize, hroom⟩, hbroken, hbytes⟩
      exact ⟨hsize, hroom, hbroken, hbytes⟩

/-! ## When the expiry can be computed -/

/-- Either the number does not fit an `i64` and is dropped, or the date is one that `chrono` has. -/
def ExpiryFits (now : Int) (expiresIn : Option Nat) : Prop :=
  ∀ secs ∈ expiresIn, secs < 2 ^ 63 → secs ≤ maxDurationSecs ∧ now + secs ≤ maxTimestamp

theorem expiryOrPanic_of_fits {now : Int} {expiresIn : Option Nat} (h : ExpiryFits now expiresIn) :
    expiryOrPanic expiresIn now = some (newExpiresAt expiresIn now) := by
  unfold expiryOrPanic newExpiresAt
  cases expiresIn with
  | none => rfl
  | some secs =>
    rw [Option.filter_some, Option.bind_some]
    by_cases hlt : secs < 2 ^ 63
    · rw [if_pos (decide_eq_true hlt), if_pos hlt]
      show (addSeconds now secs).map some = _
      rw [addSeconds, if_pos (h secs rfl hlt)]
      rfl
    · rw [if_neg (by simpa using hlt), if_neg hlt]

theorem fits_of_expiryOrPanic {now : Int} {expiresIn : Option Nat} {expiry : Option Int}
    (h : expiryOrPanic expiresIn now = some expiry) : ExpiryFits now expiresIn := by
  rintro secs hsecs hlt
  obtain rfl := Option.mem_def.mp hsecs
  unfold expiryOrPanic at h
  rw [Option.filter_some, if_pos (decide_eq_true hlt)] at h
  obtain ⟨date, hdate, -⟩ := Option.map_eq_some_iff.mp h
  unfold addSeconds at hdate
  split at hdate
  next hfits => exact hfits
  next => cases hdate

/-! ## How a refresh ends -/

section Endings

variable {β : Type} {crypto : Crypto β} {db : Credentials β} {l : CredLocator}
  {row : CredentialRow β} {cfg : OAuthClientCfg} {now : Int} {bytes : β} {token : String}
  {serde : Serde} {buffers : Buffers} {http : Http}

/-- A success answer that arrives to its end, with tokens in it. -/
structure HttpAnswer.Carries (answer : HttpAnswer) (serde : Serde) (new : TokenResponse) :
    Prop where
  success : isSuccess answer.status = true
  whole : answer.broken = none
  tokens : serde.tokens (Utf8.decode answer.body) = .ok new

/-- A rejection of the grant, or a success answer that cannot be read. -/
def HttpAnswer.DeadGrant (answer : HttpAnswer) (serde : Serde) : Prop :=
  if isSuccess answer.status then ∃ e, serde.tokens (Utf8.decode answer.body) = .error e
  else answer.status = 401 ∨
    answer.status = 400 ∧ errorField serde (Utf8.decode answer.body) = some "invalid_grant"

inductive Ending where
  | stored
  | transient
  | dead
deriving DecidableEq, Repr

/-- The result of a refresh and the change of the tables, against what the endpoint `sent`. -/
def EndsAs (crypto : Crypto β) (serde : Serde) (l : CredLocator) (now : Int) (token : String)
    (sent : Except String HttpAnswer)
    (r : Except ResolverError String × Option (Credentials β)) : Ending → Prop
  | .stored =>
    ∃ answer new, sent = .ok answer ∧ answer.Carries serde new ∧ r.1 = .ok new.accessToken ∧
      ∃ db' row' refresh, r.2 = some db' ∧ db'.fetchRow l = some row' ∧
        crypto.decrypt row'.accessTokenEncrypted = .ok new.accessToken ∧
        row'.refreshTokenEncrypted = some refresh ∧
        crypto.decrypt refresh = .ok (new.refreshToken.getD token) ∧
        row'.expiresAt = newExpiresAt new.expiresIn now
  | .transient => (∃ msg, r.1 = .error (.refreshFailed l.serverId .transient msg)) ∧ r.2 = none
  | .dead =>
    (∃ answer, sent = .ok answer ∧ answer.DeadGrant serde) ∧
      (∃ msg, r.1 = .error (.refreshFailed l.serverId .permanent msg)) ∧
      ∃ db', r.2 = some db' ∧ db'.fetchRow l = none

/-- An ending is told by the result. -/
theorem EndsAs.unique {sent : Except String HttpAnswer}
    {r : Except ResolverError String × Option (Credentials β)} {a b : Ending}
    (ha : EndsAs crypto serde l now token sent r a) (hb : EndsAs crypto serde l now token sent r b) :
    a = b := by
  have hresult : ∀ {e}, EndsAs crypto serde l now token sent r e →
      e = match r.1 with
        | .ok _ => .stored
        | .error (.refreshFailed _ .transient _) => .transient
        | .error _ => .dead := by
    intro e he
    cases e with
    | stored =>
      obtain ⟨_, new, _, _, hr, _⟩ := he
      rw [hr]
    | transient =>
      obtain ⟨⟨msg, hr⟩, -⟩ := he
      rw [hr]
    | dead =>
      obtain ⟨_, ⟨msg, hr⟩, _⟩ := he
      rw [hr]
  rw [hresult ha, hresult hb]

/--
The refresh does not panic, ends in one of the three ways, and has stored the tokens if the answer
carries some.
-/
def Kept (crypto : Crypto β) (serde : Serde) (l : CredLocator) (now : Int) (token : String)
    (sent : Except String HttpAnswer)
    (r : Option (Except ResolverError String × Option (Credentials β))) : Prop :=
  ∃ result, r = some result ∧ (∃! e, EndsAs crypto serde l now token sent result e) ∧
    ∀ answer new, sent = .ok answer → answer.Carries serde new →
      EndsAs crypto serde l now token sent result .stored

/-- A locator that names a row can be written and deleted. -/
theorem Credentials.writable (hl : l.Concrete) (access : β) (refresh : Option β)
    (expiresAt : Option Int) :
    (∃ db', db.writeRefreshedRow l access refresh expiresAt = .ok db') ∧
      ∃ db', db.deleteRow l = .ok db' := by
  cases l with
  | adminShared id => exact ⟨⟨_, rfl⟩, _, rfl⟩
  | perUser id userId label =>
    obtain ⟨label, rfl⟩ := Option.isSome_iff_exists.mp hl
    exact ⟨⟨_, rfl⟩, _, rfl⟩

/-- What the tokens of an answer are stored as. -/
theorem storeOrPanic_eq (hcrypto : crypto.Lawful) (db : Credentials β) (l : CredLocator)
    (hbytes : crypto.decrypt bytes = .ok token) (new : TokenResponse) (now : Int) :
    ∃ access refresh, crypto.decrypt access = .ok new.accessToken ∧
      crypto.decrypt refresh = .ok (new.refreshToken.getD token) ∧
      storeOrPanic crypto db l bytes new now =
        (expiryOrPanic new.expiresIn now).map (db.writeRefreshedRow l access (some refresh)) := by
  obtain ⟨access, haccess, haccess'⟩ := hcrypto new.accessToken
  unfold storeOrPanic Crypto.encryptToken
  cases hnew : new.refreshToken with
  | none =>
    refine ⟨access, bytes, haccess', hbytes, ?_⟩
    rw [haccess]
    rfl
  | some plain =>
    obtain ⟨refresh, hrefresh, hrefresh'⟩ := hcrypto plain
    refine ⟨access, refresh, haccess', hrefresh', ?_⟩
    dsimp only
    rw [haccess, hrefresh]
    rfl

theorem storeOrPanic_some {new : TokenResponse} {r : Except ResolverError (Credentials β)}
    (h : storeOrPanic crypto db l bytes new now = some r) :
    storeRefreshed crypto db l bytes new now = r := by
  have hstore : ∀ {access refresh : β}, (expiryOrPanic new.expiresIn now).map
        (db.writeRefreshedRow l access (some refresh)) = some r →
      db.writeRefreshedRow l access (some refresh) (newExpiresAt new.expiresIn now) = r := by
    intro access refresh h
    obtain ⟨expiry, hexpiry, rfl⟩ := Option.map_eq_some_iff.mp h
    rw [expiryOrPanic_of_fits (fits_of_expiryOrPanic hexpiry)] at hexpiry
    rw [Option.some.inj hexpiry]
  unfold storeOrPanic at h
  unfold storeRefreshed
  cases haccess : crypto.encryptToken new.accessToken with
  | error e =>
    rw [haccess] at h
    exact Option.some.inj h
  | ok access =>
    rw [haccess] at h
    cases hnew : new.refreshToken with
    | none =>
      rw [hnew] at h
      exact hstore h
    | some plain =>
      rw [hnew] at h
      cases hrefresh : crypto.encryptToken plain with
      | error e =>
        simp only [hrefresh] at h ⊢
        exact Option.some.inj h
      | ok refresh =>
        simp only [hrefresh] at h ⊢
        exact hstore h

/-- A refresh that does not panic is the one that `refreshLocked` describes. -/
theorem refreshOrPanic_some {endpoint : TokenEndpoint}
    {r : Except ResolverError String × Option (Credentials β)}
    (h : refreshOrPanic crypto endpoint db l row cfg now = some r) :
    refreshLocked crypto endpoint db l row cfg now = r := by
  rw [Calls.refreshLocked_eq]
  unfold refreshOrPanic at h
  cases hre : Calls.recheck crypto db l row cfg now with
  | error e =>
    rw [hre] at h
    exact Option.some.inj h
  | ok asked =>
    rw [hre] at h
    obtain token | ⟨bytes, token⟩ := asked
    · exact Option.some.inj h
    · cases hsent : endpoint cfg token with
      | ok new =>
        simp only [hsent] at h ⊢
        obtain ⟨stored, hstored, rfl⟩ := Option.map_eq_some_iff.mp h
        have hstore := storeOrPanic_some hstored
        cases stored <;> rw [hstore]
      | error e =>
        simp only [hsent] at h ⊢
        cases e with
        | transient msg => exact Option.some.inj h
        | permanent msg =>
          cases hdelete : db.deleteRow l with
          | error e =>
            simp only [hdelete] at h ⊢
            exact Option.some.inj h
          | ok db' =>
            simp only [hdelete] at h ⊢
            exact Option.some.inj h

/-- An answer that carries tokens does not kill the grant. -/
theorem HttpAnswer.Carries.not_dead {answer : HttpAnswer} {new : TokenResponse}
    (h : answer.Carries serde new) : ¬ answer.DeadGrant serde := by
  unfold DeadGrant
  rw [if_pos h.success, h.tokens]
  rintro ⟨e, he⟩
  cases he

/-- What the answer is read as. -/
theorem readAnswer_cases (serde : Serde) {answer : HttpAnswer} (h : answer.broken = none) :
    (∃ msg, readAnswer serde answer answer.body = .error (.transient msg) ∧
        isSuccess answer.status = false) ∨
      (∃ msg, readAnswer serde answer answer.body = .error (.permanent msg) ∧
        answer.DeadGrant serde) ∨
      ∃ new, readAnswer serde answer answer.body = .ok new ∧ answer.Carries serde new := by
  unfold readAnswer HttpAnswer.DeadGrant
  dsimp only
  cases hsuccess : isSuccess answer.status with
  | false =>
    simp only [Bool.not_false, if_true, Bool.false_eq_true, if_false]
    cases hrejects : rejects serde answer.status (Utf8.decode answer.body) with
    | false => exact Or.inl ⟨_, rfl, trivial⟩
    | true =>
      refine Or.inr (Or.inl ⟨_, rfl, ?_⟩)
      unfold rejects at hrejects
      simpa using hrejects
  | true =>
    simp only [Bool.not_true, Bool.false_eq_true, if_false, if_true]
    cases htokens : serde.tokens (Utf8.decode answer.body) with
    | error e => exact Or.inr (Or.inl ⟨_, rfl, e, rfl⟩)
    | ok new => exact Or.inr (Or.inr ⟨new, rfl, hsuccess, h, htokens⟩)

/--
The endpoint has failed for the moment, and no answer with tokens has been read; or the grant is
dead; or the tokens of the answer have been read.
-/
theorem oauthRefresh_cases (serde : Serde) (buffers : Buffers) (http : Http) (cfg : OAuthClientCfg)
    (token : String) :
    (∃ msg, oauthRefresh serde buffers http cfg token = .error (.transient msg) ∧
        ∀ answer new, http cfg.tokenEndpoint (refreshForm cfg token) = .ok answer →
          answer.Carries serde new → ¬ answer.Fits buffers maxTokenAnswer) ∨
      (∃ msg answer, oauthRefresh serde buffers http cfg token = .error (.permanent msg) ∧
        http cfg.tokenEndpoint (refreshForm cfg token) = .ok answer ∧ answer.DeadGrant serde) ∨
      ∃ answer new, oauthRefresh serde buffers http cfg token = .ok new ∧
        http cfg.tokenEndpoint (refreshForm cfg token) = .ok answer ∧ answer.Carries serde new ∧
        answer.Fits buffers maxTokenAnswer := by
  unfold oauthRefresh
  cases hsent : http cfg.tokenEndpoint (refreshForm cfg token) with
  | error e => exact Or.inl ⟨_, rfl, nofun⟩
  | ok answer =>
    dsimp only
    cases hread : readResponse buffers maxTokenAnswer answer with
    | error e =>
      refine Or.inl ⟨_, rfl, ?_⟩
      rintro _ new ⟨⟩ hcarries hfits
      have hok := readResponse_ok.mpr ⟨hfits, hcarries.whole, rfl⟩
      rw [hread] at hok
      cases hok
    | ok bytes =>
      obtain ⟨hfits, hbroken, rfl⟩ := readResponse_ok.mp hread
      dsimp only
      obtain ⟨msg, h, hsuccess⟩ | ⟨msg, h, hdead⟩ | ⟨new, h, hcarries⟩ :=
        readAnswer_cases serde hbroken
      · refine Or.inl ⟨msg, h, ?_⟩
        rintro _ new ⟨⟩ hcarries
        rw [hcarries.success] at hsuccess
        cases hsuccess
      · exact Or.inr (Or.inl ⟨msg, answer, h, rfl, hdead⟩)
      · exact Or.inr (Or.inr ⟨answer, new, h, rfl, hcarries, hfits⟩)

theorem decrypt_of_storedRefreshToken (h : storedRefreshToken crypto l row = .ok (bytes, token)) :
    crypto.decrypt bytes = .ok token := by
  have hdecrypt := (Calls.refreshToken_of_storedRefreshToken h).2
  cases hd : crypto.decrypt bytes with
  | error e =>
    rw [hd] at hdecrypt
    cases hdecrypt
  | ok plain =>
    rw [hd] at hdecrypt
    rw [Option.some.inj hdecrypt]

/-- The condition under which an answer with tokens is stored. -/
def Storable (serde : Serde) (buffers : Buffers) (now : Int) (sent : Except String HttpAnswer) :
    Prop :=
  ∀ answer new, sent = .ok answer → answer.Carries serde new →
    answer.Fits buffers maxTokenAnswer ∧ ExpiryFits now new.expiresIn

/-- After a transient failure the row is as it was; an answer's tokens are lost. -/
theorem kept_iff_of_transient {sent : Except String HttpAnswer} {msg : String}
    (h : ∀ answer new, sent = .ok answer → answer.Carries serde new →
      ¬ answer.Fits buffers maxTokenAnswer) :
    Kept crypto serde l now token sent
        (some (.error (.refreshFailed l.serverId .transient msg), none)) ↔
      Storable serde buffers now sent := by
  have hends : EndsAs crypto serde l now token sent
      (.error (.refreshFailed l.serverId .transient msg), none) .transient :=
    ⟨⟨msg, rfl⟩, rfl⟩
  constructor
  · rintro ⟨_, ⟨⟩, -, hstored⟩ answer new hanswer hcarries
    obtain ⟨_, _, _, _, hok, _⟩ := hstored answer new hanswer hcarries
    cases hok
  · intro hall
    refine ⟨_, rfl, ⟨.transient, hends, fun e he => he.unique hends⟩, ?_⟩
    intro answer new hanswer hcarries
    exact absurd (hall answer new hanswer hcarries).1 (h answer new hanswer hcarries)

/-- A dead grant takes its row with it. -/
theorem kept_iff_of_dead {db' : Credentials β} {answer : HttpAnswer} {msg : String}
    (hdead : answer.DeadGrant serde) (hdelete : db.deleteRow l = .ok db') :
    Kept crypto serde l now token (.ok answer)
        (some (.error (.refreshFailed l.serverId .permanent msg), some db')) ↔
      Storable serde buffers now (.ok answer) := by
  have hends : EndsAs crypto serde l now token (.ok answer)
      (.error (.refreshFailed l.serverId .permanent msg), some db') .dead :=
    ⟨⟨answer, rfl, hdead⟩, ⟨msg, rfl⟩, db', rfl, Credentials.fetchRow_deleteRow hdelete⟩
  constructor
  · rintro - _ new ⟨⟩ hcarries
    exact absurd hdead hcarries.not_dead
  · intro _
    refine ⟨_, rfl, ⟨.dead, hends, fun e he => he.unique hends⟩, ?_⟩
    rintro _ new ⟨⟩ hcarries
    exact absurd hdead hcarries.not_dead

/-- Tokens that have been read are stored, unless the expiry is a panic. -/
theorem kept_iff_of_tokens (hcrypto : crypto.Lawful) (hl : l.Concrete) {current : CredentialRow β}
    (hrow : db.fetchRow l = some current) (hbytes : crypto.decrypt bytes = .ok token)
    {answer : HttpAnswer} {new : TokenResponse} (hcarries : answer.Carries serde new)
    (hfits : answer.Fits buffers maxTokenAnswer) :
    Kept crypto serde l now token (.ok answer)
        ((storeOrPanic crypto db l bytes new now).map fun
          | .error e => (.error e, none)
          | .ok db' => (.ok new.accessToken, some db')) ↔
      Storable serde buffers now (.ok answer) := by
  obtain ⟨access, refresh, haccess, hrefresh, hstore⟩ :=
    storeOrPanic_eq hcrypto db l hbytes new now
  rw [hstore]
  constructor
  · rintro ⟨result, hresult, -⟩ _ new' ⟨⟩ hcarries'
    obtain rfl : new = new' := Except.ok.inj (hcarries.tokens.symm.trans hcarries'.tokens)
    refine ⟨hfits, ?_⟩
    obtain ⟨stored, hstored, -⟩ := Option.map_eq_some_iff.mp hresult
    obtain ⟨expiry, hexpiry, -⟩ := Option.map_eq_some_iff.mp hstored
    exact fits_of_expiryOrPanic hexpiry
  · intro hall
    obtain ⟨-, hexpiry⟩ := hall answer new rfl hcarries
    obtain ⟨db', hwrite⟩ :=
      (db.writable hl access (some refresh) (newExpiresAt new.expiresIn now)).1
    have hrow' := Credentials.fetchRow_writeRefreshedRow hwrite
    rw [hrow] at hrow'
    rw [expiryOrPanic_of_fits hexpiry, Option.map_some, hwrite, Option.map_some]
    have hends : EndsAs crypto serde l now token (.ok answer)
        (.ok new.accessToken, some db') .stored :=
      ⟨answer, new, rfl, hcarries, rfl, db', _, refresh, rfl, hrow', haccess, rfl, hrefresh, rfl⟩
    exact ⟨_, rfl, ⟨.stored, hends, fun e he => he.unique hends⟩, fun _ _ _ _ => hends⟩

/--
Whatever the endpoint answers, a refresh that has asked it keeps the answer exactly if, should it
carry tokens, its body fits the buffer and its expiry is a date. A refresh that has not asked changes
nothing. And one that does not panic is `refreshLocked`.
-/
theorem refresh_kept_iff (hcrypto : crypto.Lawful) (hl : l.Concrete) (row : CredentialRow β)
    (cfg : OAuthClientCfg) (now : Int) (serde : Serde) (buffers : Buffers) (http : Http) :
    (∀ bytes token, Calls.recheck crypto db l row cfg now = .ok (.inr (bytes, token)) →
        (Kept crypto serde l now token (http cfg.tokenEndpoint (refreshForm cfg token))
            (refreshOrPanic crypto (oauthRefresh serde buffers http) db l row cfg now) ↔
          Storable serde buffers now (http cfg.tokenEndpoint (refreshForm cfg token)))) ∧
      ((∀ asked, Calls.recheck crypto db l row cfg now ≠ .ok (.inr asked)) →
        ∃ result, refreshOrPanic crypto (oauthRefresh serde buffers http) db l row cfg now =
          some (result, none)) ∧
      ∀ r, refreshOrPanic crypto (oauthRefresh serde buffers http) db l row cfg now = some r →
        refreshLocked crypto (oauthRefresh serde buffers http) db l row cfg now = r := by
  refine ⟨?_, ?_, fun r hr => refreshOrPanic_some hr⟩
  · intro bytes token hask
    obtain ⟨current, hrow, -, hstored⟩ := Calls.recheck_ask hask
    have hbytes := decrypt_of_storedRefreshToken hstored
    unfold refreshOrPanic
    rw [hask]
    dsimp only
    obtain ⟨msg, h, hnone⟩ | ⟨msg, answer, h, hanswer, hdead⟩ |
        ⟨answer, new, h, hanswer, hcarries, hfits⟩ :=
      oauthRefresh_cases serde buffers http cfg token
    · rw [h]
      exact kept_iff_of_transient hnone
    · obtain ⟨db', hdelete⟩ := (db.writable hl bytes none none).2
      rw [h, hanswer]
      dsimp only
      rw [hdelete]
      exact kept_iff_of_dead hdead hdelete
    · rw [h, hanswer]
      exact kept_iff_of_tokens hcrypto hl hrow hbytes hcarries hfits
  · intro hask
    unfold refreshOrPanic
    cases hre : Calls.recheck crypto db l row cfg now with
    | error e => exact ⟨_, rfl⟩
    | ok r =>
      cases r with
      | inl token => exact ⟨_, rfl⟩
      | inr asked => exact absurd hre (hask asked)

end Endings

/-! ## An account that is refreshed -/

/-- The answer to a refresh. -/
def answerText (expiresIn : Nat) : List Char :=
  "\x7b\"access_token\":\"tok-2\",\"refresh_token\":\"ref-2\",\"expires_in\":".toList ++
    Nat.toDigits 10 expiresIn ++ "\x7d".toList

/-- What `serde_json` makes of that text. -/
def answerSerde (expiresIn : Nat) : Serde where
  tokens text :=
    if text = answerText expiresIn then .ok ⟨"tok-2", some "ref-2", some expiresIn⟩
    else .error "expected value at line 1 column 1"
  value _ := none

def tokenAnswer (expiresIn : Nat) : HttpAnswer where
  status := 200
  statusText := "200 OK"
  contentLength := none
  chunks := [⟨Utf8.encode (answerText expiresIn), 0⟩]
  broken := none

/-- 64 MiB a body, and room for 32 times that. -/
def roomy : Buffers := ⟨64 * 2 ^ 20, 2 ^ 31⟩

theorem tokenAnswer_carries (expiresIn : Nat) :
    (tokenAnswer expiresIn).Carries (answerSerde expiresIn)
      ⟨"tok-2", some "ref-2", some expiresIn⟩ where
  success := rfl
  whole := rfl
  tokens := by
    have hbody : (tokenAnswer expiresIn).body = Utf8.encode (answerText expiresIn) :=
      List.append_nil _
    rw [hbody, Utf8.encode, Utf8.decode_encoded]
    exact if_pos rfl

/-- An hour is stored. -/
theorem refresh_kept_hour :
    Kept Calls.github.crypto (answerSerde 3600) Calls.account 950 "ref-1" (.ok (tokenAnswer 3600))
      (refreshOrPanic Calls.github.crypto
        (oauthRefresh (answerSerde 3600) roomy fun _ _ => .ok (tokenAnswer 3600)) Calls.connected
        Calls.account Calls.connectedRow Calls.githubClient 950) := by
  refine ((refresh_kept_iff Calls.lawful_github (show Calls.account.Concrete from rfl)
    Calls.connectedRow Calls.githubClient 950 (answerSerde 3600) roomy
    fun _ _ => .ok (tokenAnswer 3600)).1 "ref-1" "ref-1" rfl).mpr ?_
  rintro _ new ⟨⟩ hcarries
  obtain rfl : new = ⟨"tok-2", some "ref-2", some 3600⟩ :=
    Except.ok.inj (hcarries.tokens.symm.trans (tokenAnswer_carries 3600).tokens)
  refine ⟨⟨nofun, ?_, ?_⟩, ?_⟩
  · decide
  · decide
  · rintro secs ⟨⟩ -
    decide

/-- Ten thousand billion seconds are a panic, after which the row has the token that is spent. -/
theorem far_expiry_lost :
    ¬ ∀ (serde : Serde) (answer : HttpAnswer),
      Kept Calls.github.crypto serde Calls.account 950 "ref-1" (.ok answer)
        (refreshOrPanic Calls.github.crypto (oauthRefresh serde roomy fun _ _ => .ok answer)
          Calls.connected Calls.account Calls.connectedRow Calls.githubClient 950) := by
  intro hall
  obtain ⟨result, hresult, -⟩ := hall (answerSerde (10 ^ 13)) (tokenAnswer (10 ^ 13))
  have hread : oauthRefresh (answerSerde (10 ^ 13)) roomy (fun _ _ => .ok (tokenAnswer (10 ^ 13)))
      Calls.githubClient "ref-1" = .ok ⟨"tok-2", some "ref-2", some (10 ^ 13)⟩ := by
    have hcarries := tokenAnswer_carries (10 ^ 13)
    obtain ⟨msg, -, hnone⟩ | ⟨msg, answer, -, ⟨⟩, hdead⟩ | ⟨answer, new, h, ⟨⟩, hcarries', -⟩ :=
      oauthRefresh_cases (answerSerde (10 ^ 13)) roomy (fun _ _ => .ok (tokenAnswer (10 ^ 13)))
        Calls.githubClient "ref-1"
    · exact absurd ⟨nofun, by decide, by decide⟩ (hnone _ _ rfl hcarries)
    · exact absurd hdead hcarries.not_dead
    · rw [h, Except.ok.inj (hcarries'.tokens.symm.trans hcarries.tokens)]
  have hpanic : refreshOrPanic Calls.github.crypto
      (oauthRefresh (answerSerde (10 ^ 13)) roomy fun _ _ => .ok (tokenAnswer (10 ^ 13)))
      Calls.connected Calls.account Calls.connectedRow Calls.githubClient 950 = none := by
    unfold refreshOrPanic
    rw [show Calls.recheck Calls.github.crypto Calls.connected Calls.account Calls.connectedRow
      Calls.githubClient 950 = .ok (.inr ("ref-1", "ref-1")) from rfl]
    dsimp only
    rw [hread]
    rfl
  rw [hpanic] at hresult
  cases hresult

end ThinkWatch.Mcp
