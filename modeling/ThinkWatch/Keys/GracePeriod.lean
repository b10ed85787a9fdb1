import ThinkWatch.Keys.Authenticate
import ThinkWatch.Keys.Interleaving
import ThinkWatch.Rbac.Handlers

/-!
# How long a rotated key authenticates

A rotation sets the end of the grace window and leaves the old key active. The look-up accepts a key
that is active or has its window open, so that an old key is accepted after its window until the
sweep has turned it off.

`accepted_alive`: in a run in which no request presents a key that is still active after its window
(`GraceSwept`), an accepted key is not deleted, not expired, has an active owner, was never rotated
or has its window open, and is accepted no later than `stops_authenticating_at` says.
`runLifecycleCheck_active`: a sweep leaves no key active whose window has ended before it.
-/

namespace ThinkWatch.Keys

open Lib Policy Rbac

/-! ## The system -/

/-- The tables, and the ids of the keys that have been rotated, which nothing looks at. -/
structure Keyring where
  store : Store
  rotated : List Uuid

/-- The keys of an installation before the first one is created. -/
def Keyring.start (db : Db) : Keyring := ⟨⟨db, [], []⟩, []⟩

/--
What may happen to the keys, in any order and at any times. Where a user is disabled or deleted
`users` is what the request makes of the tables of users and roles.
-/
inductive KeyEvent where
  | create (cfg : KeySettings) (caller : AuthUser) (req : CreateApiKeyRequest) (new : Generated)
      (now : Time)
  | rotate (cfg : KeySettings) (caller : AuthUser) (id : Uuid) (new : Generated) (now : Time)
  | update (caller : AuthUser) (id : Uuid) (req : UpdateKeyRequest) (now : Time)
  | revoke (caller : AuthUser) (id : Uuid) (now : Time)
  | forceRevoke (caller : AuthUser) (id : Uuid) (reason : String) (now : Time)
  | disableUser (reason : String) (user : Uuid) (users : Db) (now : Time)
  | deleteAccount (user : Uuid) (users : Db) (now : Time)
  | otherTables (tables : Db) (credentials : List CredentialKey)
  | sweep (globalDays : Int) (now : Time)
  | markUsed (id : Uuid) (now : Time)
  | gateway (surface : String) (keyUse : KeyUse) (env : KeyRequestEnv) (now : Time)
  | console (token : String) (globalDays : Int) (count : Option Nat) (now : Time)

/-- The system after an event, if its handler succeeds. A request by key changes nothing. -/
def perform (parseUuid : String → Option Uuid) (s : Keyring) : KeyEvent → Except AppError Keyring
  | .create cfg caller req new now => do
    let store ← createKey parseUuid cfg s.store caller req new now
    return { s with store }
  | .rotate cfg caller id new now => do
    let store ← rotateKey cfg s.store caller id new now
    return ⟨store, id :: s.rotated⟩
  | .update caller id req now => do
    let store ← updateKey parseUuid s.store caller id req now
    return { s with store }
  | .revoke caller id now => do
    let store ← revokeKey s.store caller id now
    return { s with store }
  | .forceRevoke caller id reason now => do
    let store ← forceRevokeKey s.store caller id reason now
    return { s with store }
  | .disableUser reason user users now =>
    .ok { s with store := ⟨users, disableKeysOf reason s.store.keys user now, s.store.credentials⟩ }
  | .deleteAccount user users now =>
    .ok { s with store := ⟨users, deleteAccountKeys s.store.keys user now, s.store.credentials⟩ }
  | .otherTables tables credentials => .ok { s with store := ⟨tables, s.store.keys, credentials⟩ }
  | .sweep globalDays now =>
    .ok { s with store.keys := runLifecycleCheck globalDays s.store.keys now }
  | .markUsed id now => .ok { s with store.keys := markUsed s.store.keys id now }
  | .gateway .. => .ok s
  | .console .. => .ok s

/-! ## What is claimed of an accepted key -/

/-- The key may authenticate at `now`. -/
structure Alive (s : Keyring) (now : Time) (k : ApiKey) : Prop where
  row : k ∈ s.store.keys
  notDeleted : k.deletedAt = none
  owner : ∃ u ∈ s.store.tables.users, k.userId = some u.id ∧ u.isActive = true ∧ u.deleted = false
  notExpired : ∀ e, k.expiresAt = some e → now ≤ e
  inGrace : k.id ∉ s.rotated ∨ ∃ ends, k.gracePeriodEndsAt = some ends ∧ now < ends
  reported : ∀ t, stopsAuthenticatingAt k.expiresAt k.gracePeriodEndsAt = some t → now ≤ t

/-- A request that is accepted is accepted for a key that may authenticate. -/
def AcceptsAlive (hashApiKey : String → String) (s : Keyring) : KeyEvent → Prop
  | .gateway surface keyUse env now =>
    ∀ k, authenticate hashApiKey s.store surface keyUse env now = .ok k → Alive s now k
  | .console token globalDays count now =>
    ∀ k, authViaApiKey hashApiKey s.store token globalDays count now = .ok k → Alive s now k
  | _ => True

/-- No row with this hash is still active after its grace window. -/
def SweptFor (s : Keyring) (hash : String) (now : Time) : Prop :=
  ∀ k ∈ s.store.keys, k.keyHash = hash → k.isActive = true →
    ∀ ends, k.gracePeriodEndsAt = some ends → now < ends

/-- The condition on each step: the sweep has seen the key that a request presents. -/
def GraceSwept (hashApiKey : String → String) (s : Keyring) : KeyEvent → Prop
  | .gateway _ _ env now =>
    ∀ token, presentedKey env.presented = some token → SweptFor s (hashApiKey token) now
  | .console token _ _ now => SweptFor s (hashApiKey token) now
  | _ => True

/-! ## Rotated keys have a grace window -/

/-- Rotated keys are in the table, and those that are live have a window. -/
structure Graced (keys : List ApiKey) (rotated : List Uuid) : Prop where
  known : ∀ x ∈ rotated, ∃ k ∈ keys, k.id = x
  window : ∀ k ∈ keys, k.id ∈ rotated → k.live = true → k.gracePeriodEndsAt.isSome = true

/-- A statement that takes no window from a live key. -/
structure KeepsGrace (f : ApiKey → ApiKey) : Prop where
  id : ∀ k, (f k).id = k.id
  live : ∀ k, (f k).live = true → k.live = true
  window : ∀ k, (f k).live = true → (f k).gracePeriodEndsAt = k.gracePeriodEndsAt

section Graced

variable {keys : List ApiKey} {rotated : List Uuid} {p : ApiKey → Bool} {f : ApiKey → ApiKey}

/-- A statement that writes neither column. -/
theorem keepsGrace_of_eq (hid : ∀ k, (f k).id = k.id) (hdel : ∀ k, (f k).deletedAt = k.deletedAt)
    (hends : ∀ k, (f k).gracePeriodEndsAt = k.gracePeriodEndsAt) : KeepsGrace f where
  id := hid
  live k h := by rwa [ApiKey.live, hdel] at h
  window k _ := hends k

/-- A statement that deletes the rows it changes. -/
theorem keepsGrace_of_dead (hid : ∀ k, (f k).id = k.id) (hdead : ∀ k, (f k).live = false) :
    KeepsGrace f where
  id := hid
  live k h := by rw [hdead] at h; cases h
  window k h := by rw [hdead] at h; cases h

theorem Graced.updateWhere (hf : KeepsGrace f) (h : Graced keys rotated) :
    Graced (updateWhere p f keys) rotated where
  known := by
    intro x hx
    obtain ⟨k, hk, rfl⟩ := h.known x hx
    refine ⟨_, mem_updateWhere.mpr ⟨k, hk, rfl⟩, ?_⟩
    split
    next => exact hf.id k
    next => rfl
  window := by
    intro k hk hid hlive
    obtain ⟨k₀, hk₀, rfl⟩ := mem_updateWhere.mp hk
    by_cases hp : p k₀ = true
    · rw [if_pos hp] at hid hlive ⊢
      rw [hf.id] at hid
      rw [hf.window k₀ hlive]
      exact h.window k₀ hk₀ hid (hf.live k₀ hlive)
    · rw [if_neg hp] at hid hlive ⊢
      exact h.window k₀ hk₀ hid hlive

theorem Graced.insert (h : Graced keys rotated) {row : ApiKey}
    (hfresh : ∀ k ∈ keys, k.id ≠ row.id) : Graced (keys ++ [row]) rotated where
  known := by
    intro x hx
    obtain ⟨k, hk, hid⟩ := h.known x hx
    exact ⟨k, List.mem_append_left _ hk, hid⟩
  window := by
    intro k hk hid hlive
    rcases List.mem_append.mp hk with hk | hk
    · exact h.window k hk hid hlive
    · -- a new row has an id that no rotated key has
      rw [List.mem_singleton.mp hk] at hid
      obtain ⟨k', hk', heq⟩ := h.known _ hid
      exact absurd heq (hfresh k' hk')

theorem Graced.rotate (h : Graced keys rotated) {old : ApiKey} {new : Generated}
    {graceEnds now : Time} (hfresh : Fresh keys new) (hrow : ∃ k ∈ keys, k.id = old.id) :
    Graced (rotate keys old new graceEnds now) (old.id :: rotated) := by
  have hinserted : Graced (keys ++ [old.successor new now]) rotated := h.insert hfresh.id
  constructor
  case known =>
    have hkept : ∀ k ∈ keys, ∃ k' ∈ Keys.rotate keys old new graceEnds now, k'.id = k.id := by
      intro k hk
      refine ⟨_, mem_updateWhere.mpr ⟨k, List.mem_append_left _ hk, rfl⟩, ?_⟩
      split
      next => rfl
      next => rfl
    intro x hx
    rcases List.mem_cons.mp hx with rfl | hx
    · obtain ⟨k, hk, hid⟩ := hrow
      rw [← hid]
      exact hkept k hk
    · obtain ⟨k, hk, rfl⟩ := h.known x hx
      exact hkept k hk
  case window =>
    intro k hk hid hlive
    obtain ⟨k₀, hk₀, rfl⟩ := mem_updateWhere.mp hk
    simp only [decide_eq_true_eq] at hid hlive ⊢
    by_cases hold : k₀.id = old.id
    · rw [if_pos hold]
      rfl
    · rw [if_neg hold] at hid hlive ⊢
      exact hinserted.window k₀ hk₀ ((List.mem_cons.mp hid).resolve_left hold) hlive

/-- A sweep, statement by statement. -/
theorem Graced.runLifecycleCheck (globalDays : Int) (now : Time) (h : Graced keys rotated) :
    Graced (runLifecycleCheck globalDays keys now) rotated := by
  have hinactive : KeepsGrace (·.disabledInactive) :=
    keepsGrace_of_eq (fun _ => rfl) (fun _ => rfl) (fun _ => rfl)
  have hexpired : Graced (disableExpired keys now) rotated :=
    h.updateWhere (keepsGrace_of_eq (fun _ => rfl) (fun _ => rfl) (fun _ => rfl))
  have hglobal : Graced (disableInactive globalDays (disableExpired keys now) now) rotated := by
    unfold disableInactive
    split
    next => exact hexpired.updateWhere hinactive
    next => exact hexpired
  have hperKey : Graced (disableInactivePerKey
      (disableInactive globalDays (disableExpired keys now) now) now) rotated :=
    hglobal.updateWhere hinactive
  have hgrace : Graced (revokePastGrace (disableInactivePerKey
      (disableInactive globalDays (disableExpired keys now) now) now) now) rotated :=
    hperKey.updateWhere (keepsGrace_of_eq (fun _ => rfl) (fun _ => rfl) (fun _ => rfl))
  exact hgrace.updateWhere (keepsGrace_of_eq (fun _ => rfl) (fun _ => rfl) (fun _ => rfl))

end Graced

/-! ## One event -/

section Event

variable {parseUuid : String → Option Uuid} {s s' : Keyring} {e : KeyEvent} {st st' : Store}
  {caller : AuthUser} {id : Uuid} {now : Time}

theorem createKey_ok {cfg : KeySettings} {req : CreateApiKeyRequest} {new : Generated}
    (h : createKey parseUuid cfg st caller req new now = .ok st') :
    Fresh st.keys new ∧ ∃ row : ApiKey, row.id = new.id ∧ st'.keys = st.keys ++ [row] := by
  unfold createKey at h
  simp only [bind_ok, pure_ok] at h
  obtain ⟨_, -, _, -, _, -, _, -, _, -, _, -, _, hfresh, rfl⟩ := h
  exact ⟨checkFresh_ok hfresh, _, rfl, rfl⟩

theorem updateKey_ok {req : UpdateKeyRequest}
    (h : updateKey parseUuid st caller id req now = .ok st') :
    ∃ patch, st'.keys = update st.keys id patch := by
  unfold updateKey at h
  simp only [bind_ok, pure_ok] at h
  obtain ⟨_, -, _, -, ⟨_, patch⟩, -, keys, hkeys, rfl⟩ := h
  exact ⟨patch, updateKeyWrite_ok hkeys⟩

theorem revokeKey_ok (h : revokeKey st caller id now = .ok st') :
    st'.keys = revokeWith "revoked" st.keys id now := by
  unfold revokeKey at h
  simp only [bind_ok, pure_ok] at h
  obtain ⟨_, -, _, -, keys, hkeys, rfl⟩ := h
  exact revokeLive_ok hkeys

theorem forceRevokeKey_ok {reason : String} (h : forceRevokeKey st caller id reason now = .ok st') :
    st'.keys = revokeWith (forceRevokedTag reason) st.keys id now := by
  unfold forceRevokeKey at h
  simp only [bind_ok, pure_ok] at h
  obtain ⟨_, -, keys, hkeys, rfl⟩ := h
  exact revokeLive_ok hkeys

theorem rotateKey_ok {cfg : KeySettings} {new : Generated}
    (h : rotateKey cfg st caller id new now = .ok st') :
    ∃ old : ApiKey, old.id = id ∧ Fresh st.keys new ∧ (∃ k ∈ st.keys, k.id = old.id) ∧
      st'.keys = rotate st.keys old new (now + hours cfg.rotationGracePeriodHours) now := by
  unfold rotateKey at h
  simp only [bind_ok, pure_ok] at h
  obtain ⟨_, -, _, -, old, hold, keys, hkeys, rfl⟩ := h
  obtain ⟨hfresh, hrow, rfl⟩ := rotateKeyWrite_ok hkeys
  exact ⟨old, (rotateKeyLoad_ok hold).2.1, hfresh, hrow, rfl⟩

theorem graced_perform (h : Graced s.store.keys s.rotated)
    (hstep : perform parseUuid s e = .ok s') : Graced s'.store.keys s'.rotated := by
  cases e with
  | create cfg caller req new now =>
    simp only [perform, bind_ok, pure_ok] at hstep
    obtain ⟨store, hstore, rfl⟩ := hstep
    obtain ⟨hfresh, row, hid, hkeys⟩ := createKey_ok hstore
    show Graced store.keys s.rotated
    rw [hkeys]
    exact h.insert (hid ▸ hfresh.id)
  | rotate cfg caller id new now =>
    simp only [perform, bind_ok, pure_ok] at hstep
    obtain ⟨store, hstore, rfl⟩ := hstep
    obtain ⟨old, rfl, hfresh, hrow, hkeys⟩ := rotateKey_ok hstore
    show Graced store.keys (old.id :: s.rotated)
    rw [hkeys]
    exact h.rotate hfresh hrow
  | update caller id req now =>
    simp only [perform, bind_ok, pure_ok] at hstep
    obtain ⟨store, hstore, rfl⟩ := hstep
    obtain ⟨patch, hkeys⟩ := updateKey_ok hstore
    show Graced store.keys s.rotated
    rw [hkeys]
    exact h.updateWhere (keepsGrace_of_eq (fun _ => rfl) (fun _ => rfl) (fun _ => rfl))
  | revoke caller id now =>
    simp only [perform, bind_ok, pure_ok] at hstep
    obtain ⟨store, hstore, rfl⟩ := hstep
    show Graced store.keys s.rotated
    rw [revokeKey_ok hstore]
    exact h.updateWhere (keepsGrace_of_dead (fun _ => rfl) (fun _ => rfl))
  | forceRevoke caller id reason now =>
    simp only [perform, bind_ok, pure_ok] at hstep
    obtain ⟨store, hstore, rfl⟩ := hstep
    show Graced store.keys s.rotated
    rw [forceRevokeKey_ok hstore]
    exact h.updateWhere (keepsGrace_of_dead (fun _ => rfl) (fun _ => rfl))
  | disableUser reason user users now =>
    cases hstep
    exact h.updateWhere (keepsGrace_of_dead (fun _ => rfl) (fun _ => rfl))
  | deleteAccount user users now =>
    cases hstep
    exact h.updateWhere (keepsGrace_of_dead (fun _ => rfl) (fun _ => rfl))
  | otherTables tables credentials =>
    cases hstep
    exact h
  | sweep globalDays now =>
    cases hstep
    exact h.runLifecycleCheck globalDays now
  | markUsed id now =>
    cases hstep
    exact h.updateWhere (keepsGrace_of_eq (fun _ => rfl) (fun _ => rfl) (fun _ => rfl))
  | gateway surface keyUse env now =>
    cases hstep
    exact h
  | console token globalDays count now =>
    cases hstep
    exact h

/-- After a sweep, a key that is still active has no window that ended before it. -/
theorem runLifecycleCheck_active {globalDays : Int} {keys : List ApiKey} {k : ApiKey}
    (hk : k ∈ runLifecycleCheck globalDays keys now) (hactive : k.isActive = true) (ends : Time)
    (hends : k.gracePeriodEndsAt = some ends) : now ≤ ends := by
  obtain ⟨k₀, hk₀, hwarned⟩ := mem_updateWhere.mp hk
  -- the warnings change neither column
  have hsame : k.isActive = k₀.isActive ∧ k.gracePeriodEndsAt = k₀.gracePeriodEndsAt := by
    rw [hwarned]
    split
    next => exact ⟨rfl, rfl⟩
    next => exact ⟨rfl, rfl⟩
  rw [hsame.1] at hactive
  rw [hsame.2] at hends
  obtain ⟨k₁, -, hrevoked⟩ := mem_updateWhere.mp hk₀
  split at hrevoked
  next =>
    rw [hrevoked] at hactive
    cases hactive
  next hkept =>
    subst hrevoked
    simpa [hactive, ApiKey.pastGrace, hends] using hkept

/-- What the look-up establishes, with the condition and the windows of rotated keys. -/
theorem Found.alive {hash : String} {k : ApiKey} (hfound : Found s.store hash now k)
    (h : Graced s.store.keys s.rotated) (hswept : SweptFor s hash now) : Alive s now k := by
  have hwindow : ∀ ends, k.gracePeriodEndsAt = some ends → now < ends := by
    intro ends hends
    rcases hfound.open_ with hactive | hgrace
    · -- the statement alone says nothing about the window of an active key
      exact hswept k hfound.row hfound.hash hactive ends hends
    · simpa [ApiKey.inGrace, hends] using hgrace
  have hexpiry : ∀ e, k.expiresAt = some e → now ≤ e := by
    intro e he
    simpa [ApiKey.expired, he] using hfound.notExpired
  refine ⟨hfound.row, Option.isNone_iff_eq_none.mp hfound.live, ?_, hexpiry, ?_, ?_⟩
  · have howner := hfound.owner
    simp only [ownerActive, List.any_eq_true, Bool.and_eq_true, decide_eq_true_eq,
      Bool.not_eq_true'] at howner
    obtain ⟨u, hu, ⟨huser, hactive⟩, hdeleted⟩ := howner
    exact ⟨u, hu, huser, hactive, hdeleted⟩
  · by_cases hrotated : k.id ∈ s.rotated
    · obtain ⟨ends, hends⟩ :=
        Option.isSome_iff_exists.mp (h.window k hfound.row hrotated hfound.live)
      exact Or.inr ⟨ends, hends, hwindow ends hends⟩
    · exact Or.inl hrotated
  · intro t ht
    unfold stopsAuthenticatingAt at ht
    split at ht
    next a b ha hb =>
      cases ht
      exact le_min (hexpiry a ha) (hwindow b hb).le
    next =>
      cases ha : k.expiresAt with
      | some a =>
        rw [ha] at ht
        cases ht
        exact hexpiry _ ha
      | none =>
        rw [ha] at ht
        exact (hwindow t ht).le

theorem acceptsAlive_of_swept {hashApiKey : String → String} (h : Graced s.store.keys s.rotated)
    (hswept : GraceSwept hashApiKey s e) : AcceptsAlive hashApiKey s e := by
  cases e with
  | gateway surface keyUse env now =>
    intro k hk
    obtain ⟨token, htoken, hfound⟩ := authenticate_ok hk
    exact hfound.alive h (hswept token htoken)
  | console token globalDays count now =>
    intro k hk
    exact (authViaApiKey_ok hk).alive h hswept
  | _ => trivial

end Event

/-! ## Main result -/

theorem graced_start (db : Db) : Graced (Keyring.start db).store.keys (Keyring.start db).rotated where
  known _ hx := absurd hx List.not_mem_nil
  window _ hk := absurd hk List.not_mem_nil

/--
In a run from an empty table in which the sweep has turned off a key before it is presented after
its grace window, every key that is accepted may authenticate.
-/
theorem accepted_alive {parseUuid : String → Option Uuid} {hashApiKey : String → String} {db : Db}
    {s : Keyring} {es : List KeyEvent}
    (hrun : Steps (fun s e s' => GraceSwept hashApiKey s e ∧ perform parseUuid s e = .ok s')
      (.start db) es s) :
    Steps (fun s e s' => AcceptsAlive hashApiKey s e ∧ perform parseUuid s e = .ok s')
      (.start db) es s := by
  refine hrun.under (I := fun s => Graced s.store.keys s.rotated) ?_ (graced_start db)
  rintro s e s' hs ⟨hswept, hstep⟩
  exact ⟨graced_perform hs hstep, acceptsAlive_of_swept hs hswept, hstep⟩

/-! ## Two runs -/

/-- User 1 may use the AI gateway. -/
def gatewayDb : Db where
  users := [⟨1, "dev@example.com", "Dev", "", false, true, false⟩]
  teams := []
  roles := [⟨1, "developer", true, allowDocument "Gateway" (actionList ["ai_gateway:use"])⟩]
  assignments := [⟨1, 1, .global⟩]
  members := []
  teamRoles := []

def gatewayUser : AuthUser := ⟨1, ["api_keys:create", "api_keys:rotate"], []⟩

def dayOfGrace : KeySettings := ⟨0, 0, 0, 24⟩

def ciKey : CreateApiKeyRequest := ⟨"ci", ["ai_gateway"], none, none, none, none, none⟩

/-- A call with the key "tw-old". -/
def oldKeyCall : KeyRequestEnv := ⟨⟨some "tw-old", none, none, none⟩, 0, true, true⟩

/-- The key is created, and rotated after an hour with a day of grace. -/
def rotateEvents : List KeyEvent :=
  [.create dayOfGrace gatewayUser ciKey ⟨10, "tw-00000", "tw-old"⟩ 0,
    .rotate dayOfGrace gatewayUser 10 ⟨11, "tw-00001", "tw-new"⟩ (hours 1)]

/-- The old key after that. -/
def oldKey : ApiKey := (plainKey 10 1 "tw-old").rotated (hours 25)

def rotatedKeyring : Keyring :=
  ⟨⟨gatewayDb, [oldKey, (plainKey 10 1 "tw-old").successor ⟨11, "tw-00001", "tw-new"⟩ (hours 1)],
    []⟩, [10]⟩

/-- As long as no sweep has come, the old key is accepted at any time. -/
theorem oldKey_accepted (now : Time) :
    authenticate id rotatedKeyring.store "ai_gateway" .call oldKeyCall now = .ok oldKey := by
  rfl

/-- The old key is presented ten hours after the rotation. -/
theorem accepted_alive_in_grace :
    Steps (fun s e s' => AcceptsAlive id s e ∧ perform (fun _ => none) s e = .ok s')
      (.start gatewayDb) (rotateEvents ++ [.gateway "ai_gateway" .call oldKeyCall (hours 11)])
      rotatedKeyring := by
  refine accepted_alive (.cons ⟨trivial, rfl⟩ (.cons ⟨trivial, rfl⟩ (.single ⟨?_, rfl⟩)))
  intro token htoken k hk hhash hactive ends hends
  have htw : token = "tw-old" := (Option.some.inj htoken).symm
  rcases List.mem_cons.mp hk with rfl | hk
  · have heq : ends = hours 25 := (Option.some.inj hends).symm
    rw [heq]
    decide
  · rw [List.mem_singleton.mp hk, htw] at hhash
    exact absurd hhash (by decide)

/-- The old key is presented a hundred hours after the rotation, and no sweep has come. -/
theorem accepted_after_grace :
    ¬ ∀ (parseUuid : String → Option Uuid) (hashApiKey : String → String) (db : Db) (s : Keyring)
      (es : List KeyEvent),
      Steps (fun s e s' => perform parseUuid s e = .ok s') (.start db) es s →
        Steps (fun s e s' => AcceptsAlive hashApiKey s e ∧ perform parseUuid s e = .ok s')
          (.start db) es s := by
  intro hall
  have hrun := hall (fun _ => none) id gatewayDb rotatedKeyring
    (rotateEvents ++ [.gateway "ai_gateway" .call oldKeyCall (hours 101)])
    (.cons rfl (.cons rfl (.single rfl)))
  cases hrun with
  | cons hcreate hrest =>
    cases hcreate.2
    cases hrest with
    | cons hrotate hrest =>
      cases hrotate.2
      cases hrest with
      | cons hcall _ =>
        rcases (hcall.1 oldKey (oldKey_accepted _)).inGrace with hnot | ⟨ends, hends, hlt⟩
        · exact hnot List.mem_cons_self
        · have heq : ends = hours 25 := (Option.some.inj hends).symm
          rw [heq] at hlt
          exact absurd hlt (by decide)

end ThinkWatch.Keys
