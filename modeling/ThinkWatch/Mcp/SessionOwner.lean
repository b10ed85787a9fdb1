import ThinkWatch.Lib.Run
import ThinkWatch.Mcp.Session

/-!
# Whose session a request uses

`POST /mcp` and `DELETE /mcp` of `transport/streamable_http.rs`, with the part of
`handle_tools_call` that reads and stores the session id of an upstream server. A session has the
user who created it, and no request compares that user with its caller: a request may name any
session that exists.

`sessions_per_user`: in a run in which each request names a session that is not found or that its
caller has created (`OwnSession`), the upstream session id that a call carries was returned to an
earlier request of the same user, and no request changes a session of another user.
-/

namespace ThinkWatch.Mcp

open Lib

/-! ## The handlers -/

/-- A `tools/call` that reaches the server, and the session id in the answer. -/
structure UpstreamCall where
  server : Uuid
  returned : Option String
deriving DecidableEq, Repr

namespace SessionManager

/-- The session of a request: the one it names, if it is found, or a new one. -/
def resolveSession (m : SessionManager) (user : Uuid) (header : Option String) (newId : String)
    (now ttl : Int) : Option (String × SessionManager) :=
  match header with
  | some sid =>
    match m.getSession sid now with
    | (some _, m) => some (sid, m.updateActivity sid now ttl)
    | (none, _) => none
  | none => some (newId, m.createSession newId user now ttl)

/-- The upstream session id that goes with the call, and the manager after the answer. -/
def callUpstream (m : SessionManager) (sid : String) (call : UpstreamCall) (now ttl : Int) :
    Option String × SessionManager :=
  let (attached, m) := m.getUpstreamSession sid call.server now
  match call.returned with
  | some returned => (attached, m.setUpstreamSession sid call.server returned now ttl)
  | none => (attached, m)

/--
`handle_post`, where `call` is there if the request is a `tools/call` that passes the access list,
the limits, the cache and the breaker; `none` is the answer "Unknown session".
-/
def handlePost (m : SessionManager) (user : Uuid) (header : Option String) (newId : String)
    (call : Option UpstreamCall) (now ttl : Int) : Option (Option String × SessionManager) :=
  match m.resolveSession user header newId now ttl with
  | some (sid, m) =>
    match call with
    | some call => some (m.callUpstream sid call now ttl)
    | none => some (none, m)
  | none => none

/-- `handle_delete`. -/
def handleDelete (m : SessionManager) (header : Option String) : SessionManager :=
  match header with
  | some sid => m.removeSession sid
  | none => m

end SessionManager

/-! ## The system -/

/--
The maps of the gateway's processes and Redis. Nothing looks at the last two: who created each
session, and what the servers have returned to each user.
-/
structure Gateway where
  cached : Nat → String → Option McpSession
  redis : Store String McpSession
  created : List (String × Uuid)
  returned : List (Uuid × Uuid × String)

namespace Gateway

def start : Gateway := ⟨fun _ _ => none, .empty, [], []⟩

/-- Process `r`. -/
def manager (g : Gateway) (r : Nat) : SessionManager := ⟨g.cached r, g.redis⟩

def setManager (g : Gateway) (r : Nat) (m : SessionManager) : Gateway :=
  { g with cached := Function.update g.cached r m.cached, redis := m.redis }

@[simp] theorem setManager_self (g : Gateway) (r : Nat) (m : SessionManager) :
    (g.setManager r m).cached r = m.cached := Function.update_self ..

theorem setManager_ne (g : Gateway) {r r' : Nat} (h : r' ≠ r) (m : SessionManager) :
    (g.setManager r m).cached r' = g.cached r' := Function.update_of_ne h ..

end Gateway

inductive Request where
  | post (r : Nat) (user : Uuid) (header : Option String) (newId : String)
      (call : Option UpstreamCall) (now ttl : Int)
  | delete (r : Nat) (user : Uuid) (header : Option String) (now : Int)
  /-- The sweep of a process, which no user asks for. -/
  | cleanup (r : Nat) (maxAge now : Int)

/-- The sessions that are there after a POST: the new one, if the request has named none. -/
def createdAfter (g : Gateway) (user : Uuid) (header : Option String) (newId : String) :
    List (String × Uuid) :=
  match header with
  | some _ => g.created
  | none => (newId, user) :: g.created

/-- What the servers have returned after a POST. -/
def returnedAfter (g : Gateway) (user : Uuid) (call : Option UpstreamCall) :
    List (Uuid × Uuid × String) :=
  match call with
  | some ⟨server, some sid⟩ => (user, server, sid) :: g.returned
  | _ => g.returned

/-- One request. The id of a new session is one that no session has had. -/
inductive Step : Gateway → Request → Gateway → Prop where
  | post {g : Gateway} {r : Nat} {user : Uuid} {header : Option String} {newId : String}
      {call : Option UpstreamCall} {now ttl : Int} {attached : Option String} {m : SessionManager}
      (fresh : header = none → ∀ v, (newId, v) ∉ g.created)
      (ok : (g.manager r).handlePost user header newId call now ttl = some (attached, m)) :
      Step g (.post r user header newId call now ttl)
        { g.setManager r m with
          created := createdAfter g user header newId, returned := returnedAfter g user call }
  | unknown {g : Gateway} {r : Nat} {user : Uuid} {header : Option String} {newId : String}
      {call : Option UpstreamCall} {now ttl : Int}
      (refused : (g.manager r).handlePost user header newId call now ttl = none) :
      Step g (.post r user header newId call now ttl) g
  | delete {g : Gateway} {r : Nat} {user : Uuid} {header : Option String} {now : Int} :
      Step g (.delete r user header now) (g.setManager r ((g.manager r).handleDelete header))
  | cleanup {g : Gateway} {r : Nat} {maxAge now : Int} :
      Step g (.cleanup r maxAge now) (g.setManager r ((g.manager r).cleanupExpired maxAge now))

/-! ## What is claimed -/

/-- The id that a call carries is one that the server has returned to the user before. -/
def AttachesOwn (g : Gateway) : Request → Prop
  | .post r user header newId (some call) now ttl => ∀ sid m,
      (g.manager r).handlePost user header newId (some call) now ttl = some (some sid, m) →
        (user, call.server, sid) ∈ g.returned
  | _ => True

/-- The sessions of users other than `user` are everywhere as they were. -/
def LeavesOthers (g g' : Gateway) (user : Uuid) (now : Int) : Prop :=
  ∀ id v, (id, v) ∈ g.created → v ≠ user →
    (∀ r, g'.cached r id = g.cached r id) ∧ ∀ t, now ≤ t → g'.redis.get t id = g.redis.get t id

def PerUser (g : Gateway) (a : Request) (g' : Gateway) : Prop :=
  AttachesOwn g a ∧
    match a with
    | .post _ user _ _ _ now _ => LeavesOthers g g' user now
    | .delete _ user _ now => LeavesOthers g g' user now
    | .cleanup .. => True

/-- The session that is found under the id is one of the user. -/
def Owns (g : Gateway) (r : Nat) (user : Uuid) (sid : String) (now : Int) : Prop :=
  ∀ s, ((g.manager r).getSession sid now).1 = some s → s.userId = user

/-- The condition on each request. -/
def OwnSession (g : Gateway) : Request → Prop
  | .post r user (some sid) _ _ now _ => Owns g r user sid now
  | .delete r user (some sid) now => Owns g r user sid now
  | _ => True

/-! ## The copies of a session -/

section Copies

variable {created created₂ : List (String × Uuid)} {returned returned₂ : List (Uuid × Uuid × String)}
  {m : SessionManager} {id sid newId : String} {user : Uuid} {header : Option String}
  {now ttl : Int} {s : McpSession}

/-- A copy has the user who created the session, and ids that were returned to that user. -/
structure Genuine (created : List (String × Uuid)) (returned : List (Uuid × Uuid × String))
    (id : String) (s : McpSession) : Prop where
  creator : (id, s.userId) ∈ created
  upstream : ∀ {server sid}, s.upstreamSessions server = some sid → (s.userId, server, sid) ∈ returned

/-- A session has one creator. -/
def OneCreator (created : List (String × Uuid)) : Prop :=
  ∀ id v v', (id, v) ∈ created → (id, v') ∈ created → v = v'

theorem Genuine.mono (h : Genuine created returned id s) (hc : created ⊆ created₂)
    (hr : returned ⊆ returned₂) : Genuine created₂ returned₂ id s :=
  ⟨hc h.creator, fun hs => hr (h.upstream hs)⟩

theorem genuine_mono (h : m.Backed (Genuine created returned)) (hc : created ⊆ created₂)
    (hr : returned ⊆ returned₂) : m.Backed (Genuine created₂ returned₂) :=
  ⟨fun hs => (h.cached hs).mono hc hr, fun he => (h.redis he).mono hc hr⟩

theorem Genuine.touched (h : Genuine created returned id s) (now : Int) :
    Genuine created returned id (s.touched now) :=
  ⟨h.creator, h.upstream⟩

theorem Genuine.withUpstream {server : Uuid} (h : Genuine created returned id s)
    (hnew : (s.userId, server, sid) ∈ returned) :
    Genuine created returned id (s.withUpstream server sid) where
  creator := h.creator
  upstream := by
    intro server' sid' hs'
    by_cases hserver : server' = server
    · subst hserver
      rw [McpSession.withUpstream_self] at hs'
      cases hs'
      exact hnew
    · rw [McpSession.withUpstream_ne _ hserver] at hs'
      exact h.upstream hs'

/-- The session of a request is one of its caller, and the copies stay genuine. -/
theorem resolveSession_genuine {m' : SessionManager}
    (h : m.Backed (Genuine created returned))
    (howns : ∀ sid, header = some sid → ∀ s, (m.getSession sid now).1 = some s → s.userId = user)
    (hcreated : created ⊆ created₂) (hnew : header = none → (newId, user) ∈ created₂)
    (hok : m.resolveSession user header newId now ttl = some (sid, m')) :
    (sid, user) ∈ created₂ ∧ m'.Backed (Genuine created₂ returned) := by
  have h₂ := genuine_mono h hcreated (List.Subset.refl returned)
  unfold SessionManager.resolveSession at hok
  cases header with
  | none =>
    cases hok
    refine ⟨hnew rfl, h₂.createSession ⟨hnew rfl, ?_⟩⟩
    intro server sid' hs
    cases hs
  | some sid' =>
    dsimp only at hok
    split at hok
    next s m₁ hget =>
      cases hok
      have hs : (m.getSession sid now).1 = some s := congrArg Prod.fst hget
      have hm : m₁ = (m.getSession sid now).2 := (congrArg Prod.snd hget).symm
      refine ⟨?_, ?_⟩
      · rw [← howns sid rfl s hs]
        exact (h₂.of_getSession hs).creator
      · rw [hm]
        exact h₂.getSession.modify fun s' hs' => (h₂.getSession.cached hs').touched now
    next => cases hok

/-- What a call to the server carries and stores. -/
theorem callUpstream_genuine {call : UpstreamCall} (now ttl : Int)
    (h : m.Backed (Genuine created returned))
    (hone : OneCreator created) (hsid : (sid, user) ∈ created) (hr : returned ⊆ returned₂)
    (hnew : ∀ x, call.returned = some x → (user, call.server, x) ∈ returned₂) :
    (∀ x, (m.callUpstream sid call now ttl).1 = some x → (user, call.server, x) ∈ returned) ∧
      (m.callUpstream sid call now ttl).2.Backed (Genuine created returned₂) := by
  have hget : (m.getSession sid now).2.Backed (Genuine created returned) := h.getSession
  have hattached : (m.callUpstream sid call now ttl).1 =
      (m.getSession sid now).1.bind fun s => s.upstreamSessions call.server := by
    unfold SessionManager.callUpstream SessionManager.getUpstreamSession
    cases call.returned with
    | none => rfl
    | some x => rfl
  constructor
  · intro x hx
    rw [hattached, Option.bind_eq_some_iff] at hx
    obtain ⟨s, hs, hup⟩ := hx
    have hgenuine := h.of_getSession hs
    rw [hone _ _ _ hsid hgenuine.creator]
    exact hgenuine.upstream hup
  · have hget₂ := genuine_mono hget (List.Subset.refl created) hr
    unfold SessionManager.callUpstream SessionManager.getUpstreamSession
    cases hret : call.returned with
    | none => exact hget₂
    | some x =>
      show ((m.getSession sid now).2.setUpstreamSession sid call.server x now ttl).Backed _
      unfold SessionManager.setUpstreamSession
      split
      next =>
        refine hget₂.modify fun s hs => (hget₂.cached hs).withUpstream ?_
        rw [← hone _ _ _ hsid (hget₂.cached hs).creator]
        exact hnew x hret
      next => exact hget₂

end Copies

/-! ## One request -/

section Step

variable {g g' : Gateway} {a : Request} {r : Nat} {user : Uuid} {header attached : Option String}
  {newId sid id : String} {call : Option UpstreamCall} {now ttl : Int} {m : SessionManager}

/-- Every copy is genuine, and a session has one creator. -/
structure Owned (g : Gateway) : Prop where
  copies : ∀ r, (g.manager r).Backed (Genuine g.created g.returned)
  one : OneCreator g.created

theorem owned_start : Owned .start where
  copies _ := ⟨nofun, nofun⟩
  one := nofun

/-- A process changes its map and Redis. -/
theorem Owned.setManager (h : Owned g) {created : List (String × Uuid)}
    {returned : List (Uuid × Uuid × String)} (hm : m.Backed (Genuine created returned))
    (hcreated : g.created ⊆ created) (hreturned : g.returned ⊆ returned)
    (hone : OneCreator created) :
    Owned { g.setManager r m with created := created, returned := returned } where
  copies r' := by
    refine ⟨fun {id s} hs => ?_, fun he => hm.redis he⟩
    by_cases hr : r' = r
    · subst hr
      have hs' : m.cached id = some s := by
        simpa [Gateway.manager, Gateway.setManager] using hs
      exact hm.cached hs'
    · have hs' : (g.manager r').cached id = some s := by
        simpa [Gateway.manager, Gateway.setManager, Function.update_of_ne hr] using hs
      exact ((h.copies r').cached hs').mono hcreated hreturned
  one := hone

theorem createdAfter_subset : g.created ⊆ createdAfter g user header newId := by
  unfold createdAfter
  cases header with
  | none => exact List.subset_cons_self ..
  | some sid => exact List.Subset.refl _

theorem returnedAfter_subset : g.returned ⊆ returnedAfter g user call := by
  unfold returnedAfter
  split
  next => exact List.subset_cons_self ..
  next => exact List.Subset.refl _

theorem OneCreator.createdAfter (h : OneCreator g.created)
    (hfresh : header = none → ∀ v, (newId, v) ∉ g.created) :
    OneCreator (createdAfter g user header newId) := by
  cases header with
  | some sid => exact h
  | none =>
    have hnew := hfresh rfl
    intro id v v' hv hv'
    rcases List.mem_cons.mp hv with heq | hv
    · cases heq
      rcases List.mem_cons.mp hv' with heq' | hv'
      · cases heq'
        rfl
      · exact absurd hv' (hnew v')
    · rcases List.mem_cons.mp hv' with heq' | hv'
      · cases heq'
        exact absurd hv (hnew v)
      · exact h id v v' hv hv'

/-- A POST that is answered has a session, and calls the server or not. -/
theorem handlePost_cases (hok : m.handlePost user header newId call now ttl = some (attached, m')) :
    ∃ sid m₁, m.resolveSession user header newId now ttl = some (sid, m₁) ∧
      ((call = none ∧ attached = none ∧ m' = m₁) ∨
        ∃ c, call = some c ∧ m₁.callUpstream sid c now ttl = (attached, m')) := by
  unfold SessionManager.handlePost at hok
  split at hok
  next sid m₁ hresolve =>
    refine ⟨sid, m₁, hresolve, ?_⟩
    cases call with
    | none =>
      cases hok
      exact Or.inl ⟨rfl, rfl, rfl⟩
    | some c => exact Or.inr ⟨c, rfl, Option.some.inj hok⟩
  next => cases hok

theorem owns_of_ownSession (hown : OwnSession g (.post r user header newId call now ttl)) :
    ∀ sid, header = some sid →
      ∀ s, ((g.manager r).getSession sid now).1 = some s → s.userId = user := by
  rintro sid rfl
  exact hown

/-- What a POST attaches and leaves in the stores. -/
theorem post_genuine (h : Owned g) (hown : OwnSession g (.post r user header newId call now ttl))
    (hfresh : header = none → ∀ v, (newId, v) ∉ g.created)
    (hok : (g.manager r).handlePost user header newId call now ttl = some (attached, m)) :
    (∀ c, call = some c → ∀ x, attached = some x → (user, c.server, x) ∈ g.returned) ∧
      m.Backed (Genuine (createdAfter g user header newId) (returnedAfter g user call)) := by
  obtain ⟨sid, m₁, hresolve, hcall⟩ := handlePost_cases hok
  have hnew : header = none → (newId, user) ∈ createdAfter g user header newId := by
    rintro rfl
    exact List.mem_cons_self
  obtain ⟨hsid, hm₁⟩ := resolveSession_genuine (h.copies r) (owns_of_ownSession hown)
    createdAfter_subset hnew hresolve
  rcases hcall with ⟨rfl, rfl, rfl⟩ | ⟨c, rfl, hcall⟩
  · exact ⟨nofun, hm₁⟩
  · have hret : ∀ x, c.returned = some x →
        (user, c.server, x) ∈ returnedAfter g user (some c) := by
      obtain ⟨server, ret⟩ := c
      rintro x rfl
      exact List.mem_cons_self
    obtain ⟨hattached, hm⟩ := callUpstream_genuine now ttl hm₁
      (h.one.createdAfter hfresh) hsid returnedAfter_subset hret
    rw [hcall] at hattached hm
    refine ⟨?_, hm⟩
    rintro c' hc' x hx
    cases hc'
    exact hattached x hx

/-- A POST leaves the stores as they are under an id that is not its session's. -/
theorem resolveSession_sameAt {m₁ : SessionManager}
    (hok : m.resolveSession user header newId now ttl = some (sid, m₁)) (hid : id ≠ sid) :
    m.SameAt m₁ id := by
  unfold SessionManager.resolveSession at hok
  cases header with
  | none =>
    cases hok
    exact SessionManager.createSession_sameAt hid
  | some sid' =>
    dsimp only at hok
    split at hok
    next s m₂ hget =>
      cases hok
      have hm : m₂ = (m.getSession sid now).2 := (congrArg Prod.snd hget).symm
      rw [hm]
      exact (SessionManager.getSession_sameAt hid).trans (SessionManager.modify_sameAt hid)
    next => cases hok

theorem callUpstream_sameAt {c : UpstreamCall} (hid : id ≠ sid) :
    m.SameAt (m.callUpstream sid c now ttl).2 id := by
  unfold SessionManager.callUpstream SessionManager.getUpstreamSession
  cases c.returned with
  | none => exact SessionManager.getSession_sameAt hid
  | some x =>
    show m.SameAt ((m.getSession sid now).2.setUpstreamSession sid c.server x now ttl) id
    unfold SessionManager.setUpstreamSession
    split
    next => exact (SessionManager.getSession_sameAt hid).trans (SessionManager.modify_sameAt hid)
    next => exact SessionManager.getSession_sameAt hid

/-- What a process leaves as it is under an id is the same everywhere. -/
theorem setManager_sameAt (h : (g.manager r).SameAt m id) :
    (∀ r', (g.setManager r m).cached r' id = g.cached r' id) ∧
      ∀ t, now ≤ t → (g.setManager r m).redis.get t id = g.redis.get t id := by
  obtain ⟨hcached, hredis⟩ := h
  refine ⟨fun r' => ?_, fun t _ => Store.get_congr hredis t⟩
  by_cases hr : r' = r
  · subst hr
    rw [Gateway.setManager_self]
    exact hcached
  · rw [Gateway.setManager_ne g hr]

/-- The session of a POST is not one of another user. -/
theorem post_leavesOthers (h : Owned g)
    (hown : OwnSession g (.post r user header newId call now ttl))
    (hfresh : header = none → ∀ v, (newId, v) ∉ g.created)
    (hok : (g.manager r).handlePost user header newId call now ttl = some (attached, m)) :
    LeavesOthers g (g.setManager r m) user now := by
  intro id v hv hne
  refine setManager_sameAt ?_
  obtain ⟨sid, m₁, hresolve, hcall⟩ := handlePost_cases hok
  have hnew : header = none → (newId, user) ∈ createdAfter g user header newId := by
    rintro rfl
    exact List.mem_cons_self
  obtain ⟨hsid, -⟩ := resolveSession_genuine (h.copies r) (owns_of_ownSession hown)
    createdAfter_subset hnew hresolve
  have hid : id ≠ sid := by
    rintro rfl
    exact hne (h.one.createdAfter hfresh _ _ _ (createdAfter_subset hv) hsid)
  rcases hcall with ⟨-, -, rfl⟩ | ⟨c, -, hcall⟩
  · exact resolveSession_sameAt hresolve hid
  · have hm : m = (m₁.callUpstream sid c now ttl).2 := (congrArg Prod.snd hcall).symm
    rw [hm]
    exact (resolveSession_sameAt hresolve hid).trans (callUpstream_sameAt hid)

/-- A DELETE of a session that is not found, or is the caller's. -/
theorem delete_leavesOthers (h : Owned g) (hown : OwnSession g (.delete r user header now)) :
    LeavesOthers g (g.setManager r ((g.manager r).handleDelete header)) user now := by
  cases header with
  | none => exact fun id v hv hne => setManager_sameAt ⟨rfl, rfl⟩
  | some sid =>
    intro id v hv hne
    by_cases hid : id = sid
    · subst hid
      -- the session of somebody else would have been found with its creator
      have hnone : ((g.manager r).getSession id now).1 = none := by
        cases hs : ((g.manager r).getSession id now).1 with
        | none => rfl
        | some s =>
          have hcreator := ((h.copies r).of_getSession hs).creator
          rw [hown s hs] at hcreator
          exact absurd (h.one _ _ _ hv hcreator) hne
      rw [SessionManager.getSession_eq_none] at hnone
      refine ⟨fun r' => ?_, fun t ht => ?_⟩
      · by_cases hr : r' = r
        · subst hr
          rw [Gateway.setManager_self]
          exact (SessionManager.cache_self).trans hnone.1.symm
        · rw [Gateway.setManager_ne g hr]
      · have hgone : g.redis.get t id = none := by
          cases hs : g.redis.get t id with
          | none => rfl
          | some s =>
            have hnow : (g.manager r).redis.get now id = some s := Store.get_of_le ht hs
            rw [hnone.2] at hnow
            cases hnow
        rw [hgone]
        exact Store.get_del_self ..
    · exact setManager_sameAt (SessionManager.removeSession_sameAt hid)

theorem step_perUser (h : Owned g) (hown : OwnSession g a) (hstep : Step g a g') :
    Owned g' ∧ PerUser g a g' := by
  cases hstep with
  | @post r user header newId call now ttl attached m fresh ok =>
    obtain ⟨hattached, hm⟩ := post_genuine h hown fresh ok
    refine ⟨h.setManager hm createdAfter_subset returnedAfter_subset (h.one.createdAfter fresh),
      ?_, post_leavesOthers h hown fresh ok⟩
    cases call with
    | none => trivial
    | some c =>
      intro sid m' hok
      rw [ok] at hok
      cases hok
      exact hattached c rfl sid rfl
  | @unknown r user header newId call now ttl refused =>
    refine ⟨h, ?_, fun id v hv hne => ⟨fun _ => rfl, fun _ _ => rfl⟩⟩
    cases call with
    | none => trivial
    | some c =>
      intro sid m' hok
      rw [refused] at hok
      cases hok
  | @delete r user header now =>
    refine ⟨?_, trivial, delete_leavesOthers h hown⟩
    have hm : ((g.manager r).handleDelete header).Backed (Genuine g.created g.returned) := by
      cases header with
      | none => exact h.copies r
      | some sid => exact (h.copies r).removeSession
    exact h.setManager hm (List.Subset.refl _) (List.Subset.refl _) h.one
  | cleanup =>
    exact ⟨h.setManager (h.copies _).cleanupExpired (List.Subset.refl _) (List.Subset.refl _) h.one,
      trivial, trivial⟩

end Step

/-! ## Main result -/

/--
In a run in which each request names a session that is not found or is its caller's, every call
carries an upstream session id that was returned to its user, and no request changes a session of
another user.
-/
theorem sessions_per_user {g : Gateway} {as : List Request}
    (hrun : Steps (fun g a g' => OwnSession g a ∧ Step g a g') .start as g) :
    Steps (fun g a g' => PerUser g a g' ∧ Step g a g') .start as g := by
  refine hrun.under (I := Owned) ?_ owned_start
  rintro g a g' hg ⟨hown, hstep⟩
  obtain ⟨hg', hperUser⟩ := step_perUser hg hown hstep
  exact ⟨hg', hperUser, hstep⟩

/-! ## Two runs -/

/-- User 1 opens the session "a" with a call to server 7, which returns "up-1". -/
def openSession : Request := .post 0 1 none "a" (some ⟨7, some "up-1"⟩) 0 3600000

/-- A user calls server 7 in the session "a". -/
def useSession (user : Uuid) : Request := .post 0 user (some "a") "" (some ⟨7, none⟩) 1000 3600000

/-- The session after the first request. -/
def openedSession : McpSession := (McpSession.new "a" 1 0).withUpstream 7 "up-1"

def openGateway : Gateway where
  cached := Function.update (fun _ _ => none) 0
    (Function.update (Function.update (fun _ => none) "a" (some (.new "a" 1 0))) "a"
      (some openedSession))
  redis := (Store.empty.setEx 0 "a" (.new "a" 1 0) 3600000).setEx 0 "a" openedSession 3600000
  created := [("a", 1)]
  returned := [(1, 7, "up-1")]

theorem openSession_step : Step .start openSession openGateway :=
  @Step.post .start 0 1 none "a" (some ⟨7, some "up-1"⟩) 0 3600000 none _
    (fun _ _ => List.not_mem_nil) rfl

theorem openGateway_getSession (now : Int) :
    ((openGateway.manager 0).getSession "a" now).1 = some openedSession := rfl

/-- The second request, of whichever user, carries what was returned to the first. -/
theorem useSession_attaches (user : Uuid) : ∃ m,
    (openGateway.manager 0).handlePost user (some "a") "" (some ⟨7, none⟩) 1000 3600000 =
      some (some "up-1", m) :=
  ⟨_, rfl⟩

/-- User 1 calls the server again. -/
theorem sessions_per_user_again : ∃ g,
    Steps (fun g a g' => PerUser g a g' ∧ Step g a g') .start [openSession, useSession 1] g := by
  obtain ⟨m, hm⟩ := useSession_attaches 1
  refine ⟨_, sessions_per_user (.cons ⟨trivial, openSession_step⟩
    (.single ⟨?_, Step.post nofun hm⟩))⟩
  intro s hs
  rw [openGateway_getSession] at hs
  cases hs
  rfl

/-- User 2 names the session, and the call carries what the server has returned to user 1. -/
theorem foreign_session_used : ∃ g g',
    Steps Step .start [openSession] g ∧ Step g (useSession 2) g' ∧
      ¬ PerUser g (useSession 2) g' := by
  obtain ⟨m, hm⟩ := useSession_attaches 2
  refine ⟨openGateway, _, .single openSession_step, Step.post nofun hm, ?_⟩
  rintro ⟨hattaches, -⟩
  have hreturned : (2, 7, "up-1") ∈ openGateway.returned := hattaches "up-1" m hm
  exact absurd hreturned (by decide)

end ThinkWatch.Mcp
