import ThinkWatch.Errors
import ThinkWatch.Lib.Expiring
import Mathlib.Logic.Function.Basic

/-!
# MCP sessions

`crates/mcp-gateway/src/session.rs`: the sessions of the clients of `POST /mcp`, in a map of the
process and, under `mcp_session:` and the id, in Redis. A write goes to both; a look-up asks Redis
only when the map has nothing.

Times and the time to live are in milliseconds. The commands of Redis succeed; what a session says
in JSON is the session.
-/

namespace ThinkWatch.Mcp

open Lib

structure McpSession where
  id : String
  userId : Uuid
  createdAt : Int
  lastActive : Int
  upstreamSessions : Uuid → Option String

namespace McpSession

/-- A session as `create_session` makes it. -/
def new (id : String) (user : Uuid) (now : Int) : McpSession := ⟨id, user, now, now, fun _ => none⟩

def touched (s : McpSession) (now : Int) : McpSession := { s with lastActive := now }

def withUpstream (s : McpSession) (server : Uuid) (upstream : String) : McpSession :=
  { s with upstreamSessions := Function.update s.upstreamSessions server (some upstream) }

theorem withUpstream_self (s : McpSession) (server : Uuid) (upstream : String) :
    (s.withUpstream server upstream).upstreamSessions server = some upstream :=
  Function.update_self ..

theorem withUpstream_ne (s : McpSession) {server server' : Uuid} (h : server' ≠ server)
    (upstream : String) :
    (s.withUpstream server upstream).upstreamSessions server' = s.upstreamSessions server' :=
  Function.update_of_ne h ..

end McpSession

/-- The map of one process, and Redis. -/
structure SessionManager where
  cached : String → Option McpSession
  redis : Store String McpSession

/-- A session id of an upstream server that may go into a header: printable and not too long. -/
def validUpstreamSession (sid : String) : Bool :=
  sid ≠ "" && sid.utf8ByteSize ≤ 256 && sid.toList.all fun c => 0x20 ≤ c.toNat && c.toNat ≤ 0x7e

namespace SessionManager

/-- What is under the id in the map. -/
def cache (m : SessionManager) (id : String) (s : Option McpSession) : SessionManager :=
  { m with cached := Function.update m.cached id s }

/-- `SET key json EX ttl`. -/
def write (m : SessionManager) (id : String) (s : McpSession) (now ttl : Int) : SessionManager :=
  { m with redis := m.redis.setEx now id s ttl }

/-- `DEL key`. -/
def erase (m : SessionManager) (id : String) : SessionManager := { m with redis := m.redis.del id }

def createSession (m : SessionManager) (id : String) (user : Uuid) (now ttl : Int) :
    SessionManager :=
  (m.write id (.new id user now) now ttl).cache id (some (.new id user now))

/-- The session, and the manager with the session in its map. -/
def getSession (m : SessionManager) (id : String) (now : Int) :
    Option McpSession × SessionManager :=
  match m.cached id with
  | some s => (some s, m)
  | none =>
    match m.redis.get now id with
    | some s => (some s, m.cache id (some s))
    | none => (none, m)

/-- Change the session in the map, and write what it is now to Redis. -/
def modify (m : SessionManager) (id : String) (f : McpSession → McpSession) (now ttl : Int) :
    SessionManager :=
  match m.cached id with
  | some s => (m.cache id (some (f s))).write id (f s) now ttl
  | none => m

def updateActivity (m : SessionManager) (id : String) (now ttl : Int) : SessionManager :=
  m.modify id (·.touched now) now ttl

def setUpstreamSession (m : SessionManager) (id : String) (server : Uuid) (upstream : String)
    (now ttl : Int) : SessionManager :=
  if validUpstreamSession upstream then m.modify id (·.withUpstream server upstream) now ttl else m

def getUpstreamSession (m : SessionManager) (id : String) (server : Uuid) (now : Int) :
    Option String × SessionManager :=
  let (session, m) := m.getSession id now
  (session.bind fun s => s.upstreamSessions server, m)

def removeSession (m : SessionManager) (id : String) : SessionManager :=
  (m.erase id).cache id none

/-- The map has a session under the id that was not active after `cutoff`. -/
def idle (m : SessionManager) (cutoff : Int) (id : String) : Bool :=
  match m.cached id with
  | some s => s.lastActive ≤ cutoff
  | none => false

def cleanupExpired (m : SessionManager) (maxAge now : Int) : SessionManager where
  cached id := if m.idle (now - maxAge) id then none else m.cached id
  redis id := if m.idle (now - maxAge) id then none else m.redis id

/-! ## What is found -/

variable {m : SessionManager} {id id' : String} {now ttl : Int} {s : McpSession}
  {c : Option McpSession}

@[simp] theorem cache_self : (m.cache id c).cached id = c := Function.update_self ..

theorem cache_ne (h : id' ≠ id) : (m.cache id c).cached id' = m.cached id' :=
  Function.update_of_ne h ..

@[simp] theorem cache_eq_self (h : m.cached id = c) : m.cache id c = m := by
  unfold cache
  rw [← h, Function.update_eq_self]

@[simp] theorem write_self :
    (m.write id s now ttl).redis id = some ⟨s, some (now + ttl)⟩ := Store.put_self ..

theorem write_ne (h : id' ≠ id) : (m.write id s now ttl).redis id' = m.redis id' :=
  Store.put_ne _ h _

@[simp] theorem erase_self : (m.erase id).redis id = none := Store.put_self ..

theorem erase_ne (h : id' ≠ id) : (m.erase id).redis id' = m.redis id' := Store.put_ne _ h _

/-- What is found is in the map, or in Redis when the map has nothing. -/
theorem getSession_fst : (m.getSession id now).1 = (m.cached id <|> m.redis.get now id) := by
  unfold getSession
  cases hc : m.cached id with
  | some s => simp
  | none =>
    cases hr : m.redis.get now id with
    | some s => simp
    | none => simp

theorem getSession_eq_none :
    (m.getSession id now).1 = none ↔ m.cached id = none ∧ m.redis.get now id = none := by
  rw [getSession_fst]
  cases m.cached id with
  | none => simp
  | some s => simp

/-- A look-up puts what it has found into the map, and does nothing else. -/
theorem getSession_snd : (m.getSession id now).2 = m.cache id (m.getSession id now).1 := by
  unfold getSession
  cases hc : m.cached id with
  | some s => simp [hc]
  | none =>
    cases hr : m.redis.get now id with
    | some s => simp
    | none => simp [hc]

/-! ## What holds of every copy -/

/-- `P` holds of each copy of a session, in the map and in Redis. -/
structure Backed (P : String → McpSession → Prop) (m : SessionManager) : Prop where
  cached : ∀ {id s}, m.cached id = some s → P id s
  redis : ∀ {id e}, m.redis id = some e → P id e.value

variable {P : String → McpSession → Prop}

theorem Backed.of_getSession (h : m.Backed P) (hs : (m.getSession id now).1 = some s) : P id s := by
  rw [getSession_fst] at hs
  cases hc : m.cached id with
  | some s' =>
    rw [hc] at hs
    cases hs
    exact h.cached hc
  | none =>
    rw [hc] at hs
    obtain ⟨e, he, -, rfl⟩ := Store.get_eq_some.mp hs
    exact h.redis he

theorem Backed.cache (h : m.Backed P) (hc : ∀ s, c = some s → P id s) : (m.cache id c).Backed P where
  cached := by
    intro id' s' hs'
    by_cases hid : id' = id
    · subst hid
      rw [cache_self] at hs'
      exact hc s' hs'
    · rw [cache_ne hid] at hs'
      exact h.cached hs'
  redis := h.redis

theorem Backed.write (h : m.Backed P) (hs : P id s) : (m.write id s now ttl).Backed P where
  cached := h.cached
  redis := by
    intro id' e he
    by_cases hid : id' = id
    · subst hid
      rw [write_self] at he
      cases he
      exact hs
    · rw [write_ne hid] at he
      exact h.redis he

theorem Backed.erase (h : m.Backed P) : (m.erase id).Backed P where
  cached := h.cached
  redis := by
    intro id' e he
    by_cases hid : id' = id
    · subst hid
      rw [erase_self] at he
      cases he
    · rw [erase_ne hid] at he
      exact h.redis he

theorem Backed.getSession (h : m.Backed P) : (m.getSession id now).2.Backed P := by
  rw [getSession_snd]
  exact h.cache fun s hs => h.of_getSession hs

theorem Backed.createSession {user : Uuid} (h : m.Backed P) (hs : P id (.new id user now)) :
    (m.createSession id user now ttl).Backed P :=
  (h.write hs).cache fun s heq => by cases heq; exact hs

theorem Backed.modify {f : McpSession → McpSession} (h : m.Backed P)
    (hf : ∀ s, m.cached id = some s → P id (f s)) : (m.modify id f now ttl).Backed P := by
  unfold SessionManager.modify
  cases hc : m.cached id with
  | some s => exact (h.cache fun s' heq => by cases heq; exact hf s hc).write (hf s hc)
  | none => exact h

theorem Backed.removeSession (h : m.Backed P) : (m.removeSession id).Backed P :=
  h.erase.cache nofun

theorem Backed.cleanupExpired {maxAge : Int} (h : m.Backed P) :
    (m.cleanupExpired maxAge now).Backed P where
  cached := by
    intro id s hs
    simp only [SessionManager.cleanupExpired] at hs
    split at hs
    next => cases hs
    next => exact h.cached hs
  redis := by
    intro id e he
    simp only [SessionManager.cleanupExpired] at he
    split at he
    next => cases he
    next => exact h.redis he

/-! ## What an operation leaves alone -/

/-- The two managers have the same under the id: the same copy in the map and in Redis. -/
def SameAt (m m' : SessionManager) (id : String) : Prop :=
  m'.cached id = m.cached id ∧ m'.redis id = m.redis id

theorem SameAt.trans {m' m'' : SessionManager} (h : m.SameAt m' id) (h' : m'.SameAt m'' id) :
    m.SameAt m'' id :=
  ⟨h'.1.trans h.1, h'.2.trans h.2⟩

theorem createSession_sameAt {user : Uuid} (h : id' ≠ id) :
    m.SameAt (m.createSession id user now ttl) id' :=
  ⟨cache_ne h, write_ne h⟩

theorem getSession_sameAt (h : id' ≠ id) : m.SameAt (m.getSession id now).2 id' := by
  rw [getSession_snd]
  exact ⟨cache_ne h, rfl⟩

theorem modify_sameAt {f : McpSession → McpSession} (h : id' ≠ id) :
    m.SameAt (m.modify id f now ttl) id' := by
  unfold modify
  cases m.cached id with
  | some s => exact ⟨cache_ne h, write_ne h⟩
  | none => exact ⟨rfl, rfl⟩

theorem removeSession_sameAt (h : id' ≠ id) : m.SameAt (m.removeSession id) id' :=
  ⟨cache_ne h, erase_ne h⟩

end SessionManager

end ThinkWatch.Mcp
