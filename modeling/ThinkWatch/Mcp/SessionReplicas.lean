import ThinkWatch.Lib.Run
import ThinkWatch.Lib.Threads
import ThinkWatch.Mcp.Session

/-!
# Sessions on several replicas

The calls of `session.rs` on replicas that each have a map of their own and share one Redis. A step
is one access to a map or one command of Redis; between two steps of a call any other call may run.
`update_activity` and `set_upstream_session` change the copy in the map and then write the whole
copy to Redis; `remove_session` deletes the session from Redis and then from the map of its own
replica; a look-up that finds a copy in the map does not ask Redis.

`removed_gone_records_kept`: in a run in which no copy is written or cached after the session was
deleted, no copy that lacks a recorded upstream id is written, and a removal ends when no other
replica has a copy (`Orderly`), a removed session is found nowhere and Redis has every upstream id
that was recorded.
-/

namespace ThinkWatch.Mcp.Replicas

open Lib

/-! ## The system -/

/-- What a call does next. -/
inductive Call where
  /-- `create_session` writes the session to Redis. -/
  | creating (r : Nat) (id : String) (s : McpSession)
  /-- `create_session` and `get_session` put the session into the map. -/
  | caching (r : Nat) (id : String) (s : McpSession)
  /-- `get_session` has found nothing in the map and asks Redis. -/
  | reading (r : Nat) (id : String)
  /-- `update_activity` and `set_upstream_session` write their copy to Redis. -/
  | saving (id : String) (s : McpSession)
  /-- `remove_session` has deleted the session from Redis and takes it out of the map. -/
  | removing (r : Nat) (id : String)
  /-- `cleanup_expired` has taken the session out of the map and deletes it from Redis. -/
  | evicting (id : String)
  | returned

/-- The session of a call that is still running. -/
def Call.session : Call → Option String
  | .creating _ id _ => some id
  | .caching _ id _ => some id
  | .reading _ id => some id
  | .saving id _ => some id
  | .removing _ id => some id
  | .evicting id => some id
  | .returned => none

/-- The session that the call is about to write to Redis. -/
def Call.writes : Call → Option String
  | .creating _ id _ => some id
  | .saving id _ => some id
  | _ => none

theorem Call.session_of_writes {c : Call} {id : String} (h : c.writes = some id) :
    c.session = some id := by
  cases c with
  | creating r id' s => exact h
  | saving id' s => exact h
  | _ => cases h

/--
The maps, Redis and the running calls. Nothing looks at the last four: the ids that were drawn, the
sessions that a removal has deleted from Redis, those whose removal has returned, and the upstream
ids that were recorded last.
-/
structure Cluster where
  cached : Nat → String → Option McpSession
  redis : Store String McpSession
  calls : Threads Call
  created : List String
  deleted : List String
  removed : List String
  recorded : String → Uuid → Option String

namespace Cluster

def start : Cluster := ⟨fun _ _ => none, .empty, .none, [], [], [], fun _ _ => none⟩

/-- Call `i` goes on. -/
def go (s : Cluster) (i : Nat) (c : Call) : Cluster := { s with calls := s.calls.set i c }

/-- What replica `r` has under the id in its map. -/
def cache (s : Cluster) (r : Nat) (id : String) (c : Option McpSession) : Cluster :=
  { s with cached := Function.update s.cached r (Function.update (s.cached r) id c) }

def write (s : Cluster) (id : String) (session : McpSession) (now ttl : Int) : Cluster :=
  { s with redis := s.redis.setEx now id session ttl }

def erase (s : Cluster) (id : String) : Cluster := { s with redis := s.redis.del id }

/-- An id that no session has had is drawn. -/
def draw (s : Cluster) (id : String) : Cluster := { s with created := id :: s.created }

def markDeleted (s : Cluster) (id : String) : Cluster := { s with deleted := id :: s.deleted }

def markRemoved (s : Cluster) (id : String) : Cluster := { s with removed := id :: s.removed }

def record (s : Cluster) (id : String) (server : Uuid) (upstream : String) : Cluster :=
  { s with recorded :=
      Function.update s.recorded id (Function.update (s.recorded id) server (some upstream)) }

/-- Replica `r` by itself. -/
def manager (s : Cluster) (r : Nat) : SessionManager := ⟨s.cached r, s.redis⟩

variable {s : Cluster} {i j r r' : Nat} {id id' : String} {c : Call} {copy : Option McpSession}
  {session : McpSession} {now ttl : Int} {server : Uuid} {upstream : String}

@[simp] theorem go_self : (s.go i c).calls i = some c := Threads.set_self ..

theorem go_ne (h : j ≠ i) : (s.go i c).calls j = s.calls j := Threads.set_ne _ h _

@[simp] theorem cache_self : (s.cache r id copy).cached r id = copy := by simp [cache]

theorem cache_ne (h : r' ≠ r ∨ id' ≠ id) : (s.cache r id copy).cached r' id' = s.cached r' id' := by
  by_cases hr : r' = r
  · subst hr
    have hid : id' ≠ id := h.resolve_left fun hne => hne rfl
    simp [cache, Function.update_of_ne hid]
  · simp [cache, Function.update_of_ne hr]

@[simp] theorem write_self :
    (s.write id session now ttl).redis id = some ⟨session, some (now + ttl)⟩ := Store.put_self ..

theorem write_ne (h : id' ≠ id) : (s.write id session now ttl).redis id' = s.redis id' :=
  Store.put_ne _ h _

@[simp] theorem erase_self : (s.erase id).redis id = none := Store.put_self ..

theorem erase_ne (h : id' ≠ id) : (s.erase id).redis id' = s.redis id' := Store.put_ne _ h _

theorem record_ne (h : id' ≠ id) : (s.record id server upstream).recorded id' = s.recorded id' :=
  Function.update_of_ne h ..

end Cluster

inductive Action where
  | create (i r : Nat) (id : String) (user : Uuid) (now : Int)
  | get (i r : Nat) (id : String)
  | touch (i r : Nat) (id : String) (now : Int)
  | setUpstream (i r : Nat) (id : String) (server : Uuid) (upstream : String)
  | remove (i r : Nat) (id : String)
  | evict (i r : Nat) (id : String) (cutoff : Int)
  /-- The next step of a call that is running. -/
  | advance (i : Nat) (now ttl : Int)

/-- One access to a map or one command of Redis. -/
inductive Step : Cluster → Action → Cluster → Prop where
  | create {s : Cluster} {i r : Nat} {id : String} {user : Uuid} {now : Int}
      (free : s.calls i = none) (fresh : id ∉ s.created) :
      Step s (.create i r id user now)
        ((s.draw id).go i (.creating r id (.new id user now)))
  | getHit {s : Cluster} {i r : Nat} {id : String} {session : McpSession}
      (free : s.calls i = none) (hit : s.cached r id = some session) :
      Step s (.get i r id) (s.go i .returned)
  | getMiss {s : Cluster} {i r : Nat} {id : String} (free : s.calls i = none)
      (miss : s.cached r id = none) : Step s (.get i r id) (s.go i (.reading r id))
  | touch {s : Cluster} {i r : Nat} {id : String} {now : Int} {session : McpSession}
      (free : s.calls i = none) (hit : s.cached r id = some session) :
      Step s (.touch i r id now)
        ((s.cache r id (some (session.touched now))).go i (.saving id (session.touched now)))
  | touchMiss {s : Cluster} {i r : Nat} {id : String} {now : Int} (free : s.calls i = none)
      (miss : s.cached r id = none) : Step s (.touch i r id now) (s.go i .returned)
  | setUpstream {s : Cluster} {i r : Nat} {id : String} {server : Uuid} {upstream : String}
      {session : McpSession} (free : s.calls i = none)
      (valid : validUpstreamSession upstream = true) (hit : s.cached r id = some session) :
      Step s (.setUpstream i r id server upstream)
        (((s.cache r id (some (session.withUpstream server upstream))).record id server upstream).go
          i (.saving id (session.withUpstream server upstream)))
  | setUpstreamMiss {s : Cluster} {i r : Nat} {id : String} {server : Uuid} {upstream : String}
      (free : s.calls i = none)
      (miss : validUpstreamSession upstream = false ∨ s.cached r id = none) :
      Step s (.setUpstream i r id server upstream) (s.go i .returned)
  | remove {s : Cluster} {i r : Nat} {id : String} (free : s.calls i = none) :
      Step s (.remove i r id) (((s.erase id).markDeleted id).go i (.removing r id))
  | evict {s : Cluster} {i r : Nat} {id : String} {cutoff : Int} {session : McpSession}
      (free : s.calls i = none) (hit : s.cached r id = some session)
      (idle : session.lastActive ≤ cutoff) :
      Step s (.evict i r id cutoff) ((s.cache r id none).go i (.evicting id))
  | created {s : Cluster} {i r : Nat} {id : String} {session : McpSession} {now ttl : Int}
      (at_ : s.calls i = some (.creating r id session)) :
      Step s (.advance i now ttl) ((s.write id session now ttl).go i (.caching r id session))
  | cached {s : Cluster} {i r : Nat} {id : String} {session : McpSession} {now ttl : Int}
      (at_ : s.calls i = some (.caching r id session)) :
      Step s (.advance i now ttl) ((s.cache r id (some session)).go i .returned)
  | readHit {s : Cluster} {i r : Nat} {id : String} {session : McpSession} {now ttl : Int}
      (at_ : s.calls i = some (.reading r id)) (hit : s.redis.get now id = some session) :
      Step s (.advance i now ttl) (s.go i (.caching r id session))
  | readMiss {s : Cluster} {i r : Nat} {id : String} {now ttl : Int}
      (at_ : s.calls i = some (.reading r id)) (miss : s.redis.get now id = none) :
      Step s (.advance i now ttl) (s.go i .returned)
  | saved {s : Cluster} {i : Nat} {id : String} {session : McpSession} {now ttl : Int}
      (at_ : s.calls i = some (.saving id session)) :
      Step s (.advance i now ttl) ((s.write id session now ttl).go i .returned)
  | removed {s : Cluster} {i r : Nat} {id : String} {now ttl : Int}
      (at_ : s.calls i = some (.removing r id)) :
      Step s (.advance i now ttl) (((s.cache r id none).markRemoved id).go i .returned)
  | evicted {s : Cluster} {i : Nat} {id : String} {now ttl : Int}
      (at_ : s.calls i = some (.evicting id)) :
      Step s (.advance i now ttl) ((s.erase id).go i .returned)

/-! ## What is claimed -/

/-- No call on the session is running. -/
def Quiet (s : Cluster) (id : String) : Prop := ∀ {i c}, s.calls i = some c → c.session ≠ some id

/-- A session whose removal has returned is found on no replica. -/
def RemovedGone (s : Cluster) : Prop :=
  ∀ id ∈ s.removed, Quiet s id → ∀ r now, ((s.manager r).getSession id now).1 = none

/-- The copy has the upstream ids that were recorded for the session. -/
def Carries (s : Cluster) (id : String) (session : McpSession) : Prop :=
  ∀ server upstream, s.recorded id server = some upstream →
    session.upstreamSessions server = some upstream

/-- The session in Redis has the upstream ids that were recorded. -/
def RecordsKept (s : Cluster) : Prop :=
  ∀ id, Quiet s id → ∀ now session, s.redis.get now id = some session → Carries s id session

/-- The condition on the next step of a call. -/
def OrderlyCall (s : Cluster) : Call → Prop
  | .creating _ id session => id ∉ s.deleted ∧ Carries s id session
  | .saving id session => id ∉ s.deleted ∧ Carries s id session
  | .caching _ id _ => id ∉ s.deleted
  | .removing r id => ∀ r', r' ≠ r → s.cached r' id = none
  | _ => True

/--
The condition on each step: a copy goes to Redis or into a map only when no removal has deleted the
session, to Redis only with the upstream ids that were recorded, and a removal ends when no other
replica has a copy.
-/
def Orderly (s : Cluster) : Action → Prop
  | .advance i _ _ => ∀ c, s.calls i = some c → OrderlyCall s c
  | _ => True

/-! ## What every state has -/

/-- No call is about to write the session. -/
def Unwritten (s : Cluster) (id : String) : Prop := ∀ {i c}, s.calls i = some c → c.writes ≠ some id

theorem Quiet.unwritten {s : Cluster} {id : String} (h : Quiet s id) : Unwritten s id :=
  fun hc hw => h hc (Call.session_of_writes hw)

structure Sound (s : Cluster) : Prop where
  removing : ∀ {i r id}, s.calls i = some (.removing r id) → id ∈ s.deleted
  deleted : ∀ {id}, id ∈ s.removed → id ∈ s.deleted
  erased : ∀ {id}, id ∈ s.deleted → s.redis id = none
  gone : ∀ {id}, id ∈ s.removed → ∀ r, s.cached r id = none
  kept : ∀ {id}, Unwritten s id → ∀ {e}, s.redis id = some e → Carries s id e.value

section Sound

variable {s s' : Cluster} {a : Action} {i r : Nat} {id : String} {c : Call} {session : McpSession}
  {now ttl : Int}

theorem sound_start : Sound .start where
  removing h := by cases h
  deleted h := absurd h List.not_mem_nil
  erased h := absurd h List.not_mem_nil
  gone h := absurd h List.not_mem_nil
  kept _ _ h := by cases h

/-- A call goes on; what it was about to write, it still is. -/
theorem Sound.go (h : Sound s) (hremoving : ∀ r id, c = .removing r id → id ∈ s.deleted)
    (hwrites : ∀ c₀, s.calls i = some c₀ → c₀.writes = none ∨ c₀.writes = c.writes) :
    Sound (s.go i c) where
  removing := by
    intro j r id hj
    rcases Threads.set_eq_some hj with ⟨-, heq⟩ | ⟨-, hj⟩
    · exact hremoving r id heq.symm
    · exact h.removing hj
  deleted := h.deleted
  erased := h.erased
  gone := h.gone
  kept := by
    intro id hunwritten e he
    refine h.kept (fun {j c₀} hj hw => ?_) he
    by_cases hji : j = i
    · subst hji
      rcases hwrites c₀ hj with hnone | hsame
      · rw [hnone] at hw
        cases hw
      · exact hunwritten (Threads.set_self _ _ _) (hsame.symm.trans hw)
    · exact hunwritten ((Cluster.go_ne hji).trans hj) hw

/-- A new call that has nothing to do with a removal. -/
theorem Sound.begin (h : Sound s) (hfree : s.calls i = none)
    (hremoving : ∀ r id, c ≠ .removing r id) : Sound (s.go i c) := by
  refine h.go (fun r id heq => absurd heq (hremoving r id)) fun c₀ hc₀ => ?_
  rw [hfree] at hc₀
  cases hc₀

theorem Sound.cache (h : Sound s) {copy : Option McpSession}
    (hcopy : copy = none ∨ id ∉ s.removed) : Sound (s.cache r id copy) where
  removing := h.removing
  deleted := h.deleted
  erased := h.erased
  gone := by
    intro id' hid' r'
    by_cases hat : r' = r ∧ id' = id
    · obtain ⟨rfl, rfl⟩ := hat
      rw [Cluster.cache_self]
      exact hcopy.resolve_right fun hnot => hnot hid'
    · rw [Cluster.cache_ne (not_and_or.mp hat)]
      exact h.gone hid' r'
  kept := h.kept

theorem Sound.erase (h : Sound s) : Sound (s.erase id) where
  removing := h.removing
  deleted := h.deleted
  erased := by
    intro id' hid'
    by_cases hid : id' = id
    · subst hid
      exact Cluster.erase_self
    · exact (Cluster.erase_ne hid).trans (h.erased hid')
  gone := h.gone
  kept := by
    intro id' hunwritten e he
    by_cases hid : id' = id
    · subst hid
      rw [Cluster.erase_self] at he
      cases he
    · rw [Cluster.erase_ne hid] at he
      exact h.kept hunwritten he

theorem Sound.markDeleted (h : Sound s) (hid : s.redis id = none) : Sound (s.markDeleted id) where
  removing hc := List.mem_cons_of_mem _ (h.removing hc)
  deleted hr := List.mem_cons_of_mem _ (h.deleted hr)
  erased := by
    intro id' hid'
    rcases List.mem_cons.mp hid' with rfl | hid'
    · exact hid
    · exact h.erased hid'
  gone := h.gone
  kept := h.kept

theorem Sound.markRemoved (h : Sound s) (hdeleted : id ∈ s.deleted)
    (hgone : ∀ r, s.cached r id = none) : Sound (s.markRemoved id) where
  removing := h.removing
  deleted := by
    intro id' hid'
    rcases List.mem_cons.mp hid' with rfl | hid'
    · exact hdeleted
    · exact h.deleted hid'
  erased := h.erased
  gone := by
    intro id' hid'
    rcases List.mem_cons.mp hid' with rfl | hid'
    · exact hgone
    · exact h.gone hid'
  kept := h.kept

/-- A call writes its copy to Redis. -/
theorem Sound.write (h : Sound s) {c₀ : Call} (hc₀ : s.calls i = some c₀)
    (hwrites : c₀.writes = some id) (hid : id ∉ s.deleted) (hcarries : Carries s id session)
    (hremoving : ∀ r id, c ≠ .removing r id) :
    Sound ((s.write id session now ttl).go i c) where
  removing := by
    intro j r id' hj
    rcases Threads.set_eq_some hj with ⟨-, heq⟩ | ⟨-, hj⟩
    · exact absurd heq.symm (hremoving r id')
    · exact h.removing hj
  deleted := h.deleted
  erased := by
    intro id' hid'
    have hne : id' ≠ id := by
      rintro rfl
      exact hid hid'
    exact (Cluster.write_ne hne).trans (h.erased hid')
  gone := h.gone
  kept := by
    intro id' hunwritten e he
    by_cases hsame : id' = id
    · subst hsame
      have heq := (Cluster.write_self).symm.trans he
      cases heq
      exact hcarries
    · -- the call that writes was about no other session
      refine h.kept (fun {j c₁} hj hw => ?_) ((Cluster.write_ne hsame).symm.trans he)
      by_cases hji : j = i
      · subst hji
        rw [hc₀] at hj
        cases hj
        rw [hwrites] at hw
        exact hsame (Option.some.inj hw).symm
      · exact hunwritten ((Cluster.go_ne hji).trans hj) hw

/-- A call records an upstream id, and is about to write its copy. -/
theorem Sound.record {server : Uuid} {upstream : String} (h : Sound s) (hfree : s.calls i = none) :
    Sound ((s.record id server upstream).go i (.saving id session)) where
  removing := by
    intro j r id' hj
    rcases Threads.set_eq_some hj with ⟨-, heq⟩ | ⟨-, hj⟩
    · cases heq
    · exact h.removing hj
  deleted := h.deleted
  erased := h.erased
  gone := h.gone
  kept := by
    intro id' hunwritten e he
    have hne : id' ≠ id := by
      rintro rfl
      exact hunwritten (Cluster.go_self) rfl
    have hkept : Carries s id' e.value := by
      refine h.kept (fun {j c₁} hj hw => ?_) he
      have hji : j ≠ i := by
        rintro rfl
        rw [hfree] at hj
        cases hj
      exact hunwritten ((Cluster.go_ne hji).trans hj) hw
    intro server' upstream' hrecorded
    have hold : s.recorded id' server' = some upstream' :=
      (congrFun (Cluster.record_ne hne) server').symm.trans hrecorded
    exact hkept server' upstream' hold

theorem Sound.not_removed (h : Sound s) (hcached : s.cached r id = some session) :
    id ∉ s.removed := by
  intro hid
  rw [h.gone hid r] at hcached
  cases hcached

/-- A call that was not about to write goes on to nothing or to the map. -/
theorem Sound.goOn (h : Sound s) {c₀ : Call} (hc₀ : s.calls i = some c₀) (hwrites : c₀.writes = none)
    (hremoving : ∀ r id, c ≠ .removing r id) : Sound (s.go i c) := by
  refine h.go (fun r id heq => absurd heq (hremoving r id)) fun c₁ hc₁ => ?_
  rw [hc₀] at hc₁
  cases hc₁
  exact Or.inl hwrites

theorem Sound.step (h : Sound s) (horderly : Orderly s a) (hstep : Step s a s') : Sound s' := by
  cases hstep with
  | @create i r id user now free fresh =>
    have hdrawn : Sound (s.draw id) := ⟨h.removing, h.deleted, h.erased, h.gone, h.kept⟩
    exact hdrawn.begin free nofun
  | getHit free hit => exact h.begin free nofun
  | getMiss free miss => exact h.begin free nofun
  | touch free hit => exact (h.cache (Or.inr (h.not_removed hit))).begin free nofun
  | touchMiss free miss => exact h.begin free nofun
  | setUpstream free valid hit => exact (h.cache (Or.inr (h.not_removed hit))).record free
  | setUpstreamMiss free miss => exact h.begin free nofun
  | @remove i r id free =>
    refine (h.erase.markDeleted Cluster.erase_self).go ?_ fun c₀ hc₀ => ?_
    · rintro r' id' heq
      cases heq
      exact List.mem_cons_self
    · have hnone : s.calls i = some c₀ := hc₀
      rw [free] at hnone
      cases hnone
  | evict free hit idle => exact (h.cache (Or.inl rfl)).begin free nofun
  | created at_ =>
    obtain ⟨hid, hcarries⟩ := horderly _ at_
    exact h.write at_ rfl hid hcarries nofun
  | cached at_ =>
    have hid := horderly _ at_
    exact (h.cache (Or.inr fun hr => hid (h.deleted hr))).goOn at_ rfl nofun
  | readHit at_ hit => exact h.goOn at_ rfl nofun
  | readMiss at_ miss => exact h.goOn at_ rfl nofun
  | saved at_ =>
    obtain ⟨hid, hcarries⟩ := horderly _ at_
    exact h.write at_ rfl hid hcarries nofun
  | @removed i r id now ttl at_ =>
    have hothers := horderly _ at_
    have hnone : ∀ r', (s.cache r id none).cached r' id = none := by
      intro r'
      by_cases hr : r' = r
      · subst hr
        exact Cluster.cache_self
      · exact (Cluster.cache_ne (Or.inl hr)).trans (hothers r' hr)
    exact ((h.cache (Or.inl rfl)).markRemoved (h.removing at_) hnone).goOn at_ rfl nofun
  | evicted at_ => exact h.erase.goOn at_ rfl nofun

end Sound

/-! ## Main result -/

/--
In every state of a run in which the steps are in order, a session whose removal has returned is
found on no replica, and Redis has the upstream ids that were recorded for a session on which no
call is running.
-/
theorem removed_gone_records_kept {s : Cluster} {as : List Action}
    (hrun : Steps (fun s a s' => Orderly s a ∧ Step s a s') .start as s) :
    RemovedGone s ∧ RecordsKept s := by
  have hsound : Sound s := by
    refine hrun.invariant (I := Sound) ?_ sound_start
    rintro s a s' hs ⟨horderly, hstep⟩
    exact hs.step horderly hstep
  constructor
  · intro id hid _ r now
    rw [SessionManager.getSession_eq_none]
    have herased : s.redis id = none := hsound.erased (hsound.deleted hid)
    refine ⟨hsound.gone hid r, ?_⟩
    show s.redis.get now id = none
    simp only [Store.get, herased]
  · intro id hquiet now session hsession
    obtain ⟨e, he, -, rfl⟩ := Store.get_eq_some.mp hsession
    exact hsound.kept hquiet.unwritten he

/-! ## Three runs -/

/-- User 1 opens the session "a" on replica 0. -/
def openActions : List Action := [.create 0 0 "a" 1 0, .advance 0 0 3600000, .advance 0 0 3600000]

/-- Replica 1 looks the session up. -/
def readActions : List Action :=
  openActions ++ [.get 1 1 "a", .advance 1 0 3600000, .advance 1 0 3600000]

/-- Replica 1 records an upstream id for the session. -/
def recordActions : List Action := [.setUpstream 2 1 "a" 7 "up-1", .advance 2 0 3600000]

/-- Replica 0 forgets the idle session while replica 1 removes it; then replica 0 looks it up. -/
def removeActions : List Action :=
  [.evict 3 0 "a" 0, .remove 4 1 "a", .advance 4 0 3600000, .advance 3 0 3600000, .get 5 0 "a",
    .advance 5 0 3600000]

theorem orderly_readActions : ∃ s, Steps (fun s a s' => Orderly s a ∧ Step s a s') .start
    (readActions ++ recordActions) s ∧ s.recorded "a" 7 = some "up-1" ∧
    ∃ s', Steps (fun s a s' => Orderly s a ∧ Step s a s') s removeActions s' ∧ "a" ∈ s'.removed := by
  refine ⟨_, .cons ⟨trivial, .create rfl List.not_mem_nil⟩ (.cons ⟨?_, .created rfl⟩
    (.cons ⟨?_, .cached rfl⟩ (.cons ⟨trivial, .getMiss rfl rfl⟩ (.cons ⟨?_, .readHit rfl rfl⟩
      (.cons ⟨?_, .cached rfl⟩ (.cons ⟨trivial, .setUpstream rfl (by decide) rfl⟩
        (.single ⟨?_, .saved rfl⟩))))))), rfl, _,
    .cons ⟨trivial, .evict rfl rfl (Int.le_refl 0)⟩ (.cons ⟨trivial, .remove rfl⟩
      (.cons ⟨?_, .removed rfl⟩ (.cons ⟨?_, .evicted rfl⟩ (.cons ⟨trivial, .getMiss rfl rfl⟩
        (.single ⟨?_, .readMiss rfl rfl⟩))))), List.mem_cons_self⟩
  · intro c hc
    cases hc
    exact ⟨List.not_mem_nil, fun server upstream h => by cases h⟩
  · intro c hc
    cases hc
    exact List.not_mem_nil
  · intro c hc
    cases hc
    trivial
  · intro c hc
    cases hc
    exact List.not_mem_nil
  · intro c hc
    cases hc
    exact ⟨List.not_mem_nil, fun server upstream h => h⟩
  · -- replica 0 has no copy any more, and the others have had none
    intro c hc
    cases hc
    intro r hr
    by_cases hr0 : r = 0
    · subst hr0
      rfl
    · exact (Cluster.cache_ne (Or.inl hr0)).trans ((Cluster.cache_ne (Or.inl hr)).trans
        ((Cluster.cache_ne (Or.inl hr)).trans (Cluster.cache_ne (Or.inl hr0))))
  · intro c hc
    cases hc
    trivial
  · intro c hc
    cases hc
    trivial

/-- Replica 1 records an upstream id, which Redis has; and replica 1 removes the session, which is
found nowhere. -/
theorem removed_gone_records_kept_one : ∃ s, Steps Step .start (readActions ++ recordActions) s ∧
    s.recorded "a" 7 = some "up-1" ∧ RecordsKept s ∧
    ∃ s', Steps Step s removeActions s' ∧ "a" ∈ s'.removed ∧ RemovedGone s' := by
  obtain ⟨s, hrun, hrecorded, s', hrun', hremoved⟩ := orderly_readActions
  exact ⟨s, hrun.mono fun _ _ _ h => h.2, hrecorded, (removed_gone_records_kept hrun).2, s',
    hrun'.mono fun _ _ _ h => h.2, hremoved, (removed_gone_records_kept (hrun.append hrun')).1⟩

/--
Replica 1 has looked the session up. Then replica 0 removes it, and replica 1 still finds it; or
replica 0 records an upstream id and replica 1 touches the session, and Redis loses the upstream id.
-/
theorem replicas_disagree :
    (∃ s, Steps Step .start (readActions ++ [.remove 2 0 "a", .advance 2 0 3600000]) s ∧
      ¬ RemovedGone s) ∧
    ∃ s, Steps Step .start (readActions ++ [.setUpstream 2 0 "a" 7 "up-1", .advance 2 0 3600000,
      .touch 3 1 "a" 1000, .advance 3 1000 3600000]) s ∧ ¬ RecordsKept s := by
  constructor
  · refine ⟨_, .cons (.create rfl List.not_mem_nil) (.cons (.created rfl) (.cons (.cached rfl)
      (.cons (.getMiss rfl rfl) (.cons (.readHit rfl rfl) (.cons (.cached rfl)
        (.cons (.remove rfl) (.single (.removed rfl)))))))), fun hgone => ?_⟩
    have hnone := hgone "a" List.mem_cons_self ?_ 1 0
    · cases hnone
    · intro i c hc
      match i with
      | 0 => cases hc; exact nofun
      | 1 => cases hc; exact nofun
      | 2 => cases hc; exact nofun
      | n + 3 => cases hc
  · refine ⟨_, .cons (.create rfl List.not_mem_nil) (.cons (.created rfl) (.cons (.cached rfl)
      (.cons (.getMiss rfl rfl) (.cons (.readHit rfl rfl) (.cons (.cached rfl)
        (.cons (.setUpstream rfl (by decide) rfl) (.cons (.saved rfl)
          (.cons (.touch rfl rfl) (.single (.saved rfl)))))))))), fun hkept => ?_⟩
    have hcarries := hkept "a" ?_ 1000 _ rfl 7 "up-1" rfl
    · cases hcarries
    · intro i c hc
      match i with
      | 0 => cases hc; exact nofun
      | 1 => cases hc; exact nofun
      | 2 => cases hc; exact nofun
      | 3 => cases hc; exact nofun
      | n + 4 => cases hc

end ThinkWatch.Mcp.Replicas
