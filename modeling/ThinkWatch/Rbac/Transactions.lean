import ThinkWatch.Lib.Run
import ThinkWatch.Rbac.Effects

/-!
# The removals as interleaved transactions

The requests that can take a role away, at the granularity at which they interleave. `update_user`
(when it disables the user or replaces the roles) and `delete_user` run one at a time under the
advisory lock: their writes are seen by the count of `assert_super_admin_quorum` and by nobody else
before the commit. `delete_role` copies the assignments in one statement and deletes the role in
later ones. What the others write is one statement.

A request makes its checks before any of this, and they can only make it refuse. The system does
not ask them, so that its runs have every order of checks and writes among them.
-/

namespace ThinkWatch.Rbac

open Lib Policy

/-! ## Under the lock -/

/-- The same user, no less active. -/
structure UserRow.Below (u v : UserRow) : Prop where
  id : u.id = v.id
  active : u.isActive = true → v.isActive = true
  deleted : u.deleted = v.deleted

/-- What a transaction under the lock has written and not committed. -/
structure Pending where
  user : Uuid
  row : UserRow → UserRow
  removed : List Assignment
  added : List Assignment
  row_mono : ∀ {u v : UserRow}, u.Below v → (row u).Below (row v)

/-- The tables as the transaction sees them, and as its commit leaves them. -/
def Pending.visible (p : Pending) (db : Db) : Db :=
  { db.updateUserRow p.user p.row with
    assignments := db.assignments.filter (· ∉ p.removed) ++ p.added }

theorem UpdateUserRequest.updateRow_mono (req : UpdateUserRequest) {u v : UserRow}
    (h : u.Below v) : (req.updateRow u).Below (req.updateRow v) where
  id := h.id
  active := by
    unfold updateRow
    cases req.isActive with
    | none => exact h.active
    | some b => exact fun hb => hb
  deleted := h.deleted

/-- What `soft_delete` does to the row. -/
def UserRow.softDeleted (u : UserRow) : UserRow :=
  if u.deleted then u else { u with deleted := true, isActive := false }

theorem UserRow.softDeleted_mono {u v : UserRow} (h : u.Below v) :
    u.softDeleted.Below v.softDeleted := by
  unfold softDeleted
  rw [h.deleted]
  split
  · exact h
  · exact ⟨h.id, nofun, rfl⟩

/-- A request whose transaction takes the lock. -/
inductive Guarded where
  | updateUser (user : Uuid) (req : UpdateUserRequest) (touches : req.touchesQuorum = true)
  | deleteUser (user : Uuid)

/-- The writes of the transaction, up to the count. -/
def Guarded.write (env : Env) (db : Db) : Guarded → Except AppError Db
  | .updateUser user req _ => updateUserWrite env db user req
  | .deleteUser user => deleteUserWrite db user

def Db.assignmentsOf (db : Db) (user : Uuid) : List Assignment :=
  db.assignments.filter (·.userId = user)

theorem Db.userId_of_mem_assignmentsOf {db : Db} {user : Uuid} {a : Assignment}
    (h : a ∈ db.assignmentsOf user) : a.userId = user := by
  simpa using (List.mem_filter.mp h).2

/-- The writes of `update_user` that take `db` to `db'`, held back until the commit. -/
def UpdateUserRequest.pending (req : UpdateUserRequest) (user : Uuid) (db db' : Db) : Pending :=
  if req.roleAssignments.isSome then
    ⟨user, req.updateRow, db.assignmentsOf user, db'.assignmentsOf user, req.updateRow_mono⟩
  else ⟨user, req.updateRow, [], [], req.updateRow_mono⟩

def Guarded.pending (db db' : Db) : Guarded → Pending
  | .updateUser user req _ => req.pending user db db'
  | .deleteUser user => ⟨user, UserRow.softDeleted, [], [], UserRow.softDeleted_mono⟩

/-! ## Without the lock -/

/-- A request that writes in one statement, or on one row. -/
inductive Write where
  | updateUser (user : Uuid) (req : UpdateUserRequest) (spares : req.touchesQuorum = false)
  | deleteTeam (team : Uuid)
  | removeMember (team user : Uuid)
  | removeTeamRole (team role : Uuid)

def Write.apply (env : Env) (db : Db) : Write → Except AppError Db
  | .updateUser user req _ => updateUserWrite env db user req
  | .deleteTeam team => .ok (db.deleteTeamRow team)
  | .removeMember team user => removeMemberWrite db team user
  | .removeTeamRole team role => .ok (db.deleteTeamRole team role)

/-- A `delete_role` that has copied the assignments, if it has counted any. -/
structure RoleDeletion where
  id : Uuid
  migrates : Bool
  added : List Assignment
deriving DecidableEq

def Db.startDeletion (db : Db) (id : Uuid) (reassignTo : Option Uuid) (assigned : Nat) :
    Except AppError RoleDeletion := do
  let db' ← migrateAssignments db id reassignTo assigned
  return ⟨id, assigned > 0, db'.assignments.filter (· ∉ db.assignments)⟩

/-- The deletes, and the commit of the copies. -/
def RoleDeletion.finish (d : RoleDeletion) (db : Db) : Db :=
  Db.deleteCustom
    { db with assignments :=
        (if d.migrates then db.assignments.filter (·.roleId ≠ d.id) else db.assignments)
          ++ d.added } d.id

/-! ## The system -/

/-- The transaction that has the lock, and whether its count has passed. -/
structure Transaction where
  pending : Pending
  counted : Bool

structure Sys where
  db : Db
  tx : Option Transaction
  deletions : List RoleDeletion

def Sys.idle (db : Db) : Sys := ⟨db, none, []⟩

inductive Action where
  | write (w : Write)
  | copy (id : Uuid) (reassignTo : Option Uuid) (assigned : Nat)
  | finish (d : RoleDeletion)
  | lock (g : Guarded)
  | count
  | commit
  | rollback

inductive Step (env : Env) : Sys → Action → Sys → Prop where
  | write {s : Sys} {w : Write} {db' : Db} (h : w.apply env s.db = .ok db') :
      Step env s (.write w) { s with db := db' }
  | copy {s : Sys} {id : Uuid} {reassignTo : Option Uuid} {assigned : Nat} {d : RoleDeletion}
      (h : s.db.startDeletion id reassignTo assigned = .ok d) :
      Step env s (.copy id reassignTo assigned) { s with deletions := d :: s.deletions }
  | finish {s : Sys} {d : RoleDeletion} (h : d ∈ s.deletions) :
      Step env s (.finish d) { s with db := d.finish s.db, deletions := s.deletions.erase d }
  | lock {s : Sys} {g : Guarded} {db' : Db} (free : s.tx = none)
      (h : g.write env s.db = .ok db') :
      Step env s (.lock g) { s with tx := some ⟨g.pending s.db db', false⟩ }
  | count {s : Sys} {tx : Transaction} (htx : s.tx = some tx)
      (h : (tx.pending.visible s.db).assertSuperAdminQuorum = .ok ()) :
      Step env s .count { s with tx := some { tx with counted := true } }
  | commit {s : Sys} {tx : Transaction} (htx : s.tx = some tx) (counted : tx.counted = true) :
      Step env s .commit { s with db := tx.pending.visible s.db, tx := none }
  | rollback {s : Sys} {tx : Transaction} (htx : s.tx = some tx) :
      Step env s .rollback { s with tx := none }

/-! ## One request after the other -/

section Sequential

variable {env : Env} {db db' : Db}

/-- The rows of the user go, and the new ones are all rows of the user. -/
theorem replaced_assignments (as : List Assignment) {user : Uuid} {added : List Assignment}
    (hadded : ∀ a ∈ added, a.userId = user) :
    (as.filter (·.userId ≠ user) ++ added).filter (·.userId = user) = added ∧
      as.filter (· ∉ as.filter (·.userId = user)) = as.filter (·.userId ≠ user) := by
  constructor
  · rw [List.filter_append, List.filter_filter, List.filter_eq_nil_iff.mpr, List.nil_append,
      List.filter_eq_self.mpr]
    · intro a ha
      simpa using hadded a ha
    · intro a _
      simp
  · refine List.filter_congr fun a ha => ?_
    simp [ha]

theorem filter_not_mem_nil (as : List Assignment) :
    as.filter (· ∉ ([] : List Assignment)) = as :=
  List.filter_eq_self.mpr fun a _ => by simp

theorem UpdateUserRequest.visible_pending {req : UpdateUserRequest} {user : Uuid}
    (h : updateUserWrite env db user req = .ok db') :
    (req.pending user db db').visible db = db' := by
  rcases updateUserWrite_ok h with ⟨has, rfl⟩ | ⟨as, added, has, rfl, hadded⟩
  · rw [pending, has, if_neg (by simp), Pending.visible, filter_not_mem_nil, List.append_nil]
    rfl
  · obtain ⟨hnew, hold⟩ := replaced_assignments db.assignments fun a ha => (hadded a ha).1
    rw [pending, has, Option.isSome_some, if_pos rfl, Pending.visible, Db.assignmentsOf,
      Db.assignmentsOf, hold, hnew]

/-- What a transaction holds back is what its statements write. -/
theorem Guarded.visible_pending {g : Guarded} (h : g.write env db = .ok db') :
    (g.pending db db').visible db = db' := by
  cases g with
  | updateUser user req touches => exact UpdateUserRequest.visible_pending h
  | deleteUser user =>
    obtain rfl := deleteUserWrite_ok h
    rw [Guarded.pending, Pending.visible, filter_not_mem_nil, List.append_nil]
    rfl

/-- A transaction with nothing in between. -/
theorem Guarded.run {g : Guarded} (h : g.write env db = .ok db')
    (hcount : db'.assertSuperAdminQuorum = .ok ()) :
    Steps (Step env) (.idle db) [.lock g, .count, .commit] (.idle db') := by
  have hvisible := Guarded.visible_pending h
  have hcommit := @Step.commit env ⟨db, some ⟨g.pending db db', true⟩, []⟩ _ rfl rfl
  rw [hvisible] at hcommit
  refine .cons (.lock rfl h) (.cons (.count rfl ?_) (.single hcommit))
  rw [← hcount]
  exact congrArg Db.assertSuperAdminQuorum hvisible

theorem startDeletion_ok {id : Uuid} {reassignTo : Option Uuid} {assigned : Nat}
    (h : deleteRoleWrite db id reassignTo assigned = .ok db') :
    ∃ d, db.startDeletion id reassignTo assigned = .ok d ∧ d.id = id ∧ d.finish db = db' := by
  obtain ⟨db₁, hmigrate, rfl⟩ := deleteRoleWrite_ok h
  refine ⟨_, by rw [Db.startDeletion, hmigrate]; rfl, rfl, ?_⟩
  rcases migrateAssignments_ok hmigrate with
    ⟨rfl, rfl⟩ | ⟨target, added, hpos, -, hne, -, rfl, hadded⟩
  · have hnone : db₁.assignments.filter (· ∉ db₁.assignments) = [] :=
      List.filter_eq_nil_iff.mpr fun a ha => by simpa using ha
    rw [RoleDeletion.finish, hnone, List.append_nil]
    rfl
  · have hkept : added.filter (·.roleId ≠ id) = added :=
      List.filter_eq_self.mpr fun a ha => by rw [(hadded a ha).1]; simpa using hne
    have hnew : ((db.assignments ++ added).filter (·.roleId ≠ id)).filter (· ∉ db.assignments)
        = added := by
      rw [List.filter_append, hkept, List.filter_append, List.filter_eq_nil_iff.mpr,
        List.nil_append, List.filter_eq_self.mpr]
      · intro a ha
        simpa using (hadded a ha).2.1
      · intro a ha
        simpa using (List.mem_filter.mp ha).1
    rw [RoleDeletion.finish, hnew, List.filter_append, hkept]
    simp [hpos]

/-- The requests of the system. -/
def Request.removes : Request → Bool
  | .updateUser .. | .deleteUser .. | .deleteRole .. | .deleteTeam .. | .removeMember ..
  | .removeTeamRole .. => true
  | _ => false

/-- A successful request is a run of the system. -/
theorem handle_run {call : Call} (hremoves : call.request.removes = true)
    (h : handle env db call = .ok db') :
    ∃ acts, Steps (Step env) (.idle db) acts (.idle db') := by
  obtain ⟨caller, request⟩ := call
  cases request with
  | updateUser user req =>
    obtain ⟨-, hwrite, hquorum⟩ := updateUser_ok h
    cases touches : req.touchesQuorum with
    | true =>
      rw [UpdateUserRequest.checkQuorum, if_pos touches] at hquorum
      exact ⟨_, Guarded.run (g := .updateUser user req touches) hwrite hquorum⟩
    | false => exact ⟨_, .single (.write (w := .updateUser user req touches) hwrite)⟩
  | deleteUser user =>
    obtain ⟨hwrite, hquorum⟩ := deleteUser_ok h
    exact ⟨_, Guarded.run (g := .deleteUser user) hwrite hquorum⟩
  | deleteRole id reassignTo =>
    obtain ⟨assigned, h⟩ := deleteRole_ok h
    obtain ⟨d, hstart, -, rfl⟩ := startDeletion_ok h
    refine ⟨[.copy id reassignTo assigned, .finish d], .cons (.copy hstart) (.single ?_)⟩
    have hfinish := @Step.finish env ⟨db, none, [d]⟩ d (List.mem_singleton_self d)
    rwa [List.erase_cons_head] at hfinish
  | deleteTeam team =>
    obtain rfl := deleteTeam_ok h
    exact ⟨_, .single (.write (w := .deleteTeam team) rfl)⟩
  | removeMember team user =>
    obtain ⟨-, -, h⟩ := bind_ok.mp h
    exact ⟨_, .single (.write (w := .removeMember team user) h)⟩
  | removeTeamRole team role =>
    obtain rfl := removeTeamRole_ok h
    exact ⟨_, .single (.write (w := .removeTeamRole team role) rfl)⟩
  | _ => cases hremoves

end Sequential

end ThinkWatch.Rbac
