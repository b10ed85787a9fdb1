import ThinkWatch.Policy.Matchers
import ThinkWatch.Validation

/-!
# Users, teams, roles and assignments

The tables of `db/schema.sql` that decide who may do what, with the queries of
`crates/auth/src/rbac.rs` and `services/rbac_service.rs`. Columns that no modelled function reads
(timestamps, descriptions, OIDC and TOTP data, `assigned_by`) are left out.
-/

namespace ThinkWatch.Rbac

open Lib Policy

/-! ## The tables -/

structure UserRow where
  id : Uuid
  email : String
  displayName : String
  passwordHash : String
  passwordChangeRequired : Bool
  isActive : Bool
  deleted : Bool
deriving DecidableEq, Repr

structure TeamRow where
  id : Uuid
  name : String
deriving DecidableEq, Repr

structure RoleRow where
  id : Uuid
  name : String
  isSystem : Bool
  policyDocument : Json
deriving Repr

/-- `(scope_kind, scope_id)`, as `chk_scope_consistency` has it. -/
inductive Scope where
  | global
  | team (id : Uuid)
deriving DecidableEq, Repr

/-- A row of `rbac_role_assignments`. -/
structure Assignment where
  userId : Uuid
  roleId : Uuid
  scope : Scope
deriving DecidableEq, Repr

/-- A row of `team_members`. -/
structure Member where
  userId : Uuid
  teamId : Uuid
deriving DecidableEq, Repr

/-- A row of `team_role_assignments`. -/
structure TeamRole where
  teamId : Uuid
  roleId : Uuid
deriving DecidableEq, Repr

structure Db where
  users : List UserRow
  teams : List TeamRow
  roles : List RoleRow
  assignments : List Assignment
  members : List Member
  teamRoles : List TeamRole
deriving Repr

/-- The foreign keys that point to `rbac_roles`. -/
structure Db.Valid (db : Db) : Prop where
  assignmentRole : ∀ a ∈ db.assignments, ∃ r ∈ db.roles, r.id = a.roleId
  teamRoleRole : ∀ tr ∈ db.teamRoles, ∃ r ∈ db.roles, r.id = tr.roleId

/-! ## Who holds which role -/

/-- The ids of the roles of a user: assigned at any scope, or attached to a team of theirs. -/
def Db.roleIdsOf (db : Db) (user : Uuid) : List Uuid :=
  (db.assignments.filter (·.userId = user)).map (·.roleId) ++
    (db.members.filter (·.userId = user)).flatMap fun m =>
      (db.teamRoles.filter (·.teamId = m.teamId)).map (·.roleId)

/-- The roles with these ids. -/
def Db.rolesIn (db : Db) (ids : List Uuid) : List RoleRow := db.roles.filter (·.id ∈ ids)

def Db.loadUserRoleNames (db : Db) (user : Uuid) : List String :=
  btreeSet ((db.rolesIn (db.roleIdsOf user)).map (·.name))

/-- `load_user_policy_documents`. Everything that reads the list asks only what is in it. -/
def Db.loadUserPolicyDocuments (db : Db) (user : Uuid) : List Json :=
  (db.rolesIn (db.roleIdsOf user)).map (·.policyDocument)

/-- The ids of the roles that count at the gateways: without those assigned at a team's scope. -/
def Db.gatewayRoleIdsOf (db : Db) (user : Uuid) : List Uuid :=
  (db.assignments.filter fun a => a.userId = user && a.scope = .global).map (·.roleId) ++
    (db.members.filter (·.userId = user)).flatMap fun m =>
      (db.teamRoles.filter (·.teamId = m.teamId)).map (·.roleId)

/-- `load_gateway_policy_documents`. -/
def Db.loadGatewayPolicyDocuments (db : Db) (user : Uuid) : List Json :=
  (db.rolesIn (db.gatewayRoleIdsOf user)).map (·.policyDocument)

/-- `role_repository::names_of`. -/
def Db.namesOf (db : Db) (ids : List Uuid) : List String := (db.rolesIn ids).map (·.name)

/-- The user has an assignment of the role, or is in a team that has it. -/
def Db.Linked (db : Db) (user role : Uuid) : Prop :=
  (∃ a ∈ db.assignments, a.userId = user ∧ a.roleId = role) ∨
    ∃ m ∈ db.members, ∃ tr ∈ db.teamRoles, m.userId = user ∧ tr.teamId = m.teamId ∧ tr.roleId = role

/-- The user holds a role of this name. -/
def Db.Holds (db : Db) (user : Uuid) (name : String) : Prop := name ∈ db.loadUserRoleNames user

instance (db : Db) (user : Uuid) (name : String) : Decidable (db.Holds user name) :=
  inferInstanceAs (Decidable (name ∈ db.loadUserRoleNames user))

theorem Db.mem_roleIdsOf {db : Db} {user role : Uuid} :
    role ∈ db.roleIdsOf user ↔ db.Linked user role := by
  unfold roleIdsOf Linked
  rw [List.mem_append, List.mem_map, List.mem_flatMap]
  refine or_congr ?_ ?_
  · constructor
    · rintro ⟨a, ha, hrole⟩
      obtain ⟨ha, huser⟩ := List.mem_filter.mp ha
      exact ⟨a, ha, by simpa using huser, hrole⟩
    · rintro ⟨a, ha, huser, hrole⟩
      exact ⟨a, List.mem_filter.mpr ⟨ha, by simpa using huser⟩, hrole⟩
  · constructor
    · rintro ⟨m, hm, hrole⟩
      obtain ⟨hm, huser⟩ := List.mem_filter.mp hm
      obtain ⟨tr, htr, hrole⟩ := List.mem_map.mp hrole
      obtain ⟨htr, hteam⟩ := List.mem_filter.mp htr
      exact ⟨m, hm, tr, htr, by simpa using huser, by simpa using hteam, hrole⟩
    · rintro ⟨m, hm, tr, htr, huser, hteam, hrole⟩
      refine ⟨m, List.mem_filter.mpr ⟨hm, by simpa using huser⟩, List.mem_map.mpr ⟨tr, ?_, hrole⟩⟩
      exact List.mem_filter.mpr ⟨htr, by simpa using hteam⟩

theorem Db.holds_iff {db : Db} {user : Uuid} {name : String} :
    db.Holds user name ↔ ∃ r ∈ db.roles, r.name = name ∧ db.Linked user r.id := by
  unfold Holds loadUserRoleNames
  rw [mem_btreeSet, List.mem_map]
  refine exists_congr fun r => ?_
  rw [rolesIn, List.mem_filter, decide_eq_true_eq, mem_roleIdsOf]
  exact ⟨fun ⟨⟨hr, hl⟩, hn⟩ => ⟨hr, hn, hl⟩, fun ⟨hr, hn, hl⟩ => ⟨⟨hr, hl⟩, hn⟩⟩

theorem Db.mem_namesOf {db : Db} {ids : List Uuid} {name : String} :
    name ∈ db.namesOf ids ↔ ∃ r ∈ db.roles, r.name = name ∧ r.id ∈ ids := by
  unfold namesOf
  rw [List.mem_map]
  refine exists_congr fun r => ?_
  rw [rolesIn, List.mem_filter, decide_eq_true_eq]
  exact ⟨fun ⟨⟨hr, hid⟩, hn⟩ => ⟨hr, hn, hid⟩, fun ⟨hr, hn, hid⟩ => ⟨⟨hr, hid⟩, hn⟩⟩

/-! ## The quorum -/

/-- The ids that `assert_super_admin_quorum` counts: active holders, at whatever scope. -/
def Db.superAdminIds (db : Db) : List Uuid :=
  ((db.users.filter fun u => u.isActive && !u.deleted).map (·.id)).filter
    fun id => db.Holds id "super_admin"

/-- `assert_super_admin_quorum`. -/
def Db.assertSuperAdminQuorum (db : Db) : Except AppError Unit :=
  refuseIf (db.superAdminIds.dedup.length = 0)
    (.badRequest ("Operation would leave the platform with zero active super admins. " ++
      "Add another super admin (directly or via a team role) before continuing."))

end ThinkWatch.Rbac
