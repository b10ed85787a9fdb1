import ThinkWatch.Rbac.Tables

/-!
# Permission and scope checks

`AuthUser` of `middleware/auth_guard.rs`. `require_permission` looks at the permissions that were
loaded for the request, `assert_scope_*` at the tables as they are. The three scope checks are one
query with a different test of the scope of a direct assignment; a role that comes through a team
counts at every scope.
-/

namespace ThinkWatch.Rbac

open Lib Policy

/-- The caller of a request: `claims.sub`, and the permissions loaded when the request came in. -/
structure AuthUser where
  sub : Uuid
  permissions : List String
  deniedPermissions : List String
deriving DecidableEq, Repr

/-- The permissions as they are computed from the tables, without a cache. -/
def AuthUser.load (db : Db) (user : Uuid) : AuthUser :=
  let permissions := computeUserPermissions (db.loadUserPolicyDocuments user) allPermissionKeys
  ⟨user, permissions, computeDeniedPermissions (db.loadUserPolicyDocuments user) permissions⟩

def AuthUser.requirePermission (u : AuthUser) (perm : String) : Except AppError Unit := do
  refuseIf (perm ∈ u.deniedPermissions)
    (AppError.forbidden s!"Permission explicitly denied: {perm}")
  refuseIf (perm ∉ u.permissions) (AppError.forbidden s!"Missing required permission: {perm}")

/-! ## Scopes -/

/-- `JOIN rbac_roles r ON r.id = role_id`, and a statement of the role allows `perm`. -/
def Db.roleAllows (db : Db) (perm : String) (role : Uuid) : Option Bool :=
  (db.roles.filter (·.id = role)).anyM fun r => docAllows perm r.policyDocument

/-- The direct assignments of `user` at a scope that passes `test`. -/
def Db.grantedDirectly (db : Db) (user : Uuid) (perm : String) (test : Scope → Bool) :
    Option Bool :=
  (db.assignments.filter fun a => a.userId = user && test a.scope).anyM fun a =>
    db.roleAllows perm a.roleId

/-- The roles of the teams of `user`. -/
def Db.grantedByTeam (db : Db) (user : Uuid) (perm : String) : Option Bool :=
  (db.members.filter (·.userId = user)).anyM fun m =>
    (db.teamRoles.filter (·.teamId = m.teamId)).anyM fun tr => db.roleAllows perm tr.roleId

/-- `SELECT EXISTS (direct UNION ALL through a team)`; `none` is an error of the query. -/
def Db.granted (db : Db) (user : Uuid) (perm : String) (test : Scope → Bool) : Option Bool := do
  if ← db.grantedDirectly user perm test then return true
  db.grantedByTeam user perm

/-- The part the scope checks share. -/
def AuthUser.assertScope (u : AuthUser) (db : Db) (perm : String) (test : Scope → Bool)
    (msg : String) : Except AppError Unit := do
  let has ← orRefuse (db.granted u.sub perm test) (AppError.internal "scope check failed")
  refuseIf (has = false) (AppError.forbidden msg)

def AuthUser.assertScopeGlobal (u : AuthUser) (db : Db) (perm : String) : Except AppError Unit :=
  u.assertScope db perm (· = .global)
    s!"{perm} requires global scope (this is a platform-wide resource)"

/-- A scope that covers the members of a team the target is in. -/
def Db.coversUser (db : Db) (target : Uuid) : Scope → Bool
  | .global => true
  | .team t => ⟨target, t⟩ ∈ db.members

def AuthUser.assertScopeForUser (u : AuthUser) (db : Db) (perm : String) (target : Uuid) :
    Except AppError Unit :=
  if u.sub = target then .ok ()
  else u.assertScope db perm (db.coversUser target)
    s!"{perm} not granted in any scope covering this user"

def coversTeam (target : Uuid) : Scope → Bool
  | .global => true
  | .team t => t = target

def AuthUser.assertScopeForTeam (u : AuthUser) (db : Db) (perm : String) (target : Uuid) :
    Except AppError Unit :=
  u.assertScope db perm (coversTeam target)
    s!"{perm} not granted in any scope covering team {target}"

def AuthUser.requireGlobalPermission (u : AuthUser) (db : Db) (perm : String) :
    Except AppError Unit := do
  u.requirePermission perm
  u.assertScopeGlobal db perm

/-! ## What a passed check means -/

theorem granted_of_assertScope {u : AuthUser} {db : Db} {perm msg : String} {test : Scope → Bool}
    {x : Unit} (h : u.assertScope db perm test msg = .ok x) :
    db.granted u.sub perm test = some true := by
  unfold AuthUser.assertScope at h
  rw [bind_ok] at h
  obtain ⟨has, hhas, h⟩ := h
  rw [orRefuse_ok] at hhas
  rw [refuseIf_ok] at h
  rw [hhas, Bool.eq_true_of_not_eq_false h]

/-- A grant is direct, at a scope that passes, or comes through a team. -/
theorem Db.granted_cases {db : Db} {user : Uuid} {perm : String} {test : Scope → Bool}
    (h : db.granted user perm test = some true) :
    (∃ a ∈ db.assignments, a.userId = user ∧ test a.scope = true ∧
        db.roleAllows perm a.roleId = some true) ∨
      db.grantedByTeam user perm = some true := by
  unfold granted at h
  simp only [Option.bind_eq_bind, Option.bind_eq_some_iff] at h
  obtain ⟨b, hb, h⟩ := h
  cases b with
  | true =>
    obtain ⟨a, ha, hrole⟩ := exists_of_anyM hb
    obtain ⟨ha, hcond⟩ := List.mem_filter.mp ha
    rw [Bool.and_eq_true, decide_eq_true_eq] at hcond
    exact Or.inl ⟨a, ha, hcond.1, hcond.2, hrole⟩
  | false => exact Or.inr h

end ThinkWatch.Rbac
