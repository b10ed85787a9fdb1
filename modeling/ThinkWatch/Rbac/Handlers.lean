import ThinkWatch.Policy.Constraints
import ThinkWatch.Rbac.Guards

/-!
# The handlers that change who may do what

`handlers/admin/users.rs`, `handlers/roles.rs` and `handlers/teams.rs`, each as a function of the
tables that refuses or returns the tables after its transaction. What a handler returns to the
caller is left out, except for the password that `reset_user_password` gives away; so are the audit
log, the API keys and what happens in Redis afterwards. Ids and passwords that the handler draws at
random are arguments.
-/

namespace ThinkWatch.Rbac

open Lib Policy

/-- What comes from other crates: the password hash, and the parser of UUIDs. -/
structure Env where
  hashPassword : String → String
  parseUuid : String → Option Uuid

/-! ## Statements on the tables -/

namespace Db

/-- `user_repository::exists`. -/
def userExists (db : Db) (id : Uuid) : Bool := db.users.any fun u => u.id = id && !u.deleted

def activeExists (db : Db) (id : Uuid) : Bool :=
  db.users.any fun u => u.id = id && u.isActive && !u.deleted

/-- `UPDATE users SET .. WHERE id = $1`. -/
def updateUserRow (db : Db) (id : Uuid) (f : UserRow → UserRow) : Db :=
  { db with users := db.users.map fun u => if u.id = id then f u else u }

def softDelete (db : Db) (id : Uuid) : Db :=
  db.updateUserRow id fun u =>
    if u.deleted then u else { u with deleted := true, isActive := false }

/-- `user_repository::delete_role_assignments`. -/
def deleteRoleAssignments (db : Db) (user : Uuid) : Db :=
  { db with assignments := db.assignments.filter (·.userId ≠ user) }

/-- `INSERT .. ON CONFLICT DO NOTHING`. -/
def insertAssignment (db : Db) (a : Assignment) : Db :=
  if a ∈ db.assignments then db else { db with assignments := db.assignments ++ [a] }

def hasTeam (db : Db) (id : Uuid) : Bool := db.teams.any (·.id = id)

def findRole (db : Db) (id : Uuid) : Option RoleRow := db.roles.find? (·.id = id)

/-- The foreign key of `scope_id`. -/
def hasScope (db : Db) : Scope → Bool
  | .global => true
  | .team t => db.hasTeam t

/-- `DELETE FROM rbac_roles WHERE id = $1 AND is_system = FALSE`, with its cascades. -/
def deleteCustom (db : Db) (id : Uuid) : Db :=
  if db.roles.any (fun r => r.id = id && !r.isSystem) then
    { db with
      roles := db.roles.filter (·.id ≠ id)
      assignments := db.assignments.filter (·.roleId ≠ id)
      teamRoles := db.teamRoles.filter (·.roleId ≠ id) }
  else db

/-- `role_repository::copy_assignments`. -/
def copyAssignments (db : Db) (src dst : Uuid) : Db :=
  (db.assignments.filter (·.roleId = src)).foldl
    (fun db a => db.insertAssignment { a with roleId := dst }) db

/-- `role_repository::delete_assignments`. -/
def deleteAssignments (db : Db) (role : Uuid) : Db :=
  { db with assignments := db.assignments.filter (·.roleId ≠ role) }

/-- `DELETE FROM teams WHERE id = $1`, with its cascades. -/
def deleteTeamRow (db : Db) (team : Uuid) : Db :=
  { db with
    teams := db.teams.filter (·.id ≠ team)
    assignments := db.assignments.filter (·.scope ≠ .team team)
    members := db.members.filter (·.teamId ≠ team)
    teamRoles := db.teamRoles.filter (·.teamId ≠ team) }

end Db

/-! ## Role assignments in requests -/

structure RoleAssignmentRequest where
  roleId : Uuid
  scope : Option String
deriving DecidableEq, Repr

def parseScope (env : Env) (input : String) : Except AppError Scope :=
  if trim input = "global" ∨ trim input = "" then .ok .global
  else
    match splitOnce ':' (trim input).toList with
    | some (kind, rest) => do
      let kind := trim (String.ofList kind)
      refuseIf (kind ≠ "team") (AppError.badRequest
        s!"Unknown scope kind '{kind}' (expected 'global' or 'team:<uuid>')")
      let id ← orRefuse (env.parseUuid (trim (String.ofList rest)))
        (AppError.badRequest s!"Invalid UUID in scope '{input}'")
      return .team id
    | none => .error (.badRequest
        s!"Invalid scope '{input}' (expected 'global' or 'team:<uuid>')")

/-- `user_repository::insert_role_assignment`, with its foreign keys. -/
def Db.insertRoleAssignment (db : Db) (a : Assignment) : Except AppError Db := do
  refuseIf (db.findRole a.roleId).isNone (AppError.badRequest s!"Unknown role id: {a.roleId}")
  refuseIf (db.hasScope a.scope = false) (AppError.internal "Database error")
  return db.insertAssignment a

/-- The inserts of `write_user_role_assignments`, one request entry after the other. -/
def Db.insertAll (env : Env) (user : Uuid) : Db → List RoleAssignmentRequest → Except AppError Db
  | db, [] => .ok db
  | db, a :: rest => do
    let scope ← parseScope env (a.scope.getD "global")
    let db ← db.insertRoleAssignment ⟨user, a.roleId, scope⟩
    insertAll env user db rest

def Db.writeUserRoleAssignments (db : Db) (env : Env) (user : Uuid)
    (assignments : List RoleAssignmentRequest) : Except AppError Db :=
  Db.insertAll env user (db.deleteRoleAssignments user) assignments

/-- Only who has them may hand out `super_admin` and `admin`. -/
def checkAssignable (callerRoles : List String) : List String → Except AppError Unit
  | [] => .ok ()
  | name :: names => do
    refuseIf (name = "super_admin" ∧ "super_admin" ∉ callerRoles)
      (AppError.forbidden "Only super_admin can assign the super_admin role")
    refuseIf (name = "admin" ∧ "super_admin" ∉ callerRoles ∧ "admin" ∉ callerRoles)
      (AppError.forbidden "Only admin/super_admin can assign the admin role")
    checkAssignable callerRoles names

/-! ## Users -/

structure CreateUserRequest where
  email : String
  displayName : String
  password : Option String
  roleAssignments : List RoleAssignmentRequest
deriving DecidableEq, Repr

/-- The password of a new user, and whether it has to be changed. -/
def initialPassword (generated : String) : Option String → Except AppError (String × Bool)
  | some p => do
    validatePassword p
    return (p, false)
  | none => .ok (generated, true)

def createUser (env : Env) (db : Db) (caller : AuthUser) (req : CreateUserRequest) (id : Uuid)
    (generated : String) : Except AppError Db := do
  caller.requireGlobalPermission db "users:create"
  let email := normalizeEmail req.email
  validateEmail email
  let (password, forceChange) ← initialPassword generated req.password
  checkAssignable (db.loadUserRoleNames caller.sub)
    (db.namesOf (req.roleAssignments.map (·.roleId)))
  refuseIf (db.users.any (·.email = email)) (AppError.conflict "Email already registered")
  refuseIf (db.users.any fun u => u.id = id || normalizeEmail u.email = email)
    (AppError.conflict "Resource already exists")
  let user : UserRow :=
    ⟨id, email, req.displayName, env.hashPassword password, forceChange, true, false⟩
  { db with users := db.users ++ [user] }.writeUserRoleAssignments env id req.roleAssignments

structure UpdateUserRequest where
  displayName : Option String
  isActive : Option Bool
  roleAssignments : Option (List RoleAssignmentRequest)
deriving DecidableEq, Repr

/-- What `update_user` asks of role assignments. -/
def checkRoleAssignments (db : Db) (caller : AuthUser) (user : Uuid) :
    Option (List RoleAssignmentRequest) → Except AppError Unit
  | none => .ok ()
  | some assignments => do
    caller.requireGlobalPermission db "roles:update"
    let callerRoles := db.loadUserRoleNames caller.sub
    let names := db.namesOf (assignments.map (·.roleId))
    checkAssignable callerRoles names
    refuseIf (user = caller.sub ∧ "super_admin" ∈ callerRoles ∧ "super_admin" ∉ names)
      (AppError.badRequest "Cannot remove your own super_admin role")

/-- What `update_user` checks before its transaction. -/
def updateUserChecks (db : Db) (caller : AuthUser) (user : Uuid) (req : UpdateUserRequest) :
    Except AppError Unit := do
  caller.requirePermission "users:update"
  caller.assertScopeForUser db "users:update" user
  refuseIf (req.isActive = some false ∧ user = caller.sub)
    (AppError.badRequest "Cannot deactivate your own account")
  refuseIf (db.userExists user = false) (AppError.notFound "User not found")
  checkRoleAssignments db caller user req.roleAssignments

/-- The columns of `users` that `update_user` sets. -/
def UpdateUserRequest.updateRow (req : UpdateUserRequest) (u : UserRow) : UserRow :=
  { u with
    displayName := (req.displayName.map trim).getD u.displayName
    isActive := req.isActive.getD u.isActive }

/-- What `update_user` writes inside its transaction. -/
def updateUserWrite (env : Env) (db : Db) (user : Uuid) (req : UpdateUserRequest) :
    Except AppError Db := do
  refuseIf (req.displayName.map trim = some "")
    (AppError.badRequest "Display name cannot be empty")
  let db := db.updateUserRow user req.updateRow
  match req.roleAssignments with
  | none => return db
  | some assignments => db.writeUserRoleAssignments env user assignments

/-- Disabling the user, or replacing the roles. -/
def UpdateUserRequest.touchesQuorum (req : UpdateUserRequest) : Bool :=
  req.isActive = some false || req.roleAssignments.isSome

def UpdateUserRequest.checkQuorum (req : UpdateUserRequest) (db : Db) : Except AppError Unit :=
  if req.touchesQuorum then db.assertSuperAdminQuorum else .ok ()

def updateUser (env : Env) (db : Db) (caller : AuthUser) (user : Uuid) (req : UpdateUserRequest) :
    Except AppError Db := do
  updateUserChecks db caller user req
  let db ← updateUserWrite env db user req
  req.checkQuorum db
  return db

def deleteUserChecks (db : Db) (caller : AuthUser) (user : Uuid) : Except AppError Unit := do
  caller.requirePermission "users:delete"
  refuseIf (user = caller.sub)
    (AppError.badRequest "Cannot delete your own account from admin panel")
  caller.assertScopeForUser db "users:delete" user

def deleteUserWrite (db : Db) (user : Uuid) : Except AppError Db := do
  refuseIf (db.userExists user = false) (AppError.notFound "User not found")
  return db.softDelete user

def deleteUser (db : Db) (caller : AuthUser) (user : Uuid) : Except AppError Db := do
  deleteUserChecks db caller user
  let db ← deleteUserWrite db user
  db.assertSuperAdminQuorum
  return db

/-- The tables, and the password that goes back to the caller. -/
def resetUserPassword (env : Env) (db : Db) (caller : AuthUser) (user : Uuid)
    (generated : String) : Except AppError (Db × String) := do
  caller.requirePermission "users:update"
  caller.assertScopeForUser db "users:update" user
  refuseIf (db.userExists user = false) (AppError.notFound "User not found")
  let db := db.updateUserRow user fun u =>
    { u with passwordHash := env.hashPassword generated, passwordChangeRequired := true }
  return (db, generated)

/-! ## Roles -/

/-- One Allow statement on every resource. -/
def allowDocument (sid : String) (action : Json) : Json :=
  .obj [("Version", .str "2024-01-01"),
    ("Statement", .arr [.obj [("Sid", .str sid), ("Effect", .str "Allow"), ("Action", action),
      ("Resource", .str "*")]])]

def actionList (actions : List String) : Json := .arr (actions.map .str)

/-- `SYSTEM_ROLE_DEFAULTS`. -/
def systemRoleDefaults : List (String × Json) :=
  [("super_admin", allowDocument "FullAccess" (.str "*")),
   ("admin", allowDocument "AdminAccess" (actionList
      ["ai_gateway:use", "mcp_gateway:use", "mcp:connect", "api_keys:read", "api_keys:create",
       "api_keys:update", "api_keys:rotate", "api_keys:delete", "api_keys:admin",
       "providers:read", "providers:create", "providers:update", "providers:delete",
       "providers:rotate_key", "models:read", "models:write", "mcp_servers:read",
       "mcp_servers:create", "mcp_servers:update", "mcp_servers:delete", "users:read",
       "users:create", "users:update", "teams:read", "teams:create", "teams:update",
       "teams:delete", "team_members:write", "sessions:revoke", "roles:read", "roles:create",
       "roles:update", "roles:delete", "analytics:read_all", "logs:read_all",
       "log_forwarders:read", "log_forwarders:write", "webhooks:read", "webhooks:write",
       "content_filter:read", "content_filter:write", "pii_redactor:read", "pii_redactor:write",
       "rate_limits:read", "rate_limits:write", "settings:read", "settings:write"])),
   ("team_manager", allowDocument "TeamManagement" (actionList
      ["ai_gateway:use", "mcp_gateway:use", "mcp:connect", "api_keys:read", "api_keys:create",
       "api_keys:update", "api_keys:rotate", "providers:read", "models:read", "mcp_servers:read",
       "users:read", "users:update", "team_members:write", "teams:read", "analytics:read_team",
       "rate_limits:read", "rate_limits:write"])),
   ("developer", allowDocument "DeveloperAccess" (actionList
      ["ai_gateway:use", "mcp_gateway:use", "mcp:connect", "api_keys:read", "api_keys:create",
       "api_keys:update", "providers:read", "models:read", "mcp_servers:read",
       "analytics:read_own"])),
   ("viewer", allowDocument "ViewerAccess" (actionList
      ["api_keys:read", "providers:read", "models:read", "mcp_servers:read",
       "analytics:read_own"]))]

def systemRoleDefaultPolicy (name : String) : Option Json := systemRoleDefaults.lookup name

structure CreateRoleRequest where
  name : String
  policyDocument : Json
deriving Repr

/-- Both checks of a document that comes in. -/
def checkDocument (doc : Json) : Except AppError Unit := do
  let _ ← (validatePolicyDocument doc).mapError .badRequest
  validatePolicyConstraintsInDoc doc

def createRole (db : Db) (caller : AuthUser) (req : CreateRoleRequest) (id : Uuid) :
    Except AppError Db := do
  caller.requireGlobalPermission db "roles:create"
  let name := trim req.name
  refuseIf (name = "" ∨ name.utf8ByteSize > 100)
    (AppError.badRequest "Role name must be 1-100 characters")
  checkDocument req.policyDocument
  refuseIf (db.roles.any (·.name = name))
    (AppError.badRequest s!"Role name '{name}' already exists")
  refuseIf (db.findRole id).isSome (AppError.conflict "Resource already exists")
  return { db with roles := db.roles ++ [⟨id, name, false, req.policyDocument⟩] }

structure UpdateRoleRequest where
  name : Option String
  policyDocument : Option Json
deriving Repr

/-- What it takes to edit a system role. -/
def checkSystemRole (db : Db) (caller : AuthUser) (existing : RoleRow) (req : UpdateRoleRequest) :
    Except AppError Unit :=
  if existing.isSystem then do
    caller.requireGlobalPermission db "roles:edit_system"
    refuseIf req.name.isSome (AppError.badRequest "Cannot rename system roles")
  else .ok ()

def checkNewDocument : Option Json → Except AppError Unit
  | none => .ok ()
  | some doc => checkDocument doc

/-- The columns of `rbac_roles` that `update_role` sets. -/
def UpdateRoleRequest.updateRow (req : UpdateRoleRequest) (r : RoleRow) : RoleRow :=
  { r with
    name := (req.name.map trim).getD r.name
    policyDocument := req.policyDocument.getD r.policyDocument }

def updateRole (db : Db) (caller : AuthUser) (id : Uuid) (req : UpdateRoleRequest) :
    Except AppError Db := do
  caller.requireGlobalPermission db "roles:update"
  let existing ← orRefuse (db.findRole id) (AppError.notFound "Role not found")
  checkSystemRole db caller existing req
  checkNewDocument req.policyDocument
  refuseIf (db.roles.any fun r => r.id ≠ id && req.name.map trim = some r.name)
    (AppError.conflict "Resource already exists")
  return { db with roles := db.roles.map fun r => if r.id = id then req.updateRow r else r }

def resetRole (db : Db) (caller : AuthUser) (id : Uuid) : Except AppError Db := do
  caller.requireGlobalPermission db "roles:edit_system"
  let existing ← orRefuse (db.findRole id) (AppError.notFound "Role not found")
  refuseIf (existing.isSystem = false)
    (AppError.badRequest "Reset is only available for system roles")
  let doc ← orRefuse (systemRoleDefaultPolicy existing.name)
    (AppError.badRequest s!"No defaults registered for system role '{existing.name}'")
  return { db with roles := db.roles.map fun r =>
    if r.id = id then { r with policyDocument := doc } else r }

/-- What `delete_role` checks before its transaction; how many assignments it has counted. -/
def deleteRoleChecks (db : Db) (caller : AuthUser) (id : Uuid) : Except AppError Nat := do
  caller.requireGlobalPermission db "roles:delete"
  let existing ← orRefuse (db.findRole id) (AppError.notFound "Role not found")
  refuseIf existing.isSystem (AppError.badRequest "Cannot delete system roles")
  return (db.assignments.filter (·.roleId = id)).length

/-- What it does about the users that still have the role. -/
def migrateAssignments (db : Db) (id : Uuid) (reassignTo : Option Uuid) (assigned : Nat) :
    Except AppError Db :=
  if assigned > 0 then
    match reassignTo with
    | none => .error (.badRequest (s!"Role still has {assigned} member(s). " ++
        "Pass reassign_to=<other_role_id> to migrate them."))
    | some target => do
      refuseIf (target = id) (AppError.badRequest "reassign_to must be a different role")
      refuseIf (db.findRole target).isNone (AppError.badRequest "reassign_to role not found")
      return (db.copyAssignments id target).deleteAssignments id
  else .ok db

def deleteRoleWrite (db : Db) (id : Uuid) (reassignTo : Option Uuid) (assigned : Nat) :
    Except AppError Db := do
  let db ← migrateAssignments db id reassignTo assigned
  return db.deleteCustom id

def deleteRole (db : Db) (caller : AuthUser) (id : Uuid) (reassignTo : Option Uuid) :
    Except AppError Db := do
  let assigned ← deleteRoleChecks db caller id
  deleteRoleWrite db id reassignTo assigned

/-! ## Teams -/

def maxTeamsPerUser : Nat := 10

def deleteTeamChecks (db : Db) (caller : AuthUser) (team : Uuid) : Except AppError Unit := do
  caller.requireGlobalPermission db "teams:delete"
  refuseIf (db.hasTeam team = false) (AppError.notFound "Team not found")

def deleteTeam (db : Db) (caller : AuthUser) (team : Uuid) : Except AppError Db := do
  deleteTeamChecks db caller team
  return db.deleteTeamRow team

/-- What the handlers of members check. -/
def memberChecks (db : Db) (caller : AuthUser) (team : Uuid) : Except AppError Unit := do
  caller.requirePermission "team_members:write"
  caller.assertScopeForTeam db "team_members:write" team

def addMember (db : Db) (caller : AuthUser) (team user : Uuid) : Except AppError Db := do
  memberChecks db caller team
  refuseIf (db.activeExists user = false) (AppError.notFound "User not found")
  -- `add_member_capped` inserts nothing when the row is there or the user is in enough teams
  if ⟨user, team⟩ ∈ db.members then return db
  refuseIf (maxTeamsPerUser ≤ (db.members.filter (·.userId = user)).length)
    (AppError.badRequest s!"User already belongs to {maxTeamsPerUser} teams (maximum)")
  refuseIf (db.hasTeam team = false) (AppError.internal "Database error")
  return { db with members := db.members ++ [⟨user, team⟩] }

def removeMemberWrite (db : Db) (team user : Uuid) : Except AppError Db := do
  refuseIf (⟨user, team⟩ ∉ db.members) (AppError.notFound "Member not found")
  return { db with members := db.members.filter (· ≠ ⟨user, team⟩) }

def removeMember (db : Db) (caller : AuthUser) (team user : Uuid) : Except AppError Db := do
  memberChecks db caller team
  removeMemberWrite db team user

/-- What the handlers of team roles check. -/
def teamRoleChecks (db : Db) (caller : AuthUser) (team : Uuid) : Except AppError Unit := do
  caller.requirePermission "teams:update"
  caller.assertScopeForTeam db "teams:update" team

def assignTeamRole (db : Db) (caller : AuthUser) (team role : Uuid) : Except AppError Db := do
  teamRoleChecks db caller team
  if ⟨team, role⟩ ∈ db.teamRoles then return db
  refuseIf (db.hasTeam team = false ∨ (db.findRole role).isNone)
    (AppError.internal "Database error")
  return { db with teamRoles := db.teamRoles ++ [⟨team, role⟩] }

/-- `team_repository::remove_role`. -/
def Db.deleteTeamRole (db : Db) (team role : Uuid) : Db :=
  { db with teamRoles := db.teamRoles.filter (· ≠ ⟨team, role⟩) }

def removeTeamRole (db : Db) (caller : AuthUser) (team role : Uuid) : Except AppError Db := do
  teamRoleChecks db caller team
  return db.deleteTeamRole team role

/-! ## Requests -/

/-- A request to one of the handlers. -/
inductive Request where
  | createUser (req : CreateUserRequest) (id : Uuid) (generated : String)
  | updateUser (user : Uuid) (req : UpdateUserRequest)
  | deleteUser (user : Uuid)
  | resetUserPassword (user : Uuid) (generated : String)
  | createRole (req : CreateRoleRequest) (id : Uuid)
  | updateRole (id : Uuid) (req : UpdateRoleRequest)
  | resetRole (id : Uuid)
  | deleteRole (id : Uuid) (reassignTo : Option Uuid)
  | deleteTeam (team : Uuid)
  | addMember (team user : Uuid)
  | removeMember (team user : Uuid)
  | assignTeamRole (team role : Uuid)
  | removeTeamRole (team role : Uuid)

/-- A request with its caller. -/
structure Call where
  caller : AuthUser
  request : Request

def handle (env : Env) (db : Db) (call : Call) : Except AppError Db :=
  match call.request with
  | .createUser req id generated => createUser env db call.caller req id generated
  | .updateUser user req => updateUser env db call.caller user req
  | .deleteUser user => deleteUser db call.caller user
  | .resetUserPassword user generated =>
    (resetUserPassword env db call.caller user generated).map Prod.fst
  | .createRole req id => createRole db call.caller req id
  | .updateRole id req => updateRole db call.caller id req
  | .resetRole id => resetRole db call.caller id
  | .deleteRole id reassignTo => deleteRole db call.caller id reassignTo
  | .deleteTeam team => deleteTeam db call.caller team
  | .addMember team user => addMember db call.caller team user
  | .removeMember team user => removeMember db call.caller team user
  | .assignTeamRole team role => assignTeamRole db call.caller team role
  | .removeTeamRole team role => removeTeamRole db call.caller team role

end ThinkWatch.Rbac
