import ThinkWatch.Rbac.SuperAdmin

/-!
# How far a team-scoped grant reaches

`reset_user_password` and `update_user` ask only that the target is in a team the caller manages;
the handlers that assign roles compare the roles of caller and target, these two do not. A manager
with `team_members:write` can bring anybody into the team first.

`team_scope_reaches_no_admin`: in a run in which neither is called for a user who is in a team the
caller manages and has `super_admin` or `admin` that the caller has not (`SparesManaged`), they
succeed against no such user at all.
-/

namespace ThinkWatch.Rbac

open Lib Policy

/-- All grants of `perm` to the user are assignments scoped to a team. -/
def TeamScoped (db : Db) (user : Uuid) (perm : String) : Prop :=
  (∀ a ∈ db.assignments, a.userId = user → db.roleAllows perm a.roleId = some true →
      a.scope ≠ .global) ∧
    ∀ m ∈ db.members, ∀ tr ∈ db.teamRoles, m.userId = user → tr.teamId = m.teamId →
      db.roleAllows perm tr.roleId ≠ some true

instance (db : Db) (user : Uuid) (perm : String) : Decidable (TeamScoped db user perm) :=
  inferInstanceAs (Decidable (_ ∧ _))

/-- The target has one of the two administrator roles and the caller has not. -/
def Outranks (db : Db) (target caller : Uuid) : Prop :=
  ∃ name ∈ ["super_admin", "admin"], db.Holds target name ∧ ¬ db.Holds caller name

instance (db : Db) (target caller : Uuid) : Decidable (Outranks db target caller) :=
  inferInstanceAs (Decidable (∃ name ∈ ["super_admin", "admin"], _ ∧ _))

/-- The user that a request takes over or shuts out. -/
def target : Request → Option Uuid
  | .resetUserPassword user _ => some user
  | .updateUser user req => if req.isActive = some false then some user else none
  | _ => none

/-- The request is not aimed at a user above its caller. -/
def ReachesNoAdmin (db : Db) (call : Call) : Prop :=
  ∀ user, target call.request = some user → ¬ Outranks db user call.caller.sub

/-- The user is in a team on which the caller may update users. -/
def Manages (db : Db) (caller user : Uuid) : Prop :=
  ∃ a ∈ db.assignments, a.userId = caller ∧ db.roleAllows "users:update" a.roleId = some true ∧
    ∃ m ∈ db.members, m.userId = user ∧ a.scope = .team m.teamId

instance (db : Db) (caller user : Uuid) : Decidable (Manages db caller user) :=
  inferInstanceAs (Decidable (∃ a ∈ db.assignments, _))

/-- The request is not aimed at a user whom the caller manages and who is above the caller. -/
def SparesManaged (db : Db) (call : Call) : Prop :=
  ∀ user, target call.request = some user → Manages db call.caller.sub user →
    ¬ Outranks db user call.caller.sub

/-- The callers of the run: their grants on users and members are scoped to teams. -/
def ByTeamManager (db : Db) (call : Call) : Prop :=
  TeamScoped db call.caller.sub "users:update" ∧ TeamScoped db call.caller.sub "team_members:write"

instance (db : Db) (call : Call) : Decidable (ByTeamManager db call) :=
  inferInstanceAs (Decidable (_ ∧ _))

/-! ## One request -/

section Step

variable {env : Env} {db db' : Db} {call : Call}

theorem not_outranks_self (db : Db) (user : Uuid) : ¬ Outranks db user user := by
  rintro ⟨name, -, hholds, hnot⟩
  exact hnot hholds

/-- A team-scoped grant covers the caller and the members of the caller's teams. -/
theorem covered_of_assertScopeForUser {caller : AuthUser} {user : Uuid}
    (hteam : TeamScoped db caller.sub "users:update")
    (h : caller.assertScopeForUser db "users:update" user = .ok ()) :
    caller.sub = user ∨ Manages db caller.sub user := by
  unfold AuthUser.assertScopeForUser at h
  split at h
  · next heq => exact Or.inl heq
  · rcases Db.granted_cases (granted_of_assertScope h) with ⟨a, ha, hu, hcov, hrole⟩ | hinherited
    · cases hscope : a.scope with
      | global => exact absurd hscope (hteam.1 a ha hu hrole)
      | team t =>
        rw [hscope] at hcov
        have hmem : ⟨user, t⟩ ∈ db.members := by simpa [Db.coversUser] using hcov
        exact Or.inr ⟨a, ha, hu, hrole, ⟨user, t⟩, hmem, rfl, hscope⟩
    · -- a role of a team counts everywhere, and the caller has none that grants it
      obtain ⟨m, hm, hrole⟩ := exists_of_anyM hinherited
      obtain ⟨tr, htr, hrole⟩ := exists_of_anyM hrole
      obtain ⟨hm, hu⟩ := List.mem_filter.mp hm
      obtain ⟨htr, ht⟩ := List.mem_filter.mp htr
      exact absurd hrole (hteam.2 m hm tr htr (by simpa using hu) (by simpa using ht))

theorem assertScopeForUser_of_target {user : Uuid} (h : handle env db call = .ok db')
    (htarget : target call.request = some user) :
    call.caller.assertScopeForUser db "users:update" user = .ok () := by
  obtain ⟨caller, request⟩ := call
  cases request with
  | resetUserPassword u generated =>
    cases htarget
    exact (resetUserPassword_ok h).1
  | updateUser u req =>
    simp only [target] at htarget
    split at htarget
    · cases htarget
      exact (updateUserChecks_ok (updateUser_ok h).1).1
    · cases htarget
  | _ => cases htarget

theorem reachesNoAdmin_of_sparesManaged (hteam : ByTeamManager db call)
    (hspares : SparesManaged db call) (h : handle env db call = .ok db') :
    ReachesNoAdmin db call := by
  intro user htarget
  rcases covered_of_assertScopeForUser hteam.1 (assertScopeForUser_of_target h htarget) with
    heq | hmanages
  · rw [← heq]
    exact not_outranks_self db _
  · exact hspares user htarget hmanages

end Step

/-! ## Main result -/

/--
In a run of team managers in which no password is reset and no user deactivated who is above the
caller and in one of the caller's teams, no such request reaches a user above its caller.
-/
theorem team_scope_reaches_no_admin {env : Env} {db₀ db : Db} {calls : List Call}
    (hrun : Steps (fun db call db' => (ByTeamManager db call ∧ SparesManaged db call) ∧
      handle env db call = .ok db') db₀ calls db) :
    Steps (fun db call db' => ReachesNoAdmin db call ∧ handle env db call = .ok db')
      db₀ calls db := by
  refine hrun.mono ?_
  rintro db call db' ⟨⟨hteam, hspares⟩, h⟩
  exact ⟨reachesNoAdmin_of_sparesManaged hteam hspares h, h⟩

/-! ## Two runs -/

/-- User 1 is super admin, user 2 manages team 1, user 3 is in it. -/
def managedDb : Db where
  users := [plainUser 1 "root@example.com", plainUser 2 "lead@example.com",
    plainUser 3 "dev@example.com"]
  teams := [⟨1, "engineering"⟩]
  roles := [⟨1, "super_admin", true, allowDocument "FullAccess" (.str "*")⟩,
    ⟨2, "team_manager", true,
      allowDocument "TeamManagement" (actionList ["users:update", "team_members:write"])⟩]
  assignments := [⟨1, 1, .global⟩, ⟨2, 2, .team 1⟩]
  members := [⟨3, 1⟩]
  teamRoles := []

/-- The manager resets the password of user 3. -/
theorem team_scope_reaches_no_admin_dev : ∃ db,
    Steps (fun db call db' => ReachesNoAdmin db call ∧ handle opsEnv db call = .ok db') managedDb
      [⟨AuthUser.load managedDb 2, .resetUserPassword 3 "Temp0rary"⟩] db := by
  have hteam : ByTeamManager managedDb
      ⟨AuthUser.load managedDb 2, .resetUserPassword 3 "Temp0rary"⟩ := by decide
  have hspares : SparesManaged managedDb
      ⟨AuthUser.load managedDb 2, .resetUserPassword 3 "Temp0rary"⟩ := by
    rintro user htarget -
    cases htarget
    decide
  exact ⟨_, team_scope_reaches_no_admin (.single ⟨⟨hteam, hspares⟩, rfl⟩)⟩

/-- The team after the manager has added the super admin. -/
def joinedDb : Db := { managedDb with members := managedDb.members ++ [⟨1, 1⟩] }

/-- The manager adds the super admin to the team and resets the password. -/
theorem manager_resets_super_admin :
    ¬ ∀ (env : Env) (db₀ db : Db) (calls : List Call),
      Steps (fun db call db' => ByTeamManager db call ∧ handle env db call = .ok db')
        db₀ calls db →
      Steps (fun db call db' => ReachesNoAdmin db call ∧ handle env db call = .ok db')
        db₀ calls db := by
  intro hall
  have hadd : handle opsEnv managedDb ⟨AuthUser.load managedDb 2, .addMember 1 1⟩
      = .ok joinedDb := rfl
  have hrun := hall opsEnv managedDb _ [⟨AuthUser.load managedDb 2, .addMember 1 1⟩,
    ⟨AuthUser.load joinedDb 2, .resetUserPassword 1 "Temp0rary"⟩]
    (.cons ⟨by decide, hadd⟩ (.single ⟨by decide, rfl⟩))
  cases hrun with
  | cons hfirst hrest =>
    obtain ⟨-, hok⟩ := hfirst
    rw [hadd] at hok
    cases hok
    cases hrest with
    | cons hsecond _ => exact hsecond.1 1 rfl (by decide)

end ThinkWatch.Rbac
