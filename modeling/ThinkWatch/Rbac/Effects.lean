import ThinkWatch.Rbac.Handlers

/-!
# What a successful request has done

One lemma for each handler: the checks it has passed that matter later, and the tables it leaves.
Everything about sequences of requests rests on these.
-/

namespace ThinkWatch.Rbac

open Lib Policy

variable {env : Env} {db db' : Db} {caller : AuthUser}

/-! ## Role assignments -/

theorem exists_role_of_findRole {id : Uuid} (h : ¬ (db.findRole id).isNone) :
    ∃ r ∈ db.roles, r.id = id := by
  cases hr : db.findRole id with
  | none =>
    rw [hr] at h
    exact absurd rfl h
  | some r => exact ⟨r, List.mem_of_find?_eq_some hr, by simpa using List.find?_some hr⟩

/-- An insert adds the row or finds it. -/
theorem insertAssignment_eq (db : Db) (a : Assignment) : ∃ added,
    db.insertAssignment a = { db with assignments := db.assignments ++ added } ∧
      ∀ b ∈ added, b = a ∧ b ∉ db.assignments := by
  unfold Db.insertAssignment
  split
  · exact ⟨[], by simp, nofun⟩
  · next hnew =>
    refine ⟨[a], rfl, fun b hb => ?_⟩
    obtain rfl := List.mem_singleton.mp hb
    exact ⟨rfl, hnew⟩

theorem insertAll_ok {user : Uuid} {as : List RoleAssignmentRequest}
    (h : Db.insertAll env user db as = .ok db') : ∃ added,
      db' = { db with assignments := db.assignments ++ added } ∧
        ∀ a ∈ added, a.userId = user ∧ a.roleId ∈ as.map (·.roleId) ∧
          ∃ r ∈ db.roles, r.id = a.roleId := by
  induction as generalizing db with
  | nil =>
    cases h
    exact ⟨[], by simp, nofun⟩
  | cons req as ih =>
    rw [Db.insertAll, bind_ok] at h
    obtain ⟨scope, -, h⟩ := h
    obtain ⟨db₁, hins, h⟩ := bind_ok.mp h
    rw [Db.insertRoleAssignment, refuseIf_bind_ok, refuseIf_bind_ok] at hins
    obtain ⟨hrole, -, heq⟩ := hins
    obtain ⟨first, hfirst, hone⟩ := insertAssignment_eq db ⟨user, req.roleId, scope⟩
    rw [hfirst] at heq
    cases heq
    obtain ⟨rest, rfl, hrest⟩ := ih h
    refine ⟨first ++ rest, by simp, ?_⟩
    intro a ha
    rcases List.mem_append.mp ha with ha | ha
    · rw [(hone a ha).1]
      exact ⟨rfl, by simp, exists_role_of_findRole hrole⟩
    · obtain ⟨hu, hr, hex⟩ := hrest a ha
      exact ⟨hu, List.mem_cons_of_mem _ hr, hex⟩

theorem checkAssignable_ok {callerRoles names : List String} {x : Unit}
    (h : checkAssignable callerRoles names = .ok x) (hmem : "super_admin" ∈ names) :
    "super_admin" ∈ callerRoles := by
  induction names with
  | nil => cases hmem
  | cons name names ih =>
    rw [checkAssignable, refuseIf_bind_ok, refuseIf_bind_ok] at h
    obtain ⟨hsuper, -, h⟩ := h
    rcases List.mem_cons.mp hmem with rfl | hmem
    · by_contra hno
      exact hsuper ⟨rfl, hno⟩
    · exact ih h hmem

/-- The copies that `delete_role` makes for the new role. -/
theorem copyAssignments_eq (db : Db) (src dst : Uuid) : ∃ added,
    db.copyAssignments src dst = { db with assignments := db.assignments ++ added } ∧
      ∀ a ∈ added, a.roleId = dst ∧ a ∉ db.assignments ∧
        ∃ b ∈ db.assignments, b.roleId = src ∧ b.userId = a.userId := by
  have hfold : ∀ (as : List Assignment) (db : Db), ∃ added,
      as.foldl (fun db a => db.insertAssignment { a with roleId := dst }) db
        = { db with assignments := db.assignments ++ added } ∧
      ∀ a ∈ added, a.roleId = dst ∧ a ∉ db.assignments ∧ ∃ b ∈ as, b.userId = a.userId := by
    intro as
    induction as with
    | nil => exact fun db => ⟨[], by simp, nofun⟩
    | cons a as ih =>
      intro db
      obtain ⟨first, hfirst, hone⟩ := insertAssignment_eq db { a with roleId := dst }
      obtain ⟨rest, hrest, hall⟩ := ih (db.insertAssignment { a with roleId := dst })
      refine ⟨first ++ rest, ?_, ?_⟩
      · rw [List.foldl_cons, hrest, hfirst]
        simp
      · intro b hb
        rcases List.mem_append.mp hb with hb | hb
        · obtain ⟨rfl, hnew⟩ := hone b hb
          exact ⟨rfl, hnew, a, List.mem_cons_self, rfl⟩
        · obtain ⟨hrole, hnew, c, hc, huser⟩ := hall b hb
          rw [hfirst] at hnew
          exact ⟨hrole, fun hmem => hnew (List.mem_append_left _ hmem), c,
            List.mem_cons_of_mem _ hc, huser⟩
  obtain ⟨added, heq, hadded⟩ := hfold (db.assignments.filter (·.roleId = src)) db
  refine ⟨added, heq, fun a ha => ?_⟩
  obtain ⟨hrole, hnew, b, hb, huser⟩ := hadded a ha
  obtain ⟨hb, hsrc⟩ := List.mem_filter.mp hb
  exact ⟨hrole, hnew, b, hb, by simpa using hsrc, huser⟩

/-! ## Users -/

theorem createUser_ok {req : CreateUserRequest} {id : Uuid} {generated : String}
    (h : createUser env db caller req id generated = .ok db') : ∃ row added,
      db' = { db with
        users := db.users ++ [row]
        assignments := db.assignments.filter (·.userId ≠ id) ++ added } ∧
      (∀ a ∈ added, a.userId = id ∧ a.roleId ∈ req.roleAssignments.map (·.roleId) ∧
        ∃ r ∈ db.roles, r.id = a.roleId) ∧
      ("super_admin" ∈ db.namesOf (req.roleAssignments.map (·.roleId)) →
        db.Holds caller.sub "super_admin") := by
  unfold createUser at h
  obtain ⟨-, -, h⟩ := bind_ok.mp h
  obtain ⟨-, -, h⟩ := bind_ok.mp h
  obtain ⟨⟨password, forceChange⟩, -, h⟩ := bind_ok.mp h
  obtain ⟨_, hassign, h⟩ := bind_ok.mp h
  rw [refuseIf_bind_ok, refuseIf_bind_ok] at h
  obtain ⟨-, -, h⟩ := h
  obtain ⟨added, rfl, hadded⟩ := insertAll_ok h
  exact ⟨_, added, rfl, hadded, checkAssignable_ok hassign⟩

theorem updateUserChecks_ok {user : Uuid} {req : UpdateUserRequest} {x : Unit}
    (h : updateUserChecks db caller user req = .ok x) :
    caller.assertScopeForUser db "users:update" user = .ok () ∧
      ∀ as, req.roleAssignments = some as →
        "super_admin" ∈ db.namesOf (as.map (·.roleId)) → db.Holds caller.sub "super_admin" := by
  unfold updateUserChecks at h
  obtain ⟨-, -, h⟩ := bind_ok.mp h
  obtain ⟨_, hscope, h⟩ := bind_ok.mp h
  rw [refuseIf_bind_ok, refuseIf_bind_ok] at h
  obtain ⟨-, -, h⟩ := h
  refine ⟨hscope, fun as has => ?_⟩
  rw [has, checkRoleAssignments] at h
  obtain ⟨-, -, h⟩ := bind_ok.mp h
  obtain ⟨_, hassign, -⟩ := bind_ok.mp h
  exact checkAssignable_ok hassign

/-- The rows of the user are updated; the assignments stay or are replaced. -/
theorem updateUserWrite_ok {user : Uuid} {req : UpdateUserRequest}
    (h : updateUserWrite env db user req = .ok db') :
    (req.roleAssignments = none ∧ db' = db.updateUserRow user req.updateRow) ∨
      ∃ as added, req.roleAssignments = some as ∧
        db' = { db.updateUserRow user req.updateRow with
          assignments := db.assignments.filter (·.userId ≠ user) ++ added } ∧
        ∀ a ∈ added, a.userId = user ∧ a.roleId ∈ as.map (·.roleId) ∧
          ∃ r ∈ db.roles, r.id = a.roleId := by
  rw [updateUserWrite, refuseIf_bind_ok] at h
  obtain ⟨-, h⟩ := h
  cases has : req.roleAssignments with
  | none =>
    rw [has] at h
    exact Or.inl ⟨rfl, (pure_ok.mp h).symm⟩
  | some as =>
    rw [has] at h
    obtain ⟨added, rfl, hadded⟩ := insertAll_ok h
    exact Or.inr ⟨as, added, rfl, rfl, hadded⟩

theorem updateUser_ok {user : Uuid} {req : UpdateUserRequest}
    (h : updateUser env db caller user req = .ok db') :
    updateUserChecks db caller user req = .ok () ∧ updateUserWrite env db user req = .ok db' ∧
      req.checkQuorum db' = .ok () := by
  unfold updateUser at h
  obtain ⟨_, hchecks, h⟩ := bind_ok.mp h
  obtain ⟨db₁, hwrite, h⟩ := bind_ok.mp h
  obtain ⟨_, hquorum, h⟩ := bind_ok.mp h
  obtain rfl := pure_ok.mp h
  exact ⟨hchecks, hwrite, hquorum⟩

theorem deleteUserWrite_ok {user : Uuid} (h : deleteUserWrite db user = .ok db') :
    db' = db.softDelete user := by
  rw [deleteUserWrite, refuseIf_bind_ok] at h
  exact (pure_ok.mp h.2).symm

theorem deleteUser_ok {user : Uuid} (h : deleteUser db caller user = .ok db') :
    deleteUserWrite db user = .ok db' ∧ db'.assertSuperAdminQuorum = .ok () := by
  unfold deleteUser at h
  obtain ⟨-, -, h⟩ := bind_ok.mp h
  obtain ⟨db₁, hwrite, h⟩ := bind_ok.mp h
  obtain ⟨_, hquorum, h⟩ := bind_ok.mp h
  obtain rfl := pure_ok.mp h
  exact ⟨hwrite, hquorum⟩

theorem resetUserPassword_ok {user : Uuid} {generated : String}
    (h : (resetUserPassword env db caller user generated).map Prod.fst = .ok db') :
    caller.assertScopeForUser db "users:update" user = .ok () ∧
      db' = db.updateUserRow user fun u =>
        { u with passwordHash := env.hashPassword generated, passwordChangeRequired := true } := by
  cases hr : resetUserPassword env db caller user generated with
  | error e =>
    rw [hr] at h
    cases h
  | ok r =>
    rw [hr] at h
    obtain rfl : r.1 = db' := Except.ok.inj h
    unfold resetUserPassword at hr
    obtain ⟨-, -, hr⟩ := bind_ok.mp hr
    obtain ⟨_, hscope, hr⟩ := bind_ok.mp hr
    rw [refuseIf_bind_ok] at hr
    rw [← pure_ok.mp hr.2]
    exact ⟨hscope, rfl⟩

/-! ## Roles -/

theorem createRole_ok {req : CreateRoleRequest} {id : Uuid}
    (h : createRole db caller req id = .ok db') :
    (∀ r ∈ db.roles, r.id ≠ id) ∧
      db' = { db with roles := db.roles ++ [⟨id, trim req.name, false, req.policyDocument⟩] } := by
  unfold createRole at h
  obtain ⟨-, -, h⟩ := bind_ok.mp h
  rw [refuseIf_bind_ok] at h
  obtain ⟨-, -, h⟩ := bind_ok.mp h.2
  rw [refuseIf_bind_ok, refuseIf_bind_ok] at h
  obtain ⟨-, hfree, h⟩ := h
  refine ⟨?_, (pure_ok.mp h).symm⟩
  intro r hr hid
  refine hfree ?_
  rw [Db.findRole, List.find?_isSome]
  exact ⟨r, hr, by simpa using hid⟩

theorem updateRole_ok {id : Uuid} {req : UpdateRoleRequest}
    (h : updateRole db caller id req = .ok db') :
    db' = { db with roles := db.roles.map fun r => if r.id = id then req.updateRow r else r } := by
  unfold updateRole at h
  obtain ⟨-, -, h⟩ := bind_ok.mp h
  obtain ⟨existing, -, h⟩ := bind_ok.mp h
  obtain ⟨-, -, h⟩ := bind_ok.mp h
  obtain ⟨-, -, h⟩ := bind_ok.mp h
  rw [refuseIf_bind_ok] at h
  exact (pure_ok.mp h.2).symm

theorem resetRole_ok {id : Uuid} (h : resetRole db caller id = .ok db') : ∃ doc,
    db' = { db with roles := db.roles.map fun r =>
      if r.id = id then { r with policyDocument := doc } else r } := by
  unfold resetRole at h
  obtain ⟨-, -, h⟩ := bind_ok.mp h
  obtain ⟨existing, -, h⟩ := bind_ok.mp h
  rw [refuseIf_bind_ok] at h
  obtain ⟨doc, -, h⟩ := bind_ok.mp h.2
  exact ⟨doc, (pure_ok.mp h).symm⟩

/-- The users of a role are moved to `target`, if there are any. -/
theorem migrateAssignments_ok {id : Uuid} {reassignTo : Option Uuid} {assigned : Nat}
    (h : migrateAssignments db id reassignTo assigned = .ok db') :
    (assigned = 0 ∧ db' = db) ∨ ∃ target added, 0 < assigned ∧ reassignTo = some target ∧
      target ≠ id ∧ (∃ r ∈ db.roles, r.id = target) ∧
      db' = { db with assignments := (db.assignments ++ added).filter (·.roleId ≠ id) } ∧
      ∀ a ∈ added, a.roleId = target ∧ a ∉ db.assignments ∧
        ∃ b ∈ db.assignments, b.roleId = id ∧ b.userId = a.userId := by
  unfold migrateAssignments at h
  split at h
  · next hpos =>
    cases reassignTo with
    | none => cases h
    | some target =>
      rw [refuseIf_bind_ok, refuseIf_bind_ok] at h
      obtain ⟨hne, hrole, h⟩ := h
      obtain ⟨added, hcopy, hadded⟩ := copyAssignments_eq db id target
      refine Or.inr ⟨target, added, hpos, rfl, hne, exists_role_of_findRole hrole, ?_, hadded⟩
      rw [← pure_ok.mp h, hcopy]
      rfl
  · next hzero =>
    cases h
    exact Or.inl ⟨Nat.eq_zero_of_not_pos hzero, rfl⟩

theorem deleteRoleWrite_ok {id : Uuid} {reassignTo : Option Uuid} {assigned : Nat}
    (h : deleteRoleWrite db id reassignTo assigned = .ok db') :
    ∃ db₁, migrateAssignments db id reassignTo assigned = .ok db₁ ∧ db' = db₁.deleteCustom id := by
  unfold deleteRoleWrite at h
  obtain ⟨db₁, hmigrate, h⟩ := bind_ok.mp h
  exact ⟨db₁, hmigrate, (pure_ok.mp h).symm⟩

theorem deleteRole_ok {id : Uuid} {reassignTo : Option Uuid}
    (h : deleteRole db caller id reassignTo = .ok db') :
    ∃ assigned, deleteRoleWrite db id reassignTo assigned = .ok db' := by
  unfold deleteRole at h
  obtain ⟨assigned, -, h⟩ := bind_ok.mp h
  exact ⟨assigned, h⟩

/-! ## Teams -/

theorem deleteTeam_ok {team : Uuid} (h : deleteTeam db caller team = .ok db') :
    db' = db.deleteTeamRow team := by
  unfold deleteTeam at h
  obtain ⟨-, -, h⟩ := bind_ok.mp h
  exact (pure_ok.mp h).symm

theorem addMember_ok {team user : Uuid} (h : addMember db caller team user = .ok db') :
    (⟨user, team⟩ ∈ db.members ∧ db' = db) ∨
      (⟨user, team⟩ ∉ db.members ∧ db' = { db with members := db.members ++ [⟨user, team⟩] }) := by
  unfold addMember at h
  obtain ⟨-, -, h⟩ := bind_ok.mp h
  rw [refuseIf_bind_ok] at h
  obtain ⟨-, h⟩ := h
  split at h
  · next hmem => exact Or.inl ⟨hmem, (pure_ok.mp h).symm⟩
  · next hmem =>
    rw [refuseIf_bind_ok, refuseIf_bind_ok] at h
    exact Or.inr ⟨hmem, (pure_ok.mp h.2.2).symm⟩

theorem removeMemberWrite_ok {team user : Uuid} (h : removeMemberWrite db team user = .ok db') :
    db' = { db with members := db.members.filter (· ≠ ⟨user, team⟩) } := by
  rw [removeMemberWrite, refuseIf_bind_ok] at h
  exact (pure_ok.mp h.2).symm

theorem removeMember_ok {team user : Uuid} (h : removeMember db caller team user = .ok db') :
    db' = { db with members := db.members.filter (· ≠ ⟨user, team⟩) } := by
  unfold removeMember at h
  obtain ⟨-, -, h⟩ := bind_ok.mp h
  exact removeMemberWrite_ok h

theorem assignTeamRole_ok {team role : Uuid} (h : assignTeamRole db caller team role = .ok db') :
    (⟨team, role⟩ ∈ db.teamRoles ∧ db' = db) ∨
      (⟨team, role⟩ ∉ db.teamRoles ∧ (∃ r ∈ db.roles, r.id = role) ∧
        db' = { db with teamRoles := db.teamRoles ++ [⟨team, role⟩] }) := by
  unfold assignTeamRole at h
  obtain ⟨-, -, h⟩ := bind_ok.mp h
  split at h
  · next hmem => exact Or.inl ⟨hmem, (pure_ok.mp h).symm⟩
  · next hmem =>
    rw [refuseIf_bind_ok] at h
    obtain ⟨hfk, h⟩ := h
    rw [not_or] at hfk
    exact Or.inr ⟨hmem, exists_role_of_findRole hfk.2, (pure_ok.mp h).symm⟩

theorem removeTeamRole_ok {team role : Uuid} (h : removeTeamRole db caller team role = .ok db') :
    db' = db.deleteTeamRole team role := by
  unfold removeTeamRole at h
  obtain ⟨-, -, h⟩ := bind_ok.mp h
  exact (pure_ok.mp h).symm

end ThinkWatch.Rbac
