import ThinkWatch.Lib.Run
import ThinkWatch.Rbac.Effects

/-!
# Who can hand out `super_admin`

`create_user` and `update_user` refuse to assign `super_admin` unless the caller has it. The other
ways to come by a role have no such check: joining a team that has it, attaching it to a team,
being moved to it when another role is deleted, and renaming a role to it.

`super_admin_by_super_admin`: in a run in which no caller without `super_admin` uses one of these
(`Unchecked`), every request that makes somebody a super admin is made by one.
-/

namespace ThinkWatch.Rbac

open Lib Policy

/-! ## The unchecked ways -/

/-- A role of this id and this name exists. -/
def Db.Named (db : Db) (role : Uuid) (name : String) : Prop :=
  ∃ r ∈ db.roles, r.id = role ∧ r.name = name

/-- A role of this name is attached to the team. -/
def Db.Carries (db : Db) (team : Uuid) (name : String) : Prop :=
  ∃ tr ∈ db.teamRoles, tr.teamId = team ∧ db.Named tr.roleId name

/-- A request that hands out `super_admin` without a check of the caller's role. -/
def Unchecked (db : Db) : Request → Prop
  | .addMember team user => db.Carries team "super_admin" ∧ ¬ db.Holds user "super_admin"
  | .assignTeamRole team role => db.Named role "super_admin" ∧
      ∃ m ∈ db.members, m.teamId = team ∧ ¬ db.Holds m.userId "super_admin"
  | .deleteRole id (some target) => db.Named target "super_admin" ∧
      ∃ a ∈ db.assignments, a.roleId = id ∧ ¬ db.Holds a.userId "super_admin"
  | .updateRole id req => req.name.map trim = some "super_admin" ∧
      ∃ user, db.Linked user id ∧ ¬ db.Holds user "super_admin"
  | _ => False

/-- Nobody without `super_admin` uses an unchecked way. -/
def Reserved (db : Db) (call : Call) : Prop :=
  db.Holds call.caller.sub "super_admin" ∨ ¬ Unchecked db call.request

/-- Whoever becomes a super admin by this call is made so by one. -/
def GrantedBySuperAdmin (db : Db) (call : Call) (db' : Db) : Prop :=
  ∀ user, ¬ db.Holds user "super_admin" → db'.Holds user "super_admin" →
    db.Holds call.caller.sub "super_admin"

/-! ## Roles that were held before -/

section Frames

variable {db db' : Db} {user : Uuid} {name : String}

theorem Db.Linked.of_subset {role : Uuid} (h : db'.Linked user role)
    (ha : ∀ a ∈ db'.assignments, a.userId = user → a.roleId = role → a ∈ db.assignments)
    (hm : ∀ m ∈ db'.members, m ∈ db.members) (ht : ∀ tr ∈ db'.teamRoles, tr ∈ db.teamRoles) :
    db.Linked user role := by
  rcases h with ⟨a, hmem, hu, hr⟩ | ⟨m, hmem, tr, htr, hu, hteam, hr⟩
  · exact Or.inl ⟨a, ha a hmem hu hr, hu, hr⟩
  · exact Or.inr ⟨m, hm m hmem, tr, ht tr htr, hu, hteam, hr⟩

/-- A role is not gained when assignments, members and team roles only go away. -/
theorem Db.Holds.of_subset (h : db'.Holds user name)
    (hr : ∀ r ∈ db'.roles, ∃ r₀ ∈ db.roles, r₀.id = r.id ∧ r₀.name = r.name)
    (ha : ∀ a ∈ db'.assignments, a ∈ db.assignments) (hm : ∀ m ∈ db'.members, m ∈ db.members)
    (ht : ∀ tr ∈ db'.teamRoles, tr ∈ db.teamRoles) : db.Holds user name := by
  obtain ⟨r, hr', hname, hlink⟩ := Db.holds_iff.mp h
  obtain ⟨r₀, hr₀, hid, hname₀⟩ := hr r hr'
  refine Db.holds_iff.mpr ⟨r₀, hr₀, hname₀.trans hname, ?_⟩
  rw [hid]
  exact hlink.of_subset (fun a hmem _ _ => ha a hmem) hm ht

theorem Db.same_roles : ∀ r ∈ db.roles, ∃ r₀ ∈ db.roles, r₀.id = r.id ∧ r₀.name = r.name :=
  fun r hr => ⟨r, hr, rfl, rfl⟩

/-- New assignments of one user: the role was held before, or is among the new ones. -/
theorem Db.Holds.of_added {db : Db} {users : List UserRow} {target : Uuid}
    {added : List Assignment} {ids : List Uuid}
    (hadded : ∀ a ∈ added, a.userId = target ∧ a.roleId ∈ ids ∧ ∃ r ∈ db.roles, r.id = a.roleId)
    (h : Db.Holds { db with
      users := users
      assignments := db.assignments.filter (·.userId ≠ target) ++ added } user name) :
    db.Holds user name ∨ name ∈ db.namesOf ids := by
  obtain ⟨r, hr, hname, hlink⟩ := Db.holds_iff.mp h
  rcases hlink with ⟨a, ha, hu, hrole⟩ | hteam
  · rcases List.mem_append.mp ha with ha | ha
    · have ha := (List.mem_filter.mp ha).1
      exact Or.inl (Db.holds_iff.mpr ⟨r, hr, hname, Or.inl ⟨a, ha, hu, hrole⟩⟩)
    · obtain ⟨-, hid, -⟩ := hadded a ha
      rw [hrole] at hid
      exact Or.inr (Db.mem_namesOf.mpr ⟨r, hr, hname, hid⟩)
  · exact Or.inl (Db.holds_iff.mpr ⟨r, hr, hname, Or.inr hteam⟩)

theorem deleteCustom_subset (db : Db) (id : Uuid) :
    (∀ r ∈ (db.deleteCustom id).roles, r ∈ db.roles) ∧
      (∀ a ∈ (db.deleteCustom id).assignments, a ∈ db.assignments) ∧
      (∀ m ∈ (db.deleteCustom id).members, m ∈ db.members) ∧
      ∀ tr ∈ (db.deleteCustom id).teamRoles, tr ∈ db.teamRoles := by
  unfold Db.deleteCustom
  split
  · exact ⟨fun r hr => (List.mem_filter.mp hr).1, fun a ha => (List.mem_filter.mp ha).1,
      fun m hm => hm, fun tr htr => (List.mem_filter.mp htr).1⟩
  · exact ⟨fun r hr => hr, fun a ha => ha, fun m hm => hm, fun tr htr => htr⟩

end Frames

/-! ## One request -/

section Step

variable {env : Env} {db db' : Db} {call : Call} {user : Uuid}

theorem createRole_holds {caller : AuthUser} {req : CreateRoleRequest} {id : Uuid}
    (hvalid : db.Valid) (h : createRole db caller req id = .ok db')
    (hgain : db'.Holds user "super_admin") : db.Holds user "super_admin" := by
  obtain ⟨hfree, rfl⟩ := createRole_ok h
  obtain ⟨r, hr, hname, hlink⟩ := Db.holds_iff.mp hgain
  have hlink : db.Linked user r.id := hlink
  rcases List.mem_append.mp hr with hr | hr
  · exact Db.holds_iff.mpr ⟨r, hr, hname, hlink⟩
  · -- nothing refers to the new role yet
    obtain rfl := List.mem_singleton.mp hr
    rcases hlink with ⟨a, ha, -, hid⟩ | ⟨m, -, tr, htr, -, -, hid⟩
    · obtain ⟨r, hr, hrid⟩ := hvalid.assignmentRole a ha
      exact absurd (hrid.trans hid) (hfree r hr)
    · obtain ⟨r, hr, hrid⟩ := hvalid.teamRoleRole tr htr
      exact absurd (hrid.trans hid) (hfree r hr)

theorem updateRole_holds {caller : AuthUser} {req : UpdateRoleRequest} {id : Uuid}
    (hchecked : ¬ Unchecked db (.updateRole id req)) (h : updateRole db caller id req = .ok db')
    (hgain : db'.Holds user "super_admin") : db.Holds user "super_admin" := by
  by_contra hnot
  obtain rfl := updateRole_ok h
  obtain ⟨r, hr, hrname, hlink⟩ := Db.holds_iff.mp hgain
  have hlink : db.Linked user r.id := hlink
  obtain ⟨r₀, hr₀, rfl⟩ := List.mem_map.mp hr
  split at hrname
  · next hid =>
    rw [if_pos hid] at hlink
    have hlink : db.Linked user r₀.id := hlink
    cases hn : req.name.map trim with
    | none =>
      have hrname : r₀.name = "super_admin" := by
        simpa [UpdateRoleRequest.updateRow, hn] using hrname
      exact hnot (Db.holds_iff.mpr ⟨r₀, hr₀, hrname, hlink⟩)
    | some n =>
      have hrname : n = "super_admin" := by
        simpa [UpdateRoleRequest.updateRow, hn] using hrname
      rw [hrname] at hn
      exact hchecked ⟨hn, user, hid ▸ hlink, hnot⟩
  · next hid =>
    rw [if_neg hid] at hlink
    exact hnot (Db.holds_iff.mpr ⟨r₀, hr₀, hrname, hlink⟩)

theorem deleteRole_holds {caller : AuthUser} {id : Uuid} {reassignTo : Option Uuid}
    (hchecked : ¬ Unchecked db (.deleteRole id reassignTo))
    (h : deleteRole db caller id reassignTo = .ok db')
    (hgain : db'.Holds user "super_admin") : db.Holds user "super_admin" := by
  obtain ⟨assigned, h⟩ := deleteRole_ok h
  obtain ⟨db₁, hmigrate, rfl⟩ := deleteRoleWrite_ok h
  obtain ⟨hr, ha, hm, ht⟩ := deleteCustom_subset db₁ id
  have hgain : db₁.Holds user "super_admin" :=
    hgain.of_subset (fun r hmem => ⟨r, hr r hmem, rfl, rfl⟩) ha hm ht
  rcases migrateAssignments_ok hmigrate with
    ⟨-, rfl⟩ | ⟨target, added, -, rfl, -, -, rfl, hadded⟩
  · exact hgain
  · by_contra hnot
    obtain ⟨r, hr, hname, hlink⟩ := Db.holds_iff.mp hgain
    refine hnot (Db.holds_iff.mpr
      ⟨r, hr, hname, hlink.of_subset ?_ (fun m hm => hm) fun tr htr => htr⟩)
    intro a ha huser hrole
    rcases List.mem_append.mp (List.mem_filter.mp ha).1 with ha | ha
    · exact ha
    · -- a copied row comes from a user of the deleted role
      obtain ⟨htarget, -, b, hb, hid, hbuser⟩ := hadded a ha
      rw [hrole] at htarget
      refine absurd ⟨⟨r, hr, htarget, hname⟩, b, hb, hid, ?_⟩ hchecked
      rwa [hbuser, huser]

theorem addMember_holds {caller : AuthUser} {team target : Uuid}
    (hchecked : ¬ Unchecked db (.addMember team target))
    (h : addMember db caller team target = .ok db')
    (hgain : db'.Holds user "super_admin") : db.Holds user "super_admin" := by
  rcases addMember_ok h with ⟨-, rfl⟩ | ⟨-, rfl⟩
  · exact hgain
  · by_contra hnot
    obtain ⟨r, hr, hname, hlink⟩ := Db.holds_iff.mp hgain
    rcases hlink with hlink | ⟨m, hm, tr, htr, hu, hteam, hrole⟩
    · exact hnot (Db.holds_iff.mpr ⟨r, hr, hname, Or.inl hlink⟩)
    · rcases List.mem_append.mp hm with hm | hm
      · exact hnot (Db.holds_iff.mpr ⟨r, hr, hname, Or.inr ⟨m, hm, tr, htr, hu, hteam, hrole⟩⟩)
      · obtain rfl := List.mem_singleton.mp hm
        obtain rfl : target = user := hu
        exact hchecked ⟨⟨tr, htr, hteam, r, hr, hrole.symm, hname⟩, hnot⟩

theorem assignTeamRole_holds {caller : AuthUser} {team role : Uuid}
    (hchecked : ¬ Unchecked db (.assignTeamRole team role))
    (h : assignTeamRole db caller team role = .ok db')
    (hgain : db'.Holds user "super_admin") : db.Holds user "super_admin" := by
  rcases assignTeamRole_ok h with ⟨-, rfl⟩ | ⟨-, -, rfl⟩
  · exact hgain
  · by_contra hnot
    obtain ⟨r, hr, hname, hlink⟩ := Db.holds_iff.mp hgain
    rcases hlink with hlink | ⟨m, hm, tr, htr, hu, hteam, hid⟩
    · exact hnot (Db.holds_iff.mpr ⟨r, hr, hname, Or.inl hlink⟩)
    · rcases List.mem_append.mp htr with htr | htr
      · exact hnot (Db.holds_iff.mpr ⟨r, hr, hname, Or.inr ⟨m, hm, tr, htr, hu, hteam, hid⟩⟩)
      · obtain rfl := List.mem_singleton.mp htr
        exact hchecked ⟨⟨r, hr, hid.symm, hname⟩, m, hm, hteam.symm, hu ▸ hnot⟩

/-- Who is a super admin after a request was one before, or was made one by one. -/
theorem handle_holds (hvalid : db.Valid) (hreserved : Reserved db call)
    (h : handle env db call = .ok db') (hgain : db'.Holds user "super_admin") :
    db.Holds user "super_admin" ∨ db.Holds call.caller.sub "super_admin" := by
  rcases hreserved with hsuper | hchecked
  · exact Or.inr hsuper
  obtain ⟨caller, request⟩ := call
  cases request with
  | createUser req id generated =>
    obtain ⟨row, added, rfl, hadded, hcheck⟩ := createUser_ok h
    exact (Db.Holds.of_added hadded hgain).imp_right hcheck
  | updateUser target req =>
    obtain ⟨hchecks, hwrite, -⟩ := updateUser_ok h
    rcases updateUserWrite_ok hwrite with ⟨-, rfl⟩ | ⟨as, added, has, rfl, hadded⟩
    · exact Or.inl hgain
    · exact (Db.Holds.of_added hadded hgain).imp_right ((updateUserChecks_ok hchecks).2 as has)
  | deleteUser target =>
    obtain rfl := deleteUserWrite_ok (deleteUser_ok h).1
    exact Or.inl hgain
  | resetUserPassword target generated =>
    obtain ⟨-, rfl⟩ := resetUserPassword_ok h
    exact Or.inl hgain
  | createRole req id => exact Or.inl (createRole_holds hvalid h hgain)
  | updateRole id req => exact Or.inl (updateRole_holds hchecked h hgain)
  | resetRole id =>
    obtain ⟨doc, rfl⟩ := resetRole_ok h
    refine Or.inl (hgain.of_subset ?_ (fun a ha => ha) (fun m hm => hm) fun tr htr => htr)
    intro r hr
    obtain ⟨r₀, hr₀, rfl⟩ := List.mem_map.mp hr
    refine ⟨r₀, hr₀, ?_⟩
    split <;> exact ⟨rfl, rfl⟩
  | deleteRole id reassignTo => exact Or.inl (deleteRole_holds hchecked h hgain)
  | deleteTeam team =>
    obtain rfl := deleteTeam_ok h
    exact Or.inl (hgain.of_subset Db.same_roles (fun a ha => (List.mem_filter.mp ha).1)
      (fun m hm => (List.mem_filter.mp hm).1) fun tr htr => (List.mem_filter.mp htr).1)
  | addMember team target => exact Or.inl (addMember_holds hchecked h hgain)
  | removeMember team target =>
    obtain rfl := removeMember_ok h
    exact Or.inl (hgain.of_subset Db.same_roles (fun a ha => ha)
      (fun m hm => (List.mem_filter.mp hm).1) fun tr htr => htr)
  | assignTeamRole team role => exact Or.inl (assignTeamRole_holds hchecked h hgain)
  | removeTeamRole team role =>
    obtain rfl := removeTeamRole_ok h
    exact Or.inl (hgain.of_subset Db.same_roles (fun a ha => ha) (fun m hm => hm)
      fun tr htr => (List.mem_filter.mp htr).1)

/-- The foreign keys hold as long as roles stay and new rows point to roles. -/
theorem Db.Valid.of_roles (hvalid : db.Valid)
    (hr : ∀ r ∈ db.roles, ∃ r' ∈ db'.roles, r'.id = r.id)
    (ha : ∀ a ∈ db'.assignments, a ∈ db.assignments ∨ ∃ r ∈ db.roles, r.id = a.roleId)
    (ht : ∀ tr ∈ db'.teamRoles, tr ∈ db.teamRoles ∨ ∃ r ∈ db.roles, r.id = tr.roleId) :
    db'.Valid where
  assignmentRole := by
    intro a hmem
    obtain ⟨r, hr₀, hid⟩ := (ha a hmem).elim (hvalid.assignmentRole a) id
    obtain ⟨r', hr', hid'⟩ := hr r hr₀
    exact ⟨r', hr', hid'.trans hid⟩
  teamRoleRole := by
    intro tr hmem
    obtain ⟨r, hr₀, hid⟩ := (ht tr hmem).elim (hvalid.teamRoleRole tr) id
    obtain ⟨r', hr', hid'⟩ := hr r hr₀
    exact ⟨r', hr', hid'.trans hid⟩

theorem deleteCustom_valid {id : Uuid} (hvalid : db.Valid) : (db.deleteCustom id).Valid := by
  unfold Db.deleteCustom
  split
  · constructor
    · intro a ha
      obtain ⟨ha, hne⟩ := List.mem_filter.mp ha
      obtain ⟨r, hr, hid⟩ := hvalid.assignmentRole a ha
      exact ⟨r, List.mem_filter.mpr ⟨hr, by rw [hid]; exact hne⟩, hid⟩
    · intro tr htr
      obtain ⟨htr, hne⟩ := List.mem_filter.mp htr
      obtain ⟨r, hr, hid⟩ := hvalid.teamRoleRole tr htr
      exact ⟨r, List.mem_filter.mpr ⟨hr, by rw [hid]; exact hne⟩, hid⟩
  · exact hvalid

/-- Assignments of one user are replaced by rows that point to roles. -/
theorem Db.Valid.of_added {db : Db} {users : List UserRow} {target : Uuid}
    {added : List Assignment} {ids : List Uuid} (hvalid : db.Valid)
    (hadded : ∀ a ∈ added, a.userId = target ∧ a.roleId ∈ ids ∧ ∃ r ∈ db.roles, r.id = a.roleId) :
    Db.Valid { db with
      users := users
      assignments := db.assignments.filter (·.userId ≠ target) ++ added } := by
  refine hvalid.of_roles (fun r hr => ⟨r, hr, rfl⟩) ?_ fun tr htr => Or.inl htr
  intro a ha
  rcases List.mem_append.mp ha with ha | ha
  · exact Or.inl (List.mem_filter.mp ha).1
  · exact Or.inr (hadded a ha).2.2

/-- A row of `rbac_roles` keeps its id when it is updated. -/
theorem mem_map_roles {id : Uuid} {f : RoleRow → RoleRow} (hf : ∀ r, (f r).id = r.id)
    {r : RoleRow} (hr : r ∈ db.roles) :
    ∃ r' ∈ db.roles.map fun r => if r.id = id then f r else r, r'.id = r.id := by
  refine ⟨_, List.mem_map.mpr ⟨r, hr, rfl⟩, ?_⟩
  split
  · exact hf r
  · rfl

theorem handle_valid (hvalid : db.Valid) (h : handle env db call = .ok db') : db'.Valid := by
  have hsub : ∀ {db' : Db}, db'.roles = db.roles → (∀ a ∈ db'.assignments, a ∈ db.assignments) →
      (∀ tr ∈ db'.teamRoles, tr ∈ db.teamRoles) → db'.Valid := by
    intro db' hr ha ht
    exact hvalid.of_roles (fun r hmem => ⟨r, hr ▸ hmem, rfl⟩) (fun a hmem => Or.inl (ha a hmem))
      fun tr hmem => Or.inl (ht tr hmem)
  obtain ⟨caller, request⟩ := call
  cases request with
  | createUser req id generated =>
    obtain ⟨row, added, rfl, hadded, -⟩ := createUser_ok h
    exact hvalid.of_added hadded
  | updateUser target req =>
    rcases updateUserWrite_ok (updateUser_ok h).2.1 with ⟨-, rfl⟩ | ⟨as, added, -, rfl, hadded⟩
    · exact hsub rfl (fun a ha => ha) fun tr htr => htr
    · exact hvalid.of_added hadded
  | deleteUser target =>
    obtain rfl := deleteUserWrite_ok (deleteUser_ok h).1
    exact hsub rfl (fun a ha => ha) fun tr htr => htr
  | resetUserPassword target generated =>
    obtain ⟨-, rfl⟩ := resetUserPassword_ok h
    exact hsub rfl (fun a ha => ha) fun tr htr => htr
  | createRole req id =>
    obtain ⟨-, rfl⟩ := createRole_ok h
    exact hvalid.of_roles (fun r hr => ⟨r, List.mem_append_left _ hr, rfl⟩)
      (fun a ha => Or.inl ha) fun tr htr => Or.inl htr
  | updateRole id req =>
    obtain rfl := updateRole_ok h
    exact hvalid.of_roles (fun r hr => mem_map_roles (f := req.updateRow) (fun _ => rfl) hr)
      (fun a ha => Or.inl ha) fun tr htr => Or.inl htr
  | resetRole id =>
    obtain ⟨doc, rfl⟩ := resetRole_ok h
    exact hvalid.of_roles
      (fun r hr => mem_map_roles (f := fun r => { r with policyDocument := doc }) (fun _ => rfl) hr)
      (fun a ha => Or.inl ha) fun tr htr => Or.inl htr
  | deleteRole id reassignTo =>
    obtain ⟨assigned, h⟩ := deleteRole_ok h
    obtain ⟨db₁, hmigrate, rfl⟩ := deleteRoleWrite_ok h
    refine deleteCustom_valid ?_
    rcases migrateAssignments_ok hmigrate with
      ⟨-, rfl⟩ | ⟨target, added, -, -, -, hrole, rfl, hadded⟩
    · exact hvalid
    · refine hvalid.of_roles (fun r hr => ⟨r, hr, rfl⟩) ?_ fun tr htr => Or.inl htr
      intro a ha
      rcases List.mem_append.mp (List.mem_filter.mp ha).1 with ha | ha
      · exact Or.inl ha
      · rw [(hadded a ha).1]
        exact Or.inr hrole
  | deleteTeam team =>
    obtain rfl := deleteTeam_ok h
    exact hsub rfl (fun a ha => (List.mem_filter.mp ha).1) fun tr htr => (List.mem_filter.mp htr).1
  | addMember team target =>
    rcases addMember_ok h with ⟨-, rfl⟩ | ⟨-, rfl⟩
    · exact hvalid
    · exact hsub rfl (fun a ha => ha) fun tr htr => htr
  | removeMember team target =>
    obtain rfl := removeMember_ok h
    exact hsub rfl (fun a ha => ha) fun tr htr => htr
  | assignTeamRole team role =>
    rcases assignTeamRole_ok h with ⟨-, rfl⟩ | ⟨-, hrole, rfl⟩
    · exact hvalid
    · refine hvalid.of_roles (fun r hr => ⟨r, hr, rfl⟩) (fun a ha => Or.inl ha) ?_
      intro tr htr
      rcases List.mem_append.mp htr with htr | htr
      · exact Or.inl htr
      · rw [List.mem_singleton.mp htr]
        exact Or.inr hrole
  | removeTeamRole team role =>
    obtain rfl := removeTeamRole_ok h
    exact hsub rfl (fun a ha => ha) fun tr htr => (List.mem_filter.mp htr).1

end Step

/-! ## Main result -/

/-- In a run in which the unchecked ways are reserved for super admins, so is making one. -/
theorem super_admin_by_super_admin {env : Env} {db₀ db : Db} {calls : List Call}
    (hvalid : db₀.Valid)
    (hrun : Steps (fun db call db' => Reserved db call ∧ handle env db call = .ok db')
      db₀ calls db) :
    Steps (fun db call db' => GrantedBySuperAdmin db call db' ∧ handle env db call = .ok db')
      db₀ calls db := by
  refine hrun.under ?_ hvalid
  rintro db call db' hvalid ⟨hreserved, h⟩
  refine ⟨handle_valid hvalid h, ?_, h⟩
  intro user hnot hgain
  rcases handle_holds hvalid hreserved h hgain with hheld | hcaller
  · exact absurd hheld hnot
  · exact hcaller

/-! ## Two runs -/

/-- Every permission of the catalog is in a document that allows `*`, and none of them denied. -/
theorem requirePermission_load {db : Db} {user : Uuid} {perm : String} (sid : String)
    (hdocs : db.loadUserPolicyDocuments user = [allowDocument sid (.str "*")])
    (hperm : perm ∈ allPermissionKeys) :
    (AuthUser.load db user).requirePermission perm = .ok () := by
  have hheld : perm ∈ (AuthUser.load db user).permissions := by
    have hstmts : extractPermissions (allowDocument sid (.str "*")) allPermissionKeys =
        btreeSet allPermissionKeys := rfl
    show perm ∈ computeUserPermissions _ _
    rw [computeUserPermissions, hdocs, mem_btreeSet, List.flatMap_singleton, hstmts, mem_btreeSet]
    exact hperm
  have hdenied : perm ∉ (AuthUser.load db user).deniedPermissions := by
    intro hmem
    obtain ⟨-, hany⟩ := List.mem_filter.mp hmem
    rw [hdocs] at hany
    change ([PolicyResult.allow].any (· == .deny)) = true at hany
    cases hany
  unfold AuthUser.requirePermission
  rw [refuseIf_bind_ok, refuseIf_ok, not_not]
  exact ⟨hdenied, hheld⟩

/-- A user row with nothing special. -/
def plainUser (id : Uuid) (email : String) : UserRow :=
  ⟨id, email, email, "hash", false, true, false⟩

/--
User 1 is super admin. User 2 is in team 1 and has a role that may edit teams.
-/
def opsDb : Db where
  users := [plainUser 1 "root@example.com", plainUser 2 "ops@example.com"]
  teams := [⟨1, "ops"⟩]
  roles := [⟨1, "super_admin", true, allowDocument "FullAccess" (.str "*")⟩,
    ⟨2, "ops", false, allowDocument "Ops" (.str "teams:update")⟩]
  assignments := [⟨1, 1, .global⟩, ⟨2, 2, .global⟩]
  members := [⟨2, 1⟩]
  teamRoles := []

def opsEnv : Env := ⟨id, fun _ => none⟩

theorem opsDb_valid : opsDb.Valid := ⟨by decide, by decide⟩

/-- User 1 attaches `super_admin` to the team, and so makes user 2 one. -/
theorem super_admin_by_super_admin_root : ∃ db,
    Steps (fun db call db' => GrantedBySuperAdmin db call db' ∧ handle opsEnv db call = .ok db')
      opsDb [⟨AuthUser.load opsDb 1, .assignTeamRole 1 1⟩] db ∧ db.Holds 2 "super_admin" := by
  have hreserved : Reserved opsDb ⟨AuthUser.load opsDb 1, .assignTeamRole 1 1⟩ :=
    Or.inl (by decide)
  have hchecks : teamRoleChecks opsDb (AuthUser.load opsDb 1) 1 = .ok () := by
    rw [teamRoleChecks, requirePermission_load "FullAccess" rfl (by decide)]
    decide +kernel
  have hassign : assignTeamRole opsDb (AuthUser.load opsDb 1) 1 1 =
      .ok { opsDb with teamRoles := [⟨1, 1⟩] } := by
    rw [assignTeamRole, hchecks]
    rfl
  refine ⟨_, super_admin_by_super_admin opsDb_valid (.single ⟨hreserved, hassign⟩), ?_⟩
  decide

/-- User 2 does it without being one. -/
theorem ops_makes_itself_super_admin :
    ¬ ∀ (env : Env) (db₀ db : Db) (calls : List Call), db₀.Valid →
      Steps (fun db call db' => handle env db call = .ok db') db₀ calls db →
      Steps (fun db call db' => GrantedBySuperAdmin db call db' ∧ handle env db call = .ok db')
        db₀ calls db := by
  intro hall
  have hrun := hall opsEnv opsDb _ [⟨AuthUser.load opsDb 2, .assignTeamRole 1 1⟩] opsDb_valid
    (.single rfl)
  cases hrun with
  | cons hstep _ =>
    obtain ⟨hgranted, hok⟩ := hstep
    cases hok
    exact absurd (hgranted 2 (by decide) (by decide)) (by decide)

end ThinkWatch.Rbac
