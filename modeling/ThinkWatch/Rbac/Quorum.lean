import ThinkWatch.Rbac.SuperAdmin
import ThinkWatch.Rbac.Transactions

/-!
# The last administrator

The count of `assert_super_admin_quorum` guards `update_user` and `delete_user`. `delete_team`,
`remove_member`, `remove_team_role` and `delete_role` make no count, and the count itself takes an
assignment at the scope of a team for a super admin.

`globalAdmin_kept`: in a run in which a removal that takes `super_admin` from a team leaves
somebody who has it by other rows (also once the open transaction commits), and in which no count
rests on assignments at team scope alone, there is a super admin at global scope in every state.
-/

namespace ThinkWatch.Rbac

open Lib Policy

/-! ## Super admins at global scope -/

def UserRow.Live (u : UserRow) : Prop := u.isActive = true ∧ u.deleted = false

instance (u : UserRow) : Decidable u.Live := inferInstanceAs (Decidable (_ ∧ _))

/-- The rows that a write does not delete. -/
structure Kept where
  role : Uuid → Bool
  assignment : Assignment → Bool
  member : Member → Bool
  teamRole : TeamRole → Bool

def Kept.all : Kept := ⟨fun _ => true, fun _ => true, fun _ => true, fun _ => true⟩

/-- Somebody active has `super_admin` at global scope, by rows that are kept. -/
def Db.AdminBy (db : Db) (k : Kept) : Prop :=
  ∃ u ∈ db.users, u.Live ∧ ∃ r ∈ db.roles, r.name = "super_admin" ∧ k.role r.id = true ∧
    ((∃ a ∈ db.assignments, k.assignment a = true ∧ a.scope = .global ∧ a.userId = u.id ∧
        a.roleId = r.id) ∨
      ∃ m ∈ db.members, ∃ tr ∈ db.teamRoles, k.member m = true ∧ k.teamRole tr = true ∧
        m.userId = u.id ∧ tr.teamId = m.teamId ∧ tr.roleId = r.id)

instance (db : Db) (k : Kept) : Decidable (db.AdminBy k) :=
  inferInstanceAs (Decidable (∃ u ∈ db.users, _))

/-- Somebody active has `super_admin` by a global assignment, or through a team. -/
def Db.GlobalAdmin (db : Db) : Prop := db.AdminBy .all

instance (db : Db) : Decidable db.GlobalAdmin := inferInstanceAs (Decidable (db.AdminBy _))

/-! ## What a removal takes -/

def Write.kept : Write → Kept
  | .updateUser .. => .all
  | .deleteTeam team =>
    { Kept.all with member := fun m => m.teamId ≠ team, teamRole := fun tr => tr.teamId ≠ team }
  | .removeMember team user => { Kept.all with member := fun m => m ≠ ⟨user, team⟩ }
  | .removeTeamRole team role => { Kept.all with teamRole := fun tr => tr ≠ ⟨team, role⟩ }

def RoleDeletion.kept (d : RoleDeletion) : Kept where
  role id := id ≠ d.id
  assignment a := a.roleId ≠ d.id
  member _ := true
  teamRole tr := tr.roleId ≠ d.id

/-- The write is on a team that has `super_admin`, or takes `super_admin` from a team. -/
def Write.Takes (db : Db) : Write → Prop
  | .updateUser .. => False
  | .deleteTeam team => db.Carries team "super_admin"
  | .removeMember team _ => db.Carries team "super_admin"
  | .removeTeamRole _ role => db.Named role "super_admin"

/-- Somebody is left by the kept rows, now and when the counted transaction commits. -/
def Sys.Spared (s : Sys) (k : Kept) : Prop :=
  s.db.AdminBy k ∧
    ∀ tx, s.tx = some tx → tx.counted = true → (tx.pending.visible s.db).AdminBy k

/-- Somebody has `super_admin` at the scope of a team. -/
def Db.TeamScopedAdmin (db : Db) : Prop :=
  ∃ a ∈ db.assignments, a.scope ≠ .global ∧ db.Named a.roleId "super_admin"

/-- The condition on each step. -/
def Careful (s : Sys) : Action → Prop
  | .write w => w.Takes s.db → s.Spared w.kept
  | .finish d => s.db.Named d.id "super_admin" → s.Spared d.kept
  | .count => ∀ tx, s.tx = some tx → (tx.pending.visible s.db).TeamScopedAdmin →
      (tx.pending.visible s.db).GlobalAdmin
  | _ => True

/-! ## What a removal leaves -/

/-- Users stay as active as they were, and the kept rows stay. -/
structure Leaves (k : Kept) (db db' : Db) : Prop where
  users : ∀ u ∈ db.users, ∃ u' ∈ db'.users, u.Below u'
  roles : ∀ r ∈ db.roles, k.role r.id = true → r ∈ db'.roles
  assignments : ∀ a ∈ db.assignments, k.assignment a = true → a.scope = .global →
    a ∈ db'.assignments
  members : ∀ m ∈ db.members, k.member m = true → m ∈ db'.members
  teamRoles : ∀ tr ∈ db.teamRoles, k.teamRole tr = true → tr ∈ db'.teamRoles

section Leaves

variable {k : Kept} {db db' : Db}

theorem UserRow.Below.refl (u : UserRow) : u.Below u := ⟨rfl, fun h => h, rfl⟩

theorem UserRow.Below.live {u v : UserRow} (h : u.Below v) (hu : u.Live) : v.Live :=
  ⟨h.active hu.1, h.deleted.symm.trans hu.2⟩

theorem Leaves.globalAdmin (h : Leaves k db db') (hadmin : db.AdminBy k) : db'.GlobalAdmin := by
  obtain ⟨u, hu, hlive, r, hr, hname, hk, hlink⟩ := hadmin
  obtain ⟨u', hu', hbelow⟩ := h.users u hu
  refine ⟨u', hu', hbelow.live hlive, r, h.roles r hr hk, hname, rfl, ?_⟩
  rw [← hbelow.id]
  rcases hlink with ⟨a, ha, hka, hglobal, hlink⟩ | ⟨m, hm, tr, htr, hkm, hktr, hlink⟩
  · exact Or.inl ⟨a, h.assignments a ha hka hglobal, rfl, hglobal, hlink⟩
  · exact Or.inr ⟨m, h.members m hm hkm, tr, h.teamRoles tr htr hktr, rfl, rfl, hlink⟩

/-- A transaction sees the write of another as that write is. -/
theorem Leaves.visible (h : Leaves k db db') (p : Pending) :
    Leaves k (p.visible db) (p.visible db') where
  users := by
    intro u hu
    obtain ⟨u₀, hu₀, rfl⟩ := List.mem_map.mp hu
    obtain ⟨v, hv, hbelow⟩ := h.users u₀ hu₀
    refine ⟨_, List.mem_map.mpr ⟨v, hv, rfl⟩, ?_⟩
    rw [hbelow.id]
    split
    · exact p.row_mono hbelow
    · exact hbelow
  roles := h.roles
  assignments := by
    intro a ha hka hglobal
    rcases List.mem_append.mp ha with ha | ha
    · obtain ⟨ha, hnot⟩ := List.mem_filter.mp ha
      exact List.mem_append_left _ (List.mem_filter.mpr ⟨h.assignments a ha hka hglobal, hnot⟩)
    · exact List.mem_append_right _ ha
  members := h.members
  teamRoles := h.teamRoles

theorem Write.leaves {env : Env} {w : Write} (h : w.apply env db = .ok db') :
    Leaves w.kept db db' := by
  cases w with
  | updateUser user req spares =>
    -- no role assignments, and the row is not disabled
    obtain ⟨hactive, hnone⟩ : req.isActive ≠ some false ∧ req.roleAssignments = none := by
      simpa [UpdateUserRequest.touchesQuorum] using spares
    rcases updateUserWrite_ok h with ⟨-, rfl⟩ | ⟨as, added, has, -⟩
    · refine ⟨?_, fun r hr _ => hr, fun a ha _ _ => ha, fun m hm _ => hm, fun tr htr _ => htr⟩
      intro u hu
      refine ⟨_, List.mem_map.mpr ⟨u, hu, rfl⟩, ?_⟩
      split
      · refine ⟨rfl, fun hu => ?_, rfl⟩
        unfold UpdateUserRequest.updateRow
        cases ha : req.isActive with
        | none => exact hu
        | some b =>
          cases b with
          | true => rfl
          | false => exact absurd ha hactive
      · exact .refl u
    · rw [hnone] at has
      cases has
  | deleteTeam team =>
    cases h
    refine ⟨fun u hu => ⟨u, hu, .refl u⟩, fun r hr _ => hr, ?_,
      fun m hm hk => List.mem_filter.mpr ⟨hm, hk⟩, fun tr htr hk => List.mem_filter.mpr ⟨htr, hk⟩⟩
    intro a ha _ hglobal
    exact List.mem_filter.mpr ⟨ha, by simp [hglobal]⟩
  | removeMember team user =>
    obtain rfl := removeMemberWrite_ok h
    exact ⟨fun u hu => ⟨u, hu, .refl u⟩, fun r hr _ => hr, fun a ha _ _ => ha,
      fun m hm hk => List.mem_filter.mpr ⟨hm, hk⟩, fun tr htr _ => htr⟩
  | removeTeamRole team role =>
    cases h
    exact ⟨fun u hu => ⟨u, hu, .refl u⟩, fun r hr _ => hr, fun a ha _ _ => ha,
      fun m hm _ => hm, fun tr htr hk => List.mem_filter.mpr ⟨htr, hk⟩⟩

theorem RoleDeletion.leaves (d : RoleDeletion) (db : Db) : Leaves d.kept db (d.finish db) := by
  have hassign : ∀ a ∈ db.assignments, d.kept.assignment a = true →
      a ∈ (if d.migrates then db.assignments.filter (·.roleId ≠ d.id) else db.assignments)
        ++ d.added := by
    intro a ha hk
    refine List.mem_append_left _ ?_
    split
    · exact List.mem_filter.mpr ⟨ha, hk⟩
    · exact ha
  unfold RoleDeletion.finish
  generalize (if d.migrates then _ else _) ++ d.added = as at hassign
  unfold Db.deleteCustom
  split
  · exact ⟨fun u hu => ⟨u, hu, .refl u⟩, fun r hr hk => List.mem_filter.mpr ⟨hr, hk⟩,
      fun a ha hk _ => List.mem_filter.mpr ⟨hassign a ha hk, hk⟩, fun m hm _ => hm,
      fun tr htr hk => List.mem_filter.mpr ⟨htr, hk⟩⟩
  · exact ⟨fun u hu => ⟨u, hu, .refl u⟩, fun r hr _ => hr, fun a ha hk _ => hassign a ha hk,
      fun m hm _ => hm, fun tr htr _ => htr⟩

end Leaves

/-! ## Removals that take nothing -/

section Takes

variable {k : Kept} {db : Db}

/-- The holder stays when the rows that make them one are kept. -/
theorem Db.GlobalAdmin.by (hadmin : db.GlobalAdmin)
    (hrole : ∀ r ∈ db.roles, r.name = "super_admin" → k.role r.id = true)
    (hassign : ∀ a ∈ db.assignments, db.Named a.roleId "super_admin" → k.assignment a = true)
    (hteam : ∀ m ∈ db.members, ∀ tr ∈ db.teamRoles, tr.teamId = m.teamId →
      db.Named tr.roleId "super_admin" → k.member m = true ∧ k.teamRole tr = true) :
    db.AdminBy k := by
  obtain ⟨u, hu, hlive, r, hr, hname, -, hlink⟩ := hadmin
  refine ⟨u, hu, hlive, r, hr, hname, hrole r hr hname, ?_⟩
  rcases hlink with ⟨a, ha, -, hglobal, huser, hid⟩ | ⟨m, hm, tr, htr, -, -, huser, hteamId, hid⟩
  · exact Or.inl ⟨a, ha, hassign a ha ⟨r, hr, hid.symm, hname⟩, hglobal, huser, hid⟩
  · obtain ⟨hkm, hktr⟩ := hteam m hm tr htr hteamId ⟨r, hr, hid.symm, hname⟩
    exact Or.inr ⟨m, hm, tr, htr, hkm, hktr, huser, hteamId, hid⟩

theorem Write.adminBy {w : Write} (hadmin : db.GlobalAdmin) (htakes : ¬ w.Takes db) :
    db.AdminBy w.kept := by
  cases w with
  | updateUser user req spares => exact hadmin
  | deleteTeam team =>
    refine hadmin.by (fun _ _ _ => rfl) (fun _ _ _ => rfl) fun m hm tr htr hteam hnamed => ?_
    have hne : tr.teamId ≠ team := fun h => htakes ⟨tr, htr, h, hnamed⟩
    exact ⟨decide_eq_true (hteam ▸ hne), decide_eq_true hne⟩
  | removeMember team user =>
    refine hadmin.by (fun _ _ _ => rfl) (fun _ _ _ => rfl) fun m hm tr htr hteam hnamed => ?_
    refine ⟨decide_eq_true ?_, rfl⟩
    rintro rfl
    exact htakes ⟨tr, htr, hteam, hnamed⟩
  | removeTeamRole team role =>
    refine hadmin.by (fun _ _ _ => rfl) (fun _ _ _ => rfl) fun m hm tr htr hteam hnamed => ?_
    refine ⟨rfl, decide_eq_true ?_⟩
    rintro rfl
    exact htakes hnamed

theorem RoleDeletion.adminBy {d : RoleDeletion} (hadmin : db.GlobalAdmin)
    (htakes : ¬ db.Named d.id "super_admin") : db.AdminBy d.kept := by
  have hne : ∀ {id : Uuid}, db.Named id "super_admin" → id ≠ d.id := by
    rintro id hnamed rfl
    exact htakes hnamed
  exact hadmin.by (fun r hr hname => decide_eq_true (hne ⟨r, hr, rfl, hname⟩))
    (fun a _ hnamed => decide_eq_true (hne hnamed))
    fun _ _ _ _ _ hnamed => ⟨rfl, decide_eq_true (hne hnamed)⟩

/-- A passed count has found somebody; not at team scope, when there are no such assignments. -/
theorem globalAdmin_of_quorum (hcount : db.assertSuperAdminQuorum = .ok ())
    (hscoped : ¬ db.TeamScopedAdmin) : db.GlobalAdmin := by
  have hne : db.superAdminIds ≠ [] := by
    rintro hnil
    rw [Db.assertSuperAdminQuorum, refuseIf_ok, hnil] at hcount
    exact hcount rfl
  obtain ⟨id, hid⟩ := List.exists_mem_of_ne_nil _ hne
  obtain ⟨hid, hholds⟩ := List.mem_filter.mp hid
  obtain ⟨u, hu, rfl⟩ := List.mem_map.mp hid
  obtain ⟨hu, hlive⟩ := List.mem_filter.mp hu
  obtain ⟨r, hr, hname, hlink⟩ := Db.holds_iff.mp (of_decide_eq_true hholds)
  refine ⟨u, hu, by simpa [UserRow.Live] using hlive, r, hr, hname, rfl, ?_⟩
  rcases hlink with ⟨a, ha, huser, hrole⟩ | ⟨m, hm, tr, htr, huser, hteam, hrole⟩
  · refine Or.inl ⟨a, ha, rfl, ?_, huser, hrole⟩
    by_contra hglobal
    exact hscoped ⟨a, ha, hglobal, r, hr, hrole.symm, hname⟩
  · exact Or.inr ⟨m, hm, tr, htr, rfl, rfl, huser, hteam, hrole⟩

end Takes

/-! ## Main result -/

section Run

variable {env : Env} {s s' : Sys} {act : Action}

/-- A write without the lock, when somebody has `super_admin` by the rows it keeps. -/
theorem Sys.Spared.write {k : Kept} {db' : Db} {deletions : List RoleDeletion}
    (hspared : s.Spared k) (hleaves : Leaves k s.db db') :
    Sys.Spared ⟨db', s.tx, deletions⟩ .all := by
  refine ⟨hleaves.globalAdmin hspared.1, fun tx htx hcounted => ?_⟩
  exact (hleaves.visible tx.pending).globalAdmin (hspared.2 tx htx hcounted)

theorem spared_step (hinv : s.Spared .all) (hcareful : Careful s act) (h : Step env s act s') :
    s'.Spared .all := by
  cases h with
  | @write w db' h =>
    refine Sys.Spared.write ?_ (Write.leaves h)
    by_cases htakes : w.Takes s.db
    · exact hcareful htakes
    · -- a transaction does not touch teams and roles, so neither does the write take any there
      exact ⟨Write.adminBy hinv.1 htakes,
        fun tx htx hcounted => Write.adminBy (hinv.2 tx htx hcounted) htakes⟩
  | copy h => exact hinv
  | @finish d h =>
    refine Sys.Spared.write ?_ (d.leaves s.db)
    by_cases htakes : s.db.Named d.id "super_admin"
    · exact hcareful htakes
    · exact ⟨RoleDeletion.adminBy hinv.1 htakes,
        fun tx htx hcounted => RoleDeletion.adminBy (hinv.2 tx htx hcounted) htakes⟩
  | lock free h =>
    refine ⟨hinv.1, ?_⟩
    rintro tx htx hcounted
    cases htx
    cases hcounted
  | @count tx htx h =>
    refine ⟨hinv.1, ?_⟩
    rintro tx' htx' -
    cases htx'
    by_cases hscoped : (tx.pending.visible s.db).TeamScopedAdmin
    · exact hcareful tx htx hscoped
    · exact globalAdmin_of_quorum h hscoped
  | commit htx counted => exact ⟨hinv.2 _ htx counted, nofun⟩
  | rollback htx => exact ⟨hinv.1, nofun⟩

/-- The platform keeps an administrator through every careful run. -/
theorem globalAdmin_kept {db : Db} {acts : List Action} (hadmin : db.GlobalAdmin)
    (hrun : Steps (fun s act s' => Careful s act ∧ Step env s act s') (.idle db) acts s) :
    s.db.GlobalAdmin := by
  have hinit : (Sys.idle db).Spared .all := ⟨hadmin, nofun⟩
  have hspared := hrun.invariant (I := fun s => s.Spared .all)
    (fun s act s' hinv h => spared_step hinv h.1 h.2) hinit
  exact hspared.1

end Run

/-! ## Two runs -/

/-- Two super admins, each by a global assignment. -/
def twoAdminsDb : Db where
  users := [plainUser 1 "root@example.com", plainUser 2 "second@example.com"]
  teams := []
  roles := [⟨1, "super_admin", true, allowDocument "FullAccess" (.str "*")⟩]
  assignments := [⟨1, 1, .global⟩, ⟨2, 1, .global⟩]
  members := []
  teamRoles := []

/-- The only super admin, through a team. -/
def teamAdminDb : Db :=
  { twoAdminsDb with
    teams := [⟨1, "admins"⟩]
    assignments := []
    members := [⟨1, 1⟩]
    teamRoles := [⟨1, 1⟩] }

/-- The second one is deleted: the count finds the first. -/
theorem globalAdmin_kept_delete : ∃ s,
    Steps (fun s act s' => Careful s act ∧ Step opsEnv s act s') (.idle twoAdminsDb)
      [.lock (.deleteUser 2), .count, .commit] s ∧ s.db.GlobalAdmin := by
  obtain ⟨s, hrun⟩ : ∃ s, Steps (fun s act s' => Careful s act ∧ Step opsEnv s act s')
      (.idle twoAdminsDb) [.lock (.deleteUser 2), .count, .commit] s := by
    refine ⟨_, .cons ⟨trivial, .lock rfl rfl⟩ (.cons ⟨?_, .count rfl rfl⟩
      (.single ⟨trivial, .commit rfl rfl⟩))⟩
    rintro tx htx -
    cases htx
    decide
  exact ⟨s, hrun, globalAdmin_kept (by decide) hrun⟩

/-- They remove themselves from the team, and nobody is left. -/
theorem last_admin_leaves_team :
    ¬ ∀ (env : Env) (db db' : Db) (calls : List Call), db.GlobalAdmin →
      Steps (fun db call db' => call.request.removes = true ∧ handle env db call = .ok db')
        db calls db' → db'.GlobalAdmin := by
  intro hall
  have hchecks : memberChecks teamAdminDb (AuthUser.load teamAdminDb 1) 1 = .ok () := by
    rw [memberChecks, requirePermission_load "FullAccess" rfl (by decide)]
    decide +kernel
  have hremove : removeMember teamAdminDb (AuthUser.load teamAdminDb 1) 1 1 =
      .ok { teamAdminDb with members := [] } := by
    rw [removeMember, hchecks]
    rfl
  have hnone := hall opsEnv teamAdminDb _ [⟨AuthUser.load teamAdminDb 1, .removeMember 1 1⟩]
    (by decide) (.single ⟨rfl, hremove⟩)
  exact absurd hnone (by decide)

end ThinkWatch.Rbac
