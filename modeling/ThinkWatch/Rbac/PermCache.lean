import ThinkWatch.Lib.CacheAside
import ThinkWatch.Rbac.SuperAdmin
import ThinkWatch.Rbac.Transactions

/-!
# The permission cache

`load_user_permissions_cached` of `middleware/auth_guard.rs` keeps the permissions and denials of a
user in Redis for a minute; the handlers that change them delete the entries of the users they find.
`update_role`, `reset_role` and the team roles look these users up after the commit, `update_user`
and the members name one user, and `delete_role` and `delete_team` invalidate nothing.

`permissions_no_older`: in a run that is `Timely`, a check that starts after such a request has
returned uses the permissions and denials of tables no older than that request.
-/

namespace ThinkWatch.Rbac

open Lib Policy CacheAside

/-! ## What the requests commit -/

/-- A committed `update_user`: its writes are on the row and the assignments of one user. -/
structure UserUpdate where
  pending : Pending
  req : UpdateUserRequest
  removed_own : ∀ a ∈ pending.removed, a.userId = pending.user
  added_own : ∀ a ∈ pending.added, a.userId = pending.user
  unassigned : req.roleAssignments = none → pending.removed = [] ∧ pending.added = []

/-- The commit of a request; what it has read before comes with it. -/
inductive Change where
  | updateRole (id : Uuid) (req : UpdateRoleRequest)
  | resetRole (id : Uuid) (doc : Json)
  | deleteRole (d : RoleDeletion)
  | updateUser (u : UserUpdate)
  | addMember (team user : Uuid)
  | removeMember (team user : Uuid)
  | assignTeamRole (team role : Uuid)
  | removeTeamRole (team role : Uuid)
  | deleteTeam (team : Uuid)

def Change.apply (db : Db) : Change → Db
  | .updateRole id req =>
    { db with roles := db.roles.map fun r => if r.id = id then req.updateRow r else r }
  | .resetRole id doc =>
    { db with roles := db.roles.map fun r =>
        if r.id = id then { r with policyDocument := doc } else r }
  | .deleteRole d => d.finish db
  | .updateUser u => u.pending.visible db
  | .addMember team user =>
    if ⟨user, team⟩ ∈ db.members then db else { db with members := db.members ++ [⟨user, team⟩] }
  | .removeMember team user => { db with members := db.members.filter (· ≠ ⟨user, team⟩) }
  | .assignTeamRole team role =>
    if ⟨team, role⟩ ∈ db.teamRoles then db
    else { db with teamRoles := db.teamRoles ++ [⟨team, role⟩] }
  | .removeTeamRole team role => db.deleteTeamRole team role
  | .deleteTeam team => db.deleteTeamRow team

/-- The calls of `invalidate_user_perms`. -/
def Change.users : Change → List Uuid
  | .updateUser u =>
    (if u.req.isActive = some false then [u.pending.user] else []) ++
      (if u.req.roleAssignments.isSome then [u.pending.user] else [])
  | .addMember _ user => [user]
  | .removeMember _ user => [user]
  | _ => []

/-- The queries of `invalidate_role_perms`. -/
def invalidateRolePerms (role : Uuid) : List (Db → List Uuid) :=
  [fun db => ((db.assignments.filter (·.roleId = role)).map (·.userId)).dedup,
   fun db => ((db.teamRoles.filter (·.roleId = role)).flatMap fun tr =>
      (db.members.filter (·.teamId = tr.teamId)).map (·.userId)).dedup]

/-- The query of `invalidate_team_perms`. -/
def invalidateTeamPerms (team : Uuid) : List (Db → List Uuid) :=
  [fun db => (db.members.filter (·.teamId = team)).map (·.userId)]

def Change.lookups : Change → List (Db → List Uuid)
  | .updateRole id _ => invalidateRolePerms id
  | .resetRole id _ => invalidateRolePerms id
  | .assignTeamRole team _ => invalidateTeamPerms team
  | .removeTeamRole team _ => invalidateTeamPerms team
  | _ => []

/-- The requests that invalidate nothing. -/
def Change.silent : Change → Bool
  | .deleteRole _ => true
  | .deleteTeam _ => true
  | _ => false

/--
`load_user_permissions_cached`: the permissions come from one query, the denials among them from
another, and both are kept under `user_perms:{user_id}` for 60 seconds.
-/
def permDesign : Design Db Uuid (List String) (List String × List String) Change where
  first db user := computeUserPermissions (db.loadUserPolicyDocuments user) allPermissionKeys
  second db user perms := (perms, computeDeniedPermissions (db.loadUserPolicyDocuments user) perms)
  apply m db := m.apply db
  keys := Change.users
  lookups := Change.lookups
  ttl := 60000

/-! ## The requests behind a commit -/

/-- The change is one that the request commits. -/
inductive Makes : Request → Change → Prop where
  | updateRole (id : Uuid) (req : UpdateRoleRequest) :
      Makes (.updateRole id req) (.updateRole id req)
  | resetRole (id : Uuid) (doc : Json) : Makes (.resetRole id) (.resetRole id doc)
  | deleteRole (d : RoleDeletion) (reassignTo : Option Uuid) :
      Makes (.deleteRole d.id reassignTo) (.deleteRole d)
  | updateUser (u : UserUpdate) : Makes (.updateUser u.pending.user u.req) (.updateUser u)
  | addMember (team user : Uuid) : Makes (.addMember team user) (.addMember team user)
  | removeMember (team user : Uuid) : Makes (.removeMember team user) (.removeMember team user)
  | assignTeamRole (team role : Uuid) :
      Makes (.assignTeamRole team role) (.assignTeamRole team role)
  | removeTeamRole (team role : Uuid) :
      Makes (.removeTeamRole team role) (.removeTeamRole team role)
  | deleteTeam (team : Uuid) : Makes (.deleteTeam team) (.deleteTeam team)

/-- The requests that a cached permission can outlive. -/
def Request.mutates : Request → Bool
  | .createUser .. | .deleteUser .. | .resetUserPassword .. | .createRole .. => false
  | _ => true

section Handle

variable {env : Env} {db db' : Db}

/-- The writes of a successful `update_user` as a change. -/
theorem exists_userUpdate {user : Uuid} {req : UpdateUserRequest}
    (h : updateUserWrite env db user req = .ok db') :
    ∃ u : UserUpdate, u.pending.user = user ∧ u.req = req ∧ u.pending.visible db = db' := by
  have huser : (req.pending user db db').user = user := by
    unfold UpdateUserRequest.pending
    split <;> rfl
  refine ⟨⟨req.pending user db db', req, ?_, ?_, ?_⟩, huser, rfl,
    UpdateUserRequest.visible_pending h⟩
  · rw [huser]
    unfold UpdateUserRequest.pending
    split
    · exact fun a ha => Db.userId_of_mem_assignmentsOf ha
    · exact nofun
  · rw [huser]
    unfold UpdateUserRequest.pending
    split
    · exact fun a ha => Db.userId_of_mem_assignmentsOf ha
    · exact nofun
  · intro hnone
    rw [UpdateUserRequest.pending, hnone]
    exact ⟨rfl, rfl⟩

/-- A successful request commits a change. -/
theorem handle_makes {call : Call} (hmutates : call.request.mutates = true)
    (h : handle env db call = .ok db') : ∃ m, Makes call.request m ∧ m.apply db = db' := by
  obtain ⟨caller, request⟩ := call
  cases request with
  | updateRole id req => exact ⟨_, .updateRole id req, (updateRole_ok h).symm⟩
  | resetRole id =>
    obtain ⟨doc, rfl⟩ := resetRole_ok h
    exact ⟨_, .resetRole id doc, rfl⟩
  | deleteRole id reassignTo =>
    obtain ⟨assigned, h⟩ := deleteRole_ok h
    obtain ⟨d, -, rfl, hfinish⟩ := startDeletion_ok h
    exact ⟨_, .deleteRole d reassignTo, hfinish⟩
  | updateUser user req =>
    obtain ⟨u, rfl, rfl, hvisible⟩ := exists_userUpdate (updateUser_ok h).2.1
    exact ⟨_, .updateUser u, hvisible⟩
  | addMember team user =>
    refine ⟨_, .addMember team user, ?_⟩
    rw [Change.apply]
    rcases addMember_ok h with ⟨hmem, rfl⟩ | ⟨hmem, rfl⟩
    · rw [if_pos hmem]
    · rw [if_neg hmem]
  | removeMember team user => exact ⟨_, .removeMember team user, (removeMember_ok h).symm⟩
  | assignTeamRole team role =>
    refine ⟨_, .assignTeamRole team role, ?_⟩
    rw [Change.apply]
    rcases assignTeamRole_ok h with ⟨hmem, rfl⟩ | ⟨hmem, -, rfl⟩
    · rw [if_pos hmem]
    · rw [if_neg hmem]
  | removeTeamRole team role => exact ⟨_, .removeTeamRole team role, (removeTeamRole_ok h).symm⟩
  | deleteTeam team => exact ⟨_, .deleteTeam team, (deleteTeam_ok h).symm⟩
  | _ => cases hmutates

end Handle

/-! ## The condition -/

/-- The cache, the tables and the requests under way. -/
abbrev PermSys := CacheAside.Sys Db Uuid (List String) (List String × List String)

/-- `delete_role` and `delete_team` change no cached permissions; for the rest, `Orderly`. -/
def Timely (s : PermSys) : CacheAside.Action Uuid Change → Prop
  | .change _ m => m.silent = true → ∀ user, s.Cached user →
      permDesign.value s.current user = permDesign.value (m.apply s.current) user
  | act => Orderly permDesign s act

/-! ## Whom a change concerns -/

section Concerns

variable {db db' : Db} {user : Uuid}

/-- A user's documents depend on their assignments and memberships, the roles and team roles. -/
theorem loadUserPolicyDocuments_congr (hroles : db'.roles = db.roles)
    (hassign : db'.assignments.filter (·.userId = user) = db.assignments.filter (·.userId = user))
    (hmembers : db'.members.filter (·.userId = user) = db.members.filter (·.userId = user))
    (hteam : db'.teamRoles = db.teamRoles) :
    db'.loadUserPolicyDocuments user = db.loadUserPolicyDocuments user := by
  unfold Db.loadUserPolicyDocuments Db.rolesIn Db.roleIdsOf
  rw [hroles, hassign, hmembers, hteam]

theorem value_congr
    (h : db'.loadUserPolicyDocuments user = db.loadUserPolicyDocuments user) :
    permDesign.value db user = permDesign.value db' user := by
  simp only [Design.value, permDesign, h]

theorem UserUpdate.value_visible (u : UserUpdate)
    (h : user ≠ u.pending.user ∨ u.req.roleAssignments = none) :
    permDesign.value db user = permDesign.value (u.pending.visible db) user := by
  have hremoved : ∀ a ∈ db.assignments, a.userId = user → a ∉ u.pending.removed := by
    intro a _ huser hmem
    rcases h with h | h
    · exact h (huser.symm.trans (u.removed_own a hmem))
    · rw [(u.unassigned h).1] at hmem
      cases hmem
  have hadded : ∀ a ∈ u.pending.added, a.userId ≠ user := by
    intro a hmem huser
    rcases h with h | h
    · exact h (huser.symm.trans (u.added_own a hmem))
    · rw [(u.unassigned h).2] at hmem
      cases hmem
  refine value_congr (loadUserPolicyDocuments_congr rfl ?_ rfl rfl)
  have hnone : u.pending.added.filter (·.userId = user) = [] :=
    List.filter_eq_nil_iff.mpr fun a ha => by simpa using hadded a ha
  unfold Pending.visible
  rw [List.filter_append, hnone, List.append_nil, List.filter_filter]
  refine List.filter_congr fun a ha => ?_
  by_cases huser : a.userId = user
  · simp [huser, hremoved a ha huser]
  · simp [huser]

theorem filter_append_of_ne {ms : List Member} {m : Member} (h : m.userId ≠ user) :
    (ms ++ [m]).filter (·.userId = user) = ms.filter (·.userId = user) := by
  simp [List.filter_append, h]

theorem filter_filter_of_ne {ms : List Member} {m : Member} (h : m.userId ≠ user) :
    (ms.filter (· ≠ m)).filter (·.userId = user) = ms.filter (·.userId = user) := by
  rw [List.filter_filter]
  refine List.filter_congr fun m' _ => ?_
  by_cases huser : m'.userId = user
  · have hne : m' ≠ m := by
      rintro rfl
      exact h huser
    simp [huser, hne]
  · simp [huser]

/-- A request that names the users it invalidates concerns nobody else. -/
theorem Change.mem_users {m : Change} (hlookups : m.lookups = []) (hsilent : m.silent = false)
    (h : permDesign.value db user ≠ permDesign.value (m.apply db) user) : user ∈ m.users := by
  by_contra hnot
  apply h
  cases m with
  | updateRole id req => cases hlookups
  | resetRole id doc => cases hlookups
  | deleteRole d => cases hsilent
  | updateUser u =>
    refine u.value_visible ?_
    by_cases hassign : u.req.roleAssignments = none
    · exact Or.inr hassign
    · refine Or.inl ?_
      rintro rfl
      refine hnot (List.mem_append_right _ ?_)
      rw [if_pos (Option.isSome_iff_ne_none.mpr hassign)]
      exact List.mem_singleton_self _
  | addMember team target =>
    have hne : target ≠ user := fun heq => hnot (List.mem_singleton.mpr heq.symm)
    simp only [Change.apply]
    split
    · rfl
    · exact value_congr (loadUserPolicyDocuments_congr rfl rfl (filter_append_of_ne hne) rfl)
  | removeMember team target =>
    have hne : target ≠ user := fun heq => hnot (List.mem_singleton.mpr heq.symm)
    exact value_congr (loadUserPolicyDocuments_congr rfl rfl (filter_filter_of_ne hne) rfl)
  | assignTeamRole team role => cases hlookups
  | removeTeamRole team role => cases hlookups
  | deleteTeam team => cases hsilent

theorem timely_orderly {s : PermSys} {act : CacheAside.Action Uuid Change} (h : Timely s act) :
    Orderly permDesign s act := by
  cases act with
  | change j m =>
    intro hlookups user hcached hchange
    cases hsilent : m.silent with
    | true => exact absurd (h hsilent user hcached) hchange
    | false => exact Change.mem_users hlookups hsilent hchange
  | _ => exact h

theorem orderly_timely {s : PermSys} {act : CacheAside.Action Uuid Change}
    (h : Orderly permDesign s act) : Timely s act := by
  cases act with
  | change j m =>
    intro hsilent user hcached
    by_contra hchange
    cases m with
    | deleteRole d => cases h rfl user hcached hchange
    | deleteTeam team => cases h rfl user hcached hchange
    | _ => cases hsilent
  | _ => exact h

end Concerns

/-! ## Main result -/

/-- Permission checks do not outlive a change that had returned when they started. -/
theorem permissions_no_older {db : Db} {s : PermSys} {acts : List (CacheAside.Action Uuid Change)}
    (hrun : Steps (fun s act s' => Timely s act ∧ CacheAside.Step permDesign s act s')
      (.start db) acts s) {i : Nat} {user : Uuid} {since : Nat} {v : List String × List String}
    (hdone : s.readers i = some (.done user since v)) : s.NoOlder permDesign user since v := by
  refine value_no_older (hrun.mono ?_) hdone
  rintro s act s' ⟨htimely, hstep⟩
  exact ⟨timely_orderly htimely, hstep⟩

/-! ## Two runs -/

/-- User 2 may edit teams through a role of team 1, user 1 is super admin. -/
def sharedDb : Db :=
  { opsDb with
    assignments := [⟨1, 1, .global⟩]
    teamRoles := [⟨1, 2⟩] }

/-- The tables and cache after a first check of user 2. -/
def sharedSys : PermSys :=
  { (Sys.start sharedDb).setReader 0 (.done 2 0 (permDesign.value sharedDb 2)) with
    cache := Store.empty.setEx 0 2 (permDesign.value sharedDb 2) 60000 }

/-- The condition that every change is the commit of a successful request. -/
def Requested (env : Env) (s : PermSys) (act : CacheAside.Action Uuid Change) : Prop :=
  ∀ j m, act = .change j m → ∃ call, Makes call.request m ∧
    handle env s.current call = .ok (m.apply s.current)

theorem sharedSys_loads :
    Steps (fun s act s' => Orderly permDesign s act ∧ CacheAside.Step permDesign s act s')
      (.start sharedDb) [.check 0 2 0, .readFirst 0, .readSecond 0, .store 0] sharedSys :=
  steps_load rfl (Or.inl rfl) rfl

/-- A change is committed, with these keys to delete. -/
def sharedSys.after (db : Db) (users : List Uuid) : PermSys :=
  (sharedSys.commit db).setWriter 0 ⟨1, [], users, false⟩

/-- User 2 leaves the team, and the next check sees it. -/
theorem permissions_no_older_leaver : ∃ (acts : List (CacheAside.Action Uuid Change)) (s : PermSys),
    Steps (fun s act s' => Timely s act ∧ CacheAside.Step permDesign s act s')
      (.start sharedDb) acts s ∧
    s.readers 1 = some (.done 2 1 ([], [])) ∧ s.NoOlder permDesign 2 1 ([], []) := by
  let m : Change := .removeMember 1 2
  have hchange : CacheAside.Step permDesign sharedSys (.change 0 m)
      (sharedSys.after (m.apply sharedDb) [2]) := .change rfl
  have horderly : Orderly permDesign sharedSys (.change 0 m) := timely_orderly nofun
  have hret := @steps_return _ _ _ _ _ permDesign (sharedSys.after (m.apply sharedDb) [2]) _ 0 1 [2]
    rfl
  have hload := @steps_load _ _ _ _ _ permDesign
    { (sharedSys.after (m.apply sharedDb) [2]).setWriter 0 ⟨1, [], [], true⟩ with
      cache := sharedSys.cache.del 2 } _ 1 2 1 rfl (Or.inr ⟨0, _, rfl, rfl, rfl⟩) rfl
  have hvalue : permDesign.value (m.apply sharedDb) 2 = ([], []) := by decide
  rw [show Sys.current _ = m.apply sharedDb from rfl, hvalue] at hload
  have hrun := ((sharedSys_loads.snoc ⟨horderly, hchange⟩).append hret).append hload
  have htimely : Steps
      (fun s act s' => Timely s act ∧ CacheAside.Step permDesign s act s') _ _ _ :=
    hrun.mono fun _ _ _ h => ⟨orderly_timely h.1, h.2⟩
  exact ⟨_, _, htimely, rfl, permissions_no_older htimely (i := 1) rfl⟩

/-- The team is deleted, and the next check still sees the role. -/
theorem deleted_team_still_grants :
    ¬ ∀ (env : Env) (db : Db) (s : PermSys) (acts : List (CacheAside.Action Uuid Change)),
      Steps (fun s act s' => Requested env s act ∧ CacheAside.Step permDesign s act s')
        (.start db) acts s →
      ∀ i user since v, s.readers i = some (.done user since v) →
        s.NoOlder permDesign user since v := by
  intro hall
  have hother : ∀ {s : PermSys} {act : CacheAside.Action Uuid Change},
      (∀ j m, act ≠ .change j m) → Requested opsEnv s act :=
    fun h j m heq => absurd heq (h j m)
  have hload : Steps
      (fun s act s' => Requested opsEnv s act ∧ CacheAside.Step permDesign s act s')
      (.start sharedDb) [.check 0 2 0, .readFirst 0, .readSecond 0, .store 0] sharedSys := by
    refine (sharedSys_loads.restrict (P := fun act => ∀ j m, act ≠ .change j m) ?_).mono ?_
    · simp
    · exact fun s act s' h => ⟨hother h.1, h.2.2⟩
  have hdelete : Requested opsEnv sharedSys (.change 0 (.deleteTeam 1)) := by
    rintro j m heq
    cases heq
    have hchecks : deleteTeamChecks sharedDb (AuthUser.load sharedDb 1) 1 = .ok () := by
      rw [deleteTeamChecks, AuthUser.requireGlobalPermission,
        requirePermission_load "FullAccess" rfl (by decide)]
      decide +kernel
    refine ⟨⟨AuthUser.load sharedDb 1, .deleteTeam 1⟩, .deleteTeam 1, ?_⟩
    show deleteTeam sharedDb _ 1 = _
    rw [deleteTeam, hchecks]
    rfl
  have hchange : CacheAside.Step permDesign sharedSys (.change 0 (.deleteTeam 1))
      (sharedSys.after (sharedDb.deleteTeamRow 1) []) := .change rfl
  have hret := @CacheAside.Step.ret _ _ _ _ _ _ permDesign
    (sharedSys.after (sharedDb.deleteTeamRow 1) []) 0 _ rfl rfl rfl
  have hhit := @CacheAside.Step.hit _ _ _ _ _ _ permDesign
    ((sharedSys.after (sharedDb.deleteTeamRow 1) []).setWriter 0 ⟨1, [], [], true⟩) 1 2 1 _ rfl
    (Or.inr ⟨0, _, rfl, rfl, rfl⟩) rfl
  have hrun := ((hload.snoc ⟨hdelete, hchange⟩).snoc ⟨hother (by nofun), hret⟩).snoc
    ⟨hother (by nofun), hhit⟩
  obtain ⟨n, hsince, hn, hval⟩ := hall opsEnv sharedDb _ _ hrun 1 2 1 _ rfl
  obtain rfl : n = 1 := Nat.le_antisymm hn hsince
  exact absurd hval (by decide)

end ThinkWatch.Rbac
