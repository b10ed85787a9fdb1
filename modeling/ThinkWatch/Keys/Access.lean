import ThinkWatch.Keys.Handlers
import ThinkWatch.Rbac.Handlers
import Mathlib.Data.Fintype.EquivFin

/-!
# Who reaches a key of somebody else

The handlers of keys ask for a permission of their own and, for a key of another user, for
`api_keys:admin`. Both are looked up in the union over all assignments of the caller, whatever
their scope: no `assert_scope_*` follows.

`foreign_key_reached_iff`: an operation on a key of another user keeps to the scopes of the caller's
grants exactly when the caller does not have `api_keys:admin` solely on teams that the owner is not
in (`OnlyElsewhere`), or lacks the operation's own permission, or the key is not in a state for it.
-/

namespace ThinkWatch.Keys

open Lib Policy Rbac

/-! ## Operations -/

/-- The operations on one key, without their arguments. -/
inductive Op where
  | get
  | list
  | revoke
  | update
  | rotate
deriving DecidableEq, Repr

/-- The permission that an operation asks for at its start. -/
def Op.permission : Op → String
  | .get => "api_keys:read"
  | .list => "api_keys:read"
  | .revoke => "api_keys:delete"
  | .update => "api_keys:update"
  | .rotate => "api_keys:rotate"

/-- What an operation asks of the key. -/
def Op.Ready (k : ApiKey) : Op → Prop
  | .get => k.live = true
  | .list => visible false k = true ∨ visible true k = true
  | .revoke => k.live = true
  | .update => k.live = true
  | .rotate => k.live = true ∧ k.isActive = true ∧ k.disabledReason ≠ some "rotated"

/-- The operation succeeds on the key for some arguments; for a list, some page shows the key. -/
def Reaches (parseUuid : String → Option Uuid) (s : Store) (c : AuthUser) (k : ApiKey) : Op → Prop
  | .get => ∃ r, getKey s c k.id = .ok r
  | .list => ∃ params rows, listKeys s c params = .ok rows ∧ k ∈ rows
  | .revoke => ∃ now s', revokeKey s c k.id now = .ok s'
  | .update => ∃ req now s', updateKey parseUuid s c k.id req now = .ok s'
  | .rotate => ∃ cfg new now s', rotateKey cfg s c k.id new now = .ok s'

/-! ## Grants of `api_keys:admin` -/

def adminPerm : String := "api_keys:admin"

/-- The role exists and its document grants `api_keys:admin`. -/
def GrantsAdmin (db : Db) (role : Uuid) : Prop :=
  ∃ r ∈ db.roles, r.id = role ∧ adminPerm ∈ extractPermissions r.policyDocument allPermissionKeys

instance (db : Db) (role : Uuid) : Decidable (GrantsAdmin db role) :=
  inferInstanceAs (Decidable (∃ r ∈ db.roles, _))

def NotDenied (db : Db) (c : Uuid) : Prop := adminPerm ∉ (AuthUser.load db c).deniedPermissions

instance (db : Db) (c : Uuid) : Decidable (NotDenied db c) :=
  inferInstanceAs (Decidable (_ ∉ _))

/-- A role that grants `api_keys:admin` is attached to a team of `c`. -/
def AdminByTeam (db : Db) (c : Uuid) : Prop :=
  ∃ m ∈ db.members, ∃ tr ∈ db.teamRoles,
    m.userId = c ∧ tr.teamId = m.teamId ∧ GrantsAdmin db tr.roleId

/-- The scope takes in `u`: it is global, or a team that `u` is in. -/
def InScope (db : Db) (u : Uuid) (scope : Scope) : Prop :=
  scope = .global ∨ ∃ t, scope = .team t ∧ ⟨u, t⟩ ∈ db.members

/--
What should let `c` reach the keys of `u`: `api_keys:admin`, not denied, in a global assignment, in
an assignment scoped to a team of `u`, or through a role attached to a team of `c`.
-/
def Entitled (db : Db) (c u : Uuid) : Prop :=
  NotDenied db c ∧
    ((∃ a ∈ db.assignments, a.userId = c ∧ GrantsAdmin db a.roleId ∧ InScope db u a.scope) ∨
      AdminByTeam db c)

/--
All that `c` has of `api_keys:admin` is in assignments scoped to teams that `u` is not in, and there
is one.
-/
def OnlyElsewhere (db : Db) (c u : Uuid) : Prop :=
  NotDenied db c ∧
    (∃ a ∈ db.assignments, a.userId = c ∧ GrantsAdmin db a.roleId) ∧
    (∀ a ∈ db.assignments, a.userId = c → GrantsAdmin db a.roleId →
      ∃ t, a.scope = .team t ∧ ⟨u, t⟩ ∉ db.members) ∧
    ¬ AdminByTeam db c

theorem mem_permissions_load {db : Db} {c : Uuid} {perm : String} :
    perm ∈ (AuthUser.load db c).permissions ↔
      ∃ r ∈ db.roles, db.Linked c r.id ∧
        perm ∈ extractPermissions r.policyDocument allPermissionKeys := by
  show perm ∈ computeUserPermissions (db.loadUserPolicyDocuments c) allPermissionKeys ↔ _
  unfold computeUserPermissions Db.loadUserPolicyDocuments
  rw [mem_btreeSet, List.mem_flatMap]
  constructor
  · rintro ⟨doc, hdoc, hperm⟩
    obtain ⟨r, hr, rfl⟩ := List.mem_map.mp hdoc
    rw [Db.rolesIn, List.mem_filter, decide_eq_true_eq, Db.mem_roleIdsOf] at hr
    exact ⟨r, hr.1, hr.2, hperm⟩
  · rintro ⟨r, hr, hlinked, hperm⟩
    refine ⟨r.policyDocument, List.mem_map.mpr ⟨r, ?_, rfl⟩, hperm⟩
    rw [Db.rolesIn, List.mem_filter, decide_eq_true_eq, Db.mem_roleIdsOf]
    exact ⟨hr, hlinked⟩

/-- The handlers' test does not look at scopes. -/
theorem callerIsAdminTier_load {db : Db} {c : Uuid} :
    callerIsAdminTier (AuthUser.load db c) = true ↔
      NotDenied db c ∧
        ((∃ a ∈ db.assignments, a.userId = c ∧ GrantsAdmin db a.roleId) ∨ AdminByTeam db c) := by
  unfold callerIsAdminTier
  rw [Bool.and_eq_true, decide_eq_true_eq, decide_eq_true_eq, mem_permissions_load]
  refine and_congr_right fun _ => ?_
  constructor
  · rintro ⟨r, hr, ⟨a, ha, hc, hrole⟩ | ⟨m, hm, tr, htr, hc, hteam, hrole⟩, hperm⟩
    · exact Or.inl ⟨a, ha, hc, r, hr, hrole.symm, hperm⟩
    · exact Or.inr ⟨m, hm, tr, htr, hc, hteam, r, hr, hrole.symm, hperm⟩
  · rintro (⟨a, ha, hc, r, hr, hrole, hperm⟩ | ⟨m, hm, tr, htr, hc, hteam, r, hr, hrole, hperm⟩)
    · exact ⟨r, hr, Or.inl ⟨a, ha, hc, hrole.symm⟩, hperm⟩
    · exact ⟨r, hr, Or.inr ⟨m, hm, tr, htr, hc, hteam, hrole.symm⟩, hperm⟩

theorem not_inScope {db : Db} {u : Uuid} {scope : Scope} (h : ¬ InScope db u scope) :
    ∃ t, scope = .team t ∧ ⟨u, t⟩ ∉ db.members := by
  cases scope with
  | global => exact absurd (Or.inl rfl) h
  | team t => exact ⟨t, rfl, fun hmem => h (Or.inr ⟨t, rfl, hmem⟩)⟩

/-- A caller whom the test lets through and who is not entitled has the grant only elsewhere. -/
theorem onlyElsewhere_iff {db : Db} {c u : Uuid} :
    OnlyElsewhere db c u ↔
      callerIsAdminTier (AuthUser.load db c) = true ∧ ¬ Entitled db c u := by
  rw [callerIsAdminTier_load]
  constructor
  · rintro ⟨hdenied, hsome, helse, hteam⟩
    refine ⟨⟨hdenied, Or.inl hsome⟩, ?_⟩
    rintro ⟨-, ⟨a, ha, hc, hgrants, hscope⟩ | hby⟩
    · obtain ⟨t, ht, hnot⟩ := helse a ha hc hgrants
      rcases hscope with hglobal | ⟨t', ht', hmem⟩
      · rw [ht] at hglobal
        cases hglobal
      · rw [ht] at ht'
        cases ht'
        exact hnot hmem
    · exact hteam hby
  · rintro ⟨⟨hdenied, hsome⟩, hnot⟩
    have hteam : ¬ AdminByTeam db c := fun hby => hnot ⟨hdenied, Or.inr hby⟩
    refine ⟨hdenied, hsome.resolve_right hteam, ?_, hteam⟩
    intro a ha hc hgrants
    exact not_inScope fun hscope => hnot ⟨hdenied, Or.inl ⟨a, ha, hc, hgrants, hscope⟩⟩

/-! ## The handlers on a key of somebody else -/

section Foreign

variable {s : Store} {c : AuthUser} {k : ApiKey} {u : Uuid}

/-- `k` is a row of the table, of another user than `c`. -/
structure Foreign (s : Store) (c : Uuid) (k : ApiKey) (u : Uuid) : Prop where
  ids : (s.keys.map (·.id)).Nodup
  row : k ∈ s.keys
  owner : k.userId = some u
  other : c ≠ u

theorem Foreign.assertOwnerOrAdmin_ok (h : Foreign s c.sub k u) :
    assertOwnerOrAdmin s c k.id = .ok () ↔ k.live = true ∧ callerIsAdminTier c = true := by
  unfold assertOwnerOrAdmin ownerOfLive
  rw [findLive_of_mem h.ids h.row]
  split
  next hlive =>
    simp only [bind_ok, orRefuse_ok, refuseIf_ok, Option.some.injEq]
    constructor
    · rintro ⟨owner, ⟨row, rfl, howner⟩, hcheck⟩
      rw [h.owner, Option.some.injEq] at howner
      have hne : c.sub ≠ owner := howner ▸ h.other
      exact ⟨hlive, Bool.eq_true_of_not_eq_false fun hf => hcheck ⟨hne, hf⟩⟩
    · rintro ⟨-, htier⟩
      exact ⟨u, ⟨k, rfl, h.owner⟩, fun hcheck => by rw [htier] at hcheck; cases hcheck.2⟩
  next hdead =>
    constructor
    · intro hok
      cases hok
    · rintro ⟨hlive, -⟩
      exact absurd hlive hdead

theorem Foreign.findLive (h : Foreign s c.sub k u) (hlive : k.live = true) :
    findLive s.keys k.id = some k := by
  rw [findLive_of_mem h.ids h.row, if_pos hlive]

theorem Foreign.getKey_ok (h : Foreign s c.sub k u) :
    (∃ r, getKey s c k.id = .ok r) ↔
      c.requirePermission "api_keys:read" = .ok () ∧ k.live = true ∧
        callerIsAdminTier c = true := by
  unfold getKey
  simp only [bind_ok, h.assertOwnerOrAdmin_ok, orRefuse_ok]
  constructor
  · rintro ⟨r, _, hperm, _, hpass, -⟩
    exact ⟨hperm, hpass⟩
  · rintro ⟨hperm, hpass⟩
    exact ⟨k, (), hperm, (), hpass, h.findLive hpass.1⟩

theorem Foreign.revokeKey_ok (h : Foreign s c.sub k u) :
    (∃ now s', revokeKey s c k.id now = .ok s') ↔
      c.requirePermission "api_keys:delete" = .ok () ∧ k.live = true ∧
        callerIsAdminTier c = true := by
  unfold revokeKey revokeLive
  simp only [bind_ok, h.assertOwnerOrAdmin_ok, refuseIf_ok]
  constructor
  · rintro ⟨now, s', _, hperm, _, hpass, -⟩
    exact ⟨hperm, hpass⟩
  · rintro ⟨hperm, hpass⟩
    refine ⟨0, _, (), hperm, (), hpass, _, ⟨(), ?_, rfl⟩, rfl⟩
    rw [h.findLive hpass.1]
    exact Bool.false_ne_true

theorem checkAllowlists_emptyUpdate (s : Store) (k : ApiKey) :
    checkAllowlists s k emptyUpdate = .ok () := by
  unfold checkAllowlists
  cases k.userId with
  | none => rfl
  | some owner => rfl

theorem Foreign.updateKey_ok (h : Foreign s c.sub k u) (parseUuid : String → Option Uuid) :
    (∃ req now s', updateKey parseUuid s c k.id req now = .ok s') ↔
      c.requirePermission "api_keys:update" = .ok () ∧ k.live = true ∧
        callerIsAdminTier c = true := by
  unfold updateKey updateKeyLoad
  simp only [bind_ok, h.assertOwnerOrAdmin_ok, orRefuse_ok]
  constructor
  · rintro ⟨req, now, s', _, hperm, _, hpass, -⟩
    exact ⟨hperm, hpass⟩
  · rintro ⟨hperm, hpass⟩
    refine ⟨emptyUpdate, 0, _, (), hperm, (), hpass, _, ⟨(), rfl, k, h.findLive hpass.1, (),
      checkAllowlists_emptyUpdate s k, none, rfl, _, rfl, _, rfl, rfl⟩, _,
      refuseIf_bind_ok.mpr ⟨?_, rfl⟩, rfl⟩
    rintro (hall | hzero)
    · have hne := List.all_eq_true.mp hall k h.row
      simp at hne
    · cases hzero

/-- There is a row that does not clash with any in the table. -/
theorem exists_fresh (keys : List ApiKey) : ∃ new : Generated, checkFresh keys new = .ok () := by
  have hinf : Infinite String := by
    refine Infinite.of_injective (fun n => String.ofList (List.replicate n 'a')) fun m n hmn => ?_
    simpa using congrArg String.length hmn
  obtain ⟨id, hid⟩ := Infinite.exists_notMem_finset (keys.map (·.id)).toFinset
  obtain ⟨hash, hhash⟩ := Infinite.exists_notMem_finset (keys.map (·.keyHash)).toFinset
  rw [List.mem_toFinset, List.mem_map, not_exists] at hid hhash
  refine ⟨⟨id, "", hash⟩, refuseIf_ok.mpr ?_⟩
  rw [List.any_eq_true]
  rintro ⟨k, hk, hclash⟩
  rw [Bool.or_eq_true, decide_eq_true_eq, decide_eq_true_eq] at hclash
  rcases hclash with h | h
  · exact hid k ⟨hk, h⟩
  · exact hhash k ⟨hk, h⟩

theorem Foreign.rotateKey_ok (h : Foreign s c.sub k u) :
    (∃ cfg new now s', rotateKey cfg s c k.id new now = .ok s') ↔
      c.requirePermission "api_keys:rotate" = .ok () ∧ Op.rotate.Ready k ∧
        callerIsAdminTier c = true := by
  unfold rotateKey rotateKeyLoad rotateKeyWrite
  simp only [bind_ok, h.assertOwnerOrAdmin_ok, orRefuse_ok, refuseIf_ok, Op.Ready]
  constructor
  · rintro ⟨cfg, new, now, s', _, hperm, _, ⟨hlive, htier⟩, old, ⟨row, hrow, _, hactive, _,
      hrotated, -⟩, -⟩
    rw [h.findLive hlive, Option.some.injEq] at hrow
    subst hrow
    exact ⟨hperm, ⟨hlive, Bool.eq_true_of_not_eq_false hactive, hrotated⟩, htier⟩
  · rintro ⟨hperm, ⟨hlive, hactive, hrotated⟩, htier⟩
    obtain ⟨new, hnew⟩ := exists_fresh s.keys
    refine ⟨⟨0, 0, 0, 0⟩, new, 0, _, (), hperm, (), ⟨hlive, htier⟩, k, ⟨k, h.findLive hlive, (), ?_,
      (), hrotated, rfl⟩, _, ⟨(), hnew, (), ?_, rfl⟩, rfl⟩
    · rw [hactive]
      exact Bool.noConfusion
    · intro hall
      have hne := List.all_eq_true.mp hall k h.row
      simp at hne

/-- A key that passes the filter is on some page. -/
theorem exists_page {rows : List ApiKey} (hk : k ∈ rows) :
    ∃ p : Nat, k ∈ (rows.drop p).take 1 := by
  obtain ⟨i, hi, hget⟩ := List.mem_iff_getElem.mp hk
  refine ⟨i, ?_⟩
  rw [List.drop_eq_getElem_cons hi, hget]
  exact List.mem_cons_self

theorem Foreign.listKeys_ok (h : Foreign s c.sub k u) :
    (∃ params rows, listKeys s c params = .ok rows ∧ k ∈ rows) ↔
      c.requirePermission "api_keys:read" = .ok () ∧ Op.list.Ready k ∧
        callerIsAdminTier c = true := by
  have hown : ¬ k.userId = some c.sub := by
    rw [h.owner, Option.some.injEq]
    exact Ne.symm h.other
  unfold listKeys
  simp only [bind_ok, pure_ok, Op.Ready]
  constructor
  · rintro ⟨params, rows, ⟨_, hperm, rfl⟩, hk⟩
    have hrow := List.mem_of_mem_drop (List.mem_of_mem_take hk)
    rw [List.mem_mergeSort, List.mem_filter, Bool.and_eq_true, Bool.or_eq_true] at hrow
    obtain ⟨-, hvisible, htier⟩ := hrow
    refine ⟨hperm, ?_, htier.resolve_right (by simpa using hown)⟩
    cases harch : params.archived with
    | false => exact Or.inl (harch ▸ hvisible)
    | true => exact Or.inr (harch ▸ hvisible)
  · rintro ⟨hperm, hvisible, htier⟩
    have hshown : ∃ archived, visible archived k = true :=
      hvisible.elim (fun hv => ⟨false, hv⟩) fun hv => ⟨true, hv⟩
    obtain ⟨archived, hshown⟩ := hshown
    have hrow : k ∈ (s.keys.filter fun k =>
        visible archived k && (callerIsAdminTier c || k.userId = some c.sub)).mergeSort
          fun a b => b.createdAt ≤ a.createdAt := by
      rw [List.mem_mergeSort, List.mem_filter, hshown, htier]
      exact ⟨h.row, rfl⟩
    obtain ⟨i, hi⟩ := exists_page hrow
    refine ⟨⟨some (i + 1), some 1, archived⟩, _, ⟨(), hperm, rfl⟩, ?_⟩
    simpa [ListKeysParams.limit, ListKeysParams.offset] using hi

/-- The permission of the operation, the state of the key, and the test without scopes. -/
theorem Foreign.reaches_iff (h : Foreign s c.sub k u) (parseUuid : String → Option Uuid) (op : Op) :
    Reaches parseUuid s c k op ↔
      c.requirePermission op.permission = .ok () ∧ op.Ready k ∧ callerIsAdminTier c = true := by
  cases op with
  | get => exact h.getKey_ok
  | list => exact h.listKeys_ok
  | revoke => exact h.revokeKey_ok
  | update => exact h.updateKey_ok parseUuid
  | rotate => exact h.rotateKey_ok

end Foreign

/-! ## Main result -/

/--
For a caller with the permissions of the tables and a key of another user: an operation reaches the
key only with a grant that takes in the owner if and only if it is not the case that the caller's
grants are only elsewhere, the caller has the operation's permission and the key is ready for it.
-/
theorem foreign_key_reached_iff (parseUuid : String → Option Uuid) (s : Store) (c : Uuid)
    (k : ApiKey) (u : Uuid) (op : Op) (h : Foreign s c k u) :
    (Reaches parseUuid s (AuthUser.load s.tables c) k op → Entitled s.tables c u) ↔
      ¬ (OnlyElsewhere s.tables c u ∧
        (AuthUser.load s.tables c).requirePermission op.permission = .ok () ∧ op.Ready k) := by
  have hload : Foreign s (AuthUser.load s.tables c).sub k u := h
  rw [hload.reaches_iff parseUuid op, onlyElsewhere_iff]
  constructor
  · rintro himp ⟨⟨htier, hnot⟩, hperm, hready⟩
    exact hnot (himp ⟨hperm, hready, htier⟩)
  · rintro hnot ⟨hperm, hready, htier⟩
    by_contra hentitled
    exact hnot ⟨⟨htier, hentitled⟩, hperm, hready⟩

/-! ## Two keys -/

/-- User 1 administers the keys of team 1; user 2 is in team 2, user 3 in team 1. -/
def teamAdminDb : Db where
  users := []
  teams := [⟨1, "engineering"⟩, ⟨2, "finance"⟩]
  roles := [⟨1, "key_admin", false, allowDocument "KeyAdmin"
    (actionList ["api_keys:read", "api_keys:rotate", "api_keys:admin"])⟩]
  assignments := [⟨1, 1, .team 1⟩]
  members := [⟨2, 2⟩, ⟨3, 1⟩]
  teamRoles := []

def teamAdminStore : Store :=
  ⟨teamAdminDb, [plainKey 10 2 "h10", plainKey 11 3 "h11"], []⟩

/-- The key of user 3 is in the scope of the grant. -/
theorem foreign_key_reached_engineering :
    ¬ OnlyElsewhere teamAdminDb 1 3 ∧
      (Reaches (fun _ => none) teamAdminStore (AuthUser.load teamAdminDb 1) (plainKey 11 3 "h11")
        .rotate → Entitled teamAdminDb 1 3) := by
  have hforeign : Foreign teamAdminStore 1 (plainKey 11 3 "h11") 3 :=
    ⟨by decide, List.mem_cons_of_mem _ List.mem_cons_self, rfl, by decide⟩
  have hscope : ¬ OnlyElsewhere teamAdminDb 1 3 := by
    rintro ⟨-, -, helse, -⟩
    obtain ⟨t, ht, hnot⟩ := helse ⟨1, 1, .team 1⟩ (by decide) rfl (by decide +kernel)
    cases ht
    exact hnot (by decide)
  refine ⟨hscope, ?_⟩
  exact (foreign_key_reached_iff _ teamAdminStore 1 _ 3 .rotate hforeign).mpr fun h => hscope h.1

/-- The key of user 2 is not, and user 1 rotates it all the same. -/
theorem scoped_admin_rotates_foreign_key :
    ¬ ∀ (parseUuid : String → Option Uuid) (s : Store) (c : Uuid) (k : ApiKey) (u : Uuid) (op : Op),
      Foreign s c k u → Reaches parseUuid s (AuthUser.load s.tables c) k op →
        Entitled s.tables c u := by
  intro hall
  have hforeign : Foreign teamAdminStore 1 (plainKey 10 2 "h10") 2 :=
    ⟨by decide, List.mem_cons_self, rfl, by decide⟩
  have hreaches : Reaches (fun _ => none) teamAdminStore (AuthUser.load teamAdminDb 1)
      (plainKey 10 2 "h10") .rotate :=
    ⟨⟨0, 0, 0, 24⟩, ⟨12, "tw-00001", "h12"⟩, 0, _, rfl⟩
  obtain ⟨-, ⟨a, ha, -, -, hscope⟩ | ⟨m, hm, tr, htr, -⟩⟩ := hall _ _ _ _ _ _ hforeign hreaches
  · rw [List.mem_singleton.mp ha] at hscope
    rcases hscope with hglobal | ⟨t, ht, hmem⟩
    · cases hglobal
    · cases ht
      revert hmem
      decide
  · cases htr

end ThinkWatch.Keys
