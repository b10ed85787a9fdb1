import ThinkWatch.Rbac.SuperAdmin

/-!
# The check at startup

`validate_seeded_roles` of `handlers/roles.rs`: the server does not start when a stored role grants
a permission outside the catalog. The handlers that store documents ask only that a document is
well formed (`validate_policy_document`), so what a document may name and what the check accepts
are two things; the main result says how far they agree along a run of edits.
-/

namespace ThinkWatch.Rbac

open Lib Policy

/-! ## The check -/

/-- Keys of earlier releases, which the check tolerates. -/
def retiredPermissions : List String :=
  ["team:read", "team:write", "logs:read_own", "logs:read_team", "audit_logs:read_own",
   "audit_logs:read_team", "audit_logs:read_all"]

def isKnownPermission (key : String) : Bool := key ∈ allPermissionKeys

/-- `role_repository::policy_documents`. -/
def Db.policyDocuments (db : Db) : List (String × Json) :=
  db.roles.map fun r => (r.name, r.policyDocument)

/-- The permissions outside the catalog, each with the role that names it. -/
def outsideCatalog (rows : List (String × Json)) : List (String × String) :=
  rows.flatMap fun row =>
    ((extractPermissions row.2 allPermissionKeys).filter fun perm => !isKnownPermission perm).map
      fun perm => (row.1, perm)

/-- The two lists of `classify_role_permissions`: unknown, and retired. -/
def classifyRolePermissions (rows : List (String × Json)) : List String × List String :=
  let entry := fun p : String × String => s!"{p.1}: {p.2}"
  (((outsideCatalog rows).filter fun p => p.2 ∉ retiredPermissions).map entry,
    ((outsideCatalog rows).filter fun p => p.2 ∈ retiredPermissions).map entry)

/-- `validate_seeded_roles`. The retired permissions are only logged. -/
def validateSeededRoles (db : Db) : Except String Unit :=
  let unknown := (classifyRolePermissions db.policyDocuments).1
  refuseIf (unknown ≠ [])
    (s!"Found {unknown.length} role permission(s) not in PERMISSION_CATALOG:\n  - " ++
      "\n  - ".intercalate unknown ++
      "\nEither update the catalog in crates/server/src/handlers/roles.rs " ++
      "or fix the seed in db/seeds.sql.")

/-! ## What it accepts -/

/-- The permission is in the catalog, or was. -/
def Catalogued (perm : String) : Prop := isKnownPermission perm = true ∨ perm ∈ retiredPermissions

instance (perm : String) : Decidable (Catalogued perm) :=
  inferInstanceAs (Decidable (_ ∨ _))

/-- Every permission that the document grants is. -/
def NamesKnown (doc : Json) : Prop :=
  ∀ perm ∈ extractPermissions doc allPermissionKeys, Catalogued perm

instance (doc : Json) : Decidable (NamesKnown doc) :=
  inferInstanceAs (Decidable (∀ perm ∈ extractPermissions doc allPermissionKeys, Catalogued perm))

theorem classifyRolePermissions_unknown_nil {rows : List (String × Json)} :
    (classifyRolePermissions rows).1 = [] ↔ ∀ row ∈ rows, NamesKnown row.2 := by
  simp only [classifyRolePermissions, outsideCatalog, List.map_eq_nil_iff, List.filter_eq_nil_iff,
    List.mem_flatMap, List.mem_map, List.mem_filter]
  constructor
  · intro h row hrow perm hperm
    by_contra hnot
    rw [Catalogued, not_or] at hnot
    refine h (row.1, perm) ⟨row, hrow, perm, ⟨hperm, ?_⟩, rfl⟩ (by simpa using hnot.2)
    simpa using hnot.1
  · rintro h p ⟨row, hrow, perm, ⟨hperm, hunknown⟩, rfl⟩
    rcases h row hrow perm hperm with hknown | hretired
    · simp [hknown] at hunknown
    · simp [hretired]

/-- The server starts when every stored document names catalogued permissions only. -/
theorem validateSeededRoles_ok {db : Db} {x : Unit} :
    validateSeededRoles db = .ok x ↔ ∀ r ∈ db.roles, NamesKnown r.policyDocument := by
  unfold validateSeededRoles
  rw [refuseIf_ok, not_not, classifyRolePermissions_unknown_nil, Db.policyDocuments]
  simp only [List.forall_mem_map]

/-! ## One edit -/

/-- An action adds permissions of the catalog, or itself. -/
theorem mem_of_mem_expandAction {action perm : String} {keys : List String}
    (h : perm ∈ expandAction keys action) : perm ∈ keys ∨ perm = action ∧ action ≠ "*" := by
  unfold expandAction at h
  split at h
  next => exact Or.inl h
  next hstar =>
    split at h
    next => exact Or.inl (List.mem_of_mem_filter h)
    next => exact Or.inr ⟨List.mem_singleton.mp h, hstar⟩

/-- A document whose actions are all catalogued. -/
theorem namesKnown_of_actions {doc : Json} (h : ∀ stmt ∈ statements doc,
    ∀ action ∈ stmtActions stmt, action = "*" ∨ Catalogued action) : NamesKnown doc := by
  intro perm hperm
  rw [extractPermissions, mem_btreeSet] at hperm
  obtain ⟨stmt, hstmt, hperm⟩ := List.mem_flatMap.mp hperm
  split at hperm
  next =>
    obtain ⟨action, haction, hperm⟩ := List.mem_flatMap.mp hperm
    -- a wildcard only adds keys of the catalog
    rcases mem_of_mem_expandAction hperm with hkey | ⟨rfl, hstar⟩
    · exact Or.inl (decide_eq_true hkey)
    · exact (h stmt hstmt perm haction).resolve_left hstar
  next => cases hperm

/-- Every default passes its own check. -/
theorem namesKnown_default {name : String} {doc : Json}
    (h : systemRoleDefaultPolicy name = some doc) : NamesKnown doc := by
  have hall : ∀ p ∈ systemRoleDefaults, ∀ stmt ∈ statements p.2, ∀ action ∈ stmtActions stmt,
      action = "*" ∨ Catalogued action := by
    decide +kernel
  obtain ⟨before, after, heq, -⟩ := List.lookup_eq_some_iff.mp h
  exact namesKnown_of_actions (hall (name, doc) (by simp [heq]))

/-- The handlers that edit roles. -/
def Request.editsRole : Request → Bool
  | .createRole .. => true
  | .updateRole .. => true
  | .resetRole .. => true
  | .deleteRole .. => true
  | _ => false

/-- A document in the request grants catalogued permissions only. -/
def Request.NamesKnown : Request → Prop
  | .createRole req _ => Rbac.NamesKnown req.policyDocument
  | .updateRole _ req => ∀ doc, req.policyDocument = some doc → Rbac.NamesKnown doc
  | _ => True

section Edit

variable {env : Env} {db db' : Db} {caller : AuthUser} {id : Uuid}

theorem createRole_starts {req : CreateRoleRequest} (hstart : validateSeededRoles db = .ok ())
    (h : createRole db caller req id = .ok db') :
    validateSeededRoles db' = .ok () ↔ NamesKnown req.policyDocument := by
  obtain ⟨-, rfl⟩ := createRole_ok h
  rw [validateSeededRoles_ok] at hstart ⊢
  simp only [List.forall_mem_append, List.forall_mem_singleton]
  exact and_iff_right hstart

/-- A request that gets past the lookup finds its role. -/
theorem mem_of_updateRole {req : UpdateRoleRequest} (h : updateRole db caller id req = .ok db') :
    ∃ r ∈ db.roles, r.id = id := by
  unfold updateRole at h
  obtain ⟨-, -, h⟩ := bind_ok.mp h
  obtain ⟨existing, hexisting, -⟩ := bind_ok.mp h
  rw [orRefuse_ok] at hexisting
  exact ⟨existing, List.mem_of_find?_eq_some hexisting, by simpa using List.find?_some hexisting⟩

theorem updateRole_starts {req : UpdateRoleRequest} (hstart : validateSeededRoles db = .ok ())
    (h : updateRole db caller id req = .ok db') :
    validateSeededRoles db' = .ok () ↔ ∀ doc, req.policyDocument = some doc → NamesKnown doc := by
  obtain ⟨r₀, hr₀, hid⟩ := mem_of_updateRole h
  rw [updateRole_ok h, validateSeededRoles_ok]
  rw [validateSeededRoles_ok] at hstart
  simp only [List.forall_mem_map]
  constructor
  · intro hall doc hdoc
    have hnew := hall r₀ hr₀
    rwa [if_pos hid, UpdateRoleRequest.updateRow, hdoc] at hnew
  · intro hdoc r hr
    split
    next =>
      cases hreq : req.policyDocument with
      | none =>
        rw [UpdateRoleRequest.updateRow, hreq]
        exact hstart r hr
      | some doc =>
        rw [UpdateRoleRequest.updateRow, hreq]
        exact hdoc doc hreq
    next => exact hstart r hr

theorem resetRole_starts (hstart : validateSeededRoles db = .ok ())
    (h : resetRole db caller id = .ok db') : validateSeededRoles db' = .ok () := by
  unfold resetRole at h
  obtain ⟨-, -, h⟩ := bind_ok.mp h
  obtain ⟨existing, -, h⟩ := bind_ok.mp h
  rw [refuseIf_bind_ok] at h
  obtain ⟨doc, hdoc, h⟩ := bind_ok.mp h.2
  rw [orRefuse_ok] at hdoc
  rw [← pure_ok.mp h, validateSeededRoles_ok]
  rw [validateSeededRoles_ok] at hstart
  simp only [List.forall_mem_map]
  intro r hr
  split
  next => exact namesKnown_default hdoc
  next => exact hstart r hr

theorem deleteCustom_roles (db : Db) (id : Uuid) : ∀ r ∈ (db.deleteCustom id).roles, r ∈ db.roles := by
  intro r hr
  unfold Db.deleteCustom at hr
  split at hr
  next => exact (List.mem_filter.mp hr).1
  next => exact hr

theorem deleteRole_starts {reassignTo : Option Uuid} (hstart : validateSeededRoles db = .ok ())
    (h : deleteRole db caller id reassignTo = .ok db') : validateSeededRoles db' = .ok () := by
  obtain ⟨assigned, h⟩ := deleteRole_ok h
  obtain ⟨db₁, hmigrate, rfl⟩ := deleteRoleWrite_ok h
  have hroles : db₁.roles = db.roles := by
    rcases migrateAssignments_ok hmigrate with ⟨-, rfl⟩ | ⟨target, added, -, -, -, -, rfl, -⟩
    · rfl
    · rfl
  rw [validateSeededRoles_ok] at hstart ⊢
  intro r hr
  refine hstart r ?_
  rw [← hroles]
  exact deleteCustom_roles db₁ id r hr

/-- After an edit the server still starts exactly when the request named what the catalog has. -/
theorem handle_starts {call : Call} (hedits : call.request.editsRole = true)
    (hstart : validateSeededRoles db = .ok ()) (h : handle env db call = .ok db') :
    validateSeededRoles db' = .ok () ↔ call.request.NamesKnown := by
  obtain ⟨caller, request⟩ := call
  cases request with
  | createRole req id => exact createRole_starts hstart h
  | updateRole id req => exact updateRole_starts hstart h
  | resetRole id => exact iff_of_true (resetRole_starts hstart h) trivial
  | deleteRole id reassignTo => exact iff_of_true (deleteRole_starts hstart h) trivial
  | _ => cases hedits

end Edit

/-! ## Main result -/

/--
Along a run of edits the server could start after every one of them exactly when every document
that came in named permissions of the catalog.
-/
theorem starts_after_edits_iff {env : Env} {db₀ db : Db} {calls : List Call}
    (hstart : validateSeededRoles db₀ = .ok ())
    (hedits : ∀ call ∈ calls, call.request.editsRole = true)
    (hrun : Steps (fun db call db' => handle env db call = .ok db') db₀ calls db) :
    Steps (fun db call db' => handle env db call = .ok db' ∧ validateSeededRoles db' = .ok ())
        db₀ calls db ↔
      ∀ call ∈ calls, call.request.NamesKnown := by
  induction hrun with
  | nil db => exact iff_of_true (.nil db) nofun
  | @cons db db' _ call calls h rest ih =>
    rw [List.forall_mem_cons] at hedits ⊢
    have hstep := handle_starts hedits.1 hstart h
    constructor
    · intro hall
      cases hall with
      | cons hfirst hrest =>
        obtain ⟨hok, hpass⟩ := hfirst
        rw [h] at hok
        cases hok
        exact ⟨hstep.mp hpass, (ih hpass hedits.2).mp hrest⟩
    · rintro ⟨hknown, hrest⟩
      have hpass := hstep.mpr hknown
      exact .cons ⟨h, hpass⟩ ((ih hpass hedits.2).mpr hrest)

/-! ## Two runs -/

theorem opsDb_starts : validateSeededRoles opsDb = .ok () := by
  have hsuper : systemRoleDefaultPolicy "super_admin" =
      some (allowDocument "FullAccess" (.str "*")) := rfl
  have hops : NamesKnown (allowDocument "Ops" (.str "teams:update")) := by decide +kernel
  rw [validateSeededRoles_ok]
  show ∀ r ∈ [_, _], _
  rw [List.forall_mem_cons, List.forall_mem_singleton]
  exact ⟨namesKnown_default hsuper, hops⟩

/-- The super admin of `opsDb` may create roles. -/
theorem opsDb_may_create :
    (AuthUser.load opsDb 1).requireGlobalPermission opsDb "roles:create" = .ok () := by
  rw [AuthUser.requireGlobalPermission,
    requirePermission_load "FullAccess" rfl (by decide)]
  decide +kernel

theorem handle_reader {perm : String}
    (hdoc : checkDocument (allowDocument "Read" (.str perm)) = .ok ()) :
    handle opsEnv opsDb
      ⟨AuthUser.load opsDb 1, .createRole ⟨"reader", allowDocument "Read" (.str perm)⟩ 3⟩ =
      .ok { opsDb with
        roles := opsDb.roles ++ [⟨3, "reader", false, allowDocument "Read" (.str perm)⟩] } := by
  show createRole opsDb _ _ _ = _
  have htrim : trim "reader" = "reader" := by decide
  have hname : ¬ ("reader" = "" ∨ "reader".utf8ByteSize > 100) := by decide
  have hfree : ¬ opsDb.roles.any (·.name = "reader") := by decide
  simp only [createRole, bind_ok, refuseIf_ok, htrim]
  exact ⟨(), opsDb_may_create, (), hname, (), hdoc, (), hfree, (), by decide, rfl⟩

/-- The super admin of `opsDb` creates a role that may read teams. -/
theorem starts_after_edits_read : ∃ db,
    Steps (fun db call db' => handle opsEnv db call = .ok db' ∧ validateSeededRoles db' = .ok ())
      opsDb [⟨AuthUser.load opsDb 1,
        .createRole ⟨"reader", allowDocument "Read" (.str "teams:read")⟩ 3⟩] db := by
  have hdoc : checkDocument (allowDocument "Read" (.str "teams:read")) = .ok () := rfl
  refine ⟨_, (starts_after_edits_iff opsDb_starts ?_ (.single (handle_reader hdoc))).mpr ?_⟩
  · decide
  · rw [List.forall_mem_singleton]
    show NamesKnown (allowDocument "Read" (.str "teams:read"))
    decide +kernel

/-- With a permission that the catalog does not have, the next start fails. -/
theorem edit_stops_next_start :
    ¬ ∀ (env : Env) (db₀ db : Db) (calls : List Call), validateSeededRoles db₀ = .ok () →
      (∀ call ∈ calls, call.request.editsRole = true) →
      Steps (fun db call db' => handle env db call = .ok db') db₀ calls db →
      validateSeededRoles db = .ok () := by
  intro hall
  have hdoc : checkDocument (allowDocument "Read" (.str "teams:raed")) = .ok () := rfl
  have hcreated := handle_reader hdoc
  have hpass := hall opsEnv opsDb _ _ opsDb_starts (List.forall_mem_singleton.mpr rfl)
    (.single hcreated)
  have hknown : NamesKnown (allowDocument "Read" (.str "teams:raed")) :=
    (handle_starts rfl opsDb_starts hcreated).mp hpass
  exact absurd hknown (by decide +kernel)

end ThinkWatch.Rbac
