import ThinkWatch.Keys.Interleaving

/-!
# What a PATCH changes

`update_key` loads the row, and its `UPDATE` writes the expiry whether or not the PATCH names it:
when it does not, the value is the one that was loaded. The `WHERE` clause has the id alone, so that
a key revoked after the load is written too.

`patches_named`: in a run in which each `UPDATE` finds a live row, with the expiry that was loaded
when the PATCH does not name one (`ReadIsCurrent`), the table is what the named changes make of it
one after another in the order of the writes.
-/

namespace ThinkWatch.Keys

open Lib Policy Rbac

/-! ## Named changes -/

/-- The surfaces that a PATCH asks for: in order and each once, or those of the row. -/
def UpdateKeyRequest.namedSurfaces (req : UpdateKeyRequest) (k : ApiKey) : List String :=
  match req.surfaces with
  | none => k.surfaces
  | some surfaces => (normalizeSurfaces surfaces).toOption.getD k.surfaces

def UpdateKeyRequest.namedCostCenter (req : UpdateKeyRequest) (k : ApiKey) : Option String :=
  match req.costCenter with
  | none => k.costCenter
  | some raw => if trim raw = "" then none else some (trim raw)

def UpdateKeyRequest.namedOverrides (req : UpdateKeyRequest) (k : ApiKey) : Json :=
  match req.mcpAccountOverrides with
  | none => k.mcpAccountOverrides
  | some none => noOverrides
  | some (some .null) => noOverrides
  | some (some v) => v

/-- Whether the expiry warnings of a row start anew: its expiry is pushed later, or removed. -/
def warningsAfter (k : ApiKey) (expiresAt : Option Time) : Option Int :=
  if expiryExtended k.expiresAt expiresAt then none else k.lastExpiryWarningDays

/-- What a PATCH of `time` asks for: a column that it does not name stays as it is in the row. -/
def UpdateKeyRequest.named (req : UpdateKeyRequest) (time : Time) (k : ApiKey) : ApiKey :=
  { k with
    allowedModels := req.allowedModels.getD k.allowedModels
    allowedMcpTools := req.allowedMcpTools.getD k.allowedMcpTools
    surfaces := req.namedSurfaces k
    expiresAt := (req.expiry time).getD k.expiresAt
    rotationPeriodDays := req.rotationPeriodDays <|> k.rotationPeriodDays
    inactivityTimeoutDays := req.inactivityTimeoutDays <|> k.inactivityTimeoutDays
    costCenter := req.namedCostCenter k
    mcpAccountOverrides := req.namedOverrides k
    lastExpiryWarningDays := warningsAfter k ((req.expiry time).getD k.expiresAt) }

/-- The changes one after another; a PATCH changes live rows only. -/
def Change.apply (keys : List ApiKey) : Change → List ApiKey
  | .patch id req time => updateWhere (fun k => k.id = id && k.live) (req.named time) keys
  | .rotate old new graceEnds now => Keys.rotate keys old new graceEnds now
  | .revoke id reason now => revokeWith reason keys id now

/-- A PATCH leaves a revoked row as it is. -/
def KeepsRevoked (s : Sys) (a : Action) (s' : Sys) : Prop :=
  match a with
  | .write i _ _ _ => ∀ id req time read patch,
      s.calls i = some (.patching id req time read patch) →
        ∀ k ∈ s.keys, k.live = false → k ∈ s'.keys
  | _ => True

/-- The expiry of `k` may stand for the one that was loaded. -/
def SameExpiry (req : UpdateKeyRequest) (time : Time) (read k : ApiKey) : Prop :=
  match req.expiry time with
  | none => k.expiresAt = read.expiresAt
  | some e => expiryExtended k.expiresAt e = expiryExtended read.expiresAt e

/--
The condition on each step: the row that an `UPDATE` writes is live, and its expiry is the one that
was loaded; if the PATCH names an expiry, that is later than both or than neither.
-/
def ReadIsCurrent (s : Sys) : Action → Prop
  | .write i _ _ _ => ∀ id req time read patch,
      s.calls i = some (.patching id req time read patch) →
        ∀ k ∈ s.keys, k.id = id → k.live = true ∧ SameExpiry req time read k
  | _ => True

/-! ## The patch that is made from a request -/

/-- What `update_key` puts into its patch. -/
structure PatchOf (req : UpdateKeyRequest) (time : Time) (read : ApiKey) (patch : ApiKeyPatch) :
    Prop where
  expiry : patch.expiresAt = (req.expiry time).getD read.expiresAt
  extended : patch.expiryExtended = expiryExtended read.expiresAt patch.expiresAt
  others : ∀ k, patch.apply k =
    { req.named time k with
      expiresAt := patch.expiresAt
      lastExpiryWarningDays := if patch.expiryExtended then none else k.lastExpiryWarningDays }

section Load

variable {parseUuid : String → Option Uuid} {st : Store} {req : UpdateKeyRequest} {k : ApiKey}

theorem ite_isSome_join {α : Type} (x : Option (Option α)) (d : Option α) :
    (if x.isSome then x.join else d) = x.getD d := by
  cases x with
  | none => rfl
  | some y => rfl

theorem patchSurfaces_ok {surfaces : Option (List String)}
    (h : patchSurfaces req.surfaces = .ok surfaces) :
    surfaces.getD k.surfaces = req.namedSurfaces k := by
  unfold UpdateKeyRequest.namedSurfaces
  cases hreq : req.surfaces with
  | none =>
    rw [hreq] at h
    cases h
    rfl
  | some l =>
    rw [hreq] at h
    simp only [patchSurfaces, bind_ok, pure_ok] at h
    obtain ⟨l', hl', rfl⟩ := h
    simp [hl', Except.toOption]

theorem patchCostCenter_ok {c : Bool × Option String} (h : patchCostCenter req.costCenter = .ok c) :
    (if c.1 then c.2 else k.costCenter) = req.namedCostCenter k := by
  unfold UpdateKeyRequest.namedCostCenter
  cases hreq : req.costCenter with
  | none =>
    rw [hreq] at h
    cases h
    rfl
  | some raw =>
    rw [hreq] at h
    simp only [patchCostCenter] at h
    split at h
    next hempty =>
      have htrim : trim "" = "" := by decide
      cases h
      simp [hempty, htrim]
    next =>
      simp only [validateCostCenter, bind_ok, pure_ok] at h
      obtain ⟨value, ⟨_, -, rfl⟩, rfl⟩ := h
      rfl

theorem validateMcpAccountOverrides_ok {user : Uuid} {v v' : Json}
    (h : validateMcpAccountOverrides parseUuid st user (some v) = .ok v') :
    v' = match v with | .null => noOverrides | v => v := by
  unfold validateMcpAccountOverrides at h
  cases v with
  | null =>
    cases h
    rfl
  | obj fields =>
    simp only [bind_ok, pure_ok] at h
    obtain ⟨_, -, rfl⟩ := h
    rfl
  | _ => cases h

theorem patchOverrides_ok {read : ApiKey} {c : Bool × Json}
    (h : patchOverrides parseUuid st read req.mcpAccountOverrides = .ok c) :
    (if c.1 then c.2 else k.mcpAccountOverrides) = req.namedOverrides k := by
  unfold UpdateKeyRequest.namedOverrides
  cases hreq : req.mcpAccountOverrides with
  | none =>
    rw [hreq] at h
    cases h
    rfl
  | some o =>
    rw [hreq] at h
    cases o with
    | none =>
      cases h
      rfl
    | some v =>
      simp only [patchOverrides, bind_ok, pure_ok] at h
      obtain ⟨owner, -, v', hv', rfl⟩ := h
      rw [if_pos rfl, validateMcpAccountOverrides_ok hv']
      cases v with
      | _ => rfl

theorem patchOf_load {id : Uuid} {time : Time} {read : ApiKey} {patch : ApiKeyPatch}
    (h : updateKeyLoad parseUuid st id req time = .ok (read, patch)) :
    PatchOf req time read patch := by
  unfold updateKeyLoad at h
  simp only [bind_ok, pure_ok, Prod.mk.injEq] at h
  obtain ⟨_, -, read', -, _, -, surfaces, hsurfaces, cost, hcost, overrides, hoverrides, rfl, rfl⟩ := h
  refine ⟨rfl, rfl, fun k => ?_⟩
  simp only [ApiKeyPatch.apply, UpdateKeyRequest.named, ite_isSome_join, patchSurfaces_ok hsurfaces,
    patchCostCenter_ok hcost, patchOverrides_ok hoverrides]

end Load

/-! ## One step -/

section Step

variable {parseUuid : String → Option Uuid} {s s' : Sys} {a : Action} {req : UpdateKeyRequest}
  {time : Time} {read k : ApiKey} {patch : ApiKeyPatch} {keys : List ApiKey}

theorem expiryExtended_self (e : Option Time) : expiryExtended e e = false := by
  cases e with
  | none => rfl
  | some e => simp [expiryExtended]

/-- On a row with the expiry that was loaded, the patch is what the request names. -/
theorem PatchOf.apply_eq (h : PatchOf req time read patch) (hk : SameExpiry req time read k) :
    patch.apply k = req.named time k := by
  rw [h.others, h.extended, h.expiry]
  unfold SameExpiry at hk
  cases hreq : req.expiry time with
  | none =>
    rw [hreq] at hk
    simp [UpdateKeyRequest.named, warningsAfter, hreq, hk, expiryExtended_self]
  | some e =>
    rw [hreq] at hk
    simp [UpdateKeyRequest.named, warningsAfter, hreq, hk]

/-- The `UPDATE` on a table in which the rows with the id are as the condition asks. -/
theorem PatchOf.update_eq {id : Uuid} (h : PatchOf req time read patch)
    (hcurrent : ∀ k ∈ keys, k.id = id → k.live = true ∧ SameExpiry req time read k) :
    update keys id patch = (Change.patch id req time).apply keys := by
  show updateWhere _ _ keys = updateWhere _ _ keys
  unfold updateWhere
  refine List.map_congr_left fun k hk => ?_
  by_cases hid : k.id = id
  · obtain ⟨hlive, hexpiry⟩ := hcurrent k hk hid
    simp [hid, hlive, h.apply_eq hexpiry]
  · simp [hid]

/-- The patches of the requests under way are made from the rows they have loaded. -/
def Prepared (s : Sys) : Prop :=
  ∀ {i id req time read patch}, s.calls i = some (.patching id req time read patch) →
    PatchOf req time read patch

theorem Prepared.set (h : Prepared s) {i : Nat} {p : Phase} {s' : Sys}
    (hcalls : s'.calls = s.calls.set i p)
    (hp : ∀ id req time read patch, p = .patching id req time read patch →
      PatchOf req time read patch) : Prepared s' := by
  intro j id req time read patch hj
  rw [hcalls] at hj
  rcases Threads.set_eq_some hj with ⟨-, heq⟩ | ⟨-, hj⟩
  · exact hp id req time read patch heq.symm
  · exact h hj

theorem Prepared.step (h : Prepared s) (hstep : Step parseUuid s a s') : Prepared s' := by
  cases hstep with
  | loadUpdate at_ ok =>
    refine h.set (Sys.go_calls _ _ _) fun id req time read patch heq => ?_
    cases heq
    exact patchOf_load ok
  | authorize free ok => exact h.set (Sys.go_calls _ _ _) fun _ _ _ _ _ => Phase.noConfusion
  | loadRotate at_ ok => exact h.set (Sys.go_calls _ _ _) fun _ _ _ _ _ => Phase.noConfusion
  | update at_ ok => exact h.set (Sys.commit_calls _ _ _ _) fun _ _ _ _ _ => Phase.noConfusion
  | rotate at_ ok => exact h.set (Sys.commit_calls _ _ _ _) fun _ _ _ _ _ => Phase.noConfusion
  | revoke at_ target ok =>
    exact h.set (Sys.commit_calls _ _ _ _) fun _ _ _ _ _ => Phase.noConfusion
  | stop at_ => exact h.set (Sys.go_calls _ _ _) fun _ _ _ _ _ => Phase.noConfusion

/-- The table is what the logged changes make of `keys`. -/
def Replays (keys : List ApiKey) (s : Sys) : Prop := s.keys = s.log.foldl Change.apply keys

theorem Replays.commit (h : Replays keys s) {i : Nat} {keys' : List ApiKey} {c : Change}
    (hkeys : keys' = c.apply s.keys) : Replays keys (s.commit i keys' c) := by
  unfold Replays at *
  rw [Sys.commit_keys, Sys.commit_log, List.foldl_append, ← h, hkeys]
  rfl

theorem Replays.step (h : Replays keys s) (hprepared : Prepared s) (hcurrent : ReadIsCurrent s a)
    (hstep : Step parseUuid s a s') : Replays keys s' := by
  cases hstep with
  | update at_ ok =>
    refine h.commit ?_
    rw [updateKeyWrite_ok ok, (hprepared at_).update_eq (hcurrent _ _ _ _ _ at_)]
  | rotate at_ ok => exact h.commit (rotateKeyWrite_ok ok).2.2
  | revoke at_ target ok => exact h.commit (revokeLive_ok ok)
  | authorize free ok => exact h
  | loadUpdate at_ ok => exact h
  | loadRotate at_ ok => exact h
  | stop at_ => exact h

theorem keepsRevoked_of_current (hcurrent : ReadIsCurrent s a) (hstep : Step parseUuid s a s') :
    KeepsRevoked s a s' := by
  cases hstep with
  | update at_ ok =>
    intro id req time read patch hcall k hk hdead
    rw [Sys.commit_keys, updateKeyWrite_ok ok]
    refine mem_updateWhere.mpr ⟨k, hk, ?_⟩
    have hother : ¬ k.id = _ := fun hid => by
      have hlive := (hcurrent _ _ _ _ _ at_ k hk hid).1
      rw [hdead] at hlive
      cases hlive
    simp [hother]
  | rotate at_ ok =>
    intro id req time read patch hcall
    rw [at_] at hcall
    exact Phase.noConfusion (Option.some.inj hcall)
  | revoke at_ target ok =>
    intro id req time read patch hcall
    rw [at_] at hcall
    exact Phase.noConfusion (Option.some.inj hcall)
  | _ => trivial

end Step

/-! ## Main result -/

/--
In a run in which each `UPDATE` finds its row live and with the expiry that was loaded, the table is
in every state what the named changes of the requests make of it in the order of their writes, and
no PATCH changes a revoked row.
-/
theorem patches_named {parseUuid : String → Option Uuid} {keys : List ApiKey} {s : Sys}
    {as : List Action}
    (hrun : Steps (fun s a s' => ReadIsCurrent s a ∧ Step parseUuid s a s') (.start keys) as s) :
    s.keys = s.log.foldl Change.apply keys ∧
      Steps (fun s a s' => KeepsRevoked s a s' ∧ Step parseUuid s a s') (.start keys) as s := by
  constructor
  · refine (hrun.invariant (I := fun s => Prepared s ∧ Replays keys s) ?_ ⟨nofun, rfl⟩).2
    rintro s a s' ⟨hprepared, hreplays⟩ ⟨hcurrent, hstep⟩
    exact ⟨hprepared.step hstep, hreplays.step hprepared hcurrent hstep⟩
  · refine hrun.mono ?_
    rintro s a s' ⟨hcurrent, hstep⟩
    exact ⟨keepsRevoked_of_current hcurrent hstep, hstep⟩

/-! ## Two runs -/

/-- `PATCH` with a cost center, and with an expiry in 30 days. -/
def tagUpdate : UpdateKeyRequest := { emptyUpdate with costCenter := some "ci" }

def expiryUpdate : UpdateKeyRequest := { emptyUpdate with expiresInDays := some 30 }

def timeoutUpdate : UpdateKeyRequest := { emptyUpdate with inactivityTimeoutDays := some 7 }

/--
Two PATCHes load the row before either writes it. Neither names the expiry, and the later write
keeps the time-out of the earlier one.
-/
theorem patches_named_tag : ∃ s : Sys,
    s.keys = s.log.foldl Change.apply oneKey ∧
      Steps (fun s a s' => KeepsRevoked s a s' ∧ Step (fun _ => none) s a s') (.start oneKey)
        [.authorize 0 noDb keyOwner (.update 10 tagUpdate),
          .authorize 1 noDb keyOwner (.update 10 timeoutUpdate), .load 0 noDb [] 0,
          .load 1 noDb [] 0, .write 1 ⟨0, "", ""⟩ 0 0, .write 0 ⟨0, "", ""⟩ 0 0] s := by
  refine ⟨_, patches_named (.cons ⟨trivial, .authorize rfl rfl⟩
    (.cons ⟨trivial, .authorize rfl rfl⟩ (.cons ⟨trivial, .loadUpdate rfl rfl⟩
      (.cons ⟨trivial, .loadUpdate rfl rfl⟩ (.cons ⟨?_, .update rfl rfl⟩
        (.single ⟨?_, .update rfl rfl⟩))))))⟩
  all_goals
    intro id req time read patch hcall k hk hid
    cases hcall
    rw [List.mem_singleton.mp hk]
    exact ⟨rfl, rfl⟩

/--
The PATCH with the cost center loads the row before the one with the expiry writes, and takes the
expiry back when it writes.
-/
theorem expiry_lost :
    ¬ ∀ (parseUuid : String → Option Uuid) (keys : List ApiKey) (s : Sys) (as : List Action),
      Steps (Step parseUuid) (.start keys) as s → s.keys = s.log.foldl Change.apply keys := by
  intro hall
  have hreplay := hall (fun _ => none) oneKey _
    [.authorize 0 noDb keyOwner (.update 10 expiryUpdate),
      .authorize 1 noDb keyOwner (.update 10 tagUpdate), .load 0 noDb [] 0, .load 1 noDb [] 0,
      .write 0 ⟨0, "", ""⟩ 0 0, .write 1 ⟨0, "", ""⟩ 0 0]
    (.cons (.authorize rfl rfl) (.cons (.authorize rfl rfl) (.cons (.loadUpdate rfl rfl)
      (.cons (.loadUpdate rfl rfl) (.cons (.update rfl rfl) (.single (.update rfl rfl)))))))
  exact absurd (congrArg (List.map ApiKey.expiresAt) hreplay) (by decide)

end ThinkWatch.Keys
