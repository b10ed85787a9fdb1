import ThinkWatch.Keys.Handlers
import ThinkWatch.Lib.Run
import ThinkWatch.Lib.Threads

/-!
# Requests on keys side by side

`rotate_key`, `update_key`, `revoke_key` and `force_revoke_key` requests of any callers, interleaved.
A statement or a transaction on `api_keys` is one step: the look-up of the owner, the load of the
row, the write. What the handlers read from other tables is an argument of the step, since other
requests may have changed it; it decides only whether the request goes on.

The system keeps the order of the writes in a log that no handler looks at.
-/

namespace ThinkWatch.Keys

open Lib Policy Rbac

inductive KeyRequest where
  | update (id : Uuid) (req : UpdateKeyRequest)
  | rotate (id : Uuid)
  | revoke (id : Uuid)
  | forceRevoke (id : Uuid) (reason : String)
deriving Repr

/-- What a request checks before it loads or writes the key. -/
def authorize (s : Store) (caller : AuthUser) : KeyRequest → Except AppError Unit
  | .update id _ => do
    caller.requirePermission "api_keys:update"
    assertOwnerOrAdmin s caller id
  | .rotate id => do
    caller.requirePermission "api_keys:rotate"
    assertOwnerOrAdmin s caller id
  | .revoke id => do
    caller.requirePermission "api_keys:delete"
    assertOwnerOrAdmin s caller id
  | .forceRevoke _ reason => forceRevokeChecks s caller reason

/-- The key that a request revokes, and the reason it records. -/
def KeyRequest.revokes : KeyRequest → Option (Uuid × String)
  | .revoke id => some (id, "revoked")
  | .forceRevoke id reason => some (id, forceRevokedTag reason)
  | _ => none

/-- How far a request is. -/
inductive Phase where
  | authorized (r : KeyRequest)
  /-- `update_key` has loaded the row `read` at `time` and made its patch. -/
  | patching (id : Uuid) (req : UpdateKeyRequest) (time : Time) (read : ApiKey)
      (patch : ApiKeyPatch)
  /-- `rotate_key` has loaded the row `old`. -/
  | rotating (old : ApiKey)
  | ended

/-- A write that has been made. -/
inductive Change where
  | patch (id : Uuid) (req : UpdateKeyRequest) (time : Time)
  | rotate (old : ApiKey) (new : Generated) (graceEnds now : Time)
  | revoke (id : Uuid) (reason : String) (now : Time)

structure Sys where
  keys : List ApiKey
  calls : Threads Phase
  log : List Change

namespace Sys

/-- No request has started. -/
def start (keys : List ApiKey) : Sys := ⟨keys, .none, []⟩

/-- Request `i` goes on without a write. -/
def go (s : Sys) (i : Nat) (p : Phase) : Sys := { s with calls := s.calls.set i p }

/-- Request `i` writes the table and ends. -/
def commit (s : Sys) (i : Nat) (keys : List ApiKey) (c : Change) : Sys where
  keys := keys
  calls := s.calls.set i .ended
  log := s.log ++ [c]

@[simp] theorem go_calls (s : Sys) (i : Nat) (p : Phase) : (s.go i p).calls = s.calls.set i p := rfl

@[simp] theorem commit_keys (s : Sys) (i : Nat) (keys : List ApiKey) (c : Change) :
    (s.commit i keys c).keys = keys := rfl

@[simp] theorem commit_calls (s : Sys) (i : Nat) (keys : List ApiKey) (c : Change) :
    (s.commit i keys c).calls = s.calls.set i .ended := rfl

@[simp] theorem commit_log (s : Sys) (i : Nat) (keys : List ApiKey) (c : Change) :
    (s.commit i keys c).log = s.log ++ [c] := rfl

end Sys

inductive Action where
  | authorize (i : Nat) (tables : Db) (caller : AuthUser) (r : KeyRequest)
  | load (i : Nat) (tables : Db) (credentials : List CredentialKey) (now : Time)
  | write (i : Nat) (new : Generated) (graceEnds now : Time)
  /-- A request that is refused, or whose connection breaks, has no further effect. -/
  | stop (i : Nat)

variable {parseUuid : String → Option Uuid} {s s' : Sys} {a : Action}

/-- One statement of one request. -/
inductive Step (parseUuid : String → Option Uuid) : Sys → Action → Sys → Prop where
  | authorize {s : Sys} {i : Nat} {tables : Db} {caller : AuthUser} {r : KeyRequest}
      (free : s.calls i = none) (ok : authorize ⟨tables, s.keys, []⟩ caller r = .ok ()) :
      Step parseUuid s (.authorize i tables caller r) (s.go i (.authorized r))
  | loadUpdate {s : Sys} {i : Nat} {tables : Db} {credentials : List CredentialKey} {now : Time}
      {id : Uuid} {req : UpdateKeyRequest} {read : ApiKey} {patch : ApiKeyPatch}
      (at_ : s.calls i = some (.authorized (.update id req)))
      (ok : updateKeyLoad parseUuid ⟨tables, s.keys, credentials⟩ id req now = .ok (read, patch)) :
      Step parseUuid s (.load i tables credentials now) (s.go i (.patching id req now read patch))
  | loadRotate {s : Sys} {i : Nat} {tables : Db} {credentials : List CredentialKey} {now : Time}
      {id : Uuid} {old : ApiKey} (at_ : s.calls i = some (.authorized (.rotate id)))
      (ok : rotateKeyLoad s.keys id = .ok old) :
      Step parseUuid s (.load i tables credentials now) (s.go i (.rotating old))
  | update {s : Sys} {i : Nat} {new : Generated} {graceEnds now time : Time} {id : Uuid}
      {req : UpdateKeyRequest} {read : ApiKey} {patch : ApiKeyPatch} {keys : List ApiKey}
      (at_ : s.calls i = some (.patching id req time read patch))
      (ok : updateKeyWrite s.keys id patch = .ok keys) :
      Step parseUuid s (.write i new graceEnds now) (s.commit i keys (.patch id req time))
  | rotate {s : Sys} {i : Nat} {new : Generated} {graceEnds now : Time} {old : ApiKey}
      {keys : List ApiKey} (at_ : s.calls i = some (.rotating old))
      (ok : rotateKeyWrite s.keys old new graceEnds now = .ok keys) :
      Step parseUuid s (.write i new graceEnds now)
        (s.commit i keys (.rotate old new graceEnds now))
  | revoke {s : Sys} {i : Nat} {new : Generated} {graceEnds now : Time} {r : KeyRequest} {id : Uuid}
      {reason : String} {keys : List ApiKey} (at_ : s.calls i = some (.authorized r))
      (target : r.revokes = some (id, reason)) (ok : revokeLive reason s.keys id now = .ok keys) :
      Step parseUuid s (.write i new graceEnds now) (s.commit i keys (.revoke id reason now))
  | stop {s : Sys} {i : Nat} {p : Phase} (at_ : s.calls i = some p) :
      Step parseUuid s (.stop i) (s.go i .ended)

/-! ## What a write does -/

theorem updateKeyWrite_ok {keys keys' : List ApiKey} {id : Uuid} {patch : ApiKeyPatch}
    (h : updateKeyWrite keys id patch = .ok keys') : keys' = update keys id patch := by
  unfold updateKeyWrite at h
  rw [refuseIf_bind_ok, pure_ok] at h
  exact h.2.symm

theorem revokeLive_ok {keys keys' : List ApiKey} {id : Uuid} {reason : String} {now : Time}
    (h : revokeLive reason keys id now = .ok keys') : keys' = revokeWith reason keys id now := by
  unfold revokeLive at h
  rw [refuseIf_bind_ok, pure_ok] at h
  exact h.2.symm

/-- The id and the hash of a new row are not in the table. -/
structure Fresh (keys : List ApiKey) (new : Generated) : Prop where
  id : ∀ k ∈ keys, k.id ≠ new.id
  hash : ∀ k ∈ keys, k.keyHash ≠ new.keyHash

theorem checkFresh_ok {keys : List ApiKey} {new : Generated} {x : Unit}
    (h : checkFresh keys new = .ok x) : Fresh keys new := by
  unfold checkFresh at h
  rw [refuseIf_ok, List.any_eq_true, not_exists] at h
  refine ⟨fun k hk hid => h k ⟨hk, ?_⟩, fun k hk hhash => h k ⟨hk, ?_⟩⟩
  · simp [hid]
  · simp [hhash]

theorem rotateKeyWrite_ok {keys keys' : List ApiKey} {old : ApiKey} {new : Generated}
    {graceEnds now : Time} (h : rotateKeyWrite keys old new graceEnds now = .ok keys') :
    Fresh keys new ∧ (∃ k ∈ keys, k.id = old.id) ∧ keys' = rotate keys old new graceEnds now := by
  unfold rotateKeyWrite at h
  rw [bind_ok] at h
  obtain ⟨_, hfresh, h⟩ := h
  rw [refuseIf_bind_ok, pure_ok] at h
  obtain ⟨hrow, rfl⟩ := h
  refine ⟨checkFresh_ok hfresh, ?_, rfl⟩
  rw [List.all_eq_true, not_forall] at hrow
  obtain ⟨k, hk⟩ := hrow
  rw [Classical.not_imp] at hk
  exact ⟨k, hk.1, by simpa using hk.2⟩

theorem rotateKeyLoad_ok {keys : List ApiKey} {id : Uuid} {old : ApiKey}
    (h : rotateKeyLoad keys id = .ok old) :
    old ∈ keys ∧ old.id = id ∧ old.live = true ∧ old.isActive = true ∧
      old.disabledReason ≠ some "rotated" := by
  unfold rotateKeyLoad at h
  rw [bind_ok] at h
  obtain ⟨row, hrow, h⟩ := h
  rw [refuseIf_bind_ok, refuseIf_bind_ok, pure_ok] at h
  obtain ⟨hactive, hrotated, rfl⟩ := h
  obtain ⟨hmem, hid, hlive⟩ := findLive_eq_some (orRefuse_ok.mp hrow)
  exact ⟨hmem, hid, hlive, Bool.eq_true_of_not_eq_false hactive, hrotated⟩

/-- What one step does to the table. -/
inductive TableStep (keys : List ApiKey) : List ApiKey → Prop where
  | keep : TableStep keys keys
  | update (id : Uuid) (patch : ApiKeyPatch) : TableStep keys (update keys id patch)
  | rotate {old : ApiKey} {new : Generated} (graceEnds now : Time) (fresh : Fresh keys new)
      (row : ∃ k ∈ keys, k.id = old.id) : TableStep keys (rotate keys old new graceEnds now)
  | revoke (reason : String) (id : Uuid) (now : Time) :
      TableStep keys (revokeWith reason keys id now)

theorem Step.table (h : Step parseUuid s a s') : TableStep s.keys s'.keys := by
  cases h with
  | update at_ ok =>
    rw [Sys.commit_keys, updateKeyWrite_ok ok]
    exact .update _ _
  | rotate at_ ok =>
    obtain ⟨hfresh, hrow, hkeys⟩ := rotateKeyWrite_ok ok
    rw [Sys.commit_keys, hkeys]
    exact .rotate _ _ hfresh hrow
  | revoke at_ target ok =>
    rw [Sys.commit_keys, revokeLive_ok ok]
    exact .revoke _ _ _
  | authorize free ok => exact .keep
  | loadUpdate at_ ok => exact .keep
  | loadRotate at_ ok => exact .keep
  | stop at_ => exact .keep

/-! ## A table with one key -/

def noDb : Db := ⟨[], [], [], [], [], []⟩

/-- The owner of the key 10, who may do everything with it. -/
def keyOwner : AuthUser :=
  ⟨1, ["api_keys:rotate", "api_keys:update", "api_keys:delete"], []⟩

def oneKey : List ApiKey := [plainKey 10 1 "h10"]

end ThinkWatch.Keys
