import ThinkWatch.Limits.BulkEdits
import ThinkWatch.Rbac.SuperAdmin

/-!
# When a bulk edit does what single edits do

Both reach the same write, once they agree on where the limit of a target is stored. A single edit
stores that of an `api_key` under the lineage of the key, and a bulk edit refuses the kind; a bulk
edit stores that of an `api_key_lineage` under the id as it came, and a single edit refuses the kind.
`bulk_agrees_iff`: they agree when no target that the caller may edit is of these two kinds, a key
that does not exist apart.
-/

namespace ThinkWatch.Limits

open Lib Rbac Keys
open Gateway (RateLimitSubject)

variable {σ κ ρ : Type} {fam : Family σ κ ρ} {w : Setting} {spec : LimitSpec ρ}
  {targets : List SubjectRef} {target : SubjectRef}

/-! ## The condition -/

/-- The caller may edit the limits of the target. -/
def InScope (w : Setting) (target : SubjectRef) : Prop :=
  assertScopeForSubject w.caller w.db w.keys "rate_limits:write" target.kind target.id = .ok ()

/-- What is checked for all targets alike passes, up to the database. -/
structure ServedAs (fam : Family σ κ ρ) (w : Setting) (spec : LimitSpec ρ) (slot : κ)
    (note : Option Int × Option String) : Prop where
  permitted : w.caller.requirePermission "rate_limits:write" = .ok ()
  slot_read : fam.slot spec.slot = .ok slot
  note_valid : validateOverrideMeta w.now spec.expiresAt spec.reason = .ok note
  checked : fam.check slot spec.amount = .ok ()
  taken : ¬ databaseRefuses w.db note.2 (some w.caller.sub)

def Served (fam : Family σ κ ρ) (w : Setting) (spec : LimitSpec ρ) : Prop :=
  ∃ slot note, ServedAs fam w spec slot note

/-- A target that one of the two families of endpoints stores a limit for and the other refuses. -/
def Diverges (w : Setting) (target : SubjectRef) : Prop :=
  InScope w target ∧ (target.kind = "api_key_lineage" ∨
    target.kind = "api_key" ∧ ∃ key ∈ w.keys, key.id = target.id)

/-- The two kinds of subject differ, and the slot is read alike. -/
structure Family.Lawful (fam : Family σ κ ρ) : Prop where
  subjects : fam.user ≠ fam.apiKeyLineage
  slots : ∀ text slot, fam.bulkSlot text = .ok slot ↔ fam.slot text = .ok slot

/-! ## Where a limit is stored -/

/-- Where a single edit stores the limit of a target, if it may and does. -/
def Family.editDest (fam : Family σ κ ρ) (w : Setting) (target : SubjectRef) : Option (σ × Uuid) :=
  if assertScopeForSubject w.caller w.db w.keys "rate_limits:write" target.kind target.id = .ok ()
  then
    match target.kind with
    | "user" => some (fam.user, target.id)
    | "api_key" => (w.keys.find? (·.id = target.id)).map fun k => (fam.apiKeyLineage, k.lineageId)
    | _ => none
  else none

def Family.bulkDest (fam : Family σ κ ρ) (w : Setting) (target : SubjectRef) : Option (σ × Uuid) :=
  if assertScopeForSubject w.caller w.db w.keys "rate_limits:write" target.kind target.id = .ok ()
  then (fam.parse target.kind).map fun kind => (kind, target.id)
  else none

/-- The write for a destination. -/
def LimitSpec.upsertAt (spec : LimitSpec ρ) (w : Setting) (slot : κ) (expiresAt : Option Int)
    (reason : Option String) (dest : σ × Uuid) : Upsert σ κ :=
  ⟨dest.1, dest.2, slot, spec.amount, spec.enabled, expiresAt, reason, some w.caller.sub⟩

/-- The destination is what the parser of the path and the search for the lineage come to. -/
theorem Family.editDest_eq_some {dest : σ × Uuid} :
    fam.editDest w target = some dest ↔
      InScope w target ∧ fam.parseSubject target.kind = .ok dest.1 ∧
        resolveSubjectId w.keys target.kind target.id = .ok dest.2 := by
  obtain ⟨kind, id⟩ := target
  obtain ⟨subject, storageId⟩ := dest
  unfold editDest InScope
  split
  next hscope =>
    simp only [hscope, true_and]
    split
    · simp [parseSubject, resolveSubjectId]
    · simp only [parseSubject, resolveSubjectId, orRefuse_ok, Option.map_eq_some_iff, Prod.mk.injEq,
        Except.ok.injEq, ne_eq, not_true_eq_false, if_false]
      constructor
      · rintro ⟨key, hkey, rfl, rfl⟩
        exact ⟨rfl, key, hkey, rfl⟩
      · rintro ⟨rfl, key, hkey, rfl⟩
        exact ⟨key, hkey, rfl, rfl⟩
    next huser hkey =>
      refine ⟨nofun, fun h => ?_⟩
      have hparse := h.1
      unfold parseSubject at hparse
      split at hparse
      · cases hparse
      · exact absurd rfl huser
      · exact absurd rfl hkey
      · cases hparse
  next hscope => exact ⟨nofun, fun h => absurd h.1 hscope⟩

/-- A single edit reads its request to the end when all of its parts can be read. -/
theorem Family.readEdit_ok {req : Upsert σ κ} :
    fam.readEdit w spec target = .ok req ↔
      w.caller.requirePermission "rate_limits:write" = .ok () ∧
        ∃ dest, fam.editDest w target = some dest ∧
          ∃ slot, fam.slot spec.slot = .ok slot ∧
            ∃ note, validateOverrideMeta w.now spec.expiresAt spec.reason = .ok note ∧
              spec.upsertAt w slot note.1 note.2 dest = req := by
  unfold readEdit
  simp only [bind_ok, pure_ok, editDest_eq_some]
  constructor
  · rintro ⟨⟨⟩, hperm, ⟨⟩, hscope, kind, hkind, id, hid, slot, hslot, note, hnote, heq⟩
    exact ⟨hperm, (kind, id), ⟨hscope, hkind, hid⟩, slot, hslot, note, hnote, heq⟩
  · rintro ⟨hperm, dest, ⟨hscope, hkind, hid⟩, slot, hslot, note, hnote, heq⟩
    exact ⟨(), hperm, (), hscope, _, hkind, _, hid, slot, hslot, note, hnote, heq⟩

theorem parseOr_ok {parse : String → Option κ} {what allowed text : String} {slot : κ} :
    parseOr parse what allowed text = .ok slot ↔ parse text = some slot :=
  orRefuse_ok

theorem Family.readBulk_ok (hlength : targets.length ≤ 500)
    {shared : κ × Option Int × Option String} :
    fam.readBulk w spec targets = .ok shared ↔
      targets ≠ [] ∧ w.caller.requirePermission "rate_limits:write" = .ok () ∧
        fam.bulkSlot spec.slot = .ok shared.1 ∧
        validateOverrideMeta w.now spec.expiresAt spec.reason = .ok shared.2 := by
  unfold readBulk
  simp only [bind_ok, refuseIf_ok, pure_ok]
  constructor
  · rintro ⟨⟨⟩, hperm, ⟨⟩, hne, -, -, slot, hslot, note, hnote, rfl⟩
    exact ⟨hne, hperm, hslot, hnote⟩
  · rintro ⟨hne, hperm, hslot, hnote⟩
    exact ⟨(), hperm, (), hne, (), Nat.not_lt.mpr hlength, _, hslot, _, hnote, rfl⟩

/-- A bulk edit stores the limit of a target that does not diverge where a single edit does. -/
theorem Family.dest_eq (fam : Family σ κ ρ) (h : ¬ Diverges w target) :
    fam.bulkDest w target = fam.editDest w target := by
  obtain ⟨kind, id⟩ := target
  dsimp only [editDest, bulkDest, Diverges, InScope] at h ⊢
  split
  next hscope =>
    unfold parse
    split
    · rfl
    · exact absurd ⟨hscope, Or.inl rfl⟩ h
    next huser hlineage =>
      split
      · exact absurd rfl huser
      · have hnone : w.keys.find? (·.id = id) = none := by
          refine List.find?_eq_none.mpr fun key hkey hid => h ⟨hscope, Or.inr ⟨rfl, key, hkey, ?_⟩⟩
          exact of_decide_eq_true hid
        rw [hnone]
        rfl
      · rfl
  next => rfl

theorem Family.lineage_of_editDest {dest : σ × Uuid} (hfam : fam.Lawful)
    (h : fam.editDest w target = some dest) (hkey : dest.1 = fam.apiKeyLineage) :
    target.kind = "api_key" ∧ ∃ key ∈ w.keys, key.id = target.id ∧ dest.2 = key.lineageId := by
  unfold editDest at h
  split at h
  next =>
    split at h
    next =>
      obtain rfl := Option.some.inj h
      exact absurd hkey hfam.subjects
    next hkind =>
      obtain ⟨key, hfind, rfl⟩ := Option.map_eq_some_iff.mp h
      refine ⟨hkind, key, List.mem_of_find?_eq_some hfind, ?_, rfl⟩
      exact of_decide_eq_true (@List.find?_some _ (fun k : ApiKey => k.id = target.id) _ _ hfind)
    next => cases h
  next => cases h

/-- A target that diverges has a destination for one of the two only. -/
theorem Family.dest_isSome_ne (fam : Family σ κ ρ) (h : Diverges w target) :
    (fam.bulkDest w target).isSome ≠ (fam.editDest w target).isSome := by
  obtain ⟨kind, id⟩ := target
  dsimp only [editDest, bulkDest, Diverges, InScope] at h ⊢
  obtain ⟨hscope, hkind⟩ := h
  rw [if_pos hscope, if_pos hscope]
  rcases hkind with rfl | ⟨rfl, key, hkey, rfl⟩
  · simp [parse]
  · have hfind : (w.keys.find? (·.id = key.id)).isSome = true :=
      List.find?_isSome.mpr ⟨key, hkey, decide_eq_true rfl⟩
    simp [parse, hfind]

variable [DecidableEq σ] [DecidableEq κ] {table : LimitTable σ κ}

/-! ## The engine -/

theorem LimitRow.subject_of_conflicts {row : LimitRow σ κ} {req : Upsert σ κ}
    (h : row.conflicts req = true) :
    row.subjectKind = req.subjectKind ∧ row.subjectId = req.subjectId := by
  unfold LimitRow.conflicts at h
  simp only [Bool.and_eq_true, decide_eq_true_eq] at h
  exact h.1

/-- The row that is returned is in the table, under the subject of the request. -/
theorem LimitTable.upsert_row (ids : Nat → Uuid) (req : Upsert σ κ) (table : LimitTable σ κ) :
    (table.upsert ids req).1 ∈ (table.upsert ids req).2.rows ∧
      (table.upsert ids req).1.subjectKind = req.subjectKind ∧
      (table.upsert ids req).1.subjectId = req.subjectId := by
  unfold LimitTable.upsert
  cases hfind : table.rows.find? (·.conflicts req) with
  | none =>
    show _ ∈ table.rows ++ [_] ∧ _
    exact ⟨List.mem_append_right _ (List.mem_singleton_self _), rfl, rfl⟩
  | some row =>
    have hconf := List.find?_some hfind
    refine ⟨List.mem_map.mpr ⟨row, List.mem_of_find?_eq_some hfind, if_pos hconf⟩, ?_⟩
    exact LimitRow.subject_of_conflicts hconf

/-- A row of the table after a write has the subject of a row before it, or that of the request. -/
theorem LimitTable.upsert_subject {ids : Nat → Uuid} {req : Upsert σ κ} {row : LimitRow σ κ}
    (h : row ∈ (table.upsert ids req).2.rows) :
    (∃ old ∈ table.rows, old.subjectKind = row.subjectKind ∧ old.subjectId = row.subjectId) ∨
      row.subjectKind = req.subjectKind ∧ row.subjectId = req.subjectId := by
  unfold LimitTable.upsert at h
  cases hfind : table.rows.find? (·.conflicts req) with
  | none =>
    rw [hfind] at h
    rcases List.mem_append.mp h with h | h
    · exact Or.inl ⟨row, h, rfl, rfl⟩
    · rw [List.mem_singleton.mp h]
      exact Or.inr ⟨rfl, rfl⟩
  | some found =>
    rw [hfind] at h
    obtain ⟨old, hold, rfl⟩ := List.mem_map.mp h
    refine Or.inl ⟨old, hold, ?_⟩
    split
    · exact ⟨rfl, rfl⟩
    · exact ⟨rfl, rfl⟩

/-! ## One target -/

section Steps

variable {slot : κ} {note : Option Int × Option String}

theorem Family.upsert_of_served (h : ServedAs fam w spec slot note) (dest : σ × Uuid)
    (table : LimitTable σ κ) :
    fam.upsert w.db w.ids (spec.upsertAt w slot note.1 note.2 dest) table =
      (.ok (table.upsert w.ids (spec.upsertAt w slot note.1 note.2 dest)).1,
        (table.upsert w.ids (spec.upsertAt w slot note.1 note.2 dest)).2) := by
  unfold upsert LimitSpec.upsertAt
  rw [h.checked]
  exact if_neg h.taken

/-- The engine writes for a request that is served and for no other. -/
theorem Family.upsert_of_not_served (hserved : ¬ Served fam w spec)
    (hperm : w.caller.requirePermission "rate_limits:write" = .ok ())
    (hslot : fam.slot spec.slot = .ok slot)
    (hnote : validateOverrideMeta w.now spec.expiresAt spec.reason = .ok note) (dest : σ × Uuid)
    (table : LimitTable σ κ) :
    ∃ e, fam.upsert w.db w.ids (spec.upsertAt w slot note.1 note.2 dest) table =
      (.error e, table) := by
  unfold upsert LimitSpec.upsertAt
  split
  next msg _ => exact ⟨.protocol msg, rfl⟩
  next hcheck =>
    split
    next => exact ⟨_, rfl⟩
    next htaken => exact absurd ⟨slot, note, hperm, hslot, hnote, hcheck, htaken⟩ hserved

theorem Family.edit_of_read {req : Upsert σ κ} (h : fam.readEdit w spec target = .ok req)
    (table : LimitTable σ κ) :
    fam.edit w spec target table =
      ((fam.upsert w.db w.ids req table).1.mapError mapValidationError,
        (fam.upsert w.db w.ids req table).2) := by
  unfold edit
  rw [h]

theorem Family.edit_some (h : ServedAs fam w spec slot note) {dest : σ × Uuid}
    (hdest : fam.editDest w target = some dest) (table : LimitTable σ κ) :
    fam.edit w spec target table =
      (.ok (table.upsert w.ids (spec.upsertAt w slot note.1 note.2 dest)).1,
        (table.upsert w.ids (spec.upsertAt w slot note.1 note.2 dest)).2) := by
  have hread : fam.readEdit w spec target = .ok (spec.upsertAt w slot note.1 note.2 dest) :=
    readEdit_ok.mpr ⟨h.permitted, dest, hdest, slot, h.slot_read, note, h.note_valid, rfl⟩
  rw [edit_of_read hread, upsert_of_served h]
  rfl

theorem Family.edit_of_read_error (table : LimitTable σ κ)
    (h : ∀ req, fam.readEdit w spec target ≠ .ok req) :
    ∃ e, fam.edit w spec target table = (.error e, table) := by
  unfold edit
  cases hread : fam.readEdit w spec target with
  | error e => exact ⟨e, rfl⟩
  | ok req => exact absurd hread (h req)

theorem Family.edit_none (spec : LimitSpec ρ) (hdest : fam.editDest w target = none)
    (table : LimitTable σ κ) :
    ∃ e, fam.edit w spec target table = (.error e, table) := by
  refine edit_of_read_error table fun req hread => ?_
  obtain ⟨-, dest, hd, -⟩ := readEdit_ok.mp hread
  rw [hdest] at hd
  cases hd

theorem Family.edit_of_not_served (h : ¬ Served fam w spec) (target : SubjectRef)
    (table : LimitTable σ κ) : ∃ e, fam.edit w spec target table = (.error e, table) := by
  cases hread : fam.readEdit w spec target with
  | error e =>
    refine edit_of_read_error table fun req h => ?_
    rw [hread] at h
    cases h
  | ok req =>
    obtain ⟨hperm, dest, -, slot, hslot, note, hnote, rfl⟩ := readEdit_ok.mp hread
    obtain ⟨e, he⟩ := upsert_of_not_served h hperm hslot hnote dest table
    refine ⟨mapValidationError e, ?_⟩
    rw [edit_of_read hread, he]
    rfl

theorem Family.applyTo_of_dest {dest : σ × Uuid} (h : fam.bulkDest w target = some dest)
    (shared : κ × Option Int × Option String) (table : LimitTable σ κ) :
    fam.applyTo w spec shared target table =
      (⟨target.kind, target.id,
          ((fam.upsert w.db w.ids (spec.upsertAt w shared.1 shared.2.1 shared.2.2 dest)
            table).1.map LimitRow.id).mapError dbErrorMessage⟩,
        (fam.upsert w.db w.ids (spec.upsertAt w shared.1 shared.2.1 shared.2.2 dest) table).2) := by
  unfold bulkDest at h
  split at h
  next hscope =>
    obtain ⟨kind, hkind, rfl⟩ := Option.map_eq_some_iff.mp h
    unfold applyTo LimitSpec.upsertAt
    rw [hkind]
    dsimp only
    rw [hscope]
  next => cases h

theorem Family.applyTo_some (h : ServedAs fam w spec slot note) {dest : σ × Uuid}
    (hdest : fam.bulkDest w target = some dest) (table : LimitTable σ κ) :
    fam.applyTo w spec (slot, note) target table =
      (⟨target.kind, target.id,
          .ok (table.upsert w.ids (spec.upsertAt w slot note.1 note.2 dest)).1.id⟩,
        (table.upsert w.ids (spec.upsertAt w slot note.1 note.2 dest)).2) := by
  rw [applyTo_of_dest hdest, upsert_of_served h]
  rfl

theorem Family.applyTo_none (spec : LimitSpec ρ) (hdest : fam.bulkDest w target = none)
    (shared : κ × Option Int × Option String) (table : LimitTable σ κ) :
    ∃ o : BulkOutcome, o.success = false ∧
      fam.applyTo w spec shared target table = (o, table) := by
  unfold bulkDest at hdest
  unfold applyTo
  cases hkind : fam.parse target.kind with
  | none => exact ⟨_, rfl, rfl⟩
  | some kind =>
    rw [hkind] at hdest
    split at hdest
    next => cases hdest
    next hscope =>
      dsimp only
      split
      next => exact ⟨_, rfl, rfl⟩
      next h => exact absurd h hscope

theorem Family.applyTo_of_error {shared : κ × Option Int × Option String} {dest : σ × Uuid}
    (hdest : fam.bulkDest w target = some dest)
    (h : ∃ e, fam.upsert w.db w.ids (spec.upsertAt w shared.1 shared.2.1 shared.2.2 dest) table =
      (.error e, table)) :
    ∃ o : BulkOutcome, o.success = false ∧
      fam.applyTo w spec shared target table = (o, table) := by
  obtain ⟨e, hwrite⟩ := h
  refine ⟨⟨target.kind, target.id, .error (dbErrorMessage e)⟩, rfl, ?_⟩
  rw [applyTo_of_dest hdest, hwrite]
  rfl

end Steps

/-! ## What is compared -/

/-- Which targets succeed. When the request is refused as a whole none does. -/
def successes (targets : List SubjectRef) : Except AppError BulkApplyResponse → List Bool
  | .ok response => response.outcomes.map BulkOutcome.success
  | .error _ => targets.map fun _ => false

/-! ## All targets -/

section Runs

variable {slot : κ} {note : Option Int × Option String}

theorem Family.bulkApply_of_read {shared : κ × Option Int × Option String}
    (h : fam.readBulk w spec targets = .ok shared) (table : LimitTable σ κ) :
    (fam.bulkApply w spec targets table).2 = (each (fam.applyTo w spec shared) targets table).2 ∧
      successes targets (fam.bulkApply w spec targets table).1 =
        (each (fam.applyTo w spec shared) targets table).1.map BulkOutcome.success := by
  unfold bulkApply
  rw [h]
  exact ⟨rfl, rfl⟩

theorem Family.bulkApply_of_read_error (h : ∀ shared, fam.readBulk w spec targets ≠ .ok shared)
    (table : LimitTable σ κ) :
    (fam.bulkApply w spec targets table).2 = table ∧
      successes targets (fam.bulkApply w spec targets table).1 = targets.map fun _ => false := by
  unfold bulkApply
  cases hread : fam.readBulk w spec targets with
  | error e => exact ⟨rfl, rfl⟩
  | ok shared => exact absurd hread (h shared)

/-- A bulk edit that is not served fails for every target. -/
theorem Family.bulkApply_of_not_served (hfam : fam.Lawful) (hlength : targets.length ≤ 500)
    (h : ¬ Served fam w spec) (table : LimitTable σ κ) :
    (fam.bulkApply w spec targets table).2 = table ∧
      successes targets (fam.bulkApply w spec targets table).1 = targets.map fun _ => false := by
  cases hread : fam.readBulk w spec targets with
  | error e =>
    refine bulkApply_of_read_error (fun shared h => ?_) table
    rw [hread] at h
    cases h
  | ok shared =>
    obtain ⟨-, hperm, hslot, hnote⟩ := (readBulk_ok hlength).mp hread
    have hstep : ∀ target (t : LimitTable σ κ), ∃ o : BulkOutcome, o.success = false ∧
        fam.applyTo w spec shared target t = (o, t) := by
      intro target t
      cases hdest : fam.bulkDest w target with
      | none => exact applyTo_none spec hdest shared t
      | some dest =>
        have hwrite := upsert_of_not_served h hperm ((hfam.slots _ _).mp hslot) hnote dest t
        exact applyTo_of_error hdest hwrite
    obtain ⟨htable, hflags⟩ := bulkApply_of_read hread table
    rw [htable, hflags]
    constructor
    · refine each_state (fun target _ t => ?_) table
      obtain ⟨o, -, ho⟩ := hstep target t
      rw [ho]
    · refine each_map targets _ (fun target t => ?_) table
      obtain ⟨o, hfail, ho⟩ := hstep target t
      rw [ho]
      exact hfail

/-- Single edits that are not served all fail. -/
theorem Family.edits_of_not_served (h : ¬ Served fam w spec) (targets : List SubjectRef)
    (table : LimitTable σ κ) :
    (each (fam.edit w spec) targets table).2 = table ∧
      (each (fam.edit w spec) targets table).1.map Except.isOk = targets.map fun _ => false := by
  constructor
  · refine each_state (fun target _ t => ?_) table
    obtain ⟨e, he⟩ := edit_of_not_served h target t
    rw [he]
  · refine each_map targets _ (fun target t => ?_) table
    obtain ⟨e, he⟩ := edit_of_not_served h target t
    rw [he]
    rfl

theorem Family.edit_isOk (h : ServedAs fam w spec slot note) (target : SubjectRef)
    (table : LimitTable σ κ) :
    (fam.edit w spec target table).1.isOk = (fam.editDest w target).isSome := by
  cases hdest : fam.editDest w target with
  | none =>
    obtain ⟨e, he⟩ := edit_none spec hdest table
    rw [he]
    rfl
  | some dest =>
    rw [edit_some h hdest table]
    rfl

theorem Family.applyTo_success (h : ServedAs fam w spec slot note) (target : SubjectRef)
    (table : LimitTable σ κ) :
    (fam.applyTo w spec (slot, note) target table).1.success = (fam.bulkDest w target).isSome := by
  cases hdest : fam.bulkDest w target with
  | none =>
    obtain ⟨o, hfail, ho⟩ := applyTo_none spec hdest (slot, note) table
    rw [ho]
    exact hfail
  | some dest =>
    rw [applyTo_some h hdest table]
    rfl

/-- The same destination, the same write. -/
theorem Family.step_agrees (h : ServedAs fam w spec slot note)
    (hdest : fam.bulkDest w target = fam.editDest w target) (table : LimitTable σ κ) :
    (fam.applyTo w spec (slot, note) target table).2 = (fam.edit w spec target table).2 := by
  cases hedit : fam.editDest w target with
  | none =>
    rw [hedit] at hdest
    obtain ⟨o, -, ho⟩ := applyTo_none spec hdest (slot, note) table
    obtain ⟨e, he⟩ := edit_none spec hedit table
    rw [ho, he]
  | some dest =>
    rw [hedit] at hdest
    rw [applyTo_some h hdest table, edit_some h hedit table]

end Runs

/-! ## What the rows are stored under -/

/-- A single edit writes at its destination, or changes nothing. -/
theorem Family.edit_cases (fam : Family σ κ ρ) (w : Setting) (spec : LimitSpec ρ)
    (target : SubjectRef) (table : LimitTable σ κ) :
    (∃ e, fam.edit w spec target table = (.error e, table)) ∨
      ∃ req dest, fam.editDest w target = some dest ∧ req.subjectKind = dest.1 ∧
        req.subjectId = dest.2 ∧
        fam.edit w spec target table =
          (.ok (table.upsert w.ids req).1, (table.upsert w.ids req).2) := by
  by_cases hserved : Served fam w spec
  · obtain ⟨slot, note, hs⟩ := hserved
    cases hdest : fam.editDest w target with
    | none => exact Or.inl (edit_none spec hdest table)
    | some dest => exact Or.inr ⟨_, dest, rfl, rfl, rfl, edit_some hs hdest table⟩
  · exact Or.inl (edit_of_not_served hserved target table)

/-- The limit is set for the lineage of a key, unless the subject had one before. -/
def KeyRow (lineage : σ) (keys : List ApiKey) (before : LimitTable σ κ) (row : LimitRow σ κ) :
    Prop :=
  row.subjectKind = lineage →
    (∃ old ∈ before.rows, old.subjectKind = row.subjectKind ∧ old.subjectId = row.subjectId) ∨
      ∃ key ∈ keys, key.lineageId = row.subjectId

/-- A single edit for an API key returns the row that it has stored under the key's lineage. -/
theorem Family.edit_api_key (hfam : fam.Lawful) {row : LimitRow σ κ}
    (hkind : target.kind = "api_key") (h : (fam.edit w spec target table).1 = .ok row) :
    row ∈ (fam.edit w spec target table).2.rows ∧ row.subjectKind = fam.apiKeyLineage ∧
      ∃ key ∈ w.keys, key.id = target.id ∧ row.subjectId = key.lineageId := by
  obtain ⟨e, hedit⟩ | ⟨req, dest, hdest, hreqKind, hreqId, hedit⟩ :=
    fam.edit_cases w spec target table
  · rw [hedit] at h
    cases h
  have hkey : dest.1 = fam.apiKeyLineage := by
    have hparse := (editDest_eq_some.mp hdest).2.1
    rw [hkind] at hparse
    exact (Except.ok.inj hparse).symm
  obtain ⟨-, key, hmem, hid, hlineage⟩ := lineage_of_editDest hfam hdest hkey
  obtain ⟨hrow, hrowKind, hrowId⟩ := table.upsert_row w.ids req
  rw [hedit] at h ⊢
  obtain rfl := Except.ok.inj h
  exact ⟨hrow, hrowKind.trans (hreqKind.trans hkey), key, hmem, hid,
    hrowId.trans (hreqId.trans hlineage)⟩

/-- A single edit adds no row of a key but under a lineage. -/
theorem Family.edit_keyRow (hfam : fam.Lawful) {before : LimitTable σ κ} (target : SubjectRef)
    (table : LimitTable σ κ) (h : ∀ row ∈ table.rows, KeyRow fam.apiKeyLineage w.keys before row) :
    ∀ row ∈ (fam.edit w spec target table).2.rows, KeyRow fam.apiKeyLineage w.keys before row := by
  intro row hrow
  obtain ⟨e, hedit⟩ | ⟨req, dest, hdest, hreqKind, hreqId, hedit⟩ :=
    fam.edit_cases w spec target table
  · rw [hedit] at hrow
    exact h row hrow
  · rw [hedit] at hrow
    intro hkey
    rcases LimitTable.upsert_subject hrow with ⟨old, hold, holdKind, holdId⟩ | ⟨hkind, hid⟩
    · have hbefore := h old hold (holdKind.trans hkey)
      rwa [holdKind, holdId] at hbefore
    · have hdestKey : dest.1 = fam.apiKeyLineage := hreqKind.symm.trans (hkind.symm.trans hkey)
      obtain ⟨-, key, hmem, -, hlineage⟩ := lineage_of_editDest hfam hdest hdestKey
      exact Or.inr ⟨key, hmem, (hid.trans (hreqId.trans hlineage)).symm⟩

/-! ## Agreement -/

/--
A bulk edit leaves the table that one single edit for each target would leave, and succeeds for the
targets for which that does. Limits of API keys are stored under the lineage, whichever of the two
has set them.
-/
structure Agrees (lineage : σ) (keys : List ApiKey)
    (bulk : List SubjectRef → LimitTable σ κ → Except AppError BulkApplyResponse × LimitTable σ κ)
    (single : SubjectRef → LimitTable σ κ → Except AppError (LimitRow σ κ) × LimitTable σ κ)
    (targets : List SubjectRef) (table : LimitTable σ κ) : Prop where
  tables : (bulk targets table).2 = (each single targets table).2
  outcomes : successes targets (bulk targets table).1 = (each single targets table).1.map Except.isOk
  keyRows : ∀ row ∈ (bulk targets table).2.rows, KeyRow lineage keys table row
  keyEdits : ∀ target table row, target.kind = "api_key" → (single target table).1 = .ok row →
    row ∈ (single target table).2.rows ∧ row.subjectKind = lineage ∧
      ∃ key ∈ keys, key.id = target.id ∧ row.subjectId = key.lineageId

/-- What the tables and the flags have to say for the two to agree; the rest holds anyway. -/
theorem agrees_of (hfam : fam.Lawful)
    (htables : (fam.bulkApply w spec targets table).2 = (each (fam.edit w spec) targets table).2)
    (hflags : successes targets (fam.bulkApply w spec targets table).1 =
      (each (fam.edit w spec) targets table).1.map Except.isOk) :
    Agrees fam.apiKeyLineage w.keys (fam.bulkApply w spec) (fam.edit w spec) targets table where
  tables := htables
  outcomes := hflags
  keyRows := by
    rw [htables]
    refine each_preserves
      (P := fun t : LimitTable σ κ => ∀ row ∈ t.rows, KeyRow fam.apiKeyLineage w.keys table row)
      (fun target _ t => Family.edit_keyRow hfam target t) fun row hrow _ => ?_
    exact Or.inl ⟨row, hrow, rfl, rfl⟩
  keyEdits _ _ _ hkind h := Family.edit_api_key hfam hkind h

/-- The two agree when no target that would be served diverges. -/
theorem Family.agrees_iff (hfam : fam.Lawful) (hlength : targets.length ≤ 500) :
    Agrees fam.apiKeyLineage w.keys (fam.bulkApply w spec) (fam.edit w spec) targets table ↔
      (Served fam w spec → ∀ target ∈ targets, ¬ Diverges w target) := by
  by_cases hserved : Served fam w spec
  · obtain ⟨slot, note, hs⟩ := hserved
    by_cases hne : targets = []
    · subst hne
      refine ⟨fun _ _ => List.forall_mem_nil _, fun _ => ?_⟩
      have hread : ∀ shared, fam.readBulk w spec [] ≠ .ok shared :=
        fun shared h => ((readBulk_ok hlength).mp h).1 rfl
      obtain ⟨htable, hflags⟩ := bulkApply_of_read_error hread table
      exact agrees_of hfam htable hflags
    · have hread : fam.readBulk w spec targets = .ok (slot, note) :=
        (readBulk_ok hlength).mpr ⟨hne, hs.permitted, (hfam.slots _ _).mpr hs.slot_read,
          hs.note_valid⟩
      obtain ⟨hbulk, hflags⟩ := bulkApply_of_read hread table
      have hbulkFlags := each_map targets BulkOutcome.success
        (fun target t => applyTo_success hs target t) table
      have heditFlags := each_map targets Except.isOk
        (fun target t => edit_isOk hs target t) table
      constructor
      · intro h _ target htarget hdiv
        have hsome := h.outcomes
        rw [hflags, hbulkFlags, heditFlags, List.map_inj_left] at hsome
        exact fam.dest_isSome_ne hdiv (hsome target htarget)
      · intro h
        have hdest := fun target htarget => fam.dest_eq (h ⟨slot, note, hs⟩ target htarget)
        refine agrees_of hfam ?_ ?_
        · rw [hbulk]
          exact each_state_congr
            (fun target htarget t => Family.step_agrees hs (hdest target htarget) t) table
        · rw [hflags, hbulkFlags, heditFlags, List.map_inj_left]
          exact fun target htarget => congrArg Option.isSome (hdest target htarget)
  · refine ⟨fun _ h => absurd h hserved, fun _ => ?_⟩
    obtain ⟨htable, hflags⟩ := bulkApply_of_not_served hfam hlength hserved table
    obtain ⟨htable', hflags'⟩ := edits_of_not_served hserved targets table
    exact agrees_of hfam (htable.trans htable'.symm) (hflags.trans hflags'.symm)

/-! ## Rules and caps -/

theorem ruleSlot_ok {surfaces metrics : String} {text : RuleSlotText} {slot : RuleSlot} :
    ruleSlot surfaces metrics text = .ok slot ↔
      ∃ surface, parseSurface text.1 = some surface ∧
        ∃ metric, parseMetric text.2.1 = some metric ∧ (surface, metric, text.2.2) = slot := by
  unfold ruleSlot
  simp only [bind_ok, parseOr_ok, pure_ok]

theorem ruleFamily_lawful : ruleFamily.Lawful where
  subjects := nofun
  slots _ _ := ruleSlot_ok.trans ruleSlot_ok.symm

theorem capFamily_lawful : capFamily.Lawful where
  subjects := nofun
  slots _ _ := parseOr_ok.trans parseOr_ok.symm

theorem agrees_rule_iff (w : Setting) (spec : LimitSpec RuleSlotText) (targets : List SubjectRef)
    (table : LimitTable RateLimitSubject RuleSlot) (h : targets.length ≤ 500) :
    Agrees .apiKeyLineage w.keys (bulkApplyRule w spec) (upsertRule w spec) targets table ↔
      (Served ruleFamily w spec → ∀ target ∈ targets, ¬ Diverges w target) :=
  Family.agrees_iff ruleFamily_lawful h

/--
For rules and for caps: a bulk edit of at most 500 targets does what the single edits do exactly if,
should the request get as far as its targets, none that the caller may edit is an `api_key_lineage`
or the `api_key` of a key there is.
-/
theorem bulk_agrees_iff (w : Setting) (targets : List SubjectRef) (h : targets.length ≤ 500) :
    (∀ spec table,
        Agrees .apiKeyLineage w.keys (bulkApplyRule w spec) (upsertRule w spec) targets table ↔
          (Served ruleFamily w spec → ∀ target ∈ targets, ¬ Diverges w target)) ∧
      ∀ spec table,
        Agrees .apiKeyLineage w.keys (bulkApplyCap w spec) (upsertCap w spec) targets table ↔
          (Served capFamily w spec → ∀ target ∈ targets, ¬ Diverges w target) :=
  ⟨fun spec table => agrees_rule_iff w spec targets table h, fun _ _ => Family.agrees_iff capFamily_lawful h⟩

/-- An administrator with the id 1, user 2, and the key 8 of user 2 that has replaced the key 7. -/
def keyedSetting : Setting :=
  let db : Db :=
    { users := [plainUser 1 "root@example.com", plainUser 2 "dev@example.com"]
      teams := []
      roles := [⟨1, "super_admin", true, allowDocument "FullAccess" (.str "*")⟩]
      assignments := [⟨1, 1, .global⟩]
      members := []
      teamRoles := [] }
  { caller := AuthUser.load db 1
    db := db
    keys := [{ plainKey 8 2 "b" with lineageId := 7, rotatedFromId := some 7 }]
    now := 0
    ids := fun n => 100 + n }

def hourlyRule : LimitSpec RuleSlotText := ⟨("ai_gateway", "requests", 3600), 50, true, none, none⟩

/-- For a user the two agree. -/
theorem bulk_agrees_iff_user :
    [SubjectRef.mk "user" 2].length ≤ 500 ∧
      Agrees .apiKeyLineage keyedSetting.keys (bulkApplyRule keyedSetting hourlyRule)
        (upsertRule keyedSetting hourlyRule) [⟨"user", 2⟩] ⟨[], 0⟩ := by
  refine ⟨by decide, ((bulk_agrees_iff keyedSetting [⟨"user", 2⟩] (by decide)).1 _ _).mpr ?_⟩
  rintro - target htarget ⟨-, hkind⟩
  rw [List.mem_singleton.mp htarget] at hkind
  rcases hkind with h | ⟨h, -⟩
  · exact absurd h (by decide)
  · exact absurd h (by decide)

/-- For a key a single edit succeeds, and a bulk edit does not know the kind. -/
theorem bulk_refuses_api_key :
    ¬ ∀ (w : Setting) (targets : List SubjectRef), targets.length ≤ 500 → ∀ spec table,
      Agrees .apiKeyLineage w.keys (bulkApplyRule w spec) (upsertRule w spec) targets table := by
  intro hall
  have h := hall keyedSetting [⟨"api_key", 8⟩] (by decide) hourlyRule ⟨[], 0⟩
  have hpermitted : (AuthUser.load keyedSetting.db 1).requirePermission "rate_limits:write" =
      .ok () := requirePermission_load "FullAccess" rfl (by decide)
  have hserved : ServedAs ruleFamily keyedSetting hourlyRule (.aiGateway, .requests, 3600)
      (none, none) := ⟨hpermitted, rfl, rfl, rfl, by decide⟩
  have hscope : assertScopeForSubject keyedSetting.caller keyedSetting.db keyedSetting.keys
      "rate_limits:write" "api_key" 8 = .ok () := by
    decide +kernel
  have hsame := (agrees_rule_iff keyedSetting hourlyRule _ _ (by decide)).mp h ⟨_, _, hserved⟩
  exact hsame _ List.mem_cons_self ⟨hscope, Or.inr ⟨rfl, _, List.mem_cons_self, rfl⟩⟩

end ThinkWatch.Limits
