import ThinkWatch.Keys.Interleaving

/-!
# One successor for a rotated key

`rotate_key` loads the row, checks it, and then runs a transaction that inserts a row with the
values it has loaded and marks the old row by its id. The transaction does not look whether the old
row is still live and not rotated, and the column `mcp_account_overrides` is not among those it
inserts.

`rotation_exact_iff`: in a run of interleaved requests every new row is the only successor of a live
row and has its settings if and only if at each transaction of a rotation the row is still live and
not rotated, has the settings that were loaded and has no account overrides (`StillRotatable`).
-/

namespace ThinkWatch.Keys

open Lib Policy Rbac

/-! ## Successors -/

/-- The settings that `rotate` copies. -/
structure SameSettings (k k' : ApiKey) : Prop where
  owner : k.userId = k'.userId
  lineage : k.lineageId = k'.lineageId
  surfaces : k.surfaces = k'.surfaces
  models : k.allowedModels = k'.allowedModels
  mcpTools : k.allowedMcpTools = k'.allowedMcpTools
  expiry : k.expiresAt = k'.expiresAt
  rotationPeriod : k.rotationPeriodDays = k'.rotationPeriodDays
  inactivityTimeout : k.inactivityTimeoutDays = k'.inactivityTimeoutDays
  costCenter : k.costCenter = k'.costCenter

theorem SameSettings.symm {k k' : ApiKey} (h : SameSettings k k') : SameSettings k' k :=
  ⟨h.owner.symm, h.lineage.symm, h.surfaces.symm, h.models.symm, h.mcpTools.symm, h.expiry.symm,
    h.rotationPeriod.symm, h.inactivityTimeout.symm, h.costCenter.symm⟩

/-- The settings a successor should have: those, and the account overrides. -/
def Inherits (k' k : ApiKey) : Prop :=
  SameSettings k' k ∧ k'.mcpAccountOverrides = k.mcpAccountOverrides

/-- No key has two rows that were rotated from it. -/
def OneSuccessor (keys : List ApiKey) : Prop :=
  ∀ k ∈ keys, ∀ k' ∈ keys, ∀ x, k.rotatedFromId = some x → k'.rotatedFromId = some x → k = k'

/-- A row that appears is the first successor of a live row, with the settings of that row. -/
def NewRowsInherit (s s' : Sys) : Prop :=
  ∀ k' ∈ s'.keys, (∀ k ∈ s.keys, k.id ≠ k'.id) →
    ∃ k ∈ s.keys, k'.rotatedFromId = some k.id ∧ k.live = true ∧
      (∀ l ∈ s.keys, l.rotatedFromId ≠ some k.id) ∧ Inherits k' k

/--
The condition on each step: when a rotation that has loaded `old` comes to its transaction, the row
is live, not marked as rotated, has the settings of `old` and no account overrides.
-/
def StillRotatable (s : Sys) : Action → Prop
  | .write i _ _ _ => ∀ old, s.calls i = some (.rotating old) →
      ∃ k ∈ s.keys, k.id = old.id ∧ k.live = true ∧ k.disabledReason ≠ some "rotated" ∧
        SameSettings k old ∧ k.mcpAccountOverrides = noOverrides
  | _ => True

/-! ## The mark of a rotated key -/

/-- The primary key, the foreign key of `rotated_from_id`, and what the mark means on a live row. -/
structure Chained (keys : List ApiKey) : Prop where
  ids : (keys.map (·.id)).Nodup
  origin : ∀ k ∈ keys, ∀ x, k.rotatedFromId = some x → ∃ o ∈ keys, o.id = x
  marked : ∀ k ∈ keys, ∀ o ∈ keys, k.rotatedFromId = some o.id → o.live = true →
    o.disabledReason = some "rotated"
  succeeded : ∀ o ∈ keys, o.live = true → o.disabledReason = some "rotated" →
    ∃ k ∈ keys, k.rotatedFromId = some o.id

/-- A statement that moves no row to another place in a chain, and marks none. -/
structure KeepsChain (f : ApiKey → ApiKey) : Prop where
  id : ∀ k, (f k).id = k.id
  origin : ∀ k, (f k).rotatedFromId = k.rotatedFromId
  live : ∀ k, (f k).live = true → k.live = true
  reason : ∀ k, (f k).live = true → (f k).disabledReason = k.disabledReason

section Statements

variable {keys : List ApiKey} {p : ApiKey → Bool} {f : ApiKey → ApiKey}

theorem keepsChain_apply (patch : ApiKeyPatch) : KeepsChain patch.apply where
  id _ := rfl
  origin _ := rfl
  live _ h := h
  reason _ _ := rfl

theorem keepsChain_revoked (reason : String) (now : Time) : KeepsChain (·.revoked reason now) where
  id _ := rfl
  origin _ := rfl
  live _ h := by cases h
  reason _ h := by cases h

/-- A row that passes the test is changed, and any other stays. -/
theorem KeepsChain.cond (h : KeepsChain f) : KeepsChain fun k => if p k then f k else k where
  id k := by split <;> simp [h.id]
  origin k := by split <;> simp [h.origin]
  live k := by
    split
    next => exact h.live k
    next => exact fun hk => hk
  reason k := by
    split
    next => exact h.reason k
    next => exact fun _ => rfl

theorem Chained.updateWhere (hf : KeepsChain f) (h : Chained keys) :
    Chained (updateWhere p f keys) where
  ids := by
    rw [map_updateWhere hf.id]
    exact h.ids
  origin := by
    intro k hk x hx
    obtain ⟨k₀, hk₀, rfl⟩ := mem_updateWhere.mp hk
    rw [hf.cond.origin] at hx
    obtain ⟨o, ho, hid⟩ := h.origin k₀ hk₀ x hx
    exact ⟨_, mem_updateWhere.mpr ⟨o, ho, rfl⟩, (hf.cond.id o).trans hid⟩
  marked := by
    intro k hk o ho hx hlive
    obtain ⟨k₀, hk₀, rfl⟩ := mem_updateWhere.mp hk
    obtain ⟨o₀, ho₀, rfl⟩ := mem_updateWhere.mp ho
    rw [hf.cond.origin, hf.cond.id] at hx
    rw [hf.cond.reason _ hlive]
    exact h.marked k₀ hk₀ o₀ ho₀ hx (hf.cond.live _ hlive)
  succeeded := by
    intro o ho hlive hreason
    obtain ⟨o₀, ho₀, rfl⟩ := mem_updateWhere.mp ho
    rw [hf.cond.reason _ hlive] at hreason
    obtain ⟨k, hk, hx⟩ := h.succeeded o₀ ho₀ (hf.cond.live _ hlive) hreason
    refine ⟨_, mem_updateWhere.mpr ⟨k, hk, rfl⟩, ?_⟩
    rw [hf.cond.origin, hf.cond.id]
    exact hx

theorem OneSuccessor.updateWhere (hf : ∀ k, (f k).rotatedFromId = k.rotatedFromId)
    (h : OneSuccessor keys) : OneSuccessor (updateWhere p f keys) := by
  have hcond : ∀ k, (if p k then f k else k).rotatedFromId = k.rotatedFromId := by
    intro k
    split
    next => exact hf k
    next => rfl
  intro k hk k' hk' x hx hx'
  obtain ⟨k₀, hk₀, rfl⟩ := mem_updateWhere.mp hk
  obtain ⟨k₁, hk₁, rfl⟩ := mem_updateWhere.mp hk'
  rw [hcond] at hx hx'
  rw [h k₀ hk₀ k₁ hk₁ x hx hx']

end Statements

/-! ## The transaction of a rotation -/

section Rotate

variable {keys : List ApiKey} {old k : ApiKey} {new : Generated} {graceEnds now : Time}

/-- The rows after a rotation: those from before, the old one marked, and the successor. -/
theorem mem_rotate (hfresh : Fresh keys new) (hrow : ∃ k ∈ keys, k.id = old.id) :
    k ∈ rotate keys old new graceEnds now ↔
      (∃ k₀ ∈ keys, k = if k₀.id = old.id then k₀.rotated graceEnds else k₀) ∨
        k = old.successor new now := by
  have hne : ¬ (old.successor new now).id = old.id := by
    obtain ⟨o, ho, hid⟩ := hrow
    intro heq
    exact hfresh.id o ho (hid.trans heq.symm)
  unfold rotate
  simp only [mem_updateWhere, decide_eq_true_eq, List.mem_append, List.mem_singleton]
  constructor
  · rintro ⟨k₀, hk₀ | rfl, hk⟩
    · exact Or.inl ⟨k₀, hk₀, hk⟩
    · rw [if_neg hne] at hk
      exact Or.inr hk
  · rintro (⟨k₀, hk₀, hk⟩ | rfl)
    · exact ⟨k₀, Or.inl hk₀, hk⟩
    · exact ⟨_, Or.inr rfl, by rw [if_neg hne]⟩

/-- The image of a row keeps its id and its place in a chain. -/
theorem rotated_cond (k₀ : ApiKey) :
    (if k₀.id = old.id then k₀.rotated graceEnds else k₀).id = k₀.id ∧
      (if k₀.id = old.id then k₀.rotated graceEnds else k₀).rotatedFromId = k₀.rotatedFromId ∧
      (if k₀.id = old.id then k₀.rotated graceEnds else k₀).live = k₀.live := by
  split
  next => exact ⟨rfl, rfl, rfl⟩
  next => exact ⟨rfl, rfl, rfl⟩

/-- The successor points to the old row, and every other row where it did. -/
theorem pointed_rotate {x : Uuid} (hfresh : Fresh keys new) (hrow : ∃ k ∈ keys, k.id = old.id) :
    (∃ k ∈ rotate keys old new graceEnds now, k.rotatedFromId = some x) ↔
      (∃ k ∈ keys, k.rotatedFromId = some x) ∨ x = old.id := by
  constructor
  · rintro ⟨k, hk, hx⟩
    rcases (mem_rotate hfresh hrow).mp hk with ⟨k₀, hk₀, rfl⟩ | rfl
    · rw [(rotated_cond k₀).2.1] at hx
      exact Or.inl ⟨k₀, hk₀, hx⟩
    · exact Or.inr (Option.some.inj hx).symm
  · rintro (⟨k₀, hk₀, hx⟩ | rfl)
    · exact ⟨_, (mem_rotate hfresh hrow).mpr (Or.inl ⟨k₀, hk₀, rfl⟩),
        (rotated_cond k₀).2.1.trans hx⟩
    · exact ⟨_, (mem_rotate hfresh hrow).mpr (Or.inr rfl), rfl⟩

theorem nodup_rotate (hfresh : Fresh keys new) (h : (keys.map (·.id)).Nodup) :
    ((rotate keys old new graceEnds now).map (·.id)).Nodup := by
  unfold rotate
  rw [map_updateWhere (f := (·.rotated graceEnds)) (fun _ => rfl), List.map_append,
    List.nodup_append]
  refine ⟨h, List.nodup_singleton _, ?_⟩
  intro x hx y hy
  obtain ⟨k, hk, rfl⟩ := List.mem_map.mp hx
  rw [List.mem_singleton.mp hy]
  exact hfresh.id k hk

theorem Chained.rotate (hfresh : Fresh keys new) (hrow : ∃ k ∈ keys, k.id = old.id)
    (h : Chained keys) : Chained (rotate keys old new graceEnds now) where
  ids := nodup_rotate hfresh h.ids
  origin := by
    have hkept : ∀ o ∈ keys, ∃ o' ∈ Keys.rotate keys old new graceEnds now, o'.id = o.id :=
      fun o ho => ⟨_, (mem_rotate hfresh hrow).mpr (Or.inl ⟨o, ho, rfl⟩), (rotated_cond o).1⟩
    intro k hk x hx
    rcases (pointed_rotate hfresh hrow).mp ⟨k, hk, hx⟩ with ⟨k₀, hk₀, hx₀⟩ | rfl
    · obtain ⟨o, ho, rfl⟩ := h.origin k₀ hk₀ x hx₀
      exact hkept o ho
    · obtain ⟨o, ho, hid⟩ := hrow
      rw [← hid]
      exact hkept o ho
  marked := by
    intro k hk o ho hx hlive
    have hpointed := (pointed_rotate hfresh hrow).mp ⟨k, hk, hx⟩
    rcases (mem_rotate hfresh hrow).mp ho with ⟨o₀, ho₀, rfl⟩ | rfl
    · rw [(rotated_cond o₀).1] at hpointed
      rw [(rotated_cond o₀).2.2] at hlive
      split
      next => rfl
      next hother =>
        rcases hpointed with ⟨k₀, hk₀, hx₀⟩ | hold
        · exact h.marked k₀ hk₀ o₀ ho₀ hx₀ hlive
        · exact absurd hold hother
    · -- nothing points to a row that has just been inserted
      rcases hpointed with ⟨k₀, hk₀, hx₀⟩ | hold
      · obtain ⟨o, ho, hid⟩ := h.origin k₀ hk₀ _ hx₀
        exact absurd hid (hfresh.id o ho)
      · obtain ⟨o, ho, hid⟩ := hrow
        exact absurd (hid.trans hold.symm) (hfresh.id o ho)
  succeeded := by
    intro o ho hlive hreason
    rcases (mem_rotate hfresh hrow).mp ho with ⟨o₀, ho₀, rfl⟩ | rfl
    · rw [(rotated_cond o₀).2.2] at hlive
      rw [(rotated_cond o₀).1, pointed_rotate hfresh hrow]
      split at hreason
      next heq => exact Or.inr heq
      next => exact Or.inl (h.succeeded o₀ ho₀ hlive hreason)
    · cases hreason

theorem OneSuccessor.rotate (hfresh : Fresh keys new) (hrow : ∃ k ∈ keys, k.id = old.id)
    (hnone : ∀ k ∈ keys, k.rotatedFromId ≠ some old.id) (h : OneSuccessor keys) :
    OneSuccessor (rotate keys old new graceEnds now) := by
  intro k hk k' hk' x hx hx'
  rcases (mem_rotate hfresh hrow).mp hk with ⟨k₀, hk₀, rfl⟩ | rfl
  · rw [(rotated_cond k₀).2.1] at hx
    rcases (mem_rotate hfresh hrow).mp hk' with ⟨k₁, hk₁, rfl⟩ | rfl
    · rw [(rotated_cond k₁).2.1] at hx'
      rw [h k₀ hk₀ k₁ hk₁ x hx hx']
    · cases hx'
      exact absurd hx (hnone k₀ hk₀)
  · cases hx
    rcases (mem_rotate hfresh hrow).mp hk' with ⟨k₁, hk₁, rfl⟩ | rfl
    · rw [(rotated_cond k₁).2.1] at hx'
      exact absurd hx' (hnone k₁ hk₁)
    · rfl

end Rotate

/-! ## One step -/

section Step

variable {parseUuid : String → Option Uuid} {s s' : Sys} {a : Action} {keys keys' : List ApiKey}

theorem Chained.tableStep (h : Chained keys) (hstep : TableStep keys keys') : Chained keys' := by
  cases hstep with
  | keep => exact h
  | update id patch => exact h.updateWhere (keepsChain_apply patch)
  | rotate graceEnds now hfresh hrow => exact h.rotate hfresh hrow
  | revoke reason id now => exact h.updateWhere (keepsChain_revoked reason now)

theorem not_new_of_updateWhere {p : ApiKey → Bool} {f : ApiKey → ApiKey}
    (hf : ∀ k, (f k).id = k.id) {k' : ApiKey} (hk' : k' ∈ updateWhere p f keys) :
    ∃ k ∈ keys, k.id = k'.id := by
  have hid : k'.id ∈ (updateWhere p f keys).map (·.id) := List.mem_map_of_mem hk'
  rw [map_updateWhere hf] at hid
  exact List.mem_map.mp hid

/-- A step that inserts nothing and is no rotation meets both sides. -/
theorem newRowsInherit_of_kept (h : ∀ k' ∈ s'.keys, ∃ k ∈ s.keys, k.id = k'.id) :
    NewRowsInherit s s' := by
  intro k' hk' hnew
  obtain ⟨k, hk, hid⟩ := h k' hk'
  exact absurd hid (hnew k hk)

theorem stillRotatable_of_other {i : Nat} {new : Generated} {graceEnds now : Time} {p : Phase}
    (hp : s.calls i = some p) (hother : ∀ old, p ≠ .rotating old) :
    StillRotatable s (.write i new graceEnds now) := by
  intro old hold
  rw [hp] at hold
  exact (hother old (Option.some.inj hold)).elim

/-- The transaction of a rotation. -/
theorem newRowsInherit_rotate_iff (h : Chained s.keys) {i : Nat} {old : ApiKey} {new : Generated}
    {graceEnds now : Time} (hold : s.calls i = some (.rotating old)) (hfresh : Fresh s.keys new)
    (hrow : ∃ k ∈ s.keys, k.id = old.id)
    (hkeys : s'.keys = rotate s.keys old new graceEnds now) :
    NewRowsInherit s s' ↔ StillRotatable s (.write i new graceEnds now) := by
  constructor
  · intro hinherit old' hold'
    rw [hold] at hold'
    cases hold'
    have hmem : old.successor new now ∈ s'.keys := by
      rw [hkeys]
      exact (mem_rotate hfresh hrow).mpr (Or.inr rfl)
    obtain ⟨k, hk, horigin, hlive, hnone, hsame, hoverrides⟩ := hinherit _ hmem hfresh.id
    have hid : k.id = old.id := (Option.some.inj horigin).symm
    have hsettings : SameSettings old k := ⟨hsame.owner, hsame.lineage, hsame.surfaces,
      hsame.models, hsame.mcpTools, hsame.expiry, hsame.rotationPeriod, hsame.inactivityTimeout,
      hsame.costCenter⟩
    refine ⟨k, hk, hid, hlive, ?_, hsettings.symm, hoverrides.symm⟩
    intro hreason
    obtain ⟨l, hl, hx⟩ := h.succeeded k hk hlive hreason
    exact hnone l hl hx
  · intro hstill k' hk' hnew
    obtain ⟨k, hk, hid, hlive, hreason, hsame, hoverrides⟩ := hstill old hold
    rw [hkeys] at hk'
    rcases (mem_rotate hfresh hrow).mp hk' with ⟨k₀, hk₀, rfl⟩ | rfl
    · exact absurd (rotated_cond k₀).1.symm (hnew k₀ hk₀)
    · have hsettings : SameSettings (old.successor new now) k := ⟨hsame.owner.symm,
        hsame.lineage.symm, hsame.surfaces.symm, hsame.models.symm, hsame.mcpTools.symm,
        hsame.expiry.symm, hsame.rotationPeriod.symm, hsame.inactivityTimeout.symm,
        hsame.costCenter.symm⟩
      refine ⟨k, hk, congrArg some hid.symm, hlive, ?_, hsettings, hoverrides.symm⟩
      intro l hl hx
      exact hreason (h.marked l hl k hk hx hlive)

theorem newRowsInherit_iff (h : Chained s.keys) (hstep : Step parseUuid s a s') :
    NewRowsInherit s s' ↔ StillRotatable s a := by
  have hkept : ∀ {t : Sys}, t.keys = s.keys → NewRowsInherit s t := by
    intro t ht
    refine newRowsInherit_of_kept fun k hk => ?_
    rw [ht] at hk
    exact ⟨k, hk, rfl⟩
  cases hstep with
  | authorize free ok => exact iff_of_true (hkept rfl) trivial
  | loadUpdate at_ ok => exact iff_of_true (hkept rfl) trivial
  | loadRotate at_ ok => exact iff_of_true (hkept rfl) trivial
  | stop at_ => exact iff_of_true (hkept rfl) trivial
  | update at_ ok =>
    refine iff_of_true (newRowsInherit_of_kept ?_) (stillRotatable_of_other at_ fun _ => Phase.noConfusion)
    rw [Sys.commit_keys, updateKeyWrite_ok ok]
    exact fun k' hk' => not_new_of_updateWhere (keepsChain_apply _).id hk'
  | revoke at_ target ok =>
    refine iff_of_true (newRowsInherit_of_kept ?_) (stillRotatable_of_other at_ fun _ => Phase.noConfusion)
    rw [Sys.commit_keys, revokeLive_ok ok]
    exact fun k' hk' => not_new_of_updateWhere (keepsChain_revoked _ _).id hk'
  | rotate at_ ok =>
    obtain ⟨hfresh, hrow, hkeys⟩ := rotateKeyWrite_ok ok
    exact newRowsInherit_rotate_iff h at_ hfresh hrow hkeys

/-- A table in which new rows are first successors keeps one successor for each key. -/
theorem OneSuccessor.step (h : OneSuccessor s.keys) (hstep : Step parseUuid s a s')
    (hinherit : NewRowsInherit s s') : OneSuccessor s'.keys := by
  cases hstep with
  | authorize free ok => exact h
  | loadUpdate at_ ok => exact h
  | loadRotate at_ ok => exact h
  | stop at_ => exact h
  | update at_ ok =>
    rw [Sys.commit_keys, updateKeyWrite_ok ok]
    exact h.updateWhere (keepsChain_apply _).origin
  | revoke at_ target ok =>
    rw [Sys.commit_keys, revokeLive_ok ok]
    exact h.updateWhere (keepsChain_revoked _ _).origin
  | @rotate i new graceEnds now old keys at_ ok =>
    obtain ⟨hfresh, hrow, rfl⟩ := rotateKeyWrite_ok ok
    have hmem : old.successor new now ∈ Keys.rotate s.keys old new graceEnds now :=
      (mem_rotate hfresh hrow).mpr (Or.inr rfl)
    obtain ⟨k, hk, horigin, -, hnone, -⟩ := hinherit _ hmem hfresh.id
    have hid : old.id = k.id := Option.some.inj horigin
    exact h.rotate hfresh hrow (hid ▸ hnone)

end Step

/-! ## Main result -/

/--
From a table in which the marks of rotated keys are right and no key has two successors: every row
that appears in the run is the first successor of a live row with its settings, and no key ends with
two successors, if and only if each rotation finds its row as it has loaded it.
-/
theorem rotation_exact_iff {parseUuid : String → Option Uuid} {s₀ s : Sys} {as : List Action}
    (hchained : Chained s₀.keys) (hone : OneSuccessor s₀.keys) :
    Steps (fun s a s' => NewRowsInherit s s' ∧ Step parseUuid s a s') s₀ as s ∧
        OneSuccessor s.keys ↔
      Steps (fun s a s' => StillRotatable s a ∧ Step parseUuid s a s') s₀ as s := by
  constructor
  · rintro ⟨hrun, -⟩
    refine hrun.under (I := fun s => Chained s.keys) ?_ hchained
    rintro s a s' hs ⟨hinherit, hstep⟩
    exact ⟨hs.tableStep hstep.table, (newRowsInherit_iff hs hstep).mp hinherit, hstep⟩
  · intro hrun
    have hinherits : Steps (fun s a s' => NewRowsInherit s s' ∧ Step parseUuid s a s') s₀ as s := by
      refine hrun.under (I := fun s => Chained s.keys) ?_ hchained
      rintro s a s' hs ⟨hstill, hstep⟩
      exact ⟨hs.tableStep hstep.table, (newRowsInherit_iff hs hstep).mpr hstill, hstep⟩
    refine ⟨hinherits, hinherits.invariant (I := fun s => OneSuccessor s.keys) ?_ hone⟩
    rintro s a s' hs ⟨hinherit, hstep⟩
    exact hs.step hstep hinherit

/-! ## Two runs -/

/-- In a table of keys that were never rotated the marks are right. -/
theorem chained_of_fresh {keys : List ApiKey} (hids : (keys.map (·.id)).Nodup)
    (hfresh : ∀ k ∈ keys, k.rotatedFromId = none ∧ k.disabledReason = none) :
    Chained keys ∧ OneSuccessor keys := by
  have hnone : ∀ k ∈ keys, ∀ x, k.rotatedFromId ≠ some x := by
    intro k hk x hx
    rw [(hfresh k hk).1] at hx
    cases hx
  refine ⟨⟨hids, ?_, ?_, ?_⟩, ?_⟩
  · intro k hk x hx
    exact absurd hx (hnone k hk x)
  · intro k hk o ho hx
    exact absurd hx (hnone k hk o.id)
  · intro o ho hlive hreason
    rw [(hfresh o ho).2] at hreason
    cases hreason
  · intro k hk k' hk' x hx
    exact absurd hx (hnone k hk x)

def twoKeys : List ApiKey := oneKey ++ [plainKey 20 1 "h20"]

/--
Two requests rotate one key each, and both have loaded their row before either writes. A third one
for the first key is refused.
-/
def rotationsOfTwo : List Action :=
  [.authorize 0 noDb keyOwner (.rotate 10), .authorize 1 noDb keyOwner (.rotate 20),
    .authorize 2 noDb keyOwner (.rotate 10), .load 0 noDb [] 0, .load 1 noDb [] 0,
    .write 1 ⟨21, "tw-00002", "h21"⟩ 86400000000 0,
    .write 0 ⟨11, "tw-00001", "h11"⟩ 86400000000 0, .stop 2]

theorem rotation_exact_once : ∃ s,
    (Steps (fun s a s' => NewRowsInherit s s' ∧ Step (fun _ => none) s a s') (.start twoKeys)
      rotationsOfTwo s ∧ OneSuccessor s.keys) ∧ ∃ e, rotateKeyLoad s.keys 10 = .error e := by
  have hstart : Chained twoKeys ∧ OneSuccessor twoKeys := chained_of_fresh (by decide) (by decide)
  suffices h : ∃ s, Steps (fun s a s' => StillRotatable s a ∧ Step (fun _ => none) s a s')
      (.start twoKeys) rotationsOfTwo s ∧ ∃ e, rotateKeyLoad s.keys 10 = .error e by
    obtain ⟨s, hrun, hrefused⟩ := h
    exact ⟨s, (rotation_exact_iff hstart.1 hstart.2).mpr hrun, hrefused⟩
  refine ⟨_, .cons ⟨trivial, .authorize rfl rfl⟩ (.cons ⟨trivial, .authorize rfl rfl⟩
    (.cons ⟨trivial, .authorize rfl rfl⟩ (.cons ⟨trivial, .loadRotate rfl rfl⟩
      (.cons ⟨trivial, .loadRotate rfl rfl⟩ (.cons ⟨?_, .rotate rfl rfl⟩
        (.cons ⟨?_, .rotate rfl rfl⟩ (.single ⟨trivial, .stop rfl⟩))))))), _, rfl⟩
  · intro old hold
    cases hold
    exact ⟨plainKey 20 1 "h20", List.mem_cons_of_mem _ List.mem_cons_self, rfl, rfl, by decide,
      ⟨rfl, rfl, rfl, rfl, rfl, rfl, rfl, rfl, rfl⟩, rfl⟩
  · intro old hold
    cases hold
    exact ⟨plainKey 10 1 "h10", List.mem_cons_self, rfl, rfl, by decide,
      ⟨rfl, rfl, rfl, rfl, rfl, rfl, rfl, rfl, rfl⟩, rfl⟩

/-- Two requests load the key before either rotates it, and the key gets two successors. -/
theorem rotated_twice :
    ¬ ∀ (parseUuid : String → Option Uuid) (s₀ s : Sys) (as : List Action),
      Chained s₀.keys → OneSuccessor s₀.keys → Steps (Step parseUuid) s₀ as s →
        Steps (fun s a s' => NewRowsInherit s s' ∧ Step parseUuid s a s') s₀ as s ∧
          OneSuccessor s.keys := by
  intro hall
  have hstart : Chained oneKey ∧ OneSuccessor oneKey := chained_of_fresh (by decide) (by decide)
  have hone := (hall (fun _ => none) (.start oneKey) _
    [.authorize 0 noDb keyOwner (.rotate 10), .authorize 1 noDb keyOwner (.rotate 10),
      .load 0 noDb [] 0, .load 1 noDb [] 0, .write 0 ⟨11, "tw-00001", "h11"⟩ 86400000000 0,
      .write 1 ⟨12, "tw-00002", "h12"⟩ 86400000000 0]
    hstart.1 hstart.2
    (.cons (.authorize rfl rfl) (.cons (.authorize rfl rfl) (.cons (.loadRotate rfl rfl)
      (.cons (.loadRotate rfl rfl) (.cons (.rotate rfl rfl) (.single (.rotate rfl rfl)))))))).2
  have heq := hone ((plainKey 10 1 "h10").successor ⟨11, "tw-00001", "h11"⟩ 0)
    (List.mem_cons_of_mem _ List.mem_cons_self)
    ((plainKey 10 1 "h10").successor ⟨12, "tw-00002", "h12"⟩ 0)
    (List.mem_cons_of_mem _ (List.mem_cons_of_mem _ List.mem_cons_self)) 10 rfl rfl
  exact absurd (congrArg ApiKey.id heq) (by decide)

end ThinkWatch.Keys
