import ThinkWatch.Mcp.Accounts

/-!
# A user with an account has a default account

A call without an account override goes upstream with the default account, and is refused if there
is none. `upsert_user_credential` makes the first account the default, and `delete_user_credential`
promotes another one. That leaves a default as long as the operations that take accounts away run
alone, and as a dead grant that is dropped is not the default of several accounts (`Fits`): then at
every moment a user with an account has a default one, and `fetch_row` finds it (`connected`).
-/

namespace ThinkWatch.Mcp.Accounts

open Lib
open Lib.RowLocks

variable {β : Type}

/-! ## The runs -/

def Op.SparesDefault (rows : List (String × Account β)) : Op β → Prop
  | .drop label => isMarked Account.isDefault rows label → ∀ e ∈ rows, e.1 = label
  | _ => True

instance (rows : List (String × Account β)) : (op : Op β) → Decidable (op.SparesDefault rows)
  | .drop _ => inferInstanceAs (Decidable (_ → ∀ e ∈ rows, _))
  | .upsert .. | .delete _ | .setDefault _ | .refresh .. | .wipe => isTrue trivial

/-- Who takes accounts away starts when nobody runs, and nobody starts before the end. -/
def Fits (s : State β) : Action β → Prop
  | .begin _ op =>
    (∀ t ∈ s.running, op.removes = false ∧ t.state.op.removes = false) ∧ op.SparesDefault s.rows
  | _ => True

instance (s : State β) : (a : Action β) → Decidable (Fits s a)
  | .begin .. => inferInstanceAs (Decidable (_ ∧ _))
  | .move .. | .abort _ => isTrue trivial

/-! ## The rows of a transaction -/

/-- There is a default account, if any. -/
def Filled (rows : List (String × Account β)) : Prop :=
  rows = [] ∨ ∃ k, isMarked Account.isDefault rows k

/-- Takes no account away. -/
def Adds (writes : List (String × Option (Account β))) : Prop := ∀ w ∈ writes, w.2.isSome = true

/-- Takes the mark from no account. -/
def Spares (rows : List (String × Account β)) (writes : List (String × Option (Account β))) :
    Prop :=
  ∀ k ∈ writes.map Prod.fst, isMarked Account.isDefault rows k →
    isMarked Account.isDefault (overlay writes rows) k

/-- What a transaction knows at its stage. -/
def Ready (rows : List (String × Account β)) (t : Transaction β) : Prop :=
  match t.state.op, t.state.stage with
  | .upsert .., .counted newDefault => t.writes = [] ∧ (newDefault = true ↔ rows = [])
  | .upsert .., .done =>
    Adds t.writes ∧ (t.Marks Account.isDefault rows ∨ rows ≠ [] ∧ Spares rows t.writes)
  | .setDefault _, .begun => t.writes = []
  | .setDefault _, .done => Adds t.writes ∧ rows ≠ [] ∧ t.Marks Account.isDefault rows
  | .setDefault label, _ => Adds t.writes ∧ (rows.lookup label).isSome = true
  | .refresh .., .done => t.writes = [] ∨ Adds t.writes ∧ rows ≠ [] ∧ Spares rows t.writes
  | .delete _, .promoting => True
  | .delete _, .promoted label => ((t.view rows).lookup label).isSome = true
  | .drop label, .begun => t.writes = [] ∧ (Op.drop label : Op β).SparesDefault rows
  | .wipe, .wiping labels => ∀ e ∈ t.view rows, e.1 ∈ labels
  | .delete _, .done | .drop _, .done | .wipe, .done => Filled (t.view rows)
  | _, _ => t.writes = []

variable {s s' : State β} {t u : Transaction β} {rows : List (String × Account β)} {k : String}
  {a : Option (Account β)} {writes : List (String × Option (Account β))}

theorem lookup_isSome_of_mem {e : String × Account β} (h : e ∈ rows) :
    (rows.lookup e.1).isSome = true := by
  rw [Option.isSome_iff_ne_none]
  intro hnone
  have hne := List.lookup_eq_none_iff.mp hnone e h
  simp at hne

theorem ne_nil_of_lookup (h : (rows.lookup k).isSome = true) : rows ≠ [] := by
  rintro rfl
  simp at h

/-- An account that is there stays there. -/
theorem Adds.lookup (h : Adds writes) (hk : (rows.lookup k).isSome = true) :
    ((overlay writes rows).lookup k).isSome = true := by
  induction writes using List.reverseRecOn with
  | nil => exact hk
  | append_singleton writes w ih =>
    obtain ⟨k', v⟩ := w
    rw [overlay_concat]
    by_cases heq : k = k'
    · subst heq
      rw [lookup_setRow_self]
      exact h (k, v) (by simp)
    · rw [lookup_setRow_ne heq]
      exact ih fun w hw => h w (by simp [hw])

theorem Adds.ne_nil (h : Adds writes) (hrows : rows ≠ []) : overlay writes rows ≠ [] := by
  obtain ⟨e, he⟩ := List.exists_mem_of_ne_nil rows hrows
  exact ne_nil_of_lookup (h.lookup (lookup_isSome_of_mem he))

theorem Adds.concat (h : Adds writes) (b : Account β) : Adds (writes ++ [(k, some b)]) := by
  intro w hw
  rcases List.mem_append.mp hw with hw | hw
  · exact h w hw
  · obtain rfl := List.mem_singleton.mp hw
    rfl

theorem adds_single (k : String) (b : Account β) : Adds [(k, some b)] := by
  simp [Adds]

theorem spares_single (h : isMarked Account.isDefault rows k → a.any Account.isDefault = true) :
    Spares rows [(k, a)] := by
  intro k' hk' hmarked
  obtain rfl : k' = k := by simpa using hk'
  show ((setRow rows k' a).lookup k').any Account.isDefault = true
  rw [lookup_setRow_self]
  exact h hmarked

theorem marks_concat {id : Nat} {x : Progress β} (h : a.any Account.isDefault = true) :
    Tx.Marks Account.isDefault ⟨id, writes ++ [(k, a)], x⟩ rows := by
  refine ⟨k, by simp [Tx.keys], ?_⟩
  show ((overlay (writes ++ [(k, a)]) rows).lookup k).any Account.isDefault = true
  rw [overlay_concat, lookup_setRow_self]
  exact h

theorem Filled.of_marks (h : t.Marks Account.isDefault rows) : Filled (t.view rows) := by
  obtain ⟨k, -, hk⟩ := h
  exact Or.inr ⟨k, hk⟩

theorem Filled.of_spares (h : Filled rows) (hrows : rows ≠ []) (hspares : Spares rows t.writes) :
    Filled (t.view rows) := by
  obtain ⟨k, hk⟩ := h.resolve_left hrows
  by_cases hmem : k ∈ t.keys
  · exact Or.inr ⟨k, hspares k hmem hk⟩
  · exact Or.inr ⟨k, (isMarked_congr (view_lookup_of_not_mem hmem rows)).mpr hk⟩

/-! ## One statement -/

/-- The transaction is ready again, or has failed. -/
def Goes (s : State β) (t : Transaction β) (s' : State β) : Prop :=
  s' = s.abort t.id ∨
    ∃ t', s' = s.replace t' ∧ t'.id = t.id ∧ t'.state.op = t.state.op ∧ Ready s.rows t' ∧
      (t'.state.hasMutex = true → t.state.hasMutex = false →
        ∀ u ∈ s.running, u.id ≠ t.id → u.state.hasMutex = false)

section Goes

variable {id : Nat} {op : Op β} {stage stage' : Stage}

theorem goes_goTo
    (h : Ready s.rows ⟨id, writes, ⟨op, stage'⟩⟩)
    (hmutex : Progress.hasMutex ⟨op, stage'⟩ = true → Progress.hasMutex ⟨op, stage⟩ = true) :
    Goes s ⟨id, writes, ⟨op, stage⟩⟩ (goTo s ⟨id, writes, ⟨op, stage⟩⟩ stage') := by
  refine Or.inr ⟨_, rfl, rfl, rfl, h, fun hnew hold => ?_⟩
  exact absurd (hmutex hnew) (by simp [hold])

theorem goes_write
    (hwrite : write s ⟨id, writes, ⟨op, stage⟩⟩ k a stage' = some s')
    (h : Ready s.rows ⟨id, writes ++ [(k, a)], ⟨op, stage'⟩⟩)
    (hmutex : Progress.hasMutex ⟨op, stage'⟩ = true → Progress.hasMutex ⟨op, stage⟩ = true) :
    Goes s ⟨id, writes, ⟨op, stage⟩⟩ s' := by
  unfold write RowLocks.write at hwrite
  split at hwrite
  · cases hwrite
  · split at hwrite
    · exact Or.inl (Option.some.inj hwrite).symm
    · refine Or.inr ⟨_, (Option.some.inj hwrite).symm, rfl, rfl, h, fun hnew hold => ?_⟩
      exact absurd (hmutex hnew) (by simp [hold])

theorem goes_upsert {label : String} {credential : Credential β} {now : Int}
    (hr : Ready s.rows ⟨id, writes, ⟨.upsert label credential now, stage⟩⟩)
    (h : upsertUserCredential s ⟨id, writes, ⟨.upsert label credential now, stage⟩⟩ label credential
      now stage = some s') :
    Goes s ⟨id, writes, ⟨.upsert label credential now, stage⟩⟩ s' := by
  unfold upsertUserCredential at h
  split at h
  · split at h
    · cases h
    next hfree =>
      obtain rfl := Option.some.inj h
      refine Or.inr ⟨_, rfl, rfl, rfl, hr, fun _ _ u hu hne => ?_⟩
      by_contra hmutex
      exact hfree ⟨u, hu, hne, by simpa using hmutex⟩
  · obtain rfl := Option.some.inj h
    have hnil : writes = [] := hr
    subst hnil
    exact goes_goTo ⟨rfl, List.isEmpty_iff⟩ fun _ => rfl
  next newDefault =>
    obtain ⟨hnil, hdefault⟩ : writes = [] ∧ (newDefault = true ↔ s.rows = []) := hr
    subst hnil
    split at h
    next b hb =>
      refine goes_write h ⟨adds_single _ _, Or.inr ⟨?_, ?_⟩⟩
        fun _ => rfl
      · exact ne_nil_of_lookup (Option.isSome_iff_exists.mpr ⟨b, hb⟩)
      · -- only the credential changes
        refine spares_single fun hmarked => ?_
        obtain ⟨b', hb', hdef⟩ := isMarked_iff.mp hmarked
        obtain rfl := Option.some.inj (hb.symm.trans hb')
        exact hdef
    next hnone =>
      refine goes_write h ⟨adds_single _ _, ?_⟩ fun _ => rfl
      cases newDefault with
      | true => exact Or.inl (marks_concat rfl)
      | false =>
        refine Or.inr ⟨fun hrows => by simpa using hdefault.mpr hrows, ?_⟩
        refine spares_single fun hmarked => ?_
        obtain ⟨b, hb, -⟩ := isMarked_iff.mp hmarked
        rw [show s.rows.lookup label = none from hnone] at hb
        cases hb
  · cases h

theorem goes_setDefault {label : String}
    (hr : Ready s.rows ⟨id, writes, ⟨.setDefault label, stage⟩⟩)
    (h : setDefaultUserCredential s ⟨id, writes, ⟨.setDefault label, stage⟩⟩ label stage = some s') :
    Goes s ⟨id, writes, ⟨.setDefault label, stage⟩⟩ s' := by
  unfold setDefaultUserCredential at h
  split at h
  · have hnil : writes = [] := hr
    subst hnil
    split at h
    next b hb =>
      obtain rfl := Option.some.inj h
      exact goes_goTo ⟨nofun, Option.isSome_iff_exists.mpr ⟨b, hb⟩⟩
        (by simp [Progress.hasMutex])
    · exact Or.inl (Option.some.inj h).symm
  · obtain rfl := Option.some.inj h
    exact goes_goTo hr (by simp [Progress.hasMutex])
  · obtain rfl := Option.some.inj h
    exact goes_goTo hr (by simp [Progress.hasMutex])
  · obtain ⟨hadds, hlabel⟩ := hr
    split at h
    · split at h
      · exact goes_write h ⟨hadds.concat _, hlabel⟩ (by simp [Progress.hasMutex])
      · obtain rfl := Option.some.inj h
        exact goes_goTo ⟨hadds, hlabel⟩ (by simp [Progress.hasMutex])
    · obtain rfl := Option.some.inj h
      exact goes_goTo ⟨hadds, hlabel⟩ (by simp [Progress.hasMutex])
  · obtain ⟨hadds, hlabel⟩ := hr
    split at h
    · refine goes_write h ⟨hadds.concat _, ne_nil_of_lookup hlabel, ?_⟩
        (by simp [Progress.hasMutex])
      exact marks_concat rfl
    next hnone =>
      have hsome := hadds.lookup hlabel
      rw [show (overlay writes s.rows).lookup label = none from hnone] at hsome
      cases hsome
  · cases h

theorem goes_refresh {label : String} {access : β} {refresh : Option β} {expiresAt : Option Int}
    (hr : Ready s.rows ⟨id, writes, ⟨.refresh label access refresh expiresAt, stage⟩⟩)
    (h : writeRefreshedRow s ⟨id, writes, ⟨.refresh label access refresh expiresAt, stage⟩⟩ label
      access refresh expiresAt stage = some s') :
    Goes s ⟨id, writes, ⟨.refresh label access refresh expiresAt, stage⟩⟩ s' := by
  unfold writeRefreshedRow at h
  split at h
  · have hnil : writes = [] := hr
    subst hnil
    split at h
    next b hb =>
      refine goes_write h (Or.inr ⟨adds_single _ _, ?_, ?_⟩)
        (by simp [Progress.hasMutex])
      · exact ne_nil_of_lookup (Option.isSome_iff_exists.mpr ⟨b, hb⟩)
      · refine spares_single fun hmarked => ?_
        obtain ⟨b', hb', hdef⟩ := isMarked_iff.mp hmarked
        obtain rfl := Option.some.inj (hb.symm.trans hb')
        exact hdef
    · obtain rfl := Option.some.inj h
      exact goes_goTo (Or.inl rfl) (by simp [Progress.hasMutex])
  · cases h

/-- One account less. -/
theorem Filled.without (h : Filled rows)
    (hk : isMarked Account.isDefault rows k → ∀ e ∈ rows, e.1 = k) :
    Filled (setRow rows k none) := by
  rcases h with rfl | ⟨k', hk'⟩
  · exact Or.inl rfl
  · by_cases heq : k' = k
    · refine Or.inl (List.filter_eq_nil_iff.mpr fun e he => ?_)
      simpa using hk (heq ▸ hk') e he
    · exact Or.inr ⟨k', (isMarked_congr (lookup_setRow_ne heq rows none)).mpr hk'⟩

theorem goes_delete {label pick : String} (hfilled : Filled s.rows)
    (hr : Ready s.rows ⟨id, writes, ⟨.delete label, stage⟩⟩)
    (h : deleteUserCredential s ⟨id, writes, ⟨.delete label, stage⟩⟩ label pick stage = some s') :
    Goes s ⟨id, writes, ⟨.delete label, stage⟩⟩ s' := by
  unfold deleteUserCredential at h
  split at h
  · have hnil : writes = [] := hr
    subst hnil
    split at h
    next b hb =>
      refine goes_write h ?_ (by simp [Progress.hasMutex])
      split
      · trivial
      next hdefault =>
        refine hfilled.without fun hmarked => ?_
        obtain ⟨b', hb', hdef⟩ := isMarked_iff.mp hmarked
        obtain rfl := Option.some.inj (hb.symm.trans hb')
        exact absurd hdef hdefault
    · obtain rfl := Option.some.inj h
      exact goes_goTo hfilled (by simp [Progress.hasMutex])
  · split at h
    next b hb =>
      split at h
      · obtain rfl := Option.some.inj h
        exact goes_goTo (Option.isSome_iff_exists.mpr ⟨b, hb⟩) (by simp [Progress.hasMutex])
      · cases h
    · split at h
      next hempty =>
        obtain rfl := Option.some.inj h
        exact goes_goTo (Or.inl (List.isEmpty_iff.mp hempty)) (by simp [Progress.hasMutex])
      · cases h
  · split at h
    · exact goes_write h (Filled.of_marks (marks_concat rfl)) (by simp [Progress.hasMutex])
    next newest _ hnone =>
      have hsome : ((Tx.view _ s.rows).lookup newest).isSome = true := hr
      rw [hnone] at hsome
      cases hsome
  · cases h

theorem goes_drop {label : String} (hfilled : Filled s.rows)
    (hr : Ready s.rows ⟨id, writes, ⟨.drop label, stage⟩⟩)
    (h : deleteRow s ⟨id, writes, ⟨.drop label, stage⟩⟩ label stage = some s') :
    Goes s ⟨id, writes, ⟨.drop label, stage⟩⟩ s' := by
  unfold deleteRow at h
  split at h
  · obtain ⟨hnil, hspares⟩ : writes = [] ∧ (Op.drop label : Op β).SparesDefault s.rows := hr
    subst hnil
    split at h
    · exact goes_write h (hfilled.without hspares) (by simp [Progress.hasMutex])
    · obtain rfl := Option.some.inj h
      exact goes_goTo hfilled (by simp [Progress.hasMutex])
  · cases h

theorem goes_wipe (hr : Ready s.rows ⟨id, writes, ⟨.wipe, stage⟩⟩)
    (h : deleteRows s ⟨id, writes, ⟨.wipe, stage⟩⟩ stage = some s') :
    Goes s ⟨id, writes, ⟨.wipe, stage⟩⟩ s' := by
  unfold deleteRows at h
  split at h
  · obtain rfl := Option.some.inj h
    exact goes_goTo (fun e he => List.mem_map_of_mem he) (by simp [Progress.hasMutex])
  · obtain rfl := Option.some.inj h
    refine goes_goTo (Or.inl (List.eq_nil_iff_forall_not_mem.mpr fun e he => ?_))
      (by simp [Progress.hasMutex])
    exact List.not_mem_nil (hr e he)
  next label labels =>
    have hleft : ∀ e ∈ overlay writes s.rows, e.1 ∈ label :: labels := hr
    split at h
    · refine goes_write h (fun e he => ?_) (by simp [Progress.hasMutex])
      change e ∈ overlay (writes ++ [(label, none)]) s.rows at he
      rw [overlay_concat] at he
      obtain ⟨he, hne⟩ := List.mem_filter.mp he
      exact (List.mem_cons.mp (hleft e he)).resolve_left (of_decide_eq_true hne)
    next hnone =>
      obtain rfl := Option.some.inj h
      refine goes_goTo (fun e he => ?_) (by simp [Progress.hasMutex])
      refine (List.mem_cons.mp (hleft e he)).resolve_left fun heq => ?_
      have hsome : ((overlay writes s.rows).lookup e.1).isSome = true := lookup_isSome_of_mem he
      rw [heq, show (overlay writes s.rows).lookup label = none from hnone] at hsome
      cases hsome
  · cases h

theorem goes_of_statement {pick : String} (hfilled : Filled s.rows) (hr : Ready s.rows t)
    (h : statement s t pick = some s') : Goes s t s' := by
  obtain ⟨id, writes, op, stage⟩ := t
  cases op with
  | upsert label credential now => exact goes_upsert hr h
  | delete label => exact goes_delete hfilled hr h
  | setDefault label => exact goes_setDefault hr h
  | drop label => exact goes_drop hfilled hr h
  | refresh label access refresh expiresAt => exact goes_refresh hr h
  | wipe => exact goes_wipe hr h

end Goes

/-! ## A commit -/

theorem Ready.filled (hr : Ready rows t) (hdone : t.state.stage = .done) (hfilled : Filled rows) :
    Filled (t.view rows) := by
  obtain ⟨id, writes, op, stage⟩ := t
  obtain rfl : stage = .done := hdone
  cases op with
  | upsert =>
    obtain ⟨-, hmarks | ⟨hrows, hspares⟩⟩ := hr
    · exact .of_marks hmarks
    · exact hfilled.of_spares hrows hspares
  | setDefault =>
    obtain ⟨-, -, hmarks⟩ := hr
    exact .of_marks hmarks
  | refresh =>
    rcases hr with hnil | ⟨-, hrows, hspares⟩
    · obtain rfl : writes = [] := hnil
      exact hfilled
    · exact hfilled.of_spares hrows hspares
  | delete => exact hr
  | drop => exact hr
  | wipe => exact hr

/-- What the others rely on when one who takes nothing away commits. -/
theorem Ready.grows (hr : Ready rows t) (hdone : t.state.stage = .done)
    (hadds : t.state.op.removes = false) :
    Adds t.writes ∧ (t.state.hasMutex = false → (t.view rows = [] ↔ rows = [])) := by
  have hiff (h : Adds t.writes) (hrows : rows ≠ []) : t.view rows = [] ↔ rows = [] :=
    iff_of_false (h.ne_nil hrows) hrows
  obtain ⟨id, writes, op, stage⟩ := t
  obtain rfl : stage = .done := hdone
  cases op with
  | upsert => exact ⟨hr.1, nofun⟩
  | setDefault => exact ⟨hr.1, fun _ => hiff hr.1 hr.2.1⟩
  | refresh =>
    rcases hr with hnil | ⟨hadds, hrows, -⟩
    · obtain rfl : writes = [] := hnil
      exact ⟨nofun, fun _ => Iff.rfl⟩
    · exact ⟨hadds, fun _ => hiff hadds hrows⟩
  | delete => cases hadds
  | drop => cases hadds
  | wipe => cases hadds

theorem marks_commit (h : u.Marks Account.isDefault rows) :
    u.Marks Account.isDefault (t.view rows) := by
  obtain ⟨k, hk, hm⟩ := h
  exact ⟨k, hk, (isMarked_congr (lookup_overlay_of_mem hk _ _)).mpr hm⟩

theorem spares_commit (hlocks : ∀ k ∈ u.keys, k ∉ t.keys) (h : Spares rows u.writes) :
    Spares (t.view rows) u.writes := by
  intro k hk hm
  refine (isMarked_congr (lookup_overlay_of_mem hk _ _)).mpr (h k hk ?_)
  exact (isMarked_congr (view_lookup_of_not_mem (hlocks k hk) rows)).mp hm

/-- A commit takes nothing from what another transaction knows. -/
theorem Ready.commit (hr : Ready rows u) (ht : Ready rows t) (hdone : t.state.stage = .done)
    (htadds : t.state.op.removes = false) (huadds : u.state.op.removes = false)
    (hlocks : ∀ k ∈ u.keys, k ∉ t.keys)
    (hmutex : u.state.hasMutex = true → t.state.hasMutex = false) : Ready (t.view rows) u := by
  obtain ⟨hadds, hempty⟩ := ht.grows hdone htadds
  obtain ⟨id, writes, op, stage⟩ := u
  have hrest : rows ≠ [] ∧ Spares rows writes → t.view rows ≠ [] ∧ Spares (t.view rows) writes :=
    fun h => ⟨hadds.ne_nil h.1, spares_commit hlocks h.2⟩
  cases op with
  | upsert =>
    cases stage with
    | counted newDefault => exact ⟨hr.1, hr.2.trans (hempty (hmutex rfl)).symm⟩
    | done => exact ⟨hr.1, hr.2.imp marks_commit hrest⟩
    | _ => exact hr
  | setDefault label =>
    cases stage with
    | begun => exact hr
    | done => exact ⟨hr.1, hadds.ne_nil hr.2.1, marks_commit hr.2.2⟩
    | _ => exact ⟨hr.1, hadds.lookup hr.2⟩
  | refresh =>
    cases stage with
    | done => exact hr.imp_right fun h => ⟨h.1, hrest h.2⟩
    | _ => exact hr
  | delete => cases huadds
  | drop => cases huadds
  | wipe => cases huadds

/-! ## All of them -/

structure Whole (s : State β) : Prop where
  kept : Kept s
  filled : Filled s.rows
  ready : ∀ t ∈ s.running, Ready s.rows t
  alone : ∀ t ∈ s.running, t.state.op.removes = true → ∀ u ∈ s.running, u.id = t.id
  mutex : ∀ t ∈ s.running, ∀ u ∈ s.running, t.id ≠ u.id → t.state.hasMutex = true →
    u.state.hasMutex = false

namespace Whole

theorem start : Whole (start : State β) where
  kept := .empty
  filled := Or.inl rfl
  ready _ ht := absurd ht List.not_mem_nil
  alone _ ht := absurd ht List.not_mem_nil
  mutex _ ht := absurd ht List.not_mem_nil

theorem begin {i : Nat} {op : Op β} (h : Whole s) (hfits : Fits s (.begin i op))
    (hnext : Next s (.begin i op) s') : Whole s' := by
  have hkept : Kept s' := h.kept.step hnext
  obtain ⟨hnobody, hspares⟩ := hfits
  change s.launch i ⟨op, .begun⟩ = some s' at hnext
  unfold RowLocks.launch at hnext
  split at hnext
  · obtain rfl := Option.some.inj hnext
    refine ⟨hkept, h.filled, ?_, ?_, ?_⟩
    · intro t ht
      rcases List.mem_cons.mp ht with rfl | ht
      · cases op with
        | drop label => exact ⟨rfl, hspares⟩
        | _ => exact rfl
      · exact h.ready t ht
    · intro t ht hremoves u hu
      rcases List.mem_cons.mp ht with rfl | ht
      · rcases List.mem_cons.mp hu with rfl | hu
        · rfl
        · simp [(hnobody u hu).1] at hremoves
      · simp [(hnobody t ht).2] at hremoves
    · intro t ht u hu hne hmutex
      rcases List.mem_cons.mp ht with rfl | ht
      · cases op <;> cases hmutex
      · rcases List.mem_cons.mp hu with rfl | hu
        · cases op <;> rfl
        · exact h.mutex t ht u hu hne hmutex
  · cases hnext

theorem abort (h : Whole s) (i : Nat) : Whole (s.abort i) where
  kept := h.kept.abort i
  filled := h.filled
  ready t ht := h.ready t (RowLocks.mem_abort.mp ht).1
  alone t ht hremoves u hu :=
    h.alone t (RowLocks.mem_abort.mp ht).1 hremoves u (RowLocks.mem_abort.mp hu).1
  mutex t ht u hu := h.mutex t (RowLocks.mem_abort.mp ht).1 u (RowLocks.mem_abort.mp hu).1

theorem commit (h : Whole s) (ht : t ∈ s.running) (hdone : t.state.stage = .done) :
    Whole (s.commit t) := by
  refine ⟨h.kept.commit ht, (h.ready t ht).filled hdone h.filled, ?_, ?_, ?_⟩
  · intro u hu
    obtain ⟨hu, hne⟩ := RowLocks.mem_commit.mp hu
    refine (h.ready u hu).commit (h.ready t ht) hdone ?_ ?_ ?_ ?_
    · by_contra hremoves
      exact hne (h.alone t ht (by simpa using hremoves) u hu)
    · by_contra hremoves
      exact hne (h.alone u hu (by simpa using hremoves) t ht).symm
    · exact h.kept.locks u hu t ht hne
    · exact h.mutex u hu t ht hne
  · intro u hu hremoves w hw
    exact h.alone u (RowLocks.mem_commit.mp hu).1 hremoves w (RowLocks.mem_commit.mp hw).1
  · intro u hu w hw
    exact h.mutex u (RowLocks.mem_commit.mp hu).1 w (RowLocks.mem_commit.mp hw).1

theorem move (h : Whole s) (ht : t ∈ s.running) (hkept : Kept s') (hgoes : Goes s t s') :
    Whole s' := by
  obtain rfl | ⟨t', rfl, hid, hop, hready, hmutex⟩ := hgoes
  · exact h.abort t.id
  -- a transaction of the next state has the mutex, or is the one that has moved
  have hformer {u : Transaction β} (hu : u ∈ (s.replace t').running) :
      u = t' ∨ u ∈ s.running ∧ u.id ≠ t.id := by
    simpa [hid] using RowLocks.mem_replace hu
  refine ⟨hkept, h.filled, ?_, ?_, ?_⟩
  · intro u hu
    rcases hformer hu with rfl | ⟨hu, -⟩
    · exact hready
    · exact h.ready u hu
  · intro u hu hremoves w hw
    have hids {v : Transaction β} (hv : v ∈ (s.replace t').running) :
        ∃ v' ∈ s.running, v'.id = v.id ∧ v'.state.op = v.state.op := by
      rcases hformer hv with rfl | ⟨hv, -⟩
      · exact ⟨t, ht, hid.symm, hop.symm⟩
      · exact ⟨v, hv, rfl, rfl⟩
    obtain ⟨u', hu', hid', hop'⟩ := hids hu
    obtain ⟨w', hw', hwid, -⟩ := hids hw
    rw [← hid', ← hwid]
    exact h.alone u' hu' (hop' ▸ hremoves) w' hw'
  · intro u hu w hw hne hhas
    rcases hformer hu with hut | ⟨hu, hut⟩
    · rcases hformer hw with hwt | ⟨hw, hwt⟩
      · exact absurd (congrArg Tx.id (hut.trans hwt.symm)) hne
      · cases hold : t.state.hasMutex with
        | true => exact h.mutex t ht w hw (Ne.symm hwt) hold
        | false => exact hmutex (hut ▸ hhas) hold w hw hwt
    · rcases hformer hw with hwt | ⟨hw, -⟩
      · by_contra hnew
        have hnew : t'.state.hasMutex = true := by simpa [hwt] using hnew
        cases hold : t.state.hasMutex with
        | true => simp [h.mutex u hu t ht hut hhas] at hold
        | false => simp [hmutex hnew hold u hu hut] at hhas
      · exact h.mutex u hu w hw hne hhas

theorem step {a : Action β} (h : Whole s) (hfits : Fits s a) (hnext : Next s a s') : Whole s' := by
  cases a with
  | begin i op => exact h.begin hfits hnext
  | abort i =>
    obtain ⟨t, -, rfl⟩ := Option.map_eq_some_iff.mp hnext
    exact h.abort t.id
  | move i pick =>
    have hkept := h.kept.step hnext
    obtain ⟨t, ht, hnext⟩ := Option.bind_eq_some_iff.mp hnext
    obtain ⟨ht, -⟩ := RowLocks.mem_of_find ht
    unfold advance at hnext
    split at hnext
    next hdone =>
      obtain rfl := Option.some.inj hnext
      exact h.commit ht hdone
    · exact h.move ht hkept (goes_of_statement h.filled (h.ready t ht) hnext)

end Whole

/-! ## The account of a call -/

/-- The rows of the table. -/
def userRows (serverId userId : Uuid) (rows : List (String × Account β)) :
    List (UserCredential β) :=
  rows.map fun e => ⟨serverId, userId, e.1, e.2.isDefault, e.2.credential⟩

variable {db : Credentials β} {serverId userId : Uuid}

theorem fetchRow_isSome_iff
    (hdb : (db.users.filter fun r => r.serverId == serverId && r.userId == userId) =
      userRows serverId userId rows) :
    (db.fetchRow (.perUser serverId userId none)).isSome = true ↔
      ∃ e ∈ rows, e.2.isDefault = true := by
  have hfind : (db.users.find? fun r => r.serverId == serverId && r.userId == userId &&
      r.isDefault) = (userRows serverId userId rows).find? fun r => r.isDefault := by
    rw [← hdb, List.find?_filter]
    refine congrArg (db.users.find? ·) (funext fun r => ?_)
    simp [Bool.beq_eq_decide_eq]
  simp [Credentials.fetchRow, hfind, userRows]

/-- As long as accounts are taken away by one operation at a time, and none by a dead grant of a
default account that is not the only one, a user's call without an override finds an account if and
only if the user has one. -/
theorem connected {as : List (Action β)}
    (h : Steps (fun s a s' => Fits s a ∧ Next s a s') start as s)
    (hdb : (db.users.filter fun r => r.serverId == serverId && r.userId == userId) =
      userRows serverId userId s.rows) :
    (db.fetchRow (.perUser serverId userId none)).isSome = true ↔ s.rows ≠ [] := by
  have hwhole : Whole s := Steps.invariant (fun _ _ _ h hs => h.step hs.1 hs.2) h .start
  rw [fetchRow_isSome_iff hdb]
  constructor
  · rintro ⟨e, he, -⟩
    exact List.ne_nil_of_mem he
  · intro hrows
    obtain ⟨k, hk⟩ := hwhole.filled.resolve_left hrows
    obtain ⟨a, ha, hdefault⟩ := isMarked_iff.mp hk
    exact ⟨(k, a), mem_of_lookup ha, hdefault⟩

/-- The first of two accounts is deleted. -/
def oneLeft : List (Action String) :=
  [.begin 0 (.upsert "work" ⟨.staticToken, "a", none, none⟩ 1), .move 0 "",
    .begin 1 (.upsert "home" ⟨.staticToken, "b", none, none⟩ 2), .move 0 "", .move 0 "", .move 0 "",
    .move 1 "", .move 1 "", .move 1 "", .move 1 "", .begin 2 (.delete "work"), .move 2 "",
    .move 2 "home", .move 2 "", .move 2 ""]

theorem connected_one_left : ∃ s,
    Steps (fun s a s' => Fits s a ∧ Next s a s') start oneLeft s ∧ s.rows ≠ [] ∧
      (Credentials.fetchRow ⟨userRows 1 7 s.rows, []⟩ (.perUser 1 7 none)).isSome = true := by
  have hrun : (oneLeft.foldlM (fun s a => if Fits s a then step s a else none) start).map
      (fun s => s.rows.map Prod.fst) = some ["home"] := by
    decide +kernel
  obtain ⟨s, hs, hrows⟩ := Option.map_eq_some_iff.mp hrun
  have hne : s.rows ≠ [] := by
    rintro hnil
    simp [hnil] at hrows
  have hsteps := Steps.of_foldlM_if hs
  refine ⟨s, hsteps, hne, (connected hsteps (List.filter_eq_self.mpr fun r hr => ?_)).mpr hne⟩
  obtain ⟨e, -, rfl⟩ := List.mem_map.mp hr
  rfl

/-- A dead grant of the default account leaves the other accounts without a default. -/
example : (List.foldlM step start (oneLeft.take 10 ++
      [Action.begin 2 (.drop "work"), Action.move 2 "", Action.move 2 ""])).map
    (fun s : State String => s.rows.map fun e => (e.1, e.2.isDefault)) =
      some [("home", false)] := by
  decide +kernel

end ThinkWatch.Mcp.Accounts
