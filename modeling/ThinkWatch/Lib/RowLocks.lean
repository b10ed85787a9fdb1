import ThinkWatch.Lib.KeyedList

/-!
# Transactions with row locks

A table of rows with keys, and transactions that write rows of it. A row that a transaction has
written is locked until the transaction ends, and nobody else sees it before the commit. A unique
partial index lets one row be marked: a transaction that marks a row waits while another one has the
mark in its hands, and fails if another row has it. Then one row at most is marked, committed or
seen by any transaction (`Inv`).
-/

namespace Lib

variable {κ ν τ : Type*} [DecidableEq κ]

/-! ## Writes -/

def setRow (rows : List (κ × ν)) (k : κ) : Option ν → List (κ × ν)
  | some v => put Prod.fst rows (k, v)
  | none => rows.filter fun e => e.1 ≠ k

def overlay (writes : List (κ × Option ν)) (rows : List (κ × ν)) : List (κ × ν) :=
  writes.foldl (fun rows w => setRow rows w.1 w.2) rows

variable {rows rows' : List (κ × ν)} {writes : List (κ × Option ν)} {k k' : κ} {v : Option ν}

theorem lookup_setRow_self (rows : List (κ × ν)) (k : κ) (v : Option ν) :
    (setRow rows k v).lookup k = v := by
  cases v with
  | none => exact lookup_filter_self k rows
  | some v => exact lookup_put_self rows k v

theorem lookup_setRow_ne (h : k' ≠ k) (rows : List (κ × ν)) (v : Option ν) :
    (setRow rows k v).lookup k' = rows.lookup k' := by
  cases v with
  | none => exact lookup_filter_ne h rows
  | some v => exact lookup_put_ne h rows v

theorem overlay_concat (writes : List (κ × Option ν)) (k : κ) (v : Option ν)
    (rows : List (κ × ν)) :
    overlay (writes ++ [(k, v)]) rows = setRow (overlay writes rows) k v := by
  simp [overlay]

theorem lookup_overlay_of_not_mem (h : k ∉ writes.map Prod.fst) (rows : List (κ × ν)) :
    (overlay writes rows).lookup k = rows.lookup k := by
  induction writes using List.reverseRecOn with
  | nil => rfl
  | append_singleton writes w ih =>
    obtain ⟨k', v⟩ := w
    simp only [List.map_append, List.map_cons, List.map_nil, List.mem_append, List.mem_singleton,
      not_or] at h
    rw [overlay_concat, lookup_setRow_ne h.2, ih h.1]

/-- A row that is written does not depend on the table. -/
theorem lookup_overlay_of_mem (h : k ∈ writes.map Prod.fst) (rows rows' : List (κ × ν)) :
    (overlay writes rows).lookup k = (overlay writes rows').lookup k := by
  induction writes using List.reverseRecOn with
  | nil => cases h
  | append_singleton writes w ih =>
    obtain ⟨k', v⟩ := w
    rw [overlay_concat, overlay_concat]
    by_cases hk : k = k'
    · subst hk
      rw [lookup_setRow_self, lookup_setRow_self]
    · rw [lookup_setRow_ne hk, lookup_setRow_ne hk]
      simp only [List.map_append, List.map_cons, List.map_nil, List.mem_append,
        List.mem_singleton] at h
      exact ih (h.resolve_right hk)

theorem nodup_setRow (h : (rows.map Prod.fst).Nodup) (k : κ) (v : Option ν) :
    ((setRow rows k v).map Prod.fst).Nodup := by
  cases v with
  | none => exact h.sublist (List.filter_sublist.map Prod.fst)
  | some v => exact nodup_put h

theorem nodup_overlay (h : (rows.map Prod.fst).Nodup) (writes : List (κ × Option ν)) :
    ((overlay writes rows).map Prod.fst).Nodup := by
  unfold overlay
  induction writes generalizing rows with
  | nil => exact h
  | cons w writes ih => exact ih (nodup_setRow h w.1 w.2)

/-! ## Transactions -/

structure Tx (κ ν τ : Type*) where
  id : Nat
  writes : List (κ × Option ν)
  state : τ

def Tx.keys (t : Tx κ ν τ) : List κ := t.writes.map Prod.fst

/-- The table as the transaction sees it. -/
def Tx.view (t : Tx κ ν τ) (rows : List (κ × ν)) : List (κ × ν) := overlay t.writes rows

structure RowLocks (κ ν τ : Type*) where
  rows : List (κ × ν)
  running : List (Tx κ ν τ)

variable (marked : ν → Bool)

def isMarked (rows : List (κ × ν)) (k : κ) : Prop := (rows.lookup k).any marked = true

instance (rows : List (κ × ν)) (k : κ) : Decidable (isMarked marked rows k) :=
  inferInstanceAs (Decidable (_ = true))

/-- The transaction has written a marked row, or written over one. -/
def Tx.Holds (t : Tx κ ν τ) (rows : List (κ × ν)) : Prop :=
  ∃ k ∈ t.keys, isMarked marked rows k ∨ isMarked marked (t.view rows) k

instance (t : Tx κ ν τ) (rows : List (κ × ν)) : Decidable (t.Holds marked rows) :=
  inferInstanceAs (Decidable (∃ k ∈ t.keys, _))

def Tx.Marks (t : Tx κ ν τ) (rows : List (κ × ν)) : Prop :=
  ∃ k ∈ t.keys, isMarked marked (t.view rows) k

namespace RowLocks

def find (s : RowLocks κ ν τ) (i : Nat) : Option (Tx κ ν τ) := s.running.find? fun t => t.id = i

def launch (s : RowLocks κ ν τ) (i : Nat) (x : τ) : Option (RowLocks κ ν τ) :=
  match s.find i with
  | none => some { s with running := ⟨i, [], x⟩ :: s.running }
  | some _ => none

def replace (s : RowLocks κ ν τ) (t : Tx κ ν τ) : RowLocks κ ν τ :=
  { s with running := s.running.map fun u => if u.id = t.id then t else u }

def abort (s : RowLocks κ ν τ) (i : Nat) : RowLocks κ ν τ :=
  { s with running := s.running.filter fun u => u.id ≠ i }

def commit (s : RowLocks κ ν τ) (t : Tx κ ν τ) : RowLocks κ ν τ :=
  { rows := t.view s.rows, running := s.running.filter fun u => u.id ≠ t.id }

def Waits (s : RowLocks κ ν τ) (t : Tx κ ν τ) (k : κ) (v : Option ν) : Prop :=
  ∃ u ∈ s.running, u.id ≠ t.id ∧
    (k ∈ u.keys ∨ v.any marked = true ∧ u.Holds marked s.rows)

instance (s : RowLocks κ ν τ) (t : Tx κ ν τ) (k : κ) (v : Option ν) :
    Decidable (s.Waits marked t k v) :=
  inferInstanceAs (Decidable (∃ u ∈ s.running, _))

/-- Another row that the transaction sees is marked. -/
def Clashes (s : RowLocks κ ν τ) (t : Tx κ ν τ) (k : κ) (v : Option ν) : Prop :=
  v.any marked = true ∧ ∃ e ∈ t.view s.rows, e.1 ≠ k ∧ marked e.2 = true

instance (s : RowLocks κ ν τ) (t : Tx κ ν τ) (k : κ) (v : Option ν) :
    Decidable (s.Clashes marked t k v) :=
  inferInstanceAs (Decidable (_ ∧ _))

/-- There is no step while it waits; a clash ends the transaction. -/
def write (s : RowLocks κ ν τ) (t : Tx κ ν τ) (k : κ) (v : Option ν) (x : τ) :
    Option (RowLocks κ ν τ) :=
  if s.Waits marked t k v then none
  else if s.Clashes marked t k v then some (s.abort t.id)
  else some (s.replace { t with writes := t.writes ++ [(k, v)], state := x })

/-! ## One mark -/

def OneMarked (rows : List (κ × ν)) : Prop :=
  ∀ k k', isMarked marked rows k → isMarked marked rows k' → k = k'

structure Inv (s : RowLocks κ ν τ) : Prop where
  keys : (s.rows.map Prod.fst).Nodup
  ids : (s.running.map Tx.id).Nodup
  locks : ∀ t ∈ s.running, ∀ u ∈ s.running, t.id ≠ u.id → ∀ k ∈ t.keys, k ∉ u.keys
  base : OneMarked marked s.rows
  own : ∀ t ∈ s.running, OneMarked marked (t.view s.rows)
  marks : ∀ t ∈ s.running, ∀ u ∈ s.running, t.id ≠ u.id → t.Marks marked s.rows →
    ¬ u.Holds marked s.rows

variable {marked} {s s' : RowLocks κ ν τ} {t t' u : Tx κ ν τ} {i : Nat} {x : τ}

omit [DecidableEq κ] in
theorem mem_of_find (h : s.find i = some t) : t ∈ s.running ∧ t.id = i := by
  have hid := List.find?_some h
  exact ⟨List.mem_of_find?_eq_some h, of_decide_eq_true hid⟩

omit [DecidableEq κ] in
theorem mem_replace (h : u ∈ (s.replace t).running) : u = t ∨ u ∈ s.running ∧ u.id ≠ t.id := by
  obtain ⟨u', hu', rfl⟩ := List.mem_map.mp h
  split
  · exact Or.inl rfl
  next hne => exact Or.inr ⟨hu', hne⟩

omit [DecidableEq κ] in
theorem mem_abort : u ∈ (s.abort i).running ↔ u ∈ s.running ∧ u.id ≠ i := by
  simp [abort]

theorem mem_commit : u ∈ (s.commit t).running ↔ u ∈ s.running ∧ u.id ≠ t.id := by
  simp [commit]

theorem view_lookup_of_not_mem (h : k ∉ t.keys) (rows : List (κ × ν)) :
    (t.view rows).lookup k = rows.lookup k := lookup_overlay_of_not_mem h rows

theorem isMarked_iff : isMarked marked rows k ↔ ∃ v, rows.lookup k = some v ∧ marked v = true := by
  unfold isMarked
  rw [Option.any_eq_true]

theorem mem_of_lookup {v : ν} (h : rows.lookup k = some v) : (k, v) ∈ rows := by
  obtain ⟨before, after, rfl, -⟩ := List.lookup_eq_some_iff.mp h
  exact List.mem_append_right _ List.mem_cons_self

theorem isMarked_congr (h : rows.lookup k = rows'.lookup k) :
    isMarked marked rows k ↔ isMarked marked rows' k := by
  unfold isMarked
  rw [h]

theorem Tx.Marks.holds (h : t.Marks marked rows) : t.Holds marked rows := by
  obtain ⟨k, hk, hm⟩ := h
  exact ⟨k, hk, Or.inr hm⟩

namespace Inv

theorem empty : Inv marked (⟨[], []⟩ : RowLocks κ ν τ) where
  keys := List.nodup_nil
  ids := List.nodup_nil
  locks := nofun
  base := nofun
  own := nofun
  marks := nofun

theorem eq_of_id (h : Inv marked s) (ht : t ∈ s.running) (hu : u ∈ s.running)
    (hid : t.id = u.id) : t = u :=
  List.inj_on_of_nodup_map h.ids ht hu hid

theorem launch (h : Inv marked s) (hs : s.launch i x = some s') : Inv marked s' := by
  unfold RowLocks.launch at hs
  split at hs
  next hfind =>
    obtain rfl := Option.some.inj hs
    have hnew : ∀ u ∈ s.running, u.id ≠ i := fun u hu hid =>
      List.find?_eq_none.mp hfind u hu (decide_eq_true hid)
    have hempty {rows : List (κ × ν)} : ¬ (⟨i, [], x⟩ : Tx κ ν τ).Holds marked rows := by
      rintro ⟨k, hk, -⟩
      cases hk
    constructor
    · exact h.keys
    · refine List.nodup_cons.mpr ⟨fun hmem => ?_, h.ids⟩
      obtain ⟨u, hu, hid⟩ := List.mem_map.mp hmem
      exact hnew u hu hid
    · intro t ht u hu hne k hk hk'
      rcases List.mem_cons.mp ht with rfl | ht
      · cases hk
      · rcases List.mem_cons.mp hu with rfl | hu
        · cases hk'
        · exact h.locks t ht u hu hne k hk hk'
    · exact h.base
    · intro t ht
      rcases List.mem_cons.mp ht with rfl | ht
      · exact h.base
      · exact h.own t ht
    · intro t ht u hu hne hmarks
      rcases List.mem_cons.mp ht with rfl | ht
      · exact absurd (Tx.Marks.holds hmarks) hempty
      · rcases List.mem_cons.mp hu with rfl | hu
        · exact hempty
        · exact h.marks t ht u hu hne hmarks
  next => cases hs

theorem abort (h : Inv marked s) (i : Nat) : Inv marked (s.abort i) where
  keys := h.keys
  ids := h.ids.sublist (List.filter_sublist.map Tx.id)
  locks t ht u hu := h.locks t (mem_abort.mp ht).1 u (mem_abort.mp hu).1
  base := h.base
  own t ht := h.own t (mem_abort.mp ht).1
  marks t ht u hu := h.marks t (mem_abort.mp ht).1 u (mem_abort.mp hu).1

/-- A transaction that moves on keeps to itself. -/
theorem replace (h : Inv marked s)
    (hlocks : ∀ u ∈ s.running, u.id ≠ t'.id → ∀ k ∈ t'.keys, k ∉ u.keys)
    (hown : OneMarked marked (t'.view s.rows))
    (hmarks : t'.Marks marked s.rows → ∀ u ∈ s.running, u.id ≠ t'.id → ¬ u.Holds marked s.rows)
    (hholds : ∀ u ∈ s.running, u.id ≠ t'.id → u.Marks marked s.rows → ¬ t'.Holds marked s.rows) :
    Inv marked (s.replace t') := by
  have hids : (s.replace t').running.map Tx.id = s.running.map Tx.id := by
    unfold RowLocks.replace
    rw [List.map_map]
    refine List.map_congr_left fun u _ => ?_
    show (if u.id = t'.id then t' else u).id = u.id
    split
    next hid => exact hid.symm
    · rfl
  constructor
  · exact h.keys
  · rw [hids]
    exact h.ids
  · intro t ht u hu hne k hk hk'
    rcases mem_replace ht with htid | ⟨ht, htid⟩
    · rcases mem_replace hu with huid | ⟨hu, huid⟩
      · exact hne (congrArg Tx.id (htid.trans huid.symm))
      · exact hlocks u hu huid k (htid ▸ hk) hk'
    · rcases mem_replace hu with huid | ⟨hu, -⟩
      · exact hlocks t ht htid k (huid ▸ hk') hk
      · exact h.locks t ht u hu hne k hk hk'
  · exact h.base
  · intro t ht
    rcases mem_replace ht with htid | ⟨ht, -⟩
    · exact htid ▸ hown
    · exact h.own t ht
  · intro t ht u hu hne hm
    rcases mem_replace ht with htid | ⟨ht, htid⟩
    · rcases mem_replace hu with huid | ⟨hu, huid⟩
      · exact absurd (congrArg Tx.id (htid.trans huid.symm)) hne
      · exact hmarks (htid ▸ hm) u hu huid
    · rcases mem_replace hu with huid | ⟨hu, -⟩
      · exact huid ▸ hholds t ht htid hm
      · exact h.marks t ht u hu hne hm

theorem restate (h : Inv marked s) (ht : t ∈ s.running) (x : τ) :
    Inv marked (s.replace { t with state := x }) := by
  refine h.replace (fun u hu hne k hk => ?_) (h.own t ht) (fun hm u hu hne => ?_)
    (fun u hu hne hm => ?_)
  · exact h.locks t ht u hu (Ne.symm hne) k hk
  · exact h.marks t ht u hu (Ne.symm hne) hm
  · exact h.marks u hu t ht hne hm

theorem write (h : Inv marked s) (ht : t ∈ s.running) (hs : s.write marked t k v x = some s') :
    Inv marked s' := by
  unfold RowLocks.write at hs
  split at hs
  · cases hs
  next hwaits =>
    split at hs
    · obtain rfl := Option.some.inj hs
      exact h.abort t.id
    next hclash =>
      obtain rfl := Option.some.inj hs
      -- nobody else has the row, and the mark if the new row is marked
      have hfree : ∀ u ∈ s.running, u.id ≠ t.id → k ∉ u.keys := fun u hu hne hk =>
        hwaits ⟨u, hu, hne, Or.inl hk⟩
      have hnone : v.any marked = true → ∀ u ∈ s.running, u.id ≠ t.id → ¬ u.Holds marked s.rows :=
        fun hv u hu hne hholds => hwaits ⟨u, hu, hne, Or.inr ⟨hv, hholds⟩⟩
      have hself : isMarked marked (overlay (t.writes ++ [(k, v)]) s.rows) k ↔
          v.any marked = true := by
        unfold isMarked
        rw [overlay_concat, lookup_setRow_self]
      have hother {k' : κ} (hk : k' ≠ k) :
          isMarked marked (overlay (t.writes ++ [(k, v)]) s.rows) k' ↔
            isMarked marked (t.view s.rows) k' := by
        refine isMarked_congr ?_
        rw [overlay_concat, lookup_setRow_ne hk]
        rfl
      have hlast : v.any marked = true → ∀ k', k' ≠ k → ¬ isMarked marked (t.view s.rows) k' := by
        intro hv k' hk hm
        obtain ⟨w, hw, hmark⟩ := isMarked_iff.mp hm
        exact hclash ⟨hv, (k', w), mem_of_lookup hw, hk, hmark⟩
      have hkeys {k' : κ} (hk : k' ∈ (t.writes ++ [(k, v)]).map Prod.fst) :
          k' ∈ t.keys ∨ k' = k := by
        simpa [Tx.keys] using hk
      refine h.replace (fun u hu hne k' hk => ?_) ?_ ?_ ?_
      · rcases hkeys hk with hk | rfl
        · exact h.locks t ht u hu (Ne.symm hne) k' hk
        · exact hfree u hu hne
      · intro k₁ k₂ h₁ h₂
        by_cases hk₁ : k₁ = k
        · by_cases hk₂ : k₂ = k
          · exact hk₁.trans hk₂.symm
          · subst hk₁
            exact absurd ((hother hk₂).mp h₂) (hlast (hself.mp h₁) k₂ hk₂)
        · by_cases hk₂ : k₂ = k
          · subst hk₂
            exact absurd ((hother hk₁).mp h₁) (hlast (hself.mp h₂) k₁ hk₁)
          · exact h.own t ht k₁ k₂ ((hother hk₁).mp h₁) ((hother hk₂).mp h₂)
      · rintro ⟨k', hk, hm⟩ u hu hne
        by_cases heq : k' = k
        · subst heq
          exact hnone (hself.mp hm) u hu hne
        · have hk' : k' ∈ t.keys := (hkeys hk).resolve_right heq
          exact h.marks t ht u hu (Ne.symm hne) ⟨k', hk', (hother heq).mp hm⟩
      · rintro u hu hne hm ⟨k', hk, hholds⟩
        by_cases heq : k' = k
        · subst heq
          rcases hholds with hbase | hnew
          · -- the row is marked, and the other one sees it
            obtain ⟨l, hl, hml⟩ := hm
            have hseen : isMarked marked (u.view s.rows) k' :=
              (isMarked_congr (view_lookup_of_not_mem (hfree u hu hne) _)).mpr hbase
            exact hfree u hu hne (h.own u hu l k' hml hseen ▸ hl)
          · exact hnone (hself.mp hnew) u hu hne (Tx.Marks.holds hm)
        · have hk' : k' ∈ t.keys := (hkeys hk).resolve_right heq
          exact h.marks u hu t ht hne hm ⟨k', hk', hholds.imp_right (hother heq).mp⟩

/-- What is committed is what the transaction saw; the others see the same rows marked. -/
theorem commit (h : Inv marked s) (ht : t ∈ s.running) : Inv marked (s.commit t) := by
  -- what another transaction sees after the commit
  have hwritten {u : Tx κ ν τ} {k : κ} (hk : k ∈ u.keys) :
      isMarked marked (u.view (t.view s.rows)) k ↔ isMarked marked (u.view s.rows) k :=
    isMarked_congr (lookup_overlay_of_mem hk _ _)
  have hread {u : Tx κ ν τ} {k : κ} (hk : k ∉ u.keys) :
      isMarked marked (u.view (t.view s.rows)) k ↔ isMarked marked (t.view s.rows) k :=
    isMarked_congr (view_lookup_of_not_mem hk _)
  have huntouched {k : κ} (hk : k ∉ t.keys) :
      isMarked marked (t.view s.rows) k ↔ isMarked marked s.rows k :=
    isMarked_congr (view_lookup_of_not_mem hk _)
  have hmixed {u : Tx κ ν τ} (hu : u ∈ s.running) (hne : u.id ≠ t.id) {k k' : κ}
      (hk : k ∈ u.keys) (hk' : k' ∉ u.keys) (hm : isMarked marked (u.view s.rows) k)
      (hm' : isMarked marked (t.view s.rows) k') : k = k' := by
    by_cases htk : k' ∈ t.keys
    · exact absurd ⟨k', htk, Or.inr hm'⟩ (h.marks u hu t ht hne ⟨k, hk, hm⟩)
    · refine h.own u hu k k' hm ((isMarked_congr (view_lookup_of_not_mem hk' _)).mpr ?_)
      exact (huntouched htk).mp hm'
  constructor
  · exact nodup_overlay h.keys t.writes
  · exact h.ids.sublist (List.filter_sublist.map Tx.id)
  · exact fun u hu w hw => h.locks u (mem_commit.mp hu).1 w (mem_commit.mp hw).1
  · exact h.own t ht
  · intro u hu k k' hm hm'
    obtain ⟨hu, hne⟩ := mem_commit.mp hu
    by_cases hk : k ∈ u.keys
    · by_cases hk' : k' ∈ u.keys
      · exact h.own u hu k k' ((hwritten hk).mp hm) ((hwritten hk').mp hm')
      · exact hmixed hu hne hk hk' ((hwritten hk).mp hm) ((hread hk').mp hm')
    · by_cases hk' : k' ∈ u.keys
      · exact (hmixed hu hne hk' hk ((hwritten hk').mp hm') ((hread hk).mp hm)).symm
      · exact h.own t ht k k' ((hread hk).mp hm) ((hread hk').mp hm')
  · rintro u hu w hw hne ⟨k, hk, hm⟩ ⟨k', hk', hholds⟩
    obtain ⟨hu, -⟩ := mem_commit.mp hu
    obtain ⟨hw, hwt⟩ := mem_commit.mp hw
    refine h.marks u hu w hw hne ⟨k, hk, (hwritten hk).mp hm⟩ ⟨k', hk', ?_⟩
    exact hholds.imp (huntouched (h.locks w hw t ht hwt k' hk')).mp (hwritten hk').mp

end Inv

theorem lookup_of_mem {v : ν} (hkeys : (rows.map Prod.fst).Nodup) (h : (k, v) ∈ rows) :
    rows.lookup k = some v := by
  cases hlookup : rows.lookup k with
  | none =>
    have hne := List.lookup_eq_none_iff.mp hlookup (k, v) h
    simp at hne
  | some w =>
    have heq := List.inj_on_of_nodup_map hkeys (mem_of_lookup hlookup) h rfl
    exact congrArg (fun e => some e.2) heq

/-- Of the rows one at most is marked. -/
theorem OneMarked.eq (hkeys : (rows.map Prod.fst).Nodup) (h : OneMarked marked rows)
    {e e' : κ × ν} (he : e ∈ rows) (he' : e' ∈ rows) (hm : marked e.2 = true)
    (hm' : marked e'.2 = true) : e = e' := by
  refine List.inj_on_of_nodup_map hkeys he he' (h e.1 e'.1 ?_ ?_)
  · exact isMarked_iff.mpr ⟨e.2, lookup_of_mem hkeys he, hm⟩
  · exact isMarked_iff.mpr ⟨e'.2, lookup_of_mem hkeys he', hm'⟩

end RowLocks

end Lib
