import Mathlib.Data.Option.Defs
import ThinkWatch.Lib.Run
import ThinkWatch.Lib.Threads

/-!
# Rows that are read, changed outside and written back

A table whose rows are created from a request and changed by a form: an edit reads a row, and writes
what the form makes of it later, whatever was written in between. Two such tables that treat related
rows alike stay related when they perform related actions (`Related.run`); one that can do whatever
the other can is refined by it (`Respects.refines`).
-/

namespace Lib

/-- How a row is made of a request, and what a form makes of one; a failure changes nothing. -/
structure Editing (ρ φ κ : Type*) where
  create : ρ → Option κ
  update : κ → φ → Option κ

namespace Editing

/-- A row that was deleted is not read any more. -/
structure Row (κ : Type*) where
  value : κ
  deleted : Bool
deriving DecidableEq, Repr

inductive Edit (ι φ κ : Type*) where
  | pending (id : ι) (existing : κ) (form : φ)
  | done

structure State (ι φ κ : Type*) where
  rows : ι → Option (Row κ)
  edits : Threads (Edit ι φ κ)

inductive Action (ι ρ φ : Type*) where
  | create (id : ι) (request : ρ)
  | delete (id : ι)
  | read (i : Nat) (id : ι) (form : φ)
  | write (i : Nat)

variable {ι ρ ρ' φ φ' κ κ' : Type*} [DecidableEq ι]

def State.start : State ι φ κ := ⟨fun _ => none, .none⟩

def State.setRow (s : State ι φ κ) (id : ι) (r : Row κ) : State ι φ κ :=
  { s with rows := fun id' => if id' = id then some r else s.rows id' }

def step (E : Editing ρ φ κ) (s : State ι φ κ) : Action ι ρ φ → Option (State ι φ κ)
  | .create id request =>
    match s.rows id with
    | none => (E.create request).map fun k => s.setRow id ⟨k, false⟩
    | some _ => none
  | .delete id => (s.rows id).map fun r => s.setRow id { r with deleted := true }
  | .read i id form =>
    match s.edits i, s.rows id with
    | none, some ⟨k, false⟩ => some { s with edits := s.edits.set i (.pending id k form) }
    | _, _ => none
  | .write i =>
    match s.edits i with
    | some (.pending id existing form) =>
      match s.rows id with
      | some r => (E.update existing form).map fun k =>
        { s.setRow id { r with value := k } with edits := s.edits.set i .done }
      | none => none
    | _ => none

def Next (E : Editing ρ φ κ) (s : State ι φ κ) (a : Action ι ρ φ) (s' : State ι φ κ) : Prop :=
  E.step s a = some s'

/-! ## Related tables -/

variable {E : Editing ρ φ κ} {E' : Editing ρ' φ' κ'} {R : κ → κ' → Prop} {K : ρ → ρ' → Prop}
  {F : φ → φ' → Prop} {s t : State ι φ κ} {s' t' : State ι φ' κ'} {a : Action ι ρ φ}
  {a' : Action ι ρ' φ'} {as : List (Action ι ρ φ)} {as' : List (Action ι ρ' φ')}

/-- Related requests make related rows, and related forms keep them related. -/
structure Respects (E : Editing ρ φ κ) (E' : Editing ρ' φ' κ') (R : κ → κ' → Prop)
    (K : ρ → ρ' → Prop) (F : φ → φ' → Prop) : Prop where
  create : ∀ r r' k k', K r r' → E.create r = some k → E'.create r' = some k' → R k k'
  update : ∀ e e' f f' k k', R e e' → F f f' → E.update e f = some k →
    E'.update e' f' = some k' → R k k'

inductive Row.Like (R : κ → κ' → Prop) : Row κ → Row κ' → Prop
  | mk {k : κ} {k' : κ'} {deleted : Bool} (h : R k k') : Row.Like R ⟨k, deleted⟩ ⟨k', deleted⟩

inductive Edit.Like (R : κ → κ' → Prop) (F : φ → φ' → Prop) :
    Edit ι φ κ → Edit ι φ' κ' → Prop
  | pending {id : ι} {k : κ} {k' : κ'} {f : φ} {f' : φ'} (h : R k k') (hf : F f f') :
      Edit.Like R F (.pending id k f) (.pending id k' f')
  | done : Edit.Like R F .done .done

inductive Action.Like (K : ρ → ρ' → Prop) (F : φ → φ' → Prop) :
    Action ι ρ φ → Action ι ρ' φ' → Prop
  | create {id : ι} {r : ρ} {r' : ρ'} (h : K r r') : Action.Like K F (.create id r) (.create id r')
  | delete {id : ι} : Action.Like K F (.delete id) (.delete id)
  | read {i : Nat} {id : ι} {f : φ} {f' : φ'} (h : F f f') :
      Action.Like K F (.read i id f) (.read i id f')
  | write {i : Nat} : Action.Like K F (.write i) (.write i)

structure Related (R : κ → κ' → Prop) (F : φ → φ' → Prop) (s : State ι φ κ)
    (s' : State ι φ' κ') : Prop where
  rows : ∀ id, Option.Rel (Row.Like R) (s.rows id) (s'.rows id)
  edits : ∀ i, Option.Rel (Edit.Like R F) (s.edits i) (s'.edits i)

omit [DecidableEq ι] in
theorem Related.start : Related R F (State.start : State ι φ κ) (State.start : State ι φ' κ') :=
  ⟨fun _ => .none, fun _ => .none⟩

theorem Related.setRow {id : ι} {r : Row κ} {r' : Row κ'} (h : Related R F s s')
    (hr : Row.Like R r r') : Related R F (s.setRow id r) (s'.setRow id r') := by
  refine ⟨fun id' => ?_, h.edits⟩
  unfold State.setRow
  dsimp only
  split
  · exact .some hr
  · exact h.rows id'

omit [DecidableEq ι] in
theorem Related.setEdit {i : Nat} {e : Edit ι φ κ} {e' : Edit ι φ' κ'} (h : Related R F s s')
    (he : Edit.Like R F e e') :
    Related R F { s with edits := s.edits.set i e } { s' with edits := s'.edits.set i e' } := by
  refine ⟨h.rows, fun j => ?_⟩
  unfold Threads.set
  dsimp only
  split
  · exact .some he
  · exact h.edits j

theorem Related.step (hrespects : Respects E E' R K F) (h : Related R F s s')
    (ha : Action.Like K F a a') (hstep : E.step s a = some t) (hstep' : E'.step s' a' = some t') :
    Related R F t t' := by
  cases ha with
  | @create id r r' hr =>
    have hrow := h.rows id
    unfold Editing.step at hstep hstep'
    cases hs : s.rows id with
    | some r => simp [hs] at hstep
    | none =>
      cases hs' : s'.rows id with
      | some r => simp [hs'] at hstep'
      | none =>
        simp only [hs, hs', Option.map_eq_some_iff] at hstep hstep'
        obtain ⟨k, hk, rfl⟩ := hstep
        obtain ⟨k', hk', rfl⟩ := hstep'
        exact h.setRow (.mk (hrespects.create _ _ _ _ hr hk hk'))
  | @delete id =>
    obtain ⟨r, hr, rfl⟩ := Option.map_eq_some_iff.mp hstep
    obtain ⟨r', hr', rfl⟩ := Option.map_eq_some_iff.mp hstep'
    have hrow := h.rows id
    rw [hr, hr'] at hrow
    cases hrow with
    | some hlike =>
      cases hlike with
      | mk hk => exact h.setRow (.mk hk)
  | @read i id f f' hf =>
    have hrow := h.rows id
    unfold Editing.step at hstep hstep'
    dsimp only at hstep hstep'
    split at hstep
    next k hi hid =>
      split at hstep'
      next k' hi' hid' =>
        obtain rfl := Option.some.inj hstep
        obtain rfl := Option.some.inj hstep'
        rw [hid, hid'] at hrow
        cases hrow with
        | some hlike =>
          cases hlike with
          | mk hk => exact h.setEdit (.pending hk hf)
      next => cases hstep'
    next => cases hstep
  | @write i =>
    have hedit := h.edits i
    unfold Editing.step at hstep hstep'
    dsimp only at hstep hstep'
    split at hstep
    next id e f hi =>
      split at hstep'
      next id' e' f' hi' =>
        rw [hi, hi'] at hedit
        cases hedit with
        | some hlike =>
          cases hlike with
          | pending he hf =>
            have hrow := h.rows id
            split at hstep
            next r hr =>
              split at hstep'
              next r' hr' =>
                obtain ⟨k, hk, rfl⟩ := Option.map_eq_some_iff.mp hstep
                obtain ⟨k', hk', rfl⟩ := Option.map_eq_some_iff.mp hstep'
                rw [hr, hr'] at hrow
                cases hrow with
                | some hlike =>
                  cases hlike with
                  | mk _ =>
                    exact (h.setRow (.mk (hrespects.update _ _ _ _ _ _ he hf hk hk'))).setEdit .done
              next => cases hstep'
            next => cases hstep
      next => cases hstep'
    next => cases hstep

/-- Tables that perform related actions stay related. -/
theorem Related.run (hrespects : Respects E E' R K F) (h : Related R F s s')
    (has : List.Forall₂ (Action.Like K F) as as') (hrun : Steps E.Next s as t)
    (hrun' : Steps E'.Next s' as' t') : Related R F t t' := by
  induction has generalizing s s' with
  | nil =>
    cases hrun
    cases hrun'
    exact h
  | cons ha _ ih =>
    cases hrun with
    | cons hstep hrest =>
      cases hrun' with
      | cons hstep' hrest' => exact ih (h.step hrespects ha hstep hstep') hrest hrest'

omit [DecidableEq ι] in
theorem Related.row {id : ι} {r : Row κ} (h : Related R F s s') (hr : s.rows id = some r) :
    ∃ k', s'.rows id = some ⟨k', r.deleted⟩ ∧ R r.value k' := by
  have hrow := h.rows id
  rw [hr] at hrow
  cases hr' : s'.rows id with
  | none =>
    rw [hr'] at hrow
    cases hrow
  | some r' =>
    rw [hr'] at hrow
    cases hrow with
    | some hlike =>
      cases hlike with
      | mk hk => exact ⟨_, rfl, hk⟩

omit [DecidableEq ι] in
/-- What related rows have in common is the same all through the tables. -/
theorem Related.map_rows {γ : Type*} {f : κ → γ} {g : κ' → γ} (h : Related R F s s')
    (hsame : ∀ k k', R k k' → f k = g k') (id : ι) :
    (s.rows id).map (fun r => (f r.value, r.deleted)) =
      (s'.rows id).map fun r => (g r.value, r.deleted) := by
  have hrow := h.rows id
  cases hr : s.rows id with
  | none =>
    rw [hr] at hrow
    cases hr' : s'.rows id with
    | none => rfl
    | some r' =>
      rw [hr'] at hrow
      cases hrow
  | some r =>
    obtain ⟨k', hr', hk⟩ := h.row hr
    rw [hr', Option.map_some, Option.map_some, hsame _ _ hk]

/-! ## Refinement -/

/-- What the one can do with a request or a form, the other can. -/
structure Covers (E : Editing ρ φ κ) (E' : Editing ρ φ κ') : Prop where
  create : ∀ r k, E.create r = some k → (E'.create r).isSome
  update : ∀ e e' f k, E.update e f = some k → (E'.update e' f).isSome

omit [DecidableEq ι] in
theorem Action.Like.refl (a : Action ι ρ φ) : Action.Like Eq Eq a a := by
  cases a with
  | create id r => exact .create rfl
  | delete id => exact .delete
  | read i id f => exact .read rfl
  | write i => exact .write

theorem Related.covered {E' : Editing ρ φ κ'} {s' : State ι φ κ'} (hcovers : Covers E E')
    (h : Related R Eq s s') (hstep : E.step s a = some t) : ∃ t', E'.step s' a = some t' := by
  cases a with
  | create id r =>
    have hrow := h.rows id
    unfold Editing.step at hstep ⊢
    dsimp only at hstep ⊢
    split at hstep
    next hid =>
      obtain ⟨k, hk, -⟩ := Option.map_eq_some_iff.mp hstep
      obtain ⟨k', hk'⟩ := Option.isSome_iff_exists.mp (hcovers.create r k hk)
      rw [hid] at hrow
      cases hid' : s'.rows id with
      | none => exact ⟨_, by rw [hk']; rfl⟩
      | some r' =>
        rw [hid'] at hrow
        cases hrow
    next => cases hstep
  | delete id =>
    obtain ⟨r, hr, -⟩ := Option.map_eq_some_iff.mp hstep
    have hrow := h.rows id
    rw [hr] at hrow
    cases hid' : s'.rows id with
    | none =>
      rw [hid'] at hrow
      cases hrow
    | some r' => exact ⟨_, Option.map_eq_some_iff.mpr ⟨r', hid', rfl⟩⟩
  | read i id f =>
    have hrow := h.rows id
    have hedit := h.edits i
    unfold Editing.step at hstep ⊢
    dsimp only at hstep ⊢
    split at hstep
    next k hi hid =>
      rw [hi] at hedit
      rw [hid] at hrow
      cases hi' : s'.edits i with
      | some e =>
        rw [hi'] at hedit
        cases hedit
      | none =>
        cases hid' : s'.rows id with
        | none =>
          rw [hid'] at hrow
          cases hrow
        | some r' =>
          rw [hid'] at hrow
          cases hrow with
          | some hlike =>
            cases hlike with
            | mk _ => exact ⟨_, rfl⟩
    next => cases hstep
  | write i =>
    have hedit := h.edits i
    unfold Editing.step at hstep ⊢
    dsimp only at hstep ⊢
    split at hstep
    next id e f hi =>
      rw [hi] at hedit
      cases hi' : s'.edits i with
      | none =>
        rw [hi'] at hedit
        cases hedit
      | some e' =>
        rw [hi'] at hedit
        cases hedit with
        | some hlike =>
          cases hlike with
          | @pending _ _ e' _ _ _ hf =>
            subst hf
            split at hstep
            next r hr =>
              obtain ⟨k, hk, -⟩ := Option.map_eq_some_iff.mp hstep
              have hrow := h.rows id
              rw [hr] at hrow
              cases hid' : s'.rows id with
              | none =>
                rw [hid'] at hrow
                cases hrow
              | some r' =>
                obtain ⟨k', hk'⟩ := Option.isSome_iff_exists.mp (hcovers.update e e' f k hk)
                refine ⟨{ s'.setRow id { r' with value := k' } with edits := s'.edits.set i .done }, ?_⟩
                dsimp only
                rw [hid']
                exact Option.map_eq_some_iff.mpr ⟨k', hk', rfl⟩
            next => cases hstep
    next => cases hstep

/-- A table is refined by one that treats related rows alike and can do what the other can. -/
theorem Respects.refines {E' : Editing ρ φ κ'} {s' : State ι φ κ'}
    (hrespects : Respects E E' R Eq Eq) (hcovers : Covers E E') (h : Related R Eq s s')
    (hrun : Steps E.Next s as t) : ∃ t', Steps E'.Next s' as t' ∧ Related R Eq t t' := by
  induction hrun generalizing s' with
  | nil s => exact ⟨s', .nil s', h⟩
  | @cons s u t a as hstep _ ih =>
    obtain ⟨u', hstep'⟩ := h.covered hcovers hstep
    obtain ⟨t', hrest, hrelated⟩ := ih (h.step hrespects (.refl a) hstep hstep')
    exact ⟨t', .cons hstep' hrest, hrelated⟩

end Editing

end Lib
