import Mathlib.Tactic.Common

/-!
# Computations that may refuse

A handler is a sequence of checks followed by a write, in `Except`. `refuseIf` is the check; the
lemmas say what is known once the whole sequence has succeeded.
-/

namespace Lib

variable {ε α β : Type}

/-- Refuse with `e` when `c` holds. -/
def refuseIf (c : Prop) [Decidable c] (e : ε) : Except ε Unit :=
  if c then .error e else .ok ()

theorem refuseIf_ok {c : Prop} [Decidable c] {e : ε} {x : Unit} :
    refuseIf c e = .ok x ↔ ¬ c := by
  unfold refuseIf
  by_cases h : c
  · simp [h]
  · simp [h]

/-- A sequence succeeds when both parts do. -/
theorem bind_ok {x : Except ε α} {f : α → Except ε β} {b : β} :
    (x >>= f) = .ok b ↔ ∃ a, x = .ok a ∧ f a = .ok b := by
  constructor
  · intro h
    cases hx : x with
    | error e =>
      rw [hx] at h
      cases h
    | ok a =>
      rw [hx] at h
      exact ⟨a, rfl, h⟩
  · rintro ⟨a, rfl, hf⟩
    exact hf

/-- After a check that has passed comes the rest. -/
theorem refuseIf_bind_ok {c : Prop} [Decidable c] {e : ε} {f : Unit → Except ε β} {b : β} :
    (refuseIf c e >>= f) = .ok b ↔ ¬ c ∧ f () = .ok b := by
  rw [bind_ok]
  constructor
  · rintro ⟨x, h, hf⟩
    exact ⟨refuseIf_ok.mp h, hf⟩
  · rintro ⟨h, hf⟩
    exact ⟨(), refuseIf_ok.mpr h, hf⟩

theorem pure_ok {a b : α} : (pure a : Except ε α) = .ok b ↔ a = b :=
  Except.ok.injEq a b ▸ Iff.rfl

/-- The value of an `Option`, or a refusal. -/
def orRefuse (x : Option α) (e : ε) : Except ε α :=
  match x with
  | some a => .ok a
  | none => .error e

theorem orRefuse_ok {x : Option α} {e : ε} {a : α} : orRefuse x e = .ok a ↔ x = some a := by
  cases x with
  | none => simp [orRefuse]
  | some b => simp [orRefuse]

/-- A traversal that succeeds has a result for every element, and nothing else. -/
theorem mem_of_mapM_some {f : α → Option β} {xs : List α} {ys : List β}
    (h : xs.mapM f = some ys) :
    (∀ x ∈ xs, ∃ y ∈ ys, f x = some y) ∧ ∀ y ∈ ys, ∃ x ∈ xs, f x = some y := by
  induction xs generalizing ys with
  | nil =>
    cases h
    exact ⟨nofun, nofun⟩
  | cons x xs ih =>
    rw [List.mapM_cons] at h
    simp only [Option.bind_eq_bind, Option.bind_eq_some_iff] at h
    obtain ⟨z, hz, zs, hzs, heq⟩ := h
    cases heq
    obtain ⟨hto, hfrom⟩ := ih hzs
    constructor
    · intro y hy
      rcases List.mem_cons.mp hy with rfl | hy
      · exact ⟨z, List.mem_cons_self, hz⟩
      · obtain ⟨w, hw, hf⟩ := hto y hy
        exact ⟨w, List.mem_cons_of_mem _ hw, hf⟩
    · intro w hw
      rcases List.mem_cons.mp hw with rfl | hw
      · exact ⟨x, List.mem_cons_self, hz⟩
      · obtain ⟨y, hy, hf⟩ := hfrom w hw
        exact ⟨y, List.mem_cons_of_mem _ hy, hf⟩

/-- A traversal that succeeds has one result for each element, in their order. -/
theorem forall₂_of_mapM_ok {f : α → Except ε β} {xs : List α} {ys : List β}
    (h : xs.mapM f = .ok ys) : List.Forall₂ (fun x y => f x = .ok y) xs ys := by
  induction xs generalizing ys with
  | nil =>
    cases h
    exact .nil
  | cons x xs ih =>
    rw [List.mapM_cons, bind_ok] at h
    obtain ⟨y, hy, h⟩ := h
    rw [bind_ok] at h
    obtain ⟨zs, hzs, h⟩ := h
    obtain rfl := pure_ok.mp h
    exact .cons hy (ih hzs)

/-- A traversal is refused for the first element that is. -/
theorem mapM_error_iff {f : α → Except ε β} {refusal : α → Option ε} {xs : List α} {e : ε}
    (h : ∀ x ∈ xs, ∀ e, f x = .error e ↔ refusal x = some e) :
    xs.mapM f = .error e ↔ xs.findSome? refusal = some e := by
  induction xs with
  | nil => exact ⟨nofun, nofun⟩
  | cons x xs ih =>
    have ih := ih fun y hy => h y (List.mem_cons_of_mem _ hy)
    have hx := h x List.mem_cons_self
    rw [List.mapM_cons, List.findSome?_cons]
    cases hf : f x with
    | error e' =>
      rw [(hx e').mp hf]
      exact ⟨fun heq => congrArg some (Except.error.inj heq),
        fun heq => congrArg Except.error (Option.some.inj heq)⟩
    | ok y =>
      have hnone : refusal x = none := by
        cases hr : refusal x with
        | none => rfl
        | some e' => exact absurd (hf.symm.trans ((hx e').mpr hr)) (by simp)
      rw [hnone]
      cases hxs : xs.mapM f with
      | error e' => exact (iff_of_eq (congrArg (· = _) hxs.symm)).trans ih
      | ok ys =>
        have hne : xs.findSome? refusal ≠ some e := fun hsome => by
          have herror := ih.mpr hsome
          rw [hxs] at herror
          cases herror
        exact iff_of_false (by simp [bind, Except.bind, pure, Except.pure]) hne

/-- A search that succeeds has found something. -/
theorem exists_of_anyM {f : α → Option Bool} {xs : List α}
    (h : xs.anyM f = some true) : ∃ x ∈ xs, f x = some true := by
  induction xs with
  | nil => cases h
  | cons x xs ih =>
    rw [List.anyM] at h
    simp only [Option.bind_eq_bind, Option.bind_eq_some_iff] at h
    obtain ⟨b, hb, h⟩ := h
    cases b with
    | true => exact ⟨x, List.mem_cons_self, hb⟩
    | false =>
      obtain ⟨y, hy, hf⟩ := ih h
      exact ⟨y, List.mem_cons_of_mem _ hy, hf⟩

end Lib
