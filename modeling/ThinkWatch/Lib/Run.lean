import Mathlib.Tactic.Common

/-!
# Runs of a step relation

A system is given by a relation `R s a s'` ("action `a` may take state `s` to `s'`").
`Steps R s as t` is a run that performs the actions `as` in order. A run all of whose steps
meet a condition `C` is a run of the relation `fun s a s' => C s a ∧ R s a s'`, so that one
induction rule serves both plain and conditional safety results.
-/

namespace Lib

variable {σ α : Type*} {R : σ → α → σ → Prop} {s t u : σ} {a : α} {as bs : List α}

/-- A finite run of the step relation `R`, with the actions it performed. -/
inductive Steps (R : σ → α → σ → Prop) : σ → List α → σ → Prop where
  | nil (s : σ) : Steps R s [] s
  | cons {s s' t : σ} {a : α} {as : List α} (h : R s a s') (rest : Steps R s' as t) :
      Steps R s (a :: as) t

namespace Steps

theorem single (h : R s a t) : Steps R s [a] t := .cons h (.nil t)

theorem append (h : Steps R s as t) (h' : Steps R t bs u) : Steps R s (as ++ bs) u := by
  induction h with
  | nil _ => exact h'
  | cons h _ ih => exact .cons h (ih h')

theorem snoc (h : Steps R s as t) (h' : R t a u) : Steps R s (as ++ [a]) u :=
  h.append (single h')

theorem of_append (h : Steps R s (as ++ bs) u) : ∃ t, Steps R s as t ∧ Steps R t bs u := by
  induction as generalizing s with
  | nil => exact ⟨s, .nil s, h⟩
  | cons a as ih =>
    cases h with
    | cons h rest =>
      obtain ⟨t, has, hbs⟩ := ih rest
      exact ⟨t, .cons h has, hbs⟩

/-- A run of a system that is given by a function. -/
theorem of_foldlM {f : σ → α → Option σ} (h : as.foldlM f s = some t) :
    Steps (fun s a s' => f s a = some s') s as t := by
  induction as generalizing s with
  | nil =>
    obtain rfl := Option.some.inj h
    exact .nil s
  | cons a as ih =>
    obtain ⟨s', ha, has⟩ := Option.bind_eq_some_iff.mp h
    exact .cons ha (ih has)

/-- The function gives the end of its run. -/
theorem foldlM_eq {f : σ → α → Option σ} (h : Steps (fun s a s' => f s a = some s') s as t) :
    as.foldlM f s = some t := by
  induction h with
  | nil s => rfl
  | cons ha _ ih => exact Option.bind_eq_some_iff.mpr ⟨_, ha, ih⟩

/-- A run of a function whose steps all meet a condition. -/
theorem of_foldlM_if {f : σ → α → Option σ} {C : σ → α → Prop} [∀ s a, Decidable (C s a)]
    (h : as.foldlM (fun s a => if C s a then f s a else none) s = some t) :
    Steps (fun s a s' => C s a ∧ f s a = some s') s as t := by
  induction as generalizing s with
  | nil =>
    obtain rfl := Option.some.inj h
    exact .nil s
  | cons a as ih =>
    obtain ⟨s', ha, has⟩ := Option.bind_eq_some_iff.mp h
    exact .cons (Option.ite_none_right_eq_some.mp ha) (ih has)

/-- What every step preserves, a run preserves. -/
theorem invariant {I : σ → Prop} (step : ∀ s a s', I s → R s a s' → I s')
    (h : Steps R s as t) (hs : I s) : I t := by
  induction h with
  | nil _ => exact hs
  | cons h _ ih => exact ih (step _ _ _ hs h)

/-- A run of a stronger relation is a run of a weaker one. -/
theorem mono {R' : σ → α → σ → Prop} (hR : ∀ s a s', R s a s' → R' s a s')
    (h : Steps R s as t) : Steps R' s as t := by
  induction h with
  | nil s => exact .nil s
  | cons h _ ih => exact .cons (hR _ _ _ h) ih

/-- The actions of a run have what every step's action has. -/
theorem forall_mem {P : α → Prop} (hP : ∀ s a s', R s a s' → P a) (h : Steps R s as t) :
    ∀ a ∈ as, P a := by
  induction h with
  | nil _ => exact fun _ ha => absurd ha List.not_mem_nil
  | cons h _ ih =>
    intro b hb
    rcases List.mem_cons.mp hb with rfl | hb
    · exact hP _ _ _ h
    · exact ih b hb

/-- A run whose actions all meet `P` is a run of the relation that asks for `P`. -/
theorem restrict {P : α → Prop} (h : Steps R s as t) (hP : ∀ a ∈ as, P a) :
    Steps (fun s a s' => P a ∧ R s a s') s as t := by
  induction h with
  | nil s => exact .nil s
  | cons h _ ih => exact .cons ⟨hP _ (by simp), h⟩ (ih fun b hb => hP b (by simp [hb]))

/-- Under an invariant, a run of `R` is a run of what `R` implies there. -/
theorem under {R' : σ → α → σ → Prop} {I : σ → Prop}
    (step : ∀ s a s', I s → R s a s' → I s' ∧ R' s a s') (h : Steps R s as t) (hs : I s) :
    Steps R' s as t := by
  induction h with
  | nil s => exact .nil s
  | cons h _ ih =>
    obtain ⟨hs', h'⟩ := step _ _ _ hs h
    exact .cons h' (ih hs')

end Steps

end Lib
