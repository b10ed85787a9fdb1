import Mathlib.Tactic.Common

/-!
# One step for each element of a list

`each f as s` does the step `f` for the elements of `as` in order and collects what the steps
return. Two such loops are compared step by step.
-/

namespace Lib

variable {α β γ σ : Type*}

def each (f : α → σ → β × σ) : List α → σ → List β × σ
  | [], s => ([], s)
  | a :: as, s =>
    let (b, s) := f a s
    let (bs, s) := each f as s
    (b :: bs, s)

variable {f : α → σ → β × σ} {g : α → σ → γ × σ} {as : List α}

@[simp]
theorem each_nil (s : σ) : each f [] s = ([], s) := rfl

@[simp]
theorem each_cons (a : α) (s : σ) :
    each f (a :: as) s = ((f a s).1 :: (each f as (f a s).2).1, (each f as (f a s).2).2) := rfl

/-- Steps that leave the same state, whatever they return. -/
theorem each_state_congr (h : ∀ a ∈ as, ∀ s, (f a s).2 = (g a s).2) (s : σ) :
    (each f as s).2 = (each g as s).2 := by
  induction as generalizing s with
  | nil => rfl
  | cons a as ih =>
    simp only [each_cons]
    rw [h a List.mem_cons_self s]
    exact ih (fun a ha => h a (List.mem_cons_of_mem _ ha)) _

/-- What is read off a result does not depend on the state. -/
theorem each_map (as : List α) (p : β → γ) {q : α → γ} (h : ∀ a s, p (f a s).1 = q a) (s : σ) :
    (each f as s).1.map p = as.map q := by
  induction as generalizing s with
  | nil => rfl
  | cons a as ih =>
    simp only [each_cons, List.map_cons]
    rw [h, ih]

theorem each_preserves {P : σ → Prop} (h : ∀ a ∈ as, ∀ s, P s → P (f a s).2) {s : σ} (hs : P s) :
    P (each f as s).2 := by
  induction as generalizing s with
  | nil => exact hs
  | cons a as ih =>
    exact ih (fun a ha => h a (List.mem_cons_of_mem _ ha)) (h a List.mem_cons_self s hs)

/-- A loop none of whose steps changes the state. -/
theorem each_state (h : ∀ a ∈ as, ∀ s, (f a s).2 = s) (s : σ) : (each f as s).2 = s :=
  each_preserves (P := (· = s)) (fun a ha t ht => (h a ha t).trans ht) rfl

end Lib
