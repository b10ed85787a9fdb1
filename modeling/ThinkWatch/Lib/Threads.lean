import Mathlib.Tactic.Common

/-!
# A pool of threads

Threads are numbered; a number is free or holds the state of one thread. A step of an interleaved
system replaces the state of one thread and leaves the others alone.
-/

namespace Lib

variable {θ : Type*}

/-- The state of every thread that has been started. -/
def Threads (θ : Type*) := Nat → Option θ

namespace Threads

/-- No thread has been started. -/
def none : Threads θ := fun _ => Option.none

/-- Start or replace thread `i`. -/
def set (f : Threads θ) (i : Nat) (p : θ) : Threads θ := fun j => if j = i then some p else f j

@[simp] theorem set_self (f : Threads θ) (i : Nat) (p : θ) : f.set i p i = some p := if_pos rfl

theorem set_ne (f : Threads θ) {i j : Nat} (h : j ≠ i) (p : θ) : f.set i p j = f j := if_neg h

theorem set_eq_some {f : Threads θ} {i j : Nat} {p q : θ} (h : f.set i p j = some q) :
    (j = i ∧ q = p) ∨ (j ≠ i ∧ f j = some q) := by
  unfold set at h
  split at h
  · next hj => exact Or.inl ⟨hj, (Option.some.inj h).symm⟩
  · next hj => exact Or.inr ⟨hj, h⟩

theorem set_set (f : Threads θ) (i : Nat) (p q : θ) : (f.set i p).set i q = f.set i q := by
  funext j
  by_cases hj : j = i
  · subst hj; rw [set_self, set_self]
  · rw [set_ne _ hj, set_ne _ hj, set_ne _ hj]

/--
At most one thread has a property. It stays so when a thread that moves has it already, or gains it
while no other has it.
-/
theorem set_unique {f : Threads θ} {P : θ → Prop} {i : Nat} {p : θ}
    (huniq : ∀ {j k q q'}, f j = some q → f k = some q' → P q → P q' → j = k)
    (hnew : P p → (∃ p₀, f i = some p₀ ∧ P p₀) ∨ ∀ {j q}, f j = some q → ¬ P q) {j k : Nat}
    {q q' : θ} (hj : f.set i p j = some q) (hk : f.set i p k = some q') (hq : P q) (hq' : P q') :
    j = k := by
  rcases set_eq_some hj with ⟨hji, rfl⟩ | ⟨-, hjf⟩
  · rcases set_eq_some hk with ⟨hki, -⟩ | ⟨-, hkf⟩
    · exact hji.trans hki.symm
    · rcases hnew hq with ⟨p₀, hi, hp₀⟩ | hnone
      · exact hji.trans (huniq hi hkf hp₀ hq')
      · exact absurd hq' (hnone hkf)
  · rcases set_eq_some hk with ⟨hki, rfl⟩ | ⟨-, hkf⟩
    · rcases hnew hq' with ⟨p₀, hi, hp₀⟩ | hnone
      · exact (huniq hjf hi hq hp₀).trans hki.symm
      · exact absurd hq (hnone hjf)
    · exact huniq hjf hkf hq hq'

end Threads

end Lib
