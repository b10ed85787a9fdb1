import Mathlib.Algebra.Group.Defs
import Mathlib.Order.Lattice
import Mathlib.Tactic.Common

/-!
# A weighted random pick

The walk along cumulative weights that a draw from `[0, total)` stops. An item without weight
is never where it stops, and it stops somewhere when the draw is below the total.
-/

namespace Lib

variable {α K : Type*} [AddMonoid K] [LinearOrder K] (w : α → K) {draw acc : K} {l : List α} {x : α}

/-- The first item at which the sum of the weights so far, from `acc` on, is above the draw. -/
def weightedWalk (draw : K) : K → List α → Option α
  | _, [] => none
  | acc, x :: l => if draw < acc + w x then some x else weightedWalk draw (acc + w x) l

/-- The sum of all weights, from the left. -/
def totalWeight (l : List α) : K := l.foldl (fun acc x => acc + w x) 0

variable {w}

/-- The walk stops at an item with weight. -/
theorem weightedWalk_some (hacc : ¬ draw < acc) (h : weightedWalk w draw acc l = some x) :
    x ∈ l ∧ w x ≠ 0 := by
  induction l generalizing acc with
  | nil => cases h
  | cons y l ih =>
    rw [weightedWalk] at h
    split at h
    next hlt =>
      obtain rfl : y = x := Option.some.inj h
      refine ⟨List.mem_cons_self, fun hzero => hacc ?_⟩
      rwa [hzero, add_zero] at hlt
    next hnlt =>
      obtain ⟨hmem, hw⟩ := ih hnlt h
      exact ⟨List.mem_cons_of_mem _ hmem, hw⟩

/-- A draw below the total is stopped. -/
theorem weightedWalk_ne_none (hacc : ¬ draw < acc)
    (h : draw < l.foldl (fun acc x => acc + w x) acc) : weightedWalk w draw acc l ≠ none := by
  induction l generalizing acc with
  | nil => exact absurd h hacc
  | cons y l ih =>
    rw [weightedWalk]
    split
    · exact Option.some_ne_none _
    next hnlt => exact ih hnlt h

end Lib
