import Mathlib.Data.List.Nodup
import Mathlib.Tactic.Common

/-!
# Delivery in order and once

What is received is stored in order, kept for later, or given up. `Delivered` says that what is stored
followed by what is kept is what was received, in order, without what was given up.
-/

namespace Lib

variable {α : Type*} [DecidableEq α] {received stored kept dropped : List α} {x : α}

structure Delivered (received stored kept dropped : List α) : Prop where
  nodup : received.Nodup
  order : stored ++ kept = received.filter (· ∉ dropped)
  known : ∀ y ∈ dropped, y ∈ received

namespace Delivered

theorem nil : Delivered ([] : List α) [] [] [] := ⟨List.nodup_nil, rfl, nofun⟩

theorem nodup_append (h : Delivered received stored kept dropped) : (stored ++ kept).Nodup := by
  rw [h.order]
  exact h.nodup.filter _

theorem nodup_stored (h : Delivered received stored kept dropped) : stored.Nodup :=
  (List.nodup_append.mp h.nodup_append).1

/-- Something new is kept at the end. -/
theorem receive (h : Delivered received stored kept dropped) (hx : x ∉ received) :
    Delivered (received ++ [x]) stored (kept ++ [x]) dropped where
  nodup := h.nodup.append (List.nodup_singleton x) (by simpa using hx)
  order := by
    have hnew : x ∉ dropped := fun hmem => hx (h.known x hmem)
    rw [← List.append_assoc, h.order, List.filter_append, List.filter_singleton]
    simp [hnew]
  known y hy := List.mem_append_left [x] (h.known y hy)

/-- All that is kept is stored. -/
theorem deliver (h : Delivered received stored kept dropped) :
    Delivered received (stored ++ kept) [] dropped :=
  ⟨h.nodup, by rw [List.append_nil, h.order], h.known⟩

/-- The oldest of what is kept are given up. -/
theorem giveUp (h : Delivered received stored kept dropped) (n : Nat) :
    Delivered received stored (kept.drop n) (dropped ++ kept.take n) where
  nodup := h.nodup
  order := by
    have hsplit : received.filter (· ∉ dropped ++ kept.take n) =
        (stored ++ kept).filter (· ∉ kept.take n) := by
      rw [h.order, List.filter_filter]
      refine List.filter_congr fun y _ => ?_
      by_cases hd : y ∈ dropped <;> simp [hd]
    have hnodup := h.nodup_append
    rw [← List.take_append_drop n kept] at hnodup
    have hstored : ∀ y ∈ stored, y ∉ kept.take n := fun y hy hmem =>
      (List.nodup_append.mp hnodup).2.2 y hy y (List.mem_append_left _ hmem) rfl
    have hkept : ∀ y ∈ kept.drop n, y ∉ kept.take n := fun y hy hmem =>
      (List.nodup_append.mp (List.nodup_append.mp hnodup).2.1).2.2 y hmem y hy rfl
    have hall : ∀ l : List α, (∀ y ∈ l, y ∉ kept.take n) → l.filter (· ∉ kept.take n) = l :=
      fun l hl => List.filter_eq_self.mpr fun y hy => decide_eq_true (hl y hy)
    have hnone : (kept.take n).filter (· ∉ kept.take n) = [] :=
      List.filter_eq_nil_iff.mpr fun y hy => by simpa using hy
    have hrest : kept.filter (· ∉ kept.take n) = kept.drop n := calc
      kept.filter (· ∉ kept.take n)
      _ = (kept.take n ++ kept.drop n).filter (· ∉ kept.take n) := by rw [List.take_append_drop]
      _ = kept.drop n := by rw [List.filter_append, hnone, List.nil_append, hall _ hkept]
    rw [hsplit, List.filter_append, hall stored hstored, hrest]
  known y hy := by
    rcases List.mem_append.mp hy with hy | hy
    · exact h.known y hy
    · have hmem : y ∈ stored ++ kept := List.mem_append_right _ (List.mem_of_mem_take hy)
      rw [h.order] at hmem
      exact List.mem_of_mem_filter hmem

end Delivered

end Lib
