import Mathlib.Data.List.Nodup
import Mathlib.Tactic.Common

/-!
# Rows of a table

A table as the list of its rows. The search for the first row that meets a condition, and what an
update or a deletion of the rows that meet one leaves to be found.
-/

namespace Lib

variable {α κ : Type*} {rows : List α} {p q : α → Bool} {f : α → α} {x : α}

theorem find?_eq_some_of_unique (hx : x ∈ rows) (hp : p x = true)
    (hunique : ∀ y ∈ rows, p y = true → y = x) : rows.find? p = some x := by
  cases hfind : rows.find? p with
  | none => exact absurd hp (List.find?_eq_none.mp hfind x hx)
  | some y => rw [hunique y (List.mem_of_find?_eq_some hfind) (List.find?_some hfind)]

/-- A key that no two rows share finds the row itself. -/
theorem find?_eq_some_of_nodup [DecidableEq κ] {key : α → κ} (hkeys : (rows.map key).Nodup)
    (hx : x ∈ rows) : rows.find? (fun y => key y = key x) = some x := by
  refine find?_eq_some_of_unique hx (decide_eq_true rfl) fun y hy hkey => ?_
  exact List.inj_on_of_nodup_map hkeys hy hx (of_decide_eq_true hkey)

/-- The condition looks at what the update leaves alone. -/
theorem find?_update (hf : ∀ x, q (f x) = q x) :
    (rows.map fun x => if p x then f x else x).find? q =
      (rows.find? q).map fun x => if p x then f x else x := by
  rw [List.find?_map]
  congr 2
  funext x
  rw [Function.comp_apply]
  split
  · exact hf x
  · rfl

theorem find?_update_self (hf : ∀ x, p (f x) = p x) :
    (rows.map fun x => if p x then f x else x).find? p = (rows.find? p).map f := by
  rw [find?_update hf]
  cases hfind : rows.find? p with
  | none => rfl
  | some x =>
    show some (if p x then f x else x) = some (f x)
    rw [if_pos (List.find?_some hfind)]

theorem find?_update_other (hf : ∀ x, q (f x) = q x) (hne : ∀ x, q x = true → p x = false) :
    (rows.map fun x => if p x then f x else x).find? q = rows.find? q := by
  rw [find?_update hf]
  cases hfind : rows.find? q with
  | none => rfl
  | some x =>
    show some (if p x then f x else x) = some x
    rw [hne x (List.find?_some hfind), if_neg Bool.false_ne_true]

theorem find?_delete_self : (rows.filter fun x => !p x).find? p = none := by
  rw [List.find?_eq_none]
  intro x hx hp
  have hnot := (List.mem_filter.mp hx).2
  rw [hp] at hnot
  cases hnot

theorem find?_delete_other (hne : ∀ x, q x = true → p x = false) :
    (rows.filter fun x => !p x).find? q = rows.find? q := by
  rw [List.find?_filter]
  congr 1
  funext x
  cases hq : q x with
  | false => exact decide_eq_false fun h => Bool.false_ne_true h.2
  | true =>
    rw [hne x hq]
    rfl

end Lib
