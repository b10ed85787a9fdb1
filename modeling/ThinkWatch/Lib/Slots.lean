import Mathlib.Algebra.GroupWithZero.Nat
import Mathlib.Tactic.Common

/-!
# Slots

A pool of entries that are named by their position. A position that was freed stays empty, so a name
is never given twice. `total` adds up what the entries weigh.
-/

namespace Lib

abbrev Slots (α : Type*) := List (Option α)

namespace Slots

variable {α : Type*}

def get (s : Slots α) (i : Nat) : Option α := (s[i]?).join

/-- Replace the entry at a position, or free it. -/
def put (s : Slots α) (i : Nat) (x : Option α) : Slots α := s.set i x

/-- A new entry; its name is `s.length`. -/
def add (s : Slots α) (a : α) : Slots α := s ++ [some a]

def total (s : Slots α) (w : α → Nat) : Nat := (s.map fun x => x.elim 0 w).sum

variable {s : Slots α} {i j : Nat} {a b : α} {x : Option α} {w : α → Nat}

theorem get_eq_some : s.get i = some a ↔ s[i]? = some (some a) := by
  unfold get
  cases s[i]? <;> simp

theorem lt_length_of_get (h : s.get i = some a) : i < s.length :=
  (List.getElem?_eq_some_iff.mp (get_eq_some.mp h)).1

theorem get_length (s : Slots α) : s.get s.length = none := by
  simp [get]

theorem get_put_self (h : s.get i = some a) (x : Option α) : (s.put i x).get i = x := by
  simp [get, put, List.getElem?_set_self (lt_length_of_get h)]

theorem get_put_ne (h : j ≠ i) (x : Option α) : (s.put i x).get j = s.get j := by
  simp [get, put, List.getElem?_set_ne h.symm]

theorem get_add_self (s : Slots α) (a : α) : (s.add a).get s.length = some a := by
  simp [get, add]

theorem get_add_ne (h : j ≠ s.length) (a : α) : (s.add a).get j = s.get j := by
  unfold get add
  rcases Nat.lt_or_ge j s.length with hlt | hge
  · rw [List.getElem?_append_left hlt]
  · rw [List.getElem?_eq_none (by simp; omega), List.getElem?_eq_none hge]

theorem get_add_of_get (h : s.get i = some b) (a : α) : (s.add a).get i = some b := by
  rw [get_add_ne (Nat.ne_of_lt (lt_length_of_get h)), h]

/-- An entry of a pool after one was added: the new one, or one that was there. -/
theorem get_add_eq_some (h : (s.add a).get i = some b) :
    (i = s.length ∧ b = a) ∨ s.get i = some b := by
  by_cases hi : i = s.length
  · subst hi
    exact Or.inl ⟨rfl, Option.some.inj (h.symm.trans (get_add_self s a))⟩
  · exact Or.inr ((get_add_ne hi a).symm.trans h)

/-- An entry of a pool after one was replaced: the new one, or one at another position. -/
theorem get_put_cases (h : (s.put i x).get j = some b) :
    (j = i ∧ x = some b) ∨ (j ≠ i ∧ s.get j = some b) := by
  by_cases hj : j = i
  · subst hj
    unfold get put at h
    by_cases hlt : j < s.length
    · rw [List.getElem?_set_self hlt] at h
      exact Or.inl ⟨rfl, h⟩
    · rw [List.getElem?_eq_none (by simp; omega)] at h
      cases h
  · exact Or.inr ⟨hj, (get_put_ne hj x).symm.trans h⟩

theorem get_put_eq_some (h : (s.put i x).get j = some b) : x = some b ∨ s.get j = some b :=
  (get_put_cases h).imp And.right And.right

theorem mem_of_get (h : s.get i = some a) : some a ∈ s :=
  List.mem_of_getElem? (get_eq_some.mp h)

theorem exists_get_of_mem (h : some a ∈ s) : ∃ i, s.get i = some a := by
  obtain ⟨i, hi⟩ := List.mem_iff_getElem?.mp h
  exact ⟨i, get_eq_some.mpr hi⟩

theorem total_cons (x : Option α) (s : Slots α) (w : α → Nat) :
    total (x :: s) w = x.elim 0 w + total s w := by
  simp [total]

theorem total_add (s : Slots α) (a : α) (w : α → Nat) : (s.add a).total w = s.total w + w a := by
  simp [total, add]

theorem total_put (h : s.get i = some a) (x : Option α) (w : α → Nat) :
    (s.put i x).total w + w a = s.total w + x.elim 0 w := by
  induction s generalizing i with
  | nil => cases h
  | cons y s ih =>
    cases i with
    | zero =>
      obtain rfl : y = some a := h
      show total (x :: s) w + w a = _
      rw [total_cons, total_cons, Option.elim_some]
      omega
    | succ i =>
      have hih := ih h
      show total (y :: put s i x) w + w a = _
      rw [total_cons, total_cons]
      omega

theorem le_total (h : s.get i = some a) (w : α → Nat) : w a ≤ s.total w := by
  have hput := total_put h none w
  rw [Option.elim_none] at hput
  omega

theorem exists_of_total_pos (h : 0 < s.total w) : ∃ i a, s.get i = some a ∧ 0 < w a := by
  induction s with
  | nil => cases h
  | cons y s ih =>
    rw [total_cons] at h
    by_cases hy : 0 < y.elim 0 w
    · cases y with
      | none => cases hy
      | some a => exact ⟨0, a, rfl, hy⟩
    · obtain ⟨i, a, hi, ha⟩ := ih (by omega)
      exact ⟨i + 1, a, hi, ha⟩

end Slots

end Lib
