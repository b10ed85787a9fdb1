import Mathlib.Order.Nat
import Mathlib.Tactic.Common

/-!
# A cell with its past

A cell whose writes are numbered, and reads of it that say how many writes they saw. Two reads that
saw the same number of writes have the same value; a read that saw all of them has the present one.
-/

namespace Lib

variable {α β : Type*}

/-- What a read returned, and how many writes it saw. -/
structure Read (α : Type*) where
  value : α
  seen : Nat
deriving Repr

/-- The value of a read through `f`. -/
def Read.map (f : α → β) (r : Read α) : Read β := ⟨f r.value, r.seen⟩

@[simp] theorem Read.map_seen (f : α → β) (r : Read α) : (r.map f).seen = r.seen := rfl

namespace Read

/-- `new` put in the place of `old`; what was known of the older one stays known. -/
def replacing (new old : Read α) : Read α := ⟨new.value, max old.seen new.seen⟩

/-- `new` does not put an older value, different from it, in the place of `old`. -/
def InOrder (new old : Read α) : Prop := old.seen ≤ new.seen ∨ new.value = old.value

instance [DecidableEq α] (new old : Read α) : Decidable (new.InOrder old) :=
  inferInstanceAs (Decidable (_ ∨ _))

@[simp] theorem replacing_value (new old : Read α) : (new.replacing old).value = new.value := rfl

@[simp] theorem replacing_seen (new old : Read α) :
    (new.replacing old).seen = max old.seen new.seen := rfl

end Read

/-- A cell: the values it has had, oldest first, and the value it has. -/
structure History (α : Type*) where
  past : List α
  now : α
deriving Repr

namespace History

/-- Write the cell. -/
def commit (h : History α) (x : α) : History α := ⟨h.past ++ [h.now], x⟩

/-- The number of writes. -/
def count (h : History α) : Nat := h.past.length

def read (h : History α) : Read α := ⟨h.now, h.count⟩

/-- The value after the first `k` writes. -/
def after (h : History α) (k : Nat) : Option α := (h.past ++ [h.now])[k]?

/-- `r` is what a read of `f` of the cell returned. -/
def Gives (h : History α) (f : α → β) (r : Read β) : Prop := (h.after r.seen).map f = some r.value

/-- `v` is what `f` gives of a value the cell has had since its first `n` writes. -/
def NoOlder (h : History α) (f : α → β) (n : Nat) (v : β) : Prop :=
  ∃ k, n ≤ k ∧ (h.after k).map f = some v

variable {h : History α} {f : α → β} {r r' : Read β} {x : α} {n m : Nat} {v : β}

@[simp] theorem count_commit : (h.commit x).count = h.count + 1 := by
  simp [count, commit]

@[simp] theorem now_commit : (h.commit x).now = x := rfl

theorem after_count : h.after h.count = some h.now := by
  simp [after, count]

theorem gives_read : h.Gives id h.read := by
  show (h.after h.count).map id = some h.now
  rw [after_count]
  rfl

namespace Gives

theorem le (g : h.Gives f r) : r.seen ≤ h.count := by
  by_contra hlt
  have hnone : h.after r.seen = none := by
    refine List.getElem?_eq_none ?_
    rw [List.length_append, List.length_singleton]
    unfold count at hlt
    omega
  unfold Gives at g
  rw [hnone] at g
  cases g

theorem commit (g : h.Gives f r) : (h.commit x).Gives f r := by
  have hlt : r.seen < (h.past ++ [h.now]).length := by
    have hle := g.le
    rw [List.length_append, List.length_singleton]
    unfold count at hle
    omega
  unfold Gives after History.commit at *
  rw [List.getElem?_append_left hlt]
  exact g

theorem value_eq (g : h.Gives f r) (g' : h.Gives f r') (hseen : r.seen = r'.seen) :
    r.value = r'.value := by
  unfold Gives at g g'
  rw [hseen, g'] at g
  exact (Option.some.inj g).symm

theorem value_now (g : h.Gives f r) (hseen : r.seen = h.count) : r.value = f h.now := by
  unfold Gives at g
  rw [hseen, after_count] at g
  exact (Option.some.inj g).symm

theorem replacing {new old : Read β} (g : h.Gives f new) (g' : h.Gives f old)
    (hin : new.InOrder old) : h.Gives f (new.replacing old) := by
  rcases Nat.le_total old.seen new.seen with hle | hle
  · have hsame : new.replacing old = new := by rw [Read.replacing, Nat.max_eq_right hle]
    rw [hsame]
    exact g
  · have hvalue : new.value = old.value := by
      rcases hin with hle' | hvalue
      · exact value_eq g g' (Nat.le_antisymm hle hle')
      · exact hvalue
    have hsame : new.replacing old = old := by rw [Read.replacing, Nat.max_eq_left hle, hvalue]
    rw [hsame]
    exact g'

theorem map {γ : Type*} {k : β → γ} (g : h.Gives f r) : h.Gives (k ∘ f) (r.map k) := by
  unfold Gives at *
  rw [Read.map_seen, ← Option.map_map, g]
  rfl

end Gives

namespace NoOlder

theorem of_gives (g : h.Gives f r) (hn : n ≤ r.seen) : h.NoOlder f n r.value := ⟨r.seen, hn, g⟩

/-- A read that is no older than another, or has its value, is no older than the other saw. -/
theorem of_inOrder {old : Read β} (g : h.Gives f r) (g' : h.Gives f old) (hin : r.InOrder old) :
    h.NoOlder f old.seen r.value := by
  rcases hin with hle | hvalue
  · exact of_gives g hle
  · rw [hvalue]
    exact of_gives g' le_rfl

theorem mono (hv : h.NoOlder f n v) (hmn : m ≤ n) : h.NoOlder f m v := by
  obtain ⟨k, hk, hval⟩ := hv
  exact ⟨k, hmn.trans hk, hval⟩

theorem commit (hv : h.NoOlder f n v) : (h.commit x).NoOlder f n v := by
  obtain ⟨k, hk, hval⟩ := hv
  have g : h.Gives f ⟨v, k⟩ := hval
  exact ⟨k, hk, g.commit⟩

end NoOlder

end History

end Lib
