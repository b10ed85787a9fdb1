import Mathlib.Tactic.Common

/-!
# Folds of updates that each touch one key

A loop over items, each of which changes a keyed state at its own key only. When the keys of
the items are pairwise distinct, the loop acts at each key as the one item with that key does
on the state the loop started from.
-/

namespace Lib

variable {σ α κ β : Type*}

/-- `f` changes what `view` shows at the item's key only, and there by `g`. -/
structure ActsAtKey (view : σ → κ → β) (key : α → κ) (f : σ → α → σ) (g : α → β → β) : Prop where
  other : ∀ s a k, k ≠ key a → view (f s a) k = view s k
  self : ∀ s a, view (f s a) (key a) = g a (view s (key a))

namespace ActsAtKey

variable {view : σ → κ → β} {key : α → κ} {f : σ → α → σ} {g : α → β → β}

/-- A key that no item has keeps its value. -/
theorem foldl_other (h : ActsAtKey view key f g) {k : κ} :
    ∀ (l : List α) (s : σ), (∀ a ∈ l, key a ≠ k) → view (l.foldl f s) k = view s k
  | [], _, _ => rfl
  | a :: l, s, hk => by
    rw [List.foldl_cons, foldl_other h l (f s a) (fun b hb => hk b (by simp [hb]))]
    exact h.other s a k (fun he => hk a (by simp) he.symm)

/-- With distinct keys, an item's key ends with what that item alone makes of it. -/
theorem foldl_self (h : ActsAtKey view key f g) :
    ∀ (l : List α) (s : σ), (l.map key).Nodup → ∀ a ∈ l,
      view (l.foldl f s) (key a) = g a (view s (key a))
  | [], _, _, _, ha => absurd ha List.not_mem_nil
  | b :: l, s, hnd, a, ha => by
    rw [List.map_cons, List.nodup_cons] at hnd
    rw [List.foldl_cons]
    rcases List.mem_cons.mp ha with rfl | ha
    · have hk : ∀ c ∈ l, key c ≠ key a := fun c hc he => hnd.1 (he ▸ List.mem_map_of_mem hc)
      rw [foldl_other h l _ hk]
      exact h.self s a
    · have hne : key a ≠ key b := fun he => hnd.1 (he ▸ List.mem_map_of_mem ha)
      rw [foldl_self h l _ hnd.2 a ha, h.other s b _ hne]

end ActsAtKey

end Lib
