import Mathlib.Data.List.Nodup
import Mathlib.Data.List.Perm.Subperm
import Mathlib.Tactic.Common

/-!
# Names that are not taken

`firstFree` looks through numbered candidates for one that is not taken; when the candidates differ
from each other, it finds one after at most as many tries as names are taken. `assign` gives every
element of a list a name, each different from the names before it.
-/

namespace Lib

variable {α ρ γ : Type*} {a : α} {taken as : List α} {candidates : Nat → α}
  {fuel fuel' i : Nat}

/-! ## The first free candidate -/

section Search

variable [DecidableEq α]

/-- The first candidate from number `i` on that is free; `none` when `fuel` tries find none. -/
def firstFree (taken : List α) (candidates : Nat → α) : Nat → Nat → Option α
  | 0, _ => none
  | fuel + 1, i =>
    if candidates i ∈ taken then firstFree taken candidates fuel (i + 1) else some (candidates i)

theorem firstFree_free (h : candidates i ∉ taken) :
    firstFree taken candidates (fuel + 1) i = some (candidates i) := if_neg h

theorem notMem_of_firstFree (h : firstFree taken candidates fuel i = some a) : a ∉ taken := by
  induction fuel generalizing i with
  | zero => cases h
  | succ fuel ih =>
    rw [firstFree] at h
    split at h
    · exact ih h
    · next hfree => exact Option.some.inj h ▸ hfree

/-- What is found after a candidate that is taken has a higher number. -/
theorem exists_of_firstFree (h : firstFree taken candidates fuel i = some a) :
    ∃ k, i ≤ k ∧ a = candidates k := by
  induction fuel generalizing i with
  | zero => cases h
  | succ fuel ih =>
    rw [firstFree] at h
    split at h
    · obtain ⟨k, hk, rfl⟩ := ih h
      exact ⟨k, Nat.le_of_succ_le hk, rfl⟩
    · exact ⟨i, Nat.le_refl i, (Option.some.inj h).symm⟩

theorem mem_of_firstFree_eq_none (h : firstFree taken candidates fuel i = none) :
    ∀ j < fuel, candidates (i + j) ∈ taken := by
  induction fuel generalizing i with
  | zero => exact fun j hj => absurd hj (Nat.not_lt_zero j)
  | succ fuel ih =>
    rw [firstFree] at h
    split at h
    · next htaken =>
      intro j hj
      cases j with
      | zero => exact htaken
      | succ j =>
        rw [Nat.add_comm j 1, ← Nat.add_assoc]
        exact ih h j (Nat.lt_of_succ_lt_succ hj)
    · cases h

/-- Among more candidates than names that are taken, one is free. -/
theorem isSome_firstFree (hinj : Function.Injective candidates) (h : taken.length < fuel) :
    (firstFree taken candidates fuel i).isSome := by
  by_contra hnone
  have hall := mem_of_firstFree_eq_none (Option.not_isSome_iff_eq_none.mp hnone)
  have hnodup : ((List.range fuel).map fun j => candidates (i + j)).Nodup :=
    List.nodup_range.map fun _ _ hij => Nat.add_left_cancel (hinj hij)
  have hsub : ((List.range fuel).map fun j => candidates (i + j)) ⊆ taken := by
    intro b hb
    obtain ⟨j, hj, rfl⟩ := List.mem_map.mp hb
    exact hall j (List.mem_range.mp hj)
  have hle := (hnodup.subperm hsub).length_le
  rw [List.length_map, List.length_range] at hle
  omega

/-- More tries find the same candidate. -/
theorem firstFree_mono (h : firstFree taken candidates fuel i = some a) (hle : fuel ≤ fuel') :
    firstFree taken candidates fuel' i = some a := by
  induction fuel generalizing i fuel' with
  | zero => cases h
  | succ fuel ih =>
    obtain ⟨fuel', rfl⟩ : ∃ n, fuel' = n + 1 := ⟨fuel' - 1, by omega⟩
    rw [firstFree] at h ⊢
    split at h
    · next htaken =>
      rw [if_pos htaken]
      exact ih h (Nat.le_of_succ_le_succ hle)
    · next hfree => rw [if_neg hfree, h]

end Search

/-! ## A name for each -/

/-- A wanted name that is free is given as it is, and what is given is free. -/
structure Freshening (unique : List α → α → α) : Prop where
  notMem : ∀ taken a, unique taken a ∉ taken
  keeps : ∀ taken a, a ∉ taken → unique taken a = a

section Assign

variable {unique : List α → α → α} {wanted : ρ → α} {make : ρ → α → γ} {rs : List ρ} {P : α → Prop}

/-- The names given for a list of wanted ones; a name that is given is taken from then on. -/
def given (unique : List α → α → α) : List α → List α → List α
  | _, [] => []
  | taken, a :: as => unique taken a :: given unique (unique taken a :: taken) as

/-- What is made of each element and its name. -/
def assign (unique : List α → α → α) (wanted : ρ → α) (make : ρ → α → γ) :
    List α → List ρ → List γ
  | _, [] => []
  | taken, r :: rs =>
    let a := unique taken (wanted r)
    make r a :: assign unique wanted make (a :: taken) rs

theorem map_assign {name : γ → α} (h : ∀ r a, name (make r a) = a) (taken : List α) (rs : List ρ) :
    (assign unique wanted make taken rs).map name = given unique taken (rs.map wanted) := by
  induction rs generalizing taken with
  | nil => rfl
  | cons r rs ih => rw [assign, List.map_cons, List.map_cons, given, h, ih]

theorem exists_of_mem_assign {c : γ} (h : c ∈ assign unique wanted make taken rs) :
    ∃ r ∈ rs, ∃ a, c = make r a := by
  induction rs generalizing taken with
  | nil => cases h
  | cons r rs ih =>
    rcases List.mem_cons.mp h with rfl | h
    · exact ⟨r, List.mem_cons_self, _, rfl⟩
    · obtain ⟨r', hr', ha⟩ := ih h
      exact ⟨r', List.mem_cons_of_mem _ hr', ha⟩

theorem Freshening.notMem_given (hf : Freshening unique) (h : a ∈ taken) :
    a ∉ given unique taken as := by
  induction as generalizing taken with
  | nil => exact List.not_mem_nil
  | cons b as ih =>
    intro ha
    rcases List.mem_cons.mp ha with rfl | ha
    · exact hf.notMem taken b h
    · exact ih (List.mem_cons_of_mem _ h) ha

theorem Freshening.nodup_given (hf : Freshening unique) (taken as : List α) :
    (given unique taken as).Nodup := by
  induction as generalizing taken with
  | nil => exact List.nodup_nil
  | cons a as ih => exact List.nodup_cons.mpr ⟨hf.notMem_given List.mem_cons_self, ih _⟩

/--
When the names that replace a taken one are `P` by themselves, all given names are exactly when all
wanted ones are: the first who wants a name gets it.
-/
theorem Freshening.forall_given_iff (hf : Freshening unique)
    (hnew : ∀ taken a, a ∈ taken → P (unique taken a)) (htaken : ∀ a ∈ taken, P a) :
    (∀ a ∈ given unique taken as, P a) ↔ ∀ a ∈ as, P a := by
  induction as generalizing taken with
  | nil => simp [given]
  | cons a as ih =>
    have hiff : P (unique taken a) ↔ P a := by
      by_cases ha : a ∈ taken
      · exact iff_of_true (hnew taken a ha) (htaken a ha)
      · rw [hf.keeps taken a ha]
    rw [given, List.forall_mem_cons, List.forall_mem_cons, hiff]
    refine and_congr_right fun ha => ih ?_
    exact List.forall_mem_cons.mpr ⟨hiff.mpr ha, htaken⟩

end Assign

end Lib
