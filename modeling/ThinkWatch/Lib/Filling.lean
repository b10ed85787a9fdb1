import Mathlib.Tactic.Common

/-!
# Texts with blanks

A form is a list of blanks, each with the literal text before it, and the text after the last one.
`fill f` writes `f x` where the form has the blank `x`. Two fillings that give the same text differ
at most where one filler begins the other, and at most where one ends the other.
-/

namespace Lib

variable {α : Type*} {f g : List α → List α} {tail : List α} {ps : List (List α × List α)}

/-- The form with every blank filled in. -/
def fill (f : List α → List α) (tail : List α) : List (List α × List α) → List α
  | [] => tail
  | (literal, x) :: ps => literal ++ f x ++ fill f tail ps

theorem fill_congr (h : ∀ p ∈ ps, f p.2 = g p.2) : fill f tail ps = fill g tail ps := by
  induction ps with
  | nil => rfl
  | cons p ps ih =>
    rw [fill, fill, h p List.mem_cons_self, ih fun q hq => h q (List.mem_cons_of_mem p hq)]

/-- At the first blank that is filled in differently, one filler begins the other. -/
theorem exists_prefix_of_fill (h : fill f tail ps = fill g tail ps)
    (hne : ∃ p ∈ ps, f p.2 ≠ g p.2) :
    ∃ p ∈ ps, f p.2 ≠ g p.2 ∧ (f p.2 <+: g p.2 ∨ g p.2 <+: f p.2) := by
  induction ps with
  | nil => obtain ⟨p, hp, -⟩ := hne; cases hp
  | cons p ps ih =>
    rw [fill, fill, List.append_assoc, List.append_assoc, List.append_cancel_left_eq] at h
    by_cases hp : f p.2 = g p.2
    · rw [hp, List.append_cancel_left_eq] at h
      have hrest : ∃ q ∈ ps, f q.2 ≠ g q.2 := by
        obtain ⟨q, hq, hdiff⟩ := hne
        rcases List.mem_cons.mp hq with rfl | hq
        · exact absurd hp hdiff
        · exact ⟨q, hq, hdiff⟩
      obtain ⟨q, hq, hdiff⟩ := ih h hrest
      exact ⟨q, List.mem_cons_of_mem p hq, hdiff⟩
    · have hg : g p.2 <+: f p.2 ++ fill f tail ps := ⟨fill g tail ps, h.symm⟩
      exact ⟨p, List.mem_cons_self, hp,
        List.prefix_or_prefix_of_prefix (List.prefix_append _ _) hg⟩

/-- And at the last one, one filler ends the other. -/
theorem exists_suffix_of_fill {a b : List α} (h : a ++ fill f tail ps = b ++ fill g tail ps)
    (hne : ∃ p ∈ ps, f p.2 ≠ g p.2) :
    ∃ p ∈ ps, f p.2 ≠ g p.2 ∧ (f p.2 <:+ g p.2 ∨ g p.2 <:+ f p.2) := by
  induction ps generalizing a b with
  | nil => obtain ⟨p, hp, -⟩ := hne; cases hp
  | cons p ps ih =>
    simp only [fill, ← List.append_assoc] at h
    by_cases hrest : ∃ q ∈ ps, f q.2 ≠ g q.2
    · obtain ⟨q, hq, hdiff⟩ := ih h hrest
      exact ⟨q, List.mem_cons_of_mem p hq, hdiff⟩
    · have hsame : ∀ q ∈ ps, f q.2 = g q.2 := by
        simpa using hrest
      rw [fill_congr hsame, List.append_cancel_right_eq] at h
      have hg : g p.2 <:+ a ++ p.1 ++ f p.2 := ⟨b ++ p.1, h.symm⟩
      refine ⟨p, List.mem_cons_self, ?_,
        List.suffix_or_suffix_of_suffix (List.suffix_append _ _) hg⟩
      obtain ⟨q, hq, hdiff⟩ := hne
      rcases List.mem_cons.mp hq with rfl | hq
      · exact hdiff
      · exact absurd (hsame q hq) hdiff

/--
Where two fillings of one text differ, one puts `m` items of a kind and the other `n`, if each does
so at every such blank; so the numbers are the same.
-/
theorem countP_of_fill {q : α → Bool} {m n : Nat} (h : fill f tail ps = fill g tail ps)
    (hne : ∃ p ∈ ps, f p.2 ≠ g p.2)
    (hf : ∀ p ∈ ps, f p.2 ≠ g p.2 → (f p.2).countP q = m)
    (hg : ∀ p ∈ ps, f p.2 ≠ g p.2 → (g p.2).countP q = n) : m = n := by
  have hcount : ∃ k, (fill f tail ps).countP q + k * n = (fill g tail ps).countP q + k * m ∧
      (k = 0 → ∀ p ∈ ps, f p.2 = g p.2) := by
    clear h hne
    induction ps with
    | nil => exact ⟨0, by simp [fill]⟩
    | cons p ps ih =>
      obtain ⟨k, hk, hzero⟩ := ih (fun r hr => hf r (List.mem_cons_of_mem p hr))
        fun r hr => hg r (List.mem_cons_of_mem p hr)
      simp only [fill, List.countP_append]
      by_cases hp : f p.2 = g p.2
      · refine ⟨k, by rw [hp]; omega, fun hk₀ r hr => ?_⟩
        rcases List.mem_cons.mp hr with rfl | hr
        · exact hp
        · exact hzero hk₀ r hr
      · have hfp := hf p List.mem_cons_self hp
        have hgp := hg p List.mem_cons_self hp
        refine ⟨k + 1, ?_, fun hk₀ => absurd hk₀ (Nat.succ_ne_zero k)⟩
        rw [hfp, hgp, Nat.succ_mul, Nat.succ_mul]
        omega
  obtain ⟨k, hk, hzero⟩ := hcount
  obtain ⟨p, hp, hdiff⟩ := hne
  have hpos : 0 < k := Nat.pos_of_ne_zero fun hk₀ => hdiff (hzero hk₀ p hp)
  rw [h] at hk
  exact Nat.eq_of_mul_eq_mul_left hpos (Nat.add_left_cancel hk).symm

end Lib
