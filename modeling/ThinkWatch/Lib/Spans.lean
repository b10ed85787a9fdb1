import Mathlib.Data.Finset.Union
import Mathlib.Data.Int.ConditionallyCompleteOrder
import Mathlib.Data.Int.Interval
import Mathlib.Order.ConditionallyCompleteLattice.Basic
import Mathlib.Tactic.Common

/-!
# The time covered by a list of spans

A span `(a, b)` covers the instants from `a` to just before `b`. Spans may overlap; `cover` is their
union. A sweep over the spans, sorted by their starts, adds up the part of each that reaches
beyond the ones before it. What it adds up is the size of the union.
-/

namespace Lib.Spans

abbrev Span := ℤ × ℤ

noncomputable def cover (l : List Span) : Finset ℤ := l.toFinset.biUnion fun s => Finset.Ico s.1 s.2

variable {l l' : List Span} {s : Span} {t lo hi reach : ℤ}

@[simp]
theorem mem_cover : t ∈ cover l ↔ ∃ s ∈ l, s.1 ≤ t ∧ t < s.2 := by
  simp [cover]

@[simp]
theorem cover_nil : cover [] = ∅ := rfl

theorem mem_cover_cons : t ∈ cover (s :: l) ↔ (s.1 ≤ t ∧ t < s.2) ∨ t ∈ cover l := by
  simp only [mem_cover, List.exists_mem_cons_iff]

theorem mem_cover_append : t ∈ cover (l ++ l') ↔ t ∈ cover l ∨ t ∈ cover l' := by
  simp only [mem_cover, List.mem_append, or_and_right, exists_or]

theorem cover_perm (h : l.Perm l') : cover l = cover l' := by
  ext t
  simp only [mem_cover, h.mem_iff]

/-- A span that ends before it starts covers nothing. -/
theorem cover_filter (l : List Span) : cover (l.filter fun s => s.1 < s.2) = cover l := by
  ext t
  simp only [mem_cover, List.mem_filter, decide_eq_true_eq]
  constructor
  · rintro ⟨s, ⟨hs, -⟩, ht⟩
    exact ⟨s, hs, ht⟩
  · rintro ⟨s, hs, ht⟩
    exact ⟨s, ⟨hs, ht.1.trans_lt ht.2⟩, ht⟩

def clip (lo hi : ℤ) (s : Span) : Span := (max s.1 lo, min s.2 hi)

theorem cover_clip (l : List Span) (lo hi : ℤ) :
    cover (l.map (clip lo hi)) = cover l ∩ Finset.Ico lo hi := by
  ext t
  simp only [mem_cover, List.mem_map, exists_exists_and_eq_and, Finset.mem_inter, Finset.mem_Ico,
    clip, max_le_iff, lt_min_iff]
  constructor
  · rintro ⟨s, hs, ⟨h1, h2⟩, h3, h4⟩
    exact ⟨⟨s, hs, h1, h3⟩, h2, h4⟩
  · rintro ⟨⟨s, hs, h1, h3⟩, h2, h4⟩
    exact ⟨s, hs, ⟨h1, h2⟩, h3, h4⟩

/-- What the window from `lo` to `hi` has of spans that are over by its start. -/
theorem cover_append_inter (h : ∀ s ∈ l', s.2 ≤ lo) :
    cover (l' ++ l) ∩ Finset.Ico lo hi = cover l ∩ Finset.Ico lo hi := by
  ext t
  simp only [Finset.mem_inter, Finset.mem_Ico, mem_cover_append]
  refine and_congr_left fun hw => or_iff_right fun ht => ?_
  obtain ⟨s, hs, -, hst⟩ := mem_cover.mp ht
  have := h s hs
  omega

/-! ## The sweep -/

/-- One span of the sweep: what is summed so far and how far the spans so far reach. -/
def sweep (acc : ℤ × ℤ) (s : Span) : ℤ × ℤ :=
  let start := max s.1 acc.2
  if start < s.2 then (acc.1 + (s.2 - start), s.2) else acc

theorem filter_cover_cons (h : ∀ s' ∈ l, s.1 ≤ s'.1) (hs : max s.1 reach < s.2) :
    (cover (s :: l)).filter (reach ≤ ·) =
      Finset.Ico (max s.1 reach) s.2 ∪ (cover l).filter (s.2 ≤ ·) := by
  ext t
  simp only [Finset.mem_filter, Finset.mem_union, Finset.mem_Ico, mem_cover_cons]
  constructor
  · rintro ⟨hst | ht, hr⟩
    · exact .inl ⟨max_le hst.1 hr, hst.2⟩
    · rcases lt_or_ge t s.2 with hlt | hge
      · obtain ⟨s', hs', h1, -⟩ := mem_cover.mp ht
        exact .inl ⟨max_le ((h s' hs').trans h1) hr, hlt⟩
      · exact .inr ⟨ht, hge⟩
  · rintro (⟨h1, h2⟩ | ⟨ht, hge⟩)
    · exact ⟨.inl ⟨(le_max_left _ _).trans h1, h2⟩, (le_max_right _ _).trans h1⟩
    · exact ⟨.inr ht, (le_max_right _ _).trans (hs.le.trans hge)⟩

theorem filter_cover_cons_of_le (hs : s.2 ≤ max s.1 reach) :
    (cover (s :: l)).filter (reach ≤ ·) = (cover l).filter (reach ≤ ·) := by
  ext t
  simp only [Finset.mem_filter, mem_cover_cons]
  refine and_congr_left fun hr => or_iff_right fun hst => ?_
  have := max_le hst.1 hr
  omega

/-- The sweep sums what the spans cover from where it starts. -/
theorem foldl_sweep (h : l.Pairwise fun s s' => s.1 ≤ s'.1) (sum reach : ℤ) :
    (l.foldl sweep (sum, reach)).1 = sum + ((cover l).filter (reach ≤ ·)).card := by
  induction l generalizing sum reach with
  | nil => simp
  | cons s l ih =>
    rw [List.pairwise_cons] at h
    rw [List.foldl_cons, sweep]
    by_cases hs : max s.1 reach < s.2
    · have hdisj : Disjoint (Finset.Ico (max s.1 reach) s.2) ((cover l).filter (s.2 ≤ ·)) := by
        rw [Finset.disjoint_left]
        intro t ht ht'
        have h1 := (Finset.mem_Ico.mp ht).2
        have h2 := (Finset.mem_filter.mp ht').2
        omega
      rw [if_pos hs, ih h.2, filter_cover_cons h.1 hs, Finset.card_union_of_disjoint hdisj,
        Int.card_Ico]
      omega
    · rw [if_neg hs, ih h.2, filter_cover_cons_of_le (not_lt.mp hs)]

/-- Over a list of clipped spans, in the order of their starts, the sweep measures the union. -/
theorem foldl_sweep_clip {sorted : List Span} (hp : sorted.Perm
      ((l.map (clip lo hi)).filter fun s => s.1 < s.2))
    (h : sorted.Pairwise fun s s' => s.1 ≤ s'.1) :
    (sorted.foldl sweep (0, lo)).1 = (cover l ∩ Finset.Ico lo hi).card := by
  have hcover : cover sorted = cover l ∩ Finset.Ico lo hi := by
    rw [cover_perm hp, cover_filter, cover_clip]
  have hall : (cover sorted).filter (lo ≤ ·) = cover sorted := by
    refine Finset.filter_true_of_mem fun t ht => ?_
    rw [hcover] at ht
    exact (Finset.mem_Ico.mp (Finset.mem_inter.mp ht).2).1
  rw [foldl_sweep h, hall, hcover, zero_add]

theorem card_inter_Ico_le (l : List Span) (h : lo ≤ hi) :
    ((cover l ∩ Finset.Ico lo hi).card : ℤ) ≤ hi - lo := by
  have hle : (cover l ∩ Finset.Ico lo hi).card ≤ (Finset.Ico lo hi).card :=
    Finset.card_le_card Finset.inter_subset_right
  rw [Int.card_Ico] at hle
  omega

end Lib.Spans
