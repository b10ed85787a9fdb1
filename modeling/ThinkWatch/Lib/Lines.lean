import Mathlib.Data.List.Basic

/-!
# Lines of a text

A text is its lines that end with `'\n'` and what comes after the last of them. `lines` is what a
reader of the text goes through: a line that ends is read without a `'\r'` before its end, and the
text after the last end is a line when it is not empty.
-/

namespace Lib

variable {s l : List Char} {ls : List (List Char)}

/-- The lines that end, without their `'\n'`, and the text after them. -/
def segments : List Char → List (List Char) × List Char
  | [] => ([], [])
  | c :: s =>
    if c = '\n' then ([] :: (segments s).1, (segments s).2)
    else
      match (segments s).1 with
      | [] => ([], c :: (segments s).2)
      | l :: ls => ((c :: l) :: ls, (segments s).2)

/-- The text of some lines. -/
def unlines (ls : List (List Char)) : List Char := ls.flatMap (· ++ ['\n'])

/-- A line without the `'\r'` at its end. -/
def stripCr (l : List Char) : List Char := if l.getLast? = some '\r' then l.dropLast else l

/-- `str::lines`. -/
def lines (s : List Char) : List (List Char) :=
  (segments s).1.map stripCr ++ if (segments s).2 = [] then [] else [(segments s).2]

/-! ## Segments -/

@[simp] theorem unlines_nil : unlines [] = [] := rfl

@[simp] theorem unlines_cons : unlines (l :: ls) = l ++ '\n' :: unlines ls := by
  simp [unlines]

@[simp] theorem unlines_append {ms : List (List Char)} :
    unlines (ls ++ ms) = unlines ls ++ unlines ms := by
  simp [unlines]

/-- The segments are the text. -/
theorem unlines_segments (s : List Char) : unlines (segments s).1 ++ (segments s).2 = s := by
  induction s with
  | nil => rfl
  | cons c s ih =>
    rw [segments]
    split
    next hc => simp [hc, ih]
    next hc =>
      split
      next h =>
        rw [h] at ih
        simpa using ih
      next l ls h =>
        rw [h] at ih
        simpa using ih

theorem segments_line (h : '\n' ∉ l) :
    segments (l ++ '\n' :: s) = (l :: (segments s).1, (segments s).2) := by
  induction l with
  | nil => simp [segments]
  | cons c l ih =>
    rw [List.mem_cons, not_or] at h
    rw [List.cons_append, segments, if_neg (Ne.symm h.1), ih h.2]

/-- No end of a line is within a line. -/
theorem notMem_segments (s : List Char) :
    (∀ l ∈ (segments s).1, '\n' ∉ l) ∧ '\n' ∉ (segments s).2 := by
  induction s with
  | nil => simp [segments]
  | cons c s ih =>
    rw [segments]
    split
    next hc => exact ⟨by simpa using ih.1, ih.2⟩
    next hc =>
      split
      next h => exact ⟨by simp, by simpa [Ne.symm hc] using ih.2⟩
      next l ls h =>
        rw [h] at ih
        refine ⟨?_, ih.2⟩
        simp only [List.forall_mem_cons] at ih ⊢
        exact ⟨by simpa [Ne.symm hc] using ih.1.1, ih.1.2⟩

theorem segments_unlines_append (hls : ∀ l ∈ ls, '\n' ∉ l) (s : List Char) :
    segments (unlines ls ++ s) = (ls ++ (segments s).1, (segments s).2) := by
  induction ls with
  | nil => rfl
  | cons l ls ih =>
    rw [List.forall_mem_cons] at hls
    rw [unlines_cons, List.append_assoc, List.cons_append, segments_line hls.1, ih hls.2]
    rfl

/-- A text that does not end with `'\n'` has its last character after the last one. -/
theorem getLast?_segments (hs : s ≠ []) (h : s.getLast? ≠ some '\n') :
    (segments s).2 ≠ [] ∧ (segments s).2.getLast? = s.getLast? := by
  have hjoin := unlines_segments s
  have hne : (segments s).2 ≠ [] := by
    intro hnil
    rw [hnil, List.append_nil] at hjoin
    rcases List.eq_nil_or_concat (segments s).1 with hls | ⟨ls, l, hls⟩
    · rw [hls] at hjoin
      exact hs hjoin.symm
    · rw [hls] at hjoin
      rw [← hjoin] at h
      simp at h
  refine ⟨hne, ?_⟩
  conv_rhs => rw [← hjoin, List.getLast?_append_of_ne_nil _ hne]

/-- The segments of two texts joined: the text after the last line of the first goes on. -/
theorem segments_append (s t : List Char) : segments (s ++ t) =
    ((segments s).1 ++ (segments ((segments s).2 ++ t)).1, (segments ((segments s).2 ++ t)).2) := by
  conv_lhs => rw [← unlines_segments s, List.append_assoc]
  exact segments_unlines_append (notMem_segments s).1 _

/-- Text without an end of a line goes before the first line of what follows it. -/
theorem segments_glue (h : '\n' ∉ l) (s : List Char) : segments (l ++ s) =
    match segments s with
    | ([], r) => ([], l ++ r)
    | (a :: ls, r) => ((l ++ a) :: ls, r) := by
  obtain ⟨⟨ls, r⟩, hs⟩ : ∃ q, segments s = q := ⟨_, rfl⟩
  induction l with
  | nil =>
    rw [List.nil_append, hs]
    cases ls with
    | nil => rfl
    | cons a ls => rfl
  | cons c l ih =>
    rw [List.mem_cons, not_or] at h
    rw [List.cons_append, segments, if_neg (Ne.symm h.1), ih h.2, hs]
    cases ls with
    | nil => rfl
    | cons a ls => rfl

theorem stripCr_append (h : l.getLast? ≠ some '\r') (a : List Char) :
    stripCr (l ++ a) = l ++ stripCr a := by
  unfold stripCr
  cases a with
  | nil => simp [h]
  | cons c a =>
    rw [List.getLast?_append_of_ne_nil _ (List.cons_ne_nil c a)]
    split
    next => rw [List.dropLast_append_of_ne_nil (List.cons_ne_nil c a)]
    next => rfl

/-! ## Lines -/

/-- The lines of two texts joined: the text after the last line of the first goes on. -/
theorem lines_append (s t : List Char) :
    lines (s ++ t) = (segments s).1.map stripCr ++ lines ((segments s).2 ++ t) := by
  rw [lines, segments_append, List.map_append, List.append_assoc]
  rfl

/-- A text that ends with an end of a line is read before what follows it. -/
theorem lines_append_of_nil (h : (segments s).2 = []) (t : List Char) :
    lines (s ++ t) = lines s ++ lines t := by
  have hs : lines s = (segments s).1.map stripCr := by
    rw [lines, h, if_pos rfl, List.append_nil]
  rw [lines_append, h, List.nil_append, hs]

/-- Text that ends with neither `'\n'` nor `'\r'` goes before the first line of what follows it. -/
theorem lines_glue (h : '\n' ∉ l) (hne : l ≠ []) (hlast : l.getLast? ≠ some '\r') (s : List Char) :
    lines (l ++ s) = (l ++ (lines s).headD []) :: (lines s).tail := by
  rw [lines, segments_glue h, lines]
  obtain ⟨⟨ls, r⟩, hs⟩ : ∃ q, segments s = q := ⟨_, rfl⟩
  rw [hs]
  cases ls with
  | nil =>
    have : l ++ r ≠ [] := by simp [hne]
    by_cases hr : r = []
    · simp [hr, hne]
    · simp [hr]
  | cons a ls => simp [stripCr_append hlast]

theorem mem_of_mem_lines {c : Char} (hl : l ∈ lines s) (hc : c ∈ l) : c ∈ s ∧ c ≠ '\n' := by
  have hstrip : ∀ l : List Char, stripCr l ⊆ l := by
    intro l c hc
    unfold stripCr at hc
    split at hc
    · exact (List.dropLast_prefix l).subset hc
    · exact hc
  obtain ⟨hnot, hrest⟩ := notMem_segments s
  have hs := unlines_segments s
  rcases List.mem_append.mp hl with hl | hl
  · obtain ⟨l', hl', rfl⟩ := List.mem_map.mp hl
    have hc' := hstrip l' hc
    refine ⟨?_, fun h => hnot l' hl' (h ▸ hc')⟩
    rw [← hs]
    exact List.mem_append_left _ (List.mem_flatMap.mpr ⟨l', hl', List.mem_append_left _ hc'⟩)
  · split at hl
    · cases hl
    · rw [List.mem_singleton.mp hl] at hc
      refine ⟨?_, fun h => hrest (h ▸ hc)⟩
      rw [← hs]
      exact List.mem_append_right _ hc

end Lib
