import Mathlib.Data.List.Basic

/-!
# Cutting a stream into blocks

A reader collects what arrives and cuts a block off whenever what it has collected ends one, which
is a condition on the collected text alone. What it cuts off does not depend on where the stream is
cut into parts: `frames_append`.
-/

namespace Lib

variable {α : Type*} (ends : List α → Bool) {buf p q s t : List α}

/-- The blocks, and what is collected at the end. -/
def frames : List α → List α → List (List α) × List α
  | buf, [] => ([], buf)
  | buf, c :: s =>
    if ends (buf ++ [c]) then ((buf ++ [c]) :: (frames [] s).1, (frames [] s).2)
    else frames (buf ++ [c]) s

@[simp] theorem frames_nil : frames ends buf [] = ([], buf) := rfl

/-- The reader goes on from what it has collected. -/
theorem frames_append : frames ends buf (s ++ t) =
    ((frames ends buf s).1 ++ (frames ends (frames ends buf s).2 t).1,
      (frames ends (frames ends buf s).2 t).2) := by
  induction s generalizing buf with
  | nil => rfl
  | cons c s ih =>
    rw [List.cons_append, frames, frames]
    split
    next h => simp [ih]
    next h => exact ih

/-- Text none of whose beginnings ends a block is collected. -/
theorem frames_of_not_ends (h : ∀ q, q ≠ [] → q <+: s → ends (buf ++ q) = false) :
    frames ends buf s = ([], buf ++ s) := by
  induction s generalizing buf with
  | nil => simp
  | cons c s ih =>
    rw [frames, h [c] (List.cons_ne_nil c []) (by simp), if_neg Bool.false_ne_true, ih]
    · simp
    · intro q hq hpre
      have := h (c :: q) (List.cons_ne_nil c q) (by simpa using hpre)
      simpa using this

/-- A block is cut off at the first place where one ends. -/
theorem frames_of_ends (hp : p ≠ []) (he : ends (buf ++ p) = true)
    (h : ∀ q, q ≠ [] → q <+: p → q ≠ p → ends (buf ++ q) = false) :
    frames ends buf (p ++ s) = ((buf ++ p) :: (frames ends [] s).1, (frames ends [] s).2) := by
  induction p generalizing buf with
  | nil => exact absurd rfl hp
  | cons c p ih =>
    rw [List.cons_append, frames]
    cases p with
    | nil => rw [if_pos he, List.nil_append]
    | cons d p =>
      rw [if_neg, ih (List.cons_ne_nil d p) (by simpa using he)]
      · simp
      · intro q hq hpre hne
        have := h (c :: q) (List.cons_ne_nil c q) (by simpa using hpre) (by simpa using hne)
        simpa using this
      · rw [h [c] (List.cons_ne_nil c []) (by simp) (by simp)]
        exact Bool.false_ne_true

/-- What is true of the rest without a block, and stays true with one more block before, is true of
all blocks and the text. -/
theorem frames_rec {motive : List (List α) → List α → Prop} (rest : motive [] (frames ends buf s).2)
    (block : ∀ b bs t, ends b = true → motive bs t → motive (b :: bs) (b ++ t)) :
    motive (frames ends buf s).1 (buf ++ s) := by
  induction s generalizing buf with
  | nil => simpa using rest
  | cons c s ih =>
    rw [frames] at rest ⊢
    split
    next h =>
      rw [if_pos h] at rest
      have := block (buf ++ [c]) _ _ h (ih rest)
      rwa [List.nil_append, List.append_assoc] at this
    next h =>
      rw [if_neg h] at rest
      have := ih rest
      rwa [List.append_assoc] at this

/-- Nothing that is left ends a block. -/
theorem frames_rest (hb : frames ends [] buf = ([], buf)) :
    frames ends [] (frames ends buf s).2 = ([], (frames ends buf s).2) := by
  induction s generalizing buf with
  | nil => exact hb
  | cons c s ih =>
    rw [frames]
    split
    next => exact ih rfl
    next h =>
      refine ih ?_
      rw [frames_append, hb, frames, if_neg h]
      rfl

/-- Where a block ends does not depend on `p` before it. -/
theorem frames_after (h : ∀ q, q ≠ [] → ends (p ++ q) = ends q) :
    frames ends (p ++ buf) s = match frames ends buf s with
      | ([], rest) => ([], p ++ rest)
      | (b :: bs, rest) => ((p ++ b) :: bs, rest) := by
  induction s generalizing buf with
  | nil => rfl
  | cons c s ih =>
    rw [frames, frames, List.append_assoc, h _ (by simp)]
    split
    next => rfl
    next => exact ih

end Lib
