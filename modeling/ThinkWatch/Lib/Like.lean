import ThinkWatch.Lib.Glob

/-!
# `LIKE` patterns

In a `LIKE` pattern `%` stands for any text and `_` for one character; a backslash in front of one
of the two, or of a backslash, makes it stand for itself. A text that is escaped and put between
two `%` matches the values the text occurs in.
-/

namespace Lib

variable {α : Type*}

/-- Between two wildcards for anything, literals cover what they occur in. -/
theorem Covers.any_lits_any_iff {cs xs : List α} :
    Covers (.any :: (cs.map .lit ++ [.any])) xs ↔ cs <:+: xs := by
  rw [Covers.any_iff]
  constructor
  · rintro ⟨ys, zs, rfl, hz⟩
    obtain ⟨ws, rfl⟩ := Covers.lits_any_iff.mp hz
    exact ⟨ys, ws, List.append_assoc ys cs ws⟩
  · rintro ⟨ys, ws, rfl⟩
    exact ⟨ys, cs ++ ws, List.append_assoc ys cs ws,
      Covers.lits_any_iff.mpr (List.prefix_append cs ws)⟩

/-- Every occurrence of a character replaced. -/
def replaceChar (c : Char) (text xs : List Char) : List Char :=
  xs.flatMap fun x => if x = c then text else [x]

namespace Like

/-- The characters that a backslash makes stand for themselves. -/
def special (c : Char) : Bool := c == '\\' || c == '%' || c == '_'

/-- What a pattern stands for; none if it ends in the middle of an escape sequence. -/
def tokens : List Char → Option (List (Token Char))
  | [] => some []
  | ['\\'] => none
  | '\\' :: c :: cs =>
    (tokens cs).map fun ps => if special c then .lit c :: ps else .lit '\\' :: .lit c :: ps
  | '%' :: cs => (tokens cs).map fun ps => .any :: ps
  | '_' :: cs => (tokens cs).map fun ps => .one :: ps
  | c :: cs => (tokens cs).map fun ps => .lit c :: ps

/-- Whether the value matches the pattern; none if the pattern is invalid. -/
def accepts (pattern value : List Char) : Option Bool :=
  (tokens pattern).map fun ps => covers ps value

def escape (xs : List Char) : List Char := xs.flatMap fun c => if special c then ['\\', c] else [c]

variable {cs pattern : List Char} {ps : List (Token Char)}

theorem tokens_of_plain {c : Char} (h : special c = false) :
    tokens (c :: cs) = (tokens cs).map fun ps => .lit c :: ps := by
  rw [special, Bool.or_eq_false_iff, Bool.or_eq_false_iff] at h
  obtain ⟨⟨hesc, hany⟩, hone⟩ := h
  rw [tokens]
  · rintro rfl -
    cases hesc
  · rintro c' cs' rfl
    cases hesc
  · rintro rfl
    cases hany
  · rintro rfl
    cases hone

theorem tokens_of_special {c : Char} (h : special c = true) :
    tokens ('\\' :: c :: cs) = (tokens cs).map fun ps => .lit c :: ps := by
  rw [tokens]
  simp only [h, if_true]

/-- An escaped text stands for its characters. -/
theorem tokens_escape (xs : List Char) (h : tokens cs = some ps) :
    tokens (escape xs ++ cs) = some (xs.map .lit ++ ps) := by
  induction xs with
  | nil => exact h
  | cons c xs ih =>
    rw [escape, List.flatMap_cons, ← escape]
    cases hc : special c with
    | true => rw [if_pos rfl, List.append_assoc, List.cons_append, List.cons_append,
        List.nil_append, tokens_of_special hc, ih]; rfl
    | false => rw [if_neg Bool.false_ne_true, List.append_assoc, List.cons_append,
        List.nil_append, tokens_of_plain hc, ih]; rfl

/-- Between two `%`, an escaped text matches the values it occurs in, and is never invalid. -/
theorem accepts_substring (xs value : List Char) :
    accepts ('%' :: (escape xs ++ ['%'])) value = some (decide (xs <:+: value)) := by
  have htokens : tokens ('%' :: (escape xs ++ ['%'])) = some (.any :: (xs.map .lit ++ [.any])) := by
    rw [tokens, tokens_escape xs (rfl : tokens ['%'] = some [.any])]
    rfl
  rw [accepts, htokens, Option.map_some, Option.some_inj, Bool.eq_iff_iff, covers_iff,
    Covers.any_lits_any_iff, decide_eq_true_iff]

theorem replaceChar_append (c : Char) (text xs ys : List Char) :
    replaceChar c text (xs ++ ys) = replaceChar c text xs ++ replaceChar c text ys :=
  List.flatMap_append

/-- Backslashes are escaped first, then the two wildcards. -/
theorem replaceChar_eq_escape (xs : List Char) :
    replaceChar '_' ['\\', '_'] (replaceChar '%' ['\\', '%'] (replaceChar '\\' ['\\', '\\'] xs)) =
      escape xs := by
  induction xs with
  | nil => rfl
  | cons c xs ih =>
    rw [escape, List.flatMap_cons, ← escape, ← ih, show c :: xs = [c] ++ xs from rfl,
      replaceChar_append, replaceChar_append, replaceChar_append]
    congr 1
    by_cases hesc : c = '\\'
    · subst hesc
      rfl
    by_cases hany : c = '%'
    · subst hany
      rfl
    by_cases hone : c = '_'
    · subst hone
      rfl
    · simp [replaceChar, special, hesc, hany, hone]

end Like

end Lib
