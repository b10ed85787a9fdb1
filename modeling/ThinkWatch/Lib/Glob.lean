import Mathlib.Data.List.Infix

/-!
# Wildcard patterns

A pattern is a list of tokens: a literal symbol, a wildcard for one symbol, or a wildcard for any
sequence. `Covers ps xs` says that `xs` is in the language of `ps`; `covers` decides it.
-/

namespace Lib

variable {α : Type*}

inductive Token (α : Type*) where
  | lit (c : α)
  | one
  | any
deriving DecidableEq, Repr

/-- The language of a pattern. -/
inductive Covers : List (Token α) → List α → Prop where
  | nil : Covers [] []
  | lit {c : α} {ps : List (Token α)} {xs : List α} (h : Covers ps xs) :
      Covers (.lit c :: ps) (c :: xs)
  | one {c : α} {ps : List (Token α)} {xs : List α} (h : Covers ps xs) :
      Covers (.one :: ps) (c :: xs)
  | skip {ps : List (Token α)} {xs : List α} (h : Covers ps xs) : Covers (.any :: ps) xs
  | more {c : α} {ps : List (Token α)} {xs : List α} (h : Covers (.any :: ps) xs) :
      Covers (.any :: ps) (c :: xs)

/-- A wildcard for any sequence, followed by something that `rest` decides. -/
def coversAny (rest : List α → Bool) : List α → Bool
  | [] => rest []
  | x :: xs => rest (x :: xs) || coversAny rest xs

def covers [DecidableEq α] : List (Token α) → List α → Bool
  | [], xs => xs.isEmpty
  | .lit _ :: _, [] => false
  | .lit c :: ps, x :: xs => decide (c = x) && covers ps xs
  | .one :: _, [] => false
  | .one :: ps, _ :: xs => covers ps xs
  | .any :: ps, xs => coversAny (covers ps) xs

theorem coversAny_iff {ps : List (Token α)} {rest : List α → Bool}
    (h : ∀ xs, rest xs = true ↔ Covers ps xs) (xs : List α) :
    coversAny rest xs = true ↔ Covers (.any :: ps) xs := by
  induction xs with
  | nil =>
    rw [coversAny, h]
    constructor
    · exact .skip
    · intro hc
      cases hc with
      | skip h => exact h
  | cons x xs ih =>
    rw [coversAny, Bool.or_eq_true, h, ih]
    constructor
    · rintro (hc | hc)
      · exact .skip hc
      · exact .more hc
    · intro hc
      cases hc with
      | skip h => exact Or.inl h
      | more h => exact Or.inr h

theorem covers_iff [DecidableEq α] (ps : List (Token α)) (xs : List α) :
    covers ps xs = true ↔ Covers ps xs := by
  induction ps generalizing xs with
  | nil =>
    cases xs with
    | nil => exact ⟨fun _ => .nil, fun _ => rfl⟩
    | cons x xs => exact iff_of_false Bool.false_ne_true nofun
  | cons p ps ih =>
    cases p with
    | any => exact coversAny_iff ih xs
    | one =>
      cases xs with
      | nil => exact iff_of_false Bool.false_ne_true nofun
      | cons x xs =>
        rw [covers, ih]
        constructor
        · exact .one
        · intro hc
          cases hc with
          | one h => exact h
    | lit c =>
      cases xs with
      | nil => exact iff_of_false Bool.false_ne_true nofun
      | cons x xs =>
        rw [covers, Bool.and_eq_true, decide_eq_true_eq, ih]
        constructor
        · rintro ⟨rfl, hc⟩
          exact .lit hc
        · intro hc
          cases hc with
          | lit h => exact ⟨rfl, h⟩

instance [DecidableEq α] (ps : List (Token α)) (xs : List α) : Decidable (Covers ps xs) :=
  decidable_of_iff _ (covers_iff ps xs)

namespace Covers

theorem any_append {ps : List (Token α)} {xs : List α} (h : Covers ps xs) (ys : List α) :
    Covers (.any :: ps) (ys ++ xs) := by
  induction ys with
  | nil => exact .skip h
  | cons y ys ih => exact .more ih

/-- A leading wildcard takes some initial part. -/
theorem any_iff {ps : List (Token α)} {xs : List α} :
    Covers (.any :: ps) xs ↔ ∃ ys zs, xs = ys ++ zs ∧ Covers ps zs := by
  constructor
  · intro h
    induction xs with
    | nil =>
      cases h with
      | skip h => exact ⟨[], [], rfl, h⟩
    | cons x xs ih =>
      cases h with
      | skip h => exact ⟨[], x :: xs, rfl, h⟩
      | more h =>
        obtain ⟨ys, zs, rfl, hz⟩ := ih h
        exact ⟨x :: ys, zs, rfl, hz⟩
  · rintro ⟨ys, zs, rfl, hz⟩
    exact any_append hz ys

theorem any_extend {ps : List (Token α)} {xs : List α} (h : Covers (.any :: ps) xs)
    (ys : List α) : Covers (.any :: ps) (ys ++ xs) := by
  obtain ⟨before, after, rfl, hafter⟩ := any_iff.mp h
  rw [← List.append_assoc]
  exact any_append hafter (ys ++ before)

/-- A second wildcard adds nothing. -/
theorem any_any {ps : List (Token α)} {xs : List α} :
    Covers (.any :: .any :: ps) xs ↔ Covers (.any :: ps) xs := by
  refine ⟨fun h => ?_, .skip⟩
  obtain ⟨before, after, rfl, hafter⟩ := any_iff.mp h
  exact hafter.any_extend before

/-- A wildcard at the end takes everything. -/
theorem any_nil (xs : List α) : Covers [.any] xs := by
  rw [any_iff]
  exact ⟨xs, [], (List.append_nil xs).symm, .nil⟩

/-- Leading literals are an initial part. -/
theorem lits_append {ps : List (Token α)} {cs xs : List α} :
    Covers (cs.map .lit ++ ps) xs ↔ ∃ zs, xs = cs ++ zs ∧ Covers ps zs := by
  induction cs generalizing xs with
  | nil => simp
  | cons c cs ih =>
    constructor
    · intro h
      cases h with
      | lit h =>
        obtain ⟨zs, rfl, hz⟩ := ih.mp h
        exact ⟨zs, rfl, hz⟩
    · rintro ⟨zs, rfl, hz⟩
      exact .lit (ih.mpr ⟨zs, rfl, hz⟩)

/-- A pattern without wildcards covers itself alone. -/
theorem lits_iff {cs xs : List α} : Covers (cs.map .lit) xs ↔ xs = cs := by
  rw [← List.append_nil (cs.map Token.lit), lits_append]
  constructor
  · rintro ⟨zs, rfl, hz⟩
    cases hz
    exact List.append_nil cs
  · rintro rfl
    exact ⟨[], (List.append_nil xs).symm, .nil⟩

/-- Literals and a final wildcard cover what starts with the literals. -/
theorem lits_any_iff {cs xs : List α} : Covers (cs.map .lit ++ [.any]) xs ↔ cs <+: xs := by
  rw [lits_append]
  constructor
  · rintro ⟨zs, rfl, -⟩
    exact List.prefix_append cs zs
  · rintro ⟨zs, rfl⟩
    exact ⟨zs, rfl, any_nil zs⟩

/-- Every literal of a pattern occurs in what it covers. -/
theorem mem_of_lit {ps : List (Token α)} {xs : List α} {c : α} (h : Covers ps xs)
    (hc : Token.lit c ∈ ps) : c ∈ xs := by
  induction h with
  | nil => cases hc
  | lit _ ih =>
    rcases List.mem_cons.mp hc with heq | hc
    · cases heq
      exact List.mem_cons_self
    · exact List.mem_cons_of_mem _ (ih hc)
  | one _ ih =>
    rcases List.mem_cons.mp hc with heq | hc
    · cases heq
    · exact List.mem_cons_of_mem _ (ih hc)
  | skip _ ih =>
    rcases List.mem_cons.mp hc with heq | hc
    · cases heq
    · exact ih hc
  | more _ ih => exact List.mem_cons_of_mem _ (ih hc)

end Covers

end Lib
