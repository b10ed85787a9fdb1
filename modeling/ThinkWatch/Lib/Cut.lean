import Mathlib.Data.List.Infix

/-!
# Cutting a list at a separator

`cut sep xs` splits `xs` around the first place where `sep` occurs. A name that is joined from two
parts with `sep` between them is cut back into the same parts exactly when `sep` does not occur
earlier, which is a condition on the first part alone.
-/

namespace Lib

variable {α : Type*} [DecidableEq α] {sep xs p t : List α}

/-- What comes before the first `sep`, and what comes after it. -/
def cut (sep : List α) : List α → Option (List α × List α)
  | [] => if sep = [] then some ([], []) else none
  | x :: xs =>
    if sep <+: x :: xs then some ([], (x :: xs).drop sep.length)
    else (cut sep xs).map fun r => (x :: r.1, r.2)

theorem cut_of_isPrefix (h : sep <+: xs) : cut sep xs = some ([], xs.drop sep.length) := by
  cases xs with
  | nil => simp [cut, List.prefix_nil.mp h]
  | cons x xs => rw [cut, if_pos h]

/-- The two sides, with `sep` between them, are the list. -/
theorem eq_of_cut (h : cut sep xs = some (p, t)) : xs = p ++ sep ++ t := by
  induction xs generalizing p with
  | nil =>
    rw [cut] at h
    split at h
    next hsep =>
      cases h
      simp [hsep]
    next => cases h
  | cons x xs ih =>
    rw [cut] at h
    split at h
    next hpre =>
      cases h
      rw [List.nil_append]
      exact (List.prefix_iff_eq_append.mp hpre).symm
    next =>
      obtain ⟨r, hr, heq⟩ := Option.map_eq_some_iff.mp h
      cases heq
      rw [ih hr]
      simp

omit [DecidableEq α] in
private theorem dropLast_within (x : α) : x :: (p ++ sep.dropLast) <+: x :: (p ++ sep ++ t) := by
  rw [List.append_assoc, List.cons_prefix_cons, List.prefix_append_right_inj]
  exact ⟨rfl, (List.dropLast_prefix sep).trans (List.prefix_append sep t)⟩

/-- A joined name is cut where it was joined, unless `sep` occurs before that place. -/
theorem cut_join (hsep : sep ≠ []) :
    cut sep (p ++ sep ++ t) = some (p, t) ↔ ¬ sep <:+: p ++ sep.dropLast := by
  induction p with
  | nil =>
    rw [List.nil_append, List.nil_append, cut_of_isPrefix (List.prefix_append sep t),
      List.drop_left]
    refine ⟨fun _ h => ?_, fun _ => rfl⟩
    have := h.length_le
    have := List.length_pos_of_ne_nil hsep
    rw [List.length_dropLast] at *
    omega
  | cons x p ih =>
    rw [List.cons_append, List.cons_append, List.cons_append, cut, List.infix_cons_iff, not_or]
    split
    next hpre =>
      -- an occurrence that starts inside `p` ends before the last item of the `sep` after it
      have hlen : sep.length ≤ (x :: (p ++ sep.dropLast)).length := by
        have := List.length_pos_of_ne_nil hsep
        simp only [List.length_cons, List.length_append, List.length_dropLast]
        omega
      have hin := List.prefix_of_prefix_length_le hpre (dropLast_within x) hlen
      exact ⟨fun h => by simp at h, fun h => absurd hin h.1⟩
    next hpre =>
      have hnot : ¬ sep <+: x :: (p ++ sep.dropLast) :=
        fun h => hpre (h.trans (dropLast_within x))
      rw [← ih]
      constructor
      · intro h
        obtain ⟨r, hr, heq⟩ := Option.map_eq_some_iff.mp h
        cases heq
        exact ⟨hnot, hr⟩
      · rintro ⟨-, h⟩
        rw [h, Option.map_some]

theorem cut_of_notMem {x : α} (h : x ∉ p) : cut [x] (p ++ x :: t) = some (p, t) := by
  rw [List.append_cons, cut_join (List.cons_ne_nil x []), List.singleton_infix_iff]
  simpa using h

/-- Two segments that end with their only `x` are the same if the lists are. -/
theorem segment_inj {x : α} {p' t' : List α} (hp : x ∉ p) (hp' : x ∉ p')
    (h : p ++ x :: t = p' ++ x :: t') : p = p' ∧ t = t' := by
  have hcut := cut_of_notMem (t := t) hp
  rw [h, cut_of_notMem hp'] at hcut
  cases hcut
  exact ⟨rfl, rfl⟩

/-- A cut is at the first place: `sep` starts nowhere earlier. -/
theorem not_isPrefix_of_cut (h : cut sep xs = some (p, t)) {u v : List α} (hp : p = u ++ v)
    (hv : v ≠ []) : ¬ sep <+: v ++ sep ++ t := by
  induction u generalizing p xs with
  | nil =>
    obtain rfl : p = v := hp
    obtain ⟨x, p, rfl⟩ := List.exists_cons_of_ne_nil hv
    obtain rfl := eq_of_cut h
    intro hpre
    rw [cut_of_isPrefix hpre] at h
    cases h
  | cons x u ih =>
    obtain rfl := eq_of_cut h
    subst hp
    rw [List.cons_append, List.cons_append, List.cons_append, cut] at h
    split at h
    · cases h
    · obtain ⟨⟨p', t'⟩, hr, heq⟩ := Option.map_eq_some_iff.mp h
      obtain ⟨hp, rfl⟩ := Prod.mk.inj heq
      exact ih hr (List.cons.inj hp).2

theorem cut_eq_none : cut sep xs = none ↔ ¬ sep <:+: xs := by
  induction xs with
  | nil => simp [cut]
  | cons x xs ih =>
    rw [cut, List.infix_cons_iff, not_or]
    split
    next hpre => simp [hpre]
    next hpre => rw [Option.map_eq_none_iff, ih, and_iff_right hpre]

/-- Where `sep` does not start within `p`, a cut of `p ++ t` is one of `t`. -/
theorem cut_append (h : ∀ u v, p = u ++ v → v ≠ [] → ¬ sep <+: v ++ t) :
    cut sep (p ++ t) = (cut sep t).map fun r => (p ++ r.1, r.2) := by
  induction p with
  | nil => simp
  | cons x p ih =>
    have hx : ¬ sep <+: x :: (p ++ t) := h [] (x :: p) rfl (List.cons_ne_nil x p)
    rw [List.cons_append, cut, if_neg hx,
      ih fun u v hp => h (x :: u) v (congrArg (x :: ·) hp), Option.map_map]
    rfl

theorem length_of_cut (hsep : sep ≠ []) (h : cut sep xs = some (p, t)) : t.length < xs.length := by
  rw [eq_of_cut h]
  have := List.length_pos_of_ne_nil hsep
  simp only [List.length_append]
  omega

omit [DecidableEq α] in
/-- A separator without `x` ends before the first `x`. -/
theorem isPrefix_of_notMem {x : α} (hx : x ∉ sep) (h : sep <+: p ++ x :: t) : sep <+: p := by
  refine (List.prefix_or_prefix_of_prefix h (List.prefix_append p _)).elim id ?_
  rintro ⟨q, rfl⟩
  rw [List.prefix_append_right_inj] at h
  cases q with
  | nil => rw [List.append_nil]
  | cons y q => simp_all

omit [DecidableEq α] in
/-- A separator without `x` starts after the last `x`. -/
theorem isSuffix_of_notMem {x : α} (hx : x ∉ sep) (h : sep <:+ p ++ x :: t) : sep <:+ t := by
  rw [← List.reverse_prefix] at h ⊢
  rw [List.reverse_append, List.reverse_cons, List.append_assoc] at h
  exact isPrefix_of_notMem (by simpa using hx) h

/-! ## Replacing -/

/-- The first `n` occurrences of `sep`, from the left, replaced by `new`. -/
def replaceUpTo (sep new : List α) : Nat → List α → List α
  | 0, xs => xs
  | n + 1, xs =>
    match cut sep xs with
    | some (p, t) => p ++ new ++ replaceUpTo sep new n t
    | none => xs

/-- Every occurrence of `sep` replaced: a list has no more of them than elements. -/
def replaceAll (sep new xs : List α) : List α := replaceUpTo sep new xs.length xs

theorem replaceAll_of_cut_none (h : cut sep xs = none) (new : List α) :
    replaceAll sep new xs = xs := by
  unfold replaceAll
  cases xs.length with
  | zero => rfl
  | succ n => rw [replaceUpTo, h]

theorem replaceUpTo_of_le (hsep : sep ≠ []) {new : List α} {m n : Nat} (hm : xs.length ≤ m)
    (hn : xs.length ≤ n) : replaceUpTo sep new m xs = replaceUpTo sep new n xs := by
  induction m generalizing xs n with
  | zero =>
    obtain rfl := List.length_eq_zero_iff.mp (Nat.le_zero.mp hm)
    cases n with
    | zero => rfl
    | succ n => simp [replaceUpTo, cut, hsep]
  | succ m ih =>
    cases n with
    | zero =>
      obtain rfl := List.length_eq_zero_iff.mp (Nat.le_zero.mp hn)
      simp [replaceUpTo, cut, hsep]
    | succ n =>
      rw [replaceUpTo, replaceUpTo]
      cases hcut : cut sep xs with
      | none => rfl
      | some r =>
        have := length_of_cut hsep hcut
        dsimp only
        rw [@ih r.2 n (by omega) (by omega)]

/-- The first occurrence is replaced, and then those in the rest. -/
theorem replaceAll_of_cut (hsep : sep ≠ []) (h : cut sep xs = some (p, t)) (new : List α) :
    replaceAll sep new xs = p ++ new ++ replaceAll sep new t := by
  have hlen := length_of_cut hsep h
  unfold replaceAll
  cases hn : xs.length with
  | zero => omega
  | succ n =>
    rw [replaceUpTo, h]
    dsimp only
    rw [replaceUpTo_of_le (n := t.length) hsep (by omega) (Nat.le_refl _)]

/-- Text in which `sep` does not start is kept. -/
theorem replaceAll_append (hsep : sep ≠ []) (h : ∀ u v, p = u ++ v → v ≠ [] → ¬ sep <+: v ++ t)
    (new : List α) : replaceAll sep new (p ++ t) = p ++ replaceAll sep new t := by
  have hcut := cut_append h
  cases ht : cut sep t with
  | none =>
    rw [ht] at hcut
    rw [replaceAll_of_cut_none hcut, replaceAll_of_cut_none ht]
  | some r =>
    rw [ht] at hcut
    rw [replaceAll_of_cut hsep hcut, replaceAll_of_cut hsep ht]
    simp only [List.append_assoc]

end Lib
