import Mathlib.Algebra.GroupWithZero.Nat
import ThinkWatch.Lib.Utf8

/-!
# Cutting a text at a byte

A text is cut at a number of bytes where a character ends. `takeBytes?` gives what is before the cut,
and nothing when a character lies across it; `walkBack` finds the next place before it where the text
can be cut.
-/

namespace Lib.ByteCut

variable {text p : List Char} {n : Nat}

def byteLen (text : List Char) : Nat := (text.map Char.utf8Size).sum

@[simp] theorem byteLen_nil : byteLen [] = 0 := rfl

@[simp] theorem byteLen_cons (c : Char) (text : List Char) :
    byteLen (c :: text) = c.utf8Size + byteLen text := by
  simp [byteLen]

@[simp] theorem byteLen_append (s t : List Char) : byteLen (s ++ t) = byteLen s + byteLen t := by
  simp [byteLen]

/-- The first `n` bytes, if they are characters. -/
def takeBytes? (n : Nat) : List Char → Option (List Char)
  | [] => if n = 0 then some [] else none
  | c :: text =>
    if n = 0 then some []
    else if c.utf8Size ≤ n then (takeBytes? (n - c.utf8Size) text).map (c :: ·)
    else none

/-- `str::is_char_boundary`. -/
def isCharBoundary (text : List Char) (n : Nat) : Bool := (takeBytes? n text).isSome

/-- `String::truncate`, or its panic. -/
def truncate (n : Nat) (text : List Char) : Option (List Char) :=
  if byteLen text < n then some text else takeBytes? n text

/-- The last place up to `n` where the text can be cut. -/
def walkBack (text : List Char) : Nat → Nat
  | 0 => 0
  | n + 1 => if isCharBoundary text (n + 1) then n + 1 else walkBack text n

theorem takeBytes?_zero (text : List Char) : takeBytes? 0 text = some [] := by
  cases text <;> exact if_pos rfl

theorem takeBytes?_eq_some_iff : takeBytes? n text = some p ↔ p <+: text ∧ byteLen p = n := by
  induction text generalizing n p with
  | nil =>
    rw [takeBytes?, List.prefix_nil]
    constructor
    · intro h
      obtain ⟨rfl, hp⟩ := Option.ite_none_right_eq_some.mp h
      obtain rfl := Option.some.inj hp
      exact ⟨rfl, rfl⟩
    · rintro ⟨rfl, rfl⟩
      rfl
  | cons c text ih =>
    rcases Nat.eq_zero_or_pos n with rfl | hn
    · rw [takeBytes?_zero]
      constructor
      · intro h
        obtain rfl := Option.some.inj h
        exact ⟨List.nil_prefix, rfl⟩
      · rintro ⟨-, hlen⟩
        cases p with
        | nil => rfl
        | cons d p =>
          have := d.utf8Size_pos
          rw [byteLen_cons] at hlen
          omega
    · rw [takeBytes?, if_neg (Nat.ne_of_gt hn)]
      constructor
      · intro h
        obtain ⟨hle, h⟩ := Option.ite_none_right_eq_some.mp h
        obtain ⟨q, hq, rfl⟩ := Option.map_eq_some_iff.mp h
        obtain ⟨hpre, hlen⟩ := ih.mp hq
        refine ⟨List.cons_prefix_cons.mpr ⟨rfl, hpre⟩, ?_⟩
        rw [byteLen_cons, hlen]
        omega
      · rintro ⟨hpre, hlen⟩
        cases p with
        | nil => exact absurd hlen (Nat.ne_of_lt hn)
        | cons d p =>
          obtain ⟨rfl, htail⟩ := List.cons_prefix_cons.mp hpre
          rw [byteLen_cons] at hlen
          have hq : takeBytes? (n - d.utf8Size) text = some p := ih.mpr ⟨htail, by omega⟩
          rw [if_pos (by omega), hq]
          rfl

theorem walkBack_le (text : List Char) (n : Nat) : walkBack text n ≤ n := by
  induction n with
  | zero => exact Nat.le_refl 0
  | succ n ih =>
    rw [walkBack]
    split
    · exact Nat.le_refl _
    · omega

theorem isCharBoundary_walkBack (text : List Char) (n : Nat) :
    isCharBoundary text (walkBack text n) = true := by
  induction n with
  | zero => simp [walkBack, isCharBoundary, takeBytes?_zero]
  | succ n ih =>
    rw [walkBack]
    split
    · next h => exact h
    · exact ih

/-- What is before the place that was walked back to. -/
theorem exists_takeBytes?_walkBack (text : List Char) (n : Nat) :
    ∃ p, takeBytes? (walkBack text n) text = some p ∧ p <+: text ∧ byteLen p ≤ n := by
  obtain ⟨p, hp⟩ := Option.isSome_iff_exists.mp (isCharBoundary_walkBack text n)
  obtain ⟨hpre, hlen⟩ := takeBytes?_eq_some_iff.mp hp
  exact ⟨p, hp, hpre, hlen ▸ walkBack_le text n⟩

end Lib.ByteCut
