import Mathlib.Tactic.Common

/-!
# The grammar of JSON texts

A text that is JSON, by the rules of the grammar and without what it stands for: `IsText`, a value
with white space around it. An array is told by the texts of its elements.
-/

namespace Lib.JsonGrammar

/-- White space between the parts of a text. -/
def Ws (s : List Char) : Prop := ∀ c ∈ s, c = ' ' ∨ c = '\t' ∨ c = '\n' ∨ c = '\r'

/-- Digits, at least one. -/
def Digits (s : List Char) : Prop := s ≠ [] ∧ ∀ c ∈ s, c.isDigit = true

/-- The whole part of a number: no zero before other digits. -/
def Whole (s : List Char) : Prop := Digits s ∧ (s.head? = some '0' → s = ['0'])

inductive Fraction : List Char → Prop
  | none : Fraction []
  | some {s : List Char} (h : Digits s) : Fraction ('.' :: s)

inductive Exponent : List Char → Prop
  | none : Exponent []
  | plain {c : Char} {s : List Char} (hc : c = 'e' ∨ c = 'E') (h : Digits s) : Exponent (c :: s)
  | signed {c d : Char} {s : List Char} (hc : c = 'e' ∨ c = 'E') (hd : d = '+' ∨ d = '-')
    (h : Digits s) : Exponent (c :: d :: s)

inductive Number : List Char → Prop
  | mk {minus whole frac exp : List Char} (hminus : minus = [] ∨ minus = ['-']) (hw : Whole whole)
    (hf : Fraction frac) (he : Exponent exp) : Number (minus ++ whole ++ frac ++ exp)

def IsHexDigit (c : Char) : Prop :=
  c.isDigit = true ∨ ('a' ≤ c ∧ c ≤ 'f') ∨ ('A' ≤ c ∧ c ≤ 'F')

/-- What is between the quotes of a string. -/
inductive StringBody : List Char → Prop
  | nil : StringBody []
  | plain {c : Char} {s : List Char} (hq : c ≠ '"') (hb : c ≠ '\\') (hc : 0x20 ≤ c.toNat)
    (h : StringBody s) : StringBody (c :: s)
  | escaped {c : Char} {s : List Char} (hc : c ∈ ['"', '\\', '/', 'b', 'f', 'n', 'r', 't'])
    (h : StringBody s) : StringBody ('\\' :: c :: s)
  | unicode {a b c d : Char} {s : List Char} (ha : IsHexDigit a) (hb : IsHexDigit b)
    (hc : IsHexDigit c) (hd : IsHexDigit d) (h : StringBody s) :
    StringBody ('\\' :: 'u' :: a :: b :: c :: d :: s)

def quoted (body : List Char) : List Char := '"' :: body ++ ['"']

mutual

/-- A text: a value, with white space before and after it. -/
inductive IsText : List Char → Prop
  | mk {a s b : List Char} (ha : Ws a) (hs : IsValue s) (hb : Ws b) : IsText (a ++ s ++ b)

inductive IsValue : List Char → Prop
  | null : IsValue "null".toList
  | true : IsValue "true".toList
  | false : IsValue "false".toList
  | number {s : List Char} (h : Number s) : IsValue s
  | string {s : List Char} (h : StringBody s) : IsValue (quoted s)
  | emptyArray {s : List Char} (h : Ws s) : IsValue ('[' :: s ++ [']'])
  | array {s : List Char} (h : AreElements s) : IsValue ('[' :: s ++ [']'])
  | emptyObject {s : List Char} (h : Ws s) : IsValue ('\x7b' :: s ++ ['\x7d'])
  | object {s : List Char} (h : AreMembers s) : IsValue ('\x7b' :: s ++ ['\x7d'])

/-- Texts with commas between them. -/
inductive AreElements : List Char → Prop
  | one {s : List Char} (h : IsText s) : AreElements s
  | more {s t : List Char} (hs : IsText s) (ht : AreElements t) : AreElements (s ++ ',' :: t)

/-- Members with commas between them. -/
inductive AreMembers : List Char → Prop
  | one {s : List Char} (h : IsMember s) : AreMembers s
  | more {s t : List Char} (hs : IsMember s) (ht : AreMembers t) : AreMembers (s ++ ',' :: t)

/-- A name, a colon and a text. -/
inductive IsMember : List Char → Prop
  | mk {a k b s : List Char} (ha : Ws a) (hk : StringBody k) (hb : Ws b) (hs : IsText s) :
    IsMember (a ++ quoted k ++ b ++ ':' :: s)

end

/-! ## Arrays by their elements -/

/-- What stands between the brackets, with the texts that the commas separate. -/
inductive Elements : List (List Char) → List Char → Prop
  | one {a e b : List Char} (ha : Ws a) (he : IsText e) (hb : Ws b) : Elements [e] (a ++ e ++ b)
  | more {a e b t : List Char} {es : List (List Char)} (ha : Ws a) (he : IsText e) (hb : Ws b)
    (ht : Elements es t) : Elements (e :: es) (a ++ e ++ b ++ ',' :: t)

/-- A text is an array of these elements; white space around them is not told. -/
inductive IsArrayOf : List (List Char) → List Char → Prop
  | empty {s : List Char} (h : Ws s) : IsArrayOf [] ('[' :: s ++ [']'])
  | elements {es : List (List Char)} {s : List Char} (h : Elements es s) :
    IsArrayOf es ('[' :: s ++ [']'])

variable {a b e s t : List Char} {es : List (List Char)}

theorem Ws.nil : Ws [] := fun _ h => absurd h List.not_mem_nil

theorem Ws.append (hs : Ws s) (ht : Ws t) : Ws (s ++ t) :=
  fun c hc => (List.mem_append.mp hc).elim (hs c) (ht c)

/-- More white space around a text. -/
theorem IsText.pad (ha : Ws a) (h : IsText e) (hb : Ws b) : IsText (a ++ e ++ b) := by
  obtain ⟨ha', hs, hb'⟩ := h
  rename_i a' s b'
  rw [show a ++ (a' ++ s ++ b') ++ b = (a ++ a') ++ s ++ (b' ++ b) by simp]
  exact IsText.mk (ha.append ha') hs (hb'.append hb)

theorem Elements.areElements (h : Elements es s) : AreElements s := by
  induction h with
  | one ha he hb => exact AreElements.one (he.pad ha hb)
  | more ha he hb _ ih => exact AreElements.more (he.pad ha hb) ih

/-- An array of texts is a text. -/
theorem IsArrayOf.isText (h : IsArrayOf es s) : IsText s := by
  have hvalue : IsValue s := by
    cases h with
    | empty hs => exact IsValue.emptyArray hs
    | elements hs => exact IsValue.array hs.areElements
  rw [show s = [] ++ s ++ [] by simp]
  exact IsText.mk Ws.nil hvalue Ws.nil

/-- Texts with a comma and white space between them. -/
theorem elements_joined {sep : List Char} (hsep : Ws sep) (he : IsText e)
    (hes : ∀ x ∈ es, IsText x) (ha : Ws a) :
    Elements (e :: es) (a ++ e ++ es.flatMap fun x => ',' :: sep ++ x) := by
  induction es generalizing a e with
  | nil => exact Elements.one ha he Ws.nil
  | cons x es ih =>
    have hrest := ih (hes x List.mem_cons_self) (fun y hy => hes y (List.mem_cons_of_mem x hy)) hsep
    have hmore := Elements.more ha he Ws.nil hrest
    simpa using hmore

end Lib.JsonGrammar
