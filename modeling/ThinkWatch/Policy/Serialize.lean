import Mathlib.Data.String.Basic
import ThinkWatch.Lib.Hex
import ThinkWatch.Policy.Matchers

/-!
# JSON values as text

What `serde_json::to_vec` writes for a value, as characters, and that a value is read back from it:
the text of one value, with more text after it, is not the text of another. No character of the text
is a line end.
-/

namespace ThinkWatch.Policy.Json

open Lib

/-! ## The text of a value -/

/-- One character of a string. -/
def escape (c : Char) : List Char :=
  if c = '"' then ['\\', '"']
  else if c = '\\' then ['\\', '\\']
  else if c.toNat = 8 then ['\\', 'b']
  else if c.toNat = 12 then ['\\', 'f']
  else if c.toNat = 10 then ['\\', 'n']
  else if c.toNat = 13 then ['\\', 'r']
  else if c.toNat = 9 then ['\\', 't']
  else if c.toNat < 0x20 then
    ['\\', 'u', '0', '0', hexDigit (c.toNat / 16), hexDigit (c.toNat % 16)]
  else [c]

def quote (s : String) : List Char := '"' :: (s.toList.flatMap escape ++ ['"'])

def intText (n : Int) : List Char :=
  if n < 0 then '-' :: Nat.toDigits 10 n.natAbs else Nat.toDigits 10 n.natAbs

mutual

/-- `serde_json::to_vec`. -/
def serialize : Json → List Char
  | null => ['n', 'u', 'l', 'l']
  | bool true => ['t', 'r', 'u', 'e']
  | bool false => ['f', 'a', 'l', 's', 'e']
  | int n => intText n
  | float text => text.toList
  | str s => quote s
  | arr [] => ['[', ']']
  | arr (item :: items) => '[' :: (serialize item ++ serializeItems items)
  | obj [] => ['\x7b', '\x7d']
  | obj ((key, value) :: fields) =>
    '\x7b' :: (quote key ++ ':' :: (serialize value ++ serializeFields fields))

/-- The items after the first one, and the end of the array. -/
def serializeItems : List Json → List Char
  | [] => [']']
  | item :: items => ',' :: (serialize item ++ serializeItems items)

/-- The members after the first one, and the end of the object. -/
def serializeFields : List (String × Json) → List Char
  | [] => ['\x7d']
  | (key, value) :: fields =>
    ',' :: (quote key ++ ':' :: (serialize value ++ serializeFields fields))

end

example : serialize (.obj [("a", .arr [.int (-1), .float "0.5"]), ("b", .str "x\ny")]) =
    "\x7b\"a\":[-1,0.5],\"b\":\"x\\ny\"\x7d".toList := by decide +kernel

/-! ## Strings -/

/-- Reads the character that `escape` has written. -/
def unescape : List Char → Option (Char × List Char)
  | '\\' :: 'u' :: _ :: _ :: a :: b :: r =>
    some (Char.ofNat (16 * hexValue a + hexValue b), r)
  | '\\' :: c :: r =>
    some (Char.ofNat (if c = 'b' then 8 else if c = 'f' then 12 else if c = 'n' then 10
      else if c = 'r' then 13 else if c = 't' then 9 else c.toNat), r)
  | c :: r => some (c, r)
  | [] => none

theorem ofNat_of_toNat {c : Char} {n : Nat} (h : c.toNat = n) : Char.ofNat n = c := by
  rw [← h, Char.ofNat_toNat]

theorem unescape_escape (c : Char) (r : List Char) : unescape (escape c ++ r) = some (c, r) := by
  unfold escape
  split
  · next h => subst h; rfl
  split
  · next h => subst h; rfl
  rename_i hb
  split
  · next h => simp [unescape, ofNat_of_toNat h]
  split
  · next h => simp [unescape, ofNat_of_toNat h]
  split
  · next h => simp [unescape, ofNat_of_toNat h]
  split
  · next h => simp [unescape, ofNat_of_toNat h]
  split
  · next h => simp [unescape, ofNat_of_toNat h]
  split
  · next h =>
    have hlow : c.toNat % 16 < 16 := Nat.mod_lt _ (by decide)
    have hhigh : c.toNat / 16 < 16 := by omega
    simp only [List.cons_append, List.nil_append, unescape, hexValue_hexDigit hhigh,
      hexValue_hexDigit hlow]
    rw [Nat.div_add_mod, Char.ofNat_toNat]
  · -- a character that stands for itself is no backslash
    show unescape (c :: r) = some (c, r)
    rw [unescape.eq_def]
    split
    · next heq => exact absurd (List.cons.inj heq).1 hb
    · next heq => exact absurd (List.cons.inj heq).1 hb
    · next heq => rw [(List.cons.inj heq).1, (List.cons.inj heq).2]
    · next heq => cases heq

/-- No character is written with a quote first. -/
theorem escape_ne_quote (c : Char) (r s : List Char) : escape c ++ r ≠ '"' :: s := by
  intro h
  have hread := unescape_escape c r
  rw [h] at hread
  obtain ⟨rfl, rfl⟩ : c = '"' ∧ r = s := by
    have hpair := Option.some.inj hread
    exact ⟨(Prod.mk.inj hpair).1.symm, (Prod.mk.inj hpair).2.symm⟩
  cases h

theorem escaped_inj {a b r s : List Char}
    (h : a.flatMap escape ++ '"' :: r = b.flatMap escape ++ '"' :: s) : a = b ∧ r = s := by
  induction a generalizing b with
  | nil =>
    cases b with
    | nil => exact ⟨rfl, (List.cons.inj h).2⟩
    | cons d b =>
      rw [List.flatMap_cons, List.append_assoc] at h
      exact absurd h.symm (escape_ne_quote d _ _)
  | cons c a ih =>
    cases b with
    | nil =>
      rw [List.flatMap_cons, List.append_assoc] at h
      exact absurd h (escape_ne_quote c _ _)
    | cons d b =>
      rw [List.flatMap_cons, List.flatMap_cons, List.append_assoc, List.append_assoc] at h
      have hread := congrArg unescape h
      rw [unescape_escape, unescape_escape] at hread
      obtain ⟨rfl, hrest⟩ := Prod.mk.inj (Option.some.inj hread)
      obtain ⟨rfl, rfl⟩ := ih hrest
      exact ⟨rfl, rfl⟩

/-- A quoted string ends at its closing quote. -/
theorem quote_append_inj {x y : String} {r s : List Char} (h : quote x ++ r = quote y ++ s) :
    x = y ∧ r = s := by
  simp only [quote, List.cons_append, List.append_assoc, List.cons.injEq, true_and,
    List.nil_append] at h
  obtain ⟨hxy, hrs⟩ := escaped_inj h
  exact ⟨String.toList_inj.mp hxy, hrs⟩

/-! ## Numbers -/

def isNumberChar (c : Char) : Bool := c.isDigit || ['-', '+', '.', 'e', 'E'].contains c

/-- What is not part of the number before it: the text has ended, or goes on with another sign. -/
def Ends (r : List Char) : Prop := ∀ c ∈ r.head?, isNumberChar c = false

theorem ends_nil : Ends [] := by simp [Ends]

theorem ends_cons {c : Char} {r : List Char} (h : isNumberChar c = false) : Ends (c :: r) := by
  simpa [Ends] using h

theorem number_append_inj {a b r s : List Char} (ha : ∀ c ∈ a, isNumberChar c = true)
    (hb : ∀ c ∈ b, isNumberChar c = true) (hr : Ends r) (hs : Ends s) (h : a ++ r = b ++ s) :
    a = b ∧ r = s := by
  induction a generalizing b with
  | nil =>
    cases b with
    | nil => exact ⟨rfl, h⟩
    | cons d b =>
      rw [List.nil_append] at h
      subst h
      have hd := hb d List.mem_cons_self
      rw [hr d rfl] at hd
      cases hd
  | cons c a ih =>
    cases b with
    | nil =>
      rw [List.nil_append] at h
      subst h
      have hc := ha c List.mem_cons_self
      rw [hs c rfl] at hc
      cases hc
    | cons d b =>
      obtain ⟨rfl, hrest⟩ := List.cons.inj h
      obtain ⟨rfl, hrs⟩ := ih (fun x hx => ha x (List.mem_cons_of_mem c hx))
        (fun x hx => hb x (List.mem_cons_of_mem c hx)) hrest
      exact ⟨rfl, hrs⟩

theorem isDigit_toDigits {n : Nat} {c : Char} (h : c ∈ Nat.toDigits 10 n) : c.isDigit = true :=
  Nat.isDigit_of_mem_toDigits (by decide) (by decide) h

theorem mem_intText {n : Int} {c : Char} (h : c ∈ intText n) : c = '-' ∨ c.isDigit = true := by
  unfold intText at h
  split at h
  · exact (List.mem_cons.mp h).imp_right isDigit_toDigits
  · exact Or.inr (isDigit_toDigits h)

theorem toDigits_inj {m n : Nat} (h : Nat.toDigits 10 m = Nat.toDigits 10 n) : m = n := by
  rw [← Nat.ofDigitChars_toDigits (n := m) (by decide : 1 < 10) (by decide), h,
    Nat.ofDigitChars_toDigits (by decide) (by decide)]

theorem intText_inj {m n : Int} (h : intText m = intText n) : m = n := by
  unfold intText at h
  split at h
  · split at h
    · have := toDigits_inj (List.cons.inj h).2
      omega
    · exact absurd (isDigit_toDigits (h ▸ List.mem_cons_self)) (by decide)
  · split at h
    · exact absurd (isDigit_toDigits (h ▸ List.mem_cons_self)) (by decide)
    · have := toDigits_inj h
      omega

/-- The text of a number that is no integer, as it is printed. -/
def IsFloatText (t : List Char) : Prop :=
  (∀ c ∈ t, isNumberChar c = true) ∧ ('.' ∈ t ∨ 'e' ∈ t)

instance (t : List Char) : Decidable (IsFloatText t) := inferInstanceAs (Decidable (_ ∧ _))

theorem intText_ne_floatText {n : Int} {t : List Char} (h : IsFloatText t) : intText n ≠ t := by
  rintro rfl
  rcases h.2 with hdot | he
  · rcases mem_intText hdot with hbad | hbad
    · cases hbad
    · cases hbad
  · rcases mem_intText he with hbad | hbad
    · cases hbad
    · cases hbad

/-! ## Values -/

mutual

/-- Every number that is no integer has a text that is printed for one. -/
def Printed : Json → Prop
  | float text => IsFloatText text.toList
  | arr items => PrintedItems items
  | obj fields => PrintedFields fields
  | _ => True

def PrintedItems : List Json → Prop
  | [] => True
  | item :: items => Printed item ∧ PrintedItems items

def PrintedFields : List (String × Json) → Prop
  | [] => True
  | (_, value) :: fields => Printed value ∧ PrintedFields fields

end

/-- What the first character of a text says about the value. -/
def kind : Json → Nat
  | null => 0
  | bool true => 1
  | bool false => 2
  | str _ => 3
  | arr _ => 4
  | obj _ => 5
  | int _ => 6
  | float _ => 6

def kindOf (c : Char) : Nat :=
  if c = 'n' then 0 else if c = 't' then 1 else if c = 'f' then 2 else if c = '"' then 3
  else if c = '[' then 4 else if c = '\x7b' then 5 else if c = ']' then 7 else 6

theorem kindOf_number {c : Char} (h : isNumberChar c = true) : kindOf c = 6 := by
  have hne : ∀ d, isNumberChar d = false → c ≠ d := by
    rintro d hd rfl
    rw [h] at hd
    cases hd
  simp [kindOf, hne 'n' (by decide), hne 't' (by decide), hne 'f' (by decide),
    hne '"' (by decide), hne '[' (by decide), hne '\x7b' (by decide), hne ']' (by decide)]

theorem isNumberChar_intText {n : Int} : ∀ c ∈ intText n, isNumberChar c = true := by
  intro c hc
  rcases mem_intText hc with rfl | hdigit
  · decide
  · simp [isNumberChar, hdigit]

theorem intText_ne_nil (n : Int) : intText n ≠ [] := by
  unfold intText
  split
  · simp
  · exact Nat.toDigits_ne_nil

theorem head_serialize {v : Json} (h : v.Printed) :
    ∃ c r, serialize v = c :: r ∧ kindOf c = kind v := by
  match v with
  | null => exact ⟨_, _, rfl, rfl⟩
  | bool true => exact ⟨_, _, rfl, rfl⟩
  | bool false => exact ⟨_, _, rfl, rfl⟩
  | str s => exact ⟨_, _, rfl, rfl⟩
  | arr [] => exact ⟨_, _, rfl, rfl⟩
  | arr (item :: items) => exact ⟨_, _, rfl, rfl⟩
  | obj [] => exact ⟨_, _, rfl, rfl⟩
  | obj ((key, value) :: fields) => exact ⟨_, _, rfl, rfl⟩
  | int n =>
    obtain ⟨c, r, hcr⟩ := List.exists_cons_of_ne_nil (intText_ne_nil n)
    exact ⟨c, r, hcr, kindOf_number (isNumberChar_intText c (hcr ▸ List.mem_cons_self))⟩
  | float text =>
    have hne : text.toList ≠ [] := by
      intro hnil
      rcases h.2 with hdot | he
      · simp [hnil] at hdot
      · simp [hnil] at he
    obtain ⟨c, r, hcr⟩ := List.exists_cons_of_ne_nil hne
    exact ⟨c, r, hcr, kindOf_number (h.1 c (hcr ▸ List.mem_cons_self))⟩

theorem kind_eq {v w : Json} {r s : List Char} (hv : v.Printed) (hw : w.Printed)
    (h : serialize v ++ r = serialize w ++ s) : kind v = kind w := by
  obtain ⟨c, a, hva, hc⟩ := head_serialize hv
  obtain ⟨d, b, hwb, hd⟩ := head_serialize hw
  rw [hva, hwb] at h
  rw [← hc, ← hd, (List.cons.inj h).1]

/-- No value starts with the bracket that closes an array. -/
theorem serialize_ne_close {v : Json} {r s : List Char} (h : v.Printed) :
    serialize v ++ r ≠ ']' :: s := by
  intro heq
  obtain ⟨c, a, hv, hc⟩ := head_serialize h
  rw [hv] at heq
  obtain rfl := (List.cons.inj heq).1
  cases v with
  | bool b => cases b <;> cases hc
  | _ => cases hc

theorem serialize_arr_append (x : Json) (xs : List Json) (r : List Char) :
    serialize (arr (x :: xs)) ++ r = '[' :: (serialize x ++ (serializeItems xs ++ r)) := by
  simp [serialize]

theorem serialize_obj_append (k : String) (x : Json) (fs : List (String × Json)) (r : List Char) :
    serialize (obj ((k, x) :: fs)) ++ r =
      '\x7b' :: (quote k ++ ':' :: (serialize x ++ (serializeFields fs ++ r))) := by
  simp [serialize]

theorem serializeItems_append (x : Json) (xs : List Json) (r : List Char) :
    serializeItems (x :: xs) ++ r = ',' :: (serialize x ++ (serializeItems xs ++ r)) := by
  simp [serializeItems]

theorem serializeFields_append (k : String) (x : Json) (fs : List (String × Json))
    (r : List Char) : serializeFields ((k, x) :: fs) ++ r =
      ',' :: (quote k ++ ':' :: (serialize x ++ (serializeFields fs ++ r))) := by
  simp [serializeFields]

theorem ends_items (items : List Json) (r : List Char) : Ends (serializeItems items ++ r) := by
  cases items with
  | nil => exact ends_cons (by decide)
  | cons item items => exact ends_cons (by decide)

theorem ends_fields (fields : List (String × Json)) (r : List Char) :
    Ends (serializeFields fields ++ r) := by
  cases fields with
  | nil => exact ends_cons (by decide)
  | cons field fields => exact ends_cons (by decide)

mutual

/-- The text of a value, whatever comes after it, is the text of no other value. -/
theorem serialize_append_inj : ∀ (v w : Json) {r s : List Char}, v.Printed → w.Printed →
    Ends r → Ends s → serialize v ++ r = serialize w ++ s → v = w ∧ r = s
  | null, w, r, s, hv, hw, _, _, h => by
    have hkind := kind_eq hv hw h
    cases w with
    | null => exact ⟨rfl, List.append_cancel_left h⟩
    | bool b => cases b <;> cases hkind
    | _ => cases hkind
  | bool true, w, r, s, hv, hw, _, _, h => by
    have hkind := kind_eq hv hw h
    cases w with
    | bool b =>
      cases b with
      | true => exact ⟨rfl, List.append_cancel_left h⟩
      | false => cases hkind
    | _ => cases hkind
  | bool false, w, r, s, hv, hw, _, _, h => by
    have hkind := kind_eq hv hw h
    cases w with
    | bool b =>
      cases b with
      | true => cases hkind
      | false => exact ⟨rfl, List.append_cancel_left h⟩
    | _ => cases hkind
  | int m, w, r, s, hv, hw, hr, hs, h => by
    have hkind := kind_eq hv hw h
    cases w with
    | int n =>
      obtain ⟨htext, hrest⟩ :=
        number_append_inj isNumberChar_intText isNumberChar_intText hr hs h
      exact ⟨congrArg int (intText_inj htext), hrest⟩
    | float text =>
      obtain ⟨htext, -⟩ := number_append_inj isNumberChar_intText hw.1 hr hs h
      exact absurd htext (intText_ne_floatText hw)
    | bool b => cases b <;> cases hkind
    | _ => cases hkind
  | float t, w, r, s, hv, hw, hr, hs, h => by
    have hkind := kind_eq hv hw h
    cases w with
    | int n =>
      obtain ⟨htext, -⟩ := number_append_inj hv.1 isNumberChar_intText hr hs h
      exact absurd htext.symm (intText_ne_floatText hv)
    | float text =>
      obtain ⟨htext, hrest⟩ := number_append_inj hv.1 hw.1 hr hs h
      exact ⟨congrArg float (String.toList_inj.mp htext), hrest⟩
    | bool b => cases b <;> cases hkind
    | _ => cases hkind
  | str x, w, r, s, hv, hw, _, _, h => by
    have hkind := kind_eq hv hw h
    cases w with
    | str y =>
      obtain ⟨rfl, hrest⟩ := quote_append_inj h
      exact ⟨rfl, hrest⟩
    | bool b => cases b <;> cases hkind
    | _ => cases hkind
  | arr [], w, r, s, hv, hw, _, _, h => by
    have hkind := kind_eq hv hw h
    cases w with
    | arr ys =>
      cases ys with
      | nil => exact ⟨rfl, List.append_cancel_left h⟩
      | cons y ys =>
        rw [serialize_arr_append] at h
        exact absurd (List.cons.inj h).2.symm (serialize_ne_close hw.1)
    | bool b => cases b <;> cases hkind
    | _ => cases hkind
  | arr (x :: xs), w, r, s, hv, hw, _, _, h => by
    have hkind := kind_eq hv hw h
    cases w with
    | arr ys =>
      cases ys with
      | nil =>
        rw [serialize_arr_append] at h
        exact absurd (List.cons.inj h).2 (serialize_ne_close hv.1)
      | cons y ys =>
        rw [serialize_arr_append, serialize_arr_append] at h
        obtain ⟨rfl, hitems⟩ := serialize_append_inj x y hv.1 hw.1 (ends_items xs r)
          (ends_items ys s) (List.cons.inj h).2
        obtain ⟨rfl, hrest⟩ := serializeItems_append_inj xs ys hv.2 hw.2 hitems
        exact ⟨rfl, hrest⟩
    | bool b => cases b <;> cases hkind
    | _ => cases hkind
  | obj [], w, r, s, hv, hw, _, _, h => by
    have hkind := kind_eq hv hw h
    cases w with
    | obj gs =>
      cases gs with
      | nil => exact ⟨rfl, List.append_cancel_left h⟩
      | cons g gs => cases (List.cons.inj (List.cons.inj h).2).1
    | bool b => cases b <;> cases hkind
    | _ => cases hkind
  | obj ((k, x) :: fs), w, r, s, hv, hw, _, _, h => by
    have hkind := kind_eq hv hw h
    cases w with
    | obj gs =>
      cases gs with
      | nil => cases (List.cons.inj (List.cons.inj h).2).1
      | cons g gs =>
        obtain ⟨l, y⟩ := g
        rw [serialize_obj_append, serialize_obj_append] at h
        obtain ⟨rfl, hvalue⟩ := quote_append_inj (List.cons.inj h).2
        obtain ⟨rfl, hfields⟩ := serialize_append_inj x y hv.1 hw.1 (ends_fields fs r)
          (ends_fields gs s) (List.cons.inj hvalue).2
        obtain ⟨rfl, hrest⟩ := serializeFields_append_inj fs gs hv.2 hw.2 hfields
        exact ⟨rfl, hrest⟩
    | bool b => cases b <;> cases hkind
    | _ => cases hkind

theorem serializeItems_append_inj : ∀ (xs ys : List Json) {r s : List Char}, PrintedItems xs →
    PrintedItems ys → serializeItems xs ++ r = serializeItems ys ++ s → xs = ys ∧ r = s
  | [], [], _, _, _, _, h => ⟨rfl, (List.cons.inj h).2⟩
  | [], _ :: _, _, _, _, _, h => by cases (List.cons.inj h).1
  | _ :: _, [], _, _, _, _, h => by cases (List.cons.inj h).1
  | x :: xs, y :: ys, r, s, hv, hw, h => by
    rw [serializeItems_append, serializeItems_append] at h
    obtain ⟨rfl, hitems⟩ := serialize_append_inj x y hv.1 hw.1 (ends_items xs r)
      (ends_items ys s) (List.cons.inj h).2
    obtain ⟨rfl, hrest⟩ := serializeItems_append_inj xs ys hv.2 hw.2 hitems
    exact ⟨rfl, hrest⟩

theorem serializeFields_append_inj : ∀ (fs gs : List (String × Json)) {r s : List Char},
    PrintedFields fs → PrintedFields gs → serializeFields fs ++ r = serializeFields gs ++ s →
      fs = gs ∧ r = s
  | [], [], _, _, _, _, h => ⟨rfl, (List.cons.inj h).2⟩
  | [], _ :: _, _, _, _, _, h => by cases (List.cons.inj h).1
  | _ :: _, [], _, _, _, _, h => by cases (List.cons.inj h).1
  | (k, x) :: fs, (l, y) :: gs, r, s, hv, hw, h => by
    rw [serializeFields_append, serializeFields_append] at h
    obtain ⟨rfl, hvalue⟩ := quote_append_inj (List.cons.inj h).2
    obtain ⟨rfl, hfields⟩ := serialize_append_inj x y hv.1 hw.1 (ends_fields fs r)
      (ends_fields gs s) (List.cons.inj hvalue).2
    obtain ⟨rfl, hrest⟩ := serializeFields_append_inj fs gs hv.2 hw.2 hfields
    exact ⟨rfl, hrest⟩

end

/-! ## No line end -/

theorem newline_not_mem_escape (c : Char) : '\n' ∉ escape c := by
  have hdigit : ∀ d, d < 16 → hexDigit d ≠ '\n' := by decide
  unfold escape
  split
  · decide
  split
  · decide
  split
  · decide
  split
  · decide
  split
  · decide
  rename_i hne
  split
  · decide
  split
  · decide
  split
  · have hhigh := hdigit (c.toNat / 16) (by omega)
    have hlow := hdigit (c.toNat % 16) (Nat.mod_lt _ (by decide))
    simp [hhigh.symm, hlow.symm]
  · rw [List.mem_singleton]
    rintro rfl
    exact hne rfl

theorem newline_not_mem_quote (x : String) : '\n' ∉ quote x := by
  simp [quote, newline_not_mem_escape]

theorem newline_not_mem_number {t : List Char} (h : ∀ c ∈ t, isNumberChar c = true) :
    '\n' ∉ t :=
  fun hmem => absurd (h _ hmem) (by decide)

mutual

/-- A line end in a string is escaped, and there is no other. -/
theorem newline_not_mem_serialize : ∀ v : Json, v.Printed → '\n' ∉ serialize v
  | null, _ => by decide
  | bool true, _ => by decide
  | bool false, _ => by decide
  | int _, _ => newline_not_mem_number isNumberChar_intText
  | float _, h => newline_not_mem_number h.1
  | str x, _ => newline_not_mem_quote x
  | arr [], _ => by decide
  | arr (x :: xs), h => by
    simp [serialize, newline_not_mem_serialize x h.1, newline_not_mem_serializeItems xs h.2]
  | obj [], _ => by decide
  | obj ((k, x) :: fs), h => by
    simp [serialize, newline_not_mem_quote, newline_not_mem_serialize x h.1,
      newline_not_mem_serializeFields fs h.2]

theorem newline_not_mem_serializeItems : ∀ xs : List Json, PrintedItems xs →
    '\n' ∉ serializeItems xs
  | [], _ => by decide
  | x :: xs, h => by
    simp [serializeItems, newline_not_mem_serialize x h.1, newline_not_mem_serializeItems xs h.2]

theorem newline_not_mem_serializeFields : ∀ fs : List (String × Json), PrintedFields fs →
    '\n' ∉ serializeFields fs
  | [], _ => by decide
  | (k, x) :: fs, h => by
    simp [serializeFields, newline_not_mem_quote, newline_not_mem_serialize x h.1,
      newline_not_mem_serializeFields fs h.2]

end

/-! ## Objects as maps -/

/-- The members of an object, inserted into a `BTreeMap` one after the other. -/
def btreeMap (fields : List (String × Json)) : List (String × Json) :=
  (btreeSet (fields.map Prod.fst)).filterMap fun k =>
    (fields.reverse.lookup k).map fun v => (k, v)

mutual

/-- `serde_json::from_slice`: the value of a document, whose objects have their members in order. -/
def fromDocument : Json → Json
  | null => null
  | bool b => bool b
  | int n => int n
  | float text => float text
  | str s => str s
  | arr items => arr (fromItems items)
  | obj fields => obj (btreeMap (fromFields fields))

def fromItems : List Json → List Json
  | [] => []
  | item :: items => fromDocument item :: fromItems items

def fromFields : List (String × Json) → List (String × Json)
  | [] => []
  | (key, value) :: fields => (key, fromDocument value) :: fromFields fields

end

mutual

/-- Two documents that only differ in the order of the members of their objects. -/
inductive SameMembers : Json → Json → Prop
  | refl (v : Json) : SameMembers v v
  | arr {xs ys : List Json} (h : SameItems xs ys) : SameMembers (.arr xs) (.arr ys)
  | obj {fs gs hs : List (String × Json)} (hkeys : (fs.map Prod.fst).Nodup)
    (h : SameFields fs gs) (hperm : gs.Perm hs) : SameMembers (.obj fs) (.obj hs)

inductive SameItems : List Json → List Json → Prop
  | nil : SameItems [] []
  | cons {x y : Json} {xs ys : List Json} (h : SameMembers x y) (hs : SameItems xs ys) :
    SameItems (x :: xs) (y :: ys)

inductive SameFields : List (String × Json) → List (String × Json) → Prop
  | nil : SameFields [] []
  | cons {k : String} {x y : Json} {fs gs : List (String × Json)} (h : SameMembers x y)
    (hs : SameFields fs gs) : SameFields ((k, x) :: fs) ((k, y) :: gs)

end

/-- The set is known by its members. -/
theorem btreeSet_congr {xs ys : List String} (h : ∀ x, x ∈ xs ↔ x ∈ ys) :
    btreeSet xs = btreeSet ys := by
  have hperm : (btreeSet xs).Perm (btreeSet ys) := by
    have hdedup : xs.dedup.Perm ys.dedup := by
      rw [List.perm_ext_iff_of_nodup (List.nodup_dedup xs) (List.nodup_dedup ys)]
      intro x
      rw [List.mem_dedup, List.mem_dedup, h]
    exact (List.perm_insertionSort _ _).trans (hdedup.trans (List.perm_insertionSort _ _).symm)
  exact hperm.eq_of_sortedLE List.sortedLE_insertionSort List.sortedLE_insertionSort

theorem lookup_eq_some {fs : List (String × Json)} (hkeys : (fs.map Prod.fst).Nodup)
    {k : String} {v : Json} : fs.lookup k = some v ↔ (k, v) ∈ fs := by
  induction fs with
  | nil => simp
  | cons f fs ih =>
    obtain ⟨l, w⟩ := f
    rw [List.map_cons, List.nodup_cons] at hkeys
    rw [List.lookup_cons, List.mem_cons, Prod.mk.injEq]
    by_cases hk : k = l
    · subst hk
      have hnot : (k, v) ∉ fs := fun h => hkeys.1 (List.mem_map.mpr ⟨(k, v), h, rfl⟩)
      simp [hnot, eq_comm]
    · have hne : (k == l) = false := by simpa using hk
      simp only [hne, hk, false_and, false_or]
      exact ih hkeys.2

/-- Where keys are distinct, the order of the members does not matter to a look-up. -/
theorem lookup_perm {fs gs : List (String × Json)} (hkeys : (fs.map Prod.fst).Nodup)
    (h : fs.Perm gs) (k : String) : fs.lookup k = gs.lookup k := by
  have hkeys' : (gs.map Prod.fst).Nodup := (h.map Prod.fst).nodup_iff.mp hkeys
  refine Option.ext fun v => ?_
  rw [lookup_eq_some hkeys, lookup_eq_some hkeys', h.mem_iff]

theorem btreeMap_perm {fs gs : List (String × Json)} (hkeys : (fs.map Prod.fst).Nodup)
    (h : fs.Perm gs) : btreeMap fs = btreeMap gs := by
  unfold btreeMap
  rw [btreeSet_congr fun x => (h.map Prod.fst).mem_iff]
  refine List.filterMap_congr fun k _ => ?_
  rw [lookup_perm _ ((List.reverse_perm fs).trans (h.trans (List.reverse_perm gs).symm)) k]
  rw [List.map_reverse]
  exact List.nodup_reverse.mpr hkeys

theorem fromFields_keys (fs : List (String × Json)) :
    (fromFields fs).map Prod.fst = fs.map Prod.fst := by
  induction fs with
  | nil => rfl
  | cons f fs ih =>
    obtain ⟨k, x⟩ := f
    simp [fromFields, ih]

theorem fromFields_eq_map (fs : List (String × Json)) :
    fromFields fs = fs.map fun f => (f.1, fromDocument f.2) := by
  induction fs with
  | nil => rfl
  | cons f fs ih =>
    obtain ⟨k, x⟩ := f
    simp [fromFields, ih]

mutual

theorem fromDocument_eq : ∀ {v w : Json}, SameMembers v w → fromDocument v = fromDocument w
  | _, _, .refl _ => rfl
  | _, _, .arr h => congrArg Json.arr (fromItems_eq h)
  | _, _, @SameMembers.obj fs gs hs hkeys h hperm => by
    show Json.obj (btreeMap (fromFields fs)) = Json.obj (btreeMap (fromFields hs))
    rw [← fromFields_keys, fromFields_eq h] at hkeys
    rw [fromFields_eq h, fromFields_eq_map gs, fromFields_eq_map hs,
      btreeMap_perm (by rwa [← fromFields_eq_map]) (hperm.map _)]

theorem fromItems_eq : ∀ {xs ys : List Json}, SameItems xs ys → fromItems xs = fromItems ys
  | _, _, .nil => rfl
  | _, _, .cons h hs => congrArg₂ List.cons (fromDocument_eq h) (fromItems_eq hs)

theorem fromFields_eq : ∀ {fs gs : List (String × Json)}, SameFields fs gs →
    fromFields fs = fromFields gs
  | _, _, .nil => rfl
  | _, _, @SameFields.cons k x y fs gs h hs => by
    show (k, fromDocument x) :: fromFields fs = (k, fromDocument y) :: fromFields gs
    rw [fromDocument_eq h, fromFields_eq hs]

end

end ThinkWatch.Policy.Json
