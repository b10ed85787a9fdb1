import Mathlib.Data.List.Basic

/-!
# Fields with quotes around them

A list of fields is written with `sep` between them. Where a field has a `sep` of its own it is put
between two `quote`s, and an `esc` in front of every `quote` and `esc` in it. `split` cuts at the
`sep`s that are outside the quotes, `unquote` takes the quotes off again.
-/

namespace Lib

structure QuoteMarks (α : Type*) where
  quote : α
  esc : α
  sep : α
  quote_ne_esc : quote ≠ esc
  sep_ne_quote : sep ≠ quote

/-- Where the next item stands. -/
inductive Quoting where
  | outside
  | inside
  | escaped
deriving DecidableEq, Repr

namespace QuoteMarks

variable {α : Type*} [DecidableEq α] (m : QuoteMarks α)

/-- Where the item after `c` stands; none if `c` is a separator. -/
def next (c : α) : Quoting → Option Quoting
  | .escaped => some .inside
  | .inside => if c = m.esc then some .escaped else if c = m.quote then some .outside
    else some .inside
  | .outside => if c = m.quote then some .inside else if c = m.sep then none else some .outside

/-- Where the item after `xs` stands; none if there is a separator in `xs`. -/
def scan : Quoting → List α → Option Quoting
  | q, [] => some q
  | q, c :: xs => (m.next c q).bind fun q' => scan q' xs

/-- The fields that are left, `field` being what is read of the first of them. -/
def splitFrom : Quoting → List α → List α → List (List α)
  | _, field, [] => if field = [] then [] else [field]
  | q, field, c :: xs =>
    match m.next c q with
    | none => field :: splitFrom .outside [] xs
    | some q' => splitFrom q' (field ++ [c]) xs

def split (xs : List α) : List (List α) := m.splitFrom .outside [] xs

/-- An escape sequence stands for its second item. -/
def unescape : List α → List α
  | [] => []
  | [c] => [c]
  | c :: d :: xs => if c = m.esc then d :: unescape xs else c :: unescape (d :: xs)

def unquote (xs : List α) : List α :=
  if 2 ≤ xs.length ∧ xs.head? = some m.quote ∧ xs.getLast? = some m.quote then
    m.unescape xs.tail.dropLast
  else xs

def escape (xs : List α) : List α :=
  xs.flatMap fun c => if c = m.esc ∨ c = m.quote then [m.esc, c] else [c]

/-- `xs` between quotes. -/
def quoted (xs : List α) : List α := m.quote :: (m.escape xs ++ [m.quote])

/-- A field that ends outside the quotes and has no separator there. -/
def Closed (xs : List α) : Prop := m.scan .outside xs = some .outside

variable {m} {xs ys field rest : List α} {fields : List (List α)} {q q' : Quoting} {c : α}

theorem scan_append :
    m.scan q (xs ++ ys) = (m.scan q xs).bind fun q' => m.scan q' ys := by
  induction xs generalizing q with
  | nil => rfl
  | cons c xs ih =>
    rw [List.cons_append, scan, scan, Option.bind_assoc]
    congr 1
    funext q'
    exact ih

/-! ## Cutting what was joined -/

theorem splitFrom_of_scan (h : m.scan q xs = some q') :
    m.splitFrom q field (xs ++ ys) = m.splitFrom q' (field ++ xs) ys := by
  induction xs generalizing q field with
  | nil =>
    obtain rfl := Option.some.inj h
    rw [List.nil_append, List.append_nil]
  | cons c xs ih =>
    obtain ⟨q'', hnext, hscan⟩ := Option.bind_eq_some_iff.mp h
    rw [List.cons_append, splitFrom, hnext]
    dsimp only
    rw [ih hscan, List.append_assoc]
    rfl

theorem split_closed_cons (h : m.Closed xs) :
    m.split (xs ++ m.sep :: rest) = xs :: m.split rest := by
  rw [split, splitFrom_of_scan h, List.nil_append, splitFrom, next, if_neg m.sep_ne_quote,
    if_pos rfl, split]

theorem split_closed (h : m.Closed xs) (hne : xs ≠ []) : m.split xs = [xs] := by
  have hsplit : m.splitFrom .outside [] (xs ++ []) = m.splitFrom .outside ([] ++ xs) [] :=
    splitFrom_of_scan h
  rw [List.append_nil, List.nil_append, splitFrom, if_neg hne] at hsplit
  exact hsplit

/-- Closed fields are cut where they were joined. -/
theorem split_intercalate (hclosed : ∀ xs ∈ fields, m.Closed xs) (hne : ∀ xs ∈ fields, xs ≠ []) :
    m.split ([m.sep].intercalate fields) = fields := by
  induction fields with
  | nil => rfl
  | cons xs fields ih =>
    have hxs := hclosed xs List.mem_cons_self
    have ih := ih (fun ys hys => hclosed ys (List.mem_cons_of_mem _ hys))
      fun ys hys => hne ys (List.mem_cons_of_mem _ hys)
    cases fields with
    | nil =>
      rw [List.intercalate_singleton]
      exact split_closed hxs (hne xs List.mem_cons_self)
    | cons ys fields =>
      rw [List.intercalate_cons_cons, List.append_assoc, List.singleton_append,
        split_closed_cons hxs, ih]

/-! ## What is closed -/

/-- Without a quote and a separator every item is plain. -/
theorem closed_of_plain (hquote : m.quote ∉ xs) (hsep : m.sep ∉ xs) : m.Closed xs := by
  induction xs with
  | nil => rfl
  | cons c xs ih =>
    have hq : c ≠ m.quote := fun h => hquote (h ▸ List.mem_cons_self)
    have hs : c ≠ m.sep := fun h => hsep (h ▸ List.mem_cons_self)
    rw [Closed, scan, next, if_neg hq, if_neg hs]
    exact ih (fun h => hquote (List.mem_cons_of_mem _ h)) fun h => hsep (List.mem_cons_of_mem _ h)

theorem Closed.append (hx : m.Closed xs) (hy : m.Closed ys) : m.Closed (xs ++ ys) := by
  rw [Closed, scan_append, hx]
  exact hy

theorem scan_escape (xs : List α) : m.scan .inside (m.escape xs) = some .inside := by
  induction xs with
  | nil => rfl
  | cons c xs ih =>
    rw [escape, List.flatMap_cons, ← escape]
    by_cases hc : c = m.esc ∨ c = m.quote
    · rw [if_pos hc, List.cons_append, scan, next, if_pos rfl]
      exact ih
    · obtain ⟨hesc, hquote⟩ := not_or.mp hc
      rw [if_neg hc, List.cons_append, scan, next, if_neg hesc, if_neg hquote]
      exact ih

theorem closed_quoted (xs : List α) : m.Closed (m.quoted xs) := by
  rw [Closed, quoted, scan, next, if_pos rfl, Option.bind_some, scan_append, scan_escape,
    Option.bind_some, scan, next, if_neg m.quote_ne_esc, if_pos rfl]
  rfl

/-! ## Reading a field back -/

theorem unescape_escape (xs : List α) : m.unescape (m.escape xs) = xs := by
  induction xs with
  | nil => rfl
  | cons c xs ih =>
    rw [escape, List.flatMap_cons, ← escape]
    by_cases hc : c = m.esc ∨ c = m.quote
    · rw [if_pos hc, List.cons_append, List.cons_append, List.nil_append, unescape, if_pos rfl, ih]
    · rw [if_neg hc, List.singleton_append]
      -- an item that begins no escape sequence is read by itself, last or not
      cases hrest : m.escape xs with
      | nil =>
        rw [hrest] at ih
        rw [← ih]
        rfl
      | cons d rest =>
        rw [unescape, if_neg (not_or.mp hc).1, ← hrest, ih]

theorem unquote_quoted (xs : List α) : m.unquote (m.quoted xs) = xs := by
  have hlast : (m.quoted xs).getLast? = some m.quote := by
    rw [quoted, ← List.cons_append, List.getLast?_concat]
  have hlen : 2 ≤ (m.quoted xs).length := by
    rw [quoted, List.length_cons, List.length_append, List.length_singleton]
    omega
  rw [unquote, if_pos ⟨hlen, rfl, hlast⟩, quoted, List.tail_cons, List.dropLast_concat,
    unescape_escape]

theorem unquote_plain (h : m.quote ∉ xs) : m.unquote xs = xs :=
  if_neg fun hq => h (List.mem_of_mem_head? (Option.mem_def.mpr hq.2.1))

end QuoteMarks

end Lib
