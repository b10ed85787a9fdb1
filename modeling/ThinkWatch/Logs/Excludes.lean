import ThinkWatch.Logs.Query
import ThinkWatch.Lib.Quoted

/-!
# What the log explorer leaves out

`parse_exclude_param` (`crates/server/src/handlers/clickhouse_util.rs`) turns the parameter
`exclude` into conditions of a ClickHouse query; `category.allowed` is what each of the five
handlers passes it, and `list_access_logs` reads the values of its two numbers. The columns are
those of `01_init.sql`. `excludes_as_asked`: the conditions are those of the exclusions that were
typed, whatever is in their values, and they leave the rows that have something else.
-/

namespace ThinkWatch.Logs

open Lib

/-- How a column is matched. -/
inductive ExcludeMode where
  | equals
  | notLike
deriving DecidableEq, Repr

inductive LogCategory where
  | audit
  | gateway
  | mcp
  | access
  | app
deriving DecidableEq, Repr

/-- The names that may be excluded, with their columns. -/
def LogCategory.allowed : LogCategory → List (String × String × ExcludeMode)
  | .audit => [("user_id", "user_id", .equals), ("api_key_id", "api_key_id", .equals),
      ("action", "action", .equals), ("resource", "resource", .equals),
      ("ip_address", "ip_address", .equals)]
  | .gateway => [("model", "model_id", .equals), ("provider", "provider", .equals),
      ("upstream_model", "upstream_model", .equals), ("user_id", "user_id", .equals),
      ("api_key_id", "api_key_id", .equals), ("status_code", "status_code", .equals)]
  | .mcp => [("user_id", "user_id", .equals), ("server_id", "server_id", .equals),
      ("tool_name", "tool_name", .equals), ("status", "status", .equals)]
  | .access => [("method", "method", .equals), ("path", "path", .notLike),
      ("status_code", "status_code", .equals), ("port", "port", .equals),
      ("user_id", "user_id", .equals)]
  | .app => [("level", "level", .equals), ("target", "target", .notLike)]

/-! ## `parse_exclude_param` -/

def marks : QuoteMarks Char := ⟨'"', '\\', ',', by decide, by decide⟩

def splitTopLevelCommas (s : Text) : List Text := marks.split s

def stripQuotes (s : Text) : Text := marks.unquote s

/-- What is excluded: the value of a column, and how it is matched. -/
structure Exclusion where
  col : String
  mode : ExcludeMode
  value : Text
deriving DecidableEq, Repr

/-- A condition of the query, and what is bound to its placeholder. -/
structure Condition where
  col : String
  mode : ExcludeMode
  bind : Text
deriving DecidableEq, Repr

/-- The text of the condition. -/
def Condition.fragment (c : Condition) : Text :=
  match c.mode with
  | .equals => c.col.toList ++ " <> ?".toList
  | .notLike => c.col.toList ++ " NOT LIKE ?".toList

def Exclusion.condition (e : Exclusion) : Condition :=
  match e.mode with
  | .equals => ⟨e.col, .equals, e.value⟩
  | .notLike =>
    let escaped := replaceChar '_' ['\\', '_'] (replaceChar '%' ['\\', '%']
      (replaceChar '\\' ['\\', '\\'] e.value))
    ⟨e.col, .notLike, '%' :: (escaped ++ ['%'])⟩

/-- The exclusion of a name that may be excluded. -/
def exclusion (allowed : List (String × String × ExcludeMode)) (key value : Text) :
    Option Exclusion :=
  if key = [] ∨ value = [] then none
  else (allowed.find? fun a => a.1.toList = key).map fun a => ⟨a.2.1, a.2.2, value⟩

/-- One token of the parameter. -/
def parseToken (allowed : List (String × String × ExcludeMode)) (token : Text) :
    Option Exclusion :=
  match splitOnce ':' (trimBy isWhitespace token) with
  | none => none
  | some (key, rest) => exclusion allowed key (stripQuotes (trimBy isWhitespace rest))

def parseExcludeParam (exclude : Option Text) (allowed : List (String × String × ExcludeMode)) :
    List Condition :=
  match exclude with
  | none => []
  | some raw => ((splitTopLevelCommas raw).filterMap (parseToken allowed)).map Exclusion.condition

/-! ## The conditions of a list -/

/-- `u16::from_str`: there may be a `+` before the digits. -/
def parseU16 (s : Text) : Option Nat :=
  let digits := match s with
    | '+' :: digits => digits
    | _ => s
  if digits ≠ [] ∧ digits.all Char.isDigit = true ∧ Nat.ofDigitChars 10 digits 0 < 65536 then
    some (Nat.ofDigitChars 10 digits 0)
  else none

/-- A number is written out again. -/
def integerBind (name : String) (value : Text) : Except String Text :=
  orRefuse ((parseU16 value).map (Nat.toDigits 10)) (name ++ " must be an integer")

/-- What the handler binds: the access logs have two columns of numbers. -/
def LogCategory.bindOf (category : LogCategory) (c : Condition) : Except String Text :=
  if category = .access then
    if "status_code ".toList.isPrefixOf c.fragment then integerBind "status_code" c.bind
    else if "port ".toList.isPrefixOf c.fragment then integerBind "port" c.bind
    else .ok c.bind
  else .ok c.bind

def LogCategory.bound (category : LogCategory) (c : Condition) : Except String Condition := do
  let bind ← category.bindOf c
  return { c with bind }

/-- The conditions that a handler adds for its parameter, or what it answers 400 with. -/
def LogCategory.conditions (category : LogCategory) (exclude : Option Text) :
    Except String (List Condition) :=
  (parseExcludeParam exclude category.allowed).mapM category.bound

/-! ## What the conditions mean -/

/-- What a row has in a column; `none` is `NULL`. -/
inductive Cell where
  | string (value : Option Text)
  | number (value : Option Int)
deriving DecidableEq

/-- The columns of numbers among those that may be excluded. -/
def LogCategory.isNumber : LogCategory → String → Bool
  | .gateway, col => col = "status_code"
  | .access, col => col = "status_code" || col = "port"
  | _, _ => false

/-- The cell has the type of its column. -/
def Cell.Fits (category : LogCategory) (col : String) : Cell → Prop
  | .string _ => category.isNumber col = false
  | .number _ => category.isNumber col = true

/-- How ClickHouse reads the text that a column of numbers is compared with: it reads what a number
is written as, and may refuse the query. -/
structure ClickHouse where
  readNumber : Text → Option Int
  reads : ∀ n < 65536, readNumber (Nat.toDigits 10 n) = some (n : Int)

namespace ClickHouse

variable (db : ClickHouse)

/-- Whether a condition is true of a cell; a comparison with `NULL` is not. `none` is a query that
is refused. -/
def holds (c : Condition) : Cell → Option Bool
  | .string none => some false
  | .string (some s) =>
    match c.mode with
    | .equals => some (decide (s ≠ c.bind))
    | .notLike => (Like.accepts c.bind s).map (! ·)
  | .number v =>
    match c.mode with
    | .equals => (db.readNumber c.bind).map fun n => v.any (· ≠ n)
    | .notLike => none

/-- `WHERE` with all the conditions. -/
def keeps (conditions : List Condition) (row : String → Cell) : Bool :=
  conditions.all fun c => db.holds c (row c.col) == some true

end ClickHouse

/-- How a list reads an excluded number. -/
def LogCategory.readNumber (category : LogCategory) (db : ClickHouse) (value : Text) :
    Option Int :=
  if category = .access then (parseU16 value).map Int.ofNat else db.readNumber value

/-- A cell is kept that has another text than the value, or one that the value does not occur in, or
another number. -/
def Exclusion.Keeps (readNumber : Text → Option Int) (e : Exclusion) : Cell → Prop
  | .string v => ∃ s, v = some s ∧
    match e.mode with
    | .equals => s ≠ e.value
    | .notLike => ¬ e.value <:+: s
  | .number v => ∃ m n, v = some m ∧ readNumber e.value = some n ∧ m ≠ n

/-- What the list answers 400 with, if the value has to be a number and is none. -/
def Exclusion.refusal (category : LogCategory) (e : Exclusion) : Option String :=
  if category = .access ∧ (e.col = "status_code" ∨ e.col = "port") ∧ parseU16 e.value = none then
    some (e.col ++ " must be an integer")
  else none

/-- The name may be excluded, and its column is matched so. -/
def Exclusion.Allowed (category : LogCategory) (e : Exclusion) : Prop :=
  ∃ a ∈ category.allowed, e.col = a.2.1 ∧ e.mode = a.2.2

theorem exclusion_allowed {category : LogCategory} {key value : Text} {e : Exclusion}
    (h : exclusion category.allowed key value = some e) : e.Allowed category := by
  unfold exclusion at h
  split at h
  · cases h
  · obtain ⟨a, ha, rfl⟩ := Option.map_eq_some_iff.mp h
    exact ⟨a, List.mem_of_find?_eq_some ha, rfl, rfl⟩

variable {category : LogCategory} {e : Exclusion} {c : Condition} {cell : Cell}

@[simp]
theorem Exclusion.condition_col (e : Exclusion) : e.condition.col = e.col := by
  unfold condition
  split <;> rfl

@[simp]
theorem Exclusion.condition_mode (e : Exclusion) : e.condition.mode = e.mode := by
  unfold condition
  split
  next h => exact h.symm
  next h => exact h.symm

/-- Only texts are matched by a part. -/
theorem Exclusion.Allowed.equals (h : e.Allowed category)
    (hnumber : category.isNumber e.col = true) : e.mode = .equals := by
  have hall : ∀ category : LogCategory, ∀ a ∈ category.allowed, category.isNumber a.2.1 = true →
      a.2.2 = .equals := by
    intro category
    cases category <;> decide
  obtain ⟨a, ha, hcol, hmode⟩ := h
  rw [hmode]
  exact hall category a ha (hcol ▸ hnumber)

theorem Exclusion.condition_fragment (e : Exclusion) :
    e.condition.fragment = (Condition.mk e.col e.mode []).fragment := by
  unfold condition Condition.fragment
  cases e.mode <;> rfl

/-- The handler of the access logs knows its two numbers by the beginning of the condition. -/
theorem Exclusion.Allowed.bindOf (h : e.Allowed category) :
    category.bindOf e.condition =
      if category = .access ∧ (e.col = "status_code" ∨ e.col = "port") then
        integerBind e.col e.condition.bind
      else .ok e.condition.bind := by
  have hall : ∀ a ∈ LogCategory.access.allowed,
      "status_code ".toList.isPrefixOf (Condition.mk a.2.1 a.2.2 []).fragment =
          decide (a.2.1 = "status_code") ∧
        "port ".toList.isPrefixOf (Condition.mk a.2.1 a.2.2 []).fragment =
          decide (a.2.1 = "port") := by
    decide
  by_cases haccess : category = .access
  · subst haccess
    obtain ⟨a, ha, hcol, hmode⟩ := h
    obtain ⟨hstatus, hport⟩ := hall a ha
    rw [← hcol, ← hmode] at hstatus hport
    unfold LogCategory.bindOf
    rw [e.condition_fragment, hstatus, hport]
    by_cases h₁ : e.col = "status_code"
    · simp [h₁]
    · by_cases h₂ : e.col = "port"
      · simp [h₂]
      · simp [h₁, h₂]
  · simp [LogCategory.bindOf, haccess]

theorem lt_of_parseU16 {s : Text} {n : Nat} (h : parseU16 s = some n) : n < 65536 := by
  unfold parseU16 at h
  obtain ⟨⟨-, -, hlt⟩, heq⟩ := Option.ite_none_right_eq_some.mp h
  exact Option.some.inj heq ▸ hlt

theorem isNumber_access {col : String} :
    LogCategory.access.isNumber col = true ↔ col = "status_code" ∨ col = "port" := by
  simp [LogCategory.isNumber]

theorem integerBind_ok {name : String} {value bind : Text} :
    integerBind name value = .ok bind ↔
      ∃ n, parseU16 value = some n ∧ Nat.toDigits 10 n = bind := by
  unfold integerBind
  rw [orRefuse_ok, Option.map_eq_some_iff]

/-- What the handler binds for a column of numbers is read as the number that was typed. -/
theorem readNumber_bind (db : ClickHouse) (h : e.Allowed category)
    (hnumber : category.isNumber e.col = true) {bind : Text}
    (hbind : category.bindOf e.condition = .ok bind) :
    db.readNumber bind = category.readNumber db e.value := by
  have hvalue : e.condition.bind = e.value := by
    simp [Exclusion.condition, h.equals hnumber]
  rw [h.bindOf, hvalue] at hbind
  unfold LogCategory.readNumber
  by_cases haccess : category = .access
  · subst haccess
    rw [if_pos ⟨rfl, isNumber_access.mp hnumber⟩] at hbind
    obtain ⟨n, hn, rfl⟩ := integerBind_ok.mp hbind
    simp [hn, db.reads n (lt_of_parseU16 hn)]
  · rw [if_neg fun h => haccess h.1] at hbind
    rw [if_neg haccess, Except.ok.inj hbind]

/-- A condition keeps a cell exactly if the exclusion does. -/
theorem holds_iff (db : ClickHouse) (h : e.Allowed category) (hfits : cell.Fits category e.col)
    {bind : Text} (hbind : category.bindOf e.condition = .ok bind) :
    db.holds { e.condition with bind } cell = some true ↔
      e.Keeps (category.readNumber db) cell := by
  cases cell with
  | string v =>
    have htext : ¬ (category = .access ∧ (e.col = "status_code" ∨ e.col = "port")) := by
      rintro ⟨rfl, hcol⟩
      exact absurd (isNumber_access.mpr hcol) (ne_true_of_eq_false hfits)
    rw [h.bindOf, if_neg htext] at hbind
    obtain rfl := Except.ok.inj hbind
    cases v with
    | none => simp [ClickHouse.holds, Exclusion.Keeps]
    | some s =>
      cases hmode : e.mode with
      | equals => simp [ClickHouse.holds, Exclusion.Keeps, Exclusion.condition, hmode]
      | notLike =>
        simp only [ClickHouse.holds, Exclusion.Keeps, Exclusion.condition, hmode]
        rw [Like.replaceChar_eq_escape, Like.accepts_substring]
        simp
  | number v =>
    have hread := readNumber_bind db h hfits hbind
    simp only [ClickHouse.holds, Exclusion.condition_mode, h.equals hfits, hread, Exclusion.Keeps]
    cases category.readNumber db e.value with
    | none => simp
    | some n => cases v <;> simp

/-- The handler refuses what is no number. -/
theorem bound_error_iff (h : e.Allowed category) (message : String) :
    category.bound e.condition = .error message ↔ e.refusal category = some message := by
  have herror : category.bound e.condition = .error message ↔
      category.bindOf e.condition = .error message := by
    unfold LogCategory.bound
    cases category.bindOf e.condition with
    | error m => simp [bind, Except.bind]
    | ok bind => simp [Bind.bind, Except.bind, pure, Except.pure]
  rw [herror, h.bindOf]
  unfold Exclusion.refusal
  by_cases hnumber : category = .access ∧ (e.col = "status_code" ∨ e.col = "port")
  · have hmode : e.mode = .equals := h.equals (hnumber.1 ▸ isNumber_access.mpr hnumber.2)
    rw [if_pos hnumber]
    cases hread : parseU16 e.value with
    | none => simp [integerBind, orRefuse, Exclusion.condition, hmode, hread, hnumber]
    | some n => simp [integerBind, orRefuse, Exclusion.condition, hmode, hread]
  · rw [if_neg hnumber, if_neg fun h => hnumber ⟨h.1, h.2.1⟩]
    simp

/-- The rows that are left have something else than what is excluded. -/
theorem keeps_iff (db : ClickHouse) {row : String → Cell} {exclusions : List Exclusion}
    {conditions : List Condition} (hallowed : ∀ e ∈ exclusions, e.Allowed category)
    (hfits : ∀ col, (row col).Fits category col)
    (h : List.Forall₂ (fun e c => category.bound e.condition = .ok c) exclusions conditions) :
    db.keeps conditions row = true ↔
      ∀ e ∈ exclusions, e.Keeps (category.readNumber db) (row e.col) := by
  induction h with
  | nil => simp [ClickHouse.keeps]
  | @cons e c exclusions conditions hc _ ih =>
    obtain ⟨bind, hbind, hc⟩ := bind_ok.mp hc
    obtain rfl := pure_ok.mp hc
    have hfirst := holds_iff db (hallowed e List.mem_cons_self) (hfits e.col) hbind
    have hrest := ih fun e he => hallowed e (List.mem_cons_of_mem _ he)
    rw [List.forall_mem_cons, ← hrest, ← hfirst]
    simp [ClickHouse.keeps]

/-! ## What a match is made of -/

variable {xs before value : Text} {m : Match} {n : Nat} {c : Char} {input key : Text}

theorem mem_of_mem_matchBare {v : Text × Nat} (h : matchBare xs = some v) (hc : c ∈ v.1) :
    c ∈ xs := by
  rw [matchBare] at h
  split at h
  · cases h
  · obtain rfl := Option.some.inj h
    exact (List.takeWhile_sublist _).mem hc

theorem mem_of_mem_matchValue {v : Text × Nat} (h : matchValue xs = some v) (hc : c ∈ v.1) :
    c ∈ xs := by
  unfold matchValue at h
  split at h
  · split at h
    · obtain rfl := Option.some.inj h
      exact List.mem_cons_of_mem _ ((List.takeWhile_sublist _).mem hc)
    · exact mem_of_mem_matchBare h hc
  · exact mem_of_mem_matchBare h hc

/-- The key is a word, and the value is part of what was typed. -/
structure Match.Within (m : Match) (xs : Text) : Prop where
  key_ne_nil : m.key ≠ []
  key : ∀ c ∈ m.key, isWordChar c = true
  value : ∀ c ∈ m.value, c ∈ xs

theorem within_of_matchKey {negate : Bool} (h : matchKey negate xs = some m) : m.Within xs := by
  rw [matchKey] at h
  split at h
  · cases h
  next hkey =>
  split at h
  next rest hrest =>
    obtain ⟨v, hv, rfl⟩ := Option.map_eq_some_iff.mp h
    refine ⟨hkey, fun c hc => List.all_eq_true.mp List.all_takeWhile c hc, fun c hc => ?_⟩
    exact (List.dropWhile_sublist _).mem
      (hrest ▸ List.mem_cons_of_mem _ (mem_of_mem_matchValue hv hc))
  next => cases h

theorem Match.Within.cons (h : m.Within xs) (c : Char) : m.Within (c :: xs) :=
  ⟨h.key_ne_nil, h.key, fun c' hc => List.mem_cons_of_mem _ (h.value c' hc)⟩

theorem within_of_matchAt (h : matchAt xs = some m) : m.Within xs := by
  unfold matchAt at h
  split at h
  · exact (within_of_matchKey h).cons _
  · exact within_of_matchKey h

theorem within_of_scan (h : m ∈ (scan n before xs).1) : m.Within xs := by
  induction xs generalizing n before with
  | nil => cases n <;> cases h
  | cons c xs ih =>
    cases n with
    | succ n => exact (ih h).cons c
    | zero =>
      rw [scan] at h
      split at h
      next m' hm =>
        rcases List.mem_cons.mp h with rfl | h
        · exact within_of_matchAt hm
        · exact (ih h).cons c
      next => exact (ih h).cons c

/-! ## A token is read as it was written -/

/-- Nothing is cut off a text that begins and ends with something else than a blank. -/
theorem trimBy_eq_self {blank : Char → Bool} (hhead : ∀ c, xs.head? = some c → blank c = false)
    (hlast : ∀ c, xs.getLast? = some c → blank c = false) : trimBy blank xs = xs := by
  have hdrop {ys : Text} (h : ∀ c, ys.head? = some c → blank c = false) :
      ys.dropWhile blank = ys := by
    cases ys with
    | nil => rfl
    | cons c ys => rw [List.dropWhile_cons, h c rfl, if_neg Bool.false_ne_true]
  rw [trimBy, hdrop hhead, hdrop fun c hc => hlast c (List.head?_reverse ▸ hc),
    List.reverse_reverse]

/-- Rust and JavaScript disagree about one more character, which Rust cuts off. -/
theorem isJsSpace_of_isWhitespace (h : isWhitespace c = true) :
    isJsSpace c = true ∨ c = '\u0085' := by
  simp only [isWhitespace, isJsSpace, Bool.or_eq_true, Bool.and_eq_true, decide_eq_true_eq,
    List.contains_iff_mem, List.mem_cons, List.not_mem_nil, or_false] at h ⊢
  by_cases hnel : c.toNat = 0x85
  · exact Or.inr (Char.toNat_inj.mp hnel)
  · omega

/-- What is in a word is none of the characters that the parameter is taken apart at. -/
theorem plain_of_isWordChar (h : isWordChar c = true) :
    isWhitespace c = false ∧ c ≠ ':' ∧ c ≠ '"' ∧ c ≠ ',' := by
  have hcode (d : Char) (hd : ¬ isWordChar d = true) : c ≠ d := fun hcd => hd (hcd ▸ h)
  refine ⟨?_, hcode ':' (by decide), hcode '"' (by decide), hcode ',' (by decide)⟩
  by_contra hw
  simp only [isWordChar, isWhitespace, Bool.or_eq_true, Bool.and_eq_true, decide_eq_true_eq,
    beq_iff_eq, List.contains_iff_mem, List.mem_cons, List.not_mem_nil, or_false,
    Bool.not_eq_false] at h hw
  omega

theorem replaceChar_eq_escape (value : Text) :
    replaceChar '"' ['\\', '"'] (replaceChar '\\' ['\\', '\\'] value) = marks.escape value := by
  induction value with
  | nil => rfl
  | cons c value ih =>
    rw [QuoteMarks.escape, List.flatMap_cons, ← QuoteMarks.escape, ← ih,
      show c :: value = [c] ++ value from rfl, Like.replaceChar_append, Like.replaceChar_append]
    congr 1
    by_cases hesc : c = '\\'
    · subst hesc
      rfl
    by_cases hquote : c = '"'
    · subst hquote
      rfl
    · simp [replaceChar, marks, hesc, hquote]

theorem serialized_of_needsQuotes (h : needsQuotes value = true) :
    serialized value = marks.quoted value := by
  rw [serialized, if_pos h, replaceChar_eq_escape]
  rfl

/-- What goes without quotes has none of the characters that need them. -/
theorem serialized_of_plain (h : needsQuotes value = false) :
    serialized value = value ∧ '"' ∉ value ∧ ',' ∉ value ∧ ∀ c ∈ value, isJsSpace c = false := by
  have hplain (c : Char) (hc : c ∈ value) := List.any_eq_false.mp h c hc
  simp only [Bool.or_eq_true, beq_iff_eq, not_or, Bool.not_eq_true] at hplain
  exact ⟨if_neg (ne_true_of_eq_false h), fun hc => (hplain _ hc).1.2 rfl,
    fun hc => (hplain _ hc).1.1.1.2 rfl, fun c hc => (hplain c hc).1.1.1.1⟩

theorem closed_serialized (value : Text) : marks.Closed (serialized value) := by
  cases h : needsQuotes value with
  | true => exact serialized_of_needsQuotes h ▸ QuoteMarks.closed_quoted value
  | false =>
    obtain ⟨heq, hquote, hsep, -⟩ := serialized_of_plain h
    exact heq.symm ▸ QuoteMarks.closed_of_plain hquote hsep

theorem stripQuotes_serialized (value : Text) : stripQuotes (serialized value) = value := by
  cases h : needsQuotes value with
  | true => exact serialized_of_needsQuotes h ▸ QuoteMarks.unquote_quoted value
  | false =>
    obtain ⟨heq, hquote, -⟩ := serialized_of_plain h
    exact heq.symm ▸ QuoteMarks.unquote_plain hquote

/-- What a serialized value begins and ends with is not cut off. -/
theorem not_isWhitespace_of_ends (hnel : '\u0085' ∉ value)
    (hc : (serialized value).head? = some c ∨ (serialized value).getLast? = some c) :
    isWhitespace c = false := by
  cases h : needsQuotes value with
  | true =>
    rw [serialized_of_needsQuotes h, QuoteMarks.quoted, ← List.cons_append, List.getLast?_concat,
      List.cons_append, List.head?_cons] at hc
    rcases hc with hc | hc <;> obtain rfl := Option.some.inj hc <;> decide
  | false =>
    obtain ⟨heq, -, -, hjs⟩ := serialized_of_plain h
    rw [heq] at hc
    have hin : c ∈ value := hc.elim List.mem_of_mem_head? List.mem_of_getLast?
    by_contra hw
    rcases isJsSpace_of_isWhitespace (Bool.not_eq_false _ ▸ hw) with hspace | rfl
    · exact absurd (hjs c hin) (ne_false_of_eq_true hspace)
    · exact hnel hin

theorem trimBy_serialized (hnel : '\u0085' ∉ value) :
    trimBy isWhitespace (serialized value) = serialized value :=
  trimBy_eq_self (fun _ hc => not_isWhitespace_of_ends hnel (Or.inl hc))
    fun _ hc => not_isWhitespace_of_ends hnel (Or.inr hc)

theorem splitOnce_of_notMem {sep : Char} {rest : Text} (h : sep ∉ xs) :
    splitOnce sep (xs ++ sep :: rest) = some (xs, rest) := by
  induction xs with
  | nil => rw [List.nil_append, splitOnce, if_pos rfl]
  | cons c xs ih =>
    have hne : c ≠ sep := fun hc => h (hc ▸ List.mem_cons_self)
    rw [List.cons_append, splitOnce, if_neg hne, ih fun hc => h (List.mem_cons_of_mem _ hc)]
    rfl

/-- The token of an exclusion. -/
def token (m : Match) : Text := m.key ++ ':' :: serialized m.value

theorem closed_token (h : m.Within xs) : marks.Closed (token m) := by
  have hplain (c : Char) (hc : c ∈ m.key ++ [':']) : c ≠ '"' ∧ c ≠ ',' := by
    rcases List.mem_append.mp hc with hc | hc
    · exact (plain_of_isWordChar (h.key c hc)).2.2
    · obtain rfl := List.mem_singleton.mp hc
      decide
  rw [token, List.append_cons]
  exact (QuoteMarks.closed_of_plain (fun hc => (hplain _ hc).1 rfl)
    fun hc => (hplain _ hc).2 rfl).append (closed_serialized m.value)

theorem trimBy_token (h : m.Within xs) (hnel : '\u0085' ∉ m.value) :
    trimBy isWhitespace (token m) = token m := by
  apply trimBy_eq_self
  · obtain ⟨c, key, hkey⟩ := List.exists_cons_of_ne_nil h.key_ne_nil
    intro c' hc
    rw [token, hkey, List.cons_append, List.head?_cons] at hc
    obtain rfl := Option.some.inj hc
    exact (plain_of_isWordChar (h.key c (hkey ▸ List.mem_cons_self))).1
  · intro c hc
    rw [token, List.getLast?_append, List.getLast?_cons] at hc
    cases hlast : (serialized m.value).getLast? with
    | none =>
      rw [hlast] at hc
      obtain rfl := Option.some.inj hc
      decide
    | some d =>
      rw [hlast] at hc
      obtain rfl := Option.some.inj hc
      exact not_isWhitespace_of_ends hnel (Or.inr hlast)

theorem parseToken_token {allowed : List (String × String × ExcludeMode)} (h : m.Within xs)
    (hnel : '\u0085' ∉ m.value) :
    parseToken allowed (token m) = exclusion allowed m.key m.value := by
  have hcolon : ':' ∉ m.key := fun hc => (plain_of_isWordChar (h.key _ hc)).2.1 rfl
  rw [parseToken, trimBy_token h hnel, token, splitOnce_of_notMem hcolon]
  dsimp only
  rw [trimBy_serialized hnel, stripQuotes_serialized]

/-! ## The parameter as a whole -/

theorem mem_keys_setParam {params : List (Text × Text)} {k : Text} {p : Text × Text}
    (h : p ∈ setParam params key value) (hk : p.1 = k) : k = key ∨ ∃ p ∈ params, p.1 = k := by
  rcases List.mem_append.mp h with hp | hp
  · exact Or.inr ⟨p, (List.mem_filter.mp hp).1, hk⟩
  · rw [List.mem_singleton.mp hp] at hk
    exact Or.inl hk.symm

theorem mem_keys_foldl {found : List Match} {params : List (Text × Text)} {k : Text}
    {p : Text × Text} (h : p ∈ found.foldl (fun ps m => setParam ps m.key m.value) params)
    (hk : p.1 = k) : (∃ m ∈ found, m.key = k) ∨ ∃ p ∈ params, p.1 = k := by
  induction found generalizing params with
  | nil => exact Or.inr ⟨p, h, hk⟩
  | cons m found ih =>
    rcases ih h with ⟨m', hm', hkey⟩ | ⟨p', hp', hkey⟩
    · exact Or.inl ⟨m', List.mem_cons_of_mem _ hm', hkey⟩
    · rcases mem_keys_setParam hp' hkey with rfl | hold
      · exact Or.inl ⟨m, List.mem_cons_self, rfl⟩
      · exact Or.inr hold

/-- A parameter is a filter that was typed, or the free text. -/
theorem mem_params {p : Text × Text} (h : p ∈ (parseQuery input).params) :
    p.1 = ['q'] ∨ ∃ m ∈ matchesOf input, m.negate = false ∧ m.key = p.1 := by
  have hfilter {p : Text × Text} (h : p ∈ ((scan 0 [] input).1.filter fun m => !m.negate).foldl
      (fun ps m => setParam ps m.key m.value) []) :
      ∃ m ∈ matchesOf input, m.negate = false ∧ m.key = p.1 := by
    rcases mem_keys_foldl h rfl with ⟨m, hm, hkey⟩ | ⟨p, hp, -⟩
    · obtain ⟨hm, hneg⟩ := List.mem_filter.mp hm
      exact ⟨m, hm, (Bool.not_eq_true' _).mp hneg, hkey⟩
    · cases hp
  unfold parseQuery at h
  dsimp only at h
  split at h
  · exact Or.inr (hfilter h)
  · rcases mem_keys_setParam h rfl with hq | ⟨p', hp', hkey⟩
    · exact Or.inl hq
    · rw [← hkey]
      exact Or.inr (hfilter hp')

theorem excludes_eq (input : Text) :
    (parseQuery input).excludes = ((matchesOf input).filter fun m => m.negate).map token := rfl

/-- Without an exclusion nothing is sent, unless the parameter itself is typed as a filter. -/
theorem excludeParam_of_nil (hparam : ∀ m ∈ matchesOf input, m.negate = false →
    m.key ≠ "exclude".toList) (h : (parseQuery input).excludes = []) :
    excludeParam (parseQuery input) = none := by
  rw [excludeParam, if_pos h, Option.map_eq_none_iff, List.find?_eq_none]
  intro p hp hexclude
  have hkey := (of_decide_eq_true hexclude).1
  rcases mem_params hp with hq | ⟨m, hm, hneg, hmkey⟩
  · rw [hq] at hkey
    exact absurd hkey (by decide)
  · exact hparam m hm hneg (hmkey.trans hkey)

/-- What is to be left out: one exclusion for each `-key:value` whose key the handler knows. -/
def asked (category : LogCategory) (input : Text) : List Exclusion :=
  ((matchesOf input).filter fun m => m.negate).filterMap fun m =>
    exclusion category.allowed m.key m.value

theorem allowed_of_asked {category : LogCategory} {e : Exclusion} (h : e ∈ asked category input) :
    e.Allowed category := by
  obtain ⟨m, -, hm⟩ := List.mem_filterMap.mp h
  exact exclusion_allowed hm

/-- The parameter is read as what was typed. -/
theorem parse_excludeParam (hnel : '\u0085' ∉ input)
    (hparam : ∀ m ∈ matchesOf input, m.negate = false → m.key ≠ "exclude".toList)
    (category : LogCategory) :
    parseExcludeParam (excludeParam (parseQuery input)) category.allowed =
      (asked category input).map Exclusion.condition := by
  have hwithin (m : Match) (hm : m ∈ (matchesOf input).filter fun m => m.negate) :
      m.Within input := within_of_scan (List.mem_filter.mp hm).1
  by_cases hnil : (parseQuery input).excludes = []
  · rw [excludeParam_of_nil hparam hnil, parseExcludeParam, asked]
    rw [excludes_eq, List.map_eq_nil_iff] at hnil
    rw [hnil]
    rfl
  · have hsplit : splitTopLevelCommas ([','].intercalate (parseQuery input).excludes) =
        (parseQuery input).excludes := by
      refine QuoteMarks.split_intercalate (m := marks) (fun t ht => ?_) fun t ht => ?_ <;>
        obtain ⟨m, hm, rfl⟩ := List.mem_map.mp (excludes_eq input ▸ ht)
      · exact closed_token (hwithin m hm)
      · exact List.append_ne_nil_of_right_ne_nil _ (List.cons_ne_nil _ _)
    rw [excludeParam, if_neg hnil, parseExcludeParam, hsplit, excludes_eq,
      List.filterMap_map, asked]
    congr 1
    refine List.filterMap_congr fun m hm => ?_
    exact parseToken_token (hwithin m hm) fun hc => hnel ((hwithin m hm).value _ hc)

/--
The conditions of the query are those of the exclusions that were typed, in their order. The list is
refused exactly if a number of the access logs is to be left out that is none, for the first such
one. Otherwise its rows are those that have something else than each excluded value: another text,
one that the value does not occur in, or another number.
-/
theorem excludes_as_asked (db : ClickHouse) {input : Text} (hnel : '\u0085' ∉ input)
    (hparam : ∀ m ∈ matchesOf input, m.negate = false → m.key ≠ "exclude".toList)
    (category : LogCategory) :
    parseExcludeParam (excludeParam (parseQuery input)) category.allowed =
        (asked category input).map Exclusion.condition ∧
      (∀ message, category.conditions (excludeParam (parseQuery input)) = .error message ↔
        (asked category input).findSome? (Exclusion.refusal category) = some message) ∧
      ∀ conditions, category.conditions (excludeParam (parseQuery input)) = .ok conditions →
        ∀ row : String → Cell, (∀ col, (row col).Fits category col) →
          (db.keeps conditions row = true ↔
            ∀ e ∈ asked category input, e.Keeps (category.readNumber db) (row e.col)) := by
  have hparse := parse_excludeParam hnel hparam category
  have hconditions : category.conditions (excludeParam (parseQuery input)) =
      (asked category input).mapM fun e => category.bound e.condition := by
    unfold LogCategory.conditions
    rw [hparse, List.mapM_map]
    rfl
  refine ⟨hparse, fun message => ?_, fun conditions hok row hfits => ?_⟩
  · rw [hconditions]
    exact mapM_error_iff fun e he message => bound_error_iff (allowed_of_asked he) message
  · rw [hconditions] at hok
    exact keeps_iff db (fun e he => allowed_of_asked he) hfits (forall₂_of_mapM_ok hok)

/-- ClickHouse that reads digits. -/
def digits : ClickHouse where
  readNumber s := some (Nat.ofDigitChars 10 s 0 : Nat)
  reads n _ := by rw [Nat.ofDigitChars_toDigits (by decide) (by decide)]

/-- A path with a comma, a quote, a backslash and a wildcard in it, and a status. -/
def typed : Text := "GET -path:/a,\"\\50% -status_code:0200 -user_id:7".toList

example : asked .access typed = [⟨"path", .notLike, "/a,\"\\50%".toList⟩,
    ⟨"status_code", .equals, "0200".toList⟩, ⟨"user_id", .equals, ['7']⟩] := by
  decide +kernel

/-- A row of `user`, if it has one. -/
def loggedRow (path : String) (status : Int) (user : Option Text) (col : String) : Cell :=
  if col = "status_code" then .number (some status)
  else if col = "port" then .number (some 443)
  else if col = "path" then .string (some path.toList)
  else .string user

theorem fits_loggedRow (path : String) (status : Int) (user : Option Text) (col : String) :
    (loggedRow path status user col).Fits .access col := by
  unfold loggedRow
  by_cases hstatus : col = "status_code"
  · simp [hstatus, Cell.Fits, LogCategory.isNumber]
  · by_cases hport : col = "port"
    · simp [hport, Cell.Fits, LogCategory.isNumber]
    · by_cases hpath : col = "path" <;>
        simp [hstatus, hport, hpath, Cell.Fits, LogCategory.isNumber]

/-- The status is read as a number, and a row of nobody is left out as well. -/
theorem excludes_as_asked_path : ∃ conditions,
    LogCategory.access.conditions (excludeParam (parseQuery typed)) = .ok conditions ∧
      conditions.map Condition.bind = ["%/a,\"\\\\50\\%%".toList, "200".toList, ['7']] ∧
      (∀ e ∈ asked .access typed, e.Keeps (LogCategory.access.readNumber digits)
        (loggedRow "/a,50%" 404 (some ['8']) e.col)) ∧
      (¬ ∀ e ∈ asked .access typed, e.Keeps (LogCategory.access.readNumber digits)
        (loggedRow "/a,50%" 200 (some ['8']) e.col)) ∧
      ¬ ∀ e ∈ asked .access typed, e.Keeps (LogCategory.access.readNumber digits)
        (loggedRow "/a,50%" 404 none e.col) := by
  have hrun : (LogCategory.access.conditions (excludeParam (parseQuery typed))).toOption.map
      (fun cs => (cs.map Condition.bind, digits.keeps cs (loggedRow "/a,50%" 404 (some ['8'])),
        digits.keeps cs (loggedRow "/a,50%" 200 (some ['8'])),
        digits.keeps cs (loggedRow "/a,50%" 404 none))) =
      some (["%/a,\"\\\\50\\%%".toList, "200".toList, ['7']], true, false, false) := by
    decide +kernel
  have hnel : '\u0085' ∉ typed := by decide +kernel
  obtain ⟨-, -, hkeeps⟩ := excludes_as_asked digits hnel (by decide +kernel) .access
  cases hconditions : LogCategory.access.conditions (excludeParam (parseQuery typed)) with
  | error message =>
    rw [hconditions] at hrun
    cases hrun
  | ok conditions =>
    rw [hconditions] at hrun
    obtain ⟨hbinds, hkept, hstatus, huser⟩ : _ ∧ _ ∧ _ ∧ _ := by simpa using Option.some.inj hrun
    have hrow (path : String) (status : Int) (user : Option Text) :=
      hkeeps conditions hconditions _ (fits_loggedRow path status user)
    refine ⟨conditions, rfl, hbinds, (hrow _ _ _).mp hkept, fun h => ?_, fun h => ?_⟩
    · exact absurd ((hrow _ _ _).mpr h) (by simp [hstatus])
    · exact absurd ((hrow _ _ _).mpr h) (by simp [huser])

example : (asked .access "-port:443 -status_code:20x -port:y".toList).findSome?
    (Exclusion.refusal .access) = some "status_code must be an integer" := by
  decide +kernel

end ThinkWatch.Logs
