import ThinkWatch.Validation
import ThinkWatch.Lib.Like

/-!
# What is typed into the log explorer

`parseQuery` (`web/src/routes/logs/query-parser.ts`) reads `key:value` filters, `-key:value`
exclusions and free text out of the query; `logs.tsx` sends the exclusions joined with commas, as
the one parameter `exclude`. Texts are lists of characters.
-/

namespace ThinkWatch.Logs

open Lib

abbrev Text := List Char

/-- `\s` of a JavaScript regular expression. -/
def isJsSpace (c : Char) : Bool :=
  (9 ≤ c.toNat && c.toNat ≤ 13) || (0x2000 ≤ c.toNat && c.toNat ≤ 0x200A) ||
    [0x20, 0xA0, 0x1680, 0x2028, 0x2029, 0x202F, 0x205F, 0x3000, 0xFEFF].contains c.toNat

/-- `\w` of a JavaScript regular expression: `[A-Za-z0-9_]`. -/
def isWordChar (c : Char) : Bool :=
  (65 ≤ c.toNat && c.toNat ≤ 90) || (97 ≤ c.toNat && c.toNat ≤ 122) ||
    (48 ≤ c.toNat && c.toNat ≤ 57) || c.toNat == 95

/-- What is left without the blanks at both ends. -/
def trimBy (blank : Char → Bool) (xs : Text) : Text :=
  ((xs.dropWhile blank).reverse.dropWhile blank).reverse

/-! ## The tokens of a query -/

/-- A match of `(-?)(\w+):(?:"([^"]*)"|(\S+))`, with the number of characters it takes. -/
structure Match where
  negate : Bool
  key : Text
  value : Text
  length : Nat
deriving DecidableEq, Repr

/-- `(\S+)`. -/
def matchBare (xs : Text) : Option (Text × Nat) :=
  let value := xs.takeWhile fun c => !isJsSpace c
  if value = [] then none else some (value, value.length)

/-- `(?:"([^"]*)"|(\S+))`. -/
def matchValue : Text → Option (Text × Nat)
  | '"' :: xs =>
    if '"' ∈ xs then
      let value := xs.takeWhile (· ≠ '"')
      some (value, value.length + 2)
    else matchBare ('"' :: xs)
  | xs => matchBare xs

/-- The rest of a match, after its `-?`. -/
def matchKey (negate : Bool) (xs : Text) : Option Match :=
  let key := xs.takeWhile isWordChar
  if key = [] then none
  else match xs.dropWhile isWordChar with
    | ':' :: rest => (matchValue rest).map fun v =>
        ⟨negate, key, v.1, (if negate then 1 else 0) + key.length + 1 + v.2⟩
    | _ => none

/-- The match that begins where `xs` begins. Neither `-?` nor `\w+` could end anywhere else. -/
def matchAt : Text → Option Match
  | '-' :: xs => matchKey true xs
  | xs => matchKey false xs

/-- The slice of free text that is kept. -/
def pushText (text : Text) : List Text :=
  if trimBy isJsSpace text = [] then [] else [trimBy isJsSpace text]

/-- The matches of `regex.exec` from the left and the free text between them: `inside` is how much
is left of the last match, `before` what has been passed over since. -/
def scan : Nat → Text → Text → List Match × List Text
  | _, before, [] => ([], pushText before)
  | inside + 1, before, _ :: xs => scan inside before xs
  | 0, before, c :: xs =>
    match matchAt (c :: xs) with
    | some m =>
      let rest := scan (m.length - 1) [] xs
      (m :: rest.1, pushText before ++ rest.2)
    | none => scan 0 (before ++ [c]) xs

def matchesOf (input : Text) : List Match := (scan 0 [] input).1

/-! ## The query as it is sent -/

def needsQuotes (value : Text) : Bool :=
  value.any fun c => isJsSpace c || c == ',' || c == ':' || c == '"' || c == '\\'

def serialized (value : Text) : Text :=
  if needsQuotes value then
    '"' :: (replaceChar '"' ['\\', '"'] (replaceChar '\\' ['\\', '\\'] value) ++ ['"'])
  else value

structure ParsedQuery where
  params : List (Text × Text)
  excludes : List Text
deriving DecidableEq, Repr

/-- `params[key] = value`. -/
def setParam (params : List (Text × Text)) (key value : Text) : List (Text × Text) :=
  params.filter (fun p => p.1 ≠ key) ++ [(key, value)]

def parseQuery (input : Text) : ParsedQuery :=
  let (found, freeText) := scan 0 [] input
  let params := (found.filter fun m => !m.negate).foldl (fun ps m => setParam ps m.key m.value) []
  { params := if freeText = [] then params
      else setParam params ['q'] ([' '].intercalate freeText)
    excludes := (found.filter fun m => m.negate).map fun m => m.key ++ ':' :: serialized m.value }

/-- The parameter `exclude` of the request: empty values are not sent. -/
def excludeParam (query : ParsedQuery) : Option Text :=
  if query.excludes = [] then
    (query.params.find? fun p => p.1 = "exclude".toList ∧ p.2 ≠ []).map Prod.snd
  else some ([','].intercalate query.excludes)

example : parseQuery "level:error -path:\"a, b\" oops -k:x\\y".toList =
    ⟨[("level".toList, "error".toList), (['q'], "oops".toList)],
      ["path:\"a, b\"".toList, "k:\"x\\\\y\"".toList]⟩ := by decide +kernel

end ThinkWatch.Logs
