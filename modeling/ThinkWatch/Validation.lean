import ThinkWatch.Errors
import ThinkWatch.Lib.Result

/-!
# Checks of request fields

`crates/common/src/validation.rs`, as far as the user handlers use it.
-/

namespace ThinkWatch

open Lib

/-- `char::is_whitespace`: the characters with the `White_Space` property. -/
def isWhitespace (c : Char) : Bool :=
  (9 ≤ c.toNat && c.toNat ≤ 13) || (0x2000 ≤ c.toNat && c.toNat ≤ 0x200A) ||
    [0x20, 0x85, 0xA0, 0x1680, 0x2028, 0x2029, 0x202F, 0x205F, 0x3000].contains c.toNat

/-- `str::trim`. -/
def trim (s : String) : String :=
  String.ofList ((s.toList.dropWhile isWhitespace).reverse.dropWhile isWhitespace).reverse

/-- Only white space is cut off. -/
theorem trim_eq (s : List Char) :
    ∃ a b, s = a ++ (trim (String.ofList s)).toList ++ b ∧
      (∀ c ∈ a, isWhitespace c = true) ∧ ∀ c ∈ b, isWhitespace c = true := by
  have hright := List.takeWhile_append_dropWhile (p := isWhitespace)
    (l := (s.dropWhile isWhitespace).reverse)
  refine ⟨s.takeWhile isWhitespace,
    (((s.dropWhile isWhitespace).reverse).takeWhile isWhitespace).reverse, ?_, ?_, ?_⟩
  · rw [trim, String.toList_ofList, String.toList_ofList, List.append_assoc, ← List.reverse_append,
      hright, List.reverse_reverse, List.takeWhile_append_dropWhile]
  · exact fun c hc => List.all_eq_true.mp List.all_takeWhile c hc
  · exact fun c hc => List.all_eq_true.mp List.all_takeWhile c (List.mem_reverse.mp hc)

theorem trim_ne_empty {s : String} {c : Char} (hc : c ∈ s.toList) (h : isWhitespace c = false) :
    trim s ≠ "" := by
  intro hempty
  obtain ⟨a, b, hs, ha, hb⟩ := trim_eq s.toList
  rw [String.ofList_toList, hempty, String.toList_empty, List.append_nil] at hs
  have hwhite : isWhitespace c = true :=
    (List.mem_append.mp (hs ▸ hc)).elim (ha c) (hb c)
  rw [h] at hwhite
  cases hwhite

def normalizeEmail (email : String) : String :=
  String.ofList ((trim email).toList.map Char.toLower)

/-- `split_once`: around the first `sep`. -/
def splitOnce (sep : Char) : List Char → Option (List Char × List Char)
  | [] => none
  | c :: cs => if c = sep then some ([], cs) else (splitOnce sep cs).map fun r => (c :: r.1, r.2)

def validatePassword (password : String) : Except AppError Unit := do
  refuseIf (password.utf8ByteSize < 8)
    (AppError.badRequest "Password must be at least 8 characters")
  refuseIf (¬ (password.toList.any Char.isUpper ∧ password.toList.any Char.isLower ∧
      password.toList.any Char.isDigit))
    (AppError.badRequest
      "Password must contain at least one uppercase letter, one lowercase letter, and one digit")

def validateEmail (email : String) : Except AppError Unit := do
  refuseIf (email.utf8ByteSize > 254) (AppError.badRequest "Email too long (max 254 chars)")
  refuseIf (email.toList.any fun c => 128 ≤ c.toNat)
    (AppError.badRequest "Email must contain ASCII characters only")
  let (localPart, domain) ←
    orRefuse (splitOnce '@' email.toList) (AppError.badRequest "Invalid email format")
  refuseIf (localPart = [] ∨ domain = [] ∨ '.' ∉ domain ∨ domain.head? = some '.' ∨
      domain.getLast? = some '.')
    (AppError.badRequest "Invalid email format")
  refuseIf (localPart.length > 64)
    (AppError.badRequest "Email local part too long (max 64 chars)")

end ThinkWatch
