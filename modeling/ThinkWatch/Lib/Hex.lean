import Mathlib.Data.Nat.Digits.Lemmas

/-!
# Hexadecimal text

A number as lower-case hexadecimal digits padded on the left to a given width, and a list of bytes
as two digits each. Both can be read back, and no character outside the sixteen digits occurs. A
reader takes digits of either case.
-/

namespace Lib

/-! ## One digit -/

/-- The digit of a number below sixteen: `0` to `9`, then `a` to `f`. -/
def hexDigit (d : Nat) : Char := if d < 10 then Char.ofNat (0x30 + d) else Char.ofNat (0x57 + d)

/-- The number of a lower-case digit. -/
def hexValue (c : Char) : Nat := if c.toNat < 0x3a then c.toNat - 0x30 else c.toNat - 0x57

/-- The sixteen digits. -/
def hexChars : List Char := (List.range 16).map hexDigit

theorem hexDigit_mem {d : Nat} (h : d < 16) : hexDigit d ∈ hexChars :=
  List.mem_map_of_mem (List.mem_range.mpr h)

/-- A digit is read as the number it was written for. -/
theorem hexValue_hexDigit {d : Nat} (h : d < 16) : hexValue (hexDigit d) = d := by
  have hall : ∀ e ∈ List.range 16, hexValue (hexDigit e) = e := by decide
  exact hall d (List.mem_range.mpr h)

theorem map_hexValue {ds : List Nat} (h : ∀ d ∈ ds, d < 16) :
    (ds.map hexDigit).map hexValue = ds := by
  rw [List.map_map]
  refine (List.map_congr_left fun d hd => ?_).trans (List.map_id ds)
  exact hexValue_hexDigit (h d hd)

/-! ## Numbers -/

/-- The digits of `n`, with zeros in front of them up to `w` digits. -/
def hexNat (w n : Nat) : List Char := (Nat.digitsAppend 16 w n).reverse.map hexDigit

theorem digitsAppend_lt {w n d : Nat} (h : d ∈ (Nat.digitsAppend 16 w n).reverse) : d < 16 :=
  Nat.lt_of_mem_digitsAppend (by decide) w d (List.mem_reverse.mp h)

/-- The padding does not change the number. -/
theorem ofDigits_hexNat (w n : Nat) :
    Nat.ofDigits 16 ((hexNat w n).map hexValue).reverse = n := by
  rw [hexNat, map_hexValue fun d hd => digitsAppend_lt hd, List.reverse_reverse, Nat.digitsAppend,
    Nat.ofDigits_append_replicate_zero, Nat.ofDigits_digits]

theorem hexNat_injective (w : Nat) : Function.Injective (hexNat w) := by
  intro a b h
  rw [← ofDigits_hexNat w a, h, ofDigits_hexNat]

theorem hexNat_mem {w n : Nat} {c : Char} (h : c ∈ hexNat w n) : c ∈ hexChars := by
  obtain ⟨d, hd, rfl⟩ := List.mem_map.mp h
  exact hexDigit_mem (digitsAppend_lt hd)

/-! ## Bytes -/

/-- The high digit, then the low one. -/
def hexByte (b : UInt8) : List Char := [hexDigit (b.toNat / 16), hexDigit (b.toNat % 16)]

def hexBytes (bs : List UInt8) : List Char := bs.flatMap hexByte

theorem hexByte_halves (b : UInt8) : b.toNat / 16 < 16 ∧ b.toNat % 16 < 16 := by
  have hlt := b.toNat_lt
  omega

theorem hexByte_injective : Function.Injective hexByte := by
  intro a b h
  obtain ⟨ha, ha'⟩ := hexByte_halves a
  obtain ⟨hb, hb'⟩ := hexByte_halves b
  have hmap := congrArg (List.map hexValue) h
  rw [hexByte, hexByte, List.map_cons, List.map_cons, List.map_cons, List.map_cons,
    hexValue_hexDigit ha, hexValue_hexDigit ha', hexValue_hexDigit hb, hexValue_hexDigit hb'] at hmap
  obtain ⟨hhigh, hrest⟩ := List.cons.inj hmap
  have hlow := (List.cons.inj hrest).1
  refine UInt8.toNat_inj.mp ?_
  omega

/-- Two digits for each byte: no two lists are written alike. -/
theorem hexBytes_injective : Function.Injective hexBytes := by
  intro as
  induction as with
  | nil =>
    intro bs h
    cases bs with
    | nil => rfl
    | cons b bs => cases h
  | cons a as ih =>
    intro bs h
    cases bs with
    | nil => cases h
    | cons b bs =>
      rw [hexBytes, hexBytes, List.flatMap_cons, List.flatMap_cons] at h
      obtain ⟨hbyte, hrest⟩ := List.append_inj h rfl
      rw [hexByte_injective hbyte, ih hrest]

theorem hexBytes_mem {bs : List UInt8} {c : Char} (h : c ∈ hexBytes bs) : c ∈ hexChars := by
  obtain ⟨b, -, hc⟩ := List.mem_flatMap.mp h
  obtain ⟨hhigh, hlow⟩ := hexByte_halves b
  rcases List.mem_cons.mp hc with rfl | hc
  · exact hexDigit_mem hhigh
  · rw [List.mem_singleton.mp hc]
    exact hexDigit_mem hlow

/-! ## Reading -/

/-- A digit of either case. -/
def readHexDigit (c : Char) : Option Nat :=
  if 0x30 ≤ c.toNat ∧ c.toNat ≤ 0x39 then some (c.toNat - 0x30)
  else if 0x41 ≤ c.toNat ∧ c.toNat ≤ 0x46 then some (c.toNat - 0x37)
  else if 0x61 ≤ c.toNat ∧ c.toNat ≤ 0x66 then some (c.toNat - 0x57)
  else none

/-- Pairs of digits; an odd one, or any other character, is refused. -/
def readHex : List Char → Option (List UInt8)
  | [] => some []
  | [_] => none
  | high :: low :: rest => do
    let h ← readHexDigit high
    let l ← readHexDigit low
    let bytes ← readHex rest
    some (UInt8.ofNat (h * 16 + l) :: bytes)

theorem readHexDigit_hexDigit {d : Nat} (h : d < 16) : readHexDigit (hexDigit d) = some d := by
  have hall : ∀ e ∈ List.range 16, readHexDigit (hexDigit e) = some e := by decide
  exact hall d (List.mem_range.mpr h)

/-- What is written is read back. -/
theorem readHex_hexBytes (bs : List UInt8) : readHex (hexBytes bs) = some bs := by
  induction bs with
  | nil => rfl
  | cons b bs ih =>
    obtain ⟨hhigh, hlow⟩ := hexByte_halves b
    have hbyte : UInt8.ofNat (b.toNat / 16 * 16 + b.toNat % 16) = b := by
      rw [Nat.div_add_mod', UInt8.ofNat_toNat]
    rw [hexBytes, List.flatMap_cons, hexByte, List.cons_append, List.cons_append, List.nil_append,
      readHex, readHexDigit_hexDigit hhigh, readHexDigit_hexDigit hlow]
    change (readHex (hexBytes bs)).bind _ = _
    rw [ih]
    exact congrArg (fun x => some (x :: bs)) hbyte

end Lib
