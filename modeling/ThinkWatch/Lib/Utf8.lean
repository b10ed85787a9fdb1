import Mathlib.Algebra.Order.Group.Nat
import Mathlib.Data.List.Basic

/-!
# Lossy decoding of UTF-8

A decoder that puts one U+FFFD for each maximal part of a sequence that is not well formed. It goes
byte by byte. Between bytes it knows which code points the sequence that has begun can still
become, and an end of the input within a sequence is one more U+FFFD.

Decoding the parts of a list of bytes one by one is decoding the list, unless a part ends within a
sequence that the next part goes on with: there the one character becomes several U+FFFD.
-/

namespace Lib.Utf8

/-- U+FFFD. -/
def replacement : Char := '\uFFFD'

/-- A sequence that has begun. The next byte is between `lo` and `hi`, each of its values stands for
`width` code points, and the code points that the sequence can become start at `base` for `0x80`. -/
structure Begun where
  width : Nat
  lo : Nat
  hi : Nat
  base : Nat
  width_cases : width = 1 ∨ width = 64 ∨ width = 4096
  bounds : 0x80 ≤ lo ∧ lo ≤ hi ∧ hi ≤ 0xBF
  nonAscii : 0x80 ≤ base + (lo - 0x80) * width
  scalar : base + (hi - 0x7F) * width ≤ 0xD800 ∨
    0xE000 ≤ base + (lo - 0x80) * width ∧ base + (hi - 0x7F) * width ≤ 0x110000

variable {s : Begun} {b : UInt8} {st : Option Begun} {bs cs : List UInt8}

namespace Begun

def accepts (s : Begun) (b : UInt8) : Prop := s.lo ≤ b.toNat ∧ b.toNat ≤ s.hi

instance : Decidable (s.accepts b) := inferInstanceAs (Decidable (_ ∧ _))

/-- The first code point that is left after one more byte. -/
def code (s : Begun) (b : UInt8) : Nat := s.base + (b.toNat - 0x80) * s.width

theorem le_code (h : s.accepts b) : 0x80 ≤ s.code b :=
  s.nonAscii.trans (Nat.add_le_add_left
    (Nat.mul_le_mul_right _ (Nat.sub_le_sub_right h.1 _)) _)

theorem code_scalar (h : s.accepts b) : s.code b + s.width ≤ 0xD800 ∨
    0xE000 ≤ s.code b ∧ s.code b + s.width ≤ 0x110000 := by
  have hlo := s.bounds.1
  obtain ⟨h₁, h₂⟩ := h
  have hb : (b.toNat - 0x80) * s.width + s.width ≤ (s.hi - 0x7F) * s.width := by
    rw [← Nat.succ_mul]
    exact Nat.mul_le_mul_right _ (by omega)
  have hl : (s.lo - 0x80) * s.width ≤ (b.toNat - 0x80) * s.width :=
    Nat.mul_le_mul_right _ (by omega)
  have := s.scalar
  unfold code
  omega

end Begun

/-- The sequence that a byte begins, if it begins one of two bytes or more. -/
def lead (b : UInt8) : Option Begun :=
  let n := b.toNat
  if h : 0xC2 ≤ n ∧ n ≤ 0xDF then
    some ⟨1, 0x80, 0xBF, (n - 0xC0) * 64, by omega, by omega, by omega, by omega⟩
  else if n = 0xE0 then
    some ⟨64, 0xA0, 0xBF, 0, by omega, by omega, by omega, by omega⟩
  else if h : (0xE1 ≤ n ∧ n ≤ 0xEC) ∨ 0xEE ≤ n ∧ n ≤ 0xEF then
    some ⟨64, 0x80, 0xBF, (n - 0xE0) * 4096, by omega, by omega, by omega, by omega⟩
  else if n = 0xED then
    some ⟨64, 0x80, 0x9F, 0xD000, by omega, by omega, by omega, by omega⟩
  else if n = 0xF0 then
    some ⟨4096, 0x90, 0xBF, 0, by omega, by omega, by omega, by omega⟩
  else if h : 0xF1 ≤ n ∧ n ≤ 0xF3 then
    some ⟨4096, 0x80, 0xBF, (n - 0xF0) * 262144, by omega, by omega, by omega, by omega⟩
  else if n = 0xF4 then
    some ⟨4096, 0x80, 0x8F, 0x100000, by omega, by omega, by omega, by omega⟩
  else none

/-- A byte between sequences. -/
def first (b : UInt8) : List Char × Option Begun :=
  if b.toNat < 0x80 then ([Char.ofNat b.toNat], none)
  else match lead b with
    | some s => ([], some s)
    | none => ([replacement], none)

/-- A byte that the sequence goes on with. -/
def Begun.next (s : Begun) (b : UInt8) (h : s.accepts b) : List Char × Option Begun :=
  if hw : s.width = 1 then ([Char.ofNat (s.code b)], none)
  else
    ([], some ⟨s.width / 64, 0x80, 0xBF, s.code b,
      by have := s.width_cases; omega, by omega, (le_code h).trans (by omega), by
        have := code_scalar h
        have := s.width_cases
        omega⟩)

/-- What one byte adds to the text. A byte that cannot go on with the sequence ends it, and is read
again between sequences. -/
def feed : Option Begun → UInt8 → List Char × Option Begun
  | none, b => first b
  | some s, b =>
    if h : s.accepts b then s.next b h
    else (replacement :: (first b).1, (first b).2)

def run : Option Begun → List UInt8 → List Char × Option Begun
  | st, [] => ([], st)
  | st, b :: bs => ((feed st b).1 ++ (run (feed st b).2 bs).1, (run (feed st b).2 bs).2)

/-- The end of the input. -/
def finish : Option Begun → List Char
  | none => []
  | some _ => [replacement]

def decodeFrom (st : Option Begun) (bs : List UInt8) : List Char :=
  (run st bs).1 ++ finish (run st bs).2

def decode (bs : List UInt8) : List Char := decodeFrom none bs

/-! ## One byte -/

theorem toNat_ofNat {n : Nat} (h : n.isValidChar) : (Char.ofNat n).toNat = n := by
  rw [Char.ofNat, dif_pos h]
  rfl

/-- A byte that some sequence goes on with begins none. -/
theorem first_of_accepts (h : s.accepts b) : first b = ([replacement], none) := by
  have := s.bounds
  obtain ⟨h₁, h₂⟩ := h
  have hlead : lead b = none := by
    unfold lead
    simp only
    split_ifs <;> first | omega | rfl
  rw [first, if_neg (by omega), hlead]

theorem feed_of_accepts (h : s.accepts b) : feed (some s) b = s.next b h := dif_pos h

theorem feed_of_not_accepts (h : ¬ s.accepts b) :
    feed (some s) b = (replacement :: (first b).1, (first b).2) := dif_neg h

/-- The character that a sequence of two bytes or more becomes. -/
theorem nonAscii_code (h : s.accepts b) : 0x80 ≤ (Char.ofNat (s.code b)).toNat := by
  have hw : 1 ≤ s.width := by have := s.width_cases; omega
  rw [toNat_ofNat]
  · exact Begun.le_code h
  · have := Begun.code_scalar h
    unfold Nat.isValidChar
    omega

/-! ## Parts -/

theorem decodeFrom_cons :
    decodeFrom st (b :: bs) = (feed st b).1 ++ decodeFrom (feed st b).2 bs := by
  simp [decodeFrom, run]

theorem run_append : run st (bs ++ cs) =
    ((run st bs).1 ++ (run (run st bs).2 cs).1, (run (run st bs).2 cs).2) := by
  induction bs generalizing st with
  | nil => rfl
  | cons b bs ih => simp only [List.cons_append, run, ih, List.append_assoc]

theorem decodeFrom_append : decodeFrom st (bs ++ cs) =
    (run st bs).1 ++ decodeFrom (run st bs).2 cs := by
  rw [decodeFrom, run_append, List.append_assoc]
  rfl

theorem decode_eq (bs : List UInt8) : decode bs = (run none bs).1 ++ finish (run none bs).2 := rfl

theorem decode_append_eq (bs cs : List UInt8) :
    decode (bs ++ cs) = (run none bs).1 ++ decodeFrom (run none bs).2 cs := decodeFrom_append

/-- A list of bytes ends within a sequence that `cs` goes on with. -/
def splits (bs cs : List UInt8) : Bool :=
  match (run none bs).2, cs with
  | some s, b :: _ => decide (s.accepts b)
  | _, _ => false

theorem decodeFrom_of_not_accepts (s : Begun) (h : ∀ b ∈ cs.head?, ¬ s.accepts b) :
    decodeFrom (some s) cs = replacement :: decode cs := by
  cases cs with
  | nil => rfl
  | cons b cs =>
    rw [decodeFrom_cons, feed_of_not_accepts (h b rfl), decode, decodeFrom_cons]
    rfl

/-- The character that a sequence comes to, where the bytes after it are one U+FFFD each for the
bytes of the sequence among them when they are decoded on their own. -/
theorem decodeFrom_some (s : Begun) (cs : List UInt8) : ∃ c k t, 0x80 ≤ Char.toNat c ∧
    decodeFrom (some s) cs = c :: t ∧ decode cs = List.replicate k replacement ++ t ∧
    ((∃ b ∈ cs.head?, s.accepts b) → 0 < k) := by
  have hrep : 0x80 ≤ replacement.toNat := by decide
  induction cs generalizing s with
  | nil => exact ⟨replacement, 0, [], hrep, rfl, rfl, by simp⟩
  | cons b cs ih =>
    by_cases h : s.accepts b
    · have hd : decode (b :: cs) = replacement :: decode cs := by
        rw [decode, decodeFrom_cons, show feed none b = _ from first_of_accepts h]
        rfl
      rw [decodeFrom_cons, feed_of_accepts h, hd, Begun.next]
      split
      · exact ⟨_, 1, decode cs, nonAscii_code h, rfl, rfl, fun _ => Nat.one_pos⟩
      · obtain ⟨c, k, t, hc, hs, hn, -⟩ := ih _
        refine ⟨c, k + 1, t, hc, hs, ?_, fun _ => Nat.succ_pos k⟩
        rw [hn, List.replicate_succ, List.cons_append]
    · refine ⟨replacement, 0, _, hrep, decodeFrom_of_not_accepts s (by simpa using h), rfl, ?_⟩
      simp [h]

theorem decode_append (h : splits bs cs = false) : decode (bs ++ cs) = decode bs ++ decode cs := by
  rw [decode_append_eq, decode_eq bs, List.append_assoc, List.append_right_inj]
  unfold splits at h
  cases hst : (run none bs).2 with
  | none => rfl
  | some s =>
    refine decodeFrom_of_not_accepts s fun b hb => ?_
    obtain ⟨cs, rfl⟩ := List.head?_eq_some_iff.mp hb
    simpa [hst] using h

/-- The one character across the boundary becomes as many U+FFFD as the two parts have pieces
of it. -/
theorem decode_of_splits (h : splits bs cs = true) : ∃ c k t, 0x80 ≤ Char.toNat c ∧
    decode (bs ++ cs) = (run none bs).1 ++ c :: t ∧
    decode bs ++ decode cs = (run none bs).1 ++ (List.replicate (k + 2) replacement ++ t) := by
  rw [decode_append_eq, decode_eq bs, List.append_assoc]
  unfold splits at h
  split at h
  next s b cs hst =>
    obtain ⟨c, k, t, hc, hs, hn, hk⟩ := decodeFrom_some s (b :: cs)
    obtain ⟨k, rfl⟩ := Nat.exists_eq_add_one.mpr (hk ⟨b, rfl, of_decide_eq_true h⟩)
    refine ⟨c, k, t, hc, by rw [hst, hs], ?_⟩
    rw [hst, hn, List.replicate_succ]
    rfl
  next => cases h

/-! ## Encoded text -/

theorem decode_of_lead (h : lead b = some s) : decode (b :: bs) = decodeFrom (some s) bs := by
  have hb : ¬ b.toNat < 0x80 := by
    intro hb
    unfold lead at h
    simp only at h
    split_ifs at h <;> omega
  rw [decode, decodeFrom_cons, feed, first, if_neg hb, h]
  rfl

theorem decodeFrom_last (hw : s.width = 1) (h : s.accepts b) :
    decodeFrom (some s) (b :: bs) = Char.ofNat (s.base + (b.toNat - 0x80)) :: decode bs := by
  rw [decodeFrom_cons, feed_of_accepts h, Begun.next, dif_pos hw, Begun.code, hw, Nat.mul_one]
  rfl

theorem decodeFrom_more (bs : List UInt8) (hw : s.width ≠ 1) (h : s.accepts b) :
    ∃ s' : Begun, s'.width = s.width / 64 ∧ s'.lo = 0x80 ∧ s'.hi = 0xBF ∧ s'.base = s.code b ∧
      decodeFrom (some s) (b :: bs) = decodeFrom (some s') bs := by
  rw [decodeFrom_cons, feed_of_accepts h, Begun.next, dif_neg hw]
  exact ⟨_, rfl, rfl, rfl, rfl, rfl⟩

/-- The byte of six bits of a code point. -/
def tail (m : Nat) : UInt8 := UInt8.ofNat (m % 64 + 0x80)

theorem toNat_ofNat_lt {m : Nat} (h : m < 256) : (UInt8.ofNat m).toNat = m := by
  rw [UInt8.toNat_ofNat', Nat.mod_eq_of_lt h]

theorem toNat_tail (m : Nat) : (tail m).toNat = m % 64 + 0x80 := toNat_ofNat_lt (by omega)

theorem decodeFrom_tail {n : Nat} (hw : s.width = 1) (hb : s.base = n / 64 * 64)
    (hs : s.accepts (tail n)) :
    decodeFrom (some s) (tail n :: bs) = Char.ofNat n :: decode bs := by
  rw [decodeFrom_last hw hs, toNat_tail, hb, Nat.add_sub_cancel, Nat.div_add_mod']

theorem decodeFrom_tail_tail {n : Nat} (hw : s.width = 64) (hb : s.base = n / 4096 * 4096)
    (hs : s.accepts (tail (n / 64))) :
    decodeFrom (some s) (tail (n / 64) :: tail n :: bs) = Char.ofNat n :: decode bs := by
  obtain ⟨s', hw', hlo, hhi, hb', he⟩ := decodeFrom_more (tail n :: bs) (by omega) hs
  rw [Begun.code, toNat_tail, hw, hb] at hb'
  rw [he, decodeFrom_tail (n := n) (by omega) (by omega)]
  rw [Begun.accepts, hlo, hhi, toNat_tail]
  omega

theorem decodeFrom_tail_tail_tail {n : Nat} (hw : s.width = 4096)
    (hb : s.base = n / 4096 / 64 * 262144) (hs : s.accepts (tail (n / 4096))) :
    decodeFrom (some s) (tail (n / 4096) :: tail (n / 64) :: tail n :: bs) =
      Char.ofNat n :: decode bs := by
  obtain ⟨s', hw', hlo, hhi, hb', he⟩ :=
    decodeFrom_more (tail (n / 64) :: tail n :: bs) (by omega) hs
  have hm : n / 4096 / 64 * 262144 + n / 4096 % 64 * 4096 = n / 4096 * 4096 := by
    generalize n / 4096 = m
    omega
  rw [Begun.code, toNat_tail, hw, hb, Nat.add_sub_cancel, hm] at hb'
  rw [he, decodeFrom_tail_tail (n := n) (by omega) hb']
  rw [Begun.accepts, hlo, hhi, toNat_tail]
  omega

theorem lead_two (h : 0xC2 ≤ b.toNat ∧ b.toNat ≤ 0xDF) : ∃ s, lead b = some s ∧ s.width = 1 ∧
    s.lo = 0x80 ∧ s.hi = 0xBF ∧ s.base = (b.toNat - 0xC0) * 64 :=
  ⟨_, dif_pos h, rfl, rfl, rfl, rfl⟩

theorem lead_three (h : 0xE0 ≤ b.toNat ∧ b.toNat ≤ 0xEF) : ∃ s, lead b = some s ∧ s.width = 64 ∧
    (s.lo = 0x80 ∨ b.toNat = 0xE0 ∧ s.lo = 0xA0) ∧ (s.hi = 0xBF ∨ b.toNat = 0xED ∧ s.hi = 0x9F) ∧
    s.base = (b.toNat - 0xE0) * 4096 := by
  unfold lead
  simp only
  split_ifs <;> first | omega | exact ⟨_, rfl, rfl, by simp [*], by simp [*], by simp [*]⟩

theorem lead_four (h : 0xF0 ≤ b.toNat ∧ b.toNat ≤ 0xF4) : ∃ s, lead b = some s ∧ s.width = 4096 ∧
    (s.lo = 0x80 ∨ b.toNat = 0xF0 ∧ s.lo = 0x90) ∧ (s.hi = 0xBF ∨ b.toNat = 0xF4 ∧ s.hi = 0x8F) ∧
    s.base = (b.toNat - 0xF0) * 262144 := by
  unfold lead
  simp only
  split_ifs <;> first | omega | exact ⟨_, rfl, rfl, by simp [*], by simp [*], by simp [*]⟩

theorem decode_encode (c : Char) (bs : List UInt8) :
    decode (String.utf8EncodeChar c ++ bs) = c :: decode bs := by
  have hc : Char.ofNat c.val.toNat = c := Char.ofNat_toNat c
  have hv : c.val.toNat.isValidChar := c.valid
  conv_rhs => rw [← hc]
  unfold String.utf8EncodeChar
  simp only
  unfold Nat.isValidChar at hv
  generalize c.val.toNat = n at hv
  split_ifs with h₁ h₂ h₃
  · have hn : (UInt8.ofNat n).toNat = n := toNat_ofNat_lt (by omega)
    rw [List.singleton_append, decode, decodeFrom_cons, feed, first, if_pos (by omega), hn]
    rfl
  · have hn : (UInt8.ofNat (n / 64 % 0x20 + 0xc0)).toNat = n / 64 + 0xC0 := by
      rw [toNat_ofNat_lt] <;> omega
    obtain ⟨s, hl, hw, hlo, hhi, hb⟩ :=
      lead_two (b := UInt8.ofNat (n / 64 % 0x20 + 0xc0)) (by omega)
    rw [hn, Nat.add_sub_cancel] at hb
    exact (decode_of_lead hl).trans (decodeFrom_tail hw hb
      (by rw [Begun.accepts, toNat_tail]; omega))
  · have hn : (UInt8.ofNat (n / 4096 % 0x10 + 0xe0)).toNat = n / 4096 + 0xE0 := by
      rw [toNat_ofNat_lt] <;> omega
    obtain ⟨s, hl, hw, hlo, hhi, hb⟩ :=
      lead_three (b := UInt8.ofNat (n / 4096 % 0x10 + 0xe0)) (by omega)
    rw [hn] at hlo hhi hb
    rw [Nat.add_sub_cancel] at hb
    exact (decode_of_lead hl).trans (decodeFrom_tail_tail hw hb
      (by rw [Begun.accepts, toNat_tail]; omega))
  · have hm : 16 ≤ n / 4096 ∧ n / 4096 < 0x110 := by omega
    rw [show n / 262144 = n / 4096 / 64 from (Nat.div_div_eq_div_mul n 4096 64).symm]
    have hn : (UInt8.ofNat (n / 4096 / 64 % 0x08 + 0xf0)).toNat = n / 4096 / 64 + 0xF0 := by
      generalize n / 4096 = m at hm
      rw [toNat_ofNat_lt] <;> omega
    obtain ⟨s, hl, hw, hlo, hhi, hb⟩ :=
      lead_four (b := UInt8.ofNat (n / 4096 / 64 % 0x08 + 0xf0)) (by rw [hn]; omega)
    rw [hn] at hlo hhi hb
    rw [Nat.add_sub_cancel] at hb
    refine (decode_of_lead hl).trans (decodeFrom_tail_tail_tail hw hb ?_)
    rw [Begun.accepts, toNat_tail]
    generalize n / 4096 = m at hm hlo hhi
    omega

theorem decode_encoded (cs : List Char) : decode (cs.flatMap String.utf8EncodeChar) = cs := by
  induction cs with
  | nil => rfl
  | cons c cs ih => rw [List.flatMap_cons, decode_encode, ih]

/-- The bytes of a text. -/
def encode (text : List Char) : List UInt8 := text.flatMap String.utf8EncodeChar

theorem encode_append (s t : List Char) : encode (s ++ t) = encode s ++ encode t :=
  List.flatMap_append

/-- The bytes of a string. -/
theorem toList_toUTF8 (s : String) : s.toUTF8.data.toList = encode s.toList := by
  have h : s.toUTF8 = s.toList.utf8Encode := by
    rw [← String.toByteArray_ofList, String.ofList_toList]
    rfl
  rw [h, encode, List.utf8Encode]
  simp

theorem length_encode_ascii {text : List Char} (h : ∀ c ∈ text, c.utf8Size = 1) :
    (encode text).length = text.length := by
  induction text with
  | nil => rfl
  | cons c text ih =>
    have hc := h c List.mem_cons_self
    rw [encode, List.flatMap_cons, List.length_append, String.length_utf8EncodeChar, hc,
      List.length_cons]
    have := ih fun d hd => h d (List.mem_cons_of_mem _ hd)
    unfold encode at this
    omega

theorem encode_injective : Function.Injective encode := by
  intro s t h
  rw [← decode_encoded s, ← decode_encoded t]
  exact congrArg decode h

end Lib.Utf8
