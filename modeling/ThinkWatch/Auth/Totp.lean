import Mathlib.Data.List.Nodup
import ThinkWatch.Lib.Watermark

/-!
# Time-based codes and recovery codes

`crates/auth/src/totp.rs` and `claim_step` of `crates/server/src/services/totp_service.rs`. Times
are milliseconds; the clock the codes are checked against has seconds.
-/

namespace ThinkWatch.Auth

open Lib

/-- `STEP`, in seconds. -/
def totpStep : Int := 30

def skew : Int := 1

def acceptWindowSecs : Int := totpStep * (2 * skew + 1)

def lastStepTtlSecs : Int := 2 * acceptWindowSecs

/--
`totp_rs`, built with the constants above: `check secret email code secs` is the time step the code
belongs to, among the current one and those a skew away. A secret it cannot use matches no code.
-/
structure Totp where
  check : String → String → String → Int → Option Nat
  near : ∀ {secret email code secs k}, check secret email code secs = some k →
    secs / totpStep - skew ≤ k ∧ k ≤ secs / totpStep + skew

def verifyStep (totp : Totp) (secret email code : String) (now : Int) : Option Nat :=
  totp.check secret email code (now / 1000)

/-- `claim_step`: the last step accepted for each user, in Redis. -/
def claimStep (s : Store Nat Nat) (now : Int) (userId step : Nat) : Store Nat Nat × Bool :=
  s.raise now userId step (lastStepTtlSecs * 1000)

/-! ## Recovery codes -/

def recoveryCode (encoded : String) : String :=
  String.ofList (encoded.toList.take 4) ++ "-" ++ String.ofList ((encoded.toList.drop 4).take 4)

/--
The loop of `generate_recovery_codes`, on the encodings of the bytes that are drawn; `none` when
these run out. The set `seen` of the code has the elements of `codes`.
-/
def drawCodes (count : Nat) : List String → List String → Option (List String)
  | [], codes => if codes.length < count then none else some codes
  | encoded :: draws, codes =>
    if codes.length < count then
      let code := recoveryCode encoded
      drawCodes count draws (if code ∈ codes then codes else codes ++ [code])
    else some codes

def generateRecoveryCodes (count : Nat) (draws : List String) : Option (List String) :=
  drawCodes count draws []

/-- The bytes of a text, cut or filled up with zeros to sixteen. -/
def padToFixed (bytes : List UInt8) : List UInt8 :=
  bytes.take 16 ++ .replicate (16 - bytes.length) 0

/-- `find_recovery_code` goes through all codes and keeps the last match. -/
def findRecoveryCode (codes : List String) (candidate : String) : Option Nat :=
  let bytes := fun s : String => s.toUTF8.data.toList
  (codes.zipIdx.foldl fun found p =>
    if (bytes p.1).length.toUInt8 = (bytes candidate).length.toUInt8 ∧
        padToFixed (bytes p.1) = padToFixed (bytes candidate) then some p.2
    else found) none

/-- The codes of one set differ. -/
theorem drawCodes_nodup {count : Nat} {draws codes out : List String} (h : codes.Nodup)
    (hout : drawCodes count draws codes = some out) : out.Nodup := by
  induction draws generalizing codes with
  | nil =>
    rw [drawCodes] at hout
    split at hout
    · cases hout
    · obtain rfl := Option.some.inj hout
      exact h
  | cons encoded draws ih =>
    rw [drawCodes] at hout
    split at hout
    · refine ih ?_ hout
      split
      · exact h
      · next hnew => exact List.Nodup.append h (List.nodup_singleton _) (by simpa using hnew)
    · obtain rfl := Option.some.inj hout
      exact h

/-- The last match of a list is one of its elements, and matches. -/
theorem foldl_match_mem {α β : Type*} {p : α → Prop} [DecidablePred p] {f : α → β} (l : List α)
    {b : β} {found : Option β}
    (h : l.foldl (fun found x => if p x then some (f x) else found) found = some b) :
    (∃ x ∈ l, p x ∧ f x = b) ∨ found = some b := by
  induction l generalizing found with
  | nil => exact Or.inr h
  | cons x l ih =>
    rcases ih h with ⟨y, hy, hb⟩ | hfound
    · exact Or.inl ⟨y, List.mem_cons_of_mem _ hy, hb⟩
    · simp only at hfound
      split at hfound
      · next hx => exact Or.inl ⟨x, List.mem_cons_self, hx, Option.some.inj hfound⟩
      · exact Or.inr hfound

theorem findRecoveryCode_lt {codes : List String} {candidate : String} {pos : Nat}
    (h : findRecoveryCode codes candidate = some pos) : pos < codes.length := by
  rcases foldl_match_mem codes.zipIdx h with ⟨p, hp, -, rfl⟩ | hnone
  · exact List.snd_lt_of_mem_zipIdx hp
  · cases hnone

end ThinkWatch.Auth
