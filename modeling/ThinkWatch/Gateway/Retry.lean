import ThinkWatch.Gateway.Failure
import Mathlib.Data.Rat.Floor

/-!
# Sending again

The allowance of a request for sending again, `Budget` of `crates/gateway/src/proxy/retry.rs`.
Instants and durations are milliseconds of one clock. The clock's reading and the factor the
backoff is spread by are arguments.
-/

namespace ThinkWatch.Gateway

/-- The shortest wait an upstream's own word is taken for. -/
def minSaidWait : Int := 250

/-- How long the upstream said to wait. Zero is taken as no word at all. -/
def saidToWait : GatewayError → Option Int
  | .providerHttpError _ _ (some d) => if d = 0 then none else some (max d minSaidWait)
  | _ => none

/-- The wait before the `n`-th retry: 2, 4, 8, then 16 seconds. -/
def backoff (n : Nat) : Int := 2 * 2 ^ (min (max n 1) 4 - 1) * 1000

structure Budget where
  deadline : Option Int
  hard : Option Int
  retries : Nat
deriving DecidableEq, Repr

namespace Budget

/-- The allowance of a request that arrived at `arrived`. No wait: never sent again. -/
def new (arrived wait : Int) : Budget :=
  ⟨if wait = 0 then none else some (arrived + wait), none, 0⟩

def within (b : Budget) (hard : Int) : Budget := { b with hard := some hard }

/-- Whether a failure now could still be followed by another attempt. -/
def isOpen (b : Budget) (now : Int) : Bool :=
  match b.deadline with
  | none => false
  | some d => decide (now < d)

def waitAt (b : Budget) (now : Int) (said : Option Int) (jitter : ℚ) (took : Int) : Option Int :=
  match b.deadline with
  | none => none
  | some deadline =>
    let wait := said.getD ⌊backoff (b.retries + 1) * jitter⌋
    if now + wait > deadline then none
    else
      match b.hard with
      | none => some wait
      | some hard => if now + wait + took > hard then none else some wait

def waitAfterTaking (b : Budget) (now : Int) (jitter : ℚ) (e : GatewayError) (took : Int) :
    Option Int :=
  if isTransient e then b.waitAt now (saidToWait e) jitter took else none

def waitAfter (b : Budget) (now : Int) (jitter : ℚ) (e : GatewayError) : Option Int :=
  b.waitAfterTaking now jitter e 0

def waitAfterOutcome (b : Budget) (now : Int) (jitter : ℚ) (errorTag : String) (status : Nat) :
    Option Int :=
  if transient errorTag status then b.waitAt now none jitter 0 else none

/-- The next attempt went out. -/
def sent (b : Budget) : Budget := { b with retries := b.retries + 1 }

variable {b : Budget} {now took wait : Int} {jitter : ℚ} {e : GatewayError}

/-- Only a transient failure is waited for. -/
theorem isTransient_of_waitAfterTaking (h : b.waitAfterTaking now jitter e took = some wait) :
    isTransient e = true := by
  unfold waitAfterTaking at h
  split at h
  · assumption
  · cases h

/-- A granted wait ends by the deadline, and leaves room before the hard one. -/
theorem fits_of_waitAt {said : Option Int} (h : b.waitAt now said jitter took = some wait) :
    (∃ d, b.deadline = some d ∧ now + wait ≤ d) ∧
      ∀ hard, b.hard = some hard → now + wait + took ≤ hard := by
  unfold waitAt at h
  cases hd : b.deadline with
  | none =>
    rw [hd] at h
    cases h
  | some d =>
    rw [hd] at h
    simp only at h
    split at h
    next => cases h
    next hfits =>
      cases hh : b.hard with
      | none =>
        rw [hh] at h
        obtain rfl := Option.some.inj h
        exact ⟨⟨d, rfl, not_lt.mp hfits⟩, nofun⟩
      | some hard =>
        rw [hh] at h
        simp only at h
        split at h
        next => cases h
        next hroom =>
          obtain rfl := Option.some.inj h
          refine ⟨⟨d, rfl, not_lt.mp hfits⟩, fun hard' he => ?_⟩
          obtain rfl := Option.some.inj he
          exact not_lt.mp hroom

end Budget

end ThinkWatch.Gateway
