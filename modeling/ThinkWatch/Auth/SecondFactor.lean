import Mathlib.Logic.Function.Basic
import ThinkWatch.Auth.Totp
import ThinkWatch.Lib.Run
import ThinkWatch.Lib.Threads

/-!
# A second factor is used once

The second half of `login` (`crates/server/src/handlers/auth.rs`), from its read of the user on,
and the TOTP handlers beside it, called at any times. Each Redis command and each SQL statement is
a step of its own, and so is each reading of the clock.

What has been accepted is kept apart: the time steps that were claimed, and the recovery codes that
were taken off a user's list.
-/

namespace ThinkWatch.Auth.SecondFactor

open Lib

/-- Encryption at rest. What was encrypted, with any nonce, is decrypted again. -/
structure Envelope (Blob : Type) where
  encryptSecret : Nat → String → Blob
  decryptSecret : Blob → Option String
  encryptRecoveryCodes : Nat → List String → Blob
  decryptRecoveryCodes : Blob → Option (List String)
  decrypt_encrypt : ∀ nonce codes,
    decryptRecoveryCodes (encryptRecoveryCodes nonce codes) = some codes

structure User (Blob : Type) where
  email : String
  totpEnabled : Bool
  totpSecret : Option Blob
  totpRecoveryCodes : Option Blob

structure PendingData where
  secret : String
  recoveryCodes : List String

/-- How far a request has got. The clock was read at `readAt`. -/
inductive Pc (Blob : Type) where
  /-- A login whose password is right, of a user with TOTP on. -/
  | loaded (user : User Blob) (totpCode : Option String)
  | unlocked (user : User Blob) (code : String)
  | matched (user : User Blob) (code : String) (step : Nat) (readAt : Int)
  /-- On to the recovery codes. -/
  | unmatched (user : User Blob) (code : String)
  | totpRequired
  | passed
  | settingUp
  /-- A verification that has read the pending setup. -/
  | pendingRead (email code : String) (pending : PendingData)
  | setupMatched (pending : PendingData) (step : Nat) (readAt : Int)
  | setupClaimed (pending : PendingData)
  | enabled
  | disabling
  | refused
  | done

structure Request (Blob : Type) where
  userId : Nat
  pc : Pc Blob

structure State (Blob : Type) where
  clock : Int
  lastStep : Store Nat Nat
  pending : Store Nat PendingData
  users : Nat → User Blob
  requests : Threads (Request Blob)
  accepted : List (Raised Nat Nat)
  used : List (Nat × String)

/-- What a step takes from outside: the answer of `is_locked`, and what is drawn at random. -/
structure Outside where
  locked : Bool
  nonce : Nat
  nonce' : Nat
  secret : String
  draws : List String

inductive Event where
  | tick (t : Int)
  | login (i userId : Nat) (passwordValid : Bool) (totpCode : Option String)
  | totpSetup (i userId : Nat)
  | totpVerifySetup (i userId : Nat) (email code : String)
  | totpDisable (i userId : Nat) (totpRequired passwordValid : Bool)
  | go (i : Nat) (o : Outside)

def pendingTtlSecs : Int := 600

variable {Blob : Type}

namespace State

def go (s : State Blob) (i userId : Nat) (pc : Pc Blob) : State Blob :=
  { s with requests := s.requests.set i ⟨userId, pc⟩ }

def start (clock : Int) (emails : Nat → String) : State Blob :=
  ⟨clock, .empty, .empty, fun u => ⟨emails u, false, none, none⟩, .none, [], []⟩

/-- `claim_step`, and what comes of it. -/
def claim (s : State Blob) (i userId step : Nat) (fresh stale : Pc Blob) : State Blob :=
  match claimStep s.lastStep s.clock userId step with
  | (lastStep, true) =>
    { s.go i userId fresh with
      lastStep := lastStep
      accepted := s.accepted ++ [⟨userId, step, s.clock⟩] }
  | (lastStep, false) => { s.go i userId stale with lastStep := lastStep }

/-- The recovery code, if the list as it was loaded has it, and the list without it. -/
def recovery (env : Envelope Blob) (user : User Blob) (code : String) :
    Option (Blob × String × List String) :=
  user.totpRecoveryCodes.bind fun blob =>
    (env.decryptRecoveryCodes blob).bind fun codes =>
      (findRecoveryCode codes code).bind fun pos =>
        codes[pos]?.map fun found => (blob, found, codes.eraseIdx pos)

/-- `swap_recovery_codes`, whose `WHERE` asks for the list as it was loaded. -/
def swap [DecidableEq Blob] (s : State Blob) (i userId : Nat) (blob updated : Blob)
    (found : String) : State Blob :=
  let user := s.users userId
  if user.totpRecoveryCodes = some blob then
    { s.go i userId .passed with
      users := Function.update s.users userId { user with totpRecoveryCodes := some updated }
      used := s.used ++ [(userId, found)] }
  else s.go i userId .refused

def advance [DecidableEq Blob] (totp : Totp) (env : Envelope Blob) (s : State Blob) (o : Outside)
    (i userId : Nat) : Pc Blob → Option (State Blob)
  | .loaded user totpCode =>
    if o.locked then some (s.go i userId .refused)
    else
      match totpCode with
      | none => some (s.go i userId .totpRequired)
      | some code => some (s.go i userId (.unlocked user code))
  | .unlocked user code =>
    match user.totpSecret with
    | none => some (s.go i userId (.unmatched user code))
    | some encryptedSecret =>
      match env.decryptSecret encryptedSecret with
      | none => some (s.go i userId .refused)
      | some secret =>
        match verifyStep totp secret user.email code s.clock with
        | some step => some (s.go i userId (.matched user code step s.clock))
        | none => some (s.go i userId (.unmatched user code))
  | .matched user code step _ => some (s.claim i userId step .passed (.unmatched user code))
  | .unmatched user code =>
    match recovery env user code with
    | none => some (s.go i userId .refused)
    | some (blob, found, codes) =>
      some (s.swap i userId blob (env.encryptRecoveryCodes o.nonce codes) found)
  | .settingUp =>
    match generateRecoveryCodes 10 o.draws with
    | none => none
    | some codes =>
      some { s.go i userId .done with
        pending := s.pending.setEx s.clock userId ⟨o.secret, codes⟩ (pendingTtlSecs * 1000) }
  | .pendingRead email code pending =>
    match verifyStep totp pending.secret email code s.clock with
    | some step => some (s.go i userId (.setupMatched pending step s.clock))
    | none => some (s.go i userId .refused)
  | .setupMatched pending step _ => some (s.claim i userId step (.setupClaimed pending) .refused)
  | .setupClaimed pending =>
    some { s.go i userId .enabled with
      users := Function.update s.users userId { s.users userId with
        totpEnabled := true
        totpSecret := some (env.encryptSecret o.nonce pending.secret)
        totpRecoveryCodes := some (env.encryptRecoveryCodes o.nonce' pending.recoveryCodes) } }
  | .enabled => some { s.go i userId .done with pending := s.pending.del userId }
  | .disabling =>
    some { s.go i userId .done with
      users := Function.update s.users userId { s.users userId with
        totpEnabled := false
        totpSecret := none
        totpRecoveryCodes := none } }
  | .totpRequired | .passed | .refused | .done => none

/-- Where a request starts, by its first read of the database or of Redis. -/
def arrive (s : State Blob) : Event → Option (Nat × Nat × Pc Blob)
  | .login i userId passwordValid totpCode =>
    let user := s.users userId
    some (i, userId,
      if passwordValid then if user.totpEnabled then .loaded user totpCode else .done else .refused)
  | .totpSetup i userId =>
    some (i, userId, if (s.users userId).totpEnabled then .refused else .settingUp)
  | .totpVerifySetup i userId email code =>
    match s.pending.get s.clock userId with
    | none => some (i, userId, .refused)
    | some pending => some (i, userId, .pendingRead email code pending)
  | .totpDisable i userId totpRequired passwordValid =>
    some (i, userId, if (s.users userId).totpEnabled ∧ !totpRequired ∧ passwordValid then .disabling
      else .refused)
  | .tick _ | .go _ _ => none

def step [DecidableEq Blob] (totp : Totp) (env : Envelope Blob) (s : State Blob) :
    Event → Option (State Blob)
  | .tick t => if s.clock ≤ t then some { s with clock := t } else none
  | .go i o =>
    match s.requests i with
    | none => none
    | some r => s.advance totp env o i r.userId r.pc
  | a =>
    match s.arrive a with
    | none => none
    | some (i, userId, pc) =>
      match s.requests i with
      | none => some (s.go i userId pc)
      | some _ => none

end State

/-! ## One step -/

/-- The step a request is about to claim, and when it was matched. -/
def Pc.claiming : Pc Blob → Option (Nat × Int)
  | .matched _ _ step readAt => some (step, readAt)
  | .setupMatched _ step readAt => some (step, readAt)
  | _ => none

/-- The setup a request has read. -/
def Pc.pending : Pc Blob → Option PendingData
  | .pendingRead _ _ p => some p
  | .setupMatched p _ _ => some p
  | .setupClaimed p => some p
  | _ => none

/-- At `now`, the code of a step is acceptable. -/
def InWindow (step : Nat) (now : Int) : Prop :=
  now / 1000 / totpStep - skew ≤ step ∧ step ≤ now / 1000 / totpStep + skew

variable {totp : Totp} {env : Envelope Blob} {s s' : State Blob} {a : Event}

/-- The ways a step can go. -/
inductive Moves (env : Envelope Blob) (s : State Blob) : Event → State Blob → Prop where
  | tick {t : Int} (h : s.clock ≤ t) : Moves env s (.tick t) { s with clock := t }
  | arrive {a : Event} {i u : Nat} {pc : Pc Blob} (hclaiming : pc.claiming = none)
      (hpending : ∀ p, pc.pending = some p → s.pending.get s.clock u = some p) :
      Moves env s a (s.go i u pc)
  | go {i u : Nat} {o : Outside} {pc pc' : Pc Blob} (hr : s.requests i = some ⟨u, pc⟩)
      (hclaiming : ∀ k t, pc'.claiming = some (k, t) → t = s.clock ∧ InWindow k t)
      (hpending : ∀ p, pc'.pending = some p → pc.pending = some p) :
      Moves env s (.go i o) (s.go i u pc')
  | claim {i u k : Nat} {t : Int} {o : Outside} {pc pc' : Pc Blob} {lastStep : Store Nat Nat}
      (hr : s.requests i = some ⟨u, pc⟩) (hpc : pc.claiming = some (k, t))
      (hclaim : claimStep s.lastStep s.clock u k = (lastStep, true))
      (hclaiming : pc'.claiming = none)
      (hpending : ∀ p, pc'.pending = some p → pc.pending = some p) :
      Moves env s (.go i o)
        { s.go i u pc' with lastStep := lastStep, accepted := s.accepted ++ [⟨u, k, s.clock⟩] }
  | swap {i u pos : Nat} {o : Outside} {blob : Blob} {codes : List String} {found : String}
      (hblob : (s.users u).totpRecoveryCodes = some blob)
      (hcodes : env.decryptRecoveryCodes blob = some codes) (hfound : codes[pos]? = some found) :
      Moves env s (.go i o)
        { s.go i u .passed with
          users := Function.update s.users u { s.users u with
            totpRecoveryCodes := some (env.encryptRecoveryCodes o.nonce (codes.eraseIdx pos)) }
          used := s.used ++ [(u, found)] }
  | enable {i u : Nat} {o : Outside} {p : PendingData}
      (hr : s.requests i = some ⟨u, .setupClaimed p⟩) :
      Moves env s (.go i o)
        { s.go i u .enabled with
          users := Function.update s.users u { s.users u with
            totpEnabled := true
            totpSecret := some (env.encryptSecret o.nonce p.secret)
            totpRecoveryCodes := some (env.encryptRecoveryCodes o.nonce' p.recoveryCodes) } }
  | setup {i u : Nat} {o : Outside} {codes : List String} (hcodes : codes.Nodup) :
      Moves env s (.go i o)
        { s.go i u .done with
          pending := s.pending.setEx s.clock u ⟨o.secret, codes⟩ (pendingTtlSecs * 1000) }
  | cleanUp {i u : Nat} {o : Outside} :
      Moves env s (.go i o) { s.go i u .done with pending := s.pending.del u }
  | disable {i u : Nat} {o : Outside} :
      Moves env s (.go i o)
        { s.go i u .done with
          users := Function.update s.users u { s.users u with
            totpEnabled := false
            totpSecret := none
            totpRecoveryCodes := none } }

theorem verifyStep_inWindow {secret email code : String} {now : Int} {k : Nat}
    (h : verifyStep totp secret email code now = some k) : InWindow k now :=
  totp.near h

theorem recovery_eq_some {user : User Blob} {code found : String} {blob : Blob}
    {rest : List String} (h : State.recovery env user code = some (blob, found, rest)) :
    user.totpRecoveryCodes = some blob ∧ ∃ codes pos, env.decryptRecoveryCodes blob = some codes ∧
      codes[pos]? = some found ∧ rest = codes.eraseIdx pos := by
  obtain ⟨blob', hblob, h⟩ := Option.bind_eq_some_iff.mp h
  obtain ⟨codes, hcodes, h⟩ := Option.bind_eq_some_iff.mp h
  obtain ⟨pos, -, h⟩ := Option.bind_eq_some_iff.mp h
  obtain ⟨found', hfound, heq⟩ := Option.map_eq_some_iff.mp h
  cases heq
  exact ⟨hblob, codes, pos, hcodes, hfound, rfl⟩

theorem claim_moves {i u k : Nat} {t : Int} {o : Outside} {pc fresh stale : Pc Blob}
    (hr : s.requests i = some ⟨u, pc⟩) (hpc : pc.claiming = some (k, t))
    (hfresh : fresh.claiming = none) (hpending : ∀ p, fresh.pending = some p → pc.pending = some p)
    (hstale : stale.claiming = none ∧ stale.pending = none) :
    Moves env s (.go i o) (s.claim i u k fresh stale) := by
  unfold State.claim
  split
  · next lastStep hclaim => exact .claim hr hpc hclaim hfresh hpending
  · next lastStep hclaim =>
    rw [Store.raise_false hclaim]
    refine .go hr (fun k t h => ?_) fun p h => ?_
    · rw [hstale.1] at h
      cases h
    · rw [hstale.2] at h
      cases h

theorem advance_moves [DecidableEq Blob] {i u : Nat} {o : Outside} {pc : Pc Blob}
    (hr : s.requests i = some ⟨u, pc⟩) (h : s.advance totp env o i u pc = some s') :
    Moves env s (.go i o) s' := by
  cases pc with
  | loaded user totpCode =>
    simp only [State.advance] at h
    split at h
    · obtain rfl := Option.some.inj h
      exact .go hr nofun nofun
    · cases totpCode <;>
      · obtain rfl := Option.some.inj h
        exact .go hr nofun nofun
  | unlocked user code =>
    simp only [State.advance] at h
    split at h
    · obtain rfl := Option.some.inj h
      exact .go hr nofun nofun
    · split at h
      · obtain rfl := Option.some.inj h
        exact .go hr nofun nofun
      · split at h
        · next step hstep =>
          obtain rfl := Option.some.inj h
          refine .go hr (fun k t hk => ?_) nofun
          obtain ⟨rfl, rfl⟩ := Prod.mk.inj (Option.some.inj hk)
          exact ⟨rfl, verifyStep_inWindow hstep⟩
        · obtain rfl := Option.some.inj h
          exact .go hr nofun nofun
  | matched user code step readAt =>
    obtain rfl := Option.some.inj h
    exact claim_moves hr rfl rfl nofun ⟨rfl, rfl⟩
  | unmatched user code =>
    simp only [State.advance] at h
    split at h
    · obtain rfl := Option.some.inj h
      exact .go hr nofun nofun
    · next blob found rest hrecovery =>
      obtain rfl := Option.some.inj h
      obtain ⟨-, codes, pos, hcodes, hfound, rfl⟩ := recovery_eq_some hrecovery
      unfold State.swap
      simp only
      split
      · next hblob => exact .swap hblob hcodes hfound
      · exact .go hr nofun nofun
  | settingUp =>
    simp only [State.advance] at h
    split at h
    · cases h
    · next codes hcodes =>
      obtain rfl := Option.some.inj h
      exact .setup (drawCodes_nodup List.nodup_nil hcodes)
  | pendingRead email code pending =>
    simp only [State.advance] at h
    split at h
    · next step hstep =>
      obtain rfl := Option.some.inj h
      refine .go hr (fun k t hk => ?_) fun p hp => hp
      obtain ⟨rfl, rfl⟩ := Prod.mk.inj (Option.some.inj hk)
      exact ⟨rfl, verifyStep_inWindow hstep⟩
    · obtain rfl := Option.some.inj h
      exact .go hr nofun nofun
  | setupMatched pending step readAt =>
    obtain rfl := Option.some.inj h
    exact claim_moves hr rfl rfl (fun p hp => hp) ⟨rfl, rfl⟩
  | setupClaimed pending =>
    obtain rfl := Option.some.inj h
    exact .enable hr
  | enabled =>
    obtain rfl := Option.some.inj h
    exact .cleanUp
  | disabling =>
    obtain rfl := Option.some.inj h
    exact .disable
  | totpRequired => cases h
  | passed => cases h
  | refused => cases h
  | done => cases h

/-- A request that arrives has claimed nothing, and holds no setup but the pending one. -/
theorem arrive_spec {i u : Nat} {pc : Pc Blob} (h : s.arrive a = some (i, u, pc)) :
    pc.claiming = none ∧ ∀ p, pc.pending = some p → s.pending.get s.clock u = some p := by
  cases a with
  | tick t => cases h
  | go i o => cases h
  | login i u passwordValid totpCode =>
    simp only [State.arrive] at h
    obtain ⟨-, rfl, rfl⟩ := Prod.mk.inj (Option.some.inj h) |>.imp id Prod.mk.inj
    split
    · split <;> exact ⟨rfl, nofun⟩
    · exact ⟨rfl, nofun⟩
  | totpSetup i u =>
    obtain ⟨-, rfl, rfl⟩ := Prod.mk.inj (Option.some.inj h) |>.imp id Prod.mk.inj
    split <;> exact ⟨rfl, nofun⟩
  | totpVerifySetup i u email code =>
    simp only [State.arrive] at h
    split at h
    · obtain ⟨-, rfl, rfl⟩ := Prod.mk.inj (Option.some.inj h) |>.imp id Prod.mk.inj
      exact ⟨rfl, nofun⟩
    · next pending hpending =>
      obtain ⟨-, rfl, rfl⟩ := Prod.mk.inj (Option.some.inj h) |>.imp id Prod.mk.inj
      exact ⟨rfl, fun p hp => by rw [hpending, ← hp]; rfl⟩
  | totpDisable i u totpRequired passwordValid =>
    obtain ⟨-, rfl, rfl⟩ := Prod.mk.inj (Option.some.inj h) |>.imp id Prod.mk.inj
    split <;> exact ⟨rfl, nofun⟩

theorem step_moves [DecidableEq Blob] (h : s.step totp env a = some s') : Moves env s a s' := by
  have harrive (h : (match s.arrive a with
      | none => none
      | some (i, u, pc) =>
        match s.requests i with
        | none => some (s.go i u pc)
        | some _ => none) = some s') : Moves env s a s' := by
    split at h
    · cases h
    · next i u pc harrive =>
      split at h
      · obtain rfl := Option.some.inj h
        obtain ⟨hclaiming, hpending⟩ := arrive_spec harrive
        exact .arrive hclaiming hpending
      · cases h
  cases a with
  | tick t =>
    simp only [State.step] at h
    split at h
    · next ht =>
      obtain rfl := Option.some.inj h
      exact .tick ht
    · cases h
  | go i o =>
    simp only [State.step] at h
    split at h
    · cases h
    · next r hr => exact advance_moves hr h
  | _ => exact harrive h

/-! ## The time steps -/

/-- The setup a request is about to turn TOTP on with. -/
def Pc.enabling : Pc Blob → Option PendingData
  | .setupClaimed p => some p
  | _ => none

/--
The condition on the step of a request. When it claims a time step that was accepted before, that
step or a later one was accepted no longer than a record lives ago. When it turns TOTP on, no
recovery code of the setup it has read was used.
-/
def Undisturbed (s : State Blob) : Event → Prop
  | .go i _ => ∀ r ∈ s.requests i,
      (∀ c ∈ r.pc.claiming, (∃ p ∈ s.accepted, p.key = r.userId ∧ p.value = c.1) →
        ∃ p ∈ s.accepted, p.key = r.userId ∧ c.1 ≤ p.value ∧
          s.clock ≤ p.time + lastStepTtlSecs * 1000) ∧
      ∀ p ∈ r.pc.enabling, ∀ code ∈ p.recoveryCodes, (r.userId, code) ∉ s.used
  | _ => True

instance (s : State Blob) : ∀ a, Decidable (Undisturbed s a)
  | .go i _ => inferInstanceAs (Decidable (∀ r ∈ s.requests i, _ ∧ _))
  | .tick _ => isTrue trivial
  | .login _ _ _ _ => isTrue trivial
  | .totpSetup _ _ => isTrue trivial
  | .totpVerifySetup _ _ _ _ => isTrue trivial
  | .totpDisable _ _ _ _ => isTrue trivial

/-- A step that meets the condition. -/
def Next [DecidableEq Blob] (totp : Totp) (env : Envelope Blob) (s : State Blob) (a : Event)
    (s' : State Blob) : Prop :=
  Undisturbed s a ∧ s.step totp env a = some s'

/-- The user and the time step of what was accepted. -/
def State.steps (s : State Blob) : List (Nat × Nat) := s.accepted.map fun r => (r.key, r.value)

/-- What holds of the claims of time steps. -/
structure StepsOnce (s : State Blob) : Prop where
  guarded : Guards s.lastStep s.clock (lastStepTtlSecs * 1000) s.accepted
  nodup : s.steps.Nodup

theorem stepsOnce_next (hs : StepsOnce s) (hin : Undisturbed s a) (h : Moves env s a s') :
    StepsOnce s' := by
  cases h with
  | tick h => exact ⟨hs.guarded.tick h, hs.nodup⟩
  | @claim i u k t o pc pc' lastStep hr hpc hclaim hclaiming hpending =>
    refine ⟨hs.guarded.raise hclaim, ?_⟩
    unfold State.steps
    rw [List.map_append]
    refine List.Nodup.append hs.nodup (List.nodup_singleton _) (List.disjoint_singleton.mpr ?_)
    exact hs.guarded.notMem_of_raise hclaim ((hin ⟨u, pc⟩ hr).1 (k, t) hpc)
  | _ => exact ⟨hs.guarded, hs.nodup⟩

/-! ## Requests that do not stall -/

/-- The steps that were accepted, and those about to be claimed, were matched in their windows. -/
structure Windowed (s : State Blob) : Prop where
  accepted : ∀ r ∈ s.accepted, (r.value - skew) * (totpStep * 1000) ≤ r.time
  claiming : ∀ i u pc k t, s.requests i = some ⟨u, pc⟩ → pc.claiming = some (k, t) →
    t ≤ s.clock ∧ InWindow k t

theorem windowed_start (clock : Int) (emails : Nat → String) :
    Windowed (State.start clock emails : State Blob) :=
  ⟨nofun, nofun⟩

theorem windowed_next (hs : Windowed s) (h : Moves env s a s') : Windowed s' := by
  have hset {i u : Nat} {pc : Pc Blob} {k : Nat} {t : Int}
      (hpc : ∀ k t, pc.claiming = some (k, t) → t = s.clock ∧ InWindow k t) (j v : Nat)
      (pc' : Pc Blob) (hj : (s.go i u pc).requests j = some ⟨v, pc'⟩)
      (hclaiming : pc'.claiming = some (k, t)) : t ≤ s.clock ∧ InWindow k t := by
    rcases Threads.set_eq_some hj with ⟨-, heq⟩ | ⟨-, hj⟩
    · obtain ⟨-, rfl⟩ := Request.mk.inj heq
      obtain ⟨rfl, hin⟩ := hpc k t hclaiming
      exact ⟨le_rfl, hin⟩
    · exact hs.claiming j v pc' k t hj hclaiming
  have hnone {pc : Pc Blob} (hpc : pc.claiming = none) (k : Nat) (t : Int)
      (h : pc.claiming = some (k, t)) : t = s.clock ∧ InWindow k t := by
    rw [hpc] at h
    cases h
  cases h with
  | tick h =>
    exact ⟨hs.accepted, fun i u pc k t hr hpc =>
      ⟨(hs.claiming i u pc k t hr hpc).1.trans h, (hs.claiming i u pc k t hr hpc).2⟩⟩
  | arrive hclaiming hpending =>
    exact ⟨hs.accepted, fun j v pc' k t hj hk => hset (hnone hclaiming) j v pc' hj hk⟩
  | go hr hclaiming hpending =>
    exact ⟨hs.accepted, fun j v pc' k t hj hk => hset hclaiming j v pc' hj hk⟩
  | @claim i u k t o pc pc' lastStep hr hpc hclaim hclaiming hpending =>
    refine ⟨fun r hr' => ?_, fun j v pc' k t hj hk => hset (hnone hclaiming) j v pc' hj hk⟩
    rcases List.mem_append.mp hr' with hr' | hr'
    · exact hs.accepted r hr'
    · obtain rfl := List.mem_singleton.mp hr'
      obtain ⟨hle, hlow, hhigh⟩ := hs.claiming i u pc k t hr hpc
      simp only [totpStep, skew] at *
      omega
  | _ => exact ⟨hs.accepted, fun j v pc' k t hj hk => hset (hnone rfl) j v pc' hj hk⟩

/--
A request claims its step no later than one acceptance window after it has read the clock, and turns
TOTP on with recovery codes of which none was used.
-/
def Prompt (s : State Blob) : Event → Prop
  | .go i _ => ∀ r ∈ s.requests i,
      (∀ c ∈ r.pc.claiming, s.clock ≤ c.2 + acceptWindowSecs * 1000) ∧
      ∀ p ∈ r.pc.enabling, ∀ code ∈ p.recoveryCodes, (r.userId, code) ∉ s.used
  | _ => True

/-- It then finds the record of an earlier acceptance still there. -/
theorem Windowed.undisturbed (hs : Windowed s) (h : Prompt s a) : Undisturbed s a := by
  cases a with
  | go i o =>
    refine fun r hr => ⟨fun c hc => ?_, (h r hr).2⟩
    rintro ⟨p, hmem, hkey, hvalue⟩
    have haccepted := hs.accepted p hmem
    have hclock := (h r hr).1 c hc
    obtain ⟨-, hlow, hhigh⟩ := hs.claiming i r.userId r.pc c.1 c.2 hr hc
    refine ⟨p, hmem, hkey, hvalue.ge, ?_⟩
    simp only [hvalue, totpStep, skew, acceptWindowSecs, lastStepTtlSecs] at *
    omega
  | _ => trivial

theorem prompt_run [DecidableEq Blob] {clock : Int} {emails : Nat → String} {as : List Event}
    (h : Steps (fun s a s' => Prompt s a ∧ s.step totp env a = some s') (State.start clock emails)
      as s) : Steps (Next totp env) (State.start clock emails) as s :=
  h.under (I := Windowed)
    (fun _ _ _ hs hstep => ⟨windowed_next hs (step_moves hstep.2), hs.undisturbed hstep.1, hstep.2⟩)
    (windowed_start clock emails)

/-! ## The recovery codes -/

/-- What holds of the recovery codes. -/
structure CodesOnce (env : Envelope Blob) (s : State Blob) : Prop where
  pending : ∀ u e, s.pending u = some e → e.value.recoveryCodes.Nodup
  held : ∀ i u pc p, s.requests i = some ⟨u, pc⟩ → pc.pending = some p → p.recoveryCodes.Nodup
  stored : ∀ u blob codes, (s.users u).totpRecoveryCodes = some blob →
    env.decryptRecoveryCodes blob = some codes → codes.Nodup ∧ ∀ c ∈ codes, (u, c) ∉ s.used
  nodup : s.used.Nodup

namespace CodesOnce

theorem start (clock : Int) (emails : Nat → String) :
    CodesOnce env (State.start clock emails) where
  pending := nofun
  held := nofun
  stored := nofun
  nodup := List.nodup_nil

/-- The requests after one of them has moved hold what it held, or what is pending. -/
theorem set (hs : CodesOnce env s) {i u : Nat} {pc : Pc Blob}
    (hpc : ∀ p, pc.pending = some p → p.recoveryCodes.Nodup) :
    ∀ j v pc' p, (s.go i u pc).requests j = some ⟨v, pc'⟩ → pc'.pending = some p →
      p.recoveryCodes.Nodup := by
  intro j v pc' p hj hp
  rcases Threads.set_eq_some hj with ⟨-, heq⟩ | ⟨-, hj⟩
  · obtain ⟨-, rfl⟩ := Request.mk.inj heq
    exact hpc p hp
  · exact hs.held j v pc' p hj hp

/-- The lists that are stored after one of them was replaced. -/
theorem update {users : Nat → User Blob} {used : List (Nat × String)} {u : Nat} {user : User Blob}
    (hold : ∀ v, v ≠ u → ∀ blob codes, (users v).totpRecoveryCodes = some blob →
      env.decryptRecoveryCodes blob = some codes → codes.Nodup ∧ ∀ c ∈ codes, (v, c) ∉ used)
    (hnew : ∀ blob codes, user.totpRecoveryCodes = some blob →
      env.decryptRecoveryCodes blob = some codes → codes.Nodup ∧ ∀ c ∈ codes, (u, c) ∉ used) :
    ∀ v blob codes, (Function.update users u user v).totpRecoveryCodes = some blob →
      env.decryptRecoveryCodes blob = some codes → codes.Nodup ∧ ∀ c ∈ codes, (v, c) ∉ used := by
  intro v blob codes hblob hcodes
  by_cases hv : v = u
  · subst hv
    rw [Function.update_self] at hblob
    exact hnew blob codes hblob hcodes
  · rw [Function.update_of_ne hv] at hblob
    exact hold v hv blob codes hblob hcodes

/-- A list that was encrypted is the one that is decrypted. -/
theorem of_encrypted {nonce : Nat} {codes blobCodes : List String} {blob : Blob}
    (hblob : some (env.encryptRecoveryCodes nonce codes) = some blob)
    (hcodes : env.decryptRecoveryCodes blob = some blobCodes) : blobCodes = codes := by
  obtain rfl := Option.some.inj hblob
  rw [env.decrypt_encrypt] at hcodes
  exact (Option.some.inj hcodes).symm

theorem next (hs : CodesOnce env s) (hin : Undisturbed s a) (h : Moves env s a s') :
    CodesOnce env s' := by
  have hempty {i u : Nat} {pc : Pc Blob} (hpc : pc.pending = none) :=
    @set _ _ _ hs i u pc fun p hp => by rw [hpc] at hp; cases hp
  cases h with
  | tick h => exact ⟨hs.pending, hs.held, hs.stored, hs.nodup⟩
  | @arrive a i u pc hclaiming hpending =>
    refine ⟨hs.pending, hs.set fun p hp => ?_, hs.stored, hs.nodup⟩
    obtain ⟨e, he, -, rfl⟩ := Store.get_eq_some.mp (hpending p hp)
    exact hs.pending u e he
  | @go i u o pc pc' hr hclaiming hpending =>
    exact ⟨hs.pending, hs.set fun p hp => hs.held i u pc p hr (hpending p hp), hs.stored, hs.nodup⟩
  | @claim i u k t o pc pc' lastStep hr hpc hclaim hclaiming hpending =>
    exact ⟨hs.pending, hs.set fun p hp => hs.held i u pc p hr (hpending p hp), hs.stored, hs.nodup⟩
  | @swap i u pos o blob codes found hblob hcodes hfound =>
    obtain ⟨hnodup, hunused⟩ := hs.stored u blob codes hblob hcodes
    have hmem : found ∈ codes := List.mem_of_getElem? hfound
    have hrest : codes.eraseIdx pos = codes.erase found := by
      obtain ⟨hpos, rfl⟩ := List.getElem?_eq_some_iff.mp hfound
      exact (hnodup.erase_getElem pos hpos).symm
    refine ⟨hs.pending, hempty rfl, update (fun v hv blob' codes' hb hc => ?_)
      (fun blob' codes' hb hc => ?_), ?_⟩
    · obtain ⟨hnodup', hunused'⟩ := hs.stored v blob' codes' hb hc
      refine ⟨hnodup', fun c hmem' hused => ?_⟩
      rcases List.mem_append.mp hused with hused | hused
      · exact hunused' c hmem' hused
      · exact hv (Prod.mk.inj (List.mem_singleton.mp hused)).1
    · obtain rfl := of_encrypted hb hc
      rw [hrest]
      refine ⟨hnodup.erase found, fun c hmem' hused => ?_⟩
      rcases List.mem_append.mp hused with hused | hused
      · exact hunused c (List.mem_of_mem_erase hmem') hused
      · obtain ⟨-, rfl⟩ := Prod.mk.inj (List.mem_singleton.mp hused)
        exact hnodup.not_mem_erase hmem'
    · exact List.Nodup.append hs.nodup (List.nodup_singleton _)
        (List.disjoint_singleton.mpr (hunused found hmem))
  | @enable i u o p hr =>
    refine ⟨hs.pending, hempty rfl, update (fun v _ => hs.stored v) (fun blob codes hb hc => ?_),
      hs.nodup⟩
    obtain rfl := of_encrypted hb hc
    exact ⟨hs.held i u _ p hr rfl, (hin ⟨u, _⟩ hr).2 p rfl⟩
  | @setup i u o codes hcodes =>
    refine ⟨fun v e he => ?_, hempty rfl, hs.stored, hs.nodup⟩
    by_cases hv : v = u
    · subst hv
      obtain rfl := Option.some.inj ((Store.put_self _ _ _).symm.trans he)
      exact hcodes
    · exact hs.pending v e ((Store.put_ne _ hv _).symm.trans he)
  | @cleanUp i u o =>
    refine ⟨fun v e he => ?_, hempty rfl, hs.stored, hs.nodup⟩
    by_cases hv : v = u
    · subst hv
      cases (Store.put_self _ _ _).symm.trans he
    · exact hs.pending v e ((Store.put_ne _ hv _).symm.trans he)
  | @disable i u o =>
    exact ⟨hs.pending, hempty rfl, update (fun v _ => hs.stored v) nofun, hs.nodup⟩

end CodesOnce

/-! ## Whole runs -/

/--
In every run whose steps meet the condition, the code of each time step and each recovery code is
accepted at most once for each user.
-/
theorem second_factor_used_once [DecidableEq Blob] {clock : Int} {emails : Nat → String}
    {as : List Event} (h : Steps (Next totp env) (State.start clock emails) as s) :
    s.steps.Nodup ∧ s.used.Nodup := by
  have hinv := h.invariant (I := fun s => StepsOnce s ∧ CodesOnce env s)
    (fun s a s' hs hstep => ⟨stepsOnce_next hs.1 hstep.1 (step_moves hstep.2),
      hs.2.next hstep.1 (step_moves hstep.2)⟩)
    ⟨⟨.nil, List.nodup_nil⟩, .start clock emails⟩
  exact ⟨hinv.1.nodup, hinv.2.nodup⟩

/-! ## Runs with the codes of RFC 6238 -/

def rfcSecret : String := "GEZDGNBVGY3TQOJQGEZDGNBVGY3TQOJQ"

/-- Three codes of the secret, with their steps. -/
def rfcCodes : List (Nat × String) := [(1, "287082"), (37037036, "081804"), (37037037, "050471")]

def rfcTotp : Totp where
  check secret _ code secs :=
    if secret = rfcSecret then
      (rfcCodes.find? fun p => p.2 = code ∧ secs / totpStep - skew ≤ p.1 ∧
        p.1 ≤ secs / totpStep + skew).map Prod.fst
    else none
  near := by
    intro secret email code secs k h
    split at h
    · obtain ⟨p, hp, rfl⟩ := Option.map_eq_some_iff.mp h
      have hmatch := List.find?_some hp
      rw [decide_eq_true_eq] at hmatch
      exact hmatch.2
    · cases h

/-- Encryption that hides nothing, but the same text under two nonces looks different. -/
def openEnvelope : Envelope (Nat × List String) where
  encryptSecret nonce secret := (nonce, [secret])
  decryptSecret blob := blob.2.head?
  encryptRecoveryCodes := Prod.mk
  decryptRecoveryCodes blob := some blob.2
  decrypt_encrypt _ _ := rfl

def drawn : Outside :=
  ⟨false, 0, 0, rfcSecret, ["AAAABBBB", "AAAACCCC", "AAAADDDD", "AAAAEEEE", "AAAAFFFF", "AAAAGGGG",
    "AAAAHHHH", "AAAAIIII", "AAAAJJJJ", "AAAAKKKK"]⟩

/-- A setup, and two verifications of it with the codes of two steps, both before either is done. -/
def verifiedTwice : List Event :=
  [.totpSetup 0 7, .go 0 drawn, .totpVerifySetup 1 7 "u@example.com" "081804",
    .totpVerifySetup 2 7 "u@example.com" "050471"] ++ List.replicate 4 (.go 1 drawn)

/-- A login with a second factor. -/
def loginWith (i : Nat) (code : String) : List Event :=
  [.login i 7 true (some code), .go i drawn, .go i drawn, .go i drawn]

/-- A code, used again and refused, and a recovery code. -/
theorem second_factor_used_once_refused : ∃ s, Steps (Next rfcTotp openEnvelope)
      (State.start 1111111109000 fun _ => "u@example.com")
      (verifiedTwice ++ loginWith 3 "050471" ++ loginWith 4 "050471" ++ loginWith 5 "AAAA-BBBB") s ∧
    s.steps = [(7, 37037036), (7, 37037037)] ∧ s.used = [(7, "AAAA-BBBB")] ∧
    s.steps.Nodup ∧ s.used.Nodup := by
  have hrun : ((verifiedTwice ++ loginWith 3 "050471" ++ loginWith 4 "050471" ++
      loginWith 5 "AAAA-BBBB").foldlM (fun s a => if Undisturbed s a then
        s.step rfcTotp openEnvelope a else none)
      (State.start 1111111109000 fun _ => "u@example.com")).map (fun s => (s.steps, s.used)) =
      some ([(7, 37037036), (7, 37037037)], [(7, "AAAA-BBBB")]) := by
    decide +kernel
  obtain ⟨s, hs, heq⟩ := Option.map_eq_some_iff.mp hrun
  obtain ⟨hsteps, hused⟩ := Prod.mk.inj heq
  have hnext : Steps (Next rfcTotp openEnvelope) _ _ s := .of_foldlM_if hs
  exact ⟨s, hnext, hsteps, hused, second_factor_used_once hnext⟩

/-- A recovery code is used between the two verifications, and after them. -/
def recoveryRestored : List Event :=
  verifiedTwice ++ loginWith 3 "AAAA-BBBB" ++ List.replicate 4 (Event.go 2 drawn) ++
    loginWith 4 "AAAA-BBBB"

/-- A login waits three minutes between its check and its claim; another one has used its code. -/
def claimDelayed : List Event :=
  verifiedTwice ++ (loginWith 3 "050471").take 3 ++ loginWith 4 "050471" ++
    [.tick 1111111290000, .go 3 drawn]

/-- The recovery code of the first run and the code of the second are accepted twice. -/
theorem second_factor_used_twice :
    (∃ s, Steps (fun s a s' => s.step rfcTotp openEnvelope a = some s')
        (State.start 1111111109000 fun _ => "u@example.com") recoveryRestored s ∧
      s.used = [(7, "AAAA-BBBB"), (7, "AAAA-BBBB")]) ∧
    ∃ s, Steps (fun s a s' => s.step rfcTotp openEnvelope a = some s')
        (State.start 1111111109000 fun _ => "u@example.com") claimDelayed s ∧
      s.steps = [(7, 37037036), (7, 37037037), (7, 37037037)] := by
  refine ⟨?_, ?_⟩
  · have hrun : (recoveryRestored.foldlM (State.step rfcTotp openEnvelope)
        (State.start 1111111109000 fun _ => "u@example.com")).map State.used =
        some [(7, "AAAA-BBBB"), (7, "AAAA-BBBB")] := by
      decide +kernel
    obtain ⟨s, hs, hused⟩ := Option.map_eq_some_iff.mp hrun
    exact ⟨s, .of_foldlM hs, hused⟩
  · have hrun : (claimDelayed.foldlM (State.step rfcTotp openEnvelope)
        (State.start 1111111109000 fun _ => "u@example.com")).map State.steps =
        some [(7, 37037036), (7, 37037037), (7, 37037037)] := by
      decide +kernel
    obtain ⟨s, hs, hsteps⟩ := Option.map_eq_some_iff.mp hrun
    exact ⟨s, .of_foldlM hs, hsteps⟩

end ThinkWatch.Auth.SecondFactor
