import ThinkWatch.Lib.Run
import ThinkWatch.Lib.Threads
import ThinkWatch.Signature.Verify

/-!
# Replays of a signed request

Any number of presentations of a request run through the middleware, interleaved at every Redis
command. A presentation passes the drift check at one moment and claims its nonce at a later one;
`delay` bounds the time between the two.

The nonce is remembered for `signature_nonce_ttl_secs` from the claim. A timestamp is fresh for
`2 * drift + 1` seconds, so that a replay is excluded exactly when the nonce outlives that window
and the delay (`atMostOnce_iff`).
-/

namespace ThinkWatch.Signature

open Lib Config

/-! ## The server -/

/-- A presentation in flight. `checkedAt` is when it went through the drift check. -/
structure Presentation where
  req : Request
  pc : Pc
  checkedAt : Int

structure Server where
  redis : Redis
  clock : Int
  threads : Threads Presentation

inductive Event where
  | arrive (i : Nat) (req : Request)
  | advance (i : Nat) (t : Int)
  | other (t : Int) (redis : Redis)

/-- A time after 1970 that `chrono` can tell: its calendar ends before second 10^13. -/
def OnCalendar (t : Int) : Prop := 0 ≤ t / 1000 ∧ t / 1000 ≤ 10 ^ 13

/-- The presentation after its next action. -/
def Presentation.next (crypto : Crypto) (cfg : DynamicConfig) (t : Int) (s : Redis)
    (p : Presentation) : Presentation :=
  { p with
    pc := (advance crypto cfg t p.req s p.pc).2
    checkedAt := if p.pc = .arrived then t else p.checkedAt }

/--
One event. The rest of the server writes what it likes, except nonces. A presentation claims its
nonce no later than `delay` after its drift check.
-/
inductive Step (crypto : Crypto) (cfg : DynamicConfig) (delay : Int) :
    Server → Event → Server → Prop where
  | arrive {s : Server} {i : Nat} {req : Request} (free : s.threads i = none) :
      Step crypto cfg delay s (.arrive i req)
        { s with threads := s.threads.set i ⟨req, .arrived, s.clock⟩ }
  | advance {s : Server} {i : Nat} {t : Int} {p : Presentation} (thread : s.threads i = some p)
      (later : s.clock ≤ t) (calendar : OnCalendar t)
      (prompt : ∀ l, p.pc = .fresh l → t ≤ p.checkedAt + delay) :
      Step crypto cfg delay s (.advance i t)
        ⟨(Signature.advance crypto cfg t p.req s.redis p.pc).1, t,
          s.threads.set i (p.next crypto cfg t s.redis)⟩
  | other {s : Server} {t : Int} {redis : Redis} (later : s.clock ≤ t)
      (frame : ∀ u n, redis (.nonce u n) = s.redis (.nonce u n)) :
      Step crypto cfg delay s (.other t redis) { s with redis := redis, clock := t }

/-- `req` is a request of user `u` with nonce `n` and timestamp `ts` that has to be signed. -/
structure Signed (req : Request) (u : Uuid) (n : String) (ts : Int) : Prop where
  checked : req.exempt = false
  signature : req.signature ≠ .absent
  user : ∃ au, req.authUser = some au ∧ au.sub = u
  timestamp : ∃ str, req.timestamp = .text str ∧ parseI64 str = some ts
  nonce : req.nonce = .text n

/-- In every run, at most one presentation of each signed request is let through. -/
def AtMostOnce (cfg : DynamicConfig) (delay : Int) : Prop :=
  ∀ (crypto : Crypto) (s₀ s : Server) (es : List Event), (∀ i, s₀.threads i = none) →
    Steps (Step crypto cfg delay) s₀ es s →
    ∀ u n ts i j p q, s.threads i = some p → s.threads j = some q →
      Signed p.req u n ts → Signed q.req u n ts → p.pc = .passed → q.pc = .passed → i = j

/-! ## Freshness -/

theorem wrapI64_spec (x : Int) :
    -2 ^ 63 ≤ wrapI64 x ∧ wrapI64 x < 2 ^ 63 ∧ ∃ k, wrapI64 x = x + 2 ^ 64 * k := by
  refine ⟨?_, ?_, -((x + 2 ^ 63) / 2 ^ 64), ?_⟩
  all_goals
    unfold wrapI64 Int.bmod
    dsimp only
    split
    · omega
    · omega

/-- What the drift check lets through. The second case is the one value whose `abs` overflows. -/
theorem fresh_cases {now ts drift : Int} (hnow : 0 ≤ now ∧ now ≤ 10 ^ 13)
    (hts : -2 ^ 63 ≤ ts ∧ ts < 2 ^ 63) (hd : 0 ≤ drift ∧ drift ≤ 300)
    (h : driftTooLarge now ts drift = false) :
    (now - drift ≤ ts ∧ ts ≤ now + drift) ∨ now - ts = 2 ^ 63 := by
  simp only [driftTooLarge, decide_eq_false_iff_not] at h
  obtain ⟨hlo, hhi, k, hk⟩ := wrapI64_spec (now - ts)
  obtain ⟨hlo', hhi', k', hk'⟩ := wrapI64_spec (wrapI64 (now - ts)).natAbs
  omega

/-- Two presentations of one timestamp pass the drift check within the window of one another. -/
theorem fresh_window {c c' ts drift : Int} (hc : OnCalendar c) (hc' : OnCalendar c')
    (hts : -2 ^ 63 ≤ ts ∧ ts < 2 ^ 63) (hd : 0 ≤ drift ∧ drift ≤ 300)
    (h : driftTooLarge (c / 1000) ts drift = false)
    (h' : driftTooLarge (c' / 1000) ts drift = false) : c' - c ≤ 2000 * drift + 999 := by
  have h1 := fresh_cases hc hts hd h
  have h2 := fresh_cases hc' hts hd h'
  obtain ⟨hlo, hhi⟩ := hc
  obtain ⟨hlo', hhi'⟩ := hc'
  omega

theorem parseI64_range {str : String} {ts : Int} (h : parseI64 str = some ts) :
    -2 ^ 63 ≤ ts ∧ ts < 2 ^ 63 := by
  have hin : ∀ {o : Option Nat} {f : Nat → Int}, (o.bind fun n => inI64 (f n)) = some ts →
      -2 ^ 63 ≤ ts ∧ ts < 2 ^ 63 := by
    intro o f ho
    cases o with
    | none => cases ho
    | some n =>
      simp only [Option.bind_some, inI64] at ho
      split at ho
      · next hr =>
        cases ho
        exact hr
      · cases ho
  unfold parseI64 at h
  split at h
  · cases h
  · cases h
  · cases h
  · exact hin h
  · exact hin h
  · exact hin h

/-! ## One action -/

section Action

variable {crypto : Crypto} {cfg : DynamicConfig} {t : Int} {req : Request} {r : Redis} {pc : Pc}
  {u : Uuid} {n : String} {ts : Int}

/-- The nonce has been claimed. -/
def Pc.past : Pc → Bool
  | .claimed _ => true
  | .keyed _ _ => true
  | .verified _ => true
  | .passed => true
  | _ => false

/-- The drift check at time `c` let the timestamp through. -/
def CheckedFresh (cfg : DynamicConfig) (ts c : Int) : Prop :=
  OnCalendar c ∧ driftTooLarge (c / 1000) ts cfg.signatureDriftSecs = false

/-- A signed request comes out of the drift check fresh, or it is refused. -/
theorem enter_signed (cfg : DynamicConfig) (t : Int) (r : Redis) (h : Signed req u n ts) :
    (∃ st, enter cfg t r req = .refused st) ∨
      ∃ l, enter cfg t r req = .fresh l ∧ l.user.sub = u ∧ l.nonce = n ∧
        driftTooLarge (t / 1000) ts cfg.signatureDriftSecs = false := by
  obtain ⟨au, hau, hsub⟩ := h.user
  obtain ⟨str, hstr, hparse⟩ := h.timestamp
  unfold enter
  rw [if_neg (by simp [h.checked]), hau]
  dsimp only
  rw [if_neg h.signature]
  cases hread : readHeaders cfg (t / 1000) au req with
  | error st => exact Or.inl ⟨st, rfl⟩
  | ok l =>
    refine Or.inr ⟨l, rfl, ?_⟩
    simp only [readHeaders, hstr, h.nonce, Header.toStr, bind, Except.bind, hparse] at hread
    cases hsig : req.signature with
    | absent => exact absurd hsig h.signature
    | binary => rw [hsig] at hread; cases hread
    | text sig =>
      rw [hsig] at hread
      dsimp only at hread
      split at hread
      · cases hread
      · next hdrift =>
        cases hread
        exact ⟨hsub, rfl, by simpa using hdrift⟩

/-- The only action on a nonce is a claim that finds it absent. -/
theorem advance_nonce (crypto : Crypto) (cfg : DynamicConfig) (t : Int) (req : Request) (r : Redis)
    (pc : Pc) (u : Uuid) (n : String) :
    (advance crypto cfg t req r pc).1 (.nonce u n) = r (.nonce u n) ∨
      (advance crypto cfg t req r pc).1 (.nonce u n)
        = some ⟨"1", some (t + cfg.signatureNonceTtlSecs * 1000)⟩ := by
  cases pc with
  | arrived => exact Or.inl rfl
  | fresh l =>
    simp only [advance, Store.setNx]
    cases r.get t (.nonce l.user.sub l.nonce) with
    | some _ => exact Or.inl rfl
    | none =>
      by_cases hk : RedisKey.nonce u n = .nonce l.user.sub l.nonce
      · exact Or.inr (by simp [Store.setEx, Store.put, hk])
      · exact Or.inl (Store.put_ne r hk _)
  | claimed l =>
    refine Or.inl ?_
    simp only [advance]
    split <;> rfl
  | keyed l jwk =>
    refine Or.inl ?_
    simp only [advance]
    split
    · rfl
    · split <;> rfl
  | verified l => exact Or.inl (Store.expire_ne r t (by simp) _)
  | passed => exact Or.inl rfl
  | refused st => exact Or.inl rfl

/-- Only the drift check makes a presentation fresh. -/
theorem fresh_advance {l : Locals} (h : (advance crypto cfg t req r pc).2 = .fresh l) :
    pc = .arrived := by
  cases pc with
  | arrived => rfl
  | fresh _ =>
    simp only [advance] at h
    split at h <;> cases h
  | claimed _ =>
    simp only [advance] at h
    split at h <;> cases h
  | keyed _ _ =>
    simp only [advance] at h
    split at h
    · cases h
    · split at h <;> cases h
  | verified _ => cases h
  | passed => cases h
  | refused _ => cases h

/-- How a presentation comes to be past the claim. -/
theorem past_advance (hsig : Signed req u n ts)
    (h : (advance crypto cfg t req r pc).2.past = true) :
    pc.past = true ∨ ∃ l, pc = .fresh l ∧ r.get t (.nonce l.user.sub l.nonce) = none ∧
      (advance crypto cfg t req r pc).1 (.nonce l.user.sub l.nonce)
        = some ⟨"1", some (t + cfg.signatureNonceTtlSecs * 1000)⟩ := by
  cases pc with
  | arrived =>
    rcases enter_signed cfg t r hsig with ⟨st, he⟩ | ⟨l, he, -⟩
    · simp [advance, he, Pc.past] at h
    · simp [advance, he, Pc.past] at h
  | fresh l =>
    refine Or.inr ⟨l, rfl, ?_⟩
    cases hget : r.get t (.nonce l.user.sub l.nonce) with
    | some v => simp [advance, Store.setNx, hget, Pc.past] at h
    | none => exact ⟨rfl, by simp [advance, Store.setNx, hget, Store.setEx]⟩
  | refused st => cases h
  | claimed _ => exact Or.inl rfl
  | keyed _ _ => exact Or.inl rfl
  | verified _ => exact Or.inl rfl
  | passed => exact Or.inl rfl

end Action

/-! ## The invariant -/

/-- The nonce of a claim made at or after `c` is stored, with its whole time to live. -/
def Remembers (cfg : DynamicConfig) (u : Uuid) (n : String) (r : Redis) (c : Int) : Prop :=
  ∃ v d, r (.nonce u n) = some ⟨v, some d⟩ ∧ c + cfg.signatureNonceTtlSecs * 1000 ≤ d

theorem Remembers.advance {cfg : DynamicConfig} {u : Uuid} {n : String} {r : Redis} {c t : Int}
    (h : Remembers cfg u n r c) (hct : c ≤ t) (crypto : Crypto) (req : Request) (pc : Pc) :
    Remembers cfg u n (Signature.advance crypto cfg t req r pc).1 c := by
  obtain ⟨v, d, hr, hd⟩ := h
  rcases advance_nonce crypto cfg t req r pc u n with he | he
  · exact ⟨v, d, he.trans hr, hd⟩
  · exact ⟨_, _, he, by omega⟩

theorem Remembers.present {cfg : DynamicConfig} {u : Uuid} {n : String} {r : Redis} {c t : Int}
    (h : Remembers cfg u n r c) (ht : t ≤ c + cfg.signatureNonceTtlSecs * 1000) :
    r.get t (.nonce u n) ≠ none := by
  obtain ⟨v, d, hr, hd⟩ := h
  rw [Store.get_of_le_deadline hr (by omega)]
  exact Option.some_ne_none v

/-- What holds, in every state, of the presentations of one signed request. -/
structure Guarded (cfg : DynamicConfig) (u : Uuid) (n : String) (ts : Int) (s : Server) : Prop where
  fresh : ∀ {i p l}, s.threads i = some p → Signed p.req u n ts → p.pc = .fresh l →
    l.user.sub = u ∧ l.nonce = n ∧ CheckedFresh cfg ts p.checkedAt ∧ p.checkedAt ≤ s.clock
  held : ∀ {i p}, s.threads i = some p → Signed p.req u n ts → p.pc.past = true →
    CheckedFresh cfg ts p.checkedAt ∧ p.checkedAt ≤ s.clock ∧
      Remembers cfg u n s.redis p.checkedAt
  unique : ∀ {i j p q}, s.threads i = some p → s.threads j = some q → Signed p.req u n ts →
    Signed q.req u n ts → p.pc.past = true → q.pc.past = true → i = j

/-- A presentation of the signed request that has claimed the nonce. -/
def HasClaimed (u : Uuid) (n : String) (ts : Int) (p : Presentation) : Prop :=
  Signed p.req u n ts ∧ p.pc.past = true

section Invariant

variable {crypto : Crypto} {cfg : DynamicConfig} {delay : Int} {u : Uuid} {n : String} {ts : Int}
  {s s' : Server}

theorem guarded_init (h : ∀ i, s.threads i = none) : Guarded cfg u n ts s where
  fresh := by intro i p l hi; rw [h i] at hi; cases hi
  held := by intro i p hi; rw [h i] at hi; cases hi
  unique := by intro i j p q hi; rw [h i] at hi; cases hi

theorem Guarded.claimed_unique (h : Guarded cfg u n ts s) {i j : Nat} {p q : Presentation}
    (hi : s.threads i = some p) (hj : s.threads j = some q) (hp : HasClaimed u n ts p)
    (hq : HasClaimed u n ts q) : i = j :=
  h.unique hi hj hp.1 hq.1 hp.2 hq.2

theorem guarded_arrive {i : Nat} {req : Request} (h : Guarded cfg u n ts s) :
    Guarded cfg u n ts { s with threads := s.threads.set i ⟨req, .arrived, s.clock⟩ } where
  fresh := by
    intro j p l hj hsig hpc
    rcases Threads.set_eq_some hj with ⟨-, rfl⟩ | ⟨-, hj⟩
    · cases hpc
    · exact h.fresh hj hsig hpc
  held := by
    intro j p hj hsig hpast
    rcases Threads.set_eq_some hj with ⟨-, rfl⟩ | ⟨-, hj⟩
    · cases hpast
    · exact h.held hj hsig hpast
  unique := by
    intro j k p q hj hk hp hq hpp hpq
    exact Threads.set_unique (P := HasClaimed u n ts) h.claimed_unique (nofun ∘ And.right) hj hk
      ⟨hp, hpp⟩ ⟨hq, hpq⟩

theorem guarded_other {t : Int} {redis : Redis} (h : Guarded cfg u n ts s) (later : s.clock ≤ t)
    (frame : ∀ u n, redis (.nonce u n) = s.redis (.nonce u n)) :
    Guarded cfg u n ts { s with redis := redis, clock := t } where
  fresh := by
    intro i p l hi hsig hpc
    obtain ⟨hu, hn, hc, hle⟩ := h.fresh hi hsig hpc
    exact ⟨hu, hn, hc, Int.le_trans hle later⟩
  held := by
    intro i p hi hsig hpast
    obtain ⟨hc, hle, v, d, hr, hd⟩ := h.held hi hsig hpast
    exact ⟨hc, Int.le_trans hle later, v, d, (frame u n).trans hr, hd⟩
  unique := h.unique

/-- Under the bound, a claim that succeeds is the first of its request. -/
theorem no_earlier_claim (hdrift : 0 ≤ cfg.signatureDriftSecs ∧ cfg.signatureDriftSecs ≤ 300)
    (hbound : 2000 * cfg.signatureDriftSecs + 999 + delay ≤ 1000 * cfg.signatureNonceTtlSecs)
    (h : Guarded cfg u n ts s) {i j : Nat} {p q : Presentation} {l : Locals} {t : Int}
    (hi : s.threads i = some p) (hp : Signed p.req u n ts) (hpc : p.pc = .fresh l)
    (hprompt : t ≤ p.checkedAt + delay) (habsent : s.redis.get t (.nonce u n) = none)
    (hj : s.threads j = some q) (hq : Signed q.req u n ts) : q.pc.past = false := by
  cases hpast : q.pc.past with
  | false => rfl
  | true =>
    exfalso
    obtain ⟨-, -, ⟨hcp, hfp⟩, -⟩ := h.fresh hi hp hpc
    obtain ⟨⟨hcq, hfq⟩, -, hrem⟩ := h.held hj hq hpast
    obtain ⟨str, -, hparse⟩ := hp.timestamp
    have hwin := fresh_window hcq hcp (parseI64_range hparse) hdrift hfq hfp
    -- the claim comes within the lifetime of the nonce that `q` left
    exact hrem.present (by omega) habsent

/-- An action of a presentation keeps the invariant. -/
theorem guarded_advance (hdrift : 0 ≤ cfg.signatureDriftSecs ∧ cfg.signatureDriftSecs ≤ 300)
    (hbound : 2000 * cfg.signatureDriftSecs + 999 + delay ≤ 1000 * cfg.signatureNonceTtlSecs)
    (h : Guarded cfg u n ts s) {i : Nat} {t : Int} {p : Presentation} (hi : s.threads i = some p)
    (later : s.clock ≤ t) (calendar : OnCalendar t)
    (prompt : ∀ l, p.pc = .fresh l → t ≤ p.checkedAt + delay) :
    Guarded cfg u n ts ⟨(advance crypto cfg t p.req s.redis p.pc).1, t,
      s.threads.set i (p.next crypto cfg t s.redis)⟩ := by
  -- the presentation itself: fresh only out of `arrived`, past only out of past or of a claim
  have hself : Signed p.req u n ts → (p.next crypto cfg t s.redis).pc.past = true →
      (p.pc.past = true ∧ (p.next crypto cfg t s.redis).checkedAt = p.checkedAt) ∨
      ∃ l, p.pc = .fresh l ∧ s.redis.get t (.nonce u n) = none ∧
        (p.next crypto cfg t s.redis).checkedAt = p.checkedAt ∧
        (advance crypto cfg t p.req s.redis p.pc).1 (.nonce u n)
          = some ⟨"1", some (t + cfg.signatureNonceTtlSecs * 1000)⟩ := by
    intro hp hpast
    rcases past_advance hp hpast with hold | ⟨l, hl, habsent, hwrite⟩
    · refine Or.inl ⟨hold, if_neg ?_⟩
      intro ha
      rw [ha] at hold
      cases hold
    · obtain ⟨hu, hn, -, -⟩ := h.fresh hi hp hl
      rw [hu, hn] at habsent hwrite
      exact Or.inr ⟨l, hl, habsent, if_neg (by simp [hl]), hwrite⟩
  have hkeep : ∀ {j q}, s.threads j = some q → Signed q.req u n ts → q.pc.past = true →
      CheckedFresh cfg ts q.checkedAt ∧ q.checkedAt ≤ t ∧
        Remembers cfg u n (advance crypto cfg t p.req s.redis p.pc).1 q.checkedAt := by
    intro j q hj hq hpast
    obtain ⟨hc, hle, hrem⟩ := h.held hj hq hpast
    have hle' : q.checkedAt ≤ t := Int.le_trans hle later
    exact ⟨hc, hle', hrem.advance hle' crypto p.req p.pc⟩
  refine ⟨?_, ?_, ?_⟩
  · intro j q l hj hq hpc
    rcases Threads.set_eq_some hj with ⟨-, rfl⟩ | ⟨-, hj⟩
    · have hp : p.pc = .arrived := fresh_advance hpc
      have hq : Signed p.req u n ts := hq
      have hpc : enter cfg t s.redis p.req = .fresh l := by
        simpa [Presentation.next, hp, advance] using hpc
      have hchk : (p.next crypto cfg t s.redis).checkedAt = t := by simp [Presentation.next, hp]
      rcases enter_signed cfg t s.redis hq with ⟨st, he⟩ | ⟨l', he, hu, hn, hf⟩
      · rw [he] at hpc
        cases hpc
      · rw [he] at hpc
        cases hpc
        rw [hchk]
        exact ⟨hu, hn, ⟨calendar, hf⟩, Int.le_refl _⟩
    · obtain ⟨hu, hn, hc, hle⟩ := h.fresh hj hq hpc
      exact ⟨hu, hn, hc, Int.le_trans hle later⟩
  · intro j q hj hq hpast
    rcases Threads.set_eq_some hj with ⟨-, rfl⟩ | ⟨-, hj⟩
    · rcases hself hq hpast with ⟨hold, hchk⟩ | ⟨l, hl, -, hchk, hwrite⟩
      · rw [hchk]
        exact hkeep hi hq hold
      · obtain ⟨-, -, hc, hle⟩ := h.fresh hi hq hl
        have hle' : p.checkedAt ≤ t := Int.le_trans hle later
        rw [hchk]
        exact ⟨hc, hle', _, _, hwrite, by omega⟩
    · exact hkeep hj hq hpast
  · intro j k q q' hj hk hq hq' hpj hpk
    refine Threads.set_unique (P := HasClaimed u n ts) h.claimed_unique ?_ hj hk ⟨hq, hpj⟩
      ⟨hq', hpk⟩
    rintro ⟨hp, hpast⟩
    rcases hself hp hpast with ⟨hold, -⟩ | ⟨l, hl, habsent, -, -⟩
    · exact Or.inl ⟨p, hi, hp, hold⟩
    · refine Or.inr ?_
      rintro j q hj ⟨hq, hpast⟩
      have hnot := no_earlier_claim hdrift hbound h hi hp hl (prompt l hl) habsent hj hq
      rw [hpast] at hnot
      cases hnot

theorem guarded_step (hdrift : 0 ≤ cfg.signatureDriftSecs ∧ cfg.signatureDriftSecs ≤ 300)
    (hbound : 2000 * cfg.signatureDriftSecs + 999 + delay ≤ 1000 * cfg.signatureNonceTtlSecs)
    {e : Event} (h : Guarded cfg u n ts s) (hstep : Step crypto cfg delay s e s') :
    Guarded cfg u n ts s' := by
  cases hstep with
  | arrive _ => exact guarded_arrive h
  | advance hi later calendar prompt =>
    exact guarded_advance hdrift hbound h hi later calendar prompt
  | other later frame => exact guarded_other h later frame

end Invariant

/-! ## A presentation that goes through -/

section Passing

variable {crypto : Crypto} {cfg : DynamicConfig} {delay : Int} {s : Server} {i : Nat}

theorem step_thread {r r' : Redis} {t₀ t : Int} {p : Presentation} {pc' : Pc} (later : t₀ ≤ t)
    (calendar : OnCalendar t) (prompt : ∀ l, p.pc = .fresh l → t ≤ p.checkedAt + delay)
    (hadv : advance crypto cfg t p.req r p.pc = (r', pc')) :
    Step crypto cfg delay ⟨r, t₀, s.threads.set i p⟩ (.advance i t)
      ⟨r', t, s.threads.set i ⟨p.req, pc', if p.pc = .arrived then t else p.checkedAt⟩⟩ := by
  have hi : (⟨r, t₀, s.threads.set i p⟩ : Server).threads i = some p := Threads.set_self _ _ _
  have hstep : Step crypto cfg delay _ _ _ := Step.advance hi later calendar prompt
  rw [Threads.set_set, Presentation.next, hadv] at hstep
  exact hstep

/-- A presentation checked at `c` and handled at `t` goes through when its nonce is absent. -/
theorem presentation_passes {req : Request} {l : Locals} {c t : Int} {jwk ip : String}
    (free : s.threads i = none) (hc : s.clock ≤ c) (hct : c ≤ t) (hprompt : t ≤ c + delay)
    (hcal : OnCalendar c) (hcal' : OnCalendar t) (hfresh : enter cfg c s.redis req = .fresh l)
    (habsent : s.redis.get t (.nonce l.user.sub l.nonce) = none)
    (hkey : s.redis.get t (.signingPubkey l.user.sub) = some jwk)
    (hip : s.redis.get t (.signingKeyIp l.user.sub) = some ip)
    (hbind : checkBinding (some ip) (l.user.ip.getD "") = .ok ())
    (hsig : checkSignature crypto req l jwk = .ok ()) :
    ∃ es, Steps (Step crypto cfg delay) s es
      ⟨(s.redis.setEx t (.nonce l.user.sub l.nonce) "1" (cfg.signatureNonceTtlSecs * 1000)).expire t
          (.signingPubkey l.user.sub) (cfg.jwtRefreshTtlDays * 86400 * 1000), t,
        s.threads.set i ⟨req, .passed, c⟩⟩ := by
  let r := s.redis.setEx t (.nonce l.user.sub l.nonce) "1" (cfg.signatureNonceTtlSecs * 1000)
  have hkey' : r.get t (.signingPubkey l.user.sub) = some jwk := by
    rw [Store.get_setEx_ne _ _ _ (by simp), hkey]
  have hip' : r.get t (.signingKeyIp l.user.sub) = some ip := by
    rw [Store.get_setEx_ne _ _ _ (by simp), hip]
  have hcheck : advance crypto cfg c req s.redis .arrived = (s.redis, .fresh l) := by
    simp [advance, hfresh]
  have hclaim : advance crypto cfg t req s.redis (.fresh l) = (r, .claimed l) := by
    simp [advance, Store.setNx_of_none habsent, r]
  have hlookup : advance crypto cfg t req r (.claimed l) = (r, .keyed l jwk) := by
    simp [advance, hkey']
  have hverify : advance crypto cfg t req r (.keyed l jwk) = (r, .verified l) := by
    simp [advance, hip', hbind, hsig]
  have h0 : Step crypto cfg delay s (.arrive i req)
      ⟨s.redis, s.clock, s.threads.set i ⟨req, .arrived, s.clock⟩⟩ := .arrive free
  have h1 : Step crypto cfg delay ⟨s.redis, s.clock, s.threads.set i ⟨req, .arrived, s.clock⟩⟩
      (.advance i c) ⟨s.redis, c, s.threads.set i ⟨req, .fresh l, c⟩⟩ :=
    step_thread hc hcal (fun _ h => by cases h) hcheck
  have h2 : Step crypto cfg delay ⟨s.redis, c, s.threads.set i ⟨req, .fresh l, c⟩⟩ (.advance i t)
      ⟨r, t, s.threads.set i ⟨req, .claimed l, c⟩⟩ :=
    step_thread hct hcal' (fun _ _ => hprompt) hclaim
  have h3 : Step crypto cfg delay ⟨r, t, s.threads.set i ⟨req, .claimed l, c⟩⟩ (.advance i t)
      ⟨r, t, s.threads.set i ⟨req, .keyed l jwk, c⟩⟩ :=
    step_thread (Int.le_refl _) hcal' (fun _ h => by cases h) hlookup
  have h4 : Step crypto cfg delay ⟨r, t, s.threads.set i ⟨req, .keyed l jwk, c⟩⟩ (.advance i t)
      ⟨r, t, s.threads.set i ⟨req, .verified l, c⟩⟩ :=
    step_thread (Int.le_refl _) hcal' (fun _ h => by cases h) hverify
  have h5 : Step crypto cfg delay ⟨r, t, s.threads.set i ⟨req, .verified l, c⟩⟩ (.advance i t)
      ⟨r.expire t (.signingPubkey l.user.sub) (cfg.jwtRefreshTtlDays * 86400 * 1000), t,
        s.threads.set i ⟨req, .passed, c⟩⟩ :=
    step_thread (Int.le_refl _) hcal' (fun _ h => by cases h) rfl
  exact ⟨_, .cons h0 (.cons h1 (.cons h2 (.cons h3 (.cons h4 (.single h5)))))⟩

end Passing

/-! ## A known signature -/

/-- The public key of the test vectors of the source. -/
def katJwk : String :=
  "\x7b\"kty\":\"EC\",\"crv\":\"P-256\",\"x\":\"AhfmF_C2RDkoJ4-WmZ5pojpPLBUr321s32bluAKC1O0\","
    ++ "\"y\":\"GUp968uXcS0t2jyoWqh2Wlb0X8dYWZZS8ol8ZTBuV5Q\"\x7d"

/-- SHA-256 of no bytes, in hex. -/
def katBodyHash : String := "e3b0c44298fc1c149afbf4c8996fb92427ae41e4649b934ca495991b7852b855"

def katNonce : String := "6f1d3c1e-0000-4000-8000-000000000000"

/-- The low-S signature of the test vectors. -/
def katSig : List UInt8 :=
  [202, 97, 201, 165, 27, 113, 104, 247, 152, 169, 140, 117, 92, 130, 225, 25, 92, 183, 153, 188,
   209, 248, 129, 143, 38, 35, 84, 62, 133, 115, 151, 139, 124, 108, 116, 206, 164, 182, 226,
   20, 249, 18, 169, 71, 69, 230, 78, 175, 182, 252, 143, 231, 32, 126, 201, 16, 59, 52, 139,
   235, 170, 211, 164, 75]

def katSigB64 : String :=
  "ymHJpRtxaPeYqYx1XILhGVy3mbzR-IGPJiNUPoVzl4t8bHTOpLbiFPkSqUdF5k6vtvyP5yB-yRA7NIvrqtOkSw"

/-- The three functions on the test vector; elsewhere they refuse. -/
def katCrypto : Crypto where
  sha256Hex body := if body = [] then katBodyHash else ""
  base64Url s := if s = katSigB64 then some katSig else none
  verifyP256Jwk key msg sig :=
    if key = katJwk ∧ sig = katSig ∧
        msg = "POST\n/api/admin/users\n1767225600\n" ++ katNonce ++ "\n" ++ katBodyHash then .ok ()
    else .error .mismatch

def katUser : AuthUser := ⟨1, 1767225000, some "10.0.0.5"⟩

def katRequest : Request where
  method := "POST"
  path := "/api/admin/users"
  pathAndQuery := some "/api/admin/users"
  apiKeyAuthenticated := false
  authUser := some katUser
  timestamp := .text "1767225600"
  nonce := .text katNonce
  signature := .text ("ecdsa-p256:" ++ katSigB64)
  body := []

def katLocals : Locals := ⟨katUser, "1767225600", katNonce, "ecdsa-p256:" ++ katSigB64⟩

theorem kat_signed : Signed katRequest 1 katNonce 1767225600 where
  checked := by decide
  signature := by decide
  user := ⟨katUser, rfl, rfl⟩
  timestamp := ⟨"1767225600", rfl, by decide⟩
  nonce := rfl

theorem kat_signature : checkSignature katCrypto katRequest katLocals katJwk = .ok () := by
  decide +kernel

/-! ## Main result -/

theorem enter_of_readHeaders {cfg : DynamicConfig} {c : Int} {r : Redis} {req : Request}
    {au : AuthUser} {l : Locals} (hex : req.exempt = false) (hau : req.authUser = some au)
    (hsig : req.signature ≠ .absent) (hread : readHeaders cfg (c / 1000) au req = .ok l) :
    enter cfg c r req = .fresh l := by
  unfold enter
  rw [if_neg (by simp [hex]), hau]
  dsimp only
  rw [if_neg hsig, hread]

theorem readHeaders_ok {cfg : DynamicConfig} {now ts : Int} {au : AuthUser} {req : Request}
    {timestampStr n sig : String} (ht : req.timestamp = .text timestampStr)
    (hn : req.nonce = .text n) (hs : req.signature = .text sig)
    (hparse : parseI64 timestampStr = some ts)
    (h : driftTooLarge now ts cfg.signatureDriftSecs = false) :
    readHeaders cfg now au req = .ok ⟨au, timestampStr, n, sig⟩ := by
  simp [readHeaders, ht, hn, hs, Header.toStr, bind, Except.bind, hparse, h]

/-- The test request at a time when its timestamp is fresh. -/
theorem enter_kat {cfg : DynamicConfig} {c : Int} (r : Redis)
    (h : driftTooLarge (c / 1000) 1767225600 cfg.signatureDriftSecs = false) :
    enter cfg c r katRequest = .fresh katLocals := by
  have hparse : parseI64 "1767225600" = some 1767225600 := by decide
  exact enter_of_readHeaders kat_signed.checked rfl kat_signed.signature
    (readHeaders_ok rfl rfl rfl hparse h)

theorem fresh_of_near {now ts drift : Int} (hd : 0 ≤ drift ∧ drift ≤ 300)
    (h : now - drift ≤ ts ∧ ts ≤ now + drift) : driftTooLarge now ts drift = false := by
  simp only [driftTooLarge, decide_eq_false_iff_not]
  obtain ⟨hlo, hhi, k, hk⟩ := wrapI64_spec (now - ts)
  obtain ⟨hlo', hhi', k', hk'⟩ := wrapI64_spec (wrapI64 (now - ts)).natAbs
  omega

/-- A Redis with the key and the address of the test user, and the given nonces. -/
def katRedis (nonces : Redis) : Redis
  | .signingPubkey _ => some ⟨katJwk, none⟩
  | .signingKeyIp _ => some ⟨"10.0.0.5", none⟩
  | .nonce u n => nonces (.nonce u n)

/-- The test request goes through whenever its timestamp is fresh and its nonce is absent. -/
theorem kat_passes {cfg : DynamicConfig} {delay c t : Int} {s : Server} {nonces : Redis} (i : Nat)
    (hredis : s.redis = katRedis nonces) (free : s.threads i = none) (hc : s.clock ≤ c)
    (hct : c ≤ t) (hprompt : t ≤ c + delay) (hcal : OnCalendar c) (hcal' : OnCalendar t)
    (hfresh : driftTooLarge (c / 1000) 1767225600 cfg.signatureDriftSecs = false)
    (habsent : nonces.get t (.nonce 1 katNonce) = none) :
    ∃ es s', Steps (Step katCrypto cfg delay) s es s' ∧ s'.clock = t ∧
      s'.threads = s.threads.set i ⟨katRequest, .passed, c⟩ ∧
      s'.redis (.nonce 1 katNonce) = some ⟨"1", some (t + cfg.signatureNonceTtlSecs * 1000)⟩ := by
  have habsent' : s.redis.get t (.nonce katLocals.user.sub katLocals.nonce) = none := by
    rw [hredis]
    exact habsent
  have hkey : s.redis.get t (.signingPubkey katLocals.user.sub) = some katJwk := by
    rw [hredis]
    rfl
  have hip : s.redis.get t (.signingKeyIp katLocals.user.sub) = some "10.0.0.5" := by
    rw [hredis]
    rfl
  obtain ⟨es, hrun⟩ := presentation_passes free hc hct hprompt hcal hcal'
    (enter_kat s.redis hfresh) habsent' hkey hip (by decide) kat_signature
  refine ⟨es, _, hrun, rfl, rfl, ?_⟩
  exact (Store.expire_ne _ t (by simp) _).trans (Store.put_self s.redis _ _)

/--
A nonce that is forgotten before its timestamp goes stale is claimed twice: first as early as the
drift check allows, then as late as it allows.
-/
theorem replay_passes {cfg : DynamicConfig} {delay : Int}
    (hdrift : 0 ≤ cfg.signatureDriftSecs ∧ cfg.signatureDriftSecs ≤ 300)
    (httl : 0 ≤ cfg.signatureNonceTtlSecs ∧ cfg.signatureNonceTtlSecs ≤ 3600) (hdelay : 0 ≤ delay)
    (h : 1000 * cfg.signatureNonceTtlSecs < 2000 * cfg.signatureDriftSecs + 999 + delay) :
    ¬ AtMostOnce cfg delay := by
  intro hone
  -- the first presentation comes `drift` early, the second `drift` and 999 ms late
  obtain ⟨c₁, hc₁⟩ : ∃ c : Int, c = (1767225600 - cfg.signatureDriftSecs) * 1000 := ⟨_, rfl⟩
  obtain ⟨c₂, hc₂⟩ : ∃ c : Int, c = (1767225600 + cfg.signatureDriftSecs) * 1000 + 999 := ⟨_, rfl⟩
  obtain ⟨t₂, ht₂⟩ : ∃ t : Int, t = max c₂ (c₁ + cfg.signatureNonceTtlSecs * 1000 + 1) := ⟨_, rfl⟩
  have hf₁ : driftTooLarge (c₁ / 1000) 1767225600 cfg.signatureDriftSecs = false :=
    fresh_of_near hdrift (by omega)
  have hf₂ : driftTooLarge (c₂ / 1000) 1767225600 cfg.signatureDriftSecs = false :=
    fresh_of_near hdrift (by omega)
  have hcal₁ : OnCalendar c₁ := by unfold OnCalendar; omega
  have hcal₂ : OnCalendar c₂ := by unfold OnCalendar; omega
  have hcal₃ : OnCalendar t₂ := by unfold OnCalendar; omega
  let s₀ : Server := ⟨katRedis Store.empty, 0, Threads.none⟩
  have hclock : s₀.clock ≤ c₁ := by show (0 : Int) ≤ c₁; omega
  have hprompt₁ : c₁ ≤ c₁ + delay := by omega
  have hprompt₂ : t₂ ≤ c₂ + delay := by omega
  obtain ⟨es₁, s₁, hrun₁, hclock₁, hth₁, hnonce₁⟩ := kat_passes 0 (s := s₀) rfl rfl hclock
    (Int.le_refl c₁) hprompt₁ hcal₁ hcal₁ hf₁ rfl
  -- the user registers the key anew, so that it is there for the second presentation
  have hother : Step katCrypto cfg delay s₁ (.other c₁ (katRedis s₁.redis))
      { s₁ with redis := katRedis s₁.redis, clock := c₁ } :=
    .other (by omega) (fun _ _ => rfl)
  have hgone : s₁.redis.get t₂ (.nonce 1 katNonce) = none :=
    Store.get_of_deadline_lt hnonce₁ (by omega)
  obtain ⟨es₂, s₂, hrun₂, -, hth₂, -⟩ := kat_passes 1
    (s := { s₁ with redis := katRedis s₁.redis, clock := c₁ }) rfl
    (by simp [hth₁, Threads.set, Threads.none, s₀]) (show c₁ ≤ c₂ by omega)
    (show c₂ ≤ t₂ by omega) hprompt₂ hcal₂
    hcal₃ hf₂ hgone
  have hrun := hrun₁.append (.cons hother hrun₂)
  have h0 : s₂.threads 0 = some ⟨katRequest, .passed, c₁⟩ := by simp [hth₂, hth₁, Threads.set]
  have h1 : s₂.threads 1 = some ⟨katRequest, .passed, c₂⟩ := by simp [hth₂, Threads.set]
  have := hone katCrypto s₀ s₂ _ (fun _ => rfl) hrun 1 katNonce 1767225600 0 1 _ _ h0 h1 kat_signed
    kat_signed rfl rfl
  cases this

/-- The configuration with the two settings, everything else at its default. -/
def signatureConfig (drift ttl : Int) : DynamicConfig
  | "security.signature_drift_secs" => some drift
  | "security.signature_nonce_ttl_secs" => some ttl
  | _ => none

/--
For every pair of settings that `update_settings` accepts: no run lets a signed request through
twice if and only if the nonce outlives the window of the drift check and the delay.
-/
theorem atMostOnce_iff {cfg : DynamicConfig} {drift ttl delay : Int}
    (hdrift : cfg "security.signature_drift_secs" = some drift)
    (httl : cfg "security.signature_nonce_ttl_secs" = some ttl)
    (hvd : validateSetting "security.signature_drift_secs" (some drift) = .ok ())
    (hvt : validateSetting "security.signature_nonce_ttl_secs" (some ttl) = .ok ())
    (hdelay : 0 ≤ delay) : AtMostOnce cfg delay ↔ 2000 * drift + 999 + delay ≤ 1000 * ttl := by
  rw [validateSetting_drift] at hvd
  rw [validateSetting_nonceTtl] at hvt
  have hd : cfg.signatureDriftSecs = drift := by
    simp only [DynamicConfig.signatureDriftSecs, hdrift, Option.getD_some, signatureDriftMaxSecs]
    omega
  have ht : cfg.signatureNonceTtlSecs = ttl := by
    simp only [DynamicConfig.signatureNonceTtlSecs, httl, Option.getD_some]
  constructor
  · intro hone
    by_contra hshort
    exact replay_passes (by omega) (by omega) hdelay (by omega) hone
  · intro hbound crypto s₀ s es hinit hrun u n ts i j p q hi hj hp hq hpp hpq
    have hinv : Guarded cfg u n ts s :=
      hrun.invariant (fun _ _ _ h hs => guarded_step (by omega) (by omega) h hs)
        (guarded_init hinit)
    exact hinv.unique hi hj hp hq (by rw [hpp]; rfl) (by rw [hpq]; rfl)

/-- With a drift of 30 s and nonces kept for two minutes, a claim may be a minute late. -/
theorem atMostOnce_thirty_seconds : AtMostOnce (signatureConfig 30 121) 60000 := by
  have hdrift : signatureConfig 30 121 "security.signature_drift_secs" = some 30 := rfl
  have httl : signatureConfig 30 121 "security.signature_nonce_ttl_secs" = some 121 := rfl
  rw [atMostOnce_iff hdrift httl (by decide) (by decide) (by decide)]
  decide

/--
At the defaults, 300 s of drift and nonces kept for 600 s, the claim fails even when no
presentation is delayed: a request accepted 300 s before its timestamp is accepted again 300.999 s
after it.
-/
theorem replay_at_defaults :
    ¬ ∀ (cfg : DynamicConfig) (drift ttl : Int),
      cfg "security.signature_drift_secs" = some drift →
      cfg "security.signature_nonce_ttl_secs" = some ttl →
      validateSetting "security.signature_drift_secs" (some drift) = .ok () →
      validateSetting "security.signature_nonce_ttl_secs" (some ttl) = .ok () →
      AtMostOnce cfg 0 := by
  intro h
  have hone := h (signatureConfig 300 600) 300 600 rfl rfl (by decide) (by decide)
  exact replay_passes (by decide) (by decide) (by decide) (by decide) hone

end ThinkWatch.Signature
