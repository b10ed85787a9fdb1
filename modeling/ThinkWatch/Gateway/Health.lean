import ThinkWatch.Config.Settings
import ThinkWatch.Lib.Expiring
import ThinkWatch.Lib.Run
import ThinkWatch.Lib.SortedSet
import Mathlib.Data.Rat.Floor
import Mathlib.Logic.Function.Basic

/-!
# Route health

`crates/gateway/src/health.rs`: the scripts `LUA_RECORD` and `LUA_CAS` on the three keys of one
route, and `HealthTracker::record` of every replica, each of which numbers its samples from
zero. A call reads the clock and takes its number, and its script runs later; the scripts of
the replicas interleave. The averages are exact rationals in place of doubles. The transition
of the breaker is a third-party state machine: a compare-and-set may come with any values.
-/

namespace ThinkWatch.Gateway

open Lib

/-! ## Settings -/

/-- The two settings of `CircuitBreakerConfig` that `LUA_RECORD` depends on. -/
structure CircuitBreakerConfig where
  windowSecs : Int
  openSecs : Int
deriving DecidableEq, Repr

namespace CircuitBreakerConfig

def load (dc : Config.DynamicConfig) : CircuitBreakerConfig := ⟨dc.cbWindowSecs, dc.cbOpenSecs⟩

/-- How long the samples and the breaker are kept after the last write. -/
def ttlSecs (cfg : CircuitBreakerConfig) : Int := max (cfg.openSecs * 4) 60

/-- The window in milliseconds. -/
def windowMs (cfg : CircuitBreakerConfig) : Int := cfg.windowSecs * 1000

theorem windowMs_load_pos (dc : Config.DynamicConfig) : 0 < (load dc).windowMs := by
  have h : 5 ≤ dc.cbWindowSecs := le_max_left _ _
  unfold windowMs load
  simp only
  omega

end CircuitBreakerConfig

def sampleCap : Nat := 1000

/-! ## The keys of a route -/

/--
A member of the samples, `"<seq>:<latency_ms>:<is_error>"`. The three parts are digits, so the
text is read back as them.
-/
structure Member where
  seq : Nat
  latencyMs : Nat
  isError : Bool
deriving DecidableEq, Repr

def Member.text (m : Member) : String :=
  toString m.seq ++ ":" ++ toString m.latencyMs ++ ":" ++ (if m.isError then "1" else "0")

/-- Members of one score stand in the order of their texts. -/
def Member.before (a b : Member) : Bool := decide (a.text < b.text)

structure RouteKeys where
  samples : Option (Entry (ZSet Member))
  state : Option (Entry String)
  lifetimeRequests : Nat

namespace RouteKeys

def samplesAt (r : RouteKeys) (t : Int) : ZSet Member :=
  match r.samples with
  | some e => if e.live t then e.value else .empty
  | none => .empty

/-- `redis.call('GET', state_key) or ''`. -/
def stateAt (r : RouteKeys) (t : Int) : String :=
  match r.state with
  | some e => if e.live t then e.value else ""
  | none => ""

end RouteKeys

/-! ## The scripts -/

/-- What `LUA_RECORD` returns. -/
structure Reply where
  state : String
  total : Nat
  errs : Nat
  ewmaX100 : Int
  lifetime : Nat
deriving DecidableEq, Repr

/-- The average over the latencies, the newest with a weight of one fifth. -/
def ewma : List (Member × Int) → ℚ
  | [] => 0
  | e :: l => l.foldl (fun acc f => 1 / 5 * f.1.latencyMs + (1 - 1 / 5) * acc) e.1.latencyMs

/-- The samples after the window and the cap, before the insertion. -/
def trimmed (r : RouteKeys) (t windowStart : Int) (cap : Nat) : ZSet Member :=
  let kept := (r.samplesAt t).remRangeByScore windowStart
  kept.remRangeByRank (kept.card - cap)

/-- `LUA_RECORD` at the time `t` of the server. -/
def luaRecord (r : RouteKeys) (t nowMs windowStart : Int) (m : Member) (ttl : Int) (cap : Nat) :
    RouteKeys × Reply :=
  let samples := (trimmed r t windowStart cap).add Member.before m nowMs
  let members := samples.rangeByScore windowStart
  ({ r with
      samples := some ⟨samples, some (t + ttl * 1000)⟩
      lifetimeRequests := r.lifetimeRequests + 1 },
    { state := r.stateAt t
      total := members.length
      errs := members.countP fun e => e.1.isError
      ewmaX100 := ⌊ewma members * 100⌋
      lifetime := r.lifetimeRequests + 1 })

section

variable (r : RouteKeys) (t nowMs windowStart : Int) (m : Member) (ttl : Int) (cap : Nat)

theorem luaRecord_total :
    (luaRecord r t nowMs windowStart m ttl cap).2.total =
      (((trimmed r t windowStart cap).add Member.before m nowMs).rangeByScore
        windowStart).length := rfl

theorem luaRecord_errs :
    (luaRecord r t nowMs windowStart m ttl cap).2.errs =
      (((trimmed r t windowStart cap).add Member.before m nowMs).rangeByScore
        windowStart).countP fun e => e.1.isError := rfl

end

/-- `LUA_CAS`: whether it wrote. -/
def luaCas (r : RouteKeys) (t : Int) (expected next : String) (ttl : Int) (recovered : Bool) :
    RouteKeys × Bool :=
  if r.stateAt t ≠ expected then (r, false)
  else
    let r := { r with state := if next = "" then none else some ⟨next, some (t + ttl * 1000)⟩ }
    (if recovered then { r with samples := none } else r, true)

/-! ## The replicas -/

/-- A call of `HealthTracker::record` whose script has not run: what it took at its start. -/
structure Call where
  member : Member
  nowMs : Int
deriving DecidableEq, Repr

/--
All replicas and the keys of one route. `completed` are the completions whose scripts have run
since the last recovery wipe.
-/
structure Fleet (ρ : Type*) where
  clock : Int
  sampleSeq : ρ → Nat
  begun : List Call
  keys : RouteKeys
  completed : List (Member × Int)

inductive HealthAction (ρ : Type*) where
  | tick (ms : Nat)
  | begin (replica : ρ) (latencyMs : Nat) (isError : Bool)
  | script (call : Call) (reply : Reply)
  | cas (expected next : String) (recovered written : Bool)

variable {ρ : Type*} {cfg : CircuitBreakerConfig} {s s' : Fleet ρ}

/-- Every process starts its numbers at zero. -/
def Fleet.start (ρ : Type*) (clock : Int) : Fleet ρ :=
  ⟨clock, fun _ => 0, [], ⟨none, none, 0⟩, []⟩

/-- The script of a call. -/
def Fleet.record (s : Fleet ρ) (cfg : CircuitBreakerConfig) (c : Call) : RouteKeys × Reply :=
  luaRecord s.keys s.clock c.nowMs (c.nowMs - cfg.windowMs) c.member cfg.ttlSecs sampleCap

/-- The samples after the script. -/
def Fleet.recorded (s : Fleet ρ) (cfg : CircuitBreakerConfig) (c : Call) : ZSet Member :=
  (trimmed s.keys s.clock (c.nowMs - cfg.windowMs) sampleCap).add Member.before c.member c.nowMs

inductive HealthStep [DecidableEq ρ] (cfg : CircuitBreakerConfig) :
    Fleet ρ → HealthAction ρ → Fleet ρ → Prop where
  | tick (s : Fleet ρ) (ms : Nat) :
      HealthStep cfg s (.tick ms) { s with clock := s.clock + ms }
  | begin (s : Fleet ρ) (p : ρ) (latencyMs : Nat) (isError : Bool) :
      HealthStep cfg s (.begin p latencyMs isError)
        { s with
          sampleSeq := Function.update s.sampleSeq p ((s.sampleSeq p + 1) % 2 ^ 64)
          begun := ⟨⟨s.sampleSeq p, latencyMs, isError⟩, s.clock⟩ :: s.begun }
  | script (s : Fleet ρ) (c : Call) (h : c ∈ s.begun) :
      HealthStep cfg s (.script c (s.record cfg c).2)
        { s with
          begun := s.begun.erase c
          keys := (s.record cfg c).1
          completed := (c.member, c.nowMs) :: s.completed }
  | cas (s : Fleet ρ) (expected next : String) (recovered : Bool) :
      HealthStep cfg s
        (.cas expected next recovered
          (luaCas s.keys s.clock expected next cfg.ttlSecs recovered).2)
        { s with
          keys := (luaCas s.keys s.clock expected next cfg.ttlSecs recovered).1
          completed :=
            if recovered && (luaCas s.keys s.clock expected next cfg.ttlSecs recovered).2 then []
            else s.completed }

/-! ## What a tally should be -/

/-- The completions in the window that ends at `nowMs`. -/
def inWindow (cfg : CircuitBreakerConfig) (nowMs : Int) (log : List (Member × Int)) :
    List (Member × Int) :=
  log.filter fun e => decide (nowMs - cfg.windowMs < e.2) && decide (e.2 ≤ nowMs)

/-- Up to the cap, the reply counts the completions in the window and the failed ones. -/
def TallyExact (cfg : CircuitBreakerConfig) (log : List (Member × Int)) (nowMs : Int)
    (reply : Reply) : Prop :=
  (inWindow cfg nowMs log).length ≤ sampleCap →
    reply.total = (inWindow cfg nowMs log).length ∧
      reply.errs = (inWindow cfg nowMs log).countP fun e => e.1.isError

/-- Where a script loses no sample. -/
structure RecordsAll (cfg : CircuitBreakerConfig) (s : Fleet ρ) (c : Call) : Prop where
  /-- No completion was recorded with a later time. -/
  inOrder : ∀ y ∈ s.completed, y.2 ≤ c.nowMs
  /-- The set has not expired, or all in it had left the window. -/
  kept : ∀ e, s.keys.samples = some e → e.live s.clock = true ∨
    ∀ x ∈ e.value.entries, x.2 ≤ c.nowMs - cfg.windowMs
  /-- No sample of the window is the same member. -/
  fresh : ∀ x ∈ (s.keys.samplesAt s.clock).entries, c.nowMs - cfg.windowMs < x.2 → x.1 ≠ c.member

/-- The condition on an action. -/
def HealthCond (cfg : CircuitBreakerConfig) (s : Fleet ρ) : HealthAction ρ → Prop
  | .script c _ => RecordsAll cfg s c
  | _ => True

/-! ## What a run keeps -/

/-- What the key holds, expired or not. -/
def RouteKeys.stored (r : RouteKeys) : List (Member × Int) :=
  match r.samples with
  | some e => e.value.entries
  | none => []

/-- The samples are the completions since the wipe, but for those that are gone. -/
def Fleet.Tracked (cfg : CircuitBreakerConfig) (s : Fleet ρ) : Prop :=
  ZSet.Tracks sampleCap cfg.windowMs s.completed s.keys.stored

theorem mem_trimmed {r : RouteKeys} {t windowStart : Int} {cap : Nat} {x : Member × Int}
    (h : x ∈ (trimmed r t windowStart cap).entries) :
    x ∈ (r.samplesAt t).entries ∧ windowStart < x.2 := by
  have h' := List.mem_of_mem_drop h
  exact ⟨List.mem_of_mem_filter h', of_decide_eq_true (List.mem_filter.mp h').2⟩

/-- Reading the key, dropping what is out of the window and trimming keep track of the log. -/
theorem tracks_trimmed {c : Call} (hcond : RecordsAll cfg s c) (h : s.Tracked cfg) :
    ZSet.Tracks sampleCap cfg.windowMs ((c.member, c.nowMs) :: s.completed)
      ((c.member, c.nowMs) ::
        (trimmed s.keys s.clock (c.nowMs - cfg.windowMs) sampleCap).entries) := by
  have hlog : (c.member, c.nowMs) ∈ (c.member, c.nowMs) :: s.completed := List.mem_cons_self
  have h := ZSet.Tracks.add h (c.member, c.nowMs)
  have hread : ZSet.Tracks sampleCap cfg.windowMs ((c.member, c.nowMs) :: s.completed)
      ((c.member, c.nowMs) :: (s.keys.samplesAt s.clock).entries) := by
    unfold RouteKeys.stored at h
    unfold RouteKeys.samplesAt
    cases hs : s.keys.samples with
    | none => rwa [hs] at h
    | some e =>
      rw [hs] at h
      simp only
      split
      next => exact h
      next hdead =>
        have hold := (hcond.kept e hs).resolve_left hdead
        exact h.remove (List.Perm.refl _) fun x hx => .inl ⟨_, hlog, hold x hx⟩
  refine ZSet.Tracks.trim (hread.remove ((ZSet.remRangeByScore_perm _ _).cons _) fun x hx => ?_)
  refine .inl ⟨_, hlog, ?_⟩
  have hout := (List.mem_filter.mp hx).2
  simp only [Bool.not_eq_eq_eq_not, Bool.not_true, decide_eq_false_iff_not, not_lt] at hout
  exact hout

/-- The set after the script. -/
theorem recorded_perm {c : Call} (hcond : RecordsAll cfg s c) :
    (s.recorded cfg c).entries.Perm
      ((c.member, c.nowMs) ::
        (trimmed s.keys s.clock (c.nowMs - cfg.windowMs) sampleCap).entries) := by
  refine ZSet.add_perm fun hmem => ?_
  obtain ⟨x, hx, hxm⟩ := List.mem_map.mp hmem
  obtain ⟨hx, hlt⟩ := mem_trimmed hx
  exact hcond.fresh x hx hlt hxm

theorem tracked_start (clock : Int) : (Fleet.start ρ clock).Tracked cfg := ZSet.Tracks.nil

theorem stored_luaCas (r : RouteKeys) (t : Int) (expected next : String) (ttl : Int)
    (recovered : Bool) :
    (luaCas r t expected next ttl recovered).1.stored =
      if recovered && (luaCas r t expected next ttl recovered).2 then [] else r.stored := by
  unfold luaCas
  split
  · simp
  · cases recovered <;> rfl

/-- Every step keeps track of the completions. -/
theorem tracked_step [DecidableEq ρ] {a : HealthAction ρ} (hs : s.Tracked cfg)
    (hcond : HealthCond cfg s a) (h : HealthStep cfg s a s') : s'.Tracked cfg := by
  cases h with
  | tick ms => exact hs
  | begin p latencyMs isError => exact hs
  | script c hc => exact (tracks_trimmed hcond hs).perm (recorded_perm hcond).symm
  | cas expected next recovered =>
    unfold Fleet.Tracked
    rw [stored_luaCas]
    split
    · exact ZSet.Tracks.nil
    · exact hs

/-- What a script tallies: the completions since the wipe that are in its window. -/
theorem tally_of_tracked {c : Call} (hpos : 0 < cfg.windowMs) (hs : s.Tracked cfg)
    (hcond : RecordsAll cfg s c) :
    TallyExact cfg ((c.member, c.nowMs) :: s.completed) c.nowMs (s.record cfg c).2 := by
  intro hcap
  -- nothing in the log is later than this call, so the window is a lower bound only
  have hnow : ∀ y ∈ (c.member, c.nowMs) :: s.completed, y.2 ≤ c.nowMs := by
    intro y hy
    rcases List.mem_cons.mp hy with rfl | hy
    · exact Int.le_refl _
    · exact hcond.inOrder y hy
  have hwindow : inWindow cfg c.nowMs ((c.member, c.nowMs) :: s.completed) =
      ((c.member, c.nowMs) :: s.completed).filter
        fun y => decide (c.nowMs - cfg.windowMs < y.2) := by
    refine List.filter_congr fun y hy => ?_
    rw [decide_eq_true (hnow y hy), Bool.and_true]
  rw [hwindow] at hcap ⊢
  rw [← List.countP_eq_length_filter] at hcap
  -- and all that is in the set is in the window
  have hall : ∀ y ∈ (s.recorded cfg c).entries, c.nowMs - cfg.windowMs < y.2 := by
    intro y hy
    rcases List.mem_cons.mp ((recorded_perm hcond).mem_iff.mp hy) with rfl | hy
    · simp only
      omega
    · exact (mem_trimmed hy).2
  have hperm := ((tracks_trimmed hcond hs).perm (recorded_perm hcond).symm).window hnow hcap
  rw [List.filter_eq_self.mpr fun y hy => decide_eq_true (hall y hy)] at hperm
  have hmembers : (s.recorded cfg c).rangeByScore (c.nowMs - cfg.windowMs) =
      (s.recorded cfg c).entries :=
    List.filter_eq_self.mpr fun y hy => decide_eq_true (hall y hy).le
  unfold Fleet.record
  rw [luaRecord_total, luaRecord_errs]
  unfold Fleet.recorded at hmembers
  rw [hmembers]
  exact ⟨hperm.length_eq.symm, (hperm.countP_eq _).symm⟩

/--
In a run whose scripts all meet the condition, every script tallies the completions of all
replicas in its window since the last recovery wipe.
-/
theorem tallies_exact [DecidableEq ρ] (dc : Config.DynamicConfig) (clock : Int)
    {acts : List (HealthAction ρ)}
    (run : Steps (fun s a s' => HealthCond (.load dc) s a ∧ HealthStep (.load dc) s a s')
      (Fleet.start ρ clock) acts s)
    {c : Call} {reply : Reply} (hcond : RecordsAll (.load dc) s c)
    (h : HealthStep (.load dc) s (.script c reply) s') :
    TallyExact (.load dc) s'.completed c.nowMs reply := by
  have htracked : s.Tracked (.load dc) :=
    run.invariant (fun _ _ _ hs hstep => tracked_step hs hstep.1 hstep.2) (tracked_start clock)
  cases h with
  | script c hc => exact tally_of_tracked (CircuitBreakerConfig.windowMs_load_pos dc) htracked hcond

/-! ## Runs with the factory settings -/

/-- `gateway.cb_window_secs` and `gateway.cb_open_secs` as they are seeded. -/
def factorySettings : Config.DynamicConfig
  | "gateway.cb_window_secs" => some 60
  | "gateway.cb_open_secs" => some 30
  | _ => none

/-- The first completion of a process: it failed after 100 ms. -/
def firstFailure : Call := ⟨⟨0, 100, true⟩, 0⟩

/-- Two processes, each with its first completion under way. -/
def bothBegun : Fleet Bool :=
  ⟨0, Function.update (Function.update (fun _ => 0) false 1) true 1,
    [firstFailure, firstFailure], ⟨none, none, 0⟩, []⟩

/-- The first of them has been recorded. -/
def oneRecorded : Fleet Bool :=
  { bothBegun with
    begun := [firstFailure]
    keys := (bothBegun.record (.load factorySettings) firstFailure).1
    completed := [(firstFailure.member, firstFailure.nowMs)] }

theorem steps_oneRecorded : Steps (HealthStep (.load factorySettings)) (Fleet.start Bool 0)
    [.begin false 100 true, .begin true 100 true,
      .script firstFailure (bothBegun.record (.load factorySettings) firstFailure).2]
    oneRecorded :=
  .cons (.begin _ false 100 true) (.cons (.begin _ true 100 true)
    (.cons (.script bothBegun firstFailure (by decide)) (.nil _)))

/-- The second completion of a process: it took 50 ms, a second later. -/
def secondSuccess : Call := ⟨⟨1, 50, false⟩, 1000⟩

/-- One process with its first completion under way. -/
def firstBegun : Fleet Bool :=
  ⟨0, Function.update (fun _ => 0) false 1, [firstFailure], ⟨none, none, 0⟩, []⟩

/-- The first has been recorded, and the second is under way. -/
def secondBegun : Fleet Bool :=
  ⟨1000, Function.update (Function.update (fun _ => 0) false 1) false 2, [secondSuccess],
    (firstBegun.record (.load factorySettings) firstFailure).1,
    [(firstFailure.member, firstFailure.nowMs)]⟩

theorem recordsAll_first : RecordsAll (.load factorySettings) firstBegun firstFailure where
  inOrder _ hy := absurd hy List.not_mem_nil
  kept _ he := absurd he (Option.some_ne_none _).symm
  fresh _ hx := absurd hx List.not_mem_nil

/-- The first sample is in time, in the window, and another member. -/
theorem recordsAll_second : RecordsAll (.load factorySettings) secondBegun secondSuccess where
  inOrder y hy := by
    rw [List.mem_singleton.mp hy]
    decide
  kept e he := by
    obtain rfl := Option.some.inj he
    exact .inl (by decide +kernel)
  fresh x hx _ := by
    have hall : ((secondBegun.keys.samplesAt secondBegun.clock).entries.all
        fun x => decide (x.1 ≠ secondSuccess.member)) = true := by decide +kernel
    exact of_decide_eq_true (List.all_eq_true.mp hall x hx)

theorem steps_secondBegun : Steps
    (fun s a s' =>
      HealthCond (.load factorySettings) s a ∧ HealthStep (.load factorySettings) s a s')
    (Fleet.start Bool 0)
    [.begin false 100 true,
      .script firstFailure (firstBegun.record (.load factorySettings) firstFailure).2,
      .tick 1000, .begin false 50 false] secondBegun :=
  .cons ⟨trivial, .begin _ false 100 true⟩
    (.cons ⟨recordsAll_first, .script firstBegun firstFailure (by decide)⟩
      (.cons ⟨trivial, .tick _ 1000⟩ (.cons ⟨trivial, .begin _ false 50 false⟩ (.nil _))))

/-- The second script tallies both. -/
theorem second_success_tallied :
    (secondBegun.record (.load factorySettings) secondSuccess).2.total = 2 ∧
      TallyExact (.load factorySettings)
        [(secondSuccess.member, 1000), (firstFailure.member, 0)] 1000
        (secondBegun.record (.load factorySettings) secondSuccess).2 :=
  ⟨by decide +kernel, tallies_exact factorySettings 0 (c := secondSuccess) steps_secondBegun
    recordsAll_second (.script secondBegun secondSuccess (by decide))⟩

/-- The second process's sample is the same member, and one of the two failures is lost. -/
theorem sample_of_two_processes_lost :
    Config.validateSetting "gateway.cb_window_secs" (factorySettings "gateway.cb_window_secs") =
        .ok () ∧
      Config.validateSetting "gateway.cb_open_secs" (factorySettings "gateway.cb_open_secs") =
        .ok () ∧
      ∃ acts s reply s', Steps (HealthStep (.load factorySettings)) (Fleet.start Bool 0) acts s ∧
        HealthStep (.load factorySettings) s (.script firstFailure reply) s' ∧
        ¬ TallyExact (.load factorySettings) s'.completed firstFailure.nowMs reply := by
  refine ⟨rfl, rfl, _, oneRecorded, _, _, steps_oneRecorded,
    .script oneRecorded firstFailure (by decide), fun h => ?_⟩
  have hcount : (inWindow (.load factorySettings) firstFailure.nowMs
      ((firstFailure.member, firstFailure.nowMs) :: oneRecorded.completed)).length = 2 := by
    decide +kernel
  have htotal : (oneRecorded.record (.load factorySettings) firstFailure).2.total = 1 := by
    decide +kernel
  have heq := (h (by rw [hcount]; decide)).1
  rw [hcount, htotal] at heq
  exact absurd heq (by decide)

end ThinkWatch.Gateway
