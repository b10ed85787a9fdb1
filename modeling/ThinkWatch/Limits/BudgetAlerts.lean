import ThinkWatch.Limits.Budget

/-!
# Budget alerts

`add_weighted_tokens` of `crates/common/src/limits/budget.rs`, called by any number of processes at
once: the script of each cap of a call is one step. A script that fails has not run; the call goes on
with its next cap.
-/

namespace ThinkWatch.Limits

open Lib

/-- A call under way: the caps still to come, and what it has to return so far. -/
structure AddCall where
  now : Int
  weightedTokens : Int
  rest : List BudgetCap
  out : List CapStatus
  crossings : List BudgetCrossing

namespace AddCall

def start (caps : List BudgetCap) (weightedTokens now : Int) : AddCall :=
  ⟨now, weightedTokens, if caps.isEmpty ∨ weightedTokens ≤ 0 then [] else caps, [], []⟩

/-- The script of `cap` has failed. -/
def skip (c : AddCall) (rest : List BudgetCap) : AddCall := { c with rest := rest }

/-- The script of `cap` has returned. -/
def record (c : AddCall) (cap : BudgetCap) (rest : List BudgetCap) (newTotal : Int) : AddCall :=
  let prevTotal := newTotal - c.weightedTokens
  { c with
    rest := rest
    out := c.out ++ [capStatus cap newTotal]
    crossings := c.crossings ++
      (crossedThresholds prevTotal newTotal cap.limitTokens).map fun pct =>
        cap.crossing pct newTotal }

/-- What the call reports of a percentage of a cap. -/
def reports (c : AddCall) (cap : BudgetCap) (pct : Int) : List BudgetCrossing :=
  c.crossings.filter fun x => x.Of cap pct

end AddCall

/-- What a script has returned, and when. -/
structure Reply where
  key : BudgetKey
  call : Nat
  total : Int
  writtenAt : Int

/-- The store, the calls, and the replies of all scripts so far. -/
structure Budgets where
  clock : Int
  store : BudgetStore
  calls : Threads AddCall
  replies : List Reply

namespace Budgets

inductive Action where
  | tick (t : Int)
  | add (i : Nat) (caps : List BudgetCap) (weightedTokens : Int)
  /-- The script of the call's next cap. -/
  | eval (i : Nat)
  | fail (i : Nat)

def evalNext (s : Budgets) (i : Nat) (c : AddCall) (cap : BudgetCap) (rest : List BudgetCap) :
    Budgets :=
  match luaIncrAndExpire s.store s.clock (cap.key c.now) c.weightedTokens
      (periodTtlSecs cap.period.asStr) with
  | some (store, newTotal) =>
    { s with
      store := store
      calls := s.calls.set i (c.record cap rest newTotal)
      replies := s.replies ++ [⟨cap.key c.now, i, newTotal, s.clock⟩] }
  | none => { s with calls := s.calls.set i (c.skip rest) }

def step (s : Budgets) : Action → Option Budgets
  | .tick t => if s.clock ≤ t then some { s with clock := t } else none
  | .add i caps weightedTokens =>
    match s.calls i with
    | none => some { s with calls := s.calls.set i (.start caps weightedTokens s.clock) }
    | some _ => none
  | .eval i =>
    match s.calls i with
    | some c =>
      match c.rest with
      | cap :: rest => some (s.evalNext i c cap rest)
      | [] => none
    | none => none
  | .fail i =>
    match s.calls i with
    | some c =>
      match c.rest with
      | _ :: rest => some { s with calls := s.calls.set i (c.skip rest) }
      | [] => none
    | none => none

/-- What the counter stands at. -/
def total (s : Budgets) (key : BudgetKey) : Int := ((s.store key).map Entry.value).getD 0

/-! ## One step -/

variable {s s' : Budgets} {a : Action} {key : BudgetKey}

/-- What a script does, when it runs. -/
theorem luaIncrAndExpire_eq_some {st st' : BudgetStore} {t n amount ttl : Int}
    (h : luaIncrAndExpire st t key amount ttl = some (st', n)) :
    n = (st.get t key).getD 0 + amount ∧ st' = st.setEx t key n (ttl * 1000) := by
  unfold luaIncrAndExpire at h
  simp only at h
  split at h
  · obtain ⟨rfl, rfl⟩ := Prod.mk.inj (Option.some.inj h)
    exact ⟨rfl, rfl⟩
  · cases h

/-- The ways a step can go. -/
inductive Moves (s : Budgets) : Action → Budgets → Prop where
  | tick {t : Int} (h : s.clock ≤ t) : Moves s (.tick t) { s with clock := t }
  | add {i : Nat} {caps : List BudgetCap} {w : Int} (free : s.calls i = none) :
      Moves s (.add i caps w) { s with calls := s.calls.set i (.start caps w s.clock) }
  | skip {i : Nat} {a : Action} {c : AddCall} {cap : BudgetCap} {rest : List BudgetCap}
      (hc : s.calls i = some c) (hrest : c.rest = cap :: rest) :
      Moves s a { s with calls := s.calls.set i (c.skip rest) }
  | eval {i : Nat} {c : AddCall} {cap : BudgetCap} {rest : List BudgetCap} {n : Int}
      (hc : s.calls i = some c) (hrest : c.rest = cap :: rest)
      (hn : n = (s.store.get s.clock (cap.key c.now)).getD 0 + c.weightedTokens) :
      Moves s (.eval i)
        { s with
          store := s.store.setEx s.clock (cap.key c.now) n (periodTtlSecs cap.period.asStr * 1000)
          calls := s.calls.set i (c.record cap rest n)
          replies := s.replies ++ [⟨cap.key c.now, i, n, s.clock⟩] }

theorem step_moves (h : s.step a = some s') : s.Moves a s' := by
  cases a with
  | tick t =>
    simp only [step] at h
    split at h
    · next ht =>
      obtain rfl := Option.some.inj h
      exact .tick ht
    · cases h
  | add i caps w =>
    simp only [step] at h
    split at h
    · next free =>
      obtain rfl := Option.some.inj h
      exact .add free
    · cases h
  | eval i =>
    simp only [step] at h
    split at h
    · next c hc =>
      split at h
      · next cap rest hrest =>
        obtain rfl := Option.some.inj h
        unfold evalNext
        split
        · next store n hlua =>
          obtain ⟨hn, rfl⟩ := luaIncrAndExpire_eq_some hlua
          exact .eval hc hrest hn
        · exact .skip hc hrest
      · cases h
    · cases h
  | fail i =>
    simp only [step] at h
    split at h
    · next c hc =>
      split at h
      · next cap rest hrest =>
        obtain rfl := Option.some.inj h
        exact .skip hc hrest
      · cases h
    · cases h

/-! ## How long a counter is kept -/

/-- A counter that was written is there for the time it was given then. -/
def Kept (s : Budgets) : Prop :=
  ∀ r ∈ s.replies, r.writtenAt ≤ s.clock ∧ ∃ e d, s.store r.key = some e ∧ e.expireAt = some d ∧
    r.writtenAt + periodTtlSecs r.key.period * 1000 ≤ d

theorem kept_step (hs : s.Kept) (h : s.Moves a s') : s'.Kept := by
  cases h with
  | tick h => exact fun r hr => ⟨(hs r hr).1.trans h, (hs r hr).2⟩
  | add free => exact hs
  | skip hc hrest => exact hs
  | @eval i c cap rest n hc hrest hn =>
    intro r hr
    rcases List.mem_append.mp hr with hr | hr
    · obtain ⟨hat, e, d, he, hd, hle⟩ := hs r hr
      refine ⟨hat, ?_⟩
      by_cases hkey : r.key = cap.key c.now
      · -- written again, and kept for as long from now on
        rw [hkey]
        exact ⟨_, _, Store.put_self _ _ _, rfl, Int.add_le_add hat le_rfl⟩
      · exact ⟨e, d, (Store.put_ne _ hkey _).trans he, hd, hle⟩
    · obtain rfl := List.mem_singleton.mp hr
      exact ⟨le_rfl, _, _, Store.put_self _ _ _, rfl, le_rfl⟩

/-! ## Who reports a threshold -/

section

variable (cap : BudgetCap) (pct now₀ : Int)

/-- The call counts in the period of `now₀`. -/
def Counts (c : AddCall) : Prop := periodEnd cap.period c.now = periodEnd cap.period now₀

/-- The reply is of the cap's counter in that period, and has reached the threshold. -/
def Reaches (r : Reply) : Bool :=
  decide (r.key = cap.key now₀ ∧ threshold cap.limitTokens pct ≤ r.total)

/-- No call reports the percentage, those that `p` leaves out apart. -/
def Silent (calls : Threads AddCall) (p : Nat → Prop) : Prop :=
  ∀ j c, calls j = some c → Counts cap now₀ c → p j → c.reports cap pct = []

/-- One call reports it, once: the one whose total reached the threshold first. -/
def Reported (calls : Threads AddCall) (replies : List Reply) : Prop :=
  ∃ r c x, replies.find? (Reaches cap pct now₀) = some r ∧ calls r.call = some c ∧
    Counts cap now₀ c ∧ c.reports cap pct = [x] ∧ x.currentTokens = r.total ∧
    Silent cap pct now₀ calls (· ≠ r.call)

/-- Where the counter stands and what is reported of it agree. -/
def Alerts (total : Int) (calls : Threads AddCall) (replies : List Reply) : Prop :=
  if threshold cap.limitTokens pct ≤ total then Reported cap pct now₀ calls replies
  else Silent cap pct now₀ calls fun _ => True

/-- The calls that count report what they reported before. -/
structure SameReports (calls calls' : Threads AddCall) : Prop where
  kept : ∀ j c, calls j = some c → Counts cap now₀ c →
    ∃ c', calls' j = some c' ∧ Counts cap now₀ c' ∧ c'.reports cap pct = c.reports cap pct
  added : ∀ j c', calls' j = some c' → Counts cap now₀ c' → c'.reports cap pct = [] ∨
    ∃ c, calls j = some c ∧ Counts cap now₀ c ∧ c'.reports cap pct = c.reports cap pct

end

variable {cap : BudgetCap} {pct now₀ : Int} {calls calls' : Threads AddCall}

theorem SameReports.silent {p : Nat → Prop} (h : SameReports cap pct now₀ calls calls')
    (hs : Silent cap pct now₀ calls p) : Silent cap pct now₀ calls' p := by
  intro j c' hc' hcounts hp
  rcases h.added j c' hc' hcounts with hnil | ⟨c, hc, hcounts, heq⟩
  · exact hnil
  · rw [heq]
    exact hs j c hc hcounts hp

theorem SameReports.reported {replies replies' : List Reply}
    (h : SameReports cap pct now₀ calls calls')
    (hfind : ∀ r, replies.find? (Reaches cap pct now₀) = some r →
      replies'.find? (Reaches cap pct now₀) = some r)
    (hr : Reported cap pct now₀ calls replies) : Reported cap pct now₀ calls' replies' := by
  obtain ⟨r, c, x, hr, hc, hcounts, hx, htotal, hsilent⟩ := hr
  obtain ⟨c', hc', hcounts', heq⟩ := h.kept _ c hc hcounts
  exact ⟨r, c', x, hfind r hr, hc', hcounts', heq.trans hx, htotal, h.silent hsilent⟩

/-- Nothing is reported, or what is reported stays so. -/
theorem SameReports.alerts {total : Int} {replies replies' : List Reply}
    (h : SameReports cap pct now₀ calls calls')
    (hfind : ∀ r, replies.find? (Reaches cap pct now₀) = some r →
      replies'.find? (Reaches cap pct now₀) = some r)
    (ha : Alerts cap pct now₀ total calls replies) : Alerts cap pct now₀ total calls' replies' := by
  unfold Alerts at *
  split at ha
  · next hreach =>
    rw [if_pos hreach]
    exact h.reported hfind ha
  · next hbelow =>
    rw [if_neg hbelow]
    exact h.silent ha

/-- A call that is replaced by one that reports the same. -/
theorem sameReports_set {i : Nat} {c c' : AddCall} (hc : calls i = some c) (hnow : c'.now = c.now)
    (hsame : Counts cap now₀ c → c'.reports cap pct = c.reports cap pct) :
    SameReports cap pct now₀ calls (calls.set i c') := by
  have hcounts : Counts cap now₀ c' ↔ Counts cap now₀ c := by
    unfold Counts
    rw [hnow]
  constructor
  · intro j d hd hdc
    by_cases hj : j = i
    · subst hj
      obtain rfl := Option.some.inj (hc.symm.trans hd)
      exact ⟨c', Threads.set_self _ _ _, hcounts.mpr hdc, hsame hdc⟩
    · exact ⟨d, (Threads.set_ne _ hj _).trans hd, hdc, rfl⟩
  · intro j d hd hdc
    rcases Threads.set_eq_some hd with ⟨rfl, rfl⟩ | ⟨-, hd⟩
    · exact Or.inr ⟨c, hc, hcounts.mp hdc, hsame (hcounts.mp hdc)⟩
    · exact Or.inr ⟨d, hd, hdc, rfl⟩

/-- A call that starts. -/
theorem sameReports_start {i : Nat} {c' : AddCall} (free : calls i = none)
    (hnil : c'.reports cap pct = []) : SameReports cap pct now₀ calls (calls.set i c') := by
  constructor
  · intro j d hd hdc
    have hj : j ≠ i := by
      rintro rfl
      cases free.symm.trans hd
    exact ⟨d, (Threads.set_ne _ hj _).trans hd, hdc, rfl⟩
  · intro j d hd hdc
    rcases Threads.set_eq_some hd with ⟨-, rfl⟩ | ⟨-, hd⟩
    · exact Or.inl hnil
    · exact Or.inr ⟨d, hd, hdc, rfl⟩

/-- What a script adds to the reports. -/
theorem reports_record {c : AddCall} {x : BudgetCap} {rest : List BudgetCap} {n : Int}
    (hpct : pct ∈ alertThresholdsPct) (hx : x.SameCounter cap → x.limitTokens = cap.limitTokens)
    (hlimit : 0 < cap.limitTokens) (hw : 0 < c.weightedTokens) :
    (c.record x rest n).reports cap pct = c.reports cap pct ++
      if x.SameCounter cap ∧ n - c.weightedTokens < threshold cap.limitTokens pct ∧
        threshold cap.limitTokens pct ≤ n then [x.crossing pct n] else [] := by
  unfold AddCall.reports AddCall.record
  rw [List.filter_append, List.filter_map]
  congr 1
  by_cases hsame : x.SameCounter cap
  · have hof : (fun y => decide (y.Of cap pct)) ∘ (fun p => x.crossing p n) =
        fun p => decide (p = pct) := by
      funext p
      simp [crossing_of_iff, hsame]
    rw [hof, crossedThresholds_filter hpct (by rw [hx hsame]; exact hlimit) (by omega), hx hsame]
    simp only [hsame, true_and]
    split <;> rfl
  · have hof : (fun y => decide (y.Of cap pct)) ∘ (fun p => x.crossing p n) =
        fun _ => false := by
      funext p
      simp [crossing_of_iff, hsame]
    simp [hof, hsame]

/-! ## One period of a cap -/

/--
Every call that counts on the cap's counter has the cap's limit, and its script there runs no later
than one more period after the period of `now₀` has ended.
-/
def Within (cap : BudgetCap) (now₀ : Int) (s : Budgets) : Action → Prop
  | .add _ caps _ => ∀ x ∈ caps, x.SameCounter cap → x.limitTokens = cap.limitTokens
  | .eval i => ∀ c x rest, s.calls i = some c → c.rest = x :: rest →
      x.key c.now = cap.key now₀ → s.clock ≤ periodEnd cap.period now₀ + maxLength cap.period
  | _ => True

/-- A call under way: it has started, adds something, and has the cap's limit. -/
structure Sound (cap : BudgetCap) (clock : Int) (c : AddCall) : Prop where
  started : c.now ≤ clock
  positive : c.rest ≠ [] → 0 < c.weightedTokens
  limits : ∀ x ∈ c.rest, x.SameCounter cap → x.limitTokens = cap.limitTokens

structure Tracks (cap : BudgetCap) (pct now₀ : Int) (s : Budgets) : Prop where
  calls : ∀ i c, s.calls i = some c → Sound cap s.clock c
  live : ∀ e, s.store (cap.key now₀) = some e → ∃ d, e.expireAt = some d ∧
    periodEnd cap.period now₀ + maxLength cap.period ≤ d
  totals : ∀ r ∈ s.replies, r.key = cap.key now₀ → r.total ≤ s.total (cap.key now₀)
  alerts : Alerts cap pct now₀ (s.total (cap.key now₀)) s.calls s.replies

theorem total_setEx (s : Budgets) (key : BudgetKey) (n ttl : Int) :
    total { s with store := s.store.setEx s.clock key n ttl } key = n := by
  have hput : s.store.setEx s.clock key n ttl key = some ⟨n, some (s.clock + ttl)⟩ :=
    Store.put_self _ _ _
  exact congrArg (fun e => (e.map Entry.value).getD 0) hput

/-- While the counter is there, a script reads what it stands at. -/
theorem Tracks.get_eq (hs : Tracks cap pct now₀ s)
    (hclock : s.clock ≤ periodEnd cap.period now₀ + maxLength cap.period) :
    (s.store.get s.clock (cap.key now₀)).getD 0 = s.total (cap.key now₀) := by
  unfold total
  cases he : s.store (cap.key now₀) with
  | none =>
    simp only [Store.get, he]
    rfl
  | some e =>
    obtain ⟨d, hd, hle⟩ := hs.live e he
    have hlive : e.live s.clock = true := by
      simp only [Entry.live, hd]
      exact decide_eq_true (hclock.trans hle)
    simp only [Store.get, he, hlive, if_true]
    rfl

theorem Sound.start {caps : List BudgetCap} {w clock : Int}
    (hcaps : ∀ x ∈ caps, x.SameCounter cap → x.limitTokens = cap.limitTokens) :
    Sound cap clock (.start caps w clock) where
  started := le_rfl
  positive := by
    intro hne
    by_contra hw
    exact hne (if_pos (Or.inr (Int.not_lt.mp hw)))
  limits := by
    intro x hx
    refine hcaps x ?_
    unfold AddCall.start at hx
    simp only at hx
    split at hx
    · exact absurd hx List.not_mem_nil
    · exact hx

/-- A call that has done with its next cap. -/
theorem Sound.next {c c' : AddCall} {x : BudgetCap} {rest : List BudgetCap} {clock : Int}
    (hc : Sound cap clock c) (hrest : c.rest = x :: rest) (hnow : c'.now = c.now)
    (hw : c'.weightedTokens = c.weightedTokens) (hrest' : c'.rest = rest) :
    Sound cap clock c' where
  started := hnow ▸ hc.started
  positive := fun _ => by
    rw [hw]
    exact hc.positive (by simp [hrest])
  limits := fun y hy => hc.limits y (by rw [hrest, ← hrest']; exact List.mem_cons_of_mem _ hy)

theorem calls_set {i : Nat} {c' : AddCall} {clock : Int}
    (hs : ∀ i c, calls i = some c → Sound cap clock c) (hc' : Sound cap clock c') :
    ∀ j c, calls.set i c' j = some c → Sound cap clock c := by
  intro j c hc
  rcases Threads.set_eq_some hc with ⟨-, rfl⟩ | ⟨-, hc⟩
  · exact hc'
  · exact hs j c hc

/-- A script on another counter, or on the cap's counter of another period. -/
theorem Tracks.eval_other (hs : Tracks cap pct now₀ s) (hpct : pct ∈ alertThresholdsPct)
    (hlimit : 0 < cap.limitTokens) {i : Nat} {c : AddCall} {x : BudgetCap} {rest : List BudgetCap}
    {n ttl : Int} (hc : s.calls i = some c) (hrest : c.rest = x :: rest)
    (hkey : x.key c.now ≠ cap.key now₀) :
    Tracks cap pct now₀ { s with
      store := s.store.setEx s.clock (x.key c.now) n ttl
      calls := s.calls.set i (c.record x rest n)
      replies := s.replies ++ [⟨x.key c.now, i, n, s.clock⟩] } := by
  have hstore : s.store.setEx s.clock (x.key c.now) n ttl (cap.key now₀) =
      s.store (cap.key now₀) := Store.put_ne _ (Ne.symm hkey) _
  have hcall := hs.calls i c hc
  have hsame : SameReports cap pct now₀ s.calls (s.calls.set i (c.record x rest n)) := by
    refine sameReports_set hc rfl fun hcounts => ?_
    have hx : ¬ x.SameCounter cap := by
      intro hx
      exact hkey ((x.key_eq_iff cap _ _).mpr ⟨hx, hcounts⟩)
    rw [reports_record hpct (hcall.limits x (by simp [hrest])) hlimit
      (hcall.positive (by simp [hrest])), if_neg fun h => hx h.1, List.append_nil]
  have htotal : total { s with store := s.store.setEx s.clock (x.key c.now) n ttl }
      (cap.key now₀) = s.total (cap.key now₀) :=
    congrArg (fun e => (e.map Entry.value).getD 0) hstore
  refine ⟨calls_set hs.calls (hcall.next hrest rfl rfl rfl), ?_, ?_, ?_⟩
  · intro e he
    exact hs.live e (hstore.symm.trans he)
  · intro r hr hrkey
    rcases List.mem_append.mp hr with hr | hr
    · exact (hs.totals r hr hrkey).trans_eq htotal.symm
    · obtain rfl := List.mem_singleton.mp hr
      exact absurd hrkey hkey
  · refine (congrArg (Alerts cap pct now₀ · _ _) htotal).mpr (hsame.alerts (fun r hr => ?_) hs.alerts)
    rw [List.find?_append, hr, Option.some_or]

/-- A script on the cap's counter in the period: the totals tile the line. -/
theorem Tracks.eval_cap (hs : Tracks cap pct now₀ s) (hpct : pct ∈ alertThresholdsPct)
    (hlimit : 0 < cap.limitTokens) {i : Nat} {c : AddCall} {x : BudgetCap} {rest : List BudgetCap}
    (hc : s.calls i = some c) (hrest : c.rest = x :: rest) (hkey : x.key c.now = cap.key now₀) :
    Tracks cap pct now₀ { s with
      store := s.store.setEx s.clock (cap.key now₀) (s.total (cap.key now₀) + c.weightedTokens)
        (periodTtlSecs x.period.asStr * 1000)
      calls := s.calls.set i (c.record x rest (s.total (cap.key now₀) + c.weightedTokens))
      replies := s.replies ++
        [⟨cap.key now₀, i, s.total (cap.key now₀) + c.weightedTokens, s.clock⟩] } := by
  obtain ⟨hx, hcounts⟩ := (x.key_eq_iff cap _ _).mp hkey
  have hcall := hs.calls i c hc
  have hw : 0 < c.weightedTokens := hcall.positive (by simp [hrest])
  have hreports :
      (c.record x rest (s.total (cap.key now₀) + c.weightedTokens)).reports cap pct = _ :=
    reports_record hpct (hcall.limits x (by simp [hrest])) hlimit hw
  simp only [hx, true_and, Int.add_sub_cancel] at hreports
  generalize hn : s.total (cap.key now₀) = n at hreports ⊢
  have htotals : ∀ r ∈ s.replies, r.key = cap.key now₀ → r.total ≤ n := hn ▸ hs.totals
  have hsame (h : (c.record x rest (n + c.weightedTokens)).reports cap pct = c.reports cap pct) :
      SameReports cap pct now₀ s.calls (s.calls.set i (c.record x rest (n + c.weightedTokens))) :=
    sameReports_set hc rfl fun _ => h
  have halerts := hs.alerts
  rw [hn] at halerts
  have htotal := total_setEx s (cap.key now₀) (n + c.weightedTokens)
    (periodTtlSecs x.period.asStr * 1000)
  refine ⟨calls_set hs.calls (hcall.next hrest rfl rfl rfl), ?_, ?_, ?_⟩
  · intro e he
    obtain rfl := Option.some.inj ((Store.put_self _ _ _).symm.trans he)
    refine ⟨_, rfl, ?_⟩
    have hend := (periodEnd_spec cap.period c.now).2
    have hstarted := hcall.started
    rw [hx.2.2, periodTtlSecs_eq]
    omega
  · intro r hr hrkey
    refine le_of_le_of_eq ?_ htotal.symm
    rcases List.mem_append.mp hr with hr | hr
    · have := htotals r hr hrkey
      omega
    · obtain rfl := List.mem_singleton.mp hr
      exact le_rfl
  · have hfind (hbefore : ¬ threshold cap.limitTokens pct ≤ n) :
        s.replies.find? (Reaches cap pct now₀) = none := by
      refine List.find?_eq_none.mpr fun r hr hreaches => ?_
      obtain ⟨hrkey, hle⟩ := of_decide_eq_true hreaches
      exact hbefore (hle.trans (htotals r hr hrkey))
    refine (congrArg (Alerts cap pct now₀ · _ _) htotal).mpr ?_
    unfold Alerts at halerts ⊢
    by_cases hbefore : threshold cap.limitTokens pct ≤ n
    · -- reached before: nothing is added to the reports
      rw [if_neg fun h => Int.not_le.mpr h.1 hbefore, List.append_nil] at hreports
      rw [if_pos hbefore] at halerts
      rw [if_pos (by omega)]
      exact (hsame hreports).reported
        (fun r hr => by rw [List.find?_append, hr, Option.some_or]) halerts
    · rw [if_neg hbefore] at halerts
      by_cases hafter : threshold cap.limitTokens pct ≤ n + c.weightedTokens
      · -- this script reaches it
        rw [if_pos ⟨Int.not_le.mp hbefore, hafter⟩,
          halerts i c hc hcounts trivial, List.nil_append] at hreports
        rw [if_pos hafter]
        refine ⟨⟨cap.key now₀, i, n + c.weightedTokens, s.clock⟩, _, _, ?_,
          Threads.set_self _ _ _, hcounts, hreports, rfl, ?_⟩
        · rw [List.find?_append, hfind hbefore, Option.none_or, List.find?_cons_of_pos]
          exact decide_eq_true ⟨rfl, hafter⟩
        · intro j d hd hdcounts hj
          exact halerts j d ((Threads.set_ne _ hj _).symm.trans hd) hdcounts trivial
      · rw [if_neg fun h => hafter h.2, List.append_nil] at hreports
        rw [if_neg hafter]
        exact (hsame hreports).silent halerts

theorem tracks_step (hpct : pct ∈ alertThresholdsPct) (hlimit : 0 < cap.limitTokens)
    (hs : Tracks cap pct now₀ s) (hin : Within cap now₀ s a) (h : s.Moves a s') :
    Tracks cap pct now₀ s' := by
  cases h with
  | tick ht =>
    refine ⟨fun i c hc => ?_, hs.live, hs.totals, hs.alerts⟩
    have hcall := hs.calls i c hc
    exact ⟨hcall.started.trans ht, hcall.positive, hcall.limits⟩
  | add free =>
    exact ⟨calls_set hs.calls (.start hin), hs.live, hs.totals,
      (sameReports_start free rfl).alerts (fun _ h => h) hs.alerts⟩
  | @skip i a c x rest hc hrest =>
    have hcall : Sound cap s.clock (c.skip rest) := (hs.calls i c hc).next hrest rfl rfl rfl
    have hsame : SameReports cap pct now₀ s.calls (s.calls.set i (c.skip rest)) :=
      sameReports_set hc rfl fun _ => rfl
    exact ⟨calls_set hs.calls hcall, hs.live, hs.totals, hsame.alerts (fun _ h => h) hs.alerts⟩
  | @eval i c x rest n hc hrest hn =>
    by_cases hkey : x.key c.now = cap.key now₀
    · rw [hkey, hs.get_eq (hin c x rest hc hrest hkey)] at hn
      rw [hkey, hn]
      exact hs.eval_cap hpct hlimit hc hrest hkey
    · exact hs.eval_other hpct hlimit hc hrest hkey

/-- A start before the period's first call. -/
def start (clock : Int) (store : BudgetStore) : Budgets := ⟨clock, store, .none, []⟩

/-- A step within one period of the cap. -/
def Next (cap : BudgetCap) (now₀ : Int) (s : Budgets) (a : Action) (s' : Budgets) : Prop :=
  Within cap now₀ s a ∧ s.step a = some s'

def dailyCap : BudgetCap := ⟨0, .user, 7, .daily, 10⟩

end Budgets

end ThinkWatch.Limits
