import Mathlib.Data.List.Induction
import ThinkWatch.Resources.ByteBudget

/-!
# Reading a cached body

`cached_body` of `crates/common/src/resources.rs`: the length of a Redis string, a reservation for
that length, and then the string up to that length. Each command is atomic; between the commands the
others do with the key and with the budget what they like.
-/

namespace ThinkWatch.Resources

/-- Redis: the length of a string, which is 0 when there is none. -/
def strlen (value : Option (List UInt8)) : Nat := (value.getD []).length

/-- Redis: the bytes from `start` to `stop`, both included; none when there is no string. -/
def getrange (value : Option (List UInt8)) (start stop : Nat) : List UInt8 :=
  ((value.getD []).drop start).take (stop + 1 - start)

namespace CachedBody

/-- Before `strlen`, before the reservation, before `getrange` and after the return. -/
inductive Phase where
  | strlen
  | reserve (length : Nat)
  | getrange (length charged : Nat)
  | done (result : Option (List UInt8))
deriving DecidableEq, Repr

/--
The string under the key, the counter of the budget and the call. `seen` are the strings that were
under the key since the call began; nothing reads it.
-/
structure Call where
  value : Option (List UInt8)
  used : Nat
  phase : Phase
  seen : List (List UInt8)
deriving DecidableEq, Repr

/-- `others` leaves any string or none under the key. A command is answered or fails. -/
inductive Action where
  | others (value : Option (List UInt8)) (used : Nat)
  | strlen (answered : Bool)
  | reserve
  | getrange (answered : Bool)
deriving DecidableEq, Repr

namespace Call

def start (value : Option (List UInt8)) (used : Nat) : Call := ⟨value, used, .strlen, value.toList⟩

def finish (s : Call) (used : Nat) (result : Option (List UInt8)) : Call :=
  { s with used := used, phase := .done result }

def step (policy : Policy) (s : Call) : Action → Option Call
  | .others value used => some { s with value := value, used := used, seen := s.seen ++ value.toList }
  | .strlen answered =>
    match s.phase with
    | .strlen =>
      if answered then some { s with phase := .reserve (Resources.strlen s.value) }
      else some (s.finish s.used none)
    | _ => none
  | .reserve =>
    match s.phase with
    | .reserve length =>
      if length = 0 ∨ length > policy.maxBodyBytes then some (s.finish s.used none)
      else
        match grow policy.bodyBytes s.used 0 (saturatingMul length bodyHeadroom) with
        | none => some (s.finish s.used none)
        | some (used, charged) => some { s with used := used, phase := .getrange length charged }
    | _ => none
  | .getrange answered =>
    match s.phase with
    | .getrange length charged =>
      if answered then
        let data := Resources.getrange s.value 0 length
        if data.length > length then some (s.finish (release s.used charged) none)
        else some (s.finish s.used (some data)) -- the body takes the reservation with it
      else some (s.finish (release s.used charged) none)
    | _ => none

/-- What the others and the call do, in order, from the beginning of the call. -/
def run (policy : Policy) (value : Option (List UInt8)) (used : Nat) (as : List Action) :
    Option Call :=
  as.foldlM (step policy) (start value used)

end Call

/-- Nothing, or all of a string that was under the key during the call, and not an empty one. -/
def Whole (seen : List (List UInt8)) (result : Option (List UInt8)) : Prop :=
  ∀ data, result = some data → data ∈ seen ∧ data ≠ []

end CachedBody

/-- A string that is read up to a bound is read whole or is seen to be longer. -/
theorem getrange_whole {value : Option (List UInt8)} {length : Nat}
    (h : (getrange value 0 length).length ≤ length) : getrange value 0 length = value.getD [] := by
  unfold getrange at *
  simp only [List.drop_zero, Nat.sub_zero, List.length_take] at *
  exact List.take_of_length_le (by omega)

namespace CachedBody

open Call

variable {policy : Policy} {value : Option (List UInt8)} {used : Nat} {as : List Action}
  {a : Action} {s s' : Call}

/-- What a step does to the key and to the result. Only `getrange` gives a result. -/
inductive Moves (s : Call) : Action → Call → Prop where
  | others (value : Option (List UInt8)) (used : Nat) :
      Moves s (.others value used)
        { s with value := value, used := used, seen := s.seen ++ value.toList }
  | goes (a : Action) (used : Nat) (phase : Phase) (hopen : ∀ r, s.phase ≠ .done r)
      (ha : a ≠ .getrange true) (hphase : ∀ r, phase = .done r → r = none) :
      Moves s a { s with used := used, phase := phase }
  | reads (used : Nat) (hopen : ∀ r, s.phase ≠ .done r) :
      Moves s (.getrange true) (s.finish used (some (s.value.getD [])))
  | longer (used : Nat) (hopen : ∀ r, s.phase ≠ .done r) (hvalue : s.value.getD [] ≠ []) :
      Moves s (.getrange true) (s.finish used none)

theorem moves_of_step (h : s.step policy a = some s') : Moves s a s' := by
  cases a with
  | others value used =>
    obtain rfl := Option.some.inj h
    exact .others value used
  | strlen answered =>
    simp only [step] at h
    split at h
    · next hp =>
      have hopen : ∀ r, s.phase ≠ .done r := by simp [hp]
      split at h <;> obtain rfl := Option.some.inj h
      · exact .goes _ s.used _ hopen nofun nofun
      · exact .goes _ s.used (.done none) hopen nofun (fun r hr => (Phase.done.inj hr).symm)
    · cases h
  | reserve =>
    simp only [step] at h
    split at h
    · next length hp =>
      have hopen : ∀ r, s.phase ≠ .done r := by simp [hp]
      have hends : Moves s .reserve (s.finish s.used none) :=
        .goes _ s.used (.done none) hopen nofun (fun r hr => (Phase.done.inj hr).symm)
      split at h
      · obtain rfl := Option.some.inj h
        exact hends
      · split at h <;> obtain rfl := Option.some.inj h
        · exact hends
        · exact .goes _ _ _ hopen nofun nofun
    · cases h
  | getrange answered =>
    simp only [step] at h
    split at h
    · next length charged hp =>
      have hopen : ∀ r, s.phase ≠ .done r := by simp [hp]
      cases answered with
      | true =>
        rw [if_pos rfl] at h
        split at h <;> obtain rfl := Option.some.inj h
        · next hlen =>
          refine .longer _ hopen fun hnil => ?_
          simp [Resources.getrange, hnil] at hlen
        · next hlen =>
          rw [getrange_whole (Nat.le_of_not_gt hlen)]
          exact .reads _ hopen
      | false =>
        obtain rfl := Option.some.inj h
        exact .goes _ _ (.done none) hopen nofun (fun r hr => (Phase.done.inj hr).symm)
    · cases h

/-! ## Runs -/

theorem run_snoc (h : run policy value used (as ++ [a]) = some s') :
    ∃ s, run policy value used as = some s ∧ s.step policy a = some s' := by
  rw [run, List.foldlM_append] at h
  obtain ⟨s, hs, ha⟩ := Option.bind_eq_some_iff.mp h
  exact ⟨s, hs, by simpa using ha⟩

/-- What is under the key has been seen. -/
theorem value_mem_seen (h : run policy value used as = some s) :
    ∀ data, s.value = some data → data ∈ s.seen := by
  induction as using List.reverseRecOn generalizing s with
  | nil =>
    obtain rfl := Option.some.inj h
    exact fun data hdata => Option.mem_toList.mpr hdata
  | append_singleton as a ih =>
    obtain ⟨t, ht, ha⟩ := run_snoc h
    have hseen := ih ht
    cases moves_of_step ha with
    | others value used =>
      exact fun data hdata => List.mem_append_right _ (Option.mem_toList.mpr hdata)
    | goes _ used phase _ _ _ => exact hseen
    | reads used _ => exact hseen
    | longer used _ _ => exact hseen

theorem result_kept (h : s.step policy a = some s') {r : Option (List UInt8)}
    (hr : s.phase = .done r) : s'.phase = .done r := by
  cases moves_of_step h with
  | others value used => exact hr
  | goes _ used phase hopen _ _ => exact absurd hr (hopen r)
  | reads used hopen => exact absurd hr (hopen r)
  | longer used hopen _ => exact absurd hr (hopen r)

theorem result_kept_run {r : Option (List UInt8)} (h : as.foldlM (step policy) s = some s')
    (hr : s.phase = .done r) : s'.phase = .done r := by
  induction as generalizing s with
  | nil =>
    obtain rfl := Option.some.inj h
    exact hr
  | cons a as ih =>
    obtain ⟨t, ha, has⟩ := Option.bind_eq_some_iff.mp h
    exact ih has (result_kept ha hr)

/-- The key holds a string that is not empty whenever it is read. -/
def KeyThere (policy : Policy) (value : Option (List UInt8)) (used : Nat) (as : List Action) : Prop :=
  ∀ before after s, as = before ++ .getrange true :: after →
    run policy value used before = some s → s.value.getD [] ≠ []

theorem KeyThere.of_snoc (h : KeyThere policy value used (as ++ [a])) :
    KeyThere policy value used as := fun before after s has hs =>
  h before (after ++ [a]) s (by simp [has]) hs

theorem whole_of_keyThere (h : run policy value used as = some s)
    (hthere : KeyThere policy value used as) {r : Option (List UInt8)} (hr : s.phase = .done r) :
    Whole s.seen r := by
  induction as using List.reverseRecOn generalizing s with
  | nil =>
    obtain rfl := Option.some.inj h
    cases hr
  | append_singleton as a ih =>
    obtain ⟨t, ht, ha⟩ := run_snoc h
    cases moves_of_step ha with
    | others value used =>
      exact fun data hdata =>
        have hwhole := ih ht hthere.of_snoc hr data hdata
        ⟨List.mem_append_left _ hwhole.1, hwhole.2⟩
    | goes _ used phase _ _ hphase =>
      obtain rfl := hphase r hr
      exact nofun
    | reads used _ =>
      obtain rfl := Phase.done.inj hr
      intro data hdata
      obtain rfl := Option.some.inj hdata
      have hne := hthere as [] t rfl ht
      obtain ⟨data, hdata⟩ : ∃ data, t.value = some data := by
        cases hv : t.value with
        | none => simp [hv] at hne
        | some data => exact ⟨data, rfl⟩
      rw [hdata] at hne ⊢
      exact ⟨value_mem_seen ht data hdata, hne⟩
    | longer used _ _ =>
      obtain rfl := Phase.done.inj hr
      exact nofun

theorem keyThere_of_whole (h : run policy value used as = some s) {r : Option (List UInt8)}
    (hr : s.phase = .done r) (hwhole : Whole s.seen r) : KeyThere policy value used as := by
  rintro before after t rfl ht hnil
  rw [run, List.foldlM_append] at h
  obtain ⟨t', ht', hafter⟩ := Option.bind_eq_some_iff.mp h
  obtain rfl := Option.some.inj (ht.symm.trans ht')
  rw [List.foldlM_cons] at hafter
  obtain ⟨u, hu, hrest⟩ := Option.bind_eq_some_iff.mp hafter
  have hempty : u.phase = .done (some []) := by
    cases moves_of_step hu with
    | goes _ used phase _ hne _ => exact absurd rfl hne
    | reads used _ => simp [finish, hnil]
    | longer used _ hvalue => exact absurd hnil hvalue
  obtain rfl := Phase.done.inj (hr.symm.trans (result_kept_run hrest hempty))
  exact (hwhole [] rfl).2 rfl

/--
A call that has returned gave nothing, or all of a string that was under the key during the call and
not an empty one, if and only if the key held a string that was not empty when it was read.
-/
theorem cached_body_whole_iff (h : run policy value used as = some s) {r : Option (List UInt8)}
    (hr : s.phase = .done r) : Whole s.seen r ↔ KeyThere policy value used as :=
  ⟨keyThere_of_whole h hr, fun hthere => whole_of_keyThere h hthere hr⟩

theorem cached_body_whole_stored :
    Whole [[0x7b, 0x7d], [0x31]] (some [0x31]) ↔
      KeyThere (.forMachine 2 (1024 * mib)) (some [0x7b, 0x7d]) 0
        [.strlen true, .reserve, .others (some [0x31]) 64, .getrange true] :=
  cached_body_whole_iff (s := ⟨some [0x31], 64, .done (some [0x31]), [[0x7b, 0x7d], [0x31]]⟩)
    (by decide) rfl

/-- The key is deleted between the two reads. -/
theorem deleted_between_reads :
    ¬ ∀ policy value used as s r, run policy value used as = some s → s.phase = .done r →
      Whole s.seen r := by
  intro h
  have hrun : run (.forMachine 2 (1024 * mib)) (some [0x7b, 0x7d]) 0
      [.strlen true, .reserve, .others none 64, .getrange true] =
      some ⟨none, 64, .done (some []), [[0x7b, 0x7d]]⟩ := by decide
  exact (h _ _ _ _ _ _ hrun rfl [] rfl).2 rfl

end CachedBody

end ThinkWatch.Resources
