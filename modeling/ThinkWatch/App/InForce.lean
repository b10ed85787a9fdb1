import ThinkWatch.App.Reload
import ThinkWatch.Lib.Run
import Mathlib.Order.MinMax

/-!
# The guards in force

A reload may store what it read before another reload that has stored something newer, and a later
provider reload that finds the secrets unchanged does not compile the guards again. In the runs in
which no store puts back an older value, the guards and the redactor in force are compiled from the
policies and secrets of the database once every reload is over.
-/

namespace ThinkWatch.App

open Lib

variable {V σ ρ : Type*} {C : Compilers V σ ρ} {s s' t : AppState V σ ρ} {a : Action V σ}
  {as : List (Action V σ)} {i j n : Nat} {x : Surface} {m m' : Made V σ} {p : Phase V σ}

/-! ## Stores in order -/

/-- Compiled from `m`, the handle does not go back behind what it was compiled from before. -/
structure Made.InOrder (x : Surface) (m old : Made V σ) : Prop where
  saved : m.saved.InOrder old.saved
  redact : m.policy.redact.InOrder old.policy.redact
  others : x = .guards → m.policy.inspectTools.InOrder old.policy.inspectTools ∧
    m.policy.content.InOrder old.policy.content

/-- The store that comes next, if one does, does not put back an older value. -/
def AppState.PhaseInOrder (s : AppState V σ ρ) : Phase V σ → Prop
  | .installing r => s.confirmed ≤ r.seen ∨ r.value = s.savedSecrets.value
  | .writing _ r => r.InOrder s.dynamicConfig
  | .compiling _ x saved (.done policy) => Made.InOrder x ⟨policy, saved⟩ (s.made x)
  | _ => True

def AppState.InOrder (s : AppState V σ ρ) : Action V σ → Prop
  | .next i => ∀ p ∈ s.calls i, s.PhaseInOrder p
  | _ => True

section Decidable

variable [DecidableEq V] [DecidableEq σ]

instance : Decidable (m.InOrder x m') :=
  decidable_of_iff (m.saved.InOrder m'.saved ∧ m.policy.redact.InOrder m'.policy.redact ∧
    (x = .guards → m.policy.inspectTools.InOrder m'.policy.inspectTools ∧
      m.policy.content.InOrder m'.policy.content))
    ⟨fun ⟨h, h', h''⟩ => ⟨h, h', h''⟩, fun ⟨h, h', h''⟩ => ⟨h, h', h''⟩⟩

instance (s : AppState V σ ρ) : (p : Phase V σ) → Decidable (s.PhaseInOrder p)
  | .installing r => inferInstanceAs (Decidable (s.confirmed ≤ r.seen ∨ r.value = _))
  | .writing _ r => inferInstanceAs (Decidable (r.InOrder s.dynamicConfig))
  | .compiling _ x saved (.done policy) =>
    inferInstanceAs (Decidable (Made.InOrder x ⟨policy, saved⟩ (s.made x)))
  | .loading | .comparing _ | .refreshing _ | .recompiling _ _ | .ended
  | .compiling _ _ _ .redact | .compiling _ _ _ (.inspectTools _)
  | .compiling _ _ _ (.content _ _) => .isTrue trivial

instance (s : AppState V σ ρ) : (a : Action V σ) → Decidable (s.InOrder a)
  | .next i => inferInstanceAs (Decidable (∀ p ∈ s.calls i, s.PhaseInOrder p))
  | .commitSecrets _ | .commitPolicies _ | .start _ _ | .fail _ => .isTrue trivial

end Decidable

/-! ## What has been read -/

/-- The database's history, and the newest read behind `saved_secrets`. -/
structure Known (V σ : Type*) where
  settings : History (Security V)
  secrets : History σ
  savedSeen : Nat

def AppState.known (s : AppState V σ ρ) : Known V σ :=
  ⟨s.settings, s.secrets, s.savedSecrets.seen⟩

variable {k k' : Known V σ}

/-- What handle `x` uses of `m` was read from the database, through the cache or `saved_secrets`. -/
structure Made.Valid (k : Known V σ) (x : Surface) (m : Made V σ) : Prop where
  redact : k.settings.Gives Security.redact m.policy.redact
  others : x = .guards → k.settings.Gives Security.inspectTools m.policy.inspectTools ∧
    k.settings.Gives Security.content m.policy.content
  saved : k.secrets.Gives id m.saved
  savedLe : m.saved.seen ≤ k.savedSeen

def Reading.Valid (h : History (Security V)) : Reading V → Prop
  | redact => True
  | inspectTools r => h.Gives Security.redact r
  | content r t => h.Gives Security.redact r ∧ h.Gives Security.inspectTools t
  | done policy => h.Gives Security.redact policy.redact ∧
      h.Gives Security.inspectTools policy.inspectTools ∧ h.Gives Security.content policy.content

def Phase.Valid (k : Known V σ) : Phase V σ → Prop
  | comparing r => k.secrets.Gives id r
  | installing r => k.secrets.Gives id r
  | writing _ r => k.settings.Gives id r
  | compiling _ _ saved reading =>
    k.secrets.Gives id saved ∧ saved.seen ≤ k.savedSeen ∧ reading.Valid k.settings
  | _ => True

/-- The reload will still store handle `x`, compiled from the `n`th secrets or newer ones. -/
def Phase.WillStore (x : Surface) (n : Nat) : Phase V σ → Prop
  | recompiling _ y => y = .guards ∨ y = x
  | compiling how y saved _ =>
    (y = x ∧ n ≤ saved.seen) ∨
      (y = .guards ∧ x = .blobRedactor ∧ (how = .each ∨ n ≤ saved.seen))
  | _ => False

/-- What every step in order keeps. -/
structure AppState.Inv (C : Compilers V σ ρ) (s : AppState V σ ρ) : Prop where
  saved : s.secrets.Gives id s.savedSecrets
  confirmed : s.secrets.Gives id ⟨s.savedSecrets.value, s.confirmed⟩
  savedLe : s.savedSecrets.seen ≤ s.confirmed
  config : s.settings.Gives id s.dynamicConfig
  calls : ∀ i p, s.calls i = some p → p.Valid s.known
  guards : s.guards = .new C (s.made .guards).security (s.made .guards).saved.value
  blobRedactor : s.blobRedactor =
    C.blobRedactor (s.made .blobRedactor).security.redact (s.made .blobRedactor).saved.value
  made : ∀ x, (s.made x).Valid s.known x

/-- Handle `x` is compiled from the saved secrets in place, or will be. -/
def AppState.Pending (s : AppState V σ ρ) (x : Surface) : Prop :=
  (s.made x).saved.seen = s.savedSecrets.seen ∨
    ∃ i p, s.calls i = some p ∧ p.WillStore x s.savedSecrets.seen

theorem Made.Valid.replacing (hm : m.Valid k x) (hm' : m'.Valid k x) (hin : m.InOrder x m') :
    (m.replacing m').Valid k x where
  redact := hm.redact.replacing hm'.redact hin.redact
  others := fun hx => ⟨(hm.others hx).1.replacing (hm'.others hx).1 (hin.others hx).1,
    (hm.others hx).2.replacing (hm'.others hx).2 (hin.others hx).2⟩
  saved := hm.saved.replacing hm'.saved hin.saved
  savedLe := max_le hm'.savedLe hm.savedLe

/-! ## What grows -/

/-- What was read stays read. -/
structure Known.Grows (k k' : Known V σ) : Prop where
  policy : ∀ {f : Security V → V} {r : Read V}, k.settings.Gives f r → k'.settings.Gives f r
  policies : ∀ {r : Read (Security V)}, k.settings.Gives id r → k'.settings.Gives id r
  secrets : ∀ {r : Read σ}, k.secrets.Gives id r → k'.secrets.Gives id r
  savedSeen : k.savedSeen ≤ k'.savedSeen

namespace Known.Grows

theorem made (h : k.Grows k') (hm : m.Valid k x) : m.Valid k' x where
  redact := h.policy hm.redact
  others := fun hx => ⟨h.policy (hm.others hx).1, h.policy (hm.others hx).2⟩
  saved := h.secrets hm.saved
  savedLe := hm.savedLe.trans h.savedSeen

theorem reading {r : Reading V} (h : k.Grows k') (hr : r.Valid k.settings) :
    r.Valid k'.settings := by
  cases r with
  | redact => trivial
  | inspectTools r => exact h.policy hr
  | content r t => exact ⟨h.policy hr.1, h.policy hr.2⟩
  | done policy => exact ⟨h.policy hr.1, h.policy hr.2.1, h.policy hr.2.2⟩

theorem phase (h : k.Grows k') (hp : p.Valid k) : p.Valid k' := by
  cases p with
  | comparing r => exact h.secrets hp
  | installing r => exact h.secrets hp
  | writing how r => exact h.policies hp
  | compiling how x saved reading =>
    exact ⟨h.secrets hp.1, hp.2.1.trans h.savedSeen, h.reading hp.2.2⟩
  | loading | refreshing _ | recompiling _ _ | ended => trivial

theorem commitSecrets (s : AppState V σ ρ) (y : σ) :
    s.known.Grows ⟨s.settings, s.secrets.commit y, s.savedSecrets.seen⟩ :=
  ⟨id, id, History.Gives.commit, le_rfl⟩

theorem commitPolicies (s : AppState V σ ρ) (y : Security V) :
    s.known.Grows ⟨s.settings.commit y, s.secrets, s.savedSecrets.seen⟩ :=
  ⟨History.Gives.commit, History.Gives.commit, id, le_rfl⟩

theorem install (s : AppState V σ ρ) (r : Read σ) : s.known.Grows (s.install r).known :=
  ⟨id, id, id, le_max_left _ _⟩

end Known.Grows

/-! ## The invariant, step by step -/

namespace AppState

/-- The next phase of a reload. -/
theorem Inv.go (h : s.Inv C) (hp : p.Valid s.known) : (s.go i p).Inv C :=
  { h with
    calls := by
      intro j q hj
      rcases Threads.set_eq_some hj with ⟨-, rfl⟩ | ⟨-, hj⟩
      · exact hp
      · exact h.calls j q hj }

theorem Inv.commitSecrets {y : σ} (h : s.Inv C) :
    Inv C { s with secrets := s.secrets.commit y } :=
  { h with
    saved := h.saved.commit
    confirmed := h.confirmed.commit
    calls := fun i p hi => (Known.Grows.commitSecrets s y).phase (h.calls i p hi)
    made := fun x => (Known.Grows.commitSecrets s y).made (h.made x) }

theorem Inv.commitPolicies {y : Security V} (h : s.Inv C) :
    Inv C { s with settings := s.settings.commit y } :=
  { h with
    config := h.config.commit
    calls := fun i p hi => (Known.Grows.commitPolicies s y).phase (h.calls i p hi)
    made := fun x => (Known.Grows.commitPolicies s y).made (h.made x) }

/-- The secrets read are those in place. -/
theorem Inv.confirm {r : Read σ} (h : s.Inv C) (hr : s.secrets.Gives id r)
    (heq : s.savedSecrets.value = r.value) :
    Inv C { s with confirmed := max s.confirmed r.seen } :=
  { h with
    confirmed := by
      rcases Nat.le_total s.confirmed r.seen with hle | hle
      · simp only [Nat.max_eq_right hle, heq]
        exact hr
      · simp only [Nat.max_eq_left hle]
        exact h.confirmed
    savedLe := h.savedLe.trans (le_max_left _ _) }

theorem Inv.install {r : Read σ} (h : s.Inv C) (hr : s.secrets.Gives id r)
    (hin : s.confirmed ≤ r.seen ∨ r.value = s.savedSecrets.value) : (s.install r).Inv C :=
  { h with
    saved := by
      refine hr.replacing h.saved ?_
      exact hin.imp (fun hle => h.savedLe.trans hle) id
    confirmed := by
      have hconfirmed : r.InOrder ⟨s.savedSecrets.value, s.confirmed⟩ := hin
      exact hr.replacing h.confirmed hconfirmed
    savedLe := max_le_max h.savedLe le_rfl
    calls := fun i p hi => (Known.Grows.install s r).phase (h.calls i p hi)
    made := fun x => (Known.Grows.install s r).made (h.made x) }

theorem Inv.write {r : Read (Security V)} (h : s.Inv C) (hr : s.settings.Gives id r)
    (hin : r.InOrder s.dynamicConfig) :
    Inv C { s with dynamicConfig := r.replacing s.dynamicConfig } :=
  { h with config := hr.replacing h.config hin }

theorem Inv.store (h : s.Inv C) (hm : m.Valid s.known x) (hin : m.InOrder x (s.made x)) :
    (s.store C x m).Inv C := by
  have hmade : ∀ y, (Function.update s.made x (m.replacing (s.made x)) y).Valid s.known y := by
    intro y
    by_cases hy : y = x
    · subst hy
      rw [Function.update_self]
      exact hm.replacing (h.made y) hin
    · rw [Function.update_of_ne hy]
      exact h.made y
  cases x with
  | guards => exact { h with guards := rfl, made := hmade }
  | blobRedactor => exact { h with blobRedactor := rfl, made := hmade }

/-- One more setting is read. -/
theorem Inv.next {r : Reading V} (h : s.Inv C) (hr : r.Valid s.settings) :
    (r.next s.dynamicConfig).Valid s.settings := by
  cases r with
  | redact => exact h.config.map
  | inspectTools r => exact ⟨hr, h.config.map⟩
  | content r t => exact ⟨hr.1, hr.2, h.config.map⟩
  | done policy => exact hr

/-! ## The saved secrets in place reach the handles -/

theorem Pending.of_calls (h : s.Pending x) (hmade : s'.made = s.made)
    (hsaved : s'.savedSecrets.seen = s.savedSecrets.seen)
    (hcalls : ∀ i p, s.calls i = some p → p.WillStore x s.savedSecrets.seen →
      ∃ q, s'.calls i = some q ∧ q.WillStore x s.savedSecrets.seen) : s'.Pending x := by
  unfold Pending
  rw [hmade, hsaved]
  refine h.imp id fun ⟨i, p, hi, hp⟩ => ?_
  obtain ⟨q, hq, hqw⟩ := hcalls i p hi hp
  exact ⟨i, q, hq, hqw⟩

/-- A reload that goes on without giving up a store. -/
theorem Pending.go {q : Phase V σ} (h : s.Pending x)
    (hi : ∀ p, s.calls i = some p → p.WillStore x s.savedSecrets.seen →
      q.WillStore x s.savedSecrets.seen) : (s.go i q).Pending x := by
  refine h.of_calls rfl rfl fun j p hj hp => ?_
  by_cases hji : j = i
  · subst hji
    exact ⟨q, Threads.set_self _ _ _, hi p hj hp⟩
  · exact ⟨p, (Threads.set_ne _ hji _).trans hj, hp⟩

theorem Pending.goOn {q : Phase V σ} (h : s.Pending x) (hi : s.calls i = some p)
    (hq : p.WillStore x s.savedSecrets.seen → q.WillStore x s.savedSecrets.seen) :
    (s.go i q).Pending x := by
  refine h.go fun p' hp' hw => hq ?_
  rw [hi] at hp'
  cases hp'
  exact hw

/-- The reload that installs secrets will compile both handles with them. -/
theorem pending_install (s : AppState V σ ρ) (r : Read σ) (i : Nat) (x : Surface) :
    ((s.install r).go i (.recompiling .once .guards)).Pending x :=
  .inr ⟨i, _, Threads.set_self _ _ _, .inl rfl⟩

theorem afterStore_willStore {how : Recompile} {saved : Read σ} {y : Surface} {r : Reading V}
    (hxy : x ≠ y) (h : (Phase.compiling how y saved r).WillStore x n) :
    (afterStore how saved y : Phase V σ).WillStore x n := by
  obtain ⟨rfl, -⟩ | ⟨rfl, rfl, h⟩ := h
  · exact absurd rfl hxy
  · cases how with
    | once => exact .inl ⟨rfl, h.resolve_left nofun⟩
    | each => exact .inr rfl

/-- A handle stored from the newest saved secrets is so; one stored from older ones waits. -/
theorem Pending.store {how : Recompile} {saved : Read σ} {policy : Security (Read V)} {y : Surface}
    (h : s.Pending x) (hold : (s.made y).saved.seen ≤ s.savedSecrets.seen)
    (hnew : saved.seen ≤ s.savedSecrets.seen)
    (hi : s.calls i = some (.compiling how y saved (.done policy))) :
    ((s.store C y ⟨policy, saved⟩).go i (afterStore how saved y)).Pending x := by
  unfold Pending AppState.go
  simp only [store_made, store_savedSecrets, store_calls]
  by_cases hxy : x = y
  · subst hxy
    rw [Function.update_self]
    show max _ saved.seen = _ ∨ _
    rcases h with h | ⟨j, p, hj, hp⟩
    · exact .inl ((congrArg (max · saved.seen) h).trans (max_eq_left hnew))
    · by_cases hji : j = i
      · -- the store that was waited for
        subst hji
        obtain rfl := Option.some.inj (hi.symm.trans hj)
        rcases hp with ⟨-, hle⟩ | ⟨hg, hb, -⟩
        · exact .inl (le_antisymm (max_le hold hnew) (hle.trans (le_max_right _ _)))
        · exact nomatch hg.symm.trans hb
      · exact .inr ⟨j, p, (Threads.set_ne _ hji _).trans hj, hp⟩
  · rw [Function.update_of_ne hxy]
    refine h.imp id fun ⟨j, p, hj, hp⟩ => ?_
    by_cases hji : j = i
    · subst hji
      obtain rfl := Option.some.inj (hi.symm.trans hj)
      exact ⟨j, _, Threads.set_self _ _ _, afterStore_willStore hxy hp⟩
    · exact ⟨j, p, (Threads.set_ne _ hji _).trans hj, hp⟩

end AppState

/-! ## One step -/

namespace AppState

/-- Every handle is compiled from the database's history and up to date, or will be. -/
structure Sound (C : Compilers V σ ρ) (s : AppState V σ ρ) : Prop where
  inv : s.Inv C
  pending : ∀ x, s.Pending x

theorem sound_start (C : Compilers V σ ρ) (policy : Security V) (secrets none : σ) :
    (start C policy secrets none).Sound C where
  inv :=
    { saved := rfl
      confirmed := rfl
      savedLe := le_rfl
      config := rfl
      calls := nofun
      guards := rfl
      blobRedactor := rfl
      made := fun _ => ⟨rfl, fun _ => ⟨rfl, rfl⟩, rfl, le_rfl⟩ }
  pending := fun _ => .inl rfl

variable [DecidableEq σ]

/-- What a step may be. -/
theorem step_cases (h : s.step C a = some s') :
    (∃ y, a = .commitSecrets y ∧ s' = { s with secrets := s.secrets.commit y }) ∨
    (∃ y, a = .commitPolicies y ∧ s' = { s with settings := s.settings.commit y }) ∨
    (∃ i r, a = .start i r ∧ s.calls i = none ∧ s' = s.go i r.phase) ∨
    (∃ i p, a = .next i ∧ s.calls i = some p ∧ s.advance C i p = some s') ∨
    ∃ i p, a = .fail i ∧ s.calls i = some p ∧ (p = .loading ∨ ∃ how, p = .refreshing how) ∧
      s' = s.go i .ended := by
  cases a with
  | commitSecrets y => exact .inl ⟨y, rfl, (Option.some.inj h).symm⟩
  | commitPolicies y => exact .inr (.inl ⟨y, rfl, (Option.some.inj h).symm⟩)
  | start i r =>
    simp only [step] at h
    split at h
    next hi => exact .inr (.inr (.inl ⟨i, r, rfl, hi, (Option.some.inj h).symm⟩))
    next => cases h
  | next i =>
    obtain ⟨p, hi, h⟩ := Option.bind_eq_some_iff.mp h
    exact .inr (.inr (.inr (.inl ⟨i, p, rfl, hi, h⟩)))
  | fail i =>
    simp only [step] at h
    split at h
    next hi =>
      exact .inr (.inr (.inr (.inr ⟨i, _, rfl, hi, .inl rfl, (Option.some.inj h).symm⟩)))
    next how hi =>
      exact .inr (.inr (.inr (.inr ⟨i, _, rfl, hi, .inr ⟨how, rfl⟩, (Option.some.inj h).symm⟩)))
    next => cases h

theorem Sound.advance (h : s.Sound C) (hi : s.calls i = some p) (hin : s.PhaseInOrder p)
    (hs : s.advance C i p = some s') : s'.Sound C := by
  have hp := h.inv.calls i p hi
  cases p with
  | loading =>
    obtain rfl := Option.some.inj hs
    exact ⟨h.inv.go History.gives_read, fun x => (h.pending x).goOn hi nofun⟩
  | comparing r =>
    simp only [AppState.advance] at hs
    split at hs
    next heq =>
      -- the secrets in place are the ones read: nothing is compiled
      obtain rfl := Option.some.inj hs
      refine ⟨(h.inv.confirm hp heq).go trivial, fun x => ?_⟩
      have hpending : Pending { s with confirmed := max s.confirmed r.seen } x := h.pending x
      exact hpending.goOn hi nofun
    next =>
      obtain rfl := Option.some.inj hs
      exact ⟨h.inv.go hp, fun x => (h.pending x).goOn hi nofun⟩
  | installing r =>
    -- no handle is up to date any more: the reload itself will compile them
    obtain rfl := Option.some.inj hs
    exact ⟨(h.inv.install hp hin).go trivial, pending_install s r i⟩
  | refreshing how =>
    obtain rfl := Option.some.inj hs
    exact ⟨h.inv.go History.gives_read, fun x => (h.pending x).goOn hi nofun⟩
  | writing how r =>
    obtain rfl := Option.some.inj hs
    refine ⟨(h.inv.write hp hin).go (by cases how <;> trivial), fun x => ?_⟩
    have hpending : Pending { s with dynamicConfig := r.replacing s.dynamicConfig } x := h.pending x
    exact hpending.goOn hi nofun
  | recompiling how y =>
    obtain rfl := Option.some.inj hs
    refine ⟨h.inv.go ⟨h.inv.saved, le_rfl, trivial⟩, fun x => (h.pending x).goOn hi fun hw => ?_⟩
    rcases hw with rfl | rfl
    · cases x with
      | guards => exact .inl ⟨rfl, le_rfl⟩
      | blobRedactor => exact .inr ⟨rfl, rfl, .inr le_rfl⟩
    · exact .inl ⟨rfl, le_rfl⟩
  | compiling how y saved reading =>
    have hnext : ∀ q : Reading V, q.Valid s.settings →
        Sound C (s.go i (.compiling how y saved q)) := fun q hq =>
      ⟨h.inv.go ⟨hp.1, hp.2.1, hq⟩, fun x => (h.pending x).goOn hi id⟩
    cases reading with
    | done policy =>
      obtain rfl := Option.some.inj hs
      have hvalid : Made.Valid s.known y ⟨policy, saved⟩ :=
        ⟨hp.2.2.1, fun _ => hp.2.2.2, hp.1, hp.2.1⟩
      refine ⟨Inv.go (h.inv.store hvalid hin) ?_, fun x =>
        (h.pending x).store (h.inv.made y).savedLe hp.2.1 hi⟩
      simp only [known, store_settings, store_secrets, store_savedSecrets]
      cases y with
      | guards =>
        cases how with
        | once => exact ⟨hp.1, hp.2.1, trivial⟩
        | each => trivial
      | blobRedactor => trivial
    | redact | inspectTools _ | content _ _ =>
      obtain rfl := Option.some.inj hs
      exact hnext _ (h.inv.next hp.2.2)
  | ended => cases hs

theorem Sound.step (h : s.Sound C) (hin : s.InOrder a) (hs : s.step C a = some s') :
    s'.Sound C := by
  obtain ⟨y, rfl, rfl⟩ | ⟨y, rfl, rfl⟩ | ⟨i, r, rfl, hi, rfl⟩ | ⟨i, p, rfl, hi, hs⟩ |
    ⟨i, p, rfl, hi, hp, rfl⟩ := step_cases hs
  · exact ⟨h.inv.commitSecrets, h.pending⟩
  · exact ⟨h.inv.commitPolicies, h.pending⟩
  · refine ⟨h.inv.go (by cases r <;> trivial), fun x => (h.pending x).go fun q hq hw => ?_⟩
    rw [hi] at hq
    cases hq
  · exact h.advance hi (hin p hi) hs
  · -- a read of the database has failed: the reload had stored nothing yet
    obtain rfl | ⟨how, rfl⟩ := hp
    · exact ⟨h.inv.go trivial, fun x => (h.pending x).goOn hi nofun⟩
    · exact ⟨h.inv.go trivial, fun x => (h.pending x).goOn hi nofun⟩

end AppState

/-! ## What a reload brings -/

/-- What handle `x` uses of `m` was read when the policies had been changed `n` times. -/
structure Made.UpToDate (x : Surface) (n : Nat) (m : Made V σ) : Prop where
  redact : m.policy.redact.seen = n
  others : x = .guards → m.policy.inspectTools.seen = n ∧ m.policy.content.seen = n

def Reading.UpToDate (n : Nat) : Reading V → Prop
  | redact => True
  | inspectTools r => r.seen = n
  | content r t => r.seen = n ∧ t.seen = n
  | done policy => policy.redact.seen = n ∧ policy.inspectTools.seen = n ∧ policy.content.seen = n

/-- The reload will bring the secrets as they are after `n` changes. -/
def Phase.BringsSecrets (n : Nat) : Phase V σ → Prop
  | loading => True
  | comparing r => r.seen = n
  | installing r => r.seen = n
  | _ => False

/--
The reload will store handle `x`, compiled from the policies as they are after `n` changes; `cached`
is the read behind the settings' cache.
-/
def Phase.BringsPolicies (x : Surface) (n cached : Nat) : Phase V σ → Prop
  | refreshing how => how.isSome
  | writing how r => how.isSome ∧ r.seen = n
  | recompiling _ y => cached = n ∧ (y = .guards ∨ y = x)
  | compiling _ y _ reading =>
    cached = n ∧ ((y = x ∧ reading.UpToDate n) ∨ (y = .guards ∧ x = .blobRedactor))
  | _ => False

namespace AppState

/-- Reload `i` has brought the secrets of the database, or will. -/
def SecretsFrom (s : AppState V σ ρ) (i : Nat) : Prop :=
  s.confirmed = s.secrets.count ∨ ∃ p, s.calls i = some p ∧ p.BringsSecrets s.secrets.count

/-- Reload `i` has compiled handle `x` from the policies of the database, or will. -/
def PoliciesFrom (s : AppState V σ ρ) (i : Nat) (x : Surface) : Prop :=
  (s.made x).UpToDate x s.settings.count ∨
    ∃ p, s.calls i = some p ∧ p.BringsPolicies x s.settings.count s.dynamicConfig.seen

/-- Another reload starts, or ends. -/
theorem SecretsFrom.other (h : s.SecretsFrom i) (hne : ∀ q, s.calls i = some q → i ≠ j)
    (p : Phase V σ) : (s.go j p).SecretsFrom i :=
  h.imp id fun ⟨q, hi, hq⟩ => ⟨q, (Threads.set_ne _ (hne q hi) _).trans hi, hq⟩

theorem PoliciesFrom.other (h : s.PoliciesFrom i x) (hne : ∀ q, s.calls i = some q → i ≠ j)
    (p : Phase V σ) : (s.go j p).PoliciesFrom i x :=
  h.imp id fun ⟨q, hi, hq⟩ => ⟨q, (Threads.set_ne _ (hne q hi) _).trans hi, hq⟩

theorem ne_of_free {q : Phase V σ} (hj : s.calls j = none) (hi : s.calls i = some q) : i ≠ j := by
  rintro rfl
  rw [hj] at hi
  cases hi

/-- What one reload's step leaves alone, and what only grows. -/
structure Advances (s s' : AppState V σ ρ) (j : Nat) : Prop where
  settings : s'.settings = s.settings
  secrets : s'.secrets = s.secrets
  calls : ∀ i, i ≠ j → s'.calls i = s.calls i
  config : s.dynamicConfig.seen ≤ s'.dynamicConfig.seen
  confirmed : s.confirmed ≤ s'.confirmed
  redact : ∀ x, (s.made x).policy.redact.seen ≤ (s'.made x).policy.redact.seen
  inspectTools : ∀ x, (s.made x).policy.inspectTools.seen ≤ (s'.made x).policy.inspectTools.seen
  content : ∀ x, (s.made x).policy.content.seen ≤ (s'.made x).policy.content.seen

theorem advances_go (s : AppState V σ ρ) (j : Nat) (p : Phase V σ) : s.Advances (s.go j p) j :=
  ⟨rfl, rfl, fun _ h => Threads.set_ne _ h _, le_rfl, le_rfl, fun _ => le_rfl, fun _ => le_rfl,
    fun _ => le_rfl⟩

theorem Advances.go (h : s.Advances s' j) (p : Phase V σ) : s.Advances (s'.go j p) j :=
  { h with calls := fun i hi => (Threads.set_ne _ hi _).trans (h.calls i hi) }

theorem advances_store (C : Compilers V σ ρ) (s : AppState V σ ρ) (j : Nat) (x : Surface)
    (m : Made V σ) : s.Advances (s.store C x m) j := by
  have hmade : ∀ {f : Made V σ → Nat}, f (s.made x) ≤ f (m.replacing (s.made x)) → ∀ y,
      f (s.made y) ≤ f (Function.update s.made x (m.replacing (s.made x)) y) := by
    intro f hf y
    by_cases hy : y = x
    · subst hy
      rw [Function.update_self]
      exact hf
    · rw [Function.update_of_ne hy]
  cases x <;>
  exact ⟨rfl, rfl, fun _ _ => rfl, le_rfl, le_rfl,
    hmade (f := fun m => m.policy.redact.seen) (le_max_left _ _),
    hmade (f := fun m => m.policy.inspectTools.seen) (le_max_left _ _),
    hmade (f := fun m => m.policy.content.seen) (le_max_left _ _)⟩

section

variable [DecidableEq σ]

theorem advances_advance (h : s.advance C j p = some s') : s.Advances s' j := by
  cases p with
  | loading | refreshing _ | recompiling _ _ =>
    obtain rfl := Option.some.inj h
    exact advances_go s j _
  | comparing r =>
    simp only [advance] at h
    split at h
    next =>
      obtain rfl := Option.some.inj h
      exact { advances_go s j .ended with confirmed := le_max_left _ _ }
    next =>
      obtain rfl := Option.some.inj h
      exact advances_go s j _
  | installing r =>
    obtain rfl := Option.some.inj h
    exact { advances_go s j (.recompiling .once .guards) with confirmed := le_max_left _ _ }
  | writing how r =>
    obtain rfl := Option.some.inj h
    exact { advances_go s j (afterWrite how) with config := le_max_left _ _ }
  | compiling how x saved reading =>
    cases reading with
    | done policy =>
      obtain rfl := Option.some.inj h
      exact (advances_store C s j x ⟨policy, saved⟩).go _
    | redact | inspectTools _ | content _ _ =>
      obtain rfl := Option.some.inj h
      exact advances_go s j _
  | ended => cases h

end

/-- What is up to date stays so. -/
theorem upToDate_advances (h : (s.made x).UpToDate x s.settings.count) (hadv : s.Advances s' j)
    (hs' : s'.Inv C) : (s'.made x).UpToDate x s'.settings.count := by
  have hcount : s'.settings.count = s.settings.count := congrArg History.count hadv.settings
  have hvalid := hs'.made x
  refine ⟨le_antisymm hvalid.redact.le ?_, fun hx => ⟨le_antisymm (hvalid.others hx).1.le ?_,
    le_antisymm (hvalid.others hx).2.le ?_⟩⟩
  · rw [hcount, ← h.redact]
    exact hadv.redact x
  · rw [hcount, ← (h.others hx).1]
    exact hadv.inspectTools x
  · rw [hcount, ← (h.others hx).2]
    exact hadv.content x

theorem config_advances (h : s.dynamicConfig.seen = s.settings.count) (hadv : s.Advances s' j)
    (hs' : s'.Inv C) : s'.dynamicConfig.seen = s'.settings.count := by
  refine le_antisymm hs'.config.le ?_
  rw [hadv.settings, ← h]
  exact hadv.config

theorem confirmed_advances (h : s.confirmed = s.secrets.count) (hadv : s.Advances s' j)
    (hs' : s'.Inv C) : s'.confirmed = s'.secrets.count := by
  refine le_antisymm hs'.confirmed.le ?_
  rw [hadv.secrets, ← h]
  exact hadv.confirmed

/-- Once no reload is running, what was brought is in force. -/
theorem Sound.current (h : s.Sound C) (hquiet : s.Quiet) (hsecrets : s.SecretsFrom i)
    (hpolicies : ∀ x, s.PoliciesFrom j x) : s.Current C := by
  have hconfirmed : s.confirmed = s.secrets.count := by
    refine hsecrets.resolve_right fun ⟨p, hp, hbrings⟩ => ?_
    obtain rfl := hquiet i p hp
    exact hbrings
  have hupToDate : ∀ x, (s.made x).UpToDate x s.settings.count := by
    intro x
    refine (hpolicies x).resolve_right fun ⟨p, hp, hbrings⟩ => ?_
    obtain rfl := hquiet j p hp
    exact hbrings
  have hseen : ∀ x, (s.made x).saved.seen = s.savedSecrets.seen := by
    intro x
    refine (h.pending x).resolve_right fun ⟨k, p, hp, hwill⟩ => ?_
    obtain rfl := hquiet k p hp
    exact hwill
  have hsaved : s.savedSecrets.value = s.secrets.now := h.inv.confirmed.value_now hconfirmed
  have hmade : ∀ x, (s.made x).saved.value = s.secrets.now := fun x =>
    ((h.inv.made x).saved.value_eq h.inv.saved (hseen x)).trans hsaved
  have hredact : ∀ x, (s.made x).policy.redact.value = s.settings.now.redact := fun x =>
    (h.inv.made x).redact.value_now (hupToDate x).redact
  have hothers := (h.inv.made .guards).others rfl
  have hseenOthers := (hupToDate .guards).others rfl
  refine ⟨hsaved, ?_, ?_⟩
  · rw [h.inv.guards, hmade]
    unfold Guards.new Made.security
    simp only [hredact, hothers.1.value_now hseenOthers.1, hothers.2.value_now hseenOthers.2]
    rfl
  · rw [h.inv.blobRedactor, hmade]
    unfold Made.security
    simp only [hredact]

/-- One more setting is read from the cache. -/
theorem upToDate_next {r : Reading V} (h : r.UpToDate n) (hc : s.dynamicConfig.seen = n) :
    (r.next s.dynamicConfig).UpToDate n := by
  cases r with
  | redact => exact hc
  | inspectTools r => exact ⟨h, hc⟩
  | content r t => exact ⟨h.1, h.2, hc⟩
  | done policy => exact h

theorem upToDate_replacing (h : Reading.UpToDate n (.done m.policy))
    (hm : (m.replacing m').Valid s.known x) (hn : s.settings.count = n) :
    (m.replacing m').UpToDate x n := by
  subst hn
  refine ⟨le_antisymm hm.redact.le ?_, fun hx => ⟨le_antisymm (hm.others hx).1.le ?_,
    le_antisymm (hm.others hx).2.le ?_⟩⟩
  · exact h.1.symm.le.trans (le_max_right _ _)
  · exact h.2.1.symm.le.trans (le_max_right _ _)
  · exact h.2.2.symm.le.trans (le_max_right _ _)

variable [DecidableEq σ]

/-- The next step of the reload that brings the secrets. -/
theorem secretsFrom_advance (h : p.BringsSecrets s.secrets.count)
    (hs : s.advance C i p = some s') (hs' : s'.Inv C) : s'.SecretsFrom i := by
  cases p with
  | loading =>
    obtain rfl := Option.some.inj hs
    exact .inr ⟨_, Threads.set_self _ _ _, rfl⟩
  | comparing r =>
    simp only [AppState.advance] at hs
    split at hs
    next =>
      obtain rfl := Option.some.inj hs
      refine .inl (le_antisymm hs'.confirmed.le ?_)
      have hr : r.seen = s.secrets.count := h
      show s.secrets.count ≤ max s.confirmed r.seen
      rw [hr]
      exact le_max_right _ _
    next =>
      obtain rfl := Option.some.inj hs
      exact .inr ⟨_, Threads.set_self _ _ _, h⟩
  | installing r =>
    obtain rfl := Option.some.inj hs
    refine .inl (le_antisymm hs'.confirmed.le ?_)
    have hr : r.seen = s.secrets.count := h
    show s.secrets.count ≤ max s.confirmed r.seen
    rw [hr]
    exact le_max_right _ _
  | refreshing _ | writing _ _ | recompiling _ _ | compiling _ _ _ _ | ended => cases h

theorem SecretsFrom.step (h : s.SecretsFrom i) (hstep : s.step C a = some s') (hs' : s'.Inv C)
    (ha : ∀ y, a ≠ .commitSecrets y) (hf : a ≠ .fail i) : s'.SecretsFrom i := by
  obtain ⟨y, rfl, rfl⟩ | ⟨y, rfl, rfl⟩ | ⟨j, r, rfl, hj, rfl⟩ | ⟨j, p, rfl, hj, hs⟩ |
    ⟨j, p, rfl, hj, hp, rfl⟩ := step_cases hstep
  · exact absurd rfl (ha y)
  · exact h
  · exact h.other (fun q hi => ne_of_free hj hi) _
  · rcases h with h | ⟨q, hi, hq⟩
    · exact .inl (confirmed_advances h (advances_advance hs) hs')
    · by_cases hij : i = j
      · subst hij
        obtain rfl := Option.some.inj (hj.symm.trans hi)
        exact secretsFrom_advance hq hs hs'
      · refine .inr ⟨q, ((advances_advance hs).calls i hij).trans hi, ?_⟩
        rw [(advances_advance hs).secrets]
        exact hq
  · refine h.other (fun q _ => ?_) _
    rintro rfl
    exact hf rfl

/-- The next step of the reload that brings the policies. -/
theorem policiesFrom_advance (h : p.BringsPolicies x s.settings.count s.dynamicConfig.seen)
    (hs : s.advance C i p = some s') (hs' : s'.Inv C) : s'.PoliciesFrom i x := by
  cases p with
  | refreshing how =>
    obtain rfl := Option.some.inj hs
    exact .inr ⟨_, Threads.set_self _ _ _, h, rfl⟩
  | writing how r =>
    obtain ⟨hhow, hr⟩ := h
    cases how with
    | none => cases hhow
    | some how =>
      obtain rfl := Option.some.inj hs
      refine .inr ⟨_, Threads.set_self _ _ _, le_antisymm hs'.config.le ?_, .inl rfl⟩
      exact hr.symm.le.trans (le_max_right _ _)
  | recompiling how y =>
    obtain rfl := Option.some.inj hs
    obtain ⟨hc, hy⟩ := h
    refine .inr ⟨_, Threads.set_self _ _ _, hc, ?_⟩
    rcases hy with rfl | rfl
    · cases x with
      | guards => exact .inl ⟨rfl, trivial⟩
      | blobRedactor => exact .inr ⟨rfl, rfl⟩
    · exact .inl ⟨rfl, trivial⟩
  | compiling how y saved reading =>
    obtain ⟨hc, hy⟩ := h
    cases reading with
    | done policy =>
      obtain rfl := Option.some.inj hs
      have hcalls : ((s.store C y ⟨policy, saved⟩).go i (afterStore how saved y)).calls i =
          some (afterStore how saved y) := Threads.set_self _ _ _
      rcases hy with ⟨rfl, hr⟩ | ⟨rfl, rfl⟩
      · refine .inl ?_
        have hmade := hs'.made y
        simp only [AppState.go, known, store_settings, store_secrets, store_savedSecrets,
          store_made, Function.update_self] at hmade ⊢
        exact upToDate_replacing (s := s) hr hmade rfl
      · refine .inr ⟨_, hcalls, ?_⟩
        cases how with
        | once => exact ⟨hc, .inl ⟨rfl, trivial⟩⟩
        | each => exact ⟨hc, .inr rfl⟩
    | redact | inspectTools _ | content _ _ =>
      obtain rfl := Option.some.inj hs
      refine .inr ⟨_, Threads.set_self _ _ _, hc, hy.imp (fun hy => ⟨hy.1, ?_⟩) id⟩
      exact upToDate_next hy.2 hc
  | loading | comparing _ | installing _ | ended => cases h

theorem PoliciesFrom.step (h : s.PoliciesFrom i x) (hstep : s.step C a = some s') (hs' : s'.Inv C)
    (ha : ∀ y, a ≠ .commitPolicies y) (hf : a ≠ .fail i) : s'.PoliciesFrom i x := by
  obtain ⟨y, rfl, rfl⟩ | ⟨y, rfl, rfl⟩ | ⟨j, r, rfl, hj, rfl⟩ | ⟨j, p, rfl, hj, hs⟩ |
    ⟨j, p, rfl, hj, hp, rfl⟩ := step_cases hstep
  · exact h
  · exact absurd rfl (ha y)
  · exact h.other (fun q hi => ne_of_free hj hi) _
  · have hadv := advances_advance hs
    rcases h with h | ⟨q, hi, hq⟩
    · exact .inl (upToDate_advances h hadv hs')
    · by_cases hij : i = j
      · subst hij
        obtain rfl := Option.some.inj (hj.symm.trans hi)
        exact policiesFrom_advance hq hs hs'
      · -- another reload may write the settings' cache, but nothing older
        refine .inr ⟨q, (hadv.calls i hij).trans hi, ?_⟩
        have hconfig := fun h => config_advances h hadv hs'
        rw [hadv.settings] at hconfig ⊢
        cases q with
        | recompiling how y => exact hq.imp hconfig id
        | compiling how y saved reading => exact hq.imp hconfig id
        | refreshing _ | writing _ _ => exact hq
        | loading | comparing _ | installing _ | ended => cases hq
  · refine h.other (fun q _ => ?_) _
    rintro rfl
    exact hf rfl

/-! ## Whole runs -/

/-- A step whose store, if it makes one, does not put back an older value. -/
def StepInOrder (C : Compilers V σ ρ) (s : AppState V σ ρ) (a : Action V σ)
    (s' : AppState V σ ρ) : Prop :=
  s.InOrder a ∧ s.step C a = some s'

theorem Sound.run (h : Steps (StepInOrder C) s as t) (hs : s.Sound C) : t.Sound C :=
  h.invariant (fun _ _ _ hs ha => hs.step ha.1 ha.2) hs

/-- What every step but a change and a failed read of reload `i` keeps, a run without them keeps. -/
theorem kept_run {α : Type*} {change : α → Action V σ} {P : AppState V σ ρ → Prop}
    (hP : ∀ {s a s'}, P s → s.step C a = some s' → s'.Inv C → (∀ y, a ≠ change y) → a ≠ .fail i →
      P s') (h : Steps (StepInOrder C) s as t) (hs : s.Sound C) (hi : P s)
    (hchange : ∀ y, change y ∉ as) (hfail : .fail i ∉ as) : P t := by
  have hother : ∀ a ∈ as, (∀ y, a ≠ change y) ∧ a ≠ .fail i := fun a ha =>
    ⟨fun y he => hchange y (he ▸ ha), fun he => hfail (he ▸ ha)⟩
  have hrun := (h.restrict hother).invariant (I := fun s => s.Sound C ∧ P s)
    (fun s a s' ⟨hs, hi⟩ ⟨⟨hchange, hfail⟩, hin, hstep⟩ => by
      have hs' := hs.step hin hstep
      exact ⟨hs', hP hi hstep hs'.inv hchange hfail⟩) ⟨hs, hi⟩
  exact hrun.2

/-- Reload `i` started after the last such change, and no read of it failed. -/
def StartedSince {α : Type*} (change : α → Action V σ) (i : Nat) (r : Reload)
    (as : List (Action V σ)) : Prop :=
  ∃ pre post, as = pre ++ .start i r :: post ∧ (∀ y, change y ∉ post) ∧ .fail i ∉ post

/-- What the start of the reload brings about, and its steps keep. -/
theorem StartedSince.kept {α : Type*} {change : α → Action V σ} {r : Reload}
    {P : AppState V σ ρ → Prop} (hstarted : StartedSince change i r as)
    (h : Steps (StepInOrder C) s as t) (hs : s.Sound C)
    (hstart : ∀ u : AppState V σ ρ, P (u.go i r.phase))
    (hP : ∀ {s a s'}, P s → s.step C a = some s' → s'.Inv C → (∀ y, a ≠ change y) → a ≠ .fail i →
      P s') : P t := by
  obtain ⟨pre, post, rfl, hchange, hfail⟩ := hstarted
  obtain ⟨u, hpre, hpost⟩ := h.of_append
  cases hpost with
  | cons hfirst hpost =>
    have hu := Sound.run hpre hs
    refine kept_run hP hpost (hu.step hfirst.1 hfirst.2) ?_ hchange hfail
    have hstep := hfirst.2
    simp only [step] at hstep
    split at hstep
    next =>
      obtain rfl := Option.some.inj hstep
      exact hstart u
    next => cases hstep

theorem StartedSince.secretsFrom (h : Steps (StepInOrder C) s as t) (hs : s.Sound C)
    (hi : StartedSince .commitSecrets i .providers as) : t.SecretsFrom i :=
  hi.kept h hs (fun _ => .inr ⟨_, Threads.set_self _ _ _, trivial⟩) SecretsFrom.step

theorem StartedSince.policiesFrom {how : Recompile} (h : Steps (StepInOrder C) s as t)
    (hs : s.Sound C) (hi : StartedSince .commitPolicies i (.policies how) as) :
    t.PoliciesFrom i x :=
  hi.kept h hs (fun _ => .inr ⟨_, Threads.set_self _ _ _, rfl⟩) PoliciesFrom.step

/--
In every run in which no store puts back an older value, the guards and the at-rest redactor are
compiled from the database's policies and secrets once no reload is running, a provider reload has
started since the secrets changed and a reload of the policies since these changed.
-/
theorem current_of_inOrder {policy : Security V} {secrets none : σ} {how : Recompile}
    (h : Steps (StepInOrder C) (start C policy secrets none) as t) (hquiet : t.Quiet)
    (hi : StartedSince .commitSecrets i .providers as)
    (hj : StartedSince .commitPolicies j (.policies how) as) : t.Current C := by
  have hs := sound_start C policy secrets none
  exact (hs.run h).current hquiet (hi.secretsFrom h hs) fun x => hj.policiesFrom h hs

end AppState

/-! ## A store that comes late -/

/-- What is compiled remembers what it was compiled from. -/
def remembering : Compilers String (List String) (String × List String) where
  redaction policy saved := (policy, saved)
  content policy := (policy, [])
  toolInspection policy saved := (policy, saved)
  blobRedactor policy saved := (policy, saved)

namespace AppState

def factory : AppState String (List String) (String × List String) :=
  start remembering ⟨"redact", "tools", "content"⟩ [] []

/-- Reload `i`'s next `n` steps. -/
def nexts (n i : Nat) : List (Action String (List String)) := List.replicate n (.next i)

/-- One reload after the other. -/
def inTurn : List (Action String (List String)) :=
  .commitSecrets ["key"] :: .start 0 .providers :: nexts 12 0 ++ .start 1 (.policies .each) ::
    nexts 12 1

/--
The policies' reload 1 has loaded the saved secrets when the provider reload 0 begins, and stores
the guards when 0 is over; the provider reload 2 finds the secrets unchanged.
-/
def overtaking : List (Action String (List String)) :=
  .start 1 (.policies .once) :: nexts 6 1 ++ .commitSecrets ["key"] :: .start 0 .providers ::
    nexts 12 0 ++ nexts 5 1 ++ .start 2 .providers :: nexts 2 2

/-- The state after `as`, if every step of it is possible and meets `P`. -/
def after (P : AppState String (List String) (String × List String) →
      Action String (List String) → Bool) (as : List (Action String (List String))) :
    Option (AppState String (List String) (String × List String)) :=
  as.foldlM (fun s a => if P s a then s.step remembering a else none) factory

theorem quiet_of_map {o : Option (AppState V σ ρ)}
    (h : ∀ i, o.map (·.calls i) = some none ∨ o.map (·.calls i) = some (some .ended))
    (ht : o = some t) : t.Quiet := by
  subst ht
  intro i p hp
  rcases h i with h | h
  · rw [Option.map_some, hp] at h
    cases h
  · rw [Option.map_some, hp] at h
    exact Option.some.inj (Option.some.inj h)

theorem current_of_inOrder_inTurn :
    ∃ t, Steps (StepInOrder remembering) factory inTurn t ∧ t.Current remembering := by
  have hcalls : ∀ i, (after (fun s a => s.InOrder a) inTurn).map (·.calls i) = some none ∨
      (after (fun s a => s.InOrder a) inTurn).map (·.calls i) = some (some .ended)
    | 0 => .inr rfl
    | 1 => .inr rfl
    | _ + 2 => .inl rfl
  obtain ⟨t, ht⟩ : ∃ t, after (fun s a => s.InOrder a) inTurn = some t :=
    Option.isSome_iff_exists.mp rfl
  have hrun : Steps (StepInOrder remembering) factory inTurn t := by
    refine (Steps.of_foldlM_if ht).mono fun s a s' h => ?_
    exact ⟨of_decide_eq_true h.1, h.2⟩
  have hquiet : t.Quiet := quiet_of_map hcalls ht
  have hproviders : StartedSince .commitSecrets 0 .providers inTurn :=
    ⟨[.commitSecrets ["key"]], nexts 12 0 ++ .start 1 (.policies .each) :: nexts 12 1, rfl,
      by simp [nexts], by simp [nexts]⟩
  have hpolicies : StartedSince .commitPolicies 1 (.policies .each) inTurn :=
    ⟨.commitSecrets ["key"] :: .start 0 .providers :: nexts 12 0, nexts 12 1, rfl,
      by simp [nexts], by simp [nexts]⟩
  exact ⟨t, hrun, current_of_inOrder hrun hquiet hproviders hpolicies⟩

/--
Without the order of the stores the guards may stay those without the credential that the database
and `saved_secrets` have.
-/
theorem not_current_overtaking :
    ¬ ∀ (C : Compilers String (List String) (String × List String)) (policy : Security String)
      (secrets none : List String) (as : List (Action String (List String)))
      (t : AppState String (List String) (String × List String)) (i j : Nat) (how : Recompile),
      Steps (fun s a s' => s.step C a = some s') (start C policy secrets none) as t → t.Quiet →
      StartedSince .commitSecrets i .providers as →
      StartedSince .commitPolicies j (.policies how) as → t.Current C := by
  intro hclaim
  have hcalls : ∀ i, (after (fun _ _ => true) overtaking).map (·.calls i) = some none ∨
      (after (fun _ _ => true) overtaking).map (·.calls i) = some (some .ended)
    | 0 => .inr rfl
    | 1 => .inr rfl
    | 2 => .inr rfl
    | _ + 3 => .inl rfl
  have hguards : (after (fun _ _ => true) overtaking).map (·.guards.redaction.2) = some [] := rfl
  have hsecrets : (after (fun _ _ => true) overtaking).map (·.secrets.now) = some ["key"] := rfl
  obtain ⟨t, ht⟩ : ∃ t, after (fun _ _ => true) overtaking = some t :=
    Option.isSome_iff_exists.mp rfl
  have hrun : Steps (fun s a s' => s.step remembering a = some s') factory overtaking t := by
    exact (Steps.of_foldlM_if ht).mono fun _ _ _ h => h.2
  have hquiet : t.Quiet := quiet_of_map hcalls ht
  have hproviders : StartedSince .commitSecrets 2 .providers overtaking :=
    ⟨.start 1 (.policies .once) :: nexts 6 1 ++ .commitSecrets ["key"] :: .start 0 .providers ::
      nexts 12 0 ++ nexts 5 1, nexts 2 2, rfl, by simp [nexts], by simp [nexts]⟩
  have hpolicies : StartedSince .commitPolicies 1 (.policies .once) overtaking :=
    ⟨[], _, rfl, by simp [nexts], by simp [nexts]⟩
  have hcurrent := hclaim remembering _ _ _ overtaking t 2 1 .once hrun hquiet hproviders hpolicies
  rw [ht] at hguards hsecrets
  have hnow : t.guards.redaction.2 = t.secrets.now := by
    rw [hcurrent.2.1]
    rfl
  have hstale : t.guards.redaction.2 = [] := Option.some.inj hguards
  have hkey : t.secrets.now = ["key"] := Option.some.inj hsecrets
  rw [hstale, hkey] at hnow
  cases hnow

end AppState

end ThinkWatch.App
