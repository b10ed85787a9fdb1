import ThinkWatch.Lib.History
import ThinkWatch.Lib.Threads
import Mathlib.Logic.Function.Basic

/-!
# Reloading the guards

`install_providers`, `reload_guards`, `load_guards` and `load_blob_redactor` of
`crates/server/src/app.rs`, `DynamicConfig::reload`, `guard_policy::read` and the two subscribers of
`crates/server/src/init.rs`, on one replica: every read of the database or of the settings' cache
and every load or store of a handle is one step, and the steps of the reloads interleave with each
other and with changes of the database. The model router, which is swapped in along the way, is
left out.
-/

namespace ThinkWatch.App

open Lib

/-! ## What is compiled -/

/-- The stored policies of the three guards. -/
structure Security (V : Type*) where
  redact : V
  inspectTools : V
  content : V
deriving DecidableEq, Repr

/-- What a policy and the saved secrets compile to. -/
structure Compilers (V σ ρ : Type*) where
  redaction : V → σ → ρ
  content : V → ρ
  toolInspection : V → σ → ρ
  blobRedactor : V → σ → ρ

/-- The three guards, compiled. -/
structure Guards (ρ : Type*) where
  redaction : ρ
  content : ρ
  tools : ρ
deriving DecidableEq, Repr

variable {V σ ρ : Type*}

def Guards.new (C : Compilers V σ ρ) (policy : Security V) (saved : σ) : Guards ρ where
  redaction := C.redaction policy.redact saved
  content := C.content policy.content
  tools := C.toolInspection policy.inspectTools saved

/-- The two handles that hold something compiled. -/
inductive Surface where
  | guards
  | blobRedactor
deriving DecidableEq, Repr

/-- What something was compiled from. -/
structure Made (V σ : Type*) where
  policy : Security (Read V)
  saved : Read σ

/-- The policies, as they were read one by one. -/
def Made.security (m : Made V σ) : Security V where
  redact := m.policy.redact.value
  inspectTools := m.policy.inspectTools.value
  content := m.policy.content.value

def Made.replacing (new old : Made V σ) : Made V σ where
  policy :=
    { redact := new.policy.redact.replacing old.policy.redact
      inspectTools := new.policy.inspectTools.replacing old.policy.inspectTools
      content := new.policy.content.replacing old.policy.content }
  saved := new.saved.replacing old.saved

/-- How far `guard_policy::read` is, which reads the three settings in turn. -/
inductive Reading (V : Type*) where
  | redact
  | inspectTools (redact : Read V)
  | content (redact inspectTools : Read V)
  | done (policy : Security (Read V))

def Reading.next (cache : Read (Security V)) : Reading V → Reading V
  | redact => inspectTools (cache.map Security.redact)
  | inspectTools r => content r (cache.map Security.inspectTools)
  | content r t => done ⟨r, t, cache.map Security.content⟩
  | done policy => done policy

/-! ## Reloads -/

/-- `reload_guards` loads the saved secrets once, the subscriber for each handle. -/
inductive Recompile where
  | once
  | each
deriving DecidableEq, Repr

inductive Reload where
  | providers
  | policies (how : Recompile)
  /-- Only the settings' cache, as for the other settings. -/
  | config
deriving DecidableEq, Repr

/-- Where a reload stands. -/
inductive Phase (V σ : Type*) where
  | loading
  | comparing (read : Read σ)
  | installing (read : Read σ)
  | refreshing (how : Option Recompile)
  | writing (how : Option Recompile) (read : Read (Security V))
  | recompiling (how : Recompile) (x : Surface)
  | compiling (how : Recompile) (x : Surface) (saved : Read σ) (reading : Reading V)
  | ended

def Reload.phase : Reload → Phase V σ
  | providers => .loading
  | policies how => .refreshing (some how)
  | config => .refreshing none

/-- What follows the store of a handle. -/
def afterStore (how : Recompile) (saved : Read σ) : Surface → Phase V σ
  | .guards =>
    match how with
    | .once => .compiling .once .blobRedactor saved .redact
    | .each => .recompiling .each .blobRedactor
  | .blobRedactor => .ended

/-- What follows the write of the settings' cache. -/
def afterWrite : Option Recompile → Phase V σ
  | none => .ended
  | some how => .recompiling how .guards

/-! ## One replica -/

/--
The database's policies and secrets, and the handles of one replica. `confirmed` is the newest read
that `saved_secrets` was stored from or found equal to, `made` what the handles were compiled from.
-/
structure AppState (V σ ρ : Type*) where
  settings : History (Security V)
  secrets : History σ
  dynamicConfig : Read (Security V)
  savedSecrets : Read σ
  confirmed : Nat
  guards : Guards ρ
  blobRedactor : ρ
  made : Surface → Made V σ
  calls : Threads (Phase V σ)

inductive Action (V σ : Type*) where
  | commitSecrets (x : σ)
  | commitPolicies (x : Security V)
  | start (i : Nat) (r : Reload)
  | next (i : Nat)
  /-- A read of the database that fails. -/
  | fail (i : Nat)

namespace AppState

def go (s : AppState V σ ρ) (i : Nat) (p : Phase V σ) : AppState V σ ρ :=
  { s with calls := s.calls.set i p }

/--
After `init_state`: the policies are those of the database, the saved secrets are none, whatever
the database holds, and the guards are compiled from these.
-/
def start (C : Compilers V σ ρ) (policy : Security V) (secrets none : σ) : AppState V σ ρ where
  settings := ⟨[], policy⟩
  secrets := ⟨[none], secrets⟩
  dynamicConfig := ⟨policy, 0⟩
  savedSecrets := ⟨none, 0⟩
  confirmed := 0
  guards := .new C policy none
  blobRedactor := C.blobRedactor policy.redact none
  made := fun _ => ⟨⟨⟨policy.redact, 0⟩, ⟨policy.inspectTools, 0⟩, ⟨policy.content, 0⟩⟩, ⟨none, 0⟩⟩
  calls := .none

/-- `saved_secrets.store`. -/
def install (s : AppState V σ ρ) (r : Read σ) : AppState V σ ρ :=
  { s with savedSecrets := r.replacing s.savedSecrets, confirmed := max s.confirmed r.seen }

/-- The store of a handle, compiled from `policy` and `saved`. -/
def store (C : Compilers V σ ρ) (s : AppState V σ ρ) (x : Surface) (m : Made V σ) :
    AppState V σ ρ :=
  let made := Function.update s.made x (m.replacing (s.made x))
  match x with
  | .guards => { s with made := made, guards := .new C m.security m.saved.value }
  | .blobRedactor =>
    { s with made := made, blobRedactor := C.blobRedactor m.security.redact m.saved.value }

section

variable (C : Compilers V σ ρ) (s : AppState V σ ρ) (x : Surface) (m : Made V σ)

@[simp] theorem store_settings : (s.store C x m).settings = s.settings := by cases x <;> rfl

@[simp] theorem store_secrets : (s.store C x m).secrets = s.secrets := by cases x <;> rfl

@[simp] theorem store_savedSecrets : (s.store C x m).savedSecrets = s.savedSecrets := by
  cases x <;> rfl

@[simp] theorem store_calls : (s.store C x m).calls = s.calls := by cases x <;> rfl

@[simp] theorem store_made :
    (s.store C x m).made = Function.update s.made x (m.replacing (s.made x)) := by
  cases x <;> rfl

end

variable [DecidableEq σ]

/-- The next step of reload `i`, which stands at `p`. -/
def advance (C : Compilers V σ ρ) (s : AppState V σ ρ) (i : Nat) :
    Phase V σ → Option (AppState V σ ρ)
  | .loading => some (s.go i (.comparing s.secrets.read))
  | .comparing r =>
    if s.savedSecrets.value = r.value then
      some (go { s with confirmed := max s.confirmed r.seen } i .ended)
    else some (s.go i (.installing r))
  | .installing r => some ((s.install r).go i (.recompiling .once .guards))
  | .refreshing how => some (s.go i (.writing how s.settings.read))
  | .writing how r =>
    some (go { s with dynamicConfig := r.replacing s.dynamicConfig } i (afterWrite how))
  | .recompiling how x => some (s.go i (.compiling how x s.savedSecrets .redact))
  | .compiling how x saved (.done policy) =>
    some ((s.store C x ⟨policy, saved⟩).go i (afterStore how saved x))
  | .compiling how x saved reading =>
    some (s.go i (.compiling how x saved (reading.next s.dynamicConfig)))
  | .ended => none

def step (C : Compilers V σ ρ) (s : AppState V σ ρ) : Action V σ → Option (AppState V σ ρ)
  | .commitSecrets x => some { s with secrets := s.secrets.commit x }
  | .commitPolicies x => some { s with settings := s.settings.commit x }
  | .start i r =>
    match s.calls i with
    | none => some (s.go i r.phase)
    | some _ => none
  | .next i => (s.calls i).bind (s.advance C i)
  | .fail i =>
    match s.calls i with
    | some .loading => some (s.go i .ended)
    | some (.refreshing _) => some (s.go i .ended)
    | _ => none

/-- No reload is running. -/
def Quiet (s : AppState V σ ρ) : Prop := ∀ i p, s.calls i = some p → p = .ended

/-- What is in force is what the database says. -/
def Current (C : Compilers V σ ρ) (s : AppState V σ ρ) : Prop :=
  s.savedSecrets.value = s.secrets.now ∧
    s.guards = .new C s.settings.now s.secrets.now ∧
    s.blobRedactor = C.blobRedactor s.settings.now.redact s.secrets.now

end AppState

end ThinkWatch.App
