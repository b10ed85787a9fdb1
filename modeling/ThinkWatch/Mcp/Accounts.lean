import ThinkWatch.Lib.RowLocks
import ThinkWatch.Lib.Run
import ThinkWatch.Mcp.UserToken

/-!
# The accounts of a user on a server

`mcp_credential_repository.rs`, and what `UserTokenResolver` and `update_server` write to the same
rows: the rows of `mcp_user_credentials` of one user on one server, by their labels. Each operation
is a transaction of several statements, which sees what has been committed when a statement starts.
The unique index allows one default account (`one_default`). That there is one as long as there is
any account takes more (`connected`): the operations that take an account away have to run alone.
-/

namespace ThinkWatch.Mcp.Accounts

open Lib
open Lib.RowLocks (Inv)

structure Account (β : Type) where
  credential : Credential β
  isDefault : Bool
  createdAt : Int

variable {β : Type}

inductive Op (β : Type) where
  /-- `upsert_user_credential` -/
  | upsert (label : String) (credential : Credential β) (now : Int)
  /-- `delete_user_credential` -/
  | delete (label : String)
  /-- `set_default_user_credential` -/
  | setDefault (label : String)
  /-- `delete_row`, when a refresh finds the grant dead -/
  | drop (label : String)
  /-- `write_refreshed_row` -/
  | refresh (label : String) (access : β) (refresh : Option β) (expiresAt : Option Int)
  /-- The clean-up of `update_server` -/
  | wipe

/-- How far a transaction is. -/
inductive Stage where
  | begun
  /-- has the advisory lock -/
  | locked
  | counted (newDefault : Bool)
  /-- has deleted the default account -/
  | promoting
  | promoted (label : String)
  | found
  /-- takes the default from these -/
  | clearing (old : List String)
  | marking
  | wiping (labels : List String)
  /-- the commit is next -/
  | done
deriving DecidableEq

structure Progress (β : Type) where
  op : Op β
  stage : Stage

abbrev State (β : Type) := RowLocks String (Account β) (Progress β)

abbrev Transaction (β : Type) := Tx String (Account β) (Progress β)

def Progress.hasMutex : Progress β → Bool
  | ⟨.upsert .., .begun⟩ => false
  | ⟨.upsert .., _⟩ => true
  | _ => false

def Op.removes : Op β → Bool
  | .delete _ | .drop _ | .wipe => true
  | _ => false

/-- The next statement finds other things to do. -/
def goTo (s : State β) (t : Transaction β) (stage : Stage) : State β :=
  s.replace { t with state := { t.state with stage } }

def write (s : State β) (t : Transaction β) (label : String) (a : Option (Account β))
    (stage : Stage) : Option (State β) :=
  RowLocks.write Account.isDefault s t label a { t.state with stage }

/-- No account is newer. -/
def isNewest (rows : List (String × Account β)) (a : Account β) : Bool :=
  rows.all fun e => e.2.createdAt ≤ a.createdAt

/-! ## The transactions -/

def upsertUserCredential (s : State β) (t : Transaction β) (label : String)
    (credential : Credential β) (now : Int) : Stage → Option (State β)
  | .begun =>
    if ∃ u ∈ s.running, u.id ≠ t.id ∧ u.state.hasMutex = true then none
    else some (goTo s t .locked)
  | .locked => some (goTo s t (.counted (t.view s.rows).isEmpty))
  | .counted newDefault =>
    match (t.view s.rows).lookup label with
    | some a => write s t label (some { a with credential }) .done
    | none => write s t label (some ⟨credential, newDefault, now⟩) .done
  | _ => none

/-- `pick` is the one of several newest accounts. -/
def deleteUserCredential (s : State β) (t : Transaction β) (label pick : String) :
    Stage → Option (State β)
  | .begun =>
    match (t.view s.rows).lookup label with
    | some a => write s t label none (if a.isDefault then .promoting else .done)
    | none => some (goTo s t .done)
  | .promoting =>
    match (t.view s.rows).lookup pick with
    | some a => if isNewest (t.view s.rows) a then some (goTo s t (.promoted pick)) else none
    | none => if (t.view s.rows).isEmpty then some (goTo s t .done) else none
  | .promoted newest =>
    match (t.view s.rows).lookup newest with
    | some a => write s t newest (some { a with isDefault := true }) .done
    | none => some (goTo s t .done)
  | _ => none

def setDefaultUserCredential (s : State β) (t : Transaction β) (label : String) :
    Stage → Option (State β)
  | .begun =>
    match (t.view s.rows).lookup label with
    | some _ => some (goTo s t .found)
    | none => some (s.abort t.id)
  | .found =>
    some (goTo s t (.clearing (((t.view s.rows).filter fun e => e.2.isDefault).map Prod.fst)))
  | .clearing [] => some (goTo s t .marking)
  | .clearing (k :: old) =>
    match (t.view s.rows).lookup k with
    | some a =>
      if a.isDefault then write s t k (some { a with isDefault := false }) (.clearing old)
      else some (goTo s t (.clearing old))
    | none => some (goTo s t (.clearing old))
  | .marking =>
    match (t.view s.rows).lookup label with
    | some a => write s t label (some { a with isDefault := true }) .done
    | none => some (goTo s t .done)
  | _ => none

def deleteRow (s : State β) (t : Transaction β) (label : String) : Stage → Option (State β)
  | .begun =>
    match (t.view s.rows).lookup label with
    | some _ => write s t label none .done
    | none => some (goTo s t .done)
  | _ => none

def writeRefreshedRow (s : State β) (t : Transaction β) (label : String) (access : β)
    (refresh : Option β) (expiresAt : Option Int) : Stage → Option (State β)
  | .begun =>
    match (t.view s.rows).lookup label with
    | some a =>
      write s t label
        (some { a with credential := Credentials.refreshed a.credential access refresh expiresAt })
        .done
    | none => some (goTo s t .done)
  | _ => none

def deleteRows (s : State β) (t : Transaction β) : Stage → Option (State β)
  | .begun => some (goTo s t (.wiping ((t.view s.rows).map Prod.fst)))
  | .wiping [] => some (goTo s t .done)
  | .wiping (label :: labels) =>
    match (t.view s.rows).lookup label with
    | some _ => write s t label none (.wiping labels)
    | none => some (goTo s t (.wiping labels))
  | _ => none

def statement (s : State β) (t : Transaction β) (pick : String) : Option (State β) :=
  match t.state.op with
  | .upsert label credential now => upsertUserCredential s t label credential now t.state.stage
  | .delete label => deleteUserCredential s t label pick t.state.stage
  | .setDefault label => setDefaultUserCredential s t label t.state.stage
  | .drop label => deleteRow s t label t.state.stage
  | .refresh label access refresh expiresAt =>
    writeRefreshedRow s t label access refresh expiresAt t.state.stage
  | .wipe => deleteRows s t t.state.stage

def advance (s : State β) (t : Transaction β) (pick : String) : Option (State β) :=
  if t.state.stage = .done then some (s.commit t) else statement s t pick

/-! ## Runs -/

inductive Action (β : Type) where
  | begin (i : Nat) (op : Op β)
  | move (i : Nat) (pick : String)
  /-- A failure of the connection, a deadlock -/
  | abort (i : Nat)

def step (s : State β) : Action β → Option (State β)
  | .begin i op => s.launch i ⟨op, .begun⟩
  | .move i pick => (s.find i).bind fun t => advance s t pick
  | .abort i => (s.find i).map fun t => s.abort t.id

def Next (s : State β) (a : Action β) (s' : State β) : Prop := step s a = some s'

def start : State β := ⟨[], []⟩

/-! ## One default account -/

abbrev Kept (s : State β) : Prop := Inv Account.isDefault s

variable {s s' : State β} {t : Transaction β} {a : Action β} {as : List (Action β)} {pick : String}

/-- What one statement does. -/
inductive Effect (s : State β) (t : Transaction β) : State β → Prop where
  | refused : Effect s t (s.abort t.id)
  | moved (stage : Stage) : Effect s t (goTo s t stage)
  | wrote {s' : State β} (label : String) (a : Option (Account β)) (stage : Stage)
      (h : write s t label a stage = some s') : Effect s t s'

theorem effect_of_statement (h : statement s t pick = some s') : Effect s t s' := by
  unfold statement at h
  split at h
  · unfold upsertUserCredential at h
    split at h
    · split at h
      · cases h
      · cases h
        exact .moved _
    · cases h
      exact .moved _
    · split at h
      · exact .wrote _ _ _ h
      · exact .wrote _ _ _ h
    · cases h
  · unfold deleteUserCredential at h
    split at h
    · split at h
      · exact .wrote _ _ _ h
      · cases h
        exact .moved _
    · split at h
      · split at h
        · cases h
          exact .moved _
        · cases h
      · split at h
        · cases h
          exact .moved _
        · cases h
    · split at h
      · exact .wrote _ _ _ h
      · cases h
        exact .moved _
    · cases h
  · unfold setDefaultUserCredential at h
    split at h
    · split at h
      · cases h
        exact .moved _
      · cases h
        exact .refused
    · cases h
      exact .moved _
    · cases h
      exact .moved _
    · split at h
      · split at h
        · exact .wrote _ _ _ h
        · cases h
          exact .moved _
      · cases h
        exact .moved _
    · split at h
      · exact .wrote _ _ _ h
      · cases h
        exact .moved _
    · cases h
  · unfold deleteRow at h
    split at h
    · split at h
      · exact .wrote _ _ _ h
      · cases h
        exact .moved _
    · cases h
  · unfold writeRefreshedRow at h
    split at h
    · split at h
      · exact .wrote _ _ _ h
      · cases h
        exact .moved _
    · cases h
  · unfold deleteRows at h
    split at h
    · cases h
      exact .moved _
    · cases h
      exact .moved _
    · split at h
      · exact .wrote _ _ _ h
      · cases h
        exact .moved _
    · cases h

theorem Kept.step (hinv : Kept s) (h : Next s a s') : Kept s' := by
  cases a with
  | begin i op => exact hinv.launch h
  | abort i =>
    obtain ⟨t, -, rfl⟩ := Option.map_eq_some_iff.mp h
    exact hinv.abort t.id
  | move i pick =>
    obtain ⟨t, ht, h⟩ := Option.bind_eq_some_iff.mp h
    obtain ⟨ht, -⟩ := RowLocks.mem_of_find ht
    unfold advance at h
    split at h
    · cases h
      exact hinv.commit ht
    · cases effect_of_statement h with
      | refused => exact hinv.abort t.id
      | moved stage => exact hinv.restate ht _
      | wrote label a stage hwrite => exact hinv.write ht hwrite

theorem kept_of_run (h : Steps Next start as s) : Kept s :=
  Steps.invariant (fun _ _ _ => Kept.step) h .empty

/-- However the transactions interleave, no two accounts have one label and one account at most is
the default, for everybody and for each transaction. It rests on the unique indexes: it holds for
any statements that write through `RowLocks.write`. -/
theorem one_default (h : Steps Next start as s) :
    (s.rows.map Prod.fst).Nodup ∧
      (∀ e ∈ s.rows, ∀ e' ∈ s.rows, e.2.isDefault = true → e'.2.isDefault = true → e = e') ∧
      ∀ t ∈ s.running, ((t.view s.rows).map Prod.fst).Nodup ∧
        ∀ e ∈ t.view s.rows, ∀ e' ∈ t.view s.rows,
          e.2.isDefault = true → e'.2.isDefault = true → e = e' := by
  have hkept := kept_of_run h
  refine ⟨hkept.keys, fun e he e' he' => hkept.base.eq hkept.keys he he', ?_⟩
  intro t ht
  have hview : ((t.view s.rows).map Prod.fst).Nodup := nodup_overlay hkept.keys t.writes
  exact ⟨hview, fun e he e' he' => (hkept.own t ht).eq hview he he'⟩

/-- Two first accounts at one time, and a change of the default. -/
def twoTabs : List (Action String) :=
  [.begin 0 (.upsert "work" ⟨.staticToken, "a", none, none⟩ 1), .move 0 "",
    .begin 1 (.upsert "home" ⟨.staticToken, "b", none, none⟩ 2), .move 0 "", .move 0 "", .move 0 "",
    .move 1 "", .move 1 "", .begin 2 (.setDefault "work"), .move 1 "", .move 2 "", .move 1 "",
    .begin 3 (.setDefault "home"), .move 3 "", .move 3 "", .move 3 "", .move 3 "", .move 3 ""]

/-- The last transaction has not committed yet, and has the other default. -/
theorem one_default_two_tabs : ∃ s, Steps Next start twoTabs s ∧
    s.rows.map (fun e => (e.1, e.2.isDefault)) = [("work", true), ("home", false)] ∧
    (s.rows.map Prod.fst).Nodup ∧
    ∃ t ∈ s.running, t.id = 3 ∧
      (t.view s.rows).map (fun e => (e.1, e.2.isDefault)) = [("work", false), ("home", true)] ∧
      ((t.view s.rows).map Prod.fst).Nodup ∧
      ∀ e ∈ t.view s.rows, ∀ e' ∈ t.view s.rows,
        e.2.isDefault = true → e'.2.isDefault = true → e = e' := by
  have hrun : (twoTabs.foldlM step start).bind (fun s => (s.find 3).map fun t =>
      (s.rows.map fun e => (e.1, e.2.isDefault),
        (t.view s.rows).map fun e => (e.1, e.2.isDefault))) =
      some ([("work", true), ("home", false)], [("work", false), ("home", true)]) := by
    decide +kernel
  obtain ⟨s, hs, hrows⟩ := Option.bind_eq_some_iff.mp hrun
  obtain ⟨t, ht, hrows⟩ := Option.map_eq_some_iff.mp hrows
  obtain ⟨hrows, hview⟩ := Prod.mk.inj hrows
  obtain ⟨ht, hid⟩ := RowLocks.mem_of_find ht
  have hsteps : Steps Next start twoTabs s := Steps.of_foldlM hs
  obtain ⟨hkeys, -, hown⟩ := one_default hsteps
  exact ⟨s, hsteps, hrows, hkeys, t, ht, hid, hview, hown t ht⟩

end ThinkWatch.Mcp.Accounts
