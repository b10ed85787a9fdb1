import ThinkWatch.Errors
import ThinkWatch.Lib.Rows
import ThinkWatch.Lib.Run
import ThinkWatch.Lib.Slots

/-!
# The webhook outbox

`crates/common/src/audit/outbox.rs`: any number of `drain_once` calls, of any replicas, on the table
`webhook_outbox`. Each SQL statement is a step, and so are the start and the end of a dispatch. A
drain takes a lease of five minutes on its whole batch and then dispatches the rows one after another.
-/

namespace ThinkWatch.Audit

open Lib

def maxOutboxAttempts : Nat := 24

/-- The lease that a claim takes, in milliseconds. -/
def leaseMs : Int := 5 * 60 * 1000

/-- The timeout of the HTTP client. -/
def dispatchMs : Int := 30 * 1000

def claimLimit : Nat := 100

def outboxBackoffSecs (attemptNumber : Nat) : Nat :=
  let n := max attemptNumber 1
  min (30 * 2 ^ min (n - 1) 7) 3600

/-- A row of `webhook_outbox`, and of what the claim returns. -/
structure OutboxRow where
  id : Uuid
  attempts : Nat
  nextAttemptAt : Int
deriving DecidableEq, Repr

/-- What a drain is doing with the row that it has taken from its batch. -/
inductive Doing where
  | next
  | unparsed (row : OutboxRow)
  | dispatching (row : OutboxRow) (since : Int)
  | sent (row : OutboxRow)
  | failed (row : OutboxRow)
deriving DecidableEq, Repr

def Doing.rows : Doing → List OutboxRow
  | next => []
  | unparsed row => [row]
  | dispatching row _ => [row]
  | sent row => [row]
  | failed row => [row]

/-- A call of `drain_once` after its claim. Nothing reads `claimedAt`. -/
structure Drain where
  due : List OutboxRow
  doing : Doing
  claimedAt : Int
deriving DecidableEq, Repr

/-- The rows that a drain has claimed and not finished with. -/
def Drain.held (d : Drain) : List OutboxRow := d.doing.rows ++ d.due

/--
`parked` are the ids that were ever given to a row, `delivered` and `failed` count the dispatches of
a row that have ended, by how they ended. Nothing reads the three.
-/
structure State where
  clock : Int
  outbox : List OutboxRow
  drains : Slots Drain
  parked : List Uuid
  delivered : Uuid → Nat
  failed : Uuid → Nat

/--
`park` is the insertion of a row after a dispatch that failed inline. `skip` is a row whose
forwarder is disabled or gone. `written` says whether the update after a failed dispatch went through.
-/
inductive Event where
  | tick (t : Int)
  | park (id : Uuid)
  | claim (ids : List Uuid)
  | skip (i : Nat)
  | unparsed (i : Nat)
  | discard (i : Nat)
  | send (i : Nat)
  | answer (i : Nat) (ok : Bool)
  | delete (i : Nat)
  | record (i : Nat) (written : Bool)
deriving DecidableEq, Repr

namespace State

def start (clock : Int) : State := ⟨clock, [], [], [], fun _ => 0, fun _ => 0⟩

def count (f : Uuid → Nat) (id : Uuid) : Uuid → Nat := fun k => if k = id then f k + 1 else f k

def due (s : State) : List OutboxRow := s.outbox.filter fun row => row.nextAttemptAt ≤ s.clock

/--
What the claim may return: the first hundred due rows by the time they were due, or all. Ties and
the order of the reply are up to the database.
-/
def Claimable (s : State) (ids : List Uuid) : Prop :=
  ids.Nodup ∧ (∀ id ∈ ids, id ∈ s.due.map (·.id)) ∧
    ids.length = min claimLimit s.due.length ∧
    ∀ row ∈ s.due, row.id ∉ ids → ∀ row' ∈ s.due, row'.id ∈ ids →
      row'.nextAttemptAt ≤ row.nextAttemptAt

instance (s : State) (ids : List Uuid) : Decidable (s.Claimable ids) :=
  inferInstanceAs (Decidable (_ ∧ _))

/-- The row after the claim of `ids`. -/
def leased (s : State) (ids : List Uuid) (row : OutboxRow) : OutboxRow :=
  if row.id ∈ ids then { row with nextAttemptAt := s.clock + leaseMs } else row

def findRow (s : State) (id : Uuid) : Option OutboxRow := s.outbox.find? fun row => row.id = id

def claimRows (s : State) (ids : List Uuid) : State :=
  { s with
    outbox := s.outbox.map (s.leased ids)
    drains := s.drains.add ⟨ids.filterMap s.findRow, .next, s.clock⟩ }

/-- A drain goes on, with the row that it holds or without. -/
def turn (s : State) (i : Nat) (d : Drain) (doing : Doing) : State :=
  { s with drains := s.drains.put i (some { d with doing := doing }) }

/-- `DELETE FROM webhook_outbox WHERE id = $1`. -/
def deleteRow (s : State) (id : Uuid) : State :=
  { s with outbox := s.outbox.filter fun row => row.id ≠ id }

/-- The row after the update that follows a failed dispatch of `id`. -/
def retried (s : State) (id : Uuid) (nextAttempts : Nat) (row : OutboxRow) : OutboxRow :=
  if row.id = id then
    { row with
      attempts := nextAttempts
      nextAttemptAt := s.clock + outboxBackoffSecs nextAttempts * 1000 }
  else row

def updateRow (s : State) (id : Uuid) (nextAttempts : Nat) : State :=
  { s with outbox := s.outbox.map (s.retried id nextAttempts) }

/-- A step of drain `i`. -/
def advance (s : State) (i : Nat) (d : Drain) : Event → Option State
  | .skip _ =>
    -- the row stays in the table under the lease of the claim
    match d.doing, d.due with
    | .next, _ :: rest => some { s with drains := s.drains.put i (some { d with due := rest }) }
    | _, _ => none
  | .unparsed _ =>
    match d.doing, d.due with
    | .next, row :: rest => some (s.turn i { d with due := rest } (.unparsed row))
    | _, _ => none
  | .discard _ =>
    match d.doing with
    | .unparsed row => some ((s.deleteRow row.id).turn i d .next)
    | _ => none
  | .send _ =>
    match d.doing, d.due with
    | .next, row :: rest => some (s.turn i { d with due := rest } (.dispatching row s.clock))
    | _, _ => none
  | .answer _ ok =>
    match d.doing with
    | .dispatching row since =>
      -- the client gives up after its timeout, so no answer comes later
      if since + dispatchMs < s.clock then none
      else if ok then
        some { s.turn i d (.sent row) with delivered := count s.delivered row.id }
      else some { s.turn i d (.failed row) with failed := count s.failed row.id }
    | _ => none
  | .delete _ =>
    match d.doing with
    | .sent row => some ((s.deleteRow row.id).turn i d .next)
    | _ => none
  | .record _ written =>
    match d.doing with
    | .failed row =>
      let nextAttempts := row.attempts + 1
      if maxOutboxAttempts ≤ nextAttempts then some ((s.deleteRow row.id).turn i d .next)
      -- what the update says is discarded
      else if written then some ((s.updateRow row.id nextAttempts).turn i d .next)
      else some (s.turn i d .next)
    | _ => none
  | _ => none

/-- The drain that an event is a step of. -/
def Event.drain : Event → Option Nat
  | .skip i => some i
  | .unparsed i => some i
  | .discard i => some i
  | .send i => some i
  | .answer i _ => some i
  | .delete i => some i
  | .record i _ => some i
  | _ => none

def step (s : State) (e : Event) : Option State :=
  match e with
  | .tick t => if s.clock ≤ t then some { s with clock := t } else none
  | .park id =>
    if id ∈ s.parked then none
    else some { s with outbox := ⟨id, 0, s.clock⟩ :: s.outbox, parked := id :: s.parked }
  | .claim ids => if s.Claimable ids then some (s.claimRows ids) else none
  | e => do
    let i ← Event.drain e
    let d ← s.drains.get i
    s.advance i d e

end State

/-! ## The condition -/

/--
The condition on a step. A claim takes no row that another drain still holds, and an update after a
failed dispatch goes through.
-/
def Sound (s : State) : Event → Prop
  | .claim ids => ∀ x ∈ s.drains, ∀ d ∈ x, ∀ row ∈ d.held, row.id ∉ ids
  | .record _ written => written = true
  | _ => True

instance (s : State) : ∀ e, Decidable (Sound s e)
  | .claim ids => inferInstanceAs (Decidable (∀ x ∈ s.drains, ∀ d ∈ x, ∀ row ∈ d.held, row.id ∉ ids))
  | .record _ written => inferInstanceAs (Decidable (written = true))
  | .tick _ => isTrue trivial
  | .park _ => isTrue trivial
  | .skip _ => isTrue trivial
  | .unparsed _ => isTrue trivial
  | .discard _ => isTrue trivial
  | .send _ => isTrue trivial
  | .answer _ _ => isTrue trivial
  | .delete _ => isTrue trivial

/-- A step that meets the condition. -/
def Next (s : State) (e : Event) (s' : State) : Prop := Sound s e ∧ s.step e = some s'

variable {s s' : State} {e : Event} {i : Nat} {d : Drain} {row : OutboxRow} {id : Uuid}

@[simp] theorem State.leased_id (s : State) (ids : List Uuid) (row : OutboxRow) :
    (s.leased ids row).id = row.id := by
  unfold State.leased
  split <;> rfl

@[simp] theorem State.leased_attempts (s : State) (ids : List Uuid) (row : OutboxRow) :
    (s.leased ids row).attempts = row.attempts := by
  unfold State.leased
  split <;> rfl

@[simp] theorem State.retried_id (s : State) (id : Uuid) (n : Nat) (row : OutboxRow) :
    (s.retried id n row).id = row.id := by
  unfold State.retried
  split <;> rfl

theorem State.map_id {f : OutboxRow → OutboxRow} (hf : ∀ row, (f row).id = row.id)
    (rows : List OutboxRow) : (rows.map f).map (·.id) = rows.map (·.id) := by
  rw [List.map_map]
  exact List.map_congr_left fun row _ => hf row

/-! ## The invariant -/

/-- Drain `i` is doing `doing`. -/
def State.Does (s : State) (i : Nat) (doing : Doing) : Prop :=
  ∃ d, s.drains.get i = some d ∧ d.doing = doing

/-- Drain `i` has the row and is not finished with it. -/
def State.Holds (s : State) (i : Nat) (row : OutboxRow) : Prop :=
  ∃ d, s.drains.get i = some d ∧ row ∈ d.held

/--
A row is held once, by one drain, which knows its attempts. What has been sent is about to be
deleted, and what has failed about to be counted.
-/
structure Inv (s : State) : Prop where
  nodup : (s.outbox.map (·.id)).Nodup
  known : ∀ row ∈ s.outbox, row.id ∈ s.parked
  fresh : ∀ id, id ∉ s.parked → s.delivered id = 0 ∧ s.failed id = 0
  once : ∀ {i d}, s.drains.get i = some d → (d.held.map (·.id)).Nodup
  sole : ∀ {i j row row'}, s.Holds i row → s.Holds j row' → row.id = row'.id → i = j
  held : ∀ {i row}, s.Holds i row → ∃ row' ∈ s.outbox, row'.id = row.id ∧
    row'.attempts = row.attempts
  delivered : ∀ row ∈ s.outbox, s.delivered row.id = 0 ∨
    ∃ i row', s.Does i (.sent row') ∧ row'.id = row.id
  failed : ∀ row ∈ s.outbox, s.failed row.id = row.attempts ∨
    ∃ i row', s.Does i (.failed row') ∧ row'.id = row.id
  counting : ∀ {i row}, s.Does i (.failed row) → s.failed row.id = row.attempts + 1

theorem inv_start (clock : Int) : Inv (State.start clock) where
  nodup := List.nodup_nil
  known _ h := absurd h List.not_mem_nil
  fresh _ _ := ⟨rfl, rfl⟩
  once h := by cases h
  sole h := by obtain ⟨d, hd, -⟩ := h; cases hd
  held h := by obtain ⟨d, hd, -⟩ := h; cases hd
  delivered _ h := absurd h List.not_mem_nil
  failed _ h := absurd h List.not_mem_nil
  counting h := by obtain ⟨d, hd, -⟩ := h; cases hd

theorem mem_held_of_doing (h : row ∈ d.doing.rows) : row ∈ d.held := List.mem_append_left _ h

theorem State.Does.holds {doing : Doing} (h : s.Does i doing) (hrow : row ∈ doing.rows) :
    s.Holds i row := by
  obtain ⟨d, hd, rfl⟩ := h
  exact ⟨d, hd, mem_held_of_doing hrow⟩

/-- A drain does one thing. -/
theorem State.Does.eq {doing doing' : Doing} (h : s.Does i doing) (h' : s.Does i doing') :
    doing = doing' := by
  obtain ⟨d, hd, rfl⟩ := h
  obtain ⟨d', hd', rfl⟩ := h'
  rw [Option.some.inj (hd.symm.trans hd')]

/-- The rows with one id in the table are one row. -/
theorem Inv.eq_of_id (hs : Inv s) {row row' : OutboxRow} (h : row ∈ s.outbox)
    (h' : row' ∈ s.outbox) (hid : row.id = row'.id) : row = row' :=
  List.inj_on_of_nodup_map hs.nodup h h' hid

/-- A row that a drain holds and has not dispatched has its failures counted, and no success. -/
theorem Inv.counts (hs : Inv s) {doing : Doing} (hd : s.drains.get i = some d)
    (hdoing : d.doing = doing) (hheld : row ∈ d.held) (hsent : ∀ r, doing ≠ .sent r)
    (hfailed : ∀ r, doing ≠ .failed r) :
    s.delivered row.id = 0 ∧ s.failed row.id = row.attempts := by
  obtain ⟨row', hmem, hid, hattempts⟩ := hs.held ⟨d, hd, hheld⟩
  have hother : ∀ {j doing' r}, s.Does j doing' → r ∈ doing'.rows → r.id = row'.id →
      doing' = doing := by
    intro j doing' r hdoes hr hrid
    obtain rfl := hs.sole (hdoes.holds hr) ⟨d, hd, hheld⟩ (hrid.trans hid)
    exact hdoes.eq ⟨d, hd, hdoing⟩
  constructor
  · rcases hs.delivered row' hmem with h | ⟨j, r, hdoes, hrid⟩
    · rw [← hid, h]
    · exact absurd (hother hdoes (List.mem_singleton_self r) hrid).symm (hsent r)
  · rcases hs.failed row' hmem with h | ⟨j, r, hdoes, hrid⟩
    · rw [← hid, h, hattempts]
    · exact absurd (hother hdoes (List.mem_singleton_self r) hrid).symm (hfailed r)

/-! ## Steps that leave what is held -/

theorem holds_put {d' : Drain} {t : State}
    (ht : t.drains = s.drains.put i (some d')) {j : Nat} (h : t.Holds j row) :
    (j = i ∧ row ∈ d'.held) ∨ (j ≠ i ∧ s.Holds j row) := by
  obtain ⟨e, he, hrow⟩ := h
  rw [ht] at he
  rcases Slots.get_put_cases he with ⟨hj, heq⟩ | ⟨hj, hold⟩
  · cases heq
    exact Or.inl ⟨hj, hrow⟩
  · exact Or.inr ⟨hj, e, hold, hrow⟩

theorem does_put {d' : Drain} (hd : s.drains.get i = some d) {t : State}
    (ht : t.drains = s.drains.put i (some d')) {j : Nat} {doing : Doing} :
    t.Does j doing ↔ (j = i ∧ d'.doing = doing) ∨ (j ≠ i ∧ s.Does j doing) := by
  unfold State.Does
  rw [ht]
  constructor
  · rintro ⟨e, he, rfl⟩
    rcases Slots.get_put_cases he with ⟨hj, heq⟩ | ⟨hj, hold⟩
    · cases heq
      exact Or.inl ⟨hj, rfl⟩
    · exact Or.inr ⟨hj, e, hold, rfl⟩
  · rintro (⟨rfl, rfl⟩ | ⟨hj, e, he, rfl⟩)
    · exact ⟨d', Slots.get_put_self hd _, rfl⟩
    · exact ⟨e, (Slots.get_put_ne hj _).trans he, rfl⟩

/--
What a drain does about the row `x` that it holds. It changes the table, and what is counted, at
that row only.
-/
structure AtRow (s : State) (i : Nat) (d : Drain) (x : OutboxRow) (d' : Drain) (t : State) : Prop where
  get : s.drains.get i = some d
  mem : x ∈ d.held
  doing : ∀ r ∈ d.doing.rows, r.id = x.id
  put : t.drains = s.drains.put i (some d')
  parked : t.parked = s.parked
  held : d'.held.Sublist d.held
  nodup : (t.outbox.map (·.id)).Nodup
  other : ∀ row, row.id ≠ x.id → (row ∈ t.outbox ↔ row ∈ s.outbox)
  counts : ∀ id, id ≠ x.id → t.delivered id = s.delivered id ∧ t.failed id = s.failed id

/-- The invariant is kept if it is so at that row. -/
theorem inv_atRow {x : OutboxRow} {d' : Drain} {t : State} (hs : Inv s) (h : AtRow s i d x d' t)
    (hheld : ∀ row ∈ d'.held, row.id = x.id →
      ∃ row' ∈ t.outbox, row'.id = row.id ∧ row'.attempts = row.attempts)
    (hdelivered : ∀ row ∈ t.outbox, row.id = x.id →
      t.delivered row.id = 0 ∨ ∃ r, d'.doing = .sent r ∧ r.id = row.id)
    (hfailed : ∀ row ∈ t.outbox, row.id = x.id →
      t.failed row.id = row.attempts ∨ ∃ r, d'.doing = .failed r ∧ r.id = row.id)
    (hcounting : ∀ r, d'.doing = .failed r → t.failed r.id = r.attempts + 1) : Inv t := by
  have hknown : x.id ∈ s.parked := by
    obtain ⟨row, hrow, hid, -⟩ := hs.held ⟨d, h.get, h.mem⟩
    rw [← hid]
    exact hs.known row hrow
  have hback : ∀ {j row}, t.Holds j row → s.Holds j row := by
    intro j row hj
    rcases holds_put h.put hj with ⟨rfl, hrow⟩ | ⟨-, hold⟩
    · exact ⟨d, h.get, h.held.subset hrow⟩
    · exact hold
  have hdoes : ∀ {j doing r}, s.Does j doing → r ∈ doing.rows → r.id ≠ x.id → t.Does j doing := by
    intro j doing r hj hr hne
    refine (does_put h.get h.put).mpr (Or.inr ⟨?_, hj⟩)
    rintro rfl
    obtain rfl := hj.eq ⟨d, h.get, rfl⟩
    exact hne (h.doing r hr)
  have hhere : ∀ {doing : OutboxRow → Doing} {id}, (∃ r, d'.doing = doing r ∧ r.id = id) →
      ∃ j r, t.Does j (doing r) ∧ r.id = id := by
    rintro doing id ⟨r, hr, hid⟩
    exact ⟨i, r, (does_put h.get h.put).mpr (Or.inl ⟨rfl, hr⟩), hid⟩
  have helsewhere : ∀ {doing : OutboxRow → Doing} {id}, id ≠ x.id → (∀ r, r ∈ (doing r).rows) →
      (∃ j r, s.Does j (doing r) ∧ r.id = id) → ∃ j r, t.Does j (doing r) ∧ r.id = id := by
    rintro doing id hne hrows ⟨j, r, hj, rfl⟩
    exact ⟨j, r, hdoes hj (hrows r) hne, rfl⟩
  constructor
  case nodup =>
    exact h.nodup
  case known =>
    intro row hrow
    rw [h.parked]
    by_cases hid : row.id = x.id
    · rw [hid]
      exact hknown
    · exact hs.known row ((h.other row hid).mp hrow)
  case fresh =>
    intro id hid
    rw [h.parked] at hid
    have hne : id ≠ x.id := by
      rintro rfl
      exact hid hknown
    rw [(h.counts id hne).1, (h.counts id hne).2]
    exact hs.fresh id hid
  case once =>
    intro j e he
    rw [h.put] at he
    rcases Slots.get_put_cases he with ⟨rfl, heq⟩ | ⟨-, hold⟩
    · cases heq
      exact (hs.once h.get).sublist (h.held.map _)
    · exact hs.once hold
  case sole =>
    exact fun hj hk hid => hs.sole (hback hj) (hback hk) hid
  case held =>
    intro j row hj
    by_cases hid : row.id = x.id
    · rcases holds_put h.put hj with ⟨-, hrow⟩ | ⟨hne, hold⟩
      · exact hheld row hrow hid
      · exact absurd (hs.sole hold ⟨d, h.get, h.mem⟩ hid) hne
    · obtain ⟨row', hrow', hid', hattempts⟩ := hs.held (hback hj)
      exact ⟨row', (h.other row' (by rw [hid']; exact hid)).mpr hrow', hid', hattempts⟩
  case delivered =>
    intro row hrow
    by_cases hid : row.id = x.id
    · exact (hdelivered row hrow hid).imp_right hhere
    · rw [(h.counts row.id hid).1]
      exact (hs.delivered row ((h.other row hid).mp hrow)).imp_right
        (helsewhere hid fun r => List.mem_singleton_self r)
  case failed =>
    intro row hrow
    by_cases hid : row.id = x.id
    · exact (hfailed row hrow hid).imp_right hhere
    · rw [(h.counts row.id hid).2]
      exact (hs.failed row ((h.other row hid).mp hrow)).imp_right
        (helsewhere hid fun r => List.mem_singleton_self r)
  case counting =>
    intro j r hj
    rcases (does_put h.get h.put).mp hj with ⟨-, hr⟩ | ⟨hne, hold⟩
    · exact hcounting r hr
    · have hid : r.id ≠ x.id := fun hid =>
        hne (hs.sole (hold.holds (List.mem_singleton_self r)) ⟨d, h.get, h.mem⟩ hid)
      rw [(h.counts r.id hid).2]
      exact hs.counting hold

/-! ## A drain takes a row, dispatches it, and is done with it -/

theorem count_self (f : Uuid → Nat) (id : Uuid) : State.count f id id = f id + 1 := if_pos rfl

theorem count_ne (f : Uuid → Nat) {id k : Uuid} (h : k ≠ id) : State.count f id k = f k := if_neg h

/-- The row is taken from the batch. -/
theorem inv_take {rest : List OutboxRow} {doing : Doing} (hs : Inv s)
    (hd : s.drains.get i = some d) (hnext : d.doing = .next) (hdue : d.due = row :: rest)
    (hdoing : doing.rows = [row]) (hfailed : ∀ r, doing ≠ .failed r) :
    Inv (s.turn i { d with due := rest } doing) := by
  have hheld : d.held = row :: rest := by rw [Drain.held, hnext, hdue]; rfl
  have hheld' : ({ d with due := rest, doing := doing } : Drain).held = row :: rest := by
    rw [Drain.held, hdoing]; rfl
  have hmem : row ∈ d.held := by rw [hheld]; exact List.mem_cons_self
  have hcounts := hs.counts hd hnext hmem (by simp) (by simp)
  refine inv_atRow hs (x := row) (d := d) ⟨hd, hmem,
    by rw [hnext]; simp [Doing.rows], rfl, rfl, by rw [hheld, hheld'], hs.nodup,
    fun _ _ => Iff.rfl, fun _ _ => ⟨rfl, rfl⟩⟩ ?_ ?_ ?_ fun r hr => absurd hr (hfailed r)
  · intro r hr _
    rw [hheld'] at hr
    exact hs.held ⟨d, hd, by rw [hheld]; exact hr⟩
  · intro r _ hid
    exact Or.inl (by rw [hid]; exact hcounts.1)
  · intro r hr hid
    obtain ⟨row', hrow', hid', hattempts⟩ :=
      hs.held (i := i) ⟨d, hd, hmem⟩
    obtain rfl := hs.eq_of_id hr hrow' (hid.trans hid'.symm)
    exact Or.inl (by rw [hattempts, hid]; exact hcounts.2)

/-- A dispatch ends. -/
theorem inv_answer {since : Int} (hs : Inv s) (hd : s.drains.get i = some d)
    (hdoing : d.doing = .dispatching row since) (ok : Bool) :
    Inv (if ok then { s.turn i d (.sent row) with delivered := State.count s.delivered row.id }
      else { s.turn i d (.failed row) with failed := State.count s.failed row.id }) := by
  have hmem : row ∈ d.held := mem_held_of_doing (by rw [hdoing]; exact List.mem_cons_self)
  have hcounts := hs.counts hd hdoing hmem (by simp) (by simp)
  obtain ⟨row', hrow', hid', hattempts⟩ := hs.held (i := i) ⟨d, hd, hmem⟩
  have hrows : ∀ r ∈ d.doing.rows, r.id = row.id := by
    rw [hdoing]
    intro r hr
    rw [List.mem_singleton.mp hr]
  have hsame : ∀ doing, doing.rows = [row] → ({ d with doing := doing } : Drain).held = d.held := by
    intro doing h
    rw [Drain.held, Drain.held, h, hdoing]
    rfl
  have hfailed : ∀ r ∈ s.outbox, r.id = row.id → s.failed r.id = r.attempts := by
    intro r hr hid
    obtain rfl := hs.eq_of_id hr hrow' (hid.trans hid'.symm)
    rw [hid', hcounts.2, hattempts]
  cases ok with
  | true =>
    refine inv_atRow hs
      ⟨hd, hmem, hrows, rfl, rfl, by rw [hsame _ rfl], hs.nodup, fun _ _ => Iff.rfl,
        fun id hid => ⟨count_ne _ hid, rfl⟩⟩ ?_ ?_ ?_ fun r hr => by cases hr
    · exact fun r hr _ => hs.held ⟨d, hd, hsame (.sent row) rfl ▸ hr⟩
    · exact fun r _ hid => Or.inr ⟨row, rfl, hid.symm⟩
    · exact fun r hr hid => Or.inl (hfailed r hr hid)
  | false =>
    refine inv_atRow hs
      ⟨hd, hmem, hrows, rfl, rfl, by rw [hsame _ rfl], hs.nodup, fun _ _ => Iff.rfl,
        fun id hid => ⟨rfl, count_ne _ hid⟩⟩ ?_ ?_ ?_ ?_
    · exact fun r hr _ => hs.held ⟨d, hd, hsame (.failed row) rfl ▸ hr⟩
    · exact fun r _ hid => Or.inl (by rw [hid]; exact hcounts.1)
    · exact fun r _ hid => Or.inr ⟨row, rfl, hid.symm⟩
    · intro r hr
      obtain rfl := Doing.failed.inj hr
      exact (count_self _ _).trans (by rw [hcounts.2])

/-- The drain is done with the row `x`, and what is left of it in the table has its counts right. -/
theorem inv_done {x : OutboxRow} {d' : Drain} {outbox : List OutboxRow} {t : State} (hs : Inv s)
    (ht : t = { s with outbox := outbox, drains := s.drains.put i (some d') })
    (hd : s.drains.get i = some d) (hheld : d.held = x :: d'.held)
    (hdoing : ∀ r ∈ d.doing.rows, r.id = x.id) (hnodup : (outbox.map (·.id)).Nodup)
    (hother : ∀ row, row.id ≠ x.id → (row ∈ outbox ↔ row ∈ s.outbox))
    (hcounts : ∀ row ∈ outbox, row.id = x.id →
      s.delivered row.id = 0 ∧ s.failed row.id = row.attempts)
    (hdoing' : d'.doing = .next) : Inv t := by
  subst ht
  have honce := hs.once hd
  rw [hheld, List.map_cons, List.nodup_cons] at honce
  refine inv_atRow hs ⟨hd, by rw [hheld]; exact List.mem_cons_self, hdoing, rfl, rfl,
    by rw [hheld]; exact List.sublist_cons_self _ _, hnodup, hother, fun _ _ => ⟨rfl, rfl⟩⟩ ?_ ?_ ?_
    fun r hr => by rw [hdoing'] at hr; cases hr
  · intro row hrow hid
    exact absurd (hid ▸ List.mem_map_of_mem hrow) honce.1
  · exact fun row hrow hid => Or.inl (hcounts row hrow hid).1
  · exact fun row hrow hid => Or.inl (hcounts row hrow hid).2

/-- The row is deleted, and its drain goes on. -/
theorem inv_delete (hs : Inv s) (hd : s.drains.get i = some d) (hdoing : d.doing.rows = [row]) :
    Inv ((s.deleteRow row.id).turn i d .next) := by
  have hrows : ∀ r ∈ d.doing.rows, r.id = row.id := by
    rw [hdoing]
    intro r hr
    rw [List.mem_singleton.mp hr]
  have hheld : d.held = row :: ({ d with doing := .next } : Drain).held := by
    rw [Drain.held, hdoing]
    rfl
  refine inv_done hs rfl hd hheld hrows (hs.nodup.sublist (List.filter_sublist.map _)) ?_ ?_ rfl
  · intro r hr
    simp [State.deleteRow, hr]
  · intro r hr hid
    simp [State.deleteRow, hid] at hr

/-- A failed dispatch is counted in the row. -/
theorem inv_update (hs : Inv s) (hd : s.drains.get i = some d) (hdoing : d.doing = .failed row) :
    Inv ((s.updateRow row.id (row.attempts + 1)).turn i d .next) := by
  have hmem : row ∈ d.held := mem_held_of_doing (by rw [hdoing]; exact List.mem_cons_self)
  obtain ⟨row', hrow', hid', -⟩ := hs.held (i := i) ⟨d, hd, hmem⟩
  have hdelivered : s.delivered row.id = 0 := by
    rcases hs.delivered row' hrow' with hzero | ⟨j, r, hj, hrid⟩
    · rw [← hid', hzero]
    · obtain rfl := hs.sole (hj.holds (List.mem_singleton_self r)) ⟨d, hd, hmem⟩ (hrid.trans hid')
      exact absurd (hj.eq ⟨d, hd, hdoing⟩) (by simp)
  have hheld : d.held = row :: ({ d with doing := .next } : Drain).held := by
    rw [Drain.held, hdoing]
    rfl
  refine inv_done hs rfl hd hheld (by rw [hdoing]; simp [Doing.rows]) ?_ ?_ ?_ rfl
  · show ((s.outbox.map (s.retried row.id (row.attempts + 1))).map (·.id)).Nodup
    rw [State.map_id (s.retried_id _ _)]
    exact hs.nodup
  · intro r hr
    have hsame : ∀ q : OutboxRow, q.id ≠ row.id → s.retried row.id (row.attempts + 1) q = q :=
      fun q hq => if_neg hq
    constructor
    · intro h
      obtain ⟨q, hq, rfl⟩ := List.mem_map.mp h
      rw [State.retried_id] at hr
      rw [hsame q hr]
      exact hq
    · exact fun h => List.mem_map.mpr ⟨r, h, hsame r hr⟩
  · intro r hr hid
    obtain ⟨q, hq, rfl⟩ := List.mem_map.mp hr
    rw [State.retried_id] at hid
    have hattempts : (s.retried row.id (row.attempts + 1) q).attempts = row.attempts + 1 := by
      rw [State.retried, if_pos hid]
    rw [State.retried_id, hid, hattempts]
    exact ⟨hdelivered, hs.counting ⟨d, hd, hdoing⟩⟩

/-! ## Claims and new rows -/

theorem inv_skip {rest : List OutboxRow} (hs : Inv s) (hd : s.drains.get i = some d)
    (hnext : d.doing = .next) (hdue : d.due = row :: rest) :
    Inv { s with drains := s.drains.put i (some { d with due := rest }) } := by
  have hheld : d.held = row :: ({ d with due := rest } : Drain).held := by
    rw [Drain.held, Drain.held, hnext, hdue]
    rfl
  have hmem : row ∈ d.held := by
    rw [hheld]
    exact List.mem_cons_self
  have hcounts := hs.counts hd hnext hmem (by simp) (by simp)
  refine inv_done hs rfl hd hheld (by rw [hnext]; simp [Doing.rows]) hs.nodup
    (fun _ _ => Iff.rfl) ?_ hnext
  intro r hr hid
  obtain ⟨row', hrow', hid', hattempts⟩ := hs.held (i := i) ⟨d, hd, hmem⟩
  obtain rfl := hs.eq_of_id hr hrow' (hid.trans hid'.symm)
  rw [hid, hattempts]
  exact hcounts

theorem findRow_eq_some (h : s.findRow id = some row) : row ∈ s.outbox ∧ row.id = id :=
  ⟨List.mem_of_find?_eq_some h, by simpa using List.find?_some h⟩

theorem mem_claimed {ids : List Uuid} (h : row ∈ ids.filterMap s.findRow) :
    row ∈ s.outbox ∧ row.id ∈ ids := by
  obtain ⟨id, hid, hfind⟩ := List.mem_filterMap.mp h
  obtain ⟨hrow, rfl⟩ := findRow_eq_some hfind
  exact ⟨hrow, hid⟩

/-- The ids of a batch are among those of the reply, in the same order. -/
theorem claimed_sublist (s : State) (ids : List Uuid) :
    ((ids.filterMap s.findRow).map (·.id)).Sublist ids := by
  induction ids with
  | nil => exact List.Sublist.refl _
  | cons id ids ih =>
    cases hfind : s.findRow id with
    | none =>
      rw [List.filterMap_cons_none hfind]
      exact ih.cons _
    | some row =>
      rw [List.filterMap_cons_some hfind, List.map_cons, (findRow_eq_some hfind).2]
      exact ih.cons_cons _

theorem holds_claimRows {ids : List Uuid} (h : (s.claimRows ids).Holds i row) :
    (i = s.drains.length ∧ row ∈ ids.filterMap s.findRow) ∨ s.Holds i row := by
  obtain ⟨e, he, hrow⟩ := h
  rcases Slots.get_add_eq_some he with ⟨hi, rfl⟩ | hold
  · exact Or.inl ⟨hi, hrow⟩
  · exact Or.inr ⟨e, hold, hrow⟩

theorem does_claimRows {ids : List Uuid} {doing : Doing} (h : (s.claimRows ids).Does i doing) :
    doing = .next ∨ s.Does i doing := by
  obtain ⟨e, he, rfl⟩ := h
  rcases Slots.get_add_eq_some he with ⟨-, rfl⟩ | hold
  · exact Or.inl rfl
  · exact Or.inr ⟨e, hold, rfl⟩

/-- A claim of rows that no drain holds. -/
theorem inv_claim {ids : List Uuid} (hs : Inv s) (hids : ids.Nodup)
    (hfree : ∀ x ∈ s.drains, ∀ d ∈ x, ∀ row ∈ d.held, row.id ∉ ids) : Inv (s.claimRows ids) := by
  have hunheld : ∀ {j r}, s.Holds j r → r.id ∉ ids := by
    rintro j r ⟨d, hd, hr⟩
    exact hfree _ (Slots.mem_of_get hd) d rfl r hr
  have hkeep : ∀ {j doing}, s.Does j doing → (s.claimRows ids).Does j doing := by
    rintro j doing ⟨d, hd, rfl⟩
    exact ⟨d, Slots.get_add_of_get hd _, rfl⟩
  constructor
  case nodup =>
    show ((s.outbox.map (s.leased ids)).map (·.id)).Nodup
    rw [State.map_id (s.leased_id ids)]
    exact hs.nodup
  case known =>
    intro r hr
    obtain ⟨q, hq, rfl⟩ := List.mem_map.mp hr
    rw [State.leased_id]
    exact hs.known q hq
  case fresh =>
    exact hs.fresh
  case once =>
    intro j e he
    rcases Slots.get_add_eq_some he with ⟨-, rfl⟩ | hold
    · exact hids.sublist (claimed_sublist s ids)
    · exact hs.once hold
  case sole =>
    intro j k r q hj hk hid
    rcases holds_claimRows hj with ⟨rfl, hr⟩ | hj
    · rcases holds_claimRows hk with ⟨rfl, -⟩ | hk
      · rfl
      · exact absurd (hid ▸ (mem_claimed hr).2) (hunheld hk)
    · rcases holds_claimRows hk with ⟨rfl, hq⟩ | hk
      · exact absurd (hid ▸ (mem_claimed hq).2) (hunheld hj)
      · exact hs.sole hj hk hid
  case held =>
    intro j r hj
    have hrow : ∃ q ∈ s.outbox, q.id = r.id ∧ q.attempts = r.attempts := by
      rcases holds_claimRows hj with ⟨-, hr⟩ | hj
      · exact ⟨r, (mem_claimed hr).1, rfl, rfl⟩
      · exact hs.held hj
    obtain ⟨q, hq, hid, hattempts⟩ := hrow
    exact ⟨s.leased ids q, List.mem_map_of_mem hq, (s.leased_id ids q).trans hid,
      (s.leased_attempts ids q).trans hattempts⟩
  case delivered =>
    intro r hr
    obtain ⟨q, hq, rfl⟩ := List.mem_map.mp hr
    rw [State.leased_id]
    exact (hs.delivered q hq).imp_right fun ⟨j, r, hj, hid⟩ => ⟨j, r, hkeep hj, hid⟩
  case failed =>
    intro r hr
    obtain ⟨q, hq, rfl⟩ := List.mem_map.mp hr
    rw [State.leased_id, State.leased_attempts]
    exact (hs.failed q hq).imp_right fun ⟨j, r, hj, hid⟩ => ⟨j, r, hkeep hj, hid⟩
  case counting =>
    intro j r hj
    rcases does_claimRows hj with hnext | hold
    · cases hnext
    · exact hs.counting hold

theorem inv_park (hs : Inv s) (hid : id ∉ s.parked) :
    Inv { s with outbox := ⟨id, 0, s.clock⟩ :: s.outbox, parked := id :: s.parked } where
  nodup := by
    refine List.nodup_cons.mpr ⟨fun hmem => ?_, hs.nodup⟩
    obtain ⟨row, hrow, rfl⟩ := List.mem_map.mp hmem
    exact hid (hs.known row hrow)
  known := List.forall_mem_cons.mpr ⟨List.mem_cons_self, fun row hrow =>
    List.mem_cons_of_mem id (hs.known row hrow)⟩
  fresh k hk := hs.fresh k fun h => hk (List.mem_cons_of_mem id h)
  once := hs.once
  sole := hs.sole
  held h := by
    obtain ⟨row, hrow, heq⟩ := hs.held h
    exact ⟨row, List.mem_cons_of_mem _ hrow, heq⟩
  delivered := List.forall_mem_cons.mpr ⟨Or.inl (hs.fresh id hid).1, hs.delivered⟩
  failed := List.forall_mem_cons.mpr ⟨Or.inl (hs.fresh id hid).2, hs.failed⟩
  counting := hs.counting

/-! ## Runs -/

theorem inv_advance (hs : Inv s) (hd : s.drains.get i = some d) (hsound : Sound s e)
    (h : s.advance i d e = some s') : Inv s' := by
  cases e with
  | skip _ =>
    simp only [State.advance] at h
    split at h
    · next row rest hnext hdue =>
      obtain rfl := Option.some.inj h
      exact inv_skip hs hd hnext hdue
    · cases h
  | unparsed _ =>
    simp only [State.advance] at h
    split at h
    · next row rest hnext hdue =>
      obtain rfl := Option.some.inj h
      exact inv_take hs hd hnext hdue rfl (by simp)
    · cases h
  | discard _ =>
    simp only [State.advance] at h
    split at h
    · next row hdoing =>
      obtain rfl := Option.some.inj h
      exact inv_delete hs hd (by rw [hdoing]; rfl)
    · cases h
  | send _ =>
    simp only [State.advance] at h
    split at h
    · next row rest hnext hdue =>
      obtain rfl := Option.some.inj h
      exact inv_take hs hd hnext hdue rfl (by simp)
    · cases h
  | answer _ ok =>
    simp only [State.advance] at h
    split at h
    · next row since hdoing =>
      split at h
      · cases h
      · have hanswer := inv_answer hs hd hdoing ok
        cases ok with
        | true =>
          obtain rfl := Option.some.inj h
          exact hanswer
        | false =>
          obtain rfl := Option.some.inj h
          exact hanswer
    · cases h
  | delete _ =>
    simp only [State.advance] at h
    split at h
    · next row hdoing =>
      obtain rfl := Option.some.inj h
      exact inv_delete hs hd (by rw [hdoing]; rfl)
    · cases h
  | record _ written =>
    obtain rfl : written = true := hsound
    simp only [State.advance] at h
    split at h
    · next row hdoing =>
      split at h
      · obtain rfl := Option.some.inj h
        exact inv_delete hs hd (by rw [hdoing]; rfl)
      · obtain rfl := Option.some.inj h
        exact inv_update hs hd hdoing
    · cases h
  | tick _ => cases h
  | park _ => cases h
  | claim _ => cases h

/-- A step is one of the clock, an insertion, a claim, or a step of a drain. -/
theorem step_cases (h : s.step e = some s') :
    (∃ t, e = .tick t ∧ s' = { s with clock := t }) ∨
      (∃ id, e = .park id ∧ id ∉ s.parked ∧
        s' = { s with outbox := ⟨id, 0, s.clock⟩ :: s.outbox, parked := id :: s.parked }) ∨
      (∃ ids, e = .claim ids ∧ s.Claimable ids ∧ s' = s.claimRows ids) ∨
      ∃ i d, s.drains.get i = some d ∧ s.advance i d e = some s' := by
  have hdrain : ∀ e : Event, (State.Event.drain e >>= fun i => s.drains.get i >>= fun d =>
      s.advance i d e) = some s' → ∃ i d, s.drains.get i = some d ∧ s.advance i d e = some s' := by
    intro e he
    obtain ⟨i, -, he⟩ := Option.bind_eq_some_iff.mp he
    obtain ⟨d, hd, he⟩ := Option.bind_eq_some_iff.mp he
    exact ⟨i, d, hd, he⟩
  cases e with
  | tick t =>
    simp only [State.step, Option.ite_none_right_eq_some, Option.some.injEq] at h
    exact Or.inl ⟨t, rfl, h.2.symm⟩
  | park id =>
    simp only [State.step, Option.ite_none_left_eq_some, Option.some.injEq] at h
    exact Or.inr (Or.inl ⟨id, rfl, h.1, h.2.symm⟩)
  | claim ids =>
    simp only [State.step, Option.ite_none_right_eq_some, Option.some.injEq] at h
    exact Or.inr (Or.inr (Or.inl ⟨ids, rfl, h.1, h.2.symm⟩))
  | skip i => exact Or.inr (Or.inr (Or.inr (hdrain _ h)))
  | unparsed i => exact Or.inr (Or.inr (Or.inr (hdrain _ h)))
  | discard i => exact Or.inr (Or.inr (Or.inr (hdrain _ h)))
  | send i => exact Or.inr (Or.inr (Or.inr (hdrain _ h)))
  | answer i ok => exact Or.inr (Or.inr (Or.inr (hdrain _ h)))
  | delete i => exact Or.inr (Or.inr (Or.inr (hdrain _ h)))
  | record i written => exact Or.inr (Or.inr (Or.inr (hdrain _ h)))

theorem inv_step (hs : Inv s) (h : Next s e s') : Inv s' := by
  obtain ⟨hsound, h⟩ := h
  rcases step_cases h with
    ⟨t, rfl, rfl⟩ | ⟨id, rfl, hid, rfl⟩ | ⟨ids, rfl, hids, rfl⟩ | ⟨i, d, hd, h⟩
  · exact ⟨hs.nodup, hs.known, hs.fresh, hs.once, hs.sole, hs.held, hs.delivered, hs.failed,
      hs.counting⟩
  · exact inv_park hs hid
  · exact inv_claim hs hids.1 hsound
  · exact inv_advance hs hd hsound h

theorem inv_run {clock : Int} {es : List Event} (h : Steps Next (State.start clock) es s) : Inv s :=
  h.invariant (fun _ _ _ => inv_step) (inv_start clock)

/--
In every run whose steps meet the condition no row is dispatched by two drains at a time or after it
was delivered, and a row has as many attempts as dispatches of it have failed, but for one that its
drain is about to count.
-/
theorem outbox_delivers_once {clock : Int} {es : List Event}
    (h : Steps Next (State.start clock) es s) :
    (∀ i j row row' since since', s.Does i (.dispatching row since) →
      s.Does j (.dispatching row' since') → row.id = row'.id → i = j) ∧
    (∀ i row since, s.Does i (.dispatching row since) → s.delivered row.id = 0) ∧
    ∀ row ∈ s.outbox, (∀ i row', s.Does i (.failed row') → row'.id ≠ row.id) →
      row.attempts = s.failed row.id := by
  have hs := inv_run h
  refine ⟨?_, ?_, ?_⟩
  · intro i j row row' since since' hi hj hid
    exact hs.sole (hi.holds (List.mem_singleton_self row)) (hj.holds (List.mem_singleton_self row'))
      hid
  · rintro i row since ⟨d, hd, hdoing⟩
    have hmem : row ∈ d.held := mem_held_of_doing (by rw [hdoing]; exact List.mem_cons_self)
    exact (hs.counts hd hdoing hmem (by simp) (by simp)).1
  · intro row hrow hnone
    rcases hs.failed row hrow with heq | ⟨i, row', hi, hid⟩
    · exact heq.symm
    · exact absurd hid (hnone i row' hi)

/-! ## Batches that are done within their lease -/

/-- A claim comes while the lease of every batch that is not finished still runs. -/
def InTime (s : State) : Event → Prop
  | .claim _ => ∀ x ∈ s.drains, ∀ d ∈ x, d.held ≠ [] → s.clock < d.claimedAt + leaseMs
  | .record _ written => written = true
  | _ => True

/-- A row that a drain holds is not due before the lease is over. -/
def Leased (s : State) : Prop :=
  ∀ {i d row}, s.drains.get i = some d → row ∈ d.held → ∀ row' ∈ s.outbox, row'.id = row.id →
    d.claimedAt + leaseMs ≤ row'.nextAttemptAt

/-- What a step of a drain leaves: the rows that it holds, or all of them but the one it is done
with. -/
theorem advance_cases (h : s.advance i d e = some s') :
    ∃ d' : Drain, s'.drains = s.drains.put i (some d') ∧ d'.claimedAt = d.claimedAt ∧
      ((d'.held = d.held ∧ s'.outbox = s.outbox) ∨
        ∃ x, d.held = x :: d'.held ∧ ∀ row ∈ s'.outbox, row.id ≠ x.id → row ∈ s.outbox) := by
  have hkeep : ∀ {doing : Doing} {row : OutboxRow} {rest : List OutboxRow}, d.doing = .next →
      d.due = row :: rest → doing.rows = [row] →
      ({ d with due := rest, doing := doing } : Drain).held = d.held := by
    intro doing row rest hnext hdue hrows
    rw [Drain.held, Drain.held, hnext, hdue, hrows]
    rfl
  have hdrop : ∀ {row : OutboxRow}, d.doing.rows = [row] →
      d.held = row :: ({ d with doing := .next } : Drain).held := by
    intro row hrows
    rw [Drain.held, hrows]
    rfl
  have hdelete : ∀ {row : OutboxRow}, d.doing.rows = [row] →
      some ((s.deleteRow row.id).turn i d .next) = some s' →
      ∃ d' : Drain, s'.drains = s.drains.put i (some d') ∧ d'.claimedAt = d.claimedAt ∧
        ((d'.held = d.held ∧ s'.outbox = s.outbox) ∨
          ∃ x, d.held = x :: d'.held ∧ ∀ row ∈ s'.outbox, row.id ≠ x.id → row ∈ s.outbox) := by
    intro row hrows h
    obtain rfl := Option.some.inj h
    exact ⟨{ d with doing := .next }, rfl, rfl, Or.inr ⟨row, hdrop hrows, fun r hr _ =>
      List.mem_of_mem_filter hr⟩⟩
  cases e with
  | skip _ =>
    simp only [State.advance] at h
    split at h
    · next row rest hnext hdue =>
      obtain rfl := Option.some.inj h
      refine ⟨{ d with due := rest }, rfl, rfl, Or.inr ⟨row, ?_, fun r hr _ => hr⟩⟩
      rw [Drain.held, Drain.held, hnext, hdue]
      rfl
    · cases h
  | unparsed _ =>
    simp only [State.advance] at h
    split at h
    · next row rest hnext hdue =>
      obtain rfl := Option.some.inj h
      exact ⟨{ d with due := rest, doing := .unparsed row }, rfl, rfl,
        Or.inl ⟨hkeep hnext hdue rfl, rfl⟩⟩
    · cases h
  | discard _ =>
    simp only [State.advance] at h
    split at h
    · next row hdoing => exact hdelete (by rw [hdoing]; rfl) h
    · cases h
  | send _ =>
    simp only [State.advance] at h
    split at h
    · next row rest hnext hdue =>
      obtain rfl := Option.some.inj h
      exact ⟨{ d with due := rest, doing := .dispatching row s.clock }, rfl, rfl,
        Or.inl ⟨hkeep hnext hdue rfl, rfl⟩⟩
    · cases h
  | answer _ ok =>
    simp only [State.advance] at h
    split at h
    · next row since hdoing =>
      have hsame : ∀ doing : Doing, doing.rows = [row] →
          ({ d with doing := doing } : Drain).held = d.held := by
        intro doing hrows
        rw [Drain.held, Drain.held, hrows, hdoing]
        rfl
      split at h
      · cases h
      · split at h
        · obtain rfl := Option.some.inj h
          exact ⟨{ d with doing := .sent row }, rfl, rfl, Or.inl ⟨hsame _ rfl, rfl⟩⟩
        · obtain rfl := Option.some.inj h
          exact ⟨{ d with doing := .failed row }, rfl, rfl, Or.inl ⟨hsame _ rfl, rfl⟩⟩
    · cases h
  | delete _ =>
    simp only [State.advance] at h
    split at h
    · next row hdoing => exact hdelete (by rw [hdoing]; rfl) h
    · cases h
  | record _ written =>
    simp only [State.advance] at h
    split at h
    · next row hdoing =>
      have hrows : d.doing.rows = [row] := by rw [hdoing]; rfl
      split at h
      · exact hdelete hrows h
      · split at h
        · obtain rfl := Option.some.inj h
          refine ⟨{ d with doing := .next }, rfl, rfl,
            Or.inr ⟨row, hdrop hrows, fun r hr hid => ?_⟩⟩
          obtain ⟨q, hq, rfl⟩ := List.mem_map.mp hr
          rw [State.retried_id] at hid
          rw [State.retried, if_neg hid]
          exact hq
        · obtain rfl := Option.some.inj h
          exact ⟨{ d with doing := .next }, rfl, rfl, Or.inr ⟨row, hdrop hrows, fun r hr _ => hr⟩⟩
    · cases h
  | tick _ => cases h
  | park _ => cases h
  | claim _ => cases h

theorem leased_claim {ids : List Uuid} (h : Leased s)
    (hfree : ∀ x ∈ s.drains, ∀ d ∈ x, ∀ row ∈ d.held, row.id ∉ ids) : Leased (s.claimRows ids) := by
  intro i d row hd hrow row' hrow' hid
  obtain ⟨q, hq, rfl⟩ := List.mem_map.mp hrow'
  rw [State.leased_id] at hid
  rcases Slots.get_add_eq_some hd with ⟨-, rfl⟩ | hold
  · have hmem : q.id ∈ ids := hid ▸ (mem_claimed hrow).2
    refine Int.le_of_eq ?_
    rw [State.leased, if_pos hmem]
  · have hmem : q.id ∉ ids := hid ▸ hfree _ (Slots.mem_of_get hold) d rfl row hrow
    rw [State.leased, if_neg hmem]
    exact h hold hrow q hq hid

theorem leased_advance (hs : Inv s) (hleased : Leased s) (hd : s.drains.get i = some d)
    (h : s.advance i d e = some s') : Leased s' := by
  obtain ⟨d', hput, hclaimed, hheld⟩ := advance_cases h
  intro j f row hf hrow row' hrow' hid
  rw [hput] at hf
  rcases hheld with ⟨hsame, houtbox⟩ | ⟨x, hx, houtbox⟩
  · rw [houtbox] at hrow'
    rcases Slots.get_put_cases hf with ⟨-, heq⟩ | ⟨-, hold⟩
    · obtain rfl := Option.some.inj heq
      rw [hclaimed]
      exact hleased hd (hsame ▸ hrow) row' hrow' hid
    · exact hleased hold hrow row' hrow' hid
  · have hxmem : x ∈ d.held := by
      rw [hx]
      exact List.mem_cons_self
    rcases Slots.get_put_cases hf with ⟨-, heq⟩ | ⟨hj, hold⟩
    · obtain rfl := Option.some.inj heq
      have honce := hs.once hd
      rw [hx, List.map_cons, List.nodup_cons] at honce
      have hne : row'.id ≠ x.id := fun he => honce.1 (he ▸ hid ▸ List.mem_map_of_mem hrow)
      rw [hclaimed]
      have hheld : row ∈ d.held := by
        rw [hx]
        exact List.mem_cons_of_mem x hrow
      exact hleased hd hheld row' (houtbox row' hrow' hne) hid
    · have hne : row'.id ≠ x.id := fun he =>
        hj (hs.sole ⟨f, hold, hrow⟩ ⟨d, hd, hxmem⟩ (hid.symm.trans he))
      exact hleased hold hrow row' (houtbox row' hrow' hne) hid

/-- While its lease runs, no row of a batch is due. -/
theorem sound_of_inTime (hs : Inv s) (hleased : Leased s) (h : InTime s e)
    (hstep : s.step e = some s') : Sound s e := by
  rcases step_cases hstep with
    ⟨t, rfl, -⟩ | ⟨id, rfl, -, -⟩ | ⟨ids, rfl, hids, -⟩ | ⟨i, d, hd, hadv⟩
  · trivial
  · trivial
  · intro x hx d hdx row hrow hmem
    obtain ⟨i, hi⟩ := Slots.exists_get_of_mem (hdx ▸ hx)
    obtain ⟨row', hrow', hid, -⟩ := hs.held ⟨d, hi, hrow⟩
    obtain ⟨q, hq, hqid⟩ := List.mem_map.mp (hids.2.1 row.id hmem)
    obtain ⟨hqmem, hqdue⟩ := List.mem_filter.mp hq
    obtain rfl := hs.eq_of_id hqmem hrow' (hqid.trans hid.symm)
    have hlease := hleased hi hrow q hqmem hid
    have htime := h x hx d hdx (List.ne_nil_of_mem hrow)
    have hdue := of_decide_eq_true hqdue
    omega
  · cases e with
    | record j written => exact h
    | claim ids => cases hadv
    | _ => trivial

/-- So no row is delivered twice in a run in which every batch is finished within its lease. -/
theorem sound_run_of_inTime {clock : Int} {es : List Event}
    (h : Steps (fun s e s' => InTime s e ∧ s.step e = some s') (State.start clock) es s) :
    Steps Next (State.start clock) es s := by
  refine h.under (I := fun s => Inv s ∧ Leased s) (fun s e s' ⟨hs, hleased⟩ ⟨htime, hstep⟩ => ?_)
    ⟨inv_start clock, fun hd => by cases hd⟩
  have hsound := sound_of_inTime hs hleased htime hstep
  refine ⟨⟨inv_step hs ⟨hsound, hstep⟩, ?_⟩, hsound, hstep⟩
  rcases step_cases hstep with
    ⟨t, rfl, rfl⟩ | ⟨id, rfl, hid, rfl⟩ | ⟨ids, rfl, -, rfl⟩ | ⟨i, d, hd, h⟩
  · exact hleased
  · intro i d row hd hrow row' hrow' heq
    rcases List.mem_cons.mp hrow' with rfl | hrow'
    · obtain ⟨q, hq, hqid, -⟩ := hs.held ⟨d, hd, hrow⟩
      have hknown : q.id ∈ s.parked := hs.known q hq
      rw [hqid, ← heq] at hknown
      exact absurd hknown hid
    · exact hleased hd hrow row' hrow' heq
  · exact leased_claim hleased hsound
  · exact leased_advance hs hleased hd h

/-! ## A batch that outlives its lease, and one that does not -/

/-- Ten rows whose dispatch takes the whole timeout, and an eleventh that another drain claims
then. -/
def slowBatch : List Event :=
  (List.range 11).map .park ++ [.claim (List.range 11)] ++
    (List.range 10).flatMap (fun k => [.send 0, .tick ((k + 1) * dispatchMs), .answer 0 true,
      .delete 0]) ++
    [.claim [10], .send 1, .send 0]

/-- The eleventh row is dispatched by both drains. -/
theorem slowBatch_twice :
    ∃ s, Steps (fun s e s' => s.step e = some s') (State.start 0) slowBatch s ∧
      ∃ row row', s.Does 0 (.dispatching row 300000) ∧ s.Does 1 (.dispatching row' 300000) ∧
        row.id = row'.id := by
  have hrun : (slowBatch.foldlM State.step (State.start 0)).map (fun s =>
      ((s.drains.get 0).map (·.doing), (s.drains.get 1).map (·.doing))) =
      some (some (.dispatching ⟨10, 0, 0⟩ 300000), some (.dispatching ⟨10, 0, 300000⟩ 300000)) := by
    decide +kernel
  obtain ⟨s, hs, hdoing⟩ := Option.map_eq_some_iff.mp hrun
  obtain ⟨hfirst, hsecond⟩ := Prod.mk.inj hdoing
  exact ⟨s, .of_foldlM hs, _, _, Option.map_eq_some_iff.mp hfirst,
    Option.map_eq_some_iff.mp hsecond, rfl⟩

/-- Two rows, one of which fails and is claimed again while the other is dispatched. -/
def retriedBatch : List Event :=
  [.park 0, .park 1, .claim [1, 0], .send 0, .answer 0 false, .record 0 true, .tick 29000, .send 0,
    .tick 45000, .claim [1], .send 1]

theorem outbox_delivers_once_retried :
    ∃ s : State, s.failed 1 = 1 ∧ (∃ row since, s.Does 0 (.dispatching row since)) ∧
      (∃ row since, s.Does 1 (.dispatching row since) ∧ s.delivered row.id = 0) ∧
      ∀ row ∈ s.outbox, (∀ i row', s.Does i (.failed row') → row'.id ≠ row.id) →
        row.attempts = s.failed row.id := by
  have hrun : (retriedBatch.foldlM (fun s e => if Sound s e then s.step e else none)
      (State.start 0)).map (fun s => (s.failed 1, (s.drains.get 0).map (·.doing),
        (s.drains.get 1).map (·.doing))) =
      some (1, some (.dispatching ⟨0, 0, 0⟩ 29000), some (.dispatching ⟨1, 1, 30000⟩ 45000)) := by
    decide +kernel
  obtain ⟨s, hs, hdoing⟩ := Option.map_eq_some_iff.mp hrun
  obtain ⟨hfailed, hdoing⟩ := Prod.mk.inj hdoing
  obtain ⟨hfirst, hsecond⟩ := Prod.mk.inj hdoing
  have hdoes₀ : s.Does 0 _ := Option.map_eq_some_iff.mp hfirst
  have hdoes₁ : s.Does 1 _ := Option.map_eq_some_iff.mp hsecond
  obtain ⟨-, hdelivered, hattempts⟩ := outbox_delivers_once (.of_foldlM_if hs)
  exact ⟨s, hfailed, ⟨_, _, hdoes₀⟩, ⟨_, _, hdoes₁, hdelivered _ _ _ hdoes₁⟩, hattempts⟩

end ThinkWatch.Audit
