import Mathlib.Data.List.Induction
import ThinkWatch.Lib.Delivery

/-!
# The audit worker

`audit_worker` of `crates/common/src/audit/logger.rs` and `flush_to_clickhouse` of
`crates/common/src/audit/clickhouse.rs`: the entries wait in one batch for each table until an insert
takes the whole batch. A batch whose insert fails is kept for the next try, up to `CH_RETAIN_CAP`.
-/

namespace ThinkWatch.Audit

open Lib

inductive LogType where
  | access
  | app
  | audit
  | gateway
  | mcp
deriving DecidableEq, Repr

def LogType.indexId : LogType → String
  | access => "access_logs"
  | app => "app_logs"
  | audit => "audit_logs"
  | gateway => "gateway_logs"
  | mcp => "mcp_logs"

theorem LogType.indexId_inj {a b : LogType} (h : a.indexId = b.indexId) : a = b := by
  cases a <;> cases b <;> first | rfl | exact absurd h (by decide)

/-- `fields` is what the worker passes on without a look at it. -/
structure AuditEntry (β : Type*) where
  logType : LogType
  fields : β
deriving DecidableEq, Repr

/-- An entry and how many were received before it. Nothing reads the number. -/
abbrev Receipt (β : Type*) := AuditEntry β × Nat

def chRetainCap : Nat := 1000

/-- Whether an insert of the entries into the table, as rows of the log type, goes through. -/
abbrev Client (β : Type*) := LogType → String → List (AuditEntry β) → Bool

/-- What a flush leaves of a batch, and what it has stored and dropped. -/
structure Flushed (β : Type*) where
  batch : List (Receipt β)
  stored : List (Receipt β)
  dropped : List (Receipt β)
deriving DecidableEq, Repr

variable {β : Type*}

def flushToClickhouse (ch : Option (Client β)) (table : String) (batch : List (Receipt β)) :
    Flushed β :=
  match ch with
  | none => ⟨[], [], batch⟩
  | some insert =>
    match batch.head? with
    | none => ⟨[], [], []⟩
    | some first =>
      if insert first.1.logType table (batch.map Prod.fst) then ⟨[], batch, []⟩
      else if batch.length > chRetainCap then
        let drop := batch.length - chRetainCap
        ⟨batch.drop drop, [], batch.take drop⟩
      else ⟨batch, [], []⟩

/-- The batch of a table, and what was ever stored in the table and dropped. Only `batch` is read. -/
structure Table (β : Type*) where
  batch : List (Receipt β)
  stored : List (Receipt β)
  dropped : List (Receipt β)
deriving DecidableEq, Repr

namespace Table

def empty : Table β := ⟨[], [], []⟩

def record (t : Table β) (f : Flushed β) : Table β :=
  ⟨f.batch, t.stored ++ f.stored, t.dropped ++ f.dropped⟩

def push (ch : Option (Client β)) (table : String) (entry : Receipt β) (t : Table β) : Table β :=
  let batch := t.batch ++ [entry]
  if batch.length ≥ 50 then
    -- the batch is taken out, which leaves an empty one, and what a failed flush kept is put back
    let taken : List (Receipt β) := []
    let b := flushToClickhouse ch table batch
    { t.record b with batch := if b.batch.isEmpty then taken else b.batch ++ taken }
  else { t with batch := batch }

def tick (ch : Option (Client β)) (table : String) (t : Table β) : Table β :=
  if t.batch.isEmpty then t else t.record (flushToClickhouse ch table t.batch)

end Table

/-- An entry is received, or the interval ticks; with what the inserts of that time come to. -/
inductive Input (β : Type*) where
  | recv (entry : AuditEntry β) (insert : Client β)
  | tick (insert : Client β)

def Input.entry? : Input β → Option (AuditEntry β)
  | recv entry _ => some entry
  | tick _ => none

/-- Nothing but the numbers of the receipts is taken from `received`. -/
structure Worker (β : Type*) where
  received : List (Receipt β)
  tables : String → Table β

namespace Worker

def start : Worker β := ⟨[], fun _ => .empty⟩

/-- One turn of the loop of `audit_worker`, by whether it was given a client. -/
def step (configured : Bool) (s : Worker β) : Input β → Worker β
  | .recv entry insert =>
    let ch := if configured then some insert else none
    let receipt := (entry, s.received.length)
    let table := entry.logType.indexId
    ⟨s.received ++ [receipt],
      fun t => if t = table then (s.tables t).push ch table receipt else s.tables t⟩
  | .tick insert =>
    let ch := if configured then some insert else none
    ⟨s.received, fun table => (s.tables table).tick ch table⟩

def run (configured : Bool) (inputs : List (Input β)) : Worker β :=
  inputs.foldl (step configured) start

/-- What was received for a table, in order of receipt. -/
def receivedFor (s : Worker β) (table : String) : List (Receipt β) :=
  s.received.filter fun r => r.1.logType.indexId = table

end Worker

/-- Whether the insert of a batch into a table goes through. -/
def Client.inserts (insert : Client β) (table : String) (batch : List (Receipt β)) : Bool :=
  batch.head?.any fun first => insert first.1.logType table (batch.map Prod.fst)

/-- The batch that an input flushes into a table, and whether its insert goes through. -/
def Worker.flushes (s : Worker β) (table : String) : Input β → Option (List (Receipt β) × Bool)
  | .recv entry insert =>
    let batch := (s.tables table).batch ++ [(entry, s.received.length)]
    if entry.logType.indexId = table ∧ 50 ≤ batch.length then
      some (batch, insert.inserts table batch)
    else none
  | .tick insert =>
    let batch := (s.tables table).batch
    if batch = [] then none else some (batch, insert.inserts table batch)

section Flush

variable {insert : Client β} {table : String} {b : List (Receipt β)} {t : Table β}

theorem flush_inserted (h : insert.inserts table b = true) :
    flushToClickhouse (some insert) table b = ⟨[], b, []⟩ := by
  cases b with
  | nil => cases h
  | cons first rest => exact if_pos h

theorem flush_failed (hb : b ≠ []) (h : insert.inserts table b = false) :
    flushToClickhouse (some insert) table b =
      ⟨b.drop (b.length - chRetainCap), [], b.take (b.length - chRetainCap)⟩ := by
  cases b with
  | nil => exact absurd rfl hb
  | cons first rest =>
    have hins : insert first.1.logType table ((first :: rest).map Prod.fst) = false := h
    simp only [flushToClickhouse, List.head?_cons, hins, Bool.false_eq_true, if_false]
    split
    · rfl
    · next hle =>
      rw [Nat.sub_eq_zero_of_le (Nat.le_of_not_gt hle)]
      rfl

/-- A failed flush keeps the newest entries, at most as many as the cap says. -/
theorem length_kept_le (b : List (Receipt β)) :
    (b.drop (b.length - chRetainCap)).length ≤ chRetainCap := by
  rw [List.length_drop]
  omega

/-- A flush of the whole batch, by how the insert ended. -/
theorem Table.record_flush (hb : b ≠ []) (t : Table β) :
    t.record (flushToClickhouse (some insert) table b) =
      if insert.inserts table b then ⟨[], t.stored ++ b, t.dropped⟩
      else ⟨b.drop (b.length - chRetainCap), t.stored, t.dropped ++ b.take (b.length - chRetainCap)⟩ := by
  cases h : insert.inserts table b with
  | true => rw [flush_inserted h, if_pos rfl]; simp [Table.record]
  | false => rw [flush_failed hb h, if_neg Bool.false_ne_true]; simp [Table.record]

theorem put_back (kept : List (Receipt β)) : (if kept.isEmpty then [] else kept ++ []) = kept := by
  cases kept with
  | nil => rfl
  | cons r rest => exact List.append_nil _

/-- A batch that was taken out, flushed and put back is a batch that was flushed in place. -/
theorem Table.push_eq (ch : Option (Client β)) (r : Receipt β) (t : Table β) :
    t.push ch table r =
      if 50 ≤ (t.batch ++ [r]).length then t.record (flushToClickhouse ch table (t.batch ++ [r]))
      else { t with batch := t.batch ++ [r] } := by
  simp only [push, put_back, ge_iff_le]
  rfl

end Flush

namespace Worker

variable {s : Worker β} {table : String} {i : Input β}

/-- What an input adds to the batch of a table. -/
def arrives (s : Worker β) (table : String) : Input β → List (Receipt β)
  | .recv entry _ => if entry.logType.indexId = table then [(entry, s.received.length)] else []
  | .tick _ => []

/-- A table after an input: nothing is flushed, or the whole batch with what has arrived is. -/
theorem step_cases (s : Worker β) (table : String) (i : Input β) :
    let t := s.tables table
    let b := t.batch ++ s.arrives table i
    (s.flushes table i = none ∧ (s.step true i).tables table = ⟨b, t.stored, t.dropped⟩) ∨
      (s.flushes table i = some (b, true) ∧
        (s.step true i).tables table = ⟨[], t.stored ++ b, t.dropped⟩) ∨
      (s.flushes table i = some (b, false) ∧ (s.step true i).tables table =
        ⟨b.drop (b.length - chRetainCap), t.stored, t.dropped ++ b.take (b.length - chRetainCap)⟩) := by
  intro t b
  cases i with
  | recv entry insert =>
    by_cases htable : entry.logType.indexId = table
    · have hb : b = t.batch ++ [(entry, s.received.length)] := by simp [b, arrives, htable]
      have hne : b ≠ [] := by simp [hb]
      have hstep : (s.step true (.recv entry insert)).tables table =
          if 50 ≤ b.length then t.record (flushToClickhouse (some insert) table b)
          else ⟨b, t.stored, t.dropped⟩ := by
        rw [hb]
        simp only [step, htable, if_true, Table.push_eq]
        rfl
      have hflushes : s.flushes table (.recv entry insert) =
          if 50 ≤ b.length then some (b, insert.inserts table b) else none := by
        simp only [flushes, htable, true_and, ← hb, t]
      rw [hstep, hflushes]
      by_cases hlen : 50 ≤ b.length
      · rw [if_pos hlen, if_pos hlen, Table.record_flush hne]
        cases insert.inserts table b with
        | true => exact Or.inr (Or.inl ⟨rfl, rfl⟩)
        | false => exact Or.inr (Or.inr ⟨rfl, rfl⟩)
      · rw [if_neg hlen, if_neg hlen]
        exact Or.inl ⟨rfl, rfl⟩
    · refine Or.inl ⟨if_neg fun h => htable h.1, ?_⟩
      simp [step, Ne.symm htable, b, t, arrives, htable]
  | tick insert =>
    have hb : b = t.batch := List.append_nil _
    by_cases hnil : t.batch = []
    · refine Or.inl ⟨if_pos hnil, ?_⟩
      rw [hb]
      exact if_pos (List.isEmpty_iff.mpr hnil)
    · have hstep : (s.step true (.tick insert)).tables table =
          t.record (flushToClickhouse (some insert) table t.batch) :=
        if_neg fun h => hnil (List.isEmpty_iff.mp h)
      have hflushes : s.flushes table (.tick insert) =
          some (t.batch, insert.inserts table t.batch) := if_neg hnil
      rw [hstep, hflushes, hb, Table.record_flush hnil]
      cases insert.inserts table t.batch with
      | true => exact Or.inr (Or.inl ⟨rfl, rfl⟩)
      | false => exact Or.inr (Or.inr ⟨rfl, rfl⟩)

theorem receivedFor_step (s : Worker β) (table : String) (i : Input β) :
    (s.step true i).receivedFor table = s.receivedFor table ++ s.arrives table i := by
  cases i with
  | recv entry insert =>
    simp only [receivedFor, step, List.filter_append, List.filter_singleton, arrives]
    by_cases htable : entry.logType.indexId = table <;> simp [htable]
  | tick insert => exact (List.append_nil _).symm

/-- Nothing carries a number that was not given yet. -/
def Numbered (s : Worker β) : Prop := ∀ r ∈ s.received, r.2 < s.received.length

variable [DecidableEq β]

def Sound (s : Worker β) (table : String) : Prop :=
  Delivered (s.receivedFor table) (s.tables table).stored (s.tables table).batch
    (s.tables table).dropped

/-- What arrives for a table waits in its batch. -/
theorem delivered_arrives (hnum : s.Numbered) (hs : s.Sound table) (i : Input β) :
    Delivered ((s.step true i).receivedFor table) (s.tables table).stored
      ((s.tables table).batch ++ s.arrives table i) (s.tables table).dropped := by
  rw [receivedFor_step]
  cases i with
  | recv entry insert =>
    by_cases htable : entry.logType.indexId = table
    · rw [arrives, if_pos htable]
      refine hs.receive fun hmem => ?_
      exact absurd (hnum _ (List.mem_of_mem_filter hmem)) (Nat.lt_irrefl _)
    · rwa [arrives, if_neg htable, List.append_nil, List.append_nil]
  | tick insert => rwa [arrives, List.append_nil, List.append_nil]

theorem sound_step (hnum : s.Numbered) (hs : s.Sound table) (i : Input β) :
    (s.step true i).Sound table := by
  have harr := delivered_arrives hnum hs i
  unfold Sound
  obtain ⟨-, h⟩ | ⟨-, h⟩ | ⟨-, h⟩ := s.step_cases table i
  · rw [h]
    exact harr
  · rw [h]
    exact harr.deliver
  · simp only [h]
    exact harr.giveUp _

omit [DecidableEq β] in
theorem received_run (inputs : List (Input β)) :
    (run true inputs).received = (inputs.filterMap Input.entry?).zipIdx := by
  induction inputs using List.reverseRecOn with
  | nil => rfl
  | append_singleton inputs i ih =>
    rw [run, List.foldl_append, ← run, List.filterMap_append, List.zipIdx_append, ← ih]
    cases i with
    | recv entry insert =>
      have hlen := congrArg List.length ih
      rw [List.length_zipIdx] at hlen
      simp [step, Input.entry?, ← hlen]
    | tick insert => simp [step, Input.entry?]

omit [DecidableEq β] in
theorem numbered_run (inputs : List (Input β)) : (run true inputs).Numbered := by
  intro r hr
  rw [received_run] at hr ⊢
  rw [List.length_zipIdx]
  exact List.snd_lt_of_mem_zipIdx hr

theorem sound_run (inputs : List (Input β)) (table : String) : (run true inputs).Sound table := by
  induction inputs using List.reverseRecOn with
  | nil => exact .nil
  | append_singleton inputs i ih =>
    rw [run, List.foldl_append]
    exact sound_step (numbered_run inputs) ih i

/-- The log type of the first entry, which picks the rows that are inserted, is that of the others. -/
theorem batch_logType (inputs : List (Input β)) {a b : Receipt β}
    (ha : a ∈ ((run true inputs).tables table).batch)
    (hb : b ∈ ((run true inputs).tables table).batch) : a.1.logType = b.1.logType := by
  have hown : ∀ r ∈ ((run true inputs).tables table).batch, r.1.logType.indexId = table := by
    intro r hr
    have hmem := List.mem_append_right ((run true inputs).tables table).stored hr
    rw [(sound_run inputs table).order] at hmem
    have hreceived : r ∈ (run true inputs).receivedFor table := List.mem_of_mem_filter hmem
    exact of_decide_eq_true (List.mem_filter.mp hreceived).2
  exact LogType.indexId_inj ((hown a ha).trans (hown b hb).symm)

end Worker

/--
With ClickHouse configured, after any inputs and for each table: what is stored followed by the batch
is what was received for the table without what was dropped, in order of receipt, and nothing is
stored twice. The next input only flushes the whole batch. It drops nothing unless the insert fails
and the batch is longer than the cap, and then the oldest that are too many.
-/
theorem audit_rows_delivered [DecidableEq β] (inputs : List (Input β)) (i : Input β)
    (table : String) :
    let s := Worker.run true inputs
    let t := s.tables table
    let t' := (Worker.run true (inputs ++ [i])).tables table
    s.received = (inputs.filterMap Input.entry?).zipIdx ∧
      t.stored ++ t.batch = (s.receivedFor table).filter (· ∉ t.dropped) ∧
      t.stored.Nodup ∧
      (s.flushes table i = none → t'.stored = t.stored ∧ t'.dropped = t.dropped) ∧
      (∀ b, s.flushes table i = some (b, true) →
        t'.stored = t.stored ++ b ∧ t'.batch = [] ∧ t'.dropped = t.dropped) ∧
      ∀ b, s.flushes table i = some (b, false) → t'.stored = t.stored ∧
        t'.batch = b.drop (b.length - chRetainCap) ∧
        t'.dropped = t.dropped ++ b.take (b.length - chRetainCap) ∧
        t'.batch.length ≤ chRetainCap := by
  intro s t t'
  have hsound := Worker.sound_run inputs table
  have ht' : t' = (s.step true i).tables table := by
    simp only [t', s, Worker.run, List.foldl_append, List.foldl_cons, List.foldl_nil]
  have horder : t.stored ++ t.batch = (s.receivedFor table).filter (· ∉ t.dropped) :=
    hsound.order.trans
      (List.filter_congr fun r _ => decide_eq_decide.mpr (Iff.refl (r ∉ t.dropped)))
  refine ⟨Worker.received_run inputs, horder, hsound.nodup_stored, ?_⟩
  rw [ht']
  obtain ⟨hf, h⟩ | ⟨hf, h⟩ | ⟨hf, h⟩ := s.step_cases table i
  · rw [hf, h]
    exact ⟨fun _ => ⟨rfl, rfl⟩, nofun, nofun⟩
  · rw [hf, h]
    refine ⟨nofun, fun b hb => ?_, nofun⟩
    obtain ⟨rfl, -⟩ := Prod.mk.inj (Option.some.inj hb)
    exact ⟨rfl, rfl, rfl⟩
  · rw [hf, h]
    refine ⟨nofun, nofun, fun b hb => ?_⟩
    obtain ⟨rfl, -⟩ := Prod.mk.inj (Option.some.inj hb)
    simp only [true_and]
    exact ⟨rfl, rfl, length_kept_le _⟩

end ThinkWatch.Audit
