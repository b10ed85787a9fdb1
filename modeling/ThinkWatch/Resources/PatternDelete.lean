import Mathlib.Algebra.GroupWithZero.Nat
import Mathlib.Order.Fin.Basic
import ThinkWatch.Lib.KeyedList

/-!
# Deleting by pattern

`delete_all` of `crates/common/src/redis_keys.rs`, which `delete_matching` calls with the keys of a
`SCAN`: the keys go through a batch, a full batch is deleted, by slot on a cluster, and what is left
at the end too. The answer to each `DEL` is a parameter, and so is the slot of a key
(`fred::util::redis_keyslot`). `delete_all_exact`: every key that was scanned is in one `DEL`.
-/

namespace ThinkWatch.Resources

open Lib

variable {Key E : Type}

/-- `BATCH`. -/
def batchSize : Nat := 256

structure IncompleteDelete (E : Type) where
  deleted : Nat
  failures : Nat
  first : E
deriving DecidableEq, Repr

structure Tally (E : Type) where
  deleted : Nat
  failures : Nat
  first : Option E
deriving DecidableEq, Repr

def Tally.failed (t : Tally E) (e : E) : Tally E :=
  { t with failures := t.failures + 1, first := some (t.first.getD e) }

/-- The tally, and every `DEL` that was sent with its answer. -/
structure Deletion (Key E : Type) where
  tally : Tally E
  sent : List (List Key × Except E Nat)

/-- What the code is given: whether Redis is a cluster, and the answer to each `DEL` in turn. -/
structure Server (Key E : Type) where
  clustered : Bool
  slot : Key → Fin (2 ^ 16)
  del : Nat → List Key → Except E Nat

def bySlot (srv : Server Key E) (keys : List Key) : List (Fin (2 ^ 16) × List Key) :=
  groups srv.slot keys

def Deletion.del (srv : Server Key E) (d : Deletion Key E) (keys : List Key) : Deletion Key E :=
  let answer := srv.del d.sent.length keys
  { tally :=
      match answer with
      | .ok deleted => { d.tally with deleted := d.tally.deleted + deleted }
      | .error e => d.tally.failed e
    sent := d.sent ++ [(keys, answer)] }

def Deletion.delete (srv : Server Key E) (d : Deletion Key E) (keys : List Key) : Deletion Key E :=
  if keys.isEmpty then d
  else
    let batches := if srv.clustered then (bySlot srv keys).map (·.2) else [keys]
    batches.foldl (Deletion.del srv) d

/-- The loop of `delete_all`, with the batch so far. -/
def Deletion.scan (srv : Server Key E) (d : Deletion Key E) (batch : List Key) :
    List (Except E Key) → Deletion Key E
  | [] => d.delete srv batch
  | item :: items =>
    let (d, batch) : Deletion Key E × List Key :=
      match item with
      | .ok key => (d, batch ++ [key])
      | .error e => ({ d with tally := d.tally.failed e }, batch)
    if batch.length = batchSize then (d.delete srv batch).scan srv [] items
    else d.scan srv batch items

def Deletion.start : Deletion Key E := ⟨⟨0, 0, none⟩, []⟩

def Deletion.result (d : Deletion Key E) : Except (IncompleteDelete E) Nat :=
  match d.tally.first with
  | none => .ok d.tally.deleted
  | some first => .error ⟨d.tally.deleted, d.tally.failures, first⟩

/-- `delete_all`: its result, and what was sent. -/
def deleteAll (srv : Server Key E) (items : List (Except E Key)) :
    Except (IncompleteDelete E) Nat × List (List Key × Except E Nat) :=
  let d := Deletion.start.scan srv [] items
  (d.result, d.sent)

variable {srv : Server Key E} {d : Deletion Key E} {keys more batch : List Key}
  {items : List (Except E Key)} {errors : Nat}

/-! ## What the tally says of what was sent -/

/-- The keys that were scanned. -/
def scanned (items : List (Except E Key)) : List Key := items.filterMap Except.toOption

/-- The steps of the scan that failed. -/
def scanErrors (items : List (Except E Key)) : Nat := items.countP fun item => !item.isOk

/-- The keys that an answer says were deleted. -/
def deletedBy (answer : Except E Nat) : Nat := answer.toOption.getD 0

def refused (sent : List (List Key × Except E Nat)) : Nat := sent.countP fun s => !s.2.isOk

/-- One `DEL`, as the server takes it. -/
def Acceptable (srv : Server Key E) (keys : List Key) : Prop :=
  keys ≠ [] ∧ (srv.clustered = true → ∀ k ∈ keys, ∀ k' ∈ keys, srv.slot k = srv.slot k')

/-- `keys` are the keys that were passed on, and `errors` is how often the scan failed. -/
structure Deletion.Accounts (srv : Server Key E) (d : Deletion Key E) (keys : List Key)
    (errors : Nat) : Prop where
  passed : (d.sent.flatMap (·.1)).Perm keys
  acceptable : ∀ s ∈ d.sent, Acceptable srv s.1
  deleted : d.tally.deleted = (d.sent.map fun s => deletedBy s.2).sum
  failures : d.tally.failures = errors + refused d.sent
  first : d.tally.first = none ↔ d.tally.failures = 0

namespace Deletion.Accounts

theorem start : (Deletion.start : Deletion Key E).Accounts srv [] 0 where
  passed := .refl _
  acceptable := nofun
  deleted := rfl
  failures := rfl
  first := iff_of_true rfl rfl

/-- A step of the scan has failed. -/
theorem failed (h : d.Accounts srv keys errors) (e : E) :
    ({ d with tally := d.tally.failed e } : Deletion Key E).Accounts srv keys (errors + 1) where
  passed := h.passed
  acceptable := h.acceptable
  deleted := h.deleted
  failures := by
    show d.tally.failures + 1 = errors + 1 + refused d.sent
    rw [h.failures]
    omega
  first := iff_of_false (by simp [Tally.failed]) (by simp [Tally.failed])

/-- Whatever the answer is. -/
theorem del (h : d.Accounts srv keys errors) (hmore : Acceptable srv more) :
    (d.del srv more).Accounts srv (keys ++ more) errors := by
  have hpassed : ((d.sent ++ [(more, srv.del d.sent.length more)]).flatMap (·.1)).Perm
      (keys ++ more) := by
    rw [List.flatMap_append, List.flatMap_singleton]
    exact h.passed.append_right more
  have hacceptable : ∀ s ∈ d.sent ++ [(more, srv.del d.sent.length more)], Acceptable srv s.1 := by
    intro s hs
    rcases List.mem_append.mp hs with hs | hs
    · exact h.acceptable s hs
    · rw [List.mem_singleton.mp hs]
      exact hmore
  unfold Deletion.del
  cases hanswer : srv.del d.sent.length more with
  | ok n =>
    rw [hanswer] at hpassed hacceptable
    refine ⟨hpassed, hacceptable, ?_, ?_, h.first⟩
    · simp [h.deleted, deletedBy, Except.toOption]
    · simp [h.failures, refused, Except.isOk, Except.toBool]
  | error e =>
    rw [hanswer] at hpassed hacceptable
    refine ⟨hpassed, hacceptable, ?_, ?_, ?_⟩
    · simp [Tally.failed, h.deleted, deletedBy, Except.toOption]
    · simp [Tally.failed, h.failures, refused, Except.isOk, Except.toBool, Nat.add_assoc]
    · simp [Tally.failed]

/-- All batches are sent, also after one that is refused. -/
theorem dels {batches : List (List Key)} (h : d.Accounts srv keys errors)
    (hbatches : ∀ b ∈ batches, Acceptable srv b) :
    (batches.foldl (Deletion.del srv) d).Accounts srv (keys ++ batches.flatten) errors := by
  induction batches generalizing d keys with
  | nil =>
    rw [List.flatten_nil, List.append_nil]
    exact h
  | cons b batches ih =>
    rw [List.foldl_cons, List.flatten_cons, ← List.append_assoc]
    obtain ⟨hb, hbatches⟩ := List.forall_mem_cons.mp hbatches
    exact ih (h.del hb) hbatches

theorem congr (h : d.Accounts srv keys errors) (hperm : keys.Perm more) :
    d.Accounts srv more errors :=
  ⟨h.passed.trans hperm, h.acceptable, h.deleted, h.failures, h.first⟩

theorem delete (h : d.Accounts srv keys errors) (batch : List Key) :
    (d.delete srv batch).Accounts srv (keys ++ batch) errors := by
  unfold Deletion.delete
  by_cases hnil : batch.isEmpty
  · rw [if_pos hnil, List.isEmpty_iff.mp hnil, List.append_nil]
    exact h
  rw [if_neg hnil]
  have hne : batch ≠ [] := fun heq => hnil (List.isEmpty_iff.mpr heq)
  by_cases hclustered : srv.clustered
  · rw [if_pos hclustered]
    have hslots := key_of_mem_groups srv.slot batch
    refine (h.dels ?_).congr ?_
    · intro b hb
      obtain ⟨g, hg, rfl⟩ := List.mem_map.mp hb
      obtain ⟨hgne, hkeys⟩ := hslots g hg
      exact ⟨hgne, fun _ k hk k' hk' => (hkeys k hk).trans (hkeys k' hk').symm⟩
    · exact (groups_perm srv.slot batch).append_left keys
  · rw [if_neg hclustered]
    have hbatch : ∀ b ∈ [batch], Acceptable srv b :=
      List.forall_mem_singleton.mpr ⟨hne, fun hc => absurd hc hclustered⟩
    exact (h.dels hbatch).congr (by simp)

/-- The rest of the scan passes on the batch and its own keys. -/
theorem scan (h : d.Accounts srv keys errors) :
    (d.scan srv batch items).Accounts srv (keys ++ batch ++ scanned items)
      (errors + scanErrors items) := by
  induction items generalizing d keys batch errors with
  | nil =>
    rw [Deletion.scan]
    exact (h.delete batch).congr (by simp [scanned])
  | cons item items ih =>
    -- a full batch is deleted and the next one begins
    have hnext : ∀ {d : Deletion Key E} {batch : List Key} {errors : Nat},
        d.Accounts srv keys errors →
          (if batch.length = batchSize then (d.delete srv batch).scan srv [] items
            else d.scan srv batch items).Accounts srv (keys ++ batch ++ scanned items)
            (errors + scanErrors items) := by
      intro d batch errors h
      split
      · have hdone : ((d.delete srv batch).scan srv [] items).Accounts srv
            (keys ++ batch ++ [] ++ scanned items) (errors + scanErrors items) := ih (h.delete batch)
        rwa [List.append_nil] at hdone
      · exact ih h
    cases item with
    | ok key =>
      rw [Deletion.scan]
      have hscanned : scanned (.ok key :: items : List (Except E Key)) = key :: scanned items := rfl
      have herrors : scanErrors (.ok key :: items : List (Except E Key)) = scanErrors items := rfl
      rw [hscanned, herrors]
      exact (hnext h).congr (by simp)
    | error e =>
      rw [Deletion.scan]
      have hscanned : scanned (.error e :: items : List (Except E Key)) = scanned items := rfl
      have herrors : scanErrors (.error e :: items : List (Except E Key)) =
          scanErrors items + 1 := by
        unfold scanErrors
        rw [List.countP_cons]
        rfl
      rw [hscanned, herrors, Nat.add_comm (scanErrors items), ← Nat.add_assoc]
      exact hnext (h.failed e)

end Deletion.Accounts

namespace Deletion

theorem deleted_of_result {n : Nat} (h : d.result = .ok n) : n = d.tally.deleted := by
  unfold result at h
  split at h
  · exact (Except.ok.inj h).symm
  · cases h

theorem counts_of_result {e : IncompleteDelete E} (h : d.result = .error e) :
    e.deleted = d.tally.deleted ∧ e.failures = d.tally.failures := by
  unfold result at h
  split at h
  · cases h
  · rw [← Except.error.inj h]
    exact ⟨rfl, rfl⟩

theorem isOk_result : d.result.isOk = true ↔ d.tally.first = none := by
  unfold result
  cases d.tally.first with
  | none => exact iff_of_true rfl rfl
  | some e => exact iff_of_false Bool.false_ne_true (by simp)

/-- The whole scan, from the start. -/
theorem accounts_scan (srv : Server Key E) (items : List (Except E Key)) :
    (start.scan srv [] items).Accounts srv (scanned items) (scanErrors items) := by
  have hscan : (start.scan srv [] items).Accounts srv ([] ++ [] ++ scanned items)
      (0 + scanErrors items) := Accounts.start.scan
  simpa using hscan

end Deletion

/--
Every key that was scanned is in one `DEL`, whatever failed before; a `DEL` names keys of one slot on
a cluster; and the result counts what was deleted and what failed, and is `Ok` if nothing did.
-/
theorem delete_all_exact (srv : Server Key E) (items : List (Except E Key)) :
    let (result, sent) := deleteAll srv items
    (sent.flatMap (·.1)).Perm (scanned items) ∧ (∀ s ∈ sent, Acceptable srv s.1) ∧
      (result.isOk = true ↔ (∀ item ∈ items, item.isOk) ∧ ∀ s ∈ sent, s.2.isOk) ∧
      (∀ n, result = .ok n → n = (sent.map fun s => deletedBy s.2).sum) ∧
      ∀ e, result = .error e → e.deleted = (sent.map fun s => deletedBy s.2).sum ∧
        e.failures = scanErrors items + refused sent := by
  have h := Deletion.accounts_scan srv items
  unfold deleteAll
  refine ⟨h.passed, h.acceptable, ?_, fun n hn => ?_, fun e he => ?_⟩
  · refine Deletion.isOk_result.trans ?_
    rw [h.first, h.failures, Nat.add_eq_zero_iff]
    unfold scanErrors refused
    simp [List.countP_eq_zero]
  · exact (Deletion.deleted_of_result hn).trans h.deleted
  · obtain ⟨hdeleted, hfailures⟩ := Deletion.counts_of_result he
    exact ⟨hdeleted.trans h.deleted, hfailures.trans h.failures⟩

/-- Three keys in two slots, one slot refused after the scan failed at its end. -/
example :
    deleteAll (⟨true, fun k => Fin.ofNat _ (k / 10), fun i keys =>
        if i = 1 then .error "reset" else .ok keys.length⟩ : Server Nat String)
      [.ok 11, .ok 21, .ok 12, .error "down"] =
    (.error ⟨2, 2, "down"⟩, [([11, 12], .ok 2), ([21], .error "reset")]) := rfl

end ThinkWatch.Resources
