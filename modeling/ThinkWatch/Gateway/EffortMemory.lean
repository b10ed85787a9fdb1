import Mathlib.Data.List.Sort
import ThinkWatch.Gateway.Failure
import ThinkWatch.Gateway.Readers

/-!
# The reasoning efforts an upstream refused

`crates/gateway/src/proxy/effort.rs`: what is remembered of the efforts a model refused, and the
refusals it is learnt from. What the conversation library reads and writes in a request is a
parameter, `Dialects`: `J` is a JSON value, `β` the bytes of a body. A memory in Redis is the value
it is read as.
-/

namespace ThinkWatch.Gateway.Learned

open Gateway.Stream (Dialect)

/-- `tw_dialect::ir::Effort`. -/
inductive Effort where
  | minimal
  | low
  | medium
  | high
  | xhigh
  | max
deriving DecidableEq, Repr

/-- `tw_dialect::params::WrittenEffort`. -/
inductive WrittenEffort where
  | off
  | level (e : Effort)
deriving DecidableEq, Repr

/-- `tw_dialect::think::EffortFix`. -/
inductive EffortFix where
  | use (e : Effort)
  | drop
deriving DecidableEq, Repr

/-- What `tw_dialect` reads and writes: a function that changes a request answers with the changed
one, and with none if there is nothing to change. -/
structure Dialects (J β : Type) where
  fromSlice : β → Option J
  toVec : J → Option β
  openai : Effort → String
  /-- `none` is the effort that is off. -/
  parseOpenai : String → Option (Option Effort)
  parse_openai : ∀ e, parseOpenai (openai e) = some (some e)
  parse_none : parseOpenai "none" = some none
  writtenEffort : Dialect → J → Option WrittenEffort
  reasoningEffort : Dialect → J → Option Effort
  replaceReasoningEffort : Dialect → J → Effort → Option J
  removeReasoningEffort : Dialect → J → Option J
  stripMarks : Dialect → β → Option β
  effortRejection : Nat → List Char → Effort → Option EffortFix
  noneFix : Nat → List Char → Option EffortFix
  sealedRefused : Dialect → String → Bool

variable {J β : Type} (D : Dialects J β)

/-- `WrittenEffort::slug`. -/
def WrittenEffort.slug : WrittenEffort → String
  | .off => "none"
  | .level e => D.openai e

theorem WrittenEffort.slug_inj {w w' : WrittenEffort} (h : w.slug D = w'.slug D) : w = w' := by
  have hparse (w : WrittenEffort) : D.parseOpenai (w.slug D) =
      some (match w with | .off => none | .level e => some e) := by
    cases w with
    | off => exact D.parse_none
    | level e => exact D.parse_openai e
  have heq := hparse w
  rw [h, hparse w'] at heq
  cases w <;> cases w' <;> simp_all

/-! ## What a hop writes, and a refusal of it -/

inductive Reason where
  | setting
  | rejected
  | remembered
deriving DecidableEq, Repr

structure EffortChange where
  asked : String
  sent : Option String
  reason : Reason
deriving DecidableEq, Repr

def shown (dialect : Dialect) (v : J) : Option String :=
  ((D.writtenEffort dialect v).map (WrittenEffort.slug D)).or
    ((D.reasoningEffort dialect v).map D.openai)

def written (dialect : Dialect) (body : β) : Option WrittenEffort :=
  (D.fromSlice body).bind (D.writtenEffort dialect)

/-- The changed body, and what it sends. -/
def applyFix (dialect : Dialect) (body : β) (fix : EffortFix) : Option (β × Option String) := do
  let v ← D.fromSlice body
  let v ← match fix with
    | .use e => D.replaceReasoningEffort dialect v e
    | .drop => D.removeReasoningEffort dialect v
  let bytes ← D.toVec v
  some (bytes, shown D dialect v)

/-- What the upstream said: the message without the upstream's name, which it starts with. -/
def saidBy (label message : String) : List Char :=
  let front := label.toList ++ [':', ' ']
  if front <+: message.toList then message.toList.drop front.length else message.toList

def rejection (err : GatewayError) (label : String) (sent : WrittenEffort) : Option EffortFix :=
  match err with
  | .providerHttpError status message _ =>
    match sent with
    | .level e => D.effortRejection status (saidBy label message) e
    | .off => D.noneFix status (saidBy label message)
  | _ => none

/-! ## The memory -/

/-- Seconds. -/
def memoryTtlSecs : Int := 7 * 24 * 60 * 60

/-- What worked instead of a refused effort (none: leaving it out), and since when it is known. -/
structure Entry where
  instead : Option String
  atSecs : Int
deriving DecidableEq, Repr

/-- How an entry says to rewrite a hop. -/
def Entry.fix (e : Entry) : Option EffortFix :=
  match e.instead with
  | some s => ((D.parseOpenai s).bind id).map .use
  | none => some .drop

/-- The entry of a fix that was answered. -/
def EffortFix.entry (fix : EffortFix) (now : Int) : Entry :=
  match fix with
  | .use e => ⟨some (D.openai e), now⟩
  | .drop => ⟨none, now⟩

theorem EffortFix.fix_entry (fix : EffortFix) (now : Int) :
    (fix.entry D now).fix D = some fix := by
  cases fix with
  | use e =>
    rw [entry, Entry.fix]
    dsimp only
    rw [D.parse_openai]
    rfl
  | drop => rfl

/-- The fix is the refused effort itself. -/
def EffortFix.Is (fix : EffortFix) (rejected : WrittenEffort) : Prop :=
  match fix with
  | .use e => .level e = rejected
  | .drop => False

instance : (fix : EffortFix) → (rejected : WrittenEffort) → Decidable (fix.Is rejected)
  | .use e, rejected => inferInstanceAs (Decidable (.level e = rejected))
  | .drop, _ => inferInstanceAs (Decidable False)

/-- The refused efforts as they are written, in their order. -/
structure Memory where
  entries : List (String × Entry)
deriving DecidableEq, Repr

namespace Memory

def empty : Memory := ⟨[]⟩

def isEmpty (m : Memory) : Bool := m.entries.isEmpty

def get (m : Memory) (slug : String) : Option Entry :=
  (m.entries.find? fun e => e.1 = slug).map Prod.snd

def insteadOf (m : Memory) (written : WrittenEffort) (now : Int) : Option EffortFix := do
  let entry ← m.get (written.slug D)
  if memoryTtlSecs ≤ now - entry.atSecs then none else entry.fix D

def forget (m : Memory) (rejected : WrittenEffort) : Memory :=
  ⟨m.entries.filter fun e => e.1 ≠ rejected.slug D⟩

def insert (m : Memory) (slug : String) (entry : Entry) : Memory :=
  ⟨(m.entries.filter fun e => e.1 ≠ slug).orderedInsert (fun a b => a.1 ≤ b.1) (slug, entry)⟩

def note (m : Memory) (rejected : WrittenEffort) (fix : EffortFix) (now : Int) : Memory :=
  let m : Memory := ⟨m.entries.filter fun e => now - e.2.atSecs < memoryTtlSecs⟩
  -- the upstream took it after all
  if fix.Is rejected then m.forget D rejected
  else m.insert (rejected.slug D) (fix.entry D now)

variable {D} {m : Memory} {rejected w : WrittenEffort} {fix : EffortFix} {now : Int}
  {e : String × Entry}

theorem mem_insert {slug : String} {entry : Entry} :
    e ∈ (m.insert slug entry).entries ↔ e = (slug, entry) ∨ e ∈ m.entries ∧ e.1 ≠ slug := by
  rw [insert, List.mem_orderedInsert, List.mem_filter, decide_eq_true_eq]

/-- What is in a memory after a note was in it before, or is what is noted: never an effort in its
own place. -/
theorem mem_note (h : e ∈ (m.note D rejected fix now).entries) :
    e ∈ m.entries ∨ e = (rejected.slug D, fix.entry D now) ∧ ¬ fix.Is rejected := by
  have hold {p : String × Entry → Bool} (h : e ∈ m.entries.filter p) : e ∈ m.entries :=
    (List.mem_filter.mp h).1
  unfold note at h
  split at h
  · exact Or.inl (hold (List.mem_filter.mp h).1)
  next hne =>
    rcases mem_insert.mp h with rfl | ⟨h, -⟩
    · exact Or.inr ⟨rfl, hne⟩
    · exact Or.inl (hold h)

/-- What is taken from a memory is one of its entries, and less than a week old. -/
theorem mem_of_insteadOf (h : m.insteadOf D w now = some fix) :
    ∃ entry, (w.slug D, entry) ∈ m.entries ∧ entry.fix D = some fix ∧
      now < entry.atSecs + memoryTtlSecs := by
  obtain ⟨entry, hget, h⟩ := Option.bind_eq_some_iff.mp h
  obtain ⟨⟨slug, entry'⟩, hfind, heq⟩ := Option.map_eq_some_iff.mp hget
  obtain rfl : entry' = entry := heq
  have hslug := List.find?_some hfind
  obtain rfl : slug = w.slug D := of_decide_eq_true hslug
  split at h
  · cases h
  · exact ⟨entry', List.mem_of_find?_eq_some hfind, h, by omega⟩

end Memory

end ThinkWatch.Gateway.Learned
