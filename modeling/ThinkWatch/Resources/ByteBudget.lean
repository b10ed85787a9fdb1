import ThinkWatch.Lib.Run
import ThinkWatch.Lib.Slots

/-!
# The memory budget

`crates/common/src/resources.rs`: the tasks of the process and one `ByteBudget`. The counter is behind
a mutex; a step is one critical section, or an operation on what a single task owns. Of the data only
the length is kept. `Bytes` made by `from_owner` share an owner that counts them, and dropping the
last of them drops the owner. What is dropped is dropped in steps of its own, in any order.
-/

namespace ThinkWatch.Resources

open Lib

def usizeMax : Nat := 2 ^ 64 - 1

def mib : Nat := 1024 * 1024

def bodyHeadroom : Nat := 32

structure Policy where
  ioWorkers : Nat
  cpuJobs : Nat
  argonJobs : Nat
  bodyBytes : Nat
  auditBytes : Nat
  maxBodyBytes : Nat
deriving Repr

/-- `Policy::for_machine`. -/
def Policy.forMachine (cpus memory : Nat) : Policy :=
  let cpus := max cpus 1
  let bodyBytes := min (max (memory / 4) (8 * mib)) (8 * 1024 * mib)
  { ioWorkers := min cpus 8
    cpuJobs := min cpus (max (memory / (128 * mib)) 1)
    argonJobs := min cpus (max (memory / 8 / (32 * mib)) 1)
    bodyBytes := bodyBytes
    auditBytes := min (max (memory / 16) (2 * mib)) (128 * mib)
    maxBodyBytes := min (bodyBytes / bodyHeadroom) (64 * mib) }

/-! ## Reservations -/

def saturatingAdd (a b : Nat) : Nat := min (a + b) usizeMax

def saturatingMul (a b : Nat) : Nat := min (a * b) usizeMax

/-- `Reservation::grow`: the counter and the charge afterwards, or a refusal. -/
def grow (limit used charged bytes : Nat) : Option (Nat × Nat) :=
  let extra := bytes - charged
  if limit - used < extra then none else some (used + extra, charged + extra)

/-- What `Drop` leaves of the counter; the subtraction wraps. -/
def release (used charged : Nat) : Nat :=
  if charged ≤ used then used - charged else used + (usizeMax + 1) - charged

structure StreamBudget where
  charged : Nat
  received : Nat
  max : Nat
deriving DecidableEq, Repr

/-- `StreamBudget::append`. -/
def StreamBudget.append (limit used : Nat) (stream : StreamBudget) (bytes : Nat) :
    Option (Nat × StreamBudget) :=
  let received := saturatingAdd stream.received bytes
  if stream.max < received then none
  else
    (grow limit used stream.charged (saturatingMul received bodyHeadroom)).map fun r =>
      (r.1, { stream with charged := r.2, received := received })

/-- `read_response_with_budget` between two chunks. -/
structure Reading where
  charged : Nat
  data : Nat
  max : Nat
deriving DecidableEq, Repr

/-- What becomes of a read at its next chunk. -/
inductive AfterChunk where
  | tooLarge
  | busy
  | more (used : Nat) (reading : Reading)
deriving DecidableEq, Repr

def Reading.chunk (limit used : Nat) (reading : Reading) (len : Nat) : AfterChunk :=
  let size := reading.data + len
  if usizeMax < size then .tooLarge
  else if reading.max < size then .tooLarge
  else
    match grow limit used reading.charged (saturatingMul size bodyHeadroom) with
    | none => .busy
    | some (used, charged) => .more used { reading with charged := charged, data := size }

/-! ## What the tasks own -/

/-- A `Bytes`; `owner` is the shared owner that counts it. -/
structure Bytes where
  owner : Option Nat
  len : Nat
deriving DecidableEq, Repr

/-- `Bytes::slice`: an empty slice has no owner. -/
def Bytes.slice (b : Bytes) (len : Nat) : Bytes := if len = 0 then ⟨none, 0⟩ else ⟨b.owner, len⟩

inductive Held where
  | reservation (charged : Nat)
  | stream (stream : StreamBudget)
  | reading (reading : Reading)
  | bytes (b : Bytes)
deriving DecidableEq, Repr

/-- `Buffered` and `Retained`. `body` marks what `read_response_with_budget` returned. -/
inductive Owner where
  | buffered (data : Bytes) (charged : Nat) (body : Bool)
  | retained (data source : Bytes)
deriving DecidableEq, Repr

/-- An owner on the heap, and the number of `Bytes` that share it. -/
structure Shared where
  owner : Owner
  refs : Nat
deriving DecidableEq, Repr

/-- What is there to be dropped. -/
inductive Piece where
  | bytes (b : Bytes)
  | reservation (charged : Nat)
deriving DecidableEq, Repr

def Held.piece : Held → Piece
  | reservation charged => .reservation charged
  | stream s => .reservation s.charged
  | reading r => .reservation r.charged
  | bytes b => .bytes b

def Owner.pieces : Owner → Piece × Piece
  | buffered data charged _ => (.bytes data, .reservation charged)
  | retained data source => (.bytes data, .bytes source)

structure State where
  used : Nat
  tasks : Slots Held
  heap : Slots Shared
  dropping : Slots Piece
deriving DecidableEq, Repr

/--
`broken` is a transport error or a cancellation. `bytes` are those without an owner, `shrink` is
`truncate` or `advance`. `settle` carries on with a drop.
-/
inductive Event where
  | reserve
  | grow (i bytes : Nat)
  | wrap (i j : Nat)
  | stream (max : Nat)
  | append (i bytes : Nat)
  | read (contentLength : Option Nat) (max : Nat)
  | chunk (i len : Nat)
  | finish (i : Nat)
  | broken (i : Nat)
  | bytes (len : Nat)
  | clone (i : Nat)
  | slice (i len : Nat)
  | shrink (i len : Nat)
  | retain (i j : Nat)
  | drop (i : Nat)
  | settle (k : Nat)
deriving DecidableEq, Repr

namespace State

def start : State := ⟨0, [], [], []⟩

/-- What a task owns is dropped. -/
def discard (s : State) (i : Nat) (x : Held) : State :=
  { s with tasks := s.tasks.put i none, dropping := s.dropping.add x.piece }

/-- One more `Bytes` of the same owner. -/
def share (s : State) (b : Bytes) : State :=
  { s with
    tasks := s.tasks.add (.bytes b)
    heap := match b.owner with
      | none => s.heap
      | some id =>
        match s.heap.get id with
        | some n => s.heap.put id (some { n with refs := n.refs + 1 })
        | none => s.heap }

/-- `Bytes::from_owner`, in place of what the task owned. -/
def fromOwner (s : State) (i : Nat) (owner : Owner) (len : Nat) : State :=
  { s with
    tasks := s.tasks.put i (some (.bytes ⟨some s.heap.length, len⟩))
    heap := s.heap.add ⟨owner, 1⟩ }

/-- One `Bytes` less, and its owner goes with the last. -/
def unshare (s : State) (k id : Nat) (n : Shared) : State :=
  if n.refs = 1 then
    { s with
      heap := s.heap.put id none
      dropping := ((s.dropping.put k none).add n.owner.pieces.1).add n.owner.pieces.2 }
  else
    { s with
      heap := s.heap.put id (some { n with refs := n.refs - 1 })
      dropping := s.dropping.put k none }

def step (limit : Nat) (s : State) : Event → Option State
  | .reserve => some { s with tasks := s.tasks.add (.reservation 0) }
  | .grow i bytes =>
    match s.tasks.get i with
    | some (.reservation charged) =>
      match Resources.grow limit s.used charged bytes with
      | some (used, charged) =>
        some { s with used := used, tasks := s.tasks.put i (some (.reservation charged)) }
      | none => some s
    | _ => none
  | .wrap i j =>
    match s.tasks.get i, s.tasks.get j with
    | some (.reservation charged), some (.bytes data) =>
      some ({ s with tasks := s.tasks.put j none }.fromOwner i (.buffered data charged false)
        data.len)
    | _, _ => none
  | .stream max => some { s with tasks := s.tasks.add (.stream ⟨0, 0, max⟩) }
  | .append i bytes =>
    match s.tasks.get i with
    | some (.stream stream) =>
      match stream.append limit s.used bytes with
      | some (used, stream) =>
        some { s with used := used, tasks := s.tasks.put i (some (.stream stream)) }
      | none => some s
    | _ => none
  | .read contentLength max =>
    if ∃ n ∈ contentLength, max < n then some s
    else some { s with tasks := s.tasks.add (.reading ⟨0, 0, max⟩) }
  | .chunk i len =>
    match s.tasks.get i with
    | some (.reading reading) =>
      match reading.chunk limit s.used len with
      | .more used reading =>
        some { s with used := used, tasks := s.tasks.put i (some (.reading reading)) }
      | .tooLarge | .busy => some (s.discard i (.reading reading))
    | _ => none
  | .finish i =>
    match s.tasks.get i with
    | some (.reading reading) =>
      some (s.fromOwner i (.buffered ⟨none, reading.data⟩ reading.charged true) reading.data)
    | _ => none
  | .broken i =>
    match s.tasks.get i with
    | some (.reading reading) => some (s.discard i (.reading reading))
    | _ => none
  | .bytes len => some { s with tasks := s.tasks.add (.bytes ⟨none, len⟩) }
  | .clone i =>
    match s.tasks.get i with
    | some (.bytes b) => some (s.share b)
    | _ => none
  | .slice i len =>
    match s.tasks.get i with
    | some (.bytes b) => if len ≤ b.len then some (s.share (b.slice len)) else none
    | _ => none
  | .shrink i len =>
    match s.tasks.get i with
    | some (.bytes b) =>
      if len ≤ b.len then some { s with tasks := s.tasks.put i (some (.bytes ⟨b.owner, len⟩)) }
      else none
    | _ => none
  | .retain i j =>
    match s.tasks.get i, s.tasks.get j with
    | some (.bytes data), some (.bytes source) =>
      if i = j then none
      else
        some ({ s with tasks := s.tasks.put j none }.fromOwner i (.retained data source) data.len)
    | _, _ => none
  | .drop i =>
    match s.tasks.get i with
    | some x => some (s.discard i x)
    | none => none
  | .settle k =>
    match s.dropping.get k with
    | some (.reservation charged) =>
      some { s with used := release s.used charged, dropping := s.dropping.put k none }
    | some (.bytes ⟨none, _⟩) => some { s with dropping := s.dropping.put k none }
    | some (.bytes ⟨some id, _⟩) =>
      match s.heap.get id with
      | some n => some (s.unshare k id n)
      | none => none
    | none => none

end State

/-! ## Charges and references -/

def Piece.charged : Piece → Nat
  | bytes _ => 0
  | reservation charged => charged

def Piece.owner : Piece → Option Nat
  | bytes b => b.owner
  | reservation _ => none

def Piece.refersTo (id : Nat) (p : Piece) : Nat := if p.owner = some id then 1 else 0

/-- What an owner weighs: the pieces it is made of. -/
def Shared.weight (w : Piece → Nat) (n : Shared) : Nat :=
  w n.owner.pieces.1 + w n.owner.pieces.2

/-- What all that is alive weighs. -/
def State.total (s : State) (w : Piece → Nat) : Nat :=
  s.tasks.total (fun x => w x.piece) + s.heap.total (Shared.weight w) + s.dropping.total w

/-- The bytes that a stream or a read holds on its reservation. -/
def Held.held : Held → Nat
  | stream s => s.received
  | reading r => r.data
  | _ => 0

/-- A stream, a read or a body holds no more bytes than its reservation is charged for. -/
structure Covered (s : State) : Prop where
  tasks : ∀ i x, s.tasks.get i = some x → x.held * bodyHeadroom ≤ x.piece.charged
  bodies : ∀ id data charged refs, s.heap.get id = some ⟨.buffered data charged true, refs⟩ →
    data.len * bodyHeadroom ≤ charged

variable {limit : Nat} {s s' : State} {e : Event}

theorem refersTo_reservation (id charged : Nat) : (Piece.reservation charged).refersTo id = 0 :=
  if_neg nofun

theorem refersTo_unowned (id len : Nat) : (Piece.bytes ⟨none, len⟩).refersTo id = 0 :=
  if_neg nofun

theorem refersTo_self (id len : Nat) : (Piece.bytes ⟨some id, len⟩).refersTo id = 1 :=
  if_pos rfl

theorem refersTo_ne {id k : Nat} (h : id ≠ k) (len : Nat) :
    (Piece.bytes ⟨some k, len⟩).refersTo id = 0 :=
  if_neg fun hk => h (Option.some.inj hk).symm

theorem refersTo_pos {p : Piece} {id : Nat} (h : 0 < p.refersTo id) : p.owner = some id := by
  unfold Piece.refersTo at h
  split at h
  · assumption
  · cases h

theorem refersTo_of_owner {p : Piece} {id : Nat} (h : p.owner = some id) : p.refersTo id = 1 :=
  if_pos h

/-! ## Growing -/

theorem grow_spec {used charged bytes used' charged' : Nat}
    (h : grow limit used charged bytes = some (used', charged')) (hused : used ≤ limit) :
    used' + charged = used + charged' ∧ used' ≤ limit ∧ charged ≤ charged' ∧ bytes ≤ charged' := by
  simp only [grow] at h
  split at h
  · cases h
  · obtain ⟨rfl, rfl⟩ := Prod.mk.inj (Option.some.inj h)
    omega

/-- Where the product saturates, a limit that is not the largest number refuses. -/
theorem grow_covers {used charged held used' charged' : Nat}
    (h : grow limit used charged (saturatingMul held bodyHeadroom) = some (used', charged'))
    (hcharged : charged ≤ used) (hused : used ≤ limit) (hlimit : limit < usizeMax) :
    held * bodyHeadroom ≤ charged' := by
  obtain ⟨hsum, hle, -, hbytes⟩ := grow_spec h hused
  unfold saturatingMul at hbytes
  omega

theorem append_spec {used used' bytes : Nat} {stream stream' : StreamBudget}
    (h : stream.append limit used bytes = some (used', stream')) :
    ∃ received, grow limit used stream.charged (saturatingMul received bodyHeadroom) =
        some (used', stream'.charged) ∧ stream'.received = received := by
  simp only [StreamBudget.append] at h
  split at h
  · cases h
  · obtain ⟨r, hr, heq⟩ := Option.map_eq_some_iff.mp h
    obtain ⟨rfl, rfl⟩ := Prod.mk.inj heq
    exact ⟨_, hr, rfl⟩

theorem chunk_spec {used used' len : Nat} {reading reading' : Reading}
    (h : reading.chunk limit used len = .more used' reading') :
    grow limit used reading.charged (saturatingMul reading'.data bodyHeadroom) =
        some (used', reading'.charged) := by
  simp only [Reading.chunk] at h
  split at h
  · cases h
  · split at h
    · cases h
    · split at h
      · cases h
      · next used₁ charged hgrow =>
        obtain ⟨rfl, rfl⟩ := AfterChunk.more.inj h
        exact hgrow

/-! ## One step -/

/-- The ways a step can go. -/
inductive Moves (limit : Nat) (s : State) : State → Prop where
  | same : Moves limit s s
  | fresh {x : Held} (hcharged : x.piece.charged = 0) (howner : x.piece.owner = none)
      (hheld : x.held = 0) : Moves limit s { s with tasks := s.tasks.add x }
  | charge {i bytes used charged charged' : Nat} {x x' : Held} (hi : s.tasks.get i = some x)
      (hx : x.piece = .reservation charged) (hx' : x'.piece = .reservation charged')
      (hgrow : grow limit s.used charged bytes = some (used, charged'))
      (hheld : x'.held = 0 ∨ bytes = saturatingMul x'.held bodyHeadroom) :
      Moves limit s { s with used := used, tasks := s.tasks.put i (some x') }
  | shrink {i len : Nat} {b : Bytes} (hi : s.tasks.get i = some (.bytes b)) :
      Moves limit s { s with tasks := s.tasks.put i (some (.bytes ⟨b.owner, len⟩)) }
  | discard {i : Nat} {x : Held} (hi : s.tasks.get i = some x) : Moves limit s (s.discard i x)
  | share {i : Nat} {b b' : Bytes} (hi : s.tasks.get i = some (.bytes b))
      (hb : b'.owner = none ∨ b'.owner = b.owner) : Moves limit s (s.share b')
  | body {i : Nat} {r : Reading} (hi : s.tasks.get i = some (.reading r)) :
      Moves limit s (s.fromOwner i (.buffered ⟨none, r.data⟩ r.charged true) r.data)
  | own {i j len : Nat} {x : Held} {b : Bytes} {owner : Owner} (hi : s.tasks.get i = some x)
      (hj : s.tasks.get j = some (.bytes b)) (hij : i ≠ j)
      (hpieces : ∀ w : Piece → Nat, w owner.pieces.1 + w owner.pieces.2 = w (.bytes b) + w x.piece)
      (hbody : ∀ data charged, owner ≠ .buffered data charged true) :
      Moves limit s ({ s with tasks := s.tasks.put j none }.fromOwner i owner len)
  | free {k charged : Nat} (hk : s.dropping.get k = some (.reservation charged)) :
      Moves limit s
        { s with used := release s.used charged, dropping := s.dropping.put k none }
  | forget {k len : Nat} (hk : s.dropping.get k = some (.bytes ⟨none, len⟩)) :
      Moves limit s { s with dropping := s.dropping.put k none }
  | unshare {k id len : Nat} {n : Shared} (hk : s.dropping.get k = some (.bytes ⟨some id, len⟩))
      (hid : s.heap.get id = some n) : Moves limit s (s.unshare k id n)

theorem slice_owner (b : Bytes) (len : Nat) :
    (b.slice len).owner = none ∨ (b.slice len).owner = b.owner := by
  unfold Bytes.slice
  split
  · exact Or.inl rfl
  · exact Or.inr rfl

theorem step_moves (h : s.step limit e = some s') : Moves limit s s' := by
  cases e with
  | reserve =>
    obtain rfl := Option.some.inj h
    exact .fresh rfl rfl rfl
  | grow i bytes =>
    simp only [State.step] at h
    split at h
    · next charged hi =>
      split at h
      · next used charged' hgrow =>
        obtain rfl := Option.some.inj h
        exact .charge hi rfl rfl hgrow (Or.inl rfl)
      · obtain rfl := Option.some.inj h
        exact .same
    · cases h
  | wrap i j =>
    simp only [State.step] at h
    split at h
    · next charged data hi hj =>
      obtain rfl := Option.some.inj h
      have hij : i ≠ j := fun hij => by rw [hij, hj] at hi; cases hi
      exact .own hi hj hij (fun w => rfl) nofun
    · cases h
  | stream max =>
    obtain rfl := Option.some.inj h
    exact .fresh rfl rfl rfl
  | append i bytes =>
    simp only [State.step] at h
    split at h
    · next stream hi =>
      split at h
      · next used stream' happend =>
        obtain rfl := Option.some.inj h
        obtain ⟨received, hgrow, hreceived⟩ := append_spec happend
        exact .charge hi rfl rfl hgrow (Or.inr (by rw [← hreceived]; rfl))
      · obtain rfl := Option.some.inj h
        exact .same
    · cases h
  | read contentLength max =>
    simp only [State.step] at h
    split at h
    · obtain rfl := Option.some.inj h
      exact .same
    · obtain rfl := Option.some.inj h
      exact .fresh rfl rfl rfl
  | chunk i len =>
    simp only [State.step] at h
    split at h
    · next reading hi =>
      split at h
      · next used reading' hchunk =>
        obtain rfl := Option.some.inj h
        exact .charge hi rfl rfl (chunk_spec hchunk) (Or.inr rfl)
      · obtain rfl := Option.some.inj h
        exact .discard hi
      · obtain rfl := Option.some.inj h
        exact .discard hi
    · cases h
  | finish i =>
    simp only [State.step] at h
    split at h
    · next reading hi =>
      obtain rfl := Option.some.inj h
      exact .body hi
    · cases h
  | broken i =>
    simp only [State.step] at h
    split at h
    · next reading hi =>
      obtain rfl := Option.some.inj h
      exact .discard hi
    · cases h
  | bytes len =>
    obtain rfl := Option.some.inj h
    exact .fresh rfl rfl rfl
  | clone i =>
    simp only [State.step] at h
    split at h
    · next b hi =>
      obtain rfl := Option.some.inj h
      exact .share hi (Or.inr rfl)
    · cases h
  | slice i len =>
    simp only [State.step] at h
    split at h
    · next b hi =>
      split at h
      · obtain rfl := Option.some.inj h
        exact .share hi (slice_owner b len)
      · cases h
    · cases h
  | shrink i len =>
    simp only [State.step] at h
    split at h
    · next b hi =>
      split at h
      · obtain rfl := Option.some.inj h
        exact .shrink hi
      · cases h
    · cases h
  | retain i j =>
    simp only [State.step] at h
    split at h
    · next data source hi hj =>
      split at h
      · cases h
      · next hij =>
        obtain rfl := Option.some.inj h
        exact .own hi hj hij (fun w => Nat.add_comm _ _) nofun
    · cases h
  | drop i =>
    simp only [State.step] at h
    split at h
    · next x hi =>
      obtain rfl := Option.some.inj h
      exact .discard hi
    · cases h
  | settle k =>
    simp only [State.step] at h
    split at h
    · next charged hk =>
      obtain rfl := Option.some.inj h
      exact .free hk
    · next len hk =>
      obtain rfl := Option.some.inj h
      exact .forget hk
    · next id len hk =>
      split at h
      · next n hid =>
        obtain rfl := Option.some.inj h
        exact .unshare hk hid
      · cases h
    · cases h

/-! ## The invariant -/

structure Sound (limit : Nat) (s : State) : Prop where
  used : s.used = s.total Piece.charged
  le : s.used ≤ limit
  refs : ∀ id, (s.heap.get id).elim 0 Shared.refs = s.total (Piece.refersTo id)
  pos : ∀ id n, s.heap.get id = some n → 0 < n.refs
  older : ∀ id n k, s.heap.get id = some n → 0 < n.weight (Piece.refersTo k) → k < id
  covered : limit < usizeMax → Covered s

theorem sound_start (limit : Nat) : Sound limit State.start where
  used := rfl
  le := Nat.zero_le limit
  refs _ := rfl
  pos := nofun
  older := nofun
  covered _ := ⟨nofun, nofun⟩

theorem le_total_tasks {i : Nat} {x : Held} (hi : s.tasks.get i = some x) (w : Piece → Nat) :
    w x.piece ≤ s.total w := by
  have hle := Slots.le_total hi fun x => w x.piece
  unfold State.total
  omega

theorem le_total_heap {id : Nat} {n : Shared} (hid : s.heap.get id = some n) (w : Piece → Nat) :
    n.weight w ≤ s.total w := by
  have hle := Slots.le_total hid (Shared.weight w)
  unfold State.total
  omega

theorem le_total_dropping {k : Nat} {p : Piece} (hk : s.dropping.get k = some p)
    (w : Piece → Nat) : w p ≤ s.total w := by
  have hle := Slots.le_total hk w
  unfold State.total
  omega

namespace Sound

/-- What is referred to is on the heap. -/
theorem alive (hs : Sound limit s) {id : Nat} (h : 0 < s.total (Piece.refersTo id)) :
    ∃ n, s.heap.get id = some n := by
  rw [← hs.refs id] at h
  cases hid : s.heap.get id with
  | none => rw [hid] at h; cases h
  | some n => exact ⟨n, rfl⟩

theorem lt_length (hs : Sound limit s) {id : Nat} (h : 0 < s.total (Piece.refersTo id)) :
    id < s.heap.length := by
  obtain ⟨n, hid⟩ := hs.alive h
  exact Slots.lt_length_of_get hid

/-- The steps that leave the heap alone. -/
theorem aside (hs : Sound limit s) (hused : s'.used = s'.total Piece.charged)
    (hle : s'.used ≤ limit) (hheap : s'.heap = s.heap)
    (hrefs : ∀ id, s'.total (Piece.refersTo id) = s.total (Piece.refersTo id))
    (htasks : limit < usizeMax → ∀ i x, s'.tasks.get i = some x →
      x.held * bodyHeadroom ≤ x.piece.charged) : Sound limit s' where
  used := hused
  le := hle
  refs id := by rw [hheap, hrefs id, hs.refs id]
  pos := by rw [hheap]; exact hs.pos
  older := by rw [hheap]; exact hs.older
  covered hlimit := ⟨htasks hlimit, by rw [hheap]; exact (hs.covered hlimit).bodies⟩

theorem tasks_put (hs : Sound limit s) {i : Nat} {o : Option Held}
    (ho : limit < usizeMax → ∀ x ∈ o, x.held * bodyHeadroom ≤ x.piece.charged)
    (hlimit : limit < usizeMax) :
    ∀ j x, (s.tasks.put i o).get j = some x → x.held * bodyHeadroom ≤ x.piece.charged := by
  intro j x hj
  rcases Slots.get_put_eq_some hj with hx | hj
  · exact ho hlimit x hx
  · exact (hs.covered hlimit).tasks j x hj

theorem tasks_add (hs : Sound limit s) {a : Held} (ha : a.held = 0) (hlimit : limit < usizeMax) :
    ∀ j x, (s.tasks.add a).get j = some x → x.held * bodyHeadroom ≤ x.piece.charged := by
  intro j x hj
  rcases Slots.get_add_eq_some hj with ⟨-, rfl⟩ | hj
  · rw [ha, Nat.zero_mul]
    exact Nat.zero_le _
  · exact (hs.covered hlimit).tasks j x hj

theorem fresh (hs : Sound limit s) {x : Held} (hcharged : x.piece.charged = 0)
    (howner : x.piece.owner = none) (hheld : x.held = 0) :
    Sound limit { s with tasks := s.tasks.add x } := by
  have htotal : ∀ w : Piece → Nat, w x.piece = 0 →
      State.total { s with tasks := s.tasks.add x } w = s.total w := by
    intro w hw
    simp only [State.total, Slots.total_add, hw, Nat.add_zero]
  refine hs.aside ?_ hs.le rfl (fun id => htotal _ ?_) (hs.tasks_add hheld)
  · rw [htotal _ hcharged]
    exact hs.used
  · exact if_neg (by rw [howner]; nofun)

theorem charge (hs : Sound limit s) {i bytes used charged charged' : Nat} {x x' : Held}
    (hi : s.tasks.get i = some x) (hx : x.piece = .reservation charged)
    (hx' : x'.piece = .reservation charged')
    (hgrow : grow limit s.used charged bytes = some (used, charged'))
    (hheld : x'.held = 0 ∨ bytes = saturatingMul x'.held bodyHeadroom) :
    Sound limit { s with used := used, tasks := s.tasks.put i (some x') } := by
  have htotal : ∀ w : Piece → Nat,
      State.total { s with used := used, tasks := s.tasks.put i (some x') } w +
        w (.reservation charged) = s.total w + w (.reservation charged') := by
    intro w
    have hput := Slots.total_put hi (some x') fun x => w x.piece
    simp only [hx, hx', Option.elim_some] at hput
    simp only [State.total]
    omega
  obtain ⟨hsum, hle, -, -⟩ := grow_spec hgrow hs.le
  have hcharged : charged ≤ s.used := by
    have hxle := le_total_tasks hi Piece.charged
    rw [hx] at hxle
    exact hs.used ▸ hxle
  refine hs.aside ?_ hle rfl (fun id => ?_) (hs.tasks_put fun hlimit y hy => ?_)
  · have hall := htotal Piece.charged
    have hused := hs.used
    simp only [Piece.charged] at hall ⊢
    omega
  · have hall := htotal (Piece.refersTo id)
    rw [refersTo_reservation, refersTo_reservation] at hall
    exact hall
  · obtain rfl := Option.some.inj hy
    rw [hx']
    show x'.held * bodyHeadroom ≤ charged'
    rcases hheld with h | rfl
    · rw [h, Nat.zero_mul]
      exact Nat.zero_le _
    · exact grow_covers hgrow hcharged hs.le hlimit

theorem shrink (hs : Sound limit s) {i len : Nat} {b : Bytes}
    (hi : s.tasks.get i = some (.bytes b)) :
    Sound limit { s with tasks := s.tasks.put i (some (.bytes ⟨b.owner, len⟩)) } := by
  have htotal : ∀ w : Piece → Nat, w (.bytes ⟨b.owner, len⟩) = w (.bytes b) →
      State.total { s with tasks := s.tasks.put i (some (.bytes ⟨b.owner, len⟩)) } w =
        s.total w := by
    intro w hw
    have hput : _ + w (.bytes b) = _ + w (.bytes ⟨b.owner, len⟩) :=
      Slots.total_put hi (some (.bytes ⟨b.owner, len⟩)) fun x => w x.piece
    simp only [State.total]
    omega
  refine hs.aside ?_ hs.le rfl (fun id => htotal _ rfl) (hs.tasks_put fun _ y hy => ?_)
  · rw [htotal _ rfl]
    exact hs.used
  · obtain rfl := Option.some.inj hy
    simp [Held.held]

theorem discard (hs : Sound limit s) {i : Nat} {x : Held} (hi : s.tasks.get i = some x) :
    Sound limit (s.discard i x) := by
  have htotal : ∀ w : Piece → Nat, (s.discard i x).total w = s.total w := by
    intro w
    have hput := Slots.total_put hi none fun x => w x.piece
    have hadd := Slots.total_add s.dropping x.piece w
    simp only [Option.elim_none] at hput
    simp only [State.total, State.discard]
    omega
  refine hs.aside ?_ hs.le rfl (fun id => htotal _) (hs.tasks_put nofun)
  rw [htotal]
  exact hs.used

/-- The heap after the count of one owner changed. -/
theorem recount (hs : Sound limit s) {id refs : Nat} {n : Shared} (hid : s.heap.get id = some n)
    (hrefs : 0 < refs) (hheap : s'.heap = s.heap.put id (some { n with refs := refs }))
    (hused : s'.used = s'.total Piece.charged) (hle : s'.used ≤ limit)
    (hid' : s'.total (Piece.refersTo id) = refs)
    (hne : ∀ k, k ≠ id → s'.total (Piece.refersTo k) = s.total (Piece.refersTo k))
    (htasks : limit < usizeMax → ∀ i x, s'.tasks.get i = some x →
      x.held * bodyHeadroom ≤ x.piece.charged) : Sound limit s' where
  used := hused
  le := hle
  refs k := by
    rw [hheap]
    by_cases hk : k = id
    · subst hk
      rw [Slots.get_put_self hid, hid']
      rfl
    · rw [Slots.get_put_ne hk, hne k hk, hs.refs k]
  pos k m hk := by
    rw [hheap] at hk
    rcases Slots.get_put_eq_some hk with heq | hk
    · obtain rfl := Option.some.inj heq
      exact hrefs
    · exact hs.pos k m hk
  older k m j hk hj := by
    rw [hheap] at hk
    by_cases hkid : k = id
    · subst hkid
      rw [Slots.get_put_self hid] at hk
      obtain rfl := Option.some.inj hk
      exact hs.older k n j hid hj
    · rw [Slots.get_put_ne hkid] at hk
      exact hs.older k m j hk hj
  covered hlimit := by
    refine ⟨htasks hlimit, fun k data charged refs' hk => ?_⟩
    rw [hheap] at hk
    rcases Slots.get_put_eq_some hk with heq | hk
    · obtain ⟨howner, -⟩ := Shared.mk.inj (Option.some.inj heq)
      exact (hs.covered hlimit).bodies id data charged n.refs (by rw [hid, ← howner])
    · exact (hs.covered hlimit).bodies k data charged refs' hk

theorem share (hs : Sound limit s) {i : Nat} {b b' : Bytes} (hi : s.tasks.get i = some (.bytes b))
    (hb : b'.owner = none ∨ b'.owner = b.owner) : Sound limit (s.share b') := by
  rcases b' with ⟨_ | id, len⟩
  · exact hs.fresh (x := .bytes ⟨none, len⟩) rfl rfl rfl
  · have hown : (Piece.bytes b).owner = some id := by
      rcases hb with hb | hb
      · cases hb
      · exact hb.symm
    have hpos : 0 < s.total (Piece.refersTo id) := by
      have hle := le_total_tasks hi (Piece.refersTo id)
      rw [show Held.piece (.bytes b) = .bytes b from rfl, refersTo_of_owner hown] at hle
      exact hle
    obtain ⟨n, hid⟩ := hs.alive hpos
    have hheap : (s.share ⟨some id, len⟩).heap =
        s.heap.put id (some { n with refs := n.refs + 1 }) := by
      simp only [State.share, hid]
    have htotal : ∀ w : Piece → Nat,
        (s.share ⟨some id, len⟩).total w = s.total w + w (.bytes ⟨some id, len⟩) := by
      intro w
      have hput : _ + n.weight w = _ + n.weight w :=
        Slots.total_put hid (some { n with refs := n.refs + 1 }) (Shared.weight w)
      have hadd : Slots.total _ _ = _ + w (.bytes ⟨some id, len⟩) :=
        Slots.total_add s.tasks (.bytes ⟨some id, len⟩) fun x => w x.piece
      have htasks : (s.share ⟨some id, len⟩).tasks = s.tasks.add (.bytes ⟨some id, len⟩) := rfl
      have hdropping : (s.share ⟨some id, len⟩).dropping = s.dropping := rfl
      simp only [State.total, hheap, htasks, hdropping]
      omega
    refine hs.recount hid (Nat.succ_pos _) hheap ?_ hs.le ?_ (fun k hk => ?_) (hs.tasks_add rfl)
    · rw [htotal]
      exact hs.used
    · have hrefs := hs.refs id
      rw [hid] at hrefs
      rw [htotal, refersTo_self, ← hrefs]
      rfl
    · rw [htotal, refersTo_ne hk, Nat.add_zero]

/-- A new owner, made of pieces that the tasks owned. -/
theorem fromOwner (hs : Sound limit s) {t : State} {i len : Nat} {x : Held} {owner : Owner}
    (hi : t.tasks.get i = some x) (hused : t.used = s.used) (hheap : t.heap = s.heap)
    (hcharged : t.total Piece.charged + Shared.weight Piece.charged ⟨owner, 1⟩ =
      s.total Piece.charged + x.piece.charged)
    (hrefers : ∀ id, t.total (Piece.refersTo id) + Shared.weight (Piece.refersTo id) ⟨owner, 1⟩ =
      s.total (Piece.refersTo id) + x.piece.refersTo id)
    (htasks : limit < usizeMax → ∀ j x, t.tasks.get j = some x →
      x.held * bodyHeadroom ≤ x.piece.charged)
    (hbody : limit < usizeMax → ∀ data charged, owner = .buffered data charged true →
      data.len * bodyHeadroom ≤ charged) : Sound limit (t.fromOwner i owner len) := by
  have htotal : ∀ w : Piece → Nat, (t.fromOwner i owner len).total w + w x.piece =
      t.total w + Shared.weight w ⟨owner, 1⟩ + w (.bytes ⟨some s.heap.length, len⟩) := by
    intro w
    have hput : _ + w x.piece = _ + w (.bytes ⟨some t.heap.length, len⟩) :=
      Slots.total_put hi (some (.bytes ⟨some t.heap.length, len⟩)) fun x => w x.piece
    have hadd := Slots.total_add t.heap ⟨owner, 1⟩ (Shared.weight w)
    rw [← hheap]
    simp only [State.total, State.fromOwner]
    omega
  have hnew : ∀ id, (t.fromOwner i owner len).total (Piece.refersTo id) =
      s.total (Piece.refersTo id) + (Piece.bytes ⟨some s.heap.length, len⟩).refersTo id := by
    intro id
    have hall := htotal (Piece.refersTo id)
    have hid := hrefers id
    omega
  have hheap' : (t.fromOwner i owner len).heap = s.heap.add ⟨owner, 1⟩ := by
    rw [← hheap]
    rfl
  refine ⟨?_, ?_, fun id => ?_, fun id n hid => ?_, fun id n k hid hk => ?_, fun hlimit => ?_⟩
  · have hall := htotal Piece.charged
    have hzero : (Piece.bytes ⟨some s.heap.length, len⟩).charged = 0 := rfl
    have hs' := hs.used
    show t.used = _
    omega
  · show t.used ≤ limit
    rw [hused]
    exact hs.le
  · rw [hheap', hnew]
    have hrefs := hs.refs id
    by_cases hid : id = s.heap.length
    · subst hid
      rw [Slots.get_length] at hrefs
      rw [Slots.get_add_self, ← hrefs, refersTo_self]
      rfl
    · rw [Slots.get_add_ne hid, refersTo_ne hid, Nat.add_zero, hrefs]
  · rw [hheap'] at hid
    rcases Slots.get_add_eq_some hid with ⟨-, rfl⟩ | hid
    · exact Nat.one_pos
    · exact hs.pos id n hid
  · rw [hheap'] at hid
    rcases Slots.get_add_eq_some hid with ⟨rfl, rfl⟩ | hid
    · -- the pieces were counted before, so what they refer to is on the heap
      have hle := le_total_tasks hi (Piece.refersTo k)
      have hall := hrefers k
      exact hs.lt_length (by omega)
    · exact hs.older id n k hid hk
  · refine ⟨?_, fun id data charged refs hid => ?_⟩
    · intro j y hj
      rcases Slots.get_put_eq_some hj with heq | hj
      · obtain rfl := Option.some.inj heq
        simp [Held.held]
      · exact htasks hlimit j y hj
    · rw [hheap'] at hid
      rcases Slots.get_add_eq_some hid with ⟨-, heq⟩ | hid
      · obtain ⟨howner, -⟩ := Shared.mk.inj heq
        exact hbody hlimit data charged howner.symm
      · exact (hs.covered hlimit).bodies id data charged refs hid

theorem body (hs : Sound limit s) {i : Nat} {r : Reading}
    (hi : s.tasks.get i = some (.reading r)) :
    Sound limit (s.fromOwner i (.buffered ⟨none, r.data⟩ r.charged true) r.data) := by
  refine hs.fromOwner hi rfl rfl ?_ (fun id => ?_) (fun hlimit => (hs.covered hlimit).tasks) ?_
  · rw [Shared.weight, Owner.pieces, Held.piece]
    simp only [Piece.charged]
    omega
  · rw [Shared.weight, Owner.pieces, Held.piece]
    simp only [refersTo_unowned, Nat.zero_add]
  · intro hlimit data charged howner
    obtain ⟨rfl, rfl, -⟩ := Owner.buffered.inj howner
    exact (hs.covered hlimit).tasks i (.reading r) hi

theorem own (hs : Sound limit s) {i j len : Nat} {x : Held} {b : Bytes} {owner : Owner}
    (hi : s.tasks.get i = some x) (hj : s.tasks.get j = some (.bytes b)) (hij : i ≠ j)
    (hpieces : ∀ w : Piece → Nat, w owner.pieces.1 + w owner.pieces.2 = w (.bytes b) + w x.piece)
    (hbody : ∀ data charged, owner ≠ .buffered data charged true) :
    Sound limit ({ s with tasks := s.tasks.put j none }.fromOwner i owner len) := by
  have hall : ∀ w : Piece → Nat, State.total { s with tasks := s.tasks.put j none } w +
      Shared.weight w ⟨owner, 1⟩ = s.total w + w x.piece := by
    intro w
    have hput : _ + w (.bytes b) = _ + 0 := Slots.total_put hj none fun x => w x.piece
    have hw := hpieces w
    simp only [State.total, Shared.weight]
    omega
  exact hs.fromOwner ((Slots.get_put_ne hij none).trans hi) rfl rfl (hall _) (fun id => hall _)
    (hs.tasks_put nofun) fun _ data charged howner => absurd howner (hbody data charged)

theorem total_drop {k : Nat} {p : Piece} (hk : s.dropping.get k = some p) (used : Nat)
    (w : Piece → Nat) :
    State.total { s with used := used, dropping := s.dropping.put k none } w + w p = s.total w := by
  have hput : _ + w p = _ + 0 := Slots.total_put hk none w
  simp only [State.total]
  omega

theorem free (hs : Sound limit s) {k charged : Nat}
    (hk : s.dropping.get k = some (.reservation charged)) :
    Sound limit { s with used := release s.used charged, dropping := s.dropping.put k none } := by
  have hle : charged ≤ s.used := hs.used ▸ le_total_dropping hk Piece.charged
  have hused : release s.used charged = s.used - charged := if_pos hle
  have hdrop := total_drop hk (release s.used charged)
  refine hs.aside ?_ ?_ rfl (fun id => ?_) fun hlimit => (hs.covered hlimit).tasks
  · have hall : _ + charged = _ := hdrop Piece.charged
    have hs' := hs.used
    show release s.used charged = _
    omega
  · show release s.used charged ≤ limit
    have hs' := hs.le
    omega
  · have hall := hdrop (Piece.refersTo id)
    rw [refersTo_reservation] at hall
    exact hall

theorem forget (hs : Sound limit s) {k len : Nat}
    (hk : s.dropping.get k = some (.bytes ⟨none, len⟩)) :
    Sound limit { s with dropping := s.dropping.put k none } := by
  have hdrop := total_drop hk s.used
  refine hs.aside ?_ hs.le rfl (fun id => ?_) fun hlimit => (hs.covered hlimit).tasks
  · exact hs.used.trans (hdrop Piece.charged).symm
  · have hall := hdrop (Piece.refersTo id)
    rw [refersTo_unowned] at hall
    exact hall

theorem unshare (hs : Sound limit s) {k id len : Nat} {n : Shared}
    (hk : s.dropping.get k = some (.bytes ⟨some id, len⟩)) (hid : s.heap.get id = some n) :
    Sound limit (s.unshare k id n) := by
  have htotal : ∀ w : Piece → Nat,
      (s.unshare k id n).total w + w (.bytes ⟨some id, len⟩) = s.total w := by
    intro w
    have hdrop : _ + w (.bytes ⟨some id, len⟩) = _ + 0 := Slots.total_put hk none w
    unfold State.unshare
    split
    · have hput : _ + (w n.owner.pieces.1 + w n.owner.pieces.2) = _ + 0 :=
        Slots.total_put hid none (Shared.weight w)
      simp only [State.total, Slots.total_add]
      omega
    · have hput : _ + n.weight w = _ + n.weight w :=
        Slots.total_put hid (some { n with refs := n.refs - 1 }) (Shared.weight w)
      simp only [State.total]
      omega
  have hused : (s.unshare k id n).used = s.used := by unfold State.unshare; split <;> rfl
  have htasks : (s.unshare k id n).tasks = s.tasks := by unfold State.unshare; split <;> rfl
  have hcharged : (s.unshare k id n).used = (s.unshare k id n).total Piece.charged :=
    hused.trans (hs.used.trans (htotal Piece.charged).symm)
  have hself : (s.unshare k id n).total (Piece.refersTo id) + 1 = n.refs := by
    have hall := htotal (Piece.refersTo id)
    have hrefs := hs.refs id
    rw [hid] at hrefs
    rw [refersTo_self] at hall
    exact hall.trans hrefs.symm
  have hother : ∀ j, j ≠ id →
      (s.unshare k id n).total (Piece.refersTo j) = s.total (Piece.refersTo j) := by
    intro j hj
    have hall := htotal (Piece.refersTo j)
    rw [refersTo_ne hj] at hall
    exact hall
  by_cases hlast : n.refs = 1
  · have hheap : (s.unshare k id n).heap = s.heap.put id none := by
      unfold State.unshare
      rw [if_pos hlast]
    have hkept : ∀ j m, (s.heap.put id none).get j = some m → s.heap.get j = some m := by
      intro j m hj
      rcases Slots.get_put_eq_some hj with heq | hj
      · cases heq
      · exact hj
    refine ⟨hcharged, hused ▸ hs.le, fun j => ?_, fun j m hj => ?_, fun j m i hj => ?_,
      fun hlimit => ⟨?_, fun j data charged refs hj => ?_⟩⟩
    · rw [hheap]
      by_cases hj : j = id
      · subst hj
        rw [Slots.get_put_self hid]
        show 0 = _
        omega
      · rw [Slots.get_put_ne hj, hother j hj, hs.refs j]
    · rw [hheap] at hj
      exact hs.pos j m (hkept j m hj)
    · rw [hheap] at hj
      exact hs.older j m i (hkept j m hj)
    · rw [htasks]
      exact (hs.covered hlimit).tasks
    · rw [hheap] at hj
      exact (hs.covered hlimit).bodies j data charged refs (hkept j _ hj)
  · have hheap : (s.unshare k id n).heap = s.heap.put id (some { n with refs := n.refs - 1 }) := by
      unfold State.unshare
      rw [if_neg hlast]
    have hpos := hs.pos id n hid
    refine hs.recount hid (by omega) hheap hcharged (hused ▸ hs.le) (by omega) hother ?_
    intro hlimit
    rw [htasks]
    exact (hs.covered hlimit).tasks

theorem step (hs : Sound limit s) (h : Moves limit s s') : Sound limit s' := by
  cases h with
  | same => exact hs
  | fresh hcharged howner hheld => exact hs.fresh hcharged howner hheld
  | charge hi hx hx' hgrow hheld => exact hs.charge hi hx hx' hgrow hheld
  | shrink hi => exact hs.shrink hi
  | discard hi => exact hs.discard hi
  | share hi hb => exact hs.share hi hb
  | body hi => exact hs.body hi
  | own hi hj hij hpieces hbody => exact hs.own hi hj hij hpieces hbody
  | free hk => exact hs.free hk
  | forget hk => exact hs.forget hk
  | unshare hk hid => exact hs.unshare hk hid

end Sound

/-! ## What is alive -/

/-- What a task owns, or is dropping. -/
def State.Root (s : State) (p : Piece) : Prop :=
  (∃ i x, s.tasks.get i = some x ∧ x.piece = p) ∨ ∃ k, s.dropping.get k = some p

/-- A piece is a `Bytes` of an owner, or of one that holds it, however deep. -/
inductive State.Holds (s : State) (p : Piece) : Nat → Prop where
  | here {id : Nat} (h : p.owner = some id) : s.Holds p id
  | inside {k id : Nat} {n : Shared} {q : Piece} (h : s.Holds p k) (hk : s.heap.get k = some n)
      (hq : q = n.owner.pieces.1 ∨ q = n.owner.pieces.2) (hid : q.owner = some id) : s.Holds p id

namespace Sound

theorem alive_of_holds (hs : Sound limit s) {p : Piece} {id : Nat} (hroot : s.Root p)
    (h : s.Holds p id) : ∃ n, s.heap.get id = some n := by
  cases h with
  | here howner =>
    have hone := refersTo_of_owner howner
    rcases hroot with ⟨i, x, hi, rfl⟩ | ⟨k, hk⟩
    · have hle := le_total_tasks hi (Piece.refersTo id)
      exact hs.alive (by omega)
    · have hle := le_total_dropping hk (Piece.refersTo id)
      exact hs.alive (by omega)
  | @inside k _ n q _ hk hq howner =>
    have hone := refersTo_of_owner howner
    have hle := le_total_heap hk (Piece.refersTo id)
    unfold Shared.weight at hle
    rcases hq with rfl | rfl <;> exact hs.alive (by omega)

/-- An owner is referred to by what is owned or being dropped, or by an owner younger than itself. -/
theorem held_of_alive (hs : Sound limit s) {id : Nat} {n : Shared}
    (hid : s.heap.get id = some n) : ∃ p, s.Root p ∧ s.Holds p id := by
  have hrefs := hs.refs id
  have hpos := hs.pos id n hid
  rw [hid, Option.elim_some] at hrefs
  rw [hrefs] at hpos
  unfold State.total at hpos
  by_cases htasks : 0 < s.tasks.total fun x => x.piece.refersTo id
  · obtain ⟨i, x, hi, hx⟩ := Slots.exists_of_total_pos htasks
    exact ⟨x.piece, Or.inl ⟨i, x, hi, rfl⟩, .here (refersTo_pos hx)⟩
  · by_cases hdropping : 0 < s.dropping.total (Piece.refersTo id)
    · obtain ⟨k, p, hk, hp⟩ := Slots.exists_of_total_pos hdropping
      exact ⟨p, Or.inr ⟨k, hk⟩, .here (refersTo_pos hp)⟩
    · obtain ⟨k, m, hk, hm⟩ := Slots.exists_of_total_pos
        (show 0 < s.heap.total (Shared.weight (Piece.refersTo id)) by omega)
      have hyounger := hs.older k m id hk hm
      have hlt := Slots.lt_length_of_get hk
      obtain ⟨p, hroot, hp⟩ := hs.held_of_alive hk
      unfold Shared.weight at hm
      by_cases hfirst : 0 < m.owner.pieces.1.refersTo id
      · exact ⟨p, hroot, .inside hp hk (Or.inl rfl) (refersTo_pos hfirst)⟩
      · exact ⟨p, hroot, .inside hp hk (Or.inr rfl) (refersTo_pos (by omega))⟩
termination_by s.heap.length - id

end Sound

/-! ## Whole runs -/

theorem sound_run {es : List Event}
    (h : Steps (fun s e s' => s.step limit e = some s') State.start es s) : Sound limit s :=
  h.invariant (fun _ _ _ hs hstep => hs.step (step_moves hstep)) (sound_start limit)

/-- The limits of the process are far from the largest number. -/
theorem limits_lt (cpus memory : Nat) :
    (Policy.forMachine cpus memory).bodyBytes < usizeMax ∧
      (Policy.forMachine cpus memory).auditBytes < usizeMax := by
  simp only [Policy.forMachine, usizeMax, mib]
  omega

/--
In every run: the counter is the sum of the charges of the reservations that are alive, and within
the limit. What `Drop` subtracts is in it. A refused `grow` or `append` leaves all as it was. No
stream, read or body holds more than it is charged for when the limit is not the largest number, and
neither limit of the process is. An owner is on the heap exactly as long as a task owns or drops a
`Bytes` that holds it.
-/
theorem memory_budget_exact {es : List Event}
    (h : Steps (fun s e s' => s.step limit e = some s') State.start es s) :
    s.used = s.total Piece.charged ∧ s.used ≤ limit ∧
    (∀ k charged, s.dropping.get k = some (.reservation charged) →
      charged ≤ s.used ∧ release s.used charged + charged = s.used) ∧
    (∀ i charged bytes, s.tasks.get i = some (.reservation charged) →
      grow limit s.used charged bytes = none → s.step limit (.grow i bytes) = some s) ∧
    (∀ i stream bytes, s.tasks.get i = some (.stream stream) →
      stream.append limit s.used bytes = none → s.step limit (.append i bytes) = some s) ∧
    (limit < usizeMax → Covered s) ∧
    (∀ cpus memory, (Policy.forMachine cpus memory).bodyBytes < usizeMax ∧
      (Policy.forMachine cpus memory).auditBytes < usizeMax) ∧
    ∀ id, (∃ n, s.heap.get id = some n) ↔ ∃ p, s.Root p ∧ s.Holds p id := by
  have hs := sound_run h
  refine ⟨hs.used, hs.le, fun k charged hk => ?_, fun i charged bytes hi hgrow => ?_,
    fun i stream bytes hi happend => ?_, hs.covered, limits_lt, fun id => ⟨?_, ?_⟩⟩
  · have hle : charged ≤ s.used := hs.used ▸ le_total_dropping hk Piece.charged
    refine ⟨hle, ?_⟩
    rw [release, if_pos hle]
    omega
  · simp only [State.step, hi, hgrow]
  · simp only [State.step, hi, happend]
  · rintro ⟨n, hid⟩
    exact hs.held_of_alive hid
  · rintro ⟨p, hroot, hp⟩
    exact hs.alive_of_holds hroot hp

/-! ## A slice keeps its buffer -/

/-- The buffer is dropped while a slice of it is alive. -/
def sliced : List Event :=
  [.reserve, .grow 0 8, .grow 0 11, .bytes 5, .wrap 0 1, .slice 0 2, .drop 0, .settle 0]

theorem memory_budget_exact_sliced : ∃ s,
    Steps (fun s e s' => s.step 10 e = some s') State.start sliced s ∧ s.used = 8 ∧
    s.total Piece.charged = 8 ∧ s.used ≤ 10 := by
  have hrun : (sliced.foldlM (State.step 10) State.start).map State.used = some 8 := by
    decide +kernel
  obtain ⟨s, hsteps, hused⟩ := Option.map_eq_some_iff.mp hrun
  have h := Steps.of_foldlM hsteps
  obtain ⟨htotal, hle, -⟩ := memory_budget_exact h
  exact ⟨s, h, hused, htotal.symm.trans hused, hle⟩

/-- The last slice gives the charge back. -/
example : ((sliced ++ [Event.drop 2, .settle 1, .settle 2, .settle 3]).foldlM (State.step 10)
    State.start).map State.used = some 0 := by decide +kernel

end ThinkWatch.Resources
