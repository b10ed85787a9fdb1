import Mathlib.Algebra.Order.Field.Rat
import Mathlib.Data.List.Infix
import ThinkWatch.Gateway.Readers
import ThinkWatch.Lib.Spans
import ThinkWatch.Lib.Utf8

/-!
# The speed of a stream

`MinSpeed`, `Text` and `SpeedWatch` of `crates/gateway/src/proxy/min_speed.rs`, with the count of
the tokens. Instants and durations are nanoseconds; a speed is a rational number. The frames of a
stream, the events in it and what a frame says of the end are those of `tw-dialect`, a parameter.
-/

namespace ThinkWatch.Gateway.Speed

open Lib Lib.Spans
open ThinkWatch.Gateway.Stream (Dialect Bytes)

def fromSecs (n : Nat) : Int := n * 1000000000

def asSecs (d : Int) : Rat := d / 1000000000

/-- `saturating_duration_since`. -/
def durationSince (later earlier : Int) : Int := max (later - earlier) 0

def longPauseMax : Int := fromSecs 5

def catchUp : Int := fromSecs 1

def longPause (window : Int) : Int := min (window / 4) longPauseMax

/-! ## The minimum -/

structure MinSpeed where
  tokensPerSec : Nat
  windowSecs : Nat
  tokens_range : 1 ≤ tokensPerSec ∧ tokensPerSec ≤ 1000
  window_range : 5 ≤ windowSecs ∧ windowSecs ≤ 120

namespace MinSpeed

def fromRow (tokensPerSec : Option Int) (windowSecs : Int) : Option MinSpeed :=
  tokensPerSec.bind fun tokensPerSec =>
    if h : (0 ≤ tokensPerSec ∧ 0 ≤ windowSecs) ∧
        (1 ≤ tokensPerSec.toNat ∧ tokensPerSec.toNat ≤ 1000) ∧
        5 ≤ windowSecs.toNat ∧ windowSecs.toNat ≤ 120 then
      some ⟨tokensPerSec.toNat, windowSecs.toNat, h.2.1, h.2.2⟩
    else none

theorem isSome_fromRow {tokensPerSec : Option Int} {windowSecs : Int} :
    (fromRow tokensPerSec windowSecs).isSome ↔
      (∃ n, tokensPerSec = some n ∧ 1 ≤ n ∧ n ≤ 1000) ∧ 5 ≤ windowSecs ∧ windowSecs ≤ 120 := by
  cases tokensPerSec with
  | none => simp [fromRow]
  | some n =>
    simp only [fromRow, Option.bind_some, Option.isSome_dite, Option.some.injEq,
      exists_eq_left']
    omega

example : (fromRow (some 15) 4).isNone = true ∧ (fromRow (some 15) 20).isSome = true :=
  ⟨rfl, rfl⟩

def window (m : MinSpeed) : Int := fromSecs m.windowSecs

theorem window_pos (m : MinSpeed) : 0 < m.window := by
  have := m.window_range.1
  unfold window fromSecs
  omega

theorem longPause_pos (m : MinSpeed) : 0 < longPause m.window := by
  have := m.window_range.1
  unfold longPause longPauseMax window fromSecs
  omega

/-- A window is a whole number of seconds. -/
theorem lt_half_window (m : MinSpeed) (d : Int) : d < m.window / 2 ↔ 2 * d < m.window := by
  unfold window fromSecs
  omega

end MinSpeed

/-! ## Tokens -/

structure Text where
  ascii : Nat := 0
  other : Nat := 0
deriving DecidableEq, Repr

namespace Text

def addByte (x : Text) (b : UInt8) : Text :=
  if b.toNat < 0x80 then { x with ascii := x.ascii + 1 }
  -- A character's first byte; continuation bytes are 10xxxxxx.
  else if b &&& 0xC0 ≠ 0x80 then { x with other := x.other + 1 }
  else x

def add (x : Text) (s : List Char) : Text := (Utf8.encode s).foldl addByte x

def tokens (x : Text) : Nat := (x.ascii + 3) / 4 + x.other

theorem continuation_iff (b : UInt8) : b &&& 0xC0 = 0x80 ↔ 0x80 ≤ b.toNat ∧ b.toNat < 0xC0 := by
  have hall : ∀ n < 256, UInt8.ofNat n &&& 0xC0 = 0x80 ↔ 0x80 ≤ n ∧ n < 0xC0 := by
    decide +kernel
  have h := hall b.toNat b.toNat_lt
  rwa [UInt8.ofNat_toNat] at h

theorem addByte_lead (x : Text) {b : UInt8} (h : 0xC0 ≤ b.toNat) :
    x.addByte b = { x with other := x.other + 1 } := by
  have hne : b &&& 0xC0 ≠ 0x80 := fun hb => by
    have := (continuation_iff b).mp hb
    omega
  rw [addByte, if_neg (by omega), if_pos hne]

theorem addByte_tail (x : Text) (m : Nat) : x.addByte (UInt8.ofNat (m % 0x40 + 0x80)) = x := by
  have hb : (UInt8.ofNat (m % 0x40 + 0x80)).toNat = m % 0x40 + 0x80 :=
    Utf8.toNat_ofNat_lt (by omega)
  have heq := (continuation_iff (UInt8.ofNat (m % 0x40 + 0x80))).mpr (by omega)
  rw [addByte, if_neg (by omega), if_neg (not_not.mpr heq)]

def isAscii (c : Char) : Bool := c.toNat < 0x80

/-- A character's bytes count as one, whatever their number. -/
theorem foldl_encodeChar (x : Text) (c : Char) : (String.utf8EncodeChar c).foldl addByte x =
    if isAscii c then { x with ascii := x.ascii + 1 } else { x with other := x.other + 1 } := by
  rw [String.utf8EncodeChar, isAscii, show c.toNat = c.val.toNat from rfl]
  have hv := c.valid
  unfold UInt32.isValidChar Nat.isValidChar at hv
  generalize c.val.toNat = n at hv
  by_cases hn : n < 0x80
  · have hb : (UInt8.ofNat n).toNat = n := Utf8.toNat_ofNat_lt (by omega)
    rw [if_pos (by omega), if_pos (decide_eq_true hn), List.foldl_cons, List.foldl_nil, addByte,
      hb, if_pos hn]
  · rw [if_neg (show ¬ n ≤ 0x7F by omega),
      if_neg (show ¬ decide (n < 0x80) = true by simpa using hn)]
    split_ifs
    all_goals simp only [List.foldl_cons, List.foldl_nil, addByte_tail]
    all_goals refine addByte_lead x ?_
    all_goals rw [Utf8.toNat_ofNat_lt] <;> omega

theorem add_append (x : Text) (s t : List Char) : x.add (s ++ t) = (x.add s).add t := by
  simp only [add, Utf8.encode_append, List.foldl_append]

/-- ASCII characters and the others, each counted. -/
theorem add_eq (x : Text) (s : List Char) : x.add s =
    { ascii := x.ascii + s.countP isAscii, other := x.other + s.countP (!isAscii ·) } := by
  induction s generalizing x with
  | nil => rfl
  | cons c s ih =>
    have hadd : x.add (c :: s) = ((String.utf8EncodeChar c).foldl addByte x).add s := by
      simp only [add, Utf8.encode, List.flatMap_cons, List.foldl_append]
    rw [hadd, ih, foldl_encodeChar]
    cases hc : isAscii c with
    | true => simp [hc]; omega
    | false => simp [hc]; omega

end Text

/-! ## What the upstream's bytes say -/

structure Frame where
  event : Option String
  data : String
deriving DecidableEq, Repr

inductive BlockKind where
  | thinking
  | other
deriving DecidableEq, Repr

inductive Delta where
  | thinking (t : List Char)
  | text (t : List Char)
  | toolInput (t : List Char)
  | other
deriving DecidableEq, Repr

inductive Event where
  | blockStart (index : Nat) (kind : BlockKind)
  | blockStop (index : Nat)
  | delta (index : Nat) (delta : Delta)
  | stop
  | other
deriving DecidableEq, Repr

/-- The readers of a stream. -/
structure Codec where
  Decoder : Type
  decoder : Decoder
  decode : Decoder → Bytes → Decoder × List Frame
  Reader : Type
  reader : Dialect → Reader
  read : Reader → Bytes → Reader × List Event
  endsAnswer : Dialect → Frame → Bool
  /-- The string under `type` of a JSON object. -/
  typeOf : String → Option String

def rawReasoning : String := "response.reasoning_text.delta"

def isRawReasoning (K : Codec) (f : Frame) : Bool :=
  match f.event with
  | some e => e == rawReasoning
  | none => decide (rawReasoning.toList <:+: f.data.toList) && K.typeOf f.data == some rawReasoning

/-! ## One stream's speed -/

/-- A reasoning block under way. -/
structure Phase where
  index : Option Nat
  since : Int
  raw : Bool
deriving DecidableEq, Repr

structure SpeedWatch (K : Codec) where
  min : MinSpeed
  upstream : Dialect
  reader : K.Reader
  frames : K.Decoder
  text : Text
  counted : Nat
  first : Option Int
  done : Bool
  arrivals : List (Int × Nat)
  phase : Option Phase
  summarised : List Span

namespace SpeedWatch

variable {K : Codec}

def new (min : MinSpeed) (upstream : Dialect) : SpeedWatch K where
  min := min
  upstream := upstream
  reader := K.reader upstream
  frames := K.decoder
  text := {}
  counted := 0
  first := none
  done := false
  arrivals := []
  phase := none
  summarised := []

variable (w : SpeedWatch K)

def rawByDefault : Bool := w.upstream == .chat

def closePhase (now : Int) : SpeedWatch K :=
  match w.phase with
  | none => w
  | some p =>
    { w with
      phase := none
      summarised := if p.raw then w.summarised else w.summarised ++ [(p.since, now)] }

def openPhase (index : Option Nat) (now : Int) : SpeedWatch K :=
  let w := if w.phase.isSome then w.closePhase now else w
  { w with phase := some ⟨index, now, w.rawByDefault⟩ }

def summarising : Bool := w.phase.any (!·.raw)

def arrived (now : Int) : SpeedWatch K :=
  let total := w.text.tokens
  { w with
    counted := max w.counted total
    first := w.first.or (some now)
    arrivals := w.arrivals ++ [(now, total - w.counted)] }

/-- One event of a piece that arrived at `now`, and whether the piece showed anything so far. -/
def event (raw : Bool) (now : Int) (visible : Bool) : Event → SpeedWatch K × Bool
  | .blockStart index .thinking => (w.openPhase (some index) now, visible)
  | .blockStop index =>
    (if w.phase.any (·.index == some index) then w.closePhase now else w, visible)
  | .delta _ (.thinking t) =>
    if t = [] then (w, visible)
    else
      let w := { w with first := w.first.or (some now) }
      let w := if w.phase.isNone then w.openPhase none now else w
      match w.phase with
      | none => (w, visible)
      | some p =>
        let p := { p with raw := p.raw || raw }
        if p.raw then ({ w with phase := some p, text := w.text.add t }, true)
        else ({ w with phase := some p }, visible)
  | .delta _ (.text t) | .delta _ (.toolInput t) =>
    if t = [] then (w, visible)
    else
      -- The answer began: any reasoning before it is over.
      let w := if w.phase.isSome then w.closePhase now else w
      ({ w with text := w.text.add t }, true)
  | .stop => ({ w with done := true }, visible)
  | _ => (w, visible)

def events (raw : Bool) (now : Int) : SpeedWatch K → Bool → List Event → SpeedWatch K × Bool
  | w, visible, [] => (w, visible)
  | w, visible, e :: es =>
    let (w, visible) := w.event raw now visible e
    w.events raw now visible es

def feed (chunk : Bytes) (now : Int) : SpeedWatch K :=
  let (frames, fs) := K.decode w.frames chunk
  let raw := w.upstream == .responses && fs.any (isRawReasoning K)
  let (reader, es) := K.read w.reader chunk
  let w := { w with
    frames := frames
    reader := reader
    done := w.done || fs.any (K.endsAnswer w.upstream) }
  let (w, visible) := w.events raw now false es
  if visible then w.arrived now else w

/-! ### The speed over the last window -/

/-- One arrival at or before the window's start is kept. -/
def pruneArrivals (start : Int) : List (Int × Nat) → List (Int × Nat)
  | a :: b :: l => if b.1 ≤ start then pruneArrivals start (b :: l) else a :: b :: l
  | l => l

def prune (start : Int) : SpeedWatch K :=
  { w with
    arrivals := pruneArrivals start w.arrivals
    summarised := w.summarised.dropWhile (·.2 ≤ start) }

/-- The spans left out of the window, clipped to it. -/
def out (now : Int) : List Span :=
  let start := now - w.min.window
  let pause := longPause w.min.window
  let ats := w.arrivals.map (·.1)
  let ends := ats.drop 1 ++ [now]
  (((ats.zip ends).filter fun s => pause ≤ durationSince s.2 s.1) ++ w.summarised ++
    ((w.phase.filter (!·.raw)).map fun p => (p.since, now)).toList).map (clip start now)
    |>.filter fun s => s.1 < s.2

def spanLe (s t : Span) : Bool := s.1 < t.1 || s.1 == t.1 && s.2 ≤ t.2

def leftOut (now : Int) : Int :=
  (((w.out now).mergeSort spanLe).foldl sweep (0, now - w.min.window)).1

def measured (now : Int) : Int := max (w.min.window - w.leftOut now) 0

def rate (now : Int) : Option Rat × SpeedWatch K :=
  match w.first with
  | none => (none, w)
  | some first =>
    if durationSince now first < w.min.window then (none, w)
    else
      let start := now - w.min.window
      let w := w.prune start
      let tokens := ((w.arrivals.filter fun x => start < x.1).map (·.2)).sum
      let measured := w.measured now
      (if measured < w.min.window / 2 then none else some (tokens / asSecs measured), w)

def tooSlow (now : Int) : Option Nat × SpeedWatch K :=
  if w.done || w.summarising then (none, w)
  else
    match w.arrivals.getLast? with
    | none => (none, w)
    | some last =>
      -- The burst that catches up is waited for.
      if catchUp < durationSince now last.1 then (none, w)
      else
        let (rate, w) := w.rate now
        (rate.bind fun rate => if rate < w.min.tokensPerSec then some rate.floor.toNat else none, w)

end SpeedWatch

/-! ## What is done with it -/

inductive Call where
  | feed (chunk : Bytes)
  | rate
  | tooSlow
deriving DecidableEq, Repr

/-- A call and its instant. -/
abbrev Timed := Int × Call

namespace SpeedWatch

variable {K : Codec}

def call (w : SpeedWatch K) (c : Timed) : SpeedWatch K :=
  match c.2 with
  | .feed chunk => w.feed chunk c.1
  | .rate => (w.rate c.1).2
  | .tooSlow => (w.tooSlow c.1).2

def run (w : SpeedWatch K) (calls : List Timed) : SpeedWatch K := calls.foldl call w

end SpeedWatch

end ThinkWatch.Gateway.Speed
