import Mathlib.Data.List.TakeWhile
import ThinkWatch.Gateway.MinSpeed

/-!
# The measured speed of a stream is what its definition gives

The account of a stream keeps everything: the text it showed and when, the phases in which it
only summarised its reasoning, its first content. The speed over a window is defined on the
account. `SpeedWatch` discards what is behind its window and reaches the same speed.
-/

namespace ThinkWatch.Gateway.Speed

open Lib Lib.Spans
open ThinkWatch.Gateway.Stream (Dialect Bytes)

/-! ## The account of a stream -/

/-- What events say: the reasoning under way after them, the summaries they ended, the text they
showed, and whether any of it was content. -/
structure Said where
  phase : Option Phase
  ended : List Span := []
  shown : List Char := []
  content : Bool := false
deriving DecidableEq, Repr

/-- The phase until `now`, where only a summary of the reasoning was streamed. -/
def summary (phase : Option Phase) (now : Int) : List Span :=
  ((phase.filter (!·.raw)).map fun p => (p.since, now)).toList

def tell (byDefault raw : Bool) (now : Int) (phase : Option Phase) : Event → Said
  | .blockStart index .thinking =>
    { phase := some ⟨some index, now, byDefault⟩, ended := summary phase now }
  | .blockStop index =>
    if phase.any (·.index == some index) then { phase := none, ended := summary phase now }
    else { phase := phase }
  | .delta _ (.thinking t) =>
    if t = [] then { phase := phase }
    else
      let p := phase.getD ⟨none, now, byDefault⟩
      let p := { p with raw := p.raw || raw }
      { phase := some p, shown := if p.raw then t else [], content := true }
  | .delta _ (.text t) | .delta _ (.toolInput t) =>
    if t = [] then { phase := phase }
    else { phase := none, ended := summary phase now, shown := t, content := true }
  | _ => { phase := phase }

def tellAll (byDefault raw : Bool) (now : Int) : Option Phase → List Event → Said
  | phase, [] => { phase := phase }
  | phase, e :: es =>
    let s := tell byDefault raw now phase e
    let rest := tellAll byDefault raw now s.phase es
    { phase := rest.phase
      ended := s.ended ++ rest.ended
      shown := s.shown ++ rest.shown
      content := s.content || rest.content }

/-- A piece of the stream as it is read. -/
structure Heard where
  at_ : Int
  raw : Bool
  events : List Event
deriving DecidableEq, Repr

/-- The pieces a list of calls brings. -/
def heardFrom (K : Codec) (upstream : Dialect) :
    K.Decoder → K.Reader → List Timed → List Heard
  | frames, reader, (now, .feed chunk) :: calls =>
    let (frames, fs) := K.decode frames chunk
    let (reader, es) := K.read reader chunk
    ⟨now, upstream == .responses && fs.any (isRawReasoning K), es⟩ ::
      heardFrom K upstream frames reader calls
  | frames, reader, _ :: calls => heardFrom K upstream frames reader calls
  | _, _, [] => []

def heard (K : Codec) (upstream : Dialect) (calls : List Timed) : List Heard :=
  heardFrom K upstream K.decoder (K.reader upstream) calls

structure Account where
  first : Option Int := none
  /-- The pieces that showed text. -/
  shown : List (Int × List Char) := []
  phase : Option Phase := none
  /-- The summarised phases that are over. -/
  summaries : List Span := []
deriving DecidableEq, Repr

namespace Account

/-- What a piece that arrived at `now` said is put down. -/
def put (a : Account) (now : Int) (s : Said) : Account where
  first := if s.content then a.first.or (some now) else a.first
  shown := if s.shown = [] then a.shown else a.shown ++ [(now, s.shown)]
  phase := s.phase
  summaries := a.summaries ++ s.ended

def hear (byDefault : Bool) (a : Account) (h : Heard) : Account :=
  a.put h.at_ (tellAll byDefault h.raw h.at_ a.phase h.events)

/-- The account of a stream from its pieces. -/
def of (upstream : Dialect) (pieces : List Heard) : Account :=
  pieces.foldl (hear (upstream == .chat)) {}

/-- The text a stream showed. -/
def visible (a : Account) : List Char := a.shown.flatMap (·.2)

theorem visible_put (a : Account) (now : Int) (s : Said) :
    (a.put now s).visible = a.visible ++ s.shown := by
  by_cases hs : s.shown = []
  · simp [visible, put, hs]
  · simp [visible, put, hs]

end Account

/-! ## The speed over a window -/

/-- Four ASCII characters to a token, one token for any other. -/
def tokensOf (s : List Char) : Nat :=
  (s.countP Text.isAscii + 3) / 4 + s.countP (!Text.isAscii ·)

/-- The tokens each piece brings, after the text `before`. -/
def arrivalsFrom (before : List Char) : List (Int × List Char) → List (Int × Nat)
  | [] => []
  | (at_, t) :: l => (at_, tokensOf (before ++ t) - tokensOf before) :: arrivalsFrom (before ++ t) l

/-- From each arrival to the next, and from the last one to `now`. -/
def gaps (now : Int) : List Int → List Span
  | [] => []
  | at_ :: l => (at_, l.headD now) :: gaps now l

def longGaps (window now : Int) (ats : List Int) : List Span :=
  (gaps now ats).filter fun s => longPause window ≤ s.2 - s.1

namespace Account

variable (a : Account)

def arrivals : List (Int × Nat) := arrivalsFrom [] a.shown

/-- The long pauses and the summarised reasoning, up to `now`. -/
def aside (window now : Int) : List Span :=
  longGaps window now (a.shown.map (·.1)) ++ (a.summaries ++ summary a.phase now)

/-- What is left of the window that ends at `now`. -/
noncomputable def measured (window now : Int) : Int :=
  window - (cover (a.aside window now) ∩ Finset.Ico (now - window) now).card

/-- The tokens of the arrivals after `start`, up to `now`. -/
def tokensIn (start now : Int) : Nat :=
  ((a.arrivals.filter fun x => start < x.1 ∧ x.1 ≤ now).map (·.2)).sum

noncomputable def speed (window now : Int) : Option Rat :=
  match a.first with
  | none => none
  | some first =>
    if now - first < window ∨ 2 * a.measured window now < window then none
    else some (a.tokensIn (now - window) now / asSecs (a.measured window now))

end Account

/-! ## Tokens do not depend on how a text is split -/

theorem tokens_add (s : List Char) : (Text.add {} s).tokens = tokensOf s := by
  simp only [Text.add_eq, Text.tokens, tokensOf, Nat.zero_add]

theorem tokensOf_le_append (s t : List Char) : tokensOf s ≤ tokensOf (s ++ t) := by
  simp only [tokensOf, List.countP_append]
  omega

theorem arrivalsFrom_append (before : List Char) (l l' : List (Int × List Char)) :
    arrivalsFrom before (l ++ l') =
      arrivalsFrom before l ++ arrivalsFrom (before ++ l.flatMap (·.2)) l' := by
  induction l generalizing before with
  | nil => simp [arrivalsFrom]
  | cons x l ih =>
    rw [List.cons_append, arrivalsFrom, arrivalsFrom, ih, List.flatMap_cons, List.append_assoc]
    rfl

theorem sum_arrivalsFrom (before : List Char) (l : List (Int × List Char)) :
    tokensOf before + ((arrivalsFrom before l).map (·.2)).sum =
      tokensOf (before ++ l.flatMap (·.2)) := by
  induction l generalizing before with
  | nil => simp [arrivalsFrom]
  | cons x l ih =>
    have hle := tokensOf_le_append before x.2
    rw [arrivalsFrom, List.map_cons, List.sum_cons, List.flatMap_cons, ← List.append_assoc,
      ← ih (before ++ x.2)]
    omega

theorem arrivalsFrom_map_fst (before : List Char) (l : List (Int × List Char)) :
    (arrivalsFrom before l).map (·.1) = l.map (·.1) := by
  induction l generalizing before with
  | nil => rfl
  | cons x l ih => rw [arrivalsFrom, List.map_cons, List.map_cons, ih]

/-- A piece that shows text is one more arrival, with the tokens it adds. -/
theorem Account.arrivals_put (a : Account) (now : Int) {s : Said} (hs : s.shown ≠ []) :
    (a.put now s).arrivals =
      a.arrivals ++ [(now, tokensOf (a.visible ++ s.shown) - tokensOf a.visible)] := by
  rw [arrivals, show (a.put now s).shown = a.shown ++ [(now, s.shown)] from if_neg hs,
    arrivalsFrom_append]
  rfl

theorem Account.arrivals_put_quiet (a : Account) (now : Int) {s : Said} (hs : s.shown = []) :
    (a.put now s).arrivals = a.arrivals :=
  congrArg (arrivalsFrom []) (if_pos hs)

/-- The arrivals share the tokens of the whole text out among them. -/
theorem Account.sum_arrivals (a : Account) :
    (a.arrivals.map (·.2)).sum = (Text.add {} a.visible).tokens := by
  have h := sum_arrivalsFrom [] a.shown
  rw [tokens_add]
  exact (Nat.zero_add _).symm.trans h

/-! ## What a piece of the stream does to the watch -/

theorem summary_none (now : Int) : summary none now = [] := rfl

theorem summary_some (p : Phase) (now : Int) :
    summary (some p) now = if p.raw then [] else [(p.since, now)] := by
  cases hr : p.raw with
  | true => simp [summary, hr]
  | false => simp [summary, Option.filter, hr]

namespace SpeedWatch

variable {K : Codec} (w : SpeedWatch K) {raw visible : Bool} {now : Int}

theorem closePhase_eq : w.closePhase now =
    { w with phase := none, summarised := w.summarised ++ summary w.phase now } := by
  cases hp : w.phase with
  | none =>
    rw [closePhase, hp, summary_none, List.append_nil]
    show w = { w with phase := none }
    rw [← hp]
  | some p =>
    rw [closePhase, hp, summary_some]
    cases hr : p.raw with
    | true => simp [hr]
    | false => simp [hr]

theorem close_eq : (if w.phase.isSome then w.closePhase now else w) =
    { w with phase := none, summarised := w.summarised ++ summary w.phase now } := by
  split_ifs with h
  · exact w.closePhase_eq
  · have hp : w.phase = none := by simpa using h
    rw [← closePhase_eq, closePhase, hp]

theorem openPhase_eq (index : Option Nat) : w.openPhase index now =
    { w with
      phase := some ⟨index, now, w.rawByDefault⟩
      summarised := w.summarised ++ summary w.phase now } := by
  rw [openPhase, close_eq]
  rfl

end SpeedWatch

/-- `w'` is `w` after events that say `s`; `visible'` is whether the piece has shown anything by
then. The first content may still be put down at the end of the piece. -/
structure Follows {K : Codec} (now : Int) (w : SpeedWatch K) (visible : Bool) (s : Said)
    (w' : SpeedWatch K) (visible' : Bool) : Prop where
  phase : w'.phase = s.phase
  summarised : w'.summarised = w.summarised ++ s.ended
  text : w'.text = w.text.add s.shown
  visible_iff : visible' = true ↔ visible = true ∨ s.shown ≠ []
  content : s.shown ≠ [] → s.content = true
  first : w'.first.or (some now) = w.first.or (some now)
  first_quiet : visible' = false →
    w'.first = if s.content then w.first.or (some now) else w.first
  min : w'.min = w.min
  upstream : w'.upstream = w.upstream
  counted : w'.counted = w.counted
  arrivals : w'.arrivals = w.arrivals
  frames : w'.frames = w.frames
  reader : w'.reader = w.reader

namespace Follows

variable {K : Codec} {now : Int} {w w' w'' : SpeedWatch K} {visible visible' visible'' : Bool}
  {s s' : Said}

/-- Events that only end or begin a phase. -/
theorem of_phase (phase : Option Phase) (ended : List Span) : Follows now w visible
    { phase := phase, ended := ended }
    { w with phase := phase, summarised := w.summarised ++ ended } visible where
  phase := rfl
  summarised := rfl
  text := rfl
  visible_iff := by simp
  content := fun h => absurd rfl h
  first := rfl
  first_quiet := fun _ => rfl
  min := rfl
  upstream := rfl
  counted := rfl
  arrivals := rfl
  frames := rfl
  reader := rfl

theorem refl : Follows now w visible { phase := w.phase } w visible := by
  have h : Follows now w visible _ _ visible := of_phase w.phase []
  rwa [List.append_nil] at h

theorem trans (h : Follows now w visible s w' visible')
    (h' : Follows now w' visible' s' w'' visible'') : Follows now w visible
      { phase := s'.phase
        ended := s.ended ++ s'.ended
        shown := s.shown ++ s'.shown
        content := s.content || s'.content } w'' visible'' where
  phase := h'.phase
  summarised := by rw [h'.summarised, h.summarised, List.append_assoc]
  text := by rw [h'.text, h.text, Text.add_append]
  visible_iff := by
    rw [h'.visible_iff, h.visible_iff, or_assoc]
    show _ ↔ _ ∨ s.shown ++ s'.shown ≠ []
    rw [Ne, Ne, Ne, List.append_eq_nil_iff, not_and_or]
  content := fun hs => by
    rw [Ne, List.append_eq_nil_iff, not_and_or] at hs
    rcases hs with hs | hs
    · rw [h.content hs, Bool.true_or]
    · rw [h'.content hs, Bool.or_true]
  first := h'.first.trans h.first
  first_quiet := fun hv => by
    have hv' : visible' = false := by
      rw [← Bool.not_eq_true]
      exact fun hn => by simp [h'.visible_iff.mpr (.inl hn)] at hv
    have h1 := h.first_quiet hv'
    rw [h'.first_quiet hv, h.first]
    cases hc : s'.content with
    | true => simp
    | false => simpa using h1
  min := h'.min.trans h.min
  upstream := h'.upstream.trans h.upstream
  counted := h'.counted.trans h.counted
  arrivals := h'.arrivals.trans h.arrivals
  frames := h'.frames.trans h.frames
  reader := h'.reader.trans h.reader

end Follows

namespace SpeedWatch

variable {K : Codec} (w : SpeedWatch K) {raw : Bool} {now : Int}

/-- Text of the answer or of a tool call: the reasoning before it is over. -/
theorem follows_answer (visible : Bool) {t : List Char} (ht : t ≠ []) : Follows now w visible
    { phase := none, ended := summary w.phase now, shown := t, content := true }
    { w with
      phase := none
      summarised := w.summarised ++ summary w.phase now
      text := w.text.add t } true where
  phase := rfl
  summarised := rfl
  text := rfl
  visible_iff := by simp [ht]
  content := fun _ => rfl
  first := rfl
  first_quiet := nofun
  min := rfl
  upstream := rfl
  counted := rfl
  arrivals := rfl
  frames := rfl
  reader := rfl

/-- Reasoning, in the phase `p`. -/
theorem follows_thinking (visible : Bool) (p : Phase) {t : List Char} (ht : t ≠ []) :
    Follows now w visible
      { phase := some p, shown := if p.raw then t else [], content := true }
      { w with
        phase := some p
        text := if p.raw then w.text.add t else w.text
        first := w.first.or (some now) } (visible || p.raw) where
  phase := rfl
  summarised := (List.append_nil _).symm
  text := by cases p.raw <;> rfl
  visible_iff := by cases hr : p.raw <;> simp [ht]
  content := fun _ => rfl
  first := by simp
  first_quiet := fun _ => rfl
  min := rfl
  upstream := rfl
  counted := rfl
  arrivals := rfl
  frames := rfl
  reader := rfl

theorem event_thinking (visible : Bool) (index : Nat) {t : List Char} (ht : t ≠ []) :
    w.event raw now visible (.delta index (.thinking t)) =
      let p := w.phase.getD ⟨none, now, w.rawByDefault⟩
      let p := { p with raw := p.raw || raw }
      ({ w with
        phase := some p
        text := if p.raw then w.text.add t else w.text
        first := w.first.or (some now) }, visible || p.raw) := by
  cases hp : w.phase with
  | none =>
    simp only [event, ht, hp, openPhase_eq, rawByDefault, summary_none, List.append_nil,
      Option.isNone_none, if_true, if_false, Option.getD_none]
    split_ifs with h
    · simp [h]
    · simp [h]
  | some p =>
    simp only [event, ht, hp, Option.isNone_some, if_false, Option.getD_some, Bool.false_eq_true]
    split_ifs with h
    · simp [h]
    · simp [h]

/-- One event does to the watch what it says. -/
theorem follows_event (visible : Bool) (e : Event) :
    Follows now w visible (tell w.rawByDefault raw now w.phase e)
      (w.event raw now visible e).1 (w.event raw now visible e).2 := by
  cases e with
  | blockStart index kind =>
    cases kind with
    | thinking =>
      rw [event, openPhase_eq]
      exact .of_phase _ _
    | other => exact .refl
  | blockStop index =>
    rw [event, tell]
    split_ifs with h
    · rw [closePhase_eq]
      exact .of_phase _ _
    · exact .refl
  | delta index d =>
    cases d with
    | thinking t =>
      by_cases ht : t = []
      · rw [event, tell, if_pos ht, if_pos ht]
        exact .refl
      · rw [event_thinking w visible index ht, tell, if_neg ht]
        exact w.follows_thinking visible _ ht
    | text t | toolInput t =>
      by_cases ht : t = []
      · rw [event, tell, if_pos ht, if_pos ht]
        exact .refl
      · rw [event, tell, if_neg ht, if_neg ht, close_eq]
        exact w.follows_answer visible ht
    | other => exact .refl
  | stop =>
    have h : Follows now w visible _ w visible := .refl
    exact { h with }
  | other => exact .refl

theorem follows_events (visible : Bool) (es : List Event) :
    Follows now w visible (tellAll w.rawByDefault raw now w.phase es)
      (w.events raw now visible es).1 (w.events raw now visible es).2 := by
  induction es generalizing w visible with
  | nil => exact .refl
  | cons e es ih =>
    have h : Follows now w visible (tell w.rawByDefault raw now w.phase e) _ _ :=
      w.follows_event visible e
    have hrest := ih (w.event raw now visible e).1 (w.event raw now visible e).2
    rw [rawByDefault, h.upstream, h.phase] at hrest
    exact h.trans hrest

/-- The watch once a chunk is decoded, before its events count. -/
def reading (chunk : Bytes) : SpeedWatch K :=
  { w with
    frames := (K.decode w.frames chunk).1
    reader := (K.read w.reader chunk).1
    done := w.done || (K.decode w.frames chunk).2.any (K.endsAnswer w.upstream) }

/-- The piece a chunk is for the watch. -/
def piece (chunk : Bytes) (now : Int) : Heard where
  at_ := now
  raw := w.upstream == .responses && (K.decode w.frames chunk).2.any (isRawReasoning K)
  events := (K.read w.reader chunk).2

theorem exists_feed (chunk : Bytes) (now : Int) : ∃ w' visible,
    Follows now (w.reading chunk) false
      (tellAll w.rawByDefault (w.piece chunk now).raw now w.phase (w.piece chunk now).events)
      w' visible ∧
    w.feed chunk now = if visible then w'.arrived now else w' :=
  ⟨_, _, (w.reading chunk).follows_events false (w.piece chunk now).events, rfl⟩

end SpeedWatch

/-! ## Gaps between arrivals -/

theorem zip_eq_gaps (now : Int) (ats : List Int) :
    ats.zip (ats.drop 1 ++ [now]) = gaps now ats := by
  induction ats with
  | nil => rfl
  | cons at_ l ih =>
    cases l with
    | nil => rfl
    | cons b l => exact congrArg ((at_, b) :: ·) ih

theorem gaps_append (now : Int) (l l' : List Int) :
    gaps now (l ++ l') = gaps (l'.headD now) l ++ gaps now l' := by
  induction l with
  | nil => rfl
  | cons at_ l ih =>
    rw [List.cons_append, gaps, gaps, ih, List.cons_append]
    cases l <;> rfl

theorem longGaps_append (window now : Int) (l l' : List Int) :
    longGaps window now (l ++ l') =
      longGaps window (l'.headD now) l ++ longGaps window now l' := by
  rw [longGaps, gaps_append, List.filter_append]
  rfl

theorem gap_ends {now : Int} {ats : List Int} {s : Span} (h : s ∈ gaps now ats) :
    s.2 ∈ ats ∨ s.2 = now := by
  induction ats with
  | nil => cases h
  | cons at_ l ih =>
    rcases List.mem_cons.mp h with rfl | h
    · cases l with
      | nil => exact .inr rfl
      | cons b l => exact .inl (by simp)
    · exact (ih h).imp_left (List.mem_cons_of_mem _)

/-! ## What is discarded -/

theorem exists_prune (start : Int) (l : List (Int × Nat)) :
    ∃ gone, l = gone ++ SpeedWatch.pruneArrivals start l ∧
      (gone = [] ∨ ∃ x ∈ (SpeedWatch.pruneArrivals start l).head?, x.1 ≤ start) := by
  induction l with
  | nil => exact ⟨[], rfl, .inl rfl⟩
  | cons a l ih =>
    cases l with
    | nil => exact ⟨[], rfl, .inl rfl⟩
    | cons b l =>
      rw [SpeedWatch.pruneArrivals]
      split_ifs with hb
      · obtain ⟨gone, heq, hgone⟩ := ih
        refine ⟨a :: gone, by rw [List.cons_append, ← heq], .inr ?_⟩
        rcases hgone with rfl | h
        · rw [List.nil_append] at heq
          exact ⟨b, by rw [← heq]; rfl, hb⟩
        · exact h
      · exact ⟨[], rfl, .inl rfl⟩

/-- The watch `w` has the account `a` but for what no window from `last` on reaches. -/
structure Sim {K : Codec} (w : SpeedWatch K) (a : Account) (last : Int) : Prop where
  first : w.first = a.first
  phase : w.phase = a.phase
  text : w.text = Text.add {} a.visible
  counted : w.counted = tokensOf a.visible
  arrivals : ∃ gone, a.arrivals = gone ++ w.arrivals ∧
    (gone = [] ∨ ∃ x ∈ w.arrivals.head?, x.1 + w.min.window ≤ last)
  summarised : ∃ gone, a.summaries = gone ++ w.summarised ∧ ∀ s ∈ gone, s.2 + w.min.window ≤ last
  sorted : (a.arrivals.map (·.1)).Pairwise (· ≤ ·)
  le_last : ∀ x ∈ a.arrivals, x.1 ≤ last

namespace Sim

variable {K : Codec} {w : SpeedWatch K} {a : Account} {last now : Int}

theorem new (min : MinSpeed) (upstream : Dialect) (last : Int) :
    Sim (SpeedWatch.new (K := K) min upstream) {} last where
  first := rfl
  phase := rfl
  text := rfl
  counted := rfl
  arrivals := ⟨[], rfl, .inl rfl⟩
  summarised := ⟨[], rfl, by simp⟩
  sorted := .nil
  le_last := by simp [Account.arrivals, arrivalsFrom]

theorem later (h : Sim w a last) (hle : last ≤ now) : Sim w a now where
  first := h.first
  phase := h.phase
  text := h.text
  counted := h.counted
  arrivals := by
    obtain ⟨gone, heq, hgone⟩ := h.arrivals
    exact ⟨gone, heq, hgone.imp_right fun ⟨x, hx, hxl⟩ => ⟨x, hx, hxl.trans hle⟩⟩
  summarised := by
    obtain ⟨gone, heq, hgone⟩ := h.summarised
    exact ⟨gone, heq, fun s hs => (hgone s hs).trans hle⟩
  sorted := h.sorted
  le_last := fun x hx => (h.le_last x hx).trans hle

/-- Discarding keeps what the window that ends at `now` needs. -/
theorem prune (h : Sim w a now) : Sim (w.prune (now - w.min.window)) a now where
  first := h.first
  phase := h.phase
  text := h.text
  counted := h.counted
  arrivals := by
    obtain ⟨gone, heq, hgone⟩ := h.arrivals
    obtain ⟨more, hmore, hhead⟩ := exists_prune (now - w.min.window) w.arrivals
    refine ⟨gone ++ more, by rw [List.append_assoc, heq]; exact congrArg (gone ++ ·) hmore, ?_⟩
    rcases hhead with rfl | ⟨x, hx, hle⟩
    · rw [List.nil_append] at hmore
      rw [List.append_nil,
        show (w.prune (now - w.min.window)).arrivals = w.arrivals from hmore.symm]
      exact hgone
    · exact .inr ⟨x, hx, by rw [show (w.prune _).min = w.min from rfl]; omega⟩
  summarised := by
    obtain ⟨gone, heq, hgone⟩ := h.summarised
    refine ⟨gone ++ w.summarised.takeWhile (·.2 ≤ now - w.min.window), ?_, ?_⟩
    · rw [List.append_assoc, heq]
      exact congrArg (gone ++ ·) List.takeWhile_append_dropWhile.symm
    · intro s hs
      rcases List.mem_append.mp hs with hs | hs
      · exact hgone s hs
      · have hle : s.2 ≤ now - w.min.window :=
          of_decide_eq_true (List.mem_takeWhile_imp (p := fun s : Span => s.2 ≤ now - _) hs)
        rw [show (w.prune _).min = w.min from rfl]
        omega
  sorted := h.sorted
  le_last := h.le_last

theorem arrived_fields (h : Sim w a last) {w' : SpeedWatch K} {s : Said}
    (hw : Follows now w false s w' true) :
    w'.arrived now = { w' with
      counted := tokensOf (a.visible ++ s.shown)
      first := w.first.or (some now)
      arrivals := w.arrivals ++
        [(now, tokensOf (a.visible ++ s.shown) - tokensOf a.visible)] } := by
  have htext : w'.text.tokens = tokensOf (a.visible ++ s.shown) := by
    rw [hw.text, h.text, ← Text.add_append, tokens_add]
  have hcounted : w'.counted = tokensOf a.visible := hw.counted.trans h.counted
  have hle := tokensOf_le_append a.visible s.shown
  rw [SpeedWatch.arrived, htext, hcounted, hw.first, hw.arrivals, max_eq_right hle]

theorem summarised_put (h : Sim w a last) (hle : last ≤ now) {w' : SpeedWatch K} {s : Said}
    {visible : Bool} (hw : Follows now w false s w' visible) :
    ∃ gone, a.summaries ++ s.ended = gone ++ w'.summarised ∧
      ∀ s ∈ gone, s.2 + w'.min.window ≤ now := by
  obtain ⟨gone, heq, hgone⟩ := h.summarised
  refine ⟨gone, by rw [heq, hw.summarised, List.append_assoc], fun s hs => ?_⟩
  rw [hw.min]
  exact (hgone s hs).trans hle

/-- A piece that shows nothing is no arrival. -/
theorem quiet (h : Sim w a last) (hle : last ≤ now) {w' : SpeedWatch K} {s : Said}
    (hw : Follows now w false s w' false) : Sim w' (a.put now s) now := by
  have hs : s.shown = [] := by simpa using hw.visible_iff
  have hvisible : (a.put now s).visible = a.visible := by
    rw [a.visible_put, hs, List.append_nil]
  exact {
    first := by rw [hw.first_quiet rfl, h.first]; rfl
    phase := hw.phase
    text := by rw [hw.text, hs, h.text, hvisible]; rfl
    counted := by rw [hw.counted, h.counted, hvisible]
    arrivals := by
      rw [a.arrivals_put_quiet now hs, hw.arrivals, hw.min]
      exact (h.later hle).arrivals
    summarised := h.summarised_put hle hw
    sorted := by rw [a.arrivals_put_quiet now hs]; exact h.sorted
    le_last := by rw [a.arrivals_put_quiet now hs]; exact (h.later hle).le_last }

theorem shown (h : Sim w a last) (hle : last ≤ now) {w' : SpeedWatch K} {s : Said}
    (hw : Follows now w false s w' true) : Sim (w'.arrived now) (a.put now s) now := by
  have hs : s.shown ≠ [] := by simpa using hw.visible_iff
  have hsummarised := h.summarised_put hle hw
  rw [h.arrived_fields hw]
  exact {
    first := by
      show w.first.or (some now) = if s.content then _ else _
      rw [if_pos (hw.content hs), h.first]
    phase := hw.phase
    text := by
      show w'.text = _
      rw [a.visible_put, hw.text, h.text, ← Text.add_append]
    counted := by rw [a.visible_put]
    arrivals := by
      obtain ⟨gone, heq, hgone⟩ := h.arrivals
      refine ⟨gone, by rw [a.arrivals_put now hs, heq, List.append_assoc], ?_⟩
      refine hgone.imp_right fun ⟨x, hx, hxl⟩ => ⟨x, ?_, ?_⟩
      · show x ∈ (w.arrivals ++ _).head?
        rw [List.head?_append, hx]
        rfl
      · show x.1 + w'.min.window ≤ now
        rw [hw.min]
        exact hxl.trans hle
    summarised := hsummarised
    sorted := by
      rw [a.arrivals_put now hs, List.map_append, List.pairwise_append]
      refine ⟨h.sorted, List.pairwise_singleton _ _, fun x hx y hy => ?_⟩
      obtain ⟨z, hz, rfl⟩ := List.mem_map.mp hx
      rw [List.mem_singleton.mp hy]
      exact (h.le_last z hz).trans hle
    le_last := by
      rw [a.arrivals_put now hs]
      intro x hx
      rcases List.mem_append.mp hx with hx | hx
      · exact (h.le_last x hx).trans hle
      · rw [List.mem_singleton.mp hx] }

theorem reading (h : Sim w a last) (chunk : Bytes) : Sim (w.reading chunk) a last := { h with }

theorem feed (h : Sim w a last) (hle : last ≤ now) (chunk : Bytes) :
    Sim (w.feed chunk now) (a.hear w.rawByDefault (w.piece chunk now)) now := by
  obtain ⟨w', visible, hw, heq⟩ := w.exists_feed chunk now
  rw [h.phase] at hw
  rw [heq]
  cases visible with
  | true => exact (h.reading chunk).shown hle hw
  | false => exact (h.reading chunk).quiet hle hw

/-- A watch that has discarded nothing has all arrivals. -/
theorem feed_whole (h : Sim w a last) (hwhole : w.arrivals = a.arrivals) (chunk : Bytes) :
    (w.feed chunk now).arrivals = (a.hear w.rawByDefault (w.piece chunk now)).arrivals := by
  obtain ⟨w', visible, hw, heq⟩ := w.exists_feed chunk now
  rw [h.phase] at hw
  show _ = (a.put now (tellAll w.rawByDefault (w.piece chunk now).raw now a.phase
    (w.piece chunk now).events)).arrivals
  rw [heq]
  generalize tellAll w.rawByDefault _ now a.phase _ = s at *
  cases visible with
  | true =>
    have hs : s.shown ≠ [] := by simpa using hw.visible_iff
    rw [if_pos rfl, (h.reading chunk).arrived_fields hw, a.arrivals_put now hs, ← hwhole]
    rfl
  | false =>
    have hs : s.shown = [] := by simpa using hw.visible_iff
    rw [if_neg Bool.false_ne_true, hw.arrivals, a.arrivals_put_quiet now hs]
    exact hwhole

end Sim

/-! ## What the sweep measures -/

namespace SpeedWatch

variable {K : Codec} (w : SpeedWatch K) (now : Int) {window : Int}

theorem mergeSort_sorted (l : List Span) : (l.mergeSort spanLe).Pairwise fun s t => s.1 ≤ t.1 := by
  have hsorted : (l.mergeSort spanLe).Pairwise fun s t => spanLe s t = true := by
    refine List.pairwise_mergeSort (fun s t u hst htu => ?_) (fun s t => ?_) l
    · simp [spanLe] at *
      omega
    · simp [spanLe]
      omega
  refine hsorted.imp fun hst => ?_
  simp [spanLe] at hst
  omega

/-- The spans left out, before they are clipped to the window. -/
def spans : List Span :=
  longGaps w.min.window now (w.arrivals.map (·.1)) ++ (w.summarised ++ summary w.phase now)

theorem out_eq : w.out now =
    ((w.spans now).map (clip (now - w.min.window) now)).filter fun s => s.1 < s.2 := by
  have hpos : 0 < longPause w.min.window := w.min.longPause_pos
  have hpause : ∀ s : Span, decide (longPause w.min.window ≤ durationSince s.2 s.1) =
      decide (longPause w.min.window ≤ s.2 - s.1) := fun s => by
    rw [durationSince, decide_eq_decide]
    omega
  rw [out, spans, longGaps, ← List.append_assoc]
  simp only [zip_eq_gaps, hpause]
  rfl

/-- The sweep measures what the spans cover of the window. -/
theorem leftOut_eq : w.leftOut now =
    (cover (w.spans now) ∩ Finset.Ico (now - w.min.window) now).card := by
  refine foldl_sweep_clip ?_ (mergeSort_sorted _)
  rw [out_eq]
  exact List.mergeSort_perm _ _

theorem measured_eq (h : w.min.window = window) : w.measured now =
    window - (cover (w.spans now) ∩ Finset.Ico (now - window) now).card := by
  have hle := card_inter_Ico_le (w.spans now) (show now - window ≤ now by
    have := w.min.window_pos
    omega)
  rw [measured, leftOut_eq, h]
  omega

end SpeedWatch

/-! ## The watch reaches the speed of the account -/

namespace Sim

variable {K : Codec} {w : SpeedWatch K} {a : Account} {now : Int}

/-- What is gone was over by the window's start. -/
theorem exists_gone (h : Sim w a now) : ∃ gone, a.arrivals = gone ++ w.arrivals ∧
    ∀ t ∈ gone.map (·.1), t ≤ now - w.min.window ∧ (w.arrivals.map (·.1)).headD now ≤
      now - w.min.window := by
  obtain ⟨gone, heq, rfl | ⟨x, hx, hxl⟩⟩ := h.arrivals
  · exact ⟨[], heq, by simp⟩
  · refine ⟨gone, heq, fun t ht => ?_⟩
    obtain ⟨l, hl⟩ : ∃ l, w.arrivals = x :: l := List.head?_eq_some_iff.mp hx
    have hsorted := h.sorted
    rw [heq, hl, List.map_append, List.pairwise_append] at hsorted
    have htx : t ≤ x.1 := hsorted.2.2 t ht x.1 (by simp)
    rw [hl, List.map_cons, List.headD_cons]
    omega

theorem tokensIn_eq (h : Sim w a now) : a.tokensIn (now - w.min.window) now =
    ((w.arrivals.filter fun x => now - w.min.window < x.1).map (·.2)).sum := by
  obtain ⟨gone, heq, hgone⟩ := h.exists_gone
  have hnone : gone.filter (fun x => now - w.min.window < x.1 ∧ x.1 ≤ now) = [] := by
    refine List.filter_eq_nil_iff.mpr fun x hx => ?_
    have := (hgone x.1 (List.mem_map_of_mem hx)).1
    simp
    omega
  have hkept : w.arrivals.filter (fun x => now - w.min.window < x.1 ∧ x.1 ≤ now) =
      w.arrivals.filter fun x => now - w.min.window < x.1 := by
    refine List.filter_congr fun x hx => ?_
    have hle := h.le_last x (heq ▸ List.mem_append_right gone hx)
    simp [hle]
  rw [Account.tokensIn, heq, List.filter_append, hnone, List.nil_append, hkept]

/-- The spans that are gone do not reach into the window. -/
theorem cover_aside (h : Sim w a now) :
    cover (a.aside w.min.window now) ∩ Finset.Ico (now - w.min.window) now =
      cover (w.spans now) ∩ Finset.Ico (now - w.min.window) now := by
  obtain ⟨gone, heq, hgone⟩ := h.exists_gone
  obtain ⟨early, hdone, hle⟩ := h.summarised
  have hats : a.shown.map (·.1) = gone.map (·.1) ++ w.arrivals.map (·.1) := by
    rw [← List.map_append, ← heq, Account.arrivals, arrivalsFrom_map_fst]
  have hearly : ∀ s ∈ longGaps w.min.window ((w.arrivals.map (·.1)).headD now) (gone.map (·.1)) ++
      early, s.2 ≤ now - w.min.window := by
    intro s hs
    rcases List.mem_append.mp hs with hs | hs
    · cases gone with
      | nil => cases hs
      | cons x gone =>
        rcases gap_ends (List.mem_filter.mp hs).1 with hmem | hmem
        · exact (hgone _ hmem).1
        · rw [hmem]
          exact (hgone x.1 (by simp)).2
    · have := hle s hs
      omega
  have hperm : (a.aside w.min.window now).Perm (longGaps w.min.window
      ((w.arrivals.map (·.1)).headD now) (gone.map (·.1)) ++ early ++ w.spans now) := by
    rw [Account.aside, SpeedWatch.spans, hats, longGaps_append, hdone, h.phase]
    simp only [List.append_assoc]
    exact (List.perm_append_comm_assoc _ _ _).append_left _
  rw [cover_perm hperm, cover_append_inter hearly]

theorem measured_eq (h : Sim w a now) : w.measured now = a.measured w.min.window now := by
  rw [w.measured_eq now rfl, Account.measured, h.cover_aside]

/-- At every instant, what is kept gives the speed of the whole account. -/
theorem rate_eq (h : Sim w a now) : (w.rate now).1 = a.speed w.min.window now := by
  cases hf : a.first with
  | none => rw [SpeedWatch.rate, h.first, Account.speed, hf]
  | some first =>
    have hprune : Sim (w.prune (now - w.min.window)) a now := h.prune
    have hmeasured : (w.prune (now - w.min.window)).measured now = a.measured w.min.window now :=
      hprune.measured_eq
    have htokens : a.tokensIn (now - w.min.window) now =
        (((w.prune (now - w.min.window)).arrivals.filter
          fun x => now - w.min.window < x.1).map (·.2)).sum := hprune.tokensIn_eq
    have hsince : durationSince now first < w.min.window ↔ now - first < w.min.window := by
      have := w.min.window_pos
      unfold durationSince
      omega
    simp only [SpeedWatch.rate, Account.speed, h.first, hf, htokens]
    rw [hmeasured]
    by_cases hfull : now - first < w.min.window
    · rw [if_pos (hsince.mpr hfull), if_pos (.inl hfull)]
    · rw [if_neg (hsince.not.mpr hfull)]
      simp only [hfull, false_or]
      exact if_congr (w.min.lt_half_window _) rfl rfl

/-! ### Whole runs -/

theorem rate (h : Sim w a now) : Sim (w.rate now).2 a now := by
  unfold SpeedWatch.rate
  split
  · exact h
  · split_ifs
    · exact h
    · exact h.prune

theorem tooSlow (h : Sim w a now) : Sim (w.tooSlow now).2 a now := by
  unfold SpeedWatch.tooSlow
  split_ifs
  · exact h
  · split
    · exact h
    · split_ifs
      · exact h
      · exact h.rate

end Sim

namespace SpeedWatch

variable {K : Codec} (w : SpeedWatch K) (now : Int)

/-- What a watch reads the stream with. -/
def wires : MinSpeed × Dialect × K.Decoder × K.Reader := (w.min, w.upstream, w.frames, w.reader)

theorem wires_rate : (w.rate now).2.wires = w.wires := by
  unfold rate
  split
  · rfl
  · split_ifs <;> rfl

theorem wires_tooSlow : (w.tooSlow now).2.wires = w.wires := by
  unfold tooSlow
  split_ifs
  · rfl
  · split
    · rfl
    · split_ifs
      · rfl
      · exact w.wires_rate now

theorem wires_feed (chunk : Bytes) : (w.feed chunk now).wires =
    (w.min, w.upstream, (K.decode w.frames chunk).1, (K.read w.reader chunk).1) := by
  obtain ⟨w', visible, hw, heq⟩ := w.exists_feed chunk now
  have hreads : w'.wires = (w.reading chunk).wires := by
    simp only [wires, hw.min, hw.upstream, hw.frames, hw.reader]
  rw [heq]
  cases visible with
  | true => exact hreads
  | false => exact hreads

end SpeedWatch

/-- The account `a` after the pieces that calls bring to a watch that reads with `x`. -/
def Account.after {K : Codec} (a : Account) (x : MinSpeed × Dialect × K.Decoder × K.Reader)
    (calls : List Timed) : Account :=
  (heardFrom K x.2.1 x.2.2.1 x.2.2.2 calls).foldl (Account.hear (x.2.1 == .chat)) a

namespace Sim

variable {K : Codec} {w : SpeedWatch K} {a : Account} {last now : Int}

/-- A run of calls in the order of their instants keeps the account of what it heard. -/
theorem run (h : Sim w a last) {calls : List Timed}
    (hsorted : (last :: (calls.map (·.1) ++ [now])).Pairwise (· ≤ ·)) :
    Sim (w.run calls) (a.after w.wires calls) now ∧ (w.run calls).min = w.min := by
  induction calls generalizing w a last with
  | nil => exact ⟨h.later (List.rel_of_pairwise_cons hsorted (by simp)), rfl⟩
  | cons c calls ih =>
    obtain ⟨at_, c⟩ := c
    have hle : last ≤ at_ := List.rel_of_pairwise_cons hsorted (by simp)
    have hrest := (List.pairwise_cons.mp hsorted).2
    cases c with
    | feed chunk =>
      have hrun := ih (h.feed hle chunk) hrest
      rw [w.wires_feed, show (w.feed chunk at_).min = w.min from
        congrArg Prod.fst (w.wires_feed at_ chunk)] at hrun
      exact hrun
    | rate =>
      have hrun := ih (h.later hle).rate hrest
      rw [w.wires_rate, show (w.rate at_).2.min = w.min from
        congrArg Prod.fst (w.wires_rate at_)] at hrun
      exact hrun
    | tooSlow =>
      have hrun := ih (h.later hle).tooSlow hrest
      rw [w.wires_tooSlow, show (w.tooSlow at_).2.min = w.min from
        congrArg Prod.fst (w.wires_tooSlow at_)] at hrun
      exact hrun

end Sim

/-! ## Runs without a query -/

def Call.isFeed : Call → Bool
  | feed _ => true
  | rate | tooSlow => false

theorem heardFrom_filter (K : Codec) (upstream : Dialect) (frames : K.Decoder) (reader : K.Reader)
    (calls : List Timed) : heardFrom K upstream frames reader (calls.filter (·.2.isFeed)) =
      heardFrom K upstream frames reader calls := by
  induction calls generalizing frames reader with
  | nil => rfl
  | cons c calls ih =>
    obtain ⟨at_, c⟩ := c
    cases c with
    | feed chunk => exact congrArg (_ :: ·) (ih _ _)
    | rate => exact ih _ _
    | tooSlow => exact ih _ _

theorem Sim.run_whole {K : Codec} {w : SpeedWatch K} {a : Account} {last : Int} (h : Sim w a last)
    (hwhole : w.arrivals = a.arrivals) {calls : List Timed} (hfeeds : ∀ c ∈ calls, c.2.isFeed)
    (hsorted : (last :: calls.map (·.1)).Pairwise (· ≤ ·)) :
    (w.run calls).arrivals = (a.after w.wires calls).arrivals := by
  induction calls generalizing w a last with
  | nil => exact hwhole
  | cons c calls ih =>
    obtain ⟨at_, c⟩ := c
    have hle : last ≤ at_ := List.rel_of_pairwise_cons hsorted (by simp)
    have hrest := (List.pairwise_cons.mp hsorted).2
    cases c with
    | feed chunk =>
      have hrun := ih (h.feed hle chunk) (h.feed_whole hwhole chunk)
        (fun c hc => hfeeds c (List.mem_cons_of_mem _ hc)) hrest
      rw [w.wires_feed] at hrun
      exact hrun
    | rate | tooSlow => exact absurd (hfeeds _ List.mem_cons_self) Bool.false_ne_true

/-! ## The first content -/

def Event.isContent : Event → Bool
  | delta _ (.thinking t) | delta _ (.text t) | delta _ (.toolInput t) => t ≠ []
  | _ => false

theorem content_tell (byDefault raw : Bool) (now : Int) (phase : Option Phase) (e : Event) :
    (tell byDefault raw now phase e).content = e.isContent := by
  cases e with
  | blockStart index kind => cases kind <;> rfl
  | blockStop index =>
    rw [tell]
    split_ifs <;> rfl
  | delta index d =>
    cases d with
    | thinking t | text t | toolInput t =>
      by_cases ht : t = []
      · simp [tell, Event.isContent, ht]
      · simp [tell, Event.isContent, ht]
    | other => rfl
  | stop | other => rfl

theorem content_tellAll (byDefault raw : Bool) (now : Int) (phase : Option Phase)
    (es : List Event) :
    (tellAll byDefault raw now phase es).content = es.any Event.isContent := by
  induction es generalizing phase with
  | nil => rfl
  | cons e es ih => rw [tellAll, List.any_cons, ← ih, ← content_tell byDefault raw now phase e]

theorem first_foldl (byDefault : Bool) (pieces : List Heard) (a : Account) :
    (pieces.foldl (Account.hear byDefault) a).first =
      a.first.or ((pieces.find? fun h => h.events.any Event.isContent).map (·.at_)) := by
  induction pieces generalizing a with
  | nil => simp
  | cons h pieces ih =>
    have hfirst : (a.hear byDefault h).first =
        if h.events.any Event.isContent then a.first.or (some h.at_) else a.first := by
      rw [← content_tellAll byDefault h.raw h.at_ a.phase]
      rfl
    rw [List.foldl_cons, ih, hfirst, List.find?_cons]
    cases h.events.any Event.isContent with
    | true => simp
    | false => rfl

/-! ## Every run -/

/-- A speed is only told where half the window is left. -/
theorem speed_pos {K : Codec} {w : SpeedWatch K} {now : Int} {r : Rat}
    (h : (w.rate now).1 = some r) : 0 < (w.prune (now - w.min.window)).measured now := by
  have hhalf : ¬ (w.prune (now - w.min.window)).measured now < w.min.window / 2 := by
    intro hlt
    cases hf : w.first with
    | none =>
      rw [SpeedWatch.rate, hf] at h
      cases h
    | some first =>
      simp only [SpeedWatch.rate, hf] at h
      rw [if_pos (show _ < (w.prune (now - w.min.window)).min.window / 2 from hlt)] at h
      split_ifs at h
  have hrange := w.min.window_range.1
  unfold MinSpeed.window fromSecs at *
  omega

/-- A stream may start at its first call. -/
theorem pairwise_twice {t : Int} {l : List Int} (h : (t :: l).Pairwise (· ≤ ·)) :
    (t :: t :: l).Pairwise (· ≤ ·) := by
  refine List.pairwise_cons.mpr ⟨fun u hu => ?_, h⟩
  rcases List.mem_cons.mp hu with rfl | hu
  · exact le_refl _
  · exact List.rel_of_pairwise_cons h hu

/-- A watch at the end of a run that started with nothing. -/
theorem sim_run (K : Codec) (min : MinSpeed) (upstream : Dialect) {calls : List Timed} {now : Int}
    (h : (calls.map (·.1) ++ [now]).Pairwise (· ≤ ·)) :
    Sim ((SpeedWatch.new (K := K) min upstream).run calls)
        (Account.of upstream (heard K upstream calls)) now ∧
      ((SpeedWatch.new (K := K) min upstream).run calls).min = min := by
  cases calls with
  | nil => exact ⟨Sim.new min upstream now, rfl⟩
  | cons c calls => exact (Sim.new min upstream c.1).run (pairwise_twice h)

/-- Without a query, the arrivals of a run are all there. -/
theorem feeds_arrivals (K : Codec) (min : MinSpeed) (upstream : Dialect) {calls : List Timed}
    (hfeeds : ∀ c ∈ calls, c.2.isFeed) (h : (calls.map (·.1)).Pairwise (· ≤ ·)) :
    ((SpeedWatch.new (K := K) min upstream).run calls).arrivals =
      (Account.of upstream (heard K upstream calls)).arrivals := by
  cases calls with
  | nil => rfl
  | cons c calls => exact (Sim.new min upstream c.1).run_whole rfl hfeeds (pairwise_twice h)

/-- The speed of a stream, at every instant of every run, is that of its whole account: a watch
that never discarded anything tells the same. -/
theorem measured_speed (K : Codec) (min : MinSpeed) (upstream : Dialect) (calls : List Timed)
    (now : Int) (h : (calls.map (·.1) ++ [now]).Pairwise (· ≤ ·)) :
    let w := (SpeedWatch.new (K := K) min upstream).run calls
    let feeds := (SpeedWatch.new (K := K) min upstream).run (calls.filter (·.2.isFeed))
    let pieces := heard K upstream calls
    let a := Account.of upstream pieces
    (w.rate now).1 = a.speed min.window now ∧
      a.first = (pieces.find? fun h => h.events.any Event.isContent).map (·.at_) ∧
      (w.rate now).1 = (feeds.rate now).1 ∧
      feeds.arrivals = a.arrivals ∧
      (a.arrivals.map (·.2)).sum = (Text.add {} a.visible).tokens ∧
      ∀ r, (w.rate now).1 = some r → 0 < (w.prune (now - min.window)).measured now := by
  intro w feeds pieces a
  have hsub : ((calls.filter (·.2.isFeed)).map (·.1) ++ [now]).Sublist (calls.map (·.1) ++ [now]) :=
    (List.filter_sublist.map _).append (.refl _)
  have hheard : heard K upstream (calls.filter (·.2.isFeed)) = pieces :=
    heardFrom_filter K upstream _ _ calls
  obtain ⟨hw, hmin⟩ := sim_run K min upstream h
  obtain ⟨hfeeds, hfeedsmin⟩ := sim_run K min upstream (h.sublist hsub)
  rw [hheard] at hfeeds
  have hrate : (w.rate now).1 = a.speed min.window now := by
    rw [← hmin]
    exact hw.rate_eq
  have hrate' : (feeds.rate now).1 = a.speed min.window now := by
    rw [← hfeedsmin]
    exact hfeeds.rate_eq
  refine ⟨hrate, first_foldl _ _ _, hrate.trans hrate'.symm, ?_, a.sum_arrivals, fun r hr => ?_⟩
  · have harrivals := feeds_arrivals K min upstream
      (fun c hc => (List.mem_filter.mp hc).2) (List.pairwise_append.mp (h.sublist hsub)).1
    rwa [hheard] at harrivals
  · rw [← hmin]
    exact speed_pos hr

/-! ### A stream of two tokens a second -/

def chatData : String :=
  "\x7b\"choices\":[\x7b\"index\":0,\"delta\":\x7b\"content\":\"abcdefgh\"\x7d\x7d]\x7d"

def chatChunk : Bytes := Utf8.encode ("data: ".toList ++ chatData.toList ++ "\n\n".toList)

/-- What is read of `chatChunk`: one frame, and a block of text that its first delta starts. -/
def chatCodec : Codec where
  Decoder := Unit
  decoder := ()
  decode _ chunk := ((), if chunk = chatChunk then [⟨none, chatData⟩] else [])
  Reader := Bool
  reader _ := false
  read started chunk :=
    if chunk = chatChunk then
      (true, (if started then [] else [.other, .blockStart 0 .other]) ++
        [.delta 0 (.text "abcdefgh".toList)])
    else (started, [])
  endsAnswer _ _ := false
  typeOf _ := none

def slowest : MinSpeed := ⟨10, 5, by decide, by decide⟩

def twoASecond : List Timed :=
  [0, 1, 2, 3, 4, 5].flatMap fun n =>
    [(fromSecs n, .feed chatChunk), (fromSecs n, .tooSlow)]

def twoWatch : SpeedWatch chatCodec := (SpeedWatch.new slowest .chat).run twoASecond

theorem twoWatch_rate : (twoWatch.rate (fromSecs 5)).1 = some 2 := by
  have hfirst : twoWatch.first = some 0 := by decide +kernel
  have hmin : twoWatch.min = slowest := rfl
  have hout : (twoWatch.prune 0).out (fromSecs 5) = [] := by decide +kernel
  have htokens : (((twoWatch.prune 0).arrivals.filter fun x => 0 < x.1).map (·.2)).sum = 10 := by
    decide +kernel
  have hmeasured : (twoWatch.prune 0).measured (fromSecs 5) = fromSecs 5 := by
    rw [SpeedWatch.measured, SpeedWatch.leftOut, hout, List.mergeSort_nil,
      show (twoWatch.prune 0).min = slowest from hmin]
    rfl
  have hwindow : slowest.window = fromSecs 5 := rfl
  simp only [SpeedWatch.rate, hfirst, hmin, hwindow, sub_self, htokens, hmeasured]
  rw [if_neg (by decide), if_neg (by decide)]
  decide +kernel

theorem measured_speed_two :
    let a := Account.of .chat (heard chatCodec .chat twoASecond)
    a.speed slowest.window (fromSecs 5) = some 2 ∧ a.first = some 0 ∧
      (a.arrivals.map (·.2)).sum = 12 ∧
      0 < (twoWatch.prune (fromSecs 5 - slowest.window)).measured (fromSecs 5) := by
  obtain ⟨hrate, hfirst, -, -, hsum, hpos⟩ :=
    measured_speed chatCodec slowest .chat twoASecond (fromSecs 5) (by decide)
  refine ⟨hrate.symm.trans twoWatch_rate, ?_, ?_, hpos 2 twoWatch_rate⟩
  · rw [hfirst]
    decide +kernel
  · rw [hsum]
    decide +kernel

end ThinkWatch.Gateway.Speed
