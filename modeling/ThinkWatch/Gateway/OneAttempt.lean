import ThinkWatch.Lib.Cut
import ThinkWatch.Lib.Framing
import ThinkWatch.Lib.Run
import ThinkWatch.Gateway.Pump
import Mathlib.Data.List.TakeWhile

/-!
# One attempt reaches the client

A stream may go out again as long as nothing of the answer went out. While that is so its opening is
held back, so that what an attempt that fails has sent is never the client's: what the client
receives is comments, then the output of the last attempt. The opening is let through with the first
content, with an error that is the answer or with the end of the stream. The judgement of the speed
never finds it held: text behind an error starts the watch of the speed and is no content, but the
error lets the opening go.
-/

namespace ThinkWatch.Gateway.Stream

open Lib

variable {K : Codec} {c : StreamCtx K} {s s' t : Pump K} {a : Action K} {as : List (Action K)}

/-! ## The readers over a stream -/

/-- The reader of a dialect after some pieces. -/
def readerAfter (K : Codec) (d : Dialect) (chunks : List Bytes) : K.Reader :=
  chunks.foldl (fun r chunk => (K.readEvents r chunk).1) (K.reader d)

/-- The frames of some pieces, and the decoder after them. -/
def framesIn (K : Codec) (chunks : List Bytes) : K.Decoder × List K.Frame :=
  chunks.foldl (fun r chunk =>
    ((K.decode r.1 chunk).1, r.2 ++ (K.decode r.1 chunk).2)) (K.decoder, [])

/--
The frames of an error are picked the same way for the reader and for the error watch: of a piece in
which the reader finds an error and text, the watch has found an error.
-/
def ErrorsSaid (K : Codec) : Prop :=
  ∀ d chunks chunk, (∃ e ∈ (K.readEvents (readerAfter K d chunks) chunk).2, e.isError = true) →
    (∃ e ∈ (K.readEvents (readerAfter K d chunks) chunk).2, e.generates = true) →
    ∃ f ∈ (framesIn K (chunks ++ [chunk])).2, (K.saidIn d f).isSome

@[simp] theorem readerAfter_concat (d : Dialect) (chunks : List Bytes) (chunk : Bytes) :
    readerAfter K d (chunks ++ [chunk]) = (K.readEvents (readerAfter K d chunks) chunk).1 := by
  simp only [readerAfter, List.foldl_append, List.foldl_cons, List.foldl_nil]

@[simp] theorem framesIn_concat (chunks : List Bytes) (chunk : Bytes) :
    framesIn K (chunks ++ [chunk]) = ((K.decode (framesIn K chunks).1 chunk).1,
      (framesIn K chunks).2 ++ (K.decode (framesIn K chunks).1 chunk).2) := by
  simp only [framesIn, List.foldl_append, List.foldl_cons, List.foldl_nil]

namespace Readers

/-- The readers of an upstream after some pieces of its stream. -/
def after (w : Wire K) (chunks : List Bytes) : Readers K := chunks.foldl feed (of w)

@[simp] theorem after_concat (w : Wire K) (chunks : List Bytes) (chunk : Bytes) :
    after w (chunks ++ [chunk]) = (after w chunks).feed chunk := by
  simp only [after, List.foldl_append, List.foldl_cons, List.foldl_nil]

/-- The readers hold what was read of `fed`, in the dialect of `w`, and nothing else. -/
structure Reads (w : Wire K) (fed : List Bytes) (r : Readers K) : Prop where
  sniffer : r.sniffer = some (fed.foldl K.sniff K.sniffer)
  collector : r.collector = some (fed.foldl K.collect (K.collector w.collect))
  ledger : r.ledger = some w.ledger
  errors : ∀ e, r.errors = some e → e.upstream = w.dialect ∧
    (e.frames = (framesIn K fed).1 ∨ e.frames = (K.flush (framesIn K fed).1).1)
  said : ∀ said, r.said = some said →
    ∃ f ∈ (framesIn K fed).2 ++ (K.flush (framesIn K fed).1).2, K.saidIn w.dialect f = some said

/-- The watch is on all that was read, until it finds an error. -/
structure Watches (w : Wire K) (fed : List Bytes) (r : Readers K) : Prop where
  sniffer : r.sniffer = some (fed.foldl K.sniff K.sniffer)
  collector : r.collector = some (fed.foldl K.collect (K.collector w.collect))
  ledger : r.ledger = some w.ledger
  errors : ∀ e, r.errors = some e → e = ⟨w.dialect, (framesIn K fed).1⟩
  said : ∀ said, r.said = some said →
    ∃ f ∈ (framesIn K fed).2, K.saidIn w.dialect f = some said
  silent : r.said = none → r.errors.isSome ∧ ∀ f ∈ (framesIn K fed).2, K.saidIn w.dialect f = none

theorem watches_of (w : Wire K) : Watches w [] (of w) where
  sniffer := rfl
  collector := rfl
  ledger := rfl
  errors := fun e he => by
    cases he
    rfl
  said := nofun
  silent := fun _ => ⟨rfl, nofun⟩

theorem Watches.feed {w : Wire K} {fed : List Bytes} {r : Readers K} (h : Watches w fed r)
    (chunk : Bytes) : Watches w (fed ++ [chunk]) (r.feed chunk) := by
  have hsniffer : (r.sniffer.map (K.sniff · chunk)) =
      some ((fed ++ [chunk]).foldl K.sniff K.sniffer) := by
    rw [h.sniffer, List.foldl_append]
    rfl
  have hcollector : (r.collector.map (K.collect · chunk)) =
      some ((fed ++ [chunk]).foldl K.collect (K.collector w.collect)) := by
    rw [h.collector, List.foldl_append]
    rfl
  have hfound : ∀ said, r.said = some said →
      ∃ f ∈ (framesIn K (fed ++ [chunk])).2, K.saidIn w.dialect f = some said := by
    intro said hsaid
    obtain ⟨f, hf, hin⟩ := h.said said hsaid
    rw [framesIn_concat]
    exact ⟨f, List.mem_append_left _ hf, hin⟩
  unfold Readers.feed
  cases herrors : r.errors with
  | none =>
    refine ⟨hsniffer, hcollector, h.ledger, nofun, hfound, fun hnone => ?_⟩
    have hsome := (h.silent hnone).1
    rw [herrors] at hsome
    cases hsome
  | some e =>
    obtain rfl := h.errors e herrors
    simp only [ErrorWatch.feed, ErrorWatch.first]
    cases hfind : (K.decode (framesIn K fed).1 chunk).2.findSome? (K.saidIn w.dialect) with
    | some said =>
      refine ⟨hsniffer, hcollector, h.ledger, nofun, fun said' hsaid => ?_, nofun⟩
      obtain rfl := Option.some.inj hsaid
      obtain ⟨f, hf, hin⟩ := List.exists_of_findSome?_eq_some hfind
      rw [framesIn_concat]
      exact ⟨f, List.mem_append_right _ hf, hin⟩
    | none =>
      refine ⟨hsniffer, hcollector, h.ledger, fun e he => ?_, hfound, fun hnone => ⟨rfl, ?_⟩⟩
      · obtain rfl := Option.some.inj he
        rw [framesIn_concat]
      · rw [framesIn_concat]
        intro f hf
        rcases List.mem_append.mp hf with hf | hf
        · exact (h.silent hnone).2 f hf
        · exact List.findSome?_eq_none_iff.mp hfind f hf

theorem watches_after (w : Wire K) (chunks : List Bytes) : Watches w chunks (after w chunks) := by
  induction chunks using List.reverseRecOn with
  | nil => exact watches_of w
  | append_singleton chunks chunk ih =>
    rw [after_concat]
    exact ih.feed chunk

theorem Watches.reads {w : Wire K} {fed : List Bytes} {r : Readers K} (h : Watches w fed r) :
    Reads w fed r where
  sniffer := h.sniffer
  collector := h.collector
  ledger := h.ledger
  errors := fun e he => by
    obtain rfl := h.errors e he
    exact ⟨rfl, .inl rfl⟩
  said := fun said hsaid => by
    obtain ⟨f, hf, hin⟩ := h.said said hsaid
    exact ⟨f, List.mem_append_left _ hf, hin⟩

/-- The end of the stream completes a last frame. -/
theorem Watches.reported {w : Wire K} {fed : List Bytes} {r : Readers K} (h : Watches w fed r)
    (ended : Bool) : Reads w fed (r.reported ended).1 := by
  unfold Readers.reported
  split
  next =>
    cases herrors : r.errors with
    | none => exact h.reads
    | some e =>
      obtain rfl := h.errors e herrors
      simp only [ErrorWatch.flush, ErrorWatch.first]
      cases hfind : (K.flush (framesIn K fed).1).2.findSome? (K.saidIn w.dialect) with
      | none =>
        refine ⟨h.sniffer, h.collector, h.ledger, fun e he => ?_, h.reads.said⟩
        obtain rfl := Option.some.inj he
        exact ⟨rfl, .inr rfl⟩
      | some said =>
        refine ⟨h.sniffer, h.collector, h.ledger, nofun, fun said' hsaid => ?_⟩
        obtain rfl := Option.some.inj hsaid
        obtain ⟨f, hf, hin⟩ := List.exists_of_findSome?_eq_some hfind
        exact ⟨f, List.mem_append_right _ hf, hin⟩
  next => exact h.reads

theorem Reads.upstreamError {w : Wire K} {fed : List Bytes} {r : Readers K} (h : Reads w fed r) :
    Reads w fed r.upstreamError.1 := by
  unfold Readers.upstreamError
  cases herrors : r.errors with
  | none => exact ⟨h.sniffer, h.collector, h.ledger, nofun, nofun⟩
  | some e => exact ⟨h.sniffer, h.collector, h.ledger, nofun, nofun⟩

end Readers

/-! ## What is claimed -/

namespace Pump

/-- An attempt begins as the first did: the client has heard comments only. -/
structure Untouched (c : StreamCtx K) (s : Pump K) : Prop where
  silent : ∀ p ∈ s.out, p = .keepAlive
  client : s.shaper.client = c.shaper.client
  shaping : s.shaper.shaping = c.shaper.shaping
  inspector : s.inspector = c.inspector
  lastFrame : s.lastFrame = .new c.client c.clientSse
  delivered : s.delivered = false
  passed : s.passed = []

/-- Comments, then what went out during `attempt`. -/
def Ordered (attempt : Nat) (out : List Piece) : Prop :=
  ∃ n answer, out = List.replicate n .keepAlive ++ answer ∧
    ∀ p ∈ answer, ∃ bytes, p = .answer attempt bytes

/-- What the client has of a stream, and what the tail reads. -/
structure OneAttempt (c : StreamCtx K) (s : Pump K) : Prop where
  ordered : Ordered s.opened s.out
  gemini : c.client = .gemini → .keepAlive ∉ s.out
  passed : s.passed.flatten <+: s.received.flatten
  /-- Only the two refusals leave something back. -/
  complete : ∀ ending, s.phase = .returned ending → ending ≠ .memoryBusy → ending ≠ .sealed →
    s.passed.flatten = s.received.flatten
  untold : (∀ ending, s.phase ≠ .returned ending) → s.outcomes = []
  told : ∀ ending, s.phase = .returned ending → ∃ outcome, s.outcomes = [outcome]
  readers : s.readers = .unset ∨ ∃ w, s.wire = some w ∧ s.readers.Reads w s.fed
  fed : s.fed <+: s.received

/-! ## The invariant -/

/-- The readers watch the attempt's stream, of which they have read `chunks`. -/
def Live (s : Pump K) (w : Wire K) (chunks : List Bytes) : Prop :=
  s.wire = some w ∧ s.fed = chunks ∧ s.readers = .after w chunks

/-- Of `chunks` all was passed on, or all is held back and nothing of it is content. -/
def Holding (c : StreamCtx K) (s : Pump K) (w : Wire K) (chunks : List Bytes)
    (speed : Option (SpeedWatch K)) : Prop :=
  match s.hold with
  | none => s.passed.flatten = chunks.flatten
  | some h => s.Untouched c ∧ h = ⟨readerAfter K w.dialect chunks, chunks.flatten⟩ ∧
      ∀ q, speed = some q → q.reader = h.reader ∧ q.first = false

/-- What is held while a retry is decided. -/
def Decides (s : Pump K) : Failed → Prop
  | .refused _ => s.received = []
  | .ended | .brokeOff _ _ => ∃ h, s.hold = some h ∧ h.held = s.received.flatten
  | .reported => (∃ h, s.hold = some h ∧ h.held = s.received.flatten) ∧
      ∃ w, s.Live w s.received

def At (c : StreamCtx K) (s : Pump K) : Phase → Prop
  | .unpolled | .waiting => s.Untouched c ∧ s.outcomes = []
  | .opening => s.Untouched c ∧ s.outcomes = [] ∧ s.received = []
  | .pulling => s.outcomes = [] ∧ ∃ w, s.Live w s.received ∧ s.Holding c w s.received s.speed
  | .reading chunk => s.outcomes = [] ∧ ∃ w before speed, s.received = before ++ [chunk] ∧
      s.speed = speed.map (·.feed chunk) ∧ s.Live w before ∧ s.Holding c w before speed
  | .admitting failed _ _ => s.outcomes = [] ∧ s.Untouched c ∧ s.Decides failed
  | .delivering chunk next => s.outcomes = [] ∧ s.hold = none ∧
      s.passed.flatten ++ chunk = s.received.flatten ∧ (next = .pull → ∃ w, s.Live w s.received)
  | .finishing | .failing _ _ => s.outcomes = [] ∧ s.passed.flatten = s.received.flatten
  | .returned ending => (∃ outcome, s.outcomes = [outcome]) ∧
      s.passed.flatten <+: s.received.flatten ∧
      (ending ≠ .memoryBusy → ending ≠ .sealed → s.passed.flatten = s.received.flatten)
  | .dropped => s.outcomes = [] ∧ s.passed.flatten <+: s.received.flatten

/-- What holds in every phase. -/
structure Base (c : StreamCtx K) (s : Pump K) : Prop where
  ordered : Ordered s.opened s.out
  gemini : keepsAlive c.client = false → .keepAlive ∉ s.out
  readers : s.readers = .unset ∨ ∃ w, s.wire = some w ∧ s.readers.Reads w s.fed
  fed : s.fed <+: s.received

def Inv (c : StreamCtx K) (s : Pump K) : Prop := s.Base c ∧ s.At c s.phase

/-- All of the stream so far was passed on, and the body has not ended. -/
structure Even (c : StreamCtx K) (s : Pump K) : Prop extends Base c s where
  untold : s.outcomes = []
  all : s.passed.flatten = s.received.flatten

/-! ## What goes out -/

theorem ordered_silent {attempt : Nat} {out : List Piece} (h : ∀ p ∈ out, p = .keepAlive) :
    Ordered attempt out :=
  ⟨out.length, [], by rw [List.append_nil]; exact List.eq_replicate_of_mem h, nofun⟩

theorem Ordered.answer {attempt : Nat} {out : List Piece} (h : Ordered attempt out)
    (bytes : Bytes) : Ordered attempt (out ++ [.answer attempt bytes]) := by
  obtain ⟨n, answer, rfl, hanswer⟩ := h
  refine ⟨n, answer ++ [.answer attempt bytes], List.append_assoc .., fun p hp => ?_⟩
  rcases List.mem_append.mp hp with hp | hp
  · exact hanswer p hp
  · exact ⟨bytes, List.mem_singleton.mp hp⟩

theorem Base.yield (h : s.Base c) (bytes : Bytes) : (s.yield bytes).Base c where
  ordered := h.ordered.answer bytes
  gemini := fun hclient hmem => by
    rcases List.mem_append.mp hmem with hmem | hmem
    · exact h.gemini hclient hmem
    · cases List.mem_singleton.mp hmem
  readers := h.readers
  fed := h.fed

/-- The last bytes, and the outcome. -/
theorem inv_stop (h : s.Base c) (houtcomes : s.outcomes = []) {ending : Ending}
    (hpassed : s.passed.flatten <+: s.received.flatten)
    (hall : ending ≠ .memoryBusy → ending ≠ .sealed → s.passed.flatten = s.received.flatten)
    (outcome : StreamOutcome) (bytes : Bytes) : (s.stop ending outcome bytes).Inv c := by
  have hbase := h.yield bytes
  refine ⟨⟨hbase.ordered, hbase.gemini, hbase.readers, hbase.fed⟩, ⟨outcome, ?_⟩, hpassed, hall⟩
  show s.outcomes ++ [outcome] = [outcome]
  rw [houtcomes]
  rfl

theorem Even.stop (h : s.Even c) (ending : Ending) (outcome : StreamOutcome) (bytes : Bytes) :
    (s.stop ending outcome bytes).Inv c :=
  inv_stop h.toBase h.untold (h.all ▸ List.prefix_rfl) (fun _ _ => h.all) outcome bytes

theorem Even.tells (h : s.Even c) (outcome : StreamOutcome) :
    ∃ o, s.outcomes ++ [outcome] = [o] := by
  rw [h.untold]
  exact ⟨outcome, rfl⟩

theorem Even.failure (h : s.Even c) (bytes : Bytes) : (s.failure bytes).1.Even c :=
  { h with }

/-- A comment, before anything of the answer. -/
theorem inv_tick (h : s.Inv c) (hphase : s.phase = .waiting ∨ s.phase = .opening ∨
      s.phase = .pulling ∧ s.hold.isSome) (hkeeps : keepsAlive c.client = true) :
    s.tick.Inv c := by
  obtain ⟨hbase, hat⟩ := h
  have hmore : s.Untouched c → s.tick.Untouched c := fun hu =>
    { hu with
      silent := fun p hp => by
        rcases List.mem_append.mp hp with hp | hp
        · exact hu.silent p hp
        · exact List.mem_singleton.mp hp }
  have hgemini : ¬ keepsAlive c.client = false := by
    rw [hkeeps]
    decide
  have hbase' : s.Untouched c → s.tick.Base c := fun hu =>
    ⟨ordered_silent (hmore hu).silent, fun hclient => absurd hclient hgemini, hbase.readers,
      hbase.fed⟩
  rcases hphase with hphase | hphase | ⟨hphase, hheld⟩
  · rw [hphase] at hat
    refine ⟨hbase' hat.1, ?_⟩
    show s.tick.At c s.phase
    rw [hphase]
    exact ⟨hmore hat.1, hat.2⟩
  · rw [hphase] at hat
    refine ⟨hbase' hat.1, ?_⟩
    show s.tick.At c s.phase
    rw [hphase]
    exact ⟨hmore hat.1, hat.2⟩
  · rw [hphase] at hat
    obtain ⟨houtcomes, w, hlive, hholding⟩ := hat
    obtain ⟨h, hh⟩ := Option.isSome_iff_exists.mp hheld
    unfold Holding at hholding
    rw [hh] at hholding
    obtain ⟨hu, heq, hspeed⟩ := hholding
    refine ⟨hbase' hu, ?_⟩
    show s.tick.At c s.phase
    rw [hphase]
    refine ⟨houtcomes, w, hlive, ?_⟩
    unfold Holding
    show match s.hold with | none => _ | some _ => _
    rw [hh]
    exact ⟨hmore hu, heq, hspeed⟩

/-! ## An attempt begins -/

theorem inv_goOut (h : s.Base c) (hu : s.Untouched c) (houtcomes : s.outcomes = []) :
    s.goOut.Inv c where
  left := ⟨ordered_silent hu.silent, h.gemini, .inl rfl, List.prefix_rfl⟩
  right := ⟨{ hu with passed := rfl }, houtcomes, rfl⟩

theorem Untouched.even (hu : s.Untouched c) (h : s.Base c) (houtcomes : s.outcomes = [])
    (hreceived : s.received = []) : s.Even c :=
  { h with untold := houtcomes, all := by rw [hu.passed, hreceived] }

theorem Even.refuse (h : s.Even c) (e : GatewayError) : (s.refuse c e).Inv c :=
  (h.failure _).stop ..

theorem inv_answered (h : s.Base c) (hu : s.Untouched c) (houtcomes : s.outcomes = [])
    (hreceived : s.received = []) (wire : Wire K) (now : Int) :
    (s.answered c wire now).Inv c := by
  have hfed : s.fed = [] := List.prefix_nil.mp (hreceived ▸ h.fed)
  have hu' : (s.answered c wire now).Untouched c := { hu with }
  refine ⟨⟨h.ordered, h.gemini, .inr ⟨wire, rfl, ?_⟩, h.fed⟩, houtcomes, wire, ⟨rfl, ?_, ?_⟩, ?_⟩
  · show Readers.Reads wire s.fed (.of wire)
    rw [hfed]
    exact (Readers.watches_of wire).reads
  · exact hfed.trans hreceived.symm
  · show Readers.of wire = .after wire s.received
    rw [hreceived]
    rfl
  · show Holding c _ wire s.received (c.minSpeed.map fun min => SpeedWatch.new min wire.dialect)
    rw [hreceived]
    unfold Holding
    show match (if s.budget.isOpen now then some (Opening.new wire.dialect) else none :
      Option (Opening K)) with | none => s.passed.flatten = _ | some _ => _
    split
    next =>
      show s.passed.flatten = _
      rw [hu.passed]
    next o hopen =>
      split at hopen
      next =>
        obtain rfl := Option.some.inj hopen
        refine ⟨hu', rfl, fun q hq => ?_⟩
        obtain ⟨min, -, rfl⟩ := Option.map_eq_some_iff.mp hq
        exact ⟨rfl, rfl⟩
      next => cases hopen

theorem inv_afterOpen (h : s.Inv c) (hphase : s.phase = .opening)
    (answer : Except GatewayError (Wire K)) (now : Int) (jitter : ℚ) :
    (s.afterOpen c answer now jitter).Inv c := by
  obtain ⟨hbase, hat⟩ := h
  rw [hphase] at hat
  obtain ⟨hu, houtcomes, hreceived⟩ := hat
  unfold afterOpen
  cases answer with
  | ok wire => exact inv_answered hbase hu houtcomes hreceived wire now
  | error e =>
    simp only
    split
    next wait _ => exact ⟨{ hbase with }, houtcomes, { hu with }, hreceived⟩
    next => exact (hu.even hbase houtcomes hreceived).refuse e

/-! ## The opening goes out -/

theorem inv_release (h : s.Base c) (houtcomes : s.outcomes = []) (hpassed : s.passed = [])
    (hheld : ∃ o, s.hold = some o ∧ o.held = s.received.flatten) (next : Next)
    (hlive : next = .pull → ∃ w, s.Live w s.received) : (s.release next).Inv c := by
  obtain ⟨o, ho, hall⟩ := hheld
  refine ⟨{ h with }, houtcomes, rfl, ?_, hlive⟩
  show s.passed.flatten ++ (s.hold.map Opening.held).getD [] = s.received.flatten
  rw [hpassed, ho, ← hall]
  rfl

theorem Even.finish (h : s.Even c) : (s.finish c).Inv c := by
  unfold Pump.finish
  simp only
  split
  next err safe _ =>
    refine Even.stop ?_ ..
    exact { h with }
  next =>
    have hreaders : s.readers.upstreamError.1 = .unset ∨
        ∃ w, s.wire = some w ∧ s.readers.upstreamError.1.Reads w s.fed := by
      rcases h.readers with hr | ⟨w, hw, hr⟩
      · left
        rw [hr]
        rfl
      · exact .inr ⟨w, hw, hr.upstreamError⟩
    split
    next =>
      exact ⟨⟨h.ordered, h.gemini, hreaders, h.fed⟩, h.tells _, h.all ▸ List.prefix_rfl,
        fun _ _ => h.all⟩
    next =>
      refine Even.stop ?_ ..
      exact ⟨⟨h.ordered, h.gemini, hreaders, h.fed⟩, h.untold, h.all⟩

theorem Even.fail (h : s.Even c) (message : String) (outcome : StreamOutcome) :
    (s.fail c message outcome).Inv c :=
  (h.failure _).stop ..

theorem inv_declined (h : s.Base c) (houtcomes : s.outcomes = []) (hu : s.Untouched c)
    {failed : Failed} (hdecides : s.Decides failed) : (s.declined c failed).Inv c := by
  cases failed with
  | refused e => exact (hu.even h houtcomes hdecides).refuse e
  | ended => exact inv_release h houtcomes hu.passed hdecides _ nofun
  | reported => exact inv_release h houtcomes hu.passed hdecides.1 _ fun _ => hdecides.2
  | brokeOff message outcome => exact inv_release h houtcomes hu.passed hdecides _ nofun

/-! ## The stream -/

theorem Holding.passed {w : Wire K} {chunks : List Bytes} {speed : Option (SpeedWatch K)}
    (h : s.Holding c w chunks speed) (hnone : s.hold = none) :
    s.passed.flatten = chunks.flatten := by
  unfold Holding at h
  rw [hnone] at h
  exact h

theorem Holding.held {w : Wire K} {chunks : List Bytes} {speed : Option (SpeedWatch K)}
    {o : Opening K} (h : s.Holding c w chunks speed) (ho : s.hold = some o) :
    s.Untouched c ∧ o = ⟨readerAfter K w.dialect chunks, chunks.flatten⟩ ∧
      ∀ q, speed = some q → q.reader = o.reader ∧ q.first = false := by
  unfold Holding at h
  rw [ho] at h
  exact h

theorem Holding.congr {w : Wire K} {chunks : List Bytes} {speed : Option (SpeedWatch K)}
    (h : s.Holding c w chunks speed) (hhold : s'.hold = s.hold) (hpassed : s'.passed = s.passed)
    (hu : s.Untouched c → s'.Untouched c) : s'.Holding c w chunks speed := by
  unfold Holding
  rw [hhold, hpassed]
  split
  next hnone => exact h.passed hnone
  next o ho => exact ⟨hu (h.held ho).1, (h.held ho).2⟩

theorem Holding.isPrefix {w : Wire K} {chunks : List Bytes} {speed : Option (SpeedWatch K)}
    (h : s.Holding c w chunks speed) : s.passed.flatten <+: chunks.flatten := by
  cases hhold : s.hold with
  | none => exact h.passed hhold ▸ List.prefix_rfl
  | some o =>
    rw [(h.held hhold).1.passed]
    exact List.nil_prefix

theorem Holding.isPrefix_concat {w : Wire K} {chunks : List Bytes} {speed : Option (SpeedWatch K)}
    (h : s.Holding c w chunks speed) (chunk : Bytes) :
    s.passed.flatten <+: (chunks ++ [chunk]).flatten := by
  rw [List.flatten_append]
  exact h.isPrefix.trans (List.prefix_append ..)

theorem Live.reads {w : Wire K} {chunks : List Bytes} (h : s.Live w chunks) :
    s.readers.Watches w s.fed := by
  obtain ⟨-, hfed, hreaders⟩ := h
  rw [hfed, hreaders]
  exact Readers.watches_after w chunks

theorem inv_streamEnded (h : s.Inv c) (hphase : s.phase = .pulling) (now : Int) (jitter : ℚ) :
    (s.streamEnded c now jitter).Inv c := by
  obtain ⟨hbase, hat⟩ := h
  rw [hphase] at hat
  obtain ⟨houtcomes, w, hlive, hholding⟩ := hat
  unfold streamEnded
  split
  next hnone => exact Even.finish ⟨hbase, houtcomes, hholding.passed hnone⟩
  next o ho =>
    obtain ⟨hu, rfl, -⟩ := hholding.held ho
    have hreaders : (s.readers.reported true).1.Reads w s.fed := hlive.reads.reported true
    have hbase' : Base c { s with readers := (s.readers.reported true).1 } :=
      ⟨hbase.ordered, hbase.gemini, .inr ⟨w, hlive.1, hreaders⟩, hbase.fed⟩
    simp only
    split
    next wait _ => exact ⟨{ hbase' with }, houtcomes, { hu with }, _, ho, rfl⟩
    next => exact inv_release hbase' houtcomes hu.passed ⟨_, ho, rfl⟩ _ nofun

theorem inv_broke (h : s.Inv c) (hphase : s.phase = .pulling) (message : String)
    (outcome : StreamOutcome) (now : Int) (jitter : ℚ) :
    (s.broke c message outcome now jitter).Inv c := by
  obtain ⟨hbase, hat⟩ := h
  rw [hphase] at hat
  obtain ⟨houtcomes, w, hlive, hholding⟩ := hat
  unfold broke
  split
  next hnone => exact Even.fail ⟨hbase, houtcomes, hholding.passed hnone⟩ message outcome
  next o ho =>
    obtain ⟨hu, rfl, -⟩ := hholding.held ho
    simp only
    split
    next wait _ => exact ⟨{ hbase with }, houtcomes, { hu with }, _, ho, rfl⟩
    next => exact inv_release hbase houtcomes hu.passed ⟨_, ho, rfl⟩ _ nofun

/-- A piece of the stream is pulled. -/
theorem inv_receive (hbase : s.Base c) (houtcomes : s.outcomes = []) {w : Wire K}
    (hlive : s.Live w s.received) (hholding : s.Holding c w s.received s.speed) (chunk : Bytes)
    (room : Bool) : (s.receive c chunk room).Inv c := by
  obtain ⟨hwire, hfed, hreaders⟩ := hlive
  have hfed' : s.fed <+: s.received ++ [chunk] := hbase.fed.trans (List.prefix_append ..)
  unfold receive
  cases room with
  | true =>
    exact ⟨{ hbase with fed := hfed' }, houtcomes, w, s.received, s.speed, rfl, rfl,
      ⟨hwire, hfed, hreaders⟩, hholding.congr rfl rfl fun hu => { hu with }⟩
  | false =>
    refine inv_stop ?_ ?_ ?_ (fun hne => absurd rfl hne) _ _
    · exact { hbase with fed := hfed' }
    · exact houtcomes
    · exact hholding.isPrefix_concat chunk

theorem inv_pull (h : s.Inv c) (hphase : s.phase = .pulling)
    (item : Option (Except String Bytes)) (room : Bool) (now : Int) (jitter : ℚ) :
    (s.pull c item room now jitter).Inv c := by
  unfold pull
  split
  next => exact inv_streamEnded h hphase now jitter
  next e => exact inv_broke h hphase _ _ now jitter
  next raw =>
    obtain ⟨hbase, hat⟩ := id h
    rw [hphase] at hat
    obtain ⟨houtcomes, w, hlive, hholding⟩ := hat
    split
    next => exact inv_receive hbase houtcomes hlive hholding raw room
    next t _ =>
      split
      next t' chunk _ =>
        refine inv_receive (w := w) ?_ ?_ ?_ ?_ chunk room
        · exact { hbase with }
        · exact houtcomes
        · exact hlive
        · exact hholding.congr rfl rfl fun hu => { hu with }
      next e _ => exact inv_broke h hphase _ _ now jitter

/-- What an opening that is still held back has read is no content, unless it has said an error. -/
theorem opening_feed {d : Dialect} {chunks : List Bytes} {chunk : Bytes} {held : Bytes}
    (hsaid : ErrorsSaid K)
    (hfeed : ((⟨readerAfter K d chunks, held⟩ : Opening K).feed chunk).2 = false)
    (hsilent : ∀ f ∈ (framesIn K (chunks ++ [chunk])).2, K.saidIn d f = none) :
    ∀ e ∈ (K.readEvents (readerAfter K d chunks) chunk).2, e.generates = false := by
  intro e he
  by_contra hgenerates
  have hnone : ∀ e ∈ (K.readEvents (readerAfter K d chunks) chunk).2, e.isError = false := by
    intro e' he'
    by_contra herror
    obtain ⟨f, hf, hsome⟩ := hsaid d chunks chunk
      ⟨e', he', Bool.eq_true_of_not_eq_false herror⟩
      ⟨e, he, Bool.eq_true_of_not_eq_false hgenerates⟩
    rw [hsilent f hf] at hsome
    cases hsome
  simp only [Opening.feed, Bool.or_eq_false_iff] at hfeed
  rw [List.takeWhile_eq_self_iff.mpr fun e he => by rw [hnone e he]; rfl] at hfeed
  have hopening := List.any_eq_false.mp hfeed.1 e he
  rw [Bool.not_eq_true', Bool.not_eq_false] at hopening
  exact hgenerates (Event.generates_of_isOpening hopening)

/-- The readers read the piece; it goes out, is held back, or fails the attempt. -/
theorem inv_read (hsaid : ErrorsSaid K) {chunk : Bytes} (h : s.Inv c)
    (hphase : s.phase = .reading chunk) (now : Int) (jitter : ℚ) :
    (s.read c chunk now jitter).Inv c := by
  obtain ⟨hbase, hat⟩ := h
  rw [hphase] at hat
  obtain ⟨houtcomes, w, before, speed, hreceived, hspeed, hlive, hholding⟩ := hat
  obtain ⟨hwire, hfed, hreaders⟩ := hlive
  have hfed' : s.fed ++ [chunk] = s.received := by rw [hfed, hreceived]
  have hreaders' : s.readers.feed chunk = .after w s.received := by
    rw [hreaders, hreceived, Readers.after_concat]
  have hwatches : (s.readers.feed chunk).Watches w (s.fed ++ [chunk]) := by
    rw [hreaders', hfed']
    exact Readers.watches_after w s.received
  have hbase' : Base c { s with readers := s.readers.feed chunk, fed := s.fed ++ [chunk] } :=
    ⟨hbase.ordered, hbase.gemini, .inr ⟨w, hwire, hwatches.reads⟩, hfed' ▸ List.prefix_rfl⟩
  have hpassed : s.passed.flatten <+: s.received.flatten := by
    rw [hreceived]
    exact hholding.isPrefix_concat chunk
  have hall : before.flatten ++ chunk = s.received.flatten := by
    rw [hreceived, List.flatten_append, List.flatten_singleton]
  unfold read
  simp only
  split
  next said _ => exact inv_stop hbase' houtcomes hpassed (fun _ hne => absurd rfl hne) _ _
  next =>
    split
    next hnone =>
      refine ⟨{ hbase' with }, houtcomes, hnone, ?_, fun _ => ⟨w, hwire, hfed', hreaders'⟩⟩
      show s.passed.flatten ++ chunk = s.received.flatten
      rw [hholding.passed hnone, hall]
    next o ho =>
      obtain ⟨hu, rfl, hq⟩ := hholding.held ho
      -- the opening with the piece, held on
      have hheld : ((⟨readerAfter K w.dialect before, before.flatten⟩ : Opening K).feed chunk).1 =
          ⟨readerAfter K w.dialect s.received, s.received.flatten⟩ := by
        rw [hreceived, readerAfter_concat, List.flatten_append, List.flatten_singleton]
        rfl
      have hout : ∀ next, Inv c (Pump.release { s with
          readers := s.readers.feed chunk
          fed := s.fed ++ [chunk]
          hold := some
            ((⟨readerAfter K w.dialect before, before.flatten⟩ : Opening K).feed chunk).1 }
          next) := by
        intro next
        refine inv_release ?_ ?_ ?_ ?_ next fun _ => ⟨w, ?_⟩
        · exact { hbase' with }
        · exact houtcomes
        · exact hu.passed
        · exact ⟨_, rfl, congrArg Opening.held hheld⟩
        · exact ⟨hwire, hfed', hreaders'⟩
      split
      next => exact hout .pull
      next hnot =>
        split
        next hsilent =>
          have hgenerates := opening_feed hsaid (Bool.eq_false_of_not_eq_true hnot) fun f hf => by
            rw [hfed] at hwatches
            exact (hwatches.silent hsilent).2 f hf
          refine ⟨{ hbase' with }, houtcomes, w, ⟨hwire, hfed', hreaders'⟩, ?_⟩
          unfold Holding
          refine ⟨{ hu with }, hheld, fun q hq' => ?_⟩
          have hq'' : speed.map (·.feed chunk) = some q := hspeed.symm.trans hq'
          obtain ⟨q₀, hq₀, rfl⟩ := Option.map_eq_some_iff.mp hq''
          obtain ⟨hreader, hfirst⟩ := hq q₀ hq₀
          refine ⟨?_, ?_⟩
          · show (K.readEvents q₀.reader chunk).1 = _
            rw [hreader]
            rfl
          · show (q₀.first || (K.readEvents q₀.reader chunk).2.any Event.generates) = false
            rw [hfirst, hreader, Bool.false_or, List.any_eq_false]
            intro e he
            rw [hgenerates e he]
            decide
        next said _ =>
          split
          next wait _ =>
            exact ⟨{ hbase' with }, houtcomes, { hu with },
              ⟨_, rfl, congrArg Opening.held hheld⟩, w, hwire, hfed', hreaders'⟩
          next => exact hout .pull

/-- A piece goes out. -/
theorem inv_deliver {chunk : Bytes} {next : Next} (h : s.Inv c)
    (hphase : s.phase = .delivering chunk next) : (s.deliver c chunk next).Inv c := by
  obtain ⟨hbase, hat⟩ := h
  rw [hphase] at hat
  obtain ⟨houtcomes, hhold, hrest, hlive⟩ := hat
  have hall : (s.passed ++ [chunk]).flatten = s.received.flatten := by
    rw [List.flatten_append, List.flatten_singleton, hrest]
  unfold deliver
  simp only
  split
  next err safe _ =>
    refine Even.stop ?_ ..
    exact ⟨{ hbase with }, houtcomes, hall⟩
  next =>
    split
    next =>
      cases next with
      | pull =>
        obtain ⟨w, hlive⟩ := hlive rfl
        refine ⟨{ hbase with }, houtcomes, w, hlive, ?_⟩
        unfold Holding
        simp only [goOn, hhold]
        exact hall
      | finish => exact Even.finish ⟨{ hbase with }, houtcomes, hall⟩
      | fail message outcome =>
        refine Even.fail ?_ message outcome
        exact ⟨{ hbase with }, houtcomes, hall⟩
    next =>
      cases next with
      | pull =>
        obtain ⟨w, hlive⟩ := hlive rfl
        refine ⟨{ hbase.yield _ with }, houtcomes, w, hlive, ?_⟩
        unfold Holding
        simp only [yield, hhold]
        exact hall
      | finish => exact ⟨{ hbase.yield _ with }, houtcomes, hall⟩
      | fail message outcome => exact ⟨{ hbase.yield _ with }, houtcomes, hall⟩

/-- Only a stream whose opening went out is cut for its speed. -/
theorem inv_cutSlow (h : s.Inv c) (hphase : s.phase = .pulling) {q : SpeedWatch K}
    (hspeed : s.speed = some q) (hstarted : q.started = true) (rate : Nat) :
    (s.cutSlow c q.min rate).Inv c := by
  obtain ⟨hbase, hat⟩ := h
  rw [hphase] at hat
  obtain ⟨houtcomes, w, hlive, hholding⟩ := hat
  have hnone : s.hold = none := by
    cases hhold : s.hold with
    | none => rfl
    | some o =>
      have hfirst := ((hholding.held hhold).2.2 q hspeed).2
      rw [SpeedWatch.started, hfirst, Bool.false_and] at hstarted
      cases hstarted
  refine Even.stop ?_ ..
  exact ⟨{ hbase with }, houtcomes, hholding.passed hnone⟩

theorem inv_start (c : StreamCtx K) : (start c).Inv c :=
  ⟨⟨ordered_silent nofun, nofun, .inl rfl, List.prefix_rfl⟩,
    ⟨nofun, rfl, rfl, rfl, rfl, rfl, rfl⟩, rfl⟩

/-- What the client has is a prefix of what it may yet get. -/
theorem Inv.passed (h : s.Inv c) : s.passed.flatten <+: s.received.flatten := by
  obtain ⟨-, hat⟩ := h
  cases hphase : s.phase with
  | unpolled | waiting =>
    rw [hphase] at hat
    rw [hat.1.passed]
    exact List.nil_prefix
  | opening =>
    rw [hphase] at hat
    rw [hat.1.passed]
    exact List.nil_prefix
  | pulling =>
    rw [hphase] at hat
    obtain ⟨-, w, -, hholding⟩ := hat
    exact hholding.isPrefix
  | reading chunk =>
    rw [hphase] at hat
    obtain ⟨-, w, before, speed, hreceived, -, -, hholding⟩ := hat
    rw [hreceived]
    exact hholding.isPrefix_concat chunk
  | admitting failed wait stage =>
    rw [hphase] at hat
    rw [hat.2.1.passed]
    exact List.nil_prefix
  | delivering chunk next =>
    rw [hphase] at hat
    exact hat.2.2.1 ▸ List.prefix_append ..
  | finishing =>
    rw [hphase] at hat
    exact hat.2 ▸ List.prefix_rfl
  | failing message outcome =>
    rw [hphase] at hat
    exact hat.2 ▸ List.prefix_rfl
  | returned ending =>
    rw [hphase] at hat
    exact hat.2.1
  | dropped =>
    rw [hphase] at hat
    exact hat.2

/-- No outcome is told before the body ends. -/
theorem Inv.untold (h : s.Inv c) (hunder : ∀ ending, s.phase ≠ .returned ending) :
    s.outcomes = [] := by
  obtain ⟨-, hat⟩ := h
  cases hphase : s.phase with
  | unpolled | waiting =>
    rw [hphase] at hat
    exact hat.2
  | opening =>
    rw [hphase] at hat
    exact hat.2.1
  | pulling | reading _ | admitting _ _ _ | delivering _ _ | finishing | failing _ _ | dropped =>
    rw [hphase] at hat
    exact hat.1
  | returned ending => exact absurd hphase (hunder ending)

theorem Inv.oneAttempt (h : s.Inv c) : s.OneAttempt c where
  ordered := h.1.ordered
  gemini := fun hclient => h.1.gemini (by rw [hclient]; rfl)
  passed := h.passed
  complete := fun ending hphase => by
    have hat := h.2
    rw [hphase] at hat
    exact hat.2.2
  untold := h.untold
  told := fun ending hphase => by
    have hat := h.2
    rw [hphase] at hat
    exact hat.1
  readers := h.1.readers
  fed := h.1.fed

theorem inv_step (hsaid : ErrorsSaid K) (h : s.Inv c) (hstep : Step c s a s') : s'.Inv c := by
  cases hstep with
  | poll at_ =>
    obtain ⟨hbase, hat⟩ := h
    rw [at_] at hat
    exact inv_goOut hbase hat.1 hat.2
  | wake at_ =>
    obtain ⟨hbase, hat⟩ := h
    rw [at_] at hat
    exact inv_goOut hbase hat.1 hat.2
  | tickWaiting at_ keeps => exact inv_tick h (.inl at_) keeps
  | tickOpening at_ _ keeps => exact inv_tick h (.inr (.inl at_)) keeps
  | tickPulling at_ held keeps => exact inv_tick h (.inr (.inr ⟨at_, held⟩)) keeps
  | opened at_ => exact inv_afterOpen h at_ ..
  | pull at_ => exact inv_pull h at_ ..
  | fast => exact h
  | slow at_ speed started => exact inv_cutSlow h at_ speed started _
  | read at_ => exact inv_read hsaid h at_ ..
  | deliver at_ => exact inv_deliver h at_
  | finish at_ =>
    obtain ⟨hbase, hat⟩ := h
    rw [at_] at hat
    exact Even.finish ⟨hbase, hat.1, hat.2⟩
  | fail at_ =>
    obtain ⟨hbase, hat⟩ := h
    rw [at_] at hat
    exact Even.fail ⟨hbase, hat.1, hat.2⟩ ..
  | shut at_ _ =>
    obtain ⟨hbase, hat⟩ := h
    rw [at_] at hat
    exact inv_declined hbase hat.1 hat.2.1 hat.2.2
  | capped at_ _ =>
    obtain ⟨hbase, hat⟩ := h
    rw [at_] at hat
    exact inv_declined hbase hat.1 hat.2.1 hat.2.2
  | snapshot at_ _ =>
    obtain ⟨hbase, hat⟩ := h
    rw [at_] at hat
    exact ⟨{ hbase with }, hat.1, { hat.2.1 with }, hat.2.2⟩
  | admitted at_ =>
    obtain ⟨hbase, hat⟩ := h
    rw [at_] at hat
    exact ⟨{ hbase with }, hat.1, { hat.2.1 with }, hat.2.2⟩
  | record at_ =>
    obtain ⟨hbase, hat⟩ := h
    rw [at_] at hat
    exact ⟨{ hbase with }, hat.1, { hat.2.1 with }, hat.2.2⟩
  | recorded at_ =>
    obtain ⟨hbase, hat⟩ := h
    rw [at_] at hat
    exact ⟨⟨hbase.ordered, hbase.gemini, .inl rfl, hbase.fed⟩, { hat.2.1 with }, hat.1⟩
  | drop under held => exact ⟨{ h.1 with }, h.untold under, h.passed⟩
  | tail ended _ =>
    obtain ⟨hbase, hat⟩ := h
    refine ⟨{ hbase with }, ?_⟩
    show At c _ s.phase
    rcases ended with ⟨ending, hphase⟩ | hphase
    · rw [hphase] at hat ⊢
      exact hat
    · rw [hphase] at hat ⊢
      exact hat

/-- An attempt begins with nothing of another one out. -/
theorem Inv.untouched (h : s.Inv c) (hstep : Step c s a s') (hbegins : s.opened < s'.opened) :
    s.Untouched c := by
  cases step_effect hstep with
  | begins at_ =>
    have hat := h.2
    rcases at_ with hphase | hphase
    · rw [hphase] at hat
      exact hat.1
    · rw [hphase] at hat
      exact hat.1
  | proceeds _ _ hproceeds => exact absurd hproceeds.opened hbegins.ne'
  | tick | record | recorded | drop | tail => exact absurd hbegins (lt_irrefl _)

/-! ## What the client receives -/

/--
Whatever the upstream answers, whenever it fails and however the speed is judged: an attempt begins
only while the client has heard comments at most, and in every state what the client has received
came of the last one.
-/
theorem one_attempt_delivered (hsaid : ErrorsSaid K) (c : StreamCtx K)
    (hrun : Steps (Step c) (start c) as t) :
    Steps (fun s a s' => ((s.opened < s'.opened → s.Untouched c) ∧ s'.OneAttempt c) ∧
      Step c s a s') (start c) as t := by
  refine hrun.under (I := Inv c) (fun s a s' hinv hstep => ?_) (inv_start c)
  have hinv' := inv_step hsaid hinv hstep
  exact ⟨hinv', ⟨hinv.untouched hstep, hinv'.oneAttempt⟩, hstep⟩

/-!
## A Chat stream over SSE

The frames of an upstream whose errors and content have one form, passed on as they are.
-/

namespace ChatSse

def ascii (s : String) : Bytes := s.toList.map fun c => UInt8.ofNat c.toNat

/-- A blank line ends a frame. -/
def endsFrame (collected : Bytes) : Bool := [0x0A, 0x0A].isSuffixOf collected

/-- The data of a frame of one line; a comment has none. -/
def data (frame : Bytes) : Option (List Char) :=
  let line := frame.map fun b => Char.ofNat b.toNat
  if "data: ".toList <+: line then
    (Lib.cut ['\n', '\n'] (line.drop 6)).map Prod.fst
  else none

/-- The text that follows `opening` up to its quote, and the rest. -/
def quoted (opening : String) (data : List Char) : Option (List Char × List Char) :=
  if opening.toList <+: data then Lib.cut ['"'] (data.drop opening.length) else none

def code (rest : List Char) : Option Nat :=
  (Lib.cut "\"code\":".toList rest).map fun r =>
    (r.2.takeWhile Char.isDigit).foldl (fun n d => 10 * n + (d.toNat - '0'.toNat)) 0

def said (data : List Char) : Option Said :=
  (quoted "\x7b\"error\":\x7b\"message\":\"" data).map fun r =>
    ⟨String.ofList r.1, code r.2, false⟩

def isDone (data : List Char) : Bool := data = "[DONE]".toList

def events (data : List Char) : List Event :=
  if (said data).isSome then [.error]
  else if isDone data then [.stop]
  else match quoted "\x7b\"choices\":[\x7b\"delta\":\x7b\"content\":\"" data with
    | some (text, _) => [.delta (.text (String.ofList text))]
    | none => []

theorem isSome_said_of_isError {data : List Char} {e : Event} (he : e ∈ events data)
    (herror : e.isError = true) : (said data).isSome := by
  unfold events at he
  split at he
  next h => exact h
  next =>
    split at he
    next =>
      rw [List.mem_singleton.mp he] at herror
      cases herror
    next =>
      split at he
      next =>
        rw [List.mem_singleton.mp he] at herror
        cases herror
      next => cases he

def decode (collected chunk : Bytes) : Bytes × List (List Char) :=
  let r := frames endsFrame collected chunk
  (r.2, r.1.filterMap data)

end ChatSse

def chatSse : Codec where
  Frame := List Char
  Decoder := Bytes
  decoder := []
  decode := ChatSse.decode
  flush collected := ([], (ChatSse.data (collected ++ [0x0A, 0x0A])).toList)
  endsAnswer _ := ChatSse.isDone
  saidIn _ := ChatSse.said
  Reader := Bytes
  reader _ := []
  readEvents collected chunk :=
    let r := ChatSse.decode collected chunk
    (r.1, r.2.flatMap ChatSse.events)
  Sniffer := Unit
  sniffer := ()
  sniff _ _ := ()
  Collect := Unit
  Collector := Bytes
  collector _ := []
  collect body chunk := body ++ chunk
  Conversion := Unit
  Converter := Unit
  stream _ := ()
  convert _ chunk := ((), chunk)
  finishConverter _ := ((), [])
  failConverter _ _ := ((), [])
  Transcoder := Unit
  transcoder := ()
  unframe _ raw := .ok ((), raw)
  streamErrorText _ := ""
  Ledger := Unit
  Restorer := Unit
  restorer _ _ := none
  Shaping := Unit
  shape _ r chunk := ((), r, chunk)
  finishShaping _ r := ((), r, [])
  rename _ sse := sse
  Inspector := Unit
  check _ _ := ((), none)
  finishInspection _ := ((), none)
  errorFrame _ status message := ChatSse.ascii
    s!"data: \x7b\"error\":\x7b\"message\":\"{message}\",\"code\":{status}\x7d\x7d\n\n"

/-- The reader and the error watch have collected the same. -/
theorem readerAfter_chatSse (d : Dialect) (chunks : List Bytes) :
    readerAfter chatSse d chunks = (framesIn chatSse chunks).1 := by
  induction chunks using List.reverseRecOn with
  | nil => rfl
  | append_singleton chunks chunk ih =>
    rw [readerAfter_concat, framesIn_concat, ih]
    rfl

theorem errorsSaid_chatSse : ErrorsSaid chatSse := by
  rintro d chunks chunk ⟨e, he, herror⟩ -
  rw [readerAfter_chatSse] at he
  obtain ⟨frame, hframe, he⟩ := List.mem_flatMap.mp he
  refine ⟨frame, ?_, ChatSse.isSome_said_of_isError he herror⟩
  rw [framesIn_concat]
  exact List.mem_append_right _ hframe

/-- A Chat client, and a minute for sending again. -/
def chatStream : StreamCtx chatSse where
  client := .chat
  clientSse := true
  provider := "openai-eu"
  minSpeed := some ⟨5, 10⟩
  pinnedOnly := false
  budget := .new 0 60000
  shaper := ⟨.chat, (), none⟩
  inspector := none

def overloaded : GatewayError := .providerHttpError 503 "overloaded" (some 1000)

/-- An error, which is the first frame of an answer. -/
def busyFrame : Bytes :=
  [100, 97, 116, 97, 58, 32, 123, 34, 101, 114, 114, 111, 114, 34, 58, 123, 34, 109, 101, 115,
   115, 97, 103, 101, 34, 58, 34, 98, 117, 115, 121, 34, 44, 34, 99, 111, 100, 101, 34, 58, 53,
   48, 51, 125, 125, 10, 10]

example : busyFrame =
    ChatSse.ascii "data: \x7b\"error\":\x7b\"message\":\"busy\",\"code\":503\x7d\x7d\n\n" := by
  decide +kernel

/-- The frame of an answer up to its text's first letter, and the rest with the end of the answer. -/
def hiPieces : Bytes × Bytes :=
  ([100, 97, 116, 97, 58, 32, 123, 34, 99, 104, 111, 105, 99, 101, 115, 34, 58, 91, 123, 34, 100,
    101, 108, 116, 97, 34, 58, 123, 34, 99, 111, 110, 116, 101, 110, 116, 34, 58, 34, 72],
   [105, 34, 125, 125, 93, 125, 10, 10, 100, 97, 116, 97, 58, 32, 91, 68, 79, 78, 69, 93, 10, 10])

example : hiPieces =
    (ChatSse.ascii "data: \x7b\"choices\":[\x7b\"delta\":\x7b\"content\":\"H",
      ChatSse.ascii "i\"\x7d\x7d]\x7d\n\ndata: [DONE]\n\n") := by
  decide +kernel

/-- `Resend::admit` lets the attempt go out again. -/
def admitted : List (Action chatSse) :=
  [.snapshot .closed, .caps (.ok .admitted), .record, .recorded, .tick, .wake]

/--
An attempt that is refused for the moment, one that reports an error in its stream, and one that
answers.
-/
def resent : List (Action chatSse) :=
  [.poll, .opened (.error overloaded) 0 1] ++ admitted ++
    [.opened (.ok ⟨.chat, none, (), ()⟩) 2000 1, .pull (some (.ok busyFrame)) true 2100 1,
      .read 2100 1] ++ admitted ++
    [.opened (.ok ⟨.chat, none, (), ()⟩) 7000 1, .pull (some (.ok hiPieces.1)) true 7100 1,
      .read 7100 1, .pull (some (.ok hiPieces.2)) true 7200 1, .read 7200 1, .deliver,
      .pull none true 7300 1]

theorem one_attempt_delivered_resent :
    ∃ t, Steps (fun s a s' => ((s.opened < s'.opened → s.Untouched chatStream) ∧
        s'.OneAttempt chatStream) ∧ Step chatStream s a s') (start chatStream) resent t ∧
      t.out = [.keepAlive, .keepAlive, .answer 3 (hiPieces.1 ++ hiPieces.2)] :=
  ⟨_, one_attempt_delivered errorsSaid_chatSse chatStream <|
    .cons (.poll rfl) <| .cons (.opened rfl) <| .cons (.snapshot rfl nofun) <|
    .cons (.admitted rfl) <| .cons (.record rfl) <| .cons (.recorded rfl) <|
    .cons (.tickWaiting rfl rfl) <| .cons (.wake rfl) <| .cons (.opened rfl) <|
    .cons (.pull rfl) <| .cons (.read rfl) <|
    -- the error in the frame may be sent again, after the second wait
    .cons (@Step.snapshot _ _ _ .reported 4000 _ (by decide +kernel) nofun) <|
    .cons (@Step.admitted _ _ _ .reported 4000 rfl) <| .cons (.record rfl) <|
    .cons (.recorded rfl) <| .cons (.tickWaiting rfl rfl) <| .cons (.wake rfl) <|
    .cons (.opened rfl) <| .cons (.pull rfl) <| .cons (.read rfl) <|
    -- half a frame is held back, and goes out with the other half
    .cons (.pull (by decide +kernel)) <|
    .cons (@Step.read _ _ _ hiPieces.2 _ _ (by decide +kernel)) <|
    .cons (@Step.deliver _ _ _ (hiPieces.1 ++ hiPieces.2) .pull (by decide +kernel)) <|
    .single (.pull (by decide +kernel)), by decide +kernel⟩

end Pump

end ThinkWatch.Gateway.Stream
