import ThinkWatch.Mcp.Sse

/-!
# A stream that breaks

What `build_passthrough_body` hands on when it stops before the end of its source: at an error of
the transport, at a chunk past the cap, and at a chunk the memory budget refuses. The flush after
the loop is there for an upstream that leaves out the last blank line. Only the refusal clears the
text it reads, so after the other two it hands on what has arrived of an event as if it were whole,
and does so after the outcome is told.
-/

namespace ThinkWatch.Mcp

open Lib Policy ThinkWatch.Gateway

variable {chunks : List (List UInt8)} {last : Incoming} {source : List Incoming}
  {textBuf : List Char} {es fs gs : List Emitted} {requestId : Option Json}
  {parse : String → Option Json} {outcome : StreamOutcome}

/-! ## How the body stops early -/

/-- The body stops at what the source gives, with `textBuf` before it. -/
def Breaks (textBuf : List Char) : Incoming → Prop
  | .failed _ => True
  | .chunk bytes admitted =>
    admitted = false ∨ maxSseEventBytes < textBytes textBuf + bytes.length

/-- The outcome it tells. -/
def Incoming.breakOutcome : Incoming → StreamOutcome
  | .failed message => brokenOutcome message
  | .chunk _ admitted => if admitted then overflowOutcome else refusedOutcome

def Incoming.isRefused : Incoming → Bool
  | .failed _ => false
  | .chunk _ admitted => !admitted

/-- The body comes to the end of its source, or stops at what the source gives after some chunks. -/
theorem source_cases (hb : drainBlocks textBuf = ([], textBuf)) (source : List Incoming) :
    (∃ chunks, Fits textBuf chunks ∧ source = arrived chunks) ∨
    ∃ chunks last rest, Fits textBuf chunks ∧
      Breaks (drainBlocks (textBuf ++ received chunks)).2 last ∧
      source = arrived chunks ++ last :: rest := by
  induction source generalizing textBuf with
  | nil => exact .inl ⟨[], trivial, rfl⟩
  | cons last source ih =>
    by_cases hlast : Breaks textBuf last
    · refine .inr ⟨[], last, source, trivial, ?_, rfl⟩
      rwa [received, List.flatMap_nil, List.append_nil, hb]
    · cases last with
      | failed message => exact absurd trivial hlast
      | chunk bytes admitted =>
        obtain ⟨hadm, hcap⟩ := not_or.mp hlast
        obtain rfl := Bool.eq_true_of_not_eq_false hadm
        rcases ih (drainBlocks_rest (textBuf ++ Utf8.decode bytes)) with
          ⟨chunks, hfit, rfl⟩ | ⟨chunks, last, rest, hfit, hbreaks, rfl⟩
        · exact .inl ⟨bytes :: chunks, ⟨Nat.not_lt.mp hcap, hfit⟩, rfl⟩
        · refine .inr ⟨bytes :: chunks, last, rest, ⟨Nat.not_lt.mp hcap, hfit⟩, ?_, rfl⟩
          rwa [drainBlocks_received]

/-- The data of the blocks that the upstream ended. -/
def endedPayloads (chunks : List (List UInt8)) : List String :=
  (drainBlocks (received chunks)).1.filterMap blockPayload

/-- What has arrived after the last block that ended. -/
def remainder (chunks : List (List UInt8)) : List Char := (drainBlocks (received chunks)).2

/-- The tail finds the events that have been yielded, wherever the consumer stops. -/
def CapturesYielded (parse : String → Option Json) (body : List Emitted) : Prop :=
  ∀ es outcome events, es <+: body → Finds parse es outcome events → events = captured parse es

/-- One outcome is told and no event follows it, but for the text that is left unless the budget has
refused the chunk. -/
theorem loop_breaks (requestId : Option Json) (h : Breaks textBuf last) (source : List Incoming) :
    ∃ fs, passthroughLoop requestId textBuf true (last :: source) = .told last.breakOutcome :: fs ∧
      outcomes fs = [] ∧
      payloads fs =
        if last.isRefused then [] else (blockPayload (trimEndNewlines textBuf)).toList := by
  have hflush : ∀ text, flush text false = blockEvents [trimEndNewlines text] :=
    fun text => (flush_eq text false).trans (List.append_nil _)
  cases last with
  | failed message =>
    refine ⟨flush textBuf false, rfl, ?_, ?_⟩
    · rw [hflush, outcomes_blockEvents]
    · rw [hflush, payloads_blockEvents]
      rfl
  | chunk bytes admitted =>
    rw [passthroughLoop]
    cases admitted with
    | false => exact ⟨_, rfl, rfl, rfl⟩
    | true =>
      have hcap := h.resolve_left (by simp)
      rw [if_neg (by simp), if_pos hcap]
      refine ⟨flush textBuf false, rfl, ?_, ?_⟩
      · rw [hflush, outcomes_blockEvents]
      · rw [hflush, payloads_blockEvents]
        rfl

/-! ## What is found -/

theorem outcomes_told : outcomes (.told outcome :: es) = outcome :: outcomes es := rfl

theorem payloads_told : payloads (.told outcome :: es) = payloads es := rfl

/-- What has been done up to the outcome is there when the outcome is. -/
theorem told_isPrefix (hes : outcomes es = []) (h : gs <+: es ++ .told outcome :: fs)
    (hne : outcomes gs ≠ []) : es ++ [.told outcome] <+: gs := by
  have hall : es ++ [.told outcome] <+: es ++ .told outcome :: fs := ⟨fs, by simp⟩
  refine (List.prefix_or_prefix_of_prefix h hall).elim (fun hgs => ?_) id
  rcases List.prefix_concat_iff.mp hgs with rfl | ⟨t, rfl⟩
  · exact List.prefix_rfl
  · rw [outcomes_append] at hes
    exact absurd (List.append_eq_nil_iff.mp hes).1 hne

/-- When no event follows the outcome, the tail finds what is yielded. -/
theorem capturesYielded_of_last (hes : outcomes es = []) (hfs : payloads fs = []) :
    CapturesYielded parse (es ++ .told outcome :: fs) := by
  have hall : ∀ gs, gs <+: es ++ .told outcome :: fs → outcomes gs ≠ [] →
      captured parse gs = captured parse es := by
    intro gs hgs hne
    obtain ⟨t, rfl⟩ := told_isPrefix hes hgs hne
    obtain ⟨u, hu⟩ := hgs
    have ht : payloads t = [] := by
      have hfs' : t ++ u = fs := by simpa using hu
      rw [← hfs', payloads_append] at hfs
      exact (List.append_eq_nil_iff.mp hfs).1
    simp [captured, payloads_told, ht]
  rintro gs out events hgs (⟨hpre, hout⟩ | hnone)
  case dropped => rfl
  case told ks =>
    have hk : outcomes ks ≠ [] := by
      intro h
      rw [h] at hout
      cases hout
    have hg : outcomes gs ≠ [] := by
      obtain ⟨t, rfl⟩ := hpre
      rw [outcomes_append]
      exact List.append_ne_nil_of_left_ne_nil hk _
    rw [hall ks (hpre.trans hgs) hk, hall gs hgs hg]

/-- An event after the outcome is missed by a tail that does not wait. -/
theorem not_capturesYielded (hes : outcomes es = []) (hfs : payloads fs ≠ []) :
    ¬ CapturesYielded parse (es ++ .told outcome :: fs) := by
  intro h
  have hfound : Finds parse (es ++ .told outcome :: fs) outcome
      (captured parse (es ++ [.told outcome])) :=
    .told ⟨fs, by simp⟩ (by simp [hes, outcomes_told])
  have := congrArg List.length (h _ outcome _ List.prefix_rfl hfound)
  simp only [captured, payloads_append, payloads_told, List.length_map, List.length_append] at this
  have := List.length_pos_of_ne_nil hfs
  simp only [show payloads [] = [] from rfl, List.length_nil] at *
  omega

/-- Whatever the source gives, one outcome is told. -/
theorem outcomes_body (requestId : Option Json) (source : List Incoming) :
    outcomes (buildPassthroughBody requestId source) = [.natural] ∨
      ∃ last ∈ source, outcomes (buildPassthroughBody requestId source) = [last.breakOutcome] := by
  rcases source_cases (show drainBlocks [] = ([], []) from rfl) source with
    ⟨chunks, hfit, rfl⟩ | ⟨chunks, last, rest, hfit, hlast, rfl⟩
  · left
    rw [← List.append_nil (arrived chunks), buildPassthroughBody_arrived hfit, passthroughLoop,
      flush_eq]
    simp [tell, outcomes_told, show outcomes [] = [] from rfl]
  · obtain ⟨fs, hloop, hout, -⟩ := loop_breaks requestId hlast rest
    refine .inr ⟨last, by simp, ?_⟩
    rw [buildPassthroughBody_arrived hfit, ← List.nil_append (received chunks), hloop]
    simp [outcomes_told, hout]

theorem one_outcome (requestId : Option Json) (source : List Incoming) :
    (outcomes (buildPassthroughBody requestId source)).length = 1 := by
  rcases outcomes_body requestId source with h | ⟨last, -, h⟩
  · rw [h]
    rfl
  · rw [h]
    rfl

/-- A stream that breaks is handed on in whole events, and found so, exactly when its last chunk is
refused or what has arrived after the last block has no data. One outcome is told in any case. -/
theorem broken_stream_whole_events (parse : String → Option Json) (requestId : Option Json)
    (source : List Incoming) (hfit : Fits [] chunks) (hlast : Breaks (remainder chunks) last) :
    let body := buildPassthroughBody requestId (arrived chunks ++ last :: source)
    (payloads body = endedPayloads chunks ∧ CapturesYielded parse body ↔
      last.isRefused = true ∨ blockPayload (trimEndNewlines (remainder chunks)) = none) ∧
    (outcomes body).length = 1 := by
  intro body
  obtain ⟨fs, hloop, -, hpay⟩ := loop_breaks requestId hlast source
  have hbody : body =
      blockEvents (drainBlocks (received chunks)).1 ++ .told last.breakOutcome :: fs := by
    rw [← hloop]
    exact buildPassthroughBody_arrived hfit _
  have hes := outcomes_blockEvents (drainBlocks (received chunks)).1
  have hcond : payloads fs = [] ↔
      last.isRefused = true ∨ blockPayload (trimEndNewlines (remainder chunks)) = none := by
    rw [hpay]
    split
    next h => simp [h]
    next h => simp [h, Option.toList_eq_nil_iff]
  rw [hbody, ← hcond]
  refine ⟨⟨fun h => ?_, fun h => ⟨?_, capturesYielded_of_last hes h⟩⟩, ?_⟩
  · by_contra hne
    exact not_capturesYielded hes hne h.2
  · simp [payloads_told, h, endedPayloads]
  · exact hbody ▸ one_outcome requestId _

def wholeEvent : List UInt8 := "data: 1\n\n".toUTF8.data.toList

theorem broken_stream_whole_events_reset :
    let body := buildPassthroughBody none (arrived [wholeEvent] ++ [.failed "reset"])
    payloads body = endedPayloads [wholeEvent] ∧ CapturesYielded (fun _ => some (.int 1)) body :=
  have hfit : Fits [] [wholeEvent] := by decide +kernel
  have hlast : Breaks (remainder [wholeEvent]) (.failed "reset") := trivial
  (broken_stream_whole_events (fun _ => some (.int 1)) none [] hfit hlast).1.mpr
    (.inr (by decide +kernel))

def partialEvent : List UInt8 := "data: \x7b\"a\":".toUTF8.data.toList

/-- The upstream fails within its first event. -/
theorem partial_event_yielded :
    let body := buildPassthroughBody none [.chunk partialEvent true, .failed "reset"]
    endedPayloads [partialEvent] = [] ∧ payloads body = ["\x7b\"a\":"] ∧
      ¬ CapturesYielded (fun _ => none) body := by
  intro body
  have hrest : remainder [partialEvent] = "data: \x7b\"a\":".toList := by decide +kernel
  obtain ⟨fs, hloop, -, hpay⟩ :=
    loop_breaks none (show Breaks (remainder [partialEvent]) (.failed "reset") from trivial) []
  have hbody : body = [] ++ .told (brokenOutcome "reset") :: fs := by
    rw [show brokenOutcome "reset" = Incoming.breakOutcome (.failed "reset") from rfl, ← hloop]
    exact buildPassthroughBody_arrived (show Fits [] [partialEvent] by decide +kernel) _
  have hfs : payloads fs = ["\x7b\"a\":"] := by
    rw [hpay, hrest]
    decide +kernel
  refine ⟨by decide +kernel, ?_, ?_⟩
  · rw [hbody, List.nil_append, payloads_told, hfs]
  · rw [hbody]
    exact not_capturesYielded rfl (by simp [hfs])

end ThinkWatch.Mcp
