import ThinkWatch.Gateway.Readers
import ThinkWatch.Lib.JsonGrammar
import ThinkWatch.Lib.Utf8
import ThinkWatch.Policy.Document

/-!
# Gemini's stream as one JSON array

`JsonArrayFramer` (`crates/gateway/src/proxy/shaper.rs`) turns an event stream into the array that
a Gemini client reads without `alt=sse`, and `as_json_array` (`lifecycle/mod.rs`) sends it. The
decoder of `tw-dialect` and `serde_json::from_str` are parameters. The opening bracket is written by
the first frame that has a place in the array, or at the end.
-/

namespace ThinkWatch.Gateway.Stream

open Lib.JsonGrammar Lib.Utf8 ThinkWatch.Policy

/-! ## The framer -/

/-- A frame of an event stream. -/
structure SseFrame where
  event : Option String
  data : String
deriving DecidableEq, Repr

/-- The `Decoder` of `tw-dialect`. -/
structure SseDecoder where
  State : Type
  new : State
  feed : State → Bytes → State × List SseFrame
  flush : State → State × List SseFrame

structure JsonArrayFramer (D : SseDecoder) where
  decoder : D.State
  opened : Bool

variable {D : SseDecoder} (parse : String → Option Json)

/-- The loop of `write`: what is written for the frames, and whether the array is open then. -/
def writeFrames : Bool → List SseFrame → Bool × List Char
  | opened, [] => (opened, [])
  | opened, f :: fs =>
    -- `[DONE]` and anything else that is not JSON has no place in the array
    if (parse f.data).isNone then writeFrames opened fs
    else
      let (opened', out) := writeFrames true fs
      (opened', (if opened then [',', '\r', '\n'] else ['[']) ++ f.data.toList ++ out)

namespace JsonArrayFramer

def default (D : SseDecoder) : JsonArrayFramer D := ⟨D.new, false⟩

def write (framer : JsonArrayFramer D) (frames : List SseFrame) : JsonArrayFramer D × Bytes :=
  let (opened, out) := writeFrames parse framer.opened frames
  ({ framer with opened }, encode out)

def process (framer : JsonArrayFramer D) (sse : Bytes) : JsonArrayFramer D × Bytes :=
  let (decoder, frames) := D.feed framer.decoder sse
  write parse { framer with decoder } frames

/-- An empty stream is still an array. -/
def finish (framer : JsonArrayFramer D) : Bytes :=
  let (decoder, frames) := D.flush framer.decoder
  let (framer, out) := write parse { framer with decoder } frames
  out ++ (if framer.opened then [] else encode ['[']) ++ encode [']']

/-- What `process` returns for one chunk after the other. -/
def processAll (framer : JsonArrayFramer D) : List Bytes → JsonArrayFramer D × Bytes
  | [] => (framer, [])
  | chunk :: chunks =>
    let (framer, out) := process parse framer chunk
    let (framer, rest) := processAll framer chunks
    (framer, out ++ rest)

/-- The concatenated output for the chunks of a stream. -/
def output (D : SseDecoder) (chunks : List Bytes) : Bytes :=
  let (framer, out) := processAll parse (default D) chunks
  out ++ finish parse framer

end JsonArrayFramer

/-- The rest of what `as_json_array` yields; an empty piece is not sent. -/
def asJsonArrayFrom (framer : JsonArrayFramer D) : List Bytes → List Bytes
  | [] => [framer.finish parse]
  | chunk :: chunks =>
    let (framer, out) := framer.process parse chunk
    (if out = [] then [] else [out]) ++ asJsonArrayFrom framer chunks

def asJsonArray (D : SseDecoder) (chunks : List Bytes) : List Bytes :=
  asJsonArrayFrom parse (JsonArrayFramer.default D) chunks

/-! ## The frames of a stream -/

namespace SseDecoder

/-- The frames of the chunks, fed one after the other, and the decoder then. -/
def feedAll (D : SseDecoder) (s : D.State) : List Bytes → D.State × List SseFrame
  | [] => (s, [])
  | chunk :: chunks =>
    let (s, frames) := D.feed s chunk
    let (s, rest) := D.feedAll s chunks
    (s, frames ++ rest)

/-- All frames, with what the decoder only gives at the end. -/
def frames (D : SseDecoder) (chunks : List Bytes) : List SseFrame :=
  let (s, frames) := D.feedAll D.new chunks
  frames ++ (D.flush s).2

/-- Where the bytes are cut does not matter to the decoder. -/
def ChunkInvariant (D : SseDecoder) : Prop :=
  ∀ chunks chunks' : List Bytes, chunks.flatten = chunks'.flatten →
    D.frames chunks = D.frames chunks'

end SseDecoder

/-- The payloads that are JSON. -/
def payloads (frames : List SseFrame) : List (List Char) :=
  (frames.filter fun f => (parse f.data).isSome).map fun f => f.data.toList

/-! ## What is written -/

variable {parse}

theorem writeFrames_append (opened : Bool) (fs gs : List SseFrame) :
    writeFrames parse opened (fs ++ gs) =
      ((writeFrames parse (writeFrames parse opened fs).1 gs).1,
        (writeFrames parse opened fs).2 ++
          (writeFrames parse (writeFrames parse opened fs).1 gs).2) := by
  induction fs generalizing opened with
  | nil => simp [writeFrames]
  | cons f fs ih =>
    simp only [List.cons_append, writeFrames]
    split
    · exact ih opened
    · simp [ih true]

/-- Once the array is open, every payload comes after a comma. -/
theorem writeFrames_true (fs : List SseFrame) :
    writeFrames parse true fs =
      (true, (payloads parse fs).flatMap fun p => ',' :: ['\r', '\n'] ++ p) := by
  induction fs with
  | nil => rfl
  | cons f fs ih =>
    cases h : parse f.data with
    | none => simpa [writeFrames, payloads, h] using ih
    | some v => simp [writeFrames, payloads, h, ih]

/-- The first payload opens the array. -/
theorem writeFrames_false (fs : List SseFrame) :
    writeFrames parse false fs =
      match payloads parse fs with
      | [] => (false, [])
      | p :: ps => (true, '[' :: p ++ ps.flatMap fun p => ',' :: ['\r', '\n'] ++ p) := by
  induction fs with
  | nil => rfl
  | cons f fs ih =>
    cases h : parse f.data with
    | none => simpa [writeFrames, payloads, h] using ih
    | some v => simp [writeFrames, payloads, h, writeFrames_true]

/-- The array with these texts in it. -/
def arrayText : List (List Char) → List Char
  | [] => ['[', ']']
  | p :: ps => '[' :: (p ++ ps.flatMap fun p => ',' :: ['\r', '\n'] ++ p) ++ [']']

namespace JsonArrayFramer

/-- The chunks leave the framer as their frames do. -/
theorem processAll_eq (framer : JsonArrayFramer D) (chunks : List Bytes) :
    processAll parse framer chunks =
      (⟨(D.feedAll framer.decoder chunks).1,
          (writeFrames parse framer.opened (D.feedAll framer.decoder chunks).2).1⟩,
        encode (writeFrames parse framer.opened (D.feedAll framer.decoder chunks).2).2) := by
  induction chunks generalizing framer with
  | nil => rfl
  | cons chunk chunks ih =>
    simp only [processAll, process, write, SseDecoder.feedAll, ih, writeFrames_append,
      encode_append]

/-- The output is the array of the payloads. -/
theorem output_eq (chunks : List Bytes) :
    output parse D chunks =
      encode (arrayText (payloads parse (D.frames chunks))) := by
  have hall : output parse D chunks =
      encode ((writeFrames parse false (D.frames chunks)).2 ++
        (if (writeFrames parse false (D.frames chunks)).1 then [] else ['[']) ++ [']']) := by
    simp only [output, processAll_eq, finish, write, SseDecoder.frames, default,
      writeFrames_append, encode_append, List.append_assoc]
    split <;> rfl
  rw [hall, writeFrames_false]
  cases payloads parse (D.frames chunks) with
  | nil => rfl
  | cons p ps => simp [arrayText]

end JsonArrayFramer

theorem asJsonArrayFrom_flatten (framer : JsonArrayFramer D) (chunks : List Bytes) :
    (asJsonArrayFrom parse framer chunks).flatten =
      (framer.processAll parse chunks).2 ++ (framer.processAll parse chunks).1.finish parse := by
  induction chunks generalizing framer with
  | nil => simp [asJsonArrayFrom, JsonArrayFramer.processAll]
  | cons chunk chunks ih =>
    simp only [asJsonArrayFrom, JsonArrayFramer.processAll, List.flatten_append, ih,
      List.append_assoc, List.append_cancel_right_eq]
    split
    · next h => simp [h]
    · simp

/-- The text of the array has the payloads as its elements. -/
theorem isArrayOf_payloads {ps : List (List Char)} (h : ∀ p ∈ ps, IsText p) :
    IsArrayOf ps (arrayText ps) := by
  cases ps with
  | nil => exact IsArrayOf.empty Ws.nil
  | cons p ps =>
    have hsep : Ws ['\r', '\n'] := by simp [Ws]
    have helems := elements_joined hsep (h p List.mem_cons_self)
      (fun x hx => h x (List.mem_cons_of_mem p hx)) Ws.nil
    exact IsArrayOf.elements helems

/--
The output for a stream is one JSON array with the payloads that are JSON as its elements, in their
order, and does not depend on where the stream is cut.
-/
theorem output_is_array (hdecoder : D.ChunkInvariant)
    (hparse : ∀ s v, parse s = some v → IsText s.toList) (chunks : List Bytes) :
    (∃ text, JsonArrayFramer.output parse D chunks = encode text ∧ IsText text ∧
      IsArrayOf (payloads parse (D.frames [chunks.flatten])) text) ∧
    (asJsonArray parse D chunks).flatten = JsonArrayFramer.output parse D chunks ∧
    ∀ chunks' : List Bytes, chunks'.flatten = chunks.flatten →
      JsonArrayFramer.output parse D chunks' = JsonArrayFramer.output parse D chunks := by
  refine ⟨?_, asJsonArrayFrom_flatten _ chunks, ?_⟩
  · have hframes : D.frames [chunks.flatten] = D.frames chunks := hdecoder _ _ (by simp)
    have htexts : ∀ p ∈ payloads parse (D.frames chunks), IsText p := by
      intro p hp
      obtain ⟨f, hf, rfl⟩ := List.mem_map.mp hp
      obtain ⟨v, hv⟩ := Option.isSome_iff_exists.mp (List.mem_filter.mp hf).2
      exact hparse f.data v hv
    have harray := isArrayOf_payloads htexts
    rw [hframes]
    exact ⟨_, JsonArrayFramer.output_eq chunks, harray.isText, harray⟩
  · intro chunks' heq
    rw [JsonArrayFramer.output_eq, JsonArrayFramer.output_eq, hdecoder chunks' chunks heq]

/-! ## A decoder of blocks -/

/-- A byte of a stream of blocks that end with an empty line and have one line of data. -/
def blockStep (buffer : Bytes) (b : UInt8) : Bytes × List SseFrame :=
  let block := buffer ++ [b]
  if encode ['\n', '\n'] <:+ block then
    ([], [⟨none, String.ofList (decode ((block.take (block.length - 2)).drop 6))⟩])
  else (block, [])

def blockFeed : Bytes → Bytes → Bytes × List SseFrame
  | buffer, [] => (buffer, [])
  | buffer, b :: bs =>
    let (buffer, frames) := blockStep buffer b
    let (buffer, rest) := blockFeed buffer bs
    (buffer, frames ++ rest)

def blockDecoder : SseDecoder := ⟨Bytes, [], blockFeed, fun buffer => (buffer, [])⟩

theorem blockFeed_append (buffer bs cs : Bytes) :
    blockFeed buffer (bs ++ cs) =
      ((blockFeed (blockFeed buffer bs).1 cs).1,
        (blockFeed buffer bs).2 ++ (blockFeed (blockFeed buffer bs).1 cs).2) := by
  induction bs generalizing buffer with
  | nil => simp [blockFeed]
  | cons b bs ih => simp [blockFeed, ih]

theorem blockDecoder_feedAll (buffer : Bytes) (chunks : List Bytes) :
    blockDecoder.feedAll buffer chunks = blockFeed buffer chunks.flatten := by
  induction chunks generalizing buffer with
  | nil => rfl
  | cons chunk chunks ih =>
    rw [List.flatten_cons, blockFeed_append, ← ih]
    rfl

theorem blockDecoder_chunkInvariant : blockDecoder.ChunkInvariant := by
  intro chunks chunks' heq
  have hfeed := (blockDecoder_feedAll [] chunks).trans
    ((congrArg (blockFeed []) heq).trans (blockDecoder_feedAll [] chunks').symm)
  show (blockDecoder.feedAll [] chunks).2 ++ [] = (blockDecoder.feedAll [] chunks').2 ++ []
  rw [hfeed]

/-- Reads `null` and nothing else. -/
def parseNull (s : String) : Option Json := if s = "null" then some .null else none

theorem isText_of_parseNull (s : String) (v : Json) (h : parseNull s = some v) :
    IsText s.toList := by
  unfold parseNull at h
  split at h
  · next hs =>
    subst hs
    exact IsText.mk Ws.nil IsValue.null Ws.nil
  · cases h

/-- Two frames and an end that is not JSON, cut within a frame. -/
theorem output_is_array_cut :
    JsonArrayFramer.output parseNull blockDecoder
        [encode "data: null\n\ndata: nu".toList, encode "ll\n\ndata: [DONE]\n\n".toList] =
      JsonArrayFramer.output parseNull blockDecoder
        [encode "data: null\n\ndata: null\n\ndata: [DONE]\n\n".toList] :=
  (output_is_array blockDecoder_chunkInvariant isText_of_parseNull
    [encode "data: null\n\ndata: null\n\ndata: [DONE]\n\n".toList]).2.2 _ (by decide +kernel)

example : JsonArrayFramer.output parseNull blockDecoder
    [encode "data: null\n\ndata: nu".toList, encode "ll\n\ndata: [DONE]\n\n".toList] =
      encode "[null,\r\nnull]".toList := by decide +kernel

end ThinkWatch.Gateway.Stream
