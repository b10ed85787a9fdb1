import ThinkWatch.Mcp.Sse

/-!
# Chunks and characters

What `build_passthrough_body` reads of a stream of bytes that comes in chunks and ends by itself.
Terminators and lines may be cut anywhere, since the text is collected before it is searched; but
every chunk is decoded on its own, so a chunk that ends within a character turns it into two U+FFFD
or more. That makes a payload longer, or is not seen, when the line is not one of data. So what is
read is what the bytes say if and only if no chunk ends within a character of a `data:` line.
-/

namespace ThinkWatch.Mcp

open Lib Policy ThinkWatch.Gateway

variable {r s x y z l m : List Char} {before bytes : List UInt8} {chunks : List (List UInt8)}

/-! ## Reading a text -/

/-- The payloads of a text that ends by itself. -/
def textPayloads (s : List Char) : List String :=
  ((drainBlocks s).1 ++ [trimEndNewlines (drainBlocks s).2]).filterMap blockPayload

/-- The texts of `data:` lines as one text. -/
def joinFields : List (List Char) → Option (List Char)
  | [] => none
  | p :: ps => some (p ++ ps.flatMap ('\n' :: ·))

theorem foldl_extractLine (out : List Char) (ls : List (List Char)) :
    ls.foldl extractLine (out, true) =
      (out ++ (ls.filterMap dataField).flatMap ('\n' :: ·), true) := by
  induction ls generalizing out with
  | nil => simp
  | cons l ls ih =>
    rw [List.foldl_cons, extractLine]
    cases hl : dataField l with
    | none => simp [ih, hl]
    | some p => simp [ih, hl]

theorem extractSseDataPayload_eq (s : List Char) :
    extractSseDataPayload s = joinFields ((lines s).filterMap dataField) := by
  unfold extractSseDataPayload
  induction lines s with
  | nil => rfl
  | cons l ls ih =>
    rw [List.foldl_cons, extractLine]
    cases hl : dataField l with
    | none => simpa [hl] using ih
    | some p => simp [hl, foldl_extractLine, joinFields]

/-! ## Text around characters that are not of the wire -/

/-- Characters that are in no terminator and in no `data:`. -/
def Foreign (m : List Char) : Prop := m ≠ [] ∧ ∀ c ∈ m, 0x80 ≤ c.toNat

theorem Foreign.notMem (h : Foreign m) {c : Char} (hc : c.toNat < 0x80) : c ∉ m :=
  fun hm => absurd (h.2 c hm) (Nat.not_le.mpr hc)

/-- The last of the characters. -/
theorem Foreign.exists_last (h : Foreign m) : ∃ p c, m = p ++ [c] ∧ 0x80 ≤ c.toNat := by
  obtain ⟨p, c, rfl⟩ := (List.eq_nil_or_concat m).resolve_left h.1
  rw [List.concat_eq_append] at h ⊢
  exact ⟨p, c, rfl, h.2 c (by simp)⟩

theorem Foreign.exists_first (h : Foreign m) : ∃ c t, m = c :: t ∧ 0x80 ≤ c.toNat := by
  obtain ⟨c, t, rfl⟩ := List.exists_cons_of_ne_nil h.1
  exact ⟨c, t, rfl, h.2 c (by simp)⟩

theorem pieces_foreign (k : Nat) : Foreign (List.replicate (k + 2) Utf8.replacement) := by
  refine ⟨by simp, fun d hd => ?_⟩
  rw [List.eq_of_mem_replicate hd]
  decide

/-- A terminator does not reach back to such characters. -/
theorem Foreign.endsBlock (h : Foreign m) (x s : List Char) :
    endsBlock (x ++ m ++ s) = endsBlock s := by
  obtain ⟨p, c, rfl, hc⟩ := h.exists_last
  have hnot : ∀ sep : List Char, sep.all (fun d => d.toNat < 0x80) = true →
      (sep <:+ x ++ (p ++ [c]) ++ s ↔ sep <:+ s) := by
    intro sep hsep
    have hmem : c ∉ sep := fun hm =>
      absurd (of_decide_eq_true (List.all_eq_true.mp hsep c hm)) (Nat.not_lt.mpr hc)
    refine ⟨fun hs => isSuffix_of_notMem hmem (p := x ++ p) (by simpa using hs), fun hs => ?_⟩
    exact hs.trans (List.suffix_append _ _)
  rw [ThinkWatch.Mcp.endsBlock, ThinkWatch.Mcp.endsBlock]
  have hlf := hnot ['\n', '\n'] (by decide)
  have hcrlf := hnot ['\r', '\n', '\r', '\n'] (by decide)
  simp only [hlf, hcrlf]

/-- The text with such characters in its midst: the first block after them, or what is left of the
text, has them and what was left before them. -/
theorem drainBlocks_around (h : Foreign m) (x y : List Char) :
    drainBlocks (x ++ m ++ y) = match drainBlocks y with
      | ([], rest) => ((drainBlocks x).1, (drainBlocks x).2 ++ m ++ rest)
      | (b :: bs, rest) => ((drainBlocks x).1 ++ ((drainBlocks x).2 ++ m ++ b) :: bs, rest) := by
  simp only [drainBlocks_eq_frames]
  obtain ⟨⟨bs, rest⟩, hy⟩ : ∃ q, frames endsBlock [] y = q := ⟨_, rfl⟩
  have hm : frames endsBlock (frames endsBlock [] x).2 m =
      ([], (frames endsBlock [] x).2 ++ m) := by
    refine frames_of_not_ends _ fun q hq hpre => ?_
    have hq : Foreign q := ⟨hq, fun c hc => h.2 c (hpre.subset hc)⟩
    have := hq.endsBlock (frames endsBlock [] x).2 []
    rwa [List.append_nil] at this
  have hafter : frames endsBlock ((frames endsBlock [] x).2 ++ m ++ []) y = _ :=
    frames_after endsBlock fun q _ => h.endsBlock _ q
  rw [List.append_nil, hy] at hafter
  rw [List.append_assoc, frames_append, frames_append (s := m), hm, hafter, hy]
  cases bs with
  | nil => simp
  | cons b bs => simp

theorem Foreign.not_cr (h : Foreign m) (x : List Char) : (x ++ m).getLast? ≠ some '\r' := by
  obtain ⟨p, c, rfl, hc⟩ := h.exists_last
  rw [← List.append_assoc, List.getLast?_concat]
  rintro ⟨⟩
  exact absurd hc (by decide)

/-- The line that such characters are in. -/
theorem lines_around (r z : List Char) : ∃ pre l₁ post, ∀ m, Foreign m →
    lines (r ++ m ++ z) = pre ++ ((segments r).2 ++ m ++ l₁) :: post := by
  refine ⟨(segments r).1.map stripCr, (lines z).headD [], (lines z).tail, fun m hm => ?_⟩
  have hline : '\n' ∉ (segments r).2 ++ m := by
    rw [List.mem_append, not_or]
    exact ⟨(notMem_segments r).2, hm.notMem (by decide)⟩
  rw [List.append_assoc, lines_append, ← List.append_assoc,
    lines_glue hline (by simp [hm.1]) (hm.not_cr _)]

/-- The line so far is one of data. -/
def onDataLine (x : List Char) : Bool := decide ("data:".toList <+: (segments x).2)

theorem dataField_around (hm : Foreign m) (l₁ : List Char) : dataField (l ++ m ++ l₁) =
    if "data:".toList <+: l then some ((l.drop 5 ++ (m ++ l₁)).dropWhile isWhitespace)
    else none := by
  obtain ⟨c, t, rfl, hc⟩ := hm.exists_first
  have hnot : c ∉ "data:".toList := by
    intro hmem
    have hall : "data:".toList.all (fun d => d.toNat < 0x80) = true := by decide
    exact absurd (of_decide_eq_true (List.all_eq_true.mp hall c hmem)) (Nat.not_lt.mpr hc)
  have hiff : "data:".toList <+: l ++ (c :: t) ++ l₁ ↔ "data:".toList <+: l := by
    refine ⟨fun h => isPrefix_of_notMem hnot (t := t ++ l₁) (by simpa using h), fun h => ?_⟩
    exact (h.trans (List.prefix_append l _)).trans (List.prefix_append _ _)
  unfold dataField
  split
  next h =>
    have hlen : 5 ≤ l.length := (hiff.mp h).length_le
    rw [if_pos (hiff.mp h), List.append_assoc, List.drop_append_of_le_length hlen]
  next h => rw [if_neg (mt hiff.mpr h)]

/-- The characters of some payloads. -/
def charCount (ps : List String) : Nat := (ps.map String.length).sum

theorem charCount_append (ps qs : List String) :
    charCount (ps ++ qs) = charCount ps + charCount qs := by
  simp [charCount]

theorem charCount_blockPayload (b : List Char) :
    charCount (blockPayload b).toList = ((extractSseDataPayload b).getD []).length := by
  unfold blockPayload
  cases extractSseDataPayload b with
  | none => rfl
  | some p =>
    dsimp only
    split
    next h =>
      rw [h]
      rfl
    next => simp [charCount]

/-- A field adds its own length to the text of all. -/
theorem length_joinFields (as bs : List (List Char)) : ∃ n, ∀ f,
    ((joinFields (as ++ f :: bs)).getD []).length = n + f.length := by
  cases as with
  | nil => exact ⟨(bs.flatMap ('\n' :: ·)).length, fun f => by simp [joinFields, Nat.add_comm]⟩
  | cons a as =>
    refine ⟨a.length + (as.flatMap ('\n' :: ·)).length + 1 + (bs.flatMap ('\n' :: ·)).length,
      fun f => ?_⟩
    simp [joinFields]
    omega

/-- A character cut into pieces makes the text of its field longer, also where it is white space at
the start and would not count. -/
theorem length_field_lt (d l₁ : List Char) (c : Char) (k : Nat) :
    ((d ++ ([c] ++ l₁)).dropWhile isWhitespace).length <
      ((d ++ (List.replicate (k + 2) Utf8.replacement ++ l₁)).dropWhile isWhitespace).length := by
  have hrep : isWhitespace Utf8.replacement = false := by decide
  have happ : ∀ t, (d ++ t).dropWhile isWhitespace = if (d.dropWhile isWhitespace).isEmpty then
      t.dropWhile isWhitespace else d.dropWhile isWhitespace ++ t := fun t => List.dropWhile_append
  rw [happ, happ]
  split
  · have hle := (List.dropWhile_suffix isWhitespace (l := [c] ++ l₁)).length_le
    have hkeep : (List.replicate (k + 2) Utf8.replacement ++ l₁).dropWhile isWhitespace =
        List.replicate (k + 2) Utf8.replacement ++ l₁ :=
      List.dropWhile_cons_of_neg (by simp [hrep])
    rw [hkeep]
    simp only [List.length_append, List.length_singleton, List.length_replicate] at hle ⊢
    omega
  · simp only [List.length_append, List.length_singleton, List.length_replicate]
    omega

/-- Off the lines of data the characters do not matter. -/
theorem blockPayload_off (h : onDataLine r = false) (hx : Foreign x) (hy : Foreign y)
    (z : List Char) : blockPayload (r ++ x ++ z) = blockPayload (r ++ y ++ z) := by
  have hnot : ¬ "data:".toList <+: (segments r).2 := of_decide_eq_false h
  obtain ⟨pre, l₁, post, hlines⟩ := lines_around r z
  have hfields : ∀ m, Foreign m →
      (lines (r ++ m ++ z)).filterMap dataField = (pre ++ post).filterMap dataField := by
    intro m hm
    rw [hlines m hm, List.filterMap_append, List.filterMap_cons, dataField_around hm, if_neg hnot,
      List.filterMap_append]
  rw [blockPayload, blockPayload, extractSseDataPayload_eq, extractSseDataPayload_eq, hfields x hx,
    hfields y hy]

/-- On a line of data a character that is cut into pieces makes the payload longer. -/
theorem charCount_on (h : onDataLine r = true) {c : Char} (hc : 0x80 ≤ c.toNat) (k : Nat)
    (z : List Char) : charCount (blockPayload (r ++ [c] ++ z)).toList <
      charCount (blockPayload (r ++ List.replicate (k + 2) Utf8.replacement ++ z)).toList := by
  have hdata : "data:".toList <+: (segments r).2 := of_decide_eq_true h
  obtain ⟨pre, l₁, post, hlines⟩ := lines_around r z
  obtain ⟨n, hn⟩ := length_joinFields (pre.filterMap dataField) (post.filterMap dataField)
  have hlen : ∀ m, Foreign m → charCount (blockPayload (r ++ m ++ z)).toList =
      n + (((segments r).2.drop 5 ++ (m ++ l₁)).dropWhile isWhitespace).length := by
    intro m hm
    rw [charCount_blockPayload, extractSseDataPayload_eq, hlines m hm, List.filterMap_append,
      List.filterMap_cons, dataField_around hm, if_pos hdata, hn]
  have hc' : Foreign [c] := ⟨List.cons_ne_nil c [], by simpa using hc⟩
  rw [hlen _ hc', hlen _ (pieces_foreign k)]
  have := length_field_lt ((segments r).2.drop 5) l₁ c k
  omega

/-! ## The text of a stream -/

theorem trimEndNewlines_around (hm : Foreign m) (x y : List Char) :
    trimEndNewlines (x ++ m ++ y) = x ++ m ++ trimEndNewlines y := by
  obtain ⟨p, c, rfl, hc⟩ := hm.exists_last
  have hkeep : ¬ (c = '\n' || c = '\r') = true := by
    simp only [Bool.or_eq_true, decide_eq_true_eq, not_or]
    exact ⟨fun h => absurd hc (by rw [h]; decide), fun h => absurd hc (by rw [h]; decide)⟩
  unfold trimEndNewlines
  rw [List.reverse_append, List.dropWhile_append]
  split
  next h =>
    rw [List.isEmpty_iff] at h
    rw [h, ← List.append_assoc, List.reverse_append, List.reverse_singleton, List.singleton_append,
      List.dropWhile_cons, if_neg hkeep]
    simp
  next => simp

/-- The rest of a text and then its blocks, from the last. -/
theorem drainBlocks_rec {motive : List (List Char) → List Char → Prop} (text : List Char)
    (rest : motive [] (drainBlocks text).2)
    (block : ∀ b bs t, endsBlock b = true → motive bs t → motive (b :: bs) (b ++ t)) :
    motive (drainBlocks text).1 text := by
  rw [drainBlocks_eq_frames] at rest ⊢
  exact frames_rec endsBlock rest block

/-- A block ends with an empty line. -/
theorem lines_of_endsBlock {b : List Char} (hb : endsBlock b = true) :
    (segments b).2 = [] ∧ ∃ ls, lines b = ls ++ [[]] := by
  have hend : ∀ u w, (segments w).2 = [] → lines w = [[]] →
      (segments (u ++ '\n' :: w)).2 = [] ∧ ∃ ls, lines (u ++ '\n' :: w) = ls ++ [[]] := by
    intro u w hw hlines
    have hline : (segments (u ++ ['\n'])).2 = [] := by
      rw [segments_append, segments_line (notMem_segments u).2]
      rfl
    rw [List.append_cons]
    refine ⟨?_, lines (u ++ ['\n']), ?_⟩
    · rw [segments_append, hline]
      exact hw
    · rw [lines_append_of_nil hline, hlines]
  rw [endsBlock, Bool.or_eq_true, decide_eq_true_eq, decide_eq_true_eq] at hb
  rcases hb with ⟨u, rfl⟩ | ⟨u, rfl⟩
  · exact hend u ['\n'] rfl rfl
  · have := hend (u ++ ['\r']) ['\r', '\n'] rfl rfl
    simpa using this

/-- What is left of a text has its last line. -/
theorem segments_rest (x : List Char) : (segments (drainBlocks x).2).2 = (segments x).2 := by
  refine drainBlocks_rec (motive := fun _ t => (segments (drainBlocks x).2).2 = (segments t).2) x
    rfl fun b bs t hb ih => ?_
  rw [ih, segments_append, (lines_of_endsBlock hb).1, List.nil_append]

/-- The payload that such characters are in. -/
theorem textPayloads_around (x y : List Char) : ∃ pre z post, ∀ m, Foreign m →
    textPayloads (x ++ m ++ y) =
      pre ++ (blockPayload ((drainBlocks x).2 ++ m ++ z)).toList ++ post := by
  obtain ⟨⟨bs, rest⟩, hy⟩ : ∃ q, drainBlocks y = q := ⟨_, rfl⟩
  cases bs with
  | nil =>
    refine ⟨(drainBlocks x).1.filterMap blockPayload, trimEndNewlines rest, [], fun m hm => ?_⟩
    rw [textPayloads, drainBlocks_around hm, hy, List.filterMap_append,
      trimEndNewlines_around hm, List.append_nil]
    rfl
  | cons b bs =>
    refine ⟨(drainBlocks x).1.filterMap blockPayload, b,
      (bs ++ [trimEndNewlines rest]).filterMap blockPayload, fun m hm => ?_⟩
    rw [textPayloads, drainBlocks_around hm, hy]
    dsimp only
    generalize (drainBlocks x).2 ++ m ++ b = block
    rw [List.append_assoc, List.cons_append, List.filterMap_append, List.filterMap_cons,
      List.append_assoc]
    cases blockPayload block with
    | none => rfl
    | some p => rfl

theorem onDataLine_rest (x : List Char) : onDataLine (drainBlocks x).2 = onDataLine x := by
  rw [onDataLine, onDataLine, segments_rest]

/-! ## Chunks -/

/-- The text of some bytes, as far as their characters are complete. -/
def textSoFar (before : List UInt8) : List Char := (Utf8.run none before).1

/-- A chunk goes on with a character of a `data:` line. -/
def breaksData (before bytes : List UInt8) : Bool :=
  Utf8.splits before bytes && onDataLine (textSoFar before)

/-- No chunk goes on with a character of a `data:` line, with the bytes before the first. -/
def Whole : List UInt8 → List (List UInt8) → Prop
  | _, [] => True
  | before, bytes :: chunks => breaksData before bytes = false ∧ Whole (before ++ bytes) chunks

/-- One boundary. The text after it is read the same, or is longer for the cut. -/
theorem textPayloads_boundary (before bytes : List UInt8) (t : List Char) :
    (breaksData before bytes = false →
      textPayloads (Utf8.decode (before ++ bytes) ++ t) =
        textPayloads (Utf8.decode before ++ Utf8.decode bytes ++ t)) ∧
    (breaksData before bytes = true →
      charCount (textPayloads (Utf8.decode (before ++ bytes) ++ t)) <
        charCount (textPayloads (Utf8.decode before ++ Utf8.decode bytes ++ t))) := by
  unfold breaksData
  cases hs : Utf8.splits before bytes with
  | false =>
    rw [Utf8.decode_append hs]
    simp
  | true =>
    obtain ⟨c, k, u, hc, hone, hpieces⟩ := Utf8.decode_of_splits hs
    obtain ⟨pre, z, post, htext⟩ := textPayloads_around (textSoFar before) (u ++ t)
    have hc' : Foreign [c] := ⟨List.cons_ne_nil c [], by simpa using hc⟩
    have hl : Utf8.decode (before ++ bytes) ++ t = textSoFar before ++ [c] ++ (u ++ t) := by
      simp [hone, textSoFar]
    have hr : Utf8.decode before ++ Utf8.decode bytes ++ t =
        textSoFar before ++ List.replicate (k + 2) Utf8.replacement ++ (u ++ t) := by
      simp [hpieces, textSoFar]
    rw [hl, hr, htext _ hc', htext _ (pieces_foreign k), Bool.true_and,
      ← onDataLine_rest (textSoFar before)]
    refine ⟨fun h => ?_, fun h => ?_⟩
    · rw [blockPayload_off h hc' (pieces_foreign k) z]
    · simp only [charCount_append]
      have := charCount_on h hc k z
      omega

/-- Decoded chunk by chunk, the text is read as it is, or is longer. -/
theorem textPayloads_chunks (before : List UInt8) (chunks : List (List UInt8)) :
    (Whole before chunks → textPayloads (Utf8.decode (before ++ chunks.flatten)) =
      textPayloads (Utf8.decode before ++ received chunks)) ∧
    (¬ Whole before chunks → charCount (textPayloads (Utf8.decode (before ++ chunks.flatten))) <
      charCount (textPayloads (Utf8.decode before ++ received chunks))) := by
  induction chunks generalizing before with
  | nil => simp [received, Whole]
  | cons bytes chunks ih =>
    obtain ⟨hsame, hlong⟩ := ih (before ++ bytes)
    obtain ⟨hsame', hlong'⟩ := textPayloads_boundary before bytes (received chunks)
    have hflat : before ++ (bytes :: chunks).flatten = before ++ bytes ++ chunks.flatten := by simp
    have hrec : Utf8.decode before ++ received (bytes :: chunks) =
        Utf8.decode before ++ Utf8.decode bytes ++ received chunks := by simp [received]
    rw [hflat, hrec]
    refine ⟨fun h => (hsame h.2).trans (hsame' h.1), fun h => ?_⟩
    -- the rest is no shorter, and one of the two is longer
    by_cases hrest : Whole (before ++ bytes) chunks
    · rw [hsame hrest]
      exact hlong' (Bool.eq_true_of_not_eq_false fun hb => h ⟨hb, hrest⟩)
    · refine (hlong hrest).trans_le ?_
      cases hb : breaksData before bytes with
      | false => rw [hsame' hb]
      | true => exact (hlong' hb).le

variable {chunks' : List (List UInt8)} {requestId : Option Json}

theorem payloads_arrived (h : Fits [] chunks) :
    payloads (buildPassthroughBody requestId (arrived chunks)) =
      textPayloads (received chunks) := by
  rw [← List.append_nil (arrived chunks), buildPassthroughBody_arrived h, passthroughLoop, flush_eq]
  simp [textPayloads]

/-- What the body yields of a stream that ends by itself, and what it captures. -/
def reading (parse : String → Option Json) (requestId : Option Json)
    (chunks : List (List UInt8)) : List String × List Json :=
  let body := buildPassthroughBody requestId (arrived chunks)
  (payloads body, captured parse body)

/-- What the bytes of the stream say, decoded as one. -/
def streamReading (parse : String → Option Json) (stream : List UInt8) : List String × List Json :=
  (textPayloads (Utf8.decode stream), (textPayloads (Utf8.decode stream)).map (parseEvent parse))

theorem reading_eq_iff (parse : String → Option Json) (hfit : Fits [] chunks) :
    reading parse requestId chunks = streamReading parse chunks.flatten ↔ Whole [] chunks := by
  have hread : reading parse requestId chunks = (textPayloads (received chunks),
      (textPayloads (received chunks)).map (parseEvent parse)) := by
    rw [reading, captured, payloads_arrived hfit]
  obtain ⟨hsame, hlong⟩ := textPayloads_chunks [] chunks
  rw [hread, streamReading]
  refine ⟨fun h => ?_, fun h => ?_⟩
  · by_contra hbroken
    have := hlong hbroken
    rw [show Utf8.decode [] = [] from rfl, List.nil_append, List.nil_append,
      (Prod.mk.inj h).1] at this
    exact lt_irrefl _ this
  · have := hsame h
    rw [show Utf8.decode [] = [] from rfl, List.nil_append, List.nil_append] at this
    rw [this]

/-- The body reads what the bytes say, however they are cut into chunks, exactly when no chunk goes
on with a character of a `data:` line. So two ways of cutting, one of which is of this kind, are
read alike exactly when both are. -/
theorem chunking_unseen_iff (parse : String → Option Json) (requestId : Option Json)
    (hfit : Fits [] chunks) (hfit' : Fits [] chunks') (hstream : chunks'.flatten = chunks.flatten) :
    (reading parse requestId chunks = streamReading parse chunks.flatten ↔ Whole [] chunks) ∧
    (Whole [] chunks →
      (reading parse requestId chunks = reading parse requestId chunks' ↔ Whole [] chunks')) := by
  refine ⟨reading_eq_iff parse hfit, fun h => ?_⟩
  rw [(reading_eq_iff parse hfit).mpr h, ← hstream, eq_comm, reading_eq_iff parse hfit']

/-- `data: é`, whole and cut within its blank line. -/
theorem chunking_unseen_terminator :
    reading (fun _ => none) none ["data: é\n\n".toUTF8.data.toList] =
      reading (fun _ => none) none ["data: é\n".toUTF8.data.toList, "\n".toUTF8.data.toList] := by
  have hfit : Fits [] ["data: é\n\n".toUTF8.data.toList] := by decide +kernel
  have hfit' : Fits [] ["data: é\n".toUTF8.data.toList, "\n".toUTF8.data.toList] := by
    decide +kernel
  refine ((chunking_unseen_iff (fun _ => none) none hfit hfit' (by decide +kernel)).2 ?_).mpr ?_
  · exact ⟨by decide +kernel, trivial⟩
  · exact ⟨by decide +kernel, by decide +kernel, trivial⟩

/-- The two bytes of the `é` in two chunks. -/
theorem cut_character_garbled :
    let whole : List (List UInt8) := ["data: é\n\n".toUTF8.data.toList]
    let cut : List (List UInt8) := ["data: ".toUTF8.data.toList ++ [0xC3], [0xA9, 0x0A, 0x0A]]
    cut.flatten = whole.flatten ∧ Fits [] whole ∧ Fits [] cut ∧
      payloads (buildPassthroughBody none (arrived whole)) = ["é"] ∧
      payloads (buildPassthroughBody none (arrived cut)) = ["\uFFFD\uFFFD"] := by
  decide +kernel

end ThinkWatch.Mcp
