import Mathlib.Data.List.DropRight
import Mathlib.Data.List.TakeWhile
import ThinkWatch.Mcp.SseBuffered
import ThinkWatch.Mcp.SseChunking
import ThinkWatch.Mcp.SseReaders

/-!
# The streamed and the buffered reader

`build_passthrough_body` cuts a text at its terminators and takes one event from each block;
`parse_sse_json_rpc` goes line by line and takes one from each run of `data:` lines up to an empty
line. A block may have empty lines within it, where the endings of its lines are mixed, and then has
more than one run.
-/

namespace ThinkWatch.Mcp

open Lib Policy

variable {parse : String → Option Json} {buf f l : List Char} {ls fs gs : List (List Char)}
  {as cs rs : List (List (List Char))}

/-! ## Runs -/

/-- The texts of the `data:` lines between two empty lines, for every such run. -/
def dataRuns : List (List Char) → List (List (List Char))
  | [] => [[]]
  | l :: ls =>
    match dataField l with
    | some f =>
      match dataRuns ls with
      | [] => [[f]]
      | r :: rs => (f :: r) :: rs
    | none => if l = [] then [] :: dataRuns ls else dataRuns ls

/-- The text of a run: lines without content are left out before the first with content. -/
def runText (r : List (List Char)) : Option (List Char) := joinFields (r.dropWhile fun f => f = [])

/-- The text after the first field. -/
def tailText (fs : List (List Char)) : List Char := fs.flatMap ('\n' :: ·)

theorem dataRuns_ne_nil (ls : List (List Char)) : dataRuns ls ≠ [] := by
  induction ls with
  | nil => simp [dataRuns]
  | cons l ls ih =>
    obtain ⟨r, rs, hrs⟩ := List.exists_cons_of_ne_nil ih
    rw [dataRuns, hrs]
    cases dataField l with
    | some f => simp
    | none =>
      dsimp only
      split
      · simp
      · simp

/-- The runs have the `data:` lines in order. -/
theorem flatten_dataRuns (ls : List (List Char)) :
    (dataRuns ls).flatten = ls.filterMap dataField := by
  induction ls with
  | nil => rfl
  | cons l ls ih =>
    obtain ⟨r, rs, hrs⟩ := List.exists_cons_of_ne_nil (dataRuns_ne_nil ls)
    rw [hrs] at ih
    rw [dataRuns, List.filterMap_cons, ← ih, hrs]
    cases dataField l with
    | some f => rfl
    | none =>
      dsimp only
      split
      · rfl
      · rfl

/-- The text that a run goes on with what is in `data_buf`. -/
def startText (buf : List Char) (r : List (List Char)) : Option (List Char) :=
  if buf = [] then runText r else some (buf ++ tailText r)

theorem startText_cons (buf f : List Char) (r : List (List Char)) :
    startText (appendData buf f) r = startText buf (f :: r) := by
  unfold startText appendData runText
  by_cases hbuf : buf = []
  · by_cases hf : f = []
    · simp [hbuf, hf]
    · simp [hbuf, hf, joinFields, tailText]
  · simp [hbuf, tailText]

/-- The buffered reader takes the text of every run with content. -/
theorem eventTexts_eq {r : List (List Char)} {rs : List (List (List Char))}
    (h : dataRuns ls = r :: rs) :
    eventTexts buf ls = (startText buf r).toList ++ rs.filterMap runText := by
  induction ls generalizing buf r rs with
  | nil =>
    obtain ⟨rfl, rfl⟩ := List.cons.inj h
    rw [eventTexts, startText]
    split
    next => rfl
    next => simp [tailText]
  | cons l ls ih =>
    -- a field goes to the run of the lines after it, an empty line starts a run of its own
    obtain ⟨r', rs', hrs⟩ := List.exists_cons_of_ne_nil (dataRuns_ne_nil ls)
    rw [dataRuns, hrs] at h
    rw [eventTexts]
    cases hl : dataField l with
    | some f =>
      rw [hl] at h
      obtain ⟨rfl, rfl⟩ := List.cons.inj h
      dsimp only
      rw [ih hrs, startText_cons]
    | none =>
      rw [hl] at h
      dsimp only at h ⊢
      split
      next hempty =>
        rw [if_pos hempty] at h
        obtain ⟨rfl, rfl⟩ := List.cons.inj h
        rw [ih hrs, startText, startText, if_pos rfl, List.filterMap_cons]
        split
        next => cases hr : runText r' <;> simp [runText, joinFields]
        next => cases hr : runText r' <;> simp [tailText]
      next hempty =>
        rw [if_neg hempty] at h
        obtain ⟨rfl, rfl⟩ := List.cons.inj h
        rw [ih hrs]

theorem eventTexts_runs (ls : List (List Char)) :
    eventTexts [] ls = (dataRuns ls).filterMap runText := by
  obtain ⟨r, rs, hrs⟩ := List.exists_cons_of_ne_nil (dataRuns_ne_nil ls)
  rw [eventTexts_eq hrs, hrs, startText, if_pos rfl, List.filterMap_cons]
  cases runText r with
  | none => rfl
  | some t => rfl

/-! ## Content -/

/-- No field has a character. -/
def NoContent (fs : List (List Char)) : Prop := ∀ f ∈ fs, f = []

instance : Decidable (NoContent fs) := inferInstanceAs (Decidable (∀ f ∈ fs, f = []))

theorem noContent_append : NoContent (fs ++ gs) ↔ NoContent fs ∧ NoContent gs :=
  List.forall_mem_append

theorem NoContent.eq_replicate (h : NoContent fs) : fs = List.replicate fs.length [] :=
  List.eq_replicate_iff.mpr ⟨rfl, h⟩

theorem NoContent.tailText (h : NoContent fs) :
    tailText fs = List.replicate fs.length '\n' := by
  rw [h.eq_replicate]
  induction fs.length with
  | zero => rfl
  | succ n ih => simpa [Mcp.tailText, List.replicate_succ] using ih

theorem newlines_replicate (n : Nat) : Newlines (List.replicate n '\n') :=
  fun _ hc => .inl (List.eq_of_mem_replicate hc)

/-- Fields without content before one with content are line ends. -/
theorem joinFields_skip (h : NoContent fs) (f : List Char) (gs : List (List Char)) :
    joinFields (fs ++ f :: gs) = some (List.replicate fs.length '\n' ++ f ++ tailText gs) := by
  cases fs with
  | nil => rfl
  | cons g fs =>
    obtain ⟨rfl, hfs⟩ := List.forall_mem_cons.mp h
    have htail := NoContent.tailText (show NoContent fs from hfs)
    rw [tailText] at htail
    rw [List.cons_append, joinFields, List.flatMap_append, List.flatMap_cons, htail,
      List.length_cons, List.replicate_succ', tailText]
    simp

/-- A run with content: its fields up to the first with content, and its text. -/
theorem exists_content (h : ¬ NoContent fs) : ∃ n f gs, fs = List.replicate n [] ++ f :: gs ∧
    f ≠ [] ∧ runText fs = some (f ++ tailText gs) := by
  induction fs with
  | nil => exact absurd (by simp [NoContent]) h
  | cons g fs ih =>
    by_cases hg : g = []
    · obtain ⟨n, f, gs, rfl, hf, ht⟩ := ih fun hfs => h (List.forall_mem_cons.mpr ⟨hg, hfs⟩)
      refine ⟨n + 1, f, gs, by rw [hg, List.replicate_succ, List.cons_append], hf, ?_⟩
      rw [← ht, runText, runText, List.dropWhile_cons_of_pos (by simpa using hg)]
    · exact ⟨0, g, fs, rfl, hg, by
        rw [runText, List.dropWhile_cons_of_neg (by simpa using hg)]
        rfl⟩

theorem runText_noContent (h : NoContent fs) : runText fs = none := by
  have hdrop : fs.dropWhile (fun f => f = []) = [] :=
    List.dropWhile_eq_nil_iff.mpr fun f hf => by simpa using h f hf
  rw [runText, hdrop]
  rfl

theorem filterMap_noContent (h : NoContent rs.flatten) : rs.filterMap runText = [] := by
  refine List.filterMap_eq_nil_iff.mpr fun r hr => runText_noContent fun f hf => ?_
  exact h f (List.mem_flatten.mpr ⟨r, hr, hf⟩)

/-- The first run with content. -/
theorem runs_cases (rs : List (List (List Char))) : NoContent rs.flatten ∨
    ∃ as r cs, rs = as ++ r :: cs ∧ NoContent as.flatten ∧ ¬ NoContent r := by
  induction rs with
  | nil => exact .inl (by simp [NoContent])
  | cons r rs ih =>
    by_cases hr : NoContent r
    · rcases ih with h | ⟨as, r', cs, rfl, has, hr'⟩
      · exact .inl (noContent_append.mpr ⟨hr, h⟩)
      · exact .inr ⟨r :: as, r', cs, rfl, noContent_append.mpr ⟨hr, has⟩, hr'⟩
    · exact .inr ⟨[], r, rs, rfl, by simp [NoContent], hr⟩

/-- The text of a run is within the text of the fields. -/
theorem length_le_of_runText {r : List (List Char)} {t : List Char} (hr : r ∈ rs)
    (ht : runText r = some t) : t.length ≤ (tailText rs.flatten).length := by
  have hcontent : ¬ NoContent r := by
    intro h
    rw [runText_noContent h] at ht
    cases ht
  obtain ⟨n, f, gs, rfl, -, ht'⟩ := exists_content hcontent
  obtain rfl := Option.some.inj (ht.symm.trans ht')
  obtain ⟨as, cs, rfl⟩ := List.append_of_mem hr
  simp only [tailText, List.flatten_append, List.flatten_cons, List.flatMap_append,
    List.flatMap_cons, List.length_append, List.length_cons]
  omega

/-- The text that the streamed reader takes of some fields. -/
def blockText (fs : List (List Char)) : Option (List Char) :=
  match joinFields fs with
  | some t => if t = [] then none else some t
  | none => none

theorem blockPayload_eq (b : List Char) :
    blockPayload b = (blockText ((lines b).filterMap dataField)).map String.ofList := by
  rw [blockPayload, extractSseDataPayload_eq, blockText]
  cases joinFields ((lines b).filterMap dataField) with
  | none => rfl
  | some t =>
    dsimp only
    split
    · rfl
    · rfl

theorem blockText_of_ne {t : List Char} (h : joinFields fs = some t) (ht : t ≠ []) :
    blockText fs = some t := by
  rw [blockText, h]
  exact if_neg ht

/-- The text of a block whose first run with content is `r`. -/
theorem blockText_first {r : List (List Char)} (has : NoContent as.flatten) (hr : ¬ NoContent r)
    (cs : List (List (List Char))) :
    ∃ n t, runText r = some t ∧ t ≠ [] ∧ (n = 0 ↔ as.flatten = [] ∧ r.head? ≠ some []) ∧
      blockText (as ++ r :: cs).flatten =
        some (List.replicate n '\n' ++ t ++ tailText cs.flatten) := by
  obtain ⟨k, f, gs, rfl, hf, ht⟩ := exists_content hr
  refine ⟨as.flatten.length + k, f ++ tailText gs, ht, by simp [hf], ?_, ?_⟩
  · rw [Nat.add_eq_zero_iff, List.length_eq_zero_iff]
    refine and_congr_right fun _ => ?_
    cases k with
    | zero => simp [hf]
    | succ k => simp [List.replicate_succ]
  · have hskip : NoContent (as.flatten ++ List.replicate k []) :=
      noContent_append.mpr ⟨has, fun _ h => List.eq_of_mem_replicate h⟩
    have hall : (as ++ (List.replicate k [] ++ f :: gs) :: cs).flatten =
        (as.flatten ++ List.replicate k []) ++ f :: (gs ++ cs.flatten) := by simp
    have hjoin := joinFields_skip hskip f (gs ++ cs.flatten)
    rw [← hall] at hjoin
    rw [blockText_of_ne hjoin (by simp [hf]), List.length_append, List.length_replicate]
    simp [tailText]

/-! ## One block -/

/-- The last text with `cr` at its end. -/
def endWith (cr : List Char) : List (List Char) → List (List Char)
  | [] => []
  | [t] => [t ++ cr]
  | t :: u :: ts => t :: endWith cr (u :: ts)

@[simp] theorem endWith_nil (ts : List (List Char)) : endWith [] ts = ts := by
  induction ts with
  | nil => rfl
  | cons t ts ih =>
    cases ts with
    | nil => simp [endWith]
    | cons u ts => rw [endWith, ih]

theorem endWith_append (cr : List Char) (ts : List (List Char)) (t : List Char) :
    endWith cr (ts ++ [t]) = ts ++ [t ++ cr] := by
  induction ts with
  | nil => rfl
  | cons u ts ih =>
    cases ts with
    | nil => rfl
    | cons v ts =>
      rw [List.cons_append, List.cons_append, endWith]
      rw [List.cons_append] at ih
      rw [ih]
      rfl

theorem mem_endWith {cr b : List Char} {ts : List (List Char)} (h : b ∈ endWith cr ts) :
    ∃ t ∈ ts, b = t ∨ b = t ++ cr := by
  rcases List.eq_nil_or_concat ts with rfl | ⟨us, t, rfl⟩
  · cases h
  · rw [List.concat_eq_append] at h ⊢
    rw [endWith_append, List.mem_append, List.mem_singleton] at h
    rcases h with h | rfl
    · exact ⟨b, List.mem_append_left _ h, .inl rfl⟩
    · exact ⟨t, by simp, .inr rfl⟩

/-- A text that ends without an end of its last line, with the `'\r'` after it: the streamed reader
leaves them out, and what it reads ends with another character. -/
def StrayCr (cr : List Char) (fs : List (List Char)) : Prop :=
  (∀ c ∈ cr, c = '\r') ∧ ∀ t ∈ blockText fs, cr ≠ [] → t.getLast? ≠ some '\r'

theorem StrayCr.newlines {cr : List Char} (h : StrayCr cr fs) : Newlines cr :=
  fun c hc => .inr (h.1 c hc)

theorem strayCr_nil : StrayCr [] fs := ⟨by simp, by simp⟩

variable {cr : List Char}

/-- The fields of `data:` lines have no white space before them. -/
def Trimmed (fs : List (List Char)) : Prop := ∀ f ∈ fs, f = [] ∨ Solid f

theorem trimmed_fields (ls : List (List Char)) : Trimmed (ls.filterMap dataField) := by
  intro f hf
  obtain ⟨l, -, hl⟩ := List.mem_filterMap.mp hf
  unfold dataField at hl
  split at hl
  · obtain rfl := Option.some.inj hl
    cases hd : (l.drop 5).dropWhile isWhitespace with
    | nil => exact .inl rfl
    | cons c u =>
      have hc := List.head?_dropWhile_not isWhitespace (l.drop 5)
      rw [hd] at hc
      exact .inr ⟨c, u, rfl, by simpa using hc⟩
  · cases hl

theorem solid_runText {r : List (List Char)} {t : List Char} (hr : Trimmed r)
    (ht : runText r = some t) : Solid t := by
  have hcontent : ¬ NoContent r := by
    intro h
    rw [runText_noContent h] at ht
    cases ht
  obtain ⟨n, f, gs, rfl, hf, ht'⟩ := exists_content hcontent
  obtain rfl := Option.some.inj (ht.symm.trans ht')
  exact ((hr f (by simp)).resolve_left hf).append _

theorem endWith_ne_nil (cr : List Char) {ts : List (List Char)} (h : ts ≠ []) :
    endWith cr ts ≠ [] := by
  obtain ⟨us, t, rfl⟩ := (List.eq_nil_or_concat ts).resolve_left h
  rw [List.concat_eq_append, endWith_append]
  simp

theorem filterMap_ne_nil (h : ¬ NoContent rs.flatten) : rs.filterMap runText ≠ [] := by
  obtain ⟨as, r, cs, rfl, -, hr⟩ := (runs_cases rs).resolve_left h
  obtain ⟨n, f, gs, -, -, ht⟩ := exists_content hr
  simp [List.filterMap_append, ht]

/-- Fields with content come after a line end, and are not blank. -/
theorem exists_tail (h : ¬ NoContent fs) (hfs : Trimmed fs) :
    ∃ u, tailText fs = '\n' :: u ∧ ¬ Blank u := by
  obtain ⟨n, f, gs, rfl, hf, -⟩ := exists_content h
  have hsolid : Solid f := (hfs f (by simp)).resolve_left hf
  have hblank : ¬ Blank (f ++ tailText gs) := (hsolid.append _).not_blank
  cases n with
  | zero => exact ⟨f ++ tailText gs, rfl, hblank⟩
  | succ n =>
    refine ⟨tailText (List.replicate n []) ++ '\n' :: (f ++ tailText gs), ?_, ?_⟩
    · simp [tailText, List.replicate_succ]
    · exact not_blank_append_right fun hb => hblank fun c hc => hb c (.tail _ hc)

/-- What the two readers take of a block. -/
theorem blockReads (hrs : Trimmed rs.flatten) (hcr : StrayCr cr rs.flatten) :
    BlockReads (blockText rs.flatten) (endWith cr (rs.filterMap runText)) := by
  rcases runs_cases rs with h | ⟨as, r, cs, rfl, has, hr⟩
  · rw [filterMap_noContent h, endWith]
    obtain ⟨n, hn⟩ : ∃ n, n = rs.flatten.length := ⟨_, rfl⟩
    rw [h.eq_replicate, ← hn]
    cases n with
    | zero => exact .nothing
    | succ n =>
      have hjoin : joinFields (List.replicate (n + 1) []) = some (List.replicate n '\n') := by
        have htail : NoContent (List.replicate n []) := fun _ h => List.eq_of_mem_replicate h
        have := htail.tailText
        rw [List.length_replicate] at this
        rw [List.replicate_succ, joinFields, List.nil_append, ← this]
        rfl
      rw [blockText, hjoin]
      dsimp only
      split
      · exact .nothing
      · exact .blank (newlines_replicate n)
  · obtain ⟨n, t, ht, hne, -, hblock⟩ := blockText_first has hr cs
    have hsolid : Solid t := by
      refine solid_runText (fun f hf => hrs f ?_) ht
      simp [hf]
    have hruns : (as ++ r :: cs).filterMap runText = t :: cs.filterMap runText := by
      rw [List.filterMap_append, filterMap_noContent has, List.nil_append, List.filterMap_cons, ht]
    rw [hblock, hruns]
    by_cases hcs : NoContent cs.flatten
    · rw [filterMap_noContent hcs, hcs.tailText]
      exact .one (newlines_replicate n) hsolid (newlines_replicate _) hcr.newlines
    · obtain ⟨u, hu, hblank⟩ := exists_tail hcs fun f hf => hrs f (by simp [hf])
      have hmore : cs.filterMap runText ≠ [] := filterMap_ne_nil hcs
      obtain ⟨t', ts, hts⟩ := List.exists_cons_of_ne_nil hmore
      have hend : endWith cr (t :: cs.filterMap runText) =
          t :: endWith cr (cs.filterMap runText) := by
        rw [hts, endWith]
      have hlen : ∀ v ∈ cs.filterMap runText,
          v.length < (List.replicate n '\n' ++ t ++ '\n' :: u).length := by
        intro v hv
        obtain ⟨r', hr', hv⟩ := List.mem_filterMap.mp hv
        have := length_le_of_runText hr' hv
        have := List.length_pos_of_ne_nil hne
        rw [← hu, List.length_append, List.length_append]
        omega
      rw [hend, hu]
      refine .more (newlines_replicate n) hsolid hblank (fun b hb => ?_) (endWith_ne_nil cr hmore)
      obtain ⟨v, hv, rfl | rfl⟩ := mem_endWith hb
      · refine ⟨b, [], by simp, by simp [Newlines], hlen b hv, fun h => ?_⟩
        exact absurd (hlen b hv) (by rw [h]; exact lt_irrefl _)
      · refine ⟨v, cr, rfl, hcr.newlines, hlen v hv, fun h => ?_⟩
        by_cases hnil : cr = []
        · rw [hnil, List.append_nil] at h
          exact absurd (hlen v hv) (by rw [h]; exact lt_irrefl _)
        · -- the one ends with a `'\r'`, the other does not
          have hlast := hcr.2 _ (by rw [hblock]; rfl) hnil
          rw [hu, ← h, List.getLast?_append_of_ne_nil _ hnil] at hlast
          refine hlast ?_
          rw [List.getLast?_eq_some_getLast hnil, hcr.1 _ (List.getLast_mem hnil)]

/-- The `data:` lines of a block are none, or one without content; or those with content are in one
run, and the block has no others before or outside it and ends with its last field as it is, unless
the text of the run is JSON, to which line ends around it do not matter. -/
def InOneRun (parse : String → Option Json) (unaltered : Prop)
    (rs : List (List (List Char))) : Prop :=
  NoContent rs.flatten ∧ rs.flatten.length ≤ 1 ∨
  ∃ as r cs, rs = as ++ r :: cs ∧ NoContent as.flatten ∧ ¬ NoContent r ∧ NoContent cs.flatten ∧
    (as.flatten = [] ∧ r.head? ≠ some [] ∧ cs.flatten = [] ∧ unaltered ∨
      ∃ t ∈ runText r, (parse (String.ofList t)).isSome)

/-- Where one run has content. -/
theorem alike_one (hparse : JsonText parse) {r : List (List Char)} (has : NoContent as.flatten)
    (hr : ¬ NoContent r) (hcs : NoContent cs.flatten) (hrs : Trimmed (as ++ r :: cs).flatten)
    (hcr : ∀ c ∈ cr, c = '\r') :
    Alike parse (blockText (as ++ r :: cs).flatten)
        (endWith cr ((as ++ r :: cs).filterMap runText)) ↔
      (as.flatten = [] ∧ r.head? ≠ some [] ∧ cs.flatten = [] ∧ cr = [] ∨
        ∃ t ∈ runText r, (parse (String.ofList t)).isSome) := by
  obtain ⟨n, t, ht, hne, hn, hblock⟩ := blockText_first has hr cs
  have hsolid : Solid t := solid_runText (fun f hf => hrs f (by simp [hf])) ht
  have hruns : (as ++ r :: cs).filterMap runText = [t] := by
    rw [List.filterMap_append, filterMap_noContent has, List.nil_append, List.filterMap_cons, ht,
      filterMap_noContent hcs]
  have hcr' : parse (String.ofList (t ++ cr)) = parse (String.ofList t) :=
    hparse.newlines (s := []) (by simp [Newlines]) fun c hc => .inr (hcr c hc)
  rw [hblock, hruns, hcs.tailText, endWith, Alike, hcr']
  refine or_congr ⟨fun h => ?_, fun h => ?_⟩ (by simp [ht])
  · -- the text starts with no line end, and no `'\r'` is one of those after it
    have hzero : n = 0 := by
      obtain ⟨c, u, rfl, hc⟩ := hsolid
      cases n with
      | zero => rfl
      | succ n =>
        obtain rfl : '\n' = c := (List.cons.inj h).1
        exact absurd hc (by decide)
    rw [hzero, List.replicate_zero, List.nil_append, List.append_right_inj] at h
    have hcs' : cs.flatten = [] := by
      cases hlen : cs.flatten.length with
      | zero => exact List.length_eq_zero_iff.mp hlen
      | succ m =>
        rw [hlen, List.replicate_succ] at h
        exact absurd (hcr '\n' (h ▸ List.mem_cons_self)) (by decide)
    rw [hcs', List.length_nil, List.replicate_zero] at h
    exact ⟨(hn.mp hzero).1, (hn.mp hzero).2, hcs', h.symm⟩
  · obtain ⟨has', hhead, hcs', rfl⟩ := h
    rw [hn.mpr ⟨has', hhead⟩, hcs']
    simp

/-- The two readers take the same event of a block exactly when its data is in one run. -/
theorem alike_iff_inOneRun (hparse : JsonText parse) (hrs : Trimmed rs.flatten)
    (hcr : ∀ c ∈ cr, c = '\r') :
    Alike parse (blockText rs.flatten) (endWith cr (rs.filterMap runText)) ↔
      InOneRun parse (cr = []) rs := by
  refine ⟨fun h => ?_, ?_⟩
  · rcases runs_cases rs with hnone | ⟨as, r, cs, rfl, has, hr⟩
    · refine .inl ⟨hnone, Nat.not_lt.mp fun hlen => ?_⟩
      -- two lines without content are a line end for the streamed reader
      rw [filterMap_noContent hnone] at h
      obtain ⟨f, g, fs, hfs⟩ : ∃ f g fs, rs.flatten = f :: g :: fs := by
        match rs.flatten, hlen with
        | f :: g :: fs, _ => exact ⟨f, g, fs, rfl⟩
      have hne : f ++ tailText (g :: fs) ≠ [] := by simp [tailText]
      rw [hfs, blockText_of_ne rfl hne] at h
      exact h
    · by_cases hcs : NoContent cs.flatten
      · exact .inr ⟨as, r, cs, rfl, has, hr, hcs, (alike_one hparse has hr hcs hrs hcr).mp h⟩
      · obtain ⟨n, t, ht, -, -, hblock⟩ := blockText_first has hr cs
        obtain ⟨t', ts, hts⟩ := List.exists_cons_of_ne_nil (filterMap_ne_nil hcs)
        rw [hblock, List.filterMap_append, filterMap_noContent has, List.nil_append,
          List.filterMap_cons, ht] at h
        dsimp only at h
        rw [hts] at h
        obtain ⟨u, us, hus⟩ := List.exists_cons_of_ne_nil
          (endWith_ne_nil cr (List.cons_ne_nil t' ts))
        rw [endWith, hus] at h
        exact h.elim
  · rintro (⟨hnone, hlen⟩ | ⟨as, r, cs, rfl, has, hr, hcs, h⟩)
    · rw [filterMap_noContent hnone]
      match hfs : rs.flatten, hlen with
      | [], _ => trivial
      | [f], _ =>
        obtain rfl := hnone f (by simp [hfs])
        trivial
    · exact (alike_one hparse has hr hcs hrs hcr).mpr h

/-! ## The lines of a text -/

/-- The texts of the `data:` lines. -/
def dataFields (s : List Char) : List (List Char) := (lines s).filterMap dataField

/-- What the buffered reader has after some lines. -/
theorem eventTexts_append (buf : List Char) (ls : List (List Char)) :
    ∃ ts buf', ∀ ms, eventTexts buf (ls ++ ms) = ts ++ eventTexts buf' ms := by
  induction ls generalizing buf with
  | nil => exact ⟨[], buf, fun ms => rfl⟩
  | cons l ls ih =>
    cases hl : dataField l with
    | some f =>
      obtain ⟨ts, buf', h⟩ := ih (appendData buf f)
      refine ⟨ts, buf', fun ms => ?_⟩
      rw [List.cons_append, eventTexts, hl]
      exact h ms
    | none =>
      by_cases hempty : l = []
      · obtain ⟨ts, buf', h⟩ := ih []
        refine ⟨(if buf = [] then [] else [buf]) ++ ts, buf', fun ms => ?_⟩
        rw [List.cons_append, eventTexts, hl]
        dsimp only
        rw [if_pos hempty, h, List.append_assoc]
      · obtain ⟨ts, buf', h⟩ := ih buf
        refine ⟨ts, buf', fun ms => ?_⟩
        rw [List.cons_append, eventTexts, hl]
        dsimp only
        rw [if_neg hempty, h]

/-- Lines without data end an event at most. -/
theorem eventTexts_quiet (h : ∀ l ∈ ls, dataField l = none) :
    eventTexts buf ls = if buf = [] then [] else [buf] := by
  induction ls generalizing buf with
  | nil => rfl
  | cons l ls ih =>
    rw [List.forall_mem_cons] at h
    rw [eventTexts, h.1]
    dsimp only
    rw [ih h.2, ih h.2, if_pos rfl, List.append_nil, ite_self]

/-- The buffered reader starts anew after a block. -/
theorem eventTexts_block {b : List Char} (hb : endsBlock b = true) (s : List Char) :
    eventTexts [] (lines (b ++ s)) = eventTexts [] (lines b) ++ eventTexts [] (lines s) := by
  obtain ⟨hrest, ls, hls⟩ := lines_of_endsBlock hb
  obtain ⟨ts, buf, h⟩ := eventTexts_append [] ls
  have hempty : dataField [] = none := rfl
  rw [lines_append_of_nil hrest, hls, List.append_assoc, h, h, List.singleton_append, eventTexts,
    hempty, eventTexts, hempty]
  simp [eventTexts]

/-- The blocks of a text are read one by one. -/
theorem eventTexts_drainBlocks (text : List Char) : eventTexts [] (lines text) =
    (drainBlocks text).1.flatMap (fun b => eventTexts [] (lines b)) ++
      eventTexts [] (lines (drainBlocks text).2) := by
  refine drainBlocks_rec (motive := fun bs t => eventTexts [] (lines t) =
    bs.flatMap (fun b => eventTexts [] (lines b)) ++ eventTexts [] (lines (drainBlocks text).2))
    text rfl fun b bs t hb ih => ?_
  rw [eventTexts_block hb, ih, List.flatMap_cons, List.append_assoc]

/-! ## The end of a text -/

/-- A text is without line ends at its end, and has them after it. -/
theorem trimEndNewlines_eq (s : List Char) : ∃ tail, s = trimEndNewlines s ++ tail ∧
    Newlines tail ∧ ∀ c ∈ (trimEndNewlines s).getLast?, c ≠ '\n' ∧ c ≠ '\r' := by
  obtain ⟨p, hp⟩ : ∃ p : Char → Bool, p = fun c => c = '\n' || c = '\r' := ⟨_, rfl⟩
  have htrim : trimEndNewlines s = s.rdropWhile p := by rw [hp]; rfl
  rw [htrim]
  refine ⟨s.rtakeWhile p, List.rdropWhile_append_rtakeWhile.symm, fun c hc => ?_, fun c hc => ?_⟩
  · have := List.mem_rtakeWhile_imp hc
    simpa [hp] using this
  · obtain ⟨hne, rfl⟩ := List.mem_getLast?_eq_getLast hc
    have := List.rdropWhile_last_not p s hne
    simpa [hp] using this

theorem dataField_cr {l : List Char} (h : ∀ c ∈ l, c = '\r') : dataField l = none := by
  unfold dataField
  rw [if_neg]
  intro hpre
  exact absurd (h 'd' (hpre.subset (by decide))) (by decide)

/-- A line with `'\r'` after it. -/
theorem dataField_append_cr (l : List Char) {cr : List Char} (h : ∀ c ∈ cr, c = '\r') :
    dataField (l ++ cr) = (dataField l).map fun f => if f = [] then [] else f ++ cr := by
  have hmem : ∀ c ∈ "data:".toList, c ∉ cr := by
    intro c hc hcr
    rw [h c hcr] at hc
    exact absurd hc (by decide)
  have hiff : "data:".toList <+: l ++ cr ↔ "data:".toList <+: l := by
    refine ⟨fun hpre => ?_, fun hpre => hpre.trans (List.prefix_append l cr)⟩
    cases cr with
    | nil => simpa using hpre
    | cons c cr => exact isPrefix_of_notMem (fun hc => hmem c hc List.mem_cons_self) hpre
  unfold dataField
  split
  next hpre =>
    have hlen : 5 ≤ l.length := (hiff.mp hpre).length_le
    have hws : cr.dropWhile isWhitespace = [] :=
      List.dropWhile_eq_nil_iff.mpr fun c hc => by rw [h c hc]; decide
    rw [if_pos (hiff.mp hpre), List.drop_append_of_le_length hlen, List.dropWhile_append, hws]
    simp [List.isEmpty_iff]
  next hpre => rw [if_neg (mt hiff.mpr hpre)]; rfl

/-- The lines of a text whose characters are line ends. -/
theorem Newlines.lines {s : List Char} (h : Newlines s) : ∀ l ∈ lines s, ∀ c ∈ l, c = '\r' := by
  intro l hl c hc
  obtain ⟨hmem, hne⟩ := mem_of_mem_lines hl hc
  exact (h c hmem).resolve_left hne

theorem Newlines.quiet {s : List Char} (h : Newlines s) : ∀ l ∈ Lib.lines s, dataField l = none :=
  fun l hl => dataField_cr (h.lines l hl)

theorem getLast?_field {l : List Char} (hl : dataField l = some f) (hf : f ≠ []) :
    f.getLast? = l.getLast? := by
  unfold dataField at hl
  split at hl
  · obtain rfl := Option.some.inj hl
    obtain ⟨u, hu⟩ := (List.dropWhile_suffix isWhitespace).trans (List.drop_suffix 5 l)
    conv_rhs => rw [← hu, List.getLast?_append_of_ne_nil _ hf]
  · cases hl

/-- The last field of a text is at its end. -/
theorem getLast?_blockText (fs : List (List Char)) (hf : f ≠ []) {t : List Char}
    (h : blockText (fs ++ [f]) = some t) : t.getLast? = f.getLast? := by
  have hjoin : ∃ u, joinFields (fs ++ [f]) = some (u ++ f) := by
    cases fs with
    | nil => exact ⟨[], by simp [joinFields]⟩
    | cons g fs => exact ⟨g ++ fs.flatMap ('\n' :: ·) ++ ['\n'], by simp [joinFields]⟩
  obtain ⟨u, hu⟩ := hjoin
  rw [blockText_of_ne hu (by simp [hf])] at h
  rw [← Option.some.inj h, List.getLast?_append_of_ne_nil _ hf]

/-- What the buffered reader takes of a last line with `'\r'` after it. -/
theorem eventTexts_cr {l : List Char} (hl : dataField l = some f) (hf : f ≠ [])
    (hcr : ∀ c ∈ cr, c = '\r') (hquiet : ∀ m ∈ gs, dataField m = none) :
    eventTexts [] (ls ++ (l ++ cr) :: gs) = endWith cr (eventTexts [] (ls ++ [l])) := by
  obtain ⟨ts, buf, h⟩ := eventTexts_append [] ls
  have hdata : dataField (l ++ cr) = some (f ++ cr) := by
    rw [dataField_append_cr l hcr, hl]
    simp [hf]
  have happ : appendData buf (f ++ cr) = appendData buf f ++ cr := by simp [appendData]
  have hne : appendData buf f ≠ [] := by simp [appendData, hf]
  rw [h, h, eventTexts, hdata]
  dsimp only
  rw [eventTexts_quiet hquiet, eventTexts, hl]
  dsimp only
  rw [eventTexts, if_neg hne, happ, if_neg (by simp [hne]), endWith_append]

/-- Of a last line the field counts, and not what comes after it without data. -/
theorem eventTexts_last {l m : List Char} (h : dataField m = dataField l)
    (hquiet : ∀ m ∈ gs, dataField m = none) :
    eventTexts [] (ls ++ m :: gs) = eventTexts [] (ls ++ [l]) := by
  obtain ⟨ts, buf, hts⟩ := eventTexts_append [] ls
  rw [hts, hts]
  cases hl : dataField l with
  | none =>
    rw [eventTexts_quiet (by simpa [h, hl] using hquiet), eventTexts_quiet (by simpa using hl)]
  | some f =>
    rw [eventTexts, h, eventTexts, hl]
    dsimp only
    rw [eventTexts_quiet hquiet, eventTexts]

/-- The text that is left: the streamed reader takes it without the line ends after it, of which the
buffered one keeps each `'\r'` on the last line of data. -/
theorem eventTexts_rest (s : List Char) : ∃ cr, StrayCr cr (dataFields (trimEndNewlines s)) ∧
    eventTexts [] (lines s) = endWith cr (eventTexts [] (lines (trimEndNewlines s))) ∧
    (cr = [] ↔ dataFields s = dataFields (trimEndNewlines s)) := by
  obtain ⟨tail, hs, htail, hlast⟩ := trimEndNewlines_eq s
  obtain ⟨t, ht⟩ : ∃ t, trimEndNewlines s = t := ⟨_, rfl⟩
  rw [ht] at hs hlast ⊢
  subst hs
  by_cases hnil : t = []
  · refine ⟨[], strayCr_nil, ?_, ?_⟩
    · rw [hnil, List.nil_append, eventTexts_quiet htail.quiet, if_pos rfl]
      rfl
    · have hfields : dataFields tail = [] := List.filterMap_eq_nil_iff.mpr htail.quiet
      rw [hnil, List.nil_append, hfields]
      exact iff_of_true rfl rfl
  have hlf : t.getLast? ≠ some '\n' := fun h => (hlast _ h).1 rfl
  have hcr : t.getLast? ≠ some '\r' := fun h => (hlast _ h).2 rfl
  obtain ⟨hne, hl⟩ := getLast?_segments hnil hlf
  -- the lines of the two texts, which part at the end of the last one of `t`
  obtain ⟨ls, l, cr, quiet, hl, hcrs, hquiet, hlines, hlines'⟩ : ∃ ls l cr quiet,
      l.getLast? ≠ some '\r' ∧ (∀ c ∈ cr, c = '\r') ∧ (∀ m ∈ quiet, dataField m = none) ∧
      lines t = ls ++ [l] ∧ lines (t ++ tail) = ls ++ (l ++ cr) :: quiet := by
    refine ⟨(segments t).1.map stripCr, (segments t).2, (lines tail).headD [], (lines tail).tail,
      hl ▸ hcr, ?_, fun m hm => htail.quiet m (List.mem_of_mem_tail hm), ?_, ?_⟩
    · have := htail.lines
      cases hq : lines tail with
      | nil => simp
      | cons m ms => exact this m (by simp [hq])
    · rw [lines, if_neg hne]
    · rw [lines_append, lines_glue (notMem_segments t).2 hne (hl ▸ hcr)]
  have hfields : dataFields t = ls.filterMap dataField ++ (dataField l).toList := by
    rw [dataFields, hlines, List.filterMap_append]
    cases h : dataField l <;> simp [h]
  have hfields' : dataFields (t ++ tail) =
      ls.filterMap dataField ++ (dataField (l ++ cr)).toList := by
    rw [dataFields, hlines', List.filterMap_append, List.filterMap_cons,
      List.filterMap_eq_nil_iff.mpr hquiet]
    cases dataField (l ++ cr) <;> rfl
  by_cases hsame : dataField (l ++ cr) = dataField l
  · refine ⟨[], strayCr_nil, ?_, ?_⟩
    · rw [hlines, hlines', eventTexts_last hsame hquiet, endWith_nil]
    · rw [hfields, hfields', hsame]
      simp
  · obtain ⟨f, hf, hfne⟩ : ∃ f, dataField l = some f ∧ f ≠ [] := by
      rw [dataField_append_cr l hcrs] at hsame
      cases hd : dataField l with
      | none => exact absurd (by rw [hd]; rfl) hsame
      | some f =>
        refine ⟨f, rfl, fun h => hsame ?_⟩
        rw [hd, Option.map_some, if_pos h, h]
    have hdata : dataField (l ++ cr) = some (f ++ cr) := by
      rw [dataField_append_cr l hcrs, hf, Option.map_some, if_neg hfne]
    refine ⟨cr, ⟨hcrs, fun u hu _ => ?_⟩, ?_, ?_⟩
    · rw [hfields, hf] at hu
      rw [getLast?_blockText _ hfne hu, getLast?_field hf hfne]
      exact hl
    · rw [hlines, hlines', eventTexts_cr hf hfne hcrs hquiet]
    · rw [hfields, hfields', List.append_right_inj, hdata, hf]
      simp

/-! ## The two readers -/

/-- What the readers take of the blocks of a text, and of the rest, which the streamed one takes
without the line ends after it. -/
def readings (text : List Char) : Readings :=
  let rest := (drainBlocks text).2
  (drainBlocks text).1.map (fun b => (blockText (dataFields b), eventTexts [] (lines b))) ++
    [(blockText (dataFields (trimEndNewlines rest)), eventTexts [] (lines rest))]

theorem streamedEvents_readings (parse : String → Option Json) (text : List Char) :
    (textPayloads text).map (parseEvent parse) = streamedEvents parse (readings text) := by
  have hblocks : ∀ bs : List (List Char), (bs.filterMap blockPayload).map (parseEvent parse) =
      bs.flatMap fun b => (blockText (dataFields b)).toList.map (eventOf parse) := by
    intro bs
    induction bs with
    | nil => rfl
    | cons b bs ih =>
      rw [List.filterMap_cons, List.flatMap_cons, ← ih, blockPayload_eq]
      change _ = (blockText ((lines b).filterMap dataField)).toList.map _ ++ _
      cases blockText ((lines b).filterMap dataField) with
      | none => rfl
      | some t => rfl
  rw [textPayloads, hblocks, List.flatMap_append, streamedEvents, readings, List.flatMap_append,
    List.flatMap_map]
  rfl

theorem bufferedEvents_readings (parse : String → Option Json) (text : List Char) :
    replyEvents parse text = bufferedEvents parse (readings text) := by
  rw [replyEvents, eventTexts_drainBlocks, List.map_append, List.map_flatMap, bufferedEvents,
    readings, List.flatMap_append, List.flatMap_map, List.flatMap_singleton]
  rfl

/-- In every block the data is in one run; and so in the rest of the text, whose last line of data
the streamed reader has without the `'\r'` after it. -/
def OneRunEach (parse : String → Option Json) (text : List Char) : Prop :=
  let rest := (drainBlocks text).2
  (∀ b ∈ (drainBlocks text).1, InOneRun parse True (dataRuns (lines b))) ∧
    InOneRun parse (dataFields rest = dataFields (trimEndNewlines rest))
      (dataRuns (lines (trimEndNewlines rest)))

theorem events_eq_iff (hparse : JsonText parse) (text : List Char) :
    (textPayloads text).map (parseEvent parse) = replyEvents parse text ↔
      OneRunEach parse text := by
  obtain ⟨cr, hstray, htexts, hcr⟩ := eventTexts_rest (drainBlocks text).2
  have htrimmed : ∀ s, Trimmed (dataRuns (lines s)).flatten := by
    intro s
    rw [flatten_dataRuns]
    exact trimmed_fields _
  have hblock : ∀ s cr, StrayCr cr (dataFields s) →
      BlockReads (blockText (dataFields s)) (endWith cr (eventTexts [] (lines s))) ∧
      (Alike parse (blockText (dataFields s)) (endWith cr (eventTexts [] (lines s))) ↔
        InOneRun parse (cr = []) (dataRuns (lines s))) := by
    intro s cr hs
    rw [dataFields, ← flatten_dataRuns] at hs ⊢
    rw [eventTexts_runs]
    exact ⟨blockReads (htrimmed s) hs, alike_iff_inOneRun hparse (htrimmed s) hs.1⟩
  -- of a block that ends nothing is trimmed
  have hwhole := fun b => hblock b [] strayCr_nil
  simp only [endWith_nil] at hwhole
  obtain ⟨hreads, halike⟩ := hblock _ cr hstray
  rw [streamedEvents_readings, bufferedEvents_readings, readings, htexts,
    streamed_eq_buffered_iff hparse, List.forall_mem_append, List.forall_mem_map,
    List.forall_mem_singleton, OneRunEach, halike, propext hcr]
  · exact and_congr_left fun _ => forall₂_congr fun b _ => (hwhole b).2
  · rw [List.forall_mem_append, List.forall_mem_map, List.forall_mem_singleton]
    exact ⟨fun b _ => (hwhole b).1, hreads⟩

/-- What `parse_sse_json_rpc` answers. -/
theorem toOption_parseSseJsonRpc (parse : String → Option Json) (text : List Char)
    (requestId : Option Json) : (parseSseJsonRpc parse text requestId).toOption.map Prod.fst =
      (lastResponse (replyEvents parse text) requestId).bind JsonRpcResponse.fromValue := by
  have hresponse := responseEvent_auditEvents parse text requestId
  rw [← hresponse, parseSseJsonRpc]
  split
  next hempty =>
    rw [List.isEmpty_iff.mp hempty]
    cases requestId with
    | none => rfl
    | some rid => rfl
  next =>
    cases responseEvent (auditEvents parse text) requestId with
    | none => rfl
    | some e =>
      rw [Option.bind_some]
      dsimp only
      cases JsonRpcResponse.fromValue e with
      | none => rfl
      | some response => rfl

variable {text : List Char} {chunks : List (List UInt8)}

/-- The body captures the events that `parse_sse_json_rpc` reads, and the same response is found
among them, or none. -/
def ReadAlike (parse : String → Option Json) (requestId : Option Json)
    (chunks : List (List UInt8)) (text : List Char) : Prop :=
  let events := captured parse (buildPassthroughBody requestId (arrived chunks))
  events = replyEvents parse text ∧ pickResponseEnvelope events requestId =
    (parseSseJsonRpc parse text requestId).toOption.map Prod.fst

theorem readers_agree_iff (hparse : JsonText parse) (requestId : Option Json)
    (hfit : Fits [] chunks) (hwhole : Whole [] chunks)
    (htext : chunks.flatten = text.flatMap String.utf8EncodeChar) :
    ReadAlike parse requestId chunks text ↔ OneRunEach parse text := by
  have hcaptured : captured parse (buildPassthroughBody requestId (arrived chunks)) =
      (textPayloads text).map (parseEvent parse) := by
    have := (textPayloads_chunks [] chunks).1 hwhole
    rw [List.nil_append, htext, Utf8.decode_encoded] at this
    rw [captured, payloads_arrived hfit, this]
    rfl
  -- where the events are the same, so is what the two pickers find
  rw [← events_eq_iff hparse, ReadAlike, hcaptured]
  refine ⟨And.left, fun h => ⟨h, ?_⟩⟩
  rw [h, pickResponseEnvelope_eq, toOption_parseSseJsonRpc]

/-- `serde_json::from_str`, where the empty object is the only JSON. -/
def parseEmptyObject (t : String) : Option Json :=
  if t.toList.filter (fun c => !isJsonSpace c) = ['\x7b', '\x7d'] then some (.obj []) else none

theorem parseEmptyObject_eq_some {t : List Char} {v : Json} :
    parseEmptyObject (String.ofList t) = some v ↔
      t.filter (fun c => !isJsonSpace c) = ['\x7b', '\x7d'] ∧ v = .obj [] := by
  rw [parseEmptyObject, String.toList_ofList]
  split
  next h => simp [h, eq_comm]
  next h => simp [h]

theorem filter_eq_nil_iff_blank {t : List Char} :
    t.filter (fun c => !isJsonSpace c) = [] ↔ Blank t := by
  simp [List.filter_eq_nil_iff, Blank]

theorem jsonText_parseEmptyObject : JsonText parseEmptyObject where
  newlines := by
    intro s t u hs hu
    rw [parseEmptyObject, parseEmptyObject, String.toList_ofList, String.toList_ofList,
      List.filter_append, List.filter_append, filter_eq_nil_iff_blank.mpr hs.blank,
      filter_eq_nil_iff_blank.mpr hu.blank, List.nil_append, List.append_nil]
  empty := rfl
  string_lt := by
    intro t x h
    cases (parseEmptyObject_eq_some.mp h).2
  string_oneLine := by
    intro s t x h
    cases (parseEmptyObject_eq_some.mp h).2
  trailing := by
    intro s t v h ht
    refine Option.eq_none_iff_forall_ne_some.mpr fun w hw => ht (filter_eq_nil_iff_blank.mp ?_)
    have hs := (parseEmptyObject_eq_some.mp h).1
    have hst := (parseEmptyObject_eq_some.mp hw).1
    rw [List.filter_append, hs] at hst
    simpa [List.filter_cons, isJsonSpace] using hst

/-- Two events of which one has its data on two lines, and one without an end. -/
def goodReply : List Char := "data: \x7b\r\ndata: \x7d\r\n\r\ndata: \x7b\x7d\r\n".toList

theorem readers_agree_good :
    ReadAlike parseEmptyObject (some (.int 1)) [goodReply.flatMap String.utf8EncodeChar]
      goodReply := by
  have hfit : Fits [] [goodReply.flatMap String.utf8EncodeChar] := by decide +kernel
  have hwhole : Whole [] [goodReply.flatMap String.utf8EncodeChar] :=
    ⟨by decide +kernel, trivial⟩
  have hblocks : (drainBlocks goodReply).1.map (fun b => dataRuns (lines b)) =
      [[[['\x7b'], ['\x7d']], []]] := by decide +kernel
  refine (readers_agree_iff jsonText_parseEmptyObject _ hfit hwhole (by simp)).mpr ⟨?_, ?_⟩
  · intro b hb
    have hruns : dataRuns (lines b) ∈ [[[['\x7b'], ['\x7d']], []]] := by
      rw [← hblocks]
      exact List.mem_map_of_mem hb
    rw [List.mem_singleton.mp hruns]
    exact .inr ⟨[], _, [[]], rfl, by decide, by decide, by decide, .inl (by simp)⟩
  · have hrest : dataRuns (lines (trimEndNewlines (drainBlocks goodReply).2)) =
        [[['\x7b', '\x7d']]] := by decide +kernel
    rw [hrest]
    exact .inr ⟨[], _, [], rfl, by decide, by decide, by decide, .inl (by decide +kernel)⟩

/-- A notification and the response, with an empty line between them whose end is not that of the
line before it. -/
def mixedReply : List Char :=
  ("data: " ++ progressText ++ "\n\r\ndata: " ++ resultText ++ "\n\n").toList

/-- The streamed reader takes the two events for one, which is not JSON, and finds no response. -/
theorem mixed_endings_read_apart :
    let chunks := [mixedReply.flatMap String.utf8EncodeChar]
    let events := captured parseTwo (buildPassthroughBody (some (.int 1)) (arrived chunks))
    Fits [] chunks ∧ Whole [] chunks ∧
      ¬ ReadAlike parseTwo (some (.int 1)) chunks mixedReply ∧
      events = [.str (progressText ++ "\n" ++ resultText)] ∧
      replyEvents parseTwo mixedReply = [progressEvent, resultEvent] ∧
      pickResponseEnvelope events (some (.int 1)) = none ∧
      (parseSseJsonRpc parseTwo mixedReply (some (.int 1))).toOption.map Prod.fst =
        some ⟨"2.0", some (.int 1), some (.int 2), none⟩ := by
  intro chunks events
  have hpayloads : payloads (buildPassthroughBody (some (.int 1)) (arrived chunks)) =
      [progressText ++ "\n" ++ resultText] := by decide +kernel
  have htexts : eventTexts [] (lines mixedReply) = [progressText.toList, resultText.toList] := by
    decide +kernel
  have hp : parseTwo progressText = some progressEvent := rfl
  have hr : parseTwo resultText = some resultEvent := by
    rw [parseTwo, if_neg (by decide +kernel), if_pos rfl]
  have hboth : parseTwo (progressText ++ "\n" ++ resultText) = none := by
    rw [parseTwo, if_neg (by decide +kernel), if_neg (by decide +kernel)]
  have hevents : events = [.str (progressText ++ "\n" ++ resultText)] := by
    show captured _ _ = _
    rw [captured, hpayloads, List.map_singleton, parseEvent, hboth]
    rfl
  have hreply : replyEvents parseTwo mixedReply = [progressEvent, resultEvent] := by
    simp [replyEvents, htexts, parseEvent, hp, hr]
  refine ⟨by decide +kernel, ⟨by decide +kernel, trivial⟩, fun h => ?_, hevents, hreply, ?_, ?_⟩
  · have : events = replyEvents parseTwo mixedReply := h.1
    rw [hevents, hreply] at this
    cases this
  · rw [hevents]
    rfl
  · rw [toOption_parseSseJsonRpc, hreply]
    rfl

end ThinkWatch.Mcp
