import ThinkWatch.Mcp.Sse

/-!
# Two readers of one text

What the streamed and the buffered reader of an event stream may take from one block of a text, and
what follows for the whole. The streamed reader takes one text or none. The buffered reader takes
the same, but for line ends around it, or has more, because the block has an empty line within it,
or has none where the other has one that is blank. A reader that is ahead once stays ahead
(`not_caught_up`), so the two agree on a text exactly when they agree on every block of it.
-/

namespace ThinkWatch.Mcp

open Lib Policy

variable {parse : String → Option Json} {a b c l s t : List Char} {e : Json} {bs : List (List Char)}
  {q : List Json}

/-! ## Texts -/

def Newlines (t : List Char) : Prop := ∀ c ∈ t, c = '\n' ∨ c = '\r'

/-- White space of JSON. -/
def isJsonSpace (c : Char) : Bool := c = ' ' || c = '\t' || c = '\n' || c = '\r'

def Blank (t : List Char) : Prop := ∀ c ∈ t, isJsonSpace c = true

/-- The text starts with a character that is not white space. -/
def Solid (t : List Char) : Prop := ∃ c u, t = c :: u ∧ isWhitespace c = false

theorem Newlines.blank (h : Newlines t) : Blank t := by
  intro c hc
  rcases h c hc with rfl | rfl <;> decide

theorem Newlines.append (hs : Newlines s) (ht : Newlines t) : Newlines (s ++ t) :=
  fun c hc => (List.mem_append.mp hc).elim (hs c) (ht c)

theorem Solid.not_blank (h : Solid t) : ¬ Blank t := by
  obtain ⟨c, u, rfl, hc⟩ := h
  intro hb
  have hspace := hb c List.mem_cons_self
  simp only [isJsonSpace, Bool.or_eq_true, decide_eq_true_eq, or_assoc] at hspace
  rcases hspace with rfl | rfl | rfl | rfl
  all_goals exact absurd hc (by decide)

theorem Solid.append (h : Solid t) (u : List Char) : Solid (t ++ u) := by
  obtain ⟨c, v, rfl, hc⟩ := h
  exact ⟨c, v ++ u, rfl, hc⟩

theorem not_blank_append_left (h : ¬ Blank s) : ¬ Blank (s ++ t) :=
  fun hb => h fun c hc => hb c (List.mem_append_left t hc)

theorem not_blank_append_right (h : ¬ Blank t) : ¬ Blank (s ++ t) :=
  fun hb => h fun c hc => hb c (List.mem_append_right s hc)

/-- What is relied on of `serde_json::from_str`: line ends around a text do not matter, an empty
text is no JSON, a string is shorter than the literal it is written as, which is on one line, and
nothing but white space may follow a value. -/
structure JsonText (parse : String → Option Json) : Prop where
  newlines : ∀ {s t u}, Newlines s → Newlines u →
    parse (String.ofList (s ++ t ++ u)) = parse (String.ofList t)
  empty : parse "" = none
  string_lt : ∀ {t x}, parse (String.ofList t) = some (.str x) → x.length < t.length
  string_oneLine : ∀ {s t x}, parse (String.ofList (s ++ '\n' :: t)) = some (.str x) →
    Blank s ∨ Blank t
  trailing : ∀ {s t v}, parse (String.ofList s) = some v → ¬ Blank t →
    parse (String.ofList (s ++ '\n' :: t)) = none

/-- The event of a text. -/
def eventOf (parse : String → Option Json) (t : List Char) : Json :=
  parseEvent parse (String.ofList t)

theorem eventOf_of_some (h : parse (String.ofList t) = some e) : eventOf parse t = e := by
  rw [eventOf, parseEvent, h]
  rfl

theorem eventOf_of_none (h : parse (String.ofList t) = none) :
    eventOf parse t = .str (String.ofList t) := by
  rw [eventOf, parseEvent, h]
  rfl

theorem str_ofList_inj : Json.str (String.ofList s) = .str (String.ofList t) ↔ s = t := by
  rw [Json.str.injEq, String.ofList_inj]

/-! ## What is read of a block -/

/-- The text the streamed reader takes from a block, and the texts the buffered reader takes. -/
inductive BlockReads : Option (List Char) → List (List Char) → Prop
  | nothing : BlockReads none []
  | blank {s : List Char} (hs : Newlines s) : BlockReads (some s) []
  | one {a s b c : List Char} (ha : Newlines a) (hs : Solid s) (hb : Newlines b) (hc : Newlines c) :
    BlockReads (some (a ++ s ++ b)) [s ++ c]
  | more {a s t : List Char} {bs : List (List Char)} (ha : Newlines a) (hs : Solid s)
    (ht : ¬ Blank t)
    (hbs : ∀ b ∈ bs, ∃ u v, b = u ++ v ∧ Newlines v ∧ u.length < (a ++ s ++ '\n' :: t).length ∧
      b ≠ a ++ s ++ '\n' :: t) (hne : bs ≠ []) : BlockReads (some (a ++ s ++ '\n' :: t)) (s :: bs)

/-- The two take the same text, or one that is JSON and has line ends around it. -/
def Alike (parse : String → Option Json) : Option (List Char) → List (List Char) → Prop
  | none, [] => True
  | some s, [b] => s = b ∨ (parse (String.ofList b)).isSome
  | _, _ => False

theorem alike_of_reads (hparse : JsonText parse) {o : Option (List Char)} (h : BlockReads o bs)
    (ho : o.toList.length = bs.length) :
    o.toList.map (eventOf parse) = bs.map (eventOf parse) ↔ Alike parse o bs := by
  cases h with
  | nothing => simp [Alike]
  | blank hs => cases ho
  | @one a s b c ha hs hb hc =>
    have hl := hparse.newlines (t := s) ha hb
    have hr : parse (String.ofList (s ++ c)) = parse (String.ofList s) :=
      hparse.newlines (s := []) (by simp [Newlines]) hc
    rw [Option.toList_some, List.map_singleton, List.map_singleton, List.cons.injEq,
      and_iff_left rfl, Alike, hr]
    cases hp : parse (String.ofList s) with
    | none =>
      rw [eventOf_of_none (hl.trans hp), eventOf_of_none (hr.trans hp), str_ofList_inj]
      simp
    | some v =>
      rw [eventOf_of_some (hl.trans hp), eventOf_of_some (hr.trans hp)]
      simp
  | @more a s t bs ha hs ht hbs hne =>
    have := List.length_pos_of_ne_nil hne
    rw [Option.toList_some, List.length_singleton, List.length_cons] at ho
    omega

/-! ## A reader that is ahead -/

/-- A text that stays no JSON whatever follows it on other lines, unless it is line ends only. -/
def Stuck (parse : String → Option Json) (t : List Char) : Prop :=
  Newlines t ∨ ∃ a l r, t = a ++ l ++ '\n' :: r ∧ Newlines a ∧
    (parse (String.ofList l)).isSome ∧ ¬ Blank r

theorem Stuck.none (hparse : JsonText parse) (h : Stuck parse t) :
    parse (String.ofList t) = none := by
  rcases h with h | ⟨a, l, r, rfl, ha, hl, hr⟩
  · have := hparse.newlines (t := []) h (u := []) (by simp [Newlines])
    rw [List.append_nil, List.append_nil] at this
    exact this.trans hparse.empty
  · obtain ⟨v, hv⟩ := Option.isSome_iff_exists.mp hl
    have := hparse.newlines (t := l ++ '\n' :: r) ha (u := []) (by simp [Newlines])
    rw [List.append_nil, ← List.append_assoc] at this
    exact this.trans (hparse.trailing hv hr)

/-- A solid text that is stuck starts with the JSON text itself. -/
theorem Stuck.of_solid (h : Stuck parse t) (ht : Solid t) : ∃ l r, t = l ++ '\n' :: r ∧
    (parse (String.ofList l)).isSome ∧ ¬ Blank r := by
  rcases h with h | ⟨a, l, r, rfl, ha, hl, hr⟩
  · exact absurd h.blank ht.not_blank
  · obtain ⟨c, u, hc, hws⟩ := ht
    cases a with
    | nil => exact ⟨l, r, rfl, hl, hr⟩
    | cons d a =>
      obtain rfl : d = c := (List.cons.inj hc).1
      rcases ha d List.mem_cons_self with rfl | rfl
      all_goals exact absurd hws (by decide)

/-- The event of a text that is stuck. -/
def StuckEvent (parse : String → Option Json) (e : Json) : Prop :=
  ∃ t, e = .str (String.ofList t) ∧ Stuck parse t

theorem Stuck.event (hparse : JsonText parse) (h : Stuck parse t) :
    StuckEvent parse (eventOf parse t) := ⟨t, eventOf_of_none (h.none hparse), h⟩

/-- Where each reader takes one text, a stuck one stays stuck. -/
theorem stuck_one (hparse : JsonText parse) (ha : Newlines a) (hs : Solid s) (hb : Newlines b)
    (hc : Newlines c) (h : StuckEvent parse (eventOf parse (s ++ c))) :
    StuckEvent parse (eventOf parse (a ++ s ++ b)) := by
  have hl := hparse.newlines (t := s) ha hb
  have hr : parse (String.ofList (s ++ c)) = parse (String.ofList s) :=
    hparse.newlines (s := []) (by simp [Newlines]) hc
  cases hp : parse (String.ofList s) with
  | some v =>
    rw [eventOf_of_some (hr.trans hp)] at h
    rwa [eventOf_of_some (hl.trans hp)]
  | none =>
    obtain ⟨t, ht, hstuck⟩ := h
    rw [eventOf_of_none (hr.trans hp)] at ht
    obtain rfl := String.ofList_inj.mp (Json.str.inj ht)
    obtain ⟨l, r, hlr, hjson, hnot⟩ := hstuck.of_solid (hs.append c)
    refine Stuck.event hparse (.inr ?_)
    -- what follows the JSON text goes on within `s`, since `c` is line ends only
    rcases List.append_eq_append_iff.mp hlr with ⟨w, rfl, hw⟩ | ⟨w, rfl, hw⟩
    · exact absurd (fun d hd => hc.blank d (hw ▸ List.mem_append_right w (.tail _ hd))) hnot
    · cases w with
      | nil =>
        have hcr : '\n' :: r = c := hw
        exact absurd (fun d hd => hc.blank d (hcr ▸ .tail _ hd)) hnot
      | cons d w =>
        obtain ⟨rfl, rfl⟩ := List.cons.inj hw
        refine ⟨a, l, w ++ b, by simp, ha, hjson, not_blank_append_left fun hw' => hnot ?_⟩
        exact fun d hd => (List.mem_append.mp hd).elim (hw' d) (hc.blank d)

/-- Where the buffered reader takes more, the streamed one is stuck. -/
theorem stuck_more (hs : Solid s) (ha : Newlines a) (ht : ¬ Blank t)
    (h : StuckEvent parse (eventOf parse s) ∨ (parse (String.ofList s)).isSome) :
    Stuck parse (a ++ s ++ '\n' :: t) := by
  cases hp : parse (String.ofList s) with
  | some v => exact .inr ⟨a, s, t, rfl, ha, by rw [hp]; rfl, ht⟩
  | none =>
    obtain ⟨u, hu, hstuck⟩ := h.resolve_right (by simp [hp])
    rw [eventOf_of_none hp] at hu
    obtain rfl := String.ofList_inj.mp (Json.str.inj hu)
    obtain ⟨l, r, rfl, hl, hr⟩ := hstuck.of_solid hs
    exact .inr ⟨a, l, r ++ '\n' :: t, by simp, ha, hl, not_blank_append_left hr⟩

/-- The event of a longer text that is stuck is none of a shorter one. -/
theorem eventOf_ne_stuck (hparse : JsonText parse) (h : Stuck parse s) (hv : Newlines c)
    (hlen : l.length < s.length) (hne : l ++ c ≠ s) :
    eventOf parse (l ++ c) ≠ eventOf parse s := by
  have hr : parse (String.ofList (l ++ c)) = parse (String.ofList l) :=
    hparse.newlines (s := []) (by simp [Newlines]) hv
  rw [eventOf_of_none (h.none hparse)]
  cases hp : parse (String.ofList l) with
  | none =>
    rw [eventOf_of_none (hr.trans hp), Ne, str_ofList_inj]
    exact hne
  | some v =>
    rw [eventOf_of_some (hr.trans hp)]
    rintro rfl
    have := hparse.string_lt hp
    rw [String.length_ofList] at this
    omega

/-- Where the buffered reader takes more, its first event is not the streamed reader's. -/
theorem eventOf_ne_more (hparse : JsonText parse) (hs : Solid s) (ha : Newlines a)
    (ht : ¬ Blank t) : eventOf parse (a ++ s ++ '\n' :: t) ≠ eventOf parse s := by
  have hlen : s.length < (a ++ s ++ '\n' :: t).length := by
    simp only [List.length_append, List.length_cons]
    omega
  have hne : s ++ [] ≠ a ++ s ++ '\n' :: t := by
    intro h
    rw [← h, List.append_nil] at hlen
    exact lt_irrefl _ hlen
  cases hp : parse (String.ofList s) with
  | some v =>
    have hstuck : Stuck parse (a ++ s ++ '\n' :: t) := stuck_more hs ha ht (.inr (by simp [hp]))
    have := eventOf_ne_stuck hparse hstuck (by simp [Newlines]) hlen hne
    rw [List.append_nil] at this
    exact this.symm
  | none =>
    rw [eventOf_of_none hp]
    cases hq : parse (String.ofList (a ++ s ++ '\n' :: t)) with
    | none =>
      rw [eventOf_of_none hq, Ne, str_ofList_inj]
      exact fun h => hne (by rw [h, List.append_nil])
    | some v =>
      rw [eventOf_of_some hq]
      rintro rfl
      exact (hparse.string_oneLine hq).elim (not_blank_append_right hs.not_blank) ht

/-! ## All blocks -/

/-- What is read of one block after the other. -/
abbrev Readings : Type := List (Option (List Char) × List (List Char))

/-- The events of the streamed reader. -/
def streamedEvents (parse : String → Option Json) (ps : Readings) : List Json :=
  ps.flatMap fun p => p.1.toList.map (eventOf parse)

def bufferedEvents (parse : String → Option Json) (ps : Readings) : List Json :=
  ps.flatMap fun p => p.2.map (eventOf parse)

/-- Once the streamed reader is ahead by events that are stuck, the buffered one does not come up
with it: where it takes more of a block, its events are used up or end before the block's text. -/
theorem not_caught_up (hparse : JsonText parse) {ps : Readings}
    (hps : ∀ p ∈ ps, BlockReads p.1 p.2) (hne : q ≠ []) (hq : ∀ e ∈ q, StuckEvent parse e) :
    q ++ streamedEvents parse ps ≠ bufferedEvents parse ps := by
  induction ps generalizing q with
  | nil =>
    intro h
    exact hne (List.append_eq_nil_iff.mp h).1
  | cons p ps ih =>
    obtain ⟨o, bs⟩ := p
    rw [List.forall_mem_cons] at hps
    obtain ⟨hp, hps⟩ := hps
    -- the queue with one more stuck event at its end
    have hpush : ∀ e, StuckEvent parse e → ∀ q', q' ⊆ q →
        q' ++ e :: streamedEvents parse ps ≠ bufferedEvents parse ps := by
      intro e he q' hsub
      rw [List.append_cons]
      refine ih hps (by simp) fun d hd => ?_
      rcases List.mem_append.mp hd with hd | hd
      · exact hq d (hsub hd)
      · rw [List.mem_singleton.mp hd]
        exact he
    obtain ⟨x, q, rfl⟩ := List.exists_cons_of_ne_nil hne
    intro h
    cases hp with
    | nothing => exact ih hps hne hq h
    | @blank s hs =>
      exact hpush _ (Stuck.event hparse (.inl hs)) (x :: q) (List.Subset.refl _) h
    | @one a s b c ha hs hb hc =>
      obtain ⟨rfl, htail⟩ := List.cons.inj h
      exact hpush _ (stuck_one hparse ha hs hb hc (hq _ List.mem_cons_self)) q
        (List.subset_cons_self _ _) htail
    | @more a s t bs ha hs ht hbs hnil =>
      obtain ⟨rfl, htail⟩ := List.cons.inj h
      have hstuck := stuck_more hs ha ht (.inl (hq _ List.mem_cons_self))
      have h' : q ++ eventOf parse (a ++ s ++ '\n' :: t) :: streamedEvents parse ps =
        bs.map (eventOf parse) ++ bufferedEvents parse ps := htail
      rcases List.append_eq_append_iff.mp h' with ⟨w, hw, hrest⟩ | ⟨w, rfl, hrest⟩
      · cases w with
        | nil =>
          rw [List.append_nil] at hw
          exact hpush _ (hstuck.event hparse) [] (List.nil_subset _) hrest
        | cons d w =>
          -- the text of the block would have to be one of the texts within it
          obtain ⟨rfl, -⟩ := List.cons.inj hrest
          have hmem : eventOf parse (a ++ s ++ '\n' :: t) ∈ bs.map (eventOf parse) := by
            rw [hw]
            simp
          obtain ⟨b, hb, heq⟩ := List.mem_map.mp hmem
          obtain ⟨u, v, rfl, hv, hlen, hneq⟩ := hbs b hb
          exact eventOf_ne_stuck hparse hstuck hv hlen hneq heq
      · refine hpush _ (hstuck.event hparse) w ?_ hrest.symm
        exact List.Subset.trans (List.subset_append_right _ w) (List.subset_cons_self _ _)

/-- The two read the same events of a text exactly when they read each block alike. -/
theorem streamed_eq_buffered_iff (hparse : JsonText parse) {ps : Readings}
    (hps : ∀ p ∈ ps, BlockReads p.1 p.2) :
    streamedEvents parse ps = bufferedEvents parse ps ↔ ∀ p ∈ ps, Alike parse p.1 p.2 := by
  induction ps with
  | nil => simp [streamedEvents, bufferedEvents]
  | cons p ps ih =>
    obtain ⟨o, bs⟩ := p
    rw [List.forall_mem_cons] at hps
    obtain ⟨hp, hps⟩ := hps
    have hsplit : streamedEvents parse ((o, bs) :: ps) = bufferedEvents parse ((o, bs) :: ps) ↔
        o.toList.map (eventOf parse) ++ streamedEvents parse ps =
          bs.map (eventOf parse) ++ bufferedEvents parse ps := Iff.rfl
    rw [hsplit, List.forall_mem_cons, ← ih hps]
    by_cases hlen : o.toList.length = bs.length
    · rw [← alike_of_reads hparse hp hlen]
      refine ⟨fun h => List.append_inj h (by simpa using hlen), ?_⟩
      rintro ⟨h, h'⟩
      rw [h, h']
    · refine iff_of_false (fun h => ?_) (fun h => ?_)
      · cases hp with
        | nothing => exact hlen rfl
        | @blank s hs =>
          refine not_caught_up hparse hps (q := [eventOf parse s]) (by simp) ?_ h
          simpa using Stuck.event hparse (.inl hs)
        | one ha hs hb hc => exact hlen rfl
        | more ha hs ht hbs hnil => exact eventOf_ne_more hparse hs ha ht (List.cons.inj h).1
      · cases hp with
        | nothing => exact hlen rfl
        | blank hs => exact h.1
        | one ha hs hb hc => exact hlen rfl
        | @more a s t bs ha hs ht hbs hnil =>
          obtain ⟨b, bs, rfl⟩ := List.exists_cons_of_ne_nil hnil
          exact h.1

end ThinkWatch.Mcp
