import ThinkWatch.Gateway.Router
import ThinkWatch.Lib.Cut
import ThinkWatch.Lib.Utf8
import ThinkWatch.Policy.Serialize

/-!
# The fingerprint of a request

`ResponseCache::fingerprint` (`crates/gateway/src/cache.rs`), and what the pipeline of
`crates/gateway/src/proxy/generate.rs` appends to it for the settings of the model that are applied
after the look-up. The key of the cache is a hash of it.
-/

namespace ThinkWatch.Gateway

open Lib ThinkWatch.Policy

/-! ## The request -/

/-- `as_f64() == 0.0` of a printed number: no digit of it but zeros. -/
def floatIsZero (text : String) : Bool :=
  (text.toList.takeWhile (· != 'e')).all fun c => !"123456789".toList.contains c

/-- The value is a number, and not zero. -/
def isNonzeroNumber : Json → Bool
  | .int n => n != 0
  | .float text => !floatIsZero text
  | _ => false

/-- A temperature that is absent, zero or no number. -/
def isCacheable (request : Json) : Bool :=
  match request.get "temperature" with
  | some t => !isNonzeroNumber t
  | none => true

/-- `obj.remove(key)`, on an object. -/
def removeField (key : String) : Json → Json
  | .obj fields => .obj (fields.filter fun f => f.1 != key)
  | v => v

/-- The request without what is framing and not the answer. -/
def unframed (request : Json) : Json := removeField "stream_options" (removeField "stream" request)

def fingerprint (request : Json) : Option (List UInt8) :=
  if isCacheable request then some (Utf8.encode (unframed request).serialize) else none

/-! ## The settings of the model -/

/-- The text of a setting, with the names of `tw_dialect::think::openai`. -/
def ReasoningSetting.slug (openai : Effort → String) : ReasoningSetting → String
  | off => "off"
  | level e => openai e

/-- What the fingerprint of a request is made from. -/
structure CacheQuestion where
  /-- The body after redaction. -/
  outbound : Json
  modelConfig : ModelRoutingConfig

variable (openai : Effort → String)

def outputCapLabel : List Char := "max_output_tokens=".toList

def effortLabel : List Char := "reasoning_effort=".toList

def capSuffix : Option Nat → List Char
  | some cap => '\n' :: (outputCapLabel ++ Nat.toDigits 10 cap)
  | none => []

def effortSuffix : Option ReasoningSetting → List Char
  | some setting => '\n' :: (effortLabel ++ (setting.slug openai).toList)
  | none => []

/-- The fingerprint that the pipeline looks up; only one surface `caches`. -/
def cacheFingerprint (caches : Bool) (q : CacheQuestion) : Option (List UInt8) :=
  if caches then
    (fingerprint q.outbound).map fun fp =>
      fp ++ Utf8.encode (capSuffix q.modelConfig.maxOutputTokens) ++
        Utf8.encode (effortSuffix openai q.modelConfig.reasoning)
  else none

/-! ## What a fingerprint says -/

variable {openai} {v w : Json} {q q' : CacheQuestion} {fp : List UInt8} {caches : Bool}

theorem printedFields_filter {fs : List (String × Json)} (h : Json.PrintedFields fs)
    (p : String × Json → Bool) : Json.PrintedFields (fs.filter p) := by
  induction fs with
  | nil => exact h
  | cons f fs ih =>
    obtain ⟨k, x⟩ := f
    rw [List.filter_cons]
    split
    · exact ⟨h.1, ih h.2⟩
    · exact ih h.2

theorem printed_removeField (key : String) (h : v.Printed) : (removeField key v).Printed := by
  cases v with
  | obj fields => exact printedFields_filter h _
  | _ => exact h

theorem printed_unframed (h : v.Printed) : (unframed v).Printed :=
  printed_removeField _ (printed_removeField _ h)

/-- The text behind the bytes. -/
theorem cacheFingerprint_eq_some :
    cacheFingerprint openai caches q = some fp ↔
      caches = true ∧ isCacheable q.outbound = true ∧
        fp = Utf8.encode ((unframed q.outbound).serialize ++
          (capSuffix q.modelConfig.maxOutputTokens ++
            effortSuffix openai q.modelConfig.reasoning)) := by
  unfold cacheFingerprint fingerprint
  cases caches with
  | false => simp
  | true =>
    cases h : isCacheable q.outbound with
    | false => simp
    | true => simp [Utf8.encode_append, eq_comm]

/-- A line starts with a line end and has no other. -/
theorem lines_inj {a b r s : List Char} (ha : '\n' ∉ a) (hb : '\n' ∉ b)
    (hr : ∀ c ∈ r.head?, c = '\n') (hs : ∀ c ∈ s.head?, c = '\n') (h : a ++ r = b ++ s) :
    a = b ∧ r = s := by
  cases r with
  | nil =>
    cases s with
    | nil => exact ⟨by simpa using h, rfl⟩
    | cons d s =>
      obtain rfl := hs d rfl
      exact absurd (show '\n' ∈ a by rw [← List.append_nil a, h]; simp) ha
  | cons c r =>
    obtain rfl := hr c rfl
    cases s with
    | nil => exact absurd (show '\n' ∈ b by rw [← List.append_nil b, ← h]; simp) hb
    | cons d s =>
      obtain rfl := hs d rfl
      obtain ⟨rfl, rfl⟩ := segment_inj ha hb h
      exact ⟨rfl, rfl⟩

/-- What the model stores is what a setting is written as. -/
def StoredNames (openai : Effort → String) : Prop :=
  ∀ s setting, ReasoningSetting.parse s = some setting → setting.slug openai = s

theorem slug_injective (h : StoredNames openai) {a b : ReasoningSetting}
    (heq : a.slug openai = b.slug openai) : a = b := by
  have hparse : ∀ r : ReasoningSetting, ∃ s, ReasoningSetting.parse s = some r := by
    intro r
    match r with
    | .off => exact ⟨"off", rfl⟩
    | .level .low => exact ⟨"low", rfl⟩
    | .level .medium => exact ⟨"medium", rfl⟩
    | .level .high => exact ⟨"high", rfl⟩
    | .level .xhigh => exact ⟨"xhigh", rfl⟩
    | .level .max => exact ⟨"max", rfl⟩
  obtain ⟨s, hs⟩ := hparse a
  obtain ⟨t, ht⟩ := hparse b
  rw [h s a hs, h t b ht] at heq
  subst heq
  rw [hs] at ht
  exact Option.some.inj ht

theorem effortSuffix_head (openai : Effort → String) (setting : Option ReasoningSetting) :
    ∀ c ∈ (effortSuffix openai setting).head?, c = '\n' := by
  cases setting with
  | none => simp [effortSuffix]
  | some r => simp [effortSuffix]

theorem labels_ne : outputCapLabel.head? = some 'm' ∧ effortLabel.head? = some 'r' := by
  decide +kernel

theorem effortSuffix_injective (h : StoredNames openai) {a b : Option ReasoningSetting}
    (heq : effortSuffix openai a = effortSuffix openai b) : a = b := by
  cases a with
  | none =>
    cases b with
    | none => rfl
    | some y => simp [effortSuffix] at heq
  | some x =>
    cases b with
    | none => simp [effortSuffix] at heq
    | some y =>
      have hslug := String.toList_inj.mp (List.append_cancel_left (List.cons.inj heq).2)
      rw [slug_injective h hslug]

/-- The line of a cap is no line of an effort. -/
theorem capLine_ne (cap : Nat) (setting : Option ReasoningSetting) (r : List Char) :
    effortSuffix openai setting ≠ capSuffix (some cap) ++ r := by
  cases setting with
  | none => simp [effortSuffix, capSuffix]
  | some x =>
    intro h
    simp only [effortSuffix, capSuffix, List.cons_append, List.append_assoc] at h
    have hlabels := congrArg List.head? (List.cons.inj h).2
    obtain ⟨hcap, heffort⟩ := labels_ne
    rw [List.head?_append, List.head?_append, hcap, heffort] at hlabels
    cases hlabels

theorem newline_not_mem_toDigits (n : Nat) : '\n' ∉ Nat.toDigits 10 n :=
  fun h => absurd (Json.isDigit_toDigits h) (by decide)

/-- The lines for the settings, one below the other. -/
theorem suffixes_inj (h : StoredNames openai) {cap cap' : Option Nat}
    {setting setting' : Option ReasoningSetting}
    (heq : capSuffix cap ++ effortSuffix openai setting =
      capSuffix cap' ++ effortSuffix openai setting') : cap = cap' ∧ setting = setting' := by
  cases cap with
  | none =>
    cases cap' with
    | none => exact ⟨rfl, effortSuffix_injective h heq⟩
    | some n => exact absurd heq (capLine_ne n setting _)
  | some m =>
    cases cap' with
    | none => exact absurd heq.symm (capLine_ne m setting' _)
    | some n =>
      simp only [capSuffix, List.cons_append, List.append_assoc] at heq
      obtain ⟨hdigits, heffort⟩ := lines_inj (newline_not_mem_toDigits m)
        (newline_not_mem_toDigits n) (effortSuffix_head openai setting)
        (effortSuffix_head openai setting') (List.append_cancel_left (List.cons.inj heq).2)
      rw [Json.toDigits_inj hdigits, effortSuffix_injective h heffort]
      exact ⟨rfl, rfl⟩

theorem suffixes_head (cap : Option Nat) (setting : Option ReasoningSetting) :
    ∀ c ∈ (capSuffix cap ++ effortSuffix openai setting).head?, c = '\n' := by
  cases cap with
  | none => exact effortSuffix_head openai setting
  | some n => simp [capSuffix]

/-- A fingerprint says what the request is, but for its framing, and what the settings are. -/
theorem question_of_fingerprint (h : StoredNames openai) (hq : q.outbound.Printed)
    (hq' : q'.outbound.Printed) (hfp : cacheFingerprint openai caches q = some fp)
    (hfp' : cacheFingerprint openai caches q' = some fp) :
    unframed q.outbound = unframed q'.outbound ∧
      q.modelConfig.maxOutputTokens = q'.modelConfig.maxOutputTokens ∧
      q.modelConfig.reasoning = q'.modelConfig.reasoning := by
  obtain ⟨-, -, hbytes⟩ := cacheFingerprint_eq_some.mp hfp
  obtain ⟨-, -, hbytes'⟩ := cacheFingerprint_eq_some.mp hfp'
  have hprinted := printed_unframed hq
  have hprinted' := printed_unframed hq'
  obtain ⟨hbody, hlines⟩ := lines_inj (Json.newline_not_mem_serialize _ hprinted)
    (Json.newline_not_mem_serialize _ hprinted') (suffixes_head _ _) (suffixes_head _ _)
    (Utf8.encode_injective (hbytes.symm.trans hbytes'))
  have hvalue := (Json.serialize_append_inj _ _ hprinted hprinted' Json.ends_nil Json.ends_nil
    (congrArg (· ++ []) hbody)).1
  exact ⟨hvalue, suffixes_inj h hlines⟩

/--
Requests with one fingerprint ask one question; the order of the members of a body does not matter;
and a request with a temperature that is not zero has no fingerprint.
-/
theorem fingerprint_is_question (h : StoredNames openai) (caches : Bool) :
    (∀ q q' fp, q.outbound.Printed → q'.outbound.Printed →
      cacheFingerprint openai caches q = some fp → cacheFingerprint openai caches q' = some fp →
        unframed q.outbound = unframed q'.outbound ∧
          q.modelConfig.maxOutputTokens = q'.modelConfig.maxOutputTokens ∧
          q.modelConfig.reasoning = q'.modelConfig.reasoning) ∧
    (∀ body body' config, Json.SameMembers body body' →
      cacheFingerprint openai caches ⟨body.fromDocument, config⟩ =
        cacheFingerprint openai caches ⟨body'.fromDocument, config⟩) ∧
    ∀ q t, q.outbound.get "temperature" = some t → isNonzeroNumber t = true →
      cacheFingerprint openai caches q = none := by
  refine ⟨fun q q' fp hq hq' => question_of_fingerprint h hq hq', ?_, ?_⟩
  · intro body body' config hsame
    rw [Json.fromDocument_eq hsame]
  · intro q t ht hnonzero
    have hnot : isCacheable q.outbound = false := by simp [isCacheable, ht, hnonzero]
    simp [cacheFingerprint, fingerprint, hnot]

/-- The names of the levels in OpenAI's requests. -/
def openaiName : Effort → String
  | .low => "low"
  | .medium => "medium"
  | .high => "high"
  | .xhigh => "xhigh"
  | .max => "max"

theorem storedNames_openaiName : StoredNames openaiName := by
  intro s setting h
  unfold ReasoningSetting.parse at h
  grind [ReasoningSetting.slug, openaiName]

/-- The two orders of a body with two members. -/
theorem fingerprint_is_question_order :
    cacheFingerprint openaiName true
        ⟨(Json.obj [("model", .str "m"), ("top_p", .int 1)]).fromDocument, .unset⟩ =
      cacheFingerprint openaiName true
        ⟨(Json.obj [("top_p", .int 1), ("model", .str "m")]).fromDocument, .unset⟩ :=
  (fingerprint_is_question storedNames_openaiName true).2.1 _ _ _
    (.obj (by decide) (.cons (.refl _) (.cons (.refl _) .nil)) (.swap _ _ _))

end ThinkWatch.Gateway
