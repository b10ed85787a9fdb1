import ThinkWatch.Lib.KeyedList
import ThinkWatch.Policy.Walk

/-!
# Redaction of audit details

`crates/common/src/audit/sanitize.rs`: the walk that replaces the values under names of secrets, over
a value and over a text that is one. `lower` is `str::to_lowercase`.
-/

namespace ThinkWatch.Audit

open Lib Policy Json

/-! ## Names of secrets -/

section Names

variable (lower : String → List Char)

/-- `str::contains`. -/
def contains (name : List Char) (word : String) : Bool := decide (word.toList <:+: name)

def safeSuffixes : List String := ["_per_token", "_tokens"]

def endsSafely (key : String) : Bool := safeSuffixes.any fun s => decide (s.toList <:+ lower key)

def isSecretKeyName (key : String) : Bool :=
  let name := lower key
  if endsSafely lower key then false
  else
    contains name "password" || contains name "secret" || contains name "token" ||
      contains name "key" || contains name "authorization" || contains name "credential"

/-- The words that a safe suffix does not excuse. -/
def namesSecret (key : String) : Bool :=
  ["password", "secret", "authorization", "credential"].any (contains (lower key))

/-- What is to be redacted. -/
def isCredential (key : String) : Bool :=
  namesSecret lower key ||
    ((contains (lower key) "token" || contains (lower key) "key") && !endsSafely lower key)

/-- What is to be redacted and is not, for its suffix. -/
def isHidden (key : String) : Bool := namesSecret lower key && endsSafely lower key

theorem isCredential_eq (key : String) :
    isCredential lower key = (isSecretKeyName lower key || isHidden lower key) := by
  simp only [isCredential, isSecretKeyName, isHidden, namesSecret, List.any_cons, List.any_nil,
    Bool.or_false]
  cases endsSafely lower key with
  | true => simp
  | false =>
    simp only [Bool.false_eq_true, if_false, Bool.not_false, Bool.and_true, Bool.and_false,
      Bool.or_false]
    ac_rfl

end Names

/-! ## The walk -/

def redacted : Json := .str "[REDACTED]"

section Walk

variable (lower : String → List Char)

mutual

def sanitizeValue : Json → Json
  | .obj fields => .obj (sanitizeFields fields)
  | .arr items => .arr (sanitizeItems items)
  | v => v

def sanitizeItems : List Json → List Json
  | [] => []
  | item :: items => sanitizeValue item :: sanitizeItems items

-- the walk goes on into what was put in as well, and leaves a string as it is
def sanitizeFields : List (String × Json) → List (String × Json)
  | [] => []
  | (key, value) :: fields =>
    (key, if isSecretKeyName lower key then redacted else sanitizeValue value) ::
      sanitizeFields fields

end

/-- `fromStr` is `serde_json::from_str`. -/
def sanitizeBodyIfJson (fromStr : List Char → Option Json) (body : Option (List Char)) :
    Option (List Char) :=
  body.map fun text =>
    match fromStr text with
    | none => text
    | some value => (sanitizeValue lower value).serialize

/-- The value under a key, after the walk. -/
def sanitizeUnder (key : String) (value : Json) : Json :=
  if isSecretKeyName lower key then redacted else sanitizeValue lower value

end Walk

variable {lower : String → List Char}

theorem sanitizeItems_eq (items : List Json) :
    sanitizeItems lower items = items.map (sanitizeValue lower) := by
  induction items with
  | nil => rfl
  | cons item items ih => rw [sanitizeItems, ih, List.map_cons]

theorem sanitizeFields_eq (fields : List (String × Json)) :
    sanitizeFields lower fields =
      fields.map fun field => (field.1, sanitizeUnder lower field.1 field.2) := by
  induction fields with
  | nil => rfl
  | cons field fields ih =>
    rw [← Prod.mk.eta (p := field), sanitizeFields, ih, List.map_cons]
    rfl

theorem sanitizeUnder_secret {key : String} (h : isSecretKeyName lower key = true) (v : Json) :
    sanitizeUnder lower key v = redacted := if_pos h

theorem sanitizeUnder_other {key : String} (h : isSecretKeyName lower key = false) (v : Json) :
    sanitizeUnder lower key v = sanitizeValue lower v := by
  rw [sanitizeUnder, h]
  rfl

/-- Sanitising twice is sanitising once. -/
theorem sanitizeValue_idem (v : Json) :
    sanitizeValue lower (sanitizeValue lower v) = sanitizeValue lower v := by
  induction v using induct with
  | arr items ih =>
    simp only [sanitizeValue, sanitizeItems_eq, List.map_map, arr.injEq]
    exact List.map_congr_left ih
  | obj fields ih =>
    simp only [sanitizeValue, sanitizeFields_eq, List.map_map, obj.injEq]
    refine List.map_congr_left fun field hfield => ?_
    simp only [Function.comp, Prod.mk.injEq, true_and]
    cases h : isSecretKeyName lower field.1 with
    | true => rw [sanitizeUnder_secret h, sanitizeUnder_secret h]
    | false => rw [sanitizeUnder_other h, sanitizeUnder_other h, ih field hfield]
  | _ => rfl

theorem sanitizeValue_mapFloats (f : String → String) (v : Json) :
    sanitizeValue lower (v.mapFloats f) = (sanitizeValue lower v).mapFloats f := by
  induction v using induct with
  | arr items ih =>
    simp only [mapFloats, sanitizeValue, sanitizeItems_eq, mapFloatsItems_eq, List.map_map,
      arr.injEq]
    exact List.map_congr_left ih
  | obj fields ih =>
    simp only [mapFloats, sanitizeValue, sanitizeFields_eq, mapFloatsFields_eq, List.map_map,
      obj.injEq]
    refine List.map_congr_left fun field hfield => ?_
    simp only [Function.comp, Prod.mk.injEq, true_and]
    cases h : isSecretKeyName lower field.1 with
    | true => rw [sanitizeUnder_secret h, sanitizeUnder_secret h]; rfl
    | false => rw [sanitizeUnder_other h, sanitizeUnder_other h, ih field hfield]
  | _ => rfl

theorem printed_sanitizeValue (lower : String → List Char) {v : Json} (h : v.Printed) :
    (sanitizeValue lower v).Printed := by
  induction v using induct with
  | arr items ih =>
    rw [sanitizeValue, Printed, sanitizeItems_eq, printedItems_iff]
    intro item hitem
    obtain ⟨x, hx, rfl⟩ := List.mem_map.mp hitem
    exact ih x hx (printedItems_iff.mp h x hx)
  | obj fields ih =>
    rw [sanitizeValue, Printed, sanitizeFields_eq, printedFields_iff]
    intro field hfield
    obtain ⟨x, hx, rfl⟩ := List.mem_map.mp hfield
    cases hsecret : isSecretKeyName lower x.1 with
    | true => rw [sanitizeUnder_secret hsecret]; trivial
    | false =>
      rw [sanitizeUnder_other hsecret]
      exact ih x hx (printedFields_iff.mp h x hx)
  | _ => exact h

theorem outline_sanitizeValue (v : Json) : (sanitizeValue lower v).outline = v.outline := by
  cases v with
  | arr items => simp [sanitizeValue, sanitizeItems_eq, outline, Function.comp_def]
  | obj fields => simp [sanitizeValue, sanitizeFields_eq, outline]
  | _ => rfl

theorem eq_redacted (lower : String → List Char) {v : Json}
    (h : sanitizeValue lower v = redacted) : v = redacted := by
  cases v with
  | arr items => cases h
  | obj fields => cases h
  | _ => exact h

/-! ## Members at any depth -/

theorem child_key (v : Json) (k : String) :
    (sanitizeValue lower v).child (.key k) = (v.child (.key k)).map (sanitizeUnder lower k) := by
  cases v with
  | obj fields =>
    rw [sanitizeValue, sanitizeFields_eq]
    exact lookup_map_snd (sanitizeUnder lower) fields k
  | _ => rfl

theorem child_index (v : Json) (i : Nat) :
    (sanitizeValue lower v).child (.index i) = (v.child (.index i)).map (sanitizeValue lower) := by
  cases v with
  | arr items =>
    rw [sanitizeValue, sanitizeItems_eq]
    exact List.getElem?_map
  | _ => rfl

/-- No key of the path is one whose value is replaced. -/
def Open (lower : String → List Char) (path : List Step) : Prop :=
  ∀ k, .key k ∈ path → isSecretKeyName lower k = false

theorem Open.tail {s : Step} {path : List Step} (h : Open lower (s :: path)) : Open lower path :=
  fun k hk => h k (List.mem_cons_of_mem s hk)

/-- Where nothing is replaced on the way, the walk has been. -/
theorem descend_sanitizeValue {path : List Step} (h : Open lower path) (v : Json) :
    (sanitizeValue lower v).descend path = (v.descend path).map (sanitizeValue lower) := by
  induction path generalizing v with
  | nil => rfl
  | cons s path ih =>
    have hchild : (sanitizeValue lower v).child s = (v.child s).map (sanitizeValue lower) := by
      cases s with
      | key k =>
        have hk := h k List.mem_cons_self
        rw [child_key]
        exact congrArg (fun f => (v.child (.key k)).map f) (funext (sanitizeUnder_other hk))
      | index i => exact child_index v i
    rw [descend_cons, descend_cons, hchild]
    cases v.child s with
    | none => rfl
    | some x => exact ih h.tail x

/-- Nothing is found within a value that was put in. -/
theorem open_of_descend {path : List Step} {s : Step} {v x : Json}
    (h : (sanitizeValue lower v).descend (path ++ [s]) = some x) : Open lower path := by
  induction path generalizing v with
  | nil => nofun
  | cons t path ih =>
    rw [List.cons_append, descend_cons] at h
    cases t with
    | key k =>
      rw [child_key] at h
      cases hv : v.child (.key k) with
      | none => rw [hv] at h; cases h
      | some y =>
        rw [hv, Option.map_some, Option.bind_some] at h
        cases hsecret : isSecretKeyName lower k with
        | true =>
          rw [sanitizeUnder_secret hsecret] at h
          cases path <;> cases h
        | false =>
          rw [sanitizeUnder_other hsecret] at h
          intro k' hk'
          rcases List.mem_cons.mp hk' with heq | hk'
          · obtain rfl := Step.key.inj heq
            exact hsecret
          · exact ih h k' hk'
    | index i =>
      rw [child_index] at h
      cases hv : v.child (.index i) with
      | none => rw [hv] at h; cases h
      | some y =>
        rw [hv, Option.map_some, Option.bind_some] at h
        intro k' hk'
        rcases List.mem_cons.mp hk' with heq | hk'
        · cases heq
        · exact ih h k' hk'

/-- Every secret of `v`, at any depth, is replaced in `w`, and what is in none of them is unchanged. -/
structure Redacts (lower : String → List Char) (v w : Json) : Prop where
  members : ∀ path k x, isCredential lower k = true → w.descend (path ++ [.key k]) = some x →
    x = redacted
  rest : ∀ path, (∀ k, .key k ∈ path → isCredential lower k = false) →
    (w.descend path).map outline = (v.descend path).map outline

/-- What a safe suffix hides, outside what is replaced, is redacted already. -/
def NothingHidden (lower : String → List Char) (v : Json) : Prop :=
  ∀ path k x, v.descend (path ++ [.key k]) = some x → Open lower path →
    isHidden lower k = true → x = redacted

theorem descend_member {path : List Step} {k : String} (hopen : Open lower path) (v : Json) :
    (sanitizeValue lower v).descend (path ++ [.key k]) =
      (v.descend (path ++ [.key k])).map (sanitizeUnder lower k) := by
  rw [descend_snoc, descend_snoc, descend_sanitizeValue hopen]
  cases v.descend path with
  | none => rfl
  | some x => exact child_key x k

theorem not_secret_of_hidden {k : String} (h : isHidden lower k = true) :
    isSecretKeyName lower k = false := by
  simp only [isHidden, Bool.and_eq_true] at h
  exact if_pos h.2

theorem redacts_iff (lower : String → List Char) (v : Json) :
    Redacts lower v (sanitizeValue lower v) ↔ NothingHidden lower v := by
  constructor
  · intro h path k x hx hopen hhidden
    have hcredential : isCredential lower k = true := by rw [isCredential_eq, hhidden, Bool.or_true]
    refine eq_redacted lower (h.members path k _ hcredential ?_)
    rw [descend_member hopen, hx, Option.map_some, sanitizeUnder_other (not_secret_of_hidden hhidden)]
  · intro h
    refine ⟨fun path k x hk hx => ?_, fun path hpath => ?_⟩
    · have hopen := open_of_descend hx
      rw [descend_member hopen] at hx
      obtain ⟨y, hy, rfl⟩ := Option.map_eq_some_iff.mp hx
      cases hsecret : isSecretKeyName lower k with
      | true => exact sanitizeUnder_secret hsecret y
      | false =>
        rw [isCredential_eq, hsecret, Bool.false_or] at hk
        rw [sanitizeUnder_other hsecret, h path k y hy hopen hk]
        rfl
    · have hopen : Open lower path := fun k hk => by
        have hnot := hpath k hk
        rw [isCredential_eq, Bool.or_eq_false_iff] at hnot
        exact hnot.1
      rw [descend_sanitizeValue hopen, Option.map_map]
      exact congrArg (fun f => (v.descend path).map f) (funext outline_sanitizeValue)

/-! ## Texts -/

/-- A float with this text stands in the value, outside the members that are replaced. -/
inductive FloatLeft (lower : String → List Char) (text : String) : Json → Prop where
  | here : FloatLeft lower text (.float text)
  | item {items : List Json} {x : Json} (mem : x ∈ items) (inside : FloatLeft lower text x) :
      FloatLeft lower text (.arr items)
  | member {fields : List (String × Json)} {field : String × Json} (mem : field ∈ fields)
      (kept : isSecretKeyName lower field.1 = false) (inside : FloatLeft lower text field.2) :
      FloatLeft lower text (.obj fields)

/-- The floats of a value, outside the members that are replaced, are read back as written. -/
def FloatsKept (lower : String → List Char) (reread : String → String) (v : Json) : Prop :=
  ∀ text, FloatLeft lower text v → reread text = text

theorem floatsKept_arr {reread : String → String} {items : List Json} :
    FloatsKept lower reread (.arr items) ↔ ∀ x ∈ items, FloatsKept lower reread x := by
  constructor
  · intro h x hx text hin
    exact h text (.item hx hin)
  · intro h text hin
    cases hin with
    | item hx hin => exact h _ hx text hin

theorem floatsKept_obj {reread : String → String} {fields : List (String × Json)} :
    FloatsKept lower reread (.obj fields) ↔ ∀ field ∈ fields,
      isSecretKeyName lower field.1 = false → FloatsKept lower reread field.2 := by
  constructor
  · intro h field hfield hkept text hin
    exact h text (.member hfield hkept hin)
  · intro h text hin
    cases hin with
    | member hfield hkept hin => exact h _ hfield hkept text hin

/-- What the walk leaves is read back as it is. -/
theorem mapFloats_sanitizeValue_iff (reread : String → String) (v : Json) :
    (sanitizeValue lower v).mapFloats reread = sanitizeValue lower v ↔
      FloatsKept lower reread v := by
  induction v using induct with
  | float text =>
    simp only [sanitizeValue, mapFloats, float.injEq]
    constructor
    · intro h text' hin
      cases hin
      exact h
    · intro h
      exact h text .here
  | arr items ih =>
    simp only [sanitizeValue, mapFloats, sanitizeItems_eq, mapFloatsItems_eq, arr.injEq,
      List.map_map, List.map_inj_left, Function.comp, floatsKept_arr]
    exact forall₂_congr ih
  | obj fields ih =>
    simp only [sanitizeValue, mapFloats, sanitizeFields_eq, mapFloatsFields_eq, obj.injEq,
      List.map_map, List.map_inj_left, Function.comp, Prod.mk.injEq, true_and, floatsKept_obj]
    refine forall₂_congr fun field hfield => ?_
    cases h : isSecretKeyName lower field.1 with
    | true =>
      rw [sanitizeUnder_secret h]
      simp [redacted, mapFloats]
    | false =>
      rw [sanitizeUnder_other h, ih field hfield]
      exact ⟨fun hkept _ => hkept, fun hkept => hkept rfl⟩
  | _ =>
    refine iff_of_true rfl fun text hin => ?_
    cases hin

variable {fromStr : List Char → Option Json} {reread : String → String}

/-- Sanitising a text twice gives what sanitising it once does, if its floats are read back as they
were written. -/
theorem sanitizeBody_twice_iff (hprinted : ∀ t v, fromStr t = some v → v.Printed)
    (hreread : ∀ text, IsFloatText text.toList → IsFloatText (reread text).toList)
    (hread : ∀ t v, fromStr t = some v → fromStr (sanitizeValue lower v).serialize =
      some ((sanitizeValue lower v).mapFloats reread)) (body : Option (List Char)) :
    sanitizeBodyIfJson lower fromStr (sanitizeBodyIfJson lower fromStr body) =
        sanitizeBodyIfJson lower fromStr body ↔
      ∀ t v, body = some t → fromStr t = some v → FloatsKept lower reread v := by
  cases body with
  | none => exact ⟨fun _ => nofun, fun _ => rfl⟩
  | some t =>
    cases hv : fromStr t with
    | none =>
      have honce : sanitizeBodyIfJson lower fromStr (some t) = some t := by
        simp [sanitizeBodyIfJson, hv]
      rw [honce, honce]
      refine ⟨fun _ t' v ht hv' => ?_, fun _ => rfl⟩
      obtain rfl := Option.some.inj ht
      cases hv.symm.trans hv'
    | some v =>
      have honce : sanitizeBodyIfJson lower fromStr (some t) =
          some (sanitizeValue lower v).serialize := by simp [sanitizeBodyIfJson, hv]
      have htwice : sanitizeBodyIfJson lower fromStr (some (sanitizeValue lower v).serialize) =
          some ((sanitizeValue lower v).mapFloats reread).serialize := by
        simp only [sanitizeBodyIfJson, Option.map_some, hread t v hv]
        rw [sanitizeValue_mapFloats, sanitizeValue_idem]
      rw [honce, htwice]
      have hs := printed_sanitizeValue lower (hprinted t v hv)
      constructor
      · intro h t' v' ht hv'
        obtain rfl := Option.some.inj ht
        obtain rfl := Option.some.inj (hv.symm.trans hv')
        rw [← mapFloats_sanitizeValue_iff]
        exact serialize_inj (printed_mapFloats hreread hs) hs (Option.some.inj h)
      · intro h
        rw [(mapFloats_sanitizeValue_iff reread v).mpr (h t v rfl hv)]

/--
The walk redacts every secret of a value and nothing else if and only if what a safe suffix hides is
redacted already; done twice it does what it does once. On a text it does so if and only if the floats
outside the members that are replaced are read back as they were written. `serde_json` reads back
what it has written, and of a float what `reread` says.
-/
theorem sanitize_exact_iff (lower : String → List Char) (fromStr : List Char → Option Json)
    (reread : String → String) (hprinted : ∀ t v, fromStr t = some v → v.Printed)
    (hreread : ∀ text, IsFloatText text.toList → IsFloatText (reread text).toList)
    (hread : ∀ t v, fromStr t = some v → fromStr (sanitizeValue lower v).serialize =
      some ((sanitizeValue lower v).mapFloats reread)) :
    (∀ v, Redacts lower v (sanitizeValue lower v) ∧
        sanitizeValue lower (sanitizeValue lower v) = sanitizeValue lower v ↔
      NothingHidden lower v) ∧
    ∀ body, sanitizeBodyIfJson lower fromStr (sanitizeBodyIfJson lower fromStr body) =
        sanitizeBodyIfJson lower fromStr body ↔
      ∀ t v, body = some t → fromStr t = some v → FloatsKept lower reread v :=
  ⟨fun v => ⟨fun h => (redacts_iff lower v).mp h.1,
      fun h => ⟨(redacts_iff lower v).mpr h, sanitizeValue_idem v⟩⟩,
    sanitizeBody_twice_iff hprinted hreread hread⟩

def lowerAscii (key : String) : List Char := key.toList.map Char.toLower

def keyBody : Json := .obj [("Api_Key", .str "sk-1"), ("top_p", .float "0.5")]

def keyBodyRedacted : Json := .obj [("Api_Key", redacted), ("top_p", .float "0.5")]

theorem sanitize_keyBody : sanitizeValue lowerAscii keyBody = keyBodyRedacted := by
  have hkey : isSecretKeyName lowerAscii "Api_Key" = true := by decide
  have htop : isSecretKeyName lowerAscii "top_p" = false := by decide
  simp [keyBody, keyBodyRedacted, sanitizeValue, sanitizeFields, hkey, htop]

/-- `serde_json::from_str` on the body and on the redacted body. -/
def readKeyBody (t : List Char) : Option Json :=
  if t = keyBody.serialize then some keyBody
  else if t = keyBodyRedacted.serialize then some keyBodyRedacted
  else none

theorem readKeyBody_cases {t : List Char} {v : Json} (h : readKeyBody t = some v) :
    v.Printed ∧ sanitizeValue lowerAscii v = keyBodyRedacted := by
  have hnumber : "0.5".toList.all isNumberChar = true := by decide
  have hfloat : IsFloatText "0.5".toList := ⟨List.all_eq_true.mp hnumber, by decide⟩
  unfold readKeyBody at h
  split at h
  · obtain rfl := Option.some.inj h
    exact ⟨⟨trivial, hfloat, trivial⟩, sanitize_keyBody⟩
  · split at h
    · obtain rfl := Option.some.inj h
      exact ⟨⟨trivial, hfloat, trivial⟩, by rw [← sanitize_keyBody, sanitizeValue_idem]⟩
    · cases h

theorem sanitize_exact_keyBody :
    (∀ v, Redacts lowerAscii v (sanitizeValue lowerAscii v) ∧
        sanitizeValue lowerAscii (sanitizeValue lowerAscii v) = sanitizeValue lowerAscii v ↔
      NothingHidden lowerAscii v) ∧
    ∀ body, sanitizeBodyIfJson lowerAscii readKeyBody (sanitizeBodyIfJson lowerAscii readKeyBody body) =
        sanitizeBodyIfJson lowerAscii readKeyBody body ↔
      ∀ t v, body = some t → readKeyBody t = some v → FloatsKept lowerAscii id v := by
  have hback : readKeyBody keyBodyRedacted.serialize = some keyBodyRedacted := by
    have hne : keyBodyRedacted.serialize ≠ keyBody.serialize := by decide
    rw [readKeyBody, if_neg hne, if_pos rfl]
  refine sanitize_exact_iff lowerAscii readKeyBody id (fun t v h => (readKeyBody_cases h).1)
    (fun text h => h) fun t v h => ?_
  rw [(readKeyBody_cases h).2, hback]
  rfl

/-- The suffix of `client_secret_tokens` excuses its `secret`. -/
theorem hidden_secret_not_redacted :
    ¬ Redacts lowerAscii (.obj [("client_secret_tokens", .str "zzz")])
      (sanitizeValue lowerAscii (.obj [("client_secret_tokens", .str "zzz")])) := by
  intro h
  have hcredential : isCredential lowerAscii "client_secret_tokens" = true := by decide
  have hsecret : isSecretKeyName lowerAscii "client_secret_tokens" = false := by decide
  have hkept : sanitizeValue lowerAscii (.obj [("client_secret_tokens", .str "zzz")]) =
      .obj [("client_secret_tokens", .str "zzz")] := by
    simp [sanitizeValue, sanitizeFields, hsecret]
  rw [hkept] at h
  have heq := h.members [] "client_secret_tokens" (.str "zzz") hcredential rfl
  exact absurd (str.inj heq) (by decide)

end ThinkWatch.Audit
