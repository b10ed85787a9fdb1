import ThinkWatch.Guards.Legacy

/-!
# Saving a converted policy again

The settings endpoint takes a converted content policy as it is. It refuses a tool policy in which a
custom rule has the id of a built-in one, and a redaction policy in which a pattern without a name
is called by a regex that is no name either; it takes every other one.
-/

namespace ThinkWatch.Guards

open Lib Policy

variable {e : Engine} {lower : String → String} {α ρ : Type} {ids : List String}

/-! ## Names -/

theorem trim_numbered_ne (name : String) (n : Nat) : trim (numbered name n) ≠ "" := by
  refine trim_ne_empty (c := '(') ?_ (by decide)
  rw [Names.toList_numbered]
  simp

theorem named_calledBy (he : e.Documented) {name other : String} :
    e.named (calledBy name other) = true ↔ (trim name = "" → e.named other = true) := by
  unfold calledBy
  split
  · next hblank => exact ⟨fun h _ => h, fun h => h hblank⟩
  · next hname => exact iff_of_true (he.named name hname) fun h => absurd h hname

/-- The names that are given are names when the wanted ones are. -/
theorem named_given (he : e.Documented) (wanted : List String) :
    (∀ a ∈ given Names.unique [] wanted, e.named a = true) ↔ ∀ a ∈ wanted, e.named a = true := by
  refine Names.freshening.forall_given_iff ?_ fun a ha => absurd ha List.not_mem_nil
  intro names name h
  obtain ⟨n, hn⟩ := Names.unique_of_mem h
  rw [hn]
  exact he.named _ (trim_numbered_ne name n)

/-- No number makes a name the id of a built-in rule. -/
theorem notBuiltin_given (he : e.Documented) (wanted : List String) :
    (∀ a ∈ given Names.unique [] wanted, a ∉ e.toolBuiltins) ↔
      ∀ a ∈ wanted, a ∉ e.toolBuiltins := by
  refine Names.freshening.forall_given_iff ?_ fun a ha => absurd ha List.not_mem_nil
  intro names name h
  obtain ⟨n, hn⟩ := Names.unique_of_mem h
  rw [hn]
  intro hid
  refine he.ids _ hid ?_
  rw [Names.toList_numbered]
  simp

/-! ## The ids of a policy -/

/-- Every built-in rule that the policy names is known. -/
structure GuardPolicy.Known (ids : List String) (p : GuardPolicy α ρ) : Prop where
  enable : ∀ id ∈ p.enable, id ∈ ids
  disable : ∀ id ∈ p.disable, id ∈ ids
  actions : ∀ entry ∈ p.actions, entry.1 ∈ ids

namespace GuardPolicy.Known

variable {p : GuardPolicy α ρ} {id : String} {mode : Mode}

theorem forall_snoc {l : List String} (h : ∀ a ∈ l, a ∈ ids) (hid : id ∈ ids) :
    ∀ a ∈ l ++ [id], a ∈ ids := by
  intro a ha
  rcases List.mem_append.mp ha with ha | ha
  · exact h a ha
  · exact List.mem_singleton.mp ha ▸ hid

theorem factory : ({ mode := mode } : GuardPolicy α ρ).Known ids where
  enable := fun _ h => absurd h List.not_mem_nil
  disable := fun _ h => absurd h List.not_mem_nil
  actions := fun _ h => absurd h List.not_mem_nil

theorem setAction (h : p.Known ids) (hid : id ∈ ids) (action : α) :
    (p.setAction id action).Known ids where
  enable := h.enable
  disable := h.disable
  actions := by
    intro entry hentry
    rcases mem_put.mp hentry with rfl | ⟨hold, -⟩
    · exact hid
    · exact h.actions entry hold

theorem addEnable (h : p.Known ids) (hid : id ∈ ids) :
    ({ p with enable := p.enable ++ [id] } : GuardPolicy α ρ).Known ids :=
  ⟨forall_snoc h.enable hid, h.disable, h.actions⟩

theorem addDisable (h : p.Known ids) (hid : id ∈ ids) :
    ({ p with disable := p.disable ++ [id] } : GuardPolicy α ρ).Known ids :=
  ⟨h.enable, forall_snoc h.disable hid, h.actions⟩

theorem withCustom (h : p.Known ids) (custom : List ρ) :
    ({ p with custom := custom } : GuardPolicy α ρ).Known ids :=
  ⟨h.enable, h.disable, h.actions⟩

end GuardPolicy.Known

/-- What `check` wants of the custom rules comes on top of known ids. -/
theorem GuardPolicy.Known.checked {right : ρ → Prop} {name : ρ → String} {named : String → Bool}
    {p : GuardPolicy α ρ} (h : p.Known ids) (hright : ∀ c ∈ p.custom, right c)
    (hnamed : ∀ a ∈ p.custom.map name, named a = true) (hnodup : (p.custom.map name).Nodup) :
    p.Checked ids right name named :=
  ⟨h.enable, h.disable, h.actions, hright, hnamed, hnodup⟩

/-! ## The content filter -/

section Content

theorem known_convertBuiltin {hidden : HiddenText} {configured : List (String × ContentAction)}
    {enforce : Bool} {p : ContentPolicy} {b : ContentBuiltin} (h : p.Known ids) (hb : b.id ∈ ids) :
    (e.convertBuiltin hidden configured enforce p b).Known ids := by
  unfold Engine.convertBuiltin
  split
  · cases hidden with
    | off => exact h.addDisable hb
    | log => exact h.setAction hb .record
    | warn => exact h.setAction hb .record
    | block => exact h.setAction hb .block
  · cases configured.lookup b.id with
    | some action =>
      have henable : (if b.onByDefault then p else
          { p with enable := p.enable ++ [b.id] } : ContentPolicy).Known ids := by
        split
        · exact h
        · exact h.addEnable hb
      dsimp only
      split
      · exact henable
      · exact henable.setAction hb action
    | none =>
      dsimp only
      split
      · exact h.addDisable hb
      · exact h

theorem known_foldl_convertBuiltin {hidden : HiddenText}
    {configured : List (String × ContentAction)} {enforce : Bool} {bs : List ContentBuiltin}
    {p : ContentPolicy} (h : p.Known ids) (hbs : ∀ b ∈ bs, b.id ∈ ids) :
    (bs.foldl (e.convertBuiltin hidden configured enforce) p).Known ids := by
  induction bs generalizing p with
  | nil => exact h
  | cons b bs ih =>
    rw [List.forall_mem_cons] at hbs
    exact ih (known_convertBuiltin h hbs.1) hbs.2

theorem checkContent_of_usable {old : OldContentRule} {r : UsableContentRule}
    (h : e.usableContentRule old = some r) :
    e.checkContent { custom := [customContent r r.name] } = .ok () := by
  have hok := (Option.filter_eq_some_iff.mp h).2
  cases hcheck : e.checkContent { custom := [customContent r r.name] } with
  | ok => rfl
  | error =>
    rw [hcheck] at hok
    cases hok

/-- A usable rule compiles, and has a name. -/
theorem usable_of_mem (he : e.Documented) {patterns : Option Json} {r : UsableContentRule}
    (h : r ∈ e.usableContent patterns) :
    (∀ name, e.ContentRight (customContent r name)) ∧ e.named r.name = true := by
  obtain ⟨old, -, hold⟩ := List.mem_filterMap.mp h
  have hcheck := (he.content _).mp (checkContent_of_usable hold)
  have hright : e.ContentRight (customContent r r.name) := hcheck.right _ List.mem_cons_self
  exact ⟨fun _ => hright, hcheck.named r.name List.mem_cons_self⟩

theorem content_checked (he : e.Documented) (patterns hidden : Option Json) :
    (e.content lower patterns hidden).Checked e.contentIds e.ContentRight CustomContentRule.name
      e.named := by
  have hmap : ∀ rs, (assign Names.unique UsableContentRule.name customContent [] rs).map
      CustomContentRule.name = given Names.unique [] (rs.map UsableContentRule.name) :=
    map_assign (fun _ _ => rfl) []
  refine GuardPolicy.Known.checked ?_ ?_ ?_ ?_
  · exact (known_foldl_convertBuiltin .factory fun b => List.mem_map_of_mem).withCustom _
  · intro c hc
    obtain ⟨r, hr, name, rfl⟩ := exists_of_mem_assign hc
    exact (usable_of_mem he (List.mem_filter.mp hr).1).1 name
  · rw [Engine.content, hmap, named_given he]
    intro a ha
    obtain ⟨r, hr, rfl⟩ := List.mem_map.mp ha
    exact (usable_of_mem he (List.mem_filter.mp hr).1).2
  · rw [Engine.content, hmap]
    exact Names.freshening.nodup_given _ _

end Content

/-! ## Redaction -/

section Redact

theorem labelOk_labelOf (placeholderPrefix : String) :
    ∀ label ∈ e.labelOf placeholderPrefix, e.labelOk label = true := by
  intro label hlabel
  unfold Engine.labelOf at hlabel
  dsimp only at hlabel
  split at hlabel
  · next hok =>
    obtain rfl := Option.some.inj hlabel
    exact (Bool.and_eq_true_iff.mp hok).1
  · cases hlabel

/-- The patterns that become custom rules. -/
def customPii (e : Engine) (pii : Option Json) : List OldPiiPattern :=
  (e.usablePii pii).filter fun p => p.seeded.isNone

theorem custom_redact (e : Engine) (pii : Option Json) :
    (e.redact pii).custom = assign Names.unique OldPiiPattern.called e.customRedact []
      (customPii e pii) := by
  unfold Engine.redact customPii
  dsimp only
  split
  · next hempty =>
    rw [List.isEmpty_iff.mp hempty]
    rfl
  · rfl

theorem known_redact (e : Engine) (pii : Option Json) : (e.redact pii).Known e.redactIds := by
  unfold Engine.redact
  dsimp only
  split
  · exact .factory
  · refine ⟨fun id hid => ?_, fun id hid => ?_, fun _ h => absurd h List.not_mem_nil⟩
    · obtain ⟨b, hb, rfl⟩ := List.mem_map.mp hid
      exact List.mem_map_of_mem (List.mem_filter.mp (List.mem_filter.mp hb).1).1
    · obtain ⟨b, hb, rfl⟩ := List.mem_map.mp hid
      exact List.mem_map_of_mem (List.mem_filter.mp (List.mem_filter.mp hb).1).1

theorem redactRight_of_mem (he : e.Documented) {pii : Option Json} {c : CustomRedactRule}
    (h : c ∈ (e.redact pii).custom) : e.RedactRight c := by
  rw [custom_redact] at h
  obtain ⟨p, hp, name, rfl⟩ := exists_of_mem_assign h
  have hcompiles := (List.mem_filter.mp (List.mem_filter.mp hp).1).2
  exact ⟨he.compile _ _ hcompiles, labelOk_labelOf p.placeholderPrefix⟩

/-- Of the patterns that become custom rules, one without a name has a regex that is a name. -/
def PiiNamed (e : Engine) (pii : Option Json) : Prop :=
  ∀ p ∈ e.usablePii pii, p.seeded = none → trim p.name = "" → e.named p.regex = true

theorem piiNamed_iff (he : e.Documented) (pii : Option Json) :
    PiiNamed e pii ↔ ∀ a ∈ (customPii e pii).map OldPiiPattern.called, e.named a = true := by
  simp only [PiiNamed, customPii, List.forall_mem_map, List.mem_filter, Option.isNone_iff_eq_none,
    and_imp, OldPiiPattern.called, named_calledBy he]

theorem redact_checked_iff (he : e.Documented) (pii : Option Json) :
    (e.redact pii).Checked e.redactIds e.RedactRight CustomRedactRule.name e.named ↔
      PiiNamed e pii := by
  have hnames : (e.redact pii).custom.map CustomRedactRule.name =
      given Names.unique [] ((customPii e pii).map OldPiiPattern.called) := by
    rw [custom_redact]
    exact map_assign (fun _ _ => rfl) _ _
  rw [piiNamed_iff he, ← named_given he, ← hnames]
  refine ⟨fun h => h.named, fun h => ?_⟩
  refine (known_redact e pii).checked (fun c => redactRight_of_mem he) h ?_
  rw [hnames]
  exact Names.freshening.nodup_given _ _

end Redact

/-! ## Tool-call inspection -/

section Tools

theorem names_tools (e : Engine) (stored : Option Json) :
    (e.tools stored).custom.map CustomToolRule.name =
      given Names.unique [] ((e.usableTools stored).map OldToolRule.name) :=
  map_assign (fun _ _ => rfl) _ _

theorem known_tools (e : Engine) (stored : Option Json) :
    (e.tools stored).Known e.toolBuiltins where
  enable := fun _ h => absurd h List.not_mem_nil
  disable := fun _ h => List.contains_iff_mem.mp (List.mem_filter.mp h).2
  actions := fun _ h => List.contains_iff_mem.mp (List.mem_filter.mp h).2

theorem tools_checked (he : e.Documented) (stored : Option Json) :
    (e.tools stored).Checked e.toolBuiltins e.ToolRight CustomToolRule.name e.named := by
  have husable : ∀ r ∈ e.usableTools stored,
      e.single r.name r.pattern false = true ∧ trim r.name ≠ "" := by
    intro r hr
    obtain ⟨hsingle, hname⟩ := Bool.and_eq_true_iff.mp (List.mem_filter.mp hr).2
    exact ⟨hsingle, of_decide_eq_true hname⟩
  refine (known_tools e stored).checked ?_ ?_ ?_
  · intro c hc
    obtain ⟨r, hr, name, rfl⟩ := exists_of_mem_assign hc
    exact he.single _ _ (husable r hr).1
  · rw [names_tools, named_given he]
    intro a ha
    obtain ⟨r, hr, rfl⟩ := List.mem_map.mp ha
    exact he.named _ (husable r hr).2
  · rw [names_tools]
    exact Names.freshening.nodup_given _ _

/-- No custom rule that the old runtime ran is called like a built-in one. -/
def ToolsApart (e : Engine) (stored : Option Json) : Prop :=
  ∀ r ∈ e.usableTools stored, r.name ∉ e.toolBuiltins

theorem toolsApart_iff (he : e.Documented) (stored : Option Json) :
    (∀ c ∈ (e.tools stored).custom, c.name ∉ e.toolBuiltins) ↔ ToolsApart e stored := by
  have hgiven := notBuiltin_given he ((e.usableTools stored).map OldToolRule.name)
  rw [← names_tools, List.forall_mem_map, List.forall_mem_map] at hgiven
  exact hgiven

end Tools

/-! ## An engine -/

section Example

/-- A field is left out when it has its default. -/
def fieldUnless {β : Type} [DecidableEq β] (key : String) (default : β) (write : β → Json) (x : β) :
    List (String × Json) :=
  if x = default then [] else [(key, write x)]

def strings (l : List String) : Json := .arr (l.map .str)

/-- One of a few names. -/
def oneOf {β : Type} (names : List (String × β)) (value : Json) : Option β :=
  value.asStr.bind fun name => names.lookup name

def modeNames : List (String × Mode) :=
  [("off", .off), ("observe", .observe), ("enforce", .enforce)]

def contentActionNames : List (String × ContentAction) :=
  [("block", .block), ("strip", .strip), ("replace", .replace), ("record", .record)]

def toolActionNames : List (String × ToolAction) := [("cut", .cut), ("record", .record)]

def redactActionNames : List (String × RedactAction) :=
  [("placeholder", .placeholder), ("record", .record)]

def matchNames : List (String × ContentMatch) :=
  [("contains", .contains), ("regex", .regex), ("codepoints", .codepoints)]

def slug {β : Type} [DecidableEq β] (names : List (String × β)) (x : β) : Json :=
  .str (((names.find? fun n => n.2 = x).map Prod.fst).getD "")

def readBool : Json → Option Bool
  | .bool b => some b
  | _ => none

/-- A policy as an object with the fields that are not the factory's. -/
def policySerde [DecidableEq α] [DecidableEq ρ] (actionNames : List (String × α))
    (writeRule : ρ → Json) (readRule : Json → Option ρ) : Serde (GuardPolicy α ρ) where
  toValue p := .obj (
    fieldUnless "mode" .observe (slug modeNames) p.mode ++
    fieldUnless "enable" [] strings p.enable ++
    fieldUnless "disable" [] strings p.disable ++
    fieldUnless "actions" []
      (fun l => .obj (l.map fun entry => (entry.1, slug actionNames entry.2))) p.actions ++
    fieldUnless "custom" [] (fun l => .arr (l.map writeRule)) p.custom)
  fromValue value := orRefuse (do
    let mode ← withDefault (oneOf modeNames) .observe (value.get "mode")
    let enable ← withDefault readStrings [] (value.get "enable")
    let disable ← withDefault readStrings [] (value.get "disable")
    let actions ← withDefault (readMap (oneOf actionNames)) [] (value.get "actions")
    let custom ← withDefault (fun items => do (← items.asArray).mapM readRule) []
      (value.get "custom")
    return { mode, enable, disable, actions, custom }) "not a policy"

def contentSerde : Serde ContentPolicy :=
  policySerde contentActionNames
    (fun c => .obj ([("name", .str c.name), ("pattern", .str c.pattern)] ++
      fieldUnless "match" .contains (slug matchNames) c.matching ++
      [("action", slug contentActionNames c.action)]))
    (fun value => do
      let name ← Json.asStr (← value.get "name")
      let pattern ← Json.asStr (← value.get "pattern")
      let matching ← withDefault (oneOf matchNames) .contains (value.get "match")
      let action ← oneOf contentActionNames (← value.get "action")
      return ⟨name, pattern, requestOnly, matching, false, action, defaultReplacement, false⟩)

def redactSerde : Serde RedactPolicy :=
  policySerde redactActionNames
    (fun c => .obj ([("name", .str c.name), ("pattern", .str c.pattern)] ++
      fieldUnless "match" .contains (slug matchNames) c.matching ++
      fieldUnless "case_sensitive" false .bool c.caseSensitive ++
      fieldUnless "label" none (fun label => .str (label.getD "")) c.label))
    (fun value => do
      let name ← Json.asStr (← value.get "name")
      let pattern ← Json.asStr (← value.get "pattern")
      let matching ← withDefault (oneOf matchNames) .contains (value.get "match")
      let caseSensitive ← withDefault readBool false (value.get "case_sensitive")
      let label ← optionalString (value.get "label")
      return ⟨name, pattern, matching, caseSensitive, label, .placeholder, false⟩)

def toolSerde : Serde ToolPolicy :=
  policySerde toolActionNames
    (fun c => .obj [("name", .str c.name), ("pattern", .str c.pattern),
      ("action", slug toolActionNames c.action)])
    (fun value => do
      let name ← Json.asStr (← value.get "name")
      let pattern ← Json.asStr (← value.get "pattern")
      let action ← oneOf toolActionNames (← value.get "action")
      return ⟨name, pattern, action, false⟩)

instance {right : ρ → Prop} [DecidablePred right] {name : ρ → String} {named : String → Bool}
    {p : GuardPolicy α ρ} : Decidable (p.Checked ids right name named) :=
  decidable_of_iff ((∀ id ∈ p.enable, id ∈ ids) ∧ (∀ id ∈ p.disable, id ∈ ids) ∧
      (∀ entry ∈ p.actions, entry.1 ∈ ids) ∧ (∀ c ∈ p.custom, right c) ∧
      (∀ a ∈ p.custom.map name, named a = true) ∧ (p.custom.map name).Nodup)
    ⟨fun ⟨h₁, h₂, h₃, h₄, h₅, h₆⟩ => ⟨h₁, h₂, h₃, h₄, h₅, h₆⟩,
      fun ⟨h₁, h₂, h₃, h₄, h₅, h₆⟩ => ⟨h₁, h₂, h₃, h₄, h₅, h₆⟩⟩

-- Irreducible, so that a proof does not compute with it.
@[irreducible] def acceptIf (P : Prop) [Decidable P] : Except String Unit :=
  refuseIf (¬ P) "a rule is not known or not right"

theorem acceptIf_ok {P : Prop} [Decidable P] : acceptIf P = .ok () ↔ P := by
  unfold acceptIf
  exact refuseIf_ok.trans not_not

@[irreducible] def compilesPlain (pattern : String) : Bool :=
  trim pattern != "" && !pattern.toList.contains '('

@[irreducible] def plainLabel (label : String) : Bool :=
  label != "" && label.toList.all Char.isUpper

@[irreducible] def notBlank (name : String) : Bool := trim name != ""

/-- Some of the built-in rules, and patterns without groups. -/
def smallEngine : Engine where
  contentBuiltins :=
    [⟨"ignore-all-previous", .contains, "ignore all previous", true⟩,
      ⟨"act-as", .contains, "act as", false⟩,
      ⟨"unicode-tags", .codepoints, "U+E0000-U+E007F", true⟩]
  builtinAction _ := .block
  redactBuiltins := [⟨"email", true, false⟩, ⟨"bank-card", true, true⟩]
  toolBuiltins := ["curl-pipe-sh", "rm-rf-root"]
  contentCompiles _ _ := compilesPlain
  redactCompiles _ _ := compilesPlain
  toolCompiles := compilesPlain
  compile _ := compilesPlain
  single _ pattern _ := compilesPlain pattern
  labelOk := plainLabel
  named := notBlank
  checkContent p := acceptIf (p.Checked ["ignore-all-previous", "act-as", "unicode-tags"]
    (fun c => compilesPlain c.pattern = true) CustomContentRule.name notBlank)
  checkRedact p := acceptIf (p.Checked ["email", "bank-card"]
    (fun c => compilesPlain c.pattern = true ∧ ∀ label ∈ c.label, plainLabel label = true)
    CustomRedactRule.name notBlank)
  checkTools p := acceptIf (p.Checked ["curl-pipe-sh", "rm-rf-root"]
    (fun c => compilesPlain c.pattern = true) CustomToolRule.name notBlank)
  contentValue := contentSerde
  redactValue := redactSerde
  toolValue := toolSerde
  readMode := oneOf modeNames
  readToolAction := oneOf toolActionNames

theorem notBlank_iff {name : String} : notBlank name = true ↔ trim name ≠ "" := by
  unfold notBlank
  exact bne_iff_ne

theorem documented_smallEngine : smallEngine.Documented where
  content _ := acceptIf_ok
  redact _ := acceptIf_ok
  tools _ := acceptIf_ok
  compile _ _ h := h
  single _ _ h := h
  named _ h := notBlank_iff.mpr h
  unnamed := by decide +kernel
  ids := by decide +kernel

end Example

/-! ## Saving again -/

theorem replacement_content (e : Engine) (patterns hidden : Option Json) :
    ∀ c ∈ (e.content lower patterns hidden).custom, c.replacement.length ≤ replacementChars := by
  intro c hc
  obtain ⟨r, -, name, rfl⟩ := exists_of_mem_assign hc
  have hdefault : defaultReplacement.length ≤ replacementChars := by decide
  exact hdefault

/--
A converted policy with custom rules within the limits is taken when it is saved again: the content
policy always, the redaction policy when the names are names, and the tool policy when no rule has
the id of a built-in one. The names that are given are different, and the loop that looks for one
ends.
-/
theorem converted_saved_iff (he : e.Documented) (lower : String → String)
    (patterns hidden pii stored : Option Json)
    (hcontent : e.contentValue.Lossless (e.content lower patterns hidden))
    (hredact : e.redactValue.Lossless (e.redact pii))
    (htools : e.toolValue.Lossless (e.tools stored)) :
    (withinLimits .content
        ((e.content lower patterns hidden).custom.map CustomContentRule.limited) = .ok () →
      e.validate .content (e.contentValue.toValue (e.content lower patterns hidden)) = .ok ()) ∧
    (withinLimits .redact ((e.redact pii).custom.map CustomRedactRule.limited) = .ok () →
      (e.validate .redact (e.redactValue.toValue (e.redact pii)) = .ok () ↔ PiiNamed e pii)) ∧
    (withinLimits .inspectTools ((e.tools stored).custom.map CustomToolRule.limited) = .ok () →
      (e.validate .inspectTools (e.toolValue.toValue (e.tools stored)) = .ok () ↔
        ToolsApart e stored)) ∧
    (∀ names, (given Names.unique [] names).Nodup) ∧
    ∀ names name fuel, names.length < fuel →
      Names.search names name fuel name 2 = some (Names.unique names name) := by
  refine ⟨fun hlimits => ?_, fun hlimits => ?_, fun hlimits => ?_, fun names => ?_,
    fun names name fuel h => ?_⟩
  · rw [Engine.validate_content hcontent hlimits (replacement_content e patterns hidden),
      he.content]
    exact content_checked he patterns hidden
  · rw [Engine.validate_redact hredact hlimits, he.redact]
    exact redact_checked_iff he pii
  · rw [Engine.validate_tools htools hlimits, he.tools, toolsApart_iff he]
    exact and_iff_left (tools_checked he stored)
  · exact Names.freshening.nodup_given [] names
  · exact Names.search_eq_unique h name


def oldContent : Json :=
  .arr [
    .obj [("name", .str "Secret"), ("pattern", .str "project x"), ("match_type", .str "contains"),
      ("action", .str "block")],
    .obj [("name", .str "Secret"), ("pattern", .str "project y"), ("match_type", .str "CONTAINS"),
      ("action", .str "warn")]]

def oldPii : Json :=
  .arr [.obj [("name", .str "ssn"), ("regex", .str "[0-9]+"), ("placeholder_prefix", .str "ssn")]]

def oldTools (name : String) : Json :=
  .obj [("mode", .str "enforce"), ("custom", .arr [
    .obj [("name", .str name), ("pattern", .str "kubectl delete"), ("action", .str "cut")]])]

def newContent : ContentPolicy :=
  smallEngine.content asciiLower (some oldContent) (some (.str "block"))

def newPii : RedactPolicy := smallEngine.redact (some oldPii)

def newTools (name : String) : ToolPolicy := smallEngine.tools (some (oldTools name))

example : newContent.custom.map CustomContentRule.name = ["Secret", "Secret (2)"] := by
  decide +kernel

theorem converted_saved_kubectl :
    smallEngine.validate .content (contentSerde.toValue newContent) = .ok () ∧
      smallEngine.validate .redact (redactSerde.toValue newPii) = .ok () ∧
      smallEngine.validate .inspectTools (toolSerde.toValue (newTools "kubectl delete")) =
        .ok () := by
  obtain ⟨hcontent, hredact, htools, -⟩ := converted_saved_iff documented_smallEngine asciiLower
    (some oldContent) (some (.str "block")) (some oldPii) (some (oldTools "kubectl delete"))
    ⟨⟨_, rfl⟩, by decide +kernel⟩ ⟨⟨_, rfl⟩, by decide +kernel⟩ ⟨⟨_, rfl⟩, by decide +kernel⟩
  refine ⟨hcontent (by decide +kernel), (hredact (by decide +kernel)).mpr ?_,
    (htools (by decide +kernel)).mpr ?_⟩
  · unfold PiiNamed
    decide +kernel
  · unfold ToolsApart
    decide +kernel

/-- A rule that the old runtime ran under the name of a built-in one. -/
theorem curlRule_refused : smallEngine.Documented ∧
    toolSerde.Lossless (newTools "curl-pipe-sh") ∧
    withinLimits .inspectTools ((newTools "curl-pipe-sh").custom.map CustomToolRule.limited) =
      .ok () ∧
    smallEngine.validate .inspectTools (toolSerde.toValue (newTools "curl-pipe-sh")) =
      .error ("security.inspect_tools: custom rule `curl-pipe-sh` has the name of a built-in " ++
        "rule; give it another name") :=
  ⟨documented_smallEngine, ⟨⟨_, rfl⟩, by decide +kernel⟩, by decide +kernel, by decide +kernel⟩

end ThinkWatch.Guards
