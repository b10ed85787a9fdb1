import ThinkWatch.Errors
import ThinkWatch.Policy.Allowlists

/-!
# The allow-lists that a key may be created with

`validate_allowlists_within_role` (`crates/server/src/handlers/api_keys.rs`) checks the lists of a
new key against those of the owner's roles with tests of its own, which compare patterns. A request
is held to the intersection of the two lists, which compares names.
-/

namespace ThinkWatch.Policy

open Lib

/-! ## The checks -/

/-- `m == g || m.starts_with(g)`, for some granted `g`. -/
def modelCovered (granted : List String) (m : String) : Bool :=
  granted.any fun g => m == g || g.toList.isPrefixOf m.toList

def firstUncoveredModel (requested granted : List String) : Option String :=
  requested.find? fun m => !modelCovered granted m

def mcpPatternCovered (requested : String) (granted : List String) : Bool :=
  if granted.any (· == "*") then true
  else if granted.any (· == requested) then true
  else if !(['_', '_', '*'].isSuffixOf requested.toList) then
    match cut ['_', '_'] requested.toList with
    | some (server, _) => granted.any (· == String.ofList (server ++ ['_', '_', '*']))
    | none => false
  else false

def firstUncoveredMcpTool (requested granted : List String) : Option String :=
  requested.find? fun p => !mcpPatternCovered p granted

/-- One of the two checks: nothing is left out when either side has no list. -/
def checkWithin (field : String) (firstUncovered : List String → List String → Option String)
    (requested granted : Option (List String)) : Except AppError Unit :=
  match requested, granted with
  | some req, some granted =>
    match firstUncovered req granted with
    | some bad => .error (.badRequest s!"{field} entry '{bad}' is not granted by your roles")
    | none => .ok ()
  | _, _ => .ok ()

/-- `validate_allowlists_within_role`, with what the roles grant already read. -/
def validateAllowlistsWithinRole (limits : UserResourceLimits)
    (requestedModels requestedMcpTools : Option (List String)) : Except AppError Unit := do
  checkWithin "allowed_models" firstUncoveredModel requestedModels limits.allowedModels
  checkWithin "allowed_mcp_tools" firstUncoveredMcpTool requestedMcpTools limits.allowedMcpTools

/-- Every entry of the list is covered by the granted list, if both are there. -/
def Within (covered : List String → String → Bool) (requested granted : Option (List String)) :
    Prop :=
  ∀ req ∈ requested, ∀ list ∈ granted, ∀ entry ∈ req, covered list entry = true

theorem checkWithin_ok {field : String} {covered : List String → String → Bool}
    {requested granted : Option (List String)} :
    checkWithin field (fun req list => req.find? fun e => !covered list e) requested granted =
      .ok () ↔ Within covered requested granted := by
  unfold checkWithin Within
  split
  · next req list =>
    split
    · next bad hbad =>
      have hmem := List.mem_of_find?_eq_some hbad
      have huncovered := List.find?_some hbad
      constructor
      · intro h
        cases h
      · intro h
        rw [h req rfl list rfl bad hmem] at huncovered
        cases huncovered
    · next hnone =>
      rw [List.find?_eq_none] at hnone
      simp only [true_iff, Option.mem_def, Option.some.injEq]
      rintro req rfl list rfl entry hmem
      simpa using hnone entry hmem
  · next hother =>
    simp only [true_iff, Option.mem_def]
    intro req hreq list hlist
    exact absurd hlist (hother req list hreq)

theorem validate_ok {limits : UserResourceLimits} {models tools : Option (List String)} :
    validateAllowlistsWithinRole limits models tools = .ok () ↔
      Within modelCovered models limits.allowedModels ∧
        Within (fun granted p => mcpPatternCovered p granted) tools limits.allowedMcpTools := by
  unfold validateAllowlistsWithinRole
  rw [bind_ok]
  constructor
  · rintro ⟨⟨⟩, hmodels, htools⟩
    exact ⟨checkWithin_ok.mp hmodels, checkWithin_ok.mp htools⟩
  · rintro ⟨hmodels, htools⟩
    exact ⟨(), checkWithin_ok.mpr hmodels, checkWithin_ok.mpr htools⟩

/-! ## Models -/

theorem modelCovered_iff {granted : List String} {m : String} :
    modelCovered granted m = true ↔ ∃ g ∈ granted, modelEntryMatches m g = true := by
  simp only [modelCovered, modelEntryMatches, List.any_eq_true]

/-- A covered entry and what it stands for: every name that starts with it. -/
theorem modelCovered_iff_allows {granted : List String} {entry : String} :
    modelCovered granted entry = true ↔
      ∀ model, modelEntryMatches model entry = true → mayCall (some granted) model = true := by
  simp only [modelCovered_iff, mayCall, allowedBy, List.any_eq_true, modelEntryMatches_iff]
  constructor
  · rintro ⟨g, hg, hpre⟩ model hentry
    exact ⟨g, hg, hpre.trans hentry⟩
  · intro h
    exact h entry List.prefix_rfl

/-! ## Tools -/

/-- A name with a server and a tool, joined with `__`. -/
def Namespaced (name : String) : Prop :=
  ∃ server tool, cut ['_', '_'] name.toList = some (server, tool) ∧ server ≠ [] ∧ tool ≠ []

/-- A server that a wildcard may name. -/
def ServerName (server : List Char) : Prop :=
  server ≠ [] ∧ ¬ ['_', '_'] <:+: server ∧ '*' ∉ server

theorem stripServerWildcard_append (server : List Char) :
    stripServerWildcard (server ++ ['_', '_', '*']) = some server := by
  unfold stripServerWildcard
  rw [if_pos (by simp)]
  simp

theorem stripServerWildcard_star : stripServerWildcard "*".toList = none := by decide

/-- What a wildcard matches. -/
theorem patternMatches_wildcard {name pattern : String} {server : List Char}
    (hstrip : stripServerWildcard pattern.toList = some server) :
    patternMatches name pattern = true ↔
      ServerName server ∧ ∃ tool, cut ['_', '_'] name.toList = some (server, tool) ∧ tool ≠ [] := by
  have hstar : pattern ≠ "*" := by
    rintro rfl
    rw [stripServerWildcard_star] at hstrip
    cases hstrip
  unfold patternMatches ServerName
  rw [if_neg hstar, hstrip]
  simp only
  split
  · next hbad =>
    simp only [Bool.false_eq_true, false_iff]
    rintro ⟨⟨hne, hsep, hnot⟩, -⟩
    exact hbad.elim hne (Or.elim · hsep hnot)
  · next hgood =>
    simp only [not_or] at hgood
    split
    · next s t hcut =>
      simp only [hcut, hgood, Bool.and_eq_true, beq_iff_eq, bne_iff_ne, Option.some.injEq,
        Prod.mk.injEq, not_false_eq_true, ne_eq, true_and]
      grind
    · next hcut => simp [hcut]

/-- What a pattern without a wildcard matches: its own name. -/
theorem patternMatches_exact {name pattern : String} (hstar : pattern ≠ "*")
    (hstrip : stripServerWildcard pattern.toList = none) :
    patternMatches name pattern = true ↔
      '*' ∉ pattern.toList ∧ Namespaced pattern ∧ pattern = name := by
  unfold patternMatches Namespaced
  rw [if_neg hstar, hstrip]
  simp only
  split
  · next h => simp [h]
  · next h =>
    split
    · next s t hcut =>
      simp only [hcut, h, Bool.and_eq_true, beq_iff_eq, bne_iff_ne, Option.some.injEq,
        Prod.mk.injEq, not_false_eq_true, ne_eq, true_and]
      grind
    · next hcut => simp [hcut]

/-- The part before the first separator, with the separator after it, is a server that is found. -/
theorem not_infix_of_cut {name server tool : List Char}
    (hcut : cut ['_', '_'] name = some (server, tool)) :
    ¬ ['_', '_'] <:+: server ++ ['_'] := by
  have hname := eq_of_cut hcut
  rw [hname] at hcut
  exact (cut_join (List.cons_ne_nil _ _)).mp hcut

theorem mcpPatternCovered_iff {requested : String} {granted : List String} :
    mcpPatternCovered requested granted = true ↔
      "*" ∈ granted ∨ requested ∈ granted ∨
        (stripServerWildcard requested.toList = none ∧
          ∃ server tool, cut ['_', '_'] requested.toList = some (server, tool) ∧
            String.ofList (server ++ ['_', '_', '*']) ∈ granted) := by
  have hany : ∀ x : String, granted.any (· == x) = true ↔ x ∈ granted := by
    intro x
    simp
  unfold mcpPatternCovered stripServerWildcard
  simp only [hany]
  split
  · next h => simp [h]
  · next hstar =>
    split
    · next h => simp [h]
    · next hself =>
      by_cases hsuffix : ['_', '_', '*'].isSuffixOf requested.toList = true
      · simp [hsuffix, hstar, hself]
      · cases hcut : cut ['_', '_'] requested.toList with
        | none => simp [hstar, hself]
        | some r =>
          obtain ⟨server, tool⟩ := r
          simp [hsuffix, hstar, hself]

/-- A covered pattern: what it matches is granted. -/
theorem granted_of_covered {requested name : String} {granted : List String}
    (h : mcpPatternCovered requested granted = true)
    (hmatch : patternMatches name requested = true) : isToolAllowed (some granted) name = true := by
  rw [isToolAllowed, allowedBy, List.any_eq_true]
  rcases mcpPatternCovered_iff.mp h with hstar | hself | ⟨hstrip, server, tool, hcut, hwild⟩
  · exact ⟨"*", hstar, by simp [patternMatches]⟩
  · exact ⟨requested, hself, hmatch⟩
  · refine ⟨_, hwild, ?_⟩
    have hne : requested ≠ "*" := by
      rintro rfl
      rw [show cut ['_', '_'] "*".toList = none by decide] at hcut
      cases hcut
    obtain ⟨hnostar, ⟨s, t, hcut', hs, ht⟩, rfl⟩ := (patternMatches_exact hne hstrip).mp hmatch
    rw [hcut] at hcut'
    obtain ⟨rfl, rfl⟩ := Prod.mk.inj (Option.some.inj hcut')
    have hserver : '*' ∉ server := by
      intro hin
      rw [eq_of_cut hcut] at hnostar
      exact hnostar (by simp [hin])
    have hsep : ¬ ['_', '_'] <:+: server :=
      fun hin => not_infix_of_cut hcut (hin.trans (List.infix_append' [] server ['_']))
    rw [@patternMatches_wildcard _ _ server
      (by rw [String.toList_ofList, stripServerWildcard_append])]
    exact ⟨⟨hs, hsep, hserver⟩, tool, hcut, ht⟩

/-- A list of patterns has a longest one. -/
theorem exists_longer (granted : List String) : ∃ n, ∀ g ∈ granted, g.toList.length < n := by
  induction granted with
  | nil => exact ⟨0, fun _ h => absurd h List.not_mem_nil⟩
  | cons g granted ih =>
    obtain ⟨n, hn⟩ := ih
    refine ⟨max n (g.toList.length + 1), fun x hx => ?_⟩
    rcases List.mem_cons.mp hx with rfl | hx
    · omega
    · have := hn x hx
      omega

/-- A tool of a server, with a name that is longer than `n`. -/
def longName (server : List Char) (n : Nat) : String :=
  String.ofList (server ++ ['_', '_'] ++ List.replicate (n + 1) 'a')

theorem cut_longName {server : List Char} {n : Nat} (h : ¬ ['_', '_'] <:+: server ++ ['_']) :
    cut ['_', '_'] (longName server n).toList = some (server, List.replicate (n + 1) 'a') := by
  rw [longName, String.toList_ofList]
  exact (cut_join (List.cons_ne_nil _ _)).mpr h

/-- Of a list of shorter patterns, a tool with a long name is matched by `*` and by its server's. -/
theorem mem_of_longName {server : List Char} {n : Nat} {granted : List String}
    (h : ¬ ['_', '_'] <:+: server ++ ['_']) (hlonger : ∀ g ∈ granted, g.toList.length < n)
    (hallowed : isToolAllowed (some granted) (longName server n) = true) :
    "*" ∈ granted ∨ String.ofList (server ++ ['_', '_', '*']) ∈ granted := by
  rw [isToolAllowed, allowedBy, List.any_eq_true] at hallowed
  obtain ⟨g, hg, hmatch⟩ := hallowed
  rcases patternMatches_cases hmatch with rfl | ⟨server', tool, hstrip, hcut⟩ | ⟨-, rfl⟩
  · exact Or.inl hg
  · rw [cut_longName h] at hcut
    obtain ⟨rfl, -⟩ := Prod.mk.inj (Option.some.inj hcut)
    right
    rwa [← eq_of_stripServerWildcard hstrip, String.ofList_toList]
  · -- a pattern that is a name is as long as the name
    have := hlonger _ hg
    rw [longName, String.toList_ofList] at this
    simp only [List.length_append, List.length_replicate] at this
    omega

theorem namespaced_longName {server : List Char} {n : Nat} (hserver : server ≠ [])
    (h : ¬ ['_', '_'] <:+: server ++ ['_']) : Namespaced (longName server n) :=
  ⟨server, _, cut_longName h, hserver, by simp⟩

/-- A pattern that matches some name is covered if every tool that it matches is granted. -/
theorem covered_of_granted {requested name : String} {granted : List String}
    (hname : patternMatches name requested = true)
    (h : ∀ tool, Namespaced tool → patternMatches tool requested = true →
      isToolAllowed (some granted) tool = true) : mcpPatternCovered requested granted = true := by
  rw [mcpPatternCovered_iff]
  obtain ⟨n, hlonger⟩ := exists_longer granted
  by_cases hstar : requested = "*"
  · -- a server with a long name, whose wildcard is not there
    subst hstar
    left
    have hlong : ¬ ['_', '_'] <:+: List.replicate (n + 1) 'a' ++ ['_'] := by
      intro hin
      have hcount := (hin.sublist.count_le '_')
      simp [List.count_replicate] at hcount
    have hallowed := h (longName (List.replicate (n + 1) 'a') n)
      (namespaced_longName (by simp) hlong) (by simp [patternMatches])
    rcases mem_of_longName hlong hlonger hallowed with hmem | hmem
    · exact hmem
    · have := hlonger _ hmem
      rw [String.toList_ofList] at this
      simp only [List.length_append, List.length_replicate] at this
      omega
  cases hstrip : stripServerWildcard requested.toList with
  | some server =>
    obtain ⟨hserver, tool, hcut, -⟩ := (patternMatches_wildcard hstrip).mp hname
    have hsep := not_infix_of_cut hcut
    have hallowed := h (longName server n) (namespaced_longName hserver.1 hsep)
      ((patternMatches_wildcard hstrip).mpr ⟨hserver, _, cut_longName hsep, by simp⟩)
    rcases mem_of_longName hsep hlonger hallowed with hmem | hmem
    · exact Or.inl hmem
    · rw [← eq_of_stripServerWildcard hstrip, String.ofList_toList] at hmem
      exact Or.inr (Or.inl hmem)
  | none =>
    obtain ⟨-, hspaced, rfl⟩ := (patternMatches_exact hstar hstrip).mp hname
    have hallowed := h requested hspaced hname
    rw [isToolAllowed, allowedBy, List.any_eq_true] at hallowed
    obtain ⟨g, hg, hmatch⟩ := hallowed
    rcases patternMatches_cases hmatch with rfl | ⟨server, tool, hstrip', hcut⟩ | ⟨-, rfl⟩
    · exact Or.inl hg
    · refine Or.inr (Or.inr ⟨rfl, server, tool, hcut, ?_⟩)
      rwa [← eq_of_stripServerWildcard hstrip', String.ofList_toList]
    · exact Or.inr (Or.inl hg)

/-- A pattern that matches some name, and what it stands for. -/
theorem mcpPatternCovered_iff_allows {requested : String} {granted : List String}
    (hname : ∃ name, patternMatches name requested = true) :
    mcpPatternCovered requested granted = true ↔
      ∀ tool, Namespaced tool → patternMatches tool requested = true →
        isToolAllowed (some granted) tool = true := by
  obtain ⟨name, hname⟩ := hname
  exact ⟨fun h tool _ hmatch => granted_of_covered h hmatch, covered_of_granted hname⟩

/-! ## What is accepted -/

variable {limits : UserResourceLimits} {models tools : Option (List String)}

/-- A list is accepted when each of its entries is, alone. -/
theorem validate_ok_iff_entries (ms ts : List String) :
    validateAllowlistsWithinRole limits (some ms) (some ts) = .ok () ↔
      (∀ m ∈ ms, validateAllowlistsWithinRole limits (some [m]) none = .ok ()) ∧
        ∀ t ∈ ts, validateAllowlistsWithinRole limits none (some [t]) = .ok () := by
  simp only [validate_ok, Within, Option.mem_def, Option.some.injEq, forall_eq', List.mem_singleton,
    forall_eq, reduceCtorEq, false_imp_iff, implies_true, and_true, true_and]
  grind

theorem validate_model_ok (entry : String) :
    validateAllowlistsWithinRole limits (some [entry]) none = .ok () ↔
      ∀ model, modelEntryMatches model entry = true → mayCall limits.allowedModels model = true := by
  have hok : validateAllowlistsWithinRole limits (some [entry]) none = .ok () ↔
      ∀ granted ∈ limits.allowedModels, modelCovered granted entry = true := by
    simp [validate_ok, Within]
  rw [hok]
  cases limits.allowedModels with
  | none => simp [mayCall, allowedBy]
  | some granted =>
    simp only [Option.mem_def, Option.some.injEq, forall_eq', modelCovered_iff_allows]

theorem validate_tool_ok (entry : String) (hname : ∃ name, patternMatches name entry = true) :
    validateAllowlistsWithinRole limits none (some [entry]) = .ok () ↔
      ∀ tool, Namespaced tool → patternMatches tool entry = true →
        isToolAllowed limits.allowedMcpTools tool = true := by
  have hok : validateAllowlistsWithinRole limits none (some [entry]) = .ok () ↔
      ∀ granted ∈ limits.allowedMcpTools, mcpPatternCovered entry granted = true := by
    simp [validate_ok, Within]
  rw [hok]
  cases limits.allowedMcpTools with
  | none => simp [isToolAllowed, allowedBy]
  | some granted =>
    simp only [Option.mem_def, Option.some.injEq, forall_eq', mcpPatternCovered_iff_allows hname]

/-- What an accepted list of models allows, the roles allow. -/
theorem mayCall_of_within {ms : List String} (h : Within modelCovered (some ms) limits.allowedModels)
    {model : String} (hallowed : mayCall (some ms) model = true) :
    mayCall limits.allowedModels model = true := by
  obtain ⟨entry, hentry, hmatch⟩ := List.any_eq_true.mp hallowed
  cases hgranted : limits.allowedModels with
  | none => rfl
  | some granted =>
    exact modelCovered_iff_allows.mp (h ms rfl granted hgranted entry hentry) model hmatch

theorem isToolAllowed_of_within {ts : List String}
    (h : Within (fun granted p => mcpPatternCovered p granted) (some ts) limits.allowedMcpTools)
    {name : String} (hallowed : isToolAllowed (some ts) name = true) :
    isToolAllowed limits.allowedMcpTools name = true := by
  obtain ⟨entry, hentry, hmatch⟩ := List.any_eq_true.mp hallowed
  cases hgranted : limits.allowedMcpTools with
  | none => rfl
  | some granted => exact granted_of_covered (h ts rfl granted hgranted entry hentry) hmatch

/--
What an accepted list allows is allowed by its intersection with the roles' list; and an entry that
allows some name is accepted exactly when the roles allow every name that it allows, a list when
each of its entries is.
-/
theorem accepted_lists_usable (limits : UserResourceLimits) :
    (∀ models tools, validateAllowlistsWithinRole limits models tools = .ok () →
      (∀ ms ∈ models, ∀ model, mayCall (some ms) model = true →
        mayCall (intersectAllowlists models limits.allowedModels modelEntryCovers) model = true) ∧
      ∀ ts ∈ tools, ∀ name, isToolAllowed (some ts) name = true →
        isToolAllowed (intersectAllowlists tools limits.allowedMcpTools mcpEntryCovers) name =
          true) ∧
    (∀ entry, validateAllowlistsWithinRole limits (some [entry]) none = .ok () ↔
      ∀ model, modelEntryMatches model entry = true → mayCall limits.allowedModels model = true) ∧
    (∀ entry, (∃ name, patternMatches name entry = true) →
      (validateAllowlistsWithinRole limits none (some [entry]) = .ok () ↔
        ∀ tool, Namespaced tool → patternMatches tool entry = true →
          isToolAllowed limits.allowedMcpTools tool = true)) ∧
    ∀ ms ts, validateAllowlistsWithinRole limits (some ms) (some ts) = .ok () ↔
      (∀ m ∈ ms, validateAllowlistsWithinRole limits (some [m]) none = .ok ()) ∧
        ∀ t ∈ ts, validateAllowlistsWithinRole limits none (some [t]) = .ok () := by
  refine ⟨?_, validate_model_ok, validate_tool_ok, validate_ok_iff_entries⟩
  intro models tools h
  obtain ⟨hmodels, htools⟩ := validate_ok.mp h
  constructor
  · rintro ms rfl model hallowed
    rw [mayCall, allowedBy_intersectAllowlists (agrees_model model), Bool.and_eq_true]
    exact ⟨hallowed, mayCall_of_within hmodels hallowed⟩
  · rintro ts rfl name hallowed
    rw [isToolAllowed, allowedBy_intersectAllowlists (agrees_tool name), Bool.and_eq_true]
    exact ⟨hallowed, isToolAllowed_of_within htools hallowed⟩

/-- One tool of a server that the roles grant as a whole. -/
theorem accepted_lists_usable_tool :
    isToolAllowed (intersectAllowlists (some ["github__list_issues"]) (some ["github__*"])
      mcpEntryCovers) "github__list_issues" = true :=
  ((accepted_lists_usable ⟨false, some [], true, some ["github__*"]⟩).1 none
    (some ["github__list_issues"]) (by decide +kernel)).2 _ rfl _ (by decide +kernel)

end ThinkWatch.Policy
