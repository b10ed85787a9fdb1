import ThinkWatch.Policy.Language

/-!
# The matchers and the policy language

What a list of policy documents should grant, in terms of the language of the patterns, and what
the code grants. `agreement_iff`: for documents that pass validation and a permission of the
catalog, the code grants what it should, and every matcher reads every pattern alike, exactly when
the patterns with a star that reach the permission have one of the two usual shapes, and an Allow
that is not overruled is written with the usual JSON objects.
-/

namespace ThinkWatch.Policy

open Lib

/-! ## What the documents say -/

/-- The documents as serde reads them. -/
def parsed (docs : List Json) : List PolicyDocument := docs.filterMap PolicyDocument.fromValue

/-- Some Allow statement has an action pattern for `perm`. -/
def Allows (docs : List Json) (perm : String) : Prop :=
  ∃ doc ∈ parsed docs, ∃ stmt ∈ doc.statement, stmt.effect = .allow ∧
    ∃ a ∈ stmt.action.patterns, InGlob a perm

/-- Some Deny statement on the resource `*` has an action pattern for `perm`. -/
def Denies (docs : List Json) (perm : String) : Prop :=
  ∃ doc ∈ parsed docs, ∃ stmt ∈ doc.statement, stmt.effect = .deny ∧
    (∃ a ∈ stmt.action.patterns, InGlob a perm) ∧ ∃ r ∈ stmt.resource.patterns, InGlob r "*"

/-- The action patterns of all statements. -/
def actionPatterns (docs : List Json) : List String :=
  (parsed docs).flatMap fun doc => doc.statement.flatMap fun stmt => stmt.action.patterns

/-- `perm` is among the permissions of the user and not among the denied ones. -/
def Grants (docs : List Json) (perm : String) : Prop :=
  perm ∈ computeUserPermissions docs allPermissionKeys ∧
    perm ∉ computeDeniedPermissions docs (computeUserPermissions docs allPermissionKeys)

/-- An Allow for `perm` in an object of an object, with its effect a string. -/
def AllowsAsWritten (docs : List Json) (perm : String) : Prop :=
  ∃ doc ∈ docs, ∃ stmt ∈ statements doc, stmtEffect stmt = "Allow" ∧
    ∃ a ∈ stmtActions stmt, InGlob a perm

theorem mem_actionPatterns {docs : List Json} {a : String} : a ∈ actionPatterns docs ↔
    ∃ doc ∈ parsed docs, ∃ stmt ∈ doc.statement, a ∈ stmt.action.patterns := by
  simp [actionPatterns, List.mem_flatMap]

/-! ## From the JSON to the statements -/

/-- The statements of a document are its items, read one by one. -/
theorem statement_fromValue {doc : Json} {d : PolicyDocument}
    (h : PolicyDocument.fromValue doc = some d) :
    ∃ items, doc.field "Statement" 1 = some (.arr items) ∧
      items.mapM Statement.fromValue = some d.statement := by
  unfold PolicyDocument.fromValue at h
  split at h
  · simp only [Option.bind_eq_bind, Option.bind_eq_some_iff] at h
    obtain ⟨v, -, w, -, s, hs, items, hitems, stmts, hstmts, heq⟩ := h
    cases heq
    cases s with
    | arr _ =>
      cases hitems
      exact ⟨items, hs, hstmts⟩
    | _ => cases hitems
  · cases h

/-- The statements the handlers find by name are statements of the document. -/
theorem mem_statement_of_mem_statements {doc stmt : Json} {d : PolicyDocument}
    (hd : PolicyDocument.fromValue doc = some d) (h : stmt ∈ statements doc) :
    ∃ st ∈ d.statement, Statement.fromValue stmt = some st := by
  cases doc with
  | obj fields =>
    obtain ⟨items, hitems, hmap⟩ := statement_fromValue hd
    have hget : (Json.obj fields).get "Statement" = some (.arr items) := hitems
    have hstmts : statements (.obj fields) = items := by
      simp only [statements, hget, Option.bind_some, Json.asArray, Option.getD_some]
    rw [hstmts] at h
    exact (mem_of_mapM_some hmap).1 stmt h
  | _ => cases h

theorem PatternSet.patterns_fromValue {value : Json} {ps : PatternSet}
    (h : PatternSet.fromValue value = some ps) :
    (match some value with
      | some (.str s) => [s]
      | some (.arr items) => items.filterMap Json.asStr
      | _ => []) = ps.patterns := by
  cases value with
  | str s =>
    cases h
    rfl
  | arr items =>
    obtain ⟨v, hv, rfl⟩ := Option.map_eq_some_iff.mp h
    show items.filterMap Json.asStr = v
    induction items generalizing v with
    | nil =>
      cases hv
      rfl
    | cons item items ih =>
      rw [List.mapM_cons] at hv
      simp only [Option.bind_eq_bind, Option.bind_eq_some_iff] at hv
      obtain ⟨s, hs, vs, hvs, heq⟩ := hv
      cases heq
      rw [List.filterMap_cons, hs]
      simp only
      rw [ih _ hvs (by simp [PatternSet.fromValue, hvs])]
  | _ => cases h

/-- A statement that the handlers read as an Allow is one, with the same actions. -/
theorem allow_of_stmtEffect {stmt : Json} {st : Statement} (h : Statement.fromValue stmt = some st)
    (heff : stmtEffect stmt = "Allow") :
    st.effect = .allow ∧ stmtActions stmt = st.action.patterns := by
  cases stmt with
  | obj fields =>
    simp only [Statement.fromValue, Json.isStruct, if_true, Option.bind_eq_bind,
      Option.bind_eq_some_iff] at h
    obtain ⟨sid, -, ev, hev, e, he, av, hav, a, ha, rv, -, r, -, heq⟩ := h
    cases heq
    have hget : (Json.obj fields).get "Effect" = some ev := hev
    simp only [stmtEffect, hget, Option.bind_some] at heff
    refine ⟨?_, ?_⟩
    · cases ev with
      | str name =>
        obtain rfl : name = "Allow" := heff
        exact (Option.some.inj he).symm
      | _ => simp [Json.asStr] at heff
    · have hacts : (Json.obj fields).get "Action" = some av := hav
      have hp := PatternSet.patterns_fromValue ha
      rw [← hacts] at hp
      exact hp
  | _ => simp [stmtEffect, Json.get] at heff

/-! ## What the code grants -/

section Grants

variable {docs : List Json} {perm : String}

theorem mem_computeUserPermissions (hperm : perm ∈ allPermissionKeys) :
    perm ∈ computeUserPermissions docs allPermissionKeys ↔
      ∃ doc ∈ docs, ∃ stmt ∈ statements doc, stmtEffect stmt = "Allow" ∧
        ∃ a ∈ stmtActions stmt, Simple a perm := by
  simp only [computeUserPermissions, extractPermissions, mem_btreeSet, List.mem_flatMap]
  refine exists_congr fun doc => and_congr_right fun _ =>
    exists_congr fun stmt => and_congr_right fun _ => ?_
  by_cases heff : stmtEffect stmt = "Allow"
  · simp only [heff, if_true, true_and, List.mem_flatMap, mem_expandAction hperm]
  · simp [heff]

theorem evaluateFrom_deny {hasAllow : Bool} {action resource : String} {stmts : List Statement} :
    evaluateFrom hasAllow action resource stmts = .deny ↔
      ∃ stmt ∈ stmts, evaluateStatement stmt action resource = .deny := by
  induction stmts generalizing hasAllow with
  | nil => cases hasAllow <;> simp [evaluateFrom]
  | cons stmt stmts ih =>
    simp only [evaluateFrom, List.mem_cons, exists_eq_or_imp]
    cases hev : evaluateStatement stmt action resource with
    | deny => simp
    | allow => simp [ih]
    | noMatch => simp [ih]

theorem evaluateStatement_deny {stmt : Statement} {action resource : String} :
    evaluateStatement stmt action resource = .deny ↔
      stmt.effect = .deny ∧ (∃ a ∈ stmt.action.patterns, globMatch a action = true) ∧
        ∃ r ∈ stmt.resource.patterns, globMatch r resource = true := by
  rw [← List.any_eq_true, ← List.any_eq_true]
  unfold evaluateStatement
  by_cases h1 : stmt.action.patterns.any (globMatch · action) = true
  · by_cases h2 : stmt.resource.patterns.any (globMatch · resource) = true
    · cases stmt.effect <;> simp [h1, h2]
    · simp [h1, h2]
  · simp [h1]

/-- `compute_denied_permissions` on a permission the user has. -/
theorem mem_computeDeniedPermissions {allowed : List String} :
    perm ∈ computeDeniedPermissions docs allowed ↔ perm ∈ allowed ∧
      ∃ doc ∈ parsed docs, ∃ stmt ∈ doc.statement, stmt.effect = .deny ∧
        (∃ a ∈ stmt.action.patterns, globMatch a perm = true) ∧
        ∃ r ∈ stmt.resource.patterns, globMatch r "*" = true := by
  simp only [computeDeniedPermissions, List.mem_filter, List.any_eq_true, beq_iff_eq,
    evaluatePolicy, evaluateFrom_deny, evaluateStatement_deny, parsed]

/-- When the patterns have the usual shapes, the code denies what the documents deny. -/
theorem denied_iff (hperm : PlainText perm)
    (husual : ∀ a ∈ actionPatterns docs, UsualStar perm a) {allowed : List String}
    (hallowed : perm ∈ allowed) :
    perm ∈ computeDeniedPermissions docs allowed ↔ Denies docs perm := by
  rw [mem_computeDeniedPermissions]
  simp only [hallowed, true_and, Denies]
  refine exists_congr fun doc => and_congr_right fun hdoc =>
    exists_congr fun stmt => and_congr_right fun hstmt =>
      and_congr_right fun _ => and_congr ?_ ?_
  · refine exists_congr fun a => and_congr_right fun ha => ?_
    have hu := husual a (mem_actionPatterns.mpr ⟨doc, hdoc, stmt, hstmt, ha⟩)
    exact ⟨inGlob_of_globMatch, fun hin => (hu.simple hperm hin).globMatch hperm⟩
  · exact exists_congr fun r => and_congr_right fun _ => globMatch_star_iff r

theorem asWritten_parsed (hdocs : ∀ doc ∈ docs, ∃ d, PolicyDocument.fromValue doc = some d)
    {doc stmt : Json} (hdoc : doc ∈ docs) (hstmt : stmt ∈ statements doc)
    (heff : stmtEffect stmt = "Allow") :
    ∃ d ∈ parsed docs, ∃ st ∈ d.statement, st.effect = .allow ∧
      stmtActions stmt = st.action.patterns := by
  obtain ⟨d, hd⟩ := hdocs doc hdoc
  obtain ⟨st, hst, hval⟩ := mem_statement_of_mem_statements hd hstmt
  exact ⟨d, List.mem_filterMap.mpr ⟨doc, hdoc, hd⟩, st, hst, allow_of_stmtEffect hval heff⟩

theorem AllowsAsWritten.allows (hdocs : ∀ doc ∈ docs, ∃ d, PolicyDocument.fromValue doc = some d)
    (h : AllowsAsWritten docs perm) : Allows docs perm := by
  obtain ⟨doc, hdoc, stmt, hstmt, heff, a, ha, hin⟩ := h
  obtain ⟨d, hd, st, hst, hallow, hacts⟩ := asWritten_parsed hdocs hdoc hstmt heff
  rw [hacts] at ha
  exact ⟨d, hd, st, hst, hallow, a, ha, hin⟩

/-- When the patterns have the usual shapes, the code grants what is allowed as it reads it. -/
theorem grants_iff (hperm : perm ∈ allPermissionKeys)
    (hdocs : ∀ doc ∈ docs, ∃ d, PolicyDocument.fromValue doc = some d)
    (husual : ∀ a ∈ actionPatterns docs, UsualStar perm a) :
    Grants docs perm ↔ AllowsAsWritten docs perm ∧ ¬ Denies docs perm := by
  have hplain := plainText_of_mem hperm
  have hmem : perm ∈ computeUserPermissions docs allPermissionKeys ↔ AllowsAsWritten docs perm := by
    rw [mem_computeUserPermissions hperm, AllowsAsWritten]
    refine exists_congr fun doc => and_congr_right fun hdoc =>
      exists_congr fun stmt => and_congr_right fun hstmt => and_congr_right fun heff =>
        exists_congr fun a => and_congr_right fun ha => ?_
    obtain ⟨d, hd, st, hst, -, hacts⟩ := asWritten_parsed hdocs hdoc hstmt heff
    rw [hacts] at ha
    have hu := husual a (mem_actionPatterns.mpr ⟨d, hd, st, hst, ha⟩)
    exact ⟨fun h => h.inGlob hplain, fun hin => hu.simple hplain hin⟩
  unfold Grants
  rw [hmem]
  refine and_congr_right fun hw => not_congr ?_
  exact denied_iff hplain husual (hmem.mpr hw)

/-! ## Main result -/

/--
For documents that pass validation and a permission of the catalog: the code grants the permission
exactly when the documents do, and the gateway and SQL tests read each of their action patterns as
its language does, if and only if each pattern with a star that reaches the permission is `*` or
`stem:*`, and a permission that is allowed and not denied is allowed by a statement written with
objects and a string for its effect.
-/
theorem agreement_iff
    (hvalid : ∀ doc ∈ docs, ∃ d, validatePolicyDocument doc = .ok d)
    (hperm : perm ∈ allPermissionKeys) :
    ((Grants docs perm ↔ Allows docs perm ∧ ¬ Denies docs perm) ∧
        ∀ a ∈ actionPatterns docs, Agree perm a) ↔
      (∀ a ∈ actionPatterns docs, UsualStar perm a) ∧
        (Allows docs perm ∧ ¬ Denies docs perm → AllowsAsWritten docs perm) := by
  have hplain := plainText_of_mem hperm
  have hdocs : ∀ doc ∈ docs, ∃ d, PolicyDocument.fromValue doc = some d := by
    intro doc hdoc
    obtain ⟨d, hd⟩ := hvalid doc hdoc
    exact ⟨d, fromValue_of_validate hd⟩
  simp only [agree_iff hplain]
  rw [and_comm]
  refine and_congr_right fun husual => ?_
  rw [grants_iff hperm hdocs husual]
  constructor
  · intro h hallowed
    exact (h.mpr hallowed).1
  · intro h
    constructor
    · rintro ⟨hw, hd⟩
      exact ⟨hw.allows hdocs, hd⟩
    · intro hallowed
      exact ⟨h hallowed, hallowed.2⟩

end Grants

/-! ## Two documents -/

/-- A document with one statement on every resource. -/
def oneStatement (effect action : String) : Json :=
  .obj [("Version", .str "2024-01-01"),
    ("Statement", .arr [.obj [("Effect", .str effect), ("Action", .str action),
      ("Resource", .str "*")]])]

/-- All matchers read `users:*` alike. -/
theorem agreement_users :
    (Grants [oneStatement "Allow" "users:*"] "users:update" ↔
        Allows [oneStatement "Allow" "users:*"] "users:update" ∧
          ¬ Denies [oneStatement "Allow" "users:*"] "users:update") ∧
      ∀ a ∈ actionPatterns [oneStatement "Allow" "users:*"], Agree "users:update" a := by
  refine (agreement_iff ?_ (by decide)).mpr ⟨?_, ?_⟩
  · intro doc hdoc
    rw [List.mem_singleton.mp hdoc]
    exact ⟨_, rfl⟩
  · intro a ha _ _
    rw [List.mem_singleton.mp (show a ∈ ["users:*"] from ha)]
    exact Or.inr ⟨"users".toList, rfl, by decide⟩
  · intro _
    exact ⟨_, List.mem_singleton_self _, _, List.mem_singleton_self _, rfl, _,
      List.mem_singleton_self _, by unfold InGlob; decide⟩

/-- `*:read` is in the language of patterns, and grants nothing. -/
theorem read_star_not_granted :
    ¬ ∀ (docs : List Json) (perm : String),
      (∀ doc ∈ docs, ∃ d, validatePolicyDocument doc = .ok d) → perm ∈ allPermissionKeys →
      (Grants docs perm ↔ Allows docs perm ∧ ¬ Denies docs perm) ∧
        ∀ a ∈ actionPatterns docs, Agree perm a := by
  intro hall
  have hvalid : ∀ doc ∈ [oneStatement "Allow" "*:read"],
      ∃ d, validatePolicyDocument doc = .ok d := by
    intro doc hdoc
    rw [List.mem_singleton.mp hdoc]
    exact ⟨_, rfl⟩
  obtain ⟨hgrants, -⟩ := hall _ "providers:read" hvalid (by decide)
  have hallows : Allows [oneStatement "Allow" "*:read"] "providers:read" :=
    ⟨_, List.mem_singleton_self _, _, List.mem_singleton_self _, rfl, _,
      List.mem_singleton_self _, by unfold InGlob; decide⟩
  have hdenies : ¬ Denies [oneStatement "Allow" "*:read"] "providers:read" := by
    rintro ⟨doc, hdoc, stmt, hstmt, heff, -⟩
    cases List.mem_singleton.mp hdoc
    cases List.mem_singleton.mp hstmt
    cases heff
  have hnot : "providers:read" ∉
      computeUserPermissions [oneStatement "Allow" "*:read"] allPermissionKeys := by decide
  exact hnot (hgrants.mpr ⟨hallows, hdenies⟩).1

end ThinkWatch.Policy
