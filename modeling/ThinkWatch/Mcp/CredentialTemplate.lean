import ThinkWatch.Lib.Filling
import ThinkWatch.Mcp.UserToken
import ThinkWatch.Validation

/-!
# Credential templates

`validate_auth_value_template` (`crates/mcp-gateway/src/user_token.rs`) against what
`build_injection` makes of the templates that it accepts. The check looks at a name without the
white space around it, the injection replaces `{{token}}` as it is spelled.
-/

namespace ThinkWatch.Mcp

open Lib

def openBraces : List Char := ['\x7b', '\x7b']

def closeBraces : List Char := ['\x7d', '\x7d']

/-- What `build_injection` replaces. -/
def tokenPlaceholder : List Char := openBraces ++ "token".toList ++ closeBraces

/-- The loop of `validate_auth_value_template`; a text has fewer placeholders than characters. -/
def checkPlaceholders : Nat → List Char → Except String Unit
  | 0, _ => .ok ()
  | n + 1, rest =>
    match cut openBraces rest with
    | none => .ok ()
    | some (_, after) =>
      match cut closeBraces after with
      | none => .error "auth_value_template has unmatched `\x7b\x7b`"
      | some (name, rest) =>
        -- the name is compared without the white space around it
        let name := trim (String.ofList name)
        if name ≠ "token" then
          .error ("auth_value_template only supports the `\x7b\x7btoken\x7d\x7d` placeholder; "
            ++ "found `\x7b\x7b" ++ name ++ "\x7d\x7d`")
        else checkPlaceholders n rest

def validateAuthValueTemplate (template : String) : Except String Unit :=
  if template = "" then .error "auth_value_template must not be empty"
  else checkPlaceholders template.toList.length template.toList

/-! ## What a template means -/

/-- The placeholders of a text, each after the text before it, and what comes after the last. -/
def pieces : Nat → List Char → List (List Char × List Char) × List Char
  | 0, rest => ([], rest)
  | n + 1, rest =>
    match cut openBraces rest with
    | none => ([], rest)
    | some (literal, after) =>
      match cut closeBraces after with
      | none => ([], rest)
      | some (name, rest) =>
        let r := pieces n rest
        ((literal, openBraces ++ name ++ closeBraces) :: r.1, r.2)

def templatePieces (template : String) : List (List Char × List Char) × List Char :=
  pieces template.toList.length template.toList

/-- The placeholders of a template, as they are spelled in it. -/
def placeholders (template : String) : List (List Char) := (templatePieces template).1.map Prod.snd

/-- The text of a template outside its placeholders. -/
def literals (template : String) : List (List Char) :=
  (templatePieces template).1.map Prod.fst ++ [(templatePieces template).2]

/-- The template with the token in place of every placeholder. -/
def substituteToken (template token : String) : String :=
  String.ofList (fill (fun _ => token.toList) (templatePieces template).2 (templatePieces template).1)

example : validateAuthValueTemplate "X \x7b\x7buser_email\x7d\x7d" =
    .error ("auth_value_template only supports the `\x7b\x7btoken\x7d\x7d` placeholder; "
      ++ "found `\x7b\x7buser_email\x7d\x7d`") := by decide +kernel

/-! ## IsToken names -/

/-- A placeholder that the check accepts: `token` between braces, with white space around it. -/
def IsToken (x : List Char) : Prop :=
  ∃ a b, x = openBraces ++ (a ++ "token".toList ++ b) ++ closeBraces ∧
    (∀ c ∈ a, isWhitespace c = true) ∧ ∀ c ∈ b, isWhitespace c = true

def solid (c : Char) : Bool := !isWhitespace c

theorem countP_solid {a : List Char} (ha : ∀ c ∈ a, isWhitespace c = true) : a.countP solid = 0 :=
  List.countP_eq_zero.mpr fun c hc => by simp [solid, ha c hc]

/-- Nine of its characters are not white space. -/
theorem IsToken.countP_solid {x : List Char} (hx : IsToken x) : x.countP solid = 9 := by
  obtain ⟨a, b, rfl, ha, hb⟩ := hx
  simp only [List.countP_append, Mcp.countP_solid ha, Mcp.countP_solid hb]
  decide

theorem IsToken.getLast? {x : List Char} (hx : IsToken x) : x.getLast? = some '\x7d' := by
  obtain ⟨a, b, rfl, -, -⟩ := hx
  exact List.getLast?_append_of_ne_nil _ (by decide)

theorem IsToken.head? {x : List Char} (hx : IsToken x) : x.head? = some '\x7b' := by
  obtain ⟨a, b, rfl, -, -⟩ := hx
  simp [openBraces]

theorem notMem_of_whitespace {a : List Char} (ha : ∀ c ∈ a, isWhitespace c = true) :
    '\x7b' ∉ a := by
  intro hmem
  exact absurd (ha _ hmem) (by decide)

theorem isToken_of_trim {name : List Char} (h : trim (String.ofList name) = "token") :
    IsToken (openBraces ++ name ++ closeBraces) ∧ '\x7b' ∉ name ++ closeBraces := by
  obtain ⟨a, b, hname, ha, hb⟩ := trim_eq name
  rw [h] at hname
  refine ⟨⟨a, b, by rw [hname], ha, hb⟩, ?_⟩
  rw [hname]
  simp only [List.mem_append, not_or]
  exact ⟨⟨⟨notMem_of_whitespace ha, by decide⟩, notMem_of_whitespace hb⟩, by decide⟩

/-! ## What is replaced -/

/-- What `build_injection` makes of a placeholder. -/
def spell (token x : List Char) : List Char := if x = tokenPlaceholder then token else x

theorem tokenPlaceholder_ne_nil : tokenPlaceholder ≠ [] := by decide

theorem openBraces_isPrefix : openBraces <+: tokenPlaceholder := by decide

/-- Text before the first braces is kept. -/
theorem replaceAll_literal {rest literal after : List Char}
    (h : cut openBraces rest = some (literal, after)) (token : List Char) :
    replaceAll tokenPlaceholder token rest =
      literal ++ replaceAll tokenPlaceholder token (openBraces ++ after) := by
  have hrest := eq_of_cut h
  rw [List.append_assoc] at hrest
  rw [hrest]
  refine replaceAll_append tokenPlaceholder_ne_nil (fun u v hp hv hpre => ?_) token
  refine not_isPrefix_of_cut h hp hv ?_
  rw [List.append_assoc]
  exact openBraces_isPrefix.trans hpre

theorem mem_of_cons_isPrefix {c : Char} {xs v rest : List Char} (h : c :: xs <+: v ++ rest)
    (hv : v ≠ []) : c ∈ v := by
  obtain ⟨d, v, rfl⟩ := List.exists_cons_of_ne_nil hv
  rw [List.cons_append, List.cons_prefix_cons] at h
  rw [h.1]
  exact List.mem_cons_self

/-- No placeholder starts within an accepted one, and one starts with it only if it is that one. -/
theorem not_isPrefix_within {after name rest : List Char}
    (h : cut closeBraces after = some (name, rest)) (hmem : '\x7b' ∉ name ++ closeBraces)
    (hne : openBraces ++ name ++ closeBraces ≠ tokenPlaceholder) {u v : List Char}
    (hx : openBraces ++ name ++ closeBraces = u ++ v) (hv : v ≠ []) :
    ¬ tokenPlaceholder <+: v ++ rest := by
  intro hpre
  match u, hx with
  | [], hx =>
    obtain ⟨z, hz⟩ := hpre
    rw [List.nil_append] at hx
    have hafter : after = "token".toList ++ closeBraces ++ z := by
      have hbraces : openBraces ++ after = openBraces ++ ("token".toList ++ closeBraces ++ z) := by
        rw [eq_of_cut h, ← List.append_assoc, ← List.append_assoc, hx, ← hz, tokenPlaceholder]
        simp only [List.append_assoc]
      exact List.append_cancel_left hbraces
    have hcut : cut closeBraces after = some ("token".toList, z) := by
      rw [hafter]
      exact (cut_join (by decide)).mpr (by decide)
    rw [h] at hcut
    obtain ⟨rfl, -⟩ := Prod.mk.inj (Option.some.inj hcut)
    exact hne rfl
  | [c], hx =>
    -- the second brace of the prefix would be the first character of the name
    obtain ⟨rfl, rfl⟩ : '\x7b' = c ∧ '\x7b' :: (name ++ closeBraces) = v := List.cons.inj hx
    have htail := (List.cons_prefix_cons.mp hpre).2
    exact hmem (mem_of_cons_isPrefix htail (by simp [closeBraces]))
  | c :: d :: u, hx =>
    have hsuffix : name ++ closeBraces = u ++ v := (List.cons.inj (List.cons.inj hx).2).2
    exact hmem (hsuffix ▸ List.mem_append_right u (mem_of_cons_isPrefix hpre hv))

/-- An accepted placeholder is replaced if it is spelled without white space, and else kept. -/
theorem replaceAll_placeholder {after name rest : List Char}
    (h : cut closeBraces after = some (name, rest)) (hmem : '\x7b' ∉ name ++ closeBraces)
    (token : List Char) :
    replaceAll tokenPlaceholder token (openBraces ++ after) =
      spell token (openBraces ++ name ++ closeBraces) ++
        replaceAll tokenPlaceholder token rest := by
  have hafter : openBraces ++ after = openBraces ++ name ++ closeBraces ++ rest := by
    rw [eq_of_cut h]
    simp only [List.append_assoc]
  rw [hafter]
  by_cases hx : openBraces ++ name ++ closeBraces = tokenPlaceholder
  · have hcut : cut tokenPlaceholder (tokenPlaceholder ++ rest) = some ([], rest) := by
      rw [cut_of_isPrefix (List.prefix_append _ _), List.drop_left]
    rw [hx, spell, if_pos rfl, replaceAll_of_cut tokenPlaceholder_ne_nil hcut, List.nil_append]
  · rw [spell, if_neg hx]
    exact replaceAll_append tokenPlaceholder_ne_nil
      (fun u v => not_isPrefix_within h hmem hx) token

/-- Text without double braces is kept. -/
theorem replaceAll_tail {rest : List Char} (h : cut openBraces rest = none) (token : List Char) :
    replaceAll tokenPlaceholder token rest = rest :=
  replaceAll_of_cut_none (cut_eq_none.mpr fun hin =>
    cut_eq_none.mp h (openBraces_isPrefix.isInfix.trans hin)) token

/-- What the check says of the pieces of a text, and what becomes of them. -/
structure Checked (token rest : List Char) (r : List (List Char × List Char) × List Char) :
    Prop where
  replaced : replaceAll tokenPlaceholder token rest = fill (spell token) r.2 r.1
  isToken : ∀ p ∈ r.1, IsToken p.2
  literal : ∀ p ∈ r.1, ¬ openBraces <:+: p.1
  tail : ¬ openBraces <:+: r.2

theorem checked_pieces {n : Nat} {rest : List Char} (hn : rest.length ≤ n)
    (h : checkPlaceholders n rest = .ok ()) (token : List Char) :
    Checked token rest (pieces n rest) := by
  induction n generalizing rest with
  | zero =>
    obtain rfl := List.length_eq_zero_iff.mp (Nat.le_zero.mp hn)
    exact ⟨rfl, by simp [pieces], by simp [pieces], by decide⟩
  | succ n ih =>
    rw [checkPlaceholders] at h
    rw [pieces]
    cases hopen : cut openBraces rest with
    | none => exact ⟨replaceAll_tail hopen token, by simp, by simp, cut_eq_none.mp hopen⟩
    | some r =>
      obtain ⟨literal, after⟩ := r
      rw [hopen] at h
      cases hclose : cut closeBraces after with
      | none => simp only [hclose, reduceCtorEq] at h
      | some r =>
        obtain ⟨name, rest'⟩ := r
        simp only [hclose] at h
        split at h
        · cases h
        · next hname =>
          obtain ⟨htoken, hmem⟩ := isToken_of_trim (Decidable.not_not.mp hname)
          have hafter := length_of_cut (by decide) hopen
          have hrest := length_of_cut (by decide) hclose
          have hih := ih (by omega) h
          simp only [hclose]
          refine ⟨?_, ?_, ?_, hih.tail⟩
          · rw [replaceAll_literal hopen, replaceAll_placeholder hclose hmem, hih.replaced]
            simp only [fill, List.append_assoc]
          · exact List.forall_mem_cons.mpr ⟨htoken, hih.isToken⟩
          · refine List.forall_mem_cons.mpr ⟨fun hin => ?_, hih.literal⟩
            obtain ⟨u, v, hlit⟩ := hin
            refine not_isPrefix_of_cut hopen (u := u) (v := openBraces ++ v) ?_
              (by simp [openBraces]) ?_
            · exact hlit.symm.trans (List.append_assoc u openBraces v)
            · simp only [List.append_assoc]
              exact List.prefix_append _ _

/-! ## When the token is put in everywhere -/

theorem solid_mem_pos {c : Char} {a : List Char} (hc : c ∈ a) (hsolid : solid c = true) :
    0 < a.countP solid :=
  List.countP_pos_iff.mpr ⟨c, hc, hsolid⟩

/-- Text with as many solid characters as a placeholder does not properly begin one. -/
theorem IsToken.eq_of_isPrefix {x token : List Char} (hx : IsToken x)
    (hcount : token.countP solid = 9) (h : token <+: x) : token = x := by
  obtain ⟨u, rfl⟩ := h
  have hu : u.countP solid = 0 := by
    have := hx.countP_solid
    rw [List.countP_append] at this
    omega
  by_contra hne
  have hu₀ : u ≠ [] := fun h => hne (by simp [h])
  have hlast := hx.getLast?
  rw [List.getLast?_append_of_ne_nil token hu₀] at hlast
  exact absurd hu (Nat.ne_of_gt (solid_mem_pos (List.mem_of_getLast? hlast) (by decide)))

/-- Nor does it properly end one. -/
theorem IsToken.eq_of_isSuffix {x token : List Char} (hx : IsToken x)
    (hcount : token.countP solid = 9) (h : token <:+ x) : token = x := by
  obtain ⟨u, rfl⟩ := h
  have hu : u.countP solid = 0 := by
    have := hx.countP_solid
    rw [List.countP_append] at this
    omega
  by_contra hne
  have hu₀ : u ≠ [] := fun h => hne (by simp [h])
  have hhead := hx.head?
  rw [List.head?_append_of_ne_nil u hu₀] at hhead
  exact absurd hu (Nat.ne_of_gt (solid_mem_pos (List.mem_of_head? hhead) (by decide)))

/-- And it does not begin with one placeholder and end with another, unless it is one. -/
theorem eq_of_isPrefix_of_isSuffix {x y token : List Char} (hx : IsToken x) (hy : IsToken y)
    (hcount : token.countP solid = 9) (hpre : x <+: token) (hsuf : y <:+ token) : x = token := by
  obtain ⟨u, rfl⟩ := hpre
  have hu : u.countP solid = 0 := by
    have := hx.countP_solid
    rw [List.countP_append] at hcount
    omega
  by_contra hne
  have hu₀ : u ≠ [] := fun h => hne (by simp [h])
  obtain ⟨v, hv⟩ := hsuf
  have hlast := congrArg List.getLast? hv
  have hy₀ : y ≠ [] := fun h => by simp [h] at hy; exact absurd hy.head? (by simp)
  rw [List.getLast?_append_of_ne_nil v hy₀, List.getLast?_append_of_ne_nil x hu₀,
    hy.getLast?] at hlast
  exact absurd hu
    (Nat.ne_of_gt (solid_mem_pos (List.mem_of_getLast? hlast.symm) (by decide)))

theorem spell_eq {token x : List Char} :
    spell token x = token ↔ x = tokenPlaceholder ∨ x = token := by
  unfold spell
  split
  · next h => simp [h]
  · next h => simp [h]

/-- Two fillings of accepted placeholders give the same text only if they are the same. -/
theorem spell_eq_of_fill {token tail : List Char} {ps : List (List Char × List Char)}
    (hps : ∀ p ∈ ps, IsToken p.2)
    (h : fill (spell token) tail ps = fill (fun _ => token) tail ps) :
    ∀ p ∈ ps, spell token p.2 = token := by
  by_contra hcon
  have hne : ∃ p ∈ ps, spell token p.2 ≠ token := by simpa using hcon
  have hspell : ∀ {x}, spell token x ≠ token → spell token x = x :=
    fun hx => if_neg fun he => hx (spell_eq.mpr (Or.inl he))
  have hcount : token.countP solid = 9 :=
    (countP_of_fill (q := solid) (n := token.countP solid) h hne
      (fun p hp hdiff => by rw [hspell hdiff, (hps p hp).countP_solid]) fun _ _ _ => rfl).symm
  obtain ⟨p, hp, hpne, hpre⟩ := exists_prefix_of_fill h hne
  obtain ⟨q, hq, hqne, hsuf⟩ := exists_suffix_of_fill (a := []) (b := []) h hne
  rw [hspell hpne] at hpre hpne
  rw [hspell hqne] at hsuf hqne
  rcases hpre with hpre | hpre
  · rcases hsuf with hsuf | hsuf
    · exact hpne (eq_of_isPrefix_of_isSuffix (hps p hp) (hps q hq) hcount hpre hsuf)
    · exact hqne ((hps q hq).eq_of_isSuffix hcount hsuf).symm
  · exact hpne ((hps p hp).eq_of_isPrefix hcount hpre).symm

/--
The header of an accepted template is the template with the token in place of every placeholder,
and its other text has no placeholder in it, exactly when each placeholder is spelled `{{token}}`
or reads as the token does.
-/
theorem injection_iff {s : RegisteredServer}
    (h : validateAuthValueTemplate s.authValueTemplate = .ok ()) (token : String) :
    ((buildInjection s token).headerValue = substituteToken s.authValueTemplate token ∧
        ∀ literal ∈ literals s.authValueTemplate, ¬ openBraces <:+: literal) ↔
      ∀ x ∈ placeholders s.authValueTemplate, x = tokenPlaceholder ∨ x = token.toList := by
  have hcheck : checkPlaceholders s.authValueTemplate.toList.length
      s.authValueTemplate.toList = .ok () := by
    unfold validateAuthValueTemplate at h
    split at h
    · cases h
    · exact h
  have hs := checked_pieces (Nat.le_refl _) hcheck token.toList
  have hheader : (buildInjection s token).headerValue = String.ofList
      (fill (spell token.toList) (templatePieces s.authValueTemplate).2
        (templatePieces s.authValueTemplate).1) :=
    congrArg String.ofList hs.replaced
  constructor
  · rintro ⟨heq, -⟩ x hx
    rw [hheader, substituteToken, String.ofList_inj] at heq
    obtain ⟨p, hp, rfl⟩ := List.mem_map.mp hx
    exact spell_eq.mp (spell_eq_of_fill hs.isToken heq p hp)
  · intro hall
    refine ⟨?_, ?_⟩
    · rw [hheader, substituteToken]
      exact congrArg String.ofList (fill_congr fun p hp => spell_eq.mpr
        (hall p.2 (List.mem_map_of_mem hp)))
    · intro literal hmem
      rcases List.mem_append.mp hmem with hmem | hmem
      · obtain ⟨p, hp, rfl⟩ := List.mem_map.mp hmem
        exact hs.literal p hp
      · rw [List.mem_singleton.mp hmem]
        exact hs.tail

/-- A server whose credentials go out in a header. -/
def headerServer (template : String) : RegisteredServer :=
  { publicServer 7 "github" "github" ["search"] with
    authShape := .static
    authValueTemplate := template
    cacheScope := .perCaller }

/-- White space within the braces passes the check, and the placeholder is sent as it stands. -/
theorem injection_spaced :
    validateAuthValueTemplate "Bearer \x7b\x7b token \x7d\x7d" = .ok () ∧
      (buildInjection (headerServer "Bearer \x7b\x7b token \x7d\x7d") "abc").headerValue =
        "Bearer \x7b\x7b token \x7d\x7d" ∧
      substituteToken "Bearer \x7b\x7b token \x7d\x7d" "abc" = "Bearer abc" := by
  decide +kernel

/-- Two placeholders, both spelled as `build_injection` expects. -/
theorem injection_twice :
    (buildInjection (headerServer "\x7b\x7btoken\x7d\x7d:\x7b\x7btoken\x7d\x7d") "abc").headerValue =
        substituteToken "\x7b\x7btoken\x7d\x7d:\x7b\x7btoken\x7d\x7d" "abc" ∧
      ∀ literal ∈ literals "\x7b\x7btoken\x7d\x7d:\x7b\x7btoken\x7d\x7d",
        ¬ openBraces <:+: literal :=
  (injection_iff (s := headerServer "\x7b\x7btoken\x7d\x7d:\x7b\x7btoken\x7d\x7d")
    (by decide +kernel) "abc").mpr (by decide +kernel)

end ThinkWatch.Mcp
