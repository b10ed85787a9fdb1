import ThinkWatch.Policy.Matchers

/-!
# Action patterns as a language

The language of an action pattern, in which `*` stands for any sequence, and what each of the
matchers accepts in terms of it. `agree_iff`: for a permission of the catalog, the matchers agree
with the language of a pattern unless it is a pattern with a star, of another shape than `*` and
`stem:*`, that reaches the permission.
-/

namespace ThinkWatch.Policy

open Lib

/-! ## Two readings of a pattern -/

/-- The language of a list of characters as a glob. -/
def globTokens (cs : List Char) : List (Token Char) :=
  cs.map fun c => if c = '*' then .any else .lit c

/-- The glob language of `pattern` contains `value`. -/
def InGlob (pattern value : String) : Prop := Covers (globTokens pattern.toList) value.toList

/--
The pattern reaches the value when `*` and `%` stand for any sequence, `_` for any character and
`\\` makes the next character literal.
-/
def Reaches (pattern value : String) : Prop :=
  ∃ ts, likeTokens (likePattern pattern) = some ts ∧ Covers ts value.toList

/-- `stem:*`, with `value` beginning with `stem:`. -/
def ResourceWildcard (pattern value : String) : Prop :=
  ∃ stem, pattern.toList = stem ++ [':', '*'] ∧ stem ++ [':'] <+: value.toList

/-- The shapes on which everyone agrees. -/
def Simple (pattern value : String) : Prop :=
  pattern = "*" ∨ pattern = value ∨ ResourceWildcard pattern value

theorem globTokens_append (cs ds : List Char) :
    globTokens (cs ++ ds) = globTokens cs ++ globTokens ds := List.map_append

theorem globTokens_of_not_mem {cs : List Char} (h : '*' ∉ cs) :
    globTokens cs = cs.map Token.lit := by
  refine List.map_congr_left fun c hc => if_neg ?_
  rintro rfl
  exact h hc

/-! ## The segment search -/

/-- Parts with a star between any two. -/
def partTokens : List (List Char) → List (Token Char)
  | [] => []
  | [part] => part.map .lit
  | part :: parts => part.map .lit ++ .any :: partTokens parts

theorem partTokens_cons {part : List Char} {parts : List (List Char)} (h : parts ≠ []) :
    partTokens (part :: parts) = part.map .lit ++ .any :: partTokens parts := by
  cases parts with
  | nil => exact absurd rfl h
  | cons next parts => rfl

theorem partTokens_modifyHead (c : Char) {parts : List (List Char)} (h : parts ≠ []) :
    partTokens (parts.modifyHead (List.cons c)) = .lit c :: partTokens parts := by
  match parts with
  | [] => exact absurd rfl h
  | [part] => rfl
  | part :: part' :: parts => rfl

theorem partTokens_splitOn (cs : List Char) : partTokens (cs.splitOn '*') = globTokens cs := by
  induction cs with
  | nil => rfl
  | cons c cs ih =>
    have hne : cs.splitOn '*' ≠ [] := List.splitOn_ne_nil _ _
    rw [List.splitOn_cons_eq_if_modifyHead]
    by_cases hc : c = '*'
    · subst hc
      have hcons : partTokens ([] :: cs.splitOn '*') = .any :: partTokens (cs.splitOn '*') := by
        cases hs : cs.splitOn '*' with
        | nil => exact absurd hs hne
        | cons part parts => rfl
      rw [if_pos (by simp), hcons, ih]
      rfl
    · rw [if_neg (by simpa using hc), partTokens_modifyHead c hne, ih]
      simp [globTokens, hc]

theorem findPart_eq {part xs rest : List Char} {n : Nat} (h : findPart part xs = some (n, rest)) :
    ∃ before, xs = before ++ (part ++ rest) ∧ before.length = n := by
  induction xs generalizing n with
  | nil =>
    simp only [findPart] at h
    split at h
    · next hp =>
      cases h
      have hnil : part = [] := List.prefix_nil.mp (List.isPrefixOf_iff_prefix.mp hp)
      exact ⟨[], by simp [hnil], rfl⟩
    · cases h
  | cons x xs ih =>
    simp only [findPart] at h
    split at h
    · next hp =>
      cases h
      obtain ⟨zs, hzs⟩ := List.isPrefixOf_iff_prefix.mp hp
      refine ⟨[], ?_, rfl⟩
      rw [← hzs, List.drop_left, List.nil_append]
    · obtain ⟨⟨m, rest'⟩, hr, heq⟩ := Option.map_eq_some_iff.mp h
      cases heq
      obtain ⟨before, rfl, hlen⟩ := ih hr
      exact ⟨x :: before, rfl, by simp [hlen]⟩

theorem findPart_of_prefix {part xs : List Char} (h : part <+: xs) :
    findPart part xs = some (0, xs.drop part.length) := by
  have hp := List.isPrefixOf_iff_prefix.mpr h
  cases xs with
  | nil => simp [findPart, hp]
  | cons x xs => simp [findPart, hp]

/-- From the second part on, each part is searched for after the one before. -/
theorem globScan_sound {i : Nat} {parts : List (List Char)} {xs rest : List Char}
    (hne : parts ≠ []) (h : globScan (i + 1) parts xs = some rest)
    (hlast : parts.getLast?.getD [] ≠ [] → rest = []) :
    Covers (.any :: partTokens parts) xs := by
  induction parts generalizing i xs with
  | nil => exact absurd rfl hne
  | cons part parts ih =>
    have hsplit : part = [] ∨ ∃ before after, part ≠ [] ∧ xs = before ++ (part ++ after) ∧
        globScan (i + 2) parts after = some rest := by
      by_cases hp : part = []
      · exact Or.inl hp
      · rw [globScan, if_neg hp] at h
        split at h
        · next found after hf =>
          obtain ⟨before, hxs, -⟩ := findPart_eq hf
          rw [if_neg (by omega)] at h
          exact Or.inr ⟨before, after, hp, hxs, h⟩
        · cases h
    match parts with
    | [] =>
      rcases hsplit with rfl | ⟨before, after, hp, rfl, hscan⟩
      · exact Covers.any_nil xs
      · -- the last part is not empty, so nothing is left
        obtain rfl : after = rest := Option.some.inj hscan
        obtain rfl : after = [] := hlast (by simpa using hp)
        rw [Covers.any_iff]
        exact ⟨before, part ++ [], rfl, Covers.lits_iff.mpr (List.append_nil part)⟩
    | part' :: parts =>
      have hlast' : (part' :: parts).getLast?.getD [] ≠ [] → rest = [] := by
        intro hl
        exact hlast (by simpa using hl)
      rcases hsplit with rfl | ⟨before, after, hp, rfl, hscan⟩
      · rw [globScan, if_pos rfl] at h
        exact .skip (ih (by simp) h hlast')
      · rw [Covers.any_iff]
        refine ⟨before, part ++ after, rfl, ?_⟩
        exact Covers.lits_append.mpr ⟨after, rfl, ih (by simp) hscan hlast'⟩

/-- What `glob_match` accepts is in the language. -/
theorem inGlob_of_globMatch {pattern value : String} (h : globMatch pattern value = true) :
    InGlob pattern value := by
  unfold InGlob
  rw [← partTokens_splitOn]
  unfold globMatch at h
  by_cases hstar : pattern = "*"
  · subst hstar
    exact Covers.any_nil _
  rw [if_neg hstar] at h
  cases hparts : pattern.toList.splitOn '*' with
  | nil => exact absurd hparts (List.splitOn_ne_nil _ _)
  | cons part parts =>
    simp only [hparts] at h
    match parts with
    | [] =>
      rw [if_pos (by simp), beq_iff_eq] at h
      have htoks := partTokens_splitOn pattern.toList
      have hnot : '*' ∉ pattern.toList := by
        intro hmem
        have hany : Token.any ∈ globTokens pattern.toList :=
          List.mem_map.mpr ⟨'*', hmem, rfl⟩
        rw [← htoks, hparts] at hany
        simp [partTokens] at hany
      rw [← hparts, htoks, globTokens_of_not_mem hnot, Covers.lits_iff, h]
    | part' :: parts =>
      rw [if_neg (by simp)] at h
      split at h
      · cases h
      · next rest hscan =>
        have hlast : (part' :: parts).getLast?.getD [] ≠ [] → rest = [] := by
          intro hl
          rw [if_pos (by simpa using hl)] at h
          simpa using h
        by_cases hp : part = []
        · rw [globScan, if_pos hp] at hscan
          subst hp
          exact globScan_sound (by simp) hscan hlast
        · rw [globScan, if_neg hp] at hscan
          split at hscan
          · next found after hf =>
            obtain ⟨before, hxs, hlen⟩ := findPart_eq hf
            by_cases h0 : found = 0
            · -- the first part is at the start
              rw [if_neg (by simp [h0])] at hscan
              obtain rfl : before = [] := List.eq_nil_of_length_eq_zero (hlen.trans h0)
              rw [hxs]
              exact Covers.lits_append.mpr ⟨after, rfl, globScan_sound (by simp) hscan hlast⟩
            · rw [if_pos ⟨rfl, h0⟩] at hscan
              cases hscan
          · cases hscan

theorem globMatch_of_eq {pattern value : String} (hnot : '*' ∉ pattern.toList)
    (h : pattern = value) : globMatch pattern value = true := by
  unfold globMatch
  rw [List.splitOn_eq_singleton hnot]
  simp [h]

theorem globMatch_of_stem {pattern value : String} {stem : List Char}
    (hpat : pattern.toList = stem ++ ['*']) (hnot : '*' ∉ stem) (hp : stem <+: value.toList) :
    globMatch pattern value = true := by
  have hparts : pattern.toList.splitOn '*' = [stem, []] := by
    rw [hpat, List.splitOn_append_cons_self_of_not_mem hnot, List.splitOn_nil]
  unfold globMatch
  rw [hparts]
  by_cases hs : stem = []
  · simp [globScan, hs]
  · simp [globScan, hs, findPart_of_prefix hp]

theorem globScan_of_empty {i : Nat} {parts : List (List Char)} {xs : List Char}
    (h : ∀ part ∈ parts, part = []) : globScan i parts xs = some xs := by
  induction parts generalizing i with
  | nil => rfl
  | cons part parts ih =>
    rw [globScan, if_pos (h part List.mem_cons_self)]
    exact ih fun part hp => h part (List.mem_cons_of_mem _ hp)

/-- The parts of a pattern of stars are empty. -/
theorem splitOn_of_stars {cs : List Char} (h : ∀ c ∈ cs, c = '*') :
    ∀ part ∈ cs.splitOn '*', part = [] := by
  induction cs with
  | nil => simp
  | cons c cs ih =>
    obtain rfl : c = '*' := h c List.mem_cons_self
    rw [List.splitOn_cons_eq_if_modifyHead, if_pos (by simp)]
    intro part hp
    rcases List.mem_cons.mp hp with rfl | hp
    · rfl
    · exact ih (fun d hd => h d (List.mem_cons_of_mem _ hd)) part hp

/-- A resource pattern that is good for the resource `*` is made of stars, and is recognised. -/
theorem globMatch_star_iff (pattern : String) :
    globMatch pattern "*" = true ↔ InGlob pattern "*" := by
  refine ⟨inGlob_of_globMatch, fun h => ?_⟩
  have hstars : ∀ c ∈ pattern.toList, c = '*' := by
    intro c hc
    by_contra hne
    have hlit : Token.lit c ∈ globTokens pattern.toList :=
      List.mem_map.mpr ⟨c, hc, if_neg hne⟩
    exact hne (by simpa using h.mem_of_lit hlit)
  unfold globMatch
  by_cases hstar : pattern = "*"
  · rw [if_pos hstar]
  rw [if_neg hstar]
  have hparts := splitOn_of_stars hstars
  have hlast : (pattern.toList.splitOn '*').getLast?.getD [] = [] := by
    cases hl : (pattern.toList.splitOn '*').getLast? with
    | none => rfl
    | some part => exact hparts part (List.mem_of_getLast? hl)
  by_cases hlen : (pattern.toList.splitOn '*').length = 1
  · -- a pattern without a star is empty, and the resource is not
    exfalso
    have hnil : pattern.toList = [] := by
      obtain ⟨part, hpart⟩ := List.length_eq_one_iff.mp hlen
      have htoks := partTokens_splitOn pattern.toList
      obtain rfl : part = [] := hparts part (by rw [hpart]; exact List.mem_singleton_self _)
      rw [hpart] at htoks
      exact List.map_eq_nil_iff.mp htoks.symm
    unfold InGlob at h
    rw [hnil] at h
    cases h
  · simp [hlen, hlast, globScan_of_empty hparts]

/-! ## Permissions of the catalog -/

/-- What the matchers rely on: no wildcard other than `_`, and no escape. -/
def PlainText (value : String) : Prop := '*' ∉ value.toList ∧ '\\' ∉ value.toList

theorem plainText_of_mem {perm : String} (h : perm ∈ allPermissionKeys) : PlainText perm := by
  have hall : ∀ p ∈ allPermissionKeys, '*' ∉ p.toList ∧ '\\' ∉ p.toList := by
    decide +kernel
  exact hall perm h

section Patterns

variable {pattern perm : String}

theorem ResourceWildcard.stem_not_mem (hperm : PlainText perm) {stem : List Char}
    (h : stem ++ [':'] <+: perm.toList) : '*' ∉ stem ++ [':'] :=
  fun hmem => hperm.1 (h.subset hmem)

theorem Simple.inGlob (hperm : PlainText perm) (h : Simple pattern perm) :
    InGlob pattern perm := by
  unfold InGlob
  rcases h with rfl | rfl | ⟨stem, hpat, hpre⟩
  · exact Covers.any_nil _
  · rw [globTokens_of_not_mem hperm.1]
    exact Covers.lits_iff.mpr rfl
  · have hsplit : pattern.toList = (stem ++ [':']) ++ ['*'] := by simp [hpat]
    rw [hsplit, globTokens_append,
      globTokens_of_not_mem (ResourceWildcard.stem_not_mem hperm hpre)]
    exact Covers.lits_any_iff.mpr hpre

theorem Simple.globMatch (hperm : PlainText perm) (h : Simple pattern perm) :
    globMatch pattern perm = true := by
  rcases h with rfl | rfl | ⟨stem, hpat, hpre⟩
  · rfl
  · exact globMatch_of_eq hperm.1 rfl
  · refine globMatch_of_stem ?_ (ResourceWildcard.stem_not_mem hperm hpre) hpre
    simp [hpat]

theorem actionMatches_iff : actionMatches perm pattern = true ↔ Simple pattern perm := by
  unfold actionMatches Simple ResourceWildcard stripStar
  rw [Bool.or_eq_true, Bool.or_eq_true, beq_iff_eq, beq_iff_eq, or_assoc]
  refine or_congr_right (or_congr_right ?_)
  by_cases hs : ['*'].isSuffixOf pattern.toList = true
  · simp only [hs, if_true, Bool.and_eq_true, List.isSuffixOf_iff_suffix,
      List.isPrefixOf_iff_prefix]
    obtain ⟨cs, hcs⟩ := List.isSuffixOf_iff_suffix.mp hs
    rw [← hcs, List.dropLast_concat]
    constructor
    · rintro ⟨⟨stem, rfl⟩, hpre⟩
      exact ⟨stem, by simp, hpre⟩
    · rintro ⟨stem, heq, hpre⟩
      obtain rfl : cs = stem ++ [':'] := by
        have : cs ++ ['*'] = (stem ++ [':']) ++ ['*'] := by simp [heq]
        exact List.append_cancel_right this
      exact ⟨⟨stem, rfl⟩, hpre⟩
  · simp only [hs, if_false, Bool.false_eq_true, false_iff]
    rintro ⟨stem, heq, -⟩
    refine hs (List.isSuffixOf_iff_suffix.mpr ⟨stem ++ [':'], ?_⟩)
    simp [heq]

theorem mem_expandAction (hperm : perm ∈ allPermissionKeys) :
    perm ∈ expandAction allPermissionKeys pattern ↔ Simple pattern perm := by
  have hplain := plainText_of_mem hperm
  unfold expandAction Simple ResourceWildcard
  by_cases hstar : pattern = "*"
  · simp [hstar, hperm]
  rw [if_neg hstar]
  by_cases hs : [':', '*'].isSuffixOf pattern.toList = true
  · obtain ⟨stem, hstem⟩ := List.isSuffixOf_iff_suffix.mp hs
    have hdrop : pattern.toList.dropLast = stem ++ [':'] := by
      rw [← hstem, show stem ++ [':', '*'] = (stem ++ [':']) ++ ['*'] by simp,
        List.dropLast_concat]
    rw [if_pos hs, List.mem_filter, hdrop, List.isPrefixOf_iff_prefix]
    constructor
    · rintro ⟨-, hpre⟩
      exact Or.inr (Or.inr ⟨stem, hstem.symm, hpre⟩)
    · rintro (h | rfl | ⟨stem', heq, hpre⟩)
      · exact absurd h hstar
      · exact absurd (by rw [← hstem]; simp) hplain.1
      · obtain rfl : stem = stem' := List.append_cancel_right (hstem.trans heq)
        exact ⟨hperm, hpre⟩
  · rw [if_neg hs, List.mem_singleton]
    constructor
    · rintro rfl
      exact Or.inr (Or.inl rfl)
    · rintro (h | h | ⟨stem, heq, -⟩)
      · exact absurd h hstar
      · exact h.symm
      · exact absurd (List.isSuffixOf_iff_suffix.mpr ⟨stem, heq.symm⟩) hs

theorem actionTest_iff : actionTest perm pattern = some true ↔
    pattern = "*" ∨ pattern = perm ∨ ('*' ∈ pattern.toList ∧ Reaches pattern perm) := by
  unfold actionTest Reaches
  by_cases h1 : pattern = "*" ∨ pattern = perm
  · rw [if_pos h1]
    exact iff_of_true rfl (h1.imp_right Or.inl)
  · rw [if_neg h1]
    push Not at h1
    simp only [h1.1, h1.2, false_or]
    by_cases h2 : '*' ∈ pattern.toList
    · simp only [h2, if_true, true_and, Option.map_eq_some_iff, covers_iff]
    · simp [h2]

theorem likeTokens_cons {c : Char} (h : c ≠ '\\') (cs : List Char) :
    likeTokens (c :: cs) = (likeTokens cs).map
      ((if c = '%' then .any else if c = '_' then .one else .lit c) :: ·) := by
  rw [likeTokens.eq_def]
  simp only [if_neg h]
  split
  · rfl
  · split <;> rfl

/-- A glob is a `LIKE` pattern for what it covers, as long as it has no escape. -/
theorem likeTokens_of_covers {cs xs : List Char} (hesc : '\\' ∉ cs)
    (h : Covers (globTokens cs) xs) :
    ∃ ts, likeTokens (cs.map fun c => if c = '*' then '%' else c) = some ts ∧ Covers ts xs := by
  induction cs generalizing xs with
  | nil => exact ⟨[], rfl, h⟩
  | cons c cs ih =>
    have hc : c ≠ '\\' := fun heq => hesc (by simp [heq])
    have ih := fun {xs} => @ih xs fun hmem => hesc (List.mem_cons_of_mem _ hmem)
    by_cases hstar : c = '*'
    · subst hstar
      obtain ⟨ys, zs, rfl, hz⟩ := Covers.any_iff.mp h
      obtain ⟨ts, hts, hcov⟩ := ih hz
      exact ⟨.any :: ts, by simp [likeTokens_cons, hts], Covers.any_append hcov ys⟩
    · simp only [globTokens, List.map_cons, if_neg hstar] at h
      cases h with
      | lit h =>
        obtain ⟨ts, hts, hcov⟩ := ih h
        by_cases hpct : c = '%'
        · subst hpct
          exact ⟨.any :: ts, by simp [likeTokens_cons, hts], .more (.skip hcov)⟩
        by_cases hone : c = '_'
        · subst hone
          exact ⟨.one :: ts, by simp [likeTokens_cons, hts], .one hcov⟩
        · exact ⟨.lit c :: ts, by simp [likeTokens_cons hc, hts, hstar, hpct, hone], .lit hcov⟩

theorem InGlob.reaches (hperm : PlainText perm) (h : InGlob pattern perm) :
    Reaches pattern perm := by
  refine likeTokens_of_covers (fun hmem => hperm.2 ?_) h
  exact h.mem_of_lit (List.mem_map.mpr ⟨'\\', hmem, rfl⟩)

theorem InGlob.eq_of_not_mem (hnot : '*' ∉ pattern.toList) (h : InGlob pattern perm) :
    pattern = perm := by
  unfold InGlob at h
  rw [globTokens_of_not_mem hnot, Covers.lits_iff] at h
  exact String.toList_inj.mp h.symm

/-! ## When the matchers agree -/

/-- The gateway test and the SQL test accept the pattern exactly when its language says so. -/
def Agree (perm pattern : String) : Prop :=
  (actionMatchesAny [pattern] perm = true ↔ InGlob pattern perm) ∧
    (actionTest perm pattern = some true ↔ InGlob pattern perm)

/-- A pattern with a star that reaches the permission is `*` or `stem:*`. -/
def UsualStar (perm pattern : String) : Prop :=
  '*' ∈ pattern.toList → Reaches pattern perm → pattern = "*" ∨ ResourceWildcard pattern perm

theorem UsualStar.simple (hperm : PlainText perm) (h : UsualStar perm pattern)
    (hin : InGlob pattern perm) : Simple pattern perm := by
  by_cases hstar : '*' ∈ pattern.toList
  · rcases h hstar (hin.reaches hperm) with h | h
    · exact Or.inl h
    · exact Or.inr (Or.inr h)
  · exact Or.inr (Or.inl (hin.eq_of_not_mem hstar))

theorem agree_iff (hperm : PlainText perm) : Agree perm pattern ↔ UsualStar perm pattern := by
  have hany : actionMatchesAny [pattern] perm = true ↔ Simple pattern perm := by
    rw [← actionMatches_iff]
    simp [actionMatchesAny]
  unfold Agree
  rw [hany, actionTest_iff]
  constructor
  · rintro ⟨hm, ht⟩ hstar hreach
    rcases hm.mpr (ht.mp (Or.inr (Or.inr ⟨hstar, hreach⟩))) with h | rfl | h
    · exact Or.inl h
    · exact absurd hstar hperm.1
    · exact Or.inr h
  · intro hu
    refine ⟨⟨fun h => h.inGlob hperm, fun h => hu.simple hperm h⟩, ?_, ?_⟩
    · rintro (h | h | ⟨hstar, hreach⟩)
      · exact Simple.inGlob hperm (Or.inl h)
      · exact Simple.inGlob hperm (Or.inr (Or.inl h))
      · exact Simple.inGlob hperm ((hu hstar hreach).imp_right Or.inr)
    · intro hin
      by_cases hstar : '*' ∈ pattern.toList
      · exact Or.inr (Or.inr ⟨hstar, hin.reaches hperm⟩)
      · exact Or.inr (Or.inl (hin.eq_of_not_mem hstar))

end Patterns

end ThinkWatch.Policy
