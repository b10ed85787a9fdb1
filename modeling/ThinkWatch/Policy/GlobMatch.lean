import ThinkWatch.Policy.Language

/-!
# Which patterns `glob_match` decides

`glob_match` (`crates/auth/src/rbac.rs`) searches each segment of a pattern at the first place after
the one before, the last segment too, and never goes back. So it finds the shortest beginning of the
value that the pattern matches, and a value with a shorter one is refused when the pattern has to end
where the value does. `globMatch_decides_iff`: apart from that it is the language of the pattern.
-/

namespace ThinkWatch.Policy

open Lib

/-- The pattern matches a beginning of the value that is not all of it. -/
def MatchesEarlier (pattern value : String) : Prop :=
  ∃ front, front <+: value.toList ∧ front ≠ value.toList ∧ Covers (globTokens pattern.toList) front

variable {i n : Nat} {part xs ys zs rest : List Char} {parts : List (List Char)}

/-! ## The first place of a segment -/

/-- Nothing that begins with the segment begins before the place that is found. -/
theorem findPart_first (ys : List Char) (h : part <+: zs) :
    ∃ n rest, findPart part (ys ++ zs) = some (n, rest) ∧ n ≤ ys.length ∧
      zs.drop part.length <:+ rest := by
  induction ys with
  | nil => exact ⟨0, _, findPart_of_prefix h, le_refl _, List.suffix_refl _⟩
  | cons y ys ih =>
    rw [List.cons_append, findPart]
    by_cases hp : part <+: y :: (ys ++ zs)
    · rw [if_pos (List.isPrefixOf_iff_prefix.mpr hp)]
      refine ⟨0, _, rfl, Nat.zero_le _, ?_⟩
      -- `zs` comes after at least one more character than the segment that is found
      have hdrop : zs.drop part.length = (y :: (ys ++ zs)).drop (part.length + (ys.length + 1)) := by
        rw [Nat.add_comm, ← List.drop_drop, List.drop_succ_cons, List.drop_left]
      rw [hdrop, ← List.drop_drop]
      exact List.drop_suffix _ _
    · obtain ⟨n, rest, hfind, hle, hsuffix⟩ := ih
      rw [if_neg fun h => hp (List.isPrefixOf_iff_prefix.mp h), hfind]
      exact ⟨n + 1, rest, rfl, Nat.succ_le_succ hle, hsuffix⟩

/-! ## The shortest beginning -/

/-- From the second segment on, what the search leaves is what a beginning in the language leaves. -/
theorem covers_of_globScan (hne : parts ≠ []) (h : globScan (i + 1) parts xs = some rest) :
    ∃ ys, xs = ys ++ rest ∧ Covers (.any :: partTokens parts) ys := by
  induction parts generalizing i xs with
  | nil => exact absurd rfl hne
  | cons part parts ih =>
    rw [globScan] at h
    by_cases hp : part = []
    · subst hp
      rw [if_pos rfl] at h
      cases parts with
      | nil =>
        obtain rfl := Option.some.inj h
        exact ⟨[], rfl, Covers.any_nil []⟩
      | cons next parts =>
        obtain ⟨ys, rfl, hys⟩ := ih (List.cons_ne_nil _ _) h
        exact ⟨ys, rfl, .skip hys⟩
    · rw [if_neg hp] at h
      split at h
      · next found after hfind =>
        obtain ⟨before, rfl, -⟩ := findPart_eq hfind
        rw [if_neg (by omega)] at h
        cases parts with
        | nil =>
          obtain rfl := Option.some.inj h
          refine ⟨before ++ part, (List.append_assoc _ _ _).symm, ?_⟩
          exact Covers.any_iff.mpr ⟨before, part, rfl, Covers.lits_iff.mpr rfl⟩
        | cons next parts =>
          obtain ⟨ys, rfl, hys⟩ := ih (List.cons_ne_nil _ _) h
          refine ⟨before ++ (part ++ ys), by simp, ?_⟩
          exact Covers.any_iff.mpr ⟨before, part ++ ys, rfl, Covers.lits_append.mpr ⟨ys, rfl, hys⟩⟩
      · cases h

/-- No beginning in the language leaves more than the search does. -/
theorem globScan_shortest (zs : List Char) (hne : parts ≠ []) (h : Covers (.any :: partTokens parts) ys) :
    ∃ rest, globScan (i + 1) parts (ys ++ zs) = some rest ∧ zs <:+ rest := by
  induction parts generalizing i ys with
  | nil => exact absurd rfl hne
  | cons part parts ih =>
    rw [globScan]
    by_cases hp : part = []
    · subst hp
      rw [if_pos rfl]
      cases parts with
      | nil => exact ⟨ys ++ zs, rfl, List.suffix_append ys zs⟩
      | cons next parts => exact ih (List.cons_ne_nil _ _) (Covers.any_any.mp h)
    · rw [if_neg hp]
      obtain ⟨before, after, rfl, hafter⟩ := Covers.any_iff.mp h
      cases parts with
      | nil =>
        rw [Covers.lits_iff.mp hafter]
        obtain ⟨n, rest, hfind, -, hsuffix⟩ := findPart_first before (List.prefix_append part zs)
        rw [List.append_assoc, hfind]
        rw [List.drop_left] at hsuffix
        exact ⟨rest, by simp [globScan], hsuffix⟩
      | cons next parts =>
        obtain ⟨ys, rfl, hys⟩ := Covers.lits_append.mp hafter
        obtain ⟨n, rest, hfind, -, hsuffix⟩ :=
          findPart_first before (List.prefix_append part (ys ++ zs))
        rw [List.drop_left] at hsuffix
        obtain ⟨more, rfl⟩ := hsuffix
        rw [List.append_assoc, List.append_assoc, hfind]
        -- the search goes on with more before it than the place in `ys` has
        have hmore := ih (i := i + 1) (List.cons_ne_nil _ _) (hys.any_extend more)
        rw [List.append_assoc] at hmore
        simpa using hmore

/-- The search from the first segment on, which is looked for at the start of the value alone. -/
theorem globScan_zero (part : List Char) (xs : List Char) :
    globScan 0 (part :: parts) xs =
      if part <+: xs then globScan 1 parts (xs.drop part.length) else none := by
  rw [globScan]
  by_cases hp : part = []
  · subst hp
    rw [if_pos rfl, if_pos List.nil_prefix]
    rfl
  rw [if_neg hp]
  by_cases hpre : part <+: xs
  · rw [if_pos hpre, findPart_of_prefix hpre]
    simp
  · rw [if_neg hpre]
    cases hfind : findPart part xs with
    | none => rfl
    | some found =>
      obtain ⟨before, hxs, hlen⟩ := findPart_eq hfind
      have hne : found.1 ≠ 0 := by
        intro hzero
        obtain rfl := List.length_eq_zero_iff.mp (hlen.trans hzero)
        exact hpre ⟨found.2, hxs.symm⟩
      simp [hne]

/-- What is left of a value is left of a beginning of it that is in the language. -/
theorem covers_of_globScan_zero (hne : parts ≠ [])
    (h : globScan 0 (part :: parts) xs = some rest) :
    ∃ ys, xs = ys ++ rest ∧ Covers (partTokens (part :: parts)) ys := by
  rw [globScan_zero] at h
  split at h
  · next hpre =>
    obtain ⟨after, rfl⟩ := hpre
    rw [List.drop_left] at h
    obtain ⟨ys, rfl, hys⟩ := covers_of_globScan hne h
    refine ⟨part ++ ys, (List.append_assoc _ _ _).symm, ?_⟩
    rw [partTokens_cons hne]
    exact Covers.lits_append.mpr ⟨ys, rfl, hys⟩
  · cases h

theorem globScan_zero_shortest (zs : List Char) (hne : parts ≠ [])
    (h : Covers (partTokens (part :: parts)) ys) :
    ∃ rest, globScan 0 (part :: parts) (ys ++ zs) = some rest ∧ zs <:+ rest := by
  rw [partTokens_cons hne] at h
  obtain ⟨after, rfl, hafter⟩ := Covers.lits_append.mp h
  rw [globScan_zero, List.append_assoc, if_pos (List.prefix_append _ _), List.drop_left]
  exact globScan_shortest zs hne hafter

/-! ## The answer -/

/-- A text with a star, cut at its last one. -/
theorem exists_last_star {cs : List Char} (h : '*' ∈ cs) :
    ∃ front seg, cs = front ++ '*' :: seg ∧ '*' ∉ seg := by
  induction cs with
  | nil => cases h
  | cons c cs ih =>
    by_cases hcs : '*' ∈ cs
    · obtain ⟨front, seg, rfl, hseg⟩ := ih hcs
      exact ⟨c :: front, seg, rfl, hseg⟩
    · obtain rfl : '*' = c := (List.mem_cons.mp h).resolve_right hcs
      exact ⟨[], cs, rfl, hcs⟩

section LastStar

variable {pattern value : String} {front seg : List Char}

theorem splitOn_last_star (hpat : pattern.toList = front ++ '*' :: seg) (hseg : '*' ∉ seg) :
    pattern.toList.splitOn '*' = front.splitOn '*' ++ [seg] := by
  rw [hpat, List.splitOn_append_cons_self, List.splitOn_eq_singleton hseg]

/-- The first segment and the others, of which there are some, have the pattern's language. -/
theorem exists_segments (hpat : pattern.toList = front ++ '*' :: seg) (hseg : '*' ∉ seg) :
    ∃ part parts, parts ≠ [] ∧ front.splitOn '*' ++ [seg] = part :: parts ∧
      globTokens pattern.toList = partTokens (part :: parts) := by
  obtain ⟨part, parts, hparts⟩ := List.exists_cons_of_ne_nil (List.splitOn_ne_nil '*' front)
  have hall : front.splitOn '*' ++ [seg] = part :: (parts ++ [seg]) := by
    rw [hparts, List.cons_append]
  refine ⟨part, parts ++ [seg], List.append_ne_nil_of_right_ne_nil _ (List.cons_ne_nil _ _), hall,
    ?_⟩
  rw [← partTokens_splitOn, splitOn_last_star hpat hseg, hall]

/-- On a value that begins in the language the search succeeds, and leaves what comes after. -/
theorem scan_of_covers (hpat : pattern.toList = front ++ '*' :: seg) (hseg : '*' ∉ seg)
    (zs : List Char) (h : Covers (globTokens pattern.toList) ys) :
    ∃ rest, globScan 0 (front.splitOn '*' ++ [seg]) (ys ++ zs) = some rest ∧ zs <:+ rest := by
  obtain ⟨part, parts, hne, hall, htokens⟩ := exists_segments hpat hseg
  rw [hall]
  exact globScan_zero_shortest zs hne (htokens ▸ h)

theorem covers_of_scan (hpat : pattern.toList = front ++ '*' :: seg) (hseg : '*' ∉ seg)
    (h : globScan 0 (front.splitOn '*' ++ [seg]) xs = some rest) :
    ∃ ys, xs = ys ++ rest ∧ Covers (globTokens pattern.toList) ys := by
  obtain ⟨part, parts, hne, hall, htokens⟩ := exists_segments hpat hseg
  rw [hall] at h
  rw [htokens]
  exact covers_of_globScan_zero hne h

theorem scan_of_inGlob (hpat : pattern.toList = front ++ '*' :: seg) (hseg : '*' ∉ seg)
    (h : InGlob pattern value) :
    ∃ rest, globScan 0 (front.splitOn '*' ++ [seg]) value.toList = some rest := by
  obtain ⟨rest, hrest, -⟩ := scan_of_covers hpat hseg [] h
  exact ⟨rest, by rwa [List.append_nil] at hrest⟩

/-- The value of `glob_match` on a pattern with a star: `seg` is its last segment. -/
theorem globMatch_iff_scan (value : String) (hpat : pattern.toList = front ++ '*' :: seg)
    (hseg : '*' ∉ seg) :
    globMatch pattern value = true ↔
      ∃ rest, globScan 0 (front.splitOn '*' ++ [seg]) value.toList = some rest ∧
        (seg = [] ∨ rest = []) := by
  have hparts := splitOn_last_star hpat hseg
  have hlen : (front.splitOn '*' ++ [seg]).length ≠ 1 := by
    have := List.length_pos_iff.mpr (List.splitOn_ne_nil '*' front)
    rw [List.length_append, List.length_singleton]
    omega
  unfold globMatch
  by_cases hstar : pattern = "*"
  · subst hstar
    rw [if_pos rfl]
    refine iff_of_true rfl ?_
    have hnil : front ++ '*' :: seg = ['*'] := hpat.symm
    obtain ⟨rfl, rfl⟩ : front = [] ∧ seg = [] := by
      cases front with
      | nil => exact ⟨rfl, (List.cons.inj hnil).2⟩
      | cons c front => simp at hnil
    exact ⟨value.toList, rfl, Or.inl rfl⟩
  rw [if_neg hstar, hparts]
  dsimp only
  rw [if_neg hlen, List.getLast?_concat, Option.getD_some]
  cases globScan 0 (front.splitOn '*' ++ [seg]) value.toList with
  | none => simp
  | some rest =>
    by_cases hnil : seg = []
    · simp [hnil]
    · simp [hnil]

/-- The last segment says whether a pattern ends with a star. -/
theorem star_end_iff (hseg : '*' ∉ seg) :
    ['*'] <:+ front ++ '*' :: seg ↔ seg = [] := by
  constructor
  · rintro ⟨before, h⟩
    rcases List.eq_nil_or_concat seg with hnil | ⟨init, c, hconcat⟩
    · exact hnil
    · rw [List.concat_eq_append] at hconcat
      have hcat : before ++ ['*'] = (front ++ '*' :: init) ++ [c] := by
        rw [h, hconcat]
        simp
      obtain rfl : '*' = c := List.singleton_inj.mp (List.append_inj' hcat rfl).2
      exact absurd (hconcat ▸ List.mem_concat_self) hseg
  · rintro rfl
    exact List.suffix_append front ['*']

/-- When the pattern ends in a segment, a value is missed when a beginning of it matches too. -/
theorem segment_decides_iff (hpat : pattern.toList = front ++ '*' :: seg) (hseg : '*' ∉ seg)
    (hnil : seg ≠ []) :
    (globMatch pattern value = true ↔ InGlob pattern value) ↔
      ¬ (InGlob pattern value ∧ MatchesEarlier pattern value) := by
  have hscan := globMatch_iff_scan value hpat hseg
  constructor
  · rintro hiff ⟨hin, begun, ⟨zs, hzs⟩, hproper, hcov⟩
    obtain ⟨rest, hrest, hseg' | rfl⟩ := hscan.mp (hiff.mpr hin)
    · exact hnil hseg'
    obtain ⟨rest', hrest', hsuffix⟩ := scan_of_covers hpat hseg zs hcov
    rw [hzs, hrest] at hrest'
    obtain rfl := Option.some.inj hrest'
    rw [List.suffix_nil.mp hsuffix, List.append_nil] at hzs
    exact hproper hzs
  · intro hnot
    refine ⟨inGlob_of_globMatch, fun hin => ?_⟩
    obtain ⟨rest, hrest⟩ := scan_of_inGlob hpat hseg hin
    obtain ⟨begun, hbegun, hcov⟩ := covers_of_scan hpat hseg hrest
    refine hscan.mpr ⟨rest, hrest, Or.inr ?_⟩
    by_contra hleft
    refine hnot ⟨hin, begun, ⟨rest, hbegun.symm⟩, fun heq => hleft ?_, hcov⟩
    rw [heq] at hbegun
    exact List.append_right_eq_self.mp hbegun.symm

end LastStar

/--
`glob_match` is the language of the pattern on a value, exactly unless the pattern ends in a segment,
the value is in the language, and so is a beginning of it.
-/
theorem globMatch_decides_iff (pattern value : String) :
    (globMatch pattern value = true ↔ InGlob pattern value) ↔
      ['*'] <:+ pattern.toList ∨ ¬ (InGlob pattern value ∧ MatchesEarlier pattern value) := by
  by_cases hstar : '*' ∈ pattern.toList
  · obtain ⟨front, seg, hpat, hseg⟩ := exists_last_star hstar
    have hends : ['*'] <:+ pattern.toList ↔ seg = [] := by
      rw [hpat, star_end_iff hseg]
    rw [hends]
    by_cases hnil : seg = []
    · refine iff_of_true ⟨inGlob_of_globMatch, fun hin => ?_⟩ (Or.inl hnil)
      obtain ⟨rest, hrest⟩ := scan_of_inGlob hpat hseg hin
      exact (globMatch_iff_scan value hpat hseg).mpr ⟨rest, hrest, Or.inl hnil⟩
    · rw [or_iff_right hnil]
      exact segment_decides_iff hpat hseg hnil
  · have hlits : ∀ xs, Covers (globTokens pattern.toList) xs ↔ xs = pattern.toList := by
      intro xs
      rw [globTokens_of_not_mem hstar, Covers.lits_iff]
    refine iff_of_true ⟨inGlob_of_globMatch, fun hin => ?_⟩ (Or.inr ?_)
    · exact globMatch_of_eq hstar (String.toList_inj.mp ((hlits _).mp hin).symm)
    · rintro ⟨hin, begun, -, hproper, hcov⟩
      exact hproper (((hlits _).mp hcov).trans ((hlits _).mp hin).symm)

/-- The segment `te` is first found in `rate`. -/
theorem rate_limits_write_not_matched :
    ¬ (globMatch "*te" "rate_limits:write" = true ↔ InGlob "*te" "rate_limits:write") := by
  unfold InGlob
  decide

end ThinkWatch.Policy
