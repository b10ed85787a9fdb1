import ThinkWatch.Policy.GatewayScope

/-!
# The allow-lists of a key under those of the roles

`intersect_allowlists` (`crates/server/src/middleware/api_key_auth.rs`) builds the list that a key
is used with out of the entries of two lists, which are patterns. The result allows what both lists
allow as long as covering agrees with matching: what an entry matches, every entry that covers it
matches, and of two entries that match one name, one covers the other.
-/

namespace ThinkWatch.Policy

open Lib

/-- The entries of one side that the other side covers. -/
def coveredBy (covers : String → String → Bool) (side other : List String) : List String :=
  side.filter fun entry => other.any fun g => covers g entry

def intersectAllowlists (keyList roleList : Option (List String))
    (covers : String → String → Bool) : Option (List String) :=
  match keyList, roleList with
  | none, none => none
  | some k, none => some k
  | none, some r => some r
  | some k, some r => some (btreeSet (coveredBy covers k r ++ coveredBy covers r k))

def modelEntryCovers (general specific : String) : Bool :=
  general.toList.isPrefixOf specific.toList

def mcpEntryCovers (general specific : String) : Bool :=
  if general = "*" ∨ general = specific then true
  else if specific = "*" ∨ (stripServerWildcard specific.toList).isSome then false
  else isToolAllowed (some [general]) specific

example : intersectAllowlists (some ["gpt-"]) (some ["gpt-4o", "claude"]) modelEntryCovers =
    some ["gpt-4o"] := by decide +kernel

example : intersectAllowlists (some ["*"]) (some ["github__*", "slack__send"]) mcpEntryCovers =
    some ["github__*", "slack__send"] := by decide +kernel

/-! ## Any patterns -/

section

variable {covers : String → String → Bool} {test : String → Bool}

/-- Covering agrees with matching, at one name. -/
structure Agrees (covers : String → String → Bool) (test : String → Bool) : Prop where
  sound : ∀ {general specific}, covers general specific → test specific → test general
  complete : ∀ {a b}, test a → test b → covers a b ∨ covers b a

theorem any_coveredBy {side other : List String} :
    (coveredBy covers side other).any test = true ↔
      ∃ entry ∈ side, test entry ∧ ∃ g ∈ other, covers g entry := by
  simp only [coveredBy, List.any_eq_true, List.mem_filter]
  grind

theorem any_coveredBy_allowed (h : Agrees covers test) {side other : List String}
    (hany : (coveredBy covers side other).any test = true) :
    side.any test = true ∧ other.any test = true := by
  obtain ⟨entry, hmem, htest, g, hg, hcov⟩ := any_coveredBy.mp hany
  exact ⟨List.any_eq_true.mpr ⟨entry, hmem, htest⟩,
    List.any_eq_true.mpr ⟨g, hg, h.sound hcov htest⟩⟩

/-- The intersection allows what both lists allow. -/
theorem allowedBy_intersectAllowlists (h : Agrees covers test)
    (keyList roleList : Option (List String)) :
    allowedBy test (intersectAllowlists keyList roleList covers) =
      (allowedBy test keyList && allowedBy test roleList) := by
  match keyList, roleList with
  | none, none => rfl
  | some k, none => exact (Bool.and_true _).symm
  | none, some r => exact (Bool.true_and _).symm
  | some k, some r =>
    have hmem : (btreeSet (coveredBy covers k r ++ coveredBy covers r k)).any test =
        ((coveredBy covers k r).any test || (coveredBy covers r k).any test) := by
      rw [← List.any_append, Bool.eq_iff_iff, List.any_eq_true, List.any_eq_true]
      simp only [mem_btreeSet]
    simp only [intersectAllowlists, allowedBy, hmem]
    rw [Bool.eq_iff_iff, Bool.or_eq_true, Bool.and_eq_true]
    constructor
    · rintro (hk | hr)
      · exact any_coveredBy_allowed h hk
      · exact (any_coveredBy_allowed h hr).symm
    · rintro ⟨hk, hr⟩
      obtain ⟨a, ha, hatest⟩ := List.any_eq_true.mp hk
      obtain ⟨b, hb, hbtest⟩ := List.any_eq_true.mp hr
      rcases h.complete hatest hbtest with hcov | hcov
      · exact Or.inr (any_coveredBy.mpr ⟨b, hb, hbtest, a, ha, hcov⟩)
      · exact Or.inl (any_coveredBy.mpr ⟨a, ha, hatest, b, hb, hcov⟩)

end

/-! ## Model entries -/

theorem modelEntryMatches_iff {model entry : String} :
    modelEntryMatches model entry = true ↔ entry.toList <+: model.toList := by
  rw [modelEntryMatches, Bool.or_eq_true, beq_iff_eq, List.isPrefixOf_iff_prefix]
  refine ⟨fun h => ?_, Or.inr⟩
  rcases h with rfl | h
  · exact List.prefix_rfl
  · exact h

theorem agrees_model (model : String) : Agrees modelEntryCovers (modelEntryMatches model) where
  sound hcov htest := modelEntryMatches_iff.mpr
    ((List.isPrefixOf_iff_prefix.mp hcov).trans (modelEntryMatches_iff.mp htest))
  complete ha hb := by
    rcases List.prefix_or_prefix_of_prefix (modelEntryMatches_iff.mp ha)
      (modelEntryMatches_iff.mp hb) with h | h
    · exact Or.inl (List.isPrefixOf_iff_prefix.mpr h)
    · exact Or.inr (List.isPrefixOf_iff_prefix.mpr h)

/-! ## Tool patterns -/

/-- The two shapes of a pattern other than `*` that matches a name. -/
theorem patternMatches_cases {name pattern : String} (h : patternMatches name pattern = true) :
    pattern = "*" ∨
      (∃ server tool, stripServerWildcard pattern.toList = some server ∧
        cut ['_', '_'] name.toList = some (server, tool)) ∨
      (stripServerWildcard pattern.toList = none ∧ pattern = name) := by
  unfold patternMatches at h
  split at h
  · next hstar => exact Or.inl hstar
  · split at h
    · next server hstrip =>
      split at h
      · cases h
      · split at h
        · next s t hcut =>
          simp only [Bool.and_eq_true, beq_iff_eq] at h
          obtain ⟨rfl, -⟩ := h
          exact Or.inr (Or.inl ⟨_, t, hstrip, hcut⟩)
        · cases h
    · next hstrip =>
      split at h
      · cases h
      · split at h
        · simp only [Bool.and_eq_true, beq_iff_eq] at h
          exact Or.inr (Or.inr ⟨hstrip, h.2⟩)
        · cases h

/-- The server wildcard of a pattern is at its end. -/
theorem eq_of_stripServerWildcard {pattern server : List Char}
    (h : stripServerWildcard pattern = some server) : pattern = server ++ ['_', '_', '*'] := by
  unfold stripServerWildcard at h
  split at h
  · next hsuffix =>
    obtain ⟨s, rfl⟩ := List.isSuffixOf_iff_suffix.mp hsuffix
    obtain rfl := Option.some.inj h
    simp
  · cases h

theorem isToolAllowed_singleton (pattern name : String) :
    isToolAllowed (some [pattern]) name = patternMatches name pattern := by
  simp [isToolAllowed, allowedBy]

theorem patternMatches_of_covers {name general specific : String}
    (hcov : mcpEntryCovers general specific = true) (h : patternMatches name specific = true) :
    patternMatches name general = true := by
  unfold mcpEntryCovers at hcov
  split at hcov
  · next heq =>
    rcases heq with rfl | rfl
    · rfl
    · exact h
  · split at hcov
    · cases hcov
    · next hshape =>
      rw [isToolAllowed_singleton] at hcov
      rcases patternMatches_cases h with hstar | ⟨server, tool, hstrip, -⟩ | ⟨-, rfl⟩
      · exact absurd (Or.inl hstar) hshape
      · exact absurd (Or.inr (by rw [hstrip]; rfl)) hshape
      · exact hcov

theorem covers_of_exact {name general specific : String}
    (hstrip : stripServerWildcard specific.toList = none) (hname : specific = name)
    (h : patternMatches name general = true) (hspecific : specific ≠ "*") :
    mcpEntryCovers general specific = true := by
  unfold mcpEntryCovers
  split
  · rfl
  · rw [if_neg (by simp [hstrip, hspecific]), isToolAllowed_singleton, hname]
    exact h

/-- Of two patterns that match one name, one covers the other. -/
theorem covers_or_covers {name a b : String} (ha : patternMatches name a = true)
    (hb : patternMatches name b = true) :
    mcpEntryCovers a b = true ∨ mcpEntryCovers b a = true := by
  by_cases hastar : a = "*"
  · exact Or.inl (if_pos (Or.inl hastar))
  by_cases hbstar : b = "*"
  · exact Or.inr (if_pos (Or.inl hbstar))
  rcases patternMatches_cases ha with h | ⟨server, tool, hstrip, hcut⟩ | ⟨hstrip, heq⟩
  · exact absurd h hastar
  · rcases patternMatches_cases hb with h | ⟨server', tool', hstrip', hcut'⟩ | ⟨hstrip', heq'⟩
    · exact absurd h hbstar
    · -- two wildcards of the server that the name starts with
      obtain ⟨rfl, -⟩ := Prod.mk.inj (Option.some.inj (hcut.symm.trans hcut'))
      have hab : a = b := String.toList_inj.mp
        ((eq_of_stripServerWildcard hstrip).trans (eq_of_stripServerWildcard hstrip').symm)
      exact Or.inl (if_pos (Or.inr hab))
    · exact Or.inl (covers_of_exact hstrip' heq' ha hbstar)
  · exact Or.inr (covers_of_exact hstrip heq hb hastar)

theorem agrees_tool (name : String) : Agrees mcpEntryCovers (patternMatches name) where
  sound := patternMatches_of_covers
  complete := covers_or_covers

/--
A model and a tool are allowed by the intersection exactly when the key's list and the roles' list
allow them.
-/
theorem intersectAllowlists_exact (keyList roleList : Option (List String)) :
    (∀ model, mayCall (intersectAllowlists keyList roleList modelEntryCovers) model =
        (mayCall keyList model && mayCall roleList model)) ∧
      ∀ name, isToolAllowed (intersectAllowlists keyList roleList mcpEntryCovers) name =
        (isToolAllowed keyList name && isToolAllowed roleList name) :=
  ⟨fun model => allowedBy_intersectAllowlists (agrees_model model) keyList roleList,
    fun name => allowedBy_intersectAllowlists (agrees_tool name) keyList roleList⟩

end ThinkWatch.Policy
