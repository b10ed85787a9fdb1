import Mathlib.Data.List.AList
import Mathlib.Data.List.MinMax
import Mathlib.Tactic.Common

/-!
# Maps looked up by longest prefix

A map from texts to values is an association list without repeated keys, whose order means
nothing. `find` looks a text up exactly and falls back to the longest key that the text starts
with; values that fail a test are passed over both times. Since a text starts with itself,
`find` is the longest match alone (`find_eq_longest`), and what it returns does not depend on
the order of the entries (`find_eq_some`).
-/

namespace Lib

/-- A hash map with text keys. -/
abbrev TextMap (ν : Type*) := AList fun _ : String => ν

/-- `text.starts_with(p)`. -/
def startsWith (text p : String) : Bool := p.toList.isPrefixOf text.toList

theorem startsWith_iff {text p : String} : startsWith text p = true ↔ p.toList <+: text.toList :=
  List.isPrefixOf_iff_prefix

theorem startsWith_self (text : String) : startsWith text text = true :=
  startsWith_iff.mpr List.prefix_rfl

theorem startsWith_trans {text p q : String} (hp : startsWith text p = true)
    (hq : startsWith p q = true) : startsWith text q = true :=
  startsWith_iff.mpr ((startsWith_iff.mp hq).trans (startsWith_iff.mp hp))

theorem utf8ByteSize_of_toList_eq_append {p q : String} {r : List Char}
    (h : q.toList = p.toList ++ r) :
    q.utf8ByteSize = p.utf8ByteSize + (String.ofList r).utf8ByteSize := by
  have hq : q = p ++ String.ofList r := String.toList_injective (by rw [h]; simp)
  rw [hq, String.utf8ByteSize_append]

/-- Of two prefixes of one text the one that is not longer starts the other. -/
theorem startsWith_of_size_le {text p q : String} (hp : startsWith text p = true)
    (hq : startsWith text q = true) (hle : p.utf8ByteSize ≤ q.utf8ByteSize) :
    startsWith q p = true := by
  rw [startsWith_iff] at hp hq ⊢
  rcases List.prefix_or_prefix_of_prefix hp hq with h | ⟨r, h⟩
  · exact h
  · -- `p` extends `q` and is not larger, so by nothing
    have hsize := utf8ByteSize_of_toList_eq_append h.symm
    have hr : (String.ofList r).utf8ByteSize = 0 := by omega
    have hr' : r = [] := by
      rw [String.utf8ByteSize_eq_zero_iff] at hr
      simpa using congrArg String.toList hr
    exact ⟨[], by rw [← h, hr', List.append_nil, List.append_nil]⟩

theorem size_le_of_startsWith {p q : String} (h : startsWith q p = true) :
    p.utf8ByteSize ≤ q.utf8ByteSize := by
  obtain ⟨r, h⟩ := startsWith_iff.mp h
  have := utf8ByteSize_of_toList_eq_append h.symm
  omega

theorem startsWith_antisymm {p q : String} (hp : startsWith p q = true)
    (hq : startsWith q p = true) : p = q := by
  rw [startsWith_iff] at hp hq
  exact String.toList_injective
    (hq.eq_of_length (le_antisymm hq.length_le hp.length_le))

/-- Prefixes of one text of one size are one. -/
theorem eq_of_startsWith_of_size_eq {text p q : String} (hp : startsWith text p = true)
    (hq : startsWith text q = true) (h : p.utf8ByteSize = q.utf8ByteSize) : p = q :=
  startsWith_antisymm (startsWith_of_size_le hq hp h.ge) (startsWith_of_size_le hp hq h.le)

namespace TextMap

variable {ν : Type*} {s : TextMap ν} {ok : ν → Bool} {text k : String} {v : ν}

/-- The scan for the longest key that starts `text`: a later entry wins only by being longer. -/
def longest (s : TextMap ν) (ok : ν → Bool) (text : String) : Option (Σ _ : String, ν) :=
  (s.entries.filter fun e => startsWith text e.1 && ok e.2).argmax fun e => e.1.utf8ByteSize

/-- The exact entry, or else the longest match. -/
def find (s : TextMap ν) (ok : ν → Bool) (text : String) : Option (Σ _ : String, ν) :=
  match s.lookup text with
  | some v => if ok v then some ⟨text, v⟩ else longest s ok text
  | none => longest s ok text

/-- The entry under `k` is a match: it starts `text` and its value passes. -/
def Matches (s : TextMap ν) (ok : ν → Bool) (text k : String) (v : ν) : Prop :=
  s.lookup k = some v ∧ startsWith text k = true ∧ ok v = true

theorem mem_filter_iff :
    (⟨k, v⟩ : Σ _ : String, ν) ∈
        s.entries.filter (fun e => startsWith text e.1 && ok e.2) ↔
      Matches s ok text k v := by
  rw [List.mem_filter, ← AList.mem_lookup_iff, Option.mem_def, Matches, Bool.and_eq_true]

/-- The longest match is the match no other match is longer than. -/
theorem longest_eq_some :
    longest s ok text = some ⟨k, v⟩ ↔ Matches s ok text k v ∧
      ∀ k' v', Matches s ok text k' v' → k'.utf8ByteSize ≤ k.utf8ByteSize := by
  constructor
  · intro h
    refine ⟨mem_filter_iff.mp (List.argmax_mem h), fun k' v' h' => ?_⟩
    exact List.le_of_mem_argmax (f := fun e : Σ _ : String, ν => e.1.utf8ByteSize)
      (mem_filter_iff.mpr h') h
  · rintro ⟨h, hmax⟩
    cases hl : longest s ok text with
    | none =>
      have hnil := List.argmax_eq_none.mp hl
      exact absurd (mem_filter_iff.mpr h) (by rw [hnil]; exact List.not_mem_nil)
    | some e =>
      obtain ⟨k', v'⟩ := e
      have h' : Matches s ok text k' v' := mem_filter_iff.mp (List.argmax_mem hl)
      have hle : k.utf8ByteSize ≤ k'.utf8ByteSize :=
        List.le_of_mem_argmax (f := fun e : Σ _ : String, ν => e.1.utf8ByteSize)
          (mem_filter_iff.mpr h) hl
      obtain rfl := eq_of_startsWith_of_size_eq h'.2.1 h.2.1 (le_antisymm (hmax k' v' h') hle)
      rw [Option.some.inj (h'.1.symm.trans h.1)]

/-- The exact entry is the longest of all. -/
theorem find_eq_longest (s : TextMap ν) (ok : ν → Bool) (text : String) :
    find s ok text = longest s ok text := by
  unfold find
  split
  · next v hv =>
    split
    · next hok =>
      refine (longest_eq_some.mpr ⟨⟨hv, startsWith_self text, hok⟩, fun k' v' h' => ?_⟩).symm
      exact size_le_of_startsWith h'.2.1
    · rfl
  · rfl

theorem find_eq_some :
    find s ok text = some ⟨k, v⟩ ↔ Matches s ok text k v ∧
      ∀ k' v', Matches s ok text k' v' → k'.utf8ByteSize ≤ k.utf8ByteSize := by
  rw [find_eq_longest, longest_eq_some]

theorem find_eq_none :
    find s ok text = none ↔ ∀ k v, ¬ Matches s ok text k v := by
  rw [find_eq_longest, longest, List.argmax_eq_none, List.eq_nil_iff_forall_not_mem]
  constructor
  · exact fun h k v hm => h _ (mem_filter_iff.mpr hm)
  · exact fun h e he => h e.1 e.2 (mem_filter_iff.mp he)

/-! ## Changing the values under all keys -/

/-- Every value replaced by its image. -/
def mapValues (f : ν → ν) (s : TextMap ν) : TextMap ν :=
  ⟨s.entries.map fun e => ⟨e.1, f e.2⟩, s.nodupKeys.map₂ fun _ => f⟩

theorem lookup_mapValues (f : ν → ν) (s : TextMap ν) (k : String) :
    (mapValues f s).lookup k = (s.lookup k).map f :=
  List.dlookup_map₂ (f := fun _ => f) k

end TextMap

end Lib
