import Mathlib.Data.List.Dedup
import Mathlib.Data.List.MinMax
import Mathlib.Data.List.Nodup
import ThinkWatch.Lib.KeyedList

/-!
# A table of the keys noted last

A table has room for `cap` keys and counts its notes: a key that is noted gets the count, and a full
table makes room for a new key by dropping the one with the lowest. So it holds the `cap` keys that
were noted last (`mem_keys_iff`).
-/

namespace Lib

/-- The keys, each with the count of its last note. -/
structure Noted (κ : Type*) where
  entries : List (κ × Nat)
  clock : Nat
deriving DecidableEq, Repr

variable {κ : Type*} [DecidableEq κ] {cap : Nat} {k x : κ} {order l before after : List κ}

namespace Noted

def empty : Noted κ := ⟨[], 0⟩

def contains (t : Noted κ) (k : κ) : Bool := t.entries.any fun e => e.1 = k

/-- Makes room for a new key where there is none. -/
def evict (t : Noted κ) (cap : Nat) (k : κ) : List (κ × Nat) :=
  if cap ≤ t.entries.length ∧ ¬ t.contains k then
    match t.entries.minOn? Prod.snd with
    | some oldest => t.entries.filter fun e => e.1 ≠ oldest.1
    | none => t.entries
  else t.entries

def note (cap : Nat) (t : Noted κ) (k : κ) : Noted κ :=
  ⟨put Prod.fst (t.evict cap k) (k, t.clock + 1), t.clock + 1⟩

end Noted

/-! ## The order of the notes -/

/-- The keys in the order of their last notes, the newest first. -/
def newest (notes : List κ) : List κ := notes.foldl (fun order k => k :: order.filter (· ≠ k)) []

/-- The newest of them. -/
def touch (cap : Nat) (order : List κ) (k : κ) : List κ := (k :: order.filter (· ≠ k)).take cap

theorem newest_concat (l : List κ) (k : κ) :
    newest (l ++ [k]) = k :: (newest l).filter (· ≠ k) := by
  rw [newest, List.foldl_append]
  rfl

theorem nodup_newest (l : List κ) : (newest l).Nodup := by
  induction l using List.reverseRecOn with
  | nil => exact List.nodup_nil
  | append_singleton l k ih =>
    rw [newest_concat, List.nodup_cons]
    exact ⟨fun h => of_decide_eq_true (List.mem_filter.mp h).2 rfl, ih.filter _⟩

theorem mem_newest : k ∈ newest l ↔ k ∈ l := by
  induction l using List.reverseRecOn with
  | nil => exact Iff.rfl
  | append_singleton l x ih =>
    rw [newest_concat, List.mem_cons, List.mem_filter, ih, List.mem_append, List.mem_singleton,
      decide_eq_true_eq]
    tauto

/-- What is noted later comes first. -/
theorem newest_append (l l' : List κ) :
    newest (l ++ l') = newest l' ++ (newest l).filter (· ∉ l') := by
  induction l' using List.reverseRecOn with
  | nil => simp [newest]
  | append_singleton l' k ih =>
    rw [← List.append_assoc, newest_concat, ih, newest_concat, List.filter_append, List.filter_filter,
      List.cons_append]
    congr 2
    refine List.filter_congr fun x _ => ?_
    simp [and_comm]

theorem length_newest (l : List κ) : (newest l).length = l.dedup.length :=
  ((List.perm_ext_iff_of_nodup (nodup_newest l) (List.nodup_dedup l)).mpr fun k => by
    rw [mem_newest, List.mem_dedup]).length_eq

/-- Forgetting the rest early does not change what is among the newest. -/
theorem take_filter_take (h : order.Nodup) (k : κ) (n : Nat) :
    ((order.take (n + 1)).filter (· ≠ k)).take n = (order.filter (· ≠ k)).take n := by
  induction order generalizing n with
  | nil => simp
  | cons x order ih =>
    obtain ⟨hx, hnodup⟩ := List.nodup_cons.mp h
    rw [List.take_succ_cons]
    by_cases hxk : x = k
    · -- the rest has no `k` any more
      have hrest (n : Nat) : ((order.take n).filter (· ≠ k)) = order.take n :=
        List.filter_eq_self.mpr fun y hy =>
          decide_eq_true fun hyk => hx (hxk ▸ hyk ▸ List.mem_of_mem_take hy)
      have hall : order.filter (· ≠ k) = order :=
        List.filter_eq_self.mpr fun y hy => decide_eq_true fun hyk => hx (hxk ▸ hyk ▸ hy)
      rw [List.filter_cons_of_neg (by simp [hxk]), List.filter_cons_of_neg (by simp [hxk]), hrest,
        hall, List.take_take, Nat.min_self]
    · rw [List.filter_cons_of_pos (by simp [hxk]), List.filter_cons_of_pos (by simp [hxk])]
      cases n with
      | zero => rfl
      | succ n => rw [List.take_succ_cons, List.take_succ_cons, ih hnodup]

theorem touch_take (h : order.Nodup) (hcap : 0 < cap) (k : κ) :
    touch cap (order.take cap) k = (k :: order.filter (· ≠ k)).take cap := by
  obtain ⟨n, rfl⟩ := Nat.exists_eq_succ_of_ne_zero hcap.ne'
  rw [touch, List.take_succ_cons, List.take_succ_cons, take_filter_take h]

theorem foldl_touch (hcap : 0 < cap) (l : List κ) :
    l.foldl (touch cap) [] = (newest l).take cap := by
  induction l using List.reverseRecOn with
  | nil => simp [newest]
  | append_singleton l k ih =>
    rw [List.foldl_append, ih, List.foldl_cons, List.foldl_nil, touch_take (nodup_newest l) hcap,
      newest_concat]

omit [DecidableEq κ] in
theorem mem_take_append {xs ys : List κ} {n : Nat} (h : k ∉ xs) :
    k ∈ (xs ++ k :: ys).take n ↔ xs.length < n := by
  constructor
  · intro hk
    by_contra hn
    rw [List.take_append_of_le_length (Nat.le_of_not_lt hn)] at hk
    exact h (List.mem_of_mem_take hk)
  · intro hn
    obtain ⟨m, rfl⟩ := Nat.exists_eq_add_of_lt hn
    rw [Nat.add_assoc, List.take_length_add_append, List.take_succ_cons]
    exact List.mem_append_right _ List.mem_cons_self

theorem mem_take_newest_split (h : k ∉ after) :
    k ∈ (newest (before ++ k :: after)).take cap ↔ after.dedup.length < cap := by
  rw [List.append_cons, newest_append, newest_concat, List.filter_cons_of_pos (by simpa using h),
    mem_take_append (fun hk => h (mem_newest.mp hk)), length_newest]

/-- A key is among the newest if fewer others were noted since its last note. -/
theorem mem_take_newest : k ∈ (newest l).take cap ↔
    ∃ before after, l = before ++ k :: after ∧ k ∉ after ∧ after.dedup.length < cap := by
  constructor
  · intro hk
    have hmem : k ∈ l.reverse := List.mem_reverse.mpr (mem_newest.mp (List.mem_of_mem_take hk))
    obtain ⟨after, before, hl, hafter⟩ := List.eq_append_cons_of_mem hmem
    have hsplit : l = before.reverse ++ k :: after.reverse := by
      rw [← List.reverse_reverse l, hl]
      simp
    have hnot : k ∉ after.reverse := fun h => hafter (List.mem_reverse.mp h)
    rw [hsplit, mem_take_newest_split hnot] at hk
    exact ⟨_, _, hsplit, hnot, hk⟩
  · rintro ⟨before, after, rfl, hafter, hlt⟩
    exact (mem_take_newest_split hafter).mpr hlt

/-! ## The table -/

namespace Noted

variable {t : Noted κ}

/-- The entries, by their counts, are the keys in their order. -/
structure Lists (t : Noted κ) (order : List κ) : Prop where
  sorted : ∃ es : List (κ × Nat), es.Perm t.entries ∧ es.map Prod.fst = order ∧
    es.Pairwise (fun a b => b.2 < a.2) ∧ ∀ e ∈ es, e.2 ≤ t.clock
  nodup : order.Nodup

theorem Lists.contains_iff (h : t.Lists order) : t.contains k = true ↔ k ∈ order := by
  obtain ⟨es, hperm, rfl, -⟩ := h.sorted
  rw [contains, List.any_eq_true]
  simp only [decide_eq_true_eq, List.mem_map, hperm.mem_iff]

omit [DecidableEq κ] in
theorem Lists.length (h : t.Lists order) : t.entries.length = order.length := by
  obtain ⟨es, hperm, rfl, -⟩ := h.sorted
  rw [List.length_map, hperm.length_eq]

omit [DecidableEq κ] in
/-- The lowest count is that of the last key. -/
theorem Lists.oldest {init : List κ} (h : t.Lists (init ++ [x])) :
    ∃ n, t.entries.minOn? Prod.snd = some (x, n) := by
  obtain ⟨es, hperm, hmap, hsorted, -⟩ := h.sorted
  obtain ⟨es, last, rfl, hinit, hlast⟩ := List.map_eq_append_iff.mp hmap
  obtain ⟨⟨x', n⟩, rfl, rfl⟩ := List.map_eq_singleton_iff.mp hlast
  have hmem : (x', n) ∈ t.entries := hperm.mem_iff.mp (List.mem_append_right _ List.mem_cons_self)
  obtain ⟨e, he⟩ := Option.isSome_iff_exists.mp (List.isSome_minOn?_of_mem (f := Prod.snd) hmem)
  refine ⟨n, he.trans ?_⟩
  have hle : e.2 ≤ n := by
    have := List.apply_get_minOn?_le_of_mem (f := Prod.snd) hmem
    simpa [he] using this
  rcases List.mem_append.mp (hperm.mem_iff.mpr (List.minOn?_mem he)) with hin | hin
  · have hlt := (List.pairwise_append.mp hsorted).2.2 e hin (x', n) List.mem_cons_self
    exact absurd hle (Nat.not_le_of_lt hlt)
  · rw [List.mem_singleton.mp hin]

/-- A table with room, or with the key in it, keeps all other keys. -/
theorem Lists.note_of_room (h : t.Lists order) (hroom : (k :: order.filter (· ≠ k)).length ≤ cap)
    (hevict : t.evict cap k = t.entries) : (t.note cap k).Lists (touch cap order k) := by
  obtain ⟨es, hperm, rfl, hsorted, hle⟩ := h.sorted
  rw [touch, List.take_of_length_le hroom]
  refine ⟨⟨(k, t.clock + 1) :: es.filter fun e => e.1 ≠ k, ?_, ?_, ?_, ?_⟩, ?_⟩
  · rw [note, hevict, put]
    exact ((hperm.filter _).cons _).trans (List.perm_append_singleton _ _).symm
  · rw [List.map_cons, List.filter_map]
    rfl
  · refine List.pairwise_cons.mpr ⟨fun e he => ?_, hsorted.filter _⟩
    exact Nat.lt_succ_of_le (hle e (List.mem_filter.mp he).1)
  · intro e he
    rcases List.mem_cons.mp he with rfl | he
    · exact Nat.le_refl _
    · exact Nat.le_succ_of_le (hle e (List.mem_filter.mp he).1)
  · exact List.nodup_cons.mpr
      ⟨fun hk => of_decide_eq_true (List.mem_filter.mp hk).2 rfl, h.nodup.filter _⟩

/-- A full table drops the last key for a new one. -/
theorem Lists.note_of_full {init : List κ} (h : t.Lists (init ++ [x]))
    (hlen : init.length + 1 = cap) (hk : k ∉ init ++ [x]) :
    (t.note cap k).Lists (touch cap (init ++ [x]) k) := by
  have hkeep : (init ++ [x]).filter (· ≠ k) = init ++ [x] :=
    List.filter_eq_self.mpr fun y hy => decide_eq_true fun hyk => hk (hyk ▸ hy)
  have htouch : touch cap (init ++ [x]) k = k :: init := by
    rw [touch, hkeep, ← hlen, List.take_succ_cons, List.take_left]
  obtain ⟨n, holdest⟩ := h.oldest
  have hcontains : ¬ t.contains k = true := fun hc => hk (h.contains_iff.mp hc)
  have hfull : cap ≤ t.entries.length := by
    rw [h.length, List.length_append, List.length_singleton]
    omega
  have hevict : t.evict cap k = t.entries.filter fun e => e.1 ≠ x := by
    rw [evict, if_pos ⟨hfull, hcontains⟩, holdest]
  obtain ⟨hinit, -, hdisjoint⟩ := List.nodup_append.mp h.nodup
  obtain ⟨es, hperm, hmap, hsorted, hle⟩ := h.sorted
  obtain ⟨es, last, rfl, rfl, hlast⟩ := List.map_eq_append_iff.mp hmap
  obtain ⟨⟨x, n'⟩, rfl, rfl⟩ := List.map_eq_singleton_iff.mp hlast
  -- what is left of the table are the entries of `init`
  have hrest : es.Perm ((t.evict cap k).filter fun e => e.1 ≠ k) := by
    have hes (e : κ × Nat) (he : e ∈ es) : e.1 ≠ x ∧ e.1 ≠ k :=
      ⟨hdisjoint _ (List.mem_map_of_mem he) _ List.mem_cons_self,
        fun hek => hk (hek ▸ List.mem_append_left _ (List.mem_map_of_mem he))⟩
    have hfilter : ((es ++ [(x, n')]).filter fun e => e.1 ≠ x).filter (fun e => e.1 ≠ k) = es := by
      rw [List.filter_append, List.filter_cons_of_neg (by simp), List.filter_nil, List.append_nil,
        List.filter_filter, List.filter_eq_self]
      intro e he
      simp [hes e he]
    rw [hevict]
    conv_lhs => rw [← hfilter]
    exact (hperm.filter _).filter _
  rw [htouch]
  refine ⟨⟨(k, t.clock + 1) :: es, ?_, rfl, ?_, ?_⟩, ?_⟩
  · rw [note, put]
    exact (hrest.cons _).trans (List.perm_append_singleton _ _).symm
  · refine List.pairwise_cons.mpr ⟨fun e he => ?_, (List.pairwise_append.mp hsorted).1⟩
    exact Nat.lt_succ_of_le (hle e (List.mem_append_left _ he))
  · intro e he
    rcases List.mem_cons.mp he with rfl | he
    · exact Nat.le_refl _
    · exact Nat.le_succ_of_le (hle e (List.mem_append_left _ he))
  · exact List.nodup_cons.mpr ⟨fun hin => hk (List.mem_append_left _ hin), hinit⟩

theorem Lists.note (h : t.Lists order) (hlen : order.length ≤ cap) (hcap : 0 < cap) (k : κ) :
    (t.note cap k).Lists (touch cap order k) := by
  by_cases hk : k ∈ order
  · have hevict : t.evict cap k = t.entries := if_neg fun hc => hc.2 (h.contains_iff.mpr hk)
    refine h.note_of_room ?_ hevict
    have hlt : (order.filter (· ≠ k)).length < order.length :=
      List.length_filter_lt_length_iff_exists.mpr ⟨k, hk, by simp⟩
    rw [List.length_cons]
    omega
  · by_cases hfull : order.length = cap
    · obtain ⟨init, x, rfl⟩ : ∃ init x, order = init ++ [x] := by
        have hne : order ≠ [] := by
          rintro rfl
          exact hcap.ne hfull
        exact ⟨_, _, (List.dropLast_append_getLast hne).symm⟩
      exact h.note_of_full (by rw [← hfull, List.length_append, List.length_singleton]) hk
    · have hevict : t.evict cap k = t.entries := if_neg fun hc => by
        have := h.length
        omega
      refine h.note_of_room ?_ hevict
      have hle := List.length_filter_le (· ≠ k) order
      rw [List.length_cons]
      omega

theorem length_touch (order : List κ) (k : κ) : (touch cap order k).length ≤ cap :=
  List.length_take_le _ _

/-- The table holds the keys in the order of their last notes, as many as there is room for. -/
theorem lists_foldl (hcap : 0 < cap) (l : List κ) :
    (l.foldl (note cap) empty).Lists ((newest l).take cap) := by
  have hrun : (l.foldl (note cap) empty).Lists (l.foldl (touch cap) []) ∧
      (l.foldl (touch cap) []).length ≤ cap := by
    induction l using List.reverseRecOn with
    | nil => exact ⟨⟨⟨[], List.Perm.refl _, rfl, List.Pairwise.nil, nofun⟩, List.nodup_nil⟩,
        Nat.zero_le _⟩
    | append_singleton l k ih =>
      rw [List.foldl_append, List.foldl_append, List.foldl_cons, List.foldl_nil, List.foldl_cons,
        List.foldl_nil]
      exact ⟨ih.1.note ih.2 hcap k, length_touch _ _⟩
  rw [← foldl_touch hcap]
  exact hrun.1

/-- A key is in the table if it was noted, and fewer others than there is room for since then. -/
theorem contains_foldl_iff (hcap : 0 < cap) (l : List κ) (k : κ) :
    (l.foldl (note cap) empty).contains k = true ↔
      ∃ before after, l = before ++ k :: after ∧ k ∉ after ∧ after.dedup.length < cap := by
  rw [(lists_foldl hcap l).contains_iff, mem_take_newest]

end Noted

end Lib
