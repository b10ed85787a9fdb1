import Mathlib.Data.List.Perm.Basic
import Mathlib.Tactic.Common

/-!
# Sorted sets

A Redis sorted set: members with integer scores, each member once, kept by score. Members of
one score stand in an order of their own, `before`, about which nothing is assumed.

The removals split a set into what stays and what goes (`remRangeByScore_perm`,
`remRangeByRank_perm`); those of a rank range go from the low end (`le_of_remRangeByRank`).
-/

namespace Lib

/-- Members with their scores, lowest score first. -/
structure ZSet (κ : Type*) where
  entries : List (κ × Int)
  nodup : (entries.map Prod.fst).Nodup
  sorted : entries.Pairwise fun a b => a.2 ≤ b.2

namespace ZSet

variable {κ : Type*}

def empty : ZSet κ := ⟨[], List.nodup_nil, List.Pairwise.nil⟩

/-- `ZCARD key`. -/
def card (z : ZSet κ) : Nat := z.entries.length

/-- `ZRANGEBYSCORE key lo +inf`, with the scores. -/
def rangeByScore (z : ZSet κ) (lo : Int) : List (κ × Int) :=
  z.entries.filter fun e => decide (lo ≤ e.2)

/-- `ZREMRANGEBYSCORE key -inf hi`. -/
def remRangeByScore (z : ZSet κ) (hi : Int) : ZSet κ where
  entries := z.entries.filter fun e => decide (hi < e.2)
  nodup := z.nodup.sublist (List.filter_sublist.map _)
  sorted := z.sorted.sublist List.filter_sublist

/-- `ZREMRANGEBYRANK key 0 (n - 1)`. -/
def remRangeByRank (z : ZSet κ) (n : Nat) : ZSet κ where
  entries := z.entries.drop n
  nodup := z.nodup.sublist ((List.drop_sublist n _).map _)
  sorted := z.sorted.sublist (List.drop_sublist n _)

/-- Insertion by score, and by `before` within one score. -/
def insertEntry (before : κ → κ → Bool) (e : κ × Int) : List (κ × Int) → List (κ × Int)
  | [] => [e]
  | f :: l =>
    if e.2 < f.2 ∨ (e.2 = f.2 ∧ before e.1 f.1) then e :: f :: l
    else f :: insertEntry before e l

theorem insertEntry_perm (before : κ → κ → Bool) (e : κ × Int) (l : List (κ × Int)) :
    (insertEntry before e l).Perm (e :: l) := by
  induction l with
  | nil => exact List.Perm.refl _
  | cons f l ih =>
    unfold insertEntry
    split
    · exact List.Perm.refl _
    · exact (ih.cons f).trans (List.Perm.swap e f l)

theorem insertEntry_sorted {before : κ → κ → Bool} {e : κ × Int} {l : List (κ × Int)}
    (h : l.Pairwise fun a b => a.2 ≤ b.2) :
    (insertEntry before e l).Pairwise fun a b => a.2 ≤ b.2 := by
  induction l with
  | nil => exact List.pairwise_singleton _ _
  | cons f l ih =>
    rw [List.pairwise_cons] at h
    unfold insertEntry
    split
    next hlt =>
      have hef : e.2 ≤ f.2 := by omega
      refine List.pairwise_cons.mpr ⟨fun b hb => ?_, List.pairwise_cons.mpr h⟩
      rcases List.mem_cons.mp hb with rfl | hb
      · exact hef
      · exact Int.le_trans hef (h.1 b hb)
    next hnlt =>
      have hfe : f.2 ≤ e.2 := by omega
      refine List.pairwise_cons.mpr ⟨fun b hb => ?_, ih h.2⟩
      rcases List.mem_cons.mp ((insertEntry_perm before e l).mem_iff.mp hb) with rfl | hb
      · exact hfe
      · exact h.1 b hb

variable [DecidableEq κ]

/-- The set without a member. -/
def erase (z : ZSet κ) (k : κ) : ZSet κ where
  entries := z.entries.filter fun e => decide (e.1 ≠ k)
  nodup := z.nodup.sublist (List.filter_sublist.map _)
  sorted := z.sorted.sublist List.filter_sublist

/-- `ZADD key score member`: a member that is there gets the new score. -/
def add (before : κ → κ → Bool) (z : ZSet κ) (k : κ) (score : Int) : ZSet κ where
  entries := insertEntry before (k, score) (z.erase k).entries
  nodup := by
    have hperm := (insertEntry_perm before (k, score) (z.erase k).entries).map Prod.fst
    rw [hperm.nodup_iff, List.map_cons, List.nodup_cons]
    refine ⟨fun hk => ?_, (z.erase k).nodup⟩
    obtain ⟨e, he, rfl⟩ := List.mem_map.mp hk
    exact of_decide_eq_true (List.mem_filter.mp he).2 rfl
  sorted := insertEntry_sorted (z.erase k).sorted

/-! ## What the commands keep and drop -/

omit [DecidableEq κ] in
theorem remRangeByScore_perm (z : ZSet κ) (hi : Int) :
    z.entries.Perm ((z.remRangeByScore hi).entries ++
      z.entries.filter fun e => !decide (hi < e.2)) :=
  (List.filter_append_perm _ _).symm

omit [DecidableEq κ] in
theorem remRangeByRank_perm (z : ZSet κ) (n : Nat) :
    z.entries.Perm ((z.remRangeByRank n).entries ++ z.entries.take n) := by
  have h : z.entries.Perm (z.entries.take n ++ z.entries.drop n) := by
    rw [List.take_append_drop]
  exact h.trans List.perm_append_comm

omit [DecidableEq κ] in
/-- What goes by rank has no higher score than what stays. -/
theorem le_of_remRangeByRank {z : ZSet κ} {n : Nat} {e f : κ × Int} (he : e ∈ z.entries.take n)
    (hf : f ∈ (z.remRangeByRank n).entries) : e.2 ≤ f.2 := by
  have h := z.sorted
  rw [← List.take_append_drop n z.entries, List.pairwise_append] at h
  exact h.2.2 e he f hf

omit [DecidableEq κ] in
theorem card_remRangeByRank (z : ZSet κ) (n : Nat) : (z.remRangeByRank n).card = z.card - n :=
  List.length_drop

/-- A member that is not there is added. -/
theorem add_perm {before : κ → κ → Bool} {z : ZSet κ} {k : κ} {score : Int}
    (h : k ∉ z.entries.map Prod.fst) :
    (z.add before k score).entries.Perm ((k, score) :: z.entries) := by
  have herase : (z.erase k).entries = z.entries := by
    refine List.filter_eq_self.mpr fun e he => decide_eq_true fun hk => ?_
    exact h (hk ▸ List.mem_map_of_mem he)
  change (insertEntry before (k, score) (z.erase k).entries).Perm _
  rw [herase]
  exact insertEntry_perm before (k, score) z.entries

/-! ## A capped window over a log

A log grows by entries whose scores are times, and a set is kept of it: entries leave the set
when they are older than the window, and the oldest of them when it is over its cap. -/

section Window

omit [DecidableEq κ]

variable {cap : Nat} {width now : Int} {log kept : List (κ × Int)} {x e : κ × Int}

/-- The entry has left the window of a later one, or there are more than `cap` no older. -/
def Gone (cap : Nat) (width : Int) (log : List (κ × Int)) (x : κ × Int) : Prop :=
  (∃ y ∈ log, x.2 ≤ y.2 - width) ∨ cap < log.countP fun y => decide (x.2 ≤ y.2)

/-- The entries kept are those of the log, but for some that are gone. -/
def Tracks (cap : Nat) (width : Int) (log kept : List (κ × Int)) : Prop :=
  ∃ missing, log.Perm (kept ++ missing) ∧ ∀ x ∈ missing, Gone cap width log x

theorem Gone.cons (h : Gone cap width log x) (e : κ × Int) : Gone cap width (e :: log) x := by
  rcases h with ⟨y, hy, hle⟩ | h
  · exact .inl ⟨y, List.mem_cons_of_mem _ hy, hle⟩
  · exact .inr (Nat.lt_of_lt_of_le h (List.countP_cons ▸ Nat.le_add_right _ _))

theorem Tracks.nil : Tracks cap width ([] : List (κ × Int)) [] :=
  ⟨[], List.Perm.refl _, fun _ hx => absurd hx List.not_mem_nil⟩

/-- More entries may go, if they are gone. -/
theorem Tracks.remove {rest removed : List (κ × Int)} (h : Tracks cap width log kept)
    (hperm : kept.Perm (rest ++ removed)) (hgone : ∀ x ∈ removed, Gone cap width log x) :
    Tracks cap width log rest := by
  obtain ⟨missing, hlog, hmiss⟩ := h
  refine ⟨removed ++ missing, ?_, fun x hx => ?_⟩
  · rw [← List.append_assoc]
    exact hlog.trans (hperm.append_right missing)
  · exact (List.mem_append.mp hx).elim (hgone x) (hmiss x)

/-- The log and the set grow by one entry. -/
theorem Tracks.add (h : Tracks cap width log kept) (e : κ × Int) :
    Tracks cap width (e :: log) (e :: kept) := by
  obtain ⟨missing, hlog, hmiss⟩ := h
  exact ⟨missing, hlog.cons e, fun x hx => (hmiss x hx).cons e⟩

theorem Tracks.perm {kept' : List (κ × Int)} (h : Tracks cap width log kept)
    (hp : kept.Perm kept') : Tracks cap width log kept' := by
  obtain ⟨missing, hlog, hmiss⟩ := h
  exact ⟨missing, hlog.trans (hp.append_right missing), hmiss⟩

/-- What is trimmed by rank leaves `cap` entries that are no older. -/
theorem Tracks.trim {z : ZSet κ} (h : Tracks cap width log (e :: z.entries)) :
    Tracks cap width log (e :: (z.remRangeByRank (z.card - cap)).entries) := by
  refine h.remove ((remRangeByRank_perm z _).cons e) fun x hx => .inr ?_
  obtain ⟨missing, hlog, -⟩ := h
  have hpos : 0 < z.card - cap := by
    by_contra hle
    rw [Nat.eq_zero_of_not_pos hle] at hx
    simp at hx
  -- all that stays is no older than `x`, and `x` itself was there
  have hstay : (z.remRangeByRank (z.card - cap)).entries.countP
      (fun y => decide (x.2 ≤ y.2)) = cap := by
    rw [List.countP_eq_length.mpr fun y hy => decide_eq_true (le_of_remRangeByRank hx hy)]
    have hcard := card_remRangeByRank z (z.card - cap)
    unfold card at hcard hpos ⊢
    omega
  have hself : 0 < (z.entries.take (z.card - cap)).countP fun y => decide (x.2 ≤ y.2) :=
    List.countP_pos_iff.mpr ⟨x, hx, decide_eq_true (Int.le_refl _)⟩
  have hz := (remRangeByRank_perm z (z.card - cap)).countP_eq fun y => decide (x.2 ≤ y.2)
  rw [hlog.countP_eq, List.countP_append, List.countP_cons, hz, List.countP_append]
  omega

/-- While the log has at most `cap` entries in the window of `now`, all of them are kept. -/
theorem Tracks.window (h : Tracks cap width log kept) (hnow : ∀ y ∈ log, y.2 ≤ now)
    (hcap : (log.countP fun y => decide (now - width < y.2)) ≤ cap) :
    (log.filter fun y => decide (now - width < y.2)).Perm
      (kept.filter fun y => decide (now - width < y.2)) := by
  obtain ⟨missing, hlog, hmiss⟩ := h
  have hnone : missing.filter (fun y => decide (now - width < y.2)) = [] := by
    refine List.filter_eq_nil_iff.mpr fun x hx hin => ?_
    have hlt : now - width < x.2 := of_decide_eq_true hin
    rcases hmiss x hx with ⟨y, hy, hle⟩ | hmany
    · have := hnow y hy
      omega
    · have hmono : (log.countP fun y => decide (x.2 ≤ y.2)) ≤
          log.countP fun y => decide (now - width < y.2) :=
        List.countP_mono_left fun y _ hy =>
          decide_eq_true (Int.lt_of_lt_of_le hlt (of_decide_eq_true hy))
      omega
  have hfilter := hlog.filter fun y => decide (now - width < y.2)
  rwa [List.filter_append, hnone, List.append_nil] at hfilter

end Window

end ZSet

end Lib
