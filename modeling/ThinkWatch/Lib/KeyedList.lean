import Mathlib.Data.List.Induction
import Mathlib.Data.List.Nodup
import Mathlib.Order.Bounds.Basic
import Mathlib.Tactic.Common

/-!
# Lists with one entry for each key

`puts` replaces entries of a list by others with the same key, one after the other; `minima` collects
the least value of each key. Both leave at most one entry for a key. `groups` puts the elements of a
list with one key together, the keys in order.
-/

namespace Lib

/-! ## Removing, and changing the values -/

section Lookup

variable {κ β γ : Type*} [DecidableEq κ] {key k : κ}

theorem lookup_filter_self (key : κ) (l : List (κ × β)) :
    (l.filter fun e => e.1 ≠ key).lookup key = none := by
  rw [List.lookup_eq_none_iff]
  intro e he
  have hne : e.1 ≠ key := of_decide_eq_true (List.mem_filter.mp he).2
  exact bne_iff_ne.mpr (Ne.symm hne)

theorem lookup_filter_ne (h : k ≠ key) (l : List (κ × β)) :
    (l.filter fun e => e.1 ≠ key).lookup k = l.lookup k := by
  induction l with
  | nil => rfl
  | cons e l ih =>
    obtain ⟨name, value⟩ := e
    by_cases hname : name = key
    · have hk : (k == name) = false := beq_eq_false_iff_ne.mpr (hname ▸ h)
      rw [List.lookup_cons, hk, ← ih]
      simp [hname]
    · have hkeep : ((name, value) :: l).filter (fun e => e.1 ≠ key) =
          (name, value) :: l.filter fun e => e.1 ≠ key := by
        simp [hname]
      rw [hkeep, List.lookup_cons, List.lookup_cons, ih]

theorem lookup_map_snd (f : κ → β → γ) (l : List (κ × β)) (k : κ) :
    (l.map fun e => (e.1, f e.1 e.2)).lookup k = (l.lookup k).map (f k) := by
  induction l with
  | nil => rfl
  | cons e l ih =>
    rw [List.map_cons, List.lookup_cons, ← Prod.mk.eta (p := e), List.lookup_cons, ih]
    by_cases h : k = e.1
    · subst h
      simp
    · simp [beq_eq_false_iff_ne.mpr h]

end Lookup

/-! ## The first of its key -/

section First

variable {α κ : Type*} [DecidableEq κ] {key : α → κ} {l : List α}

def firstLike (key : α → κ) (l : List α) (x : α) : α := (l.find? fun y => key y = key x).getD x

/-- A list is its own first ones when it has one element for a key, however often. -/
theorem map_firstLike_iff :
    l.map (firstLike key l) = l ↔ ∀ x ∈ l, ∀ y ∈ l, key x = key y → x = y := by
  have hself : l.map (firstLike key l) = l ↔ ∀ x ∈ l, firstLike key l x = x := by
    conv_lhs => rhs; rw [← List.map_id l]
    exact List.map_inj_left
  rw [hself]
  constructor
  · intro h x hx y hy hkey
    rw [← h x hx, ← h y hy, firstLike, firstLike, hkey]
    cases hfind : l.find? fun z => decide (key z = key y) with
    | some z => rfl
    | none =>
      exact absurd (decide_eq_true rfl) (List.find?_eq_none.mp hfind y hy)
  · intro h x hx
    unfold firstLike
    cases hfind : l.find? fun y => decide (key y = key x) with
    | none => rfl
    | some y =>
      have hkey := List.find?_some hfind
      exact h y (List.mem_of_find?_eq_some hfind) x hx (of_decide_eq_true hkey)

variable {β : Type*} {R : α → β → Prop} {key' : β → κ} {l' : List β} {x : α} {y : β}

theorem find?_rel {p : α → Bool} {q : β → Bool} (h : List.Forall₂ R l l')
    (hpq : ∀ x y, R x y → p x = q y) : Option.Rel R (l.find? p) (l'.find? q) := by
  induction h with
  | nil => exact .none
  | @cons x y _ _ hxy _ ih =>
    rw [List.find?_cons, List.find?_cons, hpq x y hxy]
    split
    · exact .some hxy
    · exact ih

theorem firstLike_rel (h : List.Forall₂ R l l') (hkey : ∀ x y, R x y → key x = key' y)
    (hxy : R x y) : R (firstLike key l x) (firstLike key' l' y) := by
  have hfind : Option.Rel R (l.find? fun z => key z = key x) (l'.find? fun z => key' z = key' y) :=
    find?_rel h fun x' y' hxy' => by rw [hkey x' y' hxy', hkey x y hxy]
  unfold firstLike
  generalize l.find? _ = z at hfind ⊢
  generalize l'.find? _ = z' at hfind ⊢
  cases hfind with
  | some hzz => exact hzz
  | none => exact hxy

/-- Lists with the same keys are related again once each element is the first of its key. -/
theorem map_firstLike_rel (h : List.Forall₂ R l l') (hkey : ∀ x y, R x y → key x = key' y) :
    List.Forall₂ R (l.map (firstLike key l)) (l'.map (firstLike key' l')) := by
  rw [List.forall₂_map_left_iff, List.forall₂_map_right_iff]
  exact h.imp fun _ _ hxy => firstLike_rel h hkey hxy

end First

/-! ## Replacing -/

section Puts

variable {α κ : Type*} [DecidableEq κ] {key : α → κ} {x y : α} {new old : List α}

/-- The entries with the key of `x` make place for `x`. -/
def put (key : α → κ) (l : List α) (x : α) : List α := (l.filter fun y => key y ≠ key x) ++ [x]

def puts (key : α → κ) (new old : List α) : List α := new.foldl (put key) old

theorem lookup_put_self {β : Type*} (l : List (κ × β)) (k : κ) (v : β) :
    (put Prod.fst l (k, v)).lookup k = some v := by
  rw [put, List.lookup_append, lookup_filter_self]
  simp

theorem lookup_put_ne {β : Type*} {k k' : κ} (h : k' ≠ k) (l : List (κ × β)) (v : β) :
    (put Prod.fst l (k, v)).lookup k' = l.lookup k' := by
  have hlast : [(k, v)].lookup k' = none := by
    rw [List.lookup_cons, beq_eq_false_iff_ne.mpr h]
    rfl
  rw [put, List.lookup_append, lookup_filter_ne h, hlast, Option.or_none]

theorem mem_put : y ∈ put key old x ↔ y = x ∨ y ∈ old ∧ key y ≠ key x := by
  unfold put
  simp [or_comm]

theorem nodup_put (h : (old.map key).Nodup) : ((put key old x).map key).Nodup := by
  unfold put
  rw [List.map_append]
  refine List.nodup_append.mpr ⟨h.sublist (List.filter_sublist.map key), ?_, ?_⟩
  · exact List.nodup_singleton _
  · rintro k hk k' hk' rfl
    obtain ⟨y, hy, rfl⟩ := List.mem_map.mp hk
    exact of_decide_eq_true (List.mem_filter.mp hy).2 (List.mem_singleton.mp hk')

theorem nodup_puts (new : List α) (h : (old.map key).Nodup) :
    ((puts key new old).map key).Nodup := by
  induction new generalizing old with
  | nil => exact h
  | cons x new ih => exact ih (nodup_put h)

/-- The new entries, and the old ones whose keys they have not. -/
theorem mem_puts (h : (new.map key).Nodup) :
    y ∈ puts key new old ↔ y ∈ new ∨ y ∈ old ∧ key y ∉ new.map key := by
  induction new generalizing old with
  | nil => simp [puts]
  | cons x new ih =>
    obtain ⟨hx, hnew⟩ := List.nodup_cons.mp h
    show y ∈ puts key new (put key old x) ↔ _
    rw [ih hnew, mem_put, List.map_cons, List.mem_cons, List.mem_cons]
    constructor
    · rintro (hy | ⟨rfl | ⟨hy, hne⟩, hkey⟩)
      · exact Or.inl (Or.inr hy)
      · exact Or.inl (Or.inl rfl)
      · exact Or.inr ⟨hy, fun h => h.elim hne hkey⟩
    · rintro ((rfl | hy) | ⟨hy, hkey⟩)
      · exact Or.inr ⟨Or.inl rfl, hx⟩
      · exact Or.inl hy
      · exact Or.inr ⟨Or.inr ⟨hy, fun h => hkey (Or.inl h)⟩, fun h => hkey (Or.inr h)⟩

/-- A key that an entry has is that of this entry alone. -/
theorem length_filter_key {l : List α} (h : (l.map key).Nodup) (hx : x ∈ l) :
    (l.filter fun y => key y = key x).length = 1 := by
  induction l with
  | nil => cases hx
  | cons y l ih =>
    obtain ⟨hy, hl⟩ := List.nodup_cons.mp h
    rcases List.mem_cons.mp hx with rfl | hx
    · have hnone : (l.filter fun y => key y = key x) = [] := by
        refine List.filter_eq_nil_iff.mpr fun z hz heq => hy (List.mem_map.mpr ⟨z, hz, ?_⟩)
        exact of_decide_eq_true heq
      rw [List.filter_cons_of_pos (by simp), hnone]
      rfl
    · have hne : ¬ key y = key x := fun heq => hy (heq ▸ List.mem_map_of_mem hx)
      rw [List.filter_cons_of_neg (by simpa using hne), ih hl hx]

end Puts

/-! ## The least value of a key -/

section Minima

variable {κ ι : Type*} [DecidableEq κ] [LinearOrder ι] {k k' : κ} {n x : ι} {m l : List (κ × ι)}

/-- The value of `k` becomes `n` if that is less, or if there is none. -/
def lower (k : κ) (n : ι) : List (κ × ι) → List (κ × ι)
  | [] => [(k, n)]
  | e :: es => if e.1 = k then (k, if n < e.2 then n else e.2) :: es else e :: lower k n es

def minima (l : List (κ × ι)) : List (κ × ι) := l.foldl (fun m e => lower e.1 e.2 m) []

theorem keys_lower : (lower k n m).map Prod.fst =
    if k ∈ m.map Prod.fst then m.map Prod.fst else m.map Prod.fst ++ [k] := by
  induction m with
  | nil => rfl
  | cons e es ih =>
    unfold lower
    by_cases he : e.1 = k
    · rw [if_pos he, List.map_cons, List.map_cons, he, if_pos List.mem_cons_self]
    · rw [if_neg he, List.map_cons, List.map_cons, ih]
      by_cases hmem : k ∈ es.map Prod.fst
      · rw [if_pos hmem, if_pos (List.mem_cons_of_mem _ hmem)]
      · rw [if_neg hmem, if_neg fun h => (List.mem_cons.mp h).elim (fun h => he h.symm) hmem]
        rfl

theorem nodup_lower (h : (m.map Prod.fst).Nodup) : ((lower k n m).map Prod.fst).Nodup := by
  rw [keys_lower]
  split
  next => exact h
  next hk => exact List.nodup_append.mpr ⟨h, List.nodup_singleton k, by
    rintro a ha b hb rfl
    exact hk (List.mem_singleton.mp hb ▸ ha)⟩

/-- The other keys keep their values. -/
theorem mem_lower_ne (hne : k' ≠ k) : (k', x) ∈ lower k n m ↔ (k', x) ∈ m := by
  induction m with
  | nil => simp [lower, hne]
  | cons e es ih =>
    unfold lower
    split
    next he =>
      rw [List.mem_cons, List.mem_cons]
      have h₁ : (k', x) ≠ (k, if n < e.2 then n else e.2) := fun h => hne (congrArg Prod.fst h)
      have h₂ : (k', x) ≠ e := fun h => hne ((congrArg Prod.fst h).trans he)
      simp [h₁, h₂]
    next => rw [List.mem_cons, List.mem_cons, ih]

/-- The key itself has the least of its value and the new one. -/
theorem mem_lower_self (h : (m.map Prod.fst).Nodup) :
    (k, x) ∈ lower k n m ↔
      (∃ y, (k, y) ∈ m ∧ x = min n y) ∨ k ∉ m.map Prod.fst ∧ x = n := by
  induction m with
  | nil => simp [lower]
  | cons e es ih =>
    obtain ⟨he, hes⟩ := List.nodup_cons.mp h
    unfold lower
    by_cases hk : e.1 = k
    · obtain ⟨k', y⟩ := e
      obtain rfl : k' = k := hk
      have hfresh : ∀ z, (k', z) ∉ es := fun z hz => he (List.mem_map.mpr ⟨_, hz, rfl⟩)
      have hmin : (if n < y then n else y) = min n y := by
        rcases lt_or_ge n y with hlt | hle
        · rw [if_pos hlt, min_eq_left hlt.le]
        · rw [if_neg (not_lt.mpr hle), min_eq_right hle]
      rw [if_pos rfl, hmin]
      simp [hfresh]
    · have hne : ∀ z, (k, z) ≠ e := fun z hz => hk (congrArg Prod.fst hz).symm
      rw [if_neg hk, List.mem_cons, ih hes, List.map_cons, List.mem_cons]
      simp [hne, Ne.symm hk]

theorem minima_concat (l : List (κ × ι)) (e : κ × ι) :
    minima (l ++ [e]) = lower e.1 e.2 (minima l) := by
  unfold minima
  rw [List.foldl_append]
  rfl

theorem nodup_minima (l : List (κ × ι)) : ((minima l).map Prod.fst).Nodup := by
  induction l using List.reverseRecOn with
  | nil => exact List.nodup_nil
  | append_singleton l e ih =>
    rw [minima_concat]
    exact nodup_lower ih

theorem mem_keys_minima : k ∈ (minima l).map Prod.fst ↔ k ∈ l.map Prod.fst := by
  induction l using List.reverseRecOn with
  | nil => rfl
  | append_singleton l e ih =>
    rw [minima_concat, keys_lower, List.map_append, List.mem_append, ← ih]
    split
    next he =>
      refine ⟨Or.inl, fun h => h.elim id fun h => ?_⟩
      rw [List.mem_singleton.mp h]
      exact he
    next => exact List.mem_append

theorem mem_minima : (k, x) ∈ minima l ↔ IsLeast {y | (k, y) ∈ l} x := by
  induction l using List.reverseRecOn generalizing x with
  | nil => exact ⟨nofun, fun h => absurd h.1 List.not_mem_nil⟩
  | append_singleton l e ih =>
    obtain ⟨k', n⟩ := e
    rw [minima_concat]
    by_cases hk : k = k'
    · subst hk
      have hset : {y | (k, y) ∈ l ++ [(k, n)]} = insert n {y | (k, y) ∈ l} := by
        ext y
        simp [or_comm]
      rw [mem_lower_self (nodup_minima l), hset, mem_keys_minima]
      constructor
      · rintro (⟨y, hy, rfl⟩ | ⟨hnone, rfl⟩)
        · exact (ih.mp hy).insert n
        · refine ⟨Set.mem_insert _ _, ?_⟩
          rintro y (rfl | hy)
          · exact le_refl _
          · exact absurd (List.mem_map.mpr ⟨_, hy, rfl⟩) hnone
      · intro hleast
        by_cases hkeys : k ∈ l.map Prod.fst
        · obtain ⟨⟨_, y⟩, hy, rfl⟩ := List.mem_map.mp (mem_keys_minima.mpr hkeys)
          exact Or.inl ⟨y, hy, hleast.unique ((ih.mp hy).insert n)⟩
        · refine Or.inr ⟨hkeys, ?_⟩
          rcases hleast.1 with rfl | hx
          · rfl
          · exact absurd (List.mem_map.mpr ⟨_, hx, rfl⟩) hkeys
    · have hset : {y | (k, y) ∈ l ++ [(k', n)]} = {y | (k, y) ∈ l} := by
        ext y
        simp [hk]
      rw [mem_lower_ne hk, hset, ih]

end Minima

/-! ## Groups -/

section Groups

variable {α κ : Type*} [LinearOrder κ] {key : α → κ} {x : α} {m : List (κ × List α)} {l : List α}

/-- `x` goes to the end of its group. -/
def addTo (k : κ) (x : α) : List (κ × List α) → List (κ × List α)
  | [] => [(k, [x])]
  | g :: m =>
    if k < g.1 then (k, [x]) :: g :: m
    else if k = g.1 then (g.1, g.2 ++ [x]) :: m
    else g :: addTo k x m

def groups (key : α → κ) (l : List α) : List (κ × List α) :=
  l.foldl (fun m x => addTo (key x) x m) []

theorem flatMap_addTo_perm (k : κ) (x : α) (m : List (κ × List α)) :
    ((addTo k x m).flatMap Prod.snd).Perm (m.flatMap Prod.snd ++ [x]) := by
  induction m with
  | nil => exact .refl _
  | cons g m ih =>
    unfold addTo
    split
    next =>
      have hswap : ([x] ++ (g :: m).flatMap Prod.snd).Perm ((g :: m).flatMap Prod.snd ++ [x]) :=
        List.perm_append_comm
      exact hswap
    next =>
      split
      next =>
        rw [List.flatMap_cons, List.flatMap_cons, List.append_assoc, List.append_assoc]
        exact List.perm_append_comm.append_left g.2
      next =>
        rw [List.flatMap_cons, List.flatMap_cons, List.append_assoc]
        exact ih.append_left g.2

/-- Every element is in a group, as often as in the list. -/
theorem groups_perm (key : α → κ) (l : List α) :
    ((groups key l).flatMap Prod.snd).Perm l := by
  induction l using List.reverseRecOn with
  | nil => exact .refl _
  | append_singleton l x ih =>
    unfold groups at ih ⊢
    rw [List.foldl_concat]
    exact (flatMap_addTo_perm _ _ _).trans (ih.append_right [x])

theorem key_of_mem_addTo (h : ∀ g ∈ m, g.2 ≠ [] ∧ ∀ y ∈ g.2, key y = g.1) :
    ∀ g ∈ addTo (key x) x m, g.2 ≠ [] ∧ ∀ y ∈ g.2, key y = g.1 := by
  have hx : [x] ≠ [] ∧ ∀ y ∈ [x], key y = key x :=
    ⟨List.cons_ne_nil _ _, fun y hy => congrArg key (List.mem_singleton.mp hy)⟩
  induction m with
  | nil => exact List.forall_mem_singleton.mpr hx
  | cons g m ih =>
    obtain ⟨⟨hg, hkeys⟩, hm⟩ := List.forall_mem_cons.mp h
    unfold addTo
    split
    next => exact List.forall_mem_cons.mpr ⟨hx, h⟩
    next =>
      split
      next heq =>
        refine List.forall_mem_cons.mpr ⟨⟨List.append_ne_nil_of_left_ne_nil hg _, ?_⟩, hm⟩
        intro y hy
        rcases List.mem_append.mp hy with hy | hy
        · exact hkeys y hy
        · rw [List.mem_singleton.mp hy]
          exact heq
      next => exact List.forall_mem_cons.mpr ⟨⟨hg, hkeys⟩, ih hm⟩

/-- A group is not empty, and its elements have its key. -/
theorem key_of_mem_groups (key : α → κ) (l : List α) :
    ∀ g ∈ groups key l, g.2 ≠ [] ∧ ∀ y ∈ g.2, key y = g.1 := by
  induction l using List.reverseRecOn with
  | nil => exact nofun
  | append_singleton l x ih =>
    unfold groups at ih ⊢
    rw [List.foldl_concat]
    exact key_of_mem_addTo ih

end Groups

end Lib
