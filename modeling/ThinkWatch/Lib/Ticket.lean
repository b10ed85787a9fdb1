import Mathlib.Data.List.Nodup
import ThinkWatch.Lib.Expiring

/-!
# Tickets

A ticket is put in a store under a key of its own, with a deadline, and is taken out by whoever
brings the key. `Accounts` says of every ticket in the store that it was issued and not yet taken:
each is taken once at most, in time, and with the value it was issued with.
-/

namespace Lib

/-- What holds of every entry, and of the one that is put, holds of every entry afterwards. -/
theorem Store.forall_put {κ ν : Type*} [DecidableEq κ] {P : Entry ν → Prop} {store : Store κ ν}
    {k : κ} {o : Option (Entry ν)} (hs : ∀ k e, store k = some e → P e)
    (ho : ∀ e, o = some e → P e) : ∀ k' e, store.put k o k' = some e → P e := by
  intro k' e he
  by_cases hk : k' = k
  · subst hk
    rw [Store.put_self] at he
    exact ho e he
  · rw [Store.put_ne _ hk] at he
    exact hs k' e he

/-- What a record of an issued ticket says of it. -/
structure Tickets (ρ κ ν : Type*) where
  key : ρ → κ
  value : ρ → ν
  deadline : ρ → Int

namespace Tickets

variable {ρ κ ν : Type*} {T : Tickets ρ κ ν} {store : Store κ ν}
  {issued : List ρ} {taken : List κ} {i j : ρ} {k : κ} {v : ν} {t ttl : Int}

/-- The store's tickets are those that were issued and not taken. -/
structure Accounts (T : Tickets ρ κ ν) (store : Store κ ν) (issued : List ρ) (taken : List κ) :
    Prop where
  keys : (issued.map T.key).Nodup
  stored : ∀ k e, store k = some e →
    k ∉ taken ∧ ∃ i ∈ issued, T.key i = k ∧ e = ⟨T.value i, some (T.deadline i)⟩
  once : taken.Nodup
  known : ∀ k ∈ taken, k ∈ issued.map T.key

namespace Accounts

theorem empty (T : Tickets ρ κ ν) : Accounts T Store.empty [] [] where
  keys := List.nodup_nil
  stored := nofun
  once := List.nodup_nil
  known := nofun

/-- A ticket is known by its key. -/
theorem eq_of_key (h : Accounts T store issued taken) (hi : i ∈ issued) (hj : j ∈ issued)
    (hkey : T.key i = T.key j) : i = j :=
  List.inj_on_of_nodup_map h.keys hi hj hkey

/-- What is read was issued, is in time, and has not been taken. -/
theorem of_get (h : Accounts T store issued taken) (hget : store.get t k = some v) :
    ∃ i ∈ issued, T.key i = k ∧ T.value i = v ∧ t ≤ T.deadline i ∧ k ∉ taken := by
  obtain ⟨e, he, hlive, hv⟩ := Store.get_eq_some.mp hget
  obtain ⟨htaken, i, hi, hkey, rfl⟩ := h.stored k e he
  exact ⟨i, hi, hkey, hv, of_decide_eq_true hlive, htaken⟩

variable [DecidableEq κ]

/-- A new ticket has a new key. -/
theorem issue (h : Accounts T store issued taken) (hfresh : T.key i ∉ issued.map T.key)
    (hdeadline : T.deadline i = t + ttl) :
    Accounts T (store.setEx t (T.key i) (T.value i) ttl) (i :: issued) taken where
  keys := List.nodup_cons.mpr ⟨hfresh, h.keys⟩
  stored := by
    intro k e he
    by_cases hk : k = T.key i
    · subst hk
      rw [Store.setEx, Store.put_self] at he
      obtain rfl := Option.some.inj he
      refine ⟨fun htaken => hfresh (h.known _ htaken), i, List.mem_cons_self, rfl, ?_⟩
      rw [hdeadline]
    · rw [Store.setEx, Store.put_ne _ hk] at he
      obtain ⟨htaken, j, hj, hkey⟩ := h.stored k e he
      exact ⟨htaken, j, List.mem_cons_of_mem _ hj, hkey⟩
  once := h.once
  known := fun k hk => List.mem_cons_of_mem _ (h.known k hk)

/-- A ticket that is read is taken out. -/
theorem take (h : Accounts T store issued taken) (hget : store.get t k = some v) :
    Accounts T (store.del k) issued (k :: taken) := by
  obtain ⟨i, hi, hkey, -, -, hnew⟩ := h.of_get hget
  refine ⟨h.keys, ?_, List.nodup_cons.mpr ⟨hnew, h.once⟩, ?_⟩
  · intro k' e he
    by_cases hk : k' = k
    · subst hk
      rw [Store.del, Store.put_self] at he
      cases he
    · rw [Store.del, Store.put_ne _ hk] at he
      obtain ⟨htaken, hrest⟩ := h.stored k' e he
      exact ⟨fun hmem => (List.mem_cons.mp hmem).elim hk htaken, hrest⟩
  · intro k' hk'
    rcases List.mem_cons.mp hk' with rfl | hk'
    · exact hkey ▸ List.mem_map_of_mem hi
    · exact h.known k' hk'

/-- A ticket that is not there any more may be dropped. -/
theorem drop (h : Accounts T store issued taken) (k : κ) :
    Accounts T (store.del k) issued taken where
  keys := h.keys
  stored := by
    intro k' e he
    by_cases hk : k' = k
    · subst hk
      rw [Store.del, Store.put_self] at he
      cases he
    · rw [Store.del, Store.put_ne _ hk] at he
      exact h.stored k' e he
  once := h.once
  known := h.known

end Accounts

end Tickets

end Lib
