import Mathlib.Order.Lattice
import ThinkWatch.Lib.Expiring

/-!
# A watermark that is forgotten

Under each key the greatest value accepted so far is recorded, for a time to live from its writing.
A value is accepted when nothing is recorded or when it is greater. While a value's record has not
run out, no value up to it is accepted.
-/

namespace Lib

variable {κ α : Type*} [DecidableEq κ] [LinearOrder α]

namespace Store

/-- Record `a` under `k`, unless a value no smaller is there; says whether it was recorded. -/
def raise (s : Store κ α) (t : Int) (k : κ) (a : α) (ttl : Int) : Store κ α × Bool :=
  match s.get t k with
  | some last => if a ≤ last then (s, false) else (s.setEx t k a ttl, true)
  | none => (s.setEx t k a ttl, true)

/-- What is recorded is greater than what was there. -/
theorem raise_true {s s' : Store κ α} {t ttl : Int} {k : κ} {a : α}
    (h : s.raise t k a ttl = (s', true)) :
    s' = s.setEx t k a ttl ∧ ∀ last, s.get t k = some last → last < a := by
  unfold raise at h
  split at h
  · next last hlast =>
    split at h
    · cases h
    · next hlt =>
      obtain ⟨rfl, -⟩ := Prod.mk.inj h
      refine ⟨rfl, fun v hv => ?_⟩
      rw [hlast] at hv
      obtain rfl := Option.some.inj hv
      exact lt_of_not_ge hlt
  · next hnone =>
    obtain ⟨rfl, -⟩ := Prod.mk.inj h
    exact ⟨rfl, fun v hv => by rw [hnone] at hv; cases hv⟩

/-- A value that is not accepted changes nothing. -/
theorem raise_false {s s' : Store κ α} {t ttl : Int} {k : κ} {a : α}
    (h : s.raise t k a ttl = (s', false)) : s' = s := by
  unfold raise at h
  split at h
  · split at h
    · exact (Prod.mk.inj h).1.symm
    · cases h
  · cases h

end Store

/-- A value that was accepted, and when. -/
structure Raised (κ α : Type*) where
  key : κ
  value : α
  time : Int

/-- What was accepted no longer than a time to live ago is still guarded. -/
def Guards (s : Store κ α) (clock ttl : Int) (past : List (Raised κ α)) : Prop :=
  ∀ r ∈ past, r.time ≤ clock ∧ (clock ≤ r.time + ttl →
    ∃ v d, s r.key = some ⟨v, some d⟩ ∧ r.value ≤ v ∧ r.time + ttl ≤ d)

variable {s s' : Store κ α} {clock t ttl : Int} {past : List (Raised κ α)} {k : κ} {a : α}

namespace Guards

omit [DecidableEq κ] in
theorem nil : Guards s clock ttl [] := nofun

omit [DecidableEq κ] in
/-- Time passes. -/
theorem tick (h : Guards s clock ttl past) (ht : clock ≤ t) : Guards s t ttl past := by
  intro r hr
  obtain ⟨hle, hguard⟩ := h r hr
  exact ⟨hle.trans ht, fun hin => hguard (ht.trans hin)⟩

/-- No value up to one that is still guarded is accepted. -/
theorem lt_of_raise (h : Guards s clock ttl past) (hraise : s.raise clock k a ttl = (s', true))
    {r : Raised κ α} (hr : r ∈ past) (hkey : r.key = k) (hin : clock ≤ r.time + ttl) :
    r.value < a := by
  obtain ⟨v, d, hentry, hle, hd⟩ := (h r hr).2 hin
  rw [hkey] at hentry
  exact hle.trans_lt ((Store.raise_true hraise).2 v
    (Store.get_of_le_deadline hentry (hin.trans hd)))

/-- A value is accepted. -/
theorem raise (h : Guards s clock ttl past)
    (hraise : s.raise clock k a ttl = (s', true)) :
    Guards s' clock ttl (past ++ [⟨k, a, clock⟩]) := by
  obtain ⟨rfl, -⟩ := Store.raise_true hraise
  intro r hr
  rcases List.mem_append.mp hr with hr | hr
  · obtain ⟨hle, hguard⟩ := h r hr
    refine ⟨hle, fun hin => ?_⟩
    by_cases hkey : r.key = k
    · rw [hkey]
      exact ⟨a, clock + ttl, Store.put_self _ _ _, (h.lt_of_raise hraise hr hkey hin).le,
        Int.add_le_add_right hle ttl⟩
    · obtain ⟨v, d, hentry, hrest⟩ := hguard hin
      exact ⟨v, d, (Store.put_ne _ hkey _).trans hentry, hrest⟩
  · obtain rfl := List.mem_singleton.mp hr
    exact ⟨le_rfl, fun _ => ⟨a, clock + ttl, Store.put_self _ _ _, le_rfl, le_rfl⟩⟩

/-- When every value that is accepted again is still guarded, none is. -/
theorem notMem_of_raise (h : Guards s clock ttl past)
    (hraise : s.raise clock k a ttl = (s', true))
    (htime : (∃ r ∈ past, r.key = k ∧ r.value = a) →
      ∃ r ∈ past, r.key = k ∧ a ≤ r.value ∧ clock ≤ r.time + ttl) :
    (k, a) ∉ past.map fun r => (r.key, r.value) := by
  intro hmem
  obtain ⟨r, hr, heq⟩ := List.mem_map.mp hmem
  obtain ⟨hkey, hvalue⟩ := Prod.mk.inj heq
  obtain ⟨r', hr', hkey', hle, hin⟩ := htime ⟨r, hr, hkey, hvalue⟩
  exact absurd (h.lt_of_raise hraise hr' hkey' hin) (not_lt_of_ge hle)

end Guards

end Lib
