import Mathlib.Data.Finset.Card
import Mathlib.Data.List.Basic
import ThinkWatch.Lib.Run
import ThinkWatch.Lib.Slots
import ThinkWatch.Rbac.Handlers

/-!
# The cap on memberships

`add_member` and `remove_member` of `handlers/teams.rs` with the statements of
`services/team_repository.rs`, at the granularity at which Postgres interleaves them under READ
COMMITTED. A statement takes its snapshot of the committed rows when it starts; it waits for what
others have written to its key and not committed; its own rows are seen once it commits. The checks
before the statement can only make a request refuse, and any statement can fail and be rolled back.
-/

namespace ThinkWatch.Rbac.Membership

open Lib

/-- A row of `team_members`, with the request that inserted it. -/
structure Row where
  userId : Uuid
  teamId : Uuid
  addedBy : Option Nat
deriving DecidableEq, Repr

def Row.is (user team : Uuid) (row : Row) : Bool := row.userId = user ∧ row.teamId = team

inductive Op where
  | add (user team : Uuid)
  | remove (user team : Uuid)
deriving DecidableEq, Repr

/-- `inserting` has found room and `deleting` its row; the others of the two have written. -/
inductive Phase where
  | checking
  | inserting
  | inserted
  | asking
  | deleting (row : Row)
  | deleted (row : Row)
  | succeeded
  | refused (e : AppError)
deriving DecidableEq, Repr

def Phase.isOver : Phase → Bool
  | succeeded | refused _ => true
  | _ => false

structure Request where
  op : Op
  phase : Phase
deriving DecidableEq, Repr

/-- A write to the key that has not been committed. -/
def Request.holds (user team : Uuid) : Request → Bool
  | ⟨.add u t, .inserted⟩ => u = user ∧ t = team
  | ⟨_, .deleted row⟩ => row.is user team
  | _ => false

/-- `gained` keeps every row that a request has committed. -/
structure State where
  rows : List Row
  requests : Slots Request
  gained : List Row

inductive Event where
  | arrive (op : Op)
  | fail (i : Nat) (e : AppError)
  | start (i : Nat)
  | write (i : Nat)
  | commit (i : Nat)
  | ask (i : Nat)
deriving DecidableEq, Repr

namespace State

def start (rows : List Row) : State := ⟨rows, [], []⟩

def move (s : State) (i : Nat) (op : Op) (phase : Phase) : State :=
  { s with requests := s.requests.put i (some ⟨op, phase⟩) }

/-- The insert of request `i` commits. -/
def join (s : State) (i : Nat) (user team : Uuid) : State :=
  { s.move i (.add user team) .succeeded with
    rows := s.rows ++ [⟨user, team, some i⟩]
    gained := s.gained ++ [⟨user, team, some i⟩] }

/-- `SELECT COUNT(*) FROM team_members WHERE user_id = $1`. -/
def count (s : State) (user : Uuid) : Nat := (s.rows.filter (·.userId = user)).length

def isMember (s : State) (user team : Uuid) : Bool := s.rows.any (·.is user team)

/-- Another request has written to the key and not committed. -/
def isLocked (s : State) (user team : Uuid) : Bool :=
  s.requests.any fun r => r.any (Request.holds user team)

def memberNotFound : AppError := .notFound "Member not found"

def step (max : Nat) (s : State) : Event → Option State
  | .arrive op => some { s with requests := s.requests.add ⟨op, .checking⟩ }
  | .fail i e =>
    match s.requests.get i with
    | some r => if r.phase.isOver then none else some (s.move i r.op (.refused e))
    | none => none
  | .start i =>
    match s.requests.get i with
    | some ⟨.add user team, .checking⟩ =>
      some (s.move i (.add user team) (if s.count user < max then .inserting else .asking))
    | some ⟨.remove user team, .checking⟩ =>
      some (s.move i (.remove user team)
        (match s.rows.find? (·.is user team) with
        | some row => .deleting row
        | none => .refused memberNotFound))
    | _ => none
  | .write i =>
    match s.requests.get i with
    | some ⟨.add user team, .inserting⟩ =>
      if s.isLocked user team then none
      -- `ON CONFLICT DO NOTHING`
      else some (s.move i (.add user team) (if s.isMember user team then .asking else .inserted))
    | some ⟨.remove user team, .deleting row⟩ =>
      if s.requests.any fun r => r.any (·.phase = .deleted row) then none
      else
        some (s.move i (.remove user team)
          (if row ∈ s.rows then .deleted row else .refused memberNotFound))
    | _ => none
  | .commit i =>
    match s.requests.get i with
    | some ⟨.add user team, .inserted⟩ => some (s.join i user team)
    | some ⟨.remove user team, .deleted row⟩ =>
      some { s.move i (.remove user team) .succeeded with rows := s.rows.filter (· ≠ row) }
    | _ => none
  | .ask i =>
    match s.requests.get i with
    | some ⟨.add user team, .asking⟩ =>
      some (s.move i (.add user team)
        (if s.isMember user team then .succeeded
        else .refused (.badRequest s!"User already belongs to {max} teams (maximum)")))
    | _ => none

/-- The teams the user is in. -/
def teamsOf (s : State) (user : Uuid) : List Uuid :=
  (s.rows.filter (·.userId = user)).map Row.teamId

end State

/-! ## The condition -/

/-- The team that an insert has found room for and not committed. -/
def Request.pending (user : Uuid) : Request → Option Uuid
  | ⟨.add u t, .inserting⟩ | ⟨.add u t, .inserted⟩ => if u = user then some t else none
  | _ => none

/-- The teams the user is in, or may be once all inserts have committed. -/
def State.claimed (s : State) (user : Uuid) : Finset Uuid :=
  (s.teamsOf user ++ s.requests.filterMap fun r => r.bind (Request.pending user)).toFinset

/--
When an insert starts and finds the user below the maximum, the maximum has room for its team beside
those the user is in and those of inserts that have not committed.
-/
def State.HasRoom (max : Nat) (s : State) : Op → Prop
  | .add user team => s.count user < max → (insert team (s.claimed user)).card ≤ max
  | .remove _ _ => True

instance (max : Nat) (s : State) : DecidablePred (s.HasRoom max)
  | .add user team =>
    inferInstanceAs (Decidable (s.count user < max → (insert team (s.claimed user)).card ≤ max))
  | .remove _ _ => isTrue trivial

/-- The condition on a step. -/
def Room (max : Nat) (s : State) : Event → Prop
  | .start i => ∀ r ∈ s.requests.get i, s.HasRoom max r.op
  | _ => True

instance (max : Nat) (s : State) : ∀ e, Decidable (Room max s e)
  | .start i => inferInstanceAs (Decidable (∀ r ∈ s.requests.get i, s.HasRoom max r.op))
  | .arrive _ => isTrue trivial
  | .fail _ _ => isTrue trivial
  | .write _ => isTrue trivial
  | .commit _ => isTrue trivial
  | .ask _ => isTrue trivial

/-- A step that meets the condition. -/
def Next (max : Nat) (s : State) (e : Event) (s' : State) : Prop :=
  Room max s e ∧ s.step max e = some s'

/-! ## One step -/

/-- The ways a step can go. -/
inductive Moves (max : Nat) (s : State) : Event → State → Prop where
  | arrive (op : Op) :
      Moves max s (.arrive op) { s with requests := s.requests.add ⟨op, .checking⟩ }
  | start {user team : Uuid} {i : Nat} (hi : s.requests.get i = some ⟨.add user team, .checking⟩)
      (hcount : s.count user < max) :
      Moves max s (.start i) (s.move i (.add user team) .inserting)
  | move {e : Event} {i : Nat} {op : Op} {phase phase' : Phase}
      (hi : s.requests.get i = some ⟨op, phase⟩) (hopen : phase.isOver = false)
      (hpending : ∀ user, Request.pending user ⟨op, phase'⟩ = none ∨
        Request.pending user ⟨op, phase'⟩ = Request.pending user ⟨op, phase⟩)
      (hdeleted : ∀ row, phase' = .deleted row → row ∈ s.rows ∧
        ∀ j r, s.requests.get j = some r → r.phase ≠ .deleted row) :
      Moves max s e (s.move i op phase')
  | join {user team : Uuid} {i : Nat}
      (hi : s.requests.get i = some ⟨.add user team, .inserted⟩) :
      Moves max s (.commit i) (s.join i user team)
  | leave {user team : Uuid} {i : Nat} {row : Row}
      (hi : s.requests.get i = some ⟨.remove user team, .deleted row⟩) :
      Moves max s (.commit i)
        { s.move i (.remove user team) .succeeded with rows := s.rows.filter (· ≠ row) }

variable {max : Nat} {s s' : State} {e : Event} {user team : Uuid}

theorem pending_ite {c : Prop} [Decidable c] {op : Op} {phase phase₁ phase₂ : Phase}
    (h₁ : ∀ user, Request.pending user ⟨op, phase₁⟩ = none ∨
      Request.pending user ⟨op, phase₁⟩ = Request.pending user ⟨op, phase⟩)
    (h₂ : ∀ user, Request.pending user ⟨op, phase₂⟩ = none ∨
      Request.pending user ⟨op, phase₂⟩ = Request.pending user ⟨op, phase⟩) (user : Uuid) :
    Request.pending user ⟨op, if c then phase₁ else phase₂⟩ = none ∨
      Request.pending user ⟨op, if c then phase₁ else phase₂⟩ =
        Request.pending user ⟨op, phase⟩ := by
  split
  · exact h₁ user
  · exact h₂ user

/-- A removal is no insert. -/
theorem pending_remove (u user team : Uuid) (phase : Phase) :
    Request.pending u ⟨.remove user team, phase⟩ = none := by
  cases phase <;> rfl

theorem step_moves (h : s.step max e = some s') : Moves max s e s' := by
  cases e with
  | arrive op =>
    obtain rfl := Option.some.inj h
    exact .arrive op
  | fail i e =>
    simp only [State.step] at h
    split at h
    · next r hi =>
      split at h
      · cases h
      · next hopen =>
        obtain rfl := Option.some.inj h
        refine .move hi (Bool.eq_false_iff.mpr hopen) (fun user => Or.inl ?_) nofun
        cases r.op <;> rfl
    · cases h
  | start i =>
    simp only [State.step] at h
    split at h
    · next user team hi =>
      obtain rfl := Option.some.inj h
      split
      · next hcount => exact .start hi hcount
      · exact .move hi rfl (fun _ => Or.inl rfl) nofun
    · next user team hi =>
      obtain rfl := Option.some.inj h
      refine .move hi rfl (fun u => Or.inl (pending_remove u user team _)) fun row hrow => ?_
      split at hrow <;> cases hrow
    · cases h
  | write i =>
    simp only [State.step] at h
    split at h
    · next user team hi =>
      split at h
      · cases h
      · obtain rfl := Option.some.inj h
        refine .move hi rfl (pending_ite (fun _ => Or.inl rfl) fun _ => Or.inr rfl)
          fun row hrow => ?_
        split at hrow <;> cases hrow
    · next user team row hi =>
      split at h
      · cases h
      · next hfree =>
        obtain rfl := Option.some.inj h
        refine .move hi rfl (fun u => Or.inl (pending_remove u user team _)) fun row' hrow' => ?_
        split at hrow'
        · next hrow =>
          obtain rfl := Phase.deleted.inj hrow'
          refine ⟨hrow, fun j r hj hr => hfree ?_⟩
          exact List.any_eq_true.mpr ⟨some r, Slots.mem_of_get hj, by simpa using hr⟩
        · cases hrow'
    · cases h
  | commit i =>
    simp only [State.step] at h
    split at h
    · next user team hi =>
      obtain rfl := Option.some.inj h
      exact .join hi
    · next user team row hi =>
      obtain rfl := Option.some.inj h
      exact .leave hi
    · cases h
  | ask i =>
    simp only [State.step] at h
    split at h
    · next user team hi =>
      obtain rfl := Option.some.inj h
      refine .move hi rfl (pending_ite (fun _ => Or.inl rfl) fun _ => Or.inl rfl) fun row hrow => ?_
      split at hrow <;> cases hrow
    · cases h

/-! ## What the inserts may come to -/

theorem mem_teamsOf : team ∈ s.teamsOf user ↔
    ∃ row ∈ s.rows, row.userId = user ∧ row.teamId = team := by
  simp [State.teamsOf, and_assoc]

theorem mem_claimed : team ∈ s.claimed user ↔ team ∈ s.teamsOf user ∨
    ∃ i r, s.requests.get i = some r ∧ r.pending user = some team := by
  simp only [State.claimed, List.mem_toFinset, List.mem_append, List.mem_filterMap]
  refine or_congr Iff.rfl ⟨?_, ?_⟩
  · rintro ⟨o, ho, hpending⟩
    obtain ⟨r, rfl, hr⟩ := Option.bind_eq_some_iff.mp hpending
    obtain ⟨i, hi⟩ := Slots.exists_get_of_mem ho
    exact ⟨i, r, hi, hr⟩
  · rintro ⟨i, r, hi, hr⟩
    exact ⟨some r, Slots.mem_of_get hi, hr⟩

/-- Teams the user is in and teams of its inserts, after a step at request `i`. -/
theorem claimed_put {i : Nat} {r : Request} {teams : Finset Uuid}
    (hrequests : s'.requests = s.requests.put i (some r))
    (hrows : ∀ team ∈ s'.teamsOf user, team ∈ teams)
    (hr : ∀ team ∈ r.pending user, team ∈ teams) (hsub : s.claimed user ⊆ teams) :
    s'.claimed user ⊆ teams := by
  intro team hteam
  rcases mem_claimed.mp hteam with hin | ⟨j, r', hj, hpending⟩
  · exact hrows team hin
  · rw [hrequests] at hj
    rcases Slots.get_put_eq_some hj with heq | hj
    · obtain rfl := Option.some.inj heq
      exact hr team hpending
    · exact hsub (mem_claimed.mpr (Or.inr ⟨j, r', hj, hpending⟩))

/-- Only an insert that finds room adds to what the inserts may come to. -/
theorem Moves.claimed (h : Moves max s e s') (u : Uuid) :
    s'.claimed u ⊆ s.claimed u ∨
      ∃ i team, e = .start i ∧ s.requests.get i = some ⟨.add u team, .checking⟩ ∧
        s.count u < max ∧ s'.claimed u ⊆ insert team (s.claimed u) := by
  have hrows : ∀ team ∈ s.teamsOf u, team ∈ s.claimed u := fun team h => mem_claimed.mpr (Or.inl h)
  cases h with
  | arrive op =>
    refine Or.inl fun team hteam => ?_
    rcases mem_claimed.mp hteam with hin | ⟨j, r, hj, hpending⟩
    · exact hrows team hin
    · rcases Slots.get_add_eq_some hj with ⟨-, rfl⟩ | hj
      · cases op <;> cases hpending
      · exact mem_claimed.mpr (Or.inr ⟨j, r, hj, hpending⟩)
  | @start user team i hi hcount =>
    by_cases hu : user = u
    · subst hu
      refine Or.inr ⟨i, team, rfl, hi, hcount, claimed_put rfl ?_ ?_ (Finset.subset_insert _ _)⟩
      · exact fun t ht => Finset.mem_insert_of_mem (hrows t ht)
      · intro t ht
        simp only [Request.pending, if_true, Option.mem_def, Option.some.injEq] at ht
        exact ht ▸ Finset.mem_insert_self team _
    · refine Or.inl (claimed_put rfl hrows ?_ (Finset.Subset.refl _))
      simp [Request.pending, hu]
  | @move _ i op phase phase' hi hopen hpending hdeleted =>
    refine Or.inl (claimed_put rfl hrows (fun t ht => ?_) (Finset.Subset.refl _))
    rcases hpending u with hnone | hsame
    · rw [hnone] at ht
      cases ht
    · rw [hsame] at ht
      exact mem_claimed.mpr (Or.inr ⟨i, _, hi, ht⟩)
  | @join user team i hi =>
    refine Or.inl (claimed_put rfl (fun t ht => ?_) nofun (Finset.Subset.refl _))
    obtain ⟨row, hrow, hu, ht⟩ := mem_teamsOf.mp ht
    rcases List.mem_append.mp hrow with hrow | hnew
    · exact hrows t (mem_teamsOf.mpr ⟨row, hrow, hu, ht⟩)
    · obtain rfl := List.mem_singleton.mp hnew
      refine mem_claimed.mpr (Or.inr ⟨i, _, hi, ?_⟩)
      simp only at hu ht
      simp [Request.pending, hu, ht]
  | @leave user team i row hi =>
    refine Or.inl (claimed_put rfl (fun t ht => ?_) nofun (Finset.Subset.refl _))
    obtain ⟨row', hrow, hu, ht⟩ := mem_teamsOf.mp ht
    exact hrows t (mem_teamsOf.mpr ⟨row', (List.mem_filter.mp hrow).1, hu, ht⟩)

theorem Moves.claimed_subset (h : Moves max s e s') (he : ∀ i, e ≠ .start i) (u : Uuid) :
    s'.claimed u ⊆ s.claimed u := by
  rcases h.claimed u with hsub | ⟨i, _, rfl, -⟩
  · exact hsub
  · exact absurd rfl (he i)

/-! ## What requests have gained -/

/-- Rows come from the start or from requests that succeeded. -/
structure Sound (rows : List Row) (s : State) : Prop where
  rows : ∀ row ∈ s.rows, row ∈ rows ∨ row ∈ s.gained
  gained : ∀ row ∈ s.gained, ∃ i op, row.addedBy = some i ∧
    s.requests.get i = some ⟨op, .succeeded⟩

theorem sound_start (rows : List Row) : Sound rows (State.start rows) where
  rows _ := Or.inl
  gained := nofun

theorem gained_put {gained : List Row} {i : Nat} {r : Request} {x : Option Request}
    (hi : s.requests.get i = some r) (hopen : r.phase.isOver = false)
    (hgained : ∀ row ∈ gained, ∃ j op, row.addedBy = some j ∧
      s.requests.get j = some ⟨op, .succeeded⟩) :
    ∀ row ∈ gained, ∃ j op, row.addedBy = some j ∧
      (s.requests.put i x).get j = some ⟨op, .succeeded⟩ := by
  intro row hrow
  obtain ⟨j, op, hadded, hj⟩ := hgained row hrow
  refine ⟨j, op, hadded, (Slots.get_put_ne ?_ x).trans hj⟩
  rintro rfl
  obtain rfl := Option.some.inj (hi.symm.trans hj)
  cases hopen

theorem Sound.step {rows : List Row} (hs : Sound rows s) (h : Moves max s e s') :
    Sound rows s' := by
  cases h with
  | arrive op =>
    refine ⟨hs.rows, fun row hrow => ?_⟩
    obtain ⟨i, op', hadded, hi⟩ := hs.gained row hrow
    exact ⟨i, op', hadded, Slots.get_add_of_get hi _⟩
  | start hi hcount => exact ⟨hs.rows, gained_put hi rfl hs.gained⟩
  | move hi hopen hpending hdeleted => exact ⟨hs.rows, gained_put hi hopen hs.gained⟩
  | @join user team i hi =>
    refine ⟨fun row hrow => ?_, fun row hrow => ?_⟩
    · rcases List.mem_append.mp hrow with hrow | hnew
      · exact (hs.rows row hrow).imp_right (List.mem_append_left _)
      · exact Or.inr (List.mem_append_right _ hnew)
    · rcases List.mem_append.mp hrow with hrow | hnew
      · exact gained_put hi rfl hs.gained row hrow
      · obtain rfl := List.mem_singleton.mp hnew
        exact ⟨i, _, rfl, Slots.get_put_self hi _⟩
  | @leave user team i row hi =>
    refine ⟨fun row' hrow => hs.rows row' (List.mem_filter.mp hrow).1, ?_⟩
    exact gained_put hi rfl hs.gained

theorem sound_run {rows : List Row} {es : List Event}
    (h : Steps (fun s e s' => s.step max e = some s') (State.start rows) es s) : Sound rows s :=
  h.invariant (fun _ _ _ hs hstep => hs.step (step_moves hstep)) (sound_start rows)

/-! ## Under the condition -/

theorem claimed_start (rows : List Row) (user : Uuid) :
    (State.start rows).claimed user = ((State.start rows).teamsOf user).toFinset := by
  simp [State.claimed, State.start]

theorem teamsOf_subset_claimed (s : State) (user : Uuid) :
    (s.teamsOf user).toFinset ⊆ s.claimed user := fun _ hteam =>
  mem_claimed.mpr (Or.inl (List.mem_toFinset.mp hteam))

theorem card_claimed_step (hs : ∀ user, (s.claimed user).card ≤ max) (h : Next max s e s') :
    ∀ user, (s'.claimed user).card ≤ max := by
  intro user
  obtain ⟨hroom, hstep⟩ := h
  rcases (step_moves hstep).claimed user with hsub | ⟨i, team, rfl, hi, hcount, hsub⟩
  · exact (Finset.card_le_card hsub).trans (hs user)
  · exact (Finset.card_le_card hsub).trans (hroom _ hi hcount)

/-- An insert that no other of its user overlaps has room when its count says so. -/
theorem hasRoom_of_alone (hnone : ∀ i r, s.requests.get i = some r → r.pending user = none) :
    s.HasRoom max (.add user team) := by
  intro hcount
  have hsub : s.claimed user ⊆ (s.teamsOf user).toFinset := by
    intro t ht
    rcases mem_claimed.mp ht with hin | ⟨i, r, hi, hpending⟩
    · exact List.mem_toFinset.mpr hin
    · rw [hnone i r hi] at hpending
      cases hpending
  have hlength : (s.teamsOf user).length = s.count user := List.length_map _
  calc (insert team (s.claimed user)).card
      ≤ (s.claimed user).card + 1 := Finset.card_insert_le team _
    _ ≤ (s.teamsOf user).toFinset.card + 1 := Nat.add_le_add_right (Finset.card_le_card hsub) 1
    _ ≤ (s.teamsOf user).length + 1 := Nat.add_le_add_right (List.toFinset_card_le _) 1
    _ ≤ max := by omega

/-! ## The condition is exact -/

/-- Rows that are deleted and not committed are there, each for one request. -/
structure Deleting (s : State) : Prop where
  there : ∀ j op row, s.requests.get j = some ⟨op, .deleted row⟩ → row ∈ s.rows
  once : ∀ j k op op' row, s.requests.get j = some ⟨op, .deleted row⟩ →
    s.requests.get k = some ⟨op', .deleted row⟩ → j = k

theorem Deleting.put (hs : Deleting s) {i : Nat} {op : Op} {phase : Phase}
    (hphase : ∀ row, phase = .deleted row → row ∈ s.rows ∧
      ∀ j r, s.requests.get j = some r → r.phase ≠ .deleted row)
    (hrequests : s'.requests = s.requests.put i (some ⟨op, phase⟩))
    (hrows : ∀ j op row, j ≠ i → s.requests.get j = some ⟨op, .deleted row⟩ →
      row ∈ s.rows → row ∈ s'.rows)
    (hnew : ∀ row, phase = .deleted row → row ∈ s.rows → row ∈ s'.rows) : Deleting s' where
  there j op' row hj := by
    rw [hrequests] at hj
    rcases Slots.get_put_cases hj with ⟨-, heq⟩ | ⟨hne, hj⟩
    · obtain ⟨-, hdeleted⟩ := Request.mk.inj (Option.some.inj heq)
      exact hnew row hdeleted (hphase row hdeleted).1
    · exact hrows j op' row hne hj (hs.there j op' row hj)
  once j k op₁ op₂ row hj hk := by
    rw [hrequests] at hj hk
    rcases Slots.get_put_cases hj with ⟨hji, hnewj⟩ | ⟨-, hoj⟩
    · obtain ⟨-, hdeleted⟩ := Request.mk.inj (Option.some.inj hnewj)
      rcases Slots.get_put_cases hk with ⟨hki, -⟩ | ⟨-, hok⟩
      · exact hji.trans hki.symm
      · exact absurd rfl ((hphase row hdeleted).2 k _ hok)
    · rcases Slots.get_put_cases hk with ⟨-, hnewk⟩ | ⟨-, hok⟩
      · obtain ⟨-, hdeleted⟩ := Request.mk.inj (Option.some.inj hnewk)
        exact absurd rfl ((hphase row hdeleted).2 j _ hoj)
      · exact hs.once j k op₁ op₂ row hoj hok

theorem Deleting.step (hs : Deleting s) (h : Moves max s e s') : Deleting s' := by
  cases h with
  | arrive op =>
    refine ⟨fun j op' row hj => ?_, fun j k op₁ op₂ row hj hk => ?_⟩
    · rcases Slots.get_add_eq_some hj with ⟨-, heq⟩ | hj
      · cases heq
      · exact hs.there j op' row hj
    · rcases Slots.get_add_eq_some hj with ⟨-, heq⟩ | hj
      · cases heq
      · rcases Slots.get_add_eq_some hk with ⟨-, heq⟩ | hk
        · cases heq
        · exact hs.once j k op₁ op₂ row hj hk
  | start hi hcount =>
    exact hs.put (fun _ h => by cases h) rfl (fun _ _ _ _ _ h => h) fun _ h => by cases h
  | move hi hopen hpending hdeleted =>
    exact hs.put hdeleted rfl (fun _ _ _ _ _ h => h) fun _ _ h => h
  | join hi =>
    exact hs.put (fun _ h => by cases h) rfl (fun _ _ _ _ _ h => List.mem_append_left _ h)
      fun _ h => by cases h
  | @leave user team i row hi =>
    refine hs.put (fun _ h => by cases h) rfl (fun j op row' hne hj hrow => ?_)
      fun _ h => by cases h
    refine List.mem_filter.mpr ⟨hrow, decide_eq_true ?_⟩
    rintro rfl
    exact hne (hs.once j i op _ row' hj hi)

theorem deleting_run {rows : List Row} {es : List Event}
    (h : Steps (fun s e s' => s.step max e = some s') (State.start rows) es s) : Deleting s :=
  h.invariant (fun _ _ _ hs hstep => hs.step (step_moves hstep)) ⟨nofun, nofun⟩

theorem pending_eq_some {r : Request} (h : r.pending user = some team) :
    r = ⟨.add user team, .inserting⟩ ∨ r = ⟨.add user team, .inserted⟩ := by
  unfold Request.pending at h
  split at h
  · split at h
    · next hu => exact Or.inl (by rw [hu, Option.some.inj h])
    · cases h
  · split at h
    · next hu => exact Or.inr (by rw [hu, Option.some.inj h])
    · cases h
  · cases h

theorem mem_teamsOf_of_is {row : Row} (hrow : row ∈ s.rows) (h : row.is user team = true) :
    team ∈ s.teamsOf user := by
  obtain ⟨hu, ht⟩ : row.userId = user ∧ row.teamId = team := of_decide_eq_true h
  exact mem_teamsOf.mpr ⟨row, hrow, hu, ht⟩

theorem claimed_subset_put {i : Nat} {r r' : Request} (hi : s.requests.get i = some r)
    (hrequests : s'.requests = s.requests.put i (some r'))
    (hteams : s.teamsOf user ⊆ s'.teamsOf user)
    (hr : ∀ t ∈ r.pending user, t ∈ s'.claimed user) : s.claimed user ⊆ s'.claimed user := by
  intro t ht
  rcases mem_claimed.mp ht with hin | ⟨j, r₁, hj, hpending⟩
  · exact mem_claimed.mpr (Or.inl (hteams hin))
  · by_cases hji : j = i
    · subst hji
      obtain rfl := Option.some.inj (hi.symm.trans hj)
      exact hr t hpending
    · refine mem_claimed.mpr (Or.inr ⟨j, r₁, ?_, hpending⟩)
      rw [hrequests, Slots.get_put_ne hji, hj]

/-- An insert that has written can commit, and the user is in its team. -/
theorem commit_joins (max : Nat) {i : Nat}
    (hi : s.requests.get i = some ⟨.add user team, .inserted⟩) :
    ∃ s', s.step max (.commit i) = some s' ∧ s.claimed user ⊆ s'.claimed user ∧
      s.teamsOf user ⊆ s'.teamsOf user ∧ team ∈ s'.teamsOf user := by
  have hteams : s.teamsOf user ⊆ (s.join i user team).teamsOf user := by
    intro t ht
    obtain ⟨row, hrow, hu, ht⟩ := mem_teamsOf.mp ht
    exact mem_teamsOf.mpr ⟨row, List.mem_append_left _ hrow, hu, ht⟩
  have hnew : team ∈ (s.join i user team).teamsOf user :=
    mem_teamsOf.mpr ⟨⟨user, team, some i⟩, List.mem_append_right _ (List.mem_singleton_self _),
      rfl, rfl⟩
  refine ⟨s.join i user team, by simp only [State.step, hi],
    claimed_subset_put hi rfl hteams fun t ht => ?_, hteams, hnew⟩
  obtain rfl : team = t := by simpa [Request.pending] using ht
  exact mem_claimed.mpr (Or.inl hnew)

/-- An insert into a team the user is not in can write when no other has. -/
theorem write_inserts (max : Nat) (hs : Deleting s) {i : Nat}
    (hi : s.requests.get i = some ⟨.add user team, .inserting⟩) (hout : team ∉ s.teamsOf user)
    (hnone : ∀ j, s.requests.get j ≠ some ⟨.add user team, .inserted⟩) :
    s.step max (.write i) = some (s.move i (.add user team) .inserted) ∧
      s.claimed user ⊆ (s.move i (.add user team) .inserted).claimed user := by
  have hfree : s.isLocked user team = false := by
    rw [State.isLocked, List.any_eq_false]
    intro o ho hholds
    obtain ⟨r, rfl, hr⟩ := (Option.any_eq_true _ _).mp hholds
    obtain ⟨j, hj⟩ := Slots.exists_get_of_mem ho
    unfold Request.holds at hr
    split at hr
    · obtain ⟨rfl, rfl⟩ := of_decide_eq_true hr
      exact hnone j hj
    · next op row => exact hout (mem_teamsOf_of_is (hs.there j _ _ hj) hr)
    · cases hr
  have hmember : s.isMember user team = false := by
    rw [State.isMember, List.any_eq_false]
    exact fun row hrow his => hout (mem_teamsOf_of_is hrow his)
  refine ⟨by simp only [State.step, hi, hfree, hmember, Bool.false_eq_true, if_false], ?_⟩
  exact claimed_subset_put hi rfl (List.Subset.refl _) fun t ht =>
    mem_claimed.mpr (Or.inr ⟨i, _, Slots.get_put_self hi _, ht⟩)

/-- What an insert has found room for can come to be. -/
theorem exists_joined (max : Nat) (hs : Deleting s) (hteam : team ∈ s.claimed user)
    (hout : team ∉ s.teamsOf user) : ∃ es s',
    Steps (fun s e s' => s.step max e = some s') s es s' ∧ s.claimed user ⊆ s'.claimed user ∧
      s'.claimed user ⊆ s.claimed user ∧ s.teamsOf user ⊆ s'.teamsOf user ∧
      team ∈ s'.teamsOf user := by
  obtain ⟨i, r, hi, hpending⟩ := (mem_claimed.mp hteam).resolve_left hout
  by_cases hwritten : ∃ j, s.requests.get j = some ⟨.add user team, .inserted⟩
  · obtain ⟨j, hj⟩ := hwritten
    obtain ⟨s', hstep, hclaimed, hteams, hin⟩ := commit_joins max hj
    have hkept := (step_moves hstep).claimed_subset (fun _ h => by cases h) user
    exact ⟨_, s', .single hstep, hclaimed, hkept, hteams, hin⟩
  · rcases pending_eq_some hpending with rfl | rfl
    · obtain ⟨hwrite, hclaimed₁⟩ :=
        write_inserts max hs hi hout fun j hj => hwritten ⟨j, hj⟩
      obtain ⟨s', hstep, hclaimed, hteams, hin⟩ :=
        commit_joins max (s := s.move i (.add user team) .inserted) (Slots.get_put_self hi _)
      have hkept₁ := (step_moves hwrite).claimed_subset (fun _ h => by cases h) user
      have hkept := (step_moves hstep).claimed_subset (fun _ h => by cases h) user
      exact ⟨_, s', .cons hwrite (.single hstep), hclaimed₁.trans hclaimed, hkept.trans hkept₁,
        hteams, hin⟩
    · exact absurd ⟨i, hi⟩ hwritten

/-- All inserts of a user that have found room can commit, whatever the maximum is. -/
theorem exists_all_joined (max : Nat) (hs : Deleting s) (user : Uuid) : ∃ es s',
    Steps (fun s e s' => s.step max e = some s') s es s' ∧
      s.claimed user ⊆ (s'.teamsOf user).toFinset := by
  induction hn : (s.claimed user \ (s.teamsOf user).toFinset).card using Nat.strong_induction_on
    generalizing s with
  | _ n ih =>
    by_cases hall : s.claimed user ⊆ (s.teamsOf user).toFinset
    · exact ⟨[], s, .nil s, hall⟩
    · obtain ⟨team, hteam, hout⟩ := Finset.not_subset.mp hall
      rw [List.mem_toFinset] at hout
      obtain ⟨es, s₁, hsteps, hclaimed, hkept, hteams, hin⟩ :=
        exists_joined max hs hteam hout
      have hs₁ : Deleting s₁ :=
        hsteps.invariant (fun _ _ _ hs hstep => hs.step (step_moves hstep)) hs
      have hfewer : (s₁.claimed user \ (s₁.teamsOf user).toFinset).card < n := by
        rw [← hn]
        refine Finset.card_lt_card (Finset.ssubset_iff_of_subset ?_ |>.mpr ⟨team, ?_, ?_⟩)
        · intro t ht
          obtain ⟨htc, htt⟩ := Finset.mem_sdiff.mp ht
          refine Finset.mem_sdiff.mpr ⟨hkept htc, fun h => htt ?_⟩
          exact List.mem_toFinset.mpr (hteams (List.mem_toFinset.mp h))
        · exact Finset.mem_sdiff.mpr ⟨hteam, fun h => hout (List.mem_toFinset.mp h)⟩
        · exact fun h => (Finset.mem_sdiff.mp h).2 (List.mem_toFinset.mpr hin)
      obtain ⟨es', s', hsteps', hall'⟩ := ih _ hfewer hs₁ rfl
      exact ⟨es ++ es', s', hsteps.append hsteps', hclaimed.trans hall'⟩

/-- After an insert that had no room, the run can go on to where the user is in too many teams. -/
theorem exceeds_of_not_room {rows : List Row} {es : List Event}
    (h : Steps (fun s e s' => s.step max e = some s') (State.start rows) es s)
    (hstep : s.step max e = some s') (hroom : ¬ Room max s e) : ∃ es' s'' user,
    Steps (fun s e s' => s.step max e = some s') s' es' s'' ∧
      max < (s''.teamsOf user).toFinset.card := by
  have hs' : Deleting s' := (deleting_run h).step (step_moves hstep)
  cases e with
  | start i =>
    simp only [Room, not_forall] at hroom
    obtain ⟨⟨op, phase⟩, hi, hnot⟩ := hroom
    cases op with
    | remove user team => exact absurd trivial hnot
    | add user team =>
      simp only [State.HasRoom, not_forall, not_le] at hnot
      obtain ⟨hcount, hcard⟩ := hnot
      rw [Option.mem_def] at hi
      simp only [State.step, hi] at hstep
      cases phase with
      | checking =>
        simp only [hcount, if_true, Option.some.injEq] at hstep
        subst hstep
        obtain ⟨es', s'', hsteps, hall⟩ := exists_all_joined max hs' user
        refine ⟨es', s'', user, hsteps, hcard.trans_le (Finset.card_le_card ?_)⟩
        refine Finset.Subset.trans (Finset.insert_subset ?_ ?_) hall
        · exact mem_claimed.mpr (Or.inr ⟨i, _, Slots.get_put_self hi _, if_pos rfl⟩)
        · exact claimed_subset_put hi rfl (List.Subset.refl _) nofun
      | inserting => cases hstep
      | inserted => cases hstep
      | asking => cases hstep
      | deleting row => cases hstep
      | deleted row => cases hstep
      | succeeded => cases hstep
      | refused e => cases hstep
  | arrive op => exact absurd trivial hroom
  | fail i e => exact absurd trivial hroom
  | write i => exact absurd trivial hroom
  | commit i => exact absurd trivial hroom
  | ask i => exact absurd trivial hroom

/--
In every run a row that a request gained is that of a request that succeeded, never of one that was
refused. In every run whose steps meet the condition no user is in more teams than the maximum, and
after a step that does not meet it the run can go on to where one is.
-/
theorem membership_cap {rows : List Row}
    (hrows : ∀ user, ((State.start rows).teamsOf user).toFinset.card ≤ max) :
    (∀ es s, Steps (fun s e s' => s.step max e = some s') (State.start rows) es s →
      (∀ row ∈ s.rows, row ∈ rows ∨ row ∈ s.gained) ∧
      ∀ i op e, s.requests.get i = some ⟨op, .refused e⟩ →
        ∀ row ∈ s.gained, row.addedBy ≠ some i) ∧
    (∀ es s, Steps (Next max) (State.start rows) es s →
      ∀ user, (s.teamsOf user).toFinset.card ≤ max) ∧
    ∀ es s e s', Steps (fun s e s' => s.step max e = some s') (State.start rows) es s →
      s.step max e = some s' → ¬ Room max s e →
      ∃ es' s'' user, Steps (fun s e s' => s.step max e = some s') s' es' s'' ∧
        max < (s''.teamsOf user).toFinset.card := by
  refine ⟨fun es s h => ?_, fun es s h user => ?_, fun es s e s' h => exceeds_of_not_room h⟩
  · have hs := sound_run h
    refine ⟨hs.rows, fun i op e hi row hrow hadded => ?_⟩
    obtain ⟨j, op', hj, hsucceeded⟩ := hs.gained row hrow
    obtain rfl := Option.some.inj (hadded.symm.trans hj)
    cases hi.symm.trans hsucceeded
  · have hclaimed := h.invariant (I := fun s => ∀ user, (s.claimed user).card ≤ max)
      (fun _ _ _ => card_claimed_step) fun user => by
        rw [claimed_start]
        exact hrows user
    exact (Finset.card_le_card (teamsOf_subset_claimed s user)).trans (hclaimed user)


/-! ## Two inserts at once -/

/-- User 1 is in nine teams. -/
def nineTeams : List Row := (List.range 9).map fun t => ⟨1, t + 1, none⟩

theorem nineTeams_within (user : Uuid) :
    ((State.start nineTeams).teamsOf user).toFinset.card ≤ maxTeamsPerUser := by
  calc ((State.start nineTeams).teamsOf user).toFinset.card
      ≤ ((State.start nineTeams).teamsOf user).length := List.toFinset_card_le _
    _ = (nineTeams.filter (·.userId = user)).length := List.length_map _
    _ ≤ nineTeams.length := List.length_filter_le _ _
    _ ≤ maxTeamsPerUser := by decide

/-- The user is added to a tenth team, and then to an eleventh. -/
def oneByOne : List Event :=
  [.arrive (.add 1 10), .start 0, .write 0, .commit 0, .arrive (.add 1 11), .start 1, .ask 1]

/-- One after the other, the second add is refused and gains nothing. -/
theorem membership_cap_oneByOne : ∃ s op e,
    Steps (Next maxTeamsPerUser) (State.start nineTeams) oneByOne s ∧
    (s.teamsOf 1).toFinset.card ≤ maxTeamsPerUser ∧
    s.requests.get 1 = some ⟨op, .refused e⟩ ∧ ∀ row ∈ s.gained, row.addedBy ≠ some 1 := by
  have hrun : (oneByOne.foldlM (fun s e => if Room maxTeamsPerUser s e then
      s.step maxTeamsPerUser e else none) (State.start nineTeams)).map (fun s => s.requests.get 1) =
      some (some ⟨.add 1 11,
        .refused (.badRequest "User already belongs to 10 teams (maximum)")⟩) := by
    decide +kernel
  obtain ⟨s, hsteps, hrefused⟩ := Option.map_eq_some_iff.mp hrun
  have h : Steps (Next maxTeamsPerUser) (State.start nineTeams) oneByOne s :=
    .of_foldlM_if hsteps
  obtain ⟨hgained, hcap, -⟩ := membership_cap nineTeams_within
  exact ⟨s, _, _, h, hcap _ _ h 1, hrefused,
    (hgained _ _ (h.mono fun _ _ _ h => h.2)).2 1 _ _ hrefused⟩

/-- Both adds count nine teams before either commits. -/
def atOnce : List Event :=
  [.arrive (.add 1 10), .arrive (.add 1 11), .start 0, .start 1, .write 0, .write 1, .commit 0,
    .commit 1]

/-- The user is in eleven teams. -/
theorem cap_exceeded :
    (∀ user, ((State.start nineTeams).teamsOf user).toFinset.card ≤ maxTeamsPerUser) ∧
    ∃ s, Steps (fun s e s' => s.step maxTeamsPerUser e = some s') (State.start nineTeams) atOnce s ∧
      (s.teamsOf 1).toFinset.card = 11 ∧ maxTeamsPerUser < (s.teamsOf 1).toFinset.card := by
  have hrun : (atOnce.foldlM (State.step maxTeamsPerUser) (State.start nineTeams)).map
      (fun s => (s.teamsOf 1).toFinset.card) = some 11 := by
    decide +kernel
  obtain ⟨s, hsteps, hcard⟩ := Option.map_eq_some_iff.mp hrun
  exact ⟨nineTeams_within, s, .of_foldlM hsteps, hcard, by rw [hcard]; decide⟩

end ThinkWatch.Rbac.Membership
