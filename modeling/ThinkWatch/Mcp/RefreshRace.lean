import ThinkWatch.Lib.Rows
import ThinkWatch.Mcp.Calls

/-!
# The refresh token that is presented

A call that waits for the mutex has read the row before, and re-reads it under the mutex. Whether
it refreshes is decided by the row as it is then, a row without an expiry counting as one that is
about to expire; the refresh token that it presents is the one it read first. So a refresh that
replaces the refresh token and leaves no expiry, or a short one, is followed by a second refresh
with the token that it replaced. In the runs in which that does not happen, every refresh token is
presented while it is stored.
-/

namespace ThinkWatch.Mcp

open Lib Policy

variable {β : Type} {db db' : Credentials β} {l l' : CredLocator} {row : CredentialRow β}

/-! ## The row of a locator -/

/-- A locator that names a row, and not a default. -/
def CredLocator.Concrete : CredLocator → Prop
  | .perUser _ _ label => label.isSome
  | .adminShared _ => True

/-- The primary key of `mcp_user_credentials`. -/
def Credentials.Keyed (db : Credentials β) : Prop :=
  ∀ a ∈ db.users, ∀ b ∈ db.users, a.serverId = b.serverId → a.userId = b.userId →
    a.accountLabel = b.accountLabel → a = b

namespace Credentials

theorem concrete_refreshLocator (h : db.fetchRow l = some row) :
    (refreshLocator l row).Concrete := by
  cases l with
  | adminShared id => trivial
  | perUser id userId label =>
    cases label with
    | some label => cases hlabel : row.accountLabel <;> simp [refreshLocator, CredLocator.Concrete]
    | none =>
      obtain ⟨r, -, rfl⟩ := Option.map_eq_some_iff.mp h
      rfl

/-- The label of a default row leads to the same row. -/
theorem fetchRow_refreshLocator (hkeyed : db.Keyed) (h : db.fetchRow l = some row) :
    db.fetchRow (refreshLocator l row) = some row := by
  cases l with
  | adminShared id => exact h
  | perUser id userId label =>
    cases label with
    | some label =>
      cases hlabel : row.accountLabel with
      | none => simpa only [refreshLocator, hlabel] using h
      | some _ => simpa only [refreshLocator, hlabel] using h
    | none =>
      obtain ⟨r, hr, rfl⟩ := Option.map_eq_some_iff.mp h
      have hmem := List.mem_of_find?_eq_some hr
      have hfound := List.find?_some hr
      simp only [Bool.and_eq_true, beq_iff_eq] at hfound
      obtain ⟨⟨hid, huser⟩, -⟩ := hfound
      have hsame : (db.users.find? fun k => k.serverId == id && k.userId == userId &&
          k.accountLabel == r.accountLabel) = some r := by
        refine find?_eq_some_of_unique hmem (by simp [hid, huser]) fun k hk hkey => ?_
        simp only [Bool.and_eq_true, beq_iff_eq] at hkey
        obtain ⟨⟨hid', huser'⟩, hlabel⟩ := hkey
        exact hkeyed k hk r hmem (hid'.trans hid.symm) (huser'.trans huser.symm) hlabel
      exact congrArg (Option.map _) hsame

/-- The keys of two locators do not both fit a row. -/
theorem userKey_ne {id id' userId userId' : Uuid} {label label' : String}
    (hne : CredLocator.perUser id' userId' (some label') ≠ .perUser id userId (some label))
    (r : UserCredential β)
    (h : (r.serverId == id' && r.userId == userId' && r.accountLabel == label') = true) :
    (r.serverId == id && r.userId == userId && r.accountLabel == label) = false := by
  simp only [Bool.and_eq_true, beq_iff_eq] at h
  obtain ⟨⟨rfl, rfl⟩, rfl⟩ := h
  rw [Bool.eq_false_iff]
  simp only [ne_eq, Bool.and_eq_true, beq_iff_eq]
  rintro ⟨⟨rfl, rfl⟩, rfl⟩
  exact hne rfl

theorem sharedKey_ne {id id' : Uuid} (hne : CredLocator.adminShared id' ≠ .adminShared id)
    (r : SharedCredential β) (h : (r.serverId == id') = true) : (r.serverId == id) = false := by
  rw [beq_iff_eq] at h
  rw [beq_eq_false_iff_ne, h]
  rintro rfl
  exact hne rfl

/-- The row after the write of a refresh. -/
theorem fetchRow_writeRefreshedRow {access : β} {refresh : Option β} {expiresAt : Option Int}
    (h : db.writeRefreshedRow l access refresh expiresAt = .ok db') :
    db'.fetchRow l = (db.fetchRow l).map fun row =>
      { row with toCredential := refreshed row.toCredential access refresh expiresAt } := by
  cases l with
  | perUser id userId label =>
    cases label with
    | none => cases h
    | some label =>
      cases h
      simp only [fetchRow]
      rw [find?_update_self, Option.map_map, Option.map_map]
      · rfl
      · exact fun _ => rfl
  | adminShared id =>
    cases h
    simp only [fetchRow]
    rw [find?_update_self, Option.map_map, Option.map_map]
    · rfl
    · exact fun _ => rfl

theorem fetchRow_writeRefreshedRow_ne {access : β} {refresh : Option β} {expiresAt : Option Int}
    (h : db.writeRefreshedRow l access refresh expiresAt = .ok db') (hl : l'.Concrete)
    (hne : l' ≠ l) : db'.fetchRow l' = db.fetchRow l' := by
  cases l with
  | perUser id userId label =>
    cases label with
    | none => cases h
    | some label =>
      cases h
      cases l' with
      | adminShared id' => rfl
      | perUser id' userId' label' =>
        obtain ⟨label', rfl⟩ := Option.isSome_iff_exists.mp hl
        exact congrArg (Option.map _) (find?_update_other (fun _ => rfl) (userKey_ne hne))
  | adminShared id =>
    cases h
    cases l' with
    | perUser id' userId' label' =>
      obtain ⟨label', rfl⟩ := Option.isSome_iff_exists.mp hl
      rfl
    | adminShared id' =>
      exact congrArg (Option.map _) (find?_update_other (fun _ => rfl) (sharedKey_ne hne))

theorem fetchRow_deleteRow (h : db.deleteRow l = .ok db') : db'.fetchRow l = none := by
  cases l with
  | perUser id userId label =>
    cases label with
    | none => cases h
    | some label =>
      cases h
      exact congrArg (Option.map _) find?_delete_self
  | adminShared id =>
    cases h
    exact congrArg (Option.map _) find?_delete_self

theorem fetchRow_deleteRow_ne (h : db.deleteRow l = .ok db') (hl : l'.Concrete) (hne : l' ≠ l) :
    db'.fetchRow l' = db.fetchRow l' := by
  cases l with
  | perUser id userId label =>
    cases label with
    | none => cases h
    | some label =>
      cases h
      cases l' with
      | adminShared id' => rfl
      | perUser id' userId' label' =>
        obtain ⟨label', rfl⟩ := Option.isSome_iff_exists.mp hl
        exact congrArg (Option.map _) (find?_delete_other (userKey_ne hne))
  | adminShared id =>
    cases h
    cases l' with
    | perUser id' userId' label' =>
      obtain ⟨label', rfl⟩ := Option.isSome_iff_exists.mp hl
      rfl
    | adminShared id' =>
      exact congrArg (Option.map _) (find?_delete_other (sharedKey_ne hne))

theorem Keyed.writeRefreshedRow {access : β} {refresh : Option β} {expiresAt : Option Int}
    (hkeyed : db.Keyed) (h : db.writeRefreshedRow l access refresh expiresAt = .ok db') :
    db'.Keyed := by
  cases l with
  | adminShared id =>
    cases h
    exact hkeyed
  | perUser id userId label =>
    cases label with
    | none => cases h
    | some label =>
      cases h
      intro a ha b hb hid huser hlabel
      obtain ⟨r, hr, rfl⟩ := List.mem_map.mp ha
      obtain ⟨k, hk, rfl⟩ := List.mem_map.mp hb
      have heq : r = k := by
        refine hkeyed r hr k hk ?_ ?_ ?_
        · split at hid <;> split at hid <;> exact hid
        · split at huser <;> split at huser <;> exact huser
        · split at hlabel <;> split at hlabel <;> exact hlabel
      rw [heq]

theorem Keyed.deleteRow (hkeyed : db.Keyed) (h : db.deleteRow l = .ok db') : db'.Keyed := by
  cases l with
  | adminShared id =>
    cases h
    exact hkeyed
  | perUser id userId label =>
    cases label with
    | none => cases h
    | some label =>
      cases h
      exact fun a ha b hb => hkeyed a (List.mem_filter.mp ha).1 b (List.mem_filter.mp hb).1

end Credentials

/-- AES-GCM under one key: what was encrypted is decrypted to the same text. -/
def Crypto.Lawful (crypto : Crypto β) : Prop :=
  ∀ plain, ∃ bytes, crypto.encrypt plain = .ok bytes ∧ crypto.decrypt bytes = .ok plain

/-! ## What is claimed -/

namespace Calls

open Caching (Deployment Target ToolsCall)

variable {d : Deployment β} {s s' t : Runtime β} {a : Action β} {as : List (Action β)}
  {p : Phase β} {i j : Nat}

/-- A refresh token that is sent to the token endpoint is stored at that moment. -/
def PresentsStored (d : Deployment β) (s : Runtime β) : Action β → Prop
  | .ask i => ∀ x w bytes token now, s.calls i = some (.asking x w bytes token now) →
      heldToken d.crypto s.db w.locator = some token
  | _ => True

/-- Only calls: no credential is changed from outside. -/
def OnlyCalls : Action β → Prop
  | .revoke .. => False
  | _ => True

/--
A call whose re-read row is about to expire, or has no expiry, finds the refresh token as it was
when the call first read the row: no refresh has replaced it in between.
-/
def NotReplaced (s : Runtime β) : Action β → Prop
  | .recheck i now => ∀ x w current, s.calls i = some (.holding x w) →
      s.db.fetchRow w.locator = some current → nearExpiry current.expiresAt now true = true →
        s.rotations w.locator = w.rotations
  | _ => True

/-- The provider rejects for good only a refresh token that it has replaced by another. -/
def RejectsReused (s : Runtime β) : Action β → Prop
  | .answer i (.error (.permanent _)) => ∀ x w bytes token now,
      s.calls i = some (.asked x w bytes token now) → token ∈ s.replaced w.locator
  | _ => True

/-! ## The invariant -/

/-- What a phase of a call says about the tables. -/
def Phase.Sound (crypto : Crypto β) (db : Credentials β) (rotations : CredLocator → Nat) :
    Phase β → Prop
  | waiting _ w | holding _ w =>
    w.locator.Concrete ∧ w.rotations ≤ rotations w.locator ∧
      (rotations w.locator = w.rotations → db.fetchRow w.locator = none ∨
        heldToken crypto db w.locator = refreshToken crypto w.row)
  | asking _ w bytes token _ | asked _ w bytes token _ =>
    w.locator.Concrete ∧ heldToken crypto db w.locator = some token ∧
      (crypto.decrypt bytes).toOption = some token
  | storing _ w .. | deleting _ w _ => w.locator.Concrete
  | _ => True

structure Inv (d : Deployment β) (s : Runtime β) : Prop where
  keyed : s.db.Keyed
  mutex : ∀ {l j k p q}, s.calls j = some p → s.calls k = some q → p.holds = some l →
    q.holds = some l → j = k
  calls : ∀ i p, s.calls i = some p → p.Sound d.crypto s.db s.rotations

/-- The mutexes that a phase holds were held by the call before, or by none. -/
def MayHold (s : Runtime β) (i : Nat) (p : Phase β) : Prop :=
  ∀ l, p.holds = some l → (∃ q, s.calls i = some q ∧ q.holds = some l) ∨
    ∀ {j q}, s.calls j = some q → ¬ q.holds = some l

theorem mayHold_none (s : Runtime β) (i : Nat) (h : p.holds = none) : MayHold s i p := by
  intro l hl
  rw [h] at hl
  cases hl

theorem mayHold_same {q : Phase β} (hi : s.calls i = some q) (h : p.holds = q.holds) :
    MayHold s i p :=
  fun _ hl => .inl ⟨q, hi, h.symm.trans hl⟩

theorem Inv.go (h : Inv d s) (hp : p.Sound d.crypto s.db s.rotations) (hhold : MayHold s i p) :
    Inv d (s.go i p) where
  keyed := h.keyed
  mutex := by
    intro l j k q q' hj hk hq hq'
    exact Threads.set_unique (P := fun p => p.holds = some l)
      (fun hj hk hq hq' => h.mutex hj hk hq hq') (hhold l) hj hk hq hq'
  calls := by
    intro j q hj
    rcases Threads.set_eq_some hj with ⟨-, rfl⟩ | ⟨-, hj⟩
    · exact hp
    · exact h.calls j q hj

/-- A resolver's answer says nothing about the tables, and holds nothing. -/
theorem sendWith_sound (crypto : Crypto β) (db : Credentials β) (rotations : CredLocator → Nat)
    (x : Target) (used : Epoch) (result : Except ResolverError String) :
    (sendWith x used result : Phase β).Sound crypto db rotations ∧
      (sendWith x used result : Phase β).holds = none := by
  cases result with
  | ok token => exact ⟨trivial, rfl⟩
  | error e => exact ⟨trivial, rfl⟩

theorem fetched_sound (h : Inv d s) (x : Target) (now : Int) :
    (s.fetched d x now).Sound d.crypto s.db s.rotations ∧ (s.fetched d x now).holds = none := by
  unfold Runtime.fetched
  cases hrow : s.db.fetchRow (locatorFor x.server x.call.caller) with
  | none =>
    simp only
    split
    · exact ⟨trivial, rfl⟩
    · exact ⟨trivial, rfl⟩
  | some row =>
    simp only
    split
    · exact sendWith_sound ..
    · split
      · exact sendWith_sound ..
      · split
        · exact ⟨trivial, rfl⟩
        · refine ⟨⟨Credentials.concrete_refreshLocator hrow, le_rfl, fun _ => .inr ?_⟩, rfl⟩
          unfold heldToken
          rw [Credentials.fetchRow_refreshLocator h.keyed hrow]
          rfl

/-- The refresh token that `refresh_locked` decrypts is that of the row it was given. -/
theorem refreshToken_of_storedRefreshToken {crypto : Crypto β} {bytes : β} {token : String}
    (h : storedRefreshToken crypto l row = .ok (bytes, token)) :
    refreshToken crypto row = some token ∧ (crypto.decrypt bytes).toOption = some token := by
  simp only [storedRefreshToken, bind_ok, orRefuse_ok, pure_ok] at h
  obtain ⟨bytes', hbytes, token', htoken, heq⟩ := h
  cases heq
  have hdecrypt : crypto.decrypt bytes = .ok token := by
    unfold Crypto.decryptToString at htoken
    cases hd : crypto.decrypt bytes with
    | error e =>
      rw [hd] at htoken
      cases htoken
    | ok plain =>
      rw [hd] at htoken
      cases htoken
      rfl
  unfold refreshToken
  rw [hbytes, Option.bind_some, hdecrypt]
  exact ⟨rfl, rfl⟩

/-- When the re-check leads to a refresh. -/
theorem recheck_ask {crypto : Crypto β} {cfg : OAuthClientCfg} {now : Int} {bytes : β}
    {token : String} (h : recheck crypto db l row cfg now = .ok (.inr (bytes, token))) :
    ∃ current, db.fetchRow l = some current ∧ nearExpiry current.expiresAt now true = true ∧
      storedRefreshToken crypto l row = .ok (bytes, token) := by
  unfold recheck at h
  cases hrow : db.fetchRow l with
  | none =>
    rw [hrow] at h
    cases h
  | some current =>
    simp only [hrow] at h
    refine ⟨current, rfl, ?_⟩
    cases hnear : nearExpiry current.expiresAt now true with
    | false =>
      rw [hnear, Bool.not_false, if_pos rfl] at h
      cases hplain : crypto.decryptToString current.accessTokenEncrypted with
      | error e =>
        rw [hplain] at h
        cases h
      | ok plain =>
        rw [hplain] at h
        cases h
    | true =>
      rw [hnear, Bool.not_true, if_neg Bool.false_ne_true] at h
      refine ⟨rfl, ?_⟩
      cases hstored : storedRefreshToken crypto l row with
      | error e =>
        rw [hstored] at h
        cases h
      | ok r =>
        rw [hstored] at h
        cases h
        rfl

theorem rechecked_sound {x : Target} {w : Refresh β} {now : Int} (h : Inv d s)
    (hi : s.calls i = some (.holding x w)) (hin : NotReplaced s (.recheck i now)) :
    (s.rechecked d x w now).Sound d.crypto s.db s.rotations ∧
      ((s.rechecked d x w now).holds = none ∨ (s.rechecked d x w now).holds = some w.locator) := by
  obtain ⟨hconcrete, -, hsame⟩ := h.calls i _ hi
  unfold Runtime.rechecked
  cases hre : recheck d.crypto s.db w.locator w.row w.cfg now with
  | error e => exact ⟨trivial, .inl rfl⟩
  | ok r =>
    cases r with
    | inl token => exact ⟨trivial, .inl rfl⟩
    | inr r =>
      obtain ⟨current, hrow, hnear, hstored⟩ := recheck_ask hre
      obtain ⟨htoken, hbytes⟩ := refreshToken_of_storedRefreshToken hstored
      have hheld := (hsame (hin x w current hi hrow hnear)).resolve_left
        (by rw [hrow]; exact Option.some_ne_none _)
      exact ⟨⟨hconcrete, hheld.trans htoken, hbytes⟩, .inr rfl⟩

/-! ## The write of a row -/

/-- What `store_refreshed` writes. -/
theorem storeRefreshed_ok {crypto : Crypto β} {bytes : β} {new : TokenResponse} {now : Int}
    (h : storeRefreshed crypto db l bytes new now = .ok db') :
    ∃ access refresh, db.writeRefreshedRow l access (some refresh)
        (newExpiresAt new.expiresIn now) = .ok db' ∧
      (new.refreshToken = none ∧ refresh = bytes ∨
        ∃ plain, new.refreshToken = some plain ∧ crypto.encrypt plain = .ok refresh) := by
  simp only [storeRefreshed, bind_ok] at h
  obtain ⟨access, -, h⟩ := h
  cases hnew : new.refreshToken with
  | none =>
    simp only [hnew, bind_ok, pure_ok] at h
    obtain ⟨refresh, rfl, hwrite⟩ := h
    exact ⟨access, bytes, hwrite, .inl ⟨rfl, rfl⟩⟩
  | some plain =>
    simp only [hnew, bind_ok, Crypto.encryptToken] at h
    obtain ⟨refresh, hrefresh, hwrite⟩ := h
    refine ⟨access, refresh, hwrite, .inr ⟨plain, rfl, ?_⟩⟩
    cases he : crypto.encrypt plain with
    | error e =>
      rw [he] at hrefresh
      cases hrefresh
    | ok b =>
      rw [he] at hrefresh
      cases hrefresh
      rfl

/-- A change of one credential's row, as the phases of the other calls see it. -/
theorem Phase.Sound.change {crypto : Crypto β} {rotations rotations' : CredLocator → Nat}
    (hp : p.Sound crypto db rotations) (hother : p.holds ≠ some l)
    (hrow : ∀ l', l'.Concrete → l' ≠ l → db'.fetchRow l' = db.fetchRow l')
    (hrotations : ∀ l', l' ≠ l → rotations' l' = rotations l')
    (hself : rotations' l = rotations l ∧ (db.fetchRow l = none → db'.fetchRow l = none) ∧
        (db'.fetchRow l = none ∨ heldToken crypto db' l = heldToken crypto db l) ∨
      rotations' l = rotations l + 1) : p.Sound crypto db' rotations' := by
  have hheld : ∀ l', l'.Concrete → l' ≠ l → heldToken crypto db' l' = heldToken crypto db l' := by
    intro l' hl' hne
    unfold heldToken
    rw [hrow l' hl' hne]
  have hwaiting : ∀ w : Refresh β, w.locator.Concrete → w.rotations ≤ rotations w.locator →
      (rotations w.locator = w.rotations → db.fetchRow w.locator = none ∨
        heldToken crypto db w.locator = refreshToken crypto w.row) →
      w.rotations ≤ rotations' w.locator ∧
        (rotations' w.locator = w.rotations → db'.fetchRow w.locator = none ∨
          heldToken crypto db' w.locator = refreshToken crypto w.row) := by
    intro w hw hle hsame
    by_cases hl : w.locator = l
    · rw [hl] at hle hsame ⊢
      rcases hself with ⟨hr, hnone, hheld'⟩ | hr
      · refine ⟨hr ▸ hle, fun hcount => ?_⟩
        rcases hheld' with hgone | hheld'
        · exact .inl hgone
        · exact (hsame (hr.symm.trans hcount)).imp hnone fun h => hheld'.trans h
      · exact ⟨by omega, fun hcount => by omega⟩
    · rw [hrotations _ hl, hrow _ hw hl, hheld _ hw hl]
      exact ⟨hle, hsame⟩
  cases p with
  | waiting x w => exact ⟨hp.1, hwaiting w hp.1 hp.2.1 hp.2.2⟩
  | holding x w => exact ⟨hp.1, hwaiting w hp.1 hp.2.1 hp.2.2⟩
  | asking x w bytes token now =>
    have hl : w.locator ≠ l := fun hl => hother (congrArg some hl)
    exact ⟨hp.1, (hheld _ hp.1 hl).trans hp.2.1, hp.2.2⟩
  | asked x w bytes token now =>
    have hl : w.locator ≠ l := fun hl => hother (congrArg some hl)
    exact ⟨hp.1, (hheld _ hp.1 hl).trans hp.2.1, hp.2.2⟩
  | storing x w bytes new now => exact hp
  | deleting x w msg => exact hp
  | fetching x | wiping x changed result | revoked changed | upstream x auth used | refused e
  | ended => trivial

/-- The holder of a credential's mutex changes its row. -/
theorem Inv.change {u : Runtime β} {q : Phase β} (h : Inv d s) (hcalls : u.calls = s.calls)
    (hkeyed : u.db.Keyed)
    (hsound : ∀ p : Phase β, p.Sound d.crypto s.db s.rotations → p.holds ≠ some l →
      p.Sound d.crypto u.db u.rotations)
    (hi : s.calls i = some q) (hq : q.holds = some l) (hp : p.Sound d.crypto u.db u.rotations)
    (hpl : p.holds = some l) : Inv d (u.go i p) where
  keyed := hkeyed
  mutex := by
    intro l' j k p' q' hj hk hp' hq'
    have hhold := mayHold_same (s := s) hi (hpl.trans hq.symm)
    rw [Runtime.go, hcalls] at hj hk
    exact Threads.set_unique (P := fun p => p.holds = some l')
      (fun hj hk hq hq' => h.mutex hj hk hq hq') (hhold l') hj hk hp' hq'
  calls := by
    intro j p' hj
    rw [Runtime.go, hcalls] at hj
    rcases Threads.set_eq_some hj with ⟨-, rfl⟩ | ⟨hne, hj⟩
    · exact hp
    · exact hsound p' (h.calls j p' hj) fun hl => hne (h.mutex hj hi hl hq)

theorem storeRefreshed_sound {bytes : β} {new : TokenResponse} {now : Int}
    (hok : storeRefreshed d.crypto s.db l bytes new now = .ok db)
    (hp : p.Sound d.crypto s.db s.rotations) (hother : p.holds ≠ some l) :
    p.Sound d.crypto (s.rotate d db l).db (s.rotate d db l).rotations := by
  obtain ⟨access, refresh, hwrite, -⟩ := storeRefreshed_ok hok
  refine hp.change hother (fun _ hl' hne =>
    Credentials.fetchRow_writeRefreshedRow_ne hwrite hl' hne) (fun l' hne => ?_) ?_
  · show (if _ then s.rotations else _) l' = s.rotations l'
    split
    · rfl
    · exact Function.update_of_ne hne ..
  · show (if _ then s.rotations else _) l = _ ∧ _ ∨ (if _ then s.rotations else _) l = _
    split
    next hsame =>
      refine .inl ⟨rfl, fun hnone => ?_, .inr hsame⟩
      show db.fetchRow l = none
      rw [Credentials.fetchRow_writeRefreshedRow hwrite, hnone]
      rfl
    next => exact .inr (Function.update_self ..)

theorem Inv.step (h : Inv d s) (hcalls : OnlyCalls a) (hin : NotReplaced s a)
    (hstep : Step d s a s') : Inv d s' := by
  cases hstep with
  | unknown | hit | miss => exact h.go trivial (mayHold_none s _ rfl)
  | fetch at_ =>
    obtain ⟨hsound, hholds⟩ := fetched_sound h _ _
    exact h.go hsound (mayHold_none s _ hholds)
  | lock at_ unlocked =>
    have hsound := h.calls _ _ at_
    refine h.go hsound fun l hl => .inr fun {j q} hj hq => ?_
    exact unlocked j q hj (hq.trans hl.symm)
  | recheck at_ =>
    obtain ⟨hsound, hholds⟩ := rechecked_sound h at_ hin
    rcases hholds with hnone | hsome
    · exact h.go hsound (mayHold_none s _ hnone)
    · exact h.go hsound (mayHold_same at_ hsome)
  | ask at_ =>
    have hsound := h.calls _ _ at_
    exact h.go hsound (mayHold_same at_ rfl)
  | @answer i x w bytes token now answer at_ =>
    have htake : Inv d (s.take w.locator token answer) := ⟨h.keyed, h.mutex, h.calls⟩
    have hconcrete := (h.calls _ _ at_).1
    rcases answer with (msg | msg) | new
    · exact htake.go hconcrete (mayHold_same (s := s.take w.locator token _) at_ rfl)
    · exact htake.go trivial (mayHold_none _ _ rfl)
    · exact htake.go hconcrete (mayHold_same (s := s.take w.locator token _) at_ rfl)
  | store at_ ok =>
    obtain ⟨_, _, hwrite, -⟩ := storeRefreshed_ok ok
    exact h.change rfl (h.keyed.writeRefreshedRow hwrite) (fun _ => storeRefreshed_sound ok) at_ rfl
      trivial rfl
  | storeRefused at_ => exact h.go trivial (mayHold_none s _ rfl)
  | delete at_ ok =>
    refine h.change rfl (h.keyed.deleteRow ok) (fun p hp hother => ?_) at_ rfl trivial rfl
    have hgone := Credentials.fetchRow_deleteRow ok
    exact hp.change hother (fun _ hl' hne => Credentials.fetchRow_deleteRow_ne ok hl' hne)
      (fun _ _ => rfl) (.inl ⟨rfl, fun _ => hgone, .inl hgone⟩)
  | deleteRefused at_ => exact h.go trivial (mayHold_none s _ rfl)
  | @wipe i x changed result at_ =>
    obtain ⟨hsound, hholds⟩ := sendWith_sound d.crypto s.db s.rotations x changed result
    have hwipe : Inv d (s.wipe changed) := ⟨h.keyed, h.mutex, h.calls⟩
    exact hwipe.go hsound (mayHold_none _ _ hholds)
  | @reply i x auth used response now at_ =>
    have hkeep : Inv d (s.keep d x used response now) := ⟨h.keyed, h.mutex, h.calls⟩
    exact hkeep.go trivial (mayHold_none _ _ rfl)
  | broken => exact h.go trivial (mayHold_none s _ rfl)
  | revoke => cases hcalls
  | @wipeRevoked i changed at_ =>
    have hwipe : Inv d (s.wipe changed) := ⟨h.keyed, h.mutex, h.calls⟩
    exact hwipe.go trivial (mayHold_none _ _ rfl)
  | evict => exact ⟨h.keyed, h.mutex, h.calls⟩

theorem Inv.presentsStored (h : Inv d s) (a : Action β) : PresentsStored d s a := by
  cases a with
  | ask i => exact fun x w bytes token now hi => (h.calls i _ hi).2.1
  | check | fetch | lock | recheck | answer | store | delete | wipe | reply | revoke | evict =>
    trivial

theorem inv_start (hkeyed : db.Keyed) : Inv d (.start db) where
  keyed := hkeyed
  mutex := fun hj => by cases hj
  calls := fun _ _ hi => by cases hi

/-! ## A provider that rejects reused refresh tokens -/

/-- The call is about to write the row. -/
def Phase.writes : Phase β → Bool
  | storing .. | deleting .. => true
  | _ => false

/-- What is about to be stored is a refresh token that the provider has not replaced. -/
def Phase.Accepted (crypto : Crypto β) (replaced : CredLocator → List String) : Phase β → Prop
  | storing _ w bytes new _ =>
    (∀ plain, new.refreshToken = some plain → plain ∉ replaced w.locator) ∧
      (new.refreshToken = none →
        ∀ token, (crypto.decrypt bytes).toOption = some token → token ∉ replaced w.locator)
  | deleting .. => False
  | _ => True

theorem Phase.accepted_of_writes {crypto : Crypto β} {replaced : CredLocator → List String}
    (h : p.writes = false) : p.Accepted crypto replaced := by
  cases p with
  | storing x w bytes new now => cases h
  | deleting x w msg => cases h
  | fetching x | waiting x w | holding x w | asking x w bytes token now | asked x w bytes token now
  | wiping x changed result | revoked changed | upstream x auth used | refused e | ended => trivial

/-- A stored refresh token that the provider has replaced is about to be overwritten. -/
structure Accepts (d : Deployment β) (s : Runtime β) : Prop where
  held : ∀ l token, l.Concrete → heldToken d.crypto s.db l = some token → token ∈ s.replaced l →
    ∃ i p, s.calls i = some p ∧ p.writes = true ∧ p.holds = some l
  calls : ∀ i p, s.calls i = some p → p.Accepted d.crypto s.replaced

theorem Accepts.go (h : Accepts d s) (hi : ∀ q, s.calls i = some q → q.writes = false)
    (hp : p.writes = false) : Accepts d (s.go i p) where
  held := by
    intro l token hl hheld hmem
    obtain ⟨j, q, hj, hwrites, hq⟩ := h.held l token hl hheld hmem
    have hji : j ≠ i := by
      rintro rfl
      rw [hi q hj] at hwrites
      cases hwrites
    exact ⟨j, q, (Threads.set_ne _ hji _).trans hj, hwrites, hq⟩
  calls := by
    intro j q hj
    rcases Threads.set_eq_some hj with ⟨-, rfl⟩ | ⟨-, hj⟩
    · exact Phase.accepted_of_writes hp
    · exact h.calls j q hj

theorem writes_of_holds_none (h : p.holds = none) : p.writes = false := by
  cases p with
  | storing x w bytes new now => cases h
  | deleting x w msg => cases h
  | fetching x | waiting x w | holding x w | asking x w bytes token now | asked x w bytes token now
  | wiping x changed result | revoked changed | upstream x auth used | refused e | ended => rfl

theorem rechecked_writes (d : Deployment β) (s : Runtime β) (x : Target) (w : Refresh β)
    (now : Int) : (s.rechecked d x w now).writes = false := by
  unfold Runtime.rechecked
  cases recheck d.crypto s.db w.locator w.row w.cfg now with
  | error e => rfl
  | ok r => cases r <;> rfl

theorem writes_of_calls {q : Phase β} (hi : s.calls i = some q) (hq : q.writes = false) :
    ∀ q', s.calls i = some q' → q'.writes = false := by
  intro q' hq'
  rw [hi] at hq'
  cases hq'
  exact hq

/-- The token that a call has presented has not been replaced before its answer. -/
theorem Accepts.asked_fresh {x : Target} {w : Refresh β} {bytes : β} {token : String} {now : Int}
    (h : Accepts d s) (hinv : Inv d s) (hi : s.calls i = some (.asked x w bytes token now)) :
    token ∉ s.replaced w.locator := by
  intro hmem
  obtain ⟨hconcrete, hheld, -⟩ := hinv.calls i _ hi
  obtain ⟨j, q, hj, hwrites, hq⟩ := h.held w.locator token hconcrete hheld hmem
  obtain rfl := hinv.mutex hj hi hq rfl
  obtain rfl := Option.some.inj (hi.symm.trans hj)
  cases hwrites

theorem notMem_replace {token plain : String} {taken : List String} {new : TokenResponse}
    (hfresh : token ∉ taken) (hnew : new.refreshToken = some plain) :
    plain ∉ replace token taken (.ok new) := by
  obtain ⟨access, refresh, expires⟩ := new
  cases hnew
  show plain ∉ if plain = token then taken else token :: taken.filter (· ≠ plain)
  split
  next heq =>
    rw [heq]
    exact hfresh
  next hne =>
    rw [List.mem_cons, List.mem_filter]
    rintro (heq | ⟨-, hself⟩)
    · exact hne heq
    · exact of_decide_eq_true hself rfl

theorem replace_of_none {token : String} {taken : List String} {new : TokenResponse}
    (hnew : new.refreshToken = none) : replace token taken (.ok new) = taken := by
  obtain ⟨access, refresh, expires⟩ := new
  cases hnew
  rfl

/-- The provider answers a refresh with tokens. -/
theorem Accepts.renewed {x : Target} {w : Refresh β} {bytes : β} {token : String} {now : Int}
    {new : TokenResponse} (h : Accepts d s) (hinv : Inv d s)
    (hi : s.calls i = some (.asked x w bytes token now)) :
    Accepts d ((s.take w.locator token (.ok new)).go i (.storing x w bytes new now)) where
  held := by
    intro l tok hl hheld hmem
    by_cases hlw : l = w.locator
    · exact ⟨i, _, Threads.set_self _ _ _, rfl, congrArg some hlw.symm⟩
    · have hmem : tok ∈ s.replaced l := by
        have hupdate : Function.update s.replaced w.locator
            (replace token (s.replaced w.locator) (.ok new)) l = s.replaced l :=
          Function.update_of_ne hlw ..
        exact hupdate ▸ hmem
      obtain ⟨j, q, hj, hwrites, hq⟩ := h.held l tok hl hheld hmem
      have hji : j ≠ i := by
        rintro rfl
        obtain rfl := Option.some.inj (hi.symm.trans hj)
        cases hwrites
      exact ⟨j, q, (Threads.set_ne _ hji _).trans hj, hwrites, hq⟩
  calls := by
    have hfresh := h.asked_fresh hinv hi
    intro j q hj
    rcases Threads.set_eq_some hj with ⟨-, rfl⟩ | ⟨hji, hj⟩
    · have hself : (s.take w.locator token (.ok new)).replaced w.locator =
          replace token (s.replaced w.locator) (.ok new) := Function.update_self ..
      refine ⟨fun plain hplain => ?_, fun hnone tok htok => ?_⟩
      · exact hself ▸ notMem_replace hfresh hplain
      · have hbytes := (hinv.calls i _ hi).2.2
        obtain rfl := Option.some.inj (hbytes.symm.trans htok)
        rw [replace_of_none hnone] at hself
        exact hself ▸ hfresh
    · -- the other calls that write hold another mutex
      have hold := h.calls j q hj
      cases q with
      | storing x' w' bytes' new' now' =>
        have hne : w'.locator ≠ w.locator := fun heq =>
          hji (hinv.mutex hj hi (congrArg some heq) rfl)
        have hupdate : (s.take w.locator token (.ok new)).replaced w'.locator =
            s.replaced w'.locator := Function.update_of_ne hne ..
        simp only [Phase.Accepted, Runtime.go, hupdate]
        exact hold
      | deleting x w msg => exact hold
      | fetching x | waiting x w | holding x w | asking x w bytes token now
      | asked x w bytes token now | wiping x changed result | revoked changed
      | upstream x auth used | refused e | ended => trivial

/-- A rejection takes nothing back. -/
theorem take_error (s : Runtime β) (l : CredLocator) (token : String) (e : OAuthRefreshFailure) :
    s.take l token (.error e) = s := by
  have hreplaced : Function.update s.replaced l (s.replaced l) = s.replaced :=
    Function.update_eq_self l s.replaced
  show { s with replaced := Function.update s.replaced l (s.replaced l) } = s
  rw [hreplaced]

theorem heldToken_writeRefreshedRow {crypto : Crypto β} {access refresh : β}
    {expiresAt : Option Int} {token : String}
    (h : db.writeRefreshedRow l access (some refresh) expiresAt = .ok db')
    (hheld : heldToken crypto db' l = some token) :
    (crypto.decrypt refresh).toOption = some token := by
  unfold heldToken at hheld
  rw [Credentials.fetchRow_writeRefreshedRow h] at hheld
  obtain ⟨row', hrow', htoken⟩ := Option.bind_eq_some_iff.mp hheld
  obtain ⟨row, -, rfl⟩ := Option.map_eq_some_iff.mp hrow'
  exact htoken

/-- The write of new tokens goes through. -/
theorem storeRefreshed_isOk {crypto : Crypto β} (hlaw : crypto.Lawful) (hl : l.Concrete)
    (bytes : β) (new : TokenResponse) (now : Int) :
    ∃ db', storeRefreshed crypto db l bytes new now = .ok db' := by
  have hencrypt : ∀ plain, ∃ enc, crypto.encryptToken plain = .ok enc := by
    intro plain
    obtain ⟨enc, henc, -⟩ := hlaw plain
    refine ⟨enc, ?_⟩
    rw [Crypto.encryptToken, henc]
    rfl
  have hwrite : ∀ access refresh expiresAt, ∃ db',
      db.writeRefreshedRow l access refresh expiresAt = .ok db' := by
    intro access refresh expiresAt
    cases l with
    | adminShared id => exact ⟨_, rfl⟩
    | perUser id userId label =>
      obtain ⟨label, rfl⟩ := Option.isSome_iff_exists.mp hl
      exact ⟨_, rfl⟩
  obtain ⟨access, haccess⟩ := hencrypt new.accessToken
  cases hnew : new.refreshToken with
  | none =>
    obtain ⟨db', hdb'⟩ := hwrite access (some bytes) (newExpiresAt new.expiresIn now)
    refine ⟨db', ?_⟩
    simp only [storeRefreshed, bind_ok, hnew, pure_ok]
    exact ⟨access, haccess, bytes, rfl, hdb'⟩
  | some plain =>
    obtain ⟨refresh, hrefresh⟩ := hencrypt plain
    obtain ⟨db', hdb'⟩ := hwrite access (some refresh) (newExpiresAt new.expiresIn now)
    refine ⟨db', ?_⟩
    simp only [storeRefreshed, bind_ok, hnew]
    exact ⟨access, haccess, refresh, hrefresh, hdb'⟩

/-- The call stores the new tokens. -/
theorem Accepts.stored {x : Target} {w : Refresh β} {bytes : β} {now : Int} {new : TokenResponse}
    (hlaw : d.crypto.Lawful) (h : Accepts d s)
    (hi : s.calls i = some (.storing x w bytes new now))
    (hok : storeRefreshed d.crypto s.db w.locator bytes new now = .ok db) (hp : p.writes = false) :
    Accepts d ((s.rotate d db w.locator).go i p) where
  held := by
    obtain ⟨access, refresh, hwrite, hrefresh⟩ := storeRefreshed_ok hok
    intro l token hl hheld hmem
    by_cases hlw : l = w.locator
    · subst hlw
      obtain ⟨hrotated, hkept⟩ := h.calls i _ hi
      have htoken := heldToken_writeRefreshedRow hwrite hheld
      rcases hrefresh with ⟨hnone, rfl⟩ | ⟨plain, hplain, henc⟩
      · exact absurd hmem (hkept hnone token htoken)
      · obtain ⟨enc, henc', hdec⟩ := hlaw plain
        obtain rfl := Except.ok.inj (henc.symm.trans henc')
        rw [hdec] at htoken
        obtain rfl := Option.some.inj htoken
        exact absurd hmem (hrotated _ hplain)
    · have hheld' : heldToken d.crypto s.db l = some token := by
        unfold heldToken at hheld ⊢
        rw [← Credentials.fetchRow_writeRefreshedRow_ne hwrite hl hlw]
        exact hheld
      obtain ⟨j, q, hj, hwrites, hq⟩ := h.held l token hl hheld' hmem
      have hji : j ≠ i := by
        rintro rfl
        obtain rfl := Option.some.inj (hi.symm.trans hj)
        exact hlw (Option.some.inj hq).symm
      exact ⟨j, q, (Threads.set_ne _ hji _).trans hj, hwrites, hq⟩
  calls := by
    intro j q hj
    rcases Threads.set_eq_some hj with ⟨-, rfl⟩ | ⟨-, hj⟩
    · exact Phase.accepted_of_writes hp
    · exact h.calls j q hj

theorem sendWith_writes (x : Target) (used : Epoch) (result : Except ResolverError String) :
    (sendWith x used result : Phase β).writes = false := by
  cases result <;> rfl

theorem Accepts.step (hlaw : d.crypto.Lawful) (hinv : Inv d s) (h : Accepts d s)
    (hcalls : OnlyCalls a) (hrejects : RejectsReused s a) (hstep : Step d s a s') :
    Accepts d s' ∧ ∀ i, a ≠ .delete i := by
  cases hstep with
  | unknown free | hit free | miss free =>
    refine ⟨h.go (fun q hq => ?_) rfl, nofun⟩
    rw [free] at hq
    cases hq
  | @fetch i x now at_ =>
    have hwrites := writes_of_holds_none (fetched_sound hinv x now).2
    exact ⟨h.go (writes_of_calls at_ rfl) hwrites, nofun⟩
  | lock at_ => exact ⟨h.go (writes_of_calls at_ rfl) rfl, nofun⟩
  | recheck at_ => exact ⟨h.go (writes_of_calls at_ rfl) (rechecked_writes ..), nofun⟩
  | ask at_ => exact ⟨h.go (writes_of_calls at_ rfl) rfl, nofun⟩
  | @answer i x w bytes token now answer at_ =>
    refine ⟨?_, nofun⟩
    rcases answer with (msg | msg) | new
    · exact absurd (hrejects x w bytes token now at_) (h.asked_fresh hinv at_)
    · rw [take_error]
      exact h.go (writes_of_calls at_ rfl) rfl
    · exact h.renewed hinv at_
  | store at_ ok => exact ⟨h.stored hlaw at_ ok rfl, nofun⟩
  | @storeRefused i x w bytes new now e at_ error =>
    obtain ⟨db', hok⟩ := storeRefreshed_isOk hlaw (hinv.calls i _ at_) bytes new now
    rw [error] at hok
    cases hok
  | delete at_ => cases h.calls _ _ at_
  | deleteRefused at_ => cases h.calls _ _ at_
  | @wipe i x changed result at_ =>
    have hwipe : Accepts d (s.wipe changed) := ⟨h.held, h.calls⟩
    exact ⟨hwipe.go (writes_of_calls at_ rfl) (sendWith_writes ..), nofun⟩
  | @reply i x auth used response now at_ =>
    have hkeep : Accepts d (s.keep d x used response now) := ⟨h.held, h.calls⟩
    exact ⟨hkeep.go (writes_of_calls at_ rfl) rfl, nofun⟩
  | broken at_ => exact ⟨h.go (writes_of_calls at_ rfl) rfl, nofun⟩
  | revoke => cases hcalls
  | @wipeRevoked i changed at_ =>
    have hwipe : Accepts d (s.wipe changed) := ⟨h.held, h.calls⟩
    exact ⟨hwipe.go (writes_of_calls at_ rfl) rfl, nofun⟩
  | evict => exact ⟨⟨h.held, h.calls⟩, nofun⟩

theorem accepts_start : Accepts d (.start db) where
  held := fun _ _ _ _ hmem => by cases hmem
  calls := fun _ _ hi => by cases hi

/-! ## Which token is presented -/

theorem keyed_connected : connected.Keyed := by
  intro a ha b hb _ _ _
  rw [List.mem_singleton.mp ha, List.mem_singleton.mp hb]

theorem lawful_github : github.crypto.Lawful := fun plain => ⟨plain, rfl, rfl⟩

/-- A refresh that replaces the refresh token, and says nothing of an expiry. -/
def unexpiring : TokenResponse := ⟨"tok-2", some "ref-2", none⟩

def rotatedAccount : Credentials String where
  users := [⟨7, 1, "work", true, ⟨.oauthAuthcode, "tok-2", some "ref-2", none⟩⟩]
  shared := []

/-- A call that waited presents the refresh token that it had read before. -/
theorem rechecked_rotated {s : Runtime String} (h : s.db = rotatedAccount) :
    s.rechecked github githubTarget refresh 951 =
      .asking githubTarget refresh "ref-1" "ref-1" 951 := by
  unfold Runtime.rechecked
  rw [h]
  rfl

/-- The second of two calls waits for the mutex while the first refreshes the token. -/
def queueing (new : TokenResponse) : List (Action String) :=
  [.check 1 listIssues 950, .fetch 1 950, .check 0 listIssues 950] ++ refreshing 0 new ++ [.lock 1]

theorem queueing_allowed {new : TokenResponse} (s : Runtime String) (a : Action String)
    (ha : a ∈ queueing new) : OnlyCalls a ∧ RejectsReused s a := by
  simp only [queueing, refreshing, List.mem_append, List.mem_cons, List.not_mem_nil, or_false] at ha
  rcases ha with ((rfl | rfl | rfl) | rfl | rfl | rfl | rfl | rfl | rfl | rfl) | rfl <;>
    exact ⟨trivial, trivial⟩

/-- The second call has the mutex, in runs whose steps meet `C`. -/
theorem queueing_run {C : Runtime String → Action String → Prop} {new : TokenResponse}
    {db : Credentials String}
    (hstored : storeRefreshed github.crypto connected account "ref-1" new 950 = .ok db)
    (hC : ∀ u, ∀ a ∈ queueing new, (∀ j now, a = .recheck j now →
      j = 0 ∧ u.calls 0 = some (.holding githubTarget refresh) ∧ u.rotations account = 0) → C u a) :
    ∃ u : Runtime String,
      Steps (fun s a s' => C s a ∧ Step github s a s') (.start connected) (queueing new)
        (u.go 1 (.holding githubTarget refresh)) ∧
      u.db = db ∧ u.replaced account = replace "ref-1" [] (.ok new) := by
  have hcheck : Step github (.start connected) (.check 1 listIssues 950) _ :=
    .miss rfl upstreamRequest_github rfl
  have hfetch : Step github ((Runtime.start connected).go 1 (.fetching githubTarget))
      (.fetch 1 950) _ := .fetch (Runtime.go_calls_self _ 1 _)
  rw [fetched_expiring rfl rfl, Runtime.go_go] at hfetch
  have hcheck' : Step github ((Runtime.start connected).go 1 (.waiting githubTarget refresh))
      (.check 0 listIssues 950) _ := .miss rfl upstreamRequest_github rfl
  have hmem {a : Action String} (ha : a ∈ refreshing 0 new) : a ∈ queueing new :=
    List.mem_append_left _ (List.mem_append_right _ ha)
  have hzero {j : Nat} {now : Int} (ha : .recheck j now ∈ refreshing 0 new) : j = 0 := by
    simp [refreshing] at ha
    exact ha.1
  obtain ⟨u, hu, hcalls, hself, -, hdb, hreplaced⟩ := @refreshing_run C
    ((Runtime.start connected).go 1 (.waiting githubTarget refresh)) 0 new db
    rfl rfl (fun j p _ hj => by
      rcases Threads.set_eq_some hj with ⟨-, rfl⟩ | ⟨-, hj⟩
      · intro hp
        cases hp
      · cases hj) hstored fun u a ha hrecheck => hC u a (hmem ha) (by
        rintro j now rfl
        obtain rfl := hzero ha
        exact ⟨rfl, hrecheck now rfl⟩)
  have hwaiting : u.calls 1 = some (.waiting githubTarget refresh) := hcalls 1 (by decide)
  have hlock : Step github u (.lock 1) (u.go 1 (.holding githubTarget refresh)) := by
    refine .lock hwaiting fun j p hj hp => ?_
    by_cases hj0 : j = 0
    · subst hj0
      rw [hself p hj] at hp
      cases hp
    · rw [hcalls j hj0] at hj
      rcases Threads.set_eq_some hj with ⟨-, rfl⟩ | ⟨-, hj⟩
      · cases hp
      · cases hj
  have hother {v : Runtime String} {a : Action String} (ha : a ∈ queueing new)
      (hnot : ∀ j now, a ≠ .recheck j now) : C v a :=
    hC v a ha fun j now heq => absurd heq (hnot j now)
  refine ⟨u, .append (.cons ⟨hother (by simp [queueing]) (by simp), hcheck⟩ (.cons
    ⟨hother (by simp [queueing]) (by simp), hfetch⟩ (.cons
      ⟨hother (by simp [queueing]) (by simp), hcheck'⟩ hu)))
    (.single ⟨hother (by simp [queueing]) (by simp), hlock⟩), hdb, hreplaced⟩

/-- The account after a refresh that lasts an hour. -/
def renewedAccount : Credentials String where
  users := [⟨7, 1, "work", true, ⟨.oauthAuthcode, "tok-2", some "ref-2", some 4550⟩⟩]
  shared := []

/-- A call that waited finds the token that the other one has fetched. -/
theorem rechecked_renewed {s : Runtime String} (h : s.db = renewedAccount) :
    s.rechecked github githubTarget refresh 951 = .upstream githubTarget
      (some (buildInjection githubServer "tok-2")) (some (s.epoch account)) := by
  unfold Runtime.rechecked
  rw [h]
  rfl

end Calls

end ThinkWatch.Mcp
