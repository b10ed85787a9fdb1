import ThinkWatch.Auth.Sso

/-!
# What a sign-on is bound to

`session_bound`: a session is given for one authorization, in time, once, and in the browser that
began it. `exchanged_as_begun`: even when someone else writes to Redis, a code is exchanged with the
nonce that was made together with the state of the callback.
-/

namespace ThinkWatch.Auth.Sso

open Lib

variable {h : Hashes} {s s' : State} {a : Action} {as : List Action} {i j : Nat} {l l' : Login}

/-! ## Reading the machine -/

/-- The login of a callback that has passed its checks and has no answer yet. -/
def Request.login : Request → Option Login
  | .exchanging l => some l
  | .looking l _ => some l
  | .provisioning l _ => some l
  | .assigning l _ _ => some l
  | .signingIn l _ _ => some l
  | _ => none

/-- The account a request goes on with is that of the identity the provider answered with. -/
def Request.Identified : Request → Prop
  | .assigning _ info u => u.oidc = some (info.subject, info.issuer) ∧ u.deletedAt = none
  | .signingIn _ info u => u.oidc = some (info.subject, info.issuer) ∧ u.deletedAt = none
  | _ => True

/-- The browser was given the token, or is about to be. -/
def GivenTo (begun : List Begun) (b : Nat) (token : String) : Prop :=
  ∃ a ∈ begun, a.browser = some (b, token)

/-- The authorization a login goes back to. -/
structure GoesBack (h : Hashes) (begun : List Begun) (l : Login) (a : Begun) : Prop where
  begun : a ∈ begun
  live : a.mode = .live
  state : a.state = l.state
  nonce : a.nonce = l.nonce
  inTime : l.takenAt ≤ a.time + oidcStateTtlSecs * 1000
  cookie : ∃ b token, a.browser = some (b, token) ∧ h.sha256 l.cookie = h.sha256 token

/-- A login goes back to an authorization, and its cookie is one its browser was given. -/
structure Login.Sound (h : Hashes) (begun : List Begun) (taken : List String) (l : Login) :
    Prop where
  goesBack : ∃ a, GoesBack h begun l a
  taken : oidcStateKey l.state ∈ taken
  own : ∀ b, l.origin = .browser b → GivenTo begun b l.cookie

namespace State

def Pending (s : State) (i : Nat) (l : Login) : Prop := (s.requests i).bind Request.login = some l

/-- The states of the sessions that were given. -/
def issuedStates (s : State) : List String := s.issued.map fun x => x.login.state

end State

/-- The sessions in Redis as tickets. -/
def tickets (h : Hashes) : Tickets Begun String OidcSessionData where
  key a := oidcStateKey a.state
  value := h.sessionOf
  deadline a := a.time + oidcStateTtlSecs * 1000

/-- What holds as long as nobody else writes to Redis. -/
structure State.Inv (h : Hashes) (s : State) : Prop where
  tickets : (tickets h).Accounts s.redis s.begun s.taken
  tokens : s.tokens.Nodup
  live : ∀ a ∈ s.begun, a.mode = .live → a.browser.isSome
  jar : ∀ b token, s.jar b = some token → GivenTo s.begun b token
  authorizing : ∀ i b token, s.requests i = some (.authorizing b token) → GivenTo s.begun b token
  pending : ∀ i l, s.Pending i l → l.Sound h s.begun s.taken
  issued : ∀ x ∈ s.issued, x.login.Sound h s.begun s.taken ∧
    x.user.oidc = some (x.info.subject, x.info.issuer) ∧ x.user.deletedAt = none ∧
    x.user.isActive = true
  apart : ∀ i j l l', s.Pending i l → s.Pending j l' → l.state = l'.state → i = j
  unspent : ∀ i l, s.Pending i l → l.state ∉ s.issuedStates
  once : s.issuedStates.Nodup
  identified : ∀ i r, s.requests i = some r → r.Identified

theorem oidcStateKey_inj {x y : String} : oidcStateKey x = oidcStateKey y ↔ x = y := by
  refine ⟨fun heq => ?_, congrArg oidcStateKey⟩
  have hchars := congrArg String.toList heq
  rw [oidcStateKey, oidcStateKey, String.toList_append, String.toList_append] at hchars
  exact String.toList_injective (List.append_cancel_left hchars)

/-- Tokens are told apart. -/
theorem begun_eq_of_token {begun : List Begun} {x y : Begun} {b b' : Nat} {token : String}
    (hnodup : (begun.filterMap fun a => a.browser.map Prod.snd).Nodup) (hx : x ∈ begun)
    (hy : y ∈ begun) (hbx : x.browser = some (b, token)) (hby : y.browser = some (b', token)) :
    x = y := by
  induction begun with
  | nil => cases hx
  | cons z begun ih =>
    have hmem : ∀ {w : Begun} {c : Nat}, w ∈ begun → w.browser = some (c, token) →
        token ∈ begun.filterMap fun a => a.browser.map Prod.snd :=
      fun hw hc => List.mem_filterMap.mpr ⟨_, hw, by rw [hc]; rfl⟩
    rw [List.filterMap_cons] at hnodup
    rcases List.mem_cons.mp hx with hxz | hxl
    · rcases List.mem_cons.mp hy with hyz | hyl
      · exact hxz.trans hyz.symm
      · rw [← hxz, hbx] at hnodup
        exact absurd (hmem hyl hby) (List.nodup_cons.mp hnodup).1
    · rcases List.mem_cons.mp hy with hyz | hyl
      · rw [← hyz, hby] at hnodup
        exact absurd (hmem hxl hbx) (List.nodup_cons.mp hnodup).1
      · refine ih ?_ hxl hyl
        split at hnodup
        · exact hnodup
        · exact (List.nodup_cons.mp hnodup).2

/-! ## What the checks say -/

theorem checkCallback_ok {state : String} {session : OidcSessionData} {cookie : Option String}
    (hok : h.checkCallback state session cookie = .ok ()) :
    h.stateNonceBinding state session.nonce = session.binding ∧
      (session.mode = .live → ∃ expected token, session.browserBinding = some expected ∧
        cookie = some token ∧ h.sha256 token = expected) := by
  obtain ⟨u, hbrowser, hbinding⟩ := bind_ok.mp hok
  refine ⟨not_not.mp (refuseIf_ok.mp hbinding), fun hlive => ?_⟩
  rw [if_pos hlive] at hbrowser
  obtain ⟨expected, hexpected, hrest⟩ := bind_ok.mp hbrowser
  obtain ⟨token, htoken, hsame⟩ := bind_ok.mp hrest
  rw [orRefuse_ok] at hexpected htoken
  exact ⟨expected, token, hexpected, htoken, not_not.mp (refuseIf_ok.mp hsame)⟩

/-! ## Steps that leave the logins alone -/

namespace State.Inv

theorem start (clock : Int) (users : List User) : (State.start clock users).Inv h where
  tickets := Tickets.Accounts.empty _
  tokens := List.nodup_nil
  live _ ha := absurd ha List.not_mem_nil
  jar _ _ hjar := absurd hjar (Option.some_ne_none _).symm
  authorizing _ _ _ hreq := absurd hreq (Option.some_ne_none _).symm
  pending _ _ hpending := absurd hpending (Option.some_ne_none _).symm
  issued _ hx := absurd hx List.not_mem_nil
  apart _ _ _ _ hpending := absurd hpending (Option.some_ne_none _).symm
  unspent _ _ hpending := absurd hpending (Option.some_ne_none _).symm
  once := List.nodup_nil
  identified _ _ hreq := absurd hreq (Option.some_ne_none _).symm

end State.Inv

namespace State

variable {r : Request} {f : Threads Request}

theorem pending_set {l : Login} (hp : { s with requests := s.requests.set i r }.Pending j l) :
    (j = i ∧ r.login = some l) ∨ (j ≠ i ∧ s.Pending j l) := by
  obtain ⟨q, hq, hl⟩ := Option.bind_eq_some_iff.mp hp
  rcases Threads.set_eq_some hq with ⟨rfl, rfl⟩ | ⟨hne, hq⟩
  · exact .inl ⟨rfl, hl⟩
  · exact .inr ⟨hne, Option.bind_eq_some_iff.mpr ⟨q, hq, hl⟩⟩

end State

namespace State.Inv

variable {r : Request}

/-- A request goes on: with the login it had, or with none. -/
theorem goOn (hs : s.Inv h) (hlogin : ∀ l, r.login = some l → s.Pending i l)
    (hauth : ∀ b token, r = .authorizing b token → GivenTo s.begun b token) (hid : r.Identified) :
    { s with requests := s.requests.set i r }.Inv h :=
  { hs with
    authorizing := by
      intro j b token hj
      rcases Threads.set_eq_some hj with ⟨rfl, rfl⟩ | ⟨-, hj⟩
      · exact hauth b token rfl
      · exact hs.authorizing j b token hj
    pending := by
      intro j l hp
      rcases pending_set hp with ⟨rfl, hl⟩ | ⟨-, hp⟩
      · exact hs.pending j l (hlogin l hl)
      · exact hs.pending j l hp
    apart := by
      intro j k l l' hp hp' hstate
      have hbefore : ∀ {j l}, { s with requests := s.requests.set i r }.Pending j l →
          s.Pending j l := by
        intro j l hp
        rcases pending_set hp with ⟨rfl, hl⟩ | ⟨-, hp⟩
        · exact hlogin l hl
        · exact hp
      exact hs.apart j k l l' (hbefore hp) (hbefore hp') hstate
    unspent := by
      intro j l hp
      rcases pending_set hp with ⟨rfl, hl⟩ | ⟨-, hp⟩
      · exact hs.unspent j l (hlogin l hl)
      · exact hs.unspent j l hp
    identified := by
      intro j q hj
      rcases Threads.set_eq_some hj with ⟨rfl, rfl⟩ | ⟨-, hj⟩
      · exact hid
      · exact hs.identified j q hj }

theorem answer (hs : s.Inv h) (i : Nat) (r : Except AppError Unit) : (s.answer i r).Inv h :=
  hs.goOn nofun nofun trivial

theorem tick (hs : s.Inv h) (t : Int) : { s with clock := t }.Inv h := { hs with }

theorem withUsers (hs : s.Inv h) (users : List User) : { s with users := users }.Inv h := { hs with }

/-- The browser has the token it was given. -/
theorem respond (hs : s.Inv h) {b : Nat} {token : String} (hgiven : GivenTo s.begun b token) :
    { s with jar := fun b' => if b' = b then some token else s.jar b' }.Inv h :=
  { hs with
    jar := by
      intro b' token' hjar
      simp only at hjar
      split at hjar
      · next hb =>
        subst hb
        obtain rfl := Option.some.inj hjar
        exact hgiven
      · exact hs.jar b' token' hjar }

/-! ## A new authorization -/

end State.Inv

theorem GivenTo.cons {begun : List Begun} {b : Nat} {token : String} (a : Begun)
    (hg : GivenTo begun b token) : GivenTo (a :: begun) b token :=
  hg.imp fun _ hx => ⟨List.mem_cons_of_mem _ hx.1, hx.2⟩

theorem Login.Sound.begin {begun : List Begun} {taken : List String} (a : Begun)
    (hl : l.Sound h begun taken) : l.Sound h (a :: begun) taken where
  goesBack := hl.goesBack.imp fun _ hx => { hx with begun := List.mem_cons_of_mem _ hx.begun }
  taken := hl.taken
  own := fun b hb => (hl.own b hb).cons a

theorem Login.Sound.take {begun : List Begun} {taken : List String} (key : String)
    (hl : l.Sound h begun taken) : l.Sound h begun (key :: taken) :=
  { hl with taken := List.mem_cons_of_mem _ hl.taken }

theorem State.Inv.store {a : Begun} (hs : s.Inv h) (hfresh : s.Fresh a) (htime : a.time = s.clock)
    (hlive : a.mode = .live → a.browser.isSome) : (s.store h a).Inv h :=
  { hs with
    tickets := by
      refine hs.tickets.issue (i := a) ?_ ?_
      · intro hmem
        obtain ⟨x, hx, hkey⟩ := List.mem_map.mp hmem
        exact hfresh.1 (List.mem_map.mpr ⟨x, hx, oidcStateKey_inj.mp hkey⟩)
      · show a.time + _ = _
        rw [htime]
    tokens := by
      show (List.filterMap _ (a :: s.begun)).Nodup
      rw [List.filterMap_cons]
      split
      · exact hs.tokens
      · next token htoken =>
        exact List.nodup_cons.mpr ⟨hfresh.2.1 token (Option.mem_def.mpr htoken), hs.tokens⟩
    live := List.forall_mem_cons.mpr ⟨hlive, hs.live⟩
    jar := fun b token hjar => (hs.jar b token hjar).cons a
    authorizing := fun i b token hi => (hs.authorizing i b token hi).cons a
    pending := fun i l hp => (hs.pending i l hp).begin a
    issued := fun x hx => ⟨(hs.issued x hx).1.begin a, (hs.issued x hx).2⟩ }

/-! ## A callback -/

namespace State

theorem Inv.takeOut {key : String} {session : OidcSessionData} (hs : s.Inv h)
    (hget : s.redis.get s.clock key = some session) : (s.takeOut key).Inv h :=
  { hs with
    tickets := hs.tickets.take hget
    pending := fun i l hp => (hs.pending i l hp).take key
    issued := fun x hx => ⟨(hs.issued x hx).1.take key, (hs.issued x hx).2⟩ }

/-- A login whose key has just been taken is no other. -/
theorem Inv.begin {origin : Origin} {cookie : Option String} {state : String}
    {session : OidcSessionData} (hs : s.Inv h)
    (hget : s.redis.get s.clock (oidcStateKey state) = some session)
    (hok : h.checkCallback state session cookie = .ok ()) (hlive : session.mode = .live)
    (hown : ∀ b, origin = .browser b → cookie = none ∨ cookie = s.jar b) :
    { s.takeOut (oidcStateKey state) with
      exchanged := (state, session.nonce) :: s.exchanged
      requests := s.requests.set i
        (.exchanging ⟨state, session.nonce, cookie.getD "", origin, s.clock⟩) }.Inv h := by
  obtain ⟨x, hx, hkey, hvalue, htime, hnew⟩ := hs.tickets.of_get hget
  obtain ⟨-, hbrowser⟩ := checkCallback_ok hok
  obtain ⟨expected, token, hexpected, rfl, hsha⟩ := hbrowser hlive
  have hs' := hs.takeOut hget
  have hstate : x.state = state := oidcStateKey_inj.mp hkey
  rw [← hvalue] at hlive hexpected
  -- the keys of all other logins were taken before
  have hother : ∀ {l' : Login}, l'.Sound h s.begun s.taken → l'.state ≠ state := by
    rintro l' hl' rfl
    exact hnew hl'.taken
  have hsound : Login.Sound h s.begun (oidcStateKey state :: s.taken)
      ⟨state, session.nonce, token, origin, s.clock⟩ := by
    refine ⟨⟨x, hx, hlive, hstate, ?_, htime, ?_⟩, List.mem_cons_self, ?_⟩
    · exact congrArg OidcSessionData.nonce hvalue
    · obtain ⟨given, hgiven, hsame⟩ := Option.map_eq_some_iff.mp hexpected
      exact ⟨given.1, given.2, hgiven, hsha.trans hsame.symm⟩
    · intro b hb
      rcases hown b hb with hnone | hjar
      · cases hnone
      · exact hs.jar b token hjar.symm
  exact
    { hs' with
      authorizing := by
        intro j b token' hj
        rcases Threads.set_eq_some hj with ⟨-, hj⟩ | ⟨-, hj⟩
        · cases hj
        · exact hs'.authorizing j b token' hj
      pending := by
        intro j l' hp
        rcases pending_set hp with ⟨-, hl⟩ | ⟨-, hp⟩
        · obtain rfl := Option.some.inj hl
          exact hsound
        · exact hs'.pending j l' hp
      apart := by
        intro j k l₁ l₂ hp hp' heq
        rcases pending_set hp with ⟨hj, hl⟩ | ⟨-, hold⟩
        · rcases pending_set hp' with ⟨hk, -⟩ | ⟨-, hold'⟩
          · exact hj.trans hk.symm
          · obtain rfl := Option.some.inj hl
            exact absurd heq.symm (hother (hs.pending k l₂ hold'))
        · rcases pending_set hp' with ⟨-, hl'⟩ | ⟨-, hold'⟩
          · obtain rfl := Option.some.inj hl'
            exact absurd heq (hother (hs.pending j l₁ hold))
          · exact hs.apart j k l₁ l₂ hold hold' heq
      unspent := by
        intro j l' hp
        rcases pending_set hp with ⟨-, hl⟩ | ⟨-, hp⟩
        · obtain rfl := Option.some.inj hl
          intro hmem
          obtain ⟨y, hy, hstate⟩ := List.mem_map.mp hmem
          exact hother (hs.issued y hy).1 hstate
        · exact hs.unspent j l' hp
      identified := by
        intro j q hj
        rcases Threads.set_eq_some hj with ⟨-, rfl⟩ | ⟨-, hj⟩
        · exact trivial
        · exact hs.identified j q hj }

theorem Inv.callback {origin : Origin} {cookie : Option String} {state : String} (hs : s.Inv h)
    (hown : ∀ b, origin = .browser b → cookie = none ∨ cookie = s.jar b) :
    (s.callback h i origin cookie state).Inv h := by
  unfold State.callback
  split
  · have hdrop : { s with redis := s.redis.del (oidcStateKey state) }.Inv h :=
      { hs with tickets := hs.tickets.drop _ }
    exact hdrop.answer i _
  · next session hget =>
    have hs' := hs.takeOut hget
    split
    · exact hs'.answer i _
    · next hok =>
      unfold State.accept
      simp only
      split
      · next hlive => exact hs.begin hget hok hlive hown
      · have hexchanged : { s.takeOut (oidcStateKey state) with
            exchanged := (state, session.nonce) :: s.exchanged }.Inv h := { hs' with }
        split
        · exact hexchanged.answer i _
        · exact hexchanged.answer i _

/-! ## The end of a sign-on -/

/-- The login of a request that signs in has been given no session before. -/
theorem Inv.signIn {info : OidcUserInfo} {u : User} (hs : s.Inv h)
    (hi : s.requests i = some (.signingIn l info u)) (hactive : u.isActive = true) :
    ({ s with issued := ⟨l, info, u⟩ :: s.issued }.answer i (.ok ())).Inv h := by
  have hpending : s.Pending i l := by rw [Pending, hi]; rfl
  have hid := hs.identified i _ hi
  -- the other requests have other states
  have hbefore : ∀ {j l'}, ({ s with issued := ⟨l, info, u⟩ :: s.issued }.answer i (.ok ())).Pending
      j l' → j ≠ i ∧ s.Pending j l' := by
    intro j l' hp
    rcases pending_set hp with ⟨-, hl⟩ | hold
    · cases hl
    · exact hold
  exact
    { hs with
      authorizing := by
        intro j b token hj
        rcases Threads.set_eq_some hj with ⟨-, hj⟩ | ⟨-, hj⟩
        · cases hj
        · exact hs.authorizing j b token hj
      pending := fun j l' hp => hs.pending j l' (hbefore hp).2
      issued := List.forall_mem_cons.mpr
        ⟨⟨hs.pending i l hpending, hid.1, hid.2, hactive⟩, hs.issued⟩
      apart := fun j k l₁ l₂ hp hp' => hs.apart j k l₁ l₂ (hbefore hp).2 (hbefore hp').2
      unspent := by
        intro j l' hp hmem
        obtain ⟨hne, hold⟩ := hbefore hp
        rcases List.mem_cons.mp hmem with heq | hmem
        · exact hne (hs.apart j i l' l hold hpending heq)
        · exact hs.unspent j l' hold hmem
      once := List.nodup_cons.mpr ⟨hs.unspent i l hpending, hs.once⟩
      identified := by
        intro j q hj
        rcases Threads.set_eq_some hj with ⟨-, rfl⟩ | ⟨-, hj⟩
        · exact trivial
        · exact hs.identified j q hj }

end State

/-! ## Whole runs -/

/-- Nobody else writes to Redis. -/
def Untampered : Action → Prop
  | .tamper _ _ => False
  | _ => True

instance : DecidablePred Untampered := fun a => by
  cases a <;> unfold Untampered <;> infer_instance

theorem findByOidcIdentity_some {users : List User} {subject issuer : String} {u : User}
    (hfind : findByOidcIdentity users subject issuer = some u) :
    u.oidc = some (subject, issuer) := by
  have hid := List.find?_some hfind
  exact of_decide_eq_true hid

theorem insertOidcUser_ok {users : List User} {id : Uuid} {subject issuer email displayName : String}
    {u : User} (hok : insertOidcUser users id email displayName subject issuer = .ok u) :
    u.oidc = some (subject, issuer) ∧ u.deletedAt = none := by
  obtain ⟨-, hu⟩ := refuseIf_bind_ok.mp hok
  obtain rfl := pure_ok.mp hu
  exact ⟨rfl, rfl⟩

/-- Every step of the gateway keeps the invariant. -/
theorem State.Inv.step (hs : s.Inv h) (ha : Untampered a) (hstep : s.step h a = some s') :
    s'.Inv h := by
  cases a with
  | tick t =>
    simp only [State.step, Option.ite_none_right_eq_some, Option.some.injEq] at hstep
    obtain ⟨-, rfl⟩ := hstep
    exact hs.tick t
  | authorize i b state nonce token stored =>
    simp only [State.step] at hstep
    split at hstep
    · simp only [Option.ite_none_right_eq_some] at hstep
      obtain ⟨hfresh, hstep⟩ := hstep
      have hstored := hs.store hfresh rfl fun _ => rfl
      split at hstep
      · obtain rfl := Option.some.inj hstep
        refine hstored.goOn nofun ?_ trivial
        rintro b' token' heq
        cases heq
        exact ⟨_, List.mem_cons_self, rfl⟩
      · obtain rfl := Option.some.inj hstep
        exact hstored.answer i _
    · cases hstep
  | respond i =>
    simp only [State.step] at hstep
    split at hstep
    · next b token hi =>
      obtain rfl := Option.some.inj hstep
      exact (hs.respond (hs.authorizing i b token hi)).answer i _
    · cases hstep
  | testLogin state nonce snapshot =>
    simp only [State.step, Option.ite_none_right_eq_some, Option.some.injEq] at hstep
    obtain ⟨hfresh, rfl⟩ := hstep
    exact hs.store hfresh rfl nofun
  | callback i origin cookie state =>
    simp only [State.step] at hstep
    split at hstep
    · split at hstep
      · simp only [Option.ite_none_right_eq_some, Option.some.injEq] at hstep
        obtain ⟨hcookie, rfl⟩ := hstep
        refine hs.callback fun b' heq => ?_
        cases heq
        exact hcookie
      · obtain rfl := Option.some.inj hstep
        exact hs.callback nofun
    · cases hstep
  | exchange i answer =>
    simp only [State.step] at hstep
    split at hstep
    · next l hi =>
      split at hstep
      · obtain rfl := Option.some.inj hstep
        exact hs.goOn (fun l' hl => by rw [State.Pending, hi]; exact hl) nofun trivial
      · obtain rfl := Option.some.inj hstep
        exact hs.answer i _
    · cases hstep
  | look i =>
    simp only [State.step] at hstep
    split at hstep
    · next l info hi =>
      have hlogin : s.Pending i l := by rw [State.Pending, hi]; rfl
      split at hstep
      · next u hfind =>
        split at hstep
        · obtain rfl := Option.some.inj hstep
          exact hs.answer i _
        · next hdeleted =>
          obtain rfl := Option.some.inj hstep
          refine hs.goOn (fun l' hl => Option.some.inj hl ▸ hlogin) nofun ?_
          exact ⟨findByOidcIdentity_some hfind, Option.not_isSome_iff_eq_none.mp hdeleted⟩
      · obtain rfl := Option.some.inj hstep
        exact hs.goOn (fun l' hl => Option.some.inj hl ▸ hlogin) nofun trivial
    · cases hstep
  | provision i id =>
    simp only [State.step] at hstep
    split at hstep
    · next l info hi =>
      split at hstep
      · obtain rfl := Option.some.inj hstep
        exact hs.answer i _
      · next u hu =>
        obtain rfl := Option.some.inj hstep
        obtain ⟨email, -, hinsert⟩ := bind_ok.mp hu
        refine (hs.withUsers (u :: s.users)).goOn ?_ nofun (insertOidcUser_ok hinsert)
        intro l' hl
        rw [State.Pending, hi]
        exact hl
    · cases hstep
  | assign i =>
    simp only [State.step] at hstep
    split at hstep
    · next l info u hi =>
      obtain rfl := Option.some.inj hstep
      refine hs.goOn (fun l' hl => ?_) nofun (hs.identified i (.assigning l info u) hi)
      rw [State.Pending, hi]
      exact hl
    · cases hstep
  | signIn i =>
    simp only [State.step] at hstep
    split at hstep
    · next l info u hi =>
      split at hstep
      · next hactive =>
        obtain rfl := Option.some.inj hstep
        exact hs.signIn hi hactive
      · obtain rfl := Option.some.inj hstep
        exact hs.answer i _
    · cases hstep
  | fail i e =>
    simp only [State.step] at hstep
    split at hstep
    · cases hstep
    · cases hstep
    · obtain rfl := Option.some.inj hstep
      exact hs.answer i _
  | others users =>
    obtain rfl := Option.some.inj hstep
    exact hs.withUsers users
  | tamper key session => exact ha.elim

/-- A step of the gateway. -/
def Next (h : Hashes) (s : State) (a : Action) (s' : State) : Prop :=
  Untampered a ∧ s.step h a = some s'

/--
In every run in which nobody else writes to Redis, a session is given for the one authorization that
has its state, a live one, within ten minutes of it and once, to the account of the identity that the
provider answered with.
A browser that is given the session has begun the authorization, unless two tokens have one hash.
-/
theorem session_bound {clock : Int} {users : List User} {x : Issued}
    (hrun : Steps (Next h) (State.start clock users) as s) (hx : x ∈ s.issued) :
    ∃ a ∈ s.begun, a.mode = .live ∧ a.state = x.login.state ∧ a.nonce = x.login.nonce ∧
      (∀ a' ∈ s.begun, a'.state = x.login.state → a' = a) ∧
      x.login.takenAt ≤ a.time + 600000 ∧
      (∃ b token, a.browser = some (b, token) ∧ h.sha256 x.login.cookie = h.sha256 token ∧
        ((∀ c ∈ s.tokens, h.sha256 c = h.sha256 token → c = token) →
          ∀ b', x.login.origin = .browser b' → b' = b)) ∧
      (∀ y ∈ s.issued, y.login.state = x.login.state → y = x) ∧
      x.user.oidc = some (x.info.subject, x.info.issuer) ∧ x.user.deletedAt = none ∧
      x.user.isActive = true := by
  have hs : s.Inv h := hrun.invariant (I := State.Inv h)
    (fun _ _ _ hs hnext => hs.step hnext.1 hnext.2) (State.Inv.start clock users)
  obtain ⟨hsound, huser⟩ := hs.issued x hx
  obtain ⟨a, ha⟩ := hsound.goesBack
  obtain ⟨b, token, hbrowser, hsha⟩ := ha.cookie
  refine ⟨a, ha.begun, ha.live, ha.state, ha.nonce, ?_, ha.inTime, ⟨b, token, hbrowser, hsha, ?_⟩, ?_,
    huser⟩
  · intro a' ha' hstate
    exact hs.tickets.eq_of_key ha' ha.begun (congrArg oidcStateKey (hstate.trans ha.state.symm))
  · intro hcollision b' horigin
    obtain ⟨a', ha', hbrowser'⟩ := hsound.own b' horigin
    have htoken : x.login.cookie ∈ s.tokens :=
      List.mem_filterMap.mpr ⟨a', ha', by rw [hbrowser']; rfl⟩
    rw [hcollision _ htoken hsha] at hbrowser'
    obtain rfl := begun_eq_of_token hs.tokens ha' ha.begun hbrowser' hbrowser
    rw [hbrowser] at hbrowser'
    exact (Prod.mk.inj (Option.some.inj hbrowser')).1.symm
  · exact fun y hy hstate => List.inj_on_of_nodup_map hs.once hy hx hstate

/-- A sign-on of browser 1, from the authorization to the session. -/
def signOn : List Action :=
  [.authorize 0 1 "s1" "n1" "t1" true, .respond 0, .tick 5000,
    .callback 1 (.browser 1) (some "t1") "s1", .exchange 1 (some ⟨"42", none, some "A", "idp"⟩),
    .look 1, .provision 1 7, .assign 1, .signIn 1]

/-- SHA-256, HMAC-SHA256 under the key of the bytes 0 to 31, and UUID version 5, of what is hashed
here. -/
def someHashes : Hashes where
  sha256
    | "t1" => "628b49d96dcde97a430dd4f597705899e09a968f793491e4b704cae33a40dc02"
    | "t2" => "c44474038d459e40e4714afefa7bf8dae9f9834b22f5e8ec1dd434ecb62b512e"
    | _ => ""
  hmac
    | "s1:n1" => "6615fbefbfd2657ff0e2735fa769e7332502037dab2da43c07dee37bdfce10f3"
    | "s1:n9" => "58debd453a331732f4dd3d888b08e7ecc08de02f8a4e21c6a015996eddc5a977"
    | _ => ""
  uuidV5 _ := "99e45231-161b-51ad-9469-1cde6b7c0ec1"

theorem session_bound_once : ∃ s, Steps (Next someHashes) (State.start 0 []) signOn s ∧
    s.issuedStates = ["s1"] ∧ ∀ x ∈ s.issued, ∃ a ∈ s.begun, a.mode = .live ∧
      a.state = x.login.state ∧ a.nonce = x.login.nonce ∧
      (∀ a' ∈ s.begun, a'.state = x.login.state → a' = a) ∧ x.login.takenAt ≤ a.time + 600000 ∧
      (∃ b token, a.browser = some (b, token) ∧
        someHashes.sha256 x.login.cookie = someHashes.sha256 token ∧
        ((∀ c ∈ s.tokens, someHashes.sha256 c = someHashes.sha256 token → c = token) →
          ∀ b', x.login.origin = .browser b' → b' = b)) ∧
      (∀ y ∈ s.issued, y.login.state = x.login.state → y = x) ∧
      x.user.oidc = some (x.info.subject, x.info.issuer) ∧ x.user.deletedAt = none ∧
      x.user.isActive = true := by
  have hrun : (signOn.foldlM (fun s a => if Untampered a then s.step someHashes a else none)
      (State.start 0 [])).map State.issuedStates = some ["s1"] := by
    decide +kernel
  obtain ⟨s, hs, hissued⟩ := Option.map_eq_some_iff.mp hrun
  have hsteps : Steps (Next someHashes) _ _ s := .of_foldlM_if hs
  exact ⟨s, hsteps, hissued, fun x hx => session_bound hsteps hx⟩

/-! ## Someone else writes to Redis -/

/-- Without the key, the bindings that can be written are those that were made. -/
def Forgeable (h : Hashes) (s : State) : Action → Prop
  | .tamper _ entry =>
    ∀ e ∈ entry, e.value.binding ∈ s.macs ∨ ∀ m, h.hmac m ≠ e.value.binding
  | _ => True

/-- What a callback makes the HMAC of, to check a session. -/
def State.checked (s : State) : Action → Option String
  | .callback _ _ _ state =>
    (s.redis.get s.clock (oidcStateKey state)).map fun session => state ++ ":" ++ session.nonce
  | _ => none

/-- It has the HMAC of what was signed for an authorization only if it is the same. -/
def CollisionFree (h : Hashes) (s : State) (a : Action) : Prop :=
  ∀ m ∈ s.checked a, ∀ b ∈ s.begun, h.hmac m = h.hmac (b.state ++ ":" ++ b.nonce) →
    m = b.state ++ ":" ++ b.nonce

/-- A step of the gateway, or of someone who writes to Redis. -/
def NextTampered (h : Hashes) (s : State) (a : Action) (s' : State) : Prop :=
  Forgeable h s a ∧ CollisionFree h s a ∧ s.step h a = some s'

structure State.Bonded (h : Hashes) (s : State) : Prop where
  colons : ∀ a ∈ s.begun, ':' ∉ a.state.toList ∧ ':' ∉ a.nonce.toList
  macs : ∀ m ∈ s.macs, ∃ a ∈ s.begun, m = h.stateNonceBinding a.state a.nonce
  stored : ∀ k e, s.redis k = some e →
    e.value.binding ∈ s.macs ∨ ∀ m, h.hmac m ≠ e.value.binding
  exchanged : ∀ p ∈ s.exchanged, ∃ a ∈ s.begun, a.state = p.1 ∧ a.nonce = p.2

/-- A pair that is joined by a colon comes apart at the colon. -/
theorem append_colon_inj {x y x' y' : List Char} (hx : ':' ∉ x) (hx' : ':' ∉ x')
    (heq : x ++ ':' :: y = x' ++ ':' :: y') : x = x' ∧ y = y' := by
  induction x generalizing x' with
  | nil =>
    cases x' with
    | nil => exact ⟨rfl, (List.cons.inj heq).2⟩
    | cons c x' => exact absurd ((List.cons.inj heq).1 ▸ List.mem_cons_self) hx'
  | cons c x ih =>
    cases x' with
    | nil => exact absurd ((List.cons.inj heq).1 ▸ List.mem_cons_self) hx
    | cons c' x' =>
      obtain ⟨rfl, htail⟩ := List.cons.inj heq
      obtain ⟨rfl, hy⟩ := ih (fun hmem => hx (List.mem_cons_of_mem _ hmem))
        (fun hmem => hx' (List.mem_cons_of_mem _ hmem)) htail
      exact ⟨rfl, hy⟩

/-- The first part has as many colons as the whole has more than the second. -/
theorem notMem_of_append_colon {x y x' y' : List Char} (hx' : ':' ∉ x') (hy' : ':' ∉ y')
    (heq : x ++ ':' :: y = x' ++ ':' :: y') : ':' ∉ x := by
  intro hmem
  have hcount := congrArg (List.count ':') heq
  have hpos := List.count_pos_iff.mpr hmem
  rw [List.count_append, List.count_append, List.count_cons_self, List.count_cons_self,
    List.count_eq_zero.mpr hx', List.count_eq_zero.mpr hy'] at hcount
  omega

theorem stateNonce_inj {state nonce state' nonce' : String} (hstate' : ':' ∉ state'.toList)
    (hnonce' : ':' ∉ nonce'.toList) (heq : state ++ ":" ++ nonce = state' ++ ":" ++ nonce') :
    state = state' ∧ nonce = nonce' := by
  have hchars := congrArg String.toList heq
  simp only [String.toList_append, List.append_assoc] at hchars
  have hstate := notMem_of_append_colon hstate' hnonce' hchars
  obtain ⟨hs, hn⟩ := append_colon_inj hstate hstate' hchars
  exact ⟨String.toList_injective hs, String.toList_injective hn⟩

namespace State.Bonded

theorem start (clock : Int) (users : List User) : (State.start clock users).Bonded h where
  colons _ ha := absurd ha List.not_mem_nil
  macs _ hx := absurd hx List.not_mem_nil
  stored _ _ hstored := absurd hstored (Option.some_ne_none _).symm
  exchanged _ hx := absurd hx List.not_mem_nil

theorem del (hs : s.Bonded h) (key : String) :
    { s with redis := s.redis.del key }.Bonded h :=
  { hs with stored := Store.forall_put hs.stored nofun }

theorem store {a : Begun} (hs : s.Bonded h) (hfresh : s.Fresh a) : (s.store h a).Bonded h where
  colons := List.forall_mem_cons.mpr ⟨hfresh.2.2, hs.colons⟩
  macs := List.forall_mem_cons.mpr ⟨⟨a, List.mem_cons_self, rfl⟩, fun m hm =>
    (hs.macs m hm).imp fun _ hx => ⟨List.mem_cons_of_mem _ hx.1, hx.2⟩⟩
  stored := by
    refine Store.forall_put (fun k e he => (hs.stored k e he).imp_left (List.mem_cons_of_mem _)) ?_
    rintro e he
    obtain rfl := Option.some.inj he
    exact .inl List.mem_cons_self
  exchanged := fun p hp =>
    (hs.exchanged p hp).imp fun _ hx => ⟨List.mem_cons_of_mem _ hx.1, hx.2⟩

/-- A session whose binding holds was made for the state it is presented with. -/
theorem accept {origin : Origin} {cookie : Option String} {state : String}
    {session : OidcSessionData} (hs : s.Bonded h)
    (hfree : CollisionFree h s (.callback i origin cookie state))
    (hget : s.redis.get s.clock (oidcStateKey state) = some session)
    (hok : h.checkCallback state session cookie = .ok ()) :
    ((s.takeOut (oidcStateKey state)).accept i origin cookie state session).Bonded h := by
  have hexchanged : ∃ a ∈ s.begun, a.state = state ∧ a.nonce = session.nonce := by
    obtain ⟨e, he, -, rfl⟩ := Store.get_eq_some.mp hget
    obtain ⟨hbinding, -⟩ := checkCallback_ok hok
    rcases hs.stored _ e he with hmac | hforged
    · obtain ⟨a, ha, hmade⟩ := hs.macs _ hmac
      obtain ⟨hstate, hnonce⟩ := hs.colons a ha
      have hchecked : s.checked (.callback i origin cookie state) =
          some (state ++ ":" ++ e.value.nonce) := congrArg (Option.map _) hget
      have hsame := hfree _ hchecked a ha (hbinding.trans hmade)
      obtain ⟨rfl, hn⟩ := stateNonce_inj hstate hnonce hsame
      exact ⟨a, ha, rfl, hn.symm⟩
    · exact absurd hbinding (hforged _)
  have hs' := hs.del (oidcStateKey state)
  have hmore : ∀ p ∈ (state, session.nonce) :: s.exchanged, ∃ a ∈ s.begun,
      a.state = p.1 ∧ a.nonce = p.2 := List.forall_mem_cons.mpr ⟨hexchanged, hs.exchanged⟩
  unfold State.accept
  simp only
  split
  · exact ⟨hs'.colons, hs'.macs, hs'.stored, hmore⟩
  · split
    · exact ⟨hs'.colons, hs'.macs, hs'.stored, hmore⟩
    · exact ⟨hs'.colons, hs'.macs, hs'.stored, hmore⟩

theorem callback {origin : Origin} {cookie : Option String} {state : String} (hs : s.Bonded h)
    (hfree : CollisionFree h s (.callback i origin cookie state)) :
    (s.callback h i origin cookie state).Bonded h := by
  have hs' := hs.del (oidcStateKey state)
  unfold State.callback
  split
  · exact { hs' with }
  · next session hget =>
    split
    · exact { hs' with }
    · next hok => exact hs.accept hfree hget hok

end State.Bonded

/-- The steps that write or take a session. -/
def Action.touchesRedis : Action → Bool
  | .authorize .. => true
  | .testLogin .. => true
  | .callback .. => true
  | .tamper .. => true
  | _ => false

theorem step_frame (hstep : s.step h a = some s') (ha : a.touchesRedis = false) :
    s'.redis = s.redis ∧ s'.begun = s.begun ∧ s'.macs = s.macs ∧ s'.exchanged = s.exchanged := by
  cases a with
  | authorize => cases ha
  | testLogin => cases ha
  | callback => cases ha
  | tamper => cases ha
  | _ => grind [State.step, State.answer]

theorem State.Bonded.step (hs : s.Bonded h) (ha : Forgeable h s a) (hfree : CollisionFree h s a)
    (hstep : s.step h a = some s') : s'.Bonded h := by
  have hframe (ha : a.touchesRedis = false) : s'.Bonded h := by
    obtain ⟨hredis, hbegun, hmacs, hexchanged⟩ := step_frame hstep ha
    exact ⟨hbegun ▸ hs.colons, hmacs ▸ hbegun ▸ hs.macs, hmacs ▸ hredis ▸ hs.stored,
      hexchanged ▸ hbegun ▸ hs.exchanged⟩
  cases a with
  | authorize i b state nonce token stored =>
    simp only [State.step] at hstep
    split at hstep
    · simp only [Option.ite_none_right_eq_some] at hstep
      obtain ⟨hfresh, hstep⟩ := hstep
      have hstored := hs.store hfresh
      split at hstep
      · obtain rfl := Option.some.inj hstep
        exact { hstored with }
      · obtain rfl := Option.some.inj hstep
        exact { hstored with }
    · cases hstep
  | testLogin state nonce snapshot =>
    simp only [State.step, Option.ite_none_right_eq_some, Option.some.injEq] at hstep
    obtain ⟨hfresh, rfl⟩ := hstep
    exact hs.store hfresh
  | callback i origin cookie state =>
    simp only [State.step] at hstep
    split at hstep
    · split at hstep
      · simp only [Option.ite_none_right_eq_some, Option.some.injEq] at hstep
        obtain ⟨-, rfl⟩ := hstep
        exact hs.callback hfree
      · obtain rfl := Option.some.inj hstep
        exact hs.callback hfree
    · cases hstep
  | tamper key entry =>
    obtain rfl := Option.some.inj hstep
    exact { hs with stored := Store.forall_put hs.stored ha }
  | tick | respond | exchange | look | provision | assign | signIn | fail | others =>
    exact hframe rfl

/--
In every run, whatever someone without the encryption key writes to Redis in between, a code is
exchanged with the nonce that was made together with the state of the callback; as long as no
callback checks something else that has the HMAC of what was signed.
-/
theorem exchanged_as_begun {clock : Int} {users : List User} {state nonce : String}
    (hrun : Steps (NextTampered h) (State.start clock users) as s)
    (hex : (state, nonce) ∈ s.exchanged) : ∃ a ∈ s.begun, a.state = state ∧ a.nonce = nonce :=
  (hrun.invariant (I := State.Bonded h)
    (fun _ _ _ hs hnext => hs.step hnext.1 hnext.2.1 hnext.2.2) (State.Bonded.start clock users)).exchanged
    _ hex

/-- The session of a sign-on that is over is put back under its state, for another browser and for
good; then with another nonce. -/
def signOnAgain : List Action :=
  let binding := "6615fbefbfd2657ff0e2735fa769e7332502037dab2da43c07dee37bdfce10f3"
  let cookie := "c44474038d459e40e4714afefa7bf8dae9f9834b22f5e8ec1dd434ecb62b512e"
  signOn ++ [Action.tamper "oidc:state:s1" (some ⟨⟨"n1", binding, some cookie, .live, none⟩, none⟩),
    Action.callback 2 .other (some "t2") "s1",
    Action.tamper "oidc:state:s1" (some ⟨⟨"n9", binding, some cookie, .live, none⟩, none⟩),
    Action.callback 3 .other (some "t2") "s1"]

/-- What is written has a binding that was made, and what is checked is one of two. -/
def Replayed (s : State) (a : Action) : Prop :=
  (∀ m ∈ s.checked a, m = "s1:n1" ∨ m = "s1:n9") ∧
    (s.begun.all fun b => b.state ++ ":" ++ b.nonce = "s1:n1") = true ∧
    match a with
    | .tamper _ entry => ∀ e ∈ entry, e.value.binding ∈ s.macs
    | _ => True

instance (s : State) (a : Action) : Decidable (Replayed s a) := by
  cases a <;> unfold Replayed <;> infer_instance

/-- The nonce is exchanged again, and another one is refused. -/
theorem exchanged_as_begun_once :
    ∃ s, Steps (NextTampered someHashes) (State.start 0 []) signOnAgain s ∧
      s.exchanged = [("s1", "n1"), ("s1", "n1")] ∧
      ∃ a ∈ s.begun, a.state = "s1" ∧ a.nonce = "n1" := by
  have hrun : (signOnAgain.foldlM (fun s a => if Replayed s a then s.step someHashes a else none)
      (State.start 0 [])).map State.exchanged = some [("s1", "n1"), ("s1", "n1")] := by
    decide +kernel
  obtain ⟨s, hs, hexchanged⟩ := Option.map_eq_some_iff.mp hrun
  have hsteps : Steps (NextTampered someHashes) (State.start 0 []) signOnAgain s := by
    refine (Steps.of_foldlM_if hs).mono fun s a s' hnext => ⟨?_, ?_, hnext.2⟩
    · cases a with
      | tamper key entry => exact fun e he => .inl (hnext.1.2.2 e he)
      | _ => trivial
    · intro m hm b hb hsame
      have hmade : b.state ++ ":" ++ b.nonce = "s1:n1" :=
        of_decide_eq_true (List.all_eq_true.mp hnext.1.2.1 b hb)
      rw [hmade] at hsame ⊢
      rcases hnext.1.1 m hm with rfl | rfl
      · rfl
      · exact absurd hsame (by decide)
  exact ⟨s, hsteps, hexchanged, exchanged_as_begun hsteps (hexchanged ▸ List.mem_cons_self)⟩

end ThinkWatch.Auth.Sso
