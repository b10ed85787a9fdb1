import ThinkWatch.Mcp.Calls

/-!
# Cached responses and changed credentials

When a credential has changed, the lanes of the cache that it served are wiped. The answer to a call
that went upstream with the old credential is written to the cache whenever it arrives, also after
that. In the runs in which no answer comes so late, no call is served a response that was fetched
with a credential whose change has been followed by the wipe.
-/

namespace ThinkWatch.Mcp.Calls

open Lib Policy
open Caching (Deployment Target ToolsCall callerScope checkCache_writeCache writeCache_ne
  writeCache_of_not_keeps)

variable {β : Type} {d : Deployment β} {s s' t : Runtime β} {a : Action β} {as : List (Action β)}
  {locator : CredLocator} {serverId serverId' : Uuid} {caller caller' : Option CallerScope}

/-! ## Lanes -/

/-- The lanes that are wiped after a change of the credential have the caller's keys. -/
def Covers (serverId : Uuid) (caller : Option CallerScope) : CredLocator → Prop
  | .perUser id userId _ => id = serverId ∧ caller.map (·.userId) = some userId
  | .adminShared id => id = serverId

theorem covers_congr {hashing : Hashing} {r r' : JsonRpcRequest}
    (h : cacheKey hashing serverId caller r = cacheKey hashing serverId' caller' r') :
    Covers serverId caller locator ↔ Covers serverId' caller' locator := by
  obtain ⟨hid, hparts, -⟩ := cacheKey_inj h
  have huser := userPart_inj (congrArg Prod.fst hparts)
  cases locator with
  | perUser id userId label =>
    unfold Covers
    rw [hid, huser]
  | adminShared id =>
    unfold Covers
    rw [hid]

/-- The wipe takes what it covers, and nothing else. -/
theorem invalidateAfterChange_cacheKey (hashing : Hashing) (serverId : Uuid)
    (caller : Option CallerScope) (r : JsonRpcRequest) (locator : CredLocator)
    (cache : ResponseCache) :
    (Covers serverId caller locator →
      cache.invalidateAfterChange locator (cacheKey hashing serverId caller r) = none) ∧
    (¬ Covers serverId caller locator →
      cache.invalidateAfterChange locator (cacheKey hashing serverId caller r) =
        cache (cacheKey hashing serverId caller r)) := by
  cases locator with
  | perUser id userId label =>
    unfold Covers ResponseCache.invalidateAfterChange
    simp only [invalidateUserLane_cacheKey]
    exact ⟨fun h => if_pos h, fun h => if_neg h⟩
  | adminShared id =>
    unfold Covers ResponseCache.invalidateAfterChange
    simp only [invalidateServerLane_cacheKey]
    exact ⟨fun h => if_pos h, fun h => if_neg h⟩

/-! ## What is claimed -/

/-- The changes of the credential after which the cache was wiped came before it was used. -/
def Settled (s : Runtime β) (serverId : Uuid) (caller : Option CallerScope) (used : Epoch) : Prop :=
  Covers serverId caller used.locator → s.settled used.locator ≤ used.version

/--
A response from the cache was not fetched with a credential that had changed when it was wiped.
-/
def Current (d : Deployment β) (s : Runtime β) : Action β → Prop
  | .check _ c now => ∀ server request response used, d.upstreamRequest c = .ok (server, request) →
      d.checkCache s.cache server c request now = some response →
      s.source (cacheKey d.hashing server.id (callerScope server c) request) = some used →
        Settled s server.id (callerScope server c) used
  | _ => True

/-- An answer that is kept arrives before the cache is wiped for a change of its credential. -/
def InTime (d : Deployment β) (s : Runtime β) : Action β → Prop
  | .reply i response true _ => ∀ x auth used, s.calls i = some (.upstream x auth (some used)) →
      x.keeps d response = true → Settled s x.server.id (callerScope x.server x.call) used
  | _ => True

/-! ## The invariant -/

/-- What is cached was fetched with a credential that has not changed, as far as wipes have told. -/
def Kept (d : Deployment β) (s : Runtime β) : Prop :=
  ∀ serverId caller request used,
    s.cache (cacheKey d.hashing serverId caller request) ≠ none →
    s.source (cacheKey d.hashing serverId caller request) = some used →
      Settled s serverId caller used

theorem Kept.congr (h : Kept d s)
    (hcache : ∀ k, s'.cache k = none ∨ s'.cache k = s.cache k) (hsource : s'.source = s.source)
    (hsettled : s'.settled = s.settled) : Kept d s' := by
  intro serverId caller request used hk hused
  unfold Settled
  rw [hsettled]
  rw [hsource] at hused
  refine h serverId caller request used ?_ hused
  rcases hcache (cacheKey d.hashing serverId caller request) with hnone | hsame
  · exact absurd hnone hk
  · rwa [← hsame]

theorem Kept.wipe (h : Kept d s) (changed : Epoch) : Kept d (s.wipe changed) := by
  intro serverId caller request used hk hused hcovers
  have hwipe :=
    invalidateAfterChange_cacheKey d.hashing serverId caller request changed.locator s.cache
  by_cases hlocator : used.locator = changed.locator
  · rw [hlocator] at hcovers
    exact absurd (hwipe.1 hcovers) hk
  · show Function.update s.settled changed.locator
      (max (s.settled changed.locator) changed.version) used.locator ≤ used.version
    rw [Function.update_of_ne hlocator]
    refine h serverId caller request used (fun hnone => hk ?_) hused hcovers
    by_cases hchanged : Covers serverId caller changed.locator
    · exact hwipe.1 hchanged
    · exact (hwipe.2 hchanged).trans hnone

theorem Kept.keep {x : Target} {used : Option Epoch} {response : JsonRpcResponse} {now : Int}
    (h : Kept d s)
    (hin : ∀ u, used = some u → x.keeps d response = true →
      Settled s x.server.id (callerScope x.server x.call) u) :
    Kept d (s.keep d x used response now) := by
  intro serverId caller request u hk hused
  simp only [Runtime.keep] at hk hused
  cases hkeeps : x.keeps d response with
  | false =>
    rw [hkeeps, if_neg Bool.false_ne_true] at hused
    rw [writeCache_of_not_keeps hkeeps] at hk
    exact h serverId caller request u hk hused
  | true =>
    rw [hkeeps, if_pos rfl] at hused
    by_cases hkey : cacheKey d.hashing serverId caller request = x.key d
    · rw [hkey, Function.update_self] at hused
      exact fun hcovers => hin u hused hkeeps ((covers_congr hkey).mp hcovers)
    · rw [Function.update_of_ne hkey] at hused
      rw [writeCache_ne hkey] at hk
      exact h serverId caller request u hk hused

theorem Kept.step (h : Kept d s) (hin : InTime d s a) (hstep : Step d s a s') : Kept d s' := by
  have hsame : ∀ {u : Runtime β}, u.cache = s.cache → u.source = s.source →
      u.settled = s.settled → Kept d u := fun hcache hsource hsettled =>
    h.congr (fun k => .inr (congrFun hcache k)) hsource hsettled
  cases hstep with
  | unknown | hit | miss | fetch | lock | recheck | ask | answer | store | storeRefused | delete
  | deleteRefused | broken | revoke => exact hsame rfl rfl rfl
  | wipe => exact (h.wipe _).congr (fun _ => .inr rfl) rfl rfl
  | wipeRevoked => exact (h.wipe _).congr (fun _ => .inr rfl) rfl rfl
  | reply at_ =>
    exact (h.keep fun u hu hkeeps => hin _ _ u (hu ▸ at_) hkeeps).congr (fun _ => .inr rfl) rfl rfl
  | evict kept => exact h.congr kept rfl rfl

/-- What is served from such a cache is current. -/
theorem Kept.current (h : Kept d s) (a : Action β) : Current d s a := by
  cases a with
  | check i c now =>
    intro server request response used hfound hserved hused
    refine h server.id (callerScope server c) request used (fun hnone => ?_) hused
    unfold Deployment.checkCache ResponseCache.lookup Store.get at hserved
    rw [hnone] at hserved
    split at hserved
    · cases hserved
    · cases hserved
  | fetch | lock | recheck | ask | answer | store | delete | wipe | reply | revoke | evict =>
    trivial

/--
Whatever credentials there are: in a run in which no answer is written to the cache after it was
wiped for a change of the answer's credential, no call is served such an answer.
-/
theorem cached_responses_current (db : Credentials β)
    (hrun : Steps (fun s a s' => InTime d s a ∧ Step d s a s') (.start db) as t) :
    Steps (fun s a s' => Current d s a ∧ Step d s a s') (.start db) as t := by
  refine hrun.under (I := Kept d) ?_ (fun _ _ _ _ hk => absurd rfl hk)
  rintro s a s' h ⟨hin, hstep⟩
  exact ⟨h.step hin hstep, h.current a, hstep⟩

/-! ## Two runs -/

theorem githubTarget_keeps : githubTarget.keeps github Caching.issuesResponse = true := rfl

/-- The account with another token. -/
def reconnected : Credentials String where
  users := [⟨7, 1, "work", true, ⟨.oauthAuthcode, "tok-9", some "ref-9", some 5000⟩⟩]
  shared := []

/-- A call, the same call again, and once more after the account has been connected again. -/
def twice : List (Action String) :=
  [.check 0 listIssues 0, .fetch 0 0, .reply 0 Caching.issuesResponse true 1, .check 1 listIssues 2,
    .revoke 2 account reconnected, .wipe 2, .check 3 listIssues 4]

/-- The call is on its way upstream with the account's first token. -/
def sent : Runtime String :=
  (Runtime.start connected).go 0 (.upstream githubTarget (some injection) (some ⟨account, 0⟩))

theorem sent_run : Steps (fun s a s' => InTime github s a ∧ Step github s a s') (.start connected)
    [.check 0 listIssues 0, .fetch 0 0] sent := by
  have hmiss : Step github (.start connected) (.check 0 listIssues 0)
      ((Runtime.start connected).go 0 (.fetching githubTarget)) :=
    .miss rfl upstreamRequest_github rfl
  have hfetch : Step github ((Runtime.start connected).go 0 (.fetching githubTarget)) (.fetch 0 0)
      (((Runtime.start connected).go 0 (.fetching githubTarget)).go 0
        (((Runtime.start connected).go 0 (.fetching githubTarget)).fetched github githubTarget 0)) :=
    .fetch rfl
  rw [fetched_connected rfl] at hfetch
  have hsent : ((Runtime.start connected).go 0 (.fetching githubTarget)).go 0
      (.upstream githubTarget (some injection) (some ⟨account, 0⟩)) = sent := by
    unfold sent Runtime.go
    simp only [Threads.set_set]
  rw [← hsent]
  exact .cons ⟨trivial, hmiss⟩ (.single ⟨trivial, hfetch⟩)

theorem callerScope_listIssues :
    callerScope githubTarget.server listIssues =
      callerScope githubTarget.server githubTarget.call :=
  rfl

theorem served_github (cache : ResponseCache) {now t : Int} (ht : t ≤ now + (900 : Nat) * 1000) :
    github.checkCache (githubTarget.writeCache github cache Caching.issuesResponse now) githubServer
      listIssues Caching.issuesRequest t = some Caching.issuesResponse :=
  checkCache_writeCache githubTarget_keeps callerScope_listIssues ht

/-- Nothing is left in the account's lane when the account has changed. -/
theorem missed_github (cache : ResponseCache) (t : Int) :
    github.checkCache (cache.invalidateAfterChange account) githubServer listIssues
      Caching.issuesRequest t = none := by
  have hcovers : Covers githubServer.id (callerScope githubServer listIssues) account := ⟨rfl, rfl⟩
  have hnone := (invalidateAfterChange_cacheKey github.hashing githubServer.id
    (callerScope githubServer listIssues) Caching.issuesRequest account cache).1 hcovers
  unfold Deployment.checkCache ResponseCache.lookup Store.get
  rw [hnone]
  rfl

/-- The answer to the first call has been kept, and the second was served it. -/
def servedTwice : Runtime String :=
  ((sent.keep github githubTarget (some ⟨account, 0⟩) Caching.issuesResponse 1).go 0 .ended).go 1
    .ended

/-- The account has been connected again, and the cache wiped. -/
def wiped : Runtime String :=
  ((((servedTwice.change reconnected account).go 2 (.revoked ⟨account, 1⟩))).wipe
    ⟨account, 1⟩).go 2 .ended

/-- The answer to the first call is kept; the second is served it, and the third is not. -/
theorem cached_responses_current_twice :
    ∃ t, Steps (fun s a s' => Current github s a ∧ Step github s a s')
        (.start connected) twice t ∧
      t.calls 1 = some .ended ∧ t.calls 3 = some (.fetching githubTarget) := by
  have hreply : Step github sent (.reply 0 Caching.issuesResponse true 1)
      ((sent.keep github githubTarget (some ⟨account, 0⟩) Caching.issuesResponse 1).go 0 .ended) :=
    .reply rfl
  have hin : InTime github sent (.reply 0 Caching.issuesResponse true 1) := by
    intro x auth used hx _ _
    cases hx
    exact Nat.zero_le _
  have hhit : Step github
      ((sent.keep github githubTarget (some ⟨account, 0⟩) Caching.issuesResponse 1).go 0 .ended)
      (.check 1 listIssues 2) servedTwice :=
    .hit rfl upstreamRequest_github (served_github sent.cache (by decide))
  have hrevoke : Step github servedTwice (.revoke 2 account reconnected)
      ((servedTwice.change reconnected account).go 2 (.revoked ⟨account, 1⟩)) := .revoke rfl
  have hwipe : Step github ((servedTwice.change reconnected account).go 2 (.revoked ⟨account, 1⟩))
      (.wipe 2) wiped := .wipeRevoked rfl
  have hmiss : Step github wiped (.check 3 listIssues 4) (wiped.go 3 (.fetching githubTarget)) :=
    .miss rfl upstreamRequest_github (missed_github servedTwice.cache 4)
  have hrest : Steps (fun s a s' => InTime github s a ∧ Step github s a s') sent
      [.reply 0 Caching.issuesResponse true 1, .check 1 listIssues 2,
        .revoke 2 account reconnected, .wipe 2, .check 3 listIssues 4] _ :=
    .cons ⟨hin, hreply⟩ (.cons ⟨trivial, hhit⟩ (.cons ⟨trivial, hrevoke⟩
      (.cons ⟨trivial, hwipe⟩ (.single ⟨trivial, hmiss⟩))))
  exact ⟨_, cached_responses_current connected (sent_run.append hrest), rfl, rfl⟩

/-! ## An answer that comes late -/

/--
The answer to a call with the account's first token arrives when the token has been refreshed and
the cache wiped; the next call is served it.
-/
theorem late_answer_served : ∃ as t, Steps (Step github) (.start connected) as t ∧
    ∃ t', Step github t (.check 2 listIssues 960) t' ∧
      ¬ Current github t (.check 2 listIssues 960) := by
  have hcall : Step github sent (.check 1 listIssues 940) (sent.go 1 (.fetching githubTarget)) :=
    .miss rfl upstreamRequest_github rfl
  have hunlocked : ∀ j p, j ≠ 1 → sent.calls j = some p → p.holds ≠ some account := by
    intro j p _ hj
    rcases Threads.set_eq_some hj with ⟨-, rfl⟩ | ⟨-, hj⟩
    · exact nofun
    · cases hj
  obtain ⟨u, hu, hcalls, -, hsettled, -⟩ := @refreshing_run (fun _ _ => True) sent 1
    ⟨"tok-2", some "ref-2", some 3600⟩ _ rfl rfl hunlocked rfl fun _ _ _ _ => trivial
  have hreply : Step github u (.reply 0 Caching.issuesResponse true 951)
      ((u.keep github githubTarget (some ⟨account, 0⟩) Caching.issuesResponse 951).go 0 .ended) :=
    .reply (hcalls 0 (by decide))
  have hserved := served_github u.cache (show (960 : Int) ≤ 951 + (900 : Nat) * 1000 by decide)
  have hfree : ((u.keep github githubTarget (some ⟨account, 0⟩) Caching.issuesResponse 951).go 0
      .ended).calls 2 = none :=
    calc u.calls.set 0 .ended 2 = u.calls 2 := Threads.set_ne _ (by decide) _
      _ = sent.calls 2 := hcalls 2 (by decide)
      _ = none := rfl
  refine ⟨_, _, (sent_run.mono fun _ _ _ h => h.2).append
    (.cons hcall ((hu.mono fun _ _ _ h => h.2).snoc hreply)), _,
    .hit hfree upstreamRequest_github hserved, fun hcurrent => ?_⟩
  have hused : Function.update u.source (githubTarget.key github) (some ⟨account, 0⟩)
      (githubTarget.key github) = some ⟨account, 0⟩ := Function.update_self ..
  have hle := hcurrent githubServer Caching.issuesRequest Caching.issuesResponse ⟨account, 0⟩
    upstreamRequest_github hserved hused ⟨rfl, rfl⟩
  have hone : u.settled account = 1 := hsettled
  exact absurd (hone ▸ hle : 1 ≤ 0) (by decide)

end ThinkWatch.Mcp.Calls
