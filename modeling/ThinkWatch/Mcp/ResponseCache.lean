import ThinkWatch.Lib.Expiring
import ThinkWatch.Mcp.UserToken

/-!
# The response cache

`crates/mcp-gateway/src/cache.rs` and `determine_cache_scope` of `server/src/mcp_runtime.rs`. A
response is kept under a key of four segments, of which the middle two are the lane: `_` and `_`
for a server whose callers all look the same to it, else the user and the label of the account.
-/

namespace ThinkWatch.Mcp

open Lib Policy

/-! ## Messages -/

structure JsonRpcRequest where
  jsonrpc : String
  id : Option Json
  method : String
  params : Option Json

structure JsonRpcError where
  code : Int
  message : String

structure JsonRpcResponse where
  jsonrpc : String
  id : Option Json
  result : Option Json
  error : Option JsonRpcError

/-! ## The scope of a server -/

/-- `str::contains`. -/
def containsText (pattern text : String) : Bool := (cut pattern.toList text.toList).isSome

def userIdVariable : String := "\x7b\x7buser_id\x7d\x7d"

def userEmailVariable : String := "\x7b\x7buser_email\x7d\x7d"

def determineCacheScope (authShape : AuthShape) (customHeaders : List (String × String))
    (credentialOwner : CredentialOwner) : ServerCacheScope :=
  if customHeaders.any fun h =>
      containsText userIdVariable h.2 || containsText userEmailVariable h.2 then
    .perCaller
  else
    match credentialOwner, authShape with
    | _, .anonymous => .global
    | .adminShared, _ => .global
    | .perUser, _ => .perCaller

/-- The custom headers as `build_upstream_request` sends them. -/
def resolvedHeaders (customHeaders : List (String × String)) (userId : Uuid) (userEmail : String) :
    List (String × String) :=
  customHeaders.map fun h =>
    (h.1, String.ofList (replaceAll userEmailVariable.toList userEmail.toList
      (replaceAll userIdVariable.toList (hyphenated userId) h.2.toList)))

/-! ## Keys -/

/-- What the key has of the caller. -/
structure CallerScope where
  userId : Uuid
  accountLabel : Option String
deriving DecidableEq, Repr

def labelPart : Option String → List Char
  | none => ['_']
  | some label => if label = "" then ['_'] else hexBytes label.toUTF8.data.toList

def callerKeyParts : Option CallerScope → List Char × List Char
  | none => (['_'], ['_'])
  | some c => (simple c.userId, labelPart c.accountLabel)

/-- `serde_json::to_string` and `xxh3_128`. -/
structure Hashing where
  toJson : Json → String
  xxh3 : String → Nat

/-- The hash of method and parameters, as 32 hexadecimal digits. -/
def Hashing.requestHash (hashing : Hashing) (request : JsonRpcRequest) : List Char :=
  hexNat 32 (hashing.xxh3
    (request.method ++ ":" ++ ((request.params.map hashing.toJson).getD "")))

/-- `KEY_PREFIX`. -/
def keyHead : List Char := "mcp_cache:".toList

def cacheKey (hashing : Hashing) (serverId : Uuid) (caller : Option CallerScope)
    (request : JsonRpcRequest) : String :=
  let (userPart, labelPart) := callerKeyParts caller
  String.ofList (keyHead ++ (simple serverId ++ ':' :: (userPart ++ ':' :: (labelPart ++ ':' ::
    hashing.requestHash request))))

/-! ## The cache -/

abbrev ResponseCache := Store String JsonRpcResponse

namespace ResponseCache

/-- What a call is answered with from the cache. -/
def lookup (cache : ResponseCache) (hashing : Hashing) (serverId : Uuid)
    (caller : Option CallerScope) (request : JsonRpcRequest) (now : Int) : Option JsonRpcResponse :=
  cache.get now (cacheKey hashing serverId caller request)

/-- Keep a response, unless it is an error. -/
def insert (cache : ResponseCache) (hashing : Hashing) (serverId : Uuid)
    (caller : Option CallerScope) (request : JsonRpcRequest) (response : JsonRpcResponse)
    (ttlSecs : Nat) (now : Int) : ResponseCache :=
  if response.error.isSome then cache
  else cache.setEx now (cacheKey hashing serverId caller request) response (ttlSecs * 1000)

/-- `scan_and_delete` with the pattern `head*`. -/
def scanAndDelete (cache : ResponseCache) (head : List Char) : ResponseCache :=
  fun key => if head <+: key.toList then none else cache key

def invalidateUserLane (cache : ResponseCache) (serverId userId : Uuid) : ResponseCache :=
  cache.scanAndDelete (keyHead ++ (simple serverId ++ ':' :: (simple userId ++ [':'])))

def invalidateServerLane (cache : ResponseCache) (serverId : Uuid) : ResponseCache :=
  cache.scanAndDelete (keyHead ++ (simple serverId ++ [':']))

/-- `invalidate_cache_after_change`. -/
def invalidateAfterChange (cache : ResponseCache) : CredLocator → ResponseCache
  | .perUser serverId userId _ => cache.invalidateUserLane serverId userId
  | .adminShared serverId => cache.invalidateServerLane serverId

end ResponseCache

/-! ## Segments -/

theorem colon_notMem_simple (id : Uuid) : ':' ∉ simple id :=
  fun h => absurd (hexNat_mem h) (by decide)

theorem simple_ne_placeholder (id : Uuid) : simple id ≠ ['_'] := by
  intro h
  have hmem : '_' ∈ simple id := h ▸ List.mem_singleton.mpr rfl
  exact absurd (hexNat_mem hmem) (by decide)

theorem simple_injective : Function.Injective simple := hexNat_injective 32

theorem labelPart_of_ne {label : String} (h : label ≠ "") :
    labelPart (some label) = hexBytes label.toUTF8.data.toList := if_neg h

theorem hexBytes_ne_placeholder (bs : List UInt8) : hexBytes bs ≠ ['_'] := by
  intro h
  have hmem : '_' ∈ hexBytes bs := h ▸ List.mem_singleton.mpr rfl
  exact absurd (hexBytes_mem hmem) (by decide)

/-- Labels that are not empty have segments of their own. -/
theorem labelPart_inj {l l' : Option String} (hl : l ≠ some "") (hl' : l' ≠ some "")
    (h : labelPart l = labelPart l') : l = l' := by
  have hne : ∀ {label : String}, some label ≠ some "" → labelPart (some label) ≠ ['_'] := by
    intro label hlabel heq
    rw [labelPart_of_ne fun he => hlabel (congrArg some he)] at heq
    exact hexBytes_ne_placeholder _ heq
  cases l with
  | none =>
    cases l' with
    | none => rfl
    | some label' => exact absurd h.symm (hne hl')
  | some label =>
    cases l' with
    | none => exact absurd h (hne hl)
    | some label' =>
      rw [labelPart_of_ne fun he => hl (congrArg some he),
        labelPart_of_ne fun he => hl' (congrArg some he)] at h
      have hbytes : label.toUTF8 = label'.toUTF8 :=
        ByteArray.ext (Array.toList_inj.mp (hexBytes_injective h))
      rw [String.toByteArray_inj.mp hbytes]

theorem colon_notMem_labelPart (l : Option String) : ':' ∉ labelPart l := by
  cases l with
  | none => decide
  | some label =>
    rw [labelPart]
    split
    next => decide
    next => exact fun h => absurd (hexBytes_mem h) (by decide)

theorem colon_notMem_userPart (caller : Option CallerScope) : ':' ∉ (callerKeyParts caller).1 := by
  cases caller with
  | none => decide
  | some c => exact colon_notMem_simple c.userId

theorem colon_notMem_callerLabel (caller : Option CallerScope) :
    ':' ∉ (callerKeyParts caller).2 := by
  cases caller with
  | none => decide
  | some c => exact colon_notMem_labelPart c.accountLabel

/-- The lane of a caller is the lane of no other user, and not the one for all. -/
theorem userPart_inj {a b : Option CallerScope} (h : (callerKeyParts a).1 = (callerKeyParts b).1) :
    a.map (·.userId) = b.map (·.userId) := by
  cases a with
  | none =>
    cases b with
    | none => rfl
    | some b => exact absurd h.symm (simple_ne_placeholder b.userId)
  | some a =>
    cases b with
    | none => exact absurd h (simple_ne_placeholder a.userId)
    | some b => exact congrArg some (simple_injective h)

section Keys

variable {hashing : Hashing} {s s' : Uuid} {a b : Option CallerScope} {r r' : JsonRpcRequest}

/-- The segments can be read off the key. -/
theorem cacheKey_inj (h : cacheKey hashing s a r = cacheKey hashing s' b r') :
    s = s' ∧ callerKeyParts a = callerKeyParts b ∧
      hashing.requestHash r = hashing.requestHash r' := by
  have hsegments := List.append_cancel_left (String.ofList_injective h)
  -- no segment has a colon, so each ends where it does in the other key
  obtain ⟨hs, hrest⟩ := segment_inj (colon_notMem_simple s) (colon_notMem_simple s') hsegments
  obtain ⟨huser, hrest⟩ := segment_inj (colon_notMem_userPart a) (colon_notMem_userPart b) hrest
  obtain ⟨hlabel, hhash⟩ :=
    segment_inj (colon_notMem_callerLabel a) (colon_notMem_callerLabel b) hrest
  exact ⟨simple_injective hs, Prod.ext huser hlabel, hhash⟩

/-- What is left of the cache when the lanes of a user on a server are wiped. -/
theorem invalidateUserLane_cacheKey (cache : ResponseCache) (userId : Uuid) :
    cache.invalidateUserLane s userId (cacheKey hashing s' a r) =
      if s = s' ∧ a.map (·.userId) = some userId then none
      else cache (cacheKey hashing s' a r) := by
  unfold ResponseCache.invalidateUserLane ResponseCache.scanAndDelete
  refine if_congr ?_ rfl rfl
  simp only [cacheKey, String.toList_ofList, List.prefix_append_right_inj]
  constructor
  · rintro ⟨t, ht⟩
    rw [List.append_assoc, List.cons_append, List.append_assoc, List.singleton_append] at ht
    obtain ⟨hs, hrest⟩ := segment_inj (colon_notMem_simple s) (colon_notMem_simple s') ht
    have huser : (callerKeyParts (some ⟨userId, none⟩)).1 = (callerKeyParts a).1 :=
      (segment_inj (colon_notMem_simple userId) (colon_notMem_userPart a) hrest).1
    exact ⟨simple_injective hs, (userPart_inj huser).symm⟩
  · rintro ⟨rfl, huser⟩
    obtain ⟨c, rfl, rfl⟩ := Option.map_eq_some_iff.mp huser
    refine ⟨labelPart c.accountLabel ++ ':' :: hashing.requestHash r, ?_⟩
    simp [callerKeyParts]

theorem invalidateServerLane_cacheKey (cache : ResponseCache) :
    cache.invalidateServerLane s (cacheKey hashing s' a r) =
      if s = s' then none else cache (cacheKey hashing s' a r) := by
  unfold ResponseCache.invalidateServerLane ResponseCache.scanAndDelete
  refine if_congr ?_ rfl rfl
  simp only [cacheKey, String.toList_ofList, List.prefix_append_right_inj]
  constructor
  · rintro ⟨t, ht⟩
    rw [List.append_assoc, List.singleton_append] at ht
    exact simple_injective
      (segment_inj (colon_notMem_simple s) (colon_notMem_simple s') ht).1
  · rintro rfl
    refine ⟨(callerKeyParts a).1 ++ ':' :: ((callerKeyParts a).2 ++ ':' ::
      hashing.requestHash r), ?_⟩
    simp

end Keys

/-! ## Headers -/

section Headers

variable {authShape : AuthShape} {customHeaders : List (String × String)}
  {credentialOwner : CredentialOwner}

theorem noVariables_of_global
    (h : determineCacheScope authShape customHeaders credentialOwner = .global) :
    ∀ header ∈ customHeaders, containsText userIdVariable header.2 = false ∧
      containsText userEmailVariable header.2 = false := by
  intro header hmem
  unfold determineCacheScope at h
  split at h
  next => cases h
  next hany =>
    simp only [List.any_eq_true, not_exists, not_and, Bool.or_eq_true, not_or,
      Bool.not_eq_true] at hany
    exact hany header hmem

/-- A server with one lane for all sends its custom headers as they are. -/
theorem resolvedHeaders_of_global
    (h : determineCacheScope authShape customHeaders credentialOwner = .global)
    (userId : Uuid) (userEmail : String) :
    resolvedHeaders customHeaders userId userEmail = customHeaders := by
  unfold resolvedHeaders
  refine (List.map_congr_left fun header hmem => ?_).trans (List.map_id customHeaders)
  obtain ⟨hid, hemail⟩ := noVariables_of_global h header hmem
  have hidCut : cut userIdVariable.toList header.2.toList = none := by
    simpa [containsText] using hid
  have hemailCut : cut userEmailVariable.toList header.2.toList = none := by
    simpa [containsText] using hemail
  rw [replaceAll_of_cut_none hidCut, replaceAll_of_cut_none hemailCut, String.ofList_toList]
  rfl

/-- The servers of users that have one lane for all are the anonymous ones. -/
theorem anonymous_of_global
    (h : determineCacheScope authShape customHeaders .perUser = .global) :
    authShape = .anonymous := by
  unfold determineCacheScope at h
  split at h
  next => cases h
  next =>
    cases authShape with
    | anonymous => rfl
    | oauth => cases h
    | static => cases h

end Headers

end ThinkWatch.Mcp
