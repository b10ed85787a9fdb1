import ThinkWatch.Errors
import ThinkWatch.Lib.Cut
import ThinkWatch.Lib.Result
import ThinkWatch.Lib.Rows

/-!
# The registry of MCP servers

`crates/mcp-gateway/src/registry.rs`: the servers behind the gateway and the names under which their
tools are listed, `<namespace_prefix>__<tool>`. A call names a tool in this form and
`find_server_for_tool` takes the name apart again. Where the prefixes come from is in
`handlers/mcp_shared.rs` and `handlers/mcp_servers.rs`.
-/

namespace ThinkWatch.Mcp

open Lib

/-! ## Servers -/

inductive CredentialOwner where
  | perUser
  | adminShared
deriving DecidableEq, Repr

inductive AuthShape where
  | anonymous
  | oauth
  | static
deriving DecidableEq, Repr

inductive ServerCacheScope where
  | global
  | perCaller
deriving DecidableEq, Repr

/-- What the token endpoint is asked with. -/
structure OAuthClientCfg where
  tokenEndpoint : String
  authorizationEndpoint : Option String
  clientId : String
  clientSecret : Option String
  scopes : List String
deriving DecidableEq, Repr

/-- A server that has been registered with the gateway, and the names of its tools. -/
structure RegisteredServer where
  id : Uuid
  name : String
  namespacePrefix : String
  tools : List String
  oauthCfg : Option OAuthClientCfg
  authShape : AuthShape
  credentialOwner : CredentialOwner
  authHeaderName : String
  authValueTemplate : String
  customHeaders : List (String × String)
  cacheTtlSecs : Option Nat
  cacheScope : ServerCacheScope
deriving DecidableEq, Repr

/-! ## Tool names -/

/-- `NAMESPACE_SEPARATOR`. -/
def separator : List Char := ['_', '_']

def validateToolName (name : String) : Bool :=
  name ≠ "" && name.utf8ByteSize ≤ 255 &&
    name.toList.all fun c => c.isAlphanum || c == '_' || c == '-' || c == '.'

/-- The values of the map, in whatever order it yields them. -/
abbrev Registry := List RegisteredServer

/-- The name under which `tools/list` shows a tool. -/
def RegisteredServer.listedName (server : RegisteredServer) (tool : String) : String :=
  String.ofList (server.namespacePrefix.toList ++ separator ++ tool.toList)

def Registry.findServerForTool (reg : Registry) (namespacedTool : String) :
    Option (RegisteredServer × String) := do
  let (stem, toolName) ← cut separator namespacedTool.toList
  if stem = [] ∨ toolName = [] then none
  else
    let server ← reg.find? fun s => s.namespacePrefix.toList = stem
    return (server, String.ofList toolName)

/-! ## Where prefixes come from -/

/--
`to_lowercase` of one character, as far as the next step can tell: two characters outside ASCII
have ASCII in their lower case, and every other one becomes a single `_` there.
-/
def toLowercase (c : Char) : List Char :=
  if c = '\u0130' then ['i', '\u0307'] else if c = '\u212a' then ['k'] else [c.toLower]

/-- A lower-case ASCII letter or a digit. -/
def isPlain (c : Char) : Bool := c.isLower || c.isDigit

/-- The prefix that is derived from the server's name. -/
def derivedPrefix (name : String) : List Char :=
  let mapped := (name.toList.flatMap toLowercase).map fun c => if isPlain c then c else '_'
  let trimmed := ((mapped.dropWhile (· = '_')).reverse.dropWhile (· = '_')).reverse
  trimmed.take 32

def normalizeNamespacePrefix (explicit : Option String) (fallbackName : String) :
    Except AppError String :=
  match explicit with
  | some p => do
    refuseIf (¬ (p.toList.all fun c => isPlain c || c == '_') ∨ p = "" ∨ p.utf8ByteSize > 32)
      (AppError.badRequest "namespace_prefix must match [a-z0-9_]\x7b1,32\x7d")
    return p
  | none => do
    refuseIf (derivedPrefix fallbackName = []) (AppError.badRequest
      ("Could not derive namespace_prefix from name; " ++
        "please provide one explicitly ([a-z0-9_]\x7b1,32\x7d)"))
    return String.ofList (derivedPrefix fallbackName)

/-- The `i`-th candidate of `resolve_server_collisions`. -/
def collisionCandidate (baseName basePrefix : String) (i : Nat) : String × String :=
  if i = 1 then (baseName, basePrefix) else (s!"{baseName} #{i}", s!"{basePrefix}_{i}")

/-- The first candidate whose name and prefix are free; `taken` is `name_or_prefix_taken`. -/
def resolveServerCollisions (taken : String → String → Bool) (baseName basePrefix : String) :
    Except AppError (String × String) :=
  orRefuse (((List.range' 1 99).map (collisionCandidate baseName basePrefix)).find? fun c =>
      !taken c.1 c.2)
    (.badRequest ("Too many installations of this template (>99) — " ++
      "remove some before installing again"))

/-- A prefix that the handlers store. -/
def Accepted (p : String) : Prop :=
  ∃ explicit name base, normalizeNamespacePrefix explicit name = .ok base ∧
    (p = base ∨ ∃ taken n, resolveServerCollisions taken name base = .ok (n, p))

/-! ## Listed names -/

theorem base_ne_empty {explicit : Option String} {name base : String}
    (h : normalizeNamespacePrefix explicit name = .ok base) : base ≠ "" := by
  cases explicit with
  | some p =>
    rw [normalizeNamespacePrefix, refuseIf_bind_ok, not_or, not_or] at h
    obtain ⟨⟨-, hne, -⟩, hp⟩ := h
    rw [← pure_ok.mp hp]
    exact hne
  | none =>
    rw [normalizeNamespacePrefix, refuseIf_bind_ok] at h
    obtain ⟨hne, hp⟩ := h
    rw [← pure_ok.mp hp]
    intro heq
    exact hne (String.ofList_eq_empty_iff.mp heq)

theorem Accepted.ne_empty {p : String} (h : Accepted p) : p ≠ "" := by
  obtain ⟨explicit, name, base, hbase, rfl | ⟨taken, n, hres⟩⟩ := h
  · exact base_ne_empty hbase
  · rw [resolveServerCollisions, orRefuse_ok] at hres
    obtain ⟨i, -, hi⟩ := List.mem_map.mp (List.mem_of_find?_eq_some hres)
    rw [collisionCandidate] at hi
    split at hi
    next =>
      cases hi
      exact base_ne_empty hbase
    next =>
      cases hi
      simp

/-- No separator in the prefix, nor one half of it at the end. -/
def CleanPrefix (p : String) : Prop := ¬ separator <:+: p.toList ++ ['_']

instance (p : String) : Decidable (CleanPrefix p) := inferInstanceAs (Decidable (¬ _))

variable {reg : Registry} {server server' : RegisteredServer} {tool tool' : String}

theorem tool_ne_nil (h : validateToolName tool = true) : tool.toList ≠ [] := by
  unfold validateToolName at h
  rw [Bool.and_eq_true, Bool.and_eq_true, decide_eq_true_eq] at h
  exact fun hnil => h.1.1 (String.toList_eq_nil_iff.mp hnil)

/-- The name is taken apart where it was put together. -/
theorem cut_listedName :
    cut separator (server.listedName tool).toList =
        some (server.namespacePrefix.toList, tool.toList) ↔
      CleanPrefix server.namespacePrefix := by
  unfold RegisteredServer.listedName CleanPrefix
  rw [String.toList_ofList, cut_join (by decide)]
  rfl

/-- Distinct prefixes: the search finds the server itself. -/
theorem find_namespacePrefix (hdistinct : (reg.map (·.namespacePrefix)).Nodup)
    (hserver : server ∈ reg) :
    reg.find? (fun s => s.namespacePrefix.toList = server.namespacePrefix.toList) =
      some server := by
  refine find?_eq_some_of_unique hserver (decide_eq_true rfl) fun s hs hprefix => ?_
  have hprefix : s.namespacePrefix = server.namespacePrefix :=
    String.toList_inj.mp (of_decide_eq_true hprefix)
  exact List.inj_on_of_nodup_map hdistinct hs hserver hprefix

theorem findServerForTool_eq {name : String} :
    reg.findServerForTool name = some (server, tool) ↔
      ∃ stem t, cut separator name.toList = some (stem, t) ∧ stem ≠ [] ∧ t ≠ [] ∧
        reg.find? (fun s => s.namespacePrefix.toList = stem) = some server ∧
        String.ofList t = tool := by
  unfold Registry.findServerForTool
  simp only [Option.bind_eq_bind, Option.bind_eq_some_iff, Prod.exists]
  refine exists_congr fun stem => exists_congr fun t => and_congr_right fun _ => ?_
  split
  next h =>
    refine ⟨nofun, ?_⟩
    rintro ⟨hstem, ht, -⟩
    exact absurd h (not_or.mpr ⟨hstem, ht⟩)
  next h =>
    rw [not_or] at h
    simp only [Option.bind_eq_some_iff, Option.pure_def, Option.some.injEq, Prod.mk.injEq]
    constructor
    · rintro ⟨s, hs, rfl, htool⟩
      exact ⟨h.1, h.2, hs, htool⟩
    · rintro ⟨-, -, hs, htool⟩
      exact ⟨server, hs, rfl, htool⟩

/-! ## Main result -/

/--
A listed tool leads back to its server and its own name exactly when the prefix has no separator in
it and does not end in `_`; and servers whose prefixes are like that share no listed name.
-/
theorem listed_tool_found_iff (reg : Registry)
    (hdistinct : (reg.map (·.namespacePrefix)).Nodup)
    (haccepted : ∀ s ∈ reg, Accepted s.namespacePrefix) :
    (∀ server ∈ reg, ∀ tool, validateToolName tool = true →
      (reg.findServerForTool (server.listedName tool) = some (server, tool) ↔
        CleanPrefix server.namespacePrefix)) ∧
    ∀ server ∈ reg, ∀ server' ∈ reg, ∀ tool tool',
      CleanPrefix server.namespacePrefix → CleanPrefix server'.namespacePrefix →
      server.listedName tool = server'.listedName tool' → server = server' ∧ tool = tool' := by
  constructor
  · intro server hserver tool htool
    have hprefix : server.namespacePrefix.toList ≠ [] := by
      intro hnil
      exact (haccepted server hserver).ne_empty (String.toList_eq_nil_iff.mp hnil)
    rw [← @cut_listedName server tool, findServerForTool_eq]
    constructor
    · rintro ⟨stem, t, hcut, -, -, -, rfl⟩
      -- the name is what was joined, so an equal tail leaves an equal head
      have hjoin := eq_of_cut hcut
      rw [RegisteredServer.listedName, String.toList_ofList, String.toList_ofList] at hjoin
      rw [hcut, String.toList_ofList]
      have hhead := List.append_cancel_right (List.append_cancel_right hjoin)
      rw [hhead]
    · intro hcut
      exact ⟨_, _, hcut, hprefix, tool_ne_nil htool, find_namespacePrefix hdistinct hserver,
        String.ofList_toList⟩
  · intro server hserver server' hserver' tool tool' hclean hclean' heq
    have hcut := (@cut_listedName server tool).mpr hclean
    have hcut' := (@cut_listedName server' tool').mpr hclean'
    rw [heq, hcut'] at hcut
    obtain ⟨hp, ht⟩ := Prod.mk.inj (Option.some.inj hcut)
    have hfind := find_namespacePrefix hdistinct hserver
    rw [← hp, find_namespacePrefix hdistinct hserver'] at hfind
    exact ⟨(Option.some.inj hfind).symm, (String.toList_inj.mp ht).symm⟩

/-! ## Two registries -/

/-- A public server. -/
def publicServer (id : Uuid) (name namespacePrefix : String) (tools : List String) :
    RegisteredServer where
  id := id
  name := name
  namespacePrefix := namespacePrefix
  tools := tools
  oauthCfg := none
  authShape := .anonymous
  credentialOwner := .perUser
  authHeaderName := "Authorization"
  authValueTemplate := "Bearer \x7b\x7btoken\x7d\x7d"
  customHeaders := []
  cacheTtlSecs := none
  cacheScope := .global

def docsServer : RegisteredServer := publicServer 2 "AWS Docs" "aws_docs" ["aws___list_regions"]

/-- A separator inside the tool's own name does no harm. -/
theorem listed_tool_found_regions :
    docsServer.listedName "aws___list_regions" = "aws_docs__aws___list_regions" ∧
      Registry.findServerForTool [publicServer 1 "GitHub" "github" ["list_issues"], docsServer]
        (docsServer.listedName "aws___list_regions") = some (docsServer, "aws___list_regions") := by
  refine ⟨by decide, ?_⟩
  refine ((listed_tool_found_iff _ (by decide) ?_).1 docsServer (by decide) "aws___list_regions"
    (by decide)).mpr (by decide)
  intro s hs
  rcases List.mem_cons.mp hs with rfl | hs
  · exact ⟨none, "GitHub", "github", rfl, .inl rfl⟩
  · rw [List.mem_singleton.mp hs]
    exact ⟨none, "AWS Docs", "aws_docs", rfl, .inl rfl⟩

/-- A name with ` - ` in it gets a prefix that the listed name cannot carry. -/
theorem listed_tool_not_found :
    ¬ ∀ reg : Registry, (reg.map (·.namespacePrefix)).Nodup →
      (∀ s ∈ reg, Accepted s.namespacePrefix) →
      ∀ server ∈ reg, ∀ tool ∈ server.tools, validateToolName tool = true →
        reg.findServerForTool (server.listedName tool) = some (server, tool) := by
  intro hall
  have hfound := hall [publicServer 1 "AWS - Docs" "aws___docs" ["search"]] (by decide) ?_ _
    List.mem_cons_self "search" (by decide) (by decide)
  · exact absurd hfound (by decide)
  · intro s hs
    rw [List.mem_singleton.mp hs]
    exact ⟨none, "AWS - Docs", "aws___docs", rfl, .inl rfl⟩

end ThinkWatch.Mcp
