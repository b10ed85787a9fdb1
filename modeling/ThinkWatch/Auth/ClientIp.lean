import Mathlib.Data.List.DropRight
import ThinkWatch.Validation

/-!
# The client's address

`resolve_client_ip` of `crates/server/src/middleware/auth_guard.rs`, with `presents_proxy_secret`
and `forwarded_ip`. A header value is a list of bytes, as it came over the wire; a text read from it
has the same bytes.
-/

namespace ThinkWatch.Auth.ClientIp

abbrev Bytes := List UInt8

/-- Header lines in order, the names in lower case. -/
abbrev HeaderMap := List (String × Bytes)

def HeaderMap.getAll (headers : HeaderMap) (name : String) : List Bytes :=
  (headers.filter fun h => h.1 = name).map Prod.snd

/-- `HeaderMap::get`: the first line of that name. -/
def HeaderMap.get (headers : HeaderMap) (name : String) : Option Bytes :=
  (headers.getAll name).head?

/-- The characters that `HeaderValue::to_str` lets through. -/
def isVisibleAscii (b : UInt8) : Bool := (32 ≤ b && b < 127) || b = 9

def toStr (value : Bytes) : Option Bytes := if value.all isVisibleAscii then some value else none

def isAsciiSpace (b : UInt8) : Bool := (9 ≤ b && b ≤ 13) || b = 32

/-- `str::trim`, of a text that is ASCII. -/
def trimAscii (text : Bytes) : Bytes := (text.dropWhile isAsciiSpace).rdropWhile isAsciiSpace

/-- `to_string`, of a text that is ASCII. -/
def ofAscii (text : Bytes) : String := String.ofList (text.map fun b => Char.ofNat b.toNat)

def comma : UInt8 := 44

/-- What the dynamic configuration has under the keys that are read. -/
structure DynamicConfig where
  clientIpSource : Option String
  trustedProxies : Option String
  clientIpXffPosition : Option String
  clientIpXffDepth : Option Int

namespace DynamicConfig

def source (dc : DynamicConfig) : String := dc.clientIpSource.getD "connection"

def xffPosition (dc : DynamicConfig) : String := dc.clientIpXffPosition.getD "left"

def xffDepth (dc : DynamicConfig) : Int := dc.clientIpXffDepth.getD 1

/-- `.max(1) as usize` -/
def depth (dc : DynamicConfig) : Nat := (max dc.xffDepth 1).toNat

end DynamicConfig

/-- What one line of addresses has at the place that is asked for. -/
def pick (position : String) (depth : Nat) (line : Bytes) : Option String :=
  let parts := (line.splitOn comma).map trimAscii
  let idx :=
    if position = "right" then if depth ≤ parts.length then some (parts.length - depth) else none
    else if depth - 1 < parts.length then some (depth - 1) else none
  ((idx.bind fun i => parts[i]?).map ofAscii).filter fun s => s ≠ ""

def forwardedIp (source : String) (dc : DynamicConfig) (headers : HeaderMap) : Option String :=
  if source = "xff" then
    ((headers.get "x-forwarded-for").bind toStr).bind (pick dc.xffPosition dc.depth)
  else if source = "x-real-ip" then
    (((headers.get "x-real-ip").bind toStr).map fun v => ofAscii (trimAscii v)).filter
      fun s => s ≠ ""
  else none

/-- The bytes are compared without an early exit. -/
def presentsProxySecret (headers : HeaderMap) (secret : Option Bytes) : Bool :=
  match secret.filter fun s => !s.isEmpty with
  | none => false
  | some secret =>
    match (headers.get "x-thinkwatch-proxy-token").bind toStr with
    | none => false
    | some presented =>
      if presented.length ≠ secret.length then false
      else (presented.zip secret).foldl (fun acc p => acc ||| (p.1 ^^^ p.2)) 0 = 0

def whitelisted (dc : DynamicConfig) (connectionIp : Option String) : Bool :=
  let connIp := connectionIp.getD ""
  let proxies := (((dc.trustedProxies.getD "").toList.splitOn ',').map
    fun p => trim (String.ofList p)).filter fun p => p ≠ ""
  proxies.any fun proxy => proxy = connIp || proxy = "*"

def resolveClientIp (dc : DynamicConfig) (headers : HeaderMap) (connectionIp : Option String)
    (proxySecret : Option Bytes) : Option String :=
  let hasSecret := presentsProxySecret headers proxySecret
  let ipSource := dc.source
  if ipSource = "connection" ∧ !hasSecret then connectionIp
  else if !whitelisted dc connectionIp && !hasSecret then connectionIp
  else
    let effectiveSource := if ipSource = "connection" then "x-real-ip" else ipSource
    (forwardedIp effectiveSource dc headers).or connectionIp

/-! ## Who is believed -/

variable {dc : DynamicConfig} {headers : HeaderMap} {connectionIp : Option String}
  {proxySecret : Option Bytes}

theorem foldl_xor_eq_zero (l : List (UInt8 × UInt8)) (acc : UInt8) :
    l.foldl (fun acc p => acc ||| (p.1 ^^^ p.2)) acc = 0 ↔ acc = 0 ∧ ∀ p ∈ l, p.1 = p.2 := by
  induction l generalizing acc with
  | nil => simp
  | cons p l ih =>
    rw [List.foldl_cons, ih, UInt8.or_eq_zero_iff, UInt8.xor_eq_zero_iff]
    simp [and_assoc]

theorem eq_of_zip {α : Type*} {a b : List α} (hlen : a.length = b.length)
    (h : ∀ p ∈ a.zip b, p.1 = p.2) : a = b := by
  induction a generalizing b with
  | nil => exact (List.eq_nil_of_length_eq_zero hlen.symm).symm
  | cons x a ih =>
    cases b with
    | nil => cases hlen
    | cons y b =>
      rw [List.zip_cons_cons, List.forall_mem_cons] at h
      have hxy : x = y := h.1
      rw [hxy, ih (Nat.succ.inj hlen) h.2]

theorem zip_self_eq {α : Type*} (a : List α) : ∀ p ∈ a.zip a, p.1 = p.2 := by
  induction a with
  | nil => nofun
  | cons x a ih =>
    rw [List.zip_cons_cons, List.forall_mem_cons]
    exact ⟨rfl, ih⟩

/-- The comparison without an early exit finds out whether the secret was sent. -/
theorem presentsProxySecret_iff :
    presentsProxySecret headers proxySecret = true ↔ ∃ secret, proxySecret = some secret ∧
      secret ≠ [] ∧ (headers.get "x-thinkwatch-proxy-token").bind toStr = some secret := by
  unfold presentsProxySecret
  cases proxySecret with
  | none => simp
  | some secret =>
    cases secret with
    | nil =>
      refine iff_of_false Bool.false_ne_true ?_
      rintro ⟨_, heq, hne, -⟩
      exact hne (Option.some.inj heq).symm
    | cons b secret =>
      simp only [Option.filter_some, List.isEmpty_cons, Bool.not_false, if_true]
      cases hpresented : (headers.get "x-thinkwatch-proxy-token").bind toStr with
      | none => simp
      | some presented =>
        simp only
        split
        · next hlen =>
          refine iff_of_false Bool.false_ne_true ?_
          rintro ⟨_, heq, -, hsent⟩
          obtain rfl := Option.some.inj heq
          exact hlen (congrArg List.length (Option.some.inj hsent))
        · next hlen =>
          rw [decide_eq_true_eq, foldl_xor_eq_zero]
          constructor
          · rintro ⟨-, hzip⟩
            rw [eq_of_zip (not_not.mp hlen) hzip]
            exact ⟨_, rfl, List.cons_ne_nil _ _, rfl⟩
          · rintro ⟨_, heq, -, hsent⟩
            obtain rfl := Option.some.inj heq
            rw [Option.some.inj hsent]
            exact ⟨rfl, zip_self_eq _⟩

/-- The peer is in the list, or has sent the secret. -/
def Trusted (dc : DynamicConfig) (headers : HeaderMap) (connectionIp : Option String)
    (proxySecret : Option Bytes) : Prop :=
  whitelisted dc connectionIp = true ∨ presentsProxySecret headers proxySecret = true

theorem resolveClientIp_untrusted (h : ¬ Trusted dc headers connectionIp proxySecret) :
    resolveClientIp dc headers connectionIp proxySecret = connectionIp := by
  obtain ⟨hwhitelisted, hsecret⟩ := not_or.mp h
  unfold resolveClientIp
  simp [hwhitelisted, hsecret]

theorem resolveClientIp_xff (h : Trusted dc headers connectionIp proxySecret)
    (hsource : dc.source = "xff") :
    resolveClientIp dc headers connectionIp proxySecret =
      (((headers.get "x-forwarded-for").bind toStr).bind (pick dc.xffPosition dc.depth)).or
        connectionIp := by
  unfold resolveClientIp forwardedIp
  simp only [hsource]
  rcases h with h | h <;> simp [h]

/-! ## What is in front of the last entries -/

/-- The entries of all lines together. -/
def entries (lines : List Bytes) : List Bytes :=
  ((List.intercalate [comma] lines).splitOn comma).map trimAscii

/-- The last `depth` entries of all lines are `tail`, and none of them is empty. -/
structure EndsIn (headers : HeaderMap) (depth : Nat) (tail : List Bytes) : Prop where
  length : tail.length = depth
  nonempty : ∀ e ∈ tail, e ≠ []
  suffix : tail <:+ entries (headers.getAll "x-forwarded-for")

/-- One line, that can be read. -/
def Plain (headers : HeaderMap) : Prop :=
  ∃ line, headers.getAll "x-forwarded-for" = [line] ∧ line.all isVisibleAscii = true

theorem depth_pos (dc : DynamicConfig) : 0 < dc.depth := by
  unfold DynamicConfig.depth
  omega

theorem ofAscii_ne_empty {e : Bytes} (h : e ≠ []) : ofAscii e ≠ "" := by
  intro hempty
  have hlist := congrArg String.toList hempty
  rw [ofAscii, String.toList_ofList] at hlist
  exact h (List.map_eq_nil_iff.mp hlist)

/-- The entry that is picked from the right is the first of the last ones. -/
theorem pick_right {depth : Nat} {line e : Bytes} {tail : List Bytes}
    (hlen : (e :: tail).length = depth) (hne : e ≠ [])
    (h : (e :: tail) <:+ (line.splitOn comma).map trimAscii) :
    pick "right" depth line = some (ofAscii e) := by
  obtain ⟨front, hfront⟩ := h
  have hparts : ((line.splitOn comma).map trimAscii).length = front.length + depth := by
    rw [← hfront, List.length_append, hlen]
  have hget : ((line.splitOn comma).map trimAscii)[front.length]? = some e := by
    rw [← hfront, List.getElem?_append_right (Nat.le_refl _), Nat.sub_self, List.getElem?_cons_zero]
  have hidx : front.length + depth - depth = front.length := Nat.add_sub_cancel ..
  unfold pick
  simp only [if_true, hparts, if_pos (Nat.le_add_left depth front.length), hidx, Option.bind_some,
    hget, Option.map_some, Option.filter_some]
  rw [if_pos (decide_eq_true (ofAscii_ne_empty hne))]

/-- And there is one whenever something is picked. -/
theorem pick_right_eq_some {depth : Nat} (hpos : 0 < depth) {line : Bytes} {address : String}
    (h : pick "right" depth line = some address) :
    ∃ e tail, (e :: tail).length = depth ∧ e ≠ [] ∧
      (e :: tail) <:+ (line.splitOn comma).map trimAscii ∧ ofAscii e = address := by
  unfold pick at h
  simp only [if_true] at h
  generalize (line.splitOn comma).map trimAscii = parts at h ⊢
  obtain ⟨hpicked, hne⟩ := Option.filter_eq_some_iff.mp h
  obtain ⟨e, he, rfl⟩ := Option.map_eq_some_iff.mp hpicked
  obtain ⟨i, hi, hget⟩ := Option.bind_eq_some_iff.mp he
  split at hi
  · next hle =>
    obtain rfl := Option.some.inj hi
    have hlt : parts.length - depth < parts.length := by omega
    obtain ⟨_, rfl⟩ := List.getElem?_eq_some_iff.mp hget
    refine ⟨_, parts.drop (parts.length - depth + 1), ?_, ?_, ?_, rfl⟩
    · rw [List.length_cons, List.length_drop]
      omega
    · intro hnil
      rw [hnil] at hne
      exact of_decide_eq_true hne rfl
    · rw [← List.drop_eq_getElem_cons hlt]
      exact List.drop_suffix _ _
  · cases hi

/-- The first line can be read, and `own` is the entry it has at `depth` from its own right end. -/
def OwnEntry (headers : HeaderMap) (depth : Nat) (own : Bytes) : Prop :=
  ∃ line rest, headers.get "x-forwarded-for" = some line ∧ line.all isVisibleAscii = true ∧
    (own :: rest).length = depth ∧ own ≠ [] ∧ (own :: rest) <:+ entries [line]

/-- The first line gives the address by itself, or it gives none and the peer has the address. -/
def FirstLineNames (headers : HeaderMap) (depth : Nat) (connectionIp : Option String)
    (address : String) : Prop :=
  (∃ own, OwnEntry headers depth own ∧ ofAscii own = address) ∨
    (∀ own, ¬ OwnEntry headers depth own) ∧ connectionIp = some address

theorem entries_single (line : Bytes) : entries [line] = (line.splitOn comma).map trimAscii := by
  unfold entries
  rw [List.intercalate_singleton]

theorem toStr_eq_some {value text : Bytes} :
    toStr value = some text ↔ value = text ∧ value.all isVisibleAscii = true := by
  unfold toStr
  split
  · next h => exact ⟨fun heq => ⟨Option.some.inj heq, h⟩, fun heq => congrArg some heq.1⟩
  · next h => exact ⟨nofun, fun heq => absurd heq.2 h⟩

section Xff

variable (htrusted : Trusted dc headers connectionIp proxySecret) (hsource : dc.source = "xff")
  (hposition : dc.xffPosition = "right")

include htrusted hsource hposition

theorem resolveClientIp_of_own {own : Bytes} (h : OwnEntry headers dc.depth own) :
    resolveClientIp dc headers connectionIp proxySecret = some (ofAscii own) := by
  obtain ⟨line, rest, hline, hvisible, hlen, hne, hsuffix⟩ := h
  rw [entries_single] at hsuffix
  rw [resolveClientIp_xff htrusted hsource, hline, Option.bind_some, toStr, if_pos hvisible,
    Option.bind_some, hposition, pick_right hlen hne hsuffix, Option.some_or]

theorem resolveClientIp_of_noOwn (h : ∀ own, ¬ OwnEntry headers dc.depth own) :
    resolveClientIp dc headers connectionIp proxySecret = connectionIp := by
  rw [resolveClientIp_xff htrusted hsource, hposition]
  cases hpick : ((headers.get "x-forwarded-for").bind toStr).bind (pick "right" dc.depth) with
  | none => rfl
  | some address =>
    obtain ⟨text, htext, hpicked⟩ := Option.bind_eq_some_iff.mp hpick
    obtain ⟨line, hline, hstr⟩ := Option.bind_eq_some_iff.mp htext
    obtain ⟨rfl, hvisible⟩ := toStr_eq_some.mp hstr
    obtain ⟨e, rest, hlen, hne, hsuffix, -⟩ := pick_right_eq_some (depth_pos dc) hpicked
    rw [← entries_single] at hsuffix
    exact absurd ⟨line, rest, hline, hvisible, hlen, hne, hsuffix⟩ (h e)

theorem resolveClientIp_iff {address : String} :
    resolveClientIp dc headers connectionIp proxySecret = some address ↔
      FirstLineNames headers dc.depth connectionIp address := by
  by_cases hown : ∃ own, OwnEntry headers dc.depth own
  · obtain ⟨own, hown⟩ := hown
    have hresolve := resolveClientIp_of_own htrusted hsource hposition hown
    rw [hresolve]
    constructor
    · intro h
      exact Or.inl ⟨own, hown, Option.some.inj h⟩
    · rintro (⟨own', hown', rfl⟩ | ⟨hnone, -⟩)
      · exact hresolve.symm.trans (resolveClientIp_of_own htrusted hsource hposition hown')
      · exact absurd hown (hnone own)
  · have hnone := not_exists.mp hown
    rw [resolveClientIp_of_noOwn htrusted hsource hposition hnone]
    constructor
    · exact fun h => Or.inr ⟨hnone, h⟩
    · rintro (⟨own, hown', -⟩ | ⟨-, h⟩)
      · exact absurd hown' (hnone own)
      · exact h

/-- One line that can be read gives the first of the last entries, whatever is in front. -/
theorem resolveClientIp_plain {e : Bytes} {tail : List Bytes} (hplain : Plain headers)
    (hends : EndsIn headers dc.depth (e :: tail)) :
    resolveClientIp dc headers connectionIp proxySecret = some (ofAscii e) := by
  obtain ⟨line, hlines, hvisible⟩ := hplain
  have hsuffix := hends.suffix
  rw [hlines] at hsuffix
  exact resolveClientIp_of_own htrusted hsource hposition ⟨line, tail,
    by rw [HeaderMap.get, hlines]; rfl, hvisible, hends.length,
    hends.nonempty e List.mem_cons_self, hsuffix⟩

end Xff

/-! ## A line of the last entries alone -/

theorem trimAscii_trimAscii (text : Bytes) : trimAscii (trimAscii text) = trimAscii text := by
  unfold trimAscii
  have hprefix := List.rdropWhile_prefix isAsciiSpace (text.dropWhile isAsciiSpace)
  have hdrop : ((text.dropWhile isAsciiSpace).rdropWhile isAsciiSpace).dropWhile isAsciiSpace =
      (text.dropWhile isAsciiSpace).rdropWhile isAsciiSpace := by
    rw [List.dropWhile_eq_self_iff]
    intro hpos
    rw [List.IsPrefix.getElem hprefix hpos]
    exact List.dropWhile_get_zero_not _ _ (hpos.trans_le hprefix.length_le)
  rw [hdrop, List.rdropWhile_idempotent]

theorem notMem_trimAscii {b : UInt8} {text : Bytes} (h : b ∉ text) : b ∉ trimAscii text :=
  fun hmem => h ((List.dropWhile_suffix _).subset ((List.rdropWhile_prefix _ _).subset hmem))

theorem notMem_of_mem_splitOn {α : Type*} [DecidableEq α] {a : α} {l x : List α}
    (h : x ∈ l.splitOn a) : a ∉ x := by
  induction l generalizing x with
  | nil =>
    rw [List.splitOn_nil, List.mem_singleton] at h
    rw [h]
    exact List.not_mem_nil
  | cons b l ih =>
    rw [List.splitOn_cons_eq_if_modifyHead] at h
    split at h
    · rcases List.mem_cons.mp h with rfl | h
      · exact List.not_mem_nil
      · exact ih h
    · next hb =>
      cases hsplit : l.splitOn a with
      | nil => exact absurd hsplit (List.splitOn_ne_nil a l)
      | cons y ys =>
        rw [hsplit, List.modifyHead_cons] at h
        rcases List.mem_cons.mp h with rfl | h
        · rintro hmem
          rcases List.mem_cons.mp hmem with rfl | hmem
          · simp at hb
          · exact ih (by rw [hsplit]; exact List.mem_cons_self) hmem
        · exact ih (by rw [hsplit]; exact List.mem_cons_of_mem _ h)

/-- Entries are trimmed and have no comma. -/
theorem of_mem_entries {lines : List Bytes} {e : Bytes} (h : e ∈ entries lines) :
    trimAscii e = e ∧ comma ∉ e := by
  obtain ⟨raw, hraw, rfl⟩ := List.mem_map.mp h
  exact ⟨trimAscii_trimAscii raw, notMem_trimAscii (notMem_of_mem_splitOn hraw)⟩

/-- The line that is made of entries has these entries. -/
theorem entries_intercalate {es : List Bytes} (hne : es ≠ [])
    (h : ∀ e ∈ es, trimAscii e = e ∧ comma ∉ e) : entries [List.intercalate [comma] es] = es := by
  rw [entries_single, List.splitOn_intercalate comma (fun e he => (h e he).2) hne]
  exact (List.map_congr_left fun e he => (h e he).1).trans (List.map_id es)

theorem mem_intercalate {α : Type*} {sep : List α} {ls : List (List α)} {x : α}
    (h : x ∈ List.intercalate sep ls) : x ∈ sep ∨ ∃ l ∈ ls, x ∈ l := by
  induction ls with
  | nil => cases h
  | cons l ls ih =>
    by_cases hne : ls = []
    · subst hne
      rw [List.intercalate_singleton] at h
      exact Or.inr ⟨l, List.mem_cons_self, h⟩
    · rw [List.intercalate_cons_of_ne_nil hne] at h
      rcases List.mem_append.mp h with h | h
      · rcases List.mem_append.mp h with h | h
        · exact Or.inr ⟨l, List.mem_cons_self, h⟩
        · exact Or.inl h
      · rcases ih h with h | ⟨l', hl', h⟩
        · exact Or.inl h
        · exact Or.inr ⟨l', List.mem_cons_of_mem _ hl', h⟩

/-- The request with the same other headers and one line that has only the last entries. -/
def onlyTail (headers : HeaderMap) (tail : List Bytes) : HeaderMap :=
  headers.filter (fun h => h.1 ≠ "x-forwarded-for") ++
    [("x-forwarded-for", List.intercalate [comma] tail)]

theorem getAll_onlyTail (headers : HeaderMap) (tail : List Bytes) :
    (onlyTail headers tail).getAll "x-forwarded-for" = [List.intercalate [comma] tail] := by
  unfold onlyTail HeaderMap.getAll
  rw [List.filter_append, List.filter_filter, List.filter_eq_nil_iff.mpr (by simp)]
  rfl

theorem getAll_onlyTail_ne (headers : HeaderMap) (tail : List Bytes) {name : String}
    (h : name ≠ "x-forwarded-for") : (onlyTail headers tail).getAll name = headers.getAll name := by
  unfold onlyTail HeaderMap.getAll
  rw [List.filter_append, List.filter_filter]
  have hlast : ([("x-forwarded-for", List.intercalate [comma] tail)].filter
      fun x : String × Bytes => x.1 = name) = [] := by
    rw [List.filter_eq_nil_iff]
    simpa using Ne.symm h
  rw [hlast, List.append_nil]
  congr 1
  refine List.filter_congr fun x _ => ?_
  by_cases hx : x.1 = name
  · simp [hx, h]
  · simp [hx]

theorem trusted_onlyTail {tail : List Bytes} (h : Trusted dc headers connectionIp proxySecret) :
    Trusted dc (onlyTail headers tail) connectionIp proxySecret := by
  refine h.imp_right fun h => ?_
  unfold presentsProxySecret HeaderMap.get at *
  rw [getAll_onlyTail_ne headers tail (by decide)]
  exact h

theorem onlyTail_spec {depth : Nat} {e : Bytes} {tail : List Bytes}
    (hends : EndsIn headers depth (e :: tail))
    (hvisible : ∀ x ∈ e :: tail, x.all isVisibleAscii = true) :
    EndsIn (onlyTail headers (e :: tail)) depth (e :: tail) ∧ Plain (onlyTail headers (e :: tail)) := by
  have hentries : entries [List.intercalate [comma] (e :: tail)] = e :: tail :=
    entries_intercalate (List.cons_ne_nil _ _) fun x hx => of_mem_entries (hends.suffix.subset hx)
  refine ⟨⟨hends.length, hends.nonempty, ?_⟩, _, getAll_onlyTail _ _, ?_⟩
  · exact ⟨[], by rw [List.nil_append, getAll_onlyTail, hentries]⟩
  · rw [List.all_eq_true]
    intro b hb
    rcases mem_intercalate hb with hb | ⟨x, hx, hb⟩
    · rw [List.mem_singleton.mp hb]
      decide
    · exact List.all_eq_true.mp (hvisible x hx) b hb

/-! ## Two requests -/

/--
A peer that is not trusted has its own address, whatever it sends. Behind a trusted proxy, with the
`depth`-th address from the right, two requests that end in the same addresses have the same one if
each says its addresses in one line that can be read; and a request has the one that all of these
have exactly when its first line, or else the peer, has it.
-/
theorem client_ip_not_spoofed (dc : DynamicConfig) (proxySecret : Option Bytes) :
    (∀ headers connectionIp, ¬ Trusted dc headers connectionIp proxySecret →
      resolveClientIp dc headers connectionIp proxySecret = connectionIp) ∧
    (dc.source = "xff" → dc.xffPosition = "right" → ∀ headers connectionIp e tail,
      Trusted dc headers connectionIp proxySecret → EndsIn headers dc.depth (e :: tail) →
      (Plain headers → ∀ headers', Trusted dc headers' connectionIp proxySecret →
        EndsIn headers' dc.depth (e :: tail) → Plain headers' →
        resolveClientIp dc headers connectionIp proxySecret =
          resolveClientIp dc headers' connectionIp proxySecret) ∧
      ((∀ x ∈ e :: tail, x.all isVisibleAscii = true) →
        ((∀ headers', Trusted dc headers' connectionIp proxySecret →
          EndsIn headers' dc.depth (e :: tail) → Plain headers' →
          resolveClientIp dc headers connectionIp proxySecret =
            resolveClientIp dc headers' connectionIp proxySecret) ↔
          FirstLineNames headers dc.depth connectionIp (ofAscii e)))) := by
  refine ⟨fun _ _ h => resolveClientIp_untrusted h, fun hsource hposition headers connectionIp e tail
    htrusted hends => ⟨fun hplain headers' htrusted' hends' hplain' => ?_, fun hvisible => ?_⟩⟩
  · rw [resolveClientIp_plain htrusted hsource hposition hplain hends,
      resolveClientIp_plain htrusted' hsource hposition hplain' hends']
  · rw [← resolveClientIp_iff htrusted hsource hposition]
    constructor
    · intro h
      obtain ⟨hends', hplain'⟩ := onlyTail_spec hends hvisible
      rw [h _ (trusted_onlyTail htrusted) hends' hplain']
      exact resolveClientIp_plain (trusted_onlyTail htrusted) hsource hposition hplain' hends'
    · intro h headers' htrusted' hends' hplain'
      rw [h, resolveClientIp_plain htrusted' hsource hposition hplain' hends']

/-! ## A proxy that adds a line -/

def bytes (s : String) : Bytes := s.toUTF8.data.toList

def behindProxy : DynamicConfig := ⟨some "xff", some "10.0.0.2", some "right", some 1⟩

/-- The proxy's own line, after what the client has sent. -/
def forwarded (sent : List Bytes) : HeaderMap :=
  (sent ++ [bytes "203.0.113.9"]).map fun line => ("x-forwarded-for", line)

theorem trusted_behindProxy (headers : HeaderMap) :
    Trusted behindProxy headers (some "10.0.0.2") none :=
  Or.inl (by decide +kernel)

/-- What the client puts in front in the same line does not matter. -/
theorem client_ip_not_spoofed_sameLine :
    resolveClientIp behindProxy [("x-forwarded-for", bytes "198.51.100.1, 203.0.113.9")]
        (some "10.0.0.2") none =
      resolveClientIp behindProxy (forwarded []) (some "10.0.0.2") none ∧
    resolveClientIp behindProxy (forwarded [bytes "198.51.100.1"]) (some "192.0.2.5") none =
      some "192.0.2.5" := by
  obtain ⟨huntrusted, htrusted⟩ := client_ip_not_spoofed behindProxy none
  have hends : EndsIn [("x-forwarded-for", bytes "198.51.100.1, 203.0.113.9")] 1
      [bytes "203.0.113.9"] :=
    ⟨rfl, by decide +kernel, [bytes "198.51.100.1"], by decide +kernel⟩
  have hends' : EndsIn (forwarded []) 1 [bytes "203.0.113.9"] :=
    ⟨rfl, by decide +kernel, [], by decide +kernel⟩
  refine ⟨?_, huntrusted _ _ ?_⟩
  · exact (htrusted rfl rfl _ _ _ _ (trusted_behindProxy _) hends).1
      ⟨_, rfl, by decide +kernel⟩ _ (trusted_behindProxy _) hends' ⟨_, rfl, by decide +kernel⟩
  · unfold Trusted
    decide +kernel

/-- But a line of its own does, and so does a byte that cannot be read. -/
theorem client_ip_spoofed :
    (∀ headers, Trusted behindProxy headers (some "10.0.0.2") none) ∧
    resolveClientIp behindProxy (forwarded []) (some "10.0.0.2") none = some "203.0.113.9" ∧
    EndsIn (forwarded []) behindProxy.depth [bytes "203.0.113.9"] ∧
    EndsIn (forwarded [bytes "198.51.100.1"]) behindProxy.depth [bytes "203.0.113.9"] ∧
    resolveClientIp behindProxy (forwarded [bytes "198.51.100.1"]) (some "10.0.0.2") none =
      some "198.51.100.1" ∧
    EndsIn [("x-forwarded-for", 255 :: comma :: bytes "203.0.113.9")] behindProxy.depth
      [bytes "203.0.113.9"] ∧
    resolveClientIp behindProxy [("x-forwarded-for", 255 :: comma :: bytes "203.0.113.9")]
      (some "10.0.0.2") none = some "10.0.0.2" :=
  ⟨trusted_behindProxy, by decide +kernel, ⟨rfl, by decide +kernel, [], by decide +kernel⟩,
    ⟨rfl, by decide +kernel, [bytes "198.51.100.1"], by decide +kernel⟩, by decide +kernel,
    ⟨rfl, by decide +kernel, [[255]], by decide +kernel⟩, by decide +kernel⟩

end ThinkWatch.Auth.ClientIp
