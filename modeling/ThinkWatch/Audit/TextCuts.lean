import ThinkWatch.Lib.ByteCut

/-!
# Texts cut for the logs

The answer of an S3 backend that is an error, in `S3Store::signed_request` of
`crates/common/src/blob_store.rs`, and a captured body, in `process_body` of
`crates/gateway/src/proxy/body_capture.rs`. Both are decoded with `String::from_utf8_lossy` and cut at
a number of bytes. `none` is a panic.
-/

namespace ThinkWatch.Audit

open Lib ByteCut

def ellipsis : List Char := ['.', '.', '.']

/-! ## The answer of a backend -/

def snippetMax : Nat := 1024

/-- The part of `BlobError` that an answer can be. -/
inductive BlobError where
  | transport (message : List Char)
  | badStatus (status : Nat) (body : List Char)
deriving DecidableEq, Repr

def errorSnippet (bytes : List UInt8) : Option (List Char) :=
  let snippet := Utf8.decode bytes
  if byteLen snippet > snippetMax then (truncate snippetMax snippet).map (· ++ ellipsis)
  else some snippet

/-- The error path of `S3Store::signed_request`, by what `read_response` gave. -/
def errorAnswer (status : Nat) (read : Except (List Char) (List UInt8)) : Option BlobError :=
  match read with
  | .error message => some (.transport message)
  | .ok bytes => (errorSnippet bytes).map (.badStatus status)

/-! ## A captured body -/

/-- What `store_if_oversize` says. -/
inductive Offload where
  | offloaded (url : List Char)
  | inline (returned : List Char)
  | failed (error : List Char)
deriving DecidableEq, Repr

/-- What `process_body` returns, and the flags that it has set. -/
structure Captured where
  text : List Char
  truncated : Bool
  offloaded : Bool
deriving DecidableEq, Repr

def offloadFailed (error : List Char) : List Char :=
  "[blob offload failed: ".toList ++ (error ++ [']'])

def truncateBody (s : List Char) (maxBytes : Nat) : Option (List Char) :=
  let budget := maxBytes - 3
  let stop := walkBack s (min budget (byteLen s))
  (takeBytes? stop s).map (· ++ ellipsis)

def truncated (s : List Char) (maxBytes : Nat) : Option Captured :=
  (truncateBody s maxBytes).map fun text => ⟨text, true, false⟩

/-- `redact` and `store` are there when redaction is on and when the store can offload. -/
def processBody (raw : List Char) (maxBytes : Nat) (redact : Option (List Char → List Char))
    (store : Option (List Char → Offload)) : Option Captured :=
  let s := redact.elim raw (· raw)
  if byteLen s ≤ maxBytes then some ⟨s, false, false⟩
  else
    match store with
    | none => truncated s maxBytes
    | some storeIfOversize =>
      match storeIfOversize s with
      | .offloaded url => some ⟨url, false, true⟩
      | .inline returned => truncated returned maxBytes
      | .failed error => truncated (offloadFailed error) maxBytes

/-- The text that is cut when a body is too long. -/
def uncut (raw : List Char) (redact : Option (List Char → List Char))
    (store : Option (List Char → Offload)) : List Char :=
  let s := redact.elim raw (· raw)
  match store with
  | none => s
  | some storeIfOversize =>
    match storeIfOversize s with
    | .offloaded _ => s
    | .inline returned => returned
    | .failed error => offloadFailed error

/-- `out` is some characters at the start of `text`, and the ellipsis. -/
def CutOf (text out : List Char) : Prop := ∃ p, p <+: text ∧ out = p ++ ellipsis

theorem truncateBody_spec (s : List Char) {maxBytes : Nat} (h : 3 ≤ maxBytes) :
    ∃ out, truncateBody s maxBytes = some out ∧ CutOf s out ∧ byteLen out ≤ maxBytes := by
  obtain ⟨p, hp, hpre, hlen⟩ := exists_takeBytes?_walkBack s (min (maxBytes - 3) (byteLen s))
  refine ⟨p ++ ellipsis, by rw [truncateBody, hp]; rfl, ⟨p, hpre, rfl⟩, ?_⟩
  have hellipsis : byteLen ellipsis = 3 := by decide
  rw [byteLen_append, hellipsis]
  omega

/-- A captured body is kept as it is, replaced by its place in the store, or cut. -/
def BodySafe (raw : List Char) (maxBytes : Nat) (redact : Option (List Char → List Char))
    (store : Option (List Char → Offload)) : Prop :=
  ∃ c, processBody raw maxBytes redact store = some c ∧
    (c.offloaded = false → byteLen c.text ≤ maxBytes) ∧
    (c.truncated = true → CutOf (uncut raw redact store) c.text)

theorem processBody_safe (raw : List Char) {maxBytes : Nat} (h : 3 ≤ maxBytes)
    (redact : Option (List Char → List Char)) (store : Option (List Char → Offload)) :
    BodySafe raw maxBytes redact store := by
  have hcut (s : List Char) : ∃ c, truncated s maxBytes = some c ∧ CutOf s c.text ∧
      byteLen c.text ≤ maxBytes := by
    obtain ⟨out, hout, hof, hlen⟩ := truncateBody_spec s h
    exact ⟨⟨out, true, false⟩, by rw [truncated, hout]; rfl, hof, hlen⟩
  unfold BodySafe processBody uncut
  generalize redact.elim raw (· raw) = s
  by_cases hfits : byteLen s ≤ maxBytes
  · exact ⟨⟨s, false, false⟩, if_pos hfits, fun _ => hfits, nofun⟩
  simp only [hfits, if_false]
  cases store with
  | none =>
    obtain ⟨c, hc, hof, hlen⟩ := hcut s
    exact ⟨c, hc, fun _ => hlen, fun _ => hof⟩
  | some storeIfOversize =>
    cases hstore : storeIfOversize s with
    | offloaded url =>
      simp only [hstore]
      exact ⟨⟨url, false, true⟩, rfl, nofun, nofun⟩
    | inline returned =>
      obtain ⟨c, hc, hof, hlen⟩ := hcut returned
      simp only [hstore]
      exact ⟨c, hc, fun _ => hlen, fun _ => hof⟩
    | failed error =>
      obtain ⟨c, hc, hof, hlen⟩ := hcut (offloadFailed error)
      simp only [hstore]
      exact ⟨c, hc, fun _ => hlen, fun _ => hof⟩

/-- The answer is told as it is, or cut when it is too long. -/
def SnippetSafe (bytes : List UInt8) : Prop :=
  ∃ out, errorSnippet bytes = some out ∧
    if byteLen (Utf8.decode bytes) ≤ snippetMax then out = Utf8.decode bytes
    else CutOf (Utf8.decode bytes) out

theorem snippetSafe_iff (bytes : List UInt8) : SnippetSafe bytes ↔
    byteLen (Utf8.decode bytes) ≤ snippetMax ∨
      isCharBoundary (Utf8.decode bytes) snippetMax = true := by
  unfold SnippetSafe errorSnippet
  generalize Utf8.decode bytes = text
  by_cases hfits : byteLen text ≤ snippetMax
  · simp [hfits, Nat.not_lt.mpr hfits]
  · have hlong : snippetMax < byteLen text := Nat.lt_of_not_ge hfits
    have htruncate : truncate snippetMax text = takeBytes? snippetMax text :=
      if_neg (Nat.not_lt.mpr (Nat.le_of_lt hlong))
    simp only [hfits, gt_iff_lt, hlong, if_true, if_false, false_or, htruncate]
    rw [isCharBoundary, Option.isSome_iff_exists]
    constructor
    · rintro ⟨out, hout, -⟩
      obtain ⟨p, hp, -⟩ := Option.map_eq_some_iff.mp hout
      exact ⟨p, hp⟩
    · rintro ⟨p, hp⟩
      exact ⟨p ++ ellipsis, by rw [hp]; rfl, p, (takeBytes?_eq_some_iff.mp hp).1, rfl⟩

/--
An answer and a captured body are both told safely if and only if the answer is short or no character
of it lies across its byte 1024. The body never is the reason.
-/
theorem cuts_safe_iff (bytes body : List UInt8) {maxBytes : Nat} (hmax : 3 ≤ maxBytes)
    (redact : Option (List Char → List Char)) (store : Option (List Char → Offload)) :
    SnippetSafe bytes ∧ BodySafe (Utf8.decode body) maxBytes redact store ↔
      byteLen (Utf8.decode bytes) ≤ snippetMax ∨
        isCharBoundary (Utf8.decode bytes) snippetMax = true := by
  rw [snippetSafe_iff, and_iff_left (processBody_safe _ hmax redact store)]

theorem cuts_safe_short :
    SnippetSafe [0x6e, 0x6f] ∧ BodySafe (Utf8.decode [0xe6, 0x97, 0xa5, 0xff]) 4 none none ↔
      byteLen (Utf8.decode [0x6e, 0x6f]) ≤ snippetMax ∨
        isCharBoundary (Utf8.decode [0x6e, 0x6f]) snippetMax = true :=
  cuts_safe_iff [0x6e, 0x6f] [0xe6, 0x97, 0xa5, 0xff] (by decide) none none

def longAnswer : List Char := List.replicate 1023 'a' ++ ['é']

/-- 1023 ASCII characters and one of two bytes. -/
theorem longAnswer_panics : errorAnswer 500 (.ok (Utf8.encode longAnswer)) = none := by
  have hdecode : Utf8.decode (Utf8.encode longAnswer) = longAnswer := Utf8.decode_encoded longAnswer
  have hcut : (if byteLen longAnswer > snippetMax then (truncate snippetMax longAnswer).map (· ++ ellipsis)
      else some longAnswer) = none := by decide +kernel
  simp only [errorAnswer, errorSnippet, hdecode, hcut, Option.map_none]

end ThinkWatch.Audit
