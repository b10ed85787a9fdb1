import ThinkWatch.Auth.Totp
import ThinkWatch.Lib.Utf8

/-!
# Which texts pass as a recovery code

`find_recovery_code` (`crates/auth/src/totp.rs`) compares sixteen bytes of the two texts, filled up
with zeros, and their lengths modulo 256. A code has nine bytes. `recovery_codes_exact_iff`: a text
that is none of the codes passes exactly if it is one of them, seven zeros, and 249 bytes more, or
505, or any number that is 249 modulo 256.
-/

namespace ThinkWatch.Auth

open Lib

/-! ## The shape of a code -/

def base32Alphabet : List Char := "ABCDEFGHIJKLMNOPQRSTUVWXYZ234567".toList

/-- What `BASE32_NOPAD` can make of ten bytes. -/
def IsEncoding (encoded : String) : Prop :=
  encoded.toList.length = 16 ∧ ∀ c ∈ encoded.toList, c ∈ base32Alphabet

def IsRecoveryCode (code : String) : Prop :=
  ∃ encoded, IsEncoding encoded ∧ recoveryCode encoded = code

/-- The text is a listed code, seven zeros, and 249 bytes modulo 256. -/
def PassesAsCode (codes : List String) (candidate : String) : Prop :=
  ∃ code ∈ codes, ∃ rest, Utf8.encode candidate.toList =
    Utf8.encode code.toList ++ List.replicate 7 0 ++ rest ∧ rest.length % 256 = 249

variable {codes draws out : List String} {code candidate : String} {count i : Nat}
  {bytes bytes' : List UInt8}

theorem toList_recoveryCode (encoded : String) : (recoveryCode encoded).toList =
    encoded.toList.take 4 ++ '-' :: (encoded.toList.drop 4).take 4 := by
  unfold recoveryCode
  simp

theorem IsRecoveryCode.length_encode (h : IsRecoveryCode code) :
    (Utf8.encode code.toList).length = 9 := by
  obtain ⟨encoded, ⟨hlen, halphabet⟩, rfl⟩ := h
  have hall : base32Alphabet.all (fun c => c.utf8Size == 1) = true := by decide
  have hascii : ∀ c ∈ base32Alphabet, c.utf8Size = 1 :=
    fun c hc => eq_of_beq (List.all_eq_true.mp hall c hc)
  rw [Utf8.length_encode_ascii, toList_recoveryCode]
  · simp [hlen]
  · rw [toList_recoveryCode]
    intro c hc
    rcases List.mem_append.mp hc with hc | hc
    · exact hascii c (halphabet c (List.mem_of_mem_take hc))
    · rcases List.mem_cons.mp hc with rfl | hc
      · rfl
      · exact hascii c (halphabet c (List.mem_of_mem_drop (List.mem_of_mem_take hc)))

/-! ## What is compared -/

/-- The comparison of `find_recovery_code`, of a code with any text. -/
def Passes (bytes bytes' : List UInt8) : Prop :=
  bytes.length.toUInt8 = bytes'.length.toUInt8 ∧ padToFixed bytes = padToFixed bytes'

instance (bytes bytes' : List UInt8) : Decidable (Passes bytes bytes') :=
  inferInstanceAs (Decidable (_ ∧ _))

theorem toUInt8_eq_iff {m n : Nat} : m.toUInt8 = n.toUInt8 ↔ m % 256 = n % 256 := by
  rw [← UInt8.toNat_inj]
  simp

/-- The whole code is compared, and what a longer text has after sixteen bytes is not. -/
theorem passes_code_iff (hcode : bytes.length = 9) :
    Passes bytes bytes' ↔ bytes = bytes' ∨
      ∃ rest, bytes' = bytes ++ List.replicate 7 0 ++ rest ∧ rest.length % 256 = 249 := by
  have hpad : padToFixed bytes = bytes ++ List.replicate 7 0 := by
    unfold padToFixed
    rw [List.take_of_length_le (by omega), hcode]
  unfold Passes
  rw [toUInt8_eq_iff, hpad, hcode]
  constructor
  · rintro ⟨hlen, heq⟩
    unfold padToFixed at heq
    by_cases hshort : bytes'.length ≤ 16
    · -- of the lengths up to sixteen, nine alone is nine modulo 256
      have hnine : bytes'.length = 9 := by omega
      rw [List.take_of_length_le hshort, hnine] at heq
      exact Or.inl (List.append_inj heq (hcode.trans hnine.symm)).1
    · have hnone : 16 - bytes'.length = 0 := by omega
      rw [hnone, List.replicate_zero, List.append_nil] at heq
      refine Or.inr ⟨bytes'.drop 16, ?_, ?_⟩
      · rw [heq, List.take_append_drop]
      · rw [List.length_drop]
        omega
  · rintro (rfl | ⟨rest, rfl, hrest⟩)
    · exact ⟨by rw [hcode], hpad.symm⟩
    · have hlen : (bytes ++ List.replicate 7 (0 : UInt8)).length = 16 := by simp [hcode]
      constructor
      · rw [List.length_append, hlen]
        omega
      · unfold padToFixed
        rw [← hlen, List.take_left, List.length_append]
        simp

/-! ## The search -/

/-- If there is a match, the search finds one. -/
theorem isSome_foldl_match {α β : Type*} {p : α → Prop} [DecidablePred p] {f : α → β} {l : List α}
    {found : Option β} (h : (∃ x ∈ l, p x) ∨ found.isSome) :
    (l.foldl (fun found x => if p x then some (f x) else found) found).isSome := by
  induction l generalizing found with
  | nil => exact h.resolve_left (by simp)
  | cons x l ih =>
    refine ih ?_
    by_cases hx : p x
    · simp [hx]
    · dsimp only
      rw [if_neg hx]
      rcases h with ⟨y, hy, hpy⟩ | hfound
      · rcases List.mem_cons.mp hy with rfl | hy
        · exact absurd hpy hx
        · exact Or.inl ⟨y, hy, hpy⟩
      · exact Or.inr hfound

theorem findRecoveryCode_eq (codes : List String) (candidate : String) :
    findRecoveryCode codes candidate = codes.zipIdx.foldl (fun found x =>
      if Passes (Utf8.encode x.1.toList) (Utf8.encode candidate.toList) then some x.2
      else found) none := by
  unfold findRecoveryCode
  simp only [Utf8.toList_toUTF8]
  rfl

/-- What is found passes. -/
theorem passes_of_find (h : findRecoveryCode codes candidate = some i) :
    ∃ code, codes[i]? = some code ∧
      Passes (Utf8.encode code.toList) (Utf8.encode candidate.toList) := by
  rw [findRecoveryCode_eq] at h
  rcases foldl_match_mem codes.zipIdx h with ⟨⟨code, j⟩, hmem, hpasses, rfl⟩ | hnone
  · exact ⟨code, List.mem_zipIdx_iff_getElem?.mp hmem, hpasses⟩
  · cases hnone

theorem exists_find (hcode : codes[i]? = some code)
    (hpasses : Passes (Utf8.encode code.toList) (Utf8.encode candidate.toList)) :
    ∃ j, findRecoveryCode codes candidate = some j := by
  rw [findRecoveryCode_eq]
  exact Option.isSome_iff_exists.mp (isSome_foldl_match
    (Or.inl ⟨(code, i), List.mem_zipIdx_iff_getElem?.mpr hcode, hpasses⟩))

/-- The search finds the codes alone, exactly if the text does not pass as another. -/
theorem findRecoveryCode_exact (hnodup : codes.Nodup)
    (hcodes : ∀ code ∈ codes, IsRecoveryCode code) :
    (∀ i, findRecoveryCode codes candidate = some i ↔ codes[i]? = some candidate) ↔
      ¬ PassesAsCode codes candidate := by
  constructor
  · rintro hexact ⟨code, hmem, rest, hrest⟩
    obtain ⟨j, hj⟩ := List.mem_iff_getElem?.mp hmem
    have hlen := (hcodes code hmem).length_encode
    obtain ⟨i, hi⟩ := exists_find hj ((passes_code_iff hlen).mpr (Or.inr ⟨rest, hrest⟩))
    -- what is found is the text, which is longer than any code
    have hcandidate := (hcodes candidate (List.mem_of_getElem? ((hexact i).mp hi))).length_encode
    rw [hrest.1, List.length_append, List.length_append, hlen] at hcandidate
    simp at hcandidate
    omega
  · intro hnone i
    have heq : ∀ {j : Nat} {code}, codes[j]? = some code →
        Passes (Utf8.encode code.toList) (Utf8.encode candidate.toList) → code = candidate := by
      intro j code hj hpasses
      have hmem : code ∈ codes := List.mem_of_getElem? hj
      rcases (passes_code_iff (hcodes code hmem).length_encode).mp hpasses with heq | ⟨rest, hrest⟩
      · exact String.toList_inj.mp (Utf8.encode_injective heq)
      · exact absurd ⟨code, hmem, rest, hrest⟩ hnone
    constructor
    · intro hi
      obtain ⟨code, hcode, hpasses⟩ := passes_of_find hi
      rw [hcode, heq hcode hpasses]
    · intro hi
      obtain ⟨j, hj⟩ := exists_find hi ⟨rfl, rfl⟩
      obtain ⟨code, hcode, hpasses⟩ := passes_of_find hj
      obtain rfl := heq hcode hpasses
      have hlt : j < codes.length := findRecoveryCode_lt hj
      rw [hj, (List.getElem?_inj hlt hnodup).mp (hcode.trans hi.symm)]

/-! ## The codes of a set -/

theorem length_drawCodes (hle : codes.length ≤ count) (h : drawCodes count draws codes = some out) :
    out.length = count := by
  induction draws generalizing codes with
  | nil =>
    rw [drawCodes] at h
    split at h
    · cases h
    · obtain rfl := Option.some.inj h
      omega
  | cons encoded draws ih =>
    rw [drawCodes] at h
    split at h
    · next hlt =>
      refine ih ?_ h
      split
      · exact hle
      · rw [List.length_append, List.length_singleton]
        exact hlt
    · obtain rfl := Option.some.inj h
      omega

/-- The codes of a set have the shape of a code. -/
theorem shape_drawCodes (hdraws : ∀ encoded ∈ draws, IsEncoding encoded)
    (hcodes : ∀ code ∈ codes, IsRecoveryCode code) (h : drawCodes count draws codes = some out) :
    ∀ code ∈ out, IsRecoveryCode code := by
  induction draws generalizing codes with
  | nil =>
    rw [drawCodes] at h
    split at h
    · cases h
    · obtain rfl := Option.some.inj h
      exact hcodes
  | cons encoded draws ih =>
    rw [drawCodes] at h
    split at h
    · refine ih (fun e he => hdraws e (List.mem_cons_of_mem _ he)) ?_ h
      split
      · exact hcodes
      · intro code hmem
        rcases List.mem_append.mp hmem with hmem | hmem
        · exact hcodes code hmem
        · rw [List.mem_singleton.mp hmem]
          exact ⟨encoded, hdraws encoded List.mem_cons_self, rfl⟩
    · obtain rfl := Option.some.inj h
      exact hcodes

/--
A list of codes finds its own codes and no other text, exactly if the text is no code with seven
zeros and 249 bytes (modulo 256) after it; and the codes that are made for a set differ, and are such
codes.
-/
theorem recovery_codes_exact_iff (codes : List String) (hnodup : codes.Nodup)
    (hcodes : ∀ code ∈ codes, IsRecoveryCode code) (candidate : String) :
    ((∀ i, findRecoveryCode codes candidate = some i ↔ codes[i]? = some candidate) ↔
        ¬ PassesAsCode codes candidate) ∧
      ∀ count draws out, generateRecoveryCodes count draws = some out →
        out.length = count ∧ out.Nodup ∧
          ((∀ encoded ∈ draws, IsEncoding encoded) → ∀ code ∈ out, IsRecoveryCode code) := by
  refine ⟨findRecoveryCode_exact hnodup hcodes, fun count draws out hmade => ?_⟩
  refine ⟨length_drawCodes (Nat.zero_le _) hmade, drawCodes_nodup List.nodup_nil hmade, ?_⟩
  intro hdraws
  exact shape_drawCodes hdraws (fun _ hmem => absurd hmem List.not_mem_nil) hmade

/-- A code with seven zeros and 249 more characters after it. -/
def longCandidate : String :=
  String.ofList ("ABCD-EFGH".toList ++ List.replicate 7 '\x00' ++ List.replicate 249 'x')

theorem longCandidate_passes :
    ¬ (∀ i, findRecoveryCode ["ABCD-EFGH"] longCandidate = some i ↔
      ["ABCD-EFGH"][i]? = some longCandidate) := by
  intro h
  have hfound : findRecoveryCode ["ABCD-EFGH"] longCandidate = some 0 := by decide +kernel
  have heq := (h 0).mp hfound
  revert heq
  decide +kernel

theorem isRecoveryCode_made {code encoded : String} (hlen : encoded.toList.length = 16)
    (hletters : encoded.toList.all (base32Alphabet.contains ·) = true)
    (hmade : recoveryCode encoded = code) : IsRecoveryCode code :=
  ⟨encoded, ⟨hlen, fun c hc => List.contains_iff_mem.mp (List.all_eq_true.mp hletters c hc)⟩, hmade⟩

/-- Of two codes the second is found in its place, and another one is not found. -/
theorem recovery_codes_exact_abcd :
    findRecoveryCode ["ABCD-EFGH", "QRST-UV23"] "QRST-UV23" = some 1 ∧
    (∀ i, findRecoveryCode ["ABCD-EFGH", "QRST-UV23"] "ABCD-EFGJ" = some i ↔
      ["ABCD-EFGH", "QRST-UV23"][i]? = some "ABCD-EFGJ") ∧
    ∀ count draws out, generateRecoveryCodes count draws = some out →
      out.length = count ∧ out.Nodup ∧
        ((∀ encoded ∈ draws, IsEncoding encoded) → ∀ code ∈ out, IsRecoveryCode code) := by
  have hcodes : ∀ code ∈ ["ABCD-EFGH", "QRST-UV23"], IsRecoveryCode code := by
    rintro code (_ | ⟨_, _ | ⟨_, ⟨⟩⟩⟩)
    · exact isRecoveryCode_made (show "ABCDEFGHIJKLMNOP".toList.length = 16 from rfl) (by decide) (by decide +kernel)
    · exact isRecoveryCode_made (show "QRSTUV23456772AA".toList.length = 16 from rfl) (by decide) (by decide +kernel)
  -- nine bytes are no code with more bytes after it
  have hshort {candidate : String} (hlen : (Utf8.encode candidate.toList).length = 9) :
      ¬ PassesAsCode ["ABCD-EFGH", "QRST-UV23"] candidate := by
    rintro ⟨code, hcode, rest, hrest, -⟩
    have hnine := (hcodes code hcode).length_encode
    rw [hrest] at hlen
    simp only [List.length_append, List.length_replicate] at hlen
    omega
  have hsecond := recovery_codes_exact_iff ["ABCD-EFGH", "QRST-UV23"] (by decide) hcodes "QRST-UV23"
  have hother := recovery_codes_exact_iff ["ABCD-EFGH", "QRST-UV23"] (by decide) hcodes "ABCD-EFGJ"
  exact ⟨(hsecond.1.mpr (hshort (by decide)) 1).mpr rfl, hother.1.mpr (hshort (by decide)), hother.2⟩

end ThinkWatch.Auth
