import ThinkWatch.Lib.Editing
import ThinkWatch.Providers.Secrets

/-!
# The secrets of a provider over its edits

Admins create providers and edit them in any order, and two edits may overlap: each is made from the
row it read. `Plain` is what an admin means, headers and credentials as they were typed; the rows
refine it (`gateway_sends_typed`).
-/

namespace ThinkWatch.Providers

open Lib
open Policy (Json)
open JsonSecret (jsonIsEncrypted)

variable {C : Crates} {key : String} {nonces : Nat → Nonce} {headers hs old : List ProviderHeader}
  {items stored : List Json} {config existing : Config} {v : Json} {h : ProviderHeader}

/-! ## One header -/

/-- The item is what is stored for the header. -/
def Holds (C : Crates) (key : String) (h : ProviderHeader) (item : Json) : Prop :=
  ∃ v, item = headerJson h.key v ∧ IsStored v ∧ decryptSecretFromJson C v key = .ok h.value ∧
    (jsonIsEncrypted v = true ↔ h.value ≠ "")

/-- A blank header is filled in with the first of the old ones that has its key. -/
def ProviderHeader.filled (old : List ProviderHeader) (h : ProviderHeader) : ProviderHeader :=
  if h.value = "" then
    ⟨h.key, ((old.find? fun o => o.key = h.key).map ProviderHeader.value).getD ""⟩
  else h

theorem headerJson_key (k : String) (v : Json) :
    ((headerJson k v).get "key").bind Json.asStr = some k := rfl

theorem headerJson_value (k : String) (v : Json) : (headerJson k v).get "value" = some v := rfl

theorem keptSecret_cons (k k' : String) (v : Json) (stored : List Json) :
    keptSecret (headerJson k' v :: stored) k =
      if k' = k then (some v).filter jsonIsEncrypted else keptSecret stored k := by
  unfold keptSecret
  split
  next hk =>
    rw [List.find?_cons_of_pos (by exact decide_eq_true (congrArg some hk))]
    rfl
  next hk =>
    have hne : ¬ decide (((headerJson k' v).get "key").bind Json.asStr = some k) = true :=
      fun h => hk (Option.some.inj (of_decide_eq_true h))
    rw [List.find?_cons_of_neg (by exact hne)]

/-- What is kept under a key reads as the old header's value, and nothing is if that is empty. -/
theorem keptSecret_spec (hold : List.Forall₂ (Holds C key) old stored) (k : String) :
    (∃ v, keptSecret stored k = some v ∧ Holds C key
      ⟨k, ((old.find? fun o => o.key = k).map ProviderHeader.value).getD ""⟩ (headerJson k v)) ∨
    keptSecret stored k = none ∧
      ((old.find? fun o => o.key = k).map ProviderHeader.value).getD "" = "" := by
  induction hold with
  | nil => exact Or.inr ⟨rfl, rfl⟩
  | @cons o item old stored ho _ ih =>
    obtain ⟨v, rfl, hstored, hread, hencrypted⟩ := ho
    rw [keptSecret_cons]
    by_cases hk : o.key = k
    · rw [if_pos hk, List.find?_cons_of_pos (by exact decide_eq_true hk), Option.map_some,
        Option.getD_some]
      by_cases hempty : o.value = ""
      · right
        have hnot : jsonIsEncrypted v = false :=
          Bool.eq_false_iff.mpr fun h => hencrypted.mp h hempty
        exact ⟨Option.filter_some_neg hnot, hempty⟩
      · left
        exact ⟨v, Option.filter_some_pos (hencrypted.mpr hempty), v, rfl, hstored, hread, hencrypted⟩
    · rw [if_neg hk, List.find?_cons_of_neg (p := fun o : ProviderHeader => decide (o.key = k))
        (fun h => hk (of_decide_eq_true h))]
      exact ih

/-- The items that are made for headers, when what is kept reads as `f` says. -/
theorem storeHeaders_spec {kept : ProviderHeader → Option Json} {f : ProviderHeader → ProviderHeader}
    {i : Nat} (hkept : ∀ h v, kept h = some v → Holds C key (f h) (headerJson h.key v))
    (hnew : ∀ h, kept h = none → f h = h)
    (hitems : storeHeaders C nonces key kept i headers = .ok items) :
    List.Forall₂ (Holds C key) (headers.map f) items := by
  induction headers generalizing i items with
  | nil =>
    obtain rfl := Except.ok.inj hitems
    exact .nil
  | cons h headers ih =>
    obtain ⟨v, hv, hitems⟩ := bind_ok.mp hitems
    obtain ⟨rest, hrest, hitems⟩ := bind_ok.mp hitems
    obtain rfl := pure_ok.mp hitems
    refine .cons ?_ (ih hrest)
    cases hk : kept h with
    | some v' =>
      rw [hk] at hv
      obtain rfl := Except.ok.inj hv
      exact hkept h v' hk
    | none =>
      rw [hk] at hv
      rw [hnew h hk]
      obtain ⟨hstored, hread, hencrypted⟩ := stored_spec hv
      exact ⟨v, rfl, hstored, hread, hencrypted⟩

theorem encryptHeaders_spec (hv : encryptHeadersForStorage C nonces headers key = .ok v) :
    ∃ items, v = .arr items ∧ List.Forall₂ (Holds C key) headers items := by
  obtain ⟨items, hitems, rfl⟩ := map_ok.mp hv
  refine ⟨items, rfl, ?_⟩
  have hspec := storeHeaders_spec (f := id) (fun _ _ h => by cases h) (fun _ _ => rfl) hitems
  rwa [List.map_id] at hspec

theorem mergeHeaders_spec (hold : List.Forall₂ (Holds C key) old (storedHeaders existing))
    (hv : mergeHeadersForStorage C nonces headers existing key = .ok v) :
    ∃ items, v = .arr items ∧
      List.Forall₂ (Holds C key) (headers.map (ProviderHeader.filled old)) items := by
  obtain ⟨items, hitems, rfl⟩ := map_ok.mp hv
  refine ⟨items, rfl, storeHeaders_spec (fun h v hkept => ?_) (fun h hkept => ?_) hitems⟩
  · unfold ProviderHeader.filled
    split at hkept
    next hblank =>
      rw [if_pos hblank]
      rcases keptSecret_spec hold h.key with ⟨v', hv', hholds⟩ | ⟨hnone, -⟩
      · obtain rfl := Option.some.inj (hkept.symm.trans hv')
        exact hholds
      · rw [hnone] at hkept
        cases hkept
    next => cases hkept
  · unfold ProviderHeader.filled
    split at hkept
    next hblank =>
      rw [if_pos hblank]
      rcases keptSecret_spec hold h.key with ⟨v', hv', -⟩ | ⟨-, hempty⟩
      · rw [hkept] at hv'
        cases hv'
      · rw [hempty, ← hblank]
    next hblank => rw [if_neg hblank]

/-- The gateway reads every header that is stored, as it was typed. -/
theorem decryptHeaders_eq (hconfig : config.get "headers" = some (.arr items))
    (hitems : List.Forall₂ (Holds C key) hs items) :
    decryptHeadersFromConfig C config key = hs := by
  unfold decryptHeadersFromConfig storedHeaders
  rw [hconfig, Option.bind_some]
  change items.filterMap _ = hs
  clear hconfig
  induction hitems with
  | nil => rfl
  | @cons h item hs items hholds _ ih =>
    obtain ⟨v, rfl, -, hread, -⟩ := hholds
    refine (List.filterMap_cons_some (b := h) ?_).trans (congrArg (h :: ·) ih)
    rw [headerJson_key, headerJson_value]
    simp only [Option.bind_eq_bind, Option.bind_some, hread]

/-! ## The AWS secret -/

/-- What a configuration signs with as it was typed. -/
def typedCredential (C : Crates) (config : Config) (key : String) : Credential :=
  match config.get awsSecretAccessKey with
  | some (.str secret) => .fromKeys (accessKeyId config) secret
  | _ => awsCredential C config key

/-- No secret is written out. -/
def Settled (config : Config) : Prop :=
  ∀ s, config.get awsSecretAccessKey = some (.str s) → s = ""

theorem awsCredential_congr {config' : Config}
    (hsecret : config'.get awsSecretAccessKey = config.get awsSecretAccessKey)
    (hid : config'.get "aws_access_key_id" = config.get "aws_access_key_id") :
    awsCredential C config' key = awsCredential C config key := by
  unfold awsCredential accessKeyId
  rw [hsecret, hid]

theorem awsCredential_of_read (hsecret : config.get awsSecretAccessKey = some v) {s : String}
    (hread : decryptSecretFromJson C v key = .ok s) :
    awsCredential C config key = .fromKeys (accessKeyId config) s := by
  unfold awsCredential
  rw [hsecret]
  dsimp only
  rw [hread]

theorem typedCredential_of_settled (h : Settled config) :
    typedCredential C config key = awsCredential C config key := by
  unfold typedCredential
  split
  next s hs =>
    obtain rfl := h s hs
    exact (awsCredential_of_read hs rfl).symm
  · rfl

theorem encryptAws_settled (h : Settled config) (nonce : Nonce) :
    encryptAwsSecretInConfig C nonce config key = .ok config := by
  unfold encryptAwsSecretInConfig
  split
  · rfl
  next raw hraw =>
    split
    · rfl
    · split
      · rfl
      next s hs =>
        have hstr : raw = .str s := by
          cases raw with
          | str t => exact congrArg Json.str (Option.some.inj hs)
          | _ => cases hs
        rw [if_pos (h s (hstr ▸ hraw))]

theorem encryptAws_spec {config' : Config} {nonce : Nonce}
    (h : encryptAwsSecretInConfig C nonce config key = .ok config') :
    (∀ k, k ≠ awsSecretAccessKey → config'.get k = config.get k) ∧
      awsCredential C config' key = typedCredential C config key ∧ Settled config' := by
  by_cases hsettled : Settled config
  · rw [encryptAws_settled hsettled] at h
    obtain rfl := Except.ok.inj h
    exact ⟨fun _ _ => rfl, (typedCredential_of_settled hsettled).symm, hsettled⟩
  · -- a secret is written out
    simp only [Settled, not_forall] at hsettled
    obtain ⟨s, hs, hne⟩ := hsettled
    unfold encryptAwsSecretInConfig at h
    rw [hs] at h
    change (if s = "" then _ else _) = _ at h
    rw [if_neg hne] at h
    obtain ⟨v, hv, rfl⟩ := map_ok.mp h
    obtain ⟨hstored, hread, -⟩ := stored_spec hv
    have hid : (config.insert awsSecretAccessKey v).get "aws_access_key_id" =
        config.get "aws_access_key_id" := Config.get_insert_ne (by decide) config v
    refine ⟨fun k hk => Config.get_insert_ne hk config v, ?_, fun t ht => ?_⟩
    · rw [awsCredential_of_read (Config.get_insert config _ v) hread, accessKeyId, hid]
      unfold typedCredential
      rw [hs]
      rfl
    · rw [Config.get_insert] at ht
      obtain rfl := Option.some.inj ht
      rcases hstored with heq | ⟨hex, heq⟩
      · exact Json.str.inj heq
      · cases heq

/-! ## What an admin means -/

structure CreateRequest where
  config : Option Json
  headers : List ProviderHeader
  nonces : Nat → Nonce

structure Form where
  headers : Option (List ProviderHeader)
  nonces : Nat → Nonce

/-- The `providers` table. -/
def table (C : Crates) (key : String) : Editing CreateRequest Form Config where
  create r := (createConfig C r.nonces r.config r.headers key).toOption
  update existing form := (updateConfig C form.nonces existing form.headers key).toOption

structure Plain where
  headers : List ProviderHeader
  aws : Credential
deriving DecidableEq, Repr

/-- The same with nothing encrypted. -/
def plain (C : Crates) (key : String) : Editing CreateRequest Form Plain where
  create r := (objectConfig r.config).toOption.map fun fields =>
    ⟨r.headers, typedCredential C fields key⟩
  update p form :=
    match form.headers with
    | none => some p
    | some headers => some { p with headers := headers.map (ProviderHeader.filled p.headers) }

/-- What the gateway sends with. -/
def gatewayReads (C : Crates) (key : String) (config : Config) : Plain :=
  ⟨decryptHeadersFromConfig C config key, awsCredential C config key⟩

structure Keeps (C : Crates) (key : String) (config : Config) (p : Plain) : Prop where
  headers : ∃ items, config.get "headers" = some (.arr items) ∧
    List.Forall₂ (Holds C key) p.headers items
  aws : awsCredential C config key = p.aws
  settled : Settled config

theorem Keeps.reads {p : Plain} (h : Keeps C key config p) : gatewayReads C key config = p := by
  obtain ⟨items, hconfig, hitems⟩ := h.headers
  unfold gatewayReads
  rw [decryptHeaders_eq hconfig hitems, h.aws]

/-- Headers that are stored leave the rest as it is. -/
theorem Keeps.of_headers {p : Plain} {config' : Config}
    (haws : awsCredential C config key = p.aws) (hsettled : Settled config)
    (hitems : List.Forall₂ (Holds C key) hs items)
    (hconfig : config' = config.insert "headers" (.arr items)) :
    Keeps C key config' { p with headers := hs } := by
  subst hconfig
  have hother {k : String} (hk : k ≠ "headers") :
      (config.insert "headers" (.arr items)).get k = config.get k :=
    Config.get_insert_ne hk config _
  refine ⟨⟨items, Config.get_insert config _ _, hitems⟩, ?_, fun s hs' => hsettled s ?_⟩
  · rw [awsCredential_congr (hother (by decide)) (hother (by decide)), haws]
  · rwa [hother (by decide)] at hs'

theorem toOption_eq_some {ε α : Type} {x : Except ε α} {a : α} :
    x.toOption = some a ↔ x = .ok a := by
  cases x with
  | error e => exact iff_of_false nofun nofun
  | ok b =>
    constructor
    · intro h
      exact congrArg Except.ok (Option.some.inj h)
    · intro h
      exact congrArg some (Except.ok.inj h)

theorem create_keeps {r : CreateRequest} {config : Config} {p : Plain}
    (hconfig : (table C key).create r = some config) (hp : (plain C key).create r = some p) :
    Keeps C key config p := by
  obtain ⟨fields, hfields, hconfig⟩ := bind_ok.mp (toOption_eq_some.mp hconfig)
  obtain ⟨wrapped, hwrapped, hconfig⟩ := bind_ok.mp hconfig
  obtain ⟨stored, hstored, hconfig⟩ := bind_ok.mp hconfig
  obtain ⟨fields', hfields', rfl⟩ := Option.map_eq_some_iff.mp hp
  obtain rfl := Except.ok.inj (hfields.symm.trans (toOption_eq_some.mp hfields'))
  obtain ⟨-, haws, hsettled⟩ := encryptAws_spec hwrapped
  obtain ⟨items, rfl, hitems⟩ := encryptHeaders_spec hstored
  exact Keeps.of_headers (p := ⟨r.headers, _⟩) haws hsettled hitems (pure_ok.mp hconfig).symm

theorem update_keeps {form : Form} {config : Config} {p p' : Plain} (h : Keeps C key existing p)
    (hconfig : (table C key).update existing form = some config)
    (hp : (plain C key).update p form = some p') : Keeps C key config p' := by
  obtain ⟨wrapped, hwrapped, hconfig⟩ := bind_ok.mp (toOption_eq_some.mp hconfig)
  obtain rfl := Except.ok.inj ((encryptAws_settled h.settled _).symm.trans hwrapped)
  cases hform : form.headers with
  | none =>
    simp only [hform] at hconfig hp
    have hp' : some p = some p' := by rw [← hp]; simp only [plain, hform]
    obtain rfl := Option.some.inj hp'
    exact pure_ok.mp hconfig ▸ h
  | some headers =>
    simp only [hform] at hconfig
    obtain ⟨merged, hmerged, hconfig⟩ := bind_ok.mp hconfig
    obtain ⟨items', hexisting, hold⟩ := h.headers
    have hstored : storedHeaders existing = items' := by
      rw [storedHeaders, hexisting]
      rfl
    obtain ⟨items, rfl, hitems⟩ := mergeHeaders_spec (hstored ▸ hold) hmerged
    have hp' : some { p with headers := headers.map (ProviderHeader.filled p.headers) } =
        some p' := by rw [← hp]; simp only [plain, hform]
    obtain rfl := Option.some.inj hp'
    exact Keeps.of_headers h.aws h.settled hitems (pure_ok.mp hconfig).symm

theorem table_respects (C : Crates) (key : String) :
    (table C key).Respects (plain C key) (Keeps C key) Eq Eq where
  create := fun _ _ _ _ h hk hp => create_keeps hk (h ▸ hp)
  update := fun _ _ _ _ _ _ h hf hk hp => update_keeps h hk (hf ▸ hp)

theorem table_covers (C : Crates) (key : String) : (table C key).Covers (plain C key) where
  create := by
    intro r config hconfig
    obtain ⟨fields, hfields, -⟩ := bind_ok.mp (toOption_eq_some.mp hconfig)
    change ((objectConfig r.config).toOption.map _).isSome = true
    rw [hfields]
    rfl
  update := by
    intro _ p form _ _
    change (match form.headers with | none => _ | some headers => _ : Option Plain).isSome = true
    split <;> rfl

variable {ι : Type} [DecidableEq ι] {as : List (Editing.Action ι CreateRequest Form)}
  {s s' : Editing.State ι Form Config}

theorem keeps_of_run (h : Steps (table C key).Next .start as s) :
    ∃ p, Steps (plain C key).Next .start as p ∧ Editing.Related (Keeps C key) Eq s p :=
  (table_respects C key).refines (table_covers C key) .start h

/-- What the gateway sends of a row is what the run without encryption has in its place. -/
theorem reads_of_run (h : Steps (table C key).Next .start as s) {id : ι} {r : Editing.Row Config}
    (hr : s.rows id = some r) {p : Plain}
    (hp : (as.foldlM (plain C key).step (.start : Editing.State ι Form Plain)).bind
      (fun s => (s.rows id).map fun r => r.value) = some p) : gatewayReads C key r.value = p := by
  obtain ⟨s', hplain, hrelated⟩ := keeps_of_run h
  obtain ⟨r', hr', hkeeps⟩ := hrelated.row hr
  -- the run without encryption is the one that `hp` evaluates
  rw [hplain.foldlM_eq, Option.bind_some, hr', Option.map_some] at hp
  exact hkeeps.reads.trans (Option.some.inj hp)

/-- The items are headers with stored values. -/
def AllStored (items : List Json) : Prop := ∀ item ∈ items, ∃ k v, item = headerJson k v ∧ IsStored v

theorem Keeps.items_stored {p : Plain} (h : Keeps C key config p) :
    ∃ items, config.get "headers" = some (.arr items) ∧ AllStored items := by
  obtain ⟨items, hconfig, hitems⟩ := h.headers
  refine ⟨items, hconfig, ?_⟩
  generalize p.headers = hs at hitems
  clear hconfig
  induction hitems with
  | nil => exact fun item hitem => nomatch hitem
  | @cons h _ _ _ hholds _ ih =>
    obtain ⟨v, rfl, hstored, -⟩ := hholds
    intro item hitem
    rcases List.mem_cons.mp hitem with rfl | hitem
    · exact ⟨h.key, v, rfl, hstored⟩
    · exact ih item hitem

/-- The gateway sends what was typed, whatever the order of the edits; at rest no header has its
value written out, and neither has the AWS secret. -/
theorem gateway_sends_typed (h : Steps (table C key).Next .start as s) :
    ∃ p, Steps (plain C key).Next .start as p ∧
      (∀ id, (s.rows id).map (fun r => (gatewayReads C key r.value, r.deleted)) =
        (p.rows id).map fun r => (r.value, r.deleted)) ∧
      ∀ id r, s.rows id = some r → Settled r.value ∧
        ∃ items, r.value.get "headers" = some (.arr items) ∧ AllStored items := by
  obtain ⟨p, hplain, hrelated⟩ := keeps_of_run h
  refine ⟨p, hplain, hrelated.map_rows fun _ _ hkeeps => hkeeps.reads, fun id r hr => ?_⟩
  obtain ⟨_, -, hkeeps⟩ := hrelated.row hr
  exact ⟨hkeeps.settled, hkeeps.items_stored⟩

/-! ### A header that is saved blank -/

/-- AES-256-GCM of one text. -/
def oneText (key nonce plaintext ciphertext : List UInt8) : Crates where
  aesEncrypt k n p := if (k, n, p) = (key, nonce, plaintext) then some ciphertext else none
  aesDecrypt k n c := if (k, n, c) = (key, nonce, ciphertext) then some plaintext else none
  decrypt_encrypt := by
    intro k n p c h
    split at h
    next heq =>
      cases h
      cases heq
      exact if_pos rfl
    next => cases h
  hexError _ := ""
  utf8Error _ := ""

def countingKey : String := "000102030405060708090a0b0c0d0e0f101112131415161718191a1b1c1d1e1f"

def countingNonce : Nonce := ⟨[0, 1, 2, 3, 4, 5, 6, 7, 8, 9, 10, 11], rfl⟩

def firstSecret : Crates :=
  oneText ((List.range 32).map UInt8.ofNat) countingNonce.1 [115, 107, 45, 49]
    [52, 105, 251, 42, 146, 130, 255, 92, 147, 47, 241, 8, 184, 208, 64, 48, 64, 159, 91, 106]

/-- The same key and nonce with another text. -/
def secondSecret : Crates :=
  oneText ((List.range 32).map UInt8.ofNat) countingNonce.1 [115, 107, 45, 50]
    [52, 105, 251, 41, 252, 174, 26, 57, 15, 49, 31, 223, 141, 169, 171, 64, 207, 233, 38, 246]

/-- The second ciphertext is none of the first text. -/
theorem firstSecret_aesDecrypt {k n p c : List UInt8}
    (h : secondSecret.aesEncrypt k n p = some c) : firstSecret.aesDecrypt k n c = none := by
  unfold secondSecret oneText at h
  dsimp only at h
  split at h
  · obtain rfl := Option.some.inj h
    exact if_neg fun heq => absurd (Prod.mk.inj (Prod.mk.inj heq).2).2 (by decide)
  · cases h

/-- The same key and nonce with either text. -/
def bothSecrets : Crates where
  aesEncrypt k n p := (firstSecret.aesEncrypt k n p).or (secondSecret.aesEncrypt k n p)
  aesDecrypt k n c := (firstSecret.aesDecrypt k n c).or (secondSecret.aesDecrypt k n c)
  decrypt_encrypt := by
    intro k n p c h
    rcases Option.or_eq_some_iff.mp h with hfirst | ⟨-, hsecond⟩
    · rw [firstSecret.decrypt_encrypt k n p c hfirst]
      rfl
    · rw [firstSecret_aesDecrypt hsecond, secondSecret.decrypt_encrypt k n p c hsecond]
      rfl
  hexError _ := ""
  utf8Error _ := ""

def savedBlank (secret : String) : List (Editing.Action Nat CreateRequest Form) :=
  [.create 1 ⟨none, [⟨"x-api-key", secret⟩], fun _ => countingNonce⟩,
    .read 0 1 ⟨some [⟨"x-api-key", ""⟩], fun _ => countingNonce⟩, .write 0]

theorem savedBlank_runs : (((savedBlank "sk-1").foldlM (table firstSecret countingKey).step
    (.start : Editing.State Nat Form Config)).bind fun s => s.rows 1).isSome = true := by
  decide +kernel

/-- The gateway still sends the key that was typed first. -/
theorem gateway_sends_typed_blank :
    ∃ s, Steps (table firstSecret countingKey).Next .start (savedBlank "sk-1") s ∧
      (s.rows 1).map (fun r => gatewayReads firstSecret countingKey r.value) =
        some ⟨[⟨"x-api-key", "sk-1"⟩], .instanceRole⟩ ∧
      ∃ p, Steps (plain firstSecret countingKey).Next .start (savedBlank "sk-1") p ∧
        (∀ id, (s.rows id).map
            (fun r => (gatewayReads firstSecret countingKey r.value, r.deleted)) =
          (p.rows id).map fun r => (r.value, r.deleted)) ∧
        ∀ id r, s.rows id = some r → Settled r.value ∧
          ∃ items, r.value.get "headers" = some (.arr items) ∧ AllStored items := by
  obtain ⟨r, hsome⟩ := Option.isSome_iff_exists.mp savedBlank_runs
  obtain ⟨s, hs, hr⟩ := Option.bind_eq_some_iff.mp hsome
  have hrun : Steps (table firstSecret countingKey).Next .start (savedBlank "sk-1") s :=
    .of_foldlM hs
  have hreads : gatewayReads firstSecret countingKey r.value =
      ⟨[⟨"x-api-key", "sk-1"⟩], .instanceRole⟩ := reads_of_run hrun hr (by decide +kernel)
  exact ⟨s, hrun, by rw [hr, Option.map_some, hreads], gateway_sends_typed hrun⟩

end ThinkWatch.Providers
