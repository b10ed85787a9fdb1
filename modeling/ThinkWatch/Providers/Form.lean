import ThinkWatch.Providers.Edits

/-!
# What the form of a provider is filled with

No secret: whatever was typed, the form is the same (`shown_alike`). A form that is sent back as it
was filled changes nothing, unless two headers have one key (`resaved_unchanged_iff`).
-/

namespace ThinkWatch.Providers

open Lib
open Policy (Json)
open JsonSecret (jsonIsEncrypted)

variable {C C' : Crates} {key key' : String} {nonces nonces' : Nat → Nonce}
  {headers headers' : List ProviderHeader} {items items' stored stored' : List Json}
  {config config' : Config} {v v' : Json}

section Resaved

variable {ι : Type} [DecidableEq ι] {as : List (Editing.Action ι CreateRequest Form)}
  {s : Editing.State ι Form Config}

def keyOf (item : Json) : Option String := (item.get "key").bind Json.asStr

/-- The headers that the form is filled with. -/
def shownHeaders (config : Config) : List ProviderHeader :=
  (storedHeaders (redactProviderSecrets config)).filterMap fun item => do
    let key ← keyOf item
    let value ← (item.get "value").bind Json.asStr
    return ⟨key, value⟩

theorem redactHeader_headerJson (k : String) (v : Json) :
    redactHeader (headerJson k v) =
      .obj [("key", .str k), ("value", .str ""), ("encrypted", .bool (jsonIsEncrypted v))] := rfl

def blankIfEncrypted (v : Json) : Json := if jsonIsEncrypted v then .str "" else v

theorem blankAwsSecret_get (config : Config) :
    (blankAwsSecret config).get awsSecretAccessKey =
      (config.get awsSecretAccessKey).map blankIfEncrypted := by
  unfold blankAwsSecret
  split
  next secret hsecret =>
    rw [hsecret, Option.map_some, blankIfEncrypted]
    split
    · exact Config.get_insert config _ _
    · exact hsecret
  next hnone => rw [hnone, Option.map_none]

theorem blankAwsSecret_get_ne {k : String} (hk : k ≠ awsSecretAccessKey) (config : Config) :
    (blankAwsSecret config).get k = config.get k := by
  unfold blankAwsSecret
  split
  · split
    · exact Config.get_insert_ne hk config _
    · rfl
  · rfl

theorem redact_eq (hconfig : config.get "headers" = some (.arr items)) :
    redactProviderSecrets config =
      (blankAwsSecret config).insert "headers" (.arr (items.map redactHeader)) := by
  unfold redactProviderSecrets
  dsimp only
  rw [blankAwsSecret_get_ne (by decide), hconfig]
  rfl

def keyAndBlank (item : Json) : Option ProviderHeader := (keyOf item).map fun k => ⟨k, ""⟩

/-- The form has the keys, and a blank for each value. -/
theorem shownHeaders_eq (hconfig : config.get "headers" = some (.arr items))
    (hstored : AllStored items) :
    shownHeaders config = items.filterMap keyAndBlank := by
  unfold shownHeaders storedHeaders
  rw [redact_eq hconfig, Config.get_insert, Option.bind_some]
  change (items.map redactHeader).filterMap _ = _
  rw [List.filterMap_map]
  refine List.filterMap_congr fun item hitem => ?_
  obtain ⟨k, v, rfl, -⟩ := hstored item hitem
  rfl

/-- A blank is stored as what the first header of its key has. -/
theorem storeValue_blank (C : Crates) (key : String) (hstored : AllStored stored) {k : String}
    {v : Json} (hmem : headerJson k v ∈ stored) (nonce : Nonce) :
    ∃ v', firstLike keyOf stored (headerJson k v) = headerJson k v' ∧
      storeValue C nonce "" key (keptSecret stored k) = .ok v' := by
  unfold firstLike keptSecret
  change ∃ v', (stored.find? fun s => keyOf s = some k).getD _ = _ ∧
    storeValue C nonce "" key (((stored.find? fun s => keyOf s = some k).map _).filter _) = _
  cases hfind : stored.find? fun s => decide (keyOf s = some k) with
  | none => exact absurd (decide_eq_true rfl) (List.find?_eq_none.mp hfind _ hmem)
  | some item =>
    obtain ⟨k', v', rfl, hv'⟩ := hstored item (List.mem_of_find?_eq_some hfind)
    have hkey := List.find?_some hfind
    obtain rfl : k' = k := Option.some.inj (of_decide_eq_true hkey)
    refine ⟨v', rfl, ?_⟩
    rw [Option.map_some, headerJson_value, Option.getD_some]
    rcases hv' with rfl | ⟨hex, rfl⟩
    · rfl
    · rfl

theorem storeHeaders_blank (hstored : AllStored stored) (hsub : ∀ item ∈ items, item ∈ stored)
    (i : Nat) :
    storeHeaders C nonces key (fun h => if h.value = "" then keptSecret stored h.key else none) i
        (items.filterMap keyAndBlank) =
      .ok (items.map (firstLike keyOf stored)) := by
  induction items generalizing i with
  | nil => rfl
  | cons item items ih =>
    obtain ⟨hmem, hrest⟩ := List.forall_mem_cons.mp hsub
    obtain ⟨k, v, rfl, -⟩ := hstored item hmem
    obtain ⟨v', hfirst, hv'⟩ := storeValue_blank C key hstored hmem (nonces i)
    have hshown : keyAndBlank (headerJson k v) = some ⟨k, ""⟩ := rfl
    rw [List.filterMap_cons_some hshown, List.map_cons, hfirst]
    exact bind_ok.mpr ⟨v', hv', bind_ok.mpr ⟨_, ih hrest (i + 1), rfl⟩⟩

/-- A form that is sent back as it was filled makes the headers of one key the same. -/
theorem updateConfig_shown (hsettled : Settled config)
    (hconfig : config.get "headers" = some (.arr items)) (hstored : AllStored items) :
    updateConfig C nonces config (some (shownHeaders config)) key =
      .ok (config.insert "headers" (.arr (items.map (firstLike keyOf items)))) := by
  refine bind_ok.mpr ⟨config, encryptAws_settled hsettled _, bind_ok.mpr ⟨_, ?_, rfl⟩⟩
  refine map_ok.mpr ⟨_, ?_, rfl⟩
  have hitems : storedHeaders config = items := by
    rw [storedHeaders, hconfig]
    rfl
  rw [hitems, shownHeaders_eq hconfig hstored]
  exact storeHeaders_blank hstored (fun _ h => h) 1

theorem keyOf_holds {h : ProviderHeader} {item : Json} (hholds : Holds C key h item) :
    some h.key = keyOf item := by
  obtain ⟨v, rfl, -⟩ := hholds
  rfl

/-- The gateway then sends each header with the secret of the first one of its key. -/
theorem decryptHeaders_firstLike {hs : List ProviderHeader}
    (hitems : List.Forall₂ (Holds C key) hs items) :
    decryptHeadersFromConfig C (config.insert "headers" (.arr (items.map (firstLike keyOf items))))
      key = hs.map (firstLike ProviderHeader.key hs) := by
  have hkey : firstLike (fun h => some h.key) hs = firstLike ProviderHeader.key hs := by
    funext h
    simp only [firstLike, Option.some_inj]
  rw [← hkey]
  exact decryptHeaders_eq (Config.get_insert _ _ _) (map_firstLike_rel hitems fun _ _ => keyOf_holds)

/-- A form that is sent back as it was filled is always taken. Of the headers with one key the later
ones then have what is stored for the first, and are sent with its secret; so it changes nothing,
unless two headers have one key and not the same value. -/
theorem resaved_unchanged_iff (h : Steps (table C key).Next .start as s) {id : ι}
    {r : Editing.Row Config} (hr : s.rows id = some r) (nonces : Nat → Nonce) :
    ∃ config', updateConfig C nonces r.value (some (shownHeaders r.value)) key = .ok config' ∧
      storedHeaders config' =
        (storedHeaders r.value).map (firstLike keyOf (storedHeaders r.value)) ∧
      (gatewayReads C key config').headers = (gatewayReads C key r.value).headers.map
        (firstLike ProviderHeader.key (gatewayReads C key r.value).headers) ∧
      (∀ name, name ≠ "headers" → config'.get name = r.value.get name) ∧
      ((∀ name, config'.get name = r.value.get name) ↔
        ∀ item ∈ storedHeaders r.value, ∀ item' ∈ storedHeaders r.value,
          item.get "key" = item'.get "key" → item = item') := by
  obtain ⟨_, -, hrelated⟩ := keeps_of_run h
  obtain ⟨p, -, hkeeps⟩ := hrelated.row hr
  obtain ⟨items, hconfig, hstored⟩ := hkeeps.items_stored
  have hitems : storedHeaders r.value = items := by
    rw [storedHeaders, hconfig]
    rfl
  refine ⟨_, updateConfig_shown hkeeps.settled hconfig hstored, ?_, ?_,
    fun name hname => Config.get_insert_ne hname _ _, ?_⟩
  · rw [hitems, storedHeaders, Config.get_insert]
    rfl
  · obtain ⟨items', hconfig', hholds⟩ := hkeeps.headers
    obtain rfl : items = items' := by simpa [hconfig] using hconfig'
    rw [hkeeps.reads]
    exact decryptHeaders_firstLike hholds
  have hkeys {item item' : Json} (hitem : item ∈ items) (hitem' : item' ∈ items) :
      item.get "key" = item'.get "key" ↔ keyOf item = keyOf item' := by
    obtain ⟨k, v, rfl, -⟩ := hstored item hitem
    obtain ⟨k', v', rfl, -⟩ := hstored item' hitem'
    change some (Json.str k) = some (Json.str k') ↔ some k = some k'
    rw [Option.some_inj, Option.some_inj, Json.str.injEq]
  rw [hitems]
  trans items.map (firstLike keyOf items) = items
  · constructor
    · intro hsame
      have harr := hsame "headers"
      rw [Config.get_insert, hconfig] at harr
      exact Json.arr.inj (Option.some.inj harr)
    · intro hsame name
      by_cases hname : name = "headers"
      · rw [hname, Config.get_insert, hconfig, hsame]
      · exact Config.get_insert_ne hname _ _
  · rw [map_firstLike_iff]
    constructor
    · intro hall item hitem item' hitem' hkey
      exact hall item hitem item' hitem' ((hkeys hitem hitem').mp hkey)
    · intro hall item hitem item' hitem' hkey
      exact hall item hitem item' hitem' ((hkeys hitem hitem').mpr hkey)

/-- Two headers of one key, with two secrets. -/
def twoOfOneKey : List (Editing.Action Nat CreateRequest Form) :=
  [.create 1 ⟨none, [⟨"x-api-key", "sk-1"⟩, ⟨"x-api-key", "sk-2"⟩], fun _ => countingNonce⟩]

theorem twoOfOneKey_runs : ((twoOfOneKey.foldlM (table bothSecrets countingKey).step
    (.start : Editing.State Nat Form Config)).bind fun s => s.rows 1).isSome = true := by
  decide +kernel

/-- The second secret is lost when the form is saved as it was shown. -/
theorem resaved_unchanged_iff_blank :
    ∃ s r config', Steps (table bothSecrets countingKey).Next .start twoOfOneKey s ∧
      s.rows 1 = some r ∧
      updateConfig bothSecrets (fun _ => countingNonce) r.value (some (shownHeaders r.value))
        countingKey = .ok config' ∧
      (gatewayReads bothSecrets countingKey r.value).headers =
        [⟨"x-api-key", "sk-1"⟩, ⟨"x-api-key", "sk-2"⟩] ∧
      (gatewayReads bothSecrets countingKey config').headers =
        [⟨"x-api-key", "sk-1"⟩, ⟨"x-api-key", "sk-1"⟩] ∧
      ¬ ∀ name, config'.get name = r.value.get name := by
  obtain ⟨r, hsome⟩ := Option.isSome_iff_exists.mp twoOfOneKey_runs
  obtain ⟨s, hs, hr⟩ := Option.bind_eq_some_iff.mp hsome
  have hrun : Steps (table bothSecrets countingKey).Next .start twoOfOneKey s := .of_foldlM hs
  have hread : gatewayReads bothSecrets countingKey r.value =
      ⟨[⟨"x-api-key", "sk-1"⟩, ⟨"x-api-key", "sk-2"⟩], .instanceRole⟩ :=
    reads_of_run hrun hr (by decide +kernel)
  obtain ⟨config', hconfig', -, hfirst, -, -⟩ := resaved_unchanged_iff hrun hr fun _ => countingNonce
  have hlost : (gatewayReads bothSecrets countingKey config').headers =
      [⟨"x-api-key", "sk-1"⟩, ⟨"x-api-key", "sk-1"⟩] := by
    rw [hfirst, hread]
    decide
  refine ⟨s, r, config', hrun, hr, hconfig', congrArg Plain.headers hread, hlost, fun hsame => ?_⟩
  have hheaders : decryptHeadersFromConfig bothSecrets config' countingKey =
      decryptHeadersFromConfig bothSecrets r.value countingKey := by
    rw [decryptHeadersFromConfig, decryptHeadersFromConfig, storedHeaders, storedHeaders,
      hsame "headers"]
  rw [show decryptHeadersFromConfig bothSecrets config' countingKey = _ from hlost,
    show decryptHeadersFromConfig bothSecrets r.value countingKey = _ from
      congrArg Plain.headers hread] at hheaders
  exact absurd hheaders (by decide)

end Resaved

/-! ## Two tables with other secrets -/

/-- Two headers that differ in a secret only. -/
def ProviderHeader.Alike (h h' : ProviderHeader) : Prop :=
  h.key = h'.key ∧ (h.value = "" ↔ h'.value = "")

/-- A secret that is stored, or is going to be. -/
def IsSecret (v : Json) : Prop := jsonIsEncrypted v = true ∨ ∃ s, v = .str s ∧ s ≠ ""

def SecretsAlike (v v' : Json) : Prop := v = v' ∨ IsSecret v ∧ IsSecret v'

def Config.Alike (config config' : Config) : Prop :=
  (∀ k, k ≠ awsSecretAccessKey → config.get k = config'.get k) ∧
    Option.Rel SecretsAlike (config.get awsSecretAccessKey) (config'.get awsSecretAccessKey)

/-- The configurations of two requests differ in the AWS secret only, the headers in their values. -/
def CreateRequest.Alike (r r' : CreateRequest) : Prop :=
  (∀ config config', objectConfig r.config = .ok config → objectConfig r'.config = .ok config' →
    config.Alike config') ∧
  List.Forall₂ ProviderHeader.Alike r.headers r'.headers

def Form.Alike (form form' : Form) : Prop :=
  Option.Rel (List.Forall₂ ProviderHeader.Alike) form.headers form'.headers

def EncryptedAlike (v v' : Json) : Prop := jsonIsEncrypted v = jsonIsEncrypted v'

def ItemsAlike (item item' : Json) : Prop :=
  ∃ k v v', item = headerJson k v ∧ item' = headerJson k v' ∧ EncryptedAlike v v'

/-- Two rows that are shown alike. -/
structure ShownAlike (config config' : Config) : Prop where
  fields : ∀ k, k ≠ awsSecretAccessKey → k ≠ "headers" → config.get k = config'.get k
  aws : Option.Rel (fun v v' => blankIfEncrypted v = blankIfEncrypted v')
    (config.get awsSecretAccessKey) (config'.get awsSecretAccessKey)
  headers : ∃ items items', config.get "headers" = some (.arr items) ∧
    config'.get "headers" = some (.arr items') ∧ List.Forall₂ ItemsAlike items items'
  settled : Settled config ∧ Settled config'

theorem ItemsAlike.redact {item item' : Json} (h : ItemsAlike item item') :
    redactHeader item = redactHeader item' := by
  obtain ⟨k, v, v', rfl, rfl, hencrypted⟩ := h
  rw [redactHeader_headerJson, redactHeader_headerJson, hencrypted]

theorem ShownAlike.redact (h : ShownAlike config config') (name : String) :
    (redactProviderSecrets config).get name = (redactProviderSecrets config').get name := by
  obtain ⟨items, items', hconfig, hconfig', hitems⟩ := h.headers
  rw [redact_eq hconfig, redact_eq hconfig']
  by_cases hname : name = "headers"
  · have hshown : items.map redactHeader = items'.map redactHeader := by
      clear hconfig hconfig'
      induction hitems with
      | nil => rfl
      | cons hitem _ ih => rw [List.map_cons, List.map_cons, hitem.redact, ih]
    rw [hname, Config.get_insert, Config.get_insert, hshown]
  · rw [Config.get_insert_ne hname, Config.get_insert_ne hname]
    by_cases haws : name = awsSecretAccessKey
    · have hrel := h.aws
      rw [haws, blankAwsSecret_get, blankAwsSecret_get]
      generalize config.get awsSecretAccessKey = secret at hrel ⊢
      generalize config'.get awsSecretAccessKey = secret' at hrel ⊢
      cases hrel with
      | none => rfl
      | some hsame => rw [Option.map_some, Option.map_some, hsame]
    · rw [blankAwsSecret_get_ne haws, blankAwsSecret_get_ne haws, h.fields name haws hname]

/-! ### What is stored -/

theorem keptSecret_alike (h : List.Forall₂ ItemsAlike stored stored') (k : String) :
    Option.Rel EncryptedAlike (keptSecret stored k) (keptSecret stored' k) := by
  induction h with
  | nil => exact .none
  | cons hitem _ ih =>
    obtain ⟨k', v, v', rfl, rfl, hencrypted⟩ := hitem
    rw [keptSecret_cons, keptSecret_cons]
    split
    · rw [Option.filter_some, Option.filter_some, ← hencrypted]
      split
      · exact .some hencrypted
      · exact .none
    · exact ih

theorem storeHeaders_alike {kept kept' : ProviderHeader → Option Json} {i : Nat}
    (hkept : ∀ h h', h.Alike h' → Option.Rel EncryptedAlike (kept h) (kept' h'))
    (hheaders : List.Forall₂ ProviderHeader.Alike headers headers')
    (hitems : storeHeaders C nonces key kept i headers = .ok items)
    (hitems' : storeHeaders C' nonces' key' kept' i headers' = .ok items') :
    List.Forall₂ ItemsAlike items items' := by
  induction hheaders generalizing i items items' with
  | nil =>
    obtain rfl := Except.ok.inj hitems
    obtain rfl := Except.ok.inj hitems'
    exact .nil
  | @cons h h' headers headers' hh _ ih =>
    obtain ⟨v, hv, hitems⟩ := bind_ok.mp hitems
    obtain ⟨rest, hrest, hitems⟩ := bind_ok.mp hitems
    obtain rfl := pure_ok.mp hitems
    obtain ⟨v', hv', hitems'⟩ := bind_ok.mp hitems'
    obtain ⟨rest', hrest', hitems'⟩ := bind_ok.mp hitems'
    obtain rfl := pure_ok.mp hitems'
    refine .cons ⟨h.key, v, v', rfl, by rw [hh.1], ?_⟩ (ih hrest hrest')
    have hrel := hkept h h' hh
    generalize kept h = x at hrel hv
    generalize kept' h' = x' at hrel hv'
    cases hrel with
    | none =>
      obtain ⟨-, -, hencrypted⟩ := stored_spec hv
      obtain ⟨-, -, hencrypted'⟩ := stored_spec hv'
      exact Bool.eq_iff_iff.mpr (hencrypted.trans ((not_congr hh.2).trans hencrypted'.symm))
    | some hsame =>
      obtain rfl := Except.ok.inj hv
      obtain rfl := Except.ok.inj hv'
      exact hsame

theorem blankIfEncrypted_of_encrypted (h : jsonIsEncrypted v = true) :
    blankIfEncrypted v = .str "" := if_pos h

/-- What is left of the AWS secret is stored or no secret. -/
theorem encryptAws_cases {nonce : Nonce}
    (h : encryptAwsSecretInConfig C nonce config key = .ok config') :
    config'.get awsSecretAccessKey = none ∧ config.get awsSecretAccessKey = none ∨
    ∃ v v', config.get awsSecretAccessKey = some v ∧ config'.get awsSecretAccessKey = some v' ∧
      (IsSecret v ∧ jsonIsEncrypted v' = true ∨ ¬ IsSecret v ∧ v' = v) := by
  unfold encryptAwsSecretInConfig at h
  split at h
  next hnone =>
    obtain rfl := Except.ok.inj h
    exact Or.inl ⟨hnone, hnone⟩
  next raw hraw =>
    right
    split at h
    next hencrypted =>
      obtain rfl := Except.ok.inj h
      exact ⟨raw, raw, hraw, hraw, Or.inl ⟨Or.inl hencrypted, hencrypted⟩⟩
    next hplain =>
      split at h
      next htext =>
        obtain rfl := Except.ok.inj h
        refine ⟨raw, raw, hraw, hraw, Or.inr ⟨?_, rfl⟩⟩
        rintro (hencrypted | ⟨s, rfl, -⟩)
        · exact hplain hencrypted
        · cases htext
      next s htext =>
        have hstr : raw = .str s := by
          cases raw with
          | str t => exact congrArg Json.str (Option.some.inj htext)
          | _ => cases htext
        subst hstr
        split at h
        next hempty =>
          obtain rfl := Except.ok.inj h
          refine ⟨_, _, hraw, hraw, Or.inr ⟨?_, rfl⟩⟩
          rintro (hencrypted | ⟨t, ht, hne⟩)
          · exact hplain hencrypted
          · obtain rfl := Json.str.inj ht
            exact hne hempty
        next hne =>
          obtain ⟨v, hv, rfl⟩ := map_ok.mp h
          obtain ⟨-, -, hencrypted⟩ := stored_spec hv
          exact ⟨_, v, hraw, Config.get_insert _ _ _,
            Or.inl ⟨Or.inr ⟨s, rfl, hne⟩, hencrypted.mpr hne⟩⟩

theorem encryptAws_alike {nonce nonce' : Nonce} {wrapped wrapped' : Config}
    (halike : config.Alike config')
    (h : encryptAwsSecretInConfig C nonce config key = .ok wrapped)
    (h' : encryptAwsSecretInConfig C' nonce' config' key' = .ok wrapped') :
    (∀ k, k ≠ awsSecretAccessKey → wrapped.get k = wrapped'.get k) ∧
      Option.Rel (fun v v' => blankIfEncrypted v = blankIfEncrypted v')
        (wrapped.get awsSecretAccessKey) (wrapped'.get awsSecretAccessKey) := by
  refine ⟨fun k hk => ?_, ?_⟩
  · rw [(encryptAws_spec h).1 k hk, (encryptAws_spec h').1 k hk, halike.1 k hk]
  · have hrel := halike.2
    rcases encryptAws_cases h with ⟨hw, hc⟩ | ⟨v, w, hc, hw, hcases⟩ <;>
      rcases encryptAws_cases h' with ⟨hw', hc'⟩ | ⟨v', w', hc', hw', hcases'⟩ <;>
      rw [hc, hc'] at hrel <;> rw [hw, hw']
    · exact .none
    · cases hrel
    · cases hrel
    · cases hrel with
      | some hsecrets =>
        refine .some ?_
        rcases hcases with ⟨hsecret, hencrypted⟩ | ⟨hsecret, rfl⟩
        · have hsecret' : IsSecret v' := by
            rcases hsecrets with rfl | ⟨-, hsecret'⟩
            · exact hsecret
            · exact hsecret'
          rcases hcases' with ⟨-, hencrypted'⟩ | ⟨hnot, -⟩
          · rw [blankIfEncrypted_of_encrypted hencrypted, blankIfEncrypted_of_encrypted hencrypted']
          · exact absurd hsecret' hnot
        · have hsame : w = v' := by
            rcases hsecrets with rfl | ⟨hsecret', -⟩
            · rfl
            · exact absurd hsecret' hsecret
          rcases hcases' with ⟨hsecret', -⟩ | ⟨-, rfl⟩
          · exact absurd (hsame ▸ hsecret') hsecret
          · rw [hsame]

/-- Headers are put into rows that are shown alike but for them. -/
theorem ShownAlike.of_headers
    (hfields : ∀ k, k ≠ awsSecretAccessKey → k ≠ "headers" → config.get k = config'.get k)
    (haws : Option.Rel (fun v v' => blankIfEncrypted v = blankIfEncrypted v')
      (config.get awsSecretAccessKey) (config'.get awsSecretAccessKey))
    (hsettled : Settled config ∧ Settled config') (hitems : List.Forall₂ ItemsAlike items items') :
    ShownAlike (config.insert "headers" (.arr items)) (config'.insert "headers" (.arr items')) := by
  have hother {k : String} (hk : k ≠ "headers") (c : Config) (items : List Json) :
      (c.insert "headers" (.arr items)).get k = c.get k := Config.get_insert_ne hk c _
  constructor
  · intro k hk hne
    rw [hother hne, hother hne, hfields k hk hne]
  · rwa [hother (by decide), hother (by decide)]
  · exact ⟨items, items', Config.get_insert _ _ _, Config.get_insert _ _ _, hitems⟩
  · refine ⟨fun s hs => hsettled.1 s ?_, fun s hs => hsettled.2 s ?_⟩
    · rwa [hother (by decide)] at hs
    · rwa [hother (by decide)] at hs

theorem create_alike {r r' : CreateRequest} (h : r.Alike r')
    (hconfig : (table C key).create r = some config)
    (hconfig' : (table C' key').create r' = some config') : ShownAlike config config' := by
  obtain ⟨fields, hfields, hconfig⟩ := bind_ok.mp (toOption_eq_some.mp hconfig)
  obtain ⟨wrapped, hwrapped, hconfig⟩ := bind_ok.mp hconfig
  obtain ⟨stored, hstored, hconfig⟩ := bind_ok.mp hconfig
  obtain ⟨fields', hfields', hconfig'⟩ := bind_ok.mp (toOption_eq_some.mp hconfig')
  obtain ⟨wrapped', hwrapped', hconfig'⟩ := bind_ok.mp hconfig'
  obtain ⟨stored', hstored', hconfig'⟩ := bind_ok.mp hconfig'
  obtain rfl := pure_ok.mp hconfig
  obtain rfl := pure_ok.mp hconfig'
  obtain ⟨items, hitems, rfl⟩ := map_ok.mp hstored
  obtain ⟨items', hitems', rfl⟩ := map_ok.mp hstored'
  obtain ⟨hsame, haws⟩ := encryptAws_alike (h.1 fields fields' hfields hfields') hwrapped hwrapped'
  exact .of_headers (fun k hk _ => hsame k hk) haws
    ⟨(encryptAws_spec hwrapped).2.2, (encryptAws_spec hwrapped').2.2⟩
    (storeHeaders_alike (fun _ _ _ => .none) h.2 hitems hitems')

theorem update_alike {existing existing' : Config} {form form' : Form}
    (hexisting : ShownAlike existing existing') (hform : form.Alike form')
    (hconfig : (table C key).update existing form = some config)
    (hconfig' : (table C' key').update existing' form' = some config') :
    ShownAlike config config' := by
  obtain ⟨wrapped, hwrapped, hconfig⟩ := bind_ok.mp (toOption_eq_some.mp hconfig)
  obtain rfl := Except.ok.inj ((encryptAws_settled hexisting.settled.1 _).symm.trans hwrapped)
  obtain ⟨wrapped', hwrapped', hconfig'⟩ := bind_ok.mp (toOption_eq_some.mp hconfig')
  obtain rfl := Except.ok.inj ((encryptAws_settled hexisting.settled.2 _).symm.trans hwrapped')
  unfold Form.Alike at hform
  generalize form.headers = x at hform hconfig
  generalize form'.headers = x' at hform hconfig'
  cases hform with
  | none =>
    obtain rfl := pure_ok.mp hconfig
    obtain rfl := pure_ok.mp hconfig'
    exact hexisting
  | some hheaders =>
    obtain ⟨merged, hmerged, hconfig⟩ := bind_ok.mp hconfig
    obtain ⟨merged', hmerged', hconfig'⟩ := bind_ok.mp hconfig'
    obtain rfl := pure_ok.mp hconfig
    obtain rfl := pure_ok.mp hconfig'
    obtain ⟨items, hitems, rfl⟩ := map_ok.mp hmerged
    obtain ⟨items', hitems', rfl⟩ := map_ok.mp hmerged'
    obtain ⟨old, old', hold, hold', hitemsAlike⟩ := hexisting.headers
    refine .of_headers hexisting.fields hexisting.aws hexisting.settled
      (storeHeaders_alike (fun h h' hh => ?_) hheaders hitems hitems')
    rw [storedHeaders, hold, storedHeaders, hold', hh.1]
    by_cases hblank : h.value = ""
    · rw [if_pos hblank, if_pos (hh.2.mp hblank)]
      exact keptSecret_alike hitemsAlike h'.key
    · rw [if_neg hblank, if_neg (fun h => hblank (hh.2.mpr h))]
      exact .none

theorem table_respects_alike (C C' : Crates) (key key' : String) :
    (table C key).Respects (table C' key') ShownAlike CreateRequest.Alike Form.Alike where
  create := fun _ _ _ _ h hk hk' => create_alike h hk hk'
  update := fun _ _ _ _ _ _ h hf hk hk' => update_alike h hf hk hk'

/-- The form has no secret in it: it is the same in two runs that differ in secrets only, and in how
they are encrypted. -/
theorem shown_alike {ι : Type} [DecidableEq ι] {as as' : List (Editing.Action ι CreateRequest Form)}
    {s s' : Editing.State ι Form Config}
    (has : List.Forall₂ (Editing.Action.Like CreateRequest.Alike Form.Alike) as as')
    (h : Steps (table C key).Next .start as s) (h' : Steps (table C' key').Next .start as' s')
    (id : ι) (name : String) :
    (s.rows id).map (fun r => ((redactProviderSecrets r.value).get name, r.deleted)) =
      (s'.rows id).map fun r => ((redactProviderSecrets r.value).get name, r.deleted) :=
  (Editing.Related.run (table_respects_alike C C' key key') .start has h h').map_rows
    (f := fun config => (redactProviderSecrets config).get name)
    (fun _ _ halike => halike.redact name) id

theorem savedBlank_runs_again : ((savedBlank "sk-2").foldlM (table secondSecret countingKey).step
    (.start : Editing.State Nat Form Config)).isSome = true := by decide +kernel

theorem savedBlank_alike : List.Forall₂ (Editing.Action.Like CreateRequest.Alike Form.Alike)
    (savedBlank "sk-1") (savedBlank "sk-2") := by
  have hsecret : ProviderHeader.Alike ⟨"x-api-key", "sk-1"⟩ ⟨"x-api-key", "sk-2"⟩ :=
    ⟨rfl, iff_of_false (by decide) (by decide)⟩
  have hblank : ProviderHeader.Alike ⟨"x-api-key", ""⟩ ⟨"x-api-key", ""⟩ := ⟨rfl, Iff.rfl⟩
  refine .cons (.create ⟨?_, .cons hsecret .nil⟩)
    (.cons (.read (.some (.cons hblank .nil))) (.cons .write .nil))
  rintro config config' hconfig hconfig'
  obtain rfl := Except.ok.inj hconfig
  obtain rfl := Except.ok.inj hconfig'
  exact ⟨fun _ _ => rfl, .none⟩

theorem shown_alike_blank :
    ∃ s s', Steps (table firstSecret countingKey).Next .start (savedBlank "sk-1") s ∧
      Steps (table secondSecret countingKey).Next .start (savedBlank "sk-2") s' ∧
      (s.rows 1).map (fun r => ((redactProviderSecrets r.value).get "headers", r.deleted)) =
        (s'.rows 1).map fun r => ((redactProviderSecrets r.value).get "headers", r.deleted) := by
  obtain ⟨_, hsome⟩ := Option.isSome_iff_exists.mp savedBlank_runs
  obtain ⟨s, hs, -⟩ := Option.bind_eq_some_iff.mp hsome
  obtain ⟨s', hs'⟩ := Option.isSome_iff_exists.mp savedBlank_runs_again
  have hrun : Steps (table firstSecret countingKey).Next .start (savedBlank "sk-1") s :=
    .of_foldlM hs
  have hrun' : Steps (table secondSecret countingKey).Next .start (savedBlank "sk-2") s' :=
    .of_foldlM hs'
  exact ⟨s, s', hrun, hrun', shown_alike savedBlank_alike hrun hrun' 1 "headers"⟩

end ThinkWatch.Providers
