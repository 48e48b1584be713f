import Pulseon.Config

/-!
# Explicit configuration and the file

Each explicit value keeps the file's own out of the result, so two files that agree
elsewhere resolve alike. The `s3` section is the exception: it is checked before the
overrides are looked at.
-/

namespace Pulseon

/-- The S3 fields by their keys, with whether they are given explicitly. -/
def S3ConnectionOverrides.given (explicit : S3ConnectionOverrides) : List (String × Bool) :=
  [("endpoint", explicit.endpoint.isSome), ("access_key_id", explicit.accessKeyId.isSome),
    ("secret_access_key", explicit.secretAccessKey.isSome), ("session_token", explicit.sessionToken.isSome),
    ("region", explicit.region.isSome), ("path_style", explicit.pathStyle.isSome),
      ("use_ssl", explicit.useSsl.isSome)]

/-- The `s3` section is there and is not a table. -/
def Malformed (table : Table) : Prop := ∃ value, table.get "s3" = some value ∧ value.asTable = none

def s3Section (table : Table) : Option Table := (table.get "s3").bind TomlValue.asTable

def fieldOf (config : Option Table) (key : String) : Option TomlValue := config.bind fun config => config.get key

/-- The files agree on every field that is not given explicitly, and on the kind of
the `s3` section unless all of its fields are given. -/
structure Agree (explicit : InitArguments) (table table' : Table) : Prop where
  dataPath : explicit.dataPath = none → table.get "data_path" = table'.get "data_path"
  catalogBackend : explicit.catalogBackend = none → table.get "catalog_backend" = table'.get "catalog_backend"
  catalogPath : explicit.catalogPath = none → table.get "catalog_path" = table'.get "catalog_path"
  s3Field : ∀ key, (key, false) ∈ explicit.s3Overrides.given →
    fieldOf (s3Section table) key = fieldOf (s3Section table') key
  s3Kind : ∀ key, (key, false) ∈ explicit.s3Overrides.given → (Malformed table ↔ Malformed table')

/-- The path is given, or the file has it. -/
def InEffect (key : String) (rootPath : Path) (explicit : Option Path) (table : Table) (path : Path) : Prop :=
  explicit = some path ∨
    explicit = none ∧ ∃ text, table.get key = some (.string text) ∧ path = resolveConfigPath rootPath (.ofText text)

def NotConfigured {α : Type} (key : String) (explicit : Option α) (table : Table) : Prop :=
  explicit = none ∧ table.get key = none

/-- The storage options and the capacity are acceptable, and the data is in S3. -/
structure S3Consulted (rootPath : Path) (explicit : InitArguments) (table : Table) : Prop where
  dataPath : ∃ path, InEffect "data_path" rootPath explicit.dataPath table path ∧ isS3DataPath path = true
  catalogBackend : NotConfigured "catalog_backend" explicit.catalogBackend table ∨ ∃ name ∈ ["duckdb", "sqlite"],
    explicit.catalogBackend = some name ∨
      explicit.catalogBackend = none ∧ table.get "catalog_backend" = some (.string name)
  catalogPath : NotConfigured "catalog_path" explicit.catalogPath table ∨
    ∃ path, InEffect "catalog_path" rootPath explicit.catalogPath table path ∧ isUriPath path = false
  capacity : 1 ≤ explicit.metricQueueCapacity ∧ explicit.metricQueueCapacity ≤ maxMetricQueueCapacity

/-! ## Fields -/

section
variable {config config' : Option Table} {key : String}

theorem configString_congr (h : fieldOf config key = fieldOf config' key) (label : String) :
    configString config key label = configString config' key label := by
  have hfield : ∀ config, configString config key label = (fieldOf config key).elim (.ok none) fun value =>
      value.asStr.elim (.error (.invalid (label ++ " must be a string"))) fun text => .ok (some text) := by
    intro config
    cases config with
    | none => rfl
    | some table =>
      simp only [configString, optionalString, fieldOf, Option.bind_some]
      cases table.get key with
      | none => rfl
      | some value => simp only [Option.elim_some]; cases value.asStr <;> rfl
  rw [hfield, hfield, h]

theorem optionalBool_congr {explicit : Option Bool}
    (h : explicit.isSome = false → fieldOf config key = fieldOf config' key)
    (label : String) : optionalBool explicit config key label = optionalBool explicit config' key label := by
  have hfield : ∀ config, optionalBool explicit config key label =
      if explicit.isSome then .ok explicit else (fieldOf config key).elim (.ok none) fun value =>
        value.asBool.elim (.error (.invalid (label ++ " must be a boolean"))) fun flag => .ok (some flag) := by
    intro config
    cases config with
    | none => rfl
    | some table =>
      simp only [optionalBool, fieldOf, Option.bind_some]
      cases table.get key with
      | none => rfl
      | some value => simp only [Option.elim_some]; cases value.asBool <;> rfl
  rw [hfield, hfield]
  split
  · rfl
  · rename_i hnone
    rw [h (by simpa using hnone)]

theorem optionalS3String_congr {explicit : Option String}
    (h : explicit.isSome = false → fieldOf config key = fieldOf config' key) (explicitName : String) :
    optionalS3String explicit config key explicitName = optionalS3String explicit config' key explicitName := by
  unfold optionalS3String
  split
  · rfl
  · rename_i hnone
    rw [configString_congr (h (by simpa using hnone))]

theorem resolvePath_congr {explicit : Option Path} (h : explicit = none → fieldOf config key = fieldOf config' key)
    (rootPath : Path) : resolvePath key rootPath explicit config = resolvePath key rootPath explicit config' := by
  unfold resolvePath
  split
  · rfl
  · rename_i hnone
    rw [configString_congr (h (by simpa using hnone))]

theorem resolveCatalogBackend_congr {explicit : Option String}
    (h : explicit = none → fieldOf config "catalog_backend" = fieldOf config' "catalog_backend") :
    resolveCatalogBackend explicit config = resolveCatalogBackend explicit config' := by
  unfold resolveCatalogBackend
  cases explicit with
  | none => rw [configString_congr (h rfl)]
  | some name => rfl

end

/-! ## The S3 section -/

theorem s3Table_malformed {table : Table} (h : Malformed table) :
    s3Table (some table) = .error (.invalid "config.toml s3 must be a table") := by
  obtain ⟨value, hget, hkind⟩ := h
  rw [s3Table, Option.bind_some, hget]
  dsimp only
  rw [hkind]

theorem s3Table_section {table : Table} (h : ¬ Malformed table) : s3Table (some table) = .ok (s3Section table) := by
  rw [s3Table, s3Section, Option.bind_some]
  cases hget : table.get "s3" with
  | none => rfl
  | some value =>
    rw [Option.bind_some]
    cases hkind : value.asTable with
    | none => exact absurd ⟨value, hget, hkind⟩ h
    | some entries => simp [hkind]

theorem resolveS3Connection_congr {explicit : InitArguments} {table table' : Table}
    (ha : Agree explicit table table')
    (h : Malformed table ↔ Malformed table') : resolveS3Connection (some table) explicit.s3Overrides =
      resolveS3Connection (some table') explicit.s3Overrides := by
  unfold resolveS3Connection
  by_cases hm : Malformed table
  · rw [s3Table_malformed hm, s3Table_malformed (h.mp hm)]
  · have hfields : ∀ field ∈ explicit.s3Overrides.given, field.2 = false →
        fieldOf (s3Section table) field.1 = fieldOf (s3Section table') field.1 := by
      intro field hfield hgiven
      exact ha.s3Field field.1 (hgiven ▸ hfield)
    simp only [S3ConnectionOverrides.given, List.forall_mem_cons] at hfields
    obtain ⟨hendpoint, haccessKeyId, hsecretAccessKey, hsessionToken, hregion, hpathStyle, huseSsl, -⟩ := hfields
    rw [s3Table_section hm, s3Table_section fun hm' => hm (h.mpr hm')]
    simp only [bind, Except.bind]
    rw [optionalS3String_congr hendpoint "s3_endpoint", optionalS3String_congr haccessKeyId "s3_access_key_id",
      optionalS3String_congr hsecretAccessKey "s3_secret_access_key",
      optionalS3String_congr hsessionToken "s3_session_token", optionalS3String_congr hregion "s3_region",
      optionalBool_congr hpathStyle "config.toml s3.path_style",
        optionalBool_congr huseSsl "config.toml s3.use_ssl"]

/-- The error of a section that is not a table. -/
def sectionError : InitConfigError := .invalid "config.toml s3 must be a table"

/-- The result does not blame the section. -/
def Spared {α : Type} (result : Except InitConfigError α) : Prop := result ≠ .error sectionError

theorem Spared.bind {α β : Type} {result : Except InitConfigError α} (h : Spared result)
    {next : α → Except InitConfigError β} (hnext : ∀ value, Spared (next value)) : Spared (result >>= next) := by
  cases result with
  | ok value => exact hnext value
  | error e => exact fun he => h (congrArg Except.error (Except.error.inj he))

theorem spared_invalid {α : Type} {message : String} (h : message ≠ "config.toml s3 must be a table") :
    Spared (.error (.invalid message) : Except InitConfigError α) := by
  intro he
  exact h (InitConfigError.invalid.inj (Except.error.inj he))

theorem spared_ok {α : Type} (value : α) : Spared (.ok value) := nofun

section
variable (config : Option Table) {key name : String}

theorem spared_s3String (explicit : Option String)
    (hempty : name ++ " must not be empty" ≠ "config.toml s3 must be a table")
    (hkind : "config.toml s3." ++ key ++ " must be a string" ≠ "config.toml s3 must be a table") :
    Spared (optionalS3String explicit config key name) := by
  have hvalidate : ∀ value, Spared (validateS3String value name) := by
    intro value
    unfold validateS3String
    split
    · exact spared_invalid hempty
    · exact spared_ok _
  unfold optionalS3String
  split
  · exact hvalidate _
  · refine Spared.bind ?_ hvalidate
    unfold configString optionalString
    split
    · exact spared_ok _
    · split
      · exact spared_ok _
      · split
        · exact spared_ok _
        · exact spared_invalid hkind

theorem spared_bool (explicit : Option Bool) (label : String)
    (hkind : label ++ " must be a boolean" ≠ "config.toml s3 must be a table") :
    Spared (optionalBool explicit config key label) := by
  unfold optionalBool
  split
  · exact spared_ok _
  · split
    · exact spared_ok _
    · split
      · exact spared_ok _
      · split
        · exact spared_ok _
        · exact spared_invalid hkind

theorem spared_required (value : Option String)
    (h : name ++ " is required when data_path is s3://" ≠ "config.toml s3 must be a table") :
    Spared (requiredS3String value name) := by
  cases value with
  | some value => exact spared_ok _
  | none => exact spared_invalid h

end

theorem spared_section {table : Table} (h : ¬ Malformed table) (explicit : S3ConnectionOverrides) :
    Spared (resolveS3Connection (some table) explicit) := by
  unfold resolveS3Connection
  rw [s3Table_section h]
  refine (spared_ok (s3Section table)).bind fun s3 => ?_
  refine (spared_s3String s3 _ (by decide +kernel) (by decide +kernel)).bind fun endpoint => ?_
  refine (spared_required endpoint (by decide +kernel)).bind fun endpoint => ?_
  refine (spared_s3String s3 _ (by decide +kernel) (by decide +kernel)).bind fun accessKeyId => ?_
  refine (spared_required accessKeyId (by decide +kernel)).bind fun accessKeyId => ?_
  refine (spared_s3String s3 _ (by decide +kernel) (by decide +kernel)).bind fun secretAccessKey => ?_
  refine (spared_required secretAccessKey (by decide +kernel)).bind fun secretAccessKey => ?_
  refine (spared_s3String s3 _ (by decide +kernel) (by decide +kernel)).bind fun sessionToken => ?_
  refine (spared_s3String s3 _ (by decide +kernel) (by decide +kernel)).bind fun region => ?_
  refine (spared_bool s3 _ _ (by decide +kernel)).bind fun pathStyle => ?_
  refine (spared_bool s3 _ _ (by decide +kernel)).bind fun useSsl => ?_
  exact spared_ok _

theorem resolveS3Connection_malformed {table : Table} (h : Malformed table) (explicit : S3ConnectionOverrides) :
    resolveS3Connection (some table) explicit = .error sectionError := by
  unfold resolveS3Connection
  rw [s3Table_malformed h]
  rfl

/-- Only the file with such a section is refused for it. -/
theorem malformed_of_eq {table table' : Table} {explicit : S3ConnectionOverrides}
    {wrap : S3ConnectionConfig → ResolvedInitConfig}
    (h : (resolveS3Connection (some table) explicit).map wrap =
      (resolveS3Connection (some table') explicit).map wrap)
    (hm : Malformed table) : Malformed table' := by
  by_contra hm'
  have hspared := spared_section hm' explicit
  rw [resolveS3Connection_malformed hm] at h
  cases hr : resolveS3Connection (some table') explicit with
  | ok connection => rw [hr] at h; cases h
  | error e =>
    rw [hr] at h
    cases h
    exact hspared hr

/-! ## The two files -/

section
variable {rootPath : Path} {explicit : InitArguments} {table table' : Table}

theorem resolveStorageConfig_congr (ha : Agree explicit table table') :
    resolveStorageConfig rootPath (.parsed table) explicit = resolveStorageConfig rootPath
      (.parsed table') explicit := by
  have hdata : resolveDataPath rootPath explicit.dataPath (some table) =
      resolveDataPath rootPath explicit.dataPath (some table') := resolvePath_congr ha.dataPath rootPath
  have hcatalog : resolveCatalogPath rootPath explicit.catalogPath (some table) =
      resolveCatalogPath rootPath explicit.catalogPath (some table') := resolvePath_congr ha.catalogPath rootPath
  have hbackend : resolveCatalogBackend explicit.catalogBackend (some table) =
      resolveCatalogBackend explicit.catalogBackend (some table') := resolveCatalogBackend_congr ha.catalogBackend
  simp only [resolveStorageConfig, loadProjectConfig, bind, Except.bind, hdata, hcatalog, hbackend]

theorem optionalString_iff {key label : String} {value : Option String} :
    optionalString table key label = .ok value ↔
    (table.get key = none ∧ value = none) ∨ ∃ text, table.get key = some (.string text) ∧ value = some text := by
  unfold optionalString
  cases hget : table.get key with
  | none => simp [eq_comm]
  | some found => cases found <;> simp [TomlValue.asStr, eq_comm]

theorem optionalString_error {key label : String} {e : InitConfigError}
    (h : optionalString table key label = .error e) :
    table.get key ≠ none ∧ ∀ text, table.get key ≠ some (.string text) := by
  constructor
  · intro hget
    rw [optionalString_iff.mpr (Or.inl ⟨hget, rfl⟩)] at h
    cases h
  · intro text hget
    rw [optionalString_iff.mpr (Or.inr ⟨text, hget, rfl⟩)] at h
    cases h

theorem resolvePath_iff {key : String} {given path : Option Path} :
    resolvePath key rootPath given (some table) = .ok path ↔
    (NotConfigured key given table ∧ path = none) ∨ ∃ p, InEffect key rootPath given table p ∧ path = some p := by
  unfold NotConfigured InEffect resolvePath configString
  cases given with
  | some given => simp [eq_comm]
  | none =>
    cases hvalue : optionalString table key ("config.toml " ++ key) with
    | error e =>
      obtain ⟨hnone, htext⟩ := optionalString_error hvalue
      simp [Except.map, hvalue, hnone, htext]
    | ok value =>
      rcases optionalString_iff.mp hvalue with ⟨hget, rfl⟩ | ⟨text, hget, rfl⟩
      · simp [Except.map, hvalue, hget, eq_comm]
      · simp [Except.map, hvalue, hget, eq_comm]

def namedBackend (name : String) : Except InitConfigError CatalogBackend :=
  match CatalogBackend.fromName name with
  | some backend => .ok backend
  | none => .error (.invalid ("unsupported catalog_backend: " ++ name))

theorem namedBackend_iff {name : String} :
    (∃ backend, namedBackend name = .ok backend) ↔ name ∈ ["duckdb", "sqlite"] := by
  unfold namedBackend CatalogBackend.fromName
  by_cases hd : name = "duckdb"
  · simp [hd]
  · by_cases hs : name = "sqlite" <;> simp [hd, hs]

theorem resolveCatalogBackend_iff {given : Option String} :
    (∃ backend, resolveCatalogBackend given (some table) = .ok backend) ↔
      NotConfigured "catalog_backend" given table ∨
      ∃ name ∈ ["duckdb", "sqlite"], given = some name ∨
        given = none ∧ table.get "catalog_backend" = some (.string name) := by
  cases given with
  | some given =>
    have hnamed : resolveCatalogBackend (some given) (some table) = namedBackend given := rfl
    rw [hnamed, namedBackend_iff]
    simp [NotConfigured]
  | none =>
    have hnamed : resolveCatalogBackend none (some table) =
        (optionalString table "catalog_backend" "config.toml catalog_backend").bind fun value =>
          namedBackend (value.getD "duckdb") := rfl
    rw [hnamed]
    cases hvalue : optionalString table "catalog_backend" "config.toml catalog_backend" with
    | error e =>
      obtain ⟨hnone, htext⟩ := optionalString_error hvalue
      simp [NotConfigured, Except.bind, hnone, htext]
    | ok value =>
      rw [Except.bind, namedBackend_iff]
      rcases optionalString_iff.mp hvalue with ⟨hget, rfl⟩ | ⟨text, hget, rfl⟩
      · simp [NotConfigured, hget]
      · simp [NotConfigured, hget]

/-- What is known once the S3 connection is resolved. -/
theorem resolveInitConfig_consulted (hc : S3Consulted rootPath explicit table) :
    ∃ storage capacity, resolveStorageConfig rootPath (.parsed table) explicit = .ok storage ∧
      ∀ table', resolveStorageConfig rootPath (.parsed table') explicit = .ok storage →
        resolveInitConfig rootPath (.parsed table') explicit =
          (resolveS3Connection (some table') explicit.s3Overrides).map fun s3Connection =>
            ⟨storage.catalogBackend, storage.catalogPath, storage.dataPath, capacity, some s3Connection⟩ := by
  obtain ⟨path, hpath, hs3⟩ := hc.dataPath
  have hdata : resolveDataPath rootPath explicit.dataPath (some table) = .ok (some path) :=
    resolvePath_iff.mpr (Or.inr ⟨path, hpath, rfl⟩)
  obtain ⟨backend, hbackend⟩ := resolveCatalogBackend_iff.mpr hc.catalogBackend
  obtain ⟨catalogPath, hcatalog, huri⟩ : ∃ path, resolveCatalogPath rootPath explicit.catalogPath
    (some table) = .ok path ∧
      path.any isUriPath = false := by
    rcases hc.catalogPath with h | ⟨catalogPath, h, huri⟩
    · exact ⟨none, resolvePath_iff.mpr (Or.inl ⟨h, rfl⟩), rfl⟩
    · exact ⟨some catalogPath, resolvePath_iff.mpr (Or.inr ⟨catalogPath, h, rfl⟩), huri⟩
  have hvalid : validatePathConfiguration (some path) catalogPath = .ok () := by
    simp [validatePathConfiguration, isUnsupportedDataUriPath, hs3, huri]
  have hcapacity : validateMetricQueueCapacity explicit.metricQueueCapacity =
    .ok explicit.metricQueueCapacity.toNat :=
    if_pos hc.capacity
  refine ⟨⟨backend, catalogPath, some path⟩, explicit.metricQueueCapacity.toNat, ?_, fun table' hstorage => ?_⟩
  · simp only [resolveStorageConfig, loadProjectConfig, bind, Except.bind, hdata, hbackend, hcatalog, hvalid]
    rfl
  · simp only [resolveInitConfig, bind, Except.bind, hstorage, hcapacity, Option.any_some, hs3, ite_true,
      loadProjectConfig]
    cases resolveS3Connection (some table') explicit.s3Overrides <;> rfl

theorem resolveStorageConfig_ok {storage : ResolvedStorageConfig}
    (h : resolveStorageConfig rootPath (.parsed table) explicit = .ok storage) :
    resolveDataPath rootPath explicit.dataPath (some table) = .ok storage.dataPath ∧
      resolveCatalogBackend explicit.catalogBackend (some table) = .ok storage.catalogBackend ∧
      resolveCatalogPath rootPath explicit.catalogPath (some table) = .ok storage.catalogPath ∧
      storage.catalogPath.any isUriPath = false := by
  simp only [resolveStorageConfig, loadProjectConfig, bind, Except.bind] at h
  cases hdata : resolveDataPath rootPath explicit.dataPath (some table) with
  | error e => rw [hdata] at h; cases h
  | ok dataPath =>
    cases hbackend : resolveCatalogBackend explicit.catalogBackend (some table) with
    | error e => rw [hdata, hbackend] at h; cases h
    | ok backend =>
      cases hcatalog : resolveCatalogPath rootPath explicit.catalogPath (some table) with
      | error e => rw [hdata, hbackend, hcatalog] at h; cases h
      | ok catalogPath =>
        simp only [hdata, hbackend, hcatalog, validatePathConfiguration] at h
        by_cases hunsupported : dataPath.any isUnsupportedDataUriPath = true
        · rw [if_pos hunsupported] at h; cases h
        · by_cases huri : catalogPath.any isUriPath = true
          · rw [if_neg hunsupported, if_pos huri] at h; cases h
          · rw [if_neg hunsupported, if_neg huri] at h
            cases h
            exact ⟨rfl, rfl, rfl, by simpa using huri⟩

/-- Otherwise the section is not looked at. -/
theorem resolveInitConfig_unconsulted (ha : Agree explicit table table')
    (hc : ¬ S3Consulted rootPath explicit table) :
    resolveInitConfig rootPath (.parsed table) explicit = resolveInitConfig rootPath (.parsed table') explicit := by
  have hcongr := @resolveStorageConfig_congr rootPath _ _ _ ha
  unfold resolveInitConfig
  rw [← hcongr]
  cases hstorage : resolveStorageConfig rootPath (.parsed table) explicit with
  | error e => rfl
  | ok storage =>
    obtain ⟨hdata, hbackend, hcatalog, huri⟩ := resolveStorageConfig_ok hstorage
    cases hcapacity : validateMetricQueueCapacity explicit.metricQueueCapacity with
    | error e => rfl
    | ok capacity =>
      have hs3 : storage.dataPath.any isS3DataPath = false := by
        rw [Bool.eq_false_iff]
        intro hs3
        obtain ⟨path, hpath, hs3⟩ := (Option.any_eq_true _ _).mp hs3
        have heffect : InEffect "data_path" rootPath explicit.dataPath table path := by
          rcases resolvePath_iff.mp hdata with ⟨-, hnone⟩ | ⟨p, hp, hsome⟩
          · rw [hpath] at hnone; cases hnone
          · rw [hpath] at hsome; cases hsome; exact hp
        refine hc ⟨⟨path, heffect, hs3⟩, resolveCatalogBackend_iff.mp ⟨_, hbackend⟩, ?_, ?_⟩
        · rcases resolvePath_iff.mp hcatalog with ⟨hnone, -⟩ | ⟨catalogPath, heffect, hsome⟩
          · exact Or.inl hnone
          · rw [hsome] at huri
            exact Or.inr ⟨catalogPath, heffect, huri⟩
        · by_contra hrange
          rw [validateMetricQueueCapacity, if_neg hrange] at hcapacity
          cases hcapacity
      simp only [bind, Except.bind, hs3]
      rfl

/-- With everything else alike, two files resolve alike exactly when both have a section
that is no table or neither has, or when the S3 options are not consulted. -/
theorem overrides_complete_iff (ha : Agree explicit table table') :
    resolveInitConfig rootPath (.parsed table) explicit = resolveInitConfig rootPath (.parsed table') explicit ↔
      (Malformed table ↔ Malformed table') ∨ ¬ S3Consulted rootPath explicit table := by
  by_cases hc : S3Consulted rootPath explicit table
  · obtain ⟨storage, capacity, hstorage, hresolve⟩ := resolveInitConfig_consulted hc
    have hstorage' := hstorage
    rw [resolveStorageConfig_congr ha] at hstorage'
    rw [hresolve table hstorage, hresolve table' hstorage', or_iff_left (not_not_intro hc)]
    constructor
    · intro heq
      exact ⟨malformed_of_eq heq, malformed_of_eq heq.symm⟩
    · intro hm
      rw [resolveS3Connection_congr ha hm]
  · exact iff_of_true (resolveInitConfig_unconsulted ha hc) (Or.inr hc)

end

/-! ## A section that is no table -/

/-- Everything is given explicitly. -/
def completeArguments : InitArguments where
  dataPath := some (.ofText "s3://bucket/data")
  catalogBackend := some "duckdb"
  catalogPath := some (.ofText "/catalog")
  metricQueueCapacity := 1
  s3Overrides := ⟨some "e", some "k", some "s", some "t", some "r", some true, some true⟩

theorem complete_agree (table table' : Table) : Agree completeArguments table table' where
  dataPath := nofun
  catalogBackend := nofun
  catalogPath := nofun
  s3Field key h := by simp [completeArguments, S3ConnectionOverrides.given] at h
  s3Kind key h := by simp [completeArguments, S3ConnectionOverrides.given] at h

theorem overrides_complete_iff_tables :
    resolveInitConfig (.ofText "/root") (.parsed [("s3", .table [("endpoint", .integer 5)])]) completeArguments =
      resolveInitConfig (.ofText "/root") (.parsed []) completeArguments := by
  refine (overrides_complete_iff (complete_agree _ _)).mpr (Or.inl (iff_of_false ?_ ?_))
  · rintro ⟨value, hget, hkind⟩
    cases hget
    cases hkind
  · rintro ⟨value, hget, -⟩
    cases hget

/-- The files agree on all that is not given, and only one of them is refused. -/
theorem malformed_section_refused : Agree completeArguments [("s3", .integer 5)] [] ∧
    resolveInitConfig (.ofText "/root") (.parsed [("s3", .integer 5)]) completeArguments ≠
      resolveInitConfig (.ofText "/root") (.parsed []) completeArguments := by
  refine ⟨complete_agree _ _, ?_⟩
  decide +kernel

end Pulseon
