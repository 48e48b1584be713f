import Pulseon.Queries
import Pulseon.Statements

/-!
# Project configuration

`resolve_init_config` merges explicit values with those of `config.toml`. The file
is what reading and parsing it gives.
-/

namespace Pulseon

inductive TomlValue
  | string (value : String)
  | integer (value : Int)
  | float (value : F64)
  | boolean (value : Bool)
  | datetime (value : String)
  | array (items : List TomlValue)
  | table (entries : List (String × TomlValue))

abbrev Table := List (String × TomlValue)

def Table.get (table : Table) (key : String) : Option TomlValue := table.lookup key

namespace TomlValue

def asStr : TomlValue → Option String
  | .string value => some value
  | _ => none

def asBool : TomlValue → Option Bool
  | .boolean value => some value
  | _ => none

def asTable : TomlValue → Option Table
  | .table entries => some entries
  | _ => none

end TomlValue

inductive ConfigFile
  | missing
  | unreadable (source : String)
  | unparsable (source : String)
  | parsed (table : Table)

inductive InitConfigError
  | readConfig (source : String)
  | parseConfig (source : String)
  | invalid (message : String)
deriving DecidableEq, Repr

def loadProjectConfig : ConfigFile → Except InitConfigError (Option Table)
  | .missing => .ok none
  | .unreadable source => .error (.readConfig source)
  | .unparsable source => .error (.parseConfig source)
  | .parsed table => .ok (some table)

/-! ## Fields of a table -/

def optionalString (config : Table) (key label : String) : Except InitConfigError (Option String) :=
  match config.get key with
  | none => .ok none
  | some value =>
    match value.asStr with
    | some text => .ok (some text)
    | none => .error (.invalid (label ++ " must be a string"))

def optionalBool (explicit : Option Bool) (config : Option Table) (key label : String) :
    Except InitConfigError (Option Bool) :=
  if explicit.isSome then .ok explicit
  else match config with
    | none => .ok none
    | some config =>
      match config.get key with
      | none => .ok none
      | some value =>
        match value.asBool with
        | some flag => .ok (some flag)
        | none => .error (.invalid (label ++ " must be a boolean"))

/-- A field of the configuration, which may be missing itself. -/
def configString (config : Option Table) (key label : String) : Except InitConfigError (Option String) :=
  match config with
  | none => .ok none
  | some config => optionalString config key label

/-! ## Paths -/

def isUriPath (path : Path) : Bool := decide ("://".toList <:+: path.toStringLossy.toList)

def isS3DataPath (path : Path) : Bool := "s3://".toList.isPrefixOf path.toStringLossy.toList

def isUnsupportedDataUriPath (path : Path) : Bool := isUriPath path && !isS3DataPath path

def resolveConfigPath (rootPath path : Path) : Path :=
  if path.isAbsolute || isUriPath path then path else rootPath.join path

/-- `resolve_data_path` and `resolve_catalog_path`. -/
def resolvePath (key : String) (rootPath : Path) (explicit : Option Path) (config : Option Table) :
    Except InitConfigError (Option Path) :=
  if explicit.isSome then .ok explicit
  else (configString config key ("config.toml " ++ key)).map fun value =>
    value.map fun text => resolveConfigPath rootPath (.ofText text)

def resolveDataPath := resolvePath "data_path"

def resolveCatalogPath := resolvePath "catalog_path"

def resolveCatalogBackend (explicit : Option String) (config : Option Table) :
    Except InitConfigError CatalogBackend := do
  let configured ← if explicit.isSome then .ok none
    else configString config "catalog_backend" "config.toml catalog_backend"
  let name := (explicit.or configured).getD "duckdb"
  match CatalogBackend.fromName name with
  | some backend => .ok backend
  | none => .error (.invalid ("unsupported catalog_backend: " ++ name))

def validatePathConfiguration (dataPath catalogPath : Option Path) : Except InitConfigError Unit :=
  if dataPath.any isUnsupportedDataUriPath then
    .error (.invalid "data_path must be a local filesystem path or s3:// URI")
  else if catalogPath.any isUriPath then .error (.invalid "catalog_path must be a local filesystem path")
  else .ok ()

def maxMetricQueueCapacity : Int := 1048576

def validateMetricQueueCapacity (value : Int) : Except InitConfigError Nat :=
  if 1 ≤ value ∧ value ≤ maxMetricQueueCapacity then .ok value.toNat
  else .error (.invalid "metric_queue_capacity must be between 1 and 1048576")

/-! ## The S3 connection -/

structure S3ConnectionOverrides where
  endpoint : Option String := none
  accessKeyId : Option String := none
  secretAccessKey : Option String := none
  sessionToken : Option String := none
  region : Option String := none
  pathStyle : Option Bool := none
  useSsl : Option Bool := none
deriving DecidableEq, Repr

def s3Table (config : Option Table) : Except InitConfigError (Option Table) :=
  match config.bind fun config => config.get "s3" with
  | none => .ok none
  | some value =>
    match value.asTable with
    | some table => .ok (some table)
    | none => .error (.invalid "config.toml s3 must be a table")

def validateS3String (value : Option String) (name : String) : Except InitConfigError (Option String) :=
  if value.any blank then .error (.invalid (name ++ " must not be empty")) else .ok value

def optionalS3String (explicit : Option String) (config : Option Table) (key explicitName : String) :
    Except InitConfigError (Option String) :=
  if explicit.isSome then validateS3String explicit explicitName
  else do
    let value ← configString config key ("config.toml s3." ++ key)
    validateS3String value explicitName

def requiredS3String (value : Option String) (name : String) : Except InitConfigError String :=
  match value with
  | some value => .ok value
  | none => .error (.invalid (name ++ " is required when data_path is s3://"))

def resolveS3Connection (config : Option Table) (explicit : S3ConnectionOverrides) :
    Except InitConfigError S3ConnectionConfig := do
  let s3 ← s3Table config
  let endpoint ← requiredS3String (← optionalS3String explicit.endpoint s3 "endpoint" "s3_endpoint") "s3_endpoint"
  let accessKeyId ← requiredS3String
    (← optionalS3String explicit.accessKeyId s3 "access_key_id" "s3_access_key_id") "s3_access_key_id"
  let secretAccessKey ← requiredS3String
    (← optionalS3String explicit.secretAccessKey s3 "secret_access_key" "s3_secret_access_key")
      "s3_secret_access_key"
  let sessionToken ← optionalS3String explicit.sessionToken s3 "session_token" "s3_session_token"
  let region ← optionalS3String explicit.region s3 "region" "s3_region"
  let pathStyle ← optionalBool explicit.pathStyle s3 "path_style" "config.toml s3.path_style"
  let useSsl ← optionalBool explicit.useSsl s3 "use_ssl" "config.toml s3.use_ssl"
  return ⟨endpoint, accessKeyId, secretAccessKey, sessionToken, region, pathStyle, useSsl⟩

/-! ## resolve_init_config -/

structure ResolvedStorageConfig where
  catalogBackend : CatalogBackend
  catalogPath : Option Path
  dataPath : Option Path
deriving DecidableEq, Repr

structure ResolvedInitConfig where
  catalogBackend : CatalogBackend
  catalogPath : Option Path
  dataPath : Option Path
  metricQueueCapacity : Nat
  s3Connection : Option S3ConnectionConfig
deriving DecidableEq, Repr

/-- What is given explicitly. -/
structure InitArguments where
  dataPath : Option Path := none
  catalogBackend : Option String := none
  catalogPath : Option Path := none
  metricQueueCapacity : Int
  s3Overrides : S3ConnectionOverrides := {}

def resolveStorageConfig (rootPath : Path) (file : ConfigFile) (explicit : InitArguments) :
    Except InitConfigError ResolvedStorageConfig := do
  let config ← loadProjectConfig file
  let dataPath ← resolveDataPath rootPath explicit.dataPath config
  let catalogBackend ← resolveCatalogBackend explicit.catalogBackend config
  let catalogPath ← resolveCatalogPath rootPath explicit.catalogPath config
  validatePathConfiguration dataPath catalogPath
  return ⟨catalogBackend, catalogPath, dataPath⟩

def resolveInitConfig (rootPath : Path) (file : ConfigFile) (explicit : InitArguments) :
    Except InitConfigError ResolvedInitConfig := do
  let storage ← resolveStorageConfig rootPath file explicit
  let metricQueueCapacity ← validateMetricQueueCapacity explicit.metricQueueCapacity
  let s3Connection ← if storage.dataPath.any isS3DataPath then do
      let config ← loadProjectConfig file
      (resolveS3Connection config explicit.s3Overrides).map some
    else .ok none
  return ⟨storage.catalogBackend, storage.catalogPath, storage.dataPath, metricQueueCapacity, s3Connection⟩

end Pulseon
