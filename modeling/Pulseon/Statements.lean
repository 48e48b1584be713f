import Mathlib.Data.String.Basic
import Pulseon.Paths

/-!
# Generated statements

The statements that attach the DuckLake catalog and create the S3 secret, with the
values quoted by `string_literal`.
-/

namespace Pulseon

/-- `'{value}'` with every quote doubled. -/
def stringLiteral (value : String) : String :=
  String.ofList ('\'' :: (value.toList.flatMap fun c => if c = '\'' then ['\'', '\''] else [c]) ++ ['\''])

def sqlBooleanLiteral (value : Bool) : String := if value then "true" else "false"

/-! ## The catalog -/

inductive CatalogBackend
  | duckDb | sqlite
deriving DecidableEq, Repr

def CatalogBackend.fromName (name : String) : Option CatalogBackend :=
  if name = "duckdb" then some .duckDb else if name = "sqlite" then some .sqlite else none

structure CatalogAdapter where
  ducklakeAlias : String
  catalogApplicationDatabase : String
  ducklakePathPrefix : String
  attachTypeClause : Option String

namespace CatalogAdapter

def duckdb : CatalogAdapter := ⟨"dl", "pulseon_catalog", "", some "TYPE ducklake"⟩

def sqlite : CatalogAdapter := ⟨"dl", "pulseon_catalog", "ducklake:sqlite:", none⟩

def attachDucklakeStatement (adapter : CatalogAdapter) (catalogPath dataPath : Path) : String :=
  let catalogUri := stringLiteral (adapter.ducklakePathPrefix ++ catalogPath.toStringLossy)
  let dataPath := stringLiteral dataPath.toStringLossy
  let attachTypeClause :=
    (adapter.attachTypeClause.map fun clause => "                 " ++ clause ++ ",\n").getD ""
  "ATTACH " ++ catalogUri ++ " AS " ++ adapter.ducklakeAlias ++ " (\n" ++ attachTypeClause ++
    "                 DATA_PATH " ++ dataPath ++ ",\n                 OVERRIDE_DATA_PATH true,\n" ++
    "                 METADATA_CATALOG '" ++ adapter.catalogApplicationDatabase ++ "'\n             );"

end CatalogAdapter

def CatalogBackend.adapter : CatalogBackend → CatalogAdapter
  | .duckDb => .duckdb
  | .sqlite => .sqlite

/-! ## The secret -/

structure S3ConnectionConfig where
  endpoint : String
  accessKeyId : String
  secretAccessKey : String
  sessionToken : Option String
  region : Option String
  pathStyle : Option Bool
  useSsl : Option Bool
deriving DecidableEq, Repr

def s3SecretOptions (config : S3ConnectionConfig) : List String :=
  ["TYPE s3", "KEY_ID " ++ stringLiteral config.accessKeyId, "SECRET " ++ stringLiteral config.secretAccessKey,
    "ENDPOINT " ++ stringLiteral config.endpoint] ++
  (config.sessionToken.map fun sessionToken => "SESSION_TOKEN " ++ stringLiteral sessionToken).toList ++
  (config.region.map fun region => "REGION " ++ stringLiteral region).toList ++
  (config.pathStyle.map fun pathStyle =>
    "URL_STYLE " ++ stringLiteral (if pathStyle then "path" else "vhost")).toList ++
  (config.useSsl.map fun useSsl => "USE_SSL " ++ sqlBooleanLiteral useSsl).toList

def createS3SecretStatement (config : S3ConnectionConfig) : String :=
  "CREATE OR REPLACE SECRET pulseon_s3 (\n             " ++
    ",\n             ".intercalate (s3SecretOptions config) ++ "\n         );"

end Pulseon
