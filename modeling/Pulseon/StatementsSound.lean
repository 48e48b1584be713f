import Mathlib.Data.List.Forall2
import Pulseon.SqlLexer
import Pulseon.Statements

/-!
# Statements keep their values inside literals

A quoted value is read back whole, so the tokens of the generated statements are
those of the intended ones, with the supplied values in the places of values.
-/

namespace Pulseon

/-! ## Literals -/

theorem literalBody_quoted (value : List Char) {following : List Char} (h : following.head? ≠ some '\'') :
    literalBody ((value.flatMap fun c => if c = '\'' then ['\'', '\''] else [c]) ++ '\'' :: following) =
      some (value, following) := by
  induction value with
  | nil =>
    rw [List.flatMap_nil, List.nil_append, literalBody.eq_3]
    intro rest he
    exact h (by rw [he]; rfl)
  | cons c value ih =>
    rw [List.flatMap_cons, List.append_assoc]
    by_cases hc : c = '\''
    · rw [if_pos hc, List.cons_append, List.cons_append, List.nil_append, literalBody, ih, hc]
      rfl
    · rw [if_neg hc, List.cons_append, List.nil_append, literalBody.eq_4, ih]
      · rfl
      · intro _ e
        exact absurd e hc
      · intro e
        exact hc e

theorem stringLiteral_toList (value : String) : (stringLiteral value).toList =
    '\'' :: (value.toList.flatMap fun c => if c = '\'' then ['\'', '\''] else [c]) ++ ['\''] := by
  rw [stringLiteral, String.toList_ofList]

theorem readLiteral_quoted (value : String) {following : List Char} (h : following.head? ≠ some '\'') :
    readLiteral ((stringLiteral value).toList ++ following) = some (value.toList, following) := by
  rw [stringLiteral_toList, List.cons_append, List.cons_append, List.append_assoc, readLiteral]
  exact literalBody_quoted _ h

def word (text : String) : Token := .word text.toList

def quoted (value : String) : Token := .string value.toList

theorem lex_literal (value : String) : lex (stringLiteral value).toList = some [quoted value] := by
  have hbody := @literalBody_quoted value.toList [] (by simp)
  rw [stringLiteral_toList, List.cons_append, lex, List.length_cons, lexWithin, firstToken, if_pos rfl, hbody,
    Option.map_some, Option.bind_some, lexWithin]
  rfl

/-! ## Fragments -/

theorem lex_concat {text next : List Char} {tokens tokens' : List Token} (h : lex text = some tokens)
    (h' : lex next = some tokens') (ha : Apart text next) : lex (text ++ next) = some (tokens ++ tokens') := by
  rw [lex_append h ha, h', Option.map_some]

/-- A fragment that ends in a blank or a symbol. -/
theorem apart_last {text : List Char} {c : Char} (hlast : text.getLast? = some c) (hc : joins c = false)
    (next : List Char) : Apart text next := by
  refine Or.inl fun d hd => ?_
  rw [hlast] at hd
  cases hd
  exact hc

/-- A fragment that begins with a blank or a symbol. -/
theorem apart_head (text : List Char) {next : List Char} {c : Char} (hhead : next.head? = some c)
    (hc : joins c = false) : Apart text next := by
  refine Or.inr fun d hd => ?_
  rw [hhead] at hd
  cases hd
  exact hc

/-- A value between two fragments. -/
theorem lex_value (value : String) {before after : List Char} {tokens tokens' : List Token}
    (hbefore : lex before = some tokens)
    (hafter : lex after = some tokens') {c d : Char} (hlast : before.getLast? = some c) (hc : joins c = false)
    (hhead : after.head? = some d) (hd : joins d = false) :
    lex (before ++ ((stringLiteral value).toList ++ after)) = some (tokens ++ quoted value :: tokens') :=
  lex_concat hbefore (lex_concat (lex_literal value) hafter (apart_head _ hhead hd)) (apart_last hlast hc _)

/-! ## The catalog -/

/-- The statement that attaches a catalog, token by token. -/
def attachTokens (typeClause : List Token) (uri dataPath : String) : List Token :=
  word "ATTACH" :: quoted uri :: ([word "AS", word "dl", .symbol '('] ++ typeClause ++ [word "DATA_PATH"]) ++
    quoted dataPath :: [.symbol ',', word "OVERRIDE_DATA_PATH", word "true", .symbol ',',
      word "METADATA_CATALOG", quoted "pulseon_catalog", .symbol ')', .symbol ';']

def CatalogBackend.attachTokens : CatalogBackend → Path → Path → List Token
  | .duckDb, catalogPath, dataPath => Pulseon.attachTokens [word "TYPE", word "ducklake", .symbol ',']
      catalogPath.toStringLossy dataPath.toStringLossy
  | .sqlite, catalogPath, dataPath => Pulseon.attachTokens []
      ("ducklake:sqlite:" ++ catalogPath.toStringLossy) dataPath.toStringLossy

namespace CatalogAdapter
variable (adapter : CatalogAdapter)

/-- The fragment between the two paths. -/
def pathOptions : String := " AS " ++ adapter.ducklakeAlias ++ " (\n" ++
  (adapter.attachTypeClause.map fun clause => "                 " ++ clause ++ ",\n").getD "" ++
    "                 DATA_PATH "

/-- The fragment after the data path. -/
def catalogOptions : String :=
  ",\n                 OVERRIDE_DATA_PATH true,\n" ++ "                 METADATA_CATALOG '" ++
  adapter.catalogApplicationDatabase ++ "'\n             );"

theorem attachDucklakeStatement_eq (catalogPath dataPath : Path) :
    adapter.attachDucklakeStatement catalogPath dataPath =
    "ATTACH " ++ (stringLiteral (adapter.ducklakePathPrefix ++ catalogPath.toStringLossy) ++ (adapter.pathOptions ++
      (stringLiteral dataPath.toStringLossy ++ adapter.catalogOptions))) := by
  unfold attachDucklakeStatement pathOptions catalogOptions
  dsimp only
  generalize stringLiteral (adapter.ducklakePathPrefix ++ catalogPath.toStringLossy) = uri
  generalize stringLiteral dataPath.toStringLossy = data
  generalize (adapter.attachTypeClause.map fun clause => "                 " ++ clause ++ ",\n").getD "" =
    typeClause
  simp only [String.append_assoc]

/-- The tokens after the data path, the same for both backends. -/
def catalogTokens : List Token := [.symbol ',', word "OVERRIDE_DATA_PATH", word "true", .symbol ',',
  word "METADATA_CATALOG", quoted "pulseon_catalog", .symbol ')', .symbol ';']

theorem toList_pathOptions :
    adapter.pathOptions.toList = " AS ".toList ++ adapter.ducklakeAlias.toList ++ " (\n".toList ++
    ((adapter.attachTypeClause.map fun clause => "                 " ++ clause ++ ",\n").getD "").toList ++
      "                 DATA_PATH ".toList := by
  unfold pathOptions
  simp only [String.toList_append]

theorem toList_catalogOptions :
    adapter.catalogOptions.toList = ",\n                 OVERRIDE_DATA_PATH true,\n".toList ++
    "                 METADATA_CATALOG '".toList ++ adapter.catalogApplicationDatabase.toList ++
      "'\n             );".toList := by
  unfold catalogOptions
  simp only [String.toList_append]

variable {adapter}

theorem lex_catalogOptions (h : adapter.catalogApplicationDatabase = "pulseon_catalog") :
    lex adapter.catalogOptions.toList = some catalogTokens ∧ adapter.catalogOptions.toList.head? = some ',' := by
  rw [toList_catalogOptions, h]
  constructor <;> decide +kernel

theorem lex_pathOptions_duckdb :
    lex CatalogAdapter.duckdb.pathOptions.toList = some [word "AS", word "dl", .symbol '(',
    word "TYPE", word "ducklake", .symbol ',', word "DATA_PATH"] := by
  rw [toList_pathOptions]
  decide +kernel

theorem lex_pathOptions_sqlite :
    lex CatalogAdapter.sqlite.pathOptions.toList = some [word "AS", word "dl", .symbol '(',
    word "DATA_PATH"] := by
  rw [toList_pathOptions]
  decide +kernel

theorem pathOptions_ends :
    adapter.pathOptions.toList.head? = some ' ' ∧ adapter.pathOptions.toList.getLast? = some ' ' := by
  have hfirst : " AS ".toList = ' ' :: "AS ".toList := by decide +kernel
  have hlast : "                 DATA_PATH ".toList.getLast? = some ' ' := by decide +kernel
  rw [toList_pathOptions]
  constructor
  · rw [hfirst]
    rfl
  · rw [List.getLast?_append, hlast]
    rfl

theorem lex_statement (catalogPath dataPath : Path) {typeClause : List Token}
    (hmiddle : lex adapter.pathOptions.toList =
      some ([word "AS", word "dl", .symbol '('] ++ typeClause ++ [word "DATA_PATH"]))
    (hdatabase : adapter.catalogApplicationDatabase = "pulseon_catalog") :
    lex (adapter.attachDucklakeStatement catalogPath dataPath).toList =
      some (attachTokens typeClause (adapter.ducklakePathPrefix ++ catalogPath.toStringLossy)
        dataPath.toStringLossy) := by
  have hattach : lex "ATTACH ".toList = some [word "ATTACH"] := by decide +kernel
  have hblank : "ATTACH ".toList.getLast? = some ' ' := by decide +kernel
  obtain ⟨hend, hcomma⟩ := lex_catalogOptions hdatabase
  obtain ⟨hhead, hlast⟩ := @pathOptions_ends adapter
  have hsecond := lex_value dataPath.toStringLossy hmiddle hend hlast (by decide) hcomma (by decide)
  have hstart : (adapter.pathOptions.toList ++ ((stringLiteral dataPath.toStringLossy).toList ++
      adapter.catalogOptions.toList)).head? = some ' ' := by
    rw [List.head?_append, hhead]
    rfl
  rw [attachDucklakeStatement_eq, String.toList_append, String.toList_append, String.toList_append,
    String.toList_append]
  exact lex_value _ hattach hsecond hblank (by decide) hstart (by decide)

end CatalogAdapter

theorem lex_attach (backend : CatalogBackend) (catalogPath dataPath : Path) :
    lex (backend.adapter.attachDucklakeStatement catalogPath dataPath).toList =
      some (backend.attachTokens catalogPath dataPath) := by
  cases backend with
  | duckDb =>
    have hscheme : CatalogAdapter.duckdb.ducklakePathPrefix = "" := rfl
    have htokens :=
      @CatalogAdapter.lex_statement .duckdb catalogPath dataPath [word "TYPE", word "ducklake", .symbol ',']
      CatalogAdapter.lex_pathOptions_duckdb rfl
    rw [hscheme, String.empty_append] at htokens
    exact htokens
  | sqlite =>
    exact @CatalogAdapter.lex_statement .sqlite catalogPath dataPath [] CatalogAdapter.lex_pathOptions_sqlite rfl

/-! ## The secret -/

def booleanWord (value : Bool) : Token := word (if value then "true" else "false")

/-- The clauses of the secret, each with its tokens. -/
def secretClauses (config : S3ConnectionConfig) : List (List Token) :=
  [[word "TYPE", word "s3"], [word "KEY_ID", quoted config.accessKeyId],
    [word "SECRET", quoted config.secretAccessKey],
    [word "ENDPOINT", quoted config.endpoint]] ++
  (config.sessionToken.map fun sessionToken => [word "SESSION_TOKEN", quoted sessionToken]).toList ++
  (config.region.map fun region => [word "REGION", quoted region]).toList ++
  (config.pathStyle.map fun pathStyle =>
    [word "URL_STYLE", quoted (if pathStyle then "path" else "vhost")]).toList ++
  (config.useSsl.map fun useSsl => [word "USE_SSL", booleanWord useSsl]).toList

/-- The statement that creates the secret, token by token. -/
def secretTokens (config : S3ConnectionConfig) : List Token :=
  [word "CREATE", word "OR", word "REPLACE", word "SECRET", word "pulseon_s3", .symbol '('] ++
    [Token.symbol ','].intercalate (secretClauses config) ++ [.symbol ')', .symbol ';']

/-- The text of a clause has the tokens of the clause. -/
def Clause (text : String) (tokens : List Token) : Prop := lex text.toList = some tokens

theorem clause_literal {name : String} {key : Token} (hkey : lex name.toList = some [key])
    (hlast : name.toList.getLast? = some ' ') (value : String) : Clause (name ++ stringLiteral value)
    [key, quoted value] := by
  rw [Clause, String.toList_append]
  exact lex_concat hkey (lex_literal value) (apart_last hlast (by decide) _)

theorem forall₂_option {α : Type} (option : Option α) {text : α → String} {tokens : α → List Token}
    (h : ∀ x, Clause (text x) (tokens x)) : List.Forall₂ Clause (option.map text).toList
    (option.map tokens).toList := by
  cases option with
  | none => exact .nil
  | some x => exact .cons (h x) .nil

theorem secretOptions_clauses (config : S3ConnectionConfig) :
    List.Forall₂ Clause (s3SecretOptions config) (secretClauses config) := by
  have htype : Clause "TYPE s3" [word "TYPE", word "s3"] := by unfold Clause; decide +kernel
  have hkey : ∀ value, Clause ("KEY_ID " ++ stringLiteral value) [word "KEY_ID", quoted value] :=
    clause_literal (by decide +kernel) (by decide +kernel)
  have hsecret : ∀ value, Clause ("SECRET " ++ stringLiteral value) [word "SECRET", quoted value] :=
    clause_literal (by decide +kernel) (by decide +kernel)
  have hendpoint : ∀ value, Clause ("ENDPOINT " ++ stringLiteral value) [word "ENDPOINT", quoted value] :=
    clause_literal (by decide +kernel) (by decide +kernel)
  have htoken : ∀ value, Clause ("SESSION_TOKEN " ++ stringLiteral value) [word "SESSION_TOKEN", quoted value] :=
    clause_literal (by decide +kernel) (by decide +kernel)
  have hregion : ∀ value, Clause ("REGION " ++ stringLiteral value) [word "REGION", quoted value] :=
    clause_literal (by decide +kernel) (by decide +kernel)
  have hstyle : ∀ value, Clause ("URL_STYLE " ++ stringLiteral value) [word "URL_STYLE", quoted value] :=
    clause_literal (by decide +kernel) (by decide +kernel)
  have hssl : ∀ useSsl, Clause ("USE_SSL " ++ sqlBooleanLiteral useSsl) [word "USE_SSL", booleanWord useSsl] := by
    unfold Clause
    decide +kernel
  have hfixed : List.Forall₂ Clause ["TYPE s3", "KEY_ID " ++ stringLiteral config.accessKeyId,
      "SECRET " ++ stringLiteral config.secretAccessKey, "ENDPOINT " ++ stringLiteral config.endpoint]
      [[word "TYPE", word "s3"], [word "KEY_ID", quoted config.accessKeyId],
        [word "SECRET", quoted config.secretAccessKey],
        [word "ENDPOINT", quoted config.endpoint]] :=
    .cons htype (.cons (hkey _) (.cons (hsecret _) (.cons (hendpoint _) .nil)))
  refine List.rel_append (List.rel_append (List.rel_append (List.rel_append hfixed ?_) ?_) ?_) ?_
  · exact forall₂_option _ htoken
  · exact forall₂_option _ hregion
  · exact forall₂_option _ fun pathStyle => hstyle _
  · exact forall₂_option _ hssl

/-- Clauses joined by commas have their tokens joined by commas. -/
theorem lex_clauses {texts : List String} {clauses : List (List Token)} (h : List.Forall₂ Clause texts clauses) :
    lex (",\n             ".intercalate texts).toList = some ([Token.symbol ','].intercalate clauses) := by
  have hcomma : lex ",\n             ".toList = some [.symbol ','] := by decide +kernel
  have hhead : ",\n             ".toList.head? = some ',' := by decide +kernel
  have hlast : ",\n             ".toList.getLast? = some ' ' := by decide +kernel
  induction h with
  | nil => rfl
  | @cons text tokens texts clauses hclause hrest ih =>
    cases hrest with
    | nil => simpa using show lex text.toList = some tokens from hclause
    | @cons text' tokens' texts clauses hclause' hrest =>
      rw [String.intercalate_cons_cons, String.append_assoc, String.toList_append, String.toList_append]
      have hnext := lex_concat hcomma ih (apart_last hlast (by decide) _)
      have hstart :
        (",\n             ".toList ++ (",\n             ".intercalate (text' :: texts)).toList).head? =
          some ',' := by
        rw [List.head?_append, hhead]
        rfl
      rw [lex_concat hclause hnext (apart_head _ hstart (by decide))]
      simp [List.intercalate]

/-- Clauses between an opening and a closing fragment. -/
theorem lex_enclosed {before after : String} {tokens tokens' : List Token}
    (hbefore : lex before.toList = some tokens)
    (hafter : lex after.toList = some tokens') (hlast : before.toList.getLast? = some ' ')
    (hhead : after.toList.head? = some '\n') {texts : List String} {clauses : List (List Token)}
    (h : List.Forall₂ Clause texts clauses) : lex (before ++ ",\n             ".intercalate texts ++ after).toList =
      some (tokens ++ [Token.symbol ','].intercalate clauses ++ tokens') := by
  rw [String.toList_append, String.toList_append]
  exact lex_concat (lex_concat hbefore (lex_clauses h) (apart_last hlast (by decide) _)) hafter
    (apart_head _ hhead (by decide))

theorem lex_secret (config : S3ConnectionConfig) :
    lex (createS3SecretStatement config).toList = some (secretTokens config) :=
  lex_enclosed (by decide +kernel) (by decide +kernel) (by decide +kernel) (by decide +kernel)
    (secretOptions_clauses config)

/-! ## Both statements -/

/-- A quoted value is read back whole, and the statements have the intended tokens
with the supplied values in them. A path is in the statement as its text. -/
theorem statements_hold_values :
    (∀ value following : String, following.toList.head? ≠ some '\'' →
      readLiteral (stringLiteral value ++ following).toList = some (value.toList, following.toList)) ∧
    (∀ (backend : CatalogBackend) (catalogPath dataPath : Path),
      lex (backend.adapter.attachDucklakeStatement catalogPath dataPath).toList =
        some (backend.attachTokens catalogPath dataPath)) ∧
    (∀ config : S3ConnectionConfig, lex (createS3SecretStatement config).toList = some (secretTokens config)) ∧
    ∀ text : String, (Path.ofText text).toStringLossy = text := by
  refine ⟨fun value following h => ?_, lex_attach, lex_secret, Path.toStringLossy_ofText⟩
  rw [String.toList_append]
  exact readLiteral_quoted value h

theorem statements_hold_values_quotes :
    readLiteral (stringLiteral "it''s'" ++ ", 'x'").toList = some ("it''s'".toList, ", 'x'".toList) :=
  statements_hold_values.1 _ _ (by decide +kernel)

/-- The path `/` and a byte that is not UTF-8. -/
def rawPath : Path := [0x2f, 0xff]

/-- The statement for that path is the one for another path. -/
theorem raw_path_replaced :
    lex (CatalogBackend.duckDb.adapter.attachDucklakeStatement (.ofText "c") rawPath).toList =
        some (CatalogBackend.duckDb.attachTokens (.ofText "c") (.ofText "/\ufffd")) ∧
      Path.ofText "/\ufffd" ≠ rawPath := by
  have hraw : rawPath.toStringLossy = "/\ufffd" := by decide +kernel
  constructor
  · rw [lex_attach, CatalogBackend.attachTokens, CatalogBackend.attachTokens, hraw, Path.toStringLossy_ofText,
      Path.toStringLossy_ofText]
  · decide +kernel

end Pulseon
