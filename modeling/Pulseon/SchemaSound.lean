import Pulseon.Schema

/-!
# What the validation accepts

A list of columns is accepted when it breaks no rule, and the rule for a timestamp
column is that its type begins with `TIMESTAMP`. The contract asks for a scalar
timestamp type, so the two differ on the types that only begin like one.
-/

namespace Pulseon

/-- The ways in which columns break the rules of the contract, nested timestamp types apart. -/
inductive BreaksRule (columns : List ColumnSchema) : Prop
  | repeated (h : ¬ (columns.map ColumnSchema.name).Nodup)
  | missing {name : String} (hname : isRequired name = true) (h : ∀ column ∈ columns, column.name ≠ name)
  | mistyped {column : ColumnSchema} {expected : LogicalType} (hcolumn : column ∈ columns)
      (hrequired : (column.name, expected) ∈ requiredColumns) (h : expected.accepts column.dataType = false)
  | notNullable {column : ColumnSchema} (hcolumn : column ∈ columns) (hadditive : isRequired column.name = false)
      (h : column.nullable = false)

/-! ## The three loops -/

theorem indexByName_spec {columns seen : List ColumnSchema} {byName : String → Option ColumnSchema}
    (hseen : (seen.map ColumnSchema.name).Nodup)
    (hbyName : ∀ name, byName name = seen.find? fun column => column.name == name) :
    (¬ ((seen ++ columns).map ColumnSchema.name).Nodup → ∃ e, indexByName columns byName = .error e) ∧
      (((seen ++ columns).map ColumnSchema.name).Nodup → ∃ byName', indexByName columns byName = .ok byName' ∧
        ∀ name, byName' name = (seen ++ columns).find? fun column => column.name == name) := by
  induction columns generalizing seen byName with
  | nil =>
    rw [List.append_nil]
    exact ⟨fun h => absurd hseen h, fun _ => ⟨byName, rfl, hbyName⟩⟩
  | cons column rest ih =>
    unfold indexByName
    by_cases hdup : (byName column.name).isSome = true
    · rw [if_pos hdup]
      refine ⟨fun _ => ⟨_, rfl⟩, fun hnodup => ?_⟩
      rw [hbyName, List.find?_isSome] at hdup
      obtain ⟨other, hother, hname⟩ := hdup
      rw [List.map_append, List.nodup_append'] at hnodup
      exact absurd (List.mem_map.mpr ⟨column, List.mem_cons_self .., (beq_iff_eq.mp hname).symm⟩)
        (hnodup.2.2 (List.mem_map_of_mem hother))
    · rw [if_neg hdup]
      have hfresh : ∀ other ∈ seen, other.name ≠ column.name := by
        intro other hother hname
        rw [hbyName, List.find?_isSome] at hdup
        exact hdup ⟨other, hother, beq_iff_eq.mpr hname⟩
      have hnext := @ih (seen ++ [column]) (Function.update byName column.name (some column)) ?_ ?_
      · rwa [List.append_assoc] at hnext
      · rw [List.map_append, List.nodup_append']
        refine ⟨hseen, List.nodup_singleton _, ?_⟩
        intro name hname hcolumn
        obtain ⟨other, hother, rfl⟩ := List.mem_map.mp hname
        exact hfresh other hother (by simpa using hcolumn)
      · intro name
        rw [List.find?_append, List.find?_singleton]
        by_cases hname : name = column.name
        · subst hname
          have hnone : seen.find? (fun other => other.name == column.name) = none := by
            rw [List.find?_eq_none]
            intro other hother
            simpa using hfresh other hother
          rw [Function.update_self, hnone]
          simp
        · rw [Function.update_of_ne hname, hbyName]
          have hne : (column.name == name) = false := by simpa using fun e : column.name = name => hname e.symm
          simp [hne]

theorem checkRequired_ok {byName : String → Option ColumnSchema} {required : List (String × LogicalType)} :
    checkRequired byName required = .ok () ↔ ∀ name expected, (name, expected) ∈ required →
      ∃ column, byName name = some column ∧ expected.accepts column.dataType = true := by
  induction required with
  | nil => simp [checkRequired]
  | cons first rest ih =>
    obtain ⟨name, expected⟩ := first
    unfold checkRequired
    constructor
    · intro h
      cases hcolumn : byName name with
      | none => rw [hcolumn] at h; cases h
      | some column =>
        rw [hcolumn] at h
        dsimp only at h
        split at h
        · rename_i haccepts
          intro name' expected' hmem
          rcases List.mem_cons.mp hmem with heq | hmem
          · cases heq; exact ⟨column, hcolumn, haccepts⟩
          · exact ih.mp h name' expected' hmem
        · cases h
    · intro h
      obtain ⟨column, hcolumn, haccepts⟩ := h name expected (List.mem_cons_self ..)
      rw [hcolumn]
      dsimp only
      rw [if_pos haccepts]
      exact ih.mpr fun name' expected' hmem => h name' expected' (List.mem_cons_of_mem _ hmem)

/-- The columns that are not required. -/
def otherColumns (columns : List ColumnSchema) : List ColumnSchema :=
  columns.filter fun column => !isRequired column.name

theorem additiveOf_spec (columns : List ColumnSchema) :
    ((∀ column ∈ otherColumns columns, column.nullable = true) →
      additiveOf columns = .ok ((otherColumns columns).map ColumnSchema.name)) ∧
    (¬ (∀ column ∈ otherColumns columns, column.nullable = true) → ∃ e, additiveOf columns = .error e) := by
  induction columns with
  | nil => exact ⟨fun _ => rfl, fun h => absurd (by simp [otherColumns]) h⟩
  | cons column rest ih =>
    unfold additiveOf
    by_cases hrequired : isRequired column.name = true
    · have hother : otherColumns (column :: rest) = otherColumns rest := by simp [otherColumns, hrequired]
      rw [if_pos hrequired, hother]
      exact ih
    · have hother : otherColumns (column :: rest) = column :: otherColumns rest := by simp [otherColumns, hrequired]
      rw [if_neg hrequired, hother]
      by_cases hnullable : column.nullable = true
      · rw [hnullable]
        constructor
        · intro h
          rw [ih.1 fun c hc => h c (List.mem_cons_of_mem _ hc)]
          rfl
        · intro h
          obtain ⟨e, he⟩ := ih.2 fun hall => h (List.forall_mem_cons.mpr ⟨hnullable, hall⟩)
          rw [he]
          exact ⟨e, rfl⟩
      · have hrejects : (!column.nullable) = true := by simpa using hnullable
        rw [if_pos hrejects]
        exact ⟨fun h => absurd (h column (List.mem_cons_self ..)) hnullable, fun _ => ⟨_, rfl⟩⟩

/-! ## The whole validation -/

theorem isRequired_iff {name : String} :
    isRequired name = true ↔ ∃ expected, (name, expected) ∈ requiredColumns := by
  simp only [isRequired, List.any_eq_true, beq_iff_eq]
  constructor
  · rintro ⟨⟨_, expected⟩, hmem, rfl⟩
    exact ⟨expected, hmem⟩
  · rintro ⟨expected, hmem⟩
    exact ⟨_, hmem, rfl⟩

/-- What the columns are when they break no rule, as the loops check it. -/
theorem not_breaksRule_iff {columns : List ColumnSchema} : ¬ BreaksRule columns ↔
    (columns.map ColumnSchema.name).Nodup ∧
      (∀ name expected, (name, expected) ∈ requiredColumns →
        ∃ column ∈ columns, column.name = name ∧ expected.accepts column.dataType = true) ∧
      ∀ column ∈ columns, isRequired column.name = false → column.nullable = true := by
  constructor
  · intro hb
    have hdistinct : (columns.map ColumnSchema.name).Nodup := by
      by_contra hn
      exact hb (.repeated hn)
    refine ⟨hdistinct, fun name expected hmem => ?_, fun column hcolumn hother => ?_⟩
    · have hpresent : ∃ column ∈ columns, column.name = name := by
        by_contra hmissing
        push Not at hmissing
        exact hb (.missing (isRequired_iff.mpr ⟨expected, hmem⟩) hmissing)
      obtain ⟨column, hcolumn, rfl⟩ := hpresent
      refine ⟨column, hcolumn, rfl, ?_⟩
      by_contra hrefused
      exact hb (.mistyped hcolumn hmem (by simpa using hrefused))
    · by_contra hn
      exact hb (.notNullable hcolumn hother (by simpa using hn))
  · rintro ⟨hdistinct, hrequired, hadditive⟩ hb
    cases hb with
    | repeated h => exact h hdistinct
    | missing hname h =>
      obtain ⟨expected, hmem⟩ := isRequired_iff.mp hname
      obtain ⟨column, hcolumn, heq, -⟩ := hrequired _ expected hmem
      exact h column hcolumn heq
    | mistyped hcolumn hmem h =>
      obtain ⟨found, hfound, hname, haccepts⟩ := hrequired _ _ hmem
      rw [List.inj_on_of_nodup_map hdistinct hfound hcolumn hname, h] at haccepts
      cases haccepts
    | notNullable hcolumn hother h =>
      rw [hadditive _ hcolumn hother] at h
      cases h

theorem otherColumns_nullable {columns : List ColumnSchema} :
    (∀ column ∈ otherColumns columns, column.nullable = true) ↔
      ∀ column ∈ columns, isRequired column.name = false → column.nullable = true := by
  simp [otherColumns, List.mem_filter]

/-- The validation in terms of its loops, for distinct names. -/
theorem validate_distinct {columns : List ColumnSchema} (hn : (columns.map ColumnSchema.name).Nodup) :
    ∃ byName, validateMetricPointSchema columns = (do
        checkRequired byName requiredColumns
        let additiveColumns ← additiveOf columns
        return ⟨columns, orderBy (fun name => name) additiveColumns⟩) ∧
      (checkRequired byName requiredColumns = .ok () ↔ ∀ name expected, (name, expected) ∈ requiredColumns →
        ∃ column ∈ columns, column.name = name ∧ expected.accepts column.dataType = true) := by
  obtain ⟨byName, hok, hbyName⟩ := (@indexByName_spec columns [] (fun _ => none) List.nodup_nil fun _ => rfl).2 hn
  refine ⟨byName, ?_, ?_⟩
  · unfold validateMetricPointSchema
    rw [hok]
    rfl
  · simp only [checkRequired_ok, hbyName, List.nil_append, find_key_iff hn, and_assoc]

theorem validate_ok {columns : List ColumnSchema} (hb : ¬ BreaksRule columns) : validateMetricPointSchema columns =
    .ok ⟨columns, orderBy (fun name => name) ((otherColumns columns).map ColumnSchema.name)⟩ := by
  obtain ⟨hdistinct, hrequired, hadditive⟩ := not_breaksRule_iff.mp hb
  obtain ⟨byName, heq, hcheck⟩ := validate_distinct hdistinct
  rw [heq, hcheck.mpr hrequired, (additiveOf_spec columns).1 (otherColumns_nullable.mpr hadditive)]
  rfl

theorem not_breaksRule_of_ok {columns : List ColumnSchema} {report : SchemaReport}
    (h : validateMetricPointSchema columns = .ok report) : ¬ BreaksRule columns := by
  have hdistinct : (columns.map ColumnSchema.name).Nodup := by
    by_contra hn
    obtain ⟨e, he⟩ := (@indexByName_spec columns [] (fun _ => none) List.nodup_nil fun _ => rfl).1 hn
    unfold validateMetricPointSchema at h
    rw [he] at h
    cases h
  obtain ⟨byName, heq, hcheck⟩ := validate_distinct hdistinct
  rw [heq] at h
  cases hrequired : checkRequired byName requiredColumns with
  | error e => rw [hrequired] at h; cases h
  | ok u =>
    refine not_breaksRule_iff.mpr ⟨hdistinct, hcheck.mp hrequired, otherColumns_nullable.mp ?_⟩
    by_contra hothers
    obtain ⟨e, he⟩ := (additiveOf_spec columns).2 hothers
    rw [hrequired, he] at h
    cases h

/-! ## The contract -/

section
variable (scalarTimestamps : List (List Char))

/-- The types that the contract allows, in upper case. -/
def contractTypes : LogicalType → List (List Char)
  | .string => ["VARCHAR".toList]
  | .int64 => ["BIGINT".toList]
  | .timestamp => scalarTimestamps
  | .float64 => ["DOUBLE".toList]

structure Contract (columns : List ColumnSchema) : Prop where
  distinct : (columns.map ColumnSchema.name).Nodup
  required : ∀ name expected, (name, expected) ∈ requiredColumns → ∃ column ∈ columns,
    column.name = name ∧ normalType column.dataType ∈ contractTypes scalarTimestamps expected
  additive : ∀ column ∈ columns, isRequired column.name = false → column.nullable = true

/-- The timestamp types that begin with `TIMESTAMP` are scalar. -/
def TimestampsScalar (columns : List ColumnSchema) : Prop :=
  ∀ column ∈ columns, (column.name, LogicalType.timestamp) ∈ requiredColumns →
    LogicalType.timestamp.accepts column.dataType = true → normalType column.dataType ∈ scalarTimestamps

def Accepted (columns : List ColumnSchema) : Prop := ∃ report, validateMetricPointSchema columns = .ok report

/-- Accepted exactly by the contract, in any order, and with the sorted additive columns in the report. -/
structure MeetsContract (columns : List ColumnSchema) : Prop where
  exact : Accepted columns ↔ Contract scalarTimestamps columns
  order : ∀ columns' : List ColumnSchema, columns'.Perm columns → (Accepted columns' ↔ Accepted columns)
  report : ∀ report, validateMetricPointSchema columns = .ok report →
    report.additiveColumns.Pairwise (· ≤ ·) ∧
      report.additiveColumns.Perm ((columns.filter fun column => !isRequired column.name).map ColumnSchema.name)

variable {scalarTimestamps} {columns : List ColumnSchema}

theorem accepted_iff : Accepted columns ↔ ¬ BreaksRule columns := by
  constructor
  · intro h
    obtain ⟨report, h⟩ := h
    exact not_breaksRule_of_ok h
  · intro hb
    exact ⟨_, validate_ok hb⟩

theorem BreaksRule.perm {columns' : List ColumnSchema} (hp : columns'.Perm columns) (h : BreaksRule columns) :
    BreaksRule columns' := by
  cases h with
  | repeated h => exact .repeated fun hn => h ((hp.map _).nodup_iff.mp hn)
  | missing hname h => exact .missing hname fun column hcolumn => h column (hp.mem_iff.mp hcolumn)
  | mistyped hcolumn hmem h => exact .mistyped (hp.mem_iff.mpr hcolumn) hmem h
  | notNullable hcolumn hother h => exact .notNullable (hp.mem_iff.mpr hcolumn) hother h

/-- What the code accepts as a type, and for a timestamp that it is scalar. -/
theorem contractTypes_iff (hscalar : ∀ text ∈ scalarTimestamps, "TIMESTAMP".toList <+: text)
    (expected : LogicalType)
    (actual : String) : normalType actual ∈ contractTypes scalarTimestamps expected ↔
      expected.accepts actual = true ∧ (expected = .timestamp → normalType actual ∈ scalarTimestamps) := by
  cases expected with
  | timestamp =>
    simp only [contractTypes, LogicalType.accepts, List.isPrefixOf_iff_prefix, true_imp_iff]
    exact ⟨fun h => ⟨hscalar _ h, h⟩, And.right⟩
  | string => simp [contractTypes, LogicalType.accepts]
  | int64 => simp [contractTypes, LogicalType.accepts]
  | float64 => simp [contractTypes, LogicalType.accepts]

theorem contract_iff (hscalar : ∀ text ∈ scalarTimestamps, "TIMESTAMP".toList <+: text) :
    Contract scalarTimestamps columns ↔ ¬ BreaksRule columns ∧ TimestampsScalar scalarTimestamps columns := by
  rw [not_breaksRule_iff]
  constructor
  · intro h
    refine ⟨⟨h.distinct, fun name expected hmem => ?_, h.additive⟩, fun column hcolumn hmem _ => ?_⟩
    · obtain ⟨column, hcolumn, hname, htype⟩ := h.required name expected hmem
      exact ⟨column, hcolumn, hname, ((contractTypes_iff hscalar _ _).mp htype).1⟩
    · obtain ⟨found, hfound, hname, htype⟩ := h.required _ _ hmem
      rwa [List.inj_on_of_nodup_map h.distinct hfound hcolumn hname] at htype
  · intro h
    obtain ⟨⟨hdistinct, hrequired, hadditive⟩, hts⟩ := h
    refine ⟨hdistinct, fun name expected hmem => ?_, hadditive⟩
    obtain ⟨column, hcolumn, rfl, haccepts⟩ := hrequired name expected hmem
    refine ⟨column, hcolumn, rfl, (contractTypes_iff hscalar _ _).mpr ⟨haccepts, ?_⟩⟩
    intro htimestamp
    subst htimestamp
    exact hts column hcolumn hmem haccepts

/-- The validation meets the contract on exactly the lists that break another of its
rules or whose timestamp columns have scalar types when these begin with `TIMESTAMP`. -/
theorem schema_meets_contract_iff (hscalar : ∀ text ∈ scalarTimestamps, "TIMESTAMP".toList <+: text)
    (columns : List ColumnSchema) : MeetsContract scalarTimestamps columns ↔
      TimestampsScalar scalarTimestamps columns ∨ BreaksRule columns := by
  constructor
  · intro h
    by_cases hb : BreaksRule columns
    · exact Or.inr hb
    · exact Or.inl ((contract_iff hscalar).mp (h.exact.mp (accepted_iff.mpr hb))).2
  · intro h
    refine ⟨?_, fun columns' hp => ?_, fun report hreport => ?_⟩
    · rw [accepted_iff, contract_iff hscalar]
      exact ⟨fun hb => ⟨hb, h.resolve_right hb⟩, And.left⟩
    · rw [accepted_iff, accepted_iff]
      exact not_congr ⟨fun hb => hb.perm hp.symm, fun hb => hb.perm hp⟩
    · have hb : ¬ BreaksRule columns := accepted_iff.mp ⟨report, hreport⟩
      rw [validate_ok hb] at hreport
      cases hreport
      exact ⟨orderBy_pairwise _ _, orderBy_perm _ _⟩

end

/-- The scalar timestamp types by their names in DuckDB. -/
def duckdbTimestamps : List (List Char) :=
  ["TIMESTAMP".toList, "TIMESTAMP_S".toList, "TIMESTAMP_MS".toList, "TIMESTAMP_NS".toList,
    "TIMESTAMP WITH TIME ZONE".toList]

def columnsWith (timestampType : String) : List ColumnSchema :=
  [⟨"run_id", "VARCHAR", false⟩, ⟨"metric_key", "VARCHAR", false⟩, ⟨"metric_key_encoded", "VARCHAR", false⟩,
    ⟨"step", "BIGINT", false⟩, ⟨"timestamp", timestampType, false⟩, ⟨"value_f64", "DOUBLE", false⟩,
    ⟨"ingested_at", "TIMESTAMP", false⟩, ⟨"worker_name", "VARCHAR", true⟩]

theorem schema_meets_contract_iff_zoned :
    MeetsContract duckdbTimestamps (columnsWith " timestamp with time zone") := by
  have hscalar : ∀ text ∈ duckdbTimestamps, "TIMESTAMP".toList <+: text := by decide +kernel
  have hcolumns : TimestampsScalar duckdbTimestamps (columnsWith " timestamp with time zone") := by
    unfold TimestampsScalar
    decide +kernel
  exact (schema_meets_contract_iff hscalar _).mpr (Or.inl hcolumns)

/-- A list of timestamps is accepted as a timestamp. -/
theorem nested_timestamp_accepted : Accepted (columnsWith "TIMESTAMP[]") ∧
    ¬ MeetsContract duckdbTimestamps (columnsWith "TIMESTAMP[]") := by
  have hdistinct : ((columnsWith "TIMESTAMP[]").map ColumnSchema.name).Nodup := by decide +kernel
  have hrequired : ∀ required ∈ requiredColumns, ∃ column ∈ columnsWith "TIMESTAMP[]",
      column.name = required.1 ∧ required.2.accepts column.dataType = true := by decide +kernel
  have hnullable : ∀ column ∈ columnsWith "TIMESTAMP[]", isRequired column.name = false →
    column.nullable = true := by
    decide +kernel
  have haccepted : Accepted (columnsWith "TIMESTAMP[]") :=
    accepted_iff.mpr (not_breaksRule_iff.mpr ⟨hdistinct, fun _ _ hmem => hrequired _ hmem, hnullable⟩)
  have hscalar : ¬ ∃ column ∈ columnsWith "TIMESTAMP[]", column.name = "timestamp" ∧
      normalType column.dataType ∈ duckdbTimestamps := by decide +kernel
  refine ⟨haccepted, fun h => hscalar ?_⟩
  exact (h.exact.mp haccepted).required "timestamp" .timestamp (by decide +kernel)

end Pulseon
