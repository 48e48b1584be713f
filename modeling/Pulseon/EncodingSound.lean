import Pulseon.Percent
import Pulseon.QuerySound
import Pulseon.World

/-!
# Encoded keys

The encoding of a key decodes to the key's bytes and is made of unreserved
characters and complete triples. Distinct runs therefore lock distinct files, and
rows whose encoded key was computed from their key meet the filter on it whenever
they meet the filter on the key.
-/

namespace Pulseon

/-! ## Bytes -/

theorem hexValue_upperHex {n : Nat} (hn : n < 16) :
    hexValue (upperHex n) = some n ∧ upperHexDigit (upperHex n) = true := by
  have hall : ∀ n < 16, hexValue (upperHex n) = some n ∧ upperHexDigit (upperHex n) = true := by decide
  exact hall n hn

/-- The characters that the encoding keeps are the unreserved ones. -/
theorem kept_unreserved {byte : UInt8} (h : unreservedByte byte = true) :
    unreserved (Char.ofNat byte.toNat) = true ∧
    Char.ofNat byte.toNat ≠ '%' ∧ (Char.ofNat byte.toNat).toNat = byte.toNat ∧ byte.toNat < 128 := by
  have hall : ∀ n < 256, unreservedByte (UInt8.ofNat n) = true → unreserved (Char.ofNat n) = true ∧
      Char.ofNat n ≠ '%' ∧ (Char.ofNat n).toNat = n ∧ n < 128 := by decide +kernel
  refine hall byte.toNat byte.toNat_lt ?_
  rw [UInt8.ofNat_toNat]
  exact h

theorem percentDecode_encodeByte (byte : UInt8) (rest : List Char) :
    percentDecode (encodeByte byte ++ rest) = byte :: percentDecode rest := by
  unfold encodeByte
  split
  · rename_i h
    obtain ⟨-, hne, htoNat, hlt⟩ := kept_unreserved h
    have hascii : (Char.ofNat byte.toNat).toNat < 128 := htoNat.symm ▸ hlt
    rw [List.singleton_append, percentDecode_plain hne hascii, htoNat, UInt8.ofNat_toNat]
  · have hbyte := byte.toNat_lt
    have hhigh := (hexValue_upperHex (show byte.toNat / 16 < 16 by omega)).1
    have hlow := (hexValue_upperHex (show byte.toNat % 16 < 16 by omega)).1
    have hsum : 16 * (byte.toNat / 16) + byte.toNat % 16 = byte.toNat := Nat.div_add_mod _ _
    rw [List.cons_append, List.cons_append, List.cons_append, List.nil_append,
      percentDecode_triple hhigh hlow, hsum,
      UInt8.ofNat_toNat]

theorem encodeByte_form (byte : UInt8) : PercentForm (encodeByte byte) := by
  unfold encodeByte
  split
  · rename_i h
    exact .plain (kept_unreserved h).1 .nil
  · have hbyte := byte.toNat_lt
    exact .triple (hexValue_upperHex (by omega)).2 (hexValue_upperHex (by omega)).2 .nil

theorem percentDecode_bytes (bytes : List UInt8) : percentDecode (bytes.flatMap encodeByte) = bytes := by
  induction bytes with
  | nil => rfl
  | cons byte bytes ih => rw [List.flatMap_cons, percentDecode_encodeByte, ih]

theorem bytes_form (bytes : List UInt8) : PercentForm (bytes.flatMap encodeByte) := by
  induction bytes with
  | nil => exact .nil
  | cons byte bytes ih =>
    rw [List.flatMap_cons]
    exact (encodeByte_form byte).append ih

/-! ## Keys -/

theorem percentDecode_key (s : String) :
    percentDecode (percentEncodeMetricKey s).toList = s.toUTF8.data.toList := by
  rw [percentEncodeMetricKey, String.toList_ofList, percentDecode_bytes]

theorem percentEncodeMetricKey_injective : Function.Injective percentEncodeMetricKey := by
  intro s t h
  have hbytes : s.toUTF8.data.toList = t.toUTF8.data.toList := by rw [← percentDecode_key, h, percentDecode_key]
  rw [← String.toByteArray_inj]
  exact ByteArray.ext (Array.toList_inj.mp hbytes)

theorem key_form (s : String) : PercentForm (percentEncodeMetricKey s).toList := by
  rw [percentEncodeMetricKey, String.toList_ofList]
  exact bytes_form _

def pathSeparator (c : Char) : Bool := c == '/' || c == '\\'

theorem no_separator {text : List Char} (h : PercentForm text) {c : Char} (hc : c ∈ text) :
    pathSeparator c = false := by
  rw [Bool.eq_false_iff]
  intro hsep
  have hcases : c = '/' ∨ c = '\\' := by simpa [pathSeparator] using hsep
  rcases hcases with rfl | rfl
  · exact absurd (h.chars hc) (by decide)
  · exact absurd (h.chars hc) (by decide)

theorem lockFile_injective : Function.Injective lockFile := by
  intro r r' h
  apply percentEncodeMetricKey_injective
  rw [lockFile, lockFile, ← String.toList_inj, String.toList_append, String.toList_append] at h
  exact String.toList_inj.mp (List.append_cancel_right h)

theorem lockFile_separator (r : RunId) {c : Char} (hc : c ∈ (lockFile r).toList) : pathSeparator c = false := by
  rw [lockFile, String.toList_append, List.mem_append] at hc
  rcases hc with hc | hc
  · exact no_separator (key_form r) hc
  · have hall : ".lock".toList.all (fun c => !pathSeparator c) = true := by decide +kernel
    simpa using List.all_eq_true.mp hall c hc

/-! ## The filter on the encoded key -/

/-- The `WHERE` clause of `effective_cte` without `metric_key_encoded = ?`. -/
def keyClause (runId : RunId) (metricKey : MetricKey) (startStep endStep : Option Int) (row : MetricPointRow) :
    Bool :=
  row.runId == runId && row.metricKey == metricKey &&
    startStep.all (fun s => decide (s ≤ row.step)) && endStep.all (fun e => decide (row.step < e))

/-- Every row is one that `append_metric_batch` appends for a write. -/
def Appended (points : List MetricPointRow) : Prop := ∀ row ∈ points, ∃ write : MetricWrite, row = write.row

theorem effectiveClause_eq (runId : RunId) (metricKey : MetricKey) (startStep endStep : Option Int)
    (row : MetricPointRow) : effectiveClause runId metricKey startStep endStep row =
      (keyClause runId metricKey startStep endStep row &&
        row.metricKeyEncoded == percentEncodeMetricKey metricKey) := by
  unfold effectiveClause keyClause
  cases row.metricKeyEncoded == percentEncodeMetricKey metricKey <;> simp

theorem effectiveClause_appended (write : MetricWrite) (runId : RunId) (metricKey : MetricKey)
    (startStep endStep : Option Int) :
    effectiveClause runId metricKey startStep endStep write.row =
      keyClause runId metricKey startStep endStep write.row := by
  rw [effectiveClause_eq]
  by_cases hkey : write.row.metricKey = metricKey
  · have hencoded : write.row.metricKeyEncoded = percentEncodeMetricKey metricKey := by rw [← hkey]; rfl
    rw [hencoded, beq_self_eq_true, Bool.and_true]
  · have hfalse : keyClause runId metricKey startStep endStep write.row = false := by
      simp [keyClause, hkey]
    rw [hfalse, Bool.false_and]

theorem effective_congr {source : MetricSource} {p q : MetricPointRow → Bool}
    (h : ∀ row ∈ source.points, p row = q row) :
    source.effective p = source.effective q := by
  obtain ⟨ι, _, relation, -, hpoints, heff, -⟩ := source_relation source
  rw [heff, heff, effectiveOf, effectiveOf]
  have hfilter : (relation.filter fun r => p r.1) = relation.filter fun r => q r.1 :=
    List.filter_congr fun r hr => h r.1 (hpoints ▸ List.mem_map.mpr ⟨r, hr, rfl⟩)
  rw [hfilter]

/-- Keys decode to their bytes, runs lock distinct files, and the filter on the
encoded key drops no row of a table that `append_metric_batch` wrote. -/
theorem metric_key_encoding_lossless :
    (∀ s, percentDecode (percentEncodeMetricKey s).toList = s.toUTF8.data.toList) ∧
    Function.Injective percentEncodeMetricKey ∧
    (∀ s, PercentForm (percentEncodeMetricKey s).toList ∧
      ∀ c ∈ (percentEncodeMetricKey s).toList, pathSeparator c = false) ∧
    Function.Injective lockFile ∧ (∀ r, ∀ c ∈ (lockFile r).toList, pathSeparator c = false) ∧
    ∀ (source : MetricSource) (query : MetricQuery), Appended source.points →
      source.effectiveRows query =
        source.effective (keyClause query.runId query.metricKey query.startStep query.endStep) := by
  refine ⟨percentDecode_key, percentEncodeMetricKey_injective, fun s =>
    ⟨key_form s, fun c => no_separator (key_form s)⟩,
    lockFile_injective, fun r c => lockFile_separator r, fun source query hw => ?_⟩
  refine effective_congr fun row hrow => ?_
  obtain ⟨write, rfl⟩ := hw row hrow
  exact effectiveClause_appended write ..

def slashWrite : MetricWrite := ⟨"r", "train%/loss", 1, 0, ⟨5⟩, 0⟩

theorem metric_key_encoding_lossless_slash : (MetricSource.project [slashWrite.row]).effectiveRows
    ⟨"r", "train%/loss", none, none, .full⟩ =
      (MetricSource.project [slashWrite.row]).effective (keyClause "r" "train%/loss" none none) := by
  have hw : Appended (MetricSource.project [slashWrite.row]).points := by
    intro row hrow
    exact ⟨slashWrite, List.mem_singleton.mp hrow⟩
  exact metric_key_encoding_lossless.2.2.2.2.2 _ _ hw

end Pulseon
