import Pulseon.Model
import Pulseon.Window

/-!
# The metric_points table and its effective series

`metric_points` is the list of its rows in insertion order, so a row's position
is its `rowid`. A row is effective when it is ranked first among the rows of its
`(run_id, metric_key, step)` by `ingested_at` and then `rowid`, both descending.
-/

namespace Pulseon

/-- One accepted metric write prepared by the background worker. -/
structure MetricWrite where
  runId : RunId
  metricKey : MetricKey
  step : Int
  timestampMillis : Int
  valueF64 : F64
  ingestedAtMillis : Int
deriving DecidableEq, Repr

structure MetricPointRow where
  runId : RunId
  metricKey : MetricKey
  metricKeyEncoded : String
  step : Int
  timestamp : Int
  valueF64 : F64
  ingestedAt : Int
deriving DecidableEq, Repr

/-! ## Writing -/

def unreservedByte (byte : UInt8) : Bool :=
  let n := byte.toNat
  (65 ≤ n && n ≤ 90) || (97 ≤ n && n ≤ 122) || (48 ≤ n && n ≤ 57) ||
    n == 46 || n == 95 || n == 126 || n == 45

def upperHex (n : Nat) : Char :=
  if n < 10 then Char.ofNat (48 + n) else Char.ofNat (55 + n)

def encodeByte (byte : UInt8) : List Char :=
  if unreservedByte byte then [Char.ofNat byte.toNat]
  else ['%', upperHex (byte.toNat / 16), upperHex (byte.toNat % 16)]

def percentEncodeMetricKey (value : String) : String :=
  String.ofList (value.toUTF8.data.toList.flatMap encodeByte)

/-- The row `append_metric_batch` appends for a write. -/
def MetricWrite.row (w : MetricWrite) : MetricPointRow where
  runId := w.runId
  metricKey := w.metricKey
  metricKeyEncoded := percentEncodeMetricKey w.metricKey
  step := w.step
  timestamp := w.timestampMillis
  valueF64 := w.valueF64
  ingestedAt := w.ingestedAtMillis

/-! ## Reading -/

/-- What a row is a write of. -/
abbrev PointId := RunId × MetricKey × Int

def MetricPointRow.pointId (row : MetricPointRow) : PointId := (row.runId, row.metricKey, row.step)

/-- The rows meeting `p`, ranked over
`PARTITION BY run_id, metric_key, step ORDER BY ingested_at DESC, rowid DESC`,
and of these the ones with `write_rank = 1`. -/
def effectiveWhere (points : List MetricPointRow) (p : MetricPointRow → Bool) : List MetricPointRow :=
  (firstRanked (fun r => r.1.pointId) (newestFirst fun row : MetricPointRow => row.ingestedAt)
    (points.zipIdx.filter fun r => p r.1)).map Prod.fst

/-- The `WHERE` clause of `effective_cte`. -/
def effectiveClause (runId : RunId) (metricKey : MetricKey) (startStep endStep : Option Int)
    (row : MetricPointRow) : Bool :=
  row.runId == runId && row.metricKey == metricKey &&
    row.metricKeyEncoded == percentEncodeMetricKey metricKey &&
    startStep.all (fun s => decide (s ≤ row.step)) && endStep.all (fun e => decide (row.step < e))

def effectiveCte (points : List MetricPointRow) (runId : RunId) (metricKey : MetricKey)
    (startStep endStep : Option Int) : List MetricPointRow :=
  effectiveWhere points (effectiveClause runId metricKey startStep endStep)

/-- The row the effective query selects for a point. -/
def effectiveRow (points : List MetricPointRow) (id : PointId) : Option MetricPointRow :=
  (effectiveCte points id.1 id.2.1 none none).find? fun row => row.step == id.2.2

/-! ## What the effective query selects -/

def newestRow (points : List MetricPointRow) (id : PointId) : Option MetricPointRow :=
  newest (fun row : MetricPointRow => row.ingestedAt) (fun row => decide (row.pointId = id)) points

/-- Every row's encoded key is the encoding of its key. -/
def Encoded (points : List MetricPointRow) : Prop :=
  ∀ row ∈ points, row.metricKeyEncoded = percentEncodeMetricKey row.metricKey

theorem encoded_append {l m : List MetricPointRow} : Encoded (l ++ m) ↔ Encoded l ∧ Encoded m := by
  unfold Encoded
  simp only [List.mem_append]
  exact ⟨fun h => ⟨fun r hr => h r (Or.inl hr), fun r hr => h r (Or.inr hr)⟩,
    fun h r hr => hr.elim (h.1 r) (h.2 r)⟩

theorem encoded_writes (ws : List MetricWrite) : Encoded (ws.map MetricWrite.row) := by
  intro row hrow
  obtain ⟨w, -, rfl⟩ := List.mem_map.mp hrow
  rfl

/-- A filter on what identifies a point selects among the newest rows. -/
theorem mem_effectiveWhere {points : List MetricPointRow} {p : MetricPointRow → Bool}
    (hp : ∀ x ∈ points, ∀ y ∈ points, x.pointId = y.pointId → p x = p y) {row : MetricPointRow} :
    row ∈ effectiveWhere points p ↔ p row = true ∧ newestRow points row.pointId = some row := by
  let q : MetricPointRow → Bool := fun x => decide (∃ y ∈ points, y.pointId = x.pointId ∧ p y = true)
  have hq : ∀ x ∈ points, p x = q x := by
    intro x hx
    by_cases h : p x = true
    · have : ∃ y ∈ points, y.pointId = x.pointId ∧ p y = true := ⟨x, hx, rfl, h⟩
      simp only [q, this, decide_true, h]
    · have : ¬ ∃ y ∈ points, y.pointId = x.pointId ∧ p y = true := by
        rintro ⟨y, hy, hid, hpy⟩
        exact h ((hp x hx y hy hid.symm).trans hpy)
      simp only [q, this, decide_false]
      simpa using h
  have hfil : points.zipIdx.filter (fun r => p r.1) = points.zipIdx.filter fun r => q r.1 := by
    apply List.filter_congr
    rintro ⟨x, i⟩ hx
    exact hq x (List.mem_of_getElem? (by simpa using List.mem_zipIdx_iff_getElem?.mp hx))
  have hcomm := firstRanked_filter (fun r : MetricPointRow × Nat => r.1.pointId)
    (newestFirst fun row : MetricPointRow => row.ingestedAt) (fun r => q r.1)
    (fun x y h => by simp only [q, h]) points.zipIdx
  unfold effectiveWhere
  rw [hfil, hcomm]
  constructor
  · intro h
    obtain ⟨⟨x, i⟩, hx, rfl⟩ := List.mem_map.mp h
    obtain ⟨hr, hqr⟩ := List.mem_filter.mp hx
    have hmem : x ∈ points :=
      List.mem_of_getElem? (by simpa using List.mem_zipIdx_iff_getElem?.mp ((mem_firstRanked _ _).mp hr).1)
    exact ⟨(hq x hmem).trans hqr, mem_firstRanked_zipIdx MetricPointRow.pointId _ hr rfl⟩
  · rintro ⟨hpr, hn⟩
    obtain ⟨-, i, hi⟩ := exists_firstRanked_zipIdx MetricPointRow.pointId _ hn
    have hmem : row ∈ points :=
      List.mem_of_getElem? (by simpa using List.mem_zipIdx_iff_getElem?.mp ((mem_firstRanked _ _).mp hi).1)
    exact List.mem_map.mpr ⟨(row, i), List.mem_filter.mpr ⟨hi, (hq row hmem).symm.trans hpr⟩, rfl⟩

theorem newestRow_pointId {points : List MetricPointRow} {id : PointId} {row : MetricPointRow}
    (h : newestRow points id = some row) : row ∈ points ∧ row.pointId = id := by
  obtain ⟨i, hi, hq, -⟩ := newest_spec _ h
  exact ⟨List.mem_of_getElem? hi, by simpa using hq⟩

theorem effectiveRow_eq {points : List MetricPointRow} (he : Encoded points) (id : PointId) :
    effectiveRow points id = newestRow points id := by
  have hclause : ∀ row ∈ points, effectiveClause id.1 id.2.1 none none row =
      (row.runId == id.1 && row.metricKey == id.2.1) := by
    intro row hrow
    unfold effectiveClause
    rw [he row hrow]
    by_cases hk : row.metricKey = id.2.1
    · simp [hk]
    · simp [hk]
  have hmem : ∀ row, row ∈ effectiveCte points id.1 id.2.1 none none ↔
      (row.runId = id.1 ∧ row.metricKey = id.2.1) ∧ newestRow points row.pointId = some row := by
    intro row
    unfold effectiveCte
    rw [mem_effectiveWhere]
    · constructor
      · rintro ⟨hc, hn⟩
        rw [hclause row (newestRow_pointId hn).1] at hc
        exact ⟨by simpa using hc, hn⟩
      · rintro ⟨hc, hn⟩
        rw [hclause row (newestRow_pointId hn).1]
        exact ⟨by simpa using hc, hn⟩
    · intro x hx y hy hid
      rw [hclause x hx, hclause y hy]
      simp only [MetricPointRow.pointId, Prod.mk.injEq] at hid
      rw [hid.1, hid.2.1]
  unfold effectiveRow
  cases hf : (effectiveCte points id.1 id.2.1 none none).find? (fun row => row.step == id.2.2) with
  | none =>
    cases hn : newestRow points id with
    | none => rfl
    | some row =>
      obtain ⟨-, hid⟩ := newestRow_pointId hn
      have hrow : row ∈ effectiveCte points id.1 id.2.1 none none := by
        rw [hmem, hid]
        exact ⟨by rw [← hid]; exact ⟨rfl, rfl⟩, hn⟩
      have := List.find?_eq_none.mp hf row hrow
      rw [← hid] at this
      simp [MetricPointRow.pointId] at this
  | some row =>
    obtain ⟨⟨hr, hk⟩, hn⟩ := (hmem row).mp (List.mem_of_find?_eq_some hf)
    have hs : row.step = id.2.2 := by simpa using List.find?_some hf
    have hid : row.pointId = id := by
      unfold MetricPointRow.pointId
      rw [hr, hk, hs]
    rw [← hid]; exact hn.symm

end Pulseon
