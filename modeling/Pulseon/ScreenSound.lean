import Mathlib.Data.List.Count
import Pulseon.QuerySound

/-!
# Screen reduction

The rows of a series fall into at most as many buckets as are asked for, and a
screen query keeps at most four rows of each: a filter of the full result, no
longer than the budget, with a first, a last, a least and a greatest row.
-/

namespace Pulseon

/-! ## Buckets -/

section
variable {β : Type*} {step : β → Int} {rows : List β}

theorem ordinal_lt {x : β} (hx : x ∈ rows) : ordinal step rows x < rows.length := by
  unfold ordinal rowNumber
  rw [Nat.add_sub_cancel, List.countP_lt_length_iff]
  exact ⟨x, hx, by simp [ordered]⟩

theorem bucket_lt {bucketCount : Nat} (hb : 0 < bucketCount) {x : β} (hx : x ∈ rows) :
    bucket step bucketCount rows x < bucketCount := by
  unfold bucket
  apply Nat.div_lt_of_lt_mul
  exact Nat.mul_lt_mul_of_pos_right (ordinal_lt hx) hb

theorem length_selectFirst_bucket (orders : List (β → β → Bool)) {bucketCount : Nat} (hb : 0 < bucketCount)
    (hn : rows.Nodup)
    (htotal : ∀ before ∈ orders, ∀ x ∈ rows, ∀ y ∈ rows, x ≠ y → before x y = true ∨ before y x = true) :
    (selectFirst (bucket step bucketCount rows) orders rows).length ≤ orders.length * bucketCount := by
  have hparts : ∀ x ∈ rows, bucket step bucketCount rows x ∈ List.range bucketCount :=
    fun x hx => List.mem_range.mpr (bucket_lt hb hx)
  have h := length_selectFirst_le (bucket step bucketCount rows) orders hn hparts htotal
  rwa [List.length_range] at h

end

/-- Rows that a key tells apart are ordered by it one way or the other. -/
theorem ordered_total {β κ : Type*} [LinearOrder κ] {key : β → κ} {x y : β} (h : key x ≠ key y) :
    ordered key x y = true ∨ ordered key y x = true := by
  unfold ordered
  simpa using lt_or_gt_of_ne h

theorem bucketCount_pos (maxPoints : Nat) : 0 < max (maxPoints / extremaPerBucket) 1 := by omega

theorem bucketCount_le {maxPoints : Nat} (h : extremaPerBucket ≤ maxPoints) :
    4 * max (maxPoints / extremaPerBucket) 1 ≤ maxPoints := by
  unfold extremaPerBucket at *
  omega

theorem le_screenPoints (pixelWidth : UInt32) (pointsPerPixel : UInt16) :
    extremaPerBucket ≤ screenPoints pixelWidth pointsPerPixel := Nat.le_max_left ..

theorem screenPoints_lt (pixelWidth : UInt32) (pointsPerPixel : UInt16) :
    screenPoints pixelWidth pointsPerPixel < 2 ^ 63 := by
  unfold screenPoints extremaPerBucket maxScreenQueryPoints
  omega

/-! ## Values back from a sort -/

theorem F64.key_fromSortKey (x : F64) : x.fromSortKey.key = x.key := by
  unfold F64.fromSortKey
  by_cases hn : x.isNan = true
  · rw [if_pos hn]
    simp only [F64.key, hn, ite_true]
    decide
  · rw [if_neg hn]
    by_cases hz : x.magnitude = 0
    · rw [if_pos hz]
      have hzero : x.key = 0 := by simp [F64.key, hn, hz]
      rw [hzero]
      decide
    · rw [if_neg hz]

/-- The points differ at most in the bits of values that sort alike. -/
structure MetricPoint.Same (p q : MetricPoint) : Prop where
  runId : p.runId = q.runId
  metricKey : p.metricKey = q.metricKey
  step : p.step = q.step
  timestamp : p.timestamp = q.timestamp
  valueF64 : p.valueF64.key = q.valueF64.key
  ingestedAt : p.ingestedAt = q.ingestedAt

theorem MetricPoint.Same.refl (p : MetricPoint) : p.Same p := ⟨rfl, rfl, rfl, rfl, rfl, rfl⟩

theorem fromSortKey_same (row : MetricPointRow) : row.fromSortKey.point.Same row.point :=
  ⟨rfl, rfl, rfl, rfl, row.valueF64.key_fromSortKey, rfl⟩

/-! ## Shape -/

/-- `kept` has a first, a last, a least and a greatest element, each the same as one of the series. -/
structure KeepsShape {α κ : Type*} [LinearOrder κ] (same : α → α → Prop) (axis : α → κ) (value : α → F64)
    (series kept : List α) : Prop where
  first : ∃ x ∈ kept, (∃ z ∈ series, same x z) ∧ ∀ y ∈ series, axis x ≤ axis y
  last : ∃ x ∈ kept, (∃ z ∈ series, same x z) ∧ ∀ y ∈ series, axis y ≤ axis x
  least : ∃ x ∈ kept, (∃ z ∈ series, same x z) ∧ ∀ y ∈ series, (value x).key ≤ (value y).key
  greatest : ∃ x ∈ kept, (∃ z ∈ series, same x z) ∧ ∀ y ∈ series, (value y).key ≤ (value x).key

section
variable {α β κ : Type*} [LinearOrder κ] {same : α → α → Prop} {axis : α → κ} {value : α → F64}
    {series kept : List α}

theorem KeepsShape.mono (h : KeepsShape same axis value series kept) {more : List α} (hm : ∀ x ∈ kept, x ∈ more) :
    KeepsShape same axis value series more where
  first := h.first.imp fun x hx => ⟨hm x hx.1, hx.2⟩
  last := h.last.imp fun x hx => ⟨hm x hx.1, hx.2⟩
  least := h.least.imp fun x hx => ⟨hm x hx.1, hx.2⟩
  greatest := h.greatest.imp fun x hx => ⟨hm x hx.1, hx.2⟩

theorem KeepsShape.reorder (h : KeepsShape same axis value series kept) {rest : List α}
    (hr : ∀ x, x ∈ rest ↔ x ∈ series) : KeepsShape same axis value rest kept := by
  have hsame : ∀ {x : α} {p : α → Prop}, (∃ z ∈ series, same x z) ∧ (∀ y ∈ series, p y) →
      (∃ z ∈ rest, same x z) ∧ ∀ y ∈ rest, p y := fun h =>
    ⟨h.1.imp fun z hz => ⟨(hr z).mpr hz.1, hz.2⟩, fun y hy => h.2 y ((hr y).mp hy)⟩
  constructor
  · exact h.first.imp fun x hx => ⟨hx.1, hsame hx.2⟩
  · exact h.last.imp fun x hx => ⟨hx.1, hsame hx.2⟩
  · exact h.least.imp fun x hx => ⟨hx.1, hsame hx.2⟩
  · exact h.greatest.imp fun x hx => ⟨hx.1, hsame hx.2⟩

/-- What is kept may come back changed, as long as it is the same. -/
theorem KeepsShape.map (h : KeepsShape Eq axis value series kept) (f g : α → β) {same' : β → β → Prop}
    {axis' : β → κ} {value' : β → F64} (hs : ∀ x, same' (g x) (f x)) (hf : ∀ x, axis' (f x) = axis x)
    (hg : ∀ x, axis' (g x) = axis x) (hfv : ∀ x, (value' (f x)).key = (value x).key)
    (hgv : ∀ x, (value' (g x)).key = (value x).key) :
    KeepsShape same' axis' value' (series.map f) (kept.map g) := by
  have hmap : ∀ {p : α → α → Prop} {q : β → β → Prop}, (∀ x y, p x y → q (g x) (f y)) →
      (∃ x ∈ kept, (∃ z ∈ series, x = z) ∧ ∀ y ∈ series, p x y) →
        ∃ x ∈ kept.map g, (∃ z ∈ series.map f, same' x z) ∧ ∀ y ∈ series.map f, q x y := by
    rintro p q hpq ⟨x, hk, ⟨z, hz, rfl⟩, hall⟩
    refine ⟨g x, List.mem_map_of_mem hk, ⟨f x, List.mem_map_of_mem hz, hs x⟩, ?_⟩
    simp only [List.mem_map, forall_exists_index, and_imp, forall_apply_eq_imp_iff₂]
    exact fun y hy => hpq x y (hall y hy)
  constructor
  · exact hmap (fun x y hxy => by rw [hg, hf]; exact hxy) h.first
  · exact hmap (fun x y hxy => by rw [hg, hf]; exact hxy) h.last
  · exact hmap (fun x y hxy => by rw [hgv, hfv]; exact hxy) h.least
  · exact hmap (fun x y hxy => by rw [hgv, hfv]; exact hxy) h.greatest

/-- Orders that refine the axis, its reverse, the value and its reverse keep the shape. -/
theorem KeepsShape.of_orders {ρ : Type*} [DecidableEq ρ] (part : α → ρ) {orders : List (α → α → Bool)} {τ σ : Type*}
    [LinearOrder τ] [LinearOrder σ] (first last : α → τ) (least greatest : α → σ) (hf : ordered first ∈ orders)
    (hl : ordered last ∈ orders) (hleast : ordered least ∈ orders) (hgreatest : ordered greatest ∈ orders)
    (first_le : ∀ x y, first x ≤ first y → axis x ≤ axis y) (last_le : ∀ x y, last x ≤ last y → axis y ≤ axis x)
    (least_le : ∀ x y, least x ≤ least y → (value x).key ≤ (value y).key)
    (greatest_le : ∀ x y, greatest x ≤ greatest y → (value y).key ≤ (value x).key) (h : series ≠ []) :
    KeepsShape Eq axis value series (selectFirst part orders series) := by
  constructor
  · obtain ⟨x, hx, hs, hle⟩ := selectFirst_least part orders hf h
    exact ⟨x, hx, ⟨x, hs, rfl⟩, fun y hy => first_le x y (hle y hy)⟩
  · obtain ⟨x, hx, hs, hle⟩ := selectFirst_least part orders hl h
    exact ⟨x, hx, ⟨x, hs, rfl⟩, fun y hy => last_le x y (hle y hy)⟩
  · obtain ⟨x, hx, hs, hle⟩ := selectFirst_least part orders hleast h
    exact ⟨x, hx, ⟨x, hs, rfl⟩, fun y hy => least_le x y (hle y hy)⟩
  · obtain ⟨x, hx, hs, hle⟩ := selectFirst_least part orders hgreatest h
    exact ⟨x, hx, ⟨x, hs, rfl⟩, fun y hy => greatest_le x y (hle y hy)⟩

end

theorem fst_le_of_toLex_le {κ τ : Type*} [LinearOrder κ] [LinearOrder τ] {a b : κ} {s t : τ}
    (h : toLex (a, s) ≤ toLex (b, t)) : a ≤ b := by
  rcases Prod.Lex.toLex_le_toLex.mp h with h | ⟨h, -⟩
  · exact le_of_lt h
  · exact le_of_eq h

/-! ## Reading the rows -/

section
variable {accepts : Int → Bool}

theorem intoMetricPoint_ok_iff {row : MetricPointRow} {p : MetricPoint} :
    intoMetricPoint accepts row = .ok p ↔ Representable accepts row ∧ p = row.point := by
  by_cases h : Representable accepts row
  · rw [intoMetricPoint_ok h]
    simp [h, eq_comm]
  · simp only [h, false_and, iff_false]
    intro e
    unfold Representable at h
    by_cases ht : accepts row.timestamp = true
    · by_cases hi : accepts row.ingestedAt = true
      · exact h ⟨ht, hi⟩
      · simp [intoMetricPoint, timestampFromMillis, ht, hi, bind, Except.bind] at e
    · simp [intoMetricPoint, timestampFromMillis, ht, bind, Except.bind] at e

theorem readRows_representable {rows : List (MetricPointRow × Nat)} {reading result : MetricQueryResult}
    (h : readRows accepts rows reading = .ok result) : ∀ r ∈ rows, Representable accepts r.1 := by
  induction rows generalizing reading with
  | nil => simp
  | cons r rows ih =>
    obtain ⟨row, count⟩ := r
    simp only [readRows, bind, Except.bind] at h
    cases hp : intoMetricPoint accepts row with
    | error e => rw [hp] at h; cases h
    | ok p =>
      rw [hp] at h
      exact List.forall_mem_cons.mpr ⟨(intoMetricPoint_ok_iff.mp hp).1, ih h⟩

theorem executeQuery_ok_iff {rows : List MetricPointRow} {count : Nat} (hc : rows = [] → count = 0)
    {result : MetricQueryResult} : executeQuery accepts (countedRows count rows) = .ok result ↔
      (∀ row ∈ rows, Representable accepts row) ∧
        result = ⟨(orderBy (fun row => row.step) rows).map MetricPointRow.point, count⟩ := by
  constructor
  · intro h
    have hr : ∀ row ∈ rows, Representable accepts row := by
      intro row hrow
      refine readRows_representable h (row, count) ?_
      unfold countedRows
      exact List.mem_map.mpr ⟨row, (mem_orderBy _).mpr hrow, rfl⟩
    rw [executeQuery_ok hr hc] at h
    cases h
    exact ⟨hr, rfl⟩
  · intro h
    rw [executeQuery_ok h.1 hc, h.2]

end

/-! ## Screen queries -/

section
variable {source : MetricSource} {query : MetricQuery}

theorem effectiveRows_nodup (source : MetricSource) (query : MetricQuery) : (source.effectiveRows query).Nodup :=
  List.Nodup.of_map _ (effectiveRows_steps source query)

theorem screenOrders_total {rows : List MetricPointRow} (hn : (rows.map fun row => row.step).Nodup) :
    ∀ before ∈ screenOrders, ∀ x ∈ rows, ∀ y ∈ rows, x ≠ y → before x y = true ∨ before y x = true := by
  intro before hb x hx y hy hxy
  have hs : x.step ≠ y.step := fun e => hxy (List.inj_on_of_nodup_map hn hx hy e)
  simp only [screenOrders, List.mem_cons, List.not_mem_nil, or_false] at hb
  rcases hb with rfl | rfl | rfl | rfl
  · exact ordered_total hs
  · exact ordered_total fun e => hs (neg_injective e)
  · exact ordered_total fun e => hs (Prod.mk.inj (toLex.injective e)).2
  · exact ordered_total fun e => hs (Prod.mk.inj (toLex.injective e)).2

theorem screen_keepsShape {rows : List MetricPointRow} (part : MetricPointRow → Nat) (h : rows ≠ []) :
    KeepsShape Eq (fun row : MetricPointRow => row.step) (fun row => row.valueF64) rows
      (selectFirst part screenOrders rows) := by
  apply KeepsShape.of_orders part (fun row => row.step) (fun row => -row.step)
    (fun row => toLex (row.valueF64.key, row.step)) (fun row => toLex (-row.valueF64.key, row.step))
  all_goals first | exact h | skip
  · simp [screenOrders]
  · simp [screenOrders]
  · simp [screenOrders]
  · simp [screenOrders]
  · exact fun x y hxy => hxy
  · exact fun x y hxy => Int.neg_le_neg_iff.mp hxy
  · exact fun x y hxy => fst_le_of_toLex_le hxy
  · exact fun x y hxy => Int.neg_le_neg_iff.mp (fst_le_of_toLex_le hxy)

def MetricSource.screenKept (source : MetricSource) (query : MetricQuery) (bucketCount : Nat) :
    List MetricPointRow :=
  selectFirst (bucket (fun row => row.step) bucketCount (source.effectiveRows query)) screenOrders
    (source.effectiveRows query)

theorem screenRows_eq (bucketCount : Nat) : screenRows source query bucketCount =
    countedRows (source.effectiveRows query).length
      ((source.screenKept query bucketCount).map MetricPointRow.fromSortKey) := rfl

theorem screenKept_eq_nil {bucketCount : Nat} (h : source.screenKept query bucketCount = []) :
    (source.effectiveRows query).length = 0 := by
  by_contra hne
  have hrows : source.effectiveRows query ≠ [] := fun e => hne (by rw [e]; rfl)
  obtain ⟨x, hx, -⟩ := (screen_keepsShape (bucket (fun row => row.step) bucketCount
    (source.effectiveRows query)) hrows).first
  unfold MetricSource.screenKept at h
  rw [h] at hx
  cases hx

theorem length_screenKept {bucketCount : Nat} (hb : 0 < bucketCount) :
    (source.screenKept query bucketCount).length ≤ 4 * bucketCount :=
  length_selectFirst_bucket screenOrders hb (effectiveRows_nodup source query)
    (screenOrders_total (effectiveRows_steps source query))

variable {accepts : Int → Bool} {extension : LttbExtension}

theorem queryMetric_full_ok (accepts : Int → Bool) (extension : LttbExtension) (source : MetricSource)
    (query : MetricQuery) (hid : query.Identified) (hfull : query.reduction = .full)
    (ha : ∀ row ∈ source.points, Representable accepts row) :
    queryMetric accepts extension source query =
      .ok ⟨(orderBy (fun row => row.step) (source.effectiveRows query)).map MetricPointRow.point,
        (source.effectiveRows query).length⟩ := by
  rw [queryMetric_full hid hfull, fullRows_ok ha]; rfl

theorem queryMetric_full_ok_iff {result : MetricQueryResult} (hfull : query.reduction = .full) :
    queryMetric accepts extension source query = .ok result ↔
      query.Identified ∧ (∀ row ∈ source.effectiveRows query, Representable accepts row) ∧
        result = ⟨(orderBy (fun row => row.step) (source.effectiveRows query)).map MetricPointRow.point,
          (source.effectiveRows query).length⟩ := by
  by_cases hid : query.Identified
  · rw [queryMetric_full hid hfull, fullRows, executeQuery_ok_iff fun h => by rw [h]; rfl]
    simp [hid]
  · simp only [hid, false_and, iff_false]
    intro h
    have hb : (blank query.runId || blank query.metricKey) = true := by
      by_contra hb
      simp only [Bool.not_eq_true, Bool.or_eq_false_iff] at hb
      exact hid hb
    simp [queryMetric, hb] at h

theorem queryMetric_screen (hid : query.Identified) (pixelWidth : UInt32) (pointsPerPixel : UInt16) :
    queryMetric accepts extension source { query with reduction := .screenBudget pixelWidth pointsPerPixel } =
      executeQuery accepts
        (screenRows source query (max (screenPoints pixelWidth pointsPerPixel / extremaPerBucket) 1)) := by
  have hb : max (screenPoints pixelWidth pointsPerPixel / extremaPerBucket) 1 < 2 ^ 63 := by
    have := screenPoints_lt pixelWidth pointsPerPixel
    have := Nat.div_le_self (screenPoints pixelWidth pointsPerPixel) extremaPerBucket
    omega
  simp only [queryMetric, hid.1, hid.2, Bool.or_self, Bool.false_eq_true, ite_false, hb, ite_true]
  rfl

theorem screenPoints_map (rows : List MetricPointRow) :
    (orderBy (fun row => row.step) (rows.map MetricPointRow.fromSortKey)).map MetricPointRow.point =
      (orderBy (fun row => row.step) rows).map fun row => row.fromSortKey.point := by
  rw [orderBy_map (fun row : MetricPointRow => row.step) (f := MetricPointRow.fromSortKey) (fun _ => rfl),
    List.map_map]
  rfl

theorem screen_of_full (query : MetricQuery) {full : MetricQueryResult}
    (h : queryMetric accepts extension source { query with reduction := .full } = .ok full) (pixelWidth : UInt32)
    (pointsPerPixel : UInt16) : queryMetric accepts extension source
        { query with reduction := .screenBudget pixelWidth pointsPerPixel } =
      .ok ⟨(orderBy (fun row => row.step) (source.screenKept query
          (max (screenPoints pixelWidth pointsPerPixel / extremaPerBucket) 1))).map fun row =>
            row.fromSortKey.point,
        full.sourceRowCount⟩ := by
  obtain ⟨hid, hr, rfl⟩ := (queryMetric_full_ok_iff rfl).mp h
  rw [queryMetric_screen hid pixelWidth pointsPerPixel, screenRows_eq]
  refine (executeQuery_ok ?_ fun h => screenKept_eq_nil (List.map_eq_nil_iff.mp h)).trans ?_
  · intro row hrow
    obtain ⟨kept, hkept, rfl⟩ := List.mem_map.mp hrow
    exact hr kept (List.mem_filter.mp hkept).1
  · rw [screenPoints_map]
    rfl

theorem screen_metric_sound {full screen : MetricQueryResult} {pixelWidth : UInt32} {pointsPerPixel : UInt16}
    (hfull : queryMetric accepts extension source { query with reduction := .full } = .ok full)
    (hscreen : queryMetric accepts extension source
      { query with reduction := .screenBudget pixelWidth pointsPerPixel } = .ok screen) :
    List.SublistForall₂ MetricPoint.Same screen.points full.points ∧
      screen.points.Pairwise (fun p q => p.step < q.step) ∧
      screen.points.length ≤ screenPoints pixelWidth pointsPerPixel ∧
      (full.points ≠ [] →
        KeepsShape MetricPoint.Same MetricPoint.step MetricPoint.valueF64 full.points screen.points) ∧
      screen.sourceRowCount = full.sourceRowCount := by
  rw [screen_of_full query hfull] at hscreen
  obtain ⟨hid, hr, rfl⟩ := (queryMetric_full_ok_iff rfl).mp hfull
  cases hscreen
  have hsteps := effectiveRows_steps source query
  have hfilter := orderBy_filter (fun row : MetricPointRow => row.step) hsteps
  refine ⟨?_, ?_, ?_, ?_, rfl⟩
  · apply sublistForall₂_map fromSortKey_same
    unfold MetricSource.screenKept selectFirst
    rw [hfilter]
    exact List.filter_sublist
  · rw [List.pairwise_map]
    apply orderBy_strict (fun row : MetricPointRow => row.step)
    exact (List.filter_sublist.map _).nodup hsteps
  · rw [List.length_map, length_orderBy]
    exact le_trans (length_screenKept (bucketCount_pos _)) (bucketCount_le (le_screenPoints ..))
  · intro hne
    have hrows : source.effectiveRows query ≠ [] := fun e => hne (by
      show (orderBy _ (source.effectiveRows query)).map _ = []
      simp [e])
    have hkeep := screen_keepsShape (bucket (fun row => row.step)
      (max (screenPoints pixelWidth pointsPerPixel / extremaPerBucket) 1) (source.effectiveRows query)) hrows
    refine KeepsShape.map ?_ MetricPointRow.point (fun row => row.fromSortKey.point) fromSortKey_same (fun _ => rfl)
      (fun _ => rfl) (fun _ => rfl) fun row => row.valueF64.key_fromSortKey
    exact (hkeep.mono fun x hx => (mem_orderBy _).mpr hx).reorder fun x => mem_orderBy _

end

end Pulseon
