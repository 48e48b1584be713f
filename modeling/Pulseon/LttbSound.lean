import Mathlib.Data.List.Dedup
import Mathlib.Data.List.Perm.Subperm
import Pulseon.ReductionSound

/-!
# LTTB queries

The sampled points come back as doubles and are joined with the rows whose step,
counted from the least, rounds to the same double. The query keeps its promise
for every sampling exactly when rounding tells the steps apart.
-/

namespace Pulseon

/-! ## Joining a sample -/

theorem length_le_flatMap {α β : Type*} {f : α → List β} {l : List α} (h : ∀ x ∈ l, f x ≠ []) :
    l.length ≤ (l.flatMap f).length := by
  induction l with
  | nil => simp
  | cons x l ih =>
    have hx := List.length_pos_iff.mpr (h x List.mem_cons_self)
    have hl := ih fun y hy => h y (List.mem_cons_of_mem _ hy)
    rw [List.flatMap_cons, List.length_append, List.length_cons]
    omega

section
variable {β γ : Type*} (round : β → Int) (value : β → γ)

/-- Every sampled point with the rows that round to it. -/
def joined (rows : List β) (sampled : List (Int × γ)) : List β :=
  sampled.flatMap fun point => rows.filter fun row => round row == point.1

theorem mem_of_joined {rows : List β} {sampled : List (Int × γ)} {row : β} (h : row ∈ joined round rows sampled) :
    row ∈ rows := by
  obtain ⟨point, -, hrow⟩ := List.mem_flatMap.mp h
  exact List.mem_of_mem_filter hrow

theorem exists_sampled {rows : List β} {sampled : List (Int × γ)}
    (h : ∀ point ∈ sampled, ∃ row ∈ rows, point = (round row, value row)) :
    ∃ kept : List β, (∀ row ∈ kept, row ∈ rows) ∧ sampled = kept.map fun row => (round row, value row) := by
  induction sampled with
  | nil => exact ⟨[], by simp, rfl⟩
  | cons point sampled ih =>
    obtain ⟨row, hrow, rfl⟩ := h point List.mem_cons_self
    obtain ⟨kept, hkept, rfl⟩ := ih fun p hp => h p (List.mem_cons_of_mem _ hp)
    exact ⟨row :: kept, List.forall_mem_cons.mpr ⟨hrow, hkept⟩, rfl⟩

theorem filter_singleton {rows : List β} (hn : rows.Nodup) {row : β} (hrow : row ∈ rows) {p : β → Bool}
    (hp : ∀ other ∈ rows, p other = true ↔ other = row) : rows.filter p = [row] := by
  apply List.perm_singleton.mp
  refine (List.perm_ext_iff_of_nodup (hn.filter p) (List.nodup_singleton row)).mpr fun other => ?_
  rw [List.mem_filter, List.mem_singleton]
  constructor
  · intro h
    exact (hp other h.1).mp h.2
  · rintro rfl
    exact ⟨hrow, (hp other hrow).mpr rfl⟩

/-- When rounding tells the rows apart, every sampled point is joined with its own row. -/
theorem joined_apart {rows : List β} (hn : rows.Nodup) (hr : ∀ a ∈ rows, ∀ b ∈ rows, round a = round b → a = b)
    {sampled : List (Int × γ)} (hs : sampled.Nodup)
    (h : ∀ point ∈ sampled, ∃ row ∈ rows, point = (round row, value row)) :
    (joined round rows sampled).Nodup ∧ (joined round rows sampled).length = sampled.length := by
  obtain ⟨kept, hkept, rfl⟩ := exists_sampled round value h
  have hsingle : ∀ row ∈ kept, (rows.filter fun other => round other == round row) = [row] := by
    intro row hrow
    apply filter_singleton hn (hkept row hrow)
    intro other ho
    rw [beq_iff_eq]
    exact ⟨hr other ho row (hkept row hrow), fun e => congrArg round e⟩
  have hjoined : joined round rows (kept.map fun row => (round row, value row)) = kept := by
    unfold joined
    rw [List.flatMap_map]
    conv_rhs => rw [← List.flatMap_singleton' kept]
    exact List.flatMap_congr fun row hrow => hsingle row hrow
  rw [hjoined, List.length_map]
  exact ⟨List.Nodup.of_map _ hs, rfl⟩

/-- When two rows round to the same double, some sample of at most `n` points is
joined with more than `n` rows. -/
theorem exists_overfull {rows : List β} (hn : rows.Nodup) {a b : β} (ha : a ∈ rows) (hb : b ∈ rows) (hab : a ≠ b)
    (hround : round a = round b) {n : Nat} (h0 : 0 < n) (hlen : n < rows.length) :
    ∃ sampled : List (Int × γ), sampled.Nodup ∧ sampled.length ≤ n ∧ sampled ≠ [] ∧
      (∀ point ∈ sampled, ∃ row ∈ rows, point = (round row, value row)) ∧
        n < (joined round rows sampled).length := by
  classical
  -- one point for each double, the shared one first
  let rest := ((rows.map round).dedup).erase (round a)
  let doubles := (round a :: rest).take n
  have hdoubles : (round a :: rest).Nodup := by
    have hd := List.nodup_dedup (rows.map round)
    exact List.nodup_cons.mpr ⟨fun h => (hd.mem_erase_iff.mp h).1 rfl, hd.erase _⟩
  have hmem : ∀ x ∈ round a :: rest, ∃ row ∈ rows, round row = x := by
    intro x hx
    rcases List.mem_cons.mp hx with rfl | hx
    · exact ⟨a, ha, rfl⟩
    · exact List.mem_map.mp (List.mem_dedup.mp (List.mem_of_mem_erase hx))
  have hcover : ∀ row ∈ rows, round row ∈ round a :: rest := by
    intro row hrow
    by_cases h : round row = round a
    · exact h ▸ List.mem_cons_self
    · exact List.mem_cons_of_mem _
        ((List.mem_erase_of_ne h).mpr (List.mem_dedup.mpr (List.mem_map_of_mem hrow)))
  have hinhabited : Nonempty β := ⟨a⟩
  choose! row hrow hrowx using hmem
  have hsub : ∀ x ∈ doubles, x ∈ round a :: rest := fun x hx => List.mem_of_mem_take hx
  have hone : ∀ x ∈ doubles, (rows.filter fun r => round r == x) ≠ [] := fun x hx =>
    List.ne_nil_of_mem (List.mem_filter.mpr ⟨hrow x (hsub x hx), beq_iff_eq.mpr (hrowx x (hsub x hx))⟩)
  refine ⟨doubles.map fun x => (x, value (row x)), ?_, ?_, ?_, ?_, ?_⟩
  · exact List.Nodup.map (fun x y h => (Prod.mk.inj h).1) ((List.take_sublist _ _).nodup hdoubles)
  · rw [List.length_map]
    exact List.length_take_le _ _
  · obtain ⟨m, rfl⟩ := Nat.exists_eq_succ_of_ne_zero (Nat.pos_iff_ne_zero.mp h0)
    simp [doubles]
  · intro point hp
    obtain ⟨x, hx, rfl⟩ := List.mem_map.mp hp
    exact ⟨row x, hrow x (hsub x hx), by rw [hrowx x (hsub x hx)]⟩
  · have hjoined : joined round rows (doubles.map fun x => (x, value (row x))) =
        doubles.flatMap fun x => rows.filter fun r => round r == x := by
      unfold joined
      rw [List.flatMap_map]
    rw [hjoined]
    by_cases hshort : (round a :: rest).length < n
    -- every double is sampled, so every row is joined
    · have hall : doubles = round a :: rest := List.take_of_length_le (le_of_lt hshort)
      refine lt_of_lt_of_le hlen (List.subperm_of_subset hn fun r hr => ?_).length_le
      exact List.mem_flatMap.mpr ⟨round r, hall ▸ hcover r hr, List.mem_filter.mpr ⟨hr, by simp⟩⟩
    -- the shared double brings two rows, the others one each
    · obtain ⟨m, rfl⟩ := Nat.exists_eq_succ_of_ne_zero (Nat.pos_iff_ne_zero.mp h0)
      have hsplit : doubles = round a :: rest.take m := rfl
      have htake : (rest.take m).length = m := by
        rw [List.length_take]
        simp only [List.length_cons] at hshort
        omega
      have hpair : [a, b].length ≤ (rows.filter fun r => round r == round a).length := by
        refine (List.subperm_of_subset (by simp [hab]) fun r hr => ?_).length_le
        rcases List.mem_cons.mp hr with rfl | hr
        · exact List.mem_filter.mpr ⟨ha, by simp⟩
        · obtain rfl := List.mem_singleton.mp hr
          exact List.mem_filter.mpr ⟨hb, by simp [hround]⟩
      have hrest := length_le_flatMap fun x hx => hone x (hsplit ▸ List.mem_cons_of_mem _ hx)
      rw [hsplit, List.flatMap_cons, List.length_append]
      simp only [List.length_cons, List.length_nil] at hpair
      omega

end

/-! ## The extension -/

/-- A sample of a series: at most `n` different ones of its points as doubles,
and some unless there are none to take. -/
structure Sample (points : List (Int × F64)) (n : Nat) (sampled : List (Int × F64)) : Prop where
  member : ∀ p ∈ sampled, ∃ q ∈ points, p = (nearestDouble q.1, q.2)
  distinct : sampled.Nodup
  limited : sampled.length ≤ n
  nonempty : points ≠ [] → 0 < n → sampled ≠ []

/-- The extension could be loaded, and it samples. -/
structure LttbExtension.Samples (extension : LttbExtension) : Prop where
  loaded : extension.loaded = .ok ()
  sample : ∀ points n, Sample points n (extension.lttb points n)

def leadingSample (points : List (Int × F64)) (n : Nat) : List (Int × F64) :=
  ((points.map fun p => (nearestDouble p.1, p.2)).dedup).take n

theorem sample_leading (points : List (Int × F64)) (n : Nat) : Sample points n (leadingSample points n) where
  member p hp := by
    obtain ⟨q, hq, rfl⟩ := List.mem_map.mp (List.mem_dedup.mp (List.mem_of_mem_take hp))
    exact ⟨q, hq, rfl⟩
  distinct := (List.take_sublist _ _).nodup (List.nodup_dedup _)
  limited := List.length_take_le _ _
  nonempty hp hn := by
    obtain ⟨p, hp⟩ := List.exists_mem_of_ne_nil points hp
    have hd :=
      List.ne_nil_of_mem (List.mem_dedup.mpr (List.mem_map_of_mem (f := fun p => (nearestDouble p.1, p.2)) hp))
    rw [← List.length_pos_iff] at hd ⊢
    rw [leadingSample, List.length_take]
    exact lt_min hn hd

theorem samples_leading : LttbExtension.Samples ⟨.ok (), leadingSample⟩ := ⟨rfl, sample_leading⟩

def LttbExtension.choosing (points : List (Int × F64)) (n : Nat) (sampled : List (Int × F64)) : LttbExtension :=
  ⟨.ok (), fun p k => if p = points ∧ k = n then sampled else leadingSample p k⟩

theorem samples_choosing {points : List (Int × F64)} {n : Nat} {sampled : List (Int × F64)}
    (h : Sample points n sampled) :
    (LttbExtension.choosing points n sampled).Samples := by
  refine ⟨rfl, fun p k => ?_⟩
  unfold LttbExtension.choosing
  by_cases hpk : p = points ∧ k = n
  · obtain ⟨rfl, rfl⟩ := hpk
    simpa using h
  · simpa only [hpk, ite_false] using sample_leading p k

/-! ## The query -/

/-- Strictly increasing points of the full result within a budget, with the count of the full result. -/
structure LttbReduction (maxPoints : Nat) (full result : MetricQueryResult) : Prop where
  sublist : result.points.Sublist full.points
  increasing : result.points.Pairwise fun p q => p.step < q.step
  nodup : result.points.Nodup
  budget : result.points.length ≤ maxPoints
  count : result.sourceRowCount = full.points.length

/-- The double that a row is joined by. -/
def lttbDouble (rows : List MetricPointRow) (row : MetricPointRow) : Int :=
  nearestDouble (row.step - ((rows.map fun row => row.step).min?).getD 0)

/-- Rounding, after the shift by the least step, tells the steps apart. -/
def ToldApart (rows : List MetricPointRow) : Prop :=
  ∀ a ∈ rows, ∀ b ∈ rows, lttbDouble rows a = lttbDouble rows b → a.step = b.step

instance (rows : List MetricPointRow) : Decidable (ToldApart rows) :=
  inferInstanceAs (Decidable (∀ a ∈ rows, ∀ b ∈ rows, lttbDouble rows a = lttbDouble rows b → a.step = b.step))

def lttbPoints (rows : List MetricPointRow) : List (Int × F64) :=
  rows.map fun row => (row.step - ((rows.map fun row => row.step).min?).getD 0, row.valueF64)

section
variable {accepts : Int → Bool} {extension : LttbExtension} {source : MetricSource} {query : MetricQuery}
  {maxPoints : Nat} {full : MetricQueryResult}
  (hfull : queryMetric accepts extension source { query with reduction := .full } = .ok full)
  (hlong : maxPoints < full.points.length)
include hfull hlong

omit hlong in
theorem length_full : full.points.length = (source.effectiveRows query).length := by
  obtain ⟨-, -, rfl⟩ := (queryMetric_full_ok_iff rfl).mp hfull
  rw [List.length_map, length_orderBy]
  rfl

theorem queryMetric_lttb (other : LttbExtension) (hother : other.loaded = .ok ()) (hmax : maxPoints < 2 ^ 63) :
    queryMetric accepts other source { query with reduction := .lttb maxPoints } =
      executeQuery accepts (countedRows (source.effectiveRows query).length
        (joined (lttbDouble (source.effectiveRows query)) (source.effectiveRows query)
          (other.lttb (lttbPoints (source.effectiveRows query)) maxPoints))) := by
  have hid : query.Identified := ((queryMetric_full_ok_iff rfl).mp hfull).1
  have hc : ¬ countEffective source { query with reduction := .lttb maxPoints } ≤ maxPoints :=
    not_le.mpr (lt_of_lt_of_eq hlong (length_full hfull))
  simp only [queryMetric, hid.1, hid.2, Bool.or_self, Bool.false_eq_true, ite_false, hc, hmax, ite_true,
    hother, bind, Except.bind]
  rfl

theorem lttb_refused (other : LttbExtension) (hmax : ¬ maxPoints < 2 ^ 63) :
    queryMetric accepts other source { query with reduction := .lttb maxPoints } =
      .error (.queryMaxPointsTooLarge maxPoints) := by
  have hid : query.Identified := ((queryMetric_full_ok_iff rfl).mp hfull).1
  have hc : ¬ countEffective source { query with reduction := .lttb maxPoints } ≤ maxPoints :=
    not_le.mpr (lt_of_lt_of_eq hlong (length_full hfull))
  simp only [queryMetric, hid.1, hid.2, Bool.or_self, Bool.false_eq_true, ite_false, hc, hmax]

theorem lttb_result {other : LttbExtension} (hother : other.loaded = .ok ()) (hmax : maxPoints < 2 ^ 63)
    {kept : List MetricPointRow}
    (hkept : joined (lttbDouble (source.effectiveRows query)) (source.effectiveRows query)
      (other.lttb (lttbPoints (source.effectiveRows query)) maxPoints) = kept) (hne : kept ≠ []) :
    queryMetric accepts other source { query with reduction := .lttb maxPoints } =
      .ok ⟨(orderBy (fun row => row.step) kept).map MetricPointRow.point, full.points.length⟩ := by
  rw [queryMetric_lttb hfull hlong other hother hmax, hkept]
  obtain ⟨-, hrep, rfl⟩ := (queryMetric_full_ok_iff rfl).mp hfull
  have hsub : ∀ row ∈ kept, row ∈ source.effectiveRows query := fun row hrow => mem_of_joined _ (hkept ▸ hrow)
  rw [executeQuery_ok (fun row hrow => hrep row (hsub row hrow)) fun h =>
    absurd h hne, List.length_map, length_orderBy]
  rfl

/-- Different rows of the effective series in step order are a reduction. -/
theorem lttbReduction_of_kept {kept : List MetricPointRow} (hn : kept.Nodup)
    (hsub : ∀ row ∈ kept, row ∈ source.effectiveRows query) (hle : kept.length ≤ maxPoints) :
    LttbReduction maxPoints full
      ⟨(orderBy (fun row => row.step) kept).map MetricPointRow.point, full.points.length⟩ := by
  obtain ⟨-, -, rfl⟩ := (queryMetric_full_ok_iff rfl).mp hfull
  have hsteps := effectiveRows_steps source query
  have hkept : (kept.map fun row => row.step).Nodup := by
    refine List.Nodup.map_on (fun a ha b hb e => ?_) hn
    exact List.inj_on_of_nodup_map hsteps (hsub a ha) (hsub b hb) e
  have hstrict : ((orderBy (fun row => row.step) kept).map MetricPointRow.point).Pairwise fun p q =>
    p.step < q.step :=
    List.pairwise_map.mpr (orderBy_strict _ hkept)
  refine ⟨?_, hstrict, hstrict.imp fun h e => absurd h (by simp [e]), by simpa using hle, rfl⟩
  apply List.Sublist.map
  have hfilter : orderBy (fun row => row.step) kept =
      orderBy (fun row => row.step) ((source.effectiveRows query).filter fun row => decide (row ∈ kept)) := by
    refine orderBy_eq _ hkept ((List.filter_sublist.map _).nodup hsteps) fun row => ?_
    rw [List.mem_filter, decide_eq_true_eq]
    exact ⟨fun h => ⟨hsub row h, h⟩, fun h => h.2⟩
  rw [hfilter, orderBy_filter _ hsteps]
  exact List.filter_sublist

theorem lttb_reduces (hpos : 0 < maxPoints) (hmax : maxPoints < 2 ^ 63)
    (hapart : ToldApart (source.effectiveRows query)) {other : LttbExtension} (hother : other.Samples) :
    ∃ result, queryMetric accepts other source { query with reduction := .lttb maxPoints } = .ok result ∧
      LttbReduction maxPoints full result := by
  have hsample := hother.sample (lttbPoints (source.effectiveRows query)) maxPoints
  have hsteps := effectiveRows_steps source query
  have hfrom : ∀ point ∈ other.lttb (lttbPoints (source.effectiveRows query)) maxPoints,
      ∃ row ∈ source.effectiveRows query, point = (lttbDouble (source.effectiveRows query) row, row.valueF64) := by
    intro point hp
    obtain ⟨q, hq, rfl⟩ := hsample.member point hp
    obtain ⟨row, hrow, rfl⟩ := List.mem_map.mp hq
    exact ⟨row, hrow, rfl⟩
  obtain ⟨hn, hlen⟩ := joined_apart (lttbDouble (source.effectiveRows query)) (fun row => row.valueF64)
    (effectiveRows_nodup source query)
    (fun a ha b hb e => List.inj_on_of_nodup_map hsteps ha hb (hapart a ha b hb e)) hsample.distinct hfrom
  have hne : lttbPoints (source.effectiveRows query) ≠ [] := by
    rw [← List.length_pos_iff, lttbPoints, List.length_map, ← length_full hfull]
    omega
  have hkept := List.length_pos_iff.mpr (hsample.nonempty hne hpos)
  refine ⟨_, lttb_result hfull hlong hother.loaded hmax rfl (List.length_pos_iff.mp (hlen ▸ hkept)), ?_⟩
  exact lttbReduction_of_kept hfull hlong hn (fun row hrow => mem_of_joined _ hrow) (hlen ▸ hsample.limited)

theorem lttb_merges (hpos : 0 < maxPoints) (hmax : maxPoints < 2 ^ 63)
    (hapart : ¬ ToldApart (source.effectiveRows query)) :
    ∃ other : LttbExtension, other.Samples ∧ ∃ result,
      queryMetric accepts other source { query with reduction := .lttb maxPoints } = .ok result ∧
        maxPoints < result.points.length := by
  unfold ToldApart at hapart
  push Not at hapart
  obtain ⟨a, ha, b, hb, hround, hab⟩ := hapart
  have hlen : maxPoints < (source.effectiveRows query).length := length_full hfull ▸ hlong
  obtain ⟨sampled, hd, hle, hne, hfrom, hover⟩ := exists_overfull (lttbDouble (source.effectiveRows query))
    (fun row => row.valueF64) (effectiveRows_nodup source query) ha hb
      (fun e => hab (congrArg _ e)) hround hpos hlen
  have hsample : Sample (lttbPoints (source.effectiveRows query)) maxPoints sampled := by
    refine ⟨fun p hp => ?_, hd, hle, fun _ _ => hne⟩
    obtain ⟨row, hrow, rfl⟩ := hfrom p hp
    exact ⟨_, List.mem_map_of_mem hrow, rfl⟩
  let other := LttbExtension.choosing (lttbPoints (source.effectiveRows query)) maxPoints sampled
  have hjoined : joined (lttbDouble (source.effectiveRows query)) (source.effectiveRows query)
      (other.lttb (lttbPoints (source.effectiveRows query)) maxPoints) =
        joined (lttbDouble (source.effectiveRows query)) (source.effectiveRows query) sampled := by
    simp [other, LttbExtension.choosing]
  have hnonempty : joined (lttbDouble (source.effectiveRows query)) (source.effectiveRows query) sampled ≠ [] :=
    List.ne_nil_of_length_pos (by omega)
  refine ⟨other, samples_choosing hsample, _, lttb_result hfull hlong rfl hmax hjoined hnonempty, ?_⟩
  simpa using hover

end

/-- The LTTB query reduces every series as promised, whatever the extension
samples, exactly when rounding tells its steps apart. -/
theorem lttb_reduces_iff (accepts : Int → Bool) (extension : LttbExtension) (source : MetricSource)
    (query : MetricQuery) (maxPoints : Nat) (full : MetricQueryResult)
    (hfull : queryMetric accepts extension source { query with reduction := .full } = .ok full)
    (hlong : maxPoints < full.points.length) :
    (∀ other : LttbExtension, other.Samples →
      ∃ result, queryMetric accepts other source { query with reduction := .lttb maxPoints } = .ok result ∧
        LttbReduction maxPoints full result) ↔
      0 < maxPoints ∧ maxPoints < 2 ^ 63 ∧ ToldApart (source.effectiveRows query) := by
  constructor
  · intro h
    obtain ⟨result, hr, hreduction⟩ := h _ samples_leading
    have hmax : maxPoints < 2 ^ 63 := by
      by_contra hmax
      rw [lttb_refused hfull hlong _ hmax] at hr
      cases hr
    have hpos : 0 < maxPoints := by
      by_contra hpos
      obtain rfl : maxPoints = 0 := by omega
      rw [queryMetric_lttb hfull hlong _ rfl hmax] at hr
      simp only [leadingSample, List.take_zero, joined, List.flatMap_nil, executeQuery, countedRows, orderBy,
        List.insertionSort_nil, List.map_nil, readRows, Except.ok.injEq] at hr
      subst hr
      have hcount : 0 = full.points.length := hreduction.count
      omega
    refine ⟨hpos, hmax, ?_⟩
    by_contra hapart
    obtain ⟨other, hother, result, hresult, hover⟩ := lttb_merges hfull hlong hpos hmax hapart
    obtain ⟨result', hr', hreduction'⟩ := h other hother
    rw [hresult] at hr'
    cases hr'
    exact absurd hreduction'.budget (not_le.mpr hover)
  · intro h other hother
    exact lttb_reduces hfull hlong h.1 h.2.1 h.2.2 hother

theorem lttb_reduces_iff_plotted : ∃ full result,
    queryMetric nearEpoch unavailableLttb (.project plottedPoints) ⟨"r", "k", none, none, .full⟩ = .ok full ∧
      2 < full.points.length ∧
      queryMetric nearEpoch ⟨.ok (), leadingSample⟩ (.project plottedPoints) ⟨"r", "k", none, none, .lttb 2⟩ =
        .ok result ∧ LttbReduction 2 full result := by
  have hfull := queryMetric_full_ok nearEpoch unavailableLttb (.project plottedPoints) ⟨"r", "k", none, none, .full⟩
    (by unfold MetricQuery.Identified; decide) rfl plotted_representable
  have hlong := @length_full nearEpoch unavailableLttb _ ⟨"r", "k", none, none, .full⟩ _ hfull
  have hcount :
      ((MetricSource.project plottedPoints).effectiveRows ⟨"r", "k", none, none, .full⟩).length = 8 := by decide
  have hlt : 2 < ((orderBy (fun row : MetricPointRow => row.step)
      ((MetricSource.project plottedPoints).effectiveRows ⟨"r", "k", none, none, .full⟩)).map
        MetricPointRow.point).length := by
    rw [hlong, hcount]
    decide
  obtain ⟨result, hr, hred⟩ := (lttb_reduces_iff nearEpoch unavailableLttb (.project plottedPoints)
    ⟨"r", "k", none, none, .full⟩ 2 _ hfull hlt).mpr ⟨by decide, by decide, by decide +kernel⟩ _ samples_leading
  exact ⟨_, result, hfull, hlt, hr, hred⟩

/-- Three steps, of which the last two round to the same double. -/
def farPoints : List MetricPointRow :=
  [⟨"r", "k", "k", 0, 0, ⟨5⟩, 10⟩, ⟨"r", "k", "k", 9007199254740992, 10, ⟨7⟩, 11⟩,
    ⟨"r", "k", "k", 9007199254740993, 20, ⟨6⟩, 12⟩]

def endsSample : List (Int × F64) := [(0, ⟨5⟩), (9007199254740992, ⟨6⟩)]

theorem lttb_exceeds_budget : ∃ full result,
    queryMetric nearEpoch unavailableLttb (.project farPoints) ⟨"r", "k", none, none, .full⟩ = .ok full ∧
      2 < full.points.length ∧ (LttbExtension.choosing (lttbPoints farPoints) 2 endsSample).Samples ∧
      queryMetric nearEpoch (.choosing (lttbPoints farPoints) 2 endsSample) (.project farPoints)
        ⟨"r", "k", none, none, .lttb 2⟩ = .ok result ∧
      result.points.length = 3 ∧ ¬ LttbReduction 2 full result := by
  have hrep : ∀ row ∈ farPoints, Representable nearEpoch row := by unfold Representable; decide
  have hfull := queryMetric_full_ok nearEpoch unavailableLttb (.project farPoints) ⟨"r", "k", none, none, .full⟩
    (by unfold MetricQuery.Identified; decide) rfl hrep
  have heffective : (MetricSource.project farPoints).effectiveRows ⟨"r", "k", none, none, .full⟩ = farPoints := by
    decide +kernel
  have hlen := @length_full nearEpoch unavailableLttb _ ⟨"r", "k", none, none, .full⟩ _ hfull
  rw [heffective] at hfull hlen
  have hlong :
    2 < ((orderBy (fun row : MetricPointRow => row.step) farPoints).map MetricPointRow.point).length := by
    rw [hlen]
    decide
  have hsample : Sample (lttbPoints farPoints) 2 endsSample :=
    ⟨by decide +kernel, by decide, by decide, fun _ _ => by decide⟩
  have hjoined : joined (lttbDouble farPoints) farPoints
      ((LttbExtension.choosing (lttbPoints farPoints) 2 endsSample).lttb (lttbPoints farPoints) 2) = farPoints := by
    decide +kernel
  have hresult := @lttb_result nearEpoch unavailableLttb _ ⟨"r", "k", none, none, .full⟩ 2 _ hfull hlong
    (.choosing (lttbPoints farPoints) 2 endsSample) rfl (by decide) farPoints (by rw [heffective]; exact hjoined)
    (by decide)
  refine ⟨_, _, hfull, hlong, samples_choosing hsample, hresult, hlen, fun hred => ?_⟩
  exact absurd hred.budget (not_le.mpr hlong)

end Pulseon
