import Pulseon.Charting
import Pulseon.Steps

/-!
# Visible points and the path cache

A series is sorted by finite coordinates, so its binary searches find where the
points reach and leave a range of the axis. With one point more on each side the
visible points are those whose segments meet the range. An entry of the path
cache is the path of every series and view that has its key.
-/

namespace Pulseon

/-! ## Sorted series -/

section
variable {K : Type} [Coordinate K]

open Coordinate

theorem checkPoints_sound {index : Nat} {previous : Option (DataPoint K)} {points : List (DataPoint K)}
    (h : checkPoints index previous points = .ok ()) :
    (∀ p ∈ points, isFinite p.x = true ∧ isFinite p.y = true) ∧
      (previous.toList ++ points).IsChain fun p q => lt q.x p.x = false := by
  induction points generalizing index previous with
  | nil => cases previous <;> simp
  | cons point points ih =>
    unfold checkPoints at h
    split at h
    · cases h
    · rename_i hfinite
      split at h
      · cases h
      · rename_i hsorted
        obtain ⟨hall, hchain⟩ := ih h
        have hpoint : isFinite point.x = true ∧ isFinite point.y = true := by
          rw [Bool.not_eq_true, Bool.or_eq_false_iff] at hfinite
          simpa using hfinite
        refine ⟨List.forall_mem_cons.mpr ⟨hpoint, hall⟩, ?_⟩
        rw [Option.toList_some, List.singleton_append] at hchain
        cases previous with
        | none => exact hchain
        | some p => exact List.IsChain.cons_cons (by simpa using hsorted) hchain

end

namespace F64

section
variable {x y : F64} (hx : x.isFinite = true) (hy : y.isFinite = true)
include hx hy

theorem lt_of_finite : x.lt y = decide (x.key < y.key) := by
  simp [lt, isNan_of_finite hx, isNan_of_finite hy]

theorem le_of_finite : x.le y = decide (x.key ≤ y.key) := by
  simp [le, isNan_of_finite hx, isNan_of_finite hy]

end

end F64

namespace Series
variable (series : Series F64)

theorem finite {p : DataPoint F64} (hp : p ∈ series.points) : p.x.isFinite = true :=
  ((checkPoints_sound series.accepted).1 p hp).1

theorem sorted : series.points.Pairwise fun p q => p.x.key ≤ q.x.key := by
  have hchain : series.points.IsChain fun p q => Coordinate.lt q.x p.x = false :=
    (checkPoints_sound series.accepted).2
  refine (List.isChain_iff_pairwise (R := fun p q : DataPoint F64 => p.x.key ≤ q.x.key)).mp ?_
  refine hchain.imp_of_mem_imp fun p q hp hq h => ?_
  have hlt : q.x.lt p.x = false := h
  rw [F64.lt_of_finite (series.finite hq) (series.finite hp), decide_eq_false_iff_not] at hlt
  omega

end Series

theorem AxisRange.ends (r : AxisRange F64) :
    r.start.isFinite = true ∧ r.stop.isFinite = true ∧ r.start.key < r.stop.key := by
  have h := r.accepted
  simp only [rangeAccepted, Bool.and_eq_true, Bool.not_eq_true'] at h
  obtain ⟨⟨⟨hstart, hstop⟩, hlt⟩, -⟩ := h
  refine ⟨hstart, hstop, ?_⟩
  have hle : r.stop.le r.start = false := hlt
  rw [F64.le_of_finite hstop hstart, decide_eq_false_iff_not] at hle
  omega

namespace Series
variable (series : Series F64) {x : F64} (hx : x.isFinite = true)
include hx

theorem partitioned_lt : Partitioned (fun point : DataPoint F64 => point.x.lt x) series.points := by
  refine series.sorted.imp_of_mem fun {p q} hp hq hpq h => ?_
  simp only [F64.lt_of_finite (series.finite hp) hx, F64.lt_of_finite (series.finite hq) hx, decide_eq_true_eq]
    at h ⊢
  omega

theorem partitioned_le : Partitioned (fun point : DataPoint F64 => point.x.le x) series.points := by
  refine series.sorted.imp_of_mem fun {p q} hp hq hpq h => ?_
  simp only [F64.le_of_finite (series.finite hp) hx, F64.le_of_finite (series.finite hq) hx, decide_eq_true_eq]
    at h ⊢
  omega

end Series

/-! ## The ends of a range -/

section
variable (series : Series F64) (range : AxisRange F64)

/-- The first point that is not before the range. -/
def firstIn : Nat := partitionPoint (fun point : DataPoint F64 => point.x.lt range.start) series.points

/-- The first point after the range. -/
def afterIn : Nat := partitionPoint (fun point : DataPoint F64 => point.x.le range.stop) series.points

/-- The closed extent of a segment and the range have a coordinate in common. -/
def meetsRange (segment : DataPoint F64 × DataPoint F64) : Bool :=
  segment.1.x.le range.stop && range.start.le segment.2.x

theorem firstIn_le : firstIn series range ≤ series.points.length :=
  partitionPoint_le (series.partitioned_lt range.ends.1)

variable {i : Nat} {p : DataPoint F64} (hp : series.points[i]? = some p)
include hp

theorem lt_firstIn_iff : i < firstIn series range ↔ p.x.lt range.start = true :=
  lt_partitionPoint_iff (series.partitioned_lt range.ends.1) hp

theorem lt_afterIn_iff : i < afterIn series range ↔ p.x.le range.stop = true :=
  lt_partitionPoint_iff (series.partitioned_le range.ends.2.1) hp

theorem afterIn_le_iff : afterIn series range ≤ i ↔ range.stop.lt p.x = true := by
  have h := lt_afterIn_iff series range hp
  have hx := series.finite (List.mem_of_getElem? hp)
  rw [F64.le_of_finite hx range.ends.2.1, decide_eq_true_eq] at h
  rw [F64.lt_of_finite range.ends.2.1 hx, decide_eq_true_eq]
  omega

theorem firstIn_le_iff : firstIn series range ≤ i ↔ range.start.le p.x = true := by
  have h := lt_firstIn_iff series range hp
  have hx := series.finite (List.mem_of_getElem? hp)
  rw [F64.lt_of_finite hx range.ends.1, decide_eq_true_eq] at h
  rw [F64.le_of_finite range.ends.1 hx, decide_eq_true_eq]
  omega

theorem meetsRange_iff {q : DataPoint F64} (hq : series.points[i + 1]? = some q) :
    meetsRange range (p, q) = true ↔ i < afterIn series range ∧ firstIn series range ≤ i + 1 := by
  rw [meetsRange, Bool.and_eq_true, ← lt_afterIn_iff series range hp, ← firstIn_le_iff series range hq]

omit hp in
theorem firstIn_le_afterIn : firstIn series range ≤ afterIn series range := by
  by_contra hn
  have hlen := firstIn_le series range
  obtain ⟨p, hp⟩ : ∃ p, series.points[afterIn series range]? = some p :=
    ⟨series.points[afterIn series range], List.getElem?_eq_getElem _⟩
  have hx := series.finite (List.mem_of_getElem? hp)
  have hbelow := (lt_firstIn_iff series range hp).mp (by omega)
  have habove := (afterIn_le_iff series range hp).mp (Nat.le_refl _)
  rw [F64.lt_of_finite hx range.ends.1, decide_eq_true_eq] at hbelow
  rw [F64.lt_of_finite range.ends.2.1 hx, decide_eq_true_eq] at habove
  have := range.ends.2.2
  omega

end

/-! ## Visible points -/

/-- A block of the points that leaves out only points beside the range, keeps at
most one on each side, and has exactly the segments that meet the range. -/
structure VisibleBlock (range : AxisRange F64) (points block : List (DataPoint F64)) : Prop where
  contiguous : ∃ before after, points = before ++ block ++ after ∧ (∀ p ∈ before, p.x.lt range.start = true) ∧
    ∀ p ∈ after, range.stop.lt p.x = true
  left : (block.filter fun p => p.x.lt range.start).length ≤ 1
  right : (block.filter fun p => range.stop.lt p.x).length ≤ 1
  segments : segments block = (segments points).filter (meetsRange range)

section
variable (series : Series F64) (range : AxisRange F64)

theorem segments_meeting : (segments series.points).filter (meetsRange range) =
    slice (segments series.points) (firstIn series range - 1)
      (min (afterIn series range + 1) series.points.length - 1) := by
  refine filter_eq_slice fun i s hs => ?_
  obtain ⟨hp, hq⟩ := getElem?_segments.mp hs
  have hlt := (List.getElem?_eq_some_iff.mp hq).1
  rw [meetsRange_iff series range hp hq]
  omega

theorem visible_none (h : firstIn series range = series.points.length ∨ afterIn series range = 0) :
    VisibleBlock range series.points [] := by
  refine ⟨?_, Nat.zero_le _, Nat.zero_le _, ?_⟩
  · rcases h with h | h
    · refine ⟨series.points, [], by simp, fun p hp => ?_, by simp⟩
      obtain ⟨i, hi⟩ := List.mem_iff_getElem?.mp hp
      have hlt := (List.getElem?_eq_some_iff.mp hi).1
      exact (lt_firstIn_iff series range hi).mp (by omega)
    · refine ⟨[], series.points, by simp, by simp, fun p hp => ?_⟩
      obtain ⟨i, hi⟩ := List.mem_iff_getElem?.mp hp
      exact (afterIn_le_iff series range hi).mp (by omega)
  · rw [segments_meeting]
    refine (List.eq_nil_iff_length_eq_zero.mpr ?_).symm
    rw [length_slice, segments, List.length_zip, List.length_tail]
    omega

theorem visible_some : VisibleBlock range series.points
    (slice series.points (firstIn series range - 1) (min (afterIn series range + 1) series.points.length)) := by
  have hle := firstIn_le_afterIn series range
  have hlen := firstIn_le series range
  have hin : ∀ {i p}, (slice series.points (firstIn series range - 1)
      (min (afterIn series range + 1) series.points.length))[i]? = some p →
      series.points[firstIn series range - 1 + i]? = some p := by
    intro i p hp
    rw [getElem?_slice] at hp
    split at hp
    · exact hp
    · cases hp
  refine ⟨⟨_, _, split_slice (by omega) series.points, fun p hp => ?_, fun p hp => ?_⟩, ?_, ?_, ?_⟩
  · obtain ⟨i, hi⟩ := List.mem_iff_getElem?.mp hp
    rw [List.getElem?_take] at hi
    split at hi
    · exact (lt_firstIn_iff series range hi).mp (by omega)
    · cases hi
  · obtain ⟨i, hi⟩ := List.mem_iff_getElem?.mp hp
    rw [List.getElem?_drop] at hi
    have hlt := (List.getElem?_eq_some_iff.mp hi).1
    exact (afterIn_le_iff series range hi).mp (by omega)
  · have hleft := filter_eq_slice (f := fun p : DataPoint F64 => p.x.lt range.start) fun i p hp =>
      show _ ↔ 0 ≤ i ∧ i < firstIn series range - (firstIn series range - 1) by
        rw [← lt_firstIn_iff series range (hin hp)]
        omega
    rw [hleft, length_slice]
    omega
  · have hright := filter_eq_slice (f := fun p : DataPoint F64 => range.stop.lt p.x) fun i p hp =>
      show _ ↔ afterIn series range - (firstIn series range - 1) ≤ i ∧ i < series.points.length by
        have hlt := (List.getElem?_eq_some_iff.mp (hin hp)).1
        rw [← afterIn_le_iff series range (hin hp)]
        omega
    rw [hright, length_slice, length_slice]
    omega
  · rw [segments_slice, segments_meeting]

theorem visiblePoints_block : VisibleBlock range series.points (series.visiblePoints range) := by
  unfold Series.visiblePoints
  change VisibleBlock range series.points (if firstIn series range = series.points.length ∨ afterIn series range = 0
    then [] else slice series.points (firstIn series range - 1)
      (min (afterIn series range + 1) series.points.length))
  split
  · rename_i h
    exact visible_none series range h
  · exact visible_some series range

end

/-! ## Scales -/

open Coordinate Scalar

theorem isFinite_sub_zero {x y : F64} (hx : x.isFinite = true) (hy : y.isFinite = true)
    (h : x.signedUnits = 0 ∨ y.signedUnits = 0) : (x.sub y).isFinite = true := by
  rcases h with h | h
  · refine F64.isFinite_sub hx hy (of_decide_eq_true hy) ?_
    rw [h, Int.zero_sub, Int.natAbs_neg, F64.natAbs_signedUnits]
  · refine F64.isFinite_sub hx hy (of_decide_eq_true hx) ?_
    rw [h, Int.sub_zero, F64.natAbs_signedUnits]

theorem outputAccepted_size {size : F64} (hfinite : isFinite size = true) (hpositive : le size zero = false) :
    outputAccepted zero size = true ∧ outputAccepted size zero = true := by
  have hzero : isFinite (zero : F64) = true := rfl
  have hup : isFinite (sub size zero) = true :=
    isFinite_sub_zero hfinite hzero (Or.inr (F64.signedUnits_zero false))
  have hdown : isFinite (sub zero size) = true :=
    isFinite_sub_zero hzero hfinite (Or.inl (F64.signedUnits_zero false))
  simp only [outputAccepted, same, hfinite, hpositive, hzero, hup, hdown, Bool.and_false, Bool.false_and,
    Bool.not_false, Bool.and_true, and_self]

/-- On every canvas both scales are valid. -/
theorem scales_ok (viewport : Viewport F64) (canvas : CanvasSize F64) :
    ∃ xScale yScale, LinearScale.new viewport.x zero canvas.width = .ok xScale ∧
      LinearScale.new viewport.y canvas.height zero = .ok yScale := by
  have h := canvas.accepted
  simp only [sizeAccepted, Bool.and_eq_true, Bool.not_eq_true'] at h
  obtain ⟨⟨⟨hwidth, hheight⟩, hwidth'⟩, hheight'⟩ := h
  have hx := (outputAccepted_size hwidth hwidth').1
  have hy := (outputAccepted_size hheight hheight').2
  exact ⟨⟨viewport.x, zero, canvas.width, hx⟩, ⟨viewport.y, canvas.height, zero, hy⟩, dif_pos hx, dif_pos hy⟩

theorem buildPath_eq (series : Series F64) {viewport : Viewport F64} {canvas : CanvasSize F64}
    {xScale yScale : LinearScale F64} (hx : LinearScale.new viewport.x zero canvas.width = .ok xScale)
    (hy : LinearScale.new viewport.y canvas.height zero = .ok yScale) :
    buildPath series viewport canvas = .ok ((series.visiblePoints viewport.x).map (project xScale yScale)) := by
  simp only [buildPath, hx, hy, bind, Except.bind, pure, Except.pure]

/-- The visible points are a block of the series with exactly the segments that
meet the range, so a path draws these segments and no others. -/
theorem visible_points_exact (series : Series F64) (viewport : Viewport F64) (canvas : CanvasSize F64) :
    VisibleBlock viewport.x series.points (series.visiblePoints viewport.x) ∧
      ∃ xScale yScale path, LinearScale.new viewport.x zero canvas.width = .ok xScale ∧
        LinearScale.new viewport.y canvas.height zero = .ok yScale ∧ buildPath series viewport canvas = .ok path ∧
        segments path = ((segments series.points).filter (meetsRange viewport.x)).map fun s =>
          (project xScale yScale s.1, project xScale yScale s.2) := by
  have hblock := visiblePoints_block series viewport.x
  obtain ⟨xScale, yScale, hx, hy⟩ := scales_ok viewport canvas
  refine ⟨hblock, xScale, yScale, _, hx, hy, buildPath_eq series hx hy, ?_⟩
  rw [segments_map, hblock.segments]

/-! ## The path cache -/

/-- Wherever they occur in the calls, a series id and a revision stand for the same points. -/
def Consistent (ops : List CacheOp) : Prop :=
  ∀ {series series' : Series F64} {revision : UInt64} {viewport viewport' : Viewport F64}
    {canvas canvas' : CanvasSize F64},
    CacheOp.pathFor series revision viewport canvas ∈ ops →
      CacheOp.pathFor series' revision viewport' canvas' ∈ ops →
      series.id = series'.id → series.points = series'.points

/-- Every entry is the path of a call with its key. -/
def PathCache.Built (ops : List CacheOp) (cache : PathCache) : Prop :=
  ∀ id key path, cache.entries id = some (key, path) → ∃ series revision viewport canvas,
    CacheOp.pathFor series revision viewport canvas ∈ ops ∧ series.id = id ∧
      key = pathCacheKey revision viewport canvas ∧
      buildPath series viewport canvas = .ok path

theorem AxisRange.ext_bits {r r' : AxisRange F64} (hstart : r.start.bits = r'.start.bits)
    (hstop : r.stop.bits = r'.stop.bits) :
    r = r' := by
  obtain ⟨⟨start⟩, ⟨stop⟩, _⟩ := r
  obtain ⟨⟨start'⟩, ⟨stop'⟩, _⟩ := r'
  cases hstart
  cases hstop
  rfl

theorem pathCacheKey_inj {revision revision' : UInt64} {viewport viewport' : Viewport F64}
    {canvas canvas' : CanvasSize F64}
    (h : pathCacheKey revision viewport canvas = pathCacheKey revision' viewport' canvas') :
    revision = revision' ∧ viewport = viewport' ∧ canvas = canvas' := by
  obtain ⟨x, y⟩ := viewport
  obtain ⟨x', y'⟩ := viewport'
  obtain ⟨⟨width⟩, ⟨height⟩, _⟩ := canvas
  obtain ⟨⟨width'⟩, ⟨height'⟩, _⟩ := canvas'
  simp only [pathCacheKey, PathCacheKey.mk.injEq, Prod.mk.injEq] at h
  obtain ⟨hrevision, ⟨⟨hx, hx'⟩, hy, hy'⟩, rfl, rfl⟩ := h
  rw [AxisRange.ext_bits hx hx', AxisRange.ext_bits hy hy']
  exact ⟨hrevision, rfl, rfl⟩

theorem buildPath_congr {series series' : Series F64} (h : series.points = series'.points) (viewport : Viewport F64)
    (canvas : CanvasSize F64) : buildPath series viewport canvas = buildPath series' viewport canvas := by
  unfold buildPath Series.visiblePoints
  rw [h]

section
variable {ops : List CacheOp} {cache : PathCache} {series : Series F64} {revision : UInt64}
    {viewport : Viewport F64}
  {canvas : CanvasSize F64}

/-- A call returns an entry with its key and leaves the cache, or it builds the path and stores that. -/
theorem pathFor_cases (cache : PathCache) (series : Series F64) (revision : UInt64) (viewport : Viewport F64)
    (canvas : CanvasSize F64) :
    (∃ path, cache.entries series.id = some (pathCacheKey revision viewport canvas, path) ∧
      cache.pathFor series revision viewport canvas = (.ok path, cache)) ∨
    (∃ path, buildPath series viewport canvas = .ok path ∧ cache.pathFor series revision viewport canvas =
      (.ok path, ⟨Function.update cache.entries series.id (some (pathCacheKey revision viewport canvas, path))⟩)) ∨
    ∃ e, buildPath series viewport canvas = .error e ∧
      cache.pathFor series revision viewport canvas = (.error e, cache) := by
  unfold PathCache.pathFor
  dsimp only
  split
  · rename_i key path hentry
    obtain ⟨hsome, hkey⟩ := Option.filter_eq_some_iff.mp hentry
    obtain rfl : key = pathCacheKey revision viewport canvas := of_decide_eq_true hkey
    exact Or.inl ⟨path, hsome, rfl⟩
  · cases hbuild : buildPath series viewport canvas with
    | ok path => exact Or.inr (Or.inl ⟨path, rfl, rfl⟩)
    | error e => exact Or.inr (Or.inr ⟨e, rfl, rfl⟩)

theorem PathCache.Built.update (hb : cache.Built ops) (seriesId : SeriesId)
    {entry : Option (PathCacheKey × List (ScreenPoint F64))}
    (hentry : ∀ key path, entry = some (key, path) → ∃ series revision viewport canvas,
      CacheOp.pathFor series revision viewport canvas ∈ ops ∧ series.id = seriesId ∧
        key = pathCacheKey revision viewport canvas ∧ buildPath series viewport canvas = .ok path) :
    PathCache.Built ops ⟨Function.update cache.entries seriesId entry⟩ := by
  intro id key path he
  dsimp only at he
  by_cases hid : id = seriesId
  · subst hid
    rw [Function.update_self] at he
    exact hentry key path he
  · rw [Function.update_of_ne hid] at he
    exact hb id key path he

theorem PathCache.Built.step (hb : cache.Built ops) {op : CacheOp} (hop : op ∈ ops) {cache' : PathCache}
    (hs : cache.step op = some cache') : cache'.Built ops := by
  cases op with
  | pathFor series revision viewport canvas =>
    cases hs
    rcases pathFor_cases cache series revision viewport canvas with ⟨path, -, hp⟩ | ⟨path, hbuild, hp⟩ | ⟨e, -, hp⟩
    · rw [hp]; exact hb
    · rw [hp]
      refine hb.update series.id fun key path' he => ?_
      cases he
      exact ⟨series, revision, viewport, canvas, hop, rfl, rfl, hbuild⟩
    · rw [hp]; exact hb
  | invalidateSeries seriesId => cases hs; exact hb.update seriesId fun _ _ he => by cases he
  | clear => cases hs; intro _ _ _ he; cases he

theorem PathCache.Built.pathFor (hb : cache.Built ops) (hc : Consistent ops)
    (hop : .pathFor series revision viewport canvas ∈ ops) :
    (cache.pathFor series revision viewport canvas).1 = buildPath series viewport canvas ∧
      ∀ e, (cache.pathFor series revision viewport canvas).1 = .error e →
        (cache.pathFor series revision viewport canvas).2 = cache := by
  rcases pathFor_cases cache series revision viewport canvas with ⟨path, he, hp⟩ | ⟨path, hbuild, hp⟩
    | ⟨e, hbuild, hp⟩
  · obtain ⟨series', revision', viewport', canvas', hop', hid, hkey, hbuild⟩ := hb _ _ _ he
    obtain ⟨rfl, rfl, rfl⟩ := pathCacheKey_inj hkey
    rw [hp, ← hbuild, buildPath_congr (hc hop' hop hid)]
    exact ⟨rfl, fun _ _ => rfl⟩
  · rw [hp, hbuild]
    exact ⟨rfl, fun e he => by cases he⟩
  · rw [hp, hbuild]
    exact ⟨rfl, fun _ _ => rfl⟩

end

theorem cache_runs (ops : List CacheOp) (cache : PathCache) :
    ∃ cache', exec PathCache.step cache ops = some cache' := by
  induction ops generalizing cache with
  | nil => exact ⟨cache, rfl⟩
  | cons op ops ih =>
    have hstep : ∃ next, cache.step op = some next := by cases op <;> exact ⟨_, rfl⟩
    obtain ⟨next, hn⟩ := hstep
    obtain ⟨cache', h⟩ := ih next
    exact ⟨cache', (exec_cons PathCache.step).mpr ⟨next, hn, h⟩⟩

/-- Whatever the calls before it have left in the cache, a call returns what
building its path does, and leaves the cache as it is when that fails. -/
theorem path_cache_transparent {ops : List CacheOp} (hc : Consistent ops) {before after : List CacheOp}
    {series : Series F64} {revision : UInt64} {viewport : Viewport F64} {canvas : CanvasSize F64}
    (hops : ops = before ++ .pathFor series revision viewport canvas :: after) :
    ∃ cache, exec PathCache.step .empty before = some cache ∧
      (cache.pathFor series revision viewport canvas).1 = buildPath series viewport canvas ∧
      ∀ e, (cache.pathFor series revision viewport canvas).1 = .error e →
        (cache.pathFor series revision viewport canvas).2 = cache := by
  obtain ⟨cache, hrun⟩ := cache_runs before .empty
  have hempty : PathCache.empty.Built ops := fun _ _ _ he => by cases he
  have hbefore : Meets PathCache.step (fun _ op => op ∈ ops) .empty before :=
    meets_of_forall PathCache.step (fun _ op hop => hops ▸ List.mem_append_left _ hop) _
  have hbuilt :=
    exec_inv PathCache.step (I := PathCache.Built ops) (fun _ _ _ hop hs hb => hb.step hop hs) hbefore hrun hempty
  have hmem : .pathFor series revision viewport canvas ∈ ops := by rw [hops]; simp
  exact ⟨cache, hrun, hbuilt.pathFor hc hmem⟩

def unitRange : AxisRange F64 := ⟨⟨0⟩, F64.one, by decide +kernel⟩

def unitViewport : Viewport F64 := ⟨unitRange, unitRange⟩

def smallCanvas : CanvasSize F64 := ⟨F64.one, F64.one, by decide +kernel⟩

def twoPoints : Series F64 := ⟨⟨"r", by decide⟩, [⟨⟨0⟩, ⟨5⟩⟩, ⟨F64.one, ⟨7⟩⟩], by decide +kernel⟩

/-- The second call is a hit, and the third comes after the entry has been dropped. -/
def repeatedCalls : List CacheOp :=
  [.pathFor twoPoints 1 unitViewport smallCanvas, .pathFor twoPoints 1 unitViewport smallCanvas,
    .invalidateSeries twoPoints.id]

theorem path_cache_transparent_repeated : ∃ cache, exec PathCache.step .empty repeatedCalls = some cache ∧
    (cache.pathFor twoPoints 1 unitViewport smallCanvas).1 = buildPath twoPoints unitViewport smallCanvas := by
  have hc : Consistent (repeatedCalls ++ [.pathFor twoPoints 1 unitViewport smallCanvas]) := by
    intro series series' _ _ _ _ _ h h' _
    simp only [repeatedCalls, List.cons_append, List.nil_append, List.mem_cons, CacheOp.pathFor.injEq, reduceCtorEq,
      List.not_mem_nil, or_false, false_or, or_self] at h h'
    rw [h.1, h'.1]
  obtain ⟨cache, hrun, hpath, -⟩ := path_cache_transparent hc rfl
  exact ⟨cache, hrun, hpath⟩

end Pulseon
