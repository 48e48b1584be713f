import Mathlib.Tactic.Linarith
import Mathlib.Tactic.FieldSimp
import Pulseon.Brush
import Pulseon.Steps

/-!
# Gestures on the brush

Over exact coordinates every gesture keeps the selection in its home range and
at least one unit wide. The bounds of each clamp are in order because the
selection is, so no gesture panics, and every range it makes is valid.
-/

namespace Pulseon

/-- Exact coordinates. All are finite; the neighbours are for sums that rounding leaves unchanged. -/
instance : Scalar ℚ where
  isFinite _ := true
  lt x y := decide (x < y)
  le x y := decide (x ≤ y)
  one := 1
  add := (· + ·)
  sub := (· - ·)
  nextUp x := x
  nextDown x := x
  zero := 0
  mul := (· * ·)
  div := (· / ·)
  isSignNegative x := decide (x < 0)

namespace Exact

open Coordinate Scalar

/-! ## Operations -/

theorem minimum_eq (x y : ℚ) : minimum x y = min x y := by
  simp only [minimum, le, lt, le_refl, decide_true, Bool.not_true, Bool.false_eq_true, ite_false, decide_eq_true_eq]
  split_ifs with h
  · exact (min_eq_right (le_of_lt h)).symm
  · exact (min_eq_left (not_lt.mp h)).symm

theorem maximum_eq (x y : ℚ) : maximum x y = max x y := by
  simp only [maximum, le, lt, le_refl, decide_true, Bool.not_true, Bool.false_eq_true, ite_false, decide_eq_true_eq]
  split_ifs with h
  · exact (max_eq_right (le_of_lt h)).symm
  · exact (max_eq_left (not_lt.mp h)).symm

theorem same_iff {x y : ℚ} : same x y = true ↔ x = y := by
  simp only [same, le, Bool.and_eq_true, decide_eq_true_eq]
  exact le_antisymm_iff.symm

theorem clamp_eq {x lower upper : ℚ} (h : lower ≤ upper) :
    clamp x lower upper = some (max lower (min x upper)) := by
  simp only [clamp, le, lt, h, decide_true, ite_true, decide_eq_true_eq]
  split_ifs with hl hu
  · rw [max_eq_left ((min_le_left _ _).trans (le_of_lt hl))]
  · rw [min_eq_right (le_of_lt hu), max_eq_right h]
  · rw [min_eq_left (not_lt.mp hu), max_eq_right (not_lt.mp hl)]

theorem maximumStart_eq (stop : ℚ) : maximumStartForMinimumSpan stop = stop - 1 := by
  have h : (1 : ℚ) ≤ stop - (stop - 1) := by linarith
  simp only [maximumStartForMinimumSpan, minBrushSpan, sub, le, one, h, decide_true, ite_true]

theorem minimumEnd_eq (start : ℚ) : minimumEndForMinimumSpan start = start + 1 := by
  have h : (1 : ℚ) ≤ start + 1 - start := by linarith
  simp only [minimumEndForMinimumSpan, minBrushSpan, add, sub, le, one, h, decide_true, ite_true]

theorem rangeAccepted_iff {start stop : ℚ} : rangeAccepted start stop = true ↔ start < stop := by
  simp [rangeAccepted, isFinite, le]

theorem span_eq (r : AxisRange ℚ) : r.span = r.stop - r.start := rfl

theorem range_new {start stop : ℚ} (h : start < stop) :
    ∃ r : AxisRange ℚ, AxisRange.new start stop = .ok r ∧ r.start = start ∧ r.stop = stop := by
  refine ⟨⟨start, stop, rangeAccepted_iff.mpr h⟩, ?_, rfl, rfl⟩
  unfold AxisRange.new
  rw [dif_pos]

end Exact

/-! ## The invariant -/

/-- The selection lies in its home range and is at least one unit wide. -/
structure Selectable (b : BrushState ℚ) : Prop where
  start : b.home.start ≤ b.selected.start
  stop : b.selected.stop ≤ b.home.stop
  span : 1 ≤ b.selected.span

/-- What a call leaves: an error is the refusal of its arguments and changes
nothing, a pan keeps the width, and a zoom keeps the anchor and scales the width
as far as the home range allows. -/
structure GestureEffect (b : BrushState ℚ) (g : Gesture ℚ) (outcome : Except ChartError Unit) (b' : BrushState ℚ) :
    Prop where
  home : b'.home = b.home
  selectable : Selectable b'
  valid : outcome = .ok () ∨ outcome = .error .invalidTransform
  refused : outcome ≠ .ok () → b' = b
  pan : ∀ delta, g = .panBy delta → b'.selected.span = b.selected.span
  zoom : ∀ anchor factor, g = .zoomAt anchor factor → outcome = .ok () →
    b'.selected.start ≤ anchor ∧ anchor ≤ b'.selected.stop ∧
      b'.selected.span = max 1 (min (b.selected.span / factor) b.home.span)

section
variable {b : BrushState ℚ} (h : Selectable b)
include h

open Coordinate Scalar Exact

theorem Selectable.home : 1 ≤ b.home.span := by
  have := h.start
  have := h.stop
  have := h.span
  rw [span_eq] at *
  linarith

theorem resizeStart_ok (position : ℚ) : ∃ r, b.resizeStart position = some (.ok { b with selected := r }) ∧
    Selectable { b with selected := r } := by
  have hspan := h.span
  rw [span_eq] at hspan
  have hclamp : b.home.start ≤ b.selected.stop - 1 := by linarith [h.start]
  have hend : max b.home.start (min position (b.selected.stop - 1)) ≤ b.selected.stop - 1 :=
    max_le hclamp (min_le_right _ _)
  obtain ⟨r, hr, hstart, hstop⟩ := range_new (show _ < b.selected.stop by linarith [hend])
  refine ⟨r, ?_, ?_, ?_, ?_⟩
  · simp only [BrushState.resizeStart, isFinite, Bool.not_true, Bool.false_eq_true, ite_false, maximumStart_eq,
      clamp_eq hclamp, Option.map_some]
    rw [hr]
    rfl
  · show b.home.start ≤ r.start
    rw [hstart]
    exact le_max_left _ _
  · show r.stop ≤ b.home.stop
    rw [hstop]
    exact h.stop
  · show 1 ≤ r.span
    rw [span_eq, hstart, hstop]
    linarith

theorem resizeEnd_ok (position : ℚ) : ∃ r, b.resizeEnd position = some (.ok { b with selected := r }) ∧
    Selectable { b with selected := r } := by
  have hspan := h.span
  rw [span_eq] at hspan
  have hclamp : b.selected.start + 1 ≤ b.home.stop := by linarith [h.stop]
  have hend : b.selected.start + 1 ≤ max (b.selected.start + 1) (min position b.home.stop) := le_max_left _ _
  obtain ⟨r, hr, hstart, hstop⟩ := range_new (show b.selected.start < _ by linarith [hend])
  refine ⟨r, ?_, ?_, ?_, ?_⟩
  · simp only [BrushState.resizeEnd, isFinite, Bool.not_true, Bool.false_eq_true, ite_false, minimumEnd_eq,
      clamp_eq hclamp, Option.map_some]
    rw [hr]
    rfl
  · show b.home.start ≤ r.start
    rw [hstart]
    exact h.start
  · show r.stop ≤ b.home.stop
    rw [hstop]
    exact max_le hclamp (min_le_right _ _)
  · show 1 ≤ r.span
    rw [span_eq, hstart, hstop]
    linarith

theorem panBy_ok (delta : ℚ) : ∃ r, b.panBy delta = some (.ok { b with selected := r }) ∧
    Selectable { b with selected := r } ∧ r.span = b.selected.span := by
  have hspan := h.span
  rw [span_eq] at hspan
  have hclamp : b.home.start - b.selected.start ≤ b.home.stop - b.selected.stop := by linarith [h.start, h.stop]
  have hlower := le_max_left (b.home.start - b.selected.start) (min delta (b.home.stop - b.selected.stop))
  have hupper : max (b.home.start - b.selected.start) (min delta (b.home.stop - b.selected.stop)) ≤
      b.home.stop - b.selected.stop := max_le hclamp (min_le_right _ _)
  generalize hd : max (b.home.start - b.selected.start) (min delta (b.home.stop - b.selected.stop)) =
    d at hlower hupper
  have hends : b.pannedEnds d = (b.selected.start + d, b.selected.stop + d) := by
    have hwide : ¬ b.selected.stop + d - (b.selected.start + d) < 1 := by linarith
    simp only [BrushState.pannedEnds, minBrushSpan, add, sub, lt, one, hwide, decide_false,
      Bool.false_eq_true, ite_false]
  obtain ⟨r, hr, hstart, hstop⟩ := range_new (show b.selected.start + d < b.selected.stop + d by linarith)
  refine ⟨r, ?_, ⟨?_, ?_, ?_⟩, ?_⟩
  · simp only [BrushState.panBy, isFinite, Bool.not_true, Bool.false_eq_true, ite_false, sub, clamp_eq hclamp, hd,
      Option.map_some, hends]
    rw [hr]
    rfl
  · show b.home.start ≤ r.start
    linarith
  · show r.stop ≤ b.home.stop
    linarith
  · show 1 ≤ r.span
    rw [span_eq]
    linarith
  · rw [span_eq, span_eq]
    linarith

variable {anchor factor : ℚ} (hf : 0 < factor) (hl : b.selected.start ≤ anchor) (hu : anchor ≤ b.selected.stop)

/-- The part of the selection before the anchor, scaled with it, stays on its side. -/
theorem anchor_between {span : ℚ} (hs : 0 ≤ span) (hl : b.selected.start ≤ anchor) (hu : anchor ≤ b.selected.stop) :
    anchor - (anchor - b.selected.start) / b.selected.span * span ≤ anchor ∧
      anchor ≤ anchor - (anchor - b.selected.start) / b.selected.span * span + span := by
  have hpos : 0 < b.selected.span := by linarith [h.span]
  have hratio : 0 ≤ (anchor - b.selected.start) / b.selected.span := div_nonneg (by linarith) hpos.le
  have hratio' : (anchor - b.selected.start) / b.selected.span ≤ 1 := by
    rw [div_le_one hpos, span_eq]
    linarith
  have hlo := mul_nonneg hratio hs
  have hhi := mul_le_of_le_one_left hs hratio'
  constructor <;> linarith

/-- The clamped start of a zoom leaves its span in the home range and around the anchor. -/
theorem zoomed_start {span raw : ℚ} (hroom : b.home.start ≤ b.home.stop - span) (hl : b.selected.start ≤ anchor)
    (hu : anchor ≤ b.selected.stop) (hlo : raw ≤ anchor) (hhi : anchor ≤ raw + span) :
    max b.home.start (min raw (b.home.stop - span)) + span ≤ b.home.stop ∧
      max b.home.start (min raw (b.home.stop - span)) ≤ anchor ∧
      anchor ≤ max b.home.start (min raw (b.home.stop - span)) + span := by
  have hmax : max b.home.start (min raw (b.home.stop - span)) ≤ b.home.stop - span :=
    max_le hroom (min_le_right _ _)
  refine ⟨by linarith, max_le (by linarith [h.start]) ((min_le_left _ _).trans hlo), ?_⟩
  rcases le_total raw (b.home.stop - span) with hr | hr
  · rw [min_eq_left hr]
    linarith [le_max_right b.home.start raw]
  · rw [min_eq_right hr, max_eq_right hroom]
    linarith [h.stop]

include hf hl hu

theorem zoomAt_ok : ∃ r, b.zoomAt anchor factor = some (.ok { b with selected := r }) ∧
    Selectable { b with selected := r } ∧ r.start ≤ anchor ∧ anchor ≤ r.stop ∧
    r.span = max 1 (min (b.selected.span / factor) b.home.span) := by
  have hvalid : (!isFinite anchor || !isFinite factor || le factor (zero : ℚ) || lt anchor b.selected.start ||
      lt b.selected.stop anchor) = false := by
    simp only [isFinite, le, lt, zero, Bool.not_true, Bool.false_or, Bool.or_eq_false_iff, decide_eq_false_iff_not]
    exact ⟨⟨not_le.mpr hf, not_lt.mpr hl⟩, not_lt.mpr hu⟩
  have hhome := h.home
  have hin : b.selected.span ≤ b.home.span := by
    rw [span_eq, span_eq]
    linarith [h.start, h.stop]
  unfold BrushState.zoomAt
  simp only [hvalid, Bool.false_eq_true, ite_false, same_iff, one]
  by_cases h1 : factor = 1
  · refine ⟨b.selected, by rw [if_pos h1], h, hl, hu, ?_⟩
    rw [h1, div_one, min_eq_left hin, max_eq_right h.span]
  · rw [if_neg h1]
    have hclamp : (1 : ℚ) ≤ b.home.span := hhome
    simp only [minBrushSpan, one, div, clamp_eq hclamp, Option.bind_some]
    have hone := le_max_left 1 (min (b.selected.span / factor) b.home.span)
    have hle : max 1 (min (b.selected.span / factor) b.home.span) ≤ b.home.span := max_le hhome (min_le_right _ _)
    generalize max 1 (min (b.selected.span / factor) b.home.span) = span at hone hle ⊢
    by_cases hfull : span = b.home.span
    · refine ⟨b.home, by rw [if_pos hfull], ⟨le_refl _, le_refl _, hhome⟩, ?_, ?_, hfull.symm⟩
      · linarith [h.start]
      · linarith [h.stop]
    · rw [if_neg hfull]
      obtain ⟨hlo, hhi⟩ := anchor_between h (show 0 ≤ span by linarith) hl hu
      have hroom : b.home.start ≤ b.home.stop - span := by
        rw [span_eq] at hle
        linarith
      have hlatest : min (b.home.stop - span) (b.home.stop - 1) = b.home.stop - span := min_eq_left (by linarith)
      simp only [minimum_eq, maximum_eq, maximumStart_eq, minimumEnd_eq, sub, add, mul, hlatest, clamp_eq hroom,
        Option.map_some]
      generalize anchor - (anchor - b.selected.start) / b.selected.span * span = raw at hlo hhi
      have hge := le_max_left b.home.start (min raw (b.home.stop - span))
      obtain ⟨hmax, hbefore, hafter⟩ := zoomed_start h hroom hl hu hlo hhi
      generalize max b.home.start (min raw (b.home.stop - span)) = start at hge hmax hbefore hafter ⊢
      have hstop' : min (max (start + span) (start + 1)) b.home.stop = start + span := by
        rw [max_eq_left (by linarith), min_eq_left (by linarith)]
      rw [hstop']
      obtain ⟨r, hr, hstart, hstop⟩ := range_new (show start < start + span by linarith)
      refine ⟨r, by rw [hr]; rfl, ⟨?_, ?_, ?_⟩, ?_, ?_, ?_⟩
      · show b.home.start ≤ r.start
        rwa [hstart]
      · show r.stop ≤ b.home.stop
        linarith
      · show 1 ≤ r.span
        rw [span_eq]
        linarith
      · rwa [hstart]
      · rwa [hstop]
      · rw [span_eq]
        linarith

omit h hf hl hu in
theorem zoomAt_refused (hr : ¬ (0 < factor ∧ b.selected.start ≤ anchor ∧ anchor ≤ b.selected.stop)) :
    b.zoomAt anchor factor = some (.error .invalidTransform) := by
  have hinvalid : (!isFinite anchor || !isFinite factor || le factor (zero : ℚ) || lt anchor b.selected.start ||
      lt b.selected.stop anchor) = true := by
    simp only [isFinite, le, lt, zero, Bool.not_true, Bool.false_or, Bool.or_eq_true, decide_eq_true_eq]
    by_contra hn
    simp only [not_or, not_le, not_lt] at hn
    exact hr ⟨hn.1.1, hn.1.2, hn.2⟩
  unfold BrushState.zoomAt
  rw [hinvalid]
  rfl

end

/-! ## Gestures -/

theorem GestureEffect.of_ok {b : BrushState ℚ} {g : Gesture ℚ} {r : AxisRange ℚ}
    (hs : Selectable { b with selected := r }) (hpan : ∀ delta, g = .panBy delta → r.span = b.selected.span)
    (hzoom : ∀ anchor factor, g = .zoomAt anchor factor →
      r.start ≤ anchor ∧ anchor ≤ r.stop ∧ r.span = max 1 (min (b.selected.span / factor) b.home.span)) :
    GestureEffect b g (.ok ()) { b with selected := r } where
  home := rfl
  selectable := hs
  valid := Or.inl rfl
  refused hn := absurd rfl hn
  pan := hpan
  zoom anchor factor e _ := hzoom anchor factor e

theorem gesture_effect {b : BrushState ℚ} (h : Selectable b) (g : Gesture ℚ) :
    ∃ outcome b', b.gesture g = some (outcome, b') ∧ GestureEffect b g outcome b' := by
  cases g with
  | resizeStart position =>
    obtain ⟨r, hr, hs⟩ := resizeStart_ok h position
    refine ⟨_, _, by simp only [BrushState.gesture, hr, Option.map_some], .of_ok hs ?_ ?_⟩
    · intro _ e; cases e
    · intro _ _ e; cases e
  | resizeEnd position =>
    obtain ⟨r, hr, hs⟩ := resizeEnd_ok h position
    refine ⟨_, _, by simp only [BrushState.gesture, hr, Option.map_some], .of_ok hs ?_ ?_⟩
    · intro _ e; cases e
    · intro _ _ e; cases e
  | panBy delta =>
    obtain ⟨r, hr, hs, hspan⟩ := panBy_ok h delta
    refine ⟨_, _, by simp only [BrushState.gesture, hr, Option.map_some], .of_ok hs ?_ ?_⟩
    · intro _ _; exact hspan
    · intro _ _ e; cases e
  | zoomAt anchor factor =>
    by_cases hvalid : 0 < factor ∧ b.selected.start ≤ anchor ∧ anchor ≤ b.selected.stop
    · obtain ⟨hf, hl, hu⟩ := hvalid
      obtain ⟨r, hr, hs, hzoom⟩ := zoomAt_ok h hf hl hu
      refine ⟨_, _, by simp only [BrushState.gesture, hr, Option.map_some], .of_ok hs ?_ ?_⟩
      · intro _ e; cases e
      · intro _ _ e; cases e; exact hzoom
    · have hr := zoomAt_refused hvalid
      refine ⟨.error .invalidTransform,
        b, by simp only [BrushState.gesture, hr, Option.map_some], rfl, h, Or.inr rfl,
        ?_, ?_, ?_⟩
      · intro _; rfl
      · intro _ e; cases e
      · intro _ _ _ e; cases e
  | reset =>
    refine ⟨_, _, rfl, .of_ok (r := b.home) ⟨le_refl _, le_refl _, h.home⟩ ?_ ?_⟩
    · intro _ e; cases e
    · intro _ _ e; cases e

/-- A gesture that panics is not a step. -/
def BrushState.step (b : BrushState ℚ) (g : Gesture ℚ) : Option (BrushState ℚ) := (b.gesture g).map Prod.snd

theorem selectable_new {home : AxisRange ℚ} {b : BrushState ℚ} (h : BrushState.new home = .ok b) :
    b.home = home ∧ Selectable b := by
  unfold BrushState.new at h
  split at h
  · cases h
  · rename_i hspan
    cases h
    exact ⟨rfl, le_refl _, le_refl _, not_lt.mp fun hlt => hspan (decide_eq_true hlt)⟩

/-- No gesture panics or makes an invalid range, and all keep the selection in
its home range and wide enough, in every state that gestures reach. -/
theorem brush_kept_in_home {home : AxisRange ℚ} {start : BrushState ℚ} (hnew : BrushState.new home = .ok start)
    (gestures : List (Gesture ℚ)) :
    ∃ b, exec BrushState.step start gestures = some b ∧ b.home = home ∧ Selectable b ∧
      ∀ g, ∃ outcome b', b.gesture g = some (outcome, b') ∧ GestureEffect b g outcome b' := by
  obtain ⟨hhome, hstart⟩ := selectable_new hnew
  clear hnew
  induction gestures generalizing start with
  | nil => exact ⟨start, rfl, hhome, hstart, gesture_effect hstart⟩
  | cons g gestures ih =>
    obtain ⟨outcome, b, hg, he⟩ := gesture_effect hstart g
    obtain ⟨b', hexec, hb'⟩ := ih (he.home.trans hhome) he.selectable
    have hstep : start.step g = some b := by rw [BrushState.step, hg]; rfl
    exact ⟨b', (exec_cons BrushState.step).mpr ⟨b, hstep, hexec⟩, hb'⟩

def tenUnits : AxisRange ℚ := ⟨0, 10, by decide +kernel⟩

def pannedAndZoomed : List (Gesture ℚ) := [.resizeEnd (1 / 2), .panBy 3, .zoomAt 4 (1 / 20)]

theorem brush_kept_in_home_zoomed : ∃ b, exec BrushState.step ⟨tenUnits, tenUnits⟩ pannedAndZoomed = some b ∧
    Selectable b := by
  have hnew : BrushState.new tenUnits = .ok ⟨tenUnits, tenUnits⟩ := if_neg (by decide +kernel)
  obtain ⟨b, hexec, -, hb, -⟩ := brush_kept_in_home hnew pannedAndZoomed
  exact ⟨b, hexec, hb⟩

end Pulseon
