import Pulseon.BrushClamps
import Pulseon.CoverageSound

/-!
# Which steps of the desktop panic

A new overview lays the old selection over a brush of its own range, and both
handles find their place there. After that the gestures of a run keep the brush
roomy, so that no drag, no zoom and no event panics, except for a drag of the
start handle once the selection ends less than one unit after the home range
begins.
-/

namespace Pulseon

namespace F64

/-! ## The ends of a whole number -/

/-- Beyond the limit no double is within one unit below a whole number. -/
theorem below_whole {x b : F64} {z : Nat} (hz : wholeLimit < z) (hb : b.signedUnits = (z * unitsPerOne : Nat))
    (h : x.signedUnits < b.signedUnits) : x.signedUnits + unitsPerOne ≤ b.signedUnits := by
  have hbu : units b.magnitude = z * unitsPerOne := by rw [← natAbs_signedUnits, hb, Int.natAbs_natCast]
  by_cases hneg : x.signedUnits < 0
  · have := Nat.le_mul_of_pos_left unitsPerOne (show 0 < z by omega)
    omega
  · have hxu : x.signedUnits = units x.magnitude := by rw [← natAbs_signedUnits]; omega
    have hlimit : units (unitExponent * 2 ^ 52 + 2 ^ 52) = wholeLimit * unitsPerOne := by
      rw [units_normal le_rfl (Nat.pow_le_pow_right (by decide) (by decide)), wholeLimit, unitsPerOne]
    have habove : unitExponent * 2 ^ 52 + 2 ^ 52 < b.magnitude := by
      apply units_strictMono.lt_iff_lt.mp
      rw [hlimit, hbu]
      exact Nat.mul_lt_mul_of_pos_right hz (Nat.two_pow_pos unitExponent)
    have hbelow : x.magnitude < b.magnitude := units_strictMono.lt_iff_lt.mp (by omega)
    have hle := units_strictMono.monotone (show x.magnitude ≤ b.magnitude - 1 by omega)
    have hgap : unitsPerOne ≤ 2 ^ ((b.magnitude - 1) / 2 ^ 52 - 1) := by
      have hquot : (unitExponent * 2 ^ 52 + 2 ^ 52) / 2 ^ 52 ≤ (b.magnitude - 1) / 2 ^ 52 :=
        Nat.div_le_div_right (by omega)
      rw [← Nat.add_one_mul, Nat.mul_div_cancel _ (by decide)] at hquot
      rw [unitsPerOne]
      exact Nat.pow_le_pow_right (by decide) (by omega)
    have hsucc := units_succ (b.magnitude - 1)
    rw [show b.magnitude - 1 + 1 = b.magnitude by omega] at hsucc
    omega

section
variable {b : F64} (hb : b.isFinite = true) {z : Nat} (hu : b.signedUnits = (z * unitsPerOne : Nat)) (hz : 1 ≤ z)
include hb hu hz

/-- The latest start is a double below its end, and not before what is one unit below the end. -/
theorem maximumStart_between : (maximumStartForMinimumSpan b).isFinite = true ∧
    (maximumStartForMinimumSpan b).signedUnits < b.signedUnits ∧
      ∀ x : F64, x.isFinite = true → x.signedUnits + unitsPerOne ≤ b.signedUnits →
        x.signedUnits ≤ (maximumStartForMinimumSpan b).signedUnits := by
  have hf : one.isFinite = true := by decide
  have hunit : (one : F64).signedUnits = unitsPerOne := signedUnits_one
  have hpos := unitsPerOne_pos
  have hone : unitsPerOne ≤ z * unitsPerOne := Nat.le_mul_of_pos_left _ hz
  have hfin : (b.sub one).isFinite = true :=
    isFinite_sub hb hf (m := b.magnitude) (of_decide_eq_true hb) (by rw [hunit, ← natAbs_signedUnits]; omega)
  have hsub : (b.sub one).signedUnits = (ofUnits (b.signedUnits - unitsPerOne)).signedUnits := by
    rw [signedUnits_sub hb hf, hunit]
  unfold maximumStartForMinimumSpan
  dsimp only
  split
  · rename_i hwide
    refine ⟨hfin, ?_, fun x hx hle => ?_⟩
    · show (b.sub one).signedUnits < b.signedUnits
      have hle : (b.sub one).signedUnits ≤ b.signedUnits := hsub ▸ ofUnits_le hb (by omega)
      by_contra hge
      have hself : b.signedUnits - (b.sub one).signedUnits = 0 := by omega
      have hbfin : (b.sub (b.sub one)).isFinite = true :=
        isFinite_sub hb hfin (m := 0) (by decide) (by rw [hself]; simp)
      have := (le_iff hf hbfin).mp hwide
      rw [signedUnits_sub hb hfin, hself, signedUnits_ofUnits_zero, hunit] at this
      omega
    · show x.signedUnits ≤ (b.sub one).signedUnits
      rw [hsub]
      exact le_ofUnits hx (by omega)
  · have hzero := signedUnits_zero false
    have hdown := isFinite_nextDown hb (y := ofMagnitude false 0) (by decide) (by omega)
    exact ⟨hdown, nextDown_lt hb hdown, fun x hx hle => le_nextDown hb hx (by omega) hdown⟩

/-- A start up to the latest one leaves one unit of room. -/
theorem room_of_le_maximumStart {x : F64} (hx : x.signedUnits ≤ (maximumStartForMinimumSpan b).signedUnits) :
    x.signedUnits + unitsPerOne ≤ b.signedUnits := by
  rcases Nat.lt_or_ge wholeLimit z with hlimit | hlimit
  · have := (maximumStart_between hb hu hz).2.1
    exact below_whole hlimit hu (by omega)
  · have hone : unitsPerOne ≤ z * unitsPerOne := Nat.le_mul_of_pos_left _ hz
    have := (maximumStart_whole hb (by omega) hlimit (by omega) (by omega)).2
    omega

end

end F64

open F64

/-! ## The brush of a new overview -/

/-- The home range has whole ends, and up to the limit the brush is roomy. -/
def BrushState.Guarded (b : BrushState F64) : Prop :=
  ∃ a z : Nat, b.home.start.signedUnits = (a * unitsPerOne : Nat) ∧
    b.home.stop.signedUnits = (z * unitsPerOne : Nat) ∧ (z ≤ wholeLimit → b.Roomy a z)

namespace BrushState

theorem whole_rendered {n : Int} (h0 : 0 ≤ n) (hn : I64 n) :
    ∃ a : Nat, (ofInt n).signedUnits = (a * unitsPerOne : Nat) := by
  have hrendered : 0 ≤ nearestDouble n := nearestDouble_mono (a := 0) (by decide) (I64.limit hn) h0
  refine ⟨(nearestDouble n).toNat, ?_⟩
  rw [signedUnits_ofInt (I64.limit hn), Nat.cast_mul, Int.toNat_of_nonneg hrendered]

theorem new_selected {home : AxisRange F64} {b : BrushState F64} (h : BrushState.new home = .ok b) :
    b = ⟨home, home⟩ := by
  unfold BrushState.new at h
  split at h
  · cases h
  · cases h; rfl

section
variable {home : AxisRange F64} {a z : Nat} (hstart : home.start.signedUnits = (a * unitsPerOne : Nat))
  (hstop : home.stop.signedUnits = (z * unitsPerOne : Nat))
include hstart hstop

theorem whole_ordered : a + 1 ≤ z ∧ home.start.signedUnits + unitsPerOne ≤ home.stop.signedUnits := by
  have hlt := home.finite.2.2
  rw [hstart, hstop, Int.ofNat_lt] at hlt
  have hordered : a + 1 ≤ z := Nat.lt_of_mul_lt_mul_right hlt
  have hle := Nat.mul_le_mul_right unitsPerOne hordered
  rw [Nat.add_one_mul] at hle
  exact ⟨hordered, by rw [hstart, hstop]; omega⟩

theorem roomy_home (hz : z ≤ wholeLimit) : (⟨home, home⟩ : BrushState F64).Roomy a z :=
  ⟨hz, hstart, hstop, le_rfl, le_rfl, (whole_ordered hstart hstop).2, fun _ => rfl⟩

/-- Both handles find their place in a new brush. -/
theorem handles_some (start stop : F64) :
    ∃ outcome, (⟨home, home⟩ : BrushState F64).resizeStart start = some outcome ∧
    ∀ b, outcome = .ok b → b.home = home ∧ b.resizeEnd stop ≠ none := by
  obtain ⟨hz, hroom⟩ := whole_ordered hstart hstop
  obtain ⟨hmf, -, hmax⟩ := maximumStart_between home.finite.2.1 hstop (by omega)
  have hfits := hmax home.start home.finite.1 hroom
  unfold BrushState.resizeStart
  split
  · exact ⟨_, rfl, fun b hb => by cases hb⟩
  · obtain ⟨s, hc⟩ :=
      Option.ne_none_iff_exists'.mp (show clamp start home.start (maximumStartForMinimumSpan home.stop) ≠ none by
      rw [ne_eq, clamp_none, Bool.not_eq_false]
      exact (le_iff home.finite.1 hmf).mpr hfits)
    refine ⟨_, by rw [hc]; rfl, fun b hb => ?_⟩
    obtain ⟨r, rfl, rfl, -⟩ := selected_of_ok (b := ⟨home, home⟩) hb
    refine ⟨rfl, ?_⟩
    have hlow := lower_le_clamp hc home.finite.1 r.finite.1
    have hhigh := clamp_le_upper hc hmf r.finite.1
    have h0 : 0 ≤ r.start.signedUnits := by omega
    have hend := room_of_le_maximumStart home.finite.2.1 hstop (by omega) hhigh
    obtain ⟨hef, he⟩ := minimumEnd_le r.finite.1 h0 home.finite.2.1 hend
    unfold BrushState.resizeEnd
    split
    · simp
    · rw [ne_eq, Option.map_eq_none_iff, clamp_none, Bool.not_eq_false]
      exact (le_iff hef home.finite.2.1).mpr he

end

theorem gesture_home {b b' : BrushState F64} {g : Gesture F64} {outcome : Except ChartError Unit}
    (hg : b.gesture g = some (outcome, b')) : b'.home = b.home := by
  unfold BrushState.gesture at hg
  obtain ⟨result, hr, hg⟩ := Option.map_eq_some_iff.mp hg
  cases result with
  | error e => cases hg; rfl
  | ok moved =>
    cases hg
    cases g with
    | resizeStart position =>
      replace hr : b.resizeStart position = some (.ok b') := hr
      unfold BrushState.resizeStart at hr
      split at hr
      · cases hr
      · obtain ⟨start, -, hr⟩ := Option.map_eq_some_iff.mp hr
        obtain ⟨r, rfl, -⟩ := selected_of_ok hr
        rfl
    | resizeEnd position =>
      replace hr : b.resizeEnd position = some (.ok b') := hr
      unfold BrushState.resizeEnd at hr
      split at hr
      · cases hr
      · obtain ⟨stop, -, hr⟩ := Option.map_eq_some_iff.mp hr
        obtain ⟨r, rfl, -⟩ := selected_of_ok hr
        rfl
    | panBy delta =>
      replace hr : b.panBy delta = some (.ok b') := hr
      unfold BrushState.panBy at hr
      split at hr
      · cases hr
      · obtain ⟨room, -, hr⟩ := Option.map_eq_some_iff.mp hr
        obtain ⟨r, rfl, -⟩ := selected_of_ok hr
        rfl
    | zoomAt anchor factor =>
      replace hr : b.zoomAt anchor factor = some (.ok b') := hr
      unfold BrushState.zoomAt at hr
      split at hr
      · cases hr
      · split at hr
        · cases hr; rfl
        · obtain ⟨span, -, hr⟩ := Option.bind_eq_some_iff.mp hr
          split at hr
          · cases hr; rfl
          · obtain ⟨start, -, hr⟩ := Option.map_eq_some_iff.mp hr
            obtain ⟨r, rfl, -⟩ := selected_of_ok hr
            rfl
    | reset => cases hr; rfl

theorem Guarded.gesture {b b' : BrushState F64} (h : b.Guarded) {g : Gesture F64} {outcome : Except ChartError Unit}
    (hg : b.gesture g = some (outcome, b')) : b'.Guarded := by
  obtain ⟨a, z, hstart, hstop, hroomy⟩ := h
  refine ⟨a, z, ?_, ?_, fun hz => (hroomy hz).gesture hg⟩
  · rw [gesture_home hg, hstart]
  · rw [gesture_home hg, hstop]

theorem Guarded.reset {b : BrushState F64} (h : b.Guarded) : b.reset.Guarded :=
  h.gesture (g := .reset) rfl

end BrushState

namespace ViewerCore

section
variable {previous : Option (BrushState F64)} {range : AlignmentViewport} (h0 : 0 ≤ range.start)
    (ht : range.stop ≤ i64Max)
include h0 ht

theorem home_whole {home : AxisRange F64} (h : AxisRange.new (ofInt range.start) (ofInt range.stop) = .ok home) :
    ∃ a z : Nat, home.start.signedUnits = (a * unitsPerOne : Nat) ∧
      home.stop.signedUnits = (z * unitsPerOne : Nat) := by
  have hordered := range.ordered
  obtain ⟨hs, he⟩ := range_of_new h
  obtain ⟨a, ha⟩ := BrushState.whole_rendered h0 ⟨by omega, by omega⟩
  obtain ⟨z, hz⟩ := BrushState.whole_rendered (n := range.stop) (by omega) ⟨by omega, ht⟩
  exact ⟨a, z, hs ▸ ha, he ▸ hz⟩

theorem brushOver_some : brushOver previous range ≠ none := by
  unfold brushOver
  split
  · simp
  · rename_i home hhome
    obtain ⟨a, z, hstart, hstop⟩ := home_whole h0 ht hhome
    split
    · simp
    · rename_i fresh hfresh
      rw [BrushState.new_selected hfresh]
      split
      · simp
      · rename_i old
        obtain ⟨outcome, hfirst, hsecond⟩ :=
          BrushState.handles_some hstart hstop old.selected.start old.selected.stop
        rw [hfirst]
        cases outcome with
        | error e => simp
        | ok moved =>
          obtain ⟨last, hlast⟩ := Option.ne_none_iff_exists'.mp (hsecond moved rfl).2
          simp only [Option.bind_eq_bind, Option.bind_some, hlast]
          cases last <;> simp

theorem brushOver_guarded {brush : BrushState F64} (h : brushOver previous range = some (some brush)) :
    brush.Guarded := by
  unfold brushOver at h
  split at h
  · cases h
  · rename_i home hhome
    obtain ⟨a, z, hstart, hstop⟩ := home_whole h0 ht hhome
    split at h
    · cases h
    · rename_i fresh hfresh
      rw [BrushState.new_selected hfresh] at h
      have hguarded : (⟨home, home⟩ : BrushState F64).Guarded :=
        ⟨a, z, hstart, hstop, BrushState.roomy_home hstart hstop⟩
      split at h
      · cases h; exact hguarded
      · obtain ⟨first, hf, h⟩ := Option.bind_eq_some_iff.mp h
        cases first with
        | error e => cases h
        | ok moved =>
          obtain ⟨second, hs, h⟩ := Option.bind_eq_some_iff.mp h
          cases second with
          | error e => cases h
          | ok last =>
            cases h
            have hmoved : moved.Guarded :=
              hguarded.gesture (g := .resizeStart _) (by rw [BrushState.gesture, hf]; rfl)
            exact hmoved.gesture (g := .resizeEnd _) (by rw [BrushState.gesture, hs]; rfl)

end

theorem apply_some (core : ViewerCore) {event : ReadEvent}
    (hr : ∀ snapshot, event.result = .ok (.overview snapshot) → snapshot.Ranged) : core.apply event ≠ none := by
  unfold ViewerCore.apply
  split
  · simp
  · dsimp only
    split
    · simp
    · rename_i snapshot hs
      split
      · simp
      · cases snapshot with
        | catalog snapshot => simp
        | detail snapshot => simp
        | overview snapshot =>
          simp only [applyOverview, ne_eq, Option.map_eq_none_iff]
          unfold overviewBrush
          split
          · simp
          · rename_i range hrange
            obtain ⟨h0, ht⟩ := hr snapshot hs range hrange
            exact brushOver_some h0 ht

end ViewerCore

namespace ViewerApp

/-! ## Every brush of a run -/

section
variable {Path : Type} {platform : Platform Path} {app app' : ViewerApp Path} {sourceText : StorageError → String}
  {queryText : QueryError → String} {accepts : Int → Bool}

def Guards (app : ViewerApp Path) : Prop := ∀ brush, app.core.brush = some brush → brush.Guarded

theorem move_guards (hm : Move platform (ReadsStore sourceText queryText accepts) app app')
    (h : app.Ready sourceText queryText accepts) (hg : app.Guards) : app'.Guards := by
  cases hm with
  | close path worker localError => exact fun brush hb => by cases hb
  | user op hop =>
    intro brush hb
    obtain hb | ⟨old, ho, rfl⟩ := ViewerCore.change_brush hop hb
    · exact hg brush hb
    · exact (hg old ho).reset
  | gesture hb hgesture =>
    intro brush hb'
    obtain ⟨_, -, rfl⟩ := Option.map_eq_some_iff.mp hb'
    exact (hg _ hb).gesture hgesture
  | request hb =>
    unfold submit
    cases hw : app.worker <;> exact hg
  | @receive event events core outcome he ha =>
    intro brush hb
    obtain hb | ⟨snapshot, range, hs, hrange, hb⟩ := ViewerCore.apply_brush ha hb
    · exact hg brush hb
    · obtain ⟨h0, ht⟩ := h.ranged event (he ▸ List.mem_cons_self) snapshot hs range hrange
      exact ViewerCore.brushOver_guarded h0 ht hb
  | @work op reader hop hw hr =>
    obtain ⟨hcore, -, -⟩ := work_effect hr
    intro brush hb
    exact hg brush ((congrArg ViewerCore.brush hcore.symm).trans hb)
  | stop hw => exact hg
  | paint layout => exact hg
  | beside hb => rw [hb]; exact hg

/-! ## Which steps panic -/

/-- Two to the power of 52. -/
def wholeTop : F64 := ofInt 0x10000000000000

theorem signedUnits_wholeTop :
    wholeTop.isFinite = true ∧ wholeTop.signedUnits = (wholeLimit * unitsPerOne : Nat) := by
  refine ⟨by decide +kernel, ?_⟩
  have hrendered : nearestDouble 0x10000000000000 = wholeLimit := by decide +kernel
  rw [wholeTop, signedUnits_ofInt (by decide), hrendered, Nat.cast_mul]

theorem Guards.roomy (hg : app.Guards) {brush : BrushState F64} (hb : app.core.brush = some brush)
    (hlimit : brush.home.stop.le wholeTop = true) : ∃ a z, brush.Roomy a z := by
  obtain ⟨a, z, -, hstop, hroomy⟩ := hg brush hb
  obtain ⟨htf, htop⟩ := signedUnits_wholeTop
  have hle := (le_iff brush.home.finite.2.1 htf).mp hlimit
  rw [hstop, htop, Int.ofNat_le] at hle
  exact ⟨a, z, hroomy (Nat.le_of_mul_le_mul_right hle (Nat.two_pow_pos unitExponent))⟩

end

end ViewerApp

/-- One unit after a home range begins. -/
theorem BrushState.Roomy.home_next {b : BrushState F64} {a z : Nat} (h : b.Roomy a z) :
    (b.home.start.add one).isFinite = true ∧
      (b.home.start.add one).signedUnits = b.home.start.signedUnits + unitsPerOne := by
  have hf : one.isFinite = true := by decide
  have hunit : (one : F64).signedUnits = unitsPerOne := signedUnits_one
  have hnext : b.home.start.signedUnits + unitsPerOne = ((a + 1) * unitsPerOne : Nat) := by
    rw [h.homeStart, Nat.add_one_mul, Nat.cast_add]
  have hroom := h.home_room
  obtain ⟨m, hm, hu⟩ := exists_units (a := a + 1) (by
    have := h.ordered
    have := h.limit
    unfold wholeLimit at *
    omega)
  refine ⟨(add_of_le b.home.finite.1 hf b.home.finite.2.1 (by rw [hunit, hnext]; omega)
    (by rw [hunit]; exact hroom)).1, ?_⟩
  rw [signedUnits_add b.home.finite.1 hf, hunit, hnext]
  exact ofUnits_of_units (m := m) (Nat.le_of_lt hm) (by rw [Int.natAbs_natCast, hu])

/-- The handle of a drag that panics. -/
theorem BrushState.Roomy.drag_none {b : BrushState F64} {a z : Nat} (h : b.Roomy a z) (gesture : DragGesture)
    (axis : F64) :
    updateBrushDrag b gesture axis = none ↔ gesture = .brushStart ∧ axis.isFinite = true ∧
      axis.lt b.selected.stop = true ∧ b.selected.stop.lt (b.home.start.add one) = true := by
  obtain ⟨hnf, hnext⟩ := h.home_next
  have hnarrow : b.selected.stop.lt (b.home.start.add one) = true ↔ b.Cornered := by
    rw [lt_iff b.selected.finite.2.1 hnf, hnext, Cornered]
  rw [hnarrow]
  cases gesture with
  | brushStart =>
    simp only [updateBrushDrag]
    split
    · rename_i hlt
      simp [h.gesture_none, hlt]
    · rename_i hlt
      simp [hlt]
  | brushStop =>
    simp only [updateBrushDrag]
    split <;> simp [h.gesture_none]
  | brushWindow lastAxis => simp [updateBrushDrag, h.gesture_none]
  | detail lastX => simp [updateBrushDrag]

namespace ViewerApp

section
variable {Path : Type} {platform : Platform Path} {app : ViewerApp Path} {sourceText : StorageError → String}
  {queryText : QueryError → String} {accepts : Int → Bool}

theorem Ready.applyEvent_none (h : app.Ready sourceText queryText accepts) :
    app.applyEvent platform = none ↔ app.reader.events = [] := by
  unfold applyEvent
  cases he : app.reader.events with
  | nil => simp
  | cons event events =>
    obtain ⟨applied, ha⟩ := Option.ne_none_iff_exists'.mp
      (ViewerCore.apply_some app.core (h.ranged event (he ▸ List.mem_cons_self)))
    have hd : app.reader.deliver ≠ none := by
      unfold Reader.deliver
      rw [he]
      simp [show app.reader.core.apply event = some applied from ha]
    simp [ha, hd]

section
variable {brush : BrushState F64} (hb : app.core.brush = some brush) {a z : Nat} (h : brush.Roomy a z)
include hb h

theorem moveBrushDrag_none (cursor : Position F32) : app.moveBrushDrag cursor = none ↔ app.drag = some .brushStart ∧
    ∃ axis, app.adapter.overviewAxisAt brush cursor = some axis ∧ axis.isFinite = true ∧
      axis.lt brush.selected.stop = true ∧ brush.selected.stop.lt (brush.home.start.add one) = true := by
  unfold moveBrushDrag
  cases hd : app.drag with
  | none => simp
  | some gesture =>
    simp only [hb]
    cases ha : app.adapter.overviewAxisAt brush cursor with
    | none => simp
    | some axis => simp [h.drag_none gesture axis]

theorem moveDetailDrag_some (cursor : Position F32) : app.moveDetailDrag cursor ≠ none := by
  unfold moveDetailDrag
  split
  · simp only [hb]
    split
    · simp
    · simp [h.gesture_none]
  · simp

theorem zoomDetail_some (cursor : Position F32) (delta : F32) : app.zoomDetail platform cursor delta ≠ none := by
  unfold zoomDetail
  simp only [hb]
  split
  · simp
  · simp [h.gesture_none]

end

/-- In every run an event never panics. While the home range ends at or before
two to the power of 52, neither do zooms and drags, but for the start handle:
it panics just when the selection ends less than one unit after the home range
begins, and the cursor is before that end. -/
theorem desktop_panics {ops : List AppOp}
    (hm : Meets (step platform) (fun _ op => Works (ReadsStore sourceText queryText accepts) op) {} ops)
    (h : exec (step platform) {} ops = some app) (hlt : app.nextGeneration < u64Max) :
    (app.applyEvent platform = none ↔ app.reader.events = []) ∧
      ∀ brush, app.core.brush = some brush → brush.home.stop.le wholeTop = true →
        (∀ cursor, app.moveDetailDrag cursor ≠ none) ∧
          (∀ cursor delta, app.zoomDetail platform cursor delta ≠ none) ∧
          ∀ cursor, app.moveBrushDrag cursor = none ↔ app.drag = some .brushStart ∧
            ∃ axis, app.adapter.overviewAxisAt brush cursor = some axis ∧ axis.isFinite = true ∧
              axis.lt brush.selected.stop = true ∧ brush.selected.stop.lt (brush.home.start.add one) = true := by
  have hinv : app.Ready sourceText queryText accepts ∧ app.Guards := by
    refine @exec_inv _ _ (step platform) _
      (fun app => app.nextGeneration < u64Max → app.Ready sourceText queryText accepts ∧ app.Guards)
      (fun app op app' hop hs happ hlt => ?_) _ _ _ hm h (fun _ => ⟨ready_init, fun _ hb => by cases hb⟩) hlt
    refine @Moves.inv _ _ _
      (fun app => app.nextGeneration < u64Max → app.Ready sourceText queryText accepts ∧ app.Guards)
      (fun _ _ hmove happ hlt => ?_) _ _ (step_moves hop hs) happ hlt
    obtain ⟨hready, hguards⟩ := happ (move_unsaturated hmove hlt)
    exact ⟨move_ready hmove (fun _ => hready) hlt, move_guards hmove hready hguards⟩
  refine ⟨hinv.1.applyEvent_none, fun brush hb hlimit => ?_⟩
  obtain ⟨a, z, hroomy⟩ := hinv.2.roomy hb hlimit
  exact ⟨moveDetailDrag_some hb hroomy, zoomDetail_some hb hroomy, moveBrushDrag_none hb hroomy⟩

/-! Over the points at steps 0 and 10, the start handle goes to 0.775, the end handle
to 0.95 and the start handle towards 0.5. -/

def narrowed : List AppOp :=
  [.draw squares, .beginBrushDrag (pixel ⟨0⟩), .moveBrushDrag (pixel ⟨0x40f80000⟩), .finishDrag,
    .beginBrushDrag (pixel ⟨0x42c80000⟩), .moveBrushDrag (pixel ⟨0x41180000⟩), .finishDrag,
    .beginBrushDrag (pixel ⟨0x40a00000⟩)]

theorem narrowed_works :
    ∀ op ∈ pairOps ++ narrowed, Works (ReadsStore (fun _ => "") (fun _ => "") nearEpoch) op := by
  simp only [List.forall_mem_append]
  exact ⟨pairOps_works, by simp [narrowed, Works]⟩

theorem desktop_panics_pair : ∃ app, exec (step positions) {} (pairOps ++ narrowed) = some app ∧
    app.moveBrushDrag (pixel ⟨0x40a00000⟩) = none := by
  have hrun : (exec (step positions) {} (pairOps ++ narrowed)).any
    (fun app => decide (app.nextGeneration < u64Max) &&
      decide (app.drag = some .brushStart) && app.core.brush.any fun b => b.home.stop.le wholeTop &&
        b.selected.stop.lt (b.home.start.add one) &&
          (app.adapter.overviewAxisAt b (pixel ⟨0x40a00000⟩)).any fun axis =>
          axis.isFinite && axis.lt b.selected.stop) = true := by decide +kernel
  obtain ⟨app, happ, h⟩ := (Option.any_eq_true _ _).mp hrun
  simp only [Bool.and_eq_true, decide_eq_true_eq] at h
  obtain ⟨⟨hlt, hdrag⟩, h⟩ := h
  obtain ⟨brush, hb, h⟩ := (Option.any_eq_true _ _).mp h
  simp only [Bool.and_eq_true] at h
  obtain ⟨⟨hlimit, hnarrow⟩, h⟩ := h
  obtain ⟨axis, haxis, h⟩ := (Option.any_eq_true _ _).mp h
  simp only [Bool.and_eq_true] at h
  have hm := meets_of_forall (step positions) (fun _ op hop => narrowed_works op hop) {}
  have hpanics := ((desktop_panics hm happ hlt).2 brush hb hlimit).2.2 (pixel ⟨0x40a00000⟩)
  exact ⟨app, happ, hpanics.mpr ⟨hdrag, axis, haxis, h.1, h.2, hnarrow⟩⟩

end

end ViewerApp

end Pulseon
