import Pulseon.ProjectionSound

/-!
# Where a gesture panics

Over a home range of whole numbers up to two to the power of 52 the bounds of
every clamp are in order but for one: when the selection ends less than one unit
after the start of the home range, the start handle has nowhere to go. The end
handle can be brought there, as the least end falls back to the next double
where rounding takes the sum with one unit below it.
-/

namespace Pulseon

namespace F64

/-! ## Exact results -/

theorem ofUnits_of_units {n : Int} {m : Nat} (hm : m ≤ infinity) (h : n.natAbs = units m) :
    (ofUnits n).signedUnits = n := by
  rw [signedUnits_ofUnits, h, roundUnits_units hm, ← h]
  split_ifs <;> omega

theorem ofUnits_neg (n : Int) : (ofUnits (-n)).signedUnits = -(ofUnits n).signedUnits := by
  have hzero : units (roundUnits 0) = 0 := by
    have h : roundUnits 0 = 0 := roundUnits_units (m := 0) (Nat.zero_le _)
    rw [h, units_zero]
  rw [signedUnits_ofUnits, signedUnits_ofUnits, Int.natAbs_neg]
  rcases lt_trichotomy n 0 with h | rfl | h
  · rw [if_neg (by omega), if_pos h, Int.neg_neg]
  · simp [hzero]
  · rw [if_pos (by omega), if_neg (by omega)]

/-- Two to the power of 52, up to which whole numbers have even magnitudes. -/
def wholeLimit : Nat := 2 ^ 52

/-- Below the limit a double is a multiple of a power of two that divides one. -/
theorem exists_bits {m z : Nat} (h : units m ≤ z * unitsPerOne) (hz : z ≤ wholeLimit) :
    ∃ q e, units m = q * 2 ^ e ∧ q < 2 ^ 53 ∧ e ≤ unitExponent := by
  by_cases hm : m < 2 ^ 52
  · exact ⟨m, 0, by rw [units_small (by omega), Nat.pow_zero, Nat.mul_one], by omega, Nat.zero_le _⟩
  · obtain ⟨e, q, rfl, hl, hr⟩ := exists_binade (b := 52) (Nat.le_of_not_lt hm)
    have hu := units_normal (e := e) hl (Nat.le_of_lt hr)
    rw [hu] at h
    have he : e ≤ unitExponent := exponent_le h hl hz
    exact ⟨q, e, hu, hr, he⟩

/-- A whole number at or below a double is subtracted exactly. -/
theorem sub_whole {x : F64} (hx : x.isFinite = true) {w a z : Nat} (hw : w = a * unitsPerOne) (hz : z ≤ wholeLimit)
    (ha : w ≤ x.signedUnits) (ht : x.signedUnits ≤ (z * unitsPerOne : Nat)) :
    (ofUnits (x.signedUnits - w)).signedUnits = x.signedUnits - w := by
  have hu : x.signedUnits = units x.magnitude := by rw [← natAbs_signedUnits]; omega
  obtain ⟨q, e, hq, hlt, he⟩ := exists_bits (m := x.magnitude) (by omega) hz
  have hone : unitsPerOne = 2 ^ (unitExponent - e) * 2 ^ e := by
    rw [← Nat.pow_add, Nat.sub_add_cancel he, unitsPerOne]
  have hdiff : units x.magnitude - w = (q - a * 2 ^ (unitExponent - e)) * 2 ^ e := by
    rw [hq, hw, hone, ← Nat.mul_assoc, Nat.sub_mul]
  obtain ⟨m, hm⟩ := exists_gridUnits (b := 52) (show q - a * 2 ^ (unitExponent - e) ≤ 2 ^ (52 + 1) by omega) e
  have hm' : units m = units x.magnitude - w := hm.trans hdiff.symm
  have hsize : m ≤ infinity := by
    have hle : units m ≤ units x.magnitude := by omega
    exact le_trans (units_strictMono.le_iff_le.mp hle) (Nat.le_of_lt (of_decide_eq_true hx))
  exact ofUnits_of_units hsize (by omega)

/-- Up to the limit a whole number has an even magnitude. -/
theorem even_whole {m z : Nat} (h : units m = z * unitsPerOne) (hz : 1 ≤ z) (ht : z ≤ wholeLimit) : m % 2 = 0 := by
  have hone : units (2 ^ 52) ≤ unitsPerOne := by
    rw [units_small (by decide)]
    exact Nat.pow_le_pow_right (by decide) (show 52 ≤ unitExponent by decide)
  have hm : 2 ^ 52 ≤ m := by
    apply units_strictMono.le_iff_le.mp
    rw [h]
    exact le_trans hone (Nat.le_mul_of_pos_left _ hz)
  obtain ⟨e, q, rfl, hl, hr⟩ := exists_binade (b := 52) hm
  rw [units_normal hl (Nat.le_of_lt hr)] at h
  have he : e ≤ unitExponent := exponent_le (Nat.le_of_eq h) hl ht
  have hq : q = z * 2 ^ (unitExponent - e) := by
    apply Nat.eq_of_mul_eq_mul_right (Nat.two_pow_pos e)
    rw [h, Nat.mul_assoc, ← Nat.pow_add, Nat.sub_add_cancel he, unitsPerOne]
  have heven : q % 2 = 0 := by
    rcases Nat.eq_or_lt_of_le he with heq | hlt
    · rw [heq, Nat.sub_self, Nat.pow_zero, Nat.mul_one] at hq
      unfold wholeLimit at ht
      omega
    · obtain ⟨k, hk⟩ : ∃ k, unitExponent - e = k + 1 := ⟨unitExponent - e - 1, by omega⟩
      rw [hq, hk, Nat.pow_succ, ← Nat.mul_assoc, Nat.mul_mod_left]
  omega

/-! ## Rounding at an even magnitude -/

/-- Less than half a gap above a magnitude is rounded back, and half a gap when it is even. -/
theorem roundUnits_le_half {m n : Nat} (hm : m ≤ infinity) (h : 2 * n ≤ 2 * units m + 2 ^ (m / 2 ^ 52 - 1))
    (heven : 2 * n = 2 * units m + 2 ^ (m / 2 ^ 52 - 1) → m % 2 = 0) : roundUnits n ≤ m := by
  by_cases hle : n ≤ units m
  · exact roundUnits_le_of_le hm hle
  · have hgap := Nat.two_pow_pos (m / 2 ^ 52 - 1)
    have hsucc := units_succ m
    have hb := between_unique units_strictMono (between_below n) (show Between units m n by unfold Between; omega)
    refine le_trans (Nat.min_le_left _ _) ?_
    rw [hb]
    unfold nearest
    split_ifs <;> omega

/-- A double is rounded up by at most half the gap at a magnitude above it. -/
theorem roundUnits_near {m n : Nat} (h : n < units m) : 2 * units (roundUnits n) ≤ 2 * n + 2 ^ (m / 2 ^ 52 - 1) ∧
    2 * n ≤ 2 * units (nearest units (below n) n) + 2 ^ ((m - 1) / 2 ^ 52 - 1) := by
  have hb := between_below n
  have hbelow : below n < m := units_strictMono.lt_iff_lt.mp (lt_of_le_of_lt hb.1 h)
  have hnear := nearest_near hb
  rw [units_succ, Nat.add_sub_cancel_left] at hnear
  have hgap : 2 ^ (below n / 2 ^ 52 - 1) ≤ 2 ^ ((m - 1) / 2 ^ 52 - 1) := Nat.pow_le_pow_right (by decide) (by omega)
  have hgap' : 2 ^ ((m - 1) / 2 ^ 52 - 1) ≤ 2 ^ (m / 2 ^ 52 - 1) := Nat.pow_le_pow_right (by decide) (by omega)
  have hmin : units (roundUnits n) ≤ units (nearest units (below n) n) :=
    units_strictMono.monotone (Nat.min_le_left _ _)
  omega

/-- What is added stays at or below an even magnitude when it is at most the rounded rest. -/
theorem add_rest_even {m : Nat} (hm : m ≤ infinity) (heven : m % 2 = 0) {t d : Int} (h0 : 0 ≤ t) (ht : t ≤ units m)
    (hd : d ≤ (ofUnits (units m - t)).signedUnits) : (ofUnits (t + d)).signedUnits ≤ units m := by
  have hrest : (ofUnits (units m - t)).signedUnits = units (roundUnits (units m - t).natAbs) := by
    rw [signedUnits_ofUnits, if_neg (by omega)]
  have hround : 2 * units (roundUnits (units m - t).natAbs) ≤ 2 * (units m - t).natAbs + 2 ^ (m / 2 ^ 52 - 1) := by
    rcases Int.lt_or_eq_of_le h0 with hpos | rfl
    · exact (roundUnits_near (show (units m - t).natAbs < units m by omega)).1
    · have := roundUnits_units hm
      rw [Int.sub_zero, Int.natAbs_natCast, this]
      exact Nat.le_add_right _ _
  rw [signedUnits_ofUnits]
  by_cases hn : t + d < 0
  · rw [if_pos hn]
    omega
  · rw [if_neg hn]
    have hle := roundUnits_le_half (n := (t + d).natAbs) hm (by omega) (fun _ => heven)
    have := units_strictMono.monotone hle
    omega

/-! ## Rounding next to one -/

def halfGapExponent : Nat := 1020

/-- Half the gap below one. -/
def halfGap : Nat := 2 ^ halfGapExponent

theorem units_one : units one.magnitude = unitsPerOne := by
  rw [← natAbs_signedUnits, signedUnits_one, Int.natAbs_natCast]

theorem gap_below_one {e : Nat} (h : e = (one.magnitude - 1) / 2 ^ 52 - 1) : 2 ^ e = 2 * halfGap := by
  have he : e = halfGapExponent + 1 := h.trans (by decide)
  rw [he, Nat.pow_succ, Nat.mul_comm, halfGap]

theorem units_below_one : units (one.magnitude - 1) + 2 * halfGap = unitsPerOne := by
  have h := units_succ (one.magnitude - 1)
  rw [show one.magnitude - 1 + 1 = one.magnitude by decide, units_one, gap_below_one rfl] at h
  omega

theorem halfGap_pos : 0 < halfGap := Nat.two_pow_pos halfGapExponent

/-- A difference is rounded to one unit or more from half a gap below on. -/
theorem one_le_rounded_iff (n : Int) :
    (unitsPerOne : Int) ≤ (ofUnits n).signedUnits ↔ unitsPerOne ≤ n + halfGap := by
  have hbelow := units_below_one
  have hpos := halfGap_pos
  constructor
  · intro h
    by_contra hlt
    by_cases hneg : n < 0
    · have := ofUnits_mono (Int.le_of_lt hneg)
      rw [signedUnits_ofUnits_zero] at this
      omega
    · have hround := roundUnits_le_half (m := one.magnitude - 1) (n := n.natAbs) (by decide)
        (by rw [gap_below_one rfl]; omega) (by rw [gap_below_one rfl]; omega)
      have := units_strictMono.monotone hround
      rw [signedUnits_ofUnits, if_neg hneg] at h
      omega
  · intro h
    have hmono := ofUnits_mono (show ((unitsPerOne - halfGap : Nat) : Int) ≤ n by omega)
    refine le_trans ?_ hmono
    -- half way between the neighbours, one is the even one
    have hb : below (unitsPerOne - halfGap) = one.magnitude - 1 :=
      between_unique units_strictMono (between_below _) (by
        unfold Between
        rw [show one.magnitude - 1 + 1 = one.magnitude by decide, units_one]
        omega)
    have hround : roundUnits (unitsPerOne - halfGap) = one.magnitude := by
      unfold roundUnits
      rw [hb]
      unfold nearest
      rw [show one.magnitude - 1 + 1 = one.magnitude by decide, units_one, if_neg (by omega), if_neg (by omega),
        if_neg (by decide)]
      decide
    rw [signedUnits_ofUnits, if_neg (by omega), Int.natAbs_natCast, hround, units_one]

/-- Next to a whole number of at least one there is no double within half the gap below one. -/
theorem le_whole_of_near {x : F64} {c : Nat} (hc : 1 ≤ c) (hlimit : c ≤ wholeLimit)
    (h : x.signedUnits ≤ (c * unitsPerOne : Nat) + halfGap) : x.signedUnits ≤ (c * unitsPerOne : Nat) := by
  obtain ⟨m, -, hm⟩ := exists_units (a := c) (by unfold wholeLimit at hlimit; omega)
  by_contra hlt
  have hx : x.signedUnits = units x.magnitude := by rw [← natAbs_signedUnits]; omega
  have hone : one.magnitude ≤ m := by
    apply units_strictMono.le_iff_le.mp
    rw [units_one, hm]
    exact Nat.le_mul_of_pos_left _ hc
  have hmag : m < x.magnitude := units_strictMono.lt_iff_lt.mp (by rw [hm]; omega)
  have hnext := units_strictMono.monotone (show m + 1 ≤ x.magnitude by omega)
  have hgap : halfGap < 2 ^ (m / 2 ^ 52 - 1) := Nat.pow_lt_pow_right (by decide) (by
    have : one.magnitude / 2 ^ 52 ≤ m / 2 ^ 52 := Nat.div_le_div_right hone
    have : one.magnitude / 2 ^ 52 = 1023 := by decide
    unfold halfGapExponent
    omega)
  rw [units_succ, hm] at hnext
  omega

/-- Below one, going one unit back and forth takes at least one unit. -/
theorem one_le_back {e : Int} (h0 : 0 ≤ e) (ht : e < unitsPerOne) :
    (unitsPerOne : Int) ≤ (ofUnits (e - (ofUnits (e - unitsPerOne)).signedUnits)).signedUnits := by
  rw [one_le_rounded_iff, show e - (unitsPerOne : Int) = -(unitsPerOne - e) by omega, ofUnits_neg]
  have hn : (unitsPerOne - e).natAbs ≤ unitsPerOne := by omega
  rw [signedUnits_ofUnits, if_neg (by omega)]
  rcases Nat.eq_or_lt_of_le hn with heq | hlt
  · have hround : roundUnits unitsPerOne = one.magnitude := by
      rw [← units_one]
      exact roundUnits_units (by decide)
    rw [heq, hround, units_one]
    omega
  · obtain ⟨-, hnear⟩ :=
      roundUnits_near (m := one.magnitude) (n := (unitsPerOne - e).natAbs) (by rw [units_one]; exact hlt)
    rw [gap_below_one rfl] at hnear
    have hb := between_below (unitsPerOne - e).natAbs
    have hbelow : below (unitsPerOne - e).natAbs < one.magnitude := units_strictMono.lt_iff_lt.mp
      (lt_of_le_of_lt hb.1 (by rw [units_one]; exact hlt))
    have hle := nearest_le units (below (unitsPerOne - e).natAbs) (unitsPerOne - e).natAbs
    have hround : roundUnits (unitsPerOne - e).natAbs = nearest units (below (unitsPerOne - e).natAbs)
      (unitsPerOne - e).natAbs := by
      have : one.magnitude ≤ infinity := by decide
      unfold roundUnits
      rw [Nat.min_eq_left (by omega)]
    rw [hround]
    omega

/-! ## The bounds of the handles -/

theorem add_of_le {x y : F64} (hx : x.isFinite = true) (hy : y.isFinite = true) {b : F64} (hb : b.isFinite = true)
    (h0 : 0 ≤ x.signedUnits + y.signedUnits) (hle : x.signedUnits + y.signedUnits ≤ b.signedUnits) :
    (x.add y).isFinite = true ∧ (x.add y).signedUnits ≤ b.signedUnits := by
  refine ⟨isFinite_add hx hy (m := b.magnitude) (of_decide_eq_true hb) ?_, ?_⟩
  · rw [← natAbs_signedUnits]
    omega
  · rw [signedUnits_add hx hy]
    exact ofUnits_le hb hle

section
variable {x : F64} (hx : x.isFinite = true) (h0 : 0 ≤ x.signedUnits)
include hx h0

/-- One unit before an end that is at least one unit. -/
theorem maximumStart_whole {z : Nat} (hz : z ≤ wholeLimit) (hone : (unitsPerOne : Int) ≤ x.signedUnits)
    (ht : x.signedUnits ≤ (z * unitsPerOne : Nat)) : (maximumStartForMinimumSpan x).isFinite = true ∧
      (maximumStartForMinimumSpan x).signedUnits = x.signedUnits - unitsPerOne := by
  have hf : one.isFinite = true := by decide
  have hunit : (one : F64).signedUnits = unitsPerOne := signedUnits_one
  have hstart : (x.sub one).signedUnits = x.signedUnits - unitsPerOne := by
    rw [signedUnits_sub hx hf, hunit]
    exact sub_whole hx (Nat.one_mul unitsPerOne).symm hz hone ht
  have hfin : (x.sub one).isFinite = true :=
    isFinite_sub hx hf (m := x.magnitude) (of_decide_eq_true hx) (by rw [hunit, ← natAbs_signedUnits]; omega)
  have hback : (x.sub (x.sub one)).signedUnits = unitsPerOne := by
    rw [signedUnits_sub hx hfin, hstart, show x.signedUnits - (x.signedUnits - (unitsPerOne : Int)) =
      unitsPerOne by omega]
    exact ofUnits_of_units (m := one.magnitude) (by decide) (by rw [units_one, Int.natAbs_natCast])
  have hbfin : (x.sub (x.sub one)).isFinite = true :=
    isFinite_sub hx hfin (m := x.magnitude) (of_decide_eq_true hx) (by rw [hstart, ← natAbs_signedUnits]; omega)
  have hle : one.le (x.sub (x.sub one)) = true := (le_iff hf hbfin).mpr (by omega)
  have hm : maximumStartForMinimumSpan x = x.sub one := if_pos hle
  rw [hm]
  exact ⟨hfin, hstart⟩

/-- Where an end is less than one unit, the latest start is below zero. -/
theorem maximumStart_narrow (hone : x.signedUnits < unitsPerOne) : (maximumStartForMinimumSpan x).isFinite = true ∧
    (maximumStartForMinimumSpan x).signedUnits < 0 := by
  have hf : one.isFinite = true := by decide
  have hunit : (one : F64).signedUnits = unitsPerOne := signedUnits_one
  have hfin : (x.sub one).isFinite = true :=
    isFinite_sub hx hf (m := one.magnitude) (by decide) (by rw [hunit, units_one]; omega)
  have hstart : (x.sub one).signedUnits = (ofUnits (x.signedUnits - unitsPerOne)).signedUnits := by
    rw [signedUnits_sub hx hf, hunit]
  have hneg : (x.sub one).signedUnits < 0 := by
    have := ofUnits_pos (show 0 < unitsPerOne - x.signedUnits by omega)
    rw [hstart, show x.signedUnits - (unitsPerOne : Int) = -(unitsPerOne - x.signedUnits) by omega, ofUnits_neg]
    omega
  have hlow : -(unitsPerOne : Int) ≤ (x.sub one).signedUnits := by
    have :=
      ofUnits_mono (show one.neg.signedUnits ≤ x.signedUnits - unitsPerOne by rw [signedUnits_neg, hunit]; omega)
    rw [ofUnits_signedUnits (by rw [isFinite_neg, hf]), signedUnits_neg, hunit] at this
    rw [hstart]
    omega
  have hbfin : (x.sub (x.sub one)).isFinite = true := by
    have htwo : units (one.magnitude + 2 ^ 52) = 2 * unitsPerOne := by
      rw [units_double (by decide), units_one]
    exact isFinite_sub hx hfin (m := one.magnitude + 2 ^ 52) (by decide) (by rw [htwo]; omega)
  have hle : one.le (x.sub (x.sub one)) = true := by
    rw [le_iff hf hbfin, hunit, signedUnits_sub hx hfin, hstart]
    exact one_le_back h0 hone
  have hm : maximumStartForMinimumSpan x = x.sub one := if_pos hle
  rw [hm]
  exact ⟨hfin, hneg⟩

/-- The least end fits before a bound that is one unit away. -/
theorem minimumEnd_le {b : F64} (hb : b.isFinite = true) (hroom : x.signedUnits + unitsPerOne ≤ b.signedUnits) :
    (minimumEndForMinimumSpan x).isFinite = true ∧ (minimumEndForMinimumSpan x).signedUnits ≤ b.signedUnits := by
  have hf : one.isFinite = true := by decide
  have hunit : (one : F64).signedUnits = unitsPerOne := signedUnits_one
  have hpos := unitsPerOne_pos
  unfold minimumEndForMinimumSpan
  dsimp only
  split
  · exact add_of_le hx hf hb (by omega) (by rw [hunit]; exact hroom)
  · have hup := isFinite_nextUp hx hb (by omega)
    exact ⟨hup, nextUp_le hx hb (by omega) hup⟩

omit h0 in
theorem minimumEnd_zero (hz : x.signedUnits = 0) : (minimumEndForMinimumSpan x).signedUnits = unitsPerOne := by
  have hf : one.isFinite = true := by decide
  have hunit : (one : F64).signedUnits = unitsPerOne := signedUnits_one
  have hone : (ofUnits (unitsPerOne : Int)).signedUnits = unitsPerOne :=
    ofUnits_of_units (m := one.magnitude) (by decide) (by rw [units_one, Int.natAbs_natCast])
  have hsum : (x.add one).signedUnits = unitsPerOne := by
    rw [signedUnits_add hx hf, hz, hunit, Int.zero_add, hone]
  have hfin := (add_of_le hx hf hf (by omega) (by omega)).1
  have hsfin : ((x.add one).sub x).isFinite = true :=
    isFinite_sub hfin hx (m := one.magnitude) (by decide) (by rw [hsum, hz, units_one]; omega)
  have hle : one.le ((x.add one).sub x) = true := by
    rw [le_iff hf hsfin, hunit, signedUnits_sub hfin hx, hsum, hz, Int.sub_zero, hone]
  have hm : minimumEndForMinimumSpan x = x.add one := if_pos hle
  rw [hm, hsum]

end

end F64

open F64

theorem clamp_none {x lower upper : F64} : clamp x lower upper = none ↔ lower.le upper = false := by
  unfold clamp
  split
  · rename_i h
    simp [show lower.le upper = true from h]
  · rename_i h
    simp [show ¬ lower.le upper = true from h]

/-- The home range has whole ends up to the limit, the selection is within it and
starts at least one unit before its end. -/
structure BrushState.Roomy (b : BrushState F64) (a z : Nat) : Prop where
  limit : z ≤ wholeLimit
  homeStart : b.home.start.signedUnits = (a * unitsPerOne : Nat)
  homeStop : b.home.stop.signedUnits = (z * unitsPerOne : Nat)
  lower : b.home.start.signedUnits ≤ b.selected.start.signedUnits
  upper : b.selected.stop.signedUnits ≤ b.home.stop.signedUnits
  room : b.selected.start.signedUnits + unitsPerOne ≤ b.home.stop.signedUnits
  single : z = 1 → b.selected.stop.signedUnits = b.home.stop.signedUnits

/-- The selection ends less than one unit after the home range begins. -/
def BrushState.Cornered (b : BrushState F64) : Prop :=
  b.selected.stop.signedUnits < b.home.start.signedUnits + unitsPerOne

namespace BrushState

section
variable {b b' : BrushState F64} {a z : Nat} (h : b.Roomy a z)
include h

theorem Roomy.ordered : a + 1 ≤ z := by
  have hlt := b.home.finite.2.2
  rw [h.homeStart, h.homeStop, Int.ofNat_lt] at hlt
  exact Nat.lt_of_mul_lt_mul_right hlt

theorem Roomy.home_room : b.home.start.signedUnits + unitsPerOne ≤ b.home.stop.signedUnits := by
  have hle := Nat.mul_le_mul_right unitsPerOne h.ordered
  rw [Nat.add_one_mul] at hle
  rw [h.homeStart, h.homeStop]
  omega

/-! ## The clamps -/

theorem Roomy.maximumStart (hone : (unitsPerOne : Int) ≤ b.selected.stop.signedUnits) :
    (maximumStartForMinimumSpan b.selected.stop).isFinite = true ∧
      (maximumStartForMinimumSpan b.selected.stop).signedUnits = b.selected.stop.signedUnits - unitsPerOne := by
  have hupper := h.upper
  rw [h.homeStop] at hupper
  exact maximumStart_whole b.selected.finite.2.1 (by omega) h.limit hone hupper

/-- The start handle has nowhere to go when the selection ends too early. -/
theorem Roomy.resizeStart_none (position : F64) :
    b.resizeStart position = none ↔ position.isFinite = true ∧ b.Cornered := by
  obtain ⟨hhf, -, -⟩ := b.home.finite
  obtain ⟨-, hsf, hlt⟩ := b.selected.finite
  have hlower := h.lower
  have h0 : 0 ≤ b.home.start.signedUnits := by rw [h.homeStart]; exact Int.natCast_nonneg _
  have hbounds : b.home.start.le (maximumStartForMinimumSpan b.selected.stop) = false ↔ b.Cornered := by
    unfold Cornered
    by_cases hone : (unitsPerOne : Int) ≤ b.selected.stop.signedUnits
    · obtain ⟨hmf, hm⟩ := h.maximumStart hone
      rw [Bool.eq_false_iff, ne_eq, le_iff hhf hmf, hm]
      omega
    · obtain ⟨hmf, hm⟩ := maximumStart_narrow hsf (by omega) (by omega)
      rw [Bool.eq_false_iff, ne_eq, le_iff hhf hmf]
      omega
  unfold BrushState.resizeStart
  split
  · rename_i hfin
    simp only [Coordinate.isFinite, Bool.not_eq_true'] at hfin
    simp [hfin]
  · rename_i hfin
    simp only [Coordinate.isFinite, Bool.not_eq_true', Bool.not_eq_false] at hfin
    rw [Option.map_eq_none_iff, clamp_none, hbounds]
    simp [hfin]

theorem Roomy.resizeEnd_some (position : F64) : b.resizeEnd position ≠ none := by
  have hhf := b.home.finite.2.1
  have hsf := b.selected.finite.1
  have hlower := h.lower
  have h0 : 0 ≤ b.home.start.signedUnits := by rw [h.homeStart]; exact Int.natCast_nonneg _
  obtain ⟨hmf, hm⟩ := minimumEnd_le hsf (by omega) hhf h.room
  unfold BrushState.resizeEnd
  split
  · simp
  · rw [ne_eq, Option.map_eq_none_iff, clamp_none, Bool.not_eq_false]
    exact (le_iff hmf hhf).mpr hm

/-- The rooms to the ends of the home range. -/
theorem Roomy.rooms : (b.home.start.sub b.selected.start).isFinite = true ∧
    (b.home.start.sub b.selected.start).signedUnits = b.home.start.signedUnits - b.selected.start.signedUnits ∧
    (b.home.stop.sub b.selected.stop).isFinite = true ∧ 0 ≤ (b.home.stop.sub b.selected.stop).signedUnits ∧
    (b.home.stop.sub b.selected.stop).signedUnits =
      (ofUnits (b.home.stop.signedUnits - b.selected.stop.signedUnits)).signedUnits := by
  obtain ⟨hhs, hhe, -⟩ := b.home.finite
  obtain ⟨hss, hse, hlt⟩ := b.selected.finite
  have hlower := h.lower
  have hupper := h.upper
  have hstart : 0 ≤ b.home.start.signedUnits := by rw [h.homeStart]; exact Int.natCast_nonneg _
  have hexact := sub_whole hss (w := a * unitsPerOne) rfl h.limit (by rw [← h.homeStart]; exact hlower)
    (by rw [← h.homeStop]; omega)
  rw [← h.homeStart] at hexact
  refine ⟨?_, ?_, ?_, ?_, signedUnits_sub hhe hse⟩
  · exact isFinite_sub hhs hss (m := b.selected.start.magnitude) (of_decide_eq_true hss)
      (by rw [← natAbs_signedUnits]; omega)
  · rw [signedUnits_sub hhs hss, ← Int.neg_sub, ofUnits_neg, hexact]
  · exact isFinite_sub hhe hse (m := b.home.stop.magnitude) (of_decide_eq_true hhe)
      (by rw [← natAbs_signedUnits]; omega)
  · rw [signedUnits_sub hhe hse]
    exact ofUnits_nonneg (by omega)

theorem Roomy.panBy_some (delta : F64) : b.panBy delta ≠ none := by
  obtain ⟨hlf, hl, hrf, hr0, -⟩ := h.rooms
  have hlower := h.lower
  unfold BrushState.panBy
  split
  · simp
  · rw [ne_eq, Option.map_eq_none_iff, clamp_none, Bool.not_eq_false]
    exact (le_iff hlf hrf).mpr (by omega)

theorem Roomy.units_span : b.home.span.isFinite = true ∧
    b.home.span.signedUnits = b.home.stop.signedUnits - b.home.start.signedUnits := by
  obtain ⟨hhs, hhe, hlt⟩ := b.home.finite
  have hexact :=
    sub_whole hhe (w := a * unitsPerOne) rfl h.limit (by rw [← h.homeStart]; omega) (by rw [← h.homeStop])
  rw [← h.homeStart] at hexact
  refine ⟨b.home.isFinite_span, ?_⟩
  show (b.home.stop.sub b.home.start).signedUnits = _
  rw [signedUnits_sub hhe hhs, hexact]

theorem Roomy.homeMaximumStart : (maximumStartForMinimumSpan b.home.stop).isFinite = true ∧
    (maximumStartForMinimumSpan b.home.stop).signedUnits = b.home.stop.signedUnits - unitsPerOne := by
  have hroom := h.home_room
  have h0 : 0 ≤ b.home.start.signedUnits := by rw [h.homeStart]; exact Int.natCast_nonneg _
  exact maximumStart_whole b.home.finite.2.1 (by omega) h.limit (by omega) (Int.le_of_eq h.homeStop)

/-- A zoomed span that is not the whole range leaves room for its start. -/
theorem Roomy.latestStart {x span : F64} (hc : clamp x minBrushSpan b.home.span = some span)
    (hs : same span b.home.span = false) :
    (minimum (b.home.stop.sub span) (maximumStartForMinimumSpan b.home.stop)).isFinite = true ∧
      b.home.start.signedUnits ≤
        (minimum (b.home.stop.sub span) (maximumStartForMinimumSpan b.home.stop)).signedUnits ∧
      (minimum (b.home.stop.sub span) (maximumStartForMinimumSpan b.home.stop)).signedUnits + unitsPerOne ≤
        b.home.stop.signedUnits := by
  obtain ⟨hmf, hm⟩ := h.homeMaximumStart
  obtain ⟨hspf, hsp⟩ := h.units_span
  obtain ⟨-, hhe, -⟩ := b.home.finite
  have hroom := h.home_room
  have h0 : 0 ≤ b.home.start.signedUnits := by rw [h.homeStart]; exact Int.natCast_nonneg _
  have hpos := unitsPerOne_pos
  have hof : one.isFinite = true := by decide
  have hou : (one : F64).signedUnits = unitsPerOne := signedUnits_one
  have hspan : span.isNan = true ∨ span.isFinite = true ∧ (unitsPerOne : Int) ≤ span.signedUnits ∧
      span.signedUnits ≤ b.home.span.signedUnits := by
    rcases (clamp_cases hc).2 with rfl | rfl | ⟨rfl, hlow, hhigh⟩
    · exact Or.inr ⟨hof, Int.le_of_eq hou.symm, by
        rw [show (minBrushSpan : F64).signedUnits = unitsPerOne from hou, hsp]; omega⟩
    · have hself := (le_iff hspf hspf).mpr le_rfl
      simp [same, Coordinate.le, hself] at hs
    · by_cases hn : span.isNan = true
      · exact Or.inl hn
      · right
        have hlow' : span.lt one = false := hlow
        have hhigh' : b.home.span.lt span = false := hhigh
        simp only [F64.lt, hn, isNan_of_finite hof, isNan_of_finite hspf, Bool.not_false, Bool.true_and,
          Bool.and_true, decide_eq_false_iff_not, not_lt] at hlow' hhigh'
        have hfin : span.isFinite = true := by
          have h1 := (isFinite_iff one).mp hof
          have h2 := (isFinite_iff b.home.span).mp hspf
          rw [isFinite_iff]
          omega
        have h1 := signedUnits_lt_iff hfin hof
        have h2 := signedUnits_lt_iff hspf hfin
        exact ⟨hfin, by omega, by omega⟩
  rcases hspan with hn | ⟨hfin, hlow, hhigh⟩
  · -- a span that is not a number leaves the latest start to the least span
    have hnan : (b.home.stop.sub span).le (b.home.stop.sub span) = false := by
      have hneg : span.neg.isNan = true := by
        unfold isNan at hn ⊢
        rwa [magnitude_neg]
      have hsum : b.home.stop.sub span = nan := by
        unfold F64.sub F64.add
        simp [hneg]
      rw [hsum]
      decide
    have hmin : minimum (b.home.stop.sub span) (maximumStartForMinimumSpan b.home.stop) =
      maximumStartForMinimumSpan b.home.stop := by
      simp only [minimum, Coordinate.le, hnan, Bool.not_false, ite_true]
    rw [hmin]
    exact ⟨hmf, by omega, by omega⟩
  · have hsf : (b.home.stop.sub span).isFinite = true :=
      isFinite_sub hhe hfin (m := b.home.stop.magnitude) (of_decide_eq_true hhe)
        (by rw [← natAbs_signedUnits]; omega)
    have hsu : b.home.start.signedUnits ≤ (b.home.stop.sub span).signedUnits := by
      rw [signedUnits_sub hhe hfin]
      exact le_ofUnits b.home.finite.1 (by omega)
    obtain ⟨hcase, -, hle⟩ := minimum_of_finite hsf hmf
    refine ⟨?_, ?_, by omega⟩
    · rcases hcase with e | e <;> rw [e]
      · exact hsf
      · exact hmf
    · rcases hcase with e | e <;> rw [e]
      · exact hsu
      · omega

theorem Roomy.zoomAt_some (anchor factor : F64) : b.zoomAt anchor factor ≠ none := by
  obtain ⟨hspf, hsp⟩ := h.units_span
  have hroom := h.home_room
  have hof : one.isFinite = true := by decide
  have hou : (one : F64).signedUnits = unitsPerOne := signedUnits_one
  unfold BrushState.zoomAt
  split
  · simp
  · split
    · simp
    · rw [ne_eq, Option.bind_eq_none_iff]
      intro hnone
      cases hc : clamp (Scalar.div b.selected.span factor) minBrushSpan b.home.span with
      | none =>
        have hle : one.le b.home.span = false := clamp_none.mp hc
        rw [Bool.eq_false_iff, ne_eq, le_iff hof hspf] at hle
        omega
      | some span =>
        have hz := hnone span hc
        split at hz
        · cases hz
        · rename_i hs
          obtain ⟨hlf, hl, -⟩ := h.latestStart hc (by simpa using hs)
          rw [Option.map_eq_none_iff] at hz
          have hle :
              b.home.start.le (minimum (b.home.stop.sub span) (maximumStartForMinimumSpan b.home.stop)) = false :=
            clamp_none.mp hz
          rw [Bool.eq_false_iff, ne_eq, le_iff b.home.finite.1 hlf] at hle
          exact hle hl

/-! ## What a gesture leaves -/

theorem Roomy.reset : b.reset.Roomy a z :=
  ⟨h.limit, h.homeStart, h.homeStop, le_rfl, le_rfl, h.home_room, fun _ => rfl⟩

omit h in
theorem selected_of_ok {start stop : F64}
    (hr : (AxisRange.new start stop).map (fun selected => { b with selected }) = .ok b') :
    ∃ r : AxisRange F64, b' = { b with selected := r } ∧ r.start = start ∧ r.stop = stop := by
  cases hn : AxisRange.new start stop with
  | error e => rw [hn] at hr; cases hr
  | ok r =>
    rw [hn] at hr
    cases hr
    exact ⟨r, rfl, range_of_new hn⟩

/-- A home range of one unit has room for nothing else. -/
theorem Roomy.one_unit (hz : z = 1) : b.home.start.signedUnits = 0 ∧ b.home.stop.signedUnits = unitsPerOne ∧
    b.selected.start.signedUnits = 0 ∧ b.selected.stop.signedUnits = unitsPerOne := by
  have ha : a = 0 := by have := h.ordered; omega
  have hstart : b.home.start.signedUnits = 0 := by rw [h.homeStart, ha, Nat.zero_mul]; rfl
  have hstop : b.home.stop.signedUnits = unitsPerOne := by rw [h.homeStop, hz, Nat.one_mul]
  have hsingle := h.single hz
  have hlower := h.lower
  have hroom := h.room
  exact ⟨hstart, hstop, by omega, by omega⟩

theorem Roomy.resizeStart {position : F64} (hr : b.resizeStart position = some (.ok b')) : b'.Roomy a z := by
  have hsome := (h.resizeStart_none position).not.mp (by rw [hr]; simp)
  unfold BrushState.resizeStart at hr
  split at hr
  · cases hr
  · rename_i hfin
    simp only [Coordinate.isFinite, Bool.not_eq_true', Bool.not_eq_false] at hfin
    have hwide : b.home.start.signedUnits + unitsPerOne ≤ b.selected.stop.signedUnits := by
      by_contra hlt
      exact hsome ⟨hfin, by unfold Cornered; omega⟩
    have h0 : 0 ≤ b.home.start.signedUnits := by rw [h.homeStart]; exact Int.natCast_nonneg _
    obtain ⟨hmf, hm⟩ := h.maximumStart (by omega)
    obtain ⟨start, hc, hr⟩ := Option.map_eq_some_iff.mp hr
    obtain ⟨r, rfl, rfl, hstop⟩ := selected_of_ok hr
    have hlow := lower_le_clamp hc b.home.finite.1 r.finite.1
    have hhigh := clamp_le_upper hc hmf r.finite.1
    have hupper := h.upper
    refine ⟨h.limit, h.homeStart, h.homeStop, hlow, ?_, ?_, fun hz => ?_⟩
    · show r.stop.signedUnits ≤ _
      rw [hstop]
      exact hupper
    · show r.start.signedUnits + unitsPerOne ≤ b.home.stop.signedUnits
      omega
    · show r.stop.signedUnits = _
      rw [hstop]
      exact h.single hz

theorem Roomy.resizeEnd {position : F64} (hr : b.resizeEnd position = some (.ok b')) : b'.Roomy a z := by
  have h0 : 0 ≤ b.home.start.signedUnits := by rw [h.homeStart]; exact Int.natCast_nonneg _
  have hlower := h.lower
  obtain ⟨hmf, hm⟩ := minimumEnd_le b.selected.finite.1 (by omega) b.home.finite.2.1 h.room
  unfold BrushState.resizeEnd at hr
  split at hr
  · cases hr
  · obtain ⟨stop, hc, hr⟩ := Option.map_eq_some_iff.mp hr
    obtain ⟨r, rfl, hstart, rfl⟩ := selected_of_ok hr
    have hlow := lower_le_clamp hc hmf r.finite.2.1
    have hhigh := clamp_le_upper hc b.home.finite.2.1 r.finite.2.1
    refine ⟨h.limit, h.homeStart, h.homeStop, ?_, hhigh, ?_, fun hz => ?_⟩
    · show _ ≤ r.start.signedUnits
      rw [hstart]
      exact hlower
    · show r.start.signedUnits + _ ≤ _
      rw [hstart]
      exact h.room
    · obtain ⟨-, hhome, hs0, -⟩ := h.one_unit hz
      rw [minimumEnd_zero b.selected.finite.1 hs0] at hlow
      show r.stop.signedUnits = b.home.stop.signedUnits
      omega

/-- The delta of a pan after its clamp. -/
theorem Roomy.room_finite {x delta : F64} (hx : x.isFinite = true)
    (hc : clamp x (Coordinate.sub b.home.start b.selected.start) (Coordinate.sub b.home.stop b.selected.stop) =
      some delta) :
    delta.isFinite = true ∧ b.home.start.signedUnits - b.selected.start.signedUnits ≤ delta.signedUnits ∧
      delta.signedUnits ≤ (ofUnits (b.home.stop.signedUnits - b.selected.stop.signedUnits)).signedUnits := by
  obtain ⟨hlf, hl, hrf, -, hr⟩ := h.rooms
  have hfin : delta.isFinite = true := by
    rcases (clamp_cases hc).2 with rfl | rfl | ⟨rfl, -⟩
    · exact hlf
    · exact hrf
    · exact hx
  have hlow := lower_le_clamp hc hlf hfin
  have hhigh := clamp_le_upper hc hrf hfin
  simp only [Coordinate.sub, hl, hr] at hlow hhigh
  exact ⟨hfin, hlow, hhigh⟩

section
variable {delta : F64} (hd : delta.isFinite = true)
  (hlow : b.home.start.signedUnits - b.selected.start.signedUnits ≤ delta.signedUnits)
  (hhigh : delta.signedUnits ≤ (ofUnits (b.home.stop.signedUnits - b.selected.stop.signedUnits)).signedUnits)
include hd hlow hhigh

/-- Both ends of a pan stay within the home range. -/
theorem Roomy.panned : b.home.start.signedUnits ≤ (b.selected.start.add delta).signedUnits ∧
    (b.selected.stop.add delta).signedUnits ≤ b.home.stop.signedUnits := by
  obtain ⟨hss, hse, hlt⟩ := b.selected.finite
  have h0 : 0 ≤ b.home.start.signedUnits := by rw [h.homeStart]; exact Int.natCast_nonneg _
  have hlower := h.lower
  have hupper := h.upper
  have hz := h.ordered
  have hlimit := h.limit
  constructor
  · rw [signedUnits_add hss hd]
    exact le_ofUnits b.home.finite.1 (by omega)
  · obtain ⟨m, hm, hunits⟩ := exists_units (a := z) (by unfold wholeLimit at hlimit; omega)
    have heven := even_whole hunits (by omega) hlimit
    have hstop : b.home.stop.signedUnits = units m := by rw [h.homeStop, hunits]
    rw [signedUnits_add hse hd, hstop]
    rw [hstop] at hupper hhigh
    exact add_rest_even (Nat.le_of_lt hm) heven (by omega) hupper hhigh

/-- A pan of a brush over one unit goes nowhere. -/
theorem Roomy.panned_one (hz : z = 1) :
    Coordinate.lt (Coordinate.sub (b.selected.stop.add delta) (b.selected.start.add delta))
    minBrushSpan = false ∧ (b.selected.start.add delta).signedUnits = 0 ∧
      (b.selected.stop.add delta).signedUnits = unitsPerOne := by
  obtain ⟨hs, he, hss, hse⟩ := h.one_unit hz
  obtain ⟨hsf, hef, -⟩ := b.selected.finite
  rw [hs, hss] at hlow
  rw [he, hse, Int.sub_self, signedUnits_ofUnits_zero] at hhigh
  have hone : (ofUnits (unitsPerOne : Int)).signedUnits = unitsPerOne :=
    ofUnits_of_units (m := one.magnitude) (by decide) (by rw [units_one, Int.natAbs_natCast])
  have hzero : delta.signedUnits = 0 := by omega
  have hstart : (b.selected.start.add delta).signedUnits = 0 := by
    rw [signedUnits_add hsf hd, hss, hzero, Int.zero_add, signedUnits_ofUnits_zero]
  have hstop : (b.selected.stop.add delta).signedUnits = unitsPerOne := by
    rw [signedUnits_add hef hd, hse, hzero, Int.add_zero, hone]
  have hfs := (add_of_le hsf hd b.home.finite.1 (by omega) (by omega)).1
  have hfe := (add_of_le hef hd b.home.finite.2.1 (by omega) (by omega)).1
  have hof : one.isFinite = true := by decide
  have hou : (one : F64).signedUnits = unitsPerOne := signedUnits_one
  have hdf : ((b.selected.stop.add delta).sub (b.selected.start.add delta)).isFinite = true :=
    isFinite_sub hfe hfs (m := one.magnitude) (by decide) (by rw [hstop, hstart, units_one]; omega)
  refine ⟨?_, hstart, hstop⟩
  show ((b.selected.stop.add delta).sub (b.selected.start.add delta)).lt one = false
  rw [Bool.eq_false_iff, ne_eq, lt_iff hdf hof, hou, signedUnits_sub hfe hfs, hstart, hstop, Int.sub_zero, hone]
  omega

/-- The least span is kept on the side the brush comes from, so there is room before the end. -/
theorem Roomy.panned_select {r : AxisRange F64} (hstart : r.start = (b.pannedEnds delta).1)
    (hstop : r.stop = (b.pannedEnds delta).2) :
    Roomy { b with selected := r } a z := by
  obtain ⟨hrs, hre, hrlt⟩ := r.finite
  obtain ⟨hlow', hhigh'⟩ := h.panned hd hlow hhigh
  obtain ⟨hss, hse, -⟩ := b.selected.finite
  have h0 : 0 ≤ b.home.start.signedUnits := by rw [h.homeStart]; exact Int.natCast_nonneg _
  have hhome := h.home_room
  have hroom := h.room
  have hz := h.ordered
  -- over one unit the ends have not moved, and so the span is not narrow
  have hsingle : z = 1 → r.stop.signedUnits = b.home.stop.signedUnits ∧
    r.start.signedUnits + unitsPerOne ≤ b.home.stop.signedUnits := by
    intro hz1
    obtain ⟨hwide, hs0, he1⟩ := h.panned_one hd hlow hhigh hz1
    obtain ⟨-, hhe, -, -⟩ := h.one_unit hz1
    unfold pannedEnds at hstart hstop
    dsimp only at hstart hstop
    have hnot : ¬ Coordinate.lt
      (Coordinate.sub (Coordinate.add b.selected.stop delta) (Coordinate.add b.selected.start delta))
        minBrushSpan = true := by
      rw [show Coordinate.lt
        (Coordinate.sub (Coordinate.add b.selected.stop delta) (Coordinate.add b.selected.start delta))
        minBrushSpan = false from hwide]
      exact Bool.false_ne_true
    rw [if_neg hnot] at hstart hstop
    rw [hstart, hstop]
    exact ⟨he1.trans hhe.symm, by rw [show (Coordinate.add b.selected.start delta).signedUnits = 0 from hs0]; omega⟩
  have hkept : b.home.start.signedUnits ≤ r.start.signedUnits ∧ r.stop.signedUnits ≤ b.home.stop.signedUnits ∧
      (2 ≤ z → r.start.signedUnits + unitsPerOne ≤ b.home.stop.signedUnits) := by
    unfold pannedEnds at hstart hstop
    dsimp only at hstart hstop
    split_ifs at hstart hstop with hnarrow hneg
    · have hback : delta.signedUnits ≤ 0 := by
        unfold signedUnits
        rw [if_pos (show delta.bits.msb = true from hneg)]
        omega
      have hmove : r.start.signedUnits ≤ b.selected.start.signedUnits := by
        rw [hstart]
        show (b.selected.start.add delta).signedUnits ≤ _
        rw [signedUnits_add hss hd]
        exact ofUnits_le hss (by omega)
      refine ⟨hstart ▸ hlow', ?_, fun _ => by omega⟩
      rw [hstop] at hre ⊢
      exact minimum_le b.home.finite.2.1 hre
    · refine ⟨?_, hstop ▸ hhigh', fun h2 => ?_⟩
      · rw [hstart] at hrs ⊢
        exact le_maximum b.home.finite.1 hrs
      · have hlatest : (maximumStartForMinimumSpan r.stop).signedUnits + unitsPerOne ≤ b.home.stop.signedUnits := by
          have hwithin : r.stop.signedUnits ≤ b.home.stop.signedUnits := hstop ▸ hhigh'
          by_cases hone : (unitsPerOne : Int) ≤ r.stop.signedUnits
          · have := (maximumStart_whole hre (by omega) h.limit hone (by rw [← h.homeStop]; exact hwithin)).2
            omega
          · have hs : b.home.start.signedUnits ≤ r.start.signedUnits := by
              rw [hstart] at hrs ⊢
              exact le_maximum b.home.finite.1 hrs
            have := (maximumStart_narrow hre (by omega) (by omega)).2
            omega
        have hvalue : r.start = maximum (maximumStartForMinimumSpan r.stop) b.home.start := by
          rw [hstop]
          exact hstart
        unfold maximum at hvalue
        split_ifs at hvalue with h1 h2
        · rw [hvalue]; exact hhome
        · rw [hvalue]; exact hhome
        · rw [hvalue]; exact hlatest
    · refine ⟨hstart ▸ hlow', hstop ▸ hhigh', fun h2 => ?_⟩
      have hof : one.isFinite = true := by decide
      have hou : (one : F64).signedUnits = unitsPerOne := signedUnits_one
      have hwide : ¬ (r.stop.sub r.start).lt one = true := by
        rw [hstart, hstop]
        exact hnarrow
      have hsub : (r.stop.sub r.start).isFinite = true := r.isFinite_span
      rw [lt_iff hsub hof, hou, signedUnits_sub hre hrs, Int.not_lt, one_le_rounded_iff] at hwide
      have hwithin : r.stop.signedUnits ≤ b.home.stop.signedUnits := hstop ▸ hhigh'
      obtain ⟨c, rfl⟩ : ∃ c, z = c + 1 := ⟨z - 1, by omega⟩
      have hstop' := h.homeStop
      rw [Nat.add_one_mul] at hstop'
      have hlimit := h.limit
      have := le_whole_of_near (x := r.start) (c := c) (by omega) (by omega) (by omega)
      omega
  refine ⟨h.limit, h.homeStart, h.homeStop, hkept.1, hkept.2.1, ?_, fun hz1 => (hsingle hz1).1⟩
  rcases Nat.lt_or_ge z 2 with h1 | h2
  · exact (hsingle (by omega)).2
  · exact hkept.2.2 h2

end

theorem Roomy.panBy {delta : F64} (hr : b.panBy delta = some (.ok b')) : b'.Roomy a z := by
  unfold BrushState.panBy at hr
  split at hr
  · cases hr
  · rename_i hfin
    obtain ⟨room, hc, hr⟩ := Option.map_eq_some_iff.mp hr
    obtain ⟨hrf, hlow, hhigh⟩ := h.room_finite (by simpa [Coordinate.isFinite] using hfin) hc
    obtain ⟨r, rfl, hstart, hstop⟩ := selected_of_ok hr
    exact h.panned_select hrf hlow hhigh hstart hstop

theorem Roomy.zoomAt {anchor factor : F64} (hr : b.zoomAt anchor factor = some (.ok b')) : b'.Roomy a z := by
  have h0 : 0 ≤ b.home.start.signedUnits := by rw [h.homeStart]; exact Int.natCast_nonneg _
  have hhome := h.home_room
  unfold BrushState.zoomAt at hr
  split at hr
  · cases hr
  · split at hr
    · cases hr; exact h
    · obtain ⟨span, hspan, hr⟩ := Option.bind_eq_some_iff.mp hr
      split at hr
      · cases hr; exact h.reset
      · rename_i hs
        obtain ⟨hlf, hl, hlroom⟩ := h.latestStart hspan (by simpa using hs)
        obtain ⟨start, hc, hr⟩ := Option.map_eq_some_iff.mp hr
        obtain ⟨r, rfl, hstart, hstop⟩ := selected_of_ok hr
        obtain ⟨hrs, hre, -⟩ := r.finite
        rw [← hstart] at hc hstop
        have hlow := lower_le_clamp hc b.home.finite.1 hrs
        have hhigh := clamp_le_upper hc hlf hrs
        simp only [Coordinate.sub] at hhigh
        have hupper : r.stop.signedUnits ≤ b.home.stop.signedUnits := by
          rw [hstop] at hre ⊢
          exact minimum_le b.home.finite.2.1 hre
        refine ⟨h.limit, h.homeStart, h.homeStop, hlow, hupper, ?_, fun hz => ?_⟩
        · show r.start.signedUnits + unitsPerOne ≤ b.home.stop.signedUnits
          omega
        · -- the start is at zero, and the least end at one
          obtain ⟨hhs, hhe, -⟩ := h.one_unit hz
          have hzero : r.start.signedUnits = 0 := by omega
          have hend := minimumEnd_zero hrs hzero
          have hef := (minimumEnd_le hrs (by omega) b.home.finite.2.1 (by omega)).1
          show r.stop.signedUnits = b.home.stop.signedUnits
          have hstop' := hstop
          unfold minimum at hstop'
          split_ifs at hstop'
          · rw [hstop']
          · rw [hstop']
          · rw [hstop'] at hre
            have hle := le_maximum hef hre
            rw [← hstop'] at hle
            omega

theorem Roomy.gesture {g : Gesture F64} {outcome : Except ChartError Unit} (hg : b.gesture g = some (outcome, b')) :
    b'.Roomy a z := by
  unfold BrushState.gesture at hg
  obtain ⟨result, hr, hg⟩ := Option.map_eq_some_iff.mp hg
  cases result with
  | error e => cases hg; exact h
  | ok moved =>
    cases hg
    cases g with
    | resizeStart position => exact h.resizeStart hr
    | resizeEnd position => exact h.resizeEnd hr
    | panBy delta => exact h.panBy hr
    | zoomAt anchor factor => exact h.zoomAt hr
    | reset => cases hr; exact h.reset

/-- The one gesture that panics. -/
theorem Roomy.gesture_none (g : Gesture F64) : b.gesture g = none ↔
    ∃ position, g = .resizeStart position ∧ position.isFinite = true ∧ b.Cornered := by
  unfold BrushState.gesture
  rw [Option.map_eq_none_iff]
  cases g with
  | resizeStart position =>
    rw [h.resizeStart_none position]
    simp
  | resizeEnd position => simp [h.resizeEnd_some position]
  | panBy delta => simp [h.panBy_some delta]
  | zoomAt anchor factor => simp [h.zoomAt_some anchor factor]
  | reset => simp

end

end BrushState

end Pulseon
