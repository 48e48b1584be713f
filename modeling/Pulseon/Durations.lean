import Pulseon.DoubleArith
import Mathlib.Tactic.Ring
import Mathlib.Tactic.Positivity
import Mathlib.Tactic.LinearCombination
import Mathlib.Tactic.Linarith

/-!
# Durations and instants

`Duration` and `Instant` of the standard library are whole seconds, in a `u64`
and an `i64`, and nanoseconds. Making a duration from a double and adding one to
an instant panic when the seconds do not fit; a panic is `none`.
-/

namespace Pulseon

def nanosPerSec : Nat := 1000000000

structure Duration where
  secs : Nat
  nanos : Nat
  secs_lt : secs < 0x10000000000000000
  nanos_lt : nanos < nanosPerSec
deriving DecidableEq, Repr

structure Instant where
  secs : Int
  nanos : Nat
  secs_ge : -0x8000000000000000 ≤ secs
  secs_lt : secs < 0x8000000000000000
  nanos_lt : nanos < nanosPerSec
deriving DecidableEq, Repr

namespace Duration

def asNanos (d : Duration) : Nat := d.secs * nanosPerSec + d.nanos

def ofNanos (n : Nat) : Option Duration :=
  if h : n / nanosPerSec < 0x10000000000000000 then
    some ⟨n / nanosPerSec, n % nanosPerSec, h, Nat.mod_lt _ (by decide)⟩
  else none

/-- To the nearest nanosecond, to the even one of two. -/
def nanosOfSecs (secs : F64) : Nat :=
  let n := F64.units secs.magnitude * nanosPerSec
  nearest (· * F64.unitsPerOne) (n / F64.unitsPerOne) n

def fromSecsF64 (secs : F64) : Option Duration :=
  if secs.lt ⟨0⟩ || !secs.isFinite then none else ofNanos (nanosOfSecs secs)

def fromSecs (secs : Nat) (h : secs < 0x10000000000000000) : Duration := ⟨secs, 0, h, by decide⟩

def ZERO : Duration := fromSecs 0 (by decide)

end Duration

namespace Instant

theorem least_secs_le : (-0x8000000000000000 : Int) ≤ 0 := by decide

def ofSecs (secs : Nat) (h : secs < 0x8000000000000000) : Instant where
  secs := secs
  nanos := 0
  secs_ge := Int.le_trans least_secs_le (Int.natCast_nonneg secs)
  secs_lt := Int.ofNat_lt.mpr h
  nanos_lt := by decide

/-- The nanoseconds from the clock's origin. -/
def sinceOrigin (t : Instant) : Int := t.secs * nanosPerSec + t.nanos

instance : LE Instant := ⟨fun s t => s.secs < t.secs ∨ s.secs = t.secs ∧ s.nanos ≤ t.nanos⟩

instance (s t : Instant) : Decidable (s ≤ t) :=
  inferInstanceAs (Decidable (s.secs < t.secs ∨ s.secs = t.secs ∧ s.nanos ≤ t.nanos))

/-- `instant + duration` -/
def add (t : Instant) (d : Duration) : Option Instant :=
  let nanos := t.nanos + d.nanos
  let secs := t.secs + d.secs + (nanos / nanosPerSec : Nat)
  if h : secs < 0x8000000000000000 then
    some
      { secs := secs
        nanos := nanos % nanosPerSec
        secs_ge := by
          have hd : t.secs ≤ t.secs + d.secs := Int.le_add_of_nonneg_right (Int.natCast_nonneg _)
          exact Int.le_trans t.secs_ge (Int.le_trans hd (Int.le_add_of_nonneg_right (Int.natCast_nonneg _)))
        secs_lt := h
        nanos_lt := Nat.mod_lt _ (by decide) }
  else none

def saturatingDurationSince (t earlier : Instant) : Duration :=
  (Duration.ofNanos (t.sinceOrigin - earlier.sinceOrigin).toNat).getD .ZERO

end Instant

/-! ## Durations -/

namespace Duration

theorem ofNanos_isSome {n : Nat} : (ofNanos n).isSome = true ↔ n < 0x10000000000000000 * nanosPerSec := by
  unfold ofNanos
  by_cases h : n / nanosPerSec < 0x10000000000000000
  · simp only [h, dite_true, Option.isSome_some, true_iff]
    exact (Nat.div_lt_iff_lt_mul (by decide)).mp h
  · simp only [h, dite_false, Option.isSome_none, Bool.false_eq_true, false_iff]
    exact fun e => h ((Nat.div_lt_iff_lt_mul (by decide)).mpr e)

theorem asNanos_of_ofNanos {n : Nat} {d : Duration} (h : ofNanos n = some d) : d.asNanos = n := by
  unfold ofNanos at h
  by_cases hn : n / nanosPerSec < 0x10000000000000000
  · simp only [hn, dite_true, Option.some.injEq] at h
    subst h
    exact Nat.div_add_mod' n nanosPerSec
  · simp [hn] at h

/-- The nearest nanosecond is at most half a nanosecond away. -/
theorem nanosOfSecs_near (secs : F64) :
    2 * (F64.units secs.magnitude * nanosPerSec) ≤ (2 * nanosOfSecs secs + 1) * F64.unitsPerOne ∧
      2 * nanosOfSecs secs * F64.unitsPerOne ≤ 2 * (F64.units secs.magnitude * nanosPerSec) + F64.unitsPerOne := by
  have hu : 0 < F64.unitsPerOne := Nat.two_pow_pos _
  unfold nanosOfSecs
  dsimp only
  generalize F64.units secs.magnitude * nanosPerSec = n
  have hb : Between (· * F64.unitsPerOne) (n / F64.unitsPerOne) n :=
    ⟨Nat.div_mul_le_self n _, Nat.lt_mul_of_div_lt (Nat.lt_add_one _) hu⟩
  have hgap : (n / F64.unitsPerOne + 1) * F64.unitsPerOne - n / F64.unitsPerOne * F64.unitsPerOne =
    F64.unitsPerOne := by
    rw [Nat.succ_mul, Nat.add_sub_cancel_left]
  obtain ⟨hup, hdown⟩ := nearest_near hb
  generalize nearest (· * F64.unitsPerOne) (n / F64.unitsPerOne) n = k at hup hdown ⊢
  rw [hgap] at hup hdown
  generalize F64.unitsPerOne = u at hup hdown ⊢
  rw [Nat.succ_mul (2 * k), Nat.mul_assoc 2]
  exact ⟨hup, hdown⟩

end Duration

/-! ## Instants -/

namespace Instant

theorem le_iff {s t : Instant} : s ≤ t ↔ s.sinceOrigin ≤ t.sinceOrigin := by
  have := s.nanos_lt
  have := t.nanos_lt
  show s.secs < t.secs ∨ s.secs = t.secs ∧ s.nanos ≤ t.nanos ↔ _
  unfold sinceOrigin nanosPerSec at *
  omega

theorem add_isSome {t : Instant} {d : Duration} :
    (t.add d).isSome = true ↔ t.sinceOrigin + d.asNanos < 0x8000000000000000 * nanosPerSec := by
  unfold add
  by_cases h : t.secs + d.secs + ((t.nanos + d.nanos) / nanosPerSec : Nat) < 0x8000000000000000
  · simp only [h, dite_true, Option.isSome_some, true_iff]
    unfold sinceOrigin Duration.asNanos nanosPerSec at *
    omega
  · simp only [h, dite_false, Option.isSome_none, Bool.false_eq_true, false_iff]
    unfold sinceOrigin Duration.asNanos nanosPerSec at *
    omega

/-- The time left to an instant of the clock's range fits into a duration. -/
theorem asNanos_saturatingDurationSince (t earlier : Instant) :
    ((t.saturatingDurationSince earlier).asNanos : Int) = max 0 (t.sinceOrigin - earlier.sinceOrigin) := by
  have hlt : (t.sinceOrigin - earlier.sinceOrigin).toNat < 0x10000000000000000 * nanosPerSec := by
    have := t.secs_lt
    have := t.nanos_lt
    have := earlier.secs_ge
    unfold sinceOrigin nanosPerSec at *
    omega
  obtain ⟨d, hd⟩ := Option.isSome_iff_exists.mp (Duration.ofNanos_isSome.mpr hlt)
  unfold saturatingDurationSince
  rw [hd, Option.getD_some, Duration.asNanos_of_ofNanos hd]
  omega

end Instant

/-! ## Durations from doubles -/

namespace Duration

section
variable {secs : F64}

theorem lt_zero_iff (hf : secs.isFinite = true) : secs.lt ⟨0⟩ = true ↔ secs.value < 0 := by
  have hz : (⟨0⟩ : F64).value = 0 := by simp [F64.value, F64.magnitude, F64.units]
  rw [F64.lt_iff hf rfl, F64.signedUnits_lt_iff hf rfl, ← F64.value_lt_iff hf rfl, hz]

theorem value_of_nonneg (h : 0 ≤ secs.value) : secs.value = (F64.units secs.magnitude : ℚ) / 2 ^ 1074 := by
  unfold F64.value at *
  by_cases hs : secs.bits.msb = true
  · simp only [hs, ite_true] at *
    have hu : (0 : ℚ) ≤ F64.units secs.magnitude := Nat.cast_nonneg _
    have : (0 : ℚ) < 2 ^ 1074 := by positivity
    have := (le_div_iff₀ this).mp h
    rw [zero_mul] at this
    have hz : (F64.units secs.magnitude : ℚ) = 0 := le_antisymm (neg_nonneg.mp this) hu
    rw [hz, neg_zero]
  · simp only [hs, Bool.false_eq_true, ite_false]

theorem value_lt_iff (h : 0 ≤ secs.value) :
    secs.value < 2 ^ 64 ↔ F64.units secs.magnitude < 0x10000000000000000 * F64.unitsPerOne := by
  have hu : (F64.unitsPerOne : ℚ) = 2 ^ 1074 := by
    unfold F64.unitsPerOne F64.unitExponent
    rw [Nat.cast_pow, Nat.cast_ofNat]
  have hn : ((0x10000000000000000 : Nat) : ℚ) = 2 ^ 64 := by norm_num
  rw [value_of_nonneg h, div_lt_iff₀ (by positivity), ← hu, ← hn, ← Nat.cast_mul, Nat.cast_lt]

/-- The greatest double below `2 ^ 64` is a whole number of seconds. -/
theorem units_lt_iff (m : Nat) :
    F64.units m < 0x10000000000000000 * F64.unitsPerOne ↔ F64.units m ≤ 0xfffffffffffff800 * F64.unitsPerOne := by
  have htop : F64.units (1086 * 2 ^ 52 + 2 ^ 52) = 0x10000000000000000 * F64.unitsPerOne := by decide +kernel
  have hlast : F64.units (1085 * 2 ^ 52 + (2 ^ 53 - 1)) = 0xfffffffffffff800 * F64.unitsPerOne := by decide +kernel
  rw [← htop, ← hlast, F64.units_strictMono.lt_iff_lt, F64.units_strictMono.le_iff_le]
  omega

theorem nanosOfSecs_lt_iff :
    nanosOfSecs secs < 0x10000000000000000 * nanosPerSec ↔
      F64.units secs.magnitude < 0x10000000000000000 * F64.unitsPerOne := by
  have hu : 0 < F64.unitsPerOne := Nat.two_pow_pos _
  obtain ⟨hup, hdown⟩ := nanosOfSecs_near secs
  constructor
  · intro h
    by_contra hge
    have hscale : 2 * (0x10000000000000000 * nanosPerSec) * F64.unitsPerOne ≤
      2 * (F64.units secs.magnitude * nanosPerSec) := by
      have := Nat.mul_le_mul_right (2 * nanosPerSec) (Nat.not_lt.mp hge)
      linarith
    have := Nat.le_of_mul_le_mul_right (Nat.le_trans hscale hup) hu
    omega
  · intro h
    have hscale : 2 * (F64.units secs.magnitude * nanosPerSec) + F64.unitsPerOne ≤
        (2 * (0xfffffffffffff800 * nanosPerSec) + 1) * F64.unitsPerOne := by
      have := Nat.mul_le_mul_right (2 * nanosPerSec) ((units_lt_iff _).mp h)
      linarith
    have := Nat.le_of_mul_le_mul_right (Nat.le_trans hdown hscale) hu
    unfold nanosPerSec at *
    omega

/-- The conversion of a number that is not negative panics from two to the power of 64 on. -/
theorem fromSecsF64_isSome (hf : secs.isFinite = true) (h : 0 ≤ secs.value) :
    (fromSecsF64 secs).isSome = true ↔ secs.value < 2 ^ 64 := by
  have hlt : secs.lt ⟨0⟩ = false := by
    rw [← Bool.not_eq_true, lt_zero_iff hf]
    exact not_lt.mpr h
  have hc : ¬ (secs.lt ⟨0⟩ || !secs.isFinite) = true := by
    rw [hlt, hf]
    decide
  unfold fromSecsF64
  rw [if_neg hc, ofNanos_isSome, nanosOfSecs_lt_iff, value_lt_iff h]

end

end Duration

end Pulseon
