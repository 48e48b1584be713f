import Mathlib.Data.List.Basic
import Mathlib.Order.Lattice
import Mathlib.Tactic.Common

/-!
# Searching sorted lists

`partitionPoint` is the binary search for the end of the elements that meet a
predicate, where these come first. Slices between such ends are what a filter by
two thresholds keeps. `minBy` is the first least element of a list.
-/

namespace Pulseon

/-! ## Partition points -/

section
variable {α : Type*} (pred : α → Bool) (xs : List α)

/-- At most `fuel` halvings of the interval that the end is in. -/
def bisect : Nat → Nat → Nat → Nat
  | 0, lo, _ => lo
  | fuel + 1, lo, hi =>
    if lo < hi then
      if xs[lo + (hi - lo) / 2]?.any pred then bisect fuel (lo + (hi - lo) / 2 + 1) hi
      else bisect fuel lo (lo + (hi - lo) / 2)
    else lo

def partitionPoint : Nat := bisect pred xs xs.length 0 xs.length

/-- The elements that meet the predicate come first. -/
def Partitioned : Prop := xs.Pairwise fun x y => pred y = true → pred x = true

variable {pred xs} (h : Partitioned pred xs)
include h

theorem Partitioned.of_le {i j : Nat} {x y : α} (hx : xs[i]? = some x) (hy : xs[j]? = some y) (hij : i ≤ j)
    (hp : pred y = true) : pred x = true := by
  rcases Nat.lt_or_eq_of_le hij with hlt | rfl
  · obtain ⟨hi, rfl⟩ := List.getElem?_eq_some_iff.mp hx
    obtain ⟨hj, rfl⟩ := List.getElem?_eq_some_iff.mp hy
    exact List.pairwise_iff_getElem.mp h i j hi hj hlt hp
  · rw [hx] at hy
    exact Option.some.inj hy ▸ hp

theorem bisect_spec {fuel lo hi : Nat} (hf : hi - lo ≤ fuel) (hle : lo ≤ hi) (hhi : hi ≤ xs.length)
    (hlow : ∀ i x, xs[i]? = some x → i < lo → pred x = true)
    (hhigh : ∀ i x, xs[i]? = some x → hi ≤ i → pred x = false) :
    bisect pred xs fuel lo hi ≤ hi ∧
      ∀ i x, xs[i]? = some x → (i < bisect pred xs fuel lo hi ↔ pred x = true) := by
  induction fuel generalizing lo hi with
  | zero =>
    obtain rfl : lo = hi := by omega
    refine ⟨Nat.le_refl _, fun i x hx => ⟨hlow i x hx, fun hp => ?_⟩⟩
    by_contra hn
    rw [hhigh i x hx (by simpa [bisect] using hn)] at hp
    cases hp
  | succ fuel ih =>
    unfold bisect
    split
    · have hmid : lo + (hi - lo) / 2 < hi := by omega
      generalize hm : lo + (hi - lo) / 2 = mid at hmid
      obtain ⟨y, hy⟩ : ∃ y, xs[mid]? = some y := ⟨xs[mid], List.getElem?_eq_getElem _⟩
      rw [hy, Option.any_some]
      split
      · rename_i hp
        exact ih (by omega) (by omega) hhi (fun i x hx hi => h.of_le hx hy (by omega) hp) hhigh
      · rename_i hp
        have hspec := @ih lo mid (by omega) (by omega) (by omega) hlow fun i x hx hi => by
          by_contra hn
          exact hp (h.of_le hy hx hi (by simpa using hn))
        exact ⟨by omega, hspec.2⟩
    · obtain rfl : lo = hi := by omega
      refine ⟨Nat.le_refl _, fun i x hx => ⟨hlow i x hx, fun hp => ?_⟩⟩
      by_contra hn
      rw [hhigh i x hx (by omega)] at hp
      cases hp

theorem partitionPoint_spec : partitionPoint pred xs ≤ xs.length ∧
    ∀ i x, xs[i]? = some x → (i < partitionPoint pred xs ↔ pred x = true) := by
  refine bisect_spec h (by omega) (Nat.zero_le _) (Nat.le_refl _) (fun i x _ hi => by omega) fun i x hx hi => ?_
  rw [List.getElem?_eq_none hi] at hx
  cases hx

theorem partitionPoint_le : partitionPoint pred xs ≤ xs.length := (partitionPoint_spec h).1

theorem lt_partitionPoint_iff {i : Nat} {x : α} (hx : xs[i]? = some x) :
    i < partitionPoint pred xs ↔ pred x = true := (partitionPoint_spec h).2 i x hx

end

/-! ## Slices -/

section
variable {α : Type*}

/-- `&xs[lo..hi]` -/
def slice (xs : List α) (lo hi : Nat) : List α := (xs.take hi).drop lo

/-- The pairs of neighbours. -/
def segments (xs : List α) : List (α × α) := xs.zip xs.tail

theorem getElem?_slice {xs : List α} {lo hi i : Nat} :
    (slice xs lo hi)[i]? = if lo + i < hi then xs[lo + i]? else none := by
  rw [slice, List.getElem?_drop, List.getElem?_take]

theorem getElem?_segments {xs : List α} {i : Nat} {p : α × α} :
    (segments xs)[i]? = some p ↔ xs[i]? = some p.1 ∧ xs[i + 1]? = some p.2 := by
  rw [segments, List.getElem?_zip_eq_some, List.getElem?_tail]

theorem segments_slice (xs : List α) (lo hi : Nat) :
    segments (slice xs lo hi) = slice (segments xs) lo (hi - 1) := by
  refine List.ext_getElem? fun i => Option.ext fun p => ?_
  rw [getElem?_segments, getElem?_slice, getElem?_slice, getElem?_slice]
  by_cases hin : lo + i < hi - 1
  · have h0 : lo + i < hi := by omega
    have h1 : lo + (i + 1) < hi := by omega
    rw [if_pos h0, if_pos h1, if_pos hin, getElem?_segments, Nat.add_assoc]
  · have h1 : ¬ lo + (i + 1) < hi := by omega
    rw [if_neg h1, if_neg hin]
    simp

theorem segments_map {β : Type*} (f : α → β) (xs : List α) :
    segments (xs.map f) = (segments xs).map fun p => (f p.1, f p.2) := by
  rw [segments, segments, ← List.map_tail, List.zip_map]
  rfl

theorem length_slice (xs : List α) (lo hi : Nat) : (slice xs lo hi).length = min hi xs.length - lo := by
  simp [slice]

theorem split_slice {lo hi : Nat} (h : lo ≤ hi) (xs : List α) :
    xs = xs.take lo ++ slice xs lo hi ++ xs.drop hi := by
  have htake : xs.take lo = (xs.take hi).take lo := by rw [List.take_take, Nat.min_eq_left h]
  rw [slice, htake, List.take_append_drop, List.take_append_drop]

theorem filter_eq_slice {xs : List α} {f : α → Bool} {lo hi : Nat}
    (h : ∀ i x, xs[i]? = some x → (f x = true ↔ lo ≤ i ∧ i < hi)) : xs.filter f = slice xs lo hi := by
  induction xs generalizing lo hi with
  | nil => simp [slice]
  | cons x xs ih =>
    have hx := h 0 x rfl
    have htail : xs.filter f = slice xs (lo - 1) (hi - 1) := ih fun i y hy => by
      rw [h (i + 1) y (by simpa using hy)]
      omega
    rw [List.filter_cons, htail]
    cases hi with
    | zero =>
      have hf : ¬ f x = true := fun e => by have := hx.mp e; omega
      simp [hf, slice]
    | succ hi =>
      cases lo with
      | zero =>
        rw [if_pos (hx.mpr ⟨Nat.le_refl _, Nat.succ_pos _⟩)]
        rfl
      | succ lo =>
        have hf : ¬ f x = true := fun e => by have := hx.mp e; omega
        rw [if_neg hf]
        rfl

end

/-! ## Minima -/

section
variable {α : Type*} (cmp : α → α → Ordering)

/-- `min_by`: of equal elements the first. -/
def minBy : List α → Option α
  | [] => none
  | x :: xs => some (xs.foldl (fun least y => if cmp least y = .gt then y else least) x)

variable {cmp} {κ : Type*} [LinearOrder κ] {key : α → κ} (hkey : ∀ x y, cmp x y = .gt ↔ key y < key x)

include hkey in
theorem foldl_least (xs : List α) (x : α) :
    xs.foldl (fun least y => if cmp least y = .gt then y else least) x ∈ x :: xs ∧
      ∀ y ∈ x :: xs, key (xs.foldl (fun least y => if cmp least y = .gt then y else least) x) ≤ key y := by
  induction xs generalizing x with
  | nil => simp
  | cons y xs ih =>
    rw [List.foldl_cons]
    by_cases hc : cmp x y = .gt
    · rw [if_pos hc]
      obtain ⟨hmem, hle⟩ := ih y
      refine ⟨List.mem_cons_of_mem _ hmem, fun z hz => ?_⟩
      rcases List.mem_cons.mp hz with rfl | hz
      · exact le_of_lt (lt_of_le_of_lt (hle y (List.mem_cons_self ..)) ((hkey _ _).mp hc))
      · exact hle z hz
    · rw [if_neg hc]
      obtain ⟨hmem, hle⟩ := ih x
      have hxy : key x ≤ key y := not_lt.mp fun hlt => hc ((hkey _ _).mpr hlt)
      refine ⟨?_, fun z hz => ?_⟩
      · rcases List.mem_cons.mp hmem with e | hmem
        · rw [e]; exact List.mem_cons_self ..
        · exact List.mem_cons_of_mem _ (List.mem_cons_of_mem _ hmem)
      · rcases List.mem_cons.mp hz with rfl | hz
        · exact hle z (List.mem_cons_self ..)
        · rcases List.mem_cons.mp hz with rfl | hz
          · exact (hle x (List.mem_cons_self ..)).trans hxy
          · exact hle z (List.mem_cons_of_mem _ hz)

theorem minBy_eq_none {l : List α} : minBy cmp l = none ↔ l = [] := by
  cases l <;> simp [minBy]

include hkey in
theorem minBy_spec {l : List α} {x : α} (h : minBy cmp l = some x) : x ∈ l ∧ ∀ y ∈ l, key x ≤ key y := by
  cases l with
  | nil => cases h
  | cons y l =>
    cases h
    exact foldl_least hkey l y

end

end Pulseon
