import Mathlib.Data.Finset.Max
import Mathlib.Data.Prod.Lex
import Mathlib.Data.List.Perm.Subperm
import Mathlib.Data.List.Sort
import Pulseon.Window

/-!
# Ordering and selecting ranked rows

`orderBy` is `ORDER BY` on one key. With distinct keys it is a function of the
set of rows, and it commutes with filters. `selectFirst` keeps the rows that are
first of their partition in one of several orders: there are at most as many as
partitions times orders, and the first row of the whole list is always kept.
-/

namespace Pulseon

/-! ## Ordering -/

section
variable {β κ : Type*} [LinearOrder κ] (key : β → κ)

def orderBy (l : List β) : List β := l.insertionSort fun x y => key x ≤ key y

theorem orderBy_perm (l : List β) : (orderBy key l).Perm l := List.perm_insertionSort _ l

@[simp] theorem mem_orderBy {l : List β} {x : β} : x ∈ orderBy key l ↔ x ∈ l := (orderBy_perm key l).mem_iff

@[simp] theorem length_orderBy (l : List β) : (orderBy key l).length = l.length := (orderBy_perm key l).length_eq

@[simp] theorem orderBy_eq_nil {l : List β} : orderBy key l = [] ↔ l = [] := by
  rw [← List.length_eq_zero_iff, length_orderBy, List.length_eq_zero_iff]

theorem orderBy_pairwise (l : List β) : (orderBy key l).Pairwise fun x y => key x ≤ key y := by
  induction l with
  | nil => exact .nil
  | cons x l ih =>
    have htotal : Std.Total fun x y : β => key x ≤ key y := ⟨fun x y => le_total (key x) (key y)⟩
    have htrans : IsTrans β fun x y => key x ≤ key y := ⟨fun _ _ _ => le_trans⟩
    exact ih.orderedInsert x _

theorem orderedInsert_between {x : β} {before after : List β} (hb : ∀ y ∈ before, ¬ key x ≤ key y)
    (ha : ∀ y ∈ after, key x ≤ key y) :
    (before ++ after).orderedInsert (fun x y => key x ≤ key y) x = before ++ x :: after := by
  induction before with
  | nil =>
    cases after with
    | nil => rfl
    | cons y after => exact List.orderedInsert_cons_of_le _ _ (ha y List.mem_cons_self)
  | cons y before ih =>
    obtain ⟨hy, hrest⟩ := List.forall_mem_cons.mp hb
    have hskip : (y :: (before ++ after)).orderedInsert (fun x y => key x ≤ key y) x =
        y :: (before ++ after).orderedInsert (fun x y => key x ≤ key y) x := if_neg hy
    rw [List.cons_append, hskip, ih hrest, List.cons_append]

/-- A merge sort, which is stable as well, gives the same order. -/
theorem mergeSort_eq_orderBy (l : List β) : l.mergeSort (fun x y => decide (key x ≤ key y)) = orderBy key l := by
  have htrans : ∀ a b c : β, decide (key a ≤ key b) = true → decide (key b ≤ key c) = true →
      decide (key a ≤ key c) = true := by
    intro a b c hab hbc
    simp only [decide_eq_true_eq] at *
    exact le_trans hab hbc
  have htotal : ∀ a b : β, (decide (key a ≤ key b) || decide (key b ≤ key a)) = true := fun a b => by
    simpa using le_total (key a) (key b)
  induction l with
  | nil => exact List.mergeSort_nil
  | cons x l ih =>
    obtain ⟨before, after, hsort, hrest, hbefore⟩ := List.mergeSort_cons htrans htotal x l
    have hsorted := List.pairwise_mergeSort htrans htotal (x :: l)
    rw [hsort] at hsorted ⊢
    have hinsert : orderBy key (x :: l) = (before ++ after).orderedInsert (fun x y => key x ≤ key y) x := by
      rw [← hrest, ih]; rfl
    rw [hinsert, orderedInsert_between key]
    · intro y hy
      simpa using hbefore y hy
    · intro y hy
      simpa using (List.pairwise_cons.mp (List.pairwise_append.mp hsorted).2.1).1 y hy

theorem orderBy_strict {l : List β} (hn : (l.map key).Nodup) :
    (orderBy key l).Pairwise fun x y => key x < key y := by
  have hn' : (orderBy key l).Pairwise fun x y => key x ≠ key y := by
    rw [← List.pairwise_map (f := key) (R := fun a b => a ≠ b)]
    exact ((orderBy_perm key l).map key).nodup_iff.mpr hn
  exact (orderBy_pairwise key l).imp₂ (fun _ _ h h' => lt_of_le_of_ne h h') hn'

/-- Strictly ordered lists of the same rows are the same. -/
theorem eq_of_strict {l m : List β} (hl : l.Pairwise fun x y => key x < key y)
    (hm : m.Pairwise fun x y => key x < key y) (h : ∀ x, x ∈ l ↔ x ∈ m) : l = m := by
  have hne : ∀ {l : List β}, (l.Pairwise fun x y => key x < key y) → l.Nodup := fun hl =>
    hl.imp fun hxy e => absurd hxy (by rw [e]; exact lt_irrefl _)
  have hperm : l.Perm m := (List.perm_ext_iff_of_nodup (hne hl) (hne hm)).mpr h
  refine hperm.eq_of_pairwise (fun x y _ _ hxy hyx => ?_) hl hm
  exact absurd hxy (not_lt_of_gt hyx)

theorem orderBy_eq {l m : List β} (hl : (l.map key).Nodup) (hm : (m.map key).Nodup) (h : ∀ x, x ∈ l ↔ x ∈ m) :
    orderBy key l = orderBy key m := by
  refine eq_of_strict key (orderBy_strict key hl) (orderBy_strict key hm) fun x => ?_
  rw [mem_orderBy, mem_orderBy]; exact h x

/-- Rows that a map changes elsewhere keep their order. -/
theorem orderBy_map {α : Type*} {key' : α → κ} {f : α → β} (h : ∀ x, key (f x) = key' x) (l : List α) :
    orderBy key (l.map f) = (orderBy key' l).map f := by
  unfold orderBy
  refine (List.map_insertionSort _ _ f l fun x _ y _ => ?_).symm
  rw [h, h]

theorem orderBy_filter {l : List β} (hn : (l.map key).Nodup) (p : β → Bool) :
    orderBy key (l.filter p) = (orderBy key l).filter p := by
  have hn' : ((l.filter p).map key).Nodup := (List.filter_sublist.map key).nodup hn
  refine eq_of_strict key (orderBy_strict key hn') ((orderBy_strict key hn).filter p) fun x => ?_
  simp [List.mem_filter]

end

theorem eq_filter_append {β : Type*} {p : β → Bool} {l : List β}
    (h : l.Pairwise fun x y => p y = true → p x = true) :
    l = l.filter p ++ l.filter fun x => !p x := by
  induction l with
  | nil => rfl
  | cons x l ih =>
    rw [List.pairwise_cons] at h
    by_cases hp : p x = true
    · simp only [List.filter_cons, hp, ite_true, Bool.not_true, Bool.false_eq_true, ite_false, List.cons_append]
      rw [← ih h.2]
    · have hnone : l.filter p = [] := List.filter_eq_nil_iff.mpr fun y hy hpy => hp (h.1 y hy hpy)
      have hall : l.filter (fun x => !p x) = l := by
        have := ih h.2
        rw [hnone, List.nil_append] at this
        exact this.symm
      simp [hp, hnone, hall]

/-! ## First rows -/

/-- `y` comes before `x` in `ORDER BY key`. -/
def ordered {β κ : Type*} [LinearOrder κ] (key : β → κ) (y x : β) : Bool := decide (key y < key x)

section
variable {β κ : Type*} [DecidableEq κ] (part : β → κ)

theorem firstRanked_nodup {before : β → β → Bool} {l : List β} (hn : l.Nodup)
    (htotal : ∀ x ∈ l, ∀ y ∈ l, x ≠ y → part x = part y → before x y = true ∨ before y x = true) :
    ((firstRanked part before l).map part).Nodup := by
  have hf : (firstRanked part before l).Nodup := hn.filter _
  refine List.Nodup.map_on (fun x hx y hy hp => ?_) hf
  by_contra hxy
  obtain ⟨hxl, hx⟩ := (mem_firstRanked _ _).mp hx
  obtain ⟨hyl, hy⟩ := (mem_firstRanked _ _).mp hy
  rcases htotal x hxl y hyl hxy hp with h | h
  · rw [hy x hxl hp] at h; cases h
  · rw [hx y hyl hp.symm] at h; cases h

/-- The first row of the list is the first of its partition. -/
theorem rowNumber_of_first {before : β → β → Bool} {l : List β} {x : β} (h : ∀ y ∈ l, before y x = false) :
    rowNumber part before l x = 1 := by
  rw [rowNumber_eq_one]
  intro y hy _
  exact h y hy

end

theorem exists_first {β κ : Type*} [LinearOrder κ] (key : β → κ) {l : List β} (h : l ≠ []) :
    ∃ x ∈ l, ∀ y ∈ l, key x ≤ key y := by
  classical
  obtain ⟨x, hx, hle⟩ := l.toFinset.exists_min_image key (by simpa using h)
  exact ⟨x, by simpa using hx, fun y hy => hle y (by simpa using hy)⟩

/-! ## Rows first in one of several orders -/

section
variable {β κ : Type*} [DecidableEq κ] (part : β → κ) (orders : List (β → β → Bool))

def selectFirst (l : List β) : List β := l.filter fun x => orders.any fun before => rowNumber part before l x == 1

theorem mem_selectFirst {l : List β} {x : β} :
    x ∈ selectFirst part orders l ↔ x ∈ l ∧ ∃ before ∈ orders, rowNumber part before l x = 1 := by
  simp [selectFirst]

theorem selectFirst_first {l : List β} {before : β → β → Bool} (hb : before ∈ orders) {x : β} (hx : x ∈ l)
    (h : ∀ y ∈ l, before y x = false) : x ∈ selectFirst part orders l :=
  (mem_selectFirst part orders).mpr ⟨hx, before, hb, rowNumber_of_first part h⟩

theorem selectFirst_least {τ : Type*} [LinearOrder τ] {key : β → τ} (hb : ordered key ∈ orders) {l : List β}
    (h : l ≠ []) : ∃ x ∈ selectFirst part orders l, x ∈ l ∧ ∀ y ∈ l, key x ≤ key y := by
  obtain ⟨x, hx, hle⟩ := exists_first key h
  refine ⟨x, selectFirst_first part orders hb hx fun y hy => ?_, hx, hle⟩
  simpa [ordered] using hle y hy

theorem length_filter_or_le (p q : β → Bool) (l : List β) :
    (l.filter fun x => p x || q x).length ≤ (l.filter p).length + (l.filter q).length := by
  induction l with
  | nil => simp
  | cons x l ih =>
    simp only [List.filter_cons]
    by_cases hp : p x = true
    · by_cases hq : q x = true
      · simp only [hp, hq, Bool.or_true, ite_true, List.length_cons]; omega
      · simp only [hp, hq, Bool.true_or, ite_true, List.length_cons, Bool.false_eq_true, ite_false]; omega
    · by_cases hq : q x = true
      · simp only [hp, hq, Bool.or_true, ite_true, List.length_cons, Bool.false_eq_true, ite_false]; omega
      · simp only [hp, hq, Bool.or_self, Bool.false_eq_true, ite_false]; exact ih

theorem length_selectFirst_le {l : List β} (hn : l.Nodup) {parts : List κ} (hparts : ∀ x ∈ l, part x ∈ parts)
    (htotal : ∀ before ∈ orders, ∀ x ∈ l, ∀ y ∈ l, x ≠ y → before x y = true ∨ before y x = true) :
    (selectFirst part orders l).length ≤ orders.length * parts.length := by
  induction orders with
  | nil => simp [selectFirst]
  | cons before orders ih =>
    have hone : (firstRanked part before l).length ≤ parts.length := by
      rw [← List.length_map part]
      refine (List.subperm_of_subset (firstRanked_nodup part hn fun x hx y hy hxy _ =>
        htotal before (List.mem_cons_self ..) x hx y hy hxy) ?_).length_le
      intro k hk
      obtain ⟨x, hx, rfl⟩ := List.mem_map.mp hk
      exact hparts x ((mem_firstRanked _ _).mp hx).1
    have hrest := ih fun b hb => htotal b (List.mem_cons_of_mem _ hb)
    have hsplit := length_filter_or_le (fun x => rowNumber part before l x == 1)
      (fun x => orders.any fun b => rowNumber part b l x == 1) l
    simp only [selectFirst, List.any_cons, List.length_cons, Nat.succ_mul] at *
    unfold firstRanked at hone
    omega

end

end Pulseon
