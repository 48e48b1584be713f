import Mathlib.Tactic.Common
import Mathlib.Data.List.Basic
import Mathlib.Data.List.Dedup
import Mathlib.Data.List.Forall2
import Mathlib.Order.Defs.LinearOrder
import Mathlib.Tactic.Order

/-!
# Window functions over lists

`rowNumber` is SQL's `row_number() OVER (PARTITION BY .. ORDER BY ..)` and
`firstRanked` keeps the rows numbered one. `newest` is the same selection for
one partition by a single pass that keeps the row with the greatest stamp, the
later row on ties; `mem_firstRanked_zipIdx` connects the two. `GROUP BY` follows:
the distinct keys of a list, each mapped to its group. The last sections are about
lookups by a key that no two rows share, and about lists whose rows are related
one by one.
-/

namespace Pulseon

/-! ## Ranking -/

section
variable {β κ : Type*} [DecidableEq κ] (part : β → κ) (before : β → β → Bool)

/-- One more than the rows of `x`'s partition that are ordered before `x`. -/
def rowNumber (l : List β) (x : β) : Nat :=
  l.countP (fun y => part y == part x && before y x) + 1

def firstRanked (l : List β) : List β :=
  l.filter fun x => rowNumber part before l x == 1

theorem rowNumber_eq_one (l : List β) (x : β) :
    rowNumber part before l x = 1 ↔ ∀ y ∈ l, part y = part x → before y x = false := by
  unfold rowNumber
  rw [Nat.add_eq_right, List.countP_eq_zero]
  constructor
  · intro h y hy hp
    have := h y hy
    simpa [hp] using this
  · intro h y hy hb
    simp only [Bool.and_eq_true, beq_iff_eq] at hb
    rw [h y hy hb.1] at hb
    exact absurd hb.2 (by simp)

theorem mem_firstRanked {l : List β} {x : β} :
    x ∈ firstRanked part before l ↔ x ∈ l ∧ ∀ y ∈ l, part y = part x → before y x = false := by
  unfold firstRanked
  rw [List.mem_filter, beq_iff_eq, rowNumber_eq_one]

theorem firstRanked_filter (p : β → Bool) (hp : ∀ x y, part x = part y → p x = p y) (l : List β) :
    firstRanked part before (l.filter p) = (firstRanked part before l).filter p := by
  unfold firstRanked
  rw [List.filter_filter, List.filter_filter]
  apply List.filter_congr
  intro x hx
  rw [Bool.and_comm]
  by_cases hpx : p x = true
  · simp only [hpx, Bool.true_and]
    have : rowNumber part before (l.filter p) x = rowNumber part before l x := by
      unfold rowNumber
      rw [List.countP_filter]
      congr 1
      apply List.countP_congr
      intro y hy
      simp only [Bool.and_eq_true, beq_iff_eq]
      constructor
      · rintro ⟨h, -⟩; exact h
      · rintro ⟨h, hb⟩; exact ⟨⟨h, hb⟩, (hp y x h).trans hpx⟩
    rw [this]
  · simp only [Bool.not_eq_true] at hpx
    simp only [hpx, Bool.false_and]

end

/-! ## The newest row of a partition -/

section
variable {β τ : Type*} [LinearOrder τ] (stamp : β → τ)

/-- The newer of two rows, the second on ties. -/
def newer : Option β → Option β → Option β
  | none, y => y
  | some x, none => some x
  | some x, some y => if stamp y < stamp x then some x else some y

def newest (q : β → Bool) (l : List β) : Option β :=
  l.foldl (fun best x => newer stamp best (if q x then some x else none)) none

@[simp] theorem newer_none_left (y : Option β) : newer stamp none y = y := rfl

@[simp] theorem newer_none_right (x : Option β) : newer stamp x none = x := by
  cases x <;> rfl

theorem newer_assoc (x y z : Option β) :
    newer stamp (newer stamp x y) z = newer stamp x (newer stamp y z) := by
  cases x with
  | none => rfl
  | some a =>
    cases y with
    | none => rfl
    | some b =>
      cases z with
      | none => simp only [newer_none_right]
      | some c =>
        simp only [newer]
        by_cases hba : stamp b < stamp a
        · by_cases hcb : stamp c < stamp b
          · simp only [hba, hcb, ite_true, lt_trans hcb hba]
          · simp only [hba, hcb, ite_true, ite_false]
        · by_cases hcb : stamp c < stamp b
          · simp only [hba, hcb, ite_true, ite_false]
          · have hca : ¬ stamp c < stamp a := fun h => by order
            simp only [hba, hcb, hca, ite_false]

@[simp] theorem newest_nil (q : β → Bool) : newest stamp q [] = none := rfl

theorem foldl_newer (q : β → Bool) (l : List β) (b : Option β) :
    l.foldl (fun best x => newer stamp best (if q x then some x else none)) b =
      newer stamp b (newest stamp q l) := by
  induction l generalizing b with
  | nil => simp only [List.foldl_nil, newest_nil, newer_none_right]
  | cons x l ih =>
    unfold newest
    rw [List.foldl_cons, List.foldl_cons, ih, ih, newer_none_left, newer_assoc]

theorem newest_append (q : β → Bool) (l m : List β) :
    newest stamp q (l ++ m) = newer stamp (newest stamp q l) (newest stamp q m) := by
  unfold newest
  rw [List.foldl_append]
  exact foldl_newer stamp q m _

theorem newest_cons (q : β → Bool) (x : β) (l : List β) :
    newest stamp q (x :: l) = newer stamp (if q x then some x else none) (newest stamp q l) :=
  newest_append stamp q [x] l

theorem newest_none {q : β → Bool} {l : List β} : newest stamp q l = none ↔ ∀ x ∈ l, q x = false := by
  induction l with
  | nil => simp
  | cons x l ih =>
    rw [newest_cons, List.forall_mem_cons, ← ih]
    by_cases hq : q x = true
    · simp only [hq, ite_true, reduceCtorEq, false_and, iff_false]
      cases newest stamp q l with
      | none => simp
      | some y => simp only [newer]; split <;> simp
    · simp only [Bool.not_eq_true] at hq
      simp [hq]

/-- The newest row is at a position no other row of the partition outranks. -/
theorem newest_spec {q : β → Bool} {l : List β} {x : β} (h : newest stamp q l = some x) :
    ∃ i : Nat, l[i]? = some x ∧ q x = true ∧
      ∀ (j : Nat) y, l[j]? = some y → q y = true → stamp y < stamp x ∨ stamp y = stamp x ∧ j ≤ i := by
  induction l generalizing x with
  | nil => cases h
  | cons a l ih =>
    rw [newest_cons] at h
    cases hl : newest stamp q l with
    | none =>
      have hno := (newest_none stamp).mp hl
      rw [hl, newer_none_right] at h
      split at h
      · rename_i hqa
        cases h
        refine ⟨0, rfl, hqa, fun j y hj hy => ?_⟩
        cases j with
        | zero => cases hj; exact Or.inr ⟨rfl, Nat.le_refl _⟩
        | succ j =>
          rw [List.getElem?_cons_succ] at hj
          rw [hno y (List.mem_of_getElem? hj)] at hy; cases hy
      · cases h
    | some b =>
      obtain ⟨i, hi, hqb, hb⟩ := ih hl
      rw [hl] at h
      have hsucc : ∀ (j : Nat) y, l[j]? = some y → q y = true →
          stamp y < stamp b ∨ stamp y = stamp b ∧ j + 1 ≤ i + 1 := by
        intro j y hj hy
        rcases hb j y hj hy with h1 | ⟨h1, h2⟩
        · exact Or.inl h1
        · exact Or.inr ⟨h1, by omega⟩
      by_cases hqa : q a = true
      · simp only [hqa, ite_true, newer] at h
        split at h
        · rename_i hlt
          cases h
          refine ⟨0, rfl, hqa, fun j y hj hy => ?_⟩
          cases j with
          | zero => cases hj; exact Or.inr ⟨rfl, Nat.le_refl _⟩
          | succ j =>
            rw [List.getElem?_cons_succ] at hj
            rcases hb j y hj hy with h1 | ⟨h1, -⟩
            · exact Or.inl (lt_trans h1 hlt)
            · exact Or.inl (h1 ▸ hlt)
        · rename_i hge
          cases h
          refine ⟨i + 1, hi, hqb, fun j y hj hy => ?_⟩
          cases j with
          | zero =>
            cases hj
            rcases lt_or_eq_of_le (not_lt.mp hge) with h1 | h1
            · exact Or.inl h1
            · exact Or.inr ⟨h1, Nat.zero_le _⟩
          | succ j => exact hsucc j y hj hy
      · simp only [Bool.not_eq_true] at hqa
        simp only [hqa, Bool.false_eq_true, ite_false, newer_none_left, Option.some.injEq] at h
        subst h
        refine ⟨i + 1, hi, hqb, fun j y hj hy => ?_⟩
        cases j with
        | zero => cases hj; rw [hqa] at hy; cases hy
        | succ j => exact hsucc j y hj hy

theorem newest_of_increasing (q : β → Bool) {l : List β}
    (h : l.Pairwise fun x y => stamp x < stamp y) : newest stamp q l = (l.filter q).getLast? := by
  induction l with
  | nil => rfl
  | cons x l ih =>
    rw [List.pairwise_cons] at h
    rw [newest_cons, ih h.2, List.filter_cons]
    by_cases hq : q x = true
    · simp only [hq, ite_true, List.getLast?_cons]
      cases hl : (l.filter q).getLast? with
      | none => rfl
      | some y =>
        have hy : y ∈ l := (List.mem_filter.mp (List.mem_of_getLast? hl)).1
        have : ¬ stamp y < stamp x := not_lt_of_gt (h.1 y hy)
        simp only [newer, this, ite_false, Option.getD_some]
    · simp only [hq, Bool.false_eq_true, ite_false, newer_none_left]

end

/-! ## Ranking by stamp and row id -/

section
variable {β κ τ : Type*} [DecidableEq κ] [LinearOrder τ] (part : β → κ) (stamp : β → τ)

/-- `ORDER BY stamp DESC, rowid DESC`, on rows paired with their row id. -/
def newestFirst (y x : β × Nat) : Bool :=
  decide (stamp x.1 < stamp y.1) || (decide (stamp x.1 = stamp y.1) && decide (x.2 < y.2))

/-- The row ranked first in the partition `k` of a table is its newest row. -/
theorem mem_firstRanked_zipIdx {l : List β} {k : κ} {x : β} {i : Nat}
    (h : (x, i) ∈ firstRanked (fun r => part r.1) (newestFirst stamp) l.zipIdx) (hk : part x = k) :
    newest stamp (fun r => decide (part r = k)) l = some x := by
  obtain ⟨hm, hbest⟩ := (mem_firstRanked _ _).mp h
  have hxi : l[i]? = some x := by simpa using List.mem_zipIdx_iff_getElem?.mp hm
  cases hn : newest stamp (fun r => decide (part r = k)) l with
  | none =>
    have := (newest_none stamp).mp hn x (List.mem_of_getElem? hxi)
    simp [hk] at this
  | some y =>
    obtain ⟨j, hj, hq, hall⟩ := newest_spec stamp hn
    have hky : part y = k := by simpa using hq
    have hb := hbest (y, j) (by rw [List.mem_zipIdx_iff_getElem?]; simpa using hj) (hky.trans hk.symm)
    simp only [newestFirst, Bool.or_eq_false_iff, decide_eq_false_iff_not, Bool.and_eq_false_iff] at hb
    rcases hall i x hxi (by simp [hk]) with hlt | ⟨heq, hle⟩
    · exact absurd hlt hb.1
    · rcases hb.2 with hne | hij
      · exact absurd heq hne
      · have : i = j := by omega
        subst this
        rw [hxi] at hj; rw [Option.some.inj hj]

theorem exists_firstRanked_zipIdx {l : List β} {k : κ} {x : β}
    (h : newest stamp (fun r => decide (part r = k)) l = some x) :
    part x = k ∧ ∃ i, (x, i) ∈ firstRanked (fun r => part r.1) (newestFirst stamp) l.zipIdx := by
  obtain ⟨i, hi, hq, hall⟩ := newest_spec stamp h
  have hk : part x = k := by simpa using hq
  refine ⟨hk, i, (mem_firstRanked _ _).mpr ⟨?_, ?_⟩⟩
  · rw [List.mem_zipIdx_iff_getElem?]; simpa using hi
  · rintro ⟨y, j⟩ hy hp
    have hj : l[j]? = some y := by simpa using List.mem_zipIdx_iff_getElem?.mp hy
    simp only [newestFirst, Bool.or_eq_false_iff, decide_eq_false_iff_not, Bool.and_eq_false_iff]
    rcases hall j y hj (by simpa [hk] using hp) with hlt | ⟨heq, hle⟩
    · exact ⟨not_lt_of_gt hlt, Or.inl (ne_of_gt hlt)⟩
    · exact ⟨by order, Or.inr (by omega)⟩

end

/-! ## Grouping -/

section
variable {κ α : Type*} [DecidableEq κ] (f : κ → Option α) (p : α → Bool) (k : κ)

theorem filter_filterMap_nodup {l : List κ} (hl : l.Nodup)
    (hp : ∀ g ∈ l, ∀ a, f g = some a → (p a = true ↔ g = k)) :
    (l.filterMap f).filter p = if k ∈ l then (f k).toList else [] := by
  induction l with
  | nil => rfl
  | cons g l ih =>
    rw [List.nodup_cons] at hl
    have ih := ih hl.2 fun x hx => hp x (List.mem_cons_of_mem _ hx)
    have hg := hp g (List.mem_cons_self ..)
    by_cases hgk : g = k
    · subst hgk
      rw [if_neg hl.1] at ih
      rw [if_pos (List.mem_cons_self ..), List.filterMap_cons]
      cases hf : f g with
      | none => exact ih
      | some a =>
        simp only [List.filter_cons, (hg a hf).mpr rfl, ite_true, ih, Option.toList_some]
    · have hmem : k ∈ g :: l ↔ k ∈ l := by simp [Ne.symm hgk]
      rw [List.filterMap_cons, if_congr hmem rfl rfl, ← ih]
      cases hf : f g with
      | none => rfl
      | some a =>
        have hpa : p a = false := by
          rw [Bool.eq_false_iff]
          exact fun e => hgk ((hg a hf).mp e)
        simp only [List.filter_cons, hpa, Bool.false_eq_true, ite_false]

/-- Of the groups of a list, the one with the key `k`. -/
theorem filter_filterMap_dedup {l : List κ} (hp : ∀ g ∈ l, ∀ a, f g = some a → (p a = true ↔ g = k))
    (hk : k ∉ l → f k = none) : (l.dedup.filterMap f).filter p = (f k).toList := by
  rw [filter_filterMap_nodup f p k (List.nodup_dedup l) fun g hg => hp g (List.mem_dedup.mp hg)]
  split
  · rfl
  · rename_i hn
    rw [hk (fun h => hn (List.mem_dedup.mpr h))]; rfl

end

/-! ## Distinct keys -/

section
variable {β κ : Type*} [BEq κ] [LawfulBEq κ] {key : β → κ} {l : List β} (hn : (l.map key).Nodup)
include hn

theorem filter_key_of_mem {x : β} (hx : x ∈ l) : (l.filter fun y => key y == key x) = [x] := by
  induction l with
  | nil => cases hx
  | cons z l ih =>
    rw [List.map_cons, List.nodup_cons] at hn
    rcases List.mem_cons.mp hx with rfl | hmem
    · have hnone : (l.filter fun y => key y == key x) = [] := by
        rw [List.filter_eq_nil_iff]
        intro y hy e
        exact hn.1 (List.mem_map.mpr ⟨y, hy, eq_of_beq e⟩)
      rw [List.filter_cons_of_pos (by simp), hnone]
    · have hne : key z ≠ key x := fun e => hn.1 (List.mem_map.mpr ⟨x, hmem, e.symm⟩)
      rw [List.filter_cons_of_neg (by simpa using hne)]
      exact ih hn.2 hmem

/-- A lookup finds exactly the row with the key. -/
theorem find_key_iff {k : κ} {x : β} : l.find? (fun y => key y == k) = some x ↔ x ∈ l ∧ key x = k := by
  constructor
  · intro hfind
    have hkey := List.find?_some hfind
    exact ⟨List.mem_of_find?_eq_some hfind, eq_of_beq hkey⟩
  · intro h
    obtain ⟨hx, rfl⟩ := h
    rw [← List.head?_filter, filter_key_of_mem hn hx, List.head?_cons]

end

/-! ## Related rows -/

section
variable {α β : Type*} {R : α → β → Prop}

theorem forall₂_toList {a : Option α} {b : Option β} (h : Option.Rel R a b) : List.Forall₂ R a.toList b.toList := by
  cases h with
  | none => exact .nil
  | some h => exact .cons h .nil

theorem forall₂_getLast? {l : List α} {m : List β} (h : List.Forall₂ R l m) :
    Option.Rel R l.getLast? m.getLast? := by
  have hrev := List.forall₂_reverse_iff.mpr h
  rw [List.getLast?_eq_head?_reverse, List.getLast?_eq_head?_reverse]
  generalize l.reverse = l', m.reverse = m' at hrev
  cases hrev with
  | nil => exact .none
  | cons h _ => exact .some h

theorem forall₂_map {γ : Type*} {f : γ → α} {g : γ → β} (h : ∀ x, R (f x) (g x)) (l : List γ) :
    List.Forall₂ R (l.map f) (l.map g) := by
  rw [List.forall₂_map_left_iff, List.forall₂_map_right_iff, List.forall₂_same]
  exact fun x _ => h x

theorem sublistForall₂_map {γ : Type*} {f : γ → α} {g : γ → β} (h : ∀ x, R (f x) (g x)) {l m : List γ}
    (hs : l.Sublist m) : List.SublistForall₂ R (l.map f) (m.map g) :=
  List.sublistForall₂_iff.mpr ⟨l.map g, forall₂_map h l, hs.map g⟩

/-- Sorting keeps rows together that are sorted by the same order. -/
theorem forall₂_mergeSort {le : α → α → Bool} {le' : β → β → Bool}
    (hle : ∀ a b c d, R a c → R b d → le a b = le' c d) {l : List α} {m : List β} (h : List.Forall₂ R l m) :
    List.Forall₂ R (l.mergeSort le) (m.mergeSort le') := by
  have hpairs : ∀ x ∈ l.zip m, R x.1 x.2 := fun x hx => List.forall₂_zip h hx
  have hfst : (l.zip m).map Prod.fst = l := List.map_fst_zip h.length_eq.le
  have hsnd : (l.zip m).map Prod.snd = m := List.map_snd_zip h.length_eq.ge
  generalize l.zip m = pairs at hpairs hfst hsnd
  have hleft : (pairs.mergeSort fun x y => le x.1 y.1).map Prod.fst = l.mergeSort le := by
    rw [List.map_mergeSort (s := le) fun _ _ _ _ => rfl, hfst]
  have hright : (pairs.mergeSort fun x y => le x.1 y.1).map Prod.snd = m.mergeSort le' := by
    rw [List.map_mergeSort (s := le') fun x hx y hy => hle _ _ _ _ (hpairs x hx) (hpairs y hy), hsnd]
  rw [← hleft, ← hright, List.forall₂_map_left_iff, List.forall₂_map_right_iff, List.forall₂_same]
  exact fun x hx => hpairs x ((List.mergeSort_perm pairs _).mem_iff.mp hx)

end

end Pulseon
