import Mathlib.Tactic.Common
import Mathlib.Data.List.Basic

/-!
# Step systems

A system is a partial step function `σ → α → Option σ`: `none` means that the
step is not enabled. Interleavings are lists of steps, `exec` takes them one
after another, and an invariant of one step is an invariant of every run.

`Meets C` says that every step of a run meets `C` in the state it is taken
from; `Along P` says that every state of a run has `P`; `tally mark` is the
number of its steps that `mark` counts.
-/

namespace Pulseon

section
variable {σ α : Type*} (step : σ → α → Option σ)

def exec : σ → List α → Option σ
  | s, [] => some s
  | s, a :: as => (step s a).bind fun t => exec t as

def Meets (C : σ → α → Prop) : σ → List α → Prop
  | _, [] => True
  | s, a :: as => C s a ∧ ∀ t, step s a = some t → Meets C t as

def Along (P : σ → Prop) : σ → List α → Prop
  | s, [] => P s
  | s, a :: as => P s ∧ ∀ t, step s a = some t → Along P t as

def tally (mark : σ → α → σ → Bool) : σ → List α → Nat
  | _, [] => 0
  | s, a :: as =>
    match step s a with
    | none => 0
    | some t => (if mark s a t then 1 else 0) + tally mark t as

instance decidableMeets (C : σ → α → Prop) [∀ s a, Decidable (C s a)] :
    ∀ s as, Decidable (Meets step C s as)
  | _, [] => isTrue trivial
  | s, a :: as =>
    match h : step s a with
    | none => decidable_of_iff (C s a) (by simp [Meets, h])
    | some t =>
      have := decidableMeets C t as
      decidable_of_iff (C s a ∧ Meets step C t as) (by simp [Meets, h])

@[simp] theorem exec_nil (s : σ) : exec step s [] = some s := rfl

theorem exec_cons {s t : σ} {a : α} {as : List α} :
    exec step s (a :: as) = some t ↔ ∃ u, step s a = some u ∧ exec step u as = some t := by
  simp only [exec, Option.bind_eq_some_iff]

theorem exec_append {s t : σ} {as bs : List α} :
    exec step s (as ++ bs) = some t ↔ ∃ u, exec step s as = some u ∧ exec step u bs = some t := by
  induction as generalizing s with
  | nil => simp
  | cons a as ih =>
    simp only [List.cons_append, exec_cons, ih]
    constructor
    · rintro ⟨v, hv, u, hu, ht⟩
      exact ⟨u, ⟨v, hv, hu⟩, ht⟩
    · rintro ⟨u, ⟨v, hv, hu⟩, ht⟩
      exact ⟨v, hv, u, hu, ht⟩

theorem meets_mono {C D : σ → α → Prop} (h : ∀ s a, C s a → D s a) {s : σ} {as : List α}
    (hm : Meets step C s as) : Meets step D s as := by
  induction as generalizing s with
  | nil => trivial
  | cons a as ih => exact ⟨h s a hm.1, fun t ht => ih (hm.2 t ht)⟩

theorem meets_and {C D : σ → α → Prop} {s : σ} {as : List α} :
    Meets step (fun s a => C s a ∧ D s a) s as ↔ Meets step C s as ∧ Meets step D s as := by
  induction as generalizing s with
  | nil => simp [Meets]
  | cons a as ih =>
    simp only [Meets, ih]
    constructor
    · rintro ⟨⟨hC, hD⟩, h⟩
      exact ⟨⟨hC, fun t ht => (h t ht).1⟩, ⟨hD, fun t ht => (h t ht).2⟩⟩
    · rintro ⟨⟨hC, h⟩, ⟨hD, h'⟩⟩
      exact ⟨⟨hC, hD⟩, fun t ht => ⟨h t ht, h' t ht⟩⟩

theorem meets_of_forall {C : σ → α → Prop} {as : List α} (h : ∀ s, ∀ a ∈ as, C s a) (s : σ) :
    Meets step C s as := by
  induction as generalizing s with
  | nil => trivial
  | cons a as ih =>
    exact ⟨h s a (by simp), fun t _ => ih (fun s b hb => h s b (List.mem_cons_of_mem _ hb)) t⟩

theorem meets_append {C : σ → α → Prop} {s : σ} {as bs : List α} :
    Meets step C s (as ++ bs) ↔ Meets step C s as ∧ ∀ t, exec step s as = some t → Meets step C t bs := by
  induction as generalizing s with
  | nil => simp [Meets]
  | cons a as ih =>
    simp only [List.cons_append, Meets, ih, exec_cons]
    constructor
    · rintro ⟨hC, h⟩
      exact ⟨⟨hC, fun t ht => (h t ht).1⟩, fun t ⟨u, hu, ht⟩ => (h u hu).2 t ht⟩
    · rintro ⟨⟨hC, h⟩, hrest⟩
      exact ⟨hC, fun t ht => ⟨h t ht, fun u hu => hrest u ⟨t, ht, hu⟩⟩⟩

/-! ## Invariants -/

/-- What steps meeting `C` preserve, runs of such steps preserve. -/
theorem exec_inv {C : σ → α → Prop} {I : σ → Prop}
    (hI : ∀ s a t, C s a → step s a = some t → I s → I t) {s t : σ} {as : List α}
    (hm : Meets step C s as) (h : exec step s as = some t) (hs : I s) : I t := by
  induction as generalizing s with
  | nil => simp only [exec_nil, Option.some.injEq] at h; exact h ▸ hs
  | cons a as ih =>
    obtain ⟨u, hu, hr⟩ := (exec_cons step).mp h
    exact ih (hm.2 u hu) hr (hI s a u hm.1 hu hs)

theorem exec_inv_all {I : σ → Prop} (hI : ∀ s a t, step s a = some t → I s → I t) {s t : σ}
    {as : List α} (h : exec step s as = some t) (hs : I s) : I t :=
  exec_inv step (C := fun _ _ => True) (fun s a t _ => hI s a t)
    (meets_of_forall step (fun _ _ _ => trivial) s) h hs

/-! ## Reached states -/

/-- A run that meets `C` leads from `s` to `t`. -/
def Reaches (C : σ → α → Prop) (s t : σ) : Prop := ∃ as, Meets step C s as ∧ exec step s as = some t

theorem reaches_refl {C : σ → α → Prop} (s : σ) : Reaches step C s s := ⟨[], trivial, rfl⟩

theorem Reaches.next {C : σ → α → Prop} {s t u : σ} {a : α} (h : Reaches step C s t) (hc : C t a)
    (ht : step t a = some u) : Reaches step C s u := by
  obtain ⟨as, hm, he⟩ := h
  refine ⟨as ++ [a], (meets_append step).mpr ⟨hm, fun v hv => ?_⟩, (exec_append step).mpr ⟨t, he, ?_⟩⟩
  · rw [he] at hv
    cases hv
    exact ⟨hc, fun _ _ => trivial⟩
  · rw [exec, ht]
    rfl

theorem Reaches.inv {C : σ → α → Prop} {I : σ → Prop} (hI : ∀ s a t, C s a → step s a = some t → I s → I t)
    {s t : σ} (h : Reaches step C s t) (hs : I s) : I t := by
  obtain ⟨as, hm, he⟩ := h
  exact exec_inv step hI hm he hs

/-- Steps that are taken outside `B`, lead into it and never out of it are counted once. -/
theorem tally_le_one {C : σ → α → Prop} {I B : σ → Prop} {mark : σ → α → σ → Bool}
    (hI : ∀ s a t, C s a → step s a = some t → I s → I t)
    (hmark : ∀ s a t, C s a → step s a = some t → I s → mark s a t = true → ¬ B s ∧ B t)
    (hstay : ∀ s a t, step s a = some t → B s → B t) {s : σ} {as : List α} (hm : Meets step C s as) (hs : I s) :
    tally step mark s as ≤ 1 ∧ (B s → tally step mark s as = 0) := by
  induction as generalizing s with
  | nil => simp [tally]
  | cons a as ih =>
    unfold tally
    cases hst : step s a with
    | none => simp
    | some t =>
      obtain ⟨hle, hzero⟩ := ih (hm.2 t hst) (hI s a t hm.1 hst hs)
      by_cases hc : mark s a t = true
      · obtain ⟨hs', ht⟩ := hmark s a t hm.1 hst hs hc
        simp [hc, hzero ht, hs']
      · simp only [hc, Bool.false_eq_true, ite_false, Nat.zero_add]
        exact ⟨hle, fun hb => hzero (hstay s a t hst hb)⟩

/-- A run that meets `C` meets what an invariant of such runs makes of it. -/
theorem meets_of_inv {C D : σ → α → Prop} {I : σ → Prop}
    (hI : ∀ s a t, C s a → step s a = some t → I s → I t) (hD : ∀ s a, I s → C s a → D s a) {s : σ}
    {as : List α} (hm : Meets step C s as) (hs : I s) : Meets step D s as := by
  induction as generalizing s with
  | nil => trivial
  | cons a as ih => exact ⟨hD s a hs hm.1, fun t ht => ih (hm.2 t ht) (hI s a t hm.1 ht hs)⟩

/-- A run meets `C` if missing `C` once leaves a mark that stays and its end has none. -/
theorem meets_of_unmarked {C : σ → α → Prop} {I B : σ → Prop}
    (hI : ∀ s a t, step s a = some t → I s → I t)
    (hmark : ∀ s a t, step s a = some t → I s → ¬ C s a → B t)
    (hstay : ∀ s a t, step s a = some t → B s → B t) {s t : σ} {as : List α}
    (h : exec step s as = some t) (hs : I s) (ht : ¬ B t) : Meets step C s as := by
  induction as generalizing s with
  | nil => trivial
  | cons a as ih =>
    obtain ⟨u, hu, hr⟩ := (exec_cons step).mp h
    refine ⟨?_, fun v hv => ?_⟩
    · by_cases hC : C s a
      · exact hC
      · exact absurd (exec_inv_all step hstay hr (hmark s a u hu hs hC)) ht
    · rw [hu] at hv; cases hv
      exact ih hr (hI s a u hu hs)

theorem along_here {P : σ → Prop} {s : σ} {as : List α} (h : Along step P s as) : P s := by
  cases as with
  | nil => exact h
  | cons a as => exact h.1

/-- `Along` is about the states the initial pieces of the run reach. -/
theorem along_iff {P : σ → Prop} {s : σ} {as : List α} :
    Along step P s as ↔ ∀ bs, bs <+: as → ∀ t, exec step s bs = some t → P t := by
  induction as generalizing s with
  | nil =>
    constructor
    · intro h bs hb t ht
      rw [List.prefix_nil.mp hb, exec_nil, Option.some.injEq] at ht
      exact ht ▸ h
    · intro h; exact h [] (List.prefix_refl _) s rfl
  | cons a as ih =>
    constructor
    · intro h bs hb t ht
      cases bs with
      | nil => simp only [exec_nil, Option.some.injEq] at ht; exact ht ▸ h.1
      | cons b bs =>
        obtain ⟨rfl, hb'⟩ := List.cons_prefix_cons.mp hb
        obtain ⟨u, hu, hr⟩ := (exec_cons step).mp ht
        exact ih.mp (h.2 u hu) bs hb' t hr
    · intro h
      refine ⟨h [] (List.nil_prefix ..) s rfl, fun u hu => ih.mpr fun bs hb t ht => ?_⟩
      exact h (a :: bs) (List.cons_prefix_cons.mpr ⟨rfl, hb⟩) t ((exec_cons step).mpr ⟨u, hu, ht⟩)

/-- A property that a step keeps exactly when it meets `C` holds along exactly
the runs that meet `C`; `I` is what the run keeps besides, given that the
property held so far. -/
theorem along_iff_meets {C : σ → α → Prop} {P I : σ → Prop}
    (hI : ∀ s a t, step s a = some t → I s → P s → P t → I t)
    (hP : ∀ s a t, step s a = some t → I s → P s → (P t ↔ C s a))
    (hC : ∀ s a, step s a = none → C s a) {s : σ} {as : List α} (hs : I s) (hp : P s) :
    Along step P s as ↔ Meets step C s as := by
  induction as generalizing s with
  | nil => exact ⟨fun _ => trivial, fun _ => hp⟩
  | cons a as ih =>
    cases ht : step s a with
    | none => simp only [Along, Meets, ht, hp, hC s a ht, reduceCtorEq, false_implies, implies_true, and_self]
    | some t =>
      simp only [Along, Meets, ht, hp, Option.some.injEq, forall_eq', true_and]
      constructor
      · intro h
        have hpt := along_here step h
        exact ⟨(hP s a t ht hs hp).mp hpt, (ih (hI s a t ht hs hp hpt) hpt).mp h⟩
      · rintro ⟨hc, hm⟩
        have hpt := (hP s a t ht hs hp).mpr hc
        exact (ih (hI s a t ht hs hp hpt) hpt).mpr hm

end

end Pulseon
