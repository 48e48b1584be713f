import Pulseon.Ranking

/-!
# What a ranking returns

The comparator is the order of a key: the eligible candidates first, by how far
they are from the best value, then by creation and id, and the others by
ordinal. The scan gives every eligible candidate one more than the number of
candidates before it with a strictly better value.
-/

namespace Pulseon

/-! ## Values -/

/-- A value counted so that less is better. -/
def ObjectiveDirection.cost : ObjectiveDirection → F64 → Int
  | .minimize, value => value.key
  | .maximize, value => -value.key

def ObjectiveDirection.better (direction : ObjectiveDirection) (v w : F64) : Bool :=
  match direction with
  | .minimize => decide (v.value < w.value)
  | .maximize => decide (w.value < v.value)

theorem eligibleValue_finite {evidence : ObjectiveEvidence} {value : F64}
    (h : eligibleValue evidence = some value) :
    value.isFinite = true ∧ evidence.lastValueF64 = some value := by
  unfold eligibleValue ObjectiveEvidence.usableValue at h
  split at h
  · exact (Option.filter_eq_some_iff.mp h).symm
  · cases h

section
variable {v w : F64} (hv : v.isFinite = true) (hw : w.isFinite = true) (direction : ObjectiveDirection)
include hv hw

theorem better_iff : direction.better v w = true ↔ direction.cost v < direction.cost w := by
  cases direction with
  | minimize => simp [ObjectiveDirection.better, ObjectiveDirection.cost, F64.value_lt_iff hv hw]
  | maximize => simp [ObjectiveDirection.better, ObjectiveDirection.cost, F64.value_lt_iff hw hv]

theorem cost_eq_iff : direction.cost v = direction.cost w ↔ v.value = w.value := by
  rw [F64.value_eq_iff hv hw]
  cases direction with
  | minimize => exact Iff.rfl
  | maximize => exact neg_inj

theorem eq_iff_cost : v.eq w = true ↔ direction.cost v = direction.cost w := by
  rw [F64.eq_iff hv hw, cost_eq_iff hv hw, F64.value_eq_iff hv hw]

/-- Equality first and `total_cmp` after it is the order of the costs. -/
theorem objectiveOrder_eq : objectiveOrder direction v w = compare (direction.cost v) (direction.cost w) := by
  unfold objectiveOrder
  by_cases h : v.eq w = true
  · rw [if_pos h, eq_comm, compare_eq_iff_eq]
    exact (eq_iff_cost hv hw direction).mp h
  · have hne : v.key ≠ w.key := fun e => h ((F64.eq_iff hv hw).mpr e)
    rw [if_neg h]
    cases direction with
    | minimize => exact F64.totalCmp_of_ne hv hw hne
    | maximize =>
      simp only [ObjectiveDirection.cost, F64.totalCmp_of_ne hw hv (Ne.symm hne)]
      rcases lt_or_gt_of_ne hne with hlt | hgt
      · rw [compare_gt_iff_gt.mpr hlt, compare_gt_iff_gt.mpr (by omega)]
      · rw [compare_lt_iff_lt.mpr hgt, compare_lt_iff_lt.mpr (by omega)]

end

/-! ## The comparator -/

/-- What the comparator compares: eligible candidates by cost, creation and id,
and after them the others by ordinal. -/
def rankKey (direction : ObjectiveDirection) (c : RankingCandidate) : (Int ×ₗ Int ×ₗ String) ⊕ₗ Nat :=
  match eligibleValue c.evidence with
  | some value => toLex (Sum.inl (toLex (direction.cost value, toLex (c.createdAt, c.evidence.runId))))
  | none => toLex (Sum.inr c.ordinal)

theorem compare_then {κ : Type*} [LinearOrder κ] (a b : κ) (o : Ordering) :
    (compare a b).then o ≠ .gt ↔ a < b ∨ a = b ∧ o ≠ .gt := by
  rcases lt_trichotomy a b with h | h | h
  · simp [compare_lt_iff_lt.mpr h, h]
  · simp [h]
  · simp [compare_gt_iff_gt.mpr h, not_lt_of_gt h, ne_of_gt h]

theorem compareCandidates_le (direction : ObjectiveDirection) (l r : RankingCandidate) :
    compareCandidates direction l r ≠ .gt ↔ rankKey direction l ≤ rankKey direction r := by
  unfold compareCandidates rankKey
  cases hl : eligibleValue l.evidence with
  | none =>
    cases hr : eligibleValue r.evidence with
    | none => simp only [Sum.Lex.inr_le_inr_iff]; exact compare_le_iff_le
    | some w => simp
  | some v =>
    cases hr : eligibleValue r.evidence with
    | none => simp
    | some w =>
      simp only [objectiveOrder_eq (eligibleValue_finite hl).1 (eligibleValue_finite hr).1, Ordering.then_assoc,
        Sum.Lex.inl_le_inl_iff, Prod.Lex.toLex_le_toLex]
      rw [compare_then, compare_then]
      refine or_congr Iff.rfl (and_congr Iff.rfl (or_congr Iff.rfl (and_congr Iff.rfl ?_)))
      exact compare_le_iff_le

theorem sort_candidates (direction : ObjectiveDirection) (candidates : List RankingCandidate) :
    (candidates.mergeSort fun left right => compareCandidates direction left right != .gt) =
      orderBy (rankKey direction) candidates := by
  rw [← mergeSort_eq_orderBy]
  congr 1
  funext l r
  rw [Bool.eq_iff_iff]
  simpa using compareCandidates_le direction l r

/-! ## The scan -/

def cheaper (direction : ObjectiveDirection) (l : List RankingCandidate) (value : F64) : Nat :=
  l.countP fun c => (eligibleValue c.evidence).any fun v => direction.better v value

/-- What the scan knows of the candidates behind it: the last eligible value,
the greatest cost of them all, and its rank. -/
structure Scan (direction : ObjectiveDirection) (behind : List RankingCandidate) (previousValue : Option F64)
    (previousRank : Nat) : Prop where
  start : previousValue = none → ∀ c ∈ behind, eligibleValue c.evidence = none
  seen : ∀ v, previousValue = some v → ∃ c ∈ behind, eligibleValue c.evidence = some v
  rank : ∀ v, previousValue = some v → previousRank = 1 + cheaper direction behind v
  last : ∀ v, previousValue = some v → ∀ c ∈ behind, ∀ w, eligibleValue c.evidence = some w →
    direction.cost w ≤ direction.cost v

section
variable {direction : ObjectiveDirection} {behind rest : List RankingCandidate} {c : RankingCandidate}

theorem cheaper_append (l m : List RankingCandidate) (value : F64) :
    cheaper direction (l ++ m) value = cheaper direction l value + cheaper direction m value := List.countP_append

theorem cheaper_eq_zero {l : List RankingCandidate} {value : F64} (hfin : value.isFinite = true)
    (h : ∀ c ∈ l, ∀ w, eligibleValue c.evidence = some w → direction.cost value ≤ direction.cost w) :
    cheaper direction l value = 0 := by
  unfold cheaper
  rw [List.countP_eq_zero]
  intro c hc hb
  obtain ⟨w, hw, hbetter⟩ := (Option.any_eq_true _ _).mp hb
  have := (better_iff (eligibleValue_finite hw).1 hfin direction).mp hbetter
  have := h c hc w hw
  omega

theorem cheaper_eq_length {l : List RankingCandidate} {value : F64} (hfin : value.isFinite = true)
    (h : ∀ c ∈ l, ∃ w, eligibleValue c.evidence = some w ∧ direction.cost w < direction.cost value) :
    cheaper direction l value = l.length := by
  unfold cheaper
  rw [List.countP_eq_length]
  intro c hc
  obtain ⟨w, hw, hlt⟩ := h c hc
  exact (Option.any_eq_true _ _).mpr ⟨w, hw, (better_iff (eligibleValue_finite hw).1 hfin direction).mpr hlt⟩

theorem cheaper_congr {l : List RankingCandidate} {v w : F64} (hv : v.isFinite = true) (hw : w.isFinite = true)
    (h : direction.cost v = direction.cost w) : cheaper direction l v = cheaper direction l w := by
  unfold cheaper
  refine List.countP_congr fun c _ => ?_
  cases hc : eligibleValue c.evidence with
  | none => simp
  | some u =>
    have hu := (eligibleValue_finite hc).1
    simp only [Option.any_some]
    rw [better_iff hu hv, better_iff hu hw, h]

/-- Before an eligible candidate there are only eligible ones, of no greater cost. -/
theorem eligible_of_le {x : RankingCandidate} {w : F64} (h : rankKey direction x ≤ rankKey direction c)
    (hc : eligibleValue c.evidence = some w) :
    ∃ v, eligibleValue x.evidence = some v ∧ direction.cost v ≤ direction.cost w := by
  unfold rankKey at h
  rw [hc] at h
  cases hx : eligibleValue x.evidence with
  | none => rw [hx] at h; exact absurd h Sum.Lex.not_inr_le_inl
  | some v =>
    rw [hx] at h
    simp only [Sum.Lex.inl_le_inl_iff, Prod.Lex.toLex_le_toLex] at h
    refine ⟨v, rfl, ?_⟩
    rcases h with h | ⟨h, -⟩
    · exact le_of_lt h
    · exact le_of_eq h

theorem Scan.skip {previousValue : Option F64} {previousRank : Nat}
    (h : Scan direction behind previousValue previousRank)
    (hc : eligibleValue c.evidence = none) : Scan direction (behind ++ [c]) previousValue previousRank where
  start := fun e x hx => by
    rcases List.mem_append.mp hx with hx | hx
    · exact h.start e x hx
    · rw [List.mem_singleton.mp hx]; exact hc
  seen := fun v e => by
    obtain ⟨x, hx, hv⟩ := h.seen v e
    exact ⟨x, List.mem_append_left _ hx, hv⟩
  rank := fun v e => by
    rw [h.rank v e, cheaper_append]
    simp [cheaper, hc]
  last := fun v e x hx w hw => by
    rcases List.mem_append.mp hx with hx | hx
    · exact h.last v e x hx w hw
    · rw [List.mem_singleton.mp hx, hc] at hw; cases hw

section
variable {previousValue : Option F64} {previousRank : Nat} {w : F64}
    (h : Scan direction behind previousValue previousRank)
  (hc : eligibleValue c.evidence = some w)
  (hbehind : ∀ x ∈ behind, ∃ v, eligibleValue x.evidence = some v ∧ direction.cost v ≤ direction.cost w)
include h hc hbehind

theorem Scan.differs_rank (hd : differs previousValue w = true) : cheaper direction behind w = behind.length := by
  have hw := (eligibleValue_finite hc).1
  refine cheaper_eq_length hw fun x hx => ?_
  obtain ⟨v, hv, hle⟩ := hbehind x hx
  cases hp : previousValue with
  | none => rw [h.start hp x hx] at hv; cases hv
  | some u =>
    obtain ⟨y, hy, hu⟩ := h.seen u hp
    obtain ⟨u', hu', huw⟩ := hbehind y hy
    rw [hu] at hu'
    cases hu'
    have hne : direction.cost u ≠ direction.cost w := by
      intro e
      rw [hp, differs, (eq_iff_cost (eligibleValue_finite hu).1 hw direction).mpr e] at hd
      cases hd
    have := h.last u hp x hx v hv
    exact ⟨v, hv, by omega⟩

theorem Scan.next (hd : differs previousValue w = true) :
    Scan direction (behind ++ [c]) (some w) (behind.length + 1) where
  start := fun e => by cases e
  seen := fun v e => by
    cases e
    exact ⟨c, by simp, hc⟩
  rank := fun v e => by
    cases e
    have hw := (eligibleValue_finite hc).1
    have hself : cheaper direction [c] w = 0 := cheaper_eq_zero hw fun x hx u hu => by
      rw [List.mem_singleton.mp hx, hc] at hu
      cases hu
      exact le_refl _
    rw [cheaper_append, h.differs_rank hc hbehind hd, hself]
    omega
  last := fun v e x hx u hu => by
    cases e
    rcases List.mem_append.mp hx with hx | hx
    · obtain ⟨u', hu', hle⟩ := hbehind x hx
      rw [hu] at hu'
      cases hu'
      exact hle
    · rw [List.mem_singleton.mp hx, hc] at hu
      cases hu
      exact le_refl _

omit hbehind in
theorem Scan.shares (hd : differs previousValue w = false) : previousRank = 1 + cheaper direction behind w ∧
    Scan direction (behind ++ [c]) previousValue previousRank := by
  have hw := (eligibleValue_finite hc).1
  cases hp : previousValue with
  | none => rw [hp] at hd; cases hd
  | some u =>
    obtain ⟨y, hy, hu⟩ := h.seen u hp
    have hufin := (eligibleValue_finite hu).1
    have heq : direction.cost u = direction.cost w := by
      apply (eq_iff_cost hufin hw direction).mp
      rw [hp] at hd
      simpa [differs] using hd
    subst hp
    refine ⟨by rw [h.rank u rfl, cheaper_congr hufin hw heq], ?_⟩
    constructor
    · intro e
      cases e
    · intro v e
      obtain ⟨x, hx, hv⟩ := h.seen v e
      exact ⟨x, List.mem_append_left _ hx, hv⟩
    · intro v e
      cases e
      have hself : cheaper direction [c] u = 0 := cheaper_eq_zero hufin fun x hx v hv => by
        rw [List.mem_singleton.mp hx, hc] at hv
        cases hv
        exact le_of_eq heq
      rw [cheaper_append, hself, h.rank u rfl]
      omega
    · intro v e x hx t ht
      cases e
      rcases List.mem_append.mp hx with hx | hx
      · exact h.last u rfl x hx t ht
      · rw [List.mem_singleton.mp hx, hc] at ht
        cases ht
        exact le_of_eq heq.symm

end

/-- On sorted candidates the scan ranks each eligible one by its betters. -/
theorem assignRanks_eq {previousValue : Option F64} {previousRank : Nat}
    (hsorted : (behind ++ rest).Pairwise fun x y => rankKey direction x ≤ rankKey direction y)
    (h : Scan direction behind previousValue previousRank) :
    assignRanks behind.length previousValue previousRank rest = rest.map fun c =>
      ⟨c.evidence, (eligibleValue c.evidence).map fun v => 1 + cheaper direction (behind ++ rest) v⟩ := by
  induction rest generalizing behind previousValue previousRank with
  | nil => rfl
  | cons c rest ih =>
    have hsplit : behind ++ c :: rest = (behind ++ [c]) ++ rest := by simp
    have hlen : (behind ++ [c]).length = behind.length + 1 := by simp
    rw [hsplit] at hsorted ⊢
    have hih := fun {p : Option F64} {k : Nat} (hs : Scan direction (behind ++ [c]) p k) => ih hsorted hs
    rw [hlen] at hih
    cases hc : eligibleValue c.evidence with
    | none => simp only [assignRanks, hc, List.map_cons, Option.map_none, hih (h.skip hc)]
    | some w =>
      have hw := (eligibleValue_finite hc).1
      have hbehind : ∀ x ∈ behind, ∃ v, eligibleValue x.evidence = some v ∧
        direction.cost v ≤ direction.cost w := by
        intro x hx
        have hle := (List.pairwise_append.mp (List.pairwise_append.mp hsorted).1).2.2 x hx c (by simp)
        exact eligible_of_le hle hc
      -- nothing from here on is better
      have hahead : cheaper direction (behind ++ [c] ++ rest) w = cheaper direction behind w := by
        have hzero : cheaper direction ([c] ++ rest) w = 0 := cheaper_eq_zero hw fun x hx u hu => by
          rcases List.mem_append.mp hx with hx | hx
          · rw [List.mem_singleton.mp hx, hc] at hu
            cases hu
            exact le_refl _
          · have hle := (List.pairwise_append.mp hsorted).2.2 c (by simp) x hx
            obtain ⟨v, hv, hvu⟩ := eligible_of_le hle hu
            rw [hc] at hv
            cases hv
            exact hvu
        rw [List.append_assoc, cheaper_append, hzero]; rfl
      by_cases hd : differs previousValue w = true
      · simp only [assignRanks, hc, hd, ite_true, List.map_cons, Option.map_some, hahead,
          h.differs_rank hc hbehind hd, hih (h.next hc hbehind hd), Nat.add_comm 1]
      · simp only [Bool.not_eq_true] at hd
        obtain ⟨hrank, hscan⟩ := h.shares hc hd
        simp only [assignRanks, hc, hd, Bool.false_eq_true, ite_false, List.map_cons, Option.map_some, hahead,
          hih hscan]
        rw [hrank]

theorem scan_nil : Scan direction [] none 0 := by
  constructor
  · intro _ _ hc
    cases hc
  · intro _ e
    cases e
  · intro _ e
    cases e
  · intro _ e
    cases e

end

/-! ## The entries -/

def RankingCandidate.eligible (c : RankingCandidate) : Bool := (eligibleValue c.evidence).isSome

theorem eligibleValue_eq_none {c : RankingCandidate} (h : c.eligible = false) : eligibleValue c.evidence = none :=
  Option.isNone_iff_eq_none.mp (Option.isSome_eq_false_iff.mp h)

def rankedEntry (direction : ObjectiveDirection) (candidates : List RankingCandidate) (c : RankingCandidate) :
    RankingEntry :=
  ⟨c.evidence, (eligibleValue c.evidence).map fun v => 1 + cheaper direction candidates v⟩

/-- What an eligible candidate is ranked by, without its ordinal. -/
def RankingCandidate.core (c : RankingCandidate) : ObjectiveEvidence × Int := (c.evidence, c.createdAt)

def coreKey (direction : ObjectiveDirection) (r : ObjectiveEvidence × Int) : Int ×ₗ Int ×ₗ String :=
  toLex ((eligibleValue r.1).elim 0 direction.cost, toLex (r.2, r.1.runId))

section
variable {objective : ObjectiveMetric} {direction : ObjectiveDirection} {candidates : List RankingCandidate}

theorem rankCandidates_entries : (rankCandidates objective candidates).entries =
    (orderBy (rankKey objective.direction) candidates).map (rankedEntry objective.direction candidates) := by
  have hsorted : ([] ++ orderBy (rankKey objective.direction) candidates).Pairwise fun x y =>
      rankKey objective.direction x ≤ rankKey objective.direction y := orderBy_pairwise _ candidates
  have h := assignRanks_eq hsorted scan_nil
  have hperm : ∀ v, cheaper objective.direction (orderBy (rankKey objective.direction) candidates) v =
      cheaper objective.direction candidates v := fun v => (orderBy_perm _ _).countP_eq _
  simp only [rankCandidates, sort_candidates]
  simp only [List.nil_append, hperm, List.length_nil] at h
  exact h

theorem eligible_pairwise (direction : ObjectiveDirection) (candidates : List RankingCandidate) :
    (orderBy (rankKey direction) candidates).Pairwise
    fun x y => y.eligible = true → x.eligible = true := by
  refine (orderBy_pairwise (rankKey direction) candidates).imp fun {x y} hle hy => ?_
  obtain ⟨w, hw⟩ := Option.isSome_iff_exists.mp hy
  obtain ⟨v, hv, -⟩ := eligible_of_le hle hw
  exact Option.isSome_iff_exists.mpr ⟨v, hv⟩

theorem rankKey_core {c : RankingCandidate} (h : c.eligible = true) :
    rankKey direction c = toLex (Sum.inl (coreKey direction c.core)) := by
  obtain ⟨v, hv⟩ := Option.isSome_iff_exists.mp h
  simp [rankKey, coreKey, RankingCandidate.core, hv]

/-- Candidates of different runs, numbered in order. -/
structure Numbered (candidates : List RankingCandidate) : Prop where
  runs : (candidates.map fun c => c.evidence.runId).Nodup
  ordinals : candidates.Pairwise fun x y => x.ordinal < y.ordinal

variable (h : Numbered candidates)
include h

theorem Numbered.keys : (candidates.map (rankKey direction)).Nodup := by
  have hnodup : candidates.Nodup := List.Nodup.of_map _ h.runs
  refine List.Nodup.map_on (fun x hx y hy e => ?_) hnodup
  apply List.inj_on_of_nodup_map h.runs hx hy
  cases hex : x.eligible with
  | true =>
    cases hey : y.eligible with
    | true =>
      rw [rankKey_core hex, rankKey_core hey] at e
      have hcore := Sum.inl.inj (toLex.injective e)
      exact (Prod.mk.inj (toLex.injective (Prod.mk.inj (toLex.injective hcore)).2)).2
    | false =>
      rw [rankKey_core hex, rankKey, eligibleValue_eq_none hey] at e
      cases toLex.injective e
  | false =>
    cases hey : y.eligible with
    | true =>
      rw [rankKey_core hey, rankKey, eligibleValue_eq_none hex] at e
      cases toLex.injective e
    | false =>
      rw [rankKey, rankKey, eligibleValue_eq_none hex, eligibleValue_eq_none hey] at e
      have hord : x.ordinal = y.ordinal := Sum.inr.inj (toLex.injective e)
      have hdist : (candidates.map fun c => c.ordinal).Nodup := by
        rw [List.Nodup, List.pairwise_map]
        exact h.ordinals.imp fun hlt => ne_of_lt hlt
      rw [List.inj_on_of_nodup_map hdist hx hy hord]

theorem Numbered.sorted : orderBy (rankKey direction) candidates =
    orderBy (rankKey direction) (candidates.filter RankingCandidate.eligible) ++
      candidates.filter fun c => !c.eligible := by
  have hrest : orderBy (rankKey direction) (candidates.filter fun c => !c.eligible) =
      candidates.filter fun c => !c.eligible := by
    refine eq_of_strict (rankKey direction) (orderBy_strict _ ((List.filter_sublist.map _).nodup h.keys)) ?_
      fun x => mem_orderBy _
    refine (h.ordinals.filter _).imp_of_mem fun {x y} hx hy hlt => ?_
    have hnone : ∀ {c : RankingCandidate}, c ∈ candidates.filter (fun c => !c.eligible) →
        eligibleValue c.evidence = none := by
      intro c hc
      exact eligibleValue_eq_none (by simpa using (List.mem_filter.mp hc).2)
    rw [rankKey, rankKey, hnone hx, hnone hy]
    exact Sum.Lex.inr_lt_inr_iff.mpr hlt
  have hsplit := eq_filter_append (eligible_pairwise direction candidates)
  rw [← orderBy_filter _ h.keys, ← orderBy_filter _ h.keys, hrest] at hsplit
  exact hsplit

/-- The sorted eligible candidates are a function of the set of their cores. -/
theorem Numbered.eligible_core (direction : ObjectiveDirection) {others : List RankingCandidate}
    (h' : Numbered others)
    (hperm : (others.map RankingCandidate.core).Perm (candidates.map RankingCandidate.core)) :
    (orderBy (rankKey direction) (others.filter RankingCandidate.eligible)).map RankingCandidate.core =
      (orderBy (rankKey direction) (candidates.filter RankingCandidate.eligible)).map RankingCandidate.core := by
  have hstrict : ∀ {l : List RankingCandidate}, Numbered l →
      ((orderBy (rankKey direction) (l.filter RankingCandidate.eligible)).map RankingCandidate.core).Pairwise
        fun x y => coreKey direction x < coreKey direction y := by
    intro l hl
    rw [List.pairwise_map]
    refine (orderBy_strict _ ((List.filter_sublist.map _).nodup hl.keys)).imp_of_mem fun {x y} hx hy hlt => ?_
    have hx' := (List.mem_filter.mp ((mem_orderBy _).mp hx)).2
    have hy' := (List.mem_filter.mp ((mem_orderBy _).mp hy)).2
    rw [rankKey_core hx', rankKey_core hy'] at hlt
    exact Sum.Lex.inl_lt_inl_iff.mp hlt
  have hmem : ∀ (l : List RankingCandidate) r,
      r ∈ (orderBy (rankKey direction) (l.filter RankingCandidate.eligible)).map RankingCandidate.core ↔
        r ∈ l.map RankingCandidate.core ∧ (eligibleValue r.1).isSome = true := by
    intro l r
    simp only [List.mem_map, mem_orderBy, List.mem_filter]
    constructor
    · rintro ⟨c, ⟨hc, he⟩, rfl⟩
      exact ⟨⟨c, hc, rfl⟩, he⟩
    · rintro ⟨⟨c, hc, rfl⟩, he⟩
      exact ⟨c, ⟨hc, he⟩, rfl⟩
  refine eq_of_strict (coreKey direction) (hstrict h') (hstrict h) fun r => ?_
  rw [hmem, hmem, hperm.mem_iff]

end

end Pulseon
