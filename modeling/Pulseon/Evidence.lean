import Mathlib.Order.Basic
import Pulseon.Aggregates
import Pulseon.Doubles

/-!
# Evidence

How complete the evidence of a run is and why it is not: the types that the
aligned query, the ranking and the comparison share. A run's objective evidence
is its last effective value, qualified by its status.
-/

namespace Pulseon

/-- `Partial` is `qualified` here. -/
inductive EvidenceCompleteness
  | complete | qualified | unavailable | invalid
deriving DecidableEq, Repr

def EvidenceCompleteness.rank : EvidenceCompleteness → Nat
  | .complete => 0
  | .qualified => 1
  | .unavailable => 2
  | .invalid => 3

theorem EvidenceCompleteness.rank_injective : Function.Injective EvidenceCompleteness.rank := by
  intro a b h
  cases a <;> cases b <;> simp [EvidenceCompleteness.rank] at h ⊢

instance : LinearOrder EvidenceCompleteness :=
  LinearOrder.lift' EvidenceCompleteness.rank EvidenceCompleteness.rank_injective

inductive EvidenceReason
  | missingMetric | missingRunStart | negativeAxis | decreasingAxis | nonFiniteValue | runRunning | runFailed
deriving DecidableEq, Repr

def lifecycleReason : RunStatus → Option EvidenceReason
  | .running => some .runRunning
  | .failed => some .runFailed
  | .finished => none

def qualifyLifecycle (runStatus : RunStatus) (completeness : EvidenceCompleteness) (reasons : List EvidenceReason) :
    EvidenceCompleteness × List EvidenceReason :=
  match lifecycleReason runStatus with
  | some reason => (max completeness .qualified, reasons ++ [reason])
  | none => (completeness, reasons)

/-! ## Objectives -/

inductive ObjectiveDirection
  | minimize | maximize
deriving DecidableEq, Repr

structure ObjectiveMetric where
  metricKey : MetricKey
  direction : ObjectiveDirection
deriving DecidableEq, Repr

structure ObjectiveEvidence where
  runId : RunId
  runStatus : RunStatus
  lastStep : Option Int
  lastValueF64 : Option F64
  completeness : EvidenceCompleteness
  reasons : List EvidenceReason
deriving DecidableEq, Repr

def ObjectiveEvidence.usableValue (e : ObjectiveEvidence) : Option F64 := e.lastValueF64.filter F64.isFinite

def objectiveEvidence (runId : RunId) (runStatus : RunStatus) (aggregate : Option MetricAggregate) :
    ObjectiveEvidence :=
  let (lastStep, lastValueF64, completeness, reasons) := match aggregate with
    | none => (none, none, EvidenceCompleteness.unavailable, [EvidenceReason.missingMetric])
    | some a =>
      if a.lastValueF64.isFinite then (some a.lastStep, some a.lastValueF64, .complete, [])
      else (some a.lastStep, some a.lastValueF64, .invalid, [.nonFiniteValue])
  let (completeness, reasons) := qualifyLifecycle runStatus completeness reasons
  ⟨runId, runStatus, lastStep, lastValueF64, completeness, reasons⟩

end Pulseon
