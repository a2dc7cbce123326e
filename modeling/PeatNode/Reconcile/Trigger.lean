/-
# The reconcile trigger and its loop

`ReconcileTrigger::trigger` and `close` against the loop of `spawn_reconciler_with`, any number of
calls at once: the load of `closed`, the `try_send` into a channel of one slot and the swap of
`pending` are separate steps of a call, and so are the two stores of `close` and the receive, the
load and the swap of the loop.
-/

import PeatNode.Lib.Lts
import PeatNode.Reconcile.Scan

namespace PeatNode.Reconcile

open Bridge

inductive ReconcileReason
  | startupReady
  | reconnectReady
  | eventLagged
deriving DecidableEq

/-- `ReconcileSnapshot`. -/
structure ReconcileStats where
  triggers : ℕ := 0
  coalesced : ℕ := 0
  scans : ℕ := 0
  hydrated : ℕ := 0
  suppressed : ℕ := 0
  failures : ℕ := 0
deriving DecidableEq

/-- The counter of a scan's answer. -/
def ReconcileStats.count (stats : ReconcileStats) : ScanEffect → ReconcileStats
  | .nothing => stats
  | .suppressed => { stats with suppressed := stats.suppressed + 1 }
  | .hydrated => { stats with hydrated := stats.hydrated + 1 }
  | .failure | .exclusionFailure | .deliveryFailure =>
    { stats with failures := stats.failures + 1 }

@[simp] theorem ReconcileStats.scans_count (stats : ReconcileStats) (effect : ScanEffect) :
    (stats.count effect).scans = stats.scans := by
  cases effect <;> rfl

inductive TriggerPc
  | began
  | opened
  | refused
deriving DecidableEq

/-- A `trigger` call, with the scans started before it. -/
structure TriggerCall where
  reason : ReconcileReason
  since : ℕ
  pc : TriggerPc
deriving DecidableEq

inductive LoopPc
  | recv
  | received
  | scanning (pc : ScanPc)
  | scanned
  | swapping
  | exited
deriving DecidableEq

/-- The shared state, the calls and the loop; below the line, what a run has done. -/
structure Reconciler where
  mappings : List String
  channel : Option ReconcileReason
  pending : Bool
  closed : Bool
  dropped : Bool
  loop : LoopPc
  calls : Multiset TriggerCall
  closing : ℕ
  stats : ReconcileStats
  -- history: `trigger` calls begun, completed calls by `since`, scans returned,
  -- whether a `close` has returned, and the `deliver_candidate` calls after that
  begun : ℕ
  completed : List ℕ
  returned : ℕ
  closeReturned : Bool
  lateCandidates : ℕ

namespace Reconciler

/-- `spawn_reconciler_with`. -/
def spawn (mappings : List String) : Reconciler where
  mappings := mappings
  channel := none
  pending := false
  closed := false
  dropped := false
  loop := .recv
  calls := 0
  closing := 0
  stats := {}
  begun := 0
  completed := []
  returned := 0
  closeReturned := false
  lateCandidates := 0

def move (s : Reconciler) (c : TriggerCall) (pc : TriggerPc) : Reconciler :=
  { s with calls := { c with pc := pc } ::ₘ s.calls.erase c }

def finish (s : Reconciler) (c : TriggerCall) : Reconciler :=
  { s with calls := s.calls.erase c, completed := c.since :: s.completed }

def stepCall (s : Reconciler) (c : TriggerCall) : Reconciler :=
  match c.pc with
  | .began =>
    if s.closed then s.finish c
    else { s.move c .opened with stats.triggers := s.stats.triggers + 1 }
  | .opened =>
    -- one slot, and a receiver as long as the loop runs
    if s.channel = none ∧ s.loop ≠ .exited then { s.finish c with channel := some c.reason }
    else s.move c .refused
  | .refused =>
    let s' := { s.finish c with pending := true }
    if s.pending then s' else { s' with stats.coalesced := s.stats.coalesced + 1 }

def startScan (s : Reconciler) : Reconciler :=
  { s with
    loop := .scanning (ScanPc.nextMapping s.mappings), stats.scans := s.stats.scans + 1 }

/-- Outside a scan; `none` where it is parked. -/
def stepLoop (s : Reconciler) : Option Reconciler :=
  match s.loop with
  | .recv =>
    if s.channel ≠ none then some { s with channel := none, loop := .received }
    else if s.dropped then some { s with loop := .exited }
    else none
  | .received => some (if s.closed then { s with loop := .exited } else s.startScan)
  | .scanning .done => some { s with loop := .scanned, returned := s.returned + 1 }
  | .scanned => some { s with loop := if s.closed then .recv else .swapping }
  | .swapping =>
    some (if s.pending then { s.startScan with pending := false } else { s with loop := .recv })
  | _ => none

/-- Ledgers and readiness answer anything. -/
def stepCheck (s : Reconciler) (exclusionHealthy deliveryHealthy : Bool) (status : BridgeStatus) :
    Option Reconciler :=
  match s.loop with
  | .scanning pc =>
    (pc.check (canScan s.closed exclusionHealthy deliveryHealthy status)).map
      fun pc' => { s with loop := .scanning pc' }
  | _ => none

/-- An offer after a `close` is counted. -/
def stepAnswer (s : Reconciler) (a : ScanAnswer) : Option Reconciler :=
  match s.loop with
  | .scanning pc =>
    (pc.answer a).map fun r =>
      { s with
        loop := .scanning r.1, stats := s.stats.count r.2,
        lateCandidates := s.lateCandidates + if s.closeReturned ∧ a = .call then 1 else 0 }
  | _ => none

inductive Label
  | trigger (reason : ReconcileReason)
  | call (c : TriggerCall)
  | closeFlag
  | closePending
  | drop
  | loop
  | check (exclusionHealthy deliveryHealthy : Bool) (status : BridgeStatus)
  | answer (a : ScanAnswer)

def step (s : Reconciler) : Label → Option Reconciler
  | .trigger reason =>
    if s.dropped then none
    else some { s with
      begun := s.begun + 1, calls := ⟨reason, s.stats.scans, .began⟩ ::ₘ s.calls }
  | .call c => if c ∈ s.calls then some (s.stepCall c) else none
  | .closeFlag => some { s with closed := true, closing := s.closing + 1 }
  | .closePending =>
    if s.closing = 0 then none
    else some { s with pending := false, closing := s.closing - 1, closeReturned := true }
  | .drop => if s.calls = 0 then some { s with dropped := true } else none
  | .loop => s.stepLoop
  | .check exclusionHealthy deliveryHealthy status =>
    s.stepCheck exclusionHealthy deliveryHealthy status
  | .answer a => s.stepAnswer a

/-- It waits, and nothing is there. -/
def Parked (s : Reconciler) : Prop := s.loop = .recv ∧ s.channel = none
deriving Decidable

end Reconciler
end PeatNode.Reconcile
