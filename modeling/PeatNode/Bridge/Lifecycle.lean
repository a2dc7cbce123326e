/-
# Delivered lifecycle events

`LifecycleControl` of `src/nats_bridge/runtime.rs`: what a delivered event does to readiness and to
the lifecycle snapshot, and the decisions that the client supervisor takes from the snapshot and
from its generation of subscriptions.  Epochs and sequence numbers are `u64` and saturate.
-/

import PeatNode.Reconcile.Trigger

namespace PeatNode.Bridge

open Reconcile (ReconcileReason)

def u64Max : ℕ := UInt64.size - 1

/-- `saturating_add(1)` on a `u64`. -/
def saturatingSucc (n : ℕ) : ℕ := min (n + 1) u64Max

theorem saturatingSucc_eq_self_iff (h : n ≤ u64Max) : saturatingSucc n = n ↔ n = u64Max := by
  unfold saturatingSucc
  omega

theorem saturatingSucc_le (n : ℕ) : saturatingSucc n ≤ u64Max := Nat.min_le_right _ _

inductive DeliveredLifecycleEvent
  | initial
  | connected
  | disconnected
  | error
deriving DecidableEq

/-- `LifecycleSnapshot`, with the values of its `Default`. -/
structure LifecycleSnapshot where
  sequence : ℕ := 0
  connectionEpoch : ℕ := 0
  invalidationEpoch : ℕ := 0
  connected : Bool := false
  lastEvent : DeliveredLifecycleEvent := .initial
  connectedSequence : ℕ := 0
  invalidationSequence : ℕ := 0
deriving DecidableEq

/-- What `delivered` does to readiness. -/
def DeliveredLifecycleEvent.readiness (status : BridgeStatus) :
    DeliveredLifecycleEvent → BridgeStatus
  | .initial => status
  | .connected => status.setConnected
  | .disconnected => status.markDisconnected
  | .error => status.invalidateSubscriptionGeneration

/-- The closure of `send_modify`. -/
def LifecycleSnapshot.delivered (state : LifecycleSnapshot) (event : DeliveredLifecycleEvent) :
    LifecycleSnapshot :=
  let sequence := saturatingSucc state.sequence
  let state := { state with sequence := sequence, lastEvent := event }
  match event with
  | .connected =>
    { state with
      connectionEpoch := saturatingSucc state.connectionEpoch
      connected := true
      connectedSequence := sequence }
  | .disconnected =>
    { state with
      invalidationEpoch := saturatingSucc state.invalidationEpoch
      connected := false
      invalidationSequence := sequence }
  | .error =>
    { state with
      invalidationEpoch := saturatingSucc state.invalidationEpoch
      invalidationSequence := sequence }
  | .initial => state

structure BarrierTags where
  connectionEpoch : ℕ
  invalidationEpoch : ℕ
  generationId : ℕ
deriving DecidableEq

def barrierTagsMatch (tags : BarrierTags) (lifecycle : LifecycleSnapshot)
    (generationId : Option ℕ) : Bool :=
  lifecycle.connected && decide (lifecycle.connectionEpoch = tags.connectionEpoch) &&
    decide (lifecycle.invalidationEpoch = tags.invalidationEpoch) &&
    decide (generationId = some tags.generationId)

theorem barrierTagsMatch_iff :
    barrierTagsMatch tags lifecycle generationId = true ↔
      lifecycle.connected = true ∧ lifecycle.connectionEpoch = tags.connectionEpoch ∧
        lifecycle.invalidationEpoch = tags.invalidationEpoch ∧
        generationId = some tags.generationId := by
  simp [barrierTagsMatch, and_assoc]

def barrierAllowedAfterLatestDelivery (lifecycle : LifecycleSnapshot) : Bool :=
  lifecycle.connected && decide (lifecycle.connectedSequence > lifecycle.invalidationSequence)

def reconcileReasonForReadyGeneration (readyGenerations : ℕ) : ReconcileReason :=
  if readyGenerations = 0 then .startupReady else .reconnectReady

inductive GenerationAction
  | buildAll (subjectCount : ℕ)
  | flushRetained (generationId : ℕ)
  | removeOnly (generationId : ℕ)
  | rebuildAll (generationId subjectCount : ℕ)
deriving DecidableEq

def connectedGenerationAction (generation : Option ℕ) (subjectCount : ℕ) : GenerationAction :=
  match generation with
  | some id => .flushRetained id
  | none => .buildAll subjectCount

def endedGenerationAction (generation : Option ℕ) (endedGenerationId : ℕ) (connected : Bool)
    (subjectCount : ℕ) : Option GenerationAction :=
  match generation with
  | none => none
  | some id =>
    if id ≠ endedGenerationId then none
    else if connected then some (.rebuildAll id subjectCount)
    else some (.removeOnly id)

end PeatNode.Bridge
