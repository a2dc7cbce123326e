/-
# Readiness of the bridge

`BridgeStatus` of `src/nats_bridge/readiness.rs` and the mutations of
`BridgeReadiness`, each as a function on the status; `update` adds the
transition that the mutation reports.  A `BTreeSet<Subject>` is a `Finset` of
strings.
-/

import Mathlib.Data.Finset.Card

namespace PeatNode.Bridge

structure BridgeStatus where
  enabled : Bool
  accepting : Bool
  deliveryHealthy : Bool
  exclusionHealthy : Bool
  connected : Bool
  expectedSubscriptions : ℕ
  establishedSubjects : Finset String
  configuredSubjects : Finset String
deriving DecidableEq

namespace BridgeStatus

/-- Connected, with every subject established. -/
def isReady (s : BridgeStatus) : Bool :=
  s.enabled && s.accepting && s.deliveryHealthy && s.exclusionHealthy && s.connected &&
    decide (s.establishedSubjects = s.configuredSubjects)

def new (subjects : List String) : BridgeStatus where
  enabled := true
  accepting := true
  deliveryHealthy := true
  exclusionHealthy := true
  connected := false
  expectedSubscriptions := subjects.toFinset.card
  establishedSubjects := ∅
  configuredSubjects := subjects.toFinset

def setConnected (s : BridgeStatus) : BridgeStatus := { s with connected := true }

def markAllSubscriptionsEstablished (s : BridgeStatus) : BridgeStatus :=
  { s with establishedSubjects := s.configuredSubjects }

def invalidateSubscriptionGeneration (s : BridgeStatus) : BridgeStatus :=
  { s with establishedSubjects := ∅ }

def markDisconnected (s : BridgeStatus) : BridgeStatus :=
  { s with connected := false, establishedSubjects := ∅ }

def setDeliveryHealthy (s : BridgeStatus) (healthy : Bool) : BridgeStatus :=
  { s with deliveryHealthy := healthy }

def setExclusionHealthy (s : BridgeStatus) (healthy : Bool) : BridgeStatus :=
  { s with exclusionHealthy := healthy }

def beginShutdown (s : BridgeStatus) : BridgeStatus := { s with accepting := false }

/-- Ready but for the connection and the subscriptions. -/
def able (s : BridgeStatus) : Bool :=
  s.enabled && s.accepting && s.deliveryHealthy && s.exclusionHealthy

variable {s : BridgeStatus}

theorem isReady_iff_able : s.isReady = true ↔
      s.able = true ∧ s.connected = true ∧ s.establishedSubjects = s.configuredSubjects := by
  simp [isReady, able, and_assoc]

theorem not_isReady_of_not_accepting (h : s.accepting = false) : s.isReady = false := by
  simp [isReady, h]

inductive Mutation
  | setConnected
  | markAllSubscriptionsEstablished
  | invalidateSubscriptionGeneration
  | markDisconnected
  | setDeliveryHealthy (healthy : Bool)
  | setExclusionHealthy (healthy : Bool)
  | beginShutdown
deriving DecidableEq

def mutate (s : BridgeStatus) : Mutation → BridgeStatus
  | .setConnected => s.setConnected
  | .markAllSubscriptionsEstablished => s.markAllSubscriptionsEstablished
  | .invalidateSubscriptionGeneration => s.invalidateSubscriptionGeneration
  | .markDisconnected => s.markDisconnected
  | .setDeliveryHealthy healthy => s.setDeliveryHealthy healthy
  | .setExclusionHealthy healthy => s.setExclusionHealthy healthy
  | .beginShutdown => s.beginShutdown

/-- No mutation ends a shutdown. -/
theorem accepting_mutate (h : s.accepting = false) (m : Mutation) :
    (s.mutate m).accepting = false := by
  cases m with
  | beginShutdown => rfl
  | _ => exact h

end BridgeStatus

structure ReadinessTransition where
  wasReady : Bool
  isReady : Bool
  changed : Bool
  status : BridgeStatus
deriving DecidableEq

def ReadinessTransition.becameReady (t : ReadinessTransition) : Bool := !t.wasReady && t.isReady

/-- The mutation, and what it reports. -/
def update (before : BridgeStatus) (mutate : BridgeStatus → BridgeStatus) : ReadinessTransition :=
  ⟨before.isReady, (mutate before).isReady, decide (before ≠ mutate before), mutate before⟩

end PeatNode.Bridge
