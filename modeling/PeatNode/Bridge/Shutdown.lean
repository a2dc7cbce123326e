/-
# Shutting the bridge down

`BridgeRuntimeHandle::shutdown` from the moment `begin_shutdown` has taken effect, against the
shutdown branch of the client supervisor (`src/nats_bridge/runtime.rs`) and `run_egress_worker`
with its `NatsBridgePublisher` (`src/nats_bridge/egress.rs`).  The handle joins the producers, the
supervisor and the other tasks, then stops the delivery journal; the supervisor waits for the
egress worker before it flushes and drains the client.  The deadline is not reached.
-/

import PeatNode.Egress.System

namespace PeatNode.Bridge

open Egress Ledger

inductive DrainPc
  | idle
  | received (item : EgressItem)
  | published (item : EgressItem)
  | flushed (item : EgressItem)
  | exited
deriving DecidableEq

/-- The shutdown branch of the client supervisor. -/
inductive SupervisorPc
  | selecting
  | stopping
  | egress
  | flushing
  | draining
  | returned
deriving DecidableEq

inductive HandlePc
  | producers
  | supervisor
  | consumers
  | ledgers
  | done
deriving DecidableEq

structure Shutdown where
  status : BridgeStatus
  handle : HandlePc
  supervisor : SupervisorPc
  egress : DrainPc
  fifo : List EgressItem
  sending : Bool
  ledger : Worker
  ledgerStopped : Bool
  -- history: items given to the client's `publish`, items completed in the
  -- journal, and items refused as `Unavailable` by the publisher
  handed : List EgressItem
  completed : List EgressItem
  unavailable : List EgressItem
deriving DecidableEq

def SupervisorPc.pastEgress : SupervisorPc → Bool
  | .flushing | .draining | .returned => true
  | .selecting | .stopping | .egress => false

def HandlePc.pastSupervisor : HandlePc → Bool
  | .consumers | .ledgers | .done => true
  | .producers | .supervisor => false

namespace Shutdown

/-- `begin_shutdown` has taken effect. -/
def begin (status : BridgeStatus) (egress : DrainPc) (fifo : List EgressItem) (ledger : Worker) :
    Shutdown where
  status := status.beginShutdown
  handle := .producers
  supervisor := .selecting
  egress := egress
  fifo := fifo
  sending := true
  ledger := ledger
  ledgerStopped := false
  handed := []
  completed := []
  unavailable := []

/-- The next stage, if it need not wait. -/
def stepHandle (s : Shutdown) : Option Shutdown :=
  match s.handle with
  | .producers => some { s with sending := false, handle := .supervisor }
  | .supervisor => if s.supervisor = .returned then some { s with handle := .consumers } else none
  | .consumers => some { s with handle := .ledgers }
  | .ledgers => some { s with ledgerStopped := true, handle := .done }
  | .done => none

/-- The shutdown branch of the supervisor. -/
def stepSupervisor (s : Shutdown) : Option Shutdown :=
  match s.supervisor with
  | .selecting => some { s with status := s.status.beginShutdown, supervisor := .stopping }
  | .stopping => some { s with supervisor := .egress }
  | .egress => if s.egress = .exited then some { s with supervisor := .flushing } else none
  | .flushing => some { s with supervisor := .draining }
  | .draining => some { s with supervisor := .returned }
  | .returned => none

/-- `rx.recv` of the egress worker. -/
def receive (s : Shutdown) : Option Shutdown :=
  match s.egress, s.fifo with
  | .idle, item :: rest => some { s with egress := .received item, fifo := rest }
  | .idle, [] => if s.sending then none else some { s with egress := .exited }
  | _, _ => none

/-- With the connection state and the client's answer. -/
def publish (s : Shutdown) (connected : Bool) (client : Except EgressFailureKind Unit) :
    Option Shutdown :=
  match s.egress with
  | .received item =>
    if s.status.isReady && connected then
      some { s with
        handed := item :: s.handed, egress := if client = .ok () then .published item else .idle }
    else some { s with unavailable := item :: s.unavailable, egress := .idle }
  | _ => none

/-- With the answer of the client. -/
def flush (s : Shutdown) (client : Except EgressFailureKind Unit) : Option Shutdown :=
  match s.egress with
  | .published item =>
    some { s with
      egress := if s.status.isReady && decide (client = .ok ()) then .flushed item else .idle }
  | _ => none

/-- `mark_completed` and what follows it. -/
def complete (s : Shutdown) (io : RecordIo) : Option Shutdown :=
  match s.egress with
  | .flushed item =>
    match markCompleted s.ledger item.digest io with
    | (ledger, .ok ()) =>
      some { s with ledger := ledger, egress := .idle, completed := item :: s.completed }
    | (ledger, .error _) =>
      some { s with ledger := ledger, egress := .idle, status := s.status.setDeliveryHealthy false }
  | _ => none

inductive Label
  | handle
  | supervisor
  | enqueue (item : EgressItem)
  | receive
  | publish (connected : Bool) (client : Except EgressFailureKind Unit)
  | flush (client : Except EgressFailureKind Unit)
  | complete (io : RecordIo)
  | mutate (m : BridgeStatus.Mutation)

def step (s : Shutdown) : Label → Option Shutdown
  | .handle => s.stepHandle
  | .supervisor => s.stepSupervisor
  | .enqueue item =>
    if s.sending ∧ s.fifo.length < egressQueueCapacity then some { s with fifo := s.fifo ++ [item] }
    else none
  | .receive => s.receive
  | .publish connected client => s.publish connected client
  | .flush client => s.flush client
  | .complete io => s.complete io
  | .mutate m => some { s with status := s.status.mutate m }

end Shutdown
end PeatNode.Bridge
