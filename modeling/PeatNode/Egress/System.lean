/-
# The delivery pipeline

Everything between a remote change and the call of the publisher, over any number of process
lifetimes: the calls of `DeliveryCoordinator::deliver`, the command queue and the loop of the
delivery journal's worker, the bounded FIFO, and `run_egress_worker` (`src/nats_bridge/egress.rs`,
`src/nats_bridge/ledger.rs`).

Each label is one atomic step of one task, with what the environment decides.  `Worker::record` is
three of them: it reads the worker's health, it queues the command, it waits for the answer.  A task
may be dropped wherever it waits.  `published` is the log of all calls of
`BridgePublisher::publish`, over all lifetimes.
-/

import PeatNode.Bridge.Readiness
import PeatNode.Egress.Classify
import PeatNode.Ledger.Worker

namespace PeatNode.Egress

open Bridge DurableFile Ledger

def egressQueueCapacity : ℕ := 256

inductive EgressFailureKind
  | eventLagged
  | queueFull
  | queueClosed
  | unavailable
  | publishFailed
  | maxPayloadExceeded
  | flushFailed
  | ledgerUnavailable
deriving DecidableEq

/-- A publisher's failures; the others are `unreachable!`. -/
def EgressFailureKind.ofPublisher : EgressFailureKind → Bool
  | .unavailable | .publishFailed | .maxPayloadExceeded | .flushFailed | .ledgerUnavailable => true
  | .eventLagged | .queueFull | .queueClosed => false

inductive EgressActionKind
  | skipped (kind : EgressSkipKind)
  | lost (kind : EgressFailureKind)
  | published
deriving DecidableEq

/-- A `Command::Record` of the delivery worker; the ticket stands for the answer's channel. -/
structure Command where
  ticket : ℕ
  digest : LedgerDigest
  state : RecordState
deriving DecidableEq

inductive CallPc
  | classified
  | admitted
  | cleared
  | waiting (ticket : ℕ)
  | answered (answer : Except LedgerError Bool)
  | done (result : Except EgressActionKind Unit)
deriving DecidableEq

structure Call where
  offer : Offer
  pc : CallPc
deriving DecidableEq

/-- What the call awaits an answer to. -/
def Call.command (c : Call) : Option Command :=
  match c.pc with
  | .waiting ticket => some ⟨ticket, c.offer.item.digest, .reserved⟩
  | _ => none

inductive EgressPc
  | idle
  | received (offer : Offer)
  | publishing (offer : Offer)
  | flushed (offer : Offer)
  | cleared (offer : Offer)
  | waiting (ticket : ℕ) (offer : Offer)
  | answered (answer : Except LedgerError Bool)
deriving DecidableEq

def EgressPc.command : EgressPc → Option Command
  | .waiting ticket offer => some ⟨ticket, offer.item.digest, .completed⟩
  | _ => none

structure Process where
  worker : Worker
  commands : List Command
  nextTicket : ℕ
  stopped : Bool
  status : BridgeStatus
  calls : Multiset Call
  fifo : List Offer
  fifoClosed : Bool
  egress : EgressPc
deriving DecidableEq

/-- Who gets the answer of the worker. -/
inductive Receiver
  | call (c : Call)
  | egress
  | gone
deriving DecidableEq

/-- The steps inside a process, the call of the publisher apart. -/
inductive Action
  | setStatus (status : BridgeStatus)
  | deliver (event : BridgeChangeEvent)
  | checkReadiness (c : Call)
  | checkHealth (c : Call)
  | send (c : Call)
  | serve (io : RecordIo) (receiver : Receiver)
  | resume (c : Call)
  | abort (c : Call)
  | receive
  | publishReturns (outcome : Except EgressFailureKind Unit)
  | completeHealth
  | completeSend
  | completeResume
  | abortEgress
  | stopLedger
  | dropReply (c : Call)
  | dropCompletion
deriving DecidableEq

namespace Process

def start (k : EgressClassifier) (j : Journal) : Process where
  worker := .spawn j
  commands := []
  nextTicket := 0
  stopped := false
  status := .new (k.mappings.map SubjectMapping.subject)
  calls := 0
  fifo := []
  fifoClosed := false
  egress := .idle

def move (p : Process) (c : Call) (pc : CallPc) : Process :=
  { p with calls := ⟨c.offer, pc⟩ ::ₘ p.calls.erase c }

/-- The queue is gone, full, or takes the command. -/
def trySend (p : Process) (digest : LedgerDigest) (state : RecordState) :
    Except LedgerError Process :=
  if p.stopped then .error .stopped
  else if commandCapacity ≤ p.commands.length then .error .queueFull
  else .ok { p with
    commands := p.commands ++ [⟨p.nextTicket, digest, state⟩]
    nextTicket := p.nextTicket + 1 }

/-- The rest of `deliver`. -/
def afterReserve (p : Process) (c : Call) : Except LedgerError Bool → Process
  | .ok true =>
    if p.fifoClosed then p.move c (.done (.error (.lost .queueClosed)))
    else if egressQueueCapacity ≤ p.fifo.length then p.move c (.done (.error (.lost .queueFull)))
    else { p.move c (.done (.ok ())) with fifo := p.fifo ++ [c.offer] }
  | .ok false => p.move c (.done (.error (.skipped .duplicate)))
  | .error _ => { p.move c (.done (.error (.lost .ledgerUnavailable))) with
      status := p.status.setDeliveryHealthy false }

/-- The worker serves the first command of its queue. -/
def serve (p : Process) (command : Command) (rest : List Command) (io : RecordIo) :
    Receiver → Option Process
  | .call c =>
    if c ∈ p.calls ∧ c.command = some command then
      some ({ p with
        worker := (p.worker.serveRecord command.digest command.state io).1
        commands := rest }.move c (.answered (p.worker.serveRecord command.digest command.state io).2))
    else none
  | .egress =>
    if p.egress.command = some command then
      some { p with
        worker := (p.worker.serveRecord command.digest command.state io).1
        commands := rest
        egress := .answered (p.worker.serveRecord command.digest command.state io).2 }
    else none
  | .gone =>
    if (∀ c ∈ p.calls, c.command ≠ some command) ∧ p.egress.command ≠ some command then
      some { p with
        worker := (p.worker.serveRecord command.digest command.state io).1
        commands := rest }
    else none

/-- The egress worker is gone, with its end of the FIFO. -/
def dropEgress (p : Process) : Process := { p with egress := .idle, fifo := [], fifoClosed := true }

/-- The step of a call that is at `pc`. -/
def stepCall (p : Process) (c : Call) (pc : CallPc) (next : Process) : Option Process :=
  if c ∈ p.calls ∧ c.pc = pc then some next else none

def step (k : EgressClassifier) (parse : String → Option BridgeEnvelope) (p : Process) :
    Action → Option Process
  | .setStatus status => some { p with status := status }
  | .deliver event => match offer k parse event with
    | some o => some { p with calls := ⟨o, .classified⟩ ::ₘ p.calls }
    | none => some p
  | .checkReadiness c => p.stepCall c .classified
      (if p.status.accepting && p.status.deliveryHealthy && p.status.isReady then p.move c .admitted
        else p.move c (.done (.error (.lost .unavailable))))
  | .checkHealth c => p.stepCall c .admitted
      (if p.worker.healthy then p.move c .cleared else p.move c (.answered (.error .unavailable)))
  | .send c => p.stepCall c .cleared
      (match p.trySend c.offer.item.digest .reserved with
        | .ok p' => p'.move c (.waiting p.nextTicket)
        | .error e => p.move c (.answered (.error e)))
  | .serve io receiver => match p.commands with
    | [] => none
    | command :: rest => p.serve command rest io receiver
  | .resume c => match c.pc with
    | .answered answer => if c ∈ p.calls then some (p.afterReserve c answer) else none
    | _ => none
  | .abort c => if c ∈ p.calls then some { p with calls := p.calls.erase c } else none
  | .receive => match p.egress, p.fifo with
    | .idle, o :: rest => some { p with egress := .received o, fifo := rest }
    | _, _ => none
  | .publishReturns outcome => match p.egress with
    | .publishing o => match outcome with
      | .ok () => some { p with egress := .flushed o }
      | .error kind => some (if kind.ofPublisher then { p with egress := .idle } else p.dropEgress)
    | _ => none
  | .completeHealth => match p.egress with
    | .flushed o =>
      some { p with egress := if p.worker.healthy then .cleared o else .answered (.error .unavailable) }
    | _ => none
  | .completeSend => match p.egress with
    | .cleared o => match p.trySend o.item.digest .completed with
      | .ok p' => some { p' with egress := .waiting p.nextTicket o }
      | .error e => some { p with egress := .answered (.error e) }
    | _ => none
  | .completeResume => match p.egress with
    | .answered (.ok _) => some { p with egress := .idle }
    | .answered (.error _) => some { p with
        egress := .idle
        status := p.status.setDeliveryHealthy false }
    | _ => none
  | .abortEgress => some p.dropEgress
  | .stopLedger => some { p with
      worker := { p.worker with healthy := false }
      commands := []
      stopped := true }
  | .dropReply c =>
    if p.stopped ∧ c ∈ p.calls ∧ c.command.isSome then some (p.move c (.answered (.error .stopped)))
    else none
  | .dropCompletion =>
    if p.stopped ∧ p.egress.command.isSome then
      some { p with egress := .answered (.error .stopped) }
    else none

end Process

/-! ### The system over all lifetimes -/

/-- The journal's directory between two processes, or the running process. -/
inductive Machine
  | down (dir : LedgerDir)
  | up (process : Process)
deriving DecidableEq

structure System where
  machine : Machine
  published : List Offer
deriving DecidableEq

/-- A crash leaves bytes that start with what is synced. -/
def crashDir (dir : LedgerDir) (bytes : List UInt8) : Option LedgerDir :=
  match dir.active with
  | none => some dir
  | some f =>
    if h : f.synced <+: bytes then some { dir with active := some ⟨bytes, f.synced, h⟩ } else none

inductive Label
  | openJournal (fault : OpenFault)
  | crash (bytes : List UInt8)
  | publish
  | act (action : Action)
deriving DecidableEq

namespace System

/-- The bridge has not run here yet. -/
def start (dir : LedgerDir) : System := ⟨.down dir, []⟩

def step (k : EgressClassifier) (parse : String → Option BridgeEnvelope) (s : System) :
    Label → Option System
  | .openJournal fault => match s.machine with
    | .down dir => match Ledger.openJournal .delivery fault dir with
      | (_, .ok j) => some { s with machine := .up (.start k j) }
      | (dir', .error _) => some { s with machine := .down dir' }
    | .up _ => none
  | .crash bytes => match s.machine with
    | .down dir => (crashDir dir bytes).map fun dir' => { s with machine := .down dir' }
    | .up p => (crashDir p.worker.journal.dir bytes).map fun dir' => { s with machine := .down dir' }
  | .publish => match s.machine with
    | .up p => match p.egress with
      | .received o => some ⟨.up { p with egress := .publishing o }, s.published ++ [o]⟩
      | _ => none
    | .down _ => none
  | .act action => match s.machine with
    | .up p => (p.step k parse action).map fun p' => { s with machine := .up p' }
    | .down _ => none

def dir (s : System) : LedgerDir :=
  match s.machine with
  | .down dir => dir
  | .up p => p.worker.journal.dir

end System

end PeatNode.Egress
