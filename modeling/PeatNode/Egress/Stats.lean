/-
# The egress counters

`EgressStats` of `src/nats_bridge/egress.rs`: one set of counters for the calls of `deliver` and
the egress worker.  `EgressStats.next` is what a step adds, `EgressLog.next` what it did: which
calls returned and with what, which digests were reserved, which of them completed, and how the
others ended.
-/

import PeatNode.Egress.Admitted

namespace PeatNode.Egress

open Bridge Ledger

structure EgressStats where
  malformed : ℕ
  unsupported : ℕ
  unmapped : ℕ
  routeMismatch : ℕ
  returnedLocal : ℕ
  oversizedPayload : ℕ
  duplicate : ℕ
  queueFull : ℕ
  queueClosed : ℕ
  unavailable : ℕ
  publishFailed : ℕ
  maxPayloadExceeded : ℕ
  flushFailed : ℕ
  ledgerUnavailable : ℕ
  eventLagged : ℕ
  reserved : ℕ
  completed : ℕ
  published : ℕ
deriving DecidableEq

namespace EgressStats

/-- `EgressStats::default`. -/
def zero : EgressStats := ⟨0, 0, 0, 0, 0, 0, 0, 0, 0, 0, 0, 0, 0, 0, 0, 0, 0, 0⟩

def recordSkip (s : EgressStats) : EgressSkipKind → EgressStats
  | .malformedEnvelope => { s with malformed := s.malformed + 1 }
  | .unsupportedKind | .unsupportedVersion => { s with unsupported := s.unsupported + 1 }
  | .unmappedCollection => { s with unmapped := s.unmapped + 1 }
  | .routeMismatch => { s with routeMismatch := s.routeMismatch + 1 }
  | .returnedLocal => { s with returnedLocal := s.returnedLocal + 1 }
  | .oversizedPayload => { s with oversizedPayload := s.oversizedPayload + 1 }
  | .duplicate => { s with duplicate := s.duplicate + 1 }

def recordFailure (s : EgressStats) : EgressFailureKind → EgressStats
  | .eventLagged => { s with eventLagged := s.eventLagged + 1 }
  | .queueFull => { s with queueFull := s.queueFull + 1 }
  | .queueClosed => { s with queueClosed := s.queueClosed + 1 }
  | .unavailable => { s with unavailable := s.unavailable + 1 }
  | .publishFailed => { s with publishFailed := s.publishFailed + 1 }
  | .maxPayloadExceeded => { s with maxPayloadExceeded := s.maxPayloadExceeded + 1 }
  | .flushFailed => { s with flushFailed := s.flushFailed + 1 }
  | .ledgerUnavailable => { s with ledgerUnavailable := s.ledgerUnavailable + 1 }

def recordAction (s : EgressStats) : EgressActionKind → EgressStats
  | .skipped kind => s.recordSkip kind
  | .lost kind => s.recordFailure kind
  | .published => { s with published := s.published + 1 }

def recordReserved (s : EgressStats) : EgressStats := { s with reserved := s.reserved + 1 }

/-- The rest of `deliver`. -/
def afterReserve (s : EgressStats) (p : Process) : Except LedgerError Bool → EgressStats
  | .ok true =>
    if p.fifoClosed then s.recordReserved.recordAction (.lost .queueClosed)
    else if egressQueueCapacity ≤ p.fifo.length then s.recordReserved.recordAction (.lost .queueFull)
    else s.recordReserved
  | .ok false => s.recordAction (.skipped .duplicate)
  | .error _ => s.recordAction (.lost .ledgerUnavailable)

/-- What a step of the process `p` counts. -/
def next (k : EgressClassifier) (parse : String → Option BridgeEnvelope) (p : Process)
    (s : EgressStats) : Action → EgressStats
  | .deliver event => match k.classify parse event with
    | .ok _ => s
    | .error kind => s.recordAction (.skipped kind)
  | .checkReadiness _ => if p.admitting then s else s.recordAction (.lost .unavailable)
  | .resume c => match c.pc with
    | .answered answer => s.afterReserve p answer
    | _ => s
  | .publishReturns (.error kind) => if kind.ofPublisher then s.recordFailure kind else s
  | .completeResume => match p.egress with
    | .answered (.ok _) => { s with completed := s.completed + 1, published := s.published + 1 }
    | .answered (.error _) => s.recordFailure .ledgerUnavailable
    | _ => s
  | _ => s

/-- Of `aggregate` in `src/nats_bridge/operations.rs`. -/
def deliveryReservationsUncertain (s : EgressStats) : ℕ := s.reserved - s.completed

end EgressStats

/-- The step takes the egress worker down. -/
def Action.dropsEgress : Action → Bool
  | .abortEgress => true
  | .publishReturns (.error kind) => !kind.ofPublisher
  | _ => false

def Call.result (c : Call) : Option (Except EgressActionKind Unit) :=
  match c.pc with
  | .done result => some result
  | _ => none

def Process.running (p : Process) : Multiset Call := p.calls.filter fun c => c.result = none

/-- What a process has done, apart from its counters. -/
structure EgressLog where
  started : ℕ
  returned : Multiset (Except EgressActionKind Unit)
  abandoned : ℕ
  reserved : Multiset LedgerDigest
  completed : Multiset LedgerDigest
  refused : Multiset LedgerDigest
  failed : Multiset (LedgerDigest × EgressFailureKind)
  dropped : Multiset LedgerDigest
  held : Multiset LedgerDigest
deriving DecidableEq

namespace EgressLog

def empty : EgressLog := ⟨0, 0, 0, 0, 0, 0, 0, 0, 0⟩

/-- What calls return in the step. -/
def returnedBy (p p' : Process) : Multiset (Except EgressActionKind Unit) :=
  (p'.calls - p.calls).filterMap Call.result

/-- What a call returns at once. -/
def skippedBy (k : EgressClassifier) (parse : String → Option BridgeEnvelope)
    (event : BridgeChangeEvent) : Multiset (Except EgressActionKind Unit) :=
  match k.classify parse event with
  | .ok _ => 0
  | .error kind => {.error (.skipped kind)}

def returning (log : EgressLog) (results : Multiset (Except EgressActionKind Unit)) : EgressLog :=
  { log with returned := log.returned + results }

/-- Reserved; the FIFO may refuse it. -/
def reserving (log : EgressLog) (reserved refused : Multiset LedgerDigest) : EgressLog :=
  { log with reserved := log.reserved + reserved, refused := log.refused + refused }

/-- The worker gives up its item. -/
def fail (log : EgressLog) (kind : EgressFailureKind) : EgressLog :=
  { log with failed := log.failed + log.held.map fun d => (d, kind), held := 0 }

def drop (log : EgressLog) (p : Process) : EgressLog :=
  { log with dropped := log.dropped + log.held + digests p.fifo, held := 0 }

/-- What a step from `p` to `p'` adds. -/
def next (k : EgressClassifier) (parse : String → Option BridgeEnvelope) (p p' : Process)
    (log : EgressLog) : Action → EgressLog
  | .deliver event => { log with started := log.started + 1 }.returning (skippedBy k parse event)
  | .abort c => { log with abandoned := log.abandoned + if c.result = none then 1 else 0 }
  | .resume c =>
    (log.reserving c.grant (if p'.fifo = p.fifo then c.grant else 0)).returning (returnedBy p p')
  | .receive => { log with held := digests (p.fifo.take 1) }
  | .publishReturns (.error kind) => if kind.ofPublisher then log.fail kind else log.drop p
  | .completeResume => match p.egress with
    | .answered (.ok _) => { log with completed := log.completed + log.held, held := 0 }
    | .answered (.error _) => log.fail .ledgerUnavailable
    | _ => log
  | .abortEgress => log.drop p
  | _ => log.returning (returnedBy p p')

/-- The counters that the log calls for. -/
def stats (log : EgressLog) : EgressStats where
  malformed := log.returned.count (.error (.skipped .malformedEnvelope))
  unsupported := log.returned.count (.error (.skipped .unsupportedKind)) +
    log.returned.count (.error (.skipped .unsupportedVersion))
  unmapped := log.returned.count (.error (.skipped .unmappedCollection))
  routeMismatch := log.returned.count (.error (.skipped .routeMismatch))
  returnedLocal := log.returned.count (.error (.skipped .returnedLocal))
  oversizedPayload := log.returned.count (.error (.skipped .oversizedPayload))
  duplicate := log.returned.count (.error (.skipped .duplicate))
  queueFull := log.returned.count (.error (.lost .queueFull))
  queueClosed := log.returned.count (.error (.lost .queueClosed))
  unavailable := log.returned.count (.error (.lost .unavailable)) +
    (log.failed.map Prod.snd).count .unavailable
  publishFailed := log.returned.count (.error (.lost .publishFailed)) +
    (log.failed.map Prod.snd).count .publishFailed
  maxPayloadExceeded := log.returned.count (.error (.lost .maxPayloadExceeded)) +
    (log.failed.map Prod.snd).count .maxPayloadExceeded
  flushFailed := log.returned.count (.error (.lost .flushFailed)) +
    (log.failed.map Prod.snd).count .flushFailed
  ledgerUnavailable := log.returned.count (.error (.lost .ledgerUnavailable)) +
    (log.failed.map Prod.snd).count .ledgerUnavailable
  eventLagged := log.returned.count (.error (.lost .eventLagged))
  reserved := log.reserved.card
  completed := log.completed.card
  published := log.completed.card

end EgressLog

structure Books where
  stats : EgressStats
  log : EgressLog
deriving DecidableEq

namespace Books

def empty : Books := ⟨.zero, .empty⟩

/-- A new process has new counters. -/
def next (k : EgressClassifier) (parse : String → Option BridgeEnvelope) (s : System) (l : Label)
    (s' : System) (b : Books) : Books :=
  match l, s.machine, s'.machine with
  | .openJournal _, _, _ => empty
  | .act a, .up p, .up p' => ⟨b.stats.next k parse p a, b.log.next k parse p p' a⟩
  | _, _, _ => b

end Books

end PeatNode.Egress
