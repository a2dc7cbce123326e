/-
# Subscription readers

The tasks around the ingress FIFO: the supervisor, which builds and stops generations of
subscriptions, the task of each generation with one `read_subscription` per mapping
(`src/nats_bridge/runtime.rs`), and the processor.

Tasks are kept apart from what the supervisor believes: `live` lists the generation tasks not
dropped, `subscribers` the subscriptions of a generation still being built. When a reader returns,
its task polls no reader any more and sends `GenerationEnded`.
-/

import PeatNode.Bridge.Generations
import PeatNode.Ingress.Processor

namespace PeatNode.Ingress

open Bridge Egress Node

/-- `subscription_capacity` of the client. -/
def subscriptionCapacity : ℕ := 1

/-- A message of the broker, with the values of its origin header. -/
structure Message where
  subject : String
  origins : List String
  payload : List UInt8
deriving DecidableEq

def hasExactOwnOrigin (m : Message) (localNodeId : String) : Bool :=
  match m.origins with
  | [value] => value = localNodeId
  | _ => false

def isPayloadOversized (payloadBytes : ℕ) : Bool := decide (maxIngressPayloadBytes < payloadBytes)

/-- A subscription and the collection of its mapping. -/
structure Subscriber where
  collection : String
  inbox : List Message
deriving DecidableEq

/-- The client hands a message over; a full subscription loses it. -/
def Subscriber.push (s : Subscriber) (m : Message) : Subscriber :=
  if s.inbox.length < subscriptionCapacity then { s with inbox := s.inbox ++ [m] } else s

/-- `read_subscription`, with the item whose `send` is pending. -/
structure Reader where
  subscriber : Subscriber
  held : Option IngressItem
deriving DecidableEq

/-- The raw bodies in its subscription and its `send`. -/
def Reader.bodies (r : Reader) : ℕ := r.subscriber.inbox.length + r.held.toList.length

structure GenerationTask where
  id : ℕ
  readers : List Reader
  ended : Bool
deriving DecidableEq

structure IngressSystem where
  supervisor : ClientSupervisor
  subscribers : List Subscriber
  live : List GenerationTask
  processor : IngressProcessor
  selfSuppressed : ℕ
  oversizedPayloads : ℕ

namespace IngressSystem

def start (mappings : List SubjectMapping) (exclusionHealthy deliveryHealthy reconcile : Bool)
    (store : Store) : IngressSystem where
  supervisor := .start (mappings.map (·.subject)) exclusionHealthy deliveryHealthy true reconcile
  subscribers := []
  live := []
  processor := .start store (mappings.map (·.subject))
  selfSuppressed := 0
  oversizedPayloads := 0

/-- The generation is stopped, its task dropped. -/
def dropGeneration (s : IngressSystem) : List GenerationTask :=
  s.live.filter fun t => some t.id ≠ s.supervisor.generationId

/-- `stop_at` may give up on the task (`joined`). -/
def stepSupervisor (s : IngressSystem) (mappings : List SubjectMapping)
    (l : ClientSupervisor.Label) (joined : Bool) : Option IngressSystem :=
  match s.supervisor.step l with
  | none => none
  | some supervisor =>
    let next := { s with supervisor := supervisor }
    match l with
    | .build true =>
      if s.subscribers.length = mappings.length then
        some { next with
          subscribers := []
          live := s.live ++
            [⟨s.supervisor.nextGenerationId, s.subscribers.map (⟨·, none⟩), false⟩] }
      else none
    | .build false =>
      if s.subscribers.length < mappings.length then some { next with subscribers := [] }
      else none
    | .generationEnds =>
      if s.live.any fun t => some t.id = s.supervisor.generationId ∧ t.ended then
        some { next with live := s.dropGeneration }
      else none
    | .proceed =>
      match s.supervisor.phase with
      | .removing => some { next with live := s.dropGeneration }
      | .stopping => some { next with live := if joined then s.dropGeneration else s.live }
      | .running | .building | .returned => some next
    | _ => some next

/-- `client.subscribe` returns. -/
def stepSubscribe (s : IngressSystem) (mappings : List SubjectMapping) : Option IngressSystem :=
  match s.supervisor.phase, mappings[s.subscribers.length]? with
  | .building, some m => some { s with subscribers := s.subscribers ++ [⟨m.collection, []⟩] }
  | _, _ => none

def setReader (s : IngressSystem) (k i : ℕ) (t : GenerationTask) (r : Reader) : IngressSystem :=
  { s with live := s.live.set k { t with readers := t.readers.set i r } }

def endReader (s : IngressSystem) (k i : ℕ) (t : GenerationTask) : IngressSystem :=
  { s with live := s.live.set k { t with readers := t.readers.eraseIdx i, ended := true } }

/-- A reader takes a message, up to its next await. -/
def readMessage (s : IngressSystem) (localNodeId : String) (k i : ℕ) (t : GenerationTask)
    (r : Reader) (m : Message) (inbox : List Message) : IngressSystem :=
  let taken : Reader := { r with subscriber.inbox := inbox }
  if s.supervisor.status.accepting = false then s.endReader k i t
  else if hasExactOwnOrigin m localNodeId then
    { s.setReader k i t taken with selfSuppressed := s.selfSuppressed + 1 }
  else if isPayloadOversized m.payload.length then
    { s.setReader k i t taken with oversizedPayloads := s.oversizedPayloads + 1 }
  else s.setReader k i t
    { taken with held := some ⟨m.subject, r.subscriber.collection, m.payload⟩ }

def sendItem (s : IngressSystem) (n : DocumentCodec) (localNodeId : String) (k i : ℕ)
    (t : GenerationTask) (r : Reader) (item : IngressItem) : Option IngressSystem :=
  (s.processor.step n localNodeId (.send item)).map fun processor =>
    { s.setReader k i t { r with held := none } with processor := processor }

/-- `next()` gives `None`, or the receiver is gone. -/
def canReturn (s : IngressSystem) (r : Reader) : Bool :=
  match r.held with
  | none => r.subscriber.inbox.isEmpty
  | some _ => s.processor.pc = .stopped

inductive Label
  | supervise (l : ClientSupervisor.Label) (joined : Bool)
  | subscribe
  | arriveNew (i : ℕ) (m : Message)
  | arrive (k i : ℕ) (m : Message)
  | read (k i : ℕ)
  | send (k i : ℕ)
  | readerReturns (k i : ℕ)
  | process (l : IngressProcessor.Label)
  | dropTask (k : ℕ)

/-- A step of reader `i` of task `k`, which polls its readers. -/
def withReader (s : IngressSystem) (k i : ℕ)
    (f : GenerationTask → Reader → Option IngressSystem) : Option IngressSystem :=
  match s.live[k]? with
  | none => none
  | some t =>
    match t.readers[i]? with
    | none => none
    | some r => f t r

def step (n : DocumentCodec) (localNodeId : String) (mappings : List SubjectMapping)
    (s : IngressSystem) : Label → Option IngressSystem
  | .supervise l joined => s.stepSupervisor mappings l joined
  | .subscribe => s.stepSubscribe mappings
  | .arriveNew i m => some { s with subscribers := s.subscribers.modify i (·.push m) }
  | .arrive k i m => s.withReader k i fun t r =>
    some (s.setReader k i t { r with subscriber := r.subscriber.push m })
  | .read k i => s.withReader k i fun t r =>
    match t.ended, r.held, r.subscriber.inbox with
    | false, none, m :: inbox => some (s.readMessage localNodeId k i t r m inbox)
    | _, _, _ => none
  | .send k i => s.withReader k i fun t r =>
    match t.ended, r.held with
    | false, some item => s.sendItem n localNodeId k i t r item
    | _, _ => none
  | .readerReturns k i => s.withReader k i fun t r =>
    if t.ended = false ∧ s.canReturn r then some (s.endReader k i t) else none
  | .process (.send _) => none
  | .process l => (s.processor.step n localNodeId l).map fun processor =>
    { s with processor := processor }
  | .dropTask k =>
    match s.live[k]? with
    | none => none
    | some t =>
      if s.supervisor.phase = .returned ∨ t.readers = [] ∧ t.ended = false then
        some { s with live := s.live.eraseIdx k }
      else none

/-- All raw bodies after dispatch. -/
def bodies (s : IngressSystem) : ℕ :=
  (s.subscribers.map fun sub => sub.inbox.length).sum +
    ((s.live.flatMap fun t => t.readers).map Reader.bodies).sum +
    s.processor.queue.length + s.processor.current.toList.length

end IngressSystem

end PeatNode.Ingress
