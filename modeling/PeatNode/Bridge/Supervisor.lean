/-
# The client supervisor

The loop of `run_client_supervisor` in `src/nats_bridge/runtime.rs`.  The client's callback changes
readiness and then the lifecycle snapshot, both under `transition_lock`.  The supervisor watches the
snapshot, builds a generation of subscriptions, starts a round trip to the broker as a barrier, and
commits the barrier under the same lock if its tags still match.

A step is what runs between two awaits or two changes of shared data.  The outage log is in
`Outage`.
-/

import PeatNode.Bridge.Lifecycle

namespace PeatNode.Bridge

open Reconcile (ReconcileReason)

def supervisorSignalCapacity : ℕ := 64

/-- `SubscriptionGeneration`: its id, and whether its task has sent
`GenerationEnded`. -/
structure SubscriptionGeneration where
  id : ℕ
  signalled : Bool
deriving DecidableEq

/-- `BarrierAttempt`: its tags, and what its task has returned. -/
structure BarrierAttempt where
  tags : BarrierTags
  result : Option Bool
deriving DecidableEq

inductive ClientSupervisorPc
  | selecting
  | connecting (delivered : LifecycleSnapshot)
  | building (delivered : Option LifecycleSnapshot)
  | removing (action : GenerationAction)
  | committing (tags : BarrierTags)
  | stopping
  | returned
deriving DecidableEq

/-- The supervisor, what it shares with the client's callback, and the tags of the last committed
barrier. -/
structure ClientSupervisor where
  status : BridgeStatus
  lifecycle : LifecycleSnapshot
  delivering : Option DeliveredLifecycleEvent
  changed : Bool
  pc : ClientSupervisorPc
  mappings : ℕ
  ingress : Bool
  reconcile : Bool
  generation : Option SubscriptionGeneration
  nextGenerationId : ℕ
  handledConnectionEpoch : ℕ
  handledInvalidationEpoch : ℕ
  readyGenerations : ℕ
  barrier : Option BarrierAttempt
  signals : List ℕ
  triggered : List ReconcileReason
  established : Option BarrierTags
deriving DecidableEq

/-- Readiness lost to other tasks: an unhealthy ledger, or the shutdown. -/
inductive Degradation
  | deliveryUnhealthy
  | exclusionUnhealthy
  | beginShutdown
deriving DecidableEq

def BridgeStatus.degrade (status : BridgeStatus) : Degradation → BridgeStatus
  | .deliveryUnhealthy => status.setDeliveryHealthy false
  | .exclusionUnhealthy => status.setExclusionHealthy false
  | .beginShutdown => status.beginShutdown

namespace ClientSupervisor

/-- The state in which the loop starts. -/
def start (subjects : List String) (exclusionHealthy deliveryHealthy ingress reconcile : Bool) :
    ClientSupervisor where
  status := ((BridgeStatus.new subjects).setExclusionHealthy exclusionHealthy).setDeliveryHealthy
    deliveryHealthy
  lifecycle := {}
  delivering := none
  changed := false
  pc := .selecting
  mappings := subjects.length
  ingress := ingress
  reconcile := reconcile
  generation := none
  nextGenerationId := 1
  handledConnectionEpoch := 0
  handledInvalidationEpoch := 0
  readyGenerations := 0
  barrier := none
  signals := []
  triggered := []
  established := none

def isCommitting (s : ClientSupervisor) : Bool :=
  match s.pc with
  | .committing _ => true
  | _ => false

/-- Nobody holds `transition_lock`. -/
def lockFree (s : ClientSupervisor) : Bool := s.delivering.isNone && !s.isCommitting

def generationId (s : ClientSupervisor) : Option ℕ := s.generation.map SubscriptionGeneration.id

/-- `delivered` takes the lock and changes readiness. -/
def stepDeliver (s : ClientSupervisor) (event : DeliveredLifecycleEvent) :
    Option ClientSupervisor :=
  if s.lockFree = false then none
  else if event = .initial then some s
  else some { s with status := event.readiness s.status, delivering := some event }

/-- `delivered` changes the snapshot and releases the lock. -/
def stepRecord (s : ClientSupervisor) : Option ClientSupervisor :=
  match s.delivering with
  | none => none
  | some event =>
    some { s with lifecycle := s.lifecycle.delivered event, delivering := none, changed := true }

/-- The barrier's task returns; an error counts as `false`. -/
def stepRoundTrip (s : ClientSupervisor) (succeeded : Bool) : Option ClientSupervisor :=
  match s.barrier with
  | some ⟨tags, none⟩ => some { s with barrier := some ⟨tags, some succeeded⟩ }
  | _ => none

/-- A reader has ended, and the task sends the signal. -/
def stepGenerationEnds (s : ClientSupervisor) : Option ClientSupervisor :=
  match s.generation with
  | some ⟨id, false⟩ =>
    if s.signals.length < supervisorSignalCapacity then
      some { s with generation := some ⟨id, true⟩, signals := s.signals ++ [id] }
    else none
  | _ => none

/-- `start_barrier`, if the snapshot allows it. -/
def startBarrier (s : ClientSupervisor) (lifecycle : LifecycleSnapshot) : ClientSupervisor :=
  if barrierAllowedAfterLatestDelivery lifecycle then
    { s with
      pc := .selecting
      barrier := s.generationId.map fun id =>
        ⟨⟨lifecycle.connectionEpoch, lifecycle.invalidationEpoch, id⟩, none⟩ }
  else { s with pc := .selecting }

/-- The lifecycle branch up to the connection epoch. -/
def stepLifecycle (s : ClientSupervisor) : Option ClientSupervisor :=
  if s.pc = .selecting ∧ s.changed = true then
    let delivered := s.lifecycle
    let s := { s with changed := false, pc := .connecting delivered }
    if delivered.invalidationEpoch ≠ s.handledInvalidationEpoch then
      some { s with handledInvalidationEpoch := delivered.invalidationEpoch, barrier := none }
    else some s
  else none

/-- The lifecycle branch from the connection epoch on. -/
def connect (s : ClientSupervisor) (delivered : LifecycleSnapshot) : ClientSupervisor :=
  if delivered.connectionEpoch ≠ s.handledConnectionEpoch then
    let s := { s with handledConnectionEpoch := delivered.connectionEpoch }
    if s.ingress then
      match connectedGenerationAction s.generationId s.mappings with
      | .buildAll _ => { s with pc := .building (some delivered) }
      | _ => s.startBarrier delivered
    else { s with pc := .selecting }
  else { s with pc := .selecting }

/-- `build_subscription_generation` returns. -/
def stepBuild (s : ClientSupervisor) (subscribed : Bool) : Option ClientSupervisor :=
  match s.pc with
  | .building delivered =>
    let s := { s with
      generation := if subscribed then some ⟨s.nextGenerationId, false⟩ else none
      nextGenerationId := saturatingSucc s.nextGenerationId }
    some (s.startBarrier (delivered.getD s.lifecycle))
  | _ => none

/-- The signal branch up to the stop of the barrier. -/
def stepSignal (s : ClientSupervisor) : Option ClientSupervisor :=
  match s.pc, s.signals with
  | .selecting, id :: rest =>
    match endedGenerationAction s.generationId id s.status.connected s.mappings with
    | none => some { s with signals := rest }
    | some action =>
      some { s with
        signals := rest
        status := s.status.invalidateSubscriptionGeneration
        barrier := none
        pc := .removing action }
  | _, _ => none

/-- The signal branch once the generation is stopped. -/
def remove (s : ClientSupervisor) (action : GenerationAction) : ClientSupervisor :=
  let s := { s with generation := none }
  match action with
  | .rebuildAll _ _ => { s with pc := if s.ingress then .building none else .selecting }
  | _ => { s with pc := .selecting }

/-- The barrier branch up to `barrier_tags_match`. -/
def stepBarrier (s : ClientSupervisor) : Option ClientSupervisor :=
  match s.pc, s.barrier with
  | .selecting, some ⟨_, some false⟩ => some { s with barrier := none }
  | .selecting, some ⟨tags, some true⟩ =>
    if s.lockFree = false then none
    else if barrierTagsMatch tags s.lifecycle s.generationId then
      some { s with barrier := none, pc := .committing tags }
    else some { s with barrier := none }
  | _, _ => none

/-- The rest of `commit_barrier`, and what follows it. -/
def commit (s : ClientSupervisor) (tags : BarrierTags) : ClientSupervisor :=
  let transition := update s.status BridgeStatus.markAllSubscriptionsEstablished
  let s := { s with status := transition.status, established := some tags, pc := .selecting }
  if transition.becameReady then
    { s with
      triggered := if s.reconcile then
          s.triggered ++ [reconcileReasonForReadyGeneration s.readyGenerations]
        else s.triggered
      readyGenerations := saturatingSucc s.readyGenerations }
  else s

/-- The shutdown branch up to the stop of the barrier. -/
def stepShutdown (s : ClientSupervisor) : Option ClientSupervisor :=
  if s.pc = .selecting then
    some { s with status := s.status.beginShutdown, barrier := none, pc := .stopping }
  else none

def stepProceed (s : ClientSupervisor) : Option ClientSupervisor :=
  match s.pc with
  | .connecting delivered => some (s.connect delivered)
  | .removing action => some (s.remove action)
  | .committing tags => some (s.commit tags)
  | .stopping => some { s with generation := none, pc := .returned }
  | _ => none

inductive Label
  | deliver (event : DeliveredLifecycleEvent)
  | record
  | degrade (cause : Degradation)
  | roundTrip (succeeded : Bool)
  | generationEnds
  | lifecycleChanged
  | signal
  | barrier
  | shutdown
  | build (subscribed : Bool)
  | proceed
deriving DecidableEq

def step (s : ClientSupervisor) : Label → Option ClientSupervisor
  | .deliver event => s.stepDeliver event
  | .record => s.stepRecord
  | .degrade cause => some { s with status := s.status.degrade cause }
  | .roundTrip succeeded => s.stepRoundTrip succeeded
  | .generationEnds => s.stepGenerationEnds
  | .lifecycleChanged => s.stepLifecycle
  | .signal => s.stepSignal
  | .barrier => s.stepBarrier
  | .shutdown => s.stepShutdown
  | .build subscribed => s.stepBuild subscribed
  | .proceed => s.stepProceed

/-! ### What a step can do -/

theorem startBarrier_eq (s : ClientSupervisor) (lifecycle : LifecycleSnapshot) :
    ∃ barrier, s.startBarrier lifecycle = { s with pc := .selecting, barrier := barrier } := by
  unfold startBarrier
  split_ifs
  · exact ⟨_, rfl⟩
  · exact ⟨s.barrier, rfl⟩

/-- The lifecycle branch ends at the `select!`, or waits for a generation where there
is none. -/
theorem connect_eq (s : ClientSupervisor) (delivered : LifecycleSnapshot) :
    (∃ epoch barrier, s.connect delivered =
      { s with handledConnectionEpoch := epoch, pc := .selecting, barrier := barrier }) ∨
    s.generationId = none ∧ s.connect delivered =
      { s with
        handledConnectionEpoch := delivered.connectionEpoch
        pc := .building (some delivered) } := by
  unfold connect
  by_cases hepoch : delivered.connectionEpoch ≠ s.handledConnectionEpoch
  · rw [if_pos hepoch]
    dsimp only
    split_ifs
    · have hsame : generationId { s with handledConnectionEpoch := delivered.connectionEpoch } =
          s.generationId := rfl
      rw [hsame]
      cases hgen : s.generationId with
      | none => exact .inr ⟨rfl, rfl⟩
      | some id =>
        obtain ⟨barrier, heq⟩ := startBarrier_eq
          { s with handledConnectionEpoch := delivered.connectionEpoch } delivered
        exact .inl ⟨delivered.connectionEpoch, barrier, heq⟩
    · exact .inl ⟨delivered.connectionEpoch, s.barrier, rfl⟩
  · rw [if_neg hepoch]
    exact .inl ⟨s.handledConnectionEpoch, s.barrier, rfl⟩

theorem remove_eq (s : ClientSupervisor) (action : GenerationAction) :
    ∃ pc, (pc = .selecting ∨ pc = .building none) ∧
      s.remove action = { s with generation := none, pc := pc } := by
  unfold remove
  cases action with
  | rebuildAll id subjectCount =>
    dsimp only
    split_ifs
    · exact ⟨_, .inr rfl, rfl⟩
    · exact ⟨_, .inl rfl, rfl⟩
  | _ => exact ⟨_, .inl rfl, rfl⟩

theorem commit_eq (s : ClientSupervisor) (tags : BarrierTags) :
    ∃ triggered readyGenerations, s.commit tags = { s with
        status := s.status.markAllSubscriptionsEstablished
        established := some tags
        pc := .selecting
        triggered := triggered
        readyGenerations := readyGenerations } := by
  unfold commit
  dsimp only
  split_ifs
  all_goals exact ⟨_, _, rfl⟩

/-- A step, with what it needs and all it does. -/
inductive Turn (s : ClientSupervisor) : Label → ClientSupervisor → Prop
  | ignore (free : s.lockFree = true) : Turn s (.deliver .initial) s
  | deliver {event : DeliveredLifecycleEvent} (free : s.lockFree = true) (real : event ≠ .initial) :
      Turn s (.deliver event)
        { s with status := event.readiness s.status, delivering := some event }
  | record {event : DeliveredLifecycleEvent} (delivering : s.delivering = some event) :
      Turn s .record
        { s with lifecycle := s.lifecycle.delivered event, delivering := none, changed := true }
  | degrade (cause : Degradation) :
      Turn s (.degrade cause) { s with status := s.status.degrade cause }
  | roundTrip {tags : BarrierTags} {succeeded : Bool} (barrier : s.barrier = some ⟨tags, none⟩) :
      Turn s (.roundTrip succeeded) { s with barrier := some ⟨tags, some succeeded⟩ }
  | generationEnds {id : ℕ} (generation : s.generation = some ⟨id, false⟩)
      (room : s.signals.length < supervisorSignalCapacity) :
      Turn s .generationEnds
        { s with generation := some ⟨id, true⟩, signals := s.signals ++ [id] }
  | invalidated (pc : s.pc = .selecting) (changed : s.changed = true)
      (epoch : s.lifecycle.invalidationEpoch ≠ s.handledInvalidationEpoch) :
      Turn s .lifecycleChanged
        { s with
          changed := false
          pc := .connecting s.lifecycle
          handledInvalidationEpoch := s.lifecycle.invalidationEpoch
          barrier := none }
  | read (pc : s.pc = .selecting) (changed : s.changed = true)
      (epoch : s.lifecycle.invalidationEpoch = s.handledInvalidationEpoch) :
      Turn s .lifecycleChanged { s with changed := false, pc := .connecting s.lifecycle }
  | staleSignal {id : ℕ} {rest : List ℕ} (pc : s.pc = .selecting)
      (signals : s.signals = id :: rest)
      (stale : endedGenerationAction s.generationId id s.status.connected s.mappings = none) :
      Turn s .signal { s with signals := rest }
  | signal {id : ℕ} {rest : List ℕ} {action : GenerationAction} (pc : s.pc = .selecting)
      (signals : s.signals = id :: rest)
      (ended : endedGenerationAction s.generationId id s.status.connected s.mappings =
        some action) :
      Turn s .signal
        { s with
          signals := rest
          status := s.status.invalidateSubscriptionGeneration
          barrier := none
          pc := .removing action }
  | barrierFailed {tags : BarrierTags} (pc : s.pc = .selecting)
      (barrier : s.barrier = some ⟨tags, some false⟩) :
      Turn s .barrier { s with barrier := none }
  | staleBarrier {tags : BarrierTags} (pc : s.pc = .selecting)
      (barrier : s.barrier = some ⟨tags, some true⟩) (free : s.lockFree = true)
      (stale : ¬ barrierTagsMatch tags s.lifecycle s.generationId = true) :
      Turn s .barrier { s with barrier := none }
  | barrier {tags : BarrierTags} (pc : s.pc = .selecting)
      (barrier : s.barrier = some ⟨tags, some true⟩) (free : s.lockFree = true)
      (current : barrierTagsMatch tags s.lifecycle s.generationId = true) :
      Turn s .barrier { s with barrier := none, pc := .committing tags }
  | shutdown (pc : s.pc = .selecting) :
      Turn s .shutdown { s with status := s.status.beginShutdown, barrier := none, pc := .stopping }
  | build {delivered : Option LifecycleSnapshot} {subscribed : Bool}
      (pc : s.pc = .building delivered) :
      Turn s (.build subscribed)
        (startBarrier
          { s with
            generation := if subscribed then some ⟨s.nextGenerationId, false⟩ else none
            nextGenerationId := saturatingSucc s.nextGenerationId }
          (delivered.getD s.lifecycle))
  | connect {delivered : LifecycleSnapshot} (pc : s.pc = .connecting delivered) :
      Turn s .proceed (s.connect delivered)
  | remove {action : GenerationAction} (pc : s.pc = .removing action) :
      Turn s .proceed (s.remove action)
  | commit {tags : BarrierTags} (pc : s.pc = .committing tags) : Turn s .proceed (s.commit tags)
  | stop (pc : s.pc = .stopping) : Turn s .proceed { s with generation := none, pc := .returned }

theorem Turn.of_step (hs : s.step l = some s') : Turn s l s' := by
  cases l with
  | deliver event => grind [Turn, step, stepDeliver]
  | record => grind [Turn, step, stepRecord]
  | degrade cause => grind [Turn, step]
  | roundTrip succeeded => grind [Turn, step, stepRoundTrip]
  | generationEnds => grind [Turn, step, stepGenerationEnds]
  | lifecycleChanged => grind [Turn, step, stepLifecycle]
  | signal => grind [Turn, step, stepSignal]
  | barrier => grind [Turn, step, stepBarrier]
  | shutdown => grind [Turn, step, stepShutdown]
  | build subscribed => grind [Turn, step, stepBuild]
  | proceed => grind [Turn, step, stepProceed]

end ClientSupervisor

end PeatNode.Bridge
