/-
# What every reachable state of the supervisor satisfies

`Grounded` relates readiness to what the holder of the lock has already changed and to where the
supervisor stands: nothing is established while the client is not connected, a commit only happens
on tags that match, and a new generation is only built where there is none.

`Effect` says once what one step can do to readiness and to the tags behind it.
-/

import PeatNode.Bridge.Supervisor

namespace PeatNode.Bridge

open BridgeStatus

/-- A degradation keeps the subscriptions and makes nothing able. -/
theorem BridgeStatus.able_of_degrade {s : BridgeStatus} (h : (s.degrade cause).able = true) :
    s.able = true := by
  cases cause <;> simp_all [degrade, able, setDeliveryHealthy, setExclusionHealthy, beginShutdown]

namespace ClientSupervisor

/-- What the lock's holder has changed. -/
def LockAgrees (delivering : Option DeliveredLifecycleEvent) (status : BridgeStatus)
    (lifecycle : LifecycleSnapshot) : Prop :=
  match delivering with
  | none => status.connected = lifecycle.connected
  | some .connected => status.connected = true
  | some .disconnected => status.connected = false ∧ status.establishedSubjects = ∅
  | some .error => status.connected = lifecycle.connected ∧ status.establishedSubjects = ∅
  | some .initial => False

theorem LockAgrees.invalidate {delivering : Option DeliveredLifecycleEvent}
    {status : BridgeStatus} {lifecycle : LifecycleSnapshot}
    (h : LockAgrees delivering status lifecycle) :
    LockAgrees delivering status.invalidateSubscriptionGeneration lifecycle := by
  rcases delivering with _ | _ | _ | _ | _
  · exact h
  · exact h
  · exact h
  · exact ⟨h.1, rfl⟩
  · exact ⟨h.1, rfl⟩

/-- What the supervisor relies on. -/
def PcAgrees (s : ClientSupervisor) : Prop :=
  match s.pc with
  | .building _ => s.generationId = none
  | .removing _ => s.status.establishedSubjects = ∅
  | .committing tags =>
    s.delivering = none ∧ barrierTagsMatch tags s.lifecycle s.generationId = true
  | .stopping | .returned => s.status.accepting = false
  | .selecting | .connecting _ => True

structure Grounded (s : ClientSupervisor) : Prop where
  configured : s.status.configuredSubjects ≠ ∅
  subjects : s.status.establishedSubjects = ∅ ∨
    s.status.establishedSubjects = s.status.configuredSubjects
  epoch : s.lifecycle.connectionEpoch ≤ u64Max
  connected : s.status.establishedSubjects ≠ ∅ → s.status.connected = true
  lock : LockAgrees s.delivering s.status s.lifecycle
  pc : s.PcAgrees

theorem grounded_start (hne : subjects ≠ [])
    (exclusionHealthy deliveryHealthy ingress reconcile : Bool) :
    Grounded (start subjects exclusionHealthy deliveryHealthy ingress reconcile) where
  configured := by simpa [start, new, setDeliveryHealthy,
    setExclusionHealthy] using hne
  subjects := .inl rfl
  epoch := Nat.zero_le _
  connected h := absurd rfl h
  lock := rfl
  pc := trivial

theorem lockFree_iff {s : ClientSupervisor} :
    s.lockFree = true ↔ s.delivering = none ∧ s.isCommitting = false := by
  simp [lockFree]

namespace Grounded

variable {s s' : ClientSupervisor}

/-- Established subscriptions of an able bridge are ready. -/
theorem ready (h : Grounded s) (hable : s.status.able = true)
    (hne : s.status.establishedSubjects ≠ ∅) : s.status.isReady = true :=
  isReady_iff_able.2 ⟨hable, h.connected hne, h.subjects.resolve_left hne⟩

variable {event : DeliveredLifecycleEvent}

/-- While an event is delivered, the supervisor is not inside `commit_barrier`. -/
theorem not_committing (h : Grounded s)
    (hdel : s.delivering = some event) : s.isCommitting = false := by
  have hpc := h.pc
  unfold PcAgrees at hpc
  unfold isCommitting
  split
  · next tags hcommit =>
    rw [hcommit] at hpc
    exact absurd (hpc.1.symm.trans hdel) (Option.some_ne_none event).symm
  · rfl

theorem of_eq (h : Grounded s) (hstatus : s'.status = s.status)
    (hlife : s'.lifecycle = s.lifecycle) (hdel : s'.delivering = s.delivering)
    (hpc : s'.PcAgrees) : Grounded s' where
  configured := hstatus ▸ h.configured
  subjects := hstatus ▸ h.subjects
  epoch := hlife ▸ h.epoch
  connected := hstatus ▸ h.connected
  lock := by
    rw [hstatus, hlife, hdel]
    exact h.lock
  pc := hpc

/-! ## The callback -/

theorem deliver (h : Grounded s) (hfree : s.lockFree = true) (hreal : event ≠ .initial) :
    Grounded { s with status := event.readiness s.status, delivering := some event } := by
  obtain ⟨hdel, hcommit⟩ := lockFree_iff.1 hfree
  have hagree : s.status.connected = s.lifecycle.connected := by
    have hold := h.lock
    rwa [hdel] at hold
  -- the lock is free, so the supervisor relies on nothing that the event changes
  have hpc : ∀ status, (s.status.establishedSubjects = ∅ → status.establishedSubjects = ∅) →
      (s.status.accepting = false → status.accepting = false) →
      PcAgrees { s with status := status, delivering := some event } := by
    intro status hsub hacc
    have hold := h.pc
    unfold PcAgrees at hold ⊢
    unfold isCommitting at hcommit
    cases hat : s.pc with
    | committing tags => simp [hat] at hcommit
    | removing action => simpa [hat] using hsub (by simpa [hat] using hold)
    | stopping | returned => simpa [hat] using hacc (by simpa [hat] using hold)
    | selecting | connecting delivered => trivial
    | building delivered => simpa [hat, generationId] using hold
  cases event with
  | initial => exact absurd rfl hreal
  | connected => exact ⟨h.configured, h.subjects, h.epoch, fun _ => rfl, rfl, hpc _ id id⟩
  | disconnected =>
    exact ⟨h.configured, .inl rfl, h.epoch, fun hne => absurd rfl hne, ⟨rfl, rfl⟩,
      hpc _ (fun _ => rfl) id⟩
  | error =>
    exact ⟨h.configured, .inl rfl, h.epoch, fun hne => absurd rfl hne, ⟨hagree, rfl⟩,
      hpc _ (fun _ => rfl) id⟩

/-- What an event has yet to record leaves the supervisor's place valid. -/
theorem pcAgrees_record (h : Grounded s)
    (hdel : s.delivering = some event) (lifecycle : LifecycleSnapshot) :
    PcAgrees { s with lifecycle := lifecycle, delivering := none, changed := true } := by
  have hold := h.pc
  have hcommit := h.not_committing hdel
  unfold PcAgrees at hold ⊢
  unfold isCommitting at hcommit
  cases hat : s.pc with
  | committing tags => simp [hat] at hcommit
  | selecting | connecting delivered => trivial
  | _ => simpa [hat, generationId] using hold

theorem record (h : Grounded s) (hdel : s.delivering = some event) : Grounded { s with
      lifecycle := s.lifecycle.delivered event, delivering := none, changed := true } := by
  have hlock := h.lock
  rw [hdel] at hlock
  have hpc := h.pcAgrees_record hdel (s.lifecycle.delivered event)
  cases event with
  | initial => exact hlock.elim
  | connected => exact ⟨h.configured, h.subjects, saturatingSucc_le _, h.connected, hlock, hpc⟩
  | disconnected | error => exact ⟨h.configured, h.subjects, h.epoch, h.connected, hlock.1, hpc⟩

theorem degrade (h : Grounded s) (cause : Degradation) :
    Grounded { s with status := s.status.degrade cause } where
  configured := by cases cause <;> exact h.configured
  subjects := by cases cause <;> exact h.subjects
  epoch := h.epoch
  connected := by cases cause <;> exact h.connected
  lock := by
    have hold := h.lock
    unfold LockAgrees at hold ⊢
    cases cause <;> exact hold
  pc := by
    have hold := h.pc
    unfold PcAgrees at hold ⊢
    cases hat : s.pc <;> rw [hat] at hold <;> cases cause <;> first | exact hold | rfl

/-! ## The supervisor -/

theorem startBarrier (h : Grounded s) (lifecycle : LifecycleSnapshot) :
    Grounded (s.startBarrier lifecycle) := by
  obtain ⟨barrier, heq⟩ := startBarrier_eq s lifecycle
  rw [heq]
  exact h.of_eq rfl rfl rfl trivial

theorem connect (h : Grounded s) (delivered : LifecycleSnapshot) :
    Grounded (s.connect delivered) := by
  rcases connect_eq s delivered with ⟨epoch, barrier, heq⟩ | ⟨hnone, heq⟩ <;> rw [heq]
  · exact h.of_eq rfl rfl rfl trivial
  · exact h.of_eq rfl rfl rfl hnone

theorem build (h : Grounded s) (generation : Option SubscriptionGeneration)
    (nextGenerationId : ℕ) (lifecycle : LifecycleSnapshot) :
    Grounded (ClientSupervisor.startBarrier
      { s with generation := generation, nextGenerationId := nextGenerationId } lifecycle) := by
  have hbuilt : Grounded { s with
      generation := generation, nextGenerationId := nextGenerationId, pc := .selecting } :=
    h.of_eq rfl rfl rfl trivial
  exact hbuilt.startBarrier lifecycle

theorem remove (h : Grounded s) (action : GenerationAction) : Grounded (s.remove action) := by
  obtain ⟨pc, hpc, heq⟩ := remove_eq s action
  rw [heq]
  rcases hpc with rfl | rfl
  · exact h.of_eq rfl rfl rfl trivial
  · exact h.of_eq rfl rfl rfl rfl

/-- A commit establishes the subscriptions under tags that match at that moment. -/
theorem commit (h : Grounded s) (hat : s.pc = .committing tags) : Grounded (s.commit tags) := by
  obtain ⟨hdel, hmatch⟩ : s.delivering = none ∧
      barrierTagsMatch tags s.lifecycle s.generationId = true := by
    simpa [PcAgrees, hat] using h.pc
  obtain ⟨hconn, -⟩ := barrierTagsMatch_iff.1 hmatch
  have hagree : s.status.connected = s.lifecycle.connected := by
    have hold := h.lock
    rwa [hdel] at hold
  have hlock : LockAgrees s.delivering s.status.markAllSubscriptionsEstablished s.lifecycle := by
    rw [hdel]
    exact hagree
  obtain ⟨triggered, readyGenerations, heq⟩ := commit_eq s tags
  rw [heq]
  exact ⟨h.configured, .inr rfl, h.epoch, fun _ => hagree.trans hconn, hlock, trivial⟩

/-- **Every step keeps the invariant.** -/
theorem step (h : Grounded s) {l : Label} (hs : step s l = some s') :
    Grounded s' := by
  cases Turn.of_step hs with
  | ignore => exact h
  | deliver free real => exact h.deliver free real
  | record delivering => exact h.record delivering
  | degrade cause => exact h.degrade cause
  | roundTrip | staleSignal | barrierFailed | staleBarrier => exact h.of_eq rfl rfl rfl h.pc
  | @generationEnds id generation =>
    have hid : s.generationId = some id := by simp [generationId, generation]
    refine h.of_eq rfl rfl rfl ?_
    have hold := h.pc
    unfold PcAgrees at hold ⊢
    rw [hid] at hold
    exact hold
  | invalidated | read => exact h.of_eq rfl rfl rfl trivial
  | signal =>
    exact ⟨h.configured, .inl rfl, h.epoch, fun hne => absurd rfl hne, h.lock.invalidate, rfl⟩
  | barrier _ _ free current => exact h.of_eq rfl rfl rfl ⟨(lockFree_iff.1 free).1, current⟩
  | shutdown => exact (h.degrade .beginShutdown).of_eq rfl rfl rfl rfl
  | build => exact h.build _ _ _
  | connect => exact h.connect _
  | remove => exact h.remove _
  | commit pc => exact h.commit pc
  | stop pc =>
    have hacc : s.status.accepting = false := by simpa [PcAgrees, pc] using h.pc
    exact h.of_eq rfl rfl rfl hacc

end Grounded

/-! ## What a step does to readiness -/

/-- What a step may do to readiness and its grounds. -/
inductive Effect (s : ClientSupervisor) (l : Label) (s' : ClientSupervisor) : Prop
  | quiet (able : s'.status.able = true → s.status.able = true)
      (configured : s'.status.configuredSubjects = s.status.configuredSubjects)
      (subjects : s'.status.establishedSubjects = s.status.establishedSubjects)
      (established : s'.established = s.established) (lifecycle : s'.lifecycle = s.lifecycle)
      (generation : s'.generationId = s.generationId ∨ s.generationId = none)
      (triggered : s'.triggered = s.triggered)
  | clear (subjects : s'.status.establishedSubjects = ∅) (triggered : s'.triggered = s.triggered)
  | ended (able : s'.status.able = false) (triggered : s'.triggered = s.triggered)
  | recorded (event : DeliveredLifecycleEvent) (label : l = .record)
      (delivering : s.delivering = some event)
      (eq : s' = { s with
        lifecycle := s.lifecycle.delivered event, delivering := none, changed := true })
  | committed (tags : BarrierTags) (label : l = .proceed) (pc : s.pc = .committing tags)
      (eq : s' = s.commit tags)

namespace Effect

variable {s s' : ClientSupervisor} {l : Label}

theorem of_eq (hstatus : s'.status = s.status) (hlife : s'.lifecycle = s.lifecycle)
    (hest : s'.established = s.established)
    (hgen : s'.generationId = s.generationId ∨ s.generationId = none)
    (htrig : s'.triggered = s.triggered) : Effect s l s' :=
  .quiet (fun h => hstatus ▸ h) (by rw [hstatus]) (by rw [hstatus]) hest hlife hgen htrig

theorem deliver :
    Effect s l { s with status := event.readiness s.status, delivering := some event } := by
  cases event with
  | initial => exact .of_eq rfl rfl rfl (.inl rfl) rfl
  | connected => exact .quiet id rfl rfl rfl rfl (.inl rfl) rfl
  | disconnected | error => exact .clear rfl rfl

theorem degrade (cause : Degradation) : Effect s l { s with status := s.status.degrade cause } :=
  .quiet able_of_degrade (by cases cause <;> rfl) (by cases cause <;> rfl) rfl rfl
    (.inl rfl) rfl

theorem connect (delivered : LifecycleSnapshot) : Effect s l (s.connect delivered) := by
  rcases connect_eq s delivered with ⟨epoch, barrier, heq⟩ | ⟨-, heq⟩ <;> rw [heq]
  all_goals exact .of_eq rfl rfl rfl (.inl rfl) rfl

theorem build (hnone : s.generationId = none) (generation : Option SubscriptionGeneration)
    (nextGenerationId : ℕ) (lifecycle : LifecycleSnapshot) :
    Effect s l (startBarrier
      { s with generation := generation, nextGenerationId := nextGenerationId } lifecycle) := by
  obtain ⟨barrier, heq⟩ := startBarrier_eq
    { s with generation := generation, nextGenerationId := nextGenerationId } lifecycle
  rw [heq]
  exact .of_eq rfl rfl rfl (.inr hnone) rfl

/-- **What one step does to readiness.** -/
theorem of_step (h : Grounded s) (hs : step s l = some s') : Effect s l s' := by
  have hpc := h.pc
  unfold PcAgrees at hpc
  cases Turn.of_step hs with
  | deliver => exact .deliver
  | record delivering => exact .recorded _ rfl delivering rfl
  | degrade cause => exact .degrade cause
  | generationEnds generation =>
    exact .of_eq rfl rfl rfl (.inl (by simp [generationId, generation])) rfl
  | ignore | roundTrip | invalidated | read | staleSignal | barrierFailed | staleBarrier | barrier =>
    exact .of_eq rfl rfl rfl (.inl rfl) rfl
  | signal => exact .clear rfl rfl
  | shutdown => exact .ended (by simp [able, beginShutdown]) rfl
  | build pc =>
    rw [pc] at hpc
    exact .build hpc _ _ _
  | connect => exact .connect _
  | @remove action pc =>
    rw [pc] at hpc
    obtain ⟨_, -, heq⟩ := remove_eq s action
    rw [heq]
    exact .clear hpc rfl
  | commit pc => exact .committed _ rfl pc rfl
  | stop pc =>
    have hacc : s.status.accepting = false := by simpa [pc] using hpc
    exact .ended (by simp [able, hacc]) rfl

end Effect

end ClientSupervisor

end PeatNode.Bridge
