/-
# No reconnect is missed

Lifecycle events are coalesced: the supervisor reads the latest snapshot when it comes back to its
`select!`.  It must not miss the last `Connected`: its connection epoch is new, so the supervisor
builds a generation or keeps its own, and starts a barrier with the tags of that moment. `Tracked`
says for every place of the supervisor what is still due.

At the largest epoch a `Connected` does not move the epoch, and the supervisor does nothing
(`saturated_missed`).
-/

import PeatNode.Bridge.Generations

namespace PeatNode.Bridge.ClientSupervisor

/-! ### Attempts since the last event -/

/-- It starts a barrier with a generation. -/
def startsBarrier (s : ClientSupervisor) : Label → Bool
  | .build subscribed =>
    match s.pc with
    | .building delivered =>
      subscribed && barrierAllowedAfterLatestDelivery (delivered.getD s.lifecycle)
    | _ => false
  | .proceed =>
    match s.pc with
    | .connecting delivered =>
      decide (delivered.connectionEpoch ≠ s.handledConnectionEpoch) && s.ingress &&
        s.generation.isSome && barrierAllowedAfterLatestDelivery delivered
    | _ => false
  | _ => false

/-- What was begun since the last event: a build, a barrier, and whether one failed. -/
structure Attempts where
  building : Bool
  barrier : Bool
  failed : Bool
deriving DecidableEq

def Attempts.next (s : ClientSupervisor) (l : Label) (s' : ClientSupervisor) (a : Attempts) :
    Attempts :=
  match l with
  | .record => ⟨false, false, false⟩
  | .build subscribed =>
    { a with
      barrier := a.barrier || s.startsBarrier l
      failed := a.failed || (a.building && !subscribed) }
  | .roundTrip succeeded => { a with failed := a.failed || (a.barrier && !succeeded) }
  | .proceed =>
    { a with
      building := a.building || decide (s'.phase = .building)
      barrier := a.barrier || s.startsBarrier l }
  | _ => a

def attemptsOf (s : ClientSupervisor) (labels : List Label) : Attempts :=
  Lts.history step Attempts.next s ⟨false, false, false⟩ labels

/-- A recorded `Connected` finds room: the connection epoch can grow, and its sequence number
exceeds that of the last invalidation. -/
def Unsaturated (s : ClientSupervisor) (l : Label) : Prop :=
  l = .record → s.delivering = some .connected →
    s.lifecycle.connectionEpoch < u64Max ∧ s.lifecycle.invalidationSequence < u64Max
deriving Decidable

/-! ### What is due -/

/-- Established, or a current barrier is on its way. -/
def Settled (s : ClientSupervisor) (a : Attempts) : Prop :=
  s.status.establishedSubjects = s.status.configuredSubjects ∨
    ∃ id result, s.generationId = some id ∧ result ≠ some false ∧ a.barrier = true ∧
      s.barrier = some
        ⟨⟨s.lifecycle.connectionEpoch, s.lifecycle.invalidationEpoch, id⟩, result⟩

/-- What the last `Connected` has led to so far. -/
def Due (s : ClientSupervisor) (a : Attempts) : Prop :=
  match s.pc with
  | .connecting delivered => delivered.connectionEpoch ≠ s.handledConnectionEpoch
  | .building _ => a.building = true
  | .removing action => ∃ id count, action = .rebuildAll id count
  | .selecting => s.Settled a
  | .committing _ | .stopping | .returned => True

theorem Due.of_settled {s s' : ClientSupervisor} (h : s.Due a) (hpc : s'.pc = s.pc)
    (hhandled : s'.handledConnectionEpoch = s.handledConnectionEpoch)
    (hbuilding : a'.building = a.building) (hsettled : s.Settled a → s'.Settled a') :
    s'.Due a' := by
  unfold Due at h ⊢
  rw [hpc, hhandled, hbuilding]
  cases hplace : s.pc with
  | selecting =>
    rw [hplace] at h
    exact hsettled h
  | _ =>
    rw [hplace] at h
    exact h

/-- The supervisor is on the track of the last event. -/
structure Tracked (s : ClientSupervisor) (a : Attempts) : Prop where
  ingress : s.ingress = true
  handled : s.handledConnectionEpoch ≤ s.lifecycle.connectionEpoch
  sequence : s.lifecycle.invalidationSequence ≤ s.lifecycle.sequence ∧
    s.lifecycle.sequence ≤ u64Max
  inHand : ∀ delivered, s.pc = .connecting delivered ∨ s.pc = .building (some delivered) →
    delivered.connectionEpoch ≤ s.lifecycle.connectionEpoch ∧
      (s.changed = false → delivered = s.lifecycle)
  allowed : s.lifecycle.lastEvent = .connected →
    barrierAllowedAfterLatestDelivery s.lifecycle = true
  linking : s.delivering = some .connected → s.status.connected = true
  linked : s.lifecycle.lastEvent = .connected → s.delivering = none → s.status.connected = true
  unread : s.lifecycle.lastEvent = .connected → s.changed = true →
    s.handledConnectionEpoch < s.lifecycle.connectionEpoch ∧
      ∀ delivered, s.pc = .connecting delivered →
        delivered.connectionEpoch < s.lifecycle.connectionEpoch
  due : s.lifecycle.lastEvent = .connected → s.delivering = none → s.changed = false →
    a.failed = false → s.Due a

theorem tracked_start (subjects : List String) (exclusionHealthy deliveryHealthy reconcile : Bool) :
    Tracked (start subjects exclusionHealthy deliveryHealthy true reconcile) ⟨false, false, false⟩ where
  ingress := rfl
  handled := le_rfl
  sequence := ⟨le_rfl, Nat.zero_le _⟩
  inHand delivered h := by simp [start] at h
  allowed h := by simp [start] at h
  linking h := by simp [start] at h
  linked h := by simp [start] at h
  unread h := by simp [start] at h
  due h := by simp [start] at h

namespace Tracked

variable {s s' : ClientSupervisor} {a : Attempts}

variable {a' : Attempts}

theorem of_eq (h : Tracked s a) (hingress : s'.ingress = s.ingress)
    (hhandled : s'.handledConnectionEpoch = s.handledConnectionEpoch)
    (hlife : s'.lifecycle = s.lifecycle) (hdel : s'.delivering = s.delivering)
    (hchanged : s'.changed = s.changed) (hconn : s'.status.connected = s.status.connected)
    (hpc : s'.pc = s.pc)
    (hdue : s.lifecycle.lastEvent = .connected → s.delivering = none → s.changed = false →
      a'.failed = false → s'.Due a') : Tracked s' a' where
  ingress := hingress.trans h.ingress
  handled := by rw [hhandled, hlife]; exact h.handled
  sequence := by rw [hlife]; exact h.sequence
  inHand := by rw [hpc, hlife, hchanged]; exact h.inHand
  allowed := by rw [hlife]; exact h.allowed
  linking := by rw [hdel, hconn]; exact h.linking
  linked := by rw [hlife, hdel, hconn]; exact h.linked
  unread := by rw [hlife, hchanged, hhandled, hpc]; exact h.unread
  due := by rw [hlife, hdel, hchanged]; exact hdue

theorem deliver (h : Tracked s a) (event : DeliveredLifecycleEvent) :
    Tracked { s with status := event.readiness s.status, delivering := some event } a := by
  refine ⟨h.ingress, h.handled, h.sequence, h.inHand, h.allowed, ?_, fun _ hdel => ?_, h.unread,
    fun _ hdel => ?_⟩
  · intro hdel
    obtain rfl : event = .connected := Option.some.inj hdel
    rfl
  · cases hdel
  · cases hdel

/-- An event that is not `Connected` leaves nothing due. -/
theorem record_other (h : Tracked s a) {lifecycle : LifecycleSnapshot}
    (hepoch : lifecycle.connectionEpoch = s.lifecycle.connectionEpoch)
    (hsequence : lifecycle.invalidationSequence ≤ lifecycle.sequence ∧ lifecycle.sequence ≤ u64Max)
    (hevent : lifecycle.lastEvent ≠ .connected) :
    Tracked { s with lifecycle := lifecycle, delivering := none, changed := true }
      ⟨false, false, false⟩ where
  ingress := h.ingress
  handled := hepoch.symm ▸ h.handled
  sequence := hsequence
  inHand delivered hpc := ⟨hepoch.symm ▸ (h.inHand delivered hpc).1, fun hread => by cases hread⟩
  allowed hlast := absurd hlast hevent
  linking hdel := by cases hdel
  linked hlast := absurd hlast hevent
  unread hlast := absurd hlast hevent
  due hlast := absurd hlast hevent

theorem record (h : Tracked s a) (hok : s.Unsaturated .record) {event : DeliveredLifecycleEvent}
    (hdel : s.delivering = some event) :
    Tracked { s with
      lifecycle := s.lifecycle.delivered event, delivering := none, changed := true }
      ⟨false, false, false⟩ := by
  obtain ⟨hold, hmax⟩ := h.sequence
  have hbound := saturatingSucc_le s.lifecycle.sequence
  have hgrows : s.lifecycle.invalidationSequence ≤ saturatingSucc s.lifecycle.sequence := by
    unfold saturatingSucc
    omega
  cases event with
  | initial => exact h.record_other rfl ⟨hgrows, hbound⟩ (by simp [LifecycleSnapshot.delivered])
  | disconnected =>
    exact h.record_other rfl ⟨le_rfl, hbound⟩ (by simp [LifecycleSnapshot.delivered])
  | error => exact h.record_other rfl ⟨le_rfl, hbound⟩ (by simp [LifecycleSnapshot.delivered])
  | connected =>
    obtain ⟨hepoch, hinvalid⟩ := hok rfl hdel
    have hnew : (s.lifecycle.delivered .connected).connectionEpoch =
        s.lifecycle.connectionEpoch + 1 := by
      simp only [LifecycleSnapshot.delivered, saturatingSucc]
      omega
    have hlater : s.lifecycle.invalidationSequence < saturatingSucc s.lifecycle.sequence := by
      unfold saturatingSucc
      omega
    have hhandled := h.handled
    refine ⟨h.ingress, ?_, ⟨hgrows, hbound⟩, ?_, fun _ => ?_, fun hdel => ?_,
      fun _ _ => h.linking hdel, fun _ _ => ⟨?_, ?_⟩, fun _ _ hread => ?_⟩
    · dsimp only
      omega
    · intro delivered hpc
      have hold := (h.inHand delivered hpc).1
      refine ⟨?_, fun hread => by cases hread⟩
      dsimp only
      omega
    · simpa [barrierAllowedAfterLatestDelivery, LifecycleSnapshot.delivered] using hlater
    · cases hdel
    · dsimp only
      omega
    · intro delivered hpc
      have hold := (h.inHand delivered (.inl hpc)).1
      dsimp only
      omega
    · cases hread

theorem roundTrip (h : Tracked s a) (hbarrier : s.barrier = some ⟨tags, none⟩) (succeeded : Bool) :
    Tracked { s with barrier := some ⟨tags, some succeeded⟩ }
      { a with failed := a.failed || (a.barrier && !succeeded) } := by
  refine h.of_eq rfl rfl rfl rfl rfl rfl rfl fun hlast hdel hread hfailed => ?_
  obtain ⟨hbefore, hsucceeded⟩ : a.failed = false ∧ (a.barrier = true → succeeded = true) := by
    simpa using hfailed
  refine (h.due hlast hdel hread hbefore).of_settled rfl rfl rfl ?_
  rintro (hest | ⟨id, result, hid, -, hfresh, hold⟩)
  · exact .inl hest
  · obtain ⟨rfl, -⟩ := BarrierAttempt.mk.inj (Option.some.inj (hbarrier.symm.trans hold))
    exact .inr ⟨id, some succeeded, hid, by simp [hsucceeded hfresh], hfresh, rfl⟩

theorem generationEnds (h : Tracked s a) {id : ℕ} (hgen : s.generation = some ⟨id, false⟩)
    (signals : List ℕ) :
    Tracked { s with generation := some ⟨id, true⟩, signals := signals } a := by
  refine h.of_eq rfl rfl rfl rfl rfl rfl rfl fun hlast hdel hread hfailed => ?_
  refine (h.due hlast hdel hread hfailed).of_settled rfl rfl rfl ?_
  rintro (hest | ⟨id', result, hid, hrest⟩)
  · exact .inl hest
  · exact .inr ⟨id', result, by simpa [generationId, hgen] using hid, hrest⟩

theorem lifecycleChanged (h : Tracked s a) (hchanged : s.changed = true) (epoch : ℕ)
    (barrier : Option BarrierAttempt) :
    Tracked { s with
      changed := false
      pc := .connecting s.lifecycle
      handledInvalidationEpoch := epoch
      barrier := barrier } a := by
  refine ⟨h.ingress, h.handled, h.sequence, ?_, h.allowed, h.linking, h.linked,
    fun _ hread => ?_, fun hlast _ _ _ => ?_⟩
  · intro delivered hpc
    obtain rfl : s.lifecycle = delivered := by simpa using hpc
    exact ⟨le_rfl, fun _ => rfl⟩
  · cases hread
  · exact (h.unread hlast hchanged).1.ne'

/-- A step that takes the supervisor to a place without a snapshot in hand. -/
theorem move (h : Tracked s a) (hingress : s'.ingress = s.ingress)
    (hlife : s'.lifecycle = s.lifecycle) (hdel : s'.delivering = s.delivering)
    (hchanged : s'.changed = s.changed) (hconn : s'.status.connected = s.status.connected)
    (hplace : ∀ delivered, s'.pc ≠ .connecting delivered ∧ s'.pc ≠ .building (some delivered))
    (hhandled : s'.handledConnectionEpoch ≤ s.lifecycle.connectionEpoch)
    (hunread : s.lifecycle.lastEvent = .connected → s.changed = true →
      s'.handledConnectionEpoch < s.lifecycle.connectionEpoch)
    (hdue : s.lifecycle.lastEvent = .connected → s.delivering = none → s.changed = false →
      a'.failed = false → s'.Due a') : Tracked s' a' where
  ingress := hingress.trans h.ingress
  handled := hlife.symm ▸ hhandled
  sequence := hlife.symm ▸ h.sequence
  inHand delivered hpc := by
    rcases hpc with hpc | hpc
    · exact absurd hpc (hplace delivered).1
    · exact absurd hpc (hplace delivered).2
  allowed := by rw [hlife]; exact h.allowed
  linking := by rw [hdel, hconn]; exact h.linking
  linked := by rw [hlife, hdel, hconn]; exact h.linked
  unread := by
    rw [hlife, hchanged]
    exact fun hlast hread => ⟨hunread hlast hread, fun delivered hpc => absurd hpc (hplace delivered).1⟩
  due := by rw [hlife, hdel, hchanged]; exact hdue

theorem settled_startBarrier (h : Tracked s a) {t : ClientSupervisor}
    (hlife : t.lifecycle = s.lifecycle) (hlast : s.lifecycle.lastEvent = .connected)
    (hgen : t.generationId.isSome) (hfresh : a'.barrier = true) :
    (t.startBarrier s.lifecycle).Due a' := by
  obtain ⟨id, hid⟩ := Option.isSome_iff_exists.1 hgen
  rw [ClientSupervisor.startBarrier, if_pos (h.allowed hlast)]
  refine .inr ⟨id, none, hid, by simp, hfresh, ?_⟩
  simp [hid, hlife]

theorem startBarrier {t : ClientSupervisor} (h : Tracked s a)
    (lifecycle : LifecycleSnapshot) (hingress : t.ingress = s.ingress)
    (hlife : t.lifecycle = s.lifecycle) (hdel : t.delivering = s.delivering)
    (hchanged : t.changed = s.changed) (hstatus : t.status = s.status)
    (hhandled : t.handledConnectionEpoch ≤ s.lifecycle.connectionEpoch)
    (hunread : s.lifecycle.lastEvent = .connected → s.changed = true →
      t.handledConnectionEpoch < s.lifecycle.connectionEpoch)
    (hdue : s.lifecycle.lastEvent = .connected → s.delivering = none → s.changed = false →
      a'.failed = false → lifecycle = s.lifecycle ∧ t.generationId.isSome ∧ a'.barrier = true) :
    Tracked (t.startBarrier lifecycle) a' := by
  have hdue' : s.lifecycle.lastEvent = .connected → s.delivering = none → s.changed = false →
      a'.failed = false → (t.startBarrier lifecycle).Due a' := by
    intro hlast hnone hread hfailed
    obtain ⟨rfl, hgen, hfresh⟩ := hdue hlast hnone hread hfailed
    exact h.settled_startBarrier hlife hlast hgen hfresh
  obtain ⟨barrier, heq⟩ := startBarrier_eq t lifecycle
  rw [heq] at hdue' ⊢
  exact h.move hingress hlife hdel hchanged (by rw [hstatus]) (fun _ => ⟨nofun, nofun⟩) hhandled
    hunread hdue'

/-! ### The supervisor -/

theorem connect (h : Tracked s a) (hpc : s.pc = .connecting delivered) :
    Tracked (s.connect delivered) (Attempts.next s .proceed (s.connect delivered) a) := by
  have hunread : s.lifecycle.lastEvent = .connected → s.changed = true →
      delivered.connectionEpoch < s.lifecycle.connectionEpoch :=
    fun hlast hread => (h.unread hlast hread).2 delivered hpc
  obtain ⟨hle, hcurrent⟩ := h.inHand delivered (.inl hpc)
  by_cases hepoch : delivered.connectionEpoch ≠ s.handledConnectionEpoch
  · cases hgen : s.generation with
    | none =>
      have hconnect : s.connect delivered = { s with
          handledConnectionEpoch := delivered.connectionEpoch
          pc := .building (some delivered) } := by
        simp [ClientSupervisor.connect, hepoch, h.ingress, generationId, hgen,
          connectedGenerationAction]
      rw [hconnect]
      refine ⟨h.ingress, hle, h.sequence, ?_, h.allowed, h.linking, h.linked,
        fun hlast hread => ⟨hunread hlast hread, ?_⟩, fun _ _ _ _ => ?_⟩
      · rintro other (hother | hother)
        · cases hother
        · obtain rfl : delivered = other := by simpa using hother
          exact ⟨hle, hcurrent⟩
      · intro other hother
        cases hother
      · simp [Due, Attempts.next, phase]
    | some generation =>
      have hconnect : s.connect delivered = ClientSupervisor.startBarrier { s with
          handledConnectionEpoch := delivered.connectionEpoch } delivered := by
        simp [ClientSupervisor.connect, hepoch, h.ingress, generationId, hgen,
          connectedGenerationAction]
      rw [hconnect]
      refine h.startBarrier delivered rfl rfl rfl rfl rfl hle hunread fun hlast _ hread _ => ?_
      obtain rfl := hcurrent hread
      refine ⟨rfl, by simp [generationId, hgen], ?_⟩
      simp [Attempts.next, startsBarrier, hpc, hepoch, h.ingress, hgen, h.allowed hlast]
  · have hconnect : s.connect delivered = { s with pc := .selecting } := by
      simp only [ClientSupervisor.connect, if_neg hepoch]
    rw [hconnect]
    refine h.move rfl rfl rfl rfl rfl (fun _ => ⟨by simp, by simp⟩) h.handled
      (fun hlast hread => (h.unread hlast hread).1) fun hlast hdel hread hfailed => ?_
    have hdue := h.due hlast hdel hread hfailed
    rw [Due, hpc] at hdue
    exact absurd hdue hepoch

theorem build (h : Tracked s a) (hpc : s.pc = .building delivered) (s' : ClientSupervisor) :
    Tracked (ClientSupervisor.startBarrier { s with
        generation := if subscribed then some ⟨s.nextGenerationId, false⟩ else none
        nextGenerationId := saturatingSucc s.nextGenerationId } (delivered.getD s.lifecycle))
      (Attempts.next s (.build subscribed) s' a) := by
  refine h.startBarrier _ rfl rfl rfl rfl rfl h.handled
    (fun hlast hread => (h.unread hlast hread).1) fun hlast hdel hread hfailed => ?_
  obtain ⟨hbefore, hbuilt⟩ : a.failed = false ∧ (a.building = true → subscribed = true) := by
    simpa [Attempts.next] using hfailed
  have hdue := h.due hlast hdel hread hbefore
  rw [Due, hpc] at hdue
  obtain rfl := hbuilt hdue
  have hcurrent : delivered.getD s.lifecycle = s.lifecycle := by
    cases delivered with
    | none => rfl
    | some delivered => exact (h.inHand delivered (.inr hpc)).2 hread
  refine ⟨hcurrent, rfl, ?_⟩
  simp [Attempts.next, startsBarrier, hpc, hcurrent, h.allowed hlast]

theorem remove (h : Tracked s a) (hpc : s.pc = .removing action) :
    Tracked (s.remove action) (Attempts.next s .proceed (s.remove action) a) := by
  have hplace : ∀ t : ClientSupervisor, t.pc = .building none ∨ t.pc = .selecting →
      ∀ delivered, t.pc ≠ .connecting delivered ∧ t.pc ≠ .building (some delivered) := by
    rintro t (ht | ht) delivered <;> simp [ht]
  have hunread := fun hlast hread => (h.unread hlast hread).1
  have hdue : s.lifecycle.lastEvent = .connected → s.delivering = none → s.changed = false →
      a.failed = false → ∃ id count, action = .rebuildAll id count := by
    intro hlast hdel hread hfailed
    have hdue := h.due hlast hdel hread hfailed
    rwa [Due, hpc] at hdue
  cases action with
  | rebuildAll id count =>
    have hremove : s.remove (.rebuildAll id count) =
        { s with generation := none, pc := .building none } := by
      simp [ClientSupervisor.remove, h.ingress]
    rw [hremove]
    exact h.move rfl rfl rfl rfl rfl (hplace _ (.inl rfl)) h.handled hunread
      fun _ _ _ _ => by simp [Due, Attempts.next, phase]
  | _ =>
    refine h.move rfl rfl rfl rfl rfl (hplace _ (.inr rfl)) h.handled hunread
      fun hlast hdel hread hfailed => ?_
    obtain ⟨id, count, haction⟩ := hdue hlast hdel hread hfailed
    cases haction

theorem commit (h : Tracked s a) (tags : BarrierTags) :
    Tracked (s.commit tags) (Attempts.next s .proceed (s.commit tags) a) := by
  obtain ⟨triggered, readyGenerations, heq⟩ := commit_eq s tags
  rw [heq]
  exact h.move rfl rfl rfl rfl rfl (fun _ => ⟨nofun, nofun⟩) h.handled
    (fun hlast hread => (h.unread hlast hread).1) fun _ _ _ _ => .inl rfl

theorem signal (h : Tracked s a) {id : ℕ}
    (haction : endedGenerationAction s.generationId id s.status.connected s.mappings = some action)
    (rest : List ℕ) :
    Tracked { s with
      signals := rest
      status := s.status.invalidateSubscriptionGeneration
      barrier := none
      pc := .removing action } a := by
  refine h.move rfl rfl rfl rfl rfl (fun _ => by simp) h.handled
    (fun hlast hread => (h.unread hlast hread).1) fun hlast hdel _ _ => ?_
  rw [h.linked hlast hdel] at haction
  unfold endedGenerationAction at haction
  split at haction
  · cases haction
  · split_ifs at haction with hid hconn
    · exact ⟨_, _, (Option.some.inj haction).symm⟩
    · exact absurd rfl hconn

/-- A barrier that has failed, or whose tags do not match, was not what the last event
was settled with. -/
theorem dropBarrier (h : Tracked s a) (hpc : s.pc = .selecting)
    (hbarrier : s.barrier = some ⟨tags, some ok⟩)
    (hdrop : ok = false ∨ ¬ barrierTagsMatch tags s.lifecycle s.generationId = true) :
    Tracked { s with barrier := none } a := by
  refine h.move rfl rfl rfl rfl rfl (fun _ => by simp [hpc]) h.handled
    (fun hlast hread => (h.unread hlast hread).1) fun hlast hdel hread hfailed => ?_
  have hdue := h.due hlast hdel hread hfailed
  rw [Due, hpc] at hdue ⊢
  rcases hdue with hest | ⟨id, result, hid, hresult, -, hold⟩
  · exact .inl hest
  · cases hbarrier.symm.trans hold
    rcases hdrop with rfl | hmatch
    · exact absurd rfl hresult
    · -- the tags are those of the snapshot, so they match
      have hallowed := h.allowed hlast
      rw [barrierAllowedAfterLatestDelivery, Bool.and_eq_true] at hallowed
      exact absurd (barrierTagsMatch_iff.2 ⟨hallowed.1, rfl, rfl, hid⟩) hmatch

theorem degrade (h : Tracked s a) (cause : Degradation) :
    Tracked { s with status := s.status.degrade cause } a := by
  refine h.of_eq rfl rfl rfl rfl rfl (by cases cause <;> rfl) rfl fun hlast hdel hread hfailed => ?_
  refine (h.due hlast hdel hread hfailed).of_settled rfl rfl rfl fun hsettled => ?_
  cases cause <;> exact hsettled

/-- **Every step keeps to the track of the last event.** -/
theorem step (h : Tracked s a) (hok : s.Unsaturated l) (hs : ClientSupervisor.step s l = some s') :
    Tracked s' (Attempts.next s l s' a) := by
  have hunread := fun hlast hread => (h.unread hlast hread).1
  cases Turn.of_step hs with
  | ignore => exact h
  | deliver => exact h.deliver _
  | record delivering => exact h.record hok delivering
  | degrade cause => exact h.degrade cause
  | roundTrip barrier => exact h.roundTrip barrier _
  | generationEnds generation => exact h.generationEnds generation _
  | invalidated _ changed => exact h.lifecycleChanged changed _ none
  | read _ changed => exact h.lifecycleChanged changed _ s.barrier
  | staleSignal => exact h.of_eq rfl rfl rfl rfl rfl rfl rfl h.due
  | signal _ _ ended => exact h.signal ended _
  | barrierFailed pc barrier => exact h.dropBarrier pc barrier (.inl rfl)
  | staleBarrier pc barrier _ stale => exact h.dropBarrier pc barrier (.inr stale)
  | barrier | shutdown | stop =>
    exact h.move rfl rfl rfl rfl rfl (fun _ => by simp) h.handled hunread fun _ _ _ _ => trivial
  | build pc => exact h.build pc _
  | connect pc => exact h.connect pc
  | remove pc => exact h.remove pc
  | commit => exact h.commit _

end Tracked

/-! ### Runs -/

/-- The supervisor waits in its `select!`, has read the latest snapshot, and has no barrier; no
event is being delivered. -/
structure Waiting (s : ClientSupervisor) : Prop where
  pc : s.pc = .selecting
  read : s.changed = false
  delivered : s.delivering = none
  signals : s.signals = []
  barrier : s.barrier = none

instance (s : ClientSupervisor) : Decidable s.Waiting :=
  decidable_of_iff (s.pc = .selecting ∧ s.changed = false ∧ s.delivering = none ∧ s.signals = [] ∧
    s.barrier = none) ⟨fun ⟨hpc, hread, hdel, hsignals, hbarrier⟩ => ⟨hpc, hread, hdel, hsignals, hbarrier⟩,
      fun h => ⟨h.pc, h.read, h.delivered, h.signals, h.barrier⟩⟩

/-- **No reconnect is missed.** In every run of a bridge with ingress whose counters have room for
every `Connected`: where the supervisor waits with nothing left to do, the last event is
`Connected`, and nothing begun since has failed, all configured subjects are established. -/
theorem reconnect_not_missed (subjects : List String)
    (exclusionHealthy deliveryHealthy reconcile : Bool) (labels : List Label)
    (s : ClientSupervisor)
    (hroom : Lts.Along step Unsaturated
      (start subjects exclusionHealthy deliveryHealthy true reconcile) labels)
    (hrun : Lts.exec step (start subjects exclusionHealthy deliveryHealthy true reconcile) labels =
      some s) (hwaiting : s.Waiting) (hlast : s.lifecycle.lastEvent = .connected)
    (hfailed : (attemptsOf (start subjects exclusionHealthy deliveryHealthy true reconcile)
      labels).failed = false) : s.status.establishedSubjects = s.status.configuredSubjects := by
  have hstep : ∀ s l s' a, Tracked s a → s.Unsaturated l → step s l = some s' →
      Tracked s' (Attempts.next s l s' a) := fun s l s' a h hok hs => h.step hok hs
  have htracked := Lts.exec_history_along Tracked hstep
    (tracked_start subjects exclusionHealthy deliveryHealthy reconcile) hroom hrun
  have hdue := htracked.due hlast hwaiting.delivered hwaiting.read hfailed
  rw [Due, hwaiting.pc] at hdue
  rcases hdue with hest | ⟨id, result, -, -, -, hbarrier⟩
  · exact hest
  · simp [hwaiting.barrier] at hbarrier

/-! ### Samples -/

/-- It reconnects while subscriptions are built. -/
def reconnectWhileBuilding : List Label :=
  [.deliver .connected, .record, .lifecycleChanged, .proceed, .deliver .disconnected, .record,
    .deliver .connected, .record, .build false, .lifecycleChanged, .proceed, .build true,
    .roundTrip true, .barrier, .proceed]

theorem reconnectWhileBuilding_established :
    ∃ s ∈ Lts.exec step (start ["demo.>"] true true true true) reconnectWhileBuilding,
      (s.lifecycle.connectionEpoch = 2 ∧ s.lifecycle.lastEvent = .connected ∧ s.Waiting) ∧
      s.status.establishedSubjects = s.status.configuredSubjects :=
  Lts.exists_mem_and (by decide +kernel) fun s hrun ⟨_, hlast, hwaiting⟩ =>
    reconnect_not_missed ["demo.>"] true true true reconnectWhileBuilding s (by decide +kernel) hrun
      hwaiting hlast (by decide +kernel)

/-- So many `Connected` that nobody has read. -/
def connectedTimes (count : ℕ) : ClientSupervisor :=
  let s := start ["demo.>"] true true true true
  { s with
    status := s.status.setConnected
    lifecycle :=
      { sequence := count
        connectionEpoch := count
        connected := true
        lastEvent := .connected
        connectedSequence := count }
    changed := true }

theorem exec_connectedTimes (hpos : 1 ≤ count) (hcount : count ≤ u64Max) :
    Lts.exec step (start ["demo.>"] true true true true)
        (List.replicate count [.deliver .connected, .record]).flatten =
        some (connectedTimes count) ∧
      attemptsOf (start ["demo.>"] true true true true)
        (List.replicate count [.deliver .connected, .record]).flatten = ⟨false, false, false⟩ := by
  induction count, hpos using Nat.le_induction with
  | base => exact ⟨rfl, rfl⟩
  | succ count hpos ih =>
    obtain ⟨hexec, hattempts⟩ := ih (by omega)
    have hsucc : saturatingSucc count = count + 1 := by
      unfold saturatingSucc
      omega
    have hnext : Lts.exec step (connectedTimes count) [.deliver .connected, .record] =
        some (connectedTimes (count + 1)) := by
      simp [step, stepDeliver, stepRecord, lockFree, isCommitting, connectedTimes, start,
        DeliveredLifecycleEvent.readiness, BridgeStatus.setConnected, LifecycleSnapshot.delivered,
        hsucc]
    rw [List.replicate_succ', List.flatten_append]
    constructor
    · rw [Lts.exec_append, hexec]
      exact hnext
    · rw [attemptsOf, Lts.history_append hexec]
      rfl

/-- A reconnection at the largest epoch. -/
def reconnectSaturated : List Label :=
  [.lifecycleChanged, .proceed, .build true, .roundTrip true, .barrier, .proceed,
    .deliver .disconnected, .record, .lifecycleChanged, .proceed, .deliver .connected, .record,
    .lifecycleChanged, .proceed]

def saturatedRun : List Label :=
  (List.replicate u64Max [.deliver .connected, .record]).flatten ++ reconnectSaturated

/-- **A reconnect is missed once the epoch is saturated**: after `u64::MAX` events
`Connected` the next one does not change the epoch, the supervisor waits with nothing
left to do, nothing has failed, and no subject is established. -/
theorem saturated_missed :
    ∃ s, Lts.exec step (start ["demo.>"] true true true true) saturatedRun = some s ∧ s.Waiting ∧
      s.lifecycle.lastEvent = .connected ∧
      (attemptsOf (start ["demo.>"] true true true true) saturatedRun).failed = false ∧
      s.status.establishedSubjects ≠ s.status.configuredSubjects := by
  obtain ⟨hhead, hforgotten⟩ := exec_connectedTimes (by decide : 1 ≤ u64Max) le_rfl
  rw [attemptsOf] at hforgotten
  have hend : ∃ s ∈ Lts.exec step (connectedTimes u64Max) reconnectSaturated, s.Waiting ∧
      s.lifecycle.lastEvent = .connected ∧
      s.status.establishedSubjects ≠ s.status.configuredSubjects := by
    decide +kernel
  have hattempts : (Lts.history step Attempts.next (connectedTimes u64Max) ⟨false, false, false⟩
      reconnectSaturated).failed = false := by
    decide +kernel
  obtain ⟨s, hrun, hwaiting, hlast, hest⟩ := hend
  refine ⟨s, ?_, hwaiting, hlast, ?_, hest⟩
  · rw [saturatedRun, Lts.exec_append, hhead, Option.bind_some, Option.mem_def.1 hrun]
  · rw [attemptsOf, saturatedRun, Lts.history_append hhead, hforgotten]
    exact hattempts

end PeatNode.Bridge.ClientSupervisor
