/-
# The outage warning

`OutageLogState` of `src/nats_bridge/runtime.rs` keeps the time of the next warning while the
broker is away.  The lifecycle branch of `run_client_supervisor` compares two epochs of the snapshot
it has read: a new invalidation epoch begins an outage and arms the warning, then a new connection
epoch ends it and disarms the warning.

Where a `Connected` and the `Disconnected` after it are recorded before the supervisor reads, the
outage is taken for recovered: no warning is armed (`coalesced_unarmed`).

The supervisor is that of `Supervisor`, with a clock; of a log line only its reason is kept.
-/

import PeatNode.Bridge.Supervisor

namespace PeatNode.Bridge

/-- `OUTAGE_WARNING_INTERVAL`, in seconds. -/
def outageWarningInterval : ℕ := 5 * 60

/-- `OutageLogState`; instants are counted in seconds. -/
structure OutageLogState where
  nextWarning : Option ℕ := none
deriving DecidableEq

namespace OutageLogState

/-- True only for the first failure. -/
def begin (outage : OutageLogState) (now : ℕ) : OutageLogState × Bool :=
  if outage.nextWarning.isSome then (outage, false)
  else (⟨some (now + outageWarningInterval)⟩, true)

def periodicDue (outage : OutageLogState) (now : ℕ) : OutageLogState × Bool :=
  match outage.nextWarning with
  | some deadline =>
    if now ≥ deadline then (⟨some (now + outageWarningInterval)⟩, true) else (outage, false)
  | none => (outage, false)

def deadline (outage : OutageLogState) : Option ℕ := outage.nextWarning

def recovered (_ : OutageLogState) : OutageLogState := ⟨none⟩

def armed (outage : OutageLogState) : Bool := outage.nextWarning.isSome

@[simp] theorem armed_begin (outage : OutageLogState) (now : ℕ) :
    (outage.begin now).1.armed = true := by
  unfold begin
  split_ifs with h
  · exact h
  · rfl

@[simp] theorem armed_periodicDue (outage : OutageLogState) (now : ℕ) :
    (outage.periodicDue now).1.armed = outage.armed := by
  rcases outage with ⟨_ | deadline⟩
  · rfl
  · unfold periodicDue
    dsimp only
    split_ifs <;> rfl

@[simp] theorem armed_recovered (outage : OutageLogState) : outage.recovered.armed = false := rfl

end OutageLogState

inductive LifecycleReason
  | starting
  | brokerUnavailable
  | subscriptionsPending
  | disconnected
  | ready
  | retryScheduled
deriving DecidableEq

def disconnectedReason (lifecycle : LifecycleSnapshot) : LifecycleReason :=
  if lifecycle.connectionEpoch = 0 then .brokerUnavailable else .disconnected

/-! ### What a step does to the snapshot and its handling -/

namespace ClientSupervisor

/-- Its connection epoch is still to be compared. -/
def handling (s : ClientSupervisor) : Option LifecycleSnapshot :=
  match s.pc with
  | .connecting delivered => some delivered
  | _ => none

/-- What a step may do to the snapshot, the invalidation epoch that was handled, and the snapshot
in the supervisor's hands. -/
inductive LifecycleMove (s : ClientSupervisor) (l : Label) (s' : ClientSupervisor) : Prop
  | stay (label : l ≠ .lifecycleChanged) (lifecycle : s'.lifecycle = s.lifecycle)
      (handled : s'.handledInvalidationEpoch = s.handledInvalidationEpoch)
      (handling : s'.handling = none ∨ l ≠ .proceed ∧ s'.handling = s.handling)
  | recorded (event : DeliveredLifecycleEvent) (label : l = .record)
      (delivering : s.delivering = some event)
      (lifecycle : s'.lifecycle = s.lifecycle.delivered event)
      (handled : s'.handledInvalidationEpoch = s.handledInvalidationEpoch)
      (handling : s'.handling = s.handling)
  | read (label : l = .lifecycleChanged) (lifecycle : s'.lifecycle = s.lifecycle)
      (handled : s'.handledInvalidationEpoch = s.lifecycle.invalidationEpoch)
      (handling : s'.handling = some s.lifecycle)

namespace LifecycleMove

variable {s s' : ClientSupervisor} {l : Label}

theorem of_eq (hl : l ≠ .lifecycleChanged) (hproceed : l ≠ .proceed)
    (hlife : s'.lifecycle = s.lifecycle)
    (hhandled : s'.handledInvalidationEpoch = s.handledInvalidationEpoch) (hpc : s'.pc = s.pc) :
    LifecycleMove s l s' :=
  .stay hl hlife hhandled (.inr ⟨hproceed, by rw [handling, handling, hpc]⟩)

theorem of_step (hs : s.step l = some s') : LifecycleMove s l s' := by
  cases Turn.of_step hs with
  | ignore | deliver | degrade | roundTrip | generationEnds | staleSignal | barrierFailed
  | staleBarrier => exact .of_eq nofun nofun rfl rfl rfl
  | record delivering => exact .recorded _ rfl delivering rfl rfl rfl
  | invalidated => exact .read rfl rfl rfl rfl
  | read _ _ epoch => exact .read rfl rfl epoch.symm rfl
  | signal | barrier | shutdown | stop => exact .stay nofun rfl rfl (.inl rfl)
  | build =>
    obtain ⟨barrier, heq⟩ := startBarrier_eq _ _
    rw [heq]
    exact .stay nofun rfl rfl (.inl rfl)
  | @connect delivered =>
    rcases connect_eq s delivered with ⟨epoch, barrier, heq⟩ | ⟨-, heq⟩ <;> rw [heq]
    all_goals exact .stay nofun rfl rfl (.inl rfl)
  | @remove action =>
    obtain ⟨pc, rfl | rfl, heq⟩ := remove_eq s action <;> rw [heq]
    all_goals exact .stay nofun rfl rfl (.inl rfl)
  | @commit tags =>
    obtain ⟨triggered, readyGenerations, heq⟩ := commit_eq s tags
    rw [heq]
    exact .stay nofun rfl rfl (.inl rfl)

end LifecycleMove

end ClientSupervisor

/-! ### The supervisor with its warning -/

/-- The supervisor, its outage log, the snapshot the lifecycle branch read last, and the reasons
logged. -/
structure OutageSupervisor where
  supervisor : ClientSupervisor
  outage : OutageLogState
  delivered : LifecycleSnapshot
  logged : List LifecycleReason
deriving DecidableEq

namespace OutageSupervisor

def start (subjects : List String) (exclusionHealthy deliveryHealthy ingress reconcile : Bool) :
    OutageSupervisor where
  supervisor := .start subjects exclusionHealthy deliveryHealthy ingress reconcile
  outage := {}
  delivered := {}
  logged := []

/-- The lifecycle branch up to the connection epoch. -/
def invalidated (s : OutageSupervisor) (now : ℕ) : OutageSupervisor :=
  let delivered := s.supervisor.lifecycle
  let s := { s with delivered := delivered }
  if delivered.invalidationEpoch ≠ s.supervisor.handledInvalidationEpoch then
    let (outage, first) := s.outage.begin now
    { s with
      outage := outage
      logged := s.logged ++
        if delivered.connected then (if first then [.brokerUnavailable] else [])
        else [disconnectedReason delivered] }
  else s

/-- The lifecycle branch from the connection epoch on. -/
def connected (s : OutageSupervisor) (delivered : LifecycleSnapshot) : OutageSupervisor :=
  if delivered.connectionEpoch ≠ s.supervisor.handledConnectionEpoch then
    { s with outage := s.outage.recovered, logged := s.logged ++ [.subscriptionsPending] }
  else s

/-- The end of the barrier branch. -/
def committed (s : OutageSupervisor) : OutageSupervisor :=
  if (update s.supervisor.status BridgeStatus.markAllSubscriptionsEstablished).becameReady then
    { s with logged := s.logged ++ [.ready] }
  else s

/-- What the supervisor's step logs. -/
def log (s : OutageSupervisor) (now : ℕ) : ClientSupervisor.Label → OutageSupervisor
  | .lifecycleChanged => s.invalidated now
  | .proceed =>
    match s.supervisor.pc with
    | .connecting delivered => s.connected delivered
    | .committing _ => s.committed
    | _ => s
  | _ => s

/-- Without a deadline it waits for ever. -/
def stepWarn (s : OutageSupervisor) (now : ℕ) : Option OutageSupervisor :=
  match s.supervisor.pc, s.outage.deadline with
  | .selecting, some deadline =>
    if now ≥ deadline then
      let (outage, due) := s.outage.periodicDue now
      some { s with
        outage := outage
        logged := s.logged ++ if due then [.brokerUnavailable] else [] }
    else none
  | _, _ => none

/-- A step of the supervisor or the client's callback, or a warning. -/
inductive Label
  | run (l : ClientSupervisor.Label) (now : ℕ)
  | warn (now : ℕ)
deriving DecidableEq

def step (s : OutageSupervisor) : Label → Option OutageSupervisor
  | .run l now => (s.supervisor.step l).map fun supervisor =>
    { s.log now l with supervisor := supervisor }
  | .warn now => s.stepWarn now

/-- Once both epochs of a snapshot that is not connected and follows an invalidation are compared,
the warning is armed. -/
def Warned (s : OutageSupervisor) : Prop :=
  s.supervisor.handling = none → s.delivered.connected = false →
    0 < s.delivered.invalidationEpoch → s.outage.armed = true

/-- A snapshot in hand that is not connected has no new connection epoch: no `Connected` was
coalesced with the `Disconnected` after it. -/
def Uncoalesced (s : OutageSupervisor) : Label → Prop
  | .run .proceed _ => ∀ d ∈ s.supervisor.handling, d.connected = false →
      0 < d.invalidationEpoch → d.connectionEpoch = s.supervisor.handledConnectionEpoch
  | _ => True

instance decidableUncoalesced (s : OutageSupervisor) (l : Label) :
    Decidable (s.Uncoalesced l) := by
  unfold Uncoalesced
  split <;> infer_instance

/-- A recorded `Disconnected` moves the epoch. -/
def Unsaturated (s : OutageSupervisor) : Label → Prop
  | .run .record _ => s.supervisor.delivering = some .disconnected →
      s.supervisor.lifecycle.invalidationEpoch < u64Max
  | _ => True

instance decidableUnsaturated (s : OutageSupervisor) (l : Label) :
    Decidable (s.Unsaturated l) := by
  unfold Unsaturated
  split <;> infer_instance

/-! ### The invariant -/

/-- Without coalesced connects: the invalidations of the last snapshot are handled, a snapshot
without a newer one is not connected only if that one was not, and then the warning is armed. -/
structure Kept (s : OutageSupervisor) : Prop where
  bound : s.supervisor.lifecycle.invalidationEpoch ≤ u64Max
  handled : s.supervisor.handledInvalidationEpoch = s.delivered.invalidationEpoch
  read : s.delivered.invalidationEpoch ≤ s.supervisor.lifecycle.invalidationEpoch
  unread : s.supervisor.lifecycle.connected = false →
    s.supervisor.lifecycle.invalidationEpoch = s.delivered.invalidationEpoch →
    s.delivered.connected = false
  handling : ∀ d ∈ s.supervisor.handling, d = s.delivered
  armed : s.delivered.connected = false → 0 < s.delivered.invalidationEpoch →
    s.outage.armed = true

theorem kept_start (subjects : List String)
    (exclusionHealthy deliveryHealthy ingress reconcile : Bool) :
    Kept (start subjects exclusionHealthy deliveryHealthy ingress reconcile) where
  bound := Nat.zero_le _
  handled := rfl
  read := le_rfl
  unread := fun _ _ => rfl
  handling := nofun
  armed := fun _ h => absurd h (lt_irrefl 0)

namespace Kept

variable {s s' : OutageSupervisor}

theorem warned (h : Kept s) : s.Warned := fun _ => h.armed

/-- A recorded snapshot that is still not connected has lost its connection in an epoch of its
own, or had none. -/
theorem record (h : Kept s)
    (hok : event = .disconnected → s.supervisor.lifecycle.invalidationEpoch < u64Max)
    {supervisor : ClientSupervisor}
    (hlife : supervisor.lifecycle = s.supervisor.lifecycle.delivered event)
    (hhandled : supervisor.handledInvalidationEpoch = s.supervisor.handledInvalidationEpoch)
    (hhandling : supervisor.handling = s.supervisor.handling) :
    Kept { s with supervisor := supervisor } := by
  have hbound := h.bound
  have hread := h.read
  refine ⟨?_, hhandled.trans h.handled, ?_, ?_, fun d hd => h.handling d (hhandling ▸ hd), h.armed⟩
  all_goals simp only [hlife]
  · cases event <;> simp only [LifecycleSnapshot.delivered]
    case disconnected | error => exact saturatingSucc_le _
    all_goals exact hbound
  · cases event <;> simp only [LifecycleSnapshot.delivered]
    case disconnected | error => exact hread.trans (by unfold saturatingSucc; omega)
    all_goals exact hread
  · cases event with
    | connected => simp [LifecycleSnapshot.delivered]
    | initial => exact h.unread
    | disconnected =>
      have hroom := hok rfl
      intro _ heq
      simp only [LifecycleSnapshot.delivered, saturatingSucc] at heq
      omega
    | error =>
      intro hconn heq
      simp only [LifecycleSnapshot.delivered, saturatingSucc] at hconn heq
      exact h.unread hconn (by omega)

/-- A new invalidation epoch begins an outage; without one, the last snapshot was
not connected either. -/
theorem invalidated (h : Kept s) (now : ℕ) {supervisor : ClientSupervisor}
    (hlife : supervisor.lifecycle = s.supervisor.lifecycle)
    (hhandled : supervisor.handledInvalidationEpoch = s.supervisor.lifecycle.invalidationEpoch)
    (hhandling : supervisor.handling = some s.supervisor.lifecycle) :
    Kept { s.invalidated now with supervisor := supervisor } := by
  have hdelivered : (s.invalidated now).delivered = s.supervisor.lifecycle := by
    unfold OutageSupervisor.invalidated
    dsimp only
    split_ifs <;> rfl
  refine ⟨?_, ?_, ?_, ?_, ?_, ?_⟩
  all_goals simp only [hdelivered, hlife]
  · exact h.bound
  · exact hhandled
  · exact le_rfl
  · exact fun hconn _ => hconn
  · intro d hd
    rw [hhandling] at hd
    exact (Option.mem_some.1 hd).symm
  · intro hconn hpos
    unfold OutageSupervisor.invalidated
    by_cases hepoch : s.supervisor.lifecycle.invalidationEpoch =
        s.supervisor.handledInvalidationEpoch
    · have heq := hepoch.trans h.handled
      rw [if_neg (not_not.2 hepoch)]
      exact h.armed (h.unread hconn heq) (heq ▸ hpos)
    · rw [if_pos hepoch]
      exact OutageLogState.armed_begin _ _

theorem of_eq (h : Kept s) (hdelivered : s'.delivered = s.delivered)
    (hlife : s'.supervisor.lifecycle = s.supervisor.lifecycle)
    (hhandled : s'.supervisor.handledInvalidationEpoch = s.supervisor.handledInvalidationEpoch)
    (hhandling : s'.supervisor.handling = none ∨ s'.supervisor.handling = s.supervisor.handling)
    (harmed : s.delivered.connected = false → 0 < s.delivered.invalidationEpoch →
      s.outage.armed = true → s'.outage.armed = true) : Kept s' := by
  refine ⟨hlife ▸ h.bound, ?_, ?_, ?_, ?_, ?_⟩
  all_goals rw [hdelivered]
  · exact hhandled.trans h.handled
  · exact hlife ▸ h.read
  · rw [hlife]
    exact h.unread
  · intro d hd
    rcases hhandling with hnone | hsame
    · simp [hnone] at hd
    · exact h.handling d (hsame ▸ hd)
  · exact fun hconn hpos => harmed hconn hpos (h.armed hconn hpos)

end Kept

/-- A step other than a read keeps the snapshot read last, and only a new connection epoch disarms
the warning. -/
theorem log_cases (s : OutageSupervisor) (now : ℕ) (hl : l ≠ .lifecycleChanged) :
    (s.log now l).delivered = s.delivered ∧
      ((s.log now l).outage = s.outage ∨ l = .proceed ∧ ∃ d ∈ s.supervisor.handling,
        d.connectionEpoch ≠ s.supervisor.handledConnectionEpoch) := by
  cases l with
  | lifecycleChanged => exact absurd rfl hl
  | proceed =>
    unfold log ClientSupervisor.handling
    cases s.supervisor.pc with
    | connecting d =>
      dsimp only [connected]
      split_ifs with hepoch
      · exact ⟨rfl, .inr ⟨rfl, d, rfl, hepoch⟩⟩
      · exact ⟨rfl, .inl rfl⟩
    | committing tags =>
      dsimp only [committed]
      split_ifs <;> exact ⟨rfl, .inl rfl⟩
    | _ => exact ⟨rfl, .inl rfl⟩
  | _ => exact ⟨rfl, .inl rfl⟩

/-- **Every step keeps the invariant**, unless a coalesced connect is handled. -/
theorem Kept.step (h : Kept s) (hroom : s.Unsaturated l) (hok : s.Uncoalesced l)
    (hs : step s l = some s') : Kept s' := by
  cases l with
  | warn now =>
    simp only [OutageSupervisor.step, stepWarn] at hs
    split at hs
    · split_ifs at hs <;> cases hs
      all_goals exact h.of_eq rfl rfl rfl (.inr rfl) fun _ _ harmed =>
        (OutageLogState.armed_periodicDue _ now).trans harmed
    · cases hs
  | run l now =>
    obtain ⟨supervisor, hsup, rfl⟩ := Option.map_eq_some_iff.1 hs
    cases ClientSupervisor.LifecycleMove.of_step hsup with
    | stay label lifecycle handled handling =>
      obtain ⟨hdelivered, houtage⟩ := s.log_cases now label
      refine h.of_eq hdelivered lifecycle handled (handling.imp_right And.right) ?_
      intro hconn hpos harmed
      rcases houtage with hsame | ⟨rfl, d, hd, hepoch⟩
      · exact (congrArg OutageLogState.armed hsame).trans harmed
      · obtain rfl := h.handling d hd
        exact absurd (hok _ hd hconn hpos) hepoch
    | recorded event label delivering lifecycle handled handling =>
      subst label
      exact h.record (fun hevent => hroom (hevent ▸ delivering)) lifecycle handled handling
    | read label lifecycle handled handling =>
      subst label
      exact h.invalidated now lifecycle handled handling

/-- The one place where a run can go wrong. -/
theorem of_not_uncoalesced (h : Kept s) (hno : ¬ s.Uncoalesced l) :
    ∃ now, l = .run .proceed now ∧
      s.supervisor.pc = .connecting s.delivered ∧ s.delivered.connected = false ∧
      0 < s.delivered.invalidationEpoch ∧
      s.delivered.connectionEpoch ≠ s.supervisor.handledConnectionEpoch := by
  cases l with
  | warn now => exact absurd trivial hno
  | run l now =>
    cases l with
    | proceed =>
      simp only [Uncoalesced, not_forall] at hno
      obtain ⟨d, hd, hconn, hpos, hepoch⟩ := hno
      obtain rfl := h.handling d hd
      refine ⟨now, rfl, ?_, hconn, hpos, hepoch⟩
      unfold ClientSupervisor.handling at hd
      split at hd
      · rename_i hpc
        rw [hpc, Option.mem_some.1 hd]
      · cases hd
    | _ => exact absurd trivial hno

/-- A coalesced connect disarms the warning of the outage that has just begun. -/
theorem not_warned_of_coalesced (h : Kept s) (hno : ¬ s.Uncoalesced l) (hs : step s l = some s') :
    ¬ s'.Warned := by
  obtain ⟨now, rfl, hpc, hconn, hpos, hepoch⟩ := of_not_uncoalesced h hno
  obtain ⟨supervisor, hsup, rfl⟩ := Option.map_eq_some_iff.1 hs
  have hlog : s.log now .proceed = s.connected s.delivered := by rw [log, hpc]
  have hnone : supervisor.handling = none := by
    cases ClientSupervisor.LifecycleMove.of_step hsup with
    | stay _ _ _ handling => exact handling.resolve_right fun h => h.1 rfl
    | recorded _ label | read label => cases label
  intro hwarned
  rw [hlog, connected, if_pos hepoch] at hwarned
  exact absurd (hwarned hnone hconn hpos) Bool.false_ne_true

/-- **The warning of an outage.** In every run whose invalidation epoch has room for each
`Disconnected`: the warning is armed after every snapshot handled while not connected and after an
invalidation, exactly when no such snapshot carries a connection epoch not yet handled. -/
theorem warning_kept_iff (subjects : List String)
    (exclusionHealthy deliveryHealthy ingress reconcile : Bool) (labels : List Label)
    (s : OutageSupervisor)
    (hroom : Lts.Along step Unsaturated
      (start subjects exclusionHealthy deliveryHealthy ingress reconcile) labels)
    (hrun : Lts.exec step (start subjects exclusionHealthy deliveryHealthy ingress reconcile)
      labels = some s) :
    Lts.Always step Warned (start subjects exclusionHealthy deliveryHealthy ingress reconcile)
        labels ↔
      Lts.Along step Uncoalesced
        (start subjects exclusionHealthy deliveryHealthy ingress reconcile) labels :=
  Lts.always_iff_along_within Unsaturated Kept Warned
    (fun _ _ _ h hroom hok hs => h.step hroom hok hs)
    (fun _ _ _ h hno hs => not_warned_of_coalesced h hno hs) (fun _ h => h.warned)
    (kept_start subjects exclusionHealthy deliveryHealthy ingress reconcile) hroom hrun

/-- The warning comes five minutes later. -/
def lostConnection : List Label :=
  [.run (.deliver .connected) 0, .run .record 0, .run .lifecycleChanged 0, .run .proceed 0,
    .run (.build true) 0, .run (.deliver .disconnected) 7, .run .record 7,
    .run .lifecycleChanged 7, .run .proceed 7, .warn 307]

theorem lostConnection_warned :
    ∃ s ∈ Lts.exec step (start ["demo.>"] true true true true) lostConnection,
      (s.logged = [.subscriptionsPending, .disconnected, .brokerUnavailable] ∧
        s.outage.deadline = some 607) ∧
      Lts.Always step Warned (start ["demo.>"] true true true true) lostConnection :=
  Lts.exists_mem_and (by decide +kernel) fun s hrun _ =>
    (warning_kept_iff ["demo.>"] true true true true lostConnection s (by decide +kernel) hrun).2
      (by decide +kernel)

/-- Lost before the supervisor reads. -/
def coalescedConnection : List Label :=
  [.run (.deliver .connected) 0, .run .record 0, .run (.deliver .disconnected) 0,
    .run .record 0, .run .lifecycleChanged 0, .run .proceed 0, .run (.build true) 0]

/-- **No warning after a coalesced connect**: the supervisor is back at its `select!`, not
connected, and no warning is armed. -/
theorem coalesced_unarmed :
    ∃ s ∈ Lts.exec step (start ["demo.>"] true true true true) coalescedConnection,
      s.supervisor.pc = .selecting ∧ s.supervisor.changed = false ∧
        s.delivered.connected = false ∧ s.delivered.invalidationEpoch = 1 ∧
        s.outage.deadline = none ∧ ∀ now, s.stepWarn now = none := by
  refine ⟨_, rfl, rfl, rfl, rfl, rfl, rfl, fun _ => rfl⟩

end OutageSupervisor

end PeatNode.Bridge
