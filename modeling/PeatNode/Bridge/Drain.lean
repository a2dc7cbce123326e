/-
# The egress queue during a shutdown

The supervisor drains the queue, but `begin_shutdown` has made the bridge not ready, and the
publisher asks for readiness before every publish and every flush: nothing in the queue reaches
the client (`shutdown_publishes_iff`).  The journal is stopped in the end on every schedule
(`shutdown_ends`).
-/

import PeatNode.Bridge.Shutdown

namespace PeatNode.Bridge

open Egress Ledger Lts

/-- Taken from the queue, not completed. -/
def DrainPc.inHand : DrainPc → Option EgressItem
  | .received item | .published item | .flushed item => some item
  | .idle | .exited => none

namespace Shutdown

/-! ### The queue during a shutdown -/

/-- Admitted and not yet completed. -/
def admitted (egress : DrainPc) (fifo : List EgressItem) : List EgressItem :=
  egress.inHand.toList ++ fifo

/-- What holds from `begin_shutdown` on; `items` are those not published then. -/
structure Sound (items : List EgressItem) (s : Shutdown) : Prop where
  closed : s.status.accepting = false
  handed : s.handed = []
  kept : ∀ item ∈ items, item ∈ s.fifo ∨ s.egress = .received item ∨ item ∈ s.unavailable
  exited : s.egress = .exited → s.fifo = [] ∧ s.sending = false
  waited : s.supervisor.pastEgress = true → s.egress = .exited
  joined : s.handle.pastSupervisor = true → s.supervisor = .returned
  sent : s.handle ≠ .producers → s.sending = false
  stopped : s.ledgerStopped = true ↔ s.handle = .done

variable {items : List EgressItem} {s s' : Shutdown}

theorem sound_begin (status : BridgeStatus) {egress : DrainPc} (hrun : egress ≠ .exited)
    {fifo : List EgressItem} (ledger : Worker)
    (hitems : ∀ item ∈ items, item ∈ fifo ∨ egress = .received item) :
    (begin status egress fifo ledger).Sound items where
  closed := rfl
  handed := rfl
  kept := fun item hitem => (hitems item hitem).imp id .inl
  exited := fun h => absurd h hrun
  waited := nofun
  joined := nofun
  sent := fun h => absurd rfl h
  stopped := ⟨fun h => (by cases h), fun h => by cases h⟩

theorem Sound.stepHandle (h : s.Sound items) (hs : s.stepHandle = some s') : s'.Sound items := by
  -- before its last stage the handle has not stopped the journal
  have hlive : ∀ pc : HandlePc, s.handle ≠ .done → pc ≠ .done →
      (s.ledgerStopped = true ↔ pc = .done) :=
    fun pc hne hpc => iff_of_false (fun hst => hne (h.stopped.1 hst)) hpc
  unfold Shutdown.stepHandle at hs
  split at hs
  · rename_i hpc
    cases hs
    exact ⟨h.closed, h.handed, h.kept, fun he => ⟨(h.exited he).1, rfl⟩, h.waited,
      nofun, fun _ => rfl, hlive _ (by rw [hpc]; simp) (by simp)⟩
  · rename_i hpc
    split_ifs at hs with hret
    cases hs
    exact ⟨h.closed, h.handed, h.kept, h.exited, h.waited, fun _ => hret,
      fun _ => h.sent (by rw [hpc]; simp), hlive _ (by rw [hpc]; simp) (by simp)⟩
  · rename_i hpc
    cases hs
    exact ⟨h.closed, h.handed, h.kept, h.exited, h.waited, fun _ => h.joined (by rw [hpc]; rfl),
      fun _ => h.sent (by rw [hpc]; simp), hlive _ (by rw [hpc]; simp) (by simp)⟩
  · rename_i hpc
    cases hs
    exact ⟨h.closed, h.handed, h.kept, h.exited, h.waited, fun _ => h.joined (by rw [hpc]; rfl),
      fun _ => h.sent (by rw [hpc]; simp), iff_of_true rfl rfl⟩
  · simp at hs

theorem Sound.stepSupervisor (h : s.Sound items) (hs : s.stepSupervisor = some s') :
    s'.Sound items := by
  -- a supervisor that has not returned has not been joined
  have hlive : s.supervisor ≠ .returned → ¬ s.handle.pastSupervisor = true :=
    fun hne hp => hne (h.joined hp)
  unfold Shutdown.stepSupervisor at hs
  split at hs
  · rename_i hpc
    cases hs
    exact ⟨rfl, h.handed, h.kept, h.exited, nofun,
      fun hp => absurd hp (hlive (by rw [hpc]; simp)), h.sent, h.stopped⟩
  · rename_i hpc
    cases hs
    exact ⟨h.closed, h.handed, h.kept, h.exited, nofun,
      fun hp => absurd hp (hlive (by rw [hpc]; simp)), h.sent, h.stopped⟩
  · rename_i hpc
    split_ifs at hs with hex
    cases hs
    exact ⟨h.closed, h.handed, h.kept, h.exited, fun _ => hex,
      fun hp => absurd hp (hlive (by rw [hpc]; simp)), h.sent, h.stopped⟩
  · rename_i hpc
    cases hs
    exact ⟨h.closed, h.handed, h.kept, h.exited, fun _ => h.waited (by rw [hpc]; rfl),
      fun hp => absurd hp (hlive (by rw [hpc]; simp)), h.sent, h.stopped⟩
  · rename_i hpc
    cases hs
    exact ⟨h.closed, h.handed, h.kept, h.exited, fun _ => h.waited (by rw [hpc]; rfl),
      fun _ => rfl, h.sent, h.stopped⟩
  · simp at hs

theorem Sound.worker (h : s.Sound items) (hrun : s.egress ≠ .exited) {status : BridgeStatus}
    {egress : DrainPc} {fifo completed unavailable : List EgressItem} {ledger : Worker}
    (hstatus : status.accepting = false)
    (hkept : ∀ item ∈ items, item ∈ fifo ∨ egress = .received item ∨ item ∈ unavailable)
    (hexited : egress = .exited → fifo = [] ∧ s.sending = false) :
    Sound items { s with
      status := status, egress := egress, fifo := fifo, ledger := ledger,
      completed := completed, unavailable := unavailable } where
  closed := hstatus
  handed := h.handed
  kept := hkept
  exited := hexited
  waited := fun hp => absurd (h.waited hp) hrun
  joined := h.joined
  sent := h.sent
  stopped := h.stopped

theorem Sound.kept_of_not_received (h : s.Sound items) (hpc : ∀ item, s.egress ≠ .received item)
    (egress : DrainPc) :
    ∀ item ∈ items, item ∈ s.fifo ∨ egress = .received item ∨ item ∈ s.unavailable := by
  intro item hitem
  rcases h.kept item hitem with hmem | hrec | hun
  · exact .inl hmem
  · exact absurd hrec (hpc item)
  · exact .inr (.inr hun)

theorem Sound.receive (h : s.Sound items) (hs : s.receive = some s') : s'.Sound items := by
  unfold Shutdown.receive at hs
  split at hs
  · rename_i item rest hpc hfifo
    cases hs
    refine h.worker (by rw [hpc]; simp) h.closed (fun i hi => ?_) nofun
    rcases h.kept i hi with hmem | hrec | hun
    · rw [hfifo] at hmem
      rcases List.mem_cons.1 hmem with rfl | hmem
      · exact .inr (.inl rfl)
      · exact .inl hmem
    · rw [hpc] at hrec
      simp at hrec
    · exact .inr (.inr hun)
  · rename_i hpc hfifo
    split_ifs at hs with hsend
    cases hs
    exact h.worker (by rw [hpc]; simp) h.closed (h.kept_of_not_received (by rw [hpc]; simp) _)
      (fun _ => ⟨hfifo, Bool.eq_false_iff.2 hsend⟩)
  · simp at hs

variable {client : Except EgressFailureKind Unit}

/-- **The publisher refuses every item**: the bridge is not ready any more. -/
theorem Sound.publish (h : s.Sound items) {connected : Bool}
    (hs : s.publish connected client = some s') : s'.Sound items := by
  unfold Shutdown.publish at hs
  split at hs
  · rename_i item hpc
    rw [BridgeStatus.not_isReady_of_not_accepting h.closed] at hs
    cases hs
    refine h.worker (by rw [hpc]; simp) h.closed (fun i hi => ?_) nofun
    rcases h.kept i hi with hmem | hrec | hun
    · exact .inl hmem
    · obtain rfl : item = i := DrainPc.received.inj (hpc.symm.trans hrec)
      exact .inr (.inr List.mem_cons_self)
    · exact .inr (.inr (List.mem_cons_of_mem _ hun))
  · simp at hs

theorem Sound.flush (h : s.Sound items) (hs : s.flush client = some s') : s'.Sound items := by
  unfold Shutdown.flush at hs
  split at hs
  · rename_i item hpc
    cases hs
    rw [BridgeStatus.not_isReady_of_not_accepting h.closed]
    exact h.worker (by rw [hpc]; simp) h.closed (h.kept_of_not_received (by rw [hpc]; simp) _)
      nofun
  · simp at hs

theorem Sound.complete (h : s.Sound items) (hs : s.complete io = some s') : s'.Sound items := by
  unfold Shutdown.complete at hs
  split at hs
  · rename_i item hpc
    have hrun : s.egress ≠ .exited := by rw [hpc]; simp
    have hkept := h.kept_of_not_received (by rw [hpc]; simp) .idle
    split at hs
    all_goals
      cases hs
      exact h.worker hrun h.closed hkept nofun
  · simp at hs

theorem Sound.step (h : s.Sound items) (hs : s.step l = some s') : s'.Sound items := by
  cases l with
  | handle => exact h.stepHandle hs
  | supervisor => exact h.stepSupervisor hs
  | enqueue item =>
    simp only [Shutdown.step] at hs
    split_ifs at hs with hcan
    cases hs
    have hrun : s.egress ≠ .exited := by
      intro he
      rw [(h.exited he).2] at hcan
      exact absurd hcan.1 (by simp)
    refine h.worker hrun h.closed (fun i hi => ?_) (fun he => absurd he hrun)
    exact (h.kept i hi).imp (List.mem_append_left _) id
  | receive => exact h.receive hs
  | publish connected client => exact h.publish hs
  | flush client => exact h.flush hs
  | complete io => exact h.complete hs
  | mutate m =>
    cases hs
    exact ⟨BridgeStatus.accepting_mutate h.closed m, h.handed, h.kept, h.exited, h.waited, h.joined,
      h.sent, h.stopped⟩

/-! ### What becomes of the queue -/

/-- **What is admitted when the shutdown begins is lost.** In every run of the shutdown up to the
stop of the delivery journal, whatever the client answers, all admitted items, of the worker and
the queue, are published and completed exactly if there are none; each not published before is
refused as `Unavailable`. -/
theorem shutdown_publishes_iff {status : BridgeStatus} {egress : DrainPc} {fifo : List EgressItem}
    {ledger : Worker} {labels : List Label} (hrunning : egress ≠ .exited)
    (hrun : Lts.exec Shutdown.step (begin status egress fifo ledger) labels = some s)
    (hstop : s.ledgerStopped = true) :
    ((∀ item ∈ admitted egress fifo, item ∈ s.handed ∧ item ∈ s.completed) ↔
      admitted egress fifo = []) ∧
      ∀ item, item ∈ fifo ∨ egress = .received item → item ∈ s.unavailable := by
  have hsound : ∀ {items : List EgressItem},
      (∀ item ∈ items, item ∈ fifo ∨ egress = .received item) → s.Sound items := fun hitems =>
    exec_preserves (Sound _) (fun _ _ _ h hs => h.step hs)
      (sound_begin status hrunning ledger hitems) hrun
  refine ⟨⟨fun hall => ?_, ?_⟩, fun item hitem => ?_⟩
  · refine List.eq_nil_iff_forall_not_mem.2 fun item hitem => ?_
    have hhanded := (hall item hitem).1
    have hs : s.Sound [] := hsound nofun
    rw [hs.handed] at hhanded
    simp at hhanded
  · intro hnone item hitem
    rw [hnone] at hitem
    simp at hitem
  · have hs : s.Sound [item] := hsound fun i hi => List.mem_singleton.1 hi ▸ hitem
    have hreturned := hs.joined (by rw [hs.stopped.1 hstop]; rfl)
    have hexited := hs.waited (by rw [hreturned]; rfl)
    rcases hs.kept item List.mem_cons_self with hmem | hrec | hun
    · rw [(hs.exited hexited).1] at hmem
      simp at hmem
    · rw [hexited] at hrec
      simp at hrec
    · exact hun

/-- A ready bridge, with this worker and queue. -/
def readyBridge (egress : DrainPc) (fifo : List EgressItem) : Shutdown :=
  begin ((BridgeStatus.new ["vision"]).setConnected).markAllSubscriptionsEstablished egress fifo
    (.spawn (freshJournal .delivery))

/-- With `drain` for the egress worker. -/
def shutdownSteps (drain : List Label) : List Label :=
  [.handle] ++ drain ++ [.receive, .supervisor, .supervisor, .supervisor, .supervisor, .supervisor,
    .handle, .handle, .handle]

def frameItem (key : String) : EgressItem := ⟨documentDigest "frames" key, "vision", "payload", 0⟩

/-- The worker has one item and the queue another. -/
theorem twoItems_shutdown :
    ∃ s ∈ exec step (readyBridge (.received (frameItem "1")) [frameItem "2"])
        (shutdownSteps [.publish true (.ok ()), .receive, .publish true (.ok ())]),
      s.ledgerStopped = true ∧
        ¬ (∀ item ∈ admitted (.received (frameItem "1")) [frameItem "2"],
          item ∈ s.handed ∧ item ∈ s.completed) ∧
        frameItem "1" ∈ s.unavailable ∧ frameItem "2" ∈ s.unavailable := by
  refine exists_mem_and (by decide +kernel) fun s hs hstop => ?_
  obtain ⟨hiff, hlost⟩ := shutdown_publishes_iff (by simp) hs hstop
  exact ⟨fun hall => absurd (hiff.1 hall) (by simp [admitted]), hlost _ (.inr rfl),
    hlost _ (.inl List.mem_cons_self)⟩

/-- An item in the queue is not given to the client, which is connected and takes everything. -/
theorem queuedItem_not_published :
    ∃ s ∈ exec step (readyBridge .idle [frameItem "1"])
        (shutdownSteps [.receive, .publish true (.ok ())]),
      s.ledgerStopped = true ∧ s.handed = [] ∧ s.completed = [] ∧
        s.unavailable = [frameItem "1"] := by
  decide +kernel

/-! ### The shutdown ends -/

/-- A step of a task of the bridge. -/
def Label.own : Label → Bool
  | .enqueue _ | .mutate _ => false
  | .handle | .supervisor | .receive | .publish .. | .flush _ | .complete _ => true

def Label.isEnqueue : Label → Bool
  | .enqueue _ => true
  | _ => false

/-- How far the tasks and the queue are from the end. -/
def remaining (s : Shutdown) : ℕ :=
  (match s.handle with
    | .producers => 4 | .supervisor => 3 | .consumers => 2 | .ledgers => 1 | .done => 0) +
  (match s.supervisor with
    | .selecting => 5 | .stopping => 4 | .egress => 3 | .flushing => 2 | .draining => 1
    | .returned => 0) +
  (match s.egress with
    | .received _ => 4 | .published _ => 3 | .flushed _ => 2 | .idle => 1 | .exited => 0) +
  4 * s.fifo.length

theorem remaining_step (hs : s.step l = some s') :
    s'.remaining + l.own.toNat ≤ s.remaining + 4 * l.isEnqueue.toNat := by
  cases l with
  | enqueue item =>
    simp only [Shutdown.step] at hs
    split_ifs at hs
    cases hs
    simp [remaining, Label.own, Label.isEnqueue]
    omega
  | mutate m =>
    cases hs
    exact Nat.le_refl _
  | handle | supervisor | receive | publish | flush | complete =>
    simp only [Shutdown.step, Shutdown.stepHandle, Shutdown.stepSupervisor, Shutdown.receive,
      Shutdown.publish, Shutdown.flush, Shutdown.complete] at hs
    split at hs <;> grind [remaining, Label.own]

theorem own_add_remaining (hrun : exec Shutdown.step s labels = some s') :
    labels.countP Label.own + s'.remaining ≤ s.remaining + 4 * labels.countP Label.isEnqueue := by
  induction labels generalizing s with
  | nil =>
    cases hrun
    simp
  | cons l labels ih =>
    obtain ⟨t, hl, hrest⟩ := exec_cons_eq_some.1 hrun
    have hhead := remaining_step hl
    have htail := ih hrest
    rw [List.countP_cons, List.countP_cons]
    cases hown : l.own <;> cases hadd : l.isEnqueue <;> simp [hown, hadd] at hhead ⊢ <;> omega

/-- The handle waits for the supervisor, the supervisor for the egress worker, and the worker
for no one. -/
theorem Sound.exists_step (h : s.Sound items) (hlive : s.ledgerStopped = false) :
    ∃ l, l.own = true ∧ (s.step l).isSome := by
  cases hh : s.handle with
  | producers | consumers | ledgers =>
    exact ⟨.handle, rfl, by simp [Shutdown.step, Shutdown.stepHandle, hh]⟩
  | done =>
    simp [h.stopped.2 hh] at hlive
  | supervisor =>
    have hsend := h.sent (by rw [hh]; simp)
    cases hsup : s.supervisor with
    | returned => exact ⟨.handle, rfl, by simp [Shutdown.step, Shutdown.stepHandle, hh, hsup]⟩
    | selecting | stopping | flushing | draining =>
      exact ⟨.supervisor, rfl, by simp [Shutdown.step, Shutdown.stepSupervisor, hsup]⟩
    | egress =>
      cases hpc : s.egress with
      | exited => exact ⟨.supervisor, rfl, by simp [Shutdown.step, Shutdown.stepSupervisor, hsup, hpc]⟩
      | idle =>
        refine ⟨.receive, rfl, ?_⟩
        cases hfifo : s.fifo <;> simp [Shutdown.step, Shutdown.receive, hpc, hfifo, hsend]
      | received item =>
        refine ⟨.publish true (.ok ()), rfl, ?_⟩
        simp only [Shutdown.step, Shutdown.publish, hpc]
        split_ifs <;> rfl
      | published item =>
        exact ⟨.flush (.ok ()), rfl, by simp [Shutdown.step, Shutdown.flush, hpc]⟩
      | flushed item =>
        refine ⟨.complete .clean, rfl, ?_⟩
        simp only [Shutdown.step, Shutdown.complete, hpc]
        split <;> rfl

/-- **The shutdown ends**, whatever the client and the journal answer and in whatever order the
tasks run: each makes a bounded number of steps, and one of them can make a step until the
delivery journal is stopped. -/
theorem shutdown_ends {status : BridgeStatus} {egress : DrainPc} {fifo : List EgressItem}
    {ledger : Worker} {labels : List Label} (hrunning : egress ≠ .exited)
    (hrun : Lts.exec Shutdown.step (begin status egress fifo ledger) labels = some s) :
    labels.countP Label.own ≤ 13 + 4 * (fifo.length + labels.countP Label.isEnqueue) ∧
      (s.ledgerStopped = false → ∃ l, l.own = true ∧ (s.step l).isSome) := by
  have hs : s.Sound fifo := exec_preserves (Sound fifo) (fun _ _ _ h hs => h.step hs)
    (sound_begin status hrunning ledger fun _ => .inl) hrun
  refine ⟨?_, hs.exists_step⟩
  have hown := own_add_remaining hrun
  have hstart : (begin status egress fifo ledger).remaining ≤ 13 + 4 * fifo.length := by
    simp only [remaining, begin]
    split <;> omega
  omega

theorem waitingBridge_ends :
    ∃ s ∈ exec step (readyBridge .idle [frameItem "1"]) [.handle, .supervisor, .receive],
      s.ledgerStopped = false ∧ ∃ l, l.own = true ∧ (s.step l).isSome :=
  exists_mem_and (by decide +kernel) fun _ hs hlive => (shutdown_ends (by simp) hs).2 hlive

end Shutdown
end PeatNode.Bridge
