/-
# Readiness and the connection it belongs to

When is the bridge ready only on subscriptions of its current connection?  A barrier is committed
under the lock, and `Disconnected` and `Error` empty the established subjects before the snapshot
moves on.  `Connected` does not: a client that loses the `Disconnected` between two connections
leaves the bridge ready on the barrier of the earlier one.

`Sound` holds in every reachable state as long as that does not happen (`Undisturbed`).
-/

import PeatNode.Bridge.Grounded

namespace PeatNode.Bridge.ClientSupervisor

/-- The last commit has the current epochs and id. -/
def Current (s : ClientSupervisor) : Prop :=
  ∃ tags ∈ s.established, tags.connectionEpoch = s.lifecycle.connectionEpoch ∧
    tags.invalidationEpoch = s.lifecycle.invalidationEpoch ∧
    s.generationId = some tags.generationId
deriving Decidable

/-- Ready only on current subscriptions, unless locked. -/
def Fresh (s : ClientSupervisor) : Prop :=
  s.lockFree = true → s.status.isReady = true → s.Current

/-- The invariant: subscriptions that could make the bridge ready are current. -/
structure Sound (s : ClientSupervisor) : Prop extends Grounded s where
  current : s.status.able = true → s.status.establishedSubjects ≠ ∅ → s.Current

theorem sound_start (hne : subjects ≠ [])
    (exclusionHealthy deliveryHealthy ingress reconcile : Bool) :
    Sound (start subjects exclusionHealthy deliveryHealthy ingress reconcile) :=
  ⟨grounded_start hne exclusionHealthy deliveryHealthy ingress reconcile, fun _ h => absurd rfl h⟩

/-- Not a `Connected` recorded while the bridge is ready, except at the largest epoch, which does
not move. -/
def Undisturbed (s : ClientSupervisor) : Label → Prop
  | .record => s.delivering = some .connected → s.status.isReady = true →
      s.lifecycle.connectionEpoch = u64Max
  | _ => True

instance decidableUndisturbed (s : ClientSupervisor) (l : Label) :
    Decidable (s.Undisturbed l) := by
  unfold Undisturbed
  split <;> infer_instance

namespace Sound

variable {s s' : ClientSupervisor}

theorem fresh (h : Sound s) : s.Fresh := by
  intro _ hready
  obtain ⟨hable, -, hsub⟩ := BridgeStatus.isReady_iff_able.1 hready
  exact h.current hable (hsub ▸ h.configured)

/-- A recorded event leaves subscriptions that can make the bridge ready on the epoch they were
established in. -/
theorem current_record (h : Sound s) (hok : s.Undisturbed .record)
    (hdel : s.delivering = some event) (hable : s.status.able = true)
    (hne : s.status.establishedSubjects ≠ ∅) :
    Current { s with
      lifecycle := s.lifecycle.delivered event, delivering := none, changed := true } := by
  have hlock := h.lock
  rw [hdel] at hlock
  cases event with
  | initial => exact hlock.elim
  | connected =>
    -- the bridge is ready, so the epoch must be the largest and stays
    have hmax := hok hdel (h.ready hable hne)
    obtain ⟨tags, hmem, hconn, hinv, hid⟩ := h.current hable hne
    refine ⟨tags, hmem, ?_, hinv, hid⟩
    exact hconn.trans ((saturatingSucc_eq_self_iff h.epoch).2 hmax).symm
  | disconnected | error => exact absurd hlock.2 hne

theorem current_commit (h : Sound s) (hat : s.pc = .committing tags) : Current (s.commit tags) := by
  obtain ⟨-, hmatch⟩ : s.delivering = none ∧
      barrierTagsMatch tags s.lifecycle s.generationId = true := by
    simpa [PcAgrees, hat] using h.pc
  obtain ⟨-, hepoch, hinv, hgen⟩ := barrierTagsMatch_iff.1 hmatch
  simp only [commit]
  split_ifs
  all_goals exact ⟨tags, rfl, hepoch.symm, hinv.symm, hgen⟩

/-- **Every step but a disturbing one keeps the invariant.** -/
theorem step (h : Sound s) (hok : s.Undisturbed l) (hs : step s l = some s') : Sound s' := by
  refine ⟨h.toGrounded.step hs, fun hable hne => ?_⟩
  cases Effect.of_step h.toGrounded hs with
  | quiet able _ subjects established lifecycle generation _ =>
    rw [subjects] at hne
    obtain ⟨tags, hmem, hconn, hinv, hid⟩ := h.current (able hable) hne
    rcases generation with hgen | hnone
    · exact ⟨tags, established ▸ hmem, lifecycle ▸ hconn, lifecycle ▸ hinv, hgen ▸ hid⟩
    · exact absurd (hnone.symm.trans hid) (by simp)
  | clear subjects _ => exact absurd subjects hne
  | ended able _ =>
    rw [able] at hable
    simp at hable
  | recorded event label delivering eq =>
    subst label eq
    exact h.current_record hok delivering hable hne
  | committed tags _ pc eq =>
    subst eq
    exact h.current_commit pc

/-- A disturbing step leaves a ready bridge on the tags of an earlier epoch. -/
theorem not_fresh_of_disturbed (h : Sound s) (hno : ¬ s.Undisturbed l)
    (hs : ClientSupervisor.step s l = some s') : ¬ s'.Fresh := by
  cases l with
  | record =>
    simp only [Undisturbed, not_forall] at hno
    obtain ⟨hdel, hready, hepoch⟩ := hno
    simp only [ClientSupervisor.step, stepRecord, hdel, Option.some.injEq] at hs
    subst hs
    intro hfresh
    have hfree : lockFree { s with
        lifecycle := s.lifecycle.delivered .connected, delivering := none, changed := true } =
          true :=
      lockFree_iff.2 ⟨rfl, h.not_committing hdel⟩
    obtain ⟨hable, -, hsub⟩ := BridgeStatus.isReady_iff_able.1 hready
    obtain ⟨tags, hmem, hconn, -⟩ := h.current hable (hsub ▸ h.configured)
    obtain ⟨tags', hmem', hconn', -⟩ := hfresh hfree hready
    cases hmem.symm.trans hmem'
    exact hepoch ((saturatingSucc_eq_self_iff h.epoch).1 (hconn'.symm.trans hconn))
  | _ => exact absurd trivial hno

end Sound

/-- **Readiness and the connection.**  A run keeps every ready state on the
subscriptions of its current connection and generation exactly when it never
records a `Connected` in a ready state below the largest epoch. -/
theorem always_fresh_iff {subjects : List String} (hne : subjects ≠ [])
    (exclusionHealthy deliveryHealthy ingress reconcile : Bool) {labels : List Label}
    {s' : ClientSupervisor}
    (hrun : Lts.exec step (start subjects exclusionHealthy deliveryHealthy ingress reconcile)
      labels = some s') :
    Lts.Always step Fresh (start subjects exclusionHealthy deliveryHealthy ingress reconcile)
        labels ↔
      Lts.Along step Undisturbed
        (start subjects exclusionHealthy deliveryHealthy ingress reconcile) labels :=
  Lts.always_iff_along Sound Fresh (fun _ _ _ h hok hs => h.step hok hs)
    (fun _ _ _ h hno hs => h.not_fresh_of_disturbed hno hs) (fun _ h => h.fresh)
    (sound_start hne exclusionHealthy deliveryHealthy ingress reconcile) hrun

/-- The client connects, the barrier is committed. -/
def connectSteps : List Label :=
  [.deliver .connected, .record, .lifecycleChanged, .proceed, .build true, .roundTrip true,
    .barrier, .proceed]

/-- The client reconnects, the barrier is committed. -/
def reconnectSteps : List Label :=
  [.deliver .connected, .record, .lifecycleChanged, .proceed, .roundTrip true, .barrier, .proceed]

/-- A disconnect that is delivered keeps readiness fresh over a reconnect. -/
theorem reconnect_always_fresh : ∃ s ∈ Lts.exec step (start ["demo.>"] true true true true)
      (connectSteps ++ [.deliver .disconnected, .record] ++ reconnectSteps),
      (s.status.isReady = true ∧ s.lifecycle.connectionEpoch = 2) ∧
    Lts.Always step Fresh (start ["demo.>"] true true true true)
      (connectSteps ++ [.deliver .disconnected, .record] ++ reconnectSteps) :=
  Lts.exists_mem_and (by decide +kernel) fun _ hrun _ =>
    (always_fresh_iff (by decide) true true true true hrun).2 (by decide +kernel)

/-- A reconnect whose disconnect was lost: the bridge is ready in the second epoch on the barrier
of the first. -/
theorem lostDisconnect_not_fresh : ∃ s ∈ Lts.exec step (start ["demo.>"] true true true true)
      (connectSteps ++ [.deliver .connected, .record]),
      s.lockFree = true ∧ s.status.isReady = true ∧ s.lifecycle.connectionEpoch = 2 ∧
        s.established = some ⟨1, 0, 1⟩ ∧ ¬ s.Current := by
  decide +kernel

end PeatNode.Bridge.ClientSupervisor
