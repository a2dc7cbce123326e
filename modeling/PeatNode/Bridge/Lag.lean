/-
# Lag on the way to the router

A lag that the router reports is followed by a `trigger` call before it receives again; a lag that
the forwarder reports is followed by nothing.  So dropped changes are recovered by a scan unless
the forwarder dropped them (`lag_recovered`), and over a store channel of any capacity there is a
run in which they are not (`storeLag_not_recovered`).
-/

import PeatNode.Bridge.ChangePath

namespace PeatNode.Bridge.ChangePath

open Broadcast List Nat Channel Lts Option

variable {s s' : ChangePath}

/-- A ready bridge's forwarder reports no lag. -/
def NoStoreLag (s : ChangePath) : Label → Prop
  | .forwarder _ =>
    s.forwarder = .recv → s.status.isReady = true → s.store.oldest ≤ s.forwarderNext
  | _ => True

instance (s : ChangePath) (l : Label) : Decidable (s.NoStoreLag l) := by
  cases l <;> unfold NoStoreLag <;> infer_instance

/-- Answers wait for the router's next step. -/
def Answering (s : ChangePath) : Prop := s.Settled → s.Recovered

theorem stepForwarder_answering (h : s.Answering) (hok : s.NoStoreLag (.forwarder json))
    (hs : s.stepForwarder json = some s') : s'.Answering := by
  unfold stepForwarder at hs
  split at hs
  · rename_i hpc
    split at hs
    · simp at hs
    · cases hs
      exact h
    · cases hs
      exact h
    · rename_i missed next hrecv
      cases hs
      -- a bridge that is not ready reports nothing
      have hidle : ¬ s.status.isReady = true := by
        intro hready
        exact not_lt.2 (hok hpc hready) (lt_oldest_of_lagged hrecv)
      rw [report, if_neg hidle]
      exact h
    · cases hs
      exact h
  · split at hs <;> cases hs <;> exact h
  · simp at hs

theorem stepRouter_answering (h : s.Answering) (hs : s.stepRouter = some s') : s'.Answering := by
  unfold stepRouter at hs
  split at hs
  · rename_i hpc
    have hrec : s.Recovered := h fun missed hm => by rw [hpc] at hm; cases hm
    split at hs
    · simp at hs
    · cases hs
      exact fun _ => hrec
    · rename_i missed next hrecv
      cases hs
      exact fun hsettled => absurd rfl (hsettled missed)
    · cases hs
      exact fun _ => hrec
  · rename_i event hpc
    cases hs
    exact fun _ => h fun missed hm => by rw [hpc] at hm; cases hm
  · cases hs
    exact fun _ => ⟨rfl, rfl⟩
  · simp at hs

theorem step_answering (h : s.Answering) (hok : s.NoStoreLag l) (hs : s.step l = some s') :
    s'.Answering := by
  cases l with
  | setStatus status | notify change =>
    cases hs
    exact h
  | forwarder json => exact stepForwarder_answering h hok hs
  | router => exact stepRouter_answering h hs
  | trigger reason =>
    cases hs
    exact fun _ => ⟨rfl, rfl⟩

/-- **A detected loss is recovered by a scan** in every run in which the forwarder of a ready
bridge reports no lag: unless the router is just about to call `trigger`, every lag report has
been followed by a `trigger` call, and no dropped change is left without one. -/
theorem lag_recovered {status : BridgeStatus} {capacity : ℕ} {labels : List Label}
    (hok : Lts.Along ChangePath.step NoStoreLag (start status capacity) labels)
    (hrun : Lts.exec ChangePath.step (start status capacity) labels = some s)
    (hsettled : s.Settled) : s.Recovered :=
  exec_invariant Answering (fun _ _ _ h hok hs => step_answering h hok hs)
    (fun _ => ⟨rfl, rfl⟩) hok hrun hsettled

def readyStatus : BridgeStatus :=
  ((BridgeStatus.new ["vision"]).setConnected).markAllSubscriptionsEstablished

theorem isReady_readyStatus : readyStatus.isReady = true := by decide

/-- The router's channel has lost an event. -/
def routerLag : List Label :=
  (List.replicate (bridgeChangeCapacity + 1) [.notify ⟨"frames:1", .remote "peer"⟩, .forwarder none,
    .forwarder (some "null")]).flatten ++ [.router, .router]

theorem routerLag_recovered :
    ∃ s ∈ Lts.exec ChangePath.step (start readyStatus 16) routerLag,
      (s.triggers = [.eventLagged] ∧ s.router = .recv) ∧ s.Recovered :=
  exists_mem_and (by decide +kernel) fun _ hs ⟨_, hrouter⟩ =>
    lag_recovered (by decide +kernel) hs fun missed hm => by simp [hrouter] at hm

/-! ### A lag of the forwarder -/

theorem exec_notify (s : ChangePath) (change : DocChange) (n : ℕ) :
    exec step s (replicate n (.notify change)) =
      some { s with store.sent := s.store.sent ++ replicate n change } := by
  induction n generalizing s with
  | zero => simp
  | succ n ih =>
    rw [replicate_succ, exec_cons]
    simp only [step, bind_some, ih, send, append_assoc, singleton_append,
      ← replicate_succ]

/-- The forwarder passes over local changes. -/
theorem exec_forwarder_local (key : String) (hpc : s.forwarder = .recv) (k : ℕ)
    (hold : s.store.oldest ≤ s.forwarderNext)
    (hlocal : ∀ i, i < k → s.store.sent[s.forwarderNext + i]? = some ⟨key, .local⟩) :
    exec step s (replicate k (.forwarder none)) =
      some { s with forwarderNext := s.forwarderNext + k } := by
  induction k generalizing s with
  | zero => rfl
  | succ k ih =>
    have hfirst := hlocal 0 (succ_pos k)
    rw [add_zero] at hfirst
    have hstep : s.step (.forwarder none) = some { s with forwarderNext := s.forwarderNext + 1 } := by
      simp only [step, stepForwarder, hpc, recv_of_some hold hfirst]
    have hrest := ih (s := { s with forwarderNext := s.forwarderNext + 1 }) hpc
      (hold.trans (le_succ _)) fun i hi => by
        have hnext := hlocal (i + 1) (by omega)
        rwa [add_comm i 1, ← add_assoc] at hnext
    rw [replicate_succ, exec_cons, hstep, bind_some, hrest]
    simp only [add_assoc, add_comm 1 k]

/-- A ready path that has lost a change. -/
def flooded (capacity : ℕ) : ChangePath :=
  { start readyStatus capacity with
    store := ⟨capacity, ⟨"frames:1", .remote "peer"⟩ :: List.replicate capacity ⟨"frames:2", .local⟩,
      false⟩ }

/-- The forwarder has reported and read on. -/
def warned (capacity next : ℕ) : ChangePath :=
  { flooded capacity with forwarderNext := next, unanswered := 1, owed := ["frames:1"] }

theorem oldest_flooded (capacity : ℕ) : (flooded capacity).store.oldest = 1 := by
  simp only [oldest, flooded, length_cons, length_replicate]
  omega

theorem step_flooded (capacity : ℕ) :
    (flooded capacity).step (.forwarder none) = some (warned capacity 1) := by
  have hold := oldest_flooded capacity
  have hrecv : (flooded capacity).store.recv (flooded capacity).forwarderNext = (.lagged 1, 1) := by
    rw [recv_of_lt_oldest (by rw [hold]; exact one_pos), hold]
    rfl
  have hmissed : (flooded capacity).store.missed (flooded capacity).forwarderNext =
      [⟨"frames:1", .remote "peer"⟩] := by
    rw [missed, hold]
    rfl
  have hready : (flooded capacity).status.isReady = true := isReady_readyStatus
  simp only [step, stepForwarder, show (flooded capacity).forwarder = .recv from rfl, hrecv, hmissed]
  rw [report, if_pos hready]
  rfl

/-- A remote change is pushed out. -/
def storeLag (capacity : ℕ) : List Label :=
  [.notify ⟨"frames:1", .remote "peer"⟩] ++
    List.replicate capacity (.notify ⟨"frames:2", .local⟩) ++
    List.replicate (capacity + 1) (.forwarder none)

theorem exec_storeLag (capacity : ℕ) :
    exec step (start readyStatus capacity) (storeLag capacity) =
      some (warned capacity (1 + capacity)) := by
  have hflood : exec step (start readyStatus capacity)
      ([.notify ⟨"frames:1", .remote "peer"⟩] ++
        replicate capacity (.notify ⟨"frames:2", .local⟩)) = some (flooded capacity) := by
    rw [singleton_append, exec_cons]
    exact exec_notify _ _ _
  have hrest : exec step (warned capacity 1)
      (replicate capacity (.forwarder none)) = some (warned capacity (1 + capacity)) := by
    refine exec_forwarder_local "frames:2" rfl capacity (oldest_flooded capacity).le fun i hi => ?_
    show (flooded capacity).store.sent[1 + i]? = some ⟨"frames:2", .local⟩
    rw [add_comm, flooded, getElem?_cons_succ, getElem?_replicate_of_lt hi]
  rw [storeLag, exec_append, hflood, bind_some, replicate_succ, exec_cons,
    step_flooded, bind_some, hrest]

/-- **A lag of the forwarder is not recovered**, whatever the capacity of the
store's channel: the bridge is ready, both tasks wait for input, the remote
change is lost, and no `trigger` call was made. -/
theorem exists_storeLag (capacity : ℕ) :
    ∃ s, exec step (start readyStatus capacity) (storeLag capacity) = some s ∧
      s.Quiescent ∧ s.status.isReady = true ∧ s.triggers = [] ∧ s.owed = ["frames:1"] ∧
      ¬ s.Recovered := by
  have hwait : (flooded capacity).store.recv (1 + capacity) = (.wait, 1 + capacity) := by
    refine recv_of_length_le ?_ rfl
    simp only [flooded, length_cons, length_replicate]
    omega
  have hidle : (new bridgeChangeCapacity : Channel Egress.BridgeChangeEvent).recv 0 =
      (.wait, 0) := recv_of_length_le (zero_le _) rfl
  refine ⟨_, exec_storeLag capacity, ⟨?_, fun json => ?_⟩, isReady_readyStatus, rfl, rfl, ?_⟩
  · simp only [stepRouter, warned, flooded, start, hidle]
  · simp only [stepForwarder, warned, show (flooded capacity).forwarder = .recv from rfl, hwait]
  · rintro ⟨hz, -⟩
    exact absurd hz one_ne_zero

/-- The same at the capacity of the node's own change channel. -/
theorem storeLag_not_recovered :
    ∃ s, Lts.exec ChangePath.step (start readyStatus 256) (storeLag 256) = some s ∧
      s.Quiescent ∧ s.status.isReady = true ∧ s.triggers = [] ∧ s.owed = ["frames:1"] ∧
      ¬ s.Recovered :=
  exists_storeLag 256

end PeatNode.Bridge.ChangePath
