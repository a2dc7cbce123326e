/-
# Local writes are not reconciled out

A local write is safe as long as its exclusion is under the name the scan reads off the key.  A
write without an exclusion record whose key starts with a mapped collection and a colon breaks
this, and so does an append behind a torn record. `Separated` rules them out; nothing else goes
wrong (`local_writes_never_offered`).
-/

import PeatNode.Node.Excluded

namespace PeatNode.Node

open Bridge Ledger Reconcile

namespace SidecarNode

variable {s s' : SidecarNode}

/-- A write without an exclusion record has a key that no mapped collection reads, now or after a
later installation, and exclusions are appended in step only. -/
def Separated (s : SidecarNode) : Label → Prop
  | .install cs _ _ => ∀ w ∈ s.writes, w.excluded = false → ∀ m ∈ cs, docIdOf m w.key = none
  | .store c _ =>
    c.pc = .allowed false → s.installed.any Installed.healthy = true →
      ∀ m ∈ s.collections.getD [], docIdOf m c.key = none
  | .exclude c _ =>
    c.pc = .queued → ∀ w ∈ s.worker,
      Admits w.journal c.digest .localExcluded → InChunks w.journal.file
  | _ => True

instance (s : SidecarNode) (l : Label) : Decidable (s.Separated l) := by
  cases l <;> unfold Separated <;> infer_instance

theorem sound_start (dir : LedgerDir) (store : Finset String) : (start dir store).Sound where
  worker := fun w hw => by cases hw
  valid := fun cs hcs => by cases hcs
  apart := fun cs hcs => by cases hcs
  calls := fun c hc => absurd hc (Multiset.notMem_zero c)
  writes := fun w hw => by cases hw
  scan := fun sc hsc => by cases hsc
  offers := fun o ho => by cases ho

theorem Sound.step (h : s.Sound) (hok : s.Separated l) (hs : s.step l = some s') : s'.Sound := by
  cases l with
  | install cs fault delivery => exact h.install hok hs
  | restart =>
    cases hs
    exact h.restart
  | begin kind collection docId =>
    cases hs
    refine h.frame rfl rfl rfl (fun c hc => ?_) h.scan h.offers
    rcases Multiset.mem_cons.1 hc with rfl | hc
    · trivial
    · exact h.calls c hc
  | exclude c io =>
    simp only [SidecarNode.step] at hs
    split_ifs at hs with hc
    exact h.stepExclusion hc (fun hpc w hw => hok hpc w hw) hs
  | store c written =>
    simp only [SidecarNode.step] at hs
    split_ifs at hs with hc
    refine h.store hc (fun hpc hcount cs hcs m hm => ?_) hs
    refine hok hpc hcount m ?_
    rw [Option.mem_def.1 hcs]
    exact hm
  | abandon c =>
    simp only [SidecarNode.step] at hs
    split_ifs at hs with hc
    cases hs
    exact h.leave c
  | remote key present =>
    cases hs
    exact h.frame rfl rfl rfl h.calls h.scan h.offers
  | startScan => exact h.startScan hs
  | scan event =>
    obtain ⟨scan, hscan, hs⟩ := Option.bind_eq_some_iff.1 hs
    exact h.stepScan hscan hs
  | endScan =>
    simp only [SidecarNode.step] at hs
    split_ifs at hs
    cases hs
    exact h.frame rfl rfl rfl h.calls (fun sc hsc => by cases hsc) h.offers

/-- **Local writes are not reconciled out.** In every run whose steps are separated, over every
interleaving of writes, scans and restarts, no scan offers a key that a local write had stored
before it started. -/
theorem local_writes_never_offered {dir : LedgerDir} {store : Finset String} {labels : List Label}
    (hok : Lts.Along SidecarNode.step Separated (start dir store) labels)
    (hrun : Lts.exec SidecarNode.step (start dir store) labels = some s) : s.NeverOffered :=
  (Lts.exec_invariant Sound (fun _ _ _ h hok hs => h.step hok hs) (sound_start dir store) hok
    hrun).offers

/-! ### Runs that show it -/

/-- A status with which `can_scan` succeeds. -/
def readyStatus : BridgeStatus :=
  ((BridgeStatus.new ["vision"]).setConnected).markAllSubscriptionsEstablished

/-- `record` are the steps of its exclusion. -/
def writeSteps (collection docId : String) (record : List WritePc) (last : WritePc) : List Label :=
  let call (pc : WritePc) : WriteCall := ⟨.putDocument, collection, docId, pc⟩
  [.begin .putDocument collection docId] ++ record.map (fun pc => .exclude (call pc) .clean) ++
    [.store (call last) true]

/-- Up to its first key. -/
def scanSteps (keys : List String) : List Label :=
  let check : Label := .scan (.check false true readyStatus)
  [.startScan, check, .scan (.keys (some keys)), check, .scan .excluded]

/-- A key neither excluded nor suppressed. -/
def offerSteps : List Label :=
  [.scan (.suppressed (some false)), .scan .delayed, .scan (.check false true readyStatus),
    .scan .call, .scan (.hydrate (some true)), .scan .recheck, .scan .deliver]

/-- A local and a remote document; the second is offered. -/
def mappedRun : List Label :=
  [.install ["frames"] .none true] ++
    writeSteps "frames" "1" [.started, .mapped, .queued] (.allowed true) ++
    [.remote "frames:2" true] ++ scanSteps ["frames:1", "frames:2"] ++
    [.scan (.check false true readyStatus), .scan .excluded] ++ offerSteps

theorem mappedRun_never_offered :
    ∃ s ∈ Lts.exec SidecarNode.step (start ⟨none, none⟩ ∅) mappedRun,
      s.offers.map Offered.key = ["frames:2"] ∧ s.NeverOffered :=
  Lts.exists_mem_and (by decide +kernel) fun _ hs _ =>
    local_writes_never_offered (by decide +kernel) hs

/-- The collection `a:b` is not mapped, so the write makes no exclusion record; the scan of the
mapped `a` reads the key as its document `b:c`. -/
def colonRun : List Label :=
  [.install ["a"] .none true] ++ writeSteps "a:b" "c" [.started] (.allowed false) ++
    scanSteps ["a:b:c"] ++ offerSteps

theorem colonRun_offers_local_write :
    ∃ s ∈ Lts.exec SidecarNode.step (start ⟨none, none⟩ ∅) colonRun,
      s.offers = [⟨"a", "b:c", [⟨"a:b", "c", false⟩]⟩] ∧ ¬ s.NeverOffered := by
  decide +kernel

end SidecarNode
end PeatNode.Node
