/-
# The watcher of a distribution

`spawn_distribution_watcher` of `src/attachments/handlers.rs` asks the substrate for the status of
its distribution once, then follows its reports, makes a frame of each one and applies it to the
runtime.  The state of the distribution is read off the entries of a report alone
(`per_node_aggregate`).

`spawn_discovery_grace_promoter` adds, once and after a grace period, a failed entry for every
declared node that has none.  An earlier report completes the distribution if all nodes it names
have completed.
-/

import Mathlib.Data.UInt
import PeatNode.Attachments.Runtime

namespace PeatNode.Attachments

open List

/-! ### Reports -/

inductive TransferState
  | pending
  | connecting
  | transferring
  | completed
  | failed
deriving DecidableEq

def TransferState.isRunning : TransferState → Bool
  | .pending | .connecting | .transferring => true
  | .completed | .failed => false

/-- `NodeTransferStatus` without its times. -/
structure NodeTransferStatus where
  nodeId : String
  status : TransferState
  progressBytes : UInt64
  totalBytes : UInt64
  error : Option String
deriving DecidableEq

/-- The substrate's `DistributionStatus`; `isComplete` is its method. -/
structure TransferReport where
  totalTargets : ℕ
  nodeStatuses : List NodeTransferStatus
  isComplete : Bool
deriving DecidableEq

/-- The last branch of the source is never taken. -/
def perNodeAggregate (perNode : List NodeTransferStatus) : DistributionStatus :=
  if perNode = [] then .pending
  else if perNode.any (·.status = .failed) then .failed
  else if perNode.any (·.status.isRunning) then .inProgress
  else .completed

theorem perNodeAggregate_eq_completed_iff :
    perNodeAggregate perNode = .completed ↔
      perNode ≠ [] ∧ ∀ n ∈ perNode, n.status = .completed := by
  unfold perNodeAggregate
  split_ifs with hnil hfailed hrunning
  · simp [hnil]
  · obtain ⟨n, hn, hstatus⟩ := any_eq_true.1 hfailed
    simp only [false_iff, not_and, not_forall]
    exact fun _ => ⟨n, hn, by simp_all⟩
  · obtain ⟨n, hn, hstatus⟩ := any_eq_true.1 hrunning
    simp only [false_iff, not_and, not_forall]
    refine fun _ => ⟨n, hn, fun hcompleted => ?_⟩
    rw [hcompleted] at hstatus
    nomatch hstatus
  · simp only [any_eq_true, decide_eq_true_eq, not_exists, not_and] at hfailed hrunning
    refine ⟨fun _ => ⟨hnil, fun n hn => ?_⟩, fun _ => rfl⟩
    cases hstatus : n.status with
    | completed => rfl
    | failed => exact absurd hstatus (hfailed n hn)
    | pending | connecting | transferring =>
      exact absurd (by rw [hstatus]; rfl) (hrunning n hn)

/-! ### The grace promoter -/

/-- The fields of a `DistributionDocument` that the promoter reads. -/
structure TransferDocument where
  status : String
  nodeStatuses : List NodeTransferStatus

/-- A node not discovered in time. -/
def expired (totalBytes : UInt64) (id : String) : NodeTransferStatus :=
  ⟨id, .failed, 0, totalBytes, some "discovery grace expired: peer never connected"⟩

/-- What `spawn_discovery_grace_promoter` writes. -/
def gracePromotions (doc : Except String (Option TransferDocument)) (declaredIds : List String)
    (totalBytes : UInt64) : List NodeTransferStatus :=
  match doc with
  | .ok (some doc) =>
    if doc.status ≠ "distributing" then []
    else
      (declaredIds.filter fun id => doc.nodeStatuses.all (·.nodeId ≠ id)).map (expired totalBytes)
  | .ok none | .error _ => []

/-- Once the promoter has run, every declared node has an entry. -/
theorem exists_entry_of_promoted {doc : TransferDocument} (h : doc.status = "distributing")
    {declaredIds : List String} (totalBytes : UInt64) {id : String} (hid : id ∈ declaredIds) :
    ∃ n ∈ doc.nodeStatuses ++ gracePromotions (.ok (some doc)) declaredIds totalBytes,
      n.nodeId = id := by
  by_cases hentry : ∃ n ∈ doc.nodeStatuses, n.nodeId = id
  · obtain ⟨n, hn, rfl⟩ := hentry
    exact ⟨n, List.mem_append_left _ hn, rfl⟩
  · have hnone : doc.nodeStatuses.all (·.nodeId ≠ id) = true := by simpa using hentry
    refine ⟨expired totalBytes id, List.mem_append_right _ ?_, rfl⟩
    simp only [gracePromotions, h, ne_eq, not_true_eq_false, if_false]
    exact List.mem_map.2 ⟨id, List.mem_filter.2 ⟨hid, hnone⟩, rfl⟩

/-! ### The watcher -/

inductive WatcherEvent
  | report (status : TransferReport)
  | lagged
  | closed

inductive WatcherPc
  | checking
  | subscribing
  | receiving
  | applying (report : Option TransferReport) (call : UpdateCall) (last : Bool)
  | finalizing
  | updating (status : BundleStatus)
  | finished

structure Watcher where
  fileIndex : ℕ
  distributionId : String
  blobTokenHash : String
  declaredNodeList : Option (List String)
  pc : WatcherPc

inductive WatcherLabel
  | status (result : Except String TransferReport)
  | subscribe (result : Except String Unit)
  | recv (event : WatcherEvent)
  | update
  | finalize

/-- The status when all have ended. -/
def finalStatus (slots : List PerDistributionProgress) : BundleStatus :=
  if slots.any (·.state = .failed) then .failed
  else if slots.any (·.state = .cancelled) then .cancelled
  else .completed

namespace Watcher

def goto (w : Watcher) (pc : WatcherPc) : Watcher := { w with pc := pc }

def nodelistHasDeclaredIds (w : Watcher) : Bool := w.declaredNodeList.any (· ≠ [])

def frame (w : Watcher) (status : DistributionStatus) (error : Option String) : AttachmentProgress :=
  ⟨w.distributionId, w.blobTokenHash, status, 0, 0, error⟩

def frameOf (w : Watcher) (status : TransferReport) : AttachmentProgress where
  distributionId := w.distributionId
  blobToken := w.blobTokenHash
  status := perNodeAggregate status.nodeStatuses
  bytesTransferred := (status.nodeStatuses.map (·.progressBytes)).sum
  bytesTotal := (status.nodeStatuses.head?.map (·.totalBytes)).getD 0
  error := status.nodeStatuses.findSome? (·.error)

def applies (w : Watcher) (progress : AttachmentProgress) : UpdateCall :=
  ⟨applyProgress w.fileIndex (aggregatedToDistributionState progress.status) progress, .writing⟩

/-- What follows a section of `apply_progress`. -/
def settle (report : Option TransferReport) (call : UpdateCall) (last : Bool) : WatcherPc :=
  match call.pc with
  | .returned _ => if last then .finalizing else .receiving
  | .writing | .counting _ | .sending _ => .applying report call last

theorem settle_eq_applying (h : settle report call last = .applying report' call' last') :
    report' = report ∧ call' = call := by
  unfold settle at h
  split at h
  · split_ifs at h
  all_goals
    obtain ⟨rfl, rfl, rfl⟩ := WatcherPc.applying.inj h
    exact ⟨rfl, rfl⟩

/-- `update_status` is left to the node. -/
def advance (rt : BundleRuntime) (w : Watcher) (label : WatcherLabel) :
    Option (BundleRuntime × Watcher) :=
  match w.pc, label with
  | .checking, .status (.ok status) =>
    if status.totalTargets = 0 ∧ w.nodelistHasDeclaredIds = false then
      some (rt, w.goto (.applying (some status) (w.applies (w.frame .completed none)) true))
    else some (rt, w.goto .subscribing)
  | .checking, .status (.error e) =>
    some (rt, w.goto (.applying none
      (w.applies (w.frame .failed (some ("initial status check failed: " ++ e)))) true))
  | .subscribing, .subscribe (.ok ()) => some (rt, w.goto .receiving)
  | .subscribing, .subscribe (.error e) =>
    some (rt, w.goto (.applying none
      (w.applies (w.frame .failed (some ("subscribe_progress failed: " ++ e)))) true))
  | .receiving, .recv (.report status) =>
    some (rt, w.goto (.applying (some status) (w.applies (w.frameOf status)) status.isComplete))
  | .receiving, .recv .lagged => some (rt, w.goto .receiving)
  | .receiving, .recv .closed => some (rt, w.goto .finalizing)
  | .applying report call last, .update =>
    (UpdateCall.advance rt call).map fun r => (r.1, w.goto (settle report r.2 last))
  | .finalizing, .finalize =>
    some (rt, w.goto
      (if rt.allTerminal then .updating (finalStatus rt.perDistribution) else .finished))
  | _, _ => none

inductive Turn (rt : BundleRuntime) (w : Watcher) : WatcherLabel → BundleRuntime → Watcher → Prop
  | frame {label : WatcherLabel} {report : Option TransferReport} {progress : AttachmentProgress}
      {last : Bool} (hpc : w.pc = .checking ∨ w.pc = .subscribing ∨ w.pc = .receiving)
      (hreport : progress.status = .failed ∧ report = none ∨
        ∃ status, report = some status ∧
          (progress.status = .completed ∧ status.totalTargets = 0 ∧ w.nodelistHasDeclaredIds = false ∨
            progress.status = perNodeAggregate status.nodeStatuses))
      (hid : progress.distributionId = w.distributionId) :
      Turn rt w label rt (w.goto (.applying report (w.applies progress) last))
  | quiet {label : WatcherLabel} {pc : WatcherPc}
      (hpc : w.pc = .checking ∨ w.pc = .subscribing ∨ w.pc = .receiving)
      (hpc' : pc = .subscribing ∨ pc = .receiving ∨ pc = .finalizing) :
      Turn rt w label rt (w.goto pc)
  | update {report : Option TransferReport} {call call' : UpdateCall} {last : Bool} {rt' : BundleRuntime}
      (hpc : w.pc = .applying report call last) (hturn : UpdateCall.Turn rt call rt' call') :
      Turn rt w .update rt' (w.goto (settle report call' last))
  | finalize (hpc : w.pc = .finalizing) :
      Turn rt w .finalize rt (w.goto
        (if rt.allTerminal then .updating (finalStatus rt.perDistribution) else .finished))

variable {rt rt' : BundleRuntime} {w w' : Watcher} {label : WatcherLabel}

theorem Turn.of_advance (h : advance rt w label = some (rt', w')) : Turn rt w label rt' w' := by
  unfold advance at h
  split at h
  case h_1 status hpc =>
    split_ifs at h with hzero
    · cases h
      exact .frame (.inl hpc) (.inr ⟨_, rfl, .inl ⟨rfl, hzero⟩⟩) rfl
    · cases h
      exact .quiet (.inl hpc) (.inl rfl)
  case h_2 hpc =>
    cases h
    exact .frame (.inl hpc) (.inl ⟨rfl, rfl⟩) rfl
  case h_3 hpc =>
    cases h
    exact .quiet (.inr (.inl hpc)) (.inr (.inl rfl))
  case h_4 hpc =>
    cases h
    exact .frame (.inr (.inl hpc)) (.inl ⟨rfl, rfl⟩) rfl
  case h_5 hpc =>
    cases h
    exact .frame (.inr (.inr hpc)) (.inr ⟨_, rfl, .inr rfl⟩) rfl
  case h_6 hpc =>
    cases h
    exact .quiet (.inr (.inr hpc)) (.inr (.inl rfl))
  case h_7 hpc =>
    cases h
    exact .quiet (.inr (.inr hpc)) (.inr (.inr rfl))
  case h_8 hpc =>
    obtain ⟨⟨rt₁, call'⟩, hadvance, hr⟩ := Option.map_eq_some_iff.1 h
    cases hr
    exact .update hpc (.of_advance hadvance)
  case h_9 hpc =>
    cases h
    exact .finalize hpc
  case h_10 => nomatch h

end Watcher

/-! ### When a slot completes -/

structure Watching where
  runtime : BundleRuntime
  watcher : Watcher

inductive WatchingLabel
  | own (label : WatcherLabel)
  | other (call : UpdateCall)

namespace Watching

def start (runtime : BundleRuntime) (fileIndex : ℕ) (distributionId blobTokenHash : String)
    (declaredNodeList : Option (List String)) : Watching :=
  ⟨runtime, ⟨fileIndex, distributionId, blobTokenHash, declaredNodeList, .checking⟩⟩

def step (s : Watching) : WatchingLabel → Option Watching
  | .own label => (Watcher.advance s.runtime s.watcher label).map fun r => ⟨r.1, r.2⟩
  | .other call =>
    if call.update.newState = .cancelled ∨ call.update.fileIndex ≠ s.watcher.fileIndex then
      (UpdateCall.advance s.runtime call).map fun r => { s with runtime := r.1 }
    else none

def slotState (s : Watching) : Option DistributionState :=
  (s.runtime.perDistribution[s.watcher.fileIndex]?).map (·.state)

/-- The status of the frame to be written. -/
def report (s : Watching) : Option TransferReport :=
  match s.watcher.pc with
  | .applying report call _ => if call.pc = .writing then report else none
  | .checking | .subscribing | .receiving | .finalizing | .updating _ | .finished => none

/-- Every declared node, or enough nodes, completed. -/
def Covers (declared : Option (List String)) (r : TransferReport) : Prop :=
  match declared with
  | some ids => ∀ id ∈ ids, ∃ n ∈ r.nodeStatuses, n.nodeId = id ∧ n.status = .completed
  | none => r.totalTargets ≤ (r.nodeStatuses.filter (·.status = .completed)).length

/-- The report has an entry for every target. -/
def Names (declared : Option (List String)) (r : TransferReport) : Prop :=
  match declared with
  | some ids => ∀ id ∈ ids, ∃ n ∈ r.nodeStatuses, n.nodeId = id
  | none => r.totalTargets ≤ r.nodeStatuses.length

/-- Completion means that every target has completed. -/
def Truthful (s : Watching) (label : WatchingLabel) : Prop :=
  ∀ s', step s label = some s' → s.slotState ≠ some .completed → s'.slotState = some .completed →
    ∃ r, s.report = some r ∧ Covers s.watcher.declaredNodeList r

/-- A completed report names every target. -/
def Complete (s : Watching) : WatchingLabel → Prop
  | .own .update => ∀ r ∈ s.report, perNodeAggregate r.nodeStatuses = .completed →
      (∃ state ∈ s.slotState, state.isTerminal = false) → Names s.watcher.declaredNodeList r
  | .own _ | .other _ => True

/-- The watcher's update is of its own slot, with the state of the status behind it, or complete
for want of targets, or failed. -/
def Grounded (s : Watching) : Prop :=
  ∀ report call last, s.watcher.pc = .applying report call last →
    call.update.fileIndex = s.watcher.fileIndex ∧ call.update.cancels = false ∧
      (report = none ∧ call.update.newState = .failed ∨
        ∃ r, report = some r ∧
          (call.update.newState = .completed ∧ r.totalTargets = 0 ∧
              s.watcher.nodelistHasDeclaredIds = false ∨
            call.update.newState = aggregatedToDistributionState (perNodeAggregate r.nodeStatuses)))

theorem aggregated_eq_completed_iff :
    aggregatedToDistributionState (perNodeAggregate perNode) = .completed ↔
      perNodeAggregate perNode = .completed := by
  unfold perNodeAggregate
  split_ifs <;> simp [aggregatedToDistributionState]

variable {s s' : Watching} {label : WatchingLabel}

theorem Grounded.step (hs : s.Grounded) (h : step s label = some s') : s'.Grounded := by
  cases label with
  | own label =>
    obtain ⟨⟨rt', w'⟩, hadvance, rfl⟩ := Option.map_eq_some_iff.1 h
    cases Watcher.Turn.of_advance hadvance with
    | frame hpc hreport hid =>
      rintro _ _ _ ⟨⟩
      refine ⟨rfl, rfl, ?_⟩
      rcases hreport with ⟨hfailed, rfl⟩ | ⟨r, rfl, ⟨hcompleted, hzero⟩ | hstatus⟩
      · exact .inl ⟨rfl, by simp [Watcher.applies, applyProgress, hfailed, aggregatedToDistributionState]⟩
      · refine .inr ⟨r, rfl, .inl ⟨?_, hzero⟩⟩
        simp [Watcher.applies, applyProgress, hcompleted, aggregatedToDistributionState]
      · exact .inr ⟨r, rfl, .inr (by simp [Watcher.applies, applyProgress, hstatus])⟩
    | quiet hpc hpc' =>
      rintro _ _ _ hnew
      rcases hpc' with rfl | rfl | rfl <;> cases hnew
    | @update report call call' last _ hpc hturn =>
      rintro report' call₁ last' hnew
      obtain ⟨rfl, rfl⟩ := Watcher.settle_eq_applying hnew
      have hold := hs _ _ _ hpc
      rwa [← hturn.update] at hold
    | finalize hpc =>
      rintro _ _ _ hnew
      have hnew' : (if s.runtime.allTerminal then WatcherPc.updating
        (finalStatus s.runtime.perDistribution) else .finished) = .applying _ _ _ := hnew
      split_ifs at hnew'
  | other call =>
    simp only [Watching.step] at h
    split_ifs at h
    obtain ⟨⟨rt', call'⟩, -, rfl⟩ := Option.map_eq_some_iff.1 h
    exact hs

/-- A slot completes only by an update of the watcher, of a distribution that has not ended. -/
theorem written_of_completes (hs : s.Grounded) (h : step s label = some s')
    (hbefore : s.slotState ≠ some .completed) (hafter : s'.slotState = some .completed) :
    ∃ report call last, label = .own .update ∧ s.watcher.pc = .applying report call last ∧
      call.pc = .writing ∧ call.update.newState = .completed ∧
      ∃ state ∈ s.slotState, state.isTerminal = false := by
  cases label with
  | own label =>
    obtain ⟨⟨rt', w'⟩, hadvance, rfl⟩ := Option.map_eq_some_iff.1 h
    cases Watcher.Turn.of_advance hadvance with
    | frame | quiet | finalize => exact absurd hafter hbefore
    | @update report call call' last _ hpc hturn =>
      obtain ⟨hindex, hcancels, -⟩ := hs _ _ _ hpc
      cases hturn with
      | refused | sent => exact absurd hafter hbefore
      | counted =>
        simp only [slotState, BundleRuntime.perDistribution_count] at hafter
        exact absurd hafter hbefore
      | @written slot hcall hslot hkeeps =>
        have hlt := (List.getElem?_eq_some_iff.1 hslot).1
        refine ⟨report, call, last, rfl, hpc, hcall, ?_, slot.state, ?_, ?_⟩
        · simpa [slotState, Watcher.goto, hindex, hindex ▸ hlt, Update.slot] using hafter
        · simp [slotState, ← hindex, hslot]
        · simpa [Update.keeps, hcancels] using hkeeps
  | other call =>
    simp only [Watching.step] at h
    split_ifs at h with hother
    obtain ⟨⟨rt', call'⟩, hadvance, rfl⟩ := Option.map_eq_some_iff.1 h
    cases UpdateCall.Turn.of_advance hadvance with
    | refused | sent => exact absurd hafter hbefore
    | counted =>
      simp only [slotState, BundleRuntime.perDistribution_count] at hafter
      exact absurd hafter hbefore
    | @written slot hcall hslot hkeeps =>
      -- a cancellation does not complete, and another slot is not this one
      simp only [slotState] at hafter
      by_cases hindex : call.update.fileIndex = s.watcher.fileIndex
      · have hlt := (List.getElem?_eq_some_iff.1 hslot).1
        have hcancelled := hother.resolve_right (not_not.2 hindex)
        simp [← hindex, hlt, Update.slot, hcancelled] at hafter
      · rw [getElem?_set_ne hindex] at hafter
        exact absurd hafter hbefore

variable {r : TransferReport}

theorem Covers.names (h : Covers declared r) : Names declared r := by
  cases declared with
  | none => exact le_trans h (length_filter_le _ _)
  | some ids =>
    intro id hid
    obtain ⟨n, hn, hnode, -⟩ := h id hid
    exact ⟨n, hn, hnode⟩

theorem Names.covers (h : Names declared r) (hall : ∀ n ∈ r.nodeStatuses, n.status = .completed) :
    Covers declared r := by
  cases declared with
  | none =>
    have hfilter : r.nodeStatuses.filter (·.status = .completed) = r.nodeStatuses :=
      filter_eq_self.2 fun n hn => by simp [hall n hn]
    show r.totalTargets ≤ (r.nodeStatuses.filter (·.status = .completed)).length
    rw [hfilter]
    exact h
  | some ids =>
    intro id hid
    obtain ⟨n, hn, hnode⟩ := h id hid
    exact ⟨n, hn, hnode, hall n hn⟩

theorem covers_of_no_targets {w : Watcher} (hzero : r.totalTargets = 0)
    (hdeclared : w.nodelistHasDeclaredIds = false) : Covers w.declaredNodeList r := by
  unfold Watcher.nodelistHasDeclaredIds at hdeclared
  cases hlist : w.declaredNodeList with
  | none => exact hzero.trans_le (Nat.zero_le _)
  | some ids =>
    obtain rfl : ids = [] := by simpa [hlist] using hdeclared
    nofun

/-- A report whose nodes have all completed completes a distribution that has not
ended. -/
theorem exists_completes (hs : s.Grounded) (hr : s.report = some r)
    (hall : perNodeAggregate r.nodeStatuses = .completed)
    (hslot : ∃ state ∈ s.slotState, state.isTerminal = false) :
    ∃ s', step s (.own .update) = some s' ∧ s.slotState ≠ some .completed ∧
      s'.slotState = some .completed := by
  cases hpc : s.watcher.pc with
  | checking | subscribing | receiving | finalizing | updating | finished => simp [report, hpc] at hr
  | applying report call last =>
    obtain ⟨hindex, hcancels, hground⟩ := hs _ _ _ hpc
    simp only [Watching.report, hpc, Option.ite_none_right_eq_some] at hr
    obtain ⟨hcall, rfl⟩ := hr
    have hnew : call.update.newState = .completed := by
      rcases hground with ⟨hnone, -⟩ | ⟨r', hr', ⟨hcompleted, -⟩ | hagg⟩
      · cases hnone
      · exact hcompleted
      · cases hr'
        rw [hagg, aggregated_eq_completed_iff]
        exact hall
    obtain ⟨_, hstate, hrunning⟩ := hslot
    obtain ⟨slot, hslot, rfl⟩ := Option.map_eq_some_iff.1 hstate
    rw [← hindex] at hslot
    have hkeeps : call.update.keeps slot.state = false := by
      simp [Update.keeps, hcancels, hrunning]
    have hlt := (List.getElem?_eq_some_iff.1 hslot).1
    let counting := call.goto (.counting (!slot.state.isTerminal && call.update.newState.isTerminal))
    refine ⟨⟨{ s.runtime with
        perDistribution := s.runtime.perDistribution.set call.update.fileIndex call.update.slot },
      s.watcher.goto (Watcher.settle (some r) counting last)⟩, ?_, fun heq => ?_, ?_⟩
    · simp only [step, Watcher.advance, hpc, UpdateCall.advance_of_not_keeps hcall hslot hkeeps,
        Option.map_some, counting]
    · rw [slotState, ← hindex, hslot] at heq
      rw [show slot.state = .completed from Option.some.inj heq] at hrunning
      cases hrunning
    · simp [slotState, Watcher.goto, ← hindex, hlt, Update.slot, hnew]

theorem truthful_iff_complete (hs : s.Grounded) : s.Truthful label ↔ s.Complete label := by
  constructor
  · intro htruthful
    cases label with
    | other call => trivial
    | own label =>
      cases label with
      | status | subscribe | recv | finalize => trivial
      | update =>
        intro r hr hall hslot
        obtain ⟨s', hstep, hbefore, hafter⟩ := exists_completes hs hr hall hslot
        obtain ⟨r', hr', hcovers⟩ := htruthful s' hstep hbefore hafter
        cases hr'.symm.trans hr
        exact hcovers.names
  · intro hcomplete s' h hbefore hafter
    obtain ⟨report, call, last, rfl, hpc, hcall, hnew, hrunning⟩ :=
      written_of_completes hs h hbefore hafter
    obtain ⟨-, -, hground⟩ := hs _ _ _ hpc
    have hreport : s.report = report := by simp [Watching.report, hpc, hcall]
    rcases hground with ⟨-, hfailed⟩ | ⟨r, rfl, ⟨-, hzero, hdeclared⟩ | hagg⟩
    · rw [hfailed] at hnew
      nomatch hnew
    · exact ⟨r, hreport, covers_of_no_targets hzero hdeclared⟩
    · have hcompleted := aggregated_eq_completed_iff.1 (hagg.symm.trans hnew)
      refine ⟨r, hreport, (hcomplete r hreport hcompleted hrunning).covers ?_⟩
      exact (perNodeAggregate_eq_completed_iff.1 hcompleted).2

/-- **`Completed` means that every target has completed** in a run exactly when every report whose
nodes have all completed, and that is applied to a distribution that has not ended, names every
target. -/
theorem completed_truthfully_iff (runtime : BundleRuntime) (fileIndex : ℕ)
    (distributionId blobTokenHash : String) (declaredNodeList : Option (List String))
    (labels : List WatchingLabel) :
    Lts.Along step Truthful (start runtime fileIndex distributionId blobTokenHash declaredNodeList)
        labels ↔
      Lts.Along step Complete (start runtime fileIndex distributionId blobTokenHash declaredNodeList)
        labels :=
  Lts.along_congr Grounded (fun _ _ _ hs h => hs.step h) (fun _ _ hs => truthful_iff_complete hs)
    (by rintro _ _ _ ⟨⟩) labels

/-! ### An undiscovered node -/

/-- `"b"` is declared and not known in time. -/
def early : TransferReport := ⟨1, [⟨"a", .completed, 8, 8, none⟩], true⟩

/-- What the promoter adds in the end. -/
def promoted : List NodeTransferStatus :=
  gracePromotions (.ok (some ⟨"distributing", early.nodeStatuses⟩)) ["a", "b"] 8

def undiscovered : Watching :=
  start (.new [⟨.pending, 0, 8, none, ⟨"d", "blob", .pending, 0, 8, none⟩⟩]) 0 "d" "blob"
    (some ["a", "b"])

def earlyReport : List WatchingLabel :=
  [.own (.status (.ok early)), .own (.subscribe (.ok ())), .own (.recv (.report early))]

/-- **A distribution completes before all its targets are known**: the report of `"a"` completes
it, the watcher leaves its loop with the bundle completed, and `"b"` is found to have failed
later. -/
theorem undiscovered_completes :
    (∃ s, Lts.exec step undiscovered earlyReport = some s ∧ ¬ s.Truthful (.own .update)) ∧
      (∃ s, Lts.exec step undiscovered (earlyReport ++ List.replicate 3 (.own .update) ++
          [.own .finalize]) = some s ∧ s.slotState = some .completed ∧
        s.watcher.pc = .updating .completed) ∧
      promoted = [expired 8 "b"] := by
  have hfirst : ∃ s ∈ Lts.exec step undiscovered earlyReport,
      s.report = some early ∧ s.slotState = some .pending ∧
        s.watcher.declaredNodeList = some ["a", "b"] ∧
        ∃ s' ∈ step s (.own .update), s'.slotState = some .completed := by
    decide +kernel
  obtain ⟨s, hrun, hreport, hbefore, hdeclared, s', hstep, hafter⟩ := hfirst
  refine ⟨⟨s, hrun, fun htruthful => ?_⟩, ⟨_, rfl, rfl, rfl⟩, by decide⟩
  obtain ⟨r, hr, hcovers⟩ := htruthful s' hstep (by simp [hbefore]) hafter
  cases hreport.symm.trans hr
  rw [hdeclared] at hcovers
  obtain ⟨n, hn, hnode, -⟩ := hcovers "b" (by simp)
  obtain rfl := mem_singleton.1 hn
  nomatch hnode

end Watching

end PeatNode.Attachments
