/-
# Who works on a bundle

Two more invariants of the node, in every run.  `Staffed`: a watcher writes frames of the
distribution it was spawned for, and a cancellation that of the one it was asked for.  `Counted`:
the terminal counter lags behind the ended slots by the updates that have written and not counted,
so `all_terminal` is never true too early (`Counted.ended_of_allTerminal`).
-/

import PeatNode.Attachments.Incarnations

namespace PeatNode.Attachments

open List Watcher CancelPc CancelCall BundleRuntime

/-! ### Who writes what -/

/-- The status that a frame shows. -/
def DistributionState.status : DistributionState → DistributionStatus
  | .pending => .pending
  | .inProgress => .inProgress
  | .completed => .completed
  | .failed => .failed
  | .cancelled => .cancelled

theorem status_perNodeAggregate (perNode : List NodeTransferStatus) :
    (aggregatedToDistributionState (perNodeAggregate perNode)).status = perNodeAggregate perNode := by
  unfold perNodeAggregate
  split_ifs <;> rfl

/-- The watcher was spawned for the handle, and applies a frame of it. -/
structure Watcher.Serves (w : Watcher) (h : AttachmentHandleRecord) : Prop where
  fileIndex : w.fileIndex = h.fileIndex
  distributionId : w.distributionId = h.distributionId
  update : ∀ report call last, w.pc = .applying report call last → ∃ progress,
    call.update = applyProgress h.fileIndex (aggregatedToDistributionState progress.status) progress ∧
      progress.distributionId = h.distributionId ∧
      (aggregatedToDistributionState progress.status).status = progress.status

theorem Watcher.serves_spawn (h : AttachmentHandleRecord) : (spawn h).Serves h where
  fileIndex := rfl
  distributionId := rfl
  update report call last hpc := by simp [spawn] at hpc

theorem Watcher.Serves.turn (hw : w.Serves h) (hturn : Watcher.Turn rt w label rt' w') :
    w'.Serves h := by
  cases hturn with
  | @frame _ report progress last hpc hreport hid =>
    refine ⟨hw.fileIndex, hw.distributionId, ?_⟩
    rintro _ _ _ ⟨⟩
    refine ⟨progress, ?_, hid.trans hw.distributionId, ?_⟩
    · rw [← hw.fileIndex]
      rfl
    · rcases hreport with ⟨hfailed, -⟩ | ⟨r, -, ⟨hcompleted, -⟩ | hstatus⟩
      · rw [hfailed]
        rfl
      · rw [hcompleted]
        rfl
      · rw [hstatus]
        exact status_perNodeAggregate _
  | quiet hpc hpc' =>
    refine ⟨hw.fileIndex, hw.distributionId, fun report call last hnew => ?_⟩
    rcases hpc' with rfl | rfl | rfl <;> nomatch hnew
  | update hpc hturn =>
    refine ⟨hw.fileIndex, hw.distributionId, fun report call last hnew => ?_⟩
    obtain ⟨rfl, rfl⟩ := settle_eq_applying hnew
    rw [hturn.update]
    exact hw.update _ _ _ hpc
  | finalize hpc =>
    refine ⟨hw.fileIndex, hw.distributionId, fun report call last hnew => ?_⟩
    simp only [goto] at hnew
    split_ifs at hnew

def CancelPc.owner : CancelPc → Option ℕ
  | .applying owner _ | .finalizing owner => some owner
  | .cancelling | .mirroring | .updating _ => none

theorem CancelPc.owner_settle (k : ℕ) (call : UpdateCall) : (settle k call).owner = some k := by
  unfold settle
  split <;> rfl

theorem CancelPc.settle_eq_applying (h : settle k call = .applying k' call') : call' = call := by
  unfold settle at h
  split at h
  · nomatch h
  all_goals exact (applying.inj h).2.symm

namespace Bundles

variable {platform : Platform} {cfg : AttachmentConfig} {s s' : Bundles} {label : BundlesLabel}

/-- What is fixed about a cancellation that goes on. -/
structure Targets (s : Bundles) (f : CancelTarget) (pc : CancelPc) : Prop where
  find : f.bundle.handles.find? (·.distributionId = f.distributionId) = some f.handle
  bundle : (f.bundleId, f.bundle.handles) ∈ s.identities
  owner : ∀ k, pc.owner = some k → ∃ b, s.identities[k]? = some b ∧ b.1 = f.bundleId
  update : ∀ k call, pc = .applying k call → call.update = f.applies.update

structure Staffed (s : Bundles) : Prop where
  watchers : ∀ inc ∈ s.incarnations, ∀ w ∈ inc.watchers, ∃ h ∈ inc.handles, w.Serves h
  unregistered : ∀ inc ∈ s.incarnations, inc.registered = false → inc.watchers = []
  runtimes : ∀ id k, s.runtimes.lookup id = some k → ∃ b, s.identities[k]? = some b ∧ b.1 = id
  cancels : ∀ f pc, .running f pc ∈ s.cancels → s.Targets f pc

theorem staffed_init (blobs : Finset BlobHash) : (init blobs).Staffed where
  watchers inc hinc := by simp [init] at hinc
  unregistered inc hinc := by simp [init] at hinc
  runtimes id k h := by simp [init] at h
  cancels f pc h := by simp [init] at h

variable {f : CancelTarget} {pc : CancelPc}

theorem Targets.mono (h : s.Targets f pc)
    (hidentities : s.identities <+: s'.identities) : s'.Targets f pc where
  find := h.find
  bundle := hidentities.subset h.bundle
  owner k hk := by
    obtain ⟨b, hb, hid⟩ := h.owner k hk
    exact ⟨b, hidentities.getElem?_eq_some hb, hid⟩
  update := h.update

/-- While no runtime is found, there is nothing to say about it. -/
theorem targets_of_owner_none
    (hfind : f.bundle.handles.find? (·.distributionId = f.distributionId) = some f.handle)
    (hbundle : (f.bundleId, f.bundle.handles) ∈ s.identities) (hnone : pc.owner = none) :
    s.Targets f pc where
  find := hfind
  bundle := hbundle
  owner k hk := by
    rw [hnone] at hk
    nomatch hk
  update k call hpc := by
    rw [hpc] at hnone
    nomatch hnone

theorem targets_of_arrival (hs : s.Filed) {distributionId : String}
    (h : cancelAttachmentDistribution cfg s.registry distributionId = some (.running f pc)) :
    s.Targets f pc := by
  obtain ⟨hlookup, -, rfl, hrequest, hfind⟩ := cancelAttachmentDistribution_running h
  have hresident := Registry.lookup_of_lookupDistribution hlookup
  exact targets_of_owner_none (hrequest.symm ▸ hfind) (hs.resident _ _ hresident) rfl

/-- What a section of a cancellation leaves is about the same target. -/
theorem Targets.turn {label : CancelLabel} (hf : s.Targets f pc) (hs : s.Staffed)
    (hturn : CancelTurn s f pc label s' call) (hcall : call = .running f' pc') :
    f' = f ∧ s.Targets f pc' := by
  have hkeep : ∀ pc', (∀ k, pc'.owner = some k → ∃ b, s.identities[k]? = some b ∧ b.1 = f.bundleId) →
      (∀ k call, pc' = .applying k call → call.update = f.applies.update) → s.Targets f pc' :=
    fun pc' howner hupdate => ⟨hf.find, hf.bundle, howner, hupdate⟩
  have hnone : ∀ pc', pc'.owner = none → s.Targets f pc' :=
    fun pc' => targets_of_owner_none hf.find hf.bundle
  cases hturn with
  | substrate w hstore hresult =>
    rcases hresult with rfl | ⟨e, rfl⟩
    · obtain ⟨rfl, rfl⟩ := running.inj hcall
      exact ⟨rfl, hnone _ rfl⟩
    · nomatch hcall
  | found howner =>
    obtain ⟨rfl, rfl⟩ := running.inj hcall
    refine ⟨rfl, hkeep _ (fun k hk => ?_) fun k call hpc => ?_⟩
    · cases hk
      exact hs.runtimes _ _ howner
    · rw [← (applying.inj hpc).2]
  | absent =>
    obtain ⟨rfl, rfl⟩ := running.inj hcall
    exact ⟨rfl, hnone _ rfl⟩
  | @update k inc call call' rt' hinc hturn =>
    obtain ⟨rfl, rfl⟩ := running.inj hcall
    refine ⟨rfl, hkeep _ (fun k' hk' => ?_) fun k' call₁ hpc => ?_⟩
    · rw [owner_settle] at hk'
      exact hf.owner k' hk'
    · rw [settle_eq_applying hpc, hturn.update]
      exact hf.update k call rfl
  | finalize hinc =>
    split_ifs at hcall
    obtain ⟨rfl, rfl⟩ := running.inj hcall
    exact ⟨rfl, hnone _ rfl⟩
  | updateStatus => nomatch hcall

theorem Staffed.set_unregistered (hs : s.Staffed) (hmem : inc ∈ s.incarnations)
    (hnew : inc.registered = false) (j : ℕ) (w : Watcher) : inc.watchers.set j w = [] := by
  rw [hs.unregistered inc hmem hnew, set_nil]

theorem Staffed.step (hs : s.Staffed) (hfiled : s.Filed) (h : step platform cfg s label = some s') :
    s'.Staffed := by
  have hturn := Turn.of_step h
  have hidentities := hturn.identities_isPrefix
  have hruntimes : ∀ id k, s.runtimes.lookup id = some k → ∃ b, s'.identities[k]? = some b ∧ b.1 = id := by
    intro id k hk
    obtain ⟨b, hb, hid⟩ := hs.runtimes id k hk
    exact ⟨b, hidentities.getElem?_eq_some hb, hid⟩
  have hcancels : ∀ f pc, .running f pc ∈ s.cancels → s'.Targets f pc := fun f pc hf =>
    (hs.cancels f pc hf).mono hidentities
  cases hturn with
  | send => exact ⟨hs.watchers, hs.unregistered, hruntimes, hcancels⟩
  | accept =>
    exact ⟨forall_mem_concat hs.watchers (by simp [Incarnation.new]),
      forall_mem_concat hs.unregistered fun _ => rfl, hruntimes, hcancels⟩
  | @register k inc hinc hnew =>
    refine ⟨forall_mem_set hs.watchers fun w hw => ?_,
      forall_mem_set hs.unregistered nofun, fun id k' hk' => ?_, hcancels⟩
    · obtain ⟨handle, hhandle, rfl⟩ := mem_map.1 hw
      exact ⟨handle, hhandle, serves_spawn handle⟩
    · by_cases hid : id = inc.bundleId
      · subst hid
        rw [AList.lookup_insert] at hk'
        cases hk'
        have hplace : s.identities[k]? = some inc.identity := by
          rw [identities, getElem?_map, hinc, Option.map_some]
        refine ⟨inc.identity, ?_, rfl⟩
        rw [← hplace]
        exact congrArg (·[k]?) (map_set_of_eq hinc rfl)
      · rw [AList.lookup_insert_ne hid] at hk'
        exact hruntimes id k' hk'
  | @watch k j inc w w' label rt' hinc hw hturn =>
    have hmem := mem_of_getElem? hinc
    obtain ⟨handle, hhandle, hserves⟩ := hs.watchers inc hmem w (mem_of_getElem? hw)
    exact ⟨forall_mem_set hs.watchers
        (forall_mem_set (hs.watchers inc hmem) ⟨handle, hhandle, hserves.turn hturn⟩),
      forall_mem_set hs.unregistered fun hnew => hs.set_unregistered hmem hnew _ _,
      hruntimes, hcancels⟩
  | @watcherStatus k j inc w status hinc hw hpc now =>
    have hmem := mem_of_getElem? hinc
    obtain ⟨handle, hhandle, hserves⟩ := hs.watchers inc hmem w (mem_of_getElem? hw)
    have hfinished : (w.goto .finished).Serves handle :=
      ⟨hserves.fileIndex, hserves.distributionId, by simp [goto]⟩
    exact ⟨forall_mem_set hs.watchers
        (forall_mem_set (hs.watchers inc hmem) ⟨handle, hhandle, hfinished⟩),
      forall_mem_set hs.unregistered fun hnew => hs.set_unregistered hmem hnew _ _,
      hruntimes, hcancels⟩
  | cancel hcall =>
    refine ⟨hs.watchers, hs.unregistered, hruntimes, fun f pc hf => ?_⟩
    rcases mem_append.1 hf with hf | hf
    · exact hcancels f pc hf
    · rw [← mem_singleton.1 hf] at hcall
      exact (targets_of_arrival hfiled hcall).mono hidentities
  | @advanceCancel i f pc label s₁ call hcall hturn =>
    have hnext : ∀ f' pc', .running f' pc' ∈ s.cancels.set i call → s.Targets f' pc' := by
      intro f' pc' hf'
      rcases mem_or_eq_of_mem_set hf' with hf' | hf'
      · exact hs.cancels f' pc' hf'
      · obtain ⟨rfl, htargets⟩ := (hs.cancels f pc (mem_of_getElem? hcall)).turn hs hturn hf'.symm
        exact htargets
    have hnext' : ∀ f' pc', .running f' pc' ∈ s.cancels.set i call →
        Targets { s₁ with cancels := s.cancels.set i call } f' pc' := fun f' pc' hf' =>
      (hnext f' pc' hf').mono hidentities
    cases hturn with
    | substrate | found | absent | finalize | updateStatus =>
      exact ⟨hs.watchers, hs.unregistered, hruntimes, hnext'⟩
    | @update k inc call call' rt' hinc hturn =>
      have hmem := mem_of_getElem? hinc
      exact ⟨forall_mem_set hs.watchers (hs.watchers inc hmem),
        forall_mem_set hs.unregistered (hs.unregistered inc hmem), hruntimes, hnext'⟩

end Bundles

/-! ### The counter of a runtime -/

/-- What it will still add to its counter. -/
def Watcher.due (w : Watcher) : ℕ :=
  match w.pc with
  | .applying _ call _ => call.due
  | .checking | .subscribing | .receiving | .finalizing | .updating _ | .finished => 0

/-- What it will still add to counter `k`. -/
def CancelCall.due (k : ℕ) : CancelCall → ℕ
  | .running _ (.applying owner call) => if owner = k then call.due else 0
  | .running _ .cancelling | .running _ .mirroring | .running _ (.finalizing _)
  | .running _ (.updating _) | .returned _ => 0

theorem UpdateCall.due_of_returned {c : UpdateCall} (h : c.pc = .returned fresh) : c.due = 0 := by
  simp [due, h]

theorem Watcher.due_settle (w : Watcher) (report : Option TransferReport) (call : UpdateCall)
    (last : Bool) : (w.goto (settle report call last)).due = call.due := by
  unfold settle
  split
  · next hpc => cases last <;> simp [goto, due, UpdateCall.due_of_returned hpc]
  all_goals rfl

theorem CancelCall.due_settle (f : CancelTarget) (k owner : ℕ) (call : UpdateCall) :
    due k (.running f (.settle owner call)) = if owner = k then call.due else 0 := by
  unfold CancelPc.settle
  split
  · next hpc => simp [due, UpdateCall.due_of_returned hpc]
  all_goals rfl

/-- A section of a watcher leaves the runtime or is a section of its update. -/
theorem Watcher.Turn.runtime (h : Watcher.Turn rt w label rt' w') :
    rt' = rt ∧ w.due = 0 ∧ w'.due = 0 ∨
      ∃ report call last call', w.pc = .applying report call last ∧
        UpdateCall.Turn rt call rt' call' ∧ w'.due = call'.due := by
  cases h with
  | frame hpc =>
    refine .inl ⟨rfl, ?_, rfl⟩
    rcases hpc with hpc | hpc | hpc <;> simp [due, hpc]
  | quiet hpc hpc' =>
    refine .inl ⟨rfl, ?_, ?_⟩
    · rcases hpc with hpc | hpc | hpc <;> simp [due, hpc]
    · rcases hpc' with rfl | rfl | rfl <;> rfl
  | update hpc hturn => exact .inr ⟨_, _, _, _, hpc, hturn, due_settle _ _ _ _⟩
  | finalize hpc =>
    refine .inl ⟨rfl, by simp [due, hpc], ?_⟩
    simp only [due, goto]
    split_ifs <;> rfl

theorem Watcher.Serves.not_cancels {w : Watcher} (hw : w.Serves h)
    (hpc : w.pc = .applying report call last) :
    call.update.cancels = true → call.update.newState = .cancelled := by
  obtain ⟨progress, hupdate, -⟩ := hw.update _ _ _ hpc
  rw [hupdate]
  exact nofun

/-- **The counter and what is due follow the slots**, whatever the watcher does. -/
theorem Watcher.Turn.due (hw : w.Serves h) (hturn : Watcher.Turn rt w label rt' w') :
    rt'.terminalCount + w'.due + rt.endedCount = rt.terminalCount + w.due + rt'.endedCount ∧
      rt'.totalDistributions = rt.totalDistributions ∧
      rt'.perDistribution.length = rt.perDistribution.length := by
  rcases hturn.runtime with ⟨rfl, hzero, hzero'⟩ | ⟨report, call, last, call', hpc, hupdate, hdue'⟩
  · exact ⟨by omega, rfl, rfl⟩
  · have hold : w.due = call.due := by simp [Watcher.due, hpc]
    refine ⟨?_, hupdate.sized⟩
    rw [hdue', hold]
    exact hupdate.due (hw.not_cancels hpc)

namespace Bundles

variable {platform : Platform} {cfg : AttachmentConfig} {s s' : Bundles} {label : BundlesLabel}

theorem Targets.cancels {f : CancelTarget} (h : s.Targets f (.applying k call)) :
    call.update.cancels = true → call.update.newState = .cancelled := by
  rw [h.update k call rfl]
  exact fun _ => rfl

/-- What its counter will still get. -/
def due (s : Bundles) (k : ℕ) (inc : Incarnation) : ℕ :=
  (inc.watchers.map Watcher.due).sum + (s.cancels.map (CancelCall.due k)).sum

structure Counted (s : Bundles) : Prop where
  sized : ∀ inc ∈ s.incarnations, inc.runtime.totalDistributions = inc.handles.length ∧
    inc.runtime.perDistribution.length = inc.handles.length
  counted : ∀ (k : ℕ) inc, s.incarnations[k]? = some inc →
    inc.runtime.terminalCount + s.due k inc = inc.runtime.endedCount

theorem counted_init (blobs : Finset BlobHash) : (init blobs).Counted where
  sized inc hinc := by simp [init] at hinc
  counted k inc hinc := by simp [init] at hinc

/-- **The counter is never ahead of the slots.** -/
theorem Counted.ended_of_allTerminal (hs : s.Counted) (hinc : inc ∈ s.incarnations)
    (hall : inc.runtime.allTerminal = true) : inc.runtime.Ended := by
  obtain ⟨k, hk⟩ := getElem?_of_mem hinc
  obtain ⟨htotal, hlength⟩ := hs.sized inc hinc
  have hcount := hs.counted k inc hk
  have hreached : inc.runtime.totalDistributions ≤ inc.runtime.terminalCount := by
    simpa [allTerminal] using hall
  rw [ended_iff]
  omega

/-- No cancellation is at work on a bundle that is not there. -/
theorem sum_due_eq_zero (hs : s.Staffed) (hk : s.incarnations.length ≤ k) :
    (s.cancels.map (CancelCall.due k)).sum = 0 := by
  refine sum_eq_zero fun n hn => ?_
  obtain ⟨call, hcall, rfl⟩ := mem_map.1 hn
  unfold CancelCall.due
  split
  · next f owner update =>
    obtain ⟨b, hb, -⟩ := (hs.cancels f _ hcall).owner owner rfl
    have hlt := (List.getElem?_eq_some_iff.1 hb).1
    rw [identities, List.length_map] at hlt
    rw [if_neg (by omega)]
  all_goals rfl

theorem due_new (bundleId : String) (handles : List AttachmentHandleRecord)
    (ingested : List IngestedBlob) :
    (Incarnation.new bundleId handles ingested).runtime.endedCount = 0 := by
  rw [endedCount, countP_eq_zero]
  intro slot hslot
  obtain ⟨h, -, rfl⟩ := mem_map.1 hslot
  simp [runtimeSlot, DistributionState.isTerminal]

/-- A bundle whose runtime does a section of an update keeps its size and its count. -/
theorem Counted.set (hs : s.Counted) (hinc : s.incarnations[k]? = some inc)
    (hset : s'.incarnations = s.incarnations.set k inc') (hhandles : inc'.handles = inc.handles)
    (hsized : inc'.runtime.totalDistributions = inc.runtime.totalDistributions ∧
      inc'.runtime.perDistribution.length = inc.runtime.perDistribution.length)
    (hdue : inc'.runtime.terminalCount + s'.due k inc' + inc.runtime.endedCount =
      inc.runtime.terminalCount + s.due k inc + inc'.runtime.endedCount)
    (hothers : ∀ k' ≠ k, ∀ other, s'.due k' other = s.due k' other) : s'.Counted where
  sized other hother := by
    rw [hset] at hother
    refine forall_mem_set hs.sized ?_ other hother
    rw [hsized.1, hsized.2, hhandles]
    exact hs.sized inc (mem_of_getElem? hinc)
  counted k' other hother := by
    rw [hset] at hother
    rcases getElem?_set_cases hother with ⟨rfl, rfl⟩ | ⟨hne, hother⟩
    · have hold := hs.counted k' inc hinc
      omega
    · rw [hothers k' hne]
      exact hs.counted k' other hother

/-- A new bundle has counted nothing, and no cancellation has found its runtime. -/
theorem Counted.accept (hs : s.Counted) (hstaff : s.Staffed)
    (hset : s'.incarnations = s.incarnations ++ [.new bundleId handles blobs])
    (hcancels : s'.cancels = s.cancels) : s'.Counted where
  sized := by
    rw [hset]
    exact forall_mem_concat hs.sized (by simp [Incarnation.new, new])
  counted k inc hinc := by
    rw [due, hcancels]
    rw [hset] at hinc
    rcases getElem?_concat_cases hinc with hold | ⟨rfl, rfl⟩
    · exact hs.counted k inc hold
    · rw [due_new, sum_due_eq_zero hstaff le_rfl]
      simp [Incarnation.new, new]

theorem Counted.watch {label : WatcherLabel} (hs : s.Counted) (hserves : w.Serves handle)
    (hinc : s.incarnations[k]? = some inc) (hw : inc.watchers[j]? = some w)
    (hturn : Watcher.Turn inc.runtime w label rt' w')
    (hset : s'.incarnations = s.incarnations.set k ((inc.setRuntime rt').setWatcher j w'))
    (hcancels : s'.cancels = s.cancels) : s'.Counted := by
  obtain ⟨hdue, hsized⟩ := hturn.due hserves
  refine hs.set hinc hset rfl hsized ?_ fun _ _ _ => by rw [due, due, hcancels]
  have hsum := sum_map_set hw Watcher.due w'
  simp only [due, hcancels, Incarnation.setRuntime, Incarnation.setWatcher]
  omega

/-- A section of a cancellation that counts nothing. -/
theorem Counted.quiet (hs : s.Counted) (hcall : s.cancels[i]? = some call)
    (hold : ∀ k, CancelCall.due k call = 0) (hnew : ∀ k, CancelCall.due k call' = 0)
    (hset : s'.incarnations = s.incarnations) (hcancels : s'.cancels = s.cancels.set i call') :
    s'.Counted := by
  refine ⟨fun inc hinc => hs.sized inc (hset ▸ hinc), fun k inc hinc => ?_⟩
  have hcount := hs.counted k inc (hset ▸ hinc)
  have hsum := sum_map_set hcall (CancelCall.due k) call'
  rw [hold, hnew] at hsum
  simp only [due, hcancels] at hcount ⊢
  omega

/-- A section of `apply_cancellation` of the runtime that a cancellation has found. -/
theorem Counted.update (hs : s.Counted) (hstaff : s.Staffed)
    (hcall : s.cancels[i]? = some (.running f (.applying k call)))
    (hinc : s.incarnations[k]? = some inc) (hturn : UpdateCall.Turn inc.runtime call rt' call')
    (hset : s'.incarnations = s.incarnations.set k (inc.setRuntime rt'))
    (hcancels : s'.cancels = s.cancels.set i (.running f (.settle k call'))) : s'.Counted := by
  have hdue := hturn.due (hstaff.cancels f _ (mem_of_getElem? hcall)).cancels
  have hsum : ∀ k', (s'.cancels.map (CancelCall.due k')).sum + (if k = k' then call.due else 0) =
      (s.cancels.map (CancelCall.due k')).sum + (if k = k' then call'.due else 0) := by
    intro k'
    rw [hcancels, ← CancelCall.due_settle f k' k call']
    exact sum_map_set hcall (CancelCall.due k') _
  refine hs.set hinc hset rfl hturn.sized ?_ fun k' hk' other => ?_
  · have hown := hsum k
    simp only [if_pos] at hown
    simp only [due, Incarnation.setRuntime]
    omega
  · have hother := hsum k'
    simp only [if_neg (Ne.symm hk')] at hother
    simp only [due]
    omega

theorem Counted.step (hs : s.Counted) (hstaff : s.Staffed) (h : step platform cfg s label = some s') :
    s'.Counted := by
  cases Turn.of_step h with
  | send => exact ⟨hs.sized, hs.counted⟩
  | accept => exact hs.accept hstaff rfl rfl
  | @register k inc hinc hnew =>
    refine hs.set hinc rfl rfl ⟨rfl, rfl⟩ ?_ fun _ _ _ => rfl
    have hwatchers : ((inc.handles.map Watcher.spawn).map Watcher.due).sum = 0 := by
      refine sum_eq_zero fun n hn => ?_
      obtain ⟨w, hw, rfl⟩ := mem_map.1 hn
      obtain ⟨handle, -, rfl⟩ := mem_map.1 hw
      rfl
    have hnone := hstaff.unregistered inc (mem_of_getElem? hinc) hnew
    simp only [due, Incarnation.register, hwatchers, hnone, map_nil, sum_nil]
  | @watch k j inc w w' label rt' hinc hw hturn =>
    obtain ⟨handle, -, hserves⟩ := hstaff.watchers inc (mem_of_getElem? hinc) w
      (mem_of_getElem? hw)
    exact hs.watch hserves hinc hw hturn rfl rfl
  | @watcherStatus k j inc w status hinc hw hpc now =>
    refine hs.set hinc rfl rfl ⟨rfl, rfl⟩ ?_ fun _ _ _ => rfl
    have hsum := sum_map_set hw Watcher.due (w.goto .finished)
    have hold : w.due = 0 := by simp [Watcher.due, hpc]
    have hnew : (w.goto .finished).due = 0 := rfl
    simp only [due, Incarnation.setWatcher, setStatus]
    omega
  | @cancel distributionId call hcall =>
    refine ⟨hs.sized, fun k inc hinc => ?_⟩
    have hnone : CancelCall.due k call = 0 := by
      cases call with
      | returned => rfl
      | running f pc =>
        obtain ⟨-, -, rfl, -⟩ := cancelAttachmentDistribution_running hcall
        rfl
    have hcount := hs.counted k inc hinc
    simpa [due, hnone] using hcount
  | advanceCancel hcall hturn =>
    cases hturn with
    | substrate w hstore hresult =>
      refine hs.quiet hcall (fun _ => rfl) (fun k => ?_) rfl rfl
      rcases hresult with rfl | ⟨e, rfl⟩ <;> rfl
    | found =>
      refine hs.quiet hcall (fun _ => rfl) (fun k => ?_) rfl rfl
      simp [CancelCall.due, CancelTarget.applies, UpdateCall.due]
    | absent | updateStatus => exact hs.quiet hcall (fun _ => rfl) (fun _ => rfl) rfl rfl
    | finalize hinc =>
      refine hs.quiet hcall (fun _ => rfl) (fun k => ?_) rfl rfl
      split_ifs <;> rfl
    | update hinc hturn => exact hs.update hstaff hcall hinc hturn rfl rfl

structure Sound (s : Bundles) : Prop where
  filed : s.Filed
  staffed : s.Staffed
  counted : s.Counted

theorem sound_init (blobs : Finset BlobHash) : (init blobs).Sound :=
  ⟨filed_init blobs, staffed_init blobs, counted_init blobs⟩

theorem Sound.step (hs : s.Sound) (h : step platform cfg s label = some s') : s'.Sound :=
  ⟨hs.filed.step h, hs.staffed.step hs.filed h, hs.counted.step hs.staffed h⟩

theorem sound_of_reachable (h : s.Reachable platform cfg) : s.Sound := by
  obtain ⟨blobs, labels, hrun⟩ := h
  exact Lts.exec_preserves Sound (fun s a s' hs h => hs.step h) (sound_init blobs) hrun

end Bundles

end PeatNode.Attachments
