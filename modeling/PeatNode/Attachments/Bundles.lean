/-
# The bundles of a node

All of `src/attachments/handlers.rs` around one table: the requests of `SendAttachments`, the
runtime and the watchers they leave behind, and the requests that cancel a distribution.

A bundle id can be used again, so an accepted bundle is an `Incarnation` of its id; runtimes and
records are found by the id alone.

The handler of a cancellation is cut where it touches something shared:

| state | next section |
| --- | --- |
| `cancelling` | the answer of `FileDistribution::cancel` |
| `mirroring` | the look-up of the runtime |
| `applying` | one section of `apply_cancellation` |
| `finalizing` | the counter and the slots, in `maybe_finalize_bundle` |
| `updating` | `update_status` |
-/

import PeatNode.Attachments.Handles
import PeatNode.Attachments.Watcher

namespace PeatNode.Attachments

open Option

/-! ### An accepted bundle -/

structure Incarnation where
  bundleId : String
  handles : List AttachmentHandleRecord
  registered : Bool
  runtime : BundleRuntime
  watchers : List Watcher

def bytesTotalOf (ingested : List IngestedBlob) (h : AttachmentHandleRecord) : UInt64 :=
  ((ingested.find? (·.fileIndex = h.fileIndex)).map fun ib =>
    UInt64.ofNat ib.blobToken.sizeBytes).getD 0

def runtimeSlot (ingested : List IngestedBlob) (h : AttachmentHandleRecord) :
    PerDistributionProgress :=
  let bytesTotal := bytesTotalOf ingested h
  ⟨.pending, 0, bytesTotal, none,
    ⟨h.distributionId, h.blobTokenHash, .pending, 0, bytesTotal, none⟩⟩

/-- The ids that a `NodeList` scope declares. -/
def AttachmentHandleRecord.declaredNodeList (h : AttachmentHandleRecord) : Option (List String) :=
  match h.distributionHandle.scope with
  | .nodes nodeIds => some nodeIds
  | .allNodes => none

/-- `spawn_distribution_watcher`. -/
def Watcher.spawn (h : AttachmentHandleRecord) : Watcher :=
  ⟨h.fileIndex, h.distributionId, h.blobTokenHash, h.declaredNodeList, .checking⟩

namespace Incarnation

/-- A new bundle; its runtime is not registered. -/
def new (bundleId : String) (handles : List AttachmentHandleRecord) (ingested : List IngestedBlob) :
    Incarnation :=
  ⟨bundleId, handles, false, .new (handles.map (runtimeSlot ingested)), []⟩

def register (inc : Incarnation) : Incarnation :=
  { inc with registered := true, watchers := inc.handles.map Watcher.spawn }

def ids (inc : Incarnation) : List String := inc.handles.map AttachmentHandleRecord.distributionId

def setWatcher (inc : Incarnation) (j : ℕ) (w : Watcher) : Incarnation :=
  { inc with watchers := inc.watchers.set j w }

def setRuntime (inc : Incarnation) (runtime : BundleRuntime) : Incarnation :=
  { inc with runtime := runtime }

end Incarnation

/-! ### A cancellation -/

/-- What the handler of a cancellation has found. -/
structure CancelTarget where
  distributionId : String
  bundleId : String
  bundle : BundleRecord
  handle : AttachmentHandleRecord

inductive CancelPc
  | cancelling
  | mirroring
  | applying (owner : ℕ) (call : UpdateCall)
  | finalizing (owner : ℕ)
  | updating (status : BundleStatus)

inductive CancelCall
  | running (f : CancelTarget) (pc : CancelPc)
  | returned (wasCancelled : Except ConnectError Bool)

inductive CancelLabel
  | substrate (result : Except String Unit)
  | mirror
  | update
  | finalize
  | updateStatus (now : SystemTime)

def distributionNotFound (distributionId : String) : ConnectError :=
  ⟨.notFound, "distribution_id `" ++ distributionId ++ "` not found"⟩

/-- Up to its first await; `none` is a panic. -/
def cancelAttachmentDistribution (cfg : AttachmentConfig) (registry : Registry)
    (distributionId : String) : Option CancelCall :=
  if cfg.hasRoots then
    match registry.lookupDistribution distributionId with
    | none => some (.returned (.error (distributionNotFound distributionId)))
    | some (bundleId, bundle) =>
      if bundle.status.isTerminal then some (.returned (.ok false))
      else
        (bundle.handles.find? (·.distributionId = distributionId)).map fun handle =>
          .running ⟨distributionId, bundleId, bundle, handle⟩ .cancelling
  else some (.returned (.error (unimplementedNoRoots "CancelAttachmentDistribution")))

/-- A request goes on after its look-up if it has found a bundle that has not ended. -/
theorem cancelAttachmentDistribution_running
    (h : cancelAttachmentDistribution cfg registry distributionId = some (.running f pc)) :
    registry.lookupDistribution distributionId = some (f.bundleId, f.bundle) ∧
      f.bundle.status.isTerminal = false ∧ pc = .cancelling ∧ f.distributionId = distributionId ∧
      f.bundle.handles.find? (·.distributionId = distributionId) = some f.handle := by
  unfold cancelAttachmentDistribution at h
  split at h
  swap
  · nomatch h
  split at h
  · nomatch h
  · next bundleId bundle hlookup =>
    split at h
    · nomatch h
    · next hstatus =>
      obtain ⟨handle, hfind, hcall⟩ := map_eq_some_iff.1 h
      obtain ⟨rfl, rfl⟩ := CancelCall.running.inj hcall
      exact ⟨hlookup, by simpa using hstatus, rfl, rfl, hfind⟩

def CancelTarget.applies (f : CancelTarget) : UpdateCall :=
  ⟨applyCancellation f.handle.fileIndex
    ⟨f.distributionId, f.handle.blobTokenHash, .cancelled, 0, 0, none⟩, .writing⟩

/-- What follows a section of `apply_cancellation`. -/
def CancelPc.settle (owner : ℕ) (call : UpdateCall) : CancelPc :=
  match call.pc with
  | .returned _ => .finalizing owner
  | .writing | .counting _ | .sending _ => .applying owner call

/-! ### The node -/

structure Bundles where
  sends : SendAttachments
  incarnations : List Incarnation
  runtimes : AList fun _ : String => ℕ
  cancels : List CancelCall

inductive BundlesLabel
  | send (label : SendAttachmentsLabel)
  | register (k : ℕ)
  | watch (k j : ℕ) (label : WatcherLabel)
  | watcherStatus (k j : ℕ) (now : SystemTime)
  | cancel (distributionId : String)
  | advanceCancel (i : ℕ) (label : CancelLabel)

/-- Neither a watcher's label nor a cancellation's. -/
def SendAttachmentsLabel.isOwn : SendAttachmentsLabel → Bool
  | .arrive _ | .advance .. | .evictExpired _ | .get .. | .changeBlobs _ => true
  | .updateStatus .. | .cancel _ => false

namespace Bundles

def init (blobs : Finset BlobHash) : Bundles := ⟨.init blobs, [], ∅, []⟩

abbrev registry (s : Bundles) : Registry := s.sends.node.registry

def setStatus (s : Bundles) (bundleId : String) (status : BundleStatus) (now : SystemTime) : Bundles :=
  { s with sends.node.registry := s.registry.updateStatus bundleId status now }

/-- The bundle that a request puts into the table. -/
def acceptedBy (s : SendAttachments) : SendAttachmentsLabel → Option Incarnation
  | .advance i (.record _ _) =>
    match s.calls[i]? with
    | some ⟨request, .ingested bundleId _ blobs⟩ =>
      (buildHandleRecords request blobs).map fun handles => .new bundleId handles blobs
    | _ => none
  | _ => none

def advanceCancel (s : Bundles) (f : CancelTarget) (pc : CancelPc) (label : CancelLabel) :
    Option (Bundles × CancelCall) :=
  match pc, label with
  | .cancelling, .substrate (.ok ()) =>
    some ({ s with sends.node.store := s.sends.node.store.cancel f.handle.distributionId },
      .running f .mirroring)
  | .cancelling, .substrate (.error e) =>
    some (s, .returned (.error ⟨.internal, "cancel failed: " ++ e⟩))
  | .mirroring, .mirror =>
    match s.runtimes.lookup f.bundleId with
    | some owner => some (s, .running f (.applying owner f.applies))
    | none => some (s, .running f (.updating .cancelled))
  | .applying owner call, .update =>
    match s.incarnations[owner]? with
    | none => none
    | some inc =>
      (UpdateCall.advance inc.runtime call).map fun r =>
        ({ s with incarnations := s.incarnations.set owner (inc.setRuntime r.1) },
          .running f (.settle owner r.2))
  | .finalizing owner, .finalize =>
    (s.incarnations[owner]?).map fun inc =>
      (s, if inc.runtime.allTerminal then
          .running f (.updating (finalStatus inc.runtime.perDistribution))
        else .returned (.ok true))
  | .updating status, .updateStatus now =>
    some (s.setStatus f.bundleId status now, .returned (.ok true))
  | _, _ => none

variable (platform : Platform) (cfg : AttachmentConfig)

def step (s : Bundles) : BundlesLabel → Option Bundles
  | .send label =>
    if label.isOwn then
      (SendAttachments.step platform cfg s.sends label).map fun sends =>
        { s with
          sends
          incarnations := s.incarnations ++ (acceptedBy s.sends label).toList }
    else none
  | .register k =>
    match s.incarnations[k]? with
    | none => none
    | some inc =>
      if inc.registered then none
      else
        some { s with
          incarnations := s.incarnations.set k inc.register
          runtimes := s.runtimes.insert inc.bundleId k }
  | .watch k j label =>
    match s.incarnations[k]? with
    | none => none
    | some inc =>
      match inc.watchers[j]? with
      | none => none
      | some w =>
        (Watcher.advance inc.runtime w label).map fun r =>
          { s with incarnations := s.incarnations.set k ((inc.setRuntime r.1).setWatcher j r.2) }
  | .watcherStatus k j now =>
    match s.incarnations[k]? with
    | none => none
    | some inc =>
      match inc.watchers[j]? with
      | some w =>
        match w.pc with
        | .updating status =>
          some (setStatus
            { s with incarnations := s.incarnations.set k (inc.setWatcher j (w.goto .finished)) }
            inc.bundleId status now)
        | .checking | .subscribing | .receiving | .applying .. | .finalizing | .finished => none
      | none => none
  | .cancel distributionId =>
    (cancelAttachmentDistribution cfg s.registry distributionId).map fun call =>
      { s with cancels := s.cancels ++ [call] }
  | .advanceCancel i label =>
    match s.cancels[i]? with
    | some (.running f pc) =>
      (advanceCancel s f pc label).map fun r => { r.1 with cancels := s.cancels.set i r.2 }
    | some (.returned _) | none => none

def Reachable (s : Bundles) : Prop :=
  ∃ blobs labels, Lts.exec (step platform cfg) (init blobs) labels = some s

/-! ### What the steps do -/

inductive CancelTurn (s : Bundles) (f : CancelTarget) : CancelPc → CancelLabel → Bundles → CancelCall → Prop
  | substrate (w : Store)
      (hstore : w.issued = s.sends.node.store.issued)
      (hcall : call = .running f .mirroring ∨ ∃ e, call = .returned (.error e)) :
      CancelTurn s f .cancelling (.substrate result) { s with sends.node.store := w } call
  | found (howner : s.runtimes.lookup f.bundleId = some owner) :
      CancelTurn s f .mirroring .mirror s (.running f (.applying owner f.applies))
  | absent (hnone : s.runtimes.lookup f.bundleId = none) :
      CancelTurn s f .mirroring .mirror s (.running f (.updating .cancelled))
  | update {owner : ℕ} {inc : Incarnation} {call call' : UpdateCall} {rt' : BundleRuntime}
      (hinc : s.incarnations[owner]? = some inc) (hturn : UpdateCall.Turn inc.runtime call rt' call') :
      CancelTurn s f (.applying owner call) .update
        { s with incarnations := s.incarnations.set owner (inc.setRuntime rt') }
        (.running f (.settle owner call'))
  | finalize (hinc : s.incarnations[owner]? = some inc) :
      CancelTurn s f (.finalizing owner) .finalize s
        (if inc.runtime.allTerminal then
            .running f (.updating (finalStatus inc.runtime.perDistribution))
          else .returned (.ok true))
  | updateStatus (status : BundleStatus) (now : SystemTime) :
      CancelTurn s f (.updating status) (.updateStatus now) (s.setStatus f.bundleId status now)
        (.returned (.ok true))

inductive Turn (s : Bundles) : BundlesLabel → Bundles → Prop
  | send (hown : label.isOwn = true)
      (hnone : ∀ i now victim, label ≠ .advance i (.record now victim))
      (hstep : SendAttachments.step platform cfg s.sends label = some sends') :
      Turn s (.send label) { s with sends := sends' }
  | accept {i : ℕ} {now : SystemTime} {victim bundleId : String} {call : SendCall}
      {identity : BundleIdentity} {blobs : List IngestedBlob} {handles : List AttachmentHandleRecord}
      {registry : Registry} (hcall : s.sends.calls[i]? = some call)
      (hpc : call.pc = .ingested bundleId identity blobs)
      (hhandles : buildHandleRecords call.request blobs = some handles)
      (hinsert : s.registry.insert cfg.maxKnownBundles (.new bundleId identity handles now) victim =
        some registry) :
      Turn s (.send (.advance i (.record now victim)))
        { s with
          sends := ⟨⟨registry, s.sends.node.store⟩,
            s.sends.calls.set i (call.goto (.returned (.ok (buildResponse bundleId handles))))⟩
          incarnations := s.incarnations ++ [.new bundleId handles blobs] }
  | register (hinc : s.incarnations[k]? = some inc)
      (hnew : inc.registered = false) :
      Turn s (.register k)
        { s with
          incarnations := s.incarnations.set k inc.register
          runtimes := s.runtimes.insert inc.bundleId k }
  | watch {k j : ℕ} {inc : Incarnation} {w w' : Watcher} {label : WatcherLabel} {rt' : BundleRuntime}
      (hinc : s.incarnations[k]? = some inc) (hw : inc.watchers[j]? = some w)
      (hturn : Watcher.Turn inc.runtime w label rt' w') :
      Turn s (.watch k j label)
        { s with incarnations := s.incarnations.set k ((inc.setRuntime rt').setWatcher j w') }
  | watcherStatus {k j : ℕ} {inc : Incarnation} {w : Watcher} {status : BundleStatus}
      (hinc : s.incarnations[k]? = some inc) (hw : inc.watchers[j]? = some w)
      (hpc : w.pc = .updating status) (now : SystemTime) :
      Turn s (.watcherStatus k j now)
        (setStatus { s with incarnations := s.incarnations.set k (inc.setWatcher j (w.goto .finished)) }
          inc.bundleId status now)
  | cancel (hcall : cancelAttachmentDistribution cfg s.registry distributionId = some call) :
      Turn s (.cancel distributionId) { s with cancels := s.cancels ++ [call] }
  | advanceCancel (hcall : s.cancels[i]? = some (.running f pc))
      (hturn : CancelTurn s f pc label s' call) :
      Turn s (.advanceCancel i label) { s' with cancels := s.cancels.set i call }

variable {platform cfg} {s s' : Bundles} {label : BundlesLabel}

theorem CancelTurn.of_advanceCancel {label : CancelLabel}
    (h : advanceCancel s f pc label = some (s', call)) : CancelTurn s f pc label s' call := by
  unfold advanceCancel at h
  split at h
  case h_1 =>
    cases h
    exact .substrate _ (SendAttachments.issued_cancel _ _) (.inl rfl)
  case h_2 =>
    cases h
    exact .substrate s.sends.node.store rfl (.inr ⟨_, rfl⟩)
  case h_4 =>
    split at h
    · nomatch h
    · next inc hinc =>
      obtain ⟨⟨rt', call'⟩, hadvance, hr⟩ := map_eq_some_iff.1 h
      cases hr
      exact .update hinc (.of_advance hadvance)
  all_goals grind [CancelTurn]

theorem acceptedBy_eq_none {sends : SendAttachments} {label : SendAttachmentsLabel}
    (h : ∀ i now victim, label ≠ .advance i (.record now victim)) :
    acceptedBy sends label = none := by
  unfold acceptedBy
  split
  · exact absurd rfl (h _ _ _)
  · rfl

theorem Turn.of_step (h : step platform cfg s label = some s') : Turn platform cfg s label s' := by
  cases label with
  | send label =>
    simp only [step] at h
    split_ifs at h with hown
    obtain ⟨sends', hstep, rfl⟩ := map_eq_some_iff.1 h
    by_cases hrecord : ∃ i now victim, label = .advance i (.record now victim)
    · obtain ⟨i, now, victim, rfl⟩ := hrecord
      obtain ⟨call, n', call', hcall, hturn, rfl⟩ := SendAttachments.turn_of_step hstep
      cases hturn with
      | @record bundleId identity blobs hpc _ _ handles hhandles registry hinsert =>
        obtain ⟨request, pc⟩ := call
        obtain rfl : pc = _ := hpc
        have haccepted : acceptedBy s.sends (.advance i (.record now victim)) =
            some (.new bundleId handles blobs) := by
          simp only [acceptedBy, hcall]
          rw [hhandles, map_some]
        rw [haccepted]
        exact .accept hcall rfl hhandles hinsert
    · have hnone : ∀ i now victim, label ≠ .advance i (.record now victim) := by
        intro i now victim hlabel
        exact hrecord ⟨i, now, victim, hlabel⟩
      rw [acceptedBy_eq_none hnone, toList_none, List.append_nil]
      exact .send hown hnone hstep
  | register | watcherStatus => grind [Turn, step]
  | watch k j label =>
    simp only [step] at h
    split at h
    · nomatch h
    · next inc hinc =>
      split at h
      · nomatch h
      · next w hw =>
        obtain ⟨⟨rt', w'⟩, hadvance, rfl⟩ := map_eq_some_iff.1 h
        exact .watch hinc hw (.of_advance hadvance)
  | cancel distributionId =>
    obtain ⟨call, hcall, rfl⟩ := map_eq_some_iff.1 h
    exact .cancel hcall
  | advanceCancel i label =>
    simp only [step] at h
    split at h
    · next f pc hcall =>
      obtain ⟨⟨s₁, call⟩, hadvance, rfl⟩ := map_eq_some_iff.1 h
      exact .advanceCancel hcall (.of_advanceCancel hadvance)
    all_goals nomatch h

end Bundles

end PeatNode.Attachments
