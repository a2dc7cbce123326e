/-
# Two answers about one distribution

`get_attachment_distribution` answers with the status of the bundle once that is terminal, and
with what the peers report before; `subscribe_attachment_bundle` sends the last frame of every
distribution that has ended.  When nothing works on any bundle any more, the two agree on one
exactly if its record is terminal and all its distributions have the record's status in the
runtime found under its id (`Uniform`).
-/

import PeatNode.Attachments.CancelTruth
import PeatNode.Attachments.Quiescent
import PeatNode.Attachments.Subscribe

namespace PeatNode.Attachments

open Broadcast List

/-! ### The handlers -/

def bundleStatusToProto : BundleStatus → DistributionStatus
  | .pending => .pending
  | .inProgress => .inProgress
  | .completed => .completed
  | .partially => .partially
  | .failed => .failed
  | .cancelled => .cancelled

def transferStateToProto : TransferState → DistributionStatus
  | .pending => .pending
  | .connecting | .transferring => .inProgress
  | .completed => .completed
  | .failed => .failed

structure NodeTransferState where
  nodeId : String
  status : DistributionStatus
  bytesTransferred : UInt64
deriving DecidableEq

def nodeStateToProto (p : NodeTransferStatus) : NodeTransferState :=
  ⟨p.nodeId, transferStateToProto p.status, p.progressBytes⟩

structure GetAttachmentDistributionResponse where
  status : DistributionStatus
  bytesTransferred : UInt64
  bytesTotal : UInt64
  perNode : List NodeTransferState
  error : Option String
deriving DecidableEq

def distributionResponse (bundle : BundleRecord) (handle : AttachmentHandleRecord)
    (status : TransferReport) : GetAttachmentDistributionResponse where
  status :=
    if bundle.status.isTerminal then bundleStatusToProto bundle.status
    else perNodeAggregate status.nodeStatuses
  bytesTransferred := (status.nodeStatuses.map (·.progressBytes)).sum
  bytesTotal :=
    (status.nodeStatuses.head?.map (·.totalBytes)).getD
      (((bundle.identity.files[handle.fileIndex]?).map (·.sizeBytes)).getD 0)
  perNode := status.nodeStatuses.map nodeStateToProto
  error := status.nodeStatuses.findSome? (·.error)

/-- `get_attachment_distribution`, with the substrate's answer; `none` is the panic on a bundle
without the distribution. -/
def getAttachmentDistribution (cfg : AttachmentConfig) (registry : Registry) (distributionId : String)
    (status : Except String TransferReport) :
    Option (Except ConnectError GetAttachmentDistributionResponse) :=
  if cfg.hasRoots then
    match registry.lookupDistribution distributionId with
    | none => some (.error (distributionNotFound distributionId))
    | some (_, bundle) =>
      (bundle.handles.find? (·.distributionId = distributionId)).map fun handle =>
        match status with
        | .ok status => .ok (distributionResponse bundle handle status)
        | .error e => .error ⟨.internal, "status query failed: " ++ e⟩
  else some (.error (unimplementedNoRoots "GetAttachmentDistribution"))

def bundleNotFound (bundleId : String) : ConnectError :=
  ⟨.notFound, "bundle_id `" ++ bundleId ++ "` not found"⟩

/-- `subscribe_attachment_bundle` with nothing between its two reads of the runtime; also gives
the runtime it reads from. -/
def subscribeAttachmentBundle (cfg : AttachmentConfig) (s : Bundles) (bundleId : String) :
    Except ConnectError (BundleRuntime × SubscribeStream) :=
  if cfg.hasRoots then
    match (s.runtimes.lookup bundleId).bind fun k => s.incarnations[k]? with
    | none => .error (bundleNotFound bundleId)
    | some inc => .ok (inc.runtime, (SubscribeStream.attach inc.runtime).take inc.runtime)
  else .error (unimplementedNoRoots "SubscribeAttachmentBundle")

/-! ### A stream from which nothing more comes -/

namespace SubscribeStream

/-- The frame goes out after some polls. -/
def Emits (t : SubscribeStream) (c : Channel AttachmentProgress) (p : AttachmentProgress) : Prop :=
  ∃ (polls : List Unit) (t' : SubscribeStream),
    Lts.exec (fun t _ => poll t c) t polls = some t' ∧ p ∈ t'.delivered

/-- The stream gives the frames of its copy; the channel is read. -/
structure Draining (c : Channel AttachmentProgress) (frames : List AttachmentProgress)
    (t : SubscribeStream) : Prop where
  taken : t.taken = true
  frames : t.delivered ++ t.snapshotFrames = frames
  next : t.next = c.sent.length
  room : t.terminalCount + t.snapshotFrames.length ≤ t.total
  open_of_frames : t.snapshotFrames ≠ [] → t.closed = false

variable {c : Channel AttachmentProgress} {frames : List AttachmentProgress} {t t' : SubscribeStream}

theorem Draining.frame (ht : Draining c frames t) (hframes : t.snapshotFrames = p :: rest) :
    Draining c frames ({ t with snapshotFrames := rest }.deliver p) where
  taken := ht.taken
  frames := by
    rw [← ht.frames, hframes]
    simp [deliver]
  next := ht.next
  room := by
    have hroom := ht.room
    rw [hframes, length_cons] at hroom
    simp only [deliver]
    split_ifs <;> omega
  open_of_frames hrest := by
    have hroom := ht.room
    have hpos := length_pos_iff.2 hrest
    rw [hframes, length_cons] at hroom
    simp only [deliver] at hpos ⊢
    cases p.isTerminal with
    | false => rfl
    | true =>
      simp
      omega

theorem Draining.poll (ht : Draining c frames t) (h : t.poll c = some t') : Draining c frames t' := by
  obtain ⟨-, -, hpolled⟩ := Polled.of_poll h
  have hnone : c.sent[t.next]? = none := by rw [ht.next, getElem?_eq_none le_rfl]
  cases hpolled with
  | frame hframes => exact ht.frame hframes
  | suppressed hframes hold hp | live hframes hold hp => nomatch hnone.symm.trans hp
  | lagged hframes hlag =>
    rw [ht.next, Channel.oldest] at hlag
    omega

/-- All frames of the copy go out. -/
theorem Draining.exists_drained (ht : Draining c frames t) :
    ∃ (polls : List Unit) (t' : SubscribeStream),
      Lts.exec (fun t _ => SubscribeStream.poll t c) t polls = some t' ∧ t'.delivered = frames := by
  induction hframes : t.snapshotFrames generalizing t with
  | nil => exact ⟨[], t, rfl, by rw [← ht.frames, hframes, append_nil]⟩
  | cons p rest ih =>
    obtain ⟨polls, t', hrun, hdelivered⟩ := ih (ht.frame hframes) rfl
    refine ⟨() :: polls, t', ?_, hdelivered⟩
    rw [Lts.exec_cons_eq_some]
    refine ⟨_, ?_, hrun⟩
    have hopen := ht.open_of_frames (by simp [hframes])
    simp [SubscribeStream.poll, ht.taken, hopen, hframes]

theorem length_snapshotFrames_le (slots : List PerDistributionProgress) :
    (Attachments.snapshotFrames slots).length ≤ slots.length := by
  rw [Attachments.snapshotFrames, length_map]
  exact length_filter_le _ _

theorem draining_take (h : rt.perDistribution.length = rt.totalDistributions) :
    Draining rt.progressTx (Attachments.snapshotFrames rt.perDistribution)
      ((attach rt).take rt) where
  taken := rfl
  frames := rfl
  next := rfl
  room := by
    have hle := length_snapshotFrames_le rt.perDistribution
    simp only [take, attach]
    omega
  open_of_frames hne := by
    have hle := length_snapshotFrames_le rt.perDistribution
    have hpos := length_pos_iff.2 hne
    simp only [take, attach, decide_eq_false_iff_not] at hpos ⊢
    omega

/-- **A new stream gives the last frames of the slots that have ended**, and nothing else while
nothing is sent. -/
theorem emits_iff (h : rt.perDistribution.length = rt.totalDistributions) (p : AttachmentProgress) :
    ((attach rt).take rt).Emits rt.progressTx p ↔
      ∃ slot ∈ rt.perDistribution, slot.state.isTerminal = true ∧ slot.lastProgress = p := by
  have hmem : p ∈ Attachments.snapshotFrames rt.perDistribution ↔
      ∃ slot ∈ rt.perDistribution, slot.state.isTerminal = true ∧ slot.lastProgress = p := by
    simp [Attachments.snapshotFrames, and_assoc]
  rw [← hmem]
  constructor
  · rintro ⟨polls, t', hrun, hp⟩
    have ht' := Lts.exec_preserves (Draining rt.progressTx _) (fun t _ t' ht h => ht.poll h)
      (draining_take h) hrun
    rw [← ht'.frames]
    exact mem_append_left _ hp
  · intro hp
    obtain ⟨polls, t', hrun, hdelivered⟩ := (draining_take h).exists_drained
    exact ⟨polls, t', hrun, hdelivered ▸ hp⟩

end SubscribeStream

/-! ### Statuses -/

theorem isTerminalStatus_status (state : DistributionState) :
    isTerminalStatus state.status = state.isTerminal := by
  cases state <;> rfl

theorem isTerminalStatus_bundleStatusToProto (status : BundleStatus) :
    isTerminalStatus (bundleStatusToProto status) = status.isTerminal := by
  cases status <;> rfl

theorem perNodeAggregate_ne_cancelled (perNode : List NodeTransferStatus) :
    perNodeAggregate perNode ≠ .cancelled := by
  unfold perNodeAggregate
  split_ifs <;> nofun

namespace Bundles

variable {platform : Platform} {cfg : AttachmentConfig} {s : Bundles}

/-- Both handlers answer about every distribution of the record, with the same status: a new
stream gives a terminal frame of it, and every such frame has the status of the other answer. -/
def Agree (cfg : AttachmentConfig) (s : Bundles) (bundleId : String) (rec : BundleRecord)
    (reports : String → TransferReport) : Prop :=
  ∃ rt stream, subscribeAttachmentBundle cfg s bundleId = .ok (rt, stream) ∧
    ∀ h ∈ rec.handles, ∃ response,
      getAttachmentDistribution cfg s.registry h.distributionId (.ok (reports h.distributionId)) =
        some (.ok response) ∧
      (∃ p, stream.Emits rt.progressTx p ∧ p.distributionId = h.distributionId ∧
        p.isTerminal = true) ∧
      ∀ p, stream.Emits rt.progressTx p → p.distributionId = h.distributionId → p.isTerminal = true →
        p.status = response.status

/-- The record is terminal, and so are its distributions in the runtime found. -/
def Uniform (s : Bundles) (bundleId : String) (rec : BundleRecord) : Prop :=
  rec.status.isTerminal = true ∧
    ∃ k ∈ s.runtimes.lookup bundleId, ∃ inc ∈ s.incarnations[k]?, ∀ h ∈ rec.handles,
      ∃ slot ∈ inc.runtime.perDistribution[h.fileIndex]?,
        slot.lastProgress.distributionId = h.distributionId ∧
          slot.state.status = bundleStatusToProto rec.status
deriving Decidable

variable {h : AttachmentHandleRecord}

theorem Settled.get (hs : s.Settled cfg) {rec : BundleRecord}
    (hrec : s.registry.bundles.lookup bundleId = some rec) (hh : h ∈ rec.handles)
    (report : TransferReport) :
    ∃ handle, getAttachmentDistribution cfg s.registry h.distributionId (.ok report) =
      some (.ok (distributionResponse rec handle report)) := by
  have hroots : cfg.hasRoots = true := by
    refine hs.rooted.bundles fun hnil => ?_
    have hmem := hs.filed.resident bundleId rec hrec
    simp [identities, hnil] at hmem
  have hlookup := Registry.lookupDistribution_eq_some (hs.indexed bundleId rec hrec h hh) hrec
  have hsome : (rec.handles.find? (·.distributionId = h.distributionId)).isSome = true :=
    find?_isSome.2 ⟨h, hh, by simp⟩
  obtain ⟨handle, hfind⟩ := Option.isSome_iff_exists.1 hsome
  refine ⟨handle, ?_⟩
  rw [getAttachmentDistribution, if_pos hroots, hlookup]
  simp only [hfind, Option.map_some]

/-- **A frame tells its slot**: a slot whose last frame is of a distribution has its file index,
and is of its own bundle unless the frame came with a cancellation. -/
theorem Settled.slot_of_frame (hs : s.Settled cfg) (hown : own ∈ s.incarnations)
    (hinc : inc ∈ s.incarnations) (hh : h ∈ own.handles)
    (hslot : inc.runtime.perDistribution[j]? = some slot)
    (hid : slot.lastProgress.distributionId = h.distributionId) :
    j = h.fileIndex ∧ (inc = own ∨ slot.state = .cancelled) := by
  obtain ⟨b, hb, h', hh', hindex, hframe, hsource⟩ := (hs.framed inc hinc j slot hslot).source
  obtain ⟨other, hother, rfl⟩ := mem_map.1 hb
  obtain ⟨k, hk⟩ := getElem?_of_mem hown
  obtain ⟨k', hk'⟩ := getElem?_of_mem hother
  have hd : h.distributionId ∈ own.ids := mem_map_of_mem hh
  have hd' : h.distributionId ∈ other.ids := by
    rw [← hid, ← hframe]
    exact mem_map_of_mem hh'
  obtain rfl := hs.filed.unique hk hk' hd hd'
  cases hk.symm.trans hk'
  have hsame : h' = h := inj_on_of_nodup_map (hs.filed.nodup_ids hown) hh' hh (hframe.trans hid)
  refine ⟨by rw [← hindex, hsame], hsource.imp_left fun hhandles => ?_⟩
  exact (hs.filed.inc_eq_of_handles hown hinc hhandles).symm

theorem subscribe_eq_ok (hroots : cfg.hasRoots = true) :
    subscribeAttachmentBundle cfg s bundleId = .ok (rt, stream) ↔
      ∃ k inc, s.runtimes.lookup bundleId = some k ∧ s.incarnations[k]? = some inc ∧
        inc.runtime = rt ∧ (SubscribeStream.attach rt).take rt = stream := by
  rw [subscribeAttachmentBundle, if_pos hroots]
  constructor
  · intro h
    split at h
    · nomatch h
    · next inc hfound =>
      obtain ⟨k, hk, hinc⟩ := Option.bind_eq_some_iff.1 hfound
      cases h
      exact ⟨k, inc, hk, hinc, rfl, rfl⟩
  · rintro ⟨k, inc, hk, hinc, rfl, rfl⟩
    rw [hk, Option.bind_some, hinc]

/-- The terminal frame of a distribution in a new stream is the last one of the slot with its file
index, if that has ended and is its own. -/
theorem Settled.emits_terminal_iff (hs : s.Settled cfg) (hown : own ∈ s.incarnations)
    (hinc : inc ∈ s.incarnations) (hh : h ∈ own.handles) (p : AttachmentProgress) :
    (((SubscribeStream.attach inc.runtime).take inc.runtime).Emits inc.runtime.progressTx p ∧
        p.distributionId = h.distributionId ∧ p.isTerminal = true) ↔
      ∃ slot, inc.runtime.perDistribution[h.fileIndex]? = some slot ∧ slot.state.isTerminal = true ∧
        slot.lastProgress = p ∧ p.distributionId = h.distributionId := by
  obtain ⟨htotal, hlength⟩ := hs.counted.sized inc hinc
  rw [SubscribeStream.emits_iff (hlength.trans htotal.symm)]
  constructor
  · rintro ⟨⟨slot, hslot, hended, rfl⟩, hid, -⟩
    obtain ⟨j, hj⟩ := getElem?_of_mem hslot
    obtain ⟨rfl, -⟩ := hs.slot_of_frame hown hinc hh hj hid
    exact ⟨slot, hj, hended, rfl, hid⟩
  · rintro ⟨slot, hslot, hended, rfl, hid⟩
    refine ⟨⟨slot, mem_of_getElem? hslot, hended, rfl⟩, hid, ?_⟩
    rw [AttachmentProgress.isTerminal, (hs.framed inc hinc _ slot hslot).status,
      isTerminalStatus_status, hended]

theorem Settled.ended (hs : s.Settled cfg) (hinc : inc ∈ s.incarnations)
    (h : ∀ h ∈ inc.handles, ∃ slot, inc.runtime.perDistribution[h.fileIndex]? = some slot ∧
      slot.state.isTerminal = true) : inc.runtime.Ended := by
  intro slot hslot
  obtain ⟨j, hj⟩ := getElem?_of_mem hslot
  have hlt : j < inc.handles.length := by
    rw [← (hs.counted.sized inc hinc).2]
    exact (List.getElem?_eq_some_iff.1 hj).1
  have hnumbered : inc.handles.map AttachmentHandleRecord.fileIndex = List.range inc.handles.length :=
    (hs.filed.numbered _ (mem_identities hinc)).2
  have hindex : j ∈ inc.handles.map AttachmentHandleRecord.fileIndex := by
    rw [hnumbered]
    exact mem_range.2 hlt
  obtain ⟨handle, hhandle, rfl⟩ := mem_map.1 hindex
  obtain ⟨slot', hslot', hended⟩ := h handle hhandle
  cases hj.symm.trans hslot'
  exact hended

/-- **The two handlers agree on a bundle exactly if it is uniform**, in every reachable state in
which nothing works on a bundle, whatever the peers report. -/
theorem get_subscribe_agree_iff (platform : Platform) (cfg : AttachmentConfig) (s : Bundles)
    (bundleId : String) (rec : BundleRecord) (reports : String → TransferReport)
    (hs : s.Reachable platform cfg) (hquiet : s.Quiescent)
    (hrec : s.registry.bundles.lookup bundleId = some rec) :
    s.Agree cfg bundleId rec reports ↔ s.Uniform bundleId rec := by
  have hsettled := settled_of_reachable hs
  obtain ⟨own, hown, hidentity⟩ := mem_map.1 (hsettled.filed.resident bundleId rec hrec)
  obtain ⟨hbundle, hhandles⟩ := Prod.mk.inj hidentity
  have hroots : cfg.hasRoots = true := hsettled.rooted.bundles (ne_nil_of_mem hown)
  constructor
  · rintro ⟨rt, stream, hsubscribe, hall⟩
    obtain ⟨k, inc, hk, hinc, rfl, rfl⟩ := (subscribe_eq_ok hroots).1 hsubscribe
    have hmem := mem_of_getElem? hinc
    have hslots : ∀ h ∈ rec.handles, ∃ slot, inc.runtime.perDistribution[h.fileIndex]? = some slot ∧
        slot.state.isTerminal = true ∧ slot.lastProgress.distributionId = h.distributionId ∧
        slot.state.status = if rec.status.isTerminal then bundleStatusToProto rec.status
          else perNodeAggregate (reports h.distributionId).nodeStatuses := by
      intro h hh
      obtain ⟨handle, hget⟩ := hsettled.get hrec hh (reports h.distributionId)
      obtain ⟨response, hresponse, ⟨p, hp⟩, hsame⟩ := hall h hh
      cases Option.some.inj (hget.symm.trans hresponse)
      obtain ⟨slot, hslot, hended, rfl, hid⟩ :=
        (hsettled.emits_terminal_iff hown hmem (hhandles ▸ hh) p).1 hp
      refine ⟨slot, hslot, hended, hid, ?_⟩
      rw [← (hsettled.framed inc hmem _ slot hslot).status]
      exact hsame _ hp.1 hp.2.1 hp.2.2
    -- A status that comes from the peers is not that of a cancellation, so the frames
    -- are those of the bundle's own runtime; all its distributions have ended, and
    -- someone has said so.
    have hterminal : rec.status.isTerminal = true := by
      by_contra hopen
      obtain ⟨h, hh⟩ := exists_mem_of_ne_nil _ (hsettled.filed.numbered _ (mem_identities hown)).1
      obtain ⟨slot, hslot, -, hid, hstatus⟩ := hslots h (hhandles ▸ hh)
      have hpeers : slot.state ≠ .cancelled := by
        intro hcancelled
        rw [if_neg hopen, hcancelled] at hstatus
        exact perNodeAggregate_ne_cancelled _ hstatus.symm
      obtain rfl := (hsettled.slot_of_frame hown hmem hh hslot hid).2.resolve_right hpeers
      have hended : inc.runtime.Ended := hsettled.ended hmem fun h hh => by
        obtain ⟨slot, hslot, hended, -⟩ := hslots h (hhandles ▸ hh)
        exact ⟨slot, hslot, hended⟩
      exact hopen (hsettled.over hquiet hmem hended rec (hbundle ▸ hrec) hhandles.symm)
    refine ⟨hterminal, k, hk, inc, hinc, fun h hh => ?_⟩
    obtain ⟨slot, hslot, -, hid, hstatus⟩ := hslots h hh
    rw [if_pos hterminal] at hstatus
    exact ⟨slot, hslot, hid, hstatus⟩
  · rintro ⟨hterminal, k, hk, inc, hinc, hslots⟩
    have hmem := mem_of_getElem? hinc
    refine ⟨_, _, (subscribe_eq_ok hroots).2 ⟨k, inc, hk, hinc, rfl, rfl⟩, fun h hh => ?_⟩
    obtain ⟨handle, hget⟩ := hsettled.get hrec hh (reports h.distributionId)
    obtain ⟨slot, hslot, hid, hstatus⟩ := hslots h hh
    have hemits := hsettled.emits_terminal_iff hown hmem (hhandles ▸ hh)
    have hframe := (hsettled.framed inc hmem _ slot hslot).status
    have hended : slot.state.isTerminal = true := by
      rw [← isTerminalStatus_status, hstatus, isTerminalStatus_bundleStatusToProto, hterminal]
    refine ⟨_, hget, ⟨_, (hemits _).2 ⟨slot, hslot, hended, rfl, hid⟩⟩, fun p hp hpid hpended => ?_⟩
    obtain ⟨slot', hslot', -, rfl, -⟩ := (hemits p).1 ⟨hp, hpid, hpended⟩
    cases hslot.symm.trans hslot'
    rw [hframe, hstatus, distributionResponse, if_pos hterminal]

/-! ### Two files that end alike, or not -/

/-- The second distribution ends, and with it the bundle. -/
def secondEnds (status : Except String TransferReport) : List BundlesLabel :=
  [.watch 0 1 (.status status), .watch 0 1 .update, .watch 0 1 .update, .watch 0 1 .update,
    .watch 0 1 .finalize, .watcherStatus 0 1 1]

theorem completed_agree : ∃ s ∈ Lts.exec (step byContent plainConfig) (init ∅)
        (pairSent ++ firstCompletes ++ secondEnds (.ok ⟨0, [], true⟩)),
      ∃ rec ∈ s.registry.bundles.lookup "bundle",
        (rec.handles.length = 2 ∧ s.Quiescent ∧ s.Uniform "bundle" rec) ∧
        ∀ reports, s.Agree plainConfig "bundle" rec reports :=
  Lts.exists_mem_mem_and (by decide +kernel) fun s rec hrun hrec ⟨_, hquiet, huniform⟩ reports =>
    (get_subscribe_agree_iff byContent plainConfig s "bundle" rec reports ⟨∅, _, hrun⟩ hquiet
      hrec).2 huniform

/-- **A distribution that has completed is reported as failed**, because another one of
its bundle has; a new stream says that it has completed. -/
theorem completed_and_failed : ∃ s ∈ Lts.exec (step byContent plainConfig) (init ∅)
        (pairSent ++ firstCompletes ++ secondEnds (.error "gone")),
      s.Quiescent ∧ ∃ rec ∈ s.registry.bundles.lookup "bundle", ∀ reports,
        ¬ s.Agree plainConfig "bundle" rec reports := by
  have hend : ∃ s ∈ Lts.exec (step byContent plainConfig) (init ∅)
      (pairSent ++ firstCompletes ++ secondEnds (.error "gone")),
      s.Quiescent ∧ ∃ rec ∈ s.registry.bundles.lookup "bundle", rec.status = .failed ∧
        ∃ h ∈ rec.handles, s.registry.lookupDistribution h.distributionId = some ("bundle", rec) ∧
        ∃ r ∈ (subscribeAttachmentBundle plainConfig s "bundle").toOption,
        ∃ t ∈ Lts.exec (fun t (_ : Unit) => SubscribeStream.poll t r.1.progressTx) r.2 [()],
        ∃ p ∈ t.delivered, p.distributionId = h.distributionId ∧ p.status = .completed := by
    decide +kernel
  obtain ⟨s, hrun, hquiet, rec, hrec, hfailed, h, hh, hlookup, r, hr, t, ht, p, hp, hid, hcompleted⟩ :=
    hend
  refine ⟨s, hrun, hquiet, rec, hrec, ?_⟩
  rintro reports ⟨rt, stream, hsubscribe, hall⟩
  rw [hsubscribe] at hr
  cases hr
  obtain ⟨response, hget, -, hsame⟩ := hall h hh
  have hroots : plainConfig.hasRoots = true := rfl
  rw [getAttachmentDistribution, if_pos hroots, hlookup] at hget
  obtain ⟨handle, -, hanswer⟩ := Option.map_eq_some_iff.1 hget
  cases hanswer
  have hterminal : p.isTerminal = true := by
    rw [AttachmentProgress.isTerminal, hcompleted]
    rfl
  have hstatus := hsame p ⟨[()], t, ht, hp⟩ hid hterminal
  rw [hcompleted, distributionResponse, hfailed] at hstatus
  cases hstatus

end Bundles

end PeatNode.Attachments
