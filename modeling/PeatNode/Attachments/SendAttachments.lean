/-
# Sending a bundle

`send_attachments` of `src/attachments/handlers.rs`, cut where it touches what it shares with the
other requests:

| state | next section |
| --- | --- |
| `received` | `has_roots` and `validate_request` |
| `validated` | the concurrency cap |
| `admitted` | the bundle id and the first phase of `check_resubmit` |
| `probed` | the second phase of `check_resubmit` |
| `fresh` | the snapshot at the start of `ingest_bundle` |
| `ingesting` | one await of `ingest_bundle` |
| `ingested` | the insert into the table |

`SendAttachments` puts any number of requests over one table and one store.
-/

import PeatNode.Attachments.Registry

namespace PeatNode.Attachments

open Option

structure AttachmentHandle where
  fileIndex : UInt32
  blobToken : String
  distributionId : String
deriving DecidableEq

structure SendAttachmentsResponse where
  bundleId : String
  handles : List AttachmentHandle
deriving DecidableEq

def unimplementedNoRoots (rpc : String) : ConnectError :=
  ⟨.unimplemented, rpc ++ " requires --attachment-root to be configured"⟩

def capReached (cfg : AttachmentConfig) : ConnectError :=
  ⟨.resourceExhausted, "max_concurrent_distributions=" ++ toString cfg.maxConcurrentDistributions ++
    " reached; try again later or set --attachment-queue-when-full"⟩

def bundleConflict (platform : Platform) (bundleId : String) (createdAt : SystemTime) : ConnectError :=
  ⟨.alreadyExists, "bundle_id `" ++ bundleId ++ "` already exists (created_at=" ++
    platform.debugTime createdAt ++ ") with a different FileSpec set"⟩

def buildHandleRecord (request : SendAttachmentsRequest) (ib : IngestedBlob) :
    Option AttachmentHandleRecord :=
  (request.files[ib.fileIndex]?).map fun original =>
    { fileIndex := ib.fileIndex
      blobTokenHash := ib.blobToken.hash
      distributionHandle := ib.distributionHandle
      contentType := original.contentType
      displayName := original.displayName }

/-- `none` is the panic on an unknown file index. -/
def buildHandleRecords (request : SendAttachmentsRequest) (ingested : List IngestedBlob) :
    Option (List AttachmentHandleRecord) :=
  ingested.mapM (buildHandleRecord request)

def buildHandle (h : AttachmentHandleRecord) : AttachmentHandle :=
  ⟨UInt32.ofNat h.fileIndex, h.blobTokenHash, h.distributionId⟩

def buildResponse (bundleId : String) (handles : List AttachmentHandleRecord) :
    SendAttachmentsResponse :=
  ⟨bundleId, handles.map buildHandle⟩

def cliPriorityToProto : AttachmentPriorityCli → AttachmentPriority
  | .bulk => .bulk
  | .low => .low
  | .routine => .routine
  | .priority => .priority
  | .critical => .critical

def protoPriorityToTransfer (priority : Option AttachmentPriority)
    (fallback : AttachmentPriorityCli) : TransferPriority :=
  let resolved := match priority with
    | none | some .unspecified => cliPriorityToProto fallback
    | some known => known
  match resolved with
  | .bulk | .low => .low
  | .routine => .normal
  | .priority => .high
  | .critical => .critical
  | .unspecified => .normal

/-- The caller's id, or the minted one. -/
def bundleIdFor (request : SendAttachmentsRequest) (uuid : String) : String :=
  match request.bundleId with
  | none => uuid
  | some id => if id = "" then uuid else id

/-! ### One request -/

/-- What the requests of a node share. -/
structure Sidecar where
  registry : Registry
  store : Store

inductive SendPc
  | received
  | validated (v : ValidatedBundle)
  | admitted (v : ValidatedBundle)
  | probed (bundleId : String) (v : ValidatedBundle)
  | fresh (bundleId : String) (v : ValidatedBundle)
  | ingesting (bundleId : String) (identity : BundleIdentity) (c : IngestCall)
  | ingested (bundleId : String) (identity : BundleIdentity) (blobs : List IngestedBlob)
  | returned (result : Except ConnectError SendAttachmentsResponse)

def SendPc.result : SendPc → Option (Except ConnectError SendAttachmentsResponse)
  | .returned result => some result
  | .received | .validated _ | .admitted _ | .probed .. | .fresh .. | .ingesting .. | .ingested .. => none

theorem SendPc.eq_returned {pc : SendPc} {result : Except ConnectError SendAttachmentsResponse}
    (h : pc.result = some result) : pc = .returned result := by
  cases pc with
  | returned r => rw [some.inj h]
  | received | validated | admitted | probed | fresh | ingesting | ingested => simp [SendPc.result] at h

structure SendCall where
  request : SendAttachmentsRequest
  pc : SendPc

inductive SendLabel
  | validate (fs : FileSystem)
  | checkCap
  | probe (uuid : String)
  | recheck (now : SystemTime)
  | snapshot
  | ingest (label : IngestLabel)
  | record (now : SystemTime) (victim : String)

namespace SendCall

def goto (call : SendCall) (pc : SendPc) : SendCall := { call with pc := pc }

/-- An error leaves `send_attachments` at once. -/
def settle (bundleId : String) (identity : BundleIdentity) (c : IngestCall) : SendPc :=
  match c.pc with
  | .returned (.error e) => .returned (.error e)
  | .returned (.ok blobs) => .ingested bundleId identity blobs
  | .ingesting .. | .mismatched .. | .distributing .. | .rollingBack .. =>
    .ingesting bundleId identity c

variable (platform : Platform) (cfg : AttachmentConfig)

def afterLookup (bundleId : String) (v : ValidatedBundle) : BundleLookup → SendPc
  | .idempotent existing => .returned (.ok (buildResponse bundleId existing.handles))
  | .conflict createdAt => .returned (.error (bundleConflict platform bundleId createdAt))
  | .notFound => .fresh bundleId v

def afterValidate (fs : FileSystem) (request : SendAttachmentsRequest) : SendPc :=
  if cfg.hasRoots then
    match validateRequest platform cfg fs request with
    | .ok v => .validated v
    | .error e => .returned (.error e)
  else .returned (.error (unimplementedNoRoots "SendAttachments"))

/-- Not refused for the bundles in flight. -/
def Admits (registry : Registry) : Prop :=
  cfg.queueWhenFull = true ∨ registry.nonTerminalCount < cfg.maxConcurrentDistributions
deriving Decidable

def advance (n : Sidecar) (call : SendCall) (label : SendLabel) : Option (Sidecar × SendCall) :=
  match call.pc, label with
  | .received, .validate fs => some (n, call.goto (afterValidate platform cfg fs call.request))
  | .validated v, .checkCap =>
    some (n, call.goto
      (if Admits cfg n.registry then .admitted v else .returned (.error (capReached cfg))))
  | .admitted v, .probe uuid =>
    -- a UUID is never empty
    if uuid = "" then none
    else
      let bundleId := bundleIdFor call.request uuid
      match n.registry.probe bundleId (.fromValidated v.files) with
      | some lookup => some (n, call.goto (afterLookup platform bundleId v lookup))
      | none => some (n, call.goto (.probed bundleId v))
  | .probed bundleId v, .recheck now =>
    let r := n.registry.recheck bundleId (.fromValidated v.files) now
    some ({ n with registry := r.2 }, call.goto (afterLookup platform bundleId v r.1))
  | .fresh bundleId v, .snapshot =>
    let priority := protoPriorityToTransfer call.request.priority cfg.defaultPriority
    some (n, call.goto
      (settle bundleId (.fromValidated v.files) (IngestCall.start n.store v priority)))
  | .ingesting bundleId identity c, .ingest l =>
    (IngestCall.advance platform n.store c l).map fun r =>
      ({ n with store := r.1 }, call.goto (settle bundleId identity r.2))
  | .ingested bundleId identity blobs, .record now victim =>
    (buildHandleRecords call.request blobs).bind fun handles =>
      (n.registry.insert cfg.maxKnownBundles (.new bundleId identity handles now) victim).map
        fun registry =>
          ({ n with registry := registry },
            call.goto (.returned (.ok (buildResponse bundleId handles))))
  | _, _ => none

def step (s : Sidecar × SendCall) (label : SendLabel) : Option (Sidecar × SendCall) :=
  advance platform cfg s.1 s.2 label

/-! ### The turns of a request -/

inductive Turn (n : Sidecar) (call : SendCall) : SendLabel → Sidecar → SendCall → Prop
  | validate (hpc : call.pc = .received) (fs : FileSystem) :
      Turn n call (.validate fs) n (call.goto (afterValidate platform cfg fs call.request))
  | cap (hpc : call.pc = .validated v) :
      Turn n call .checkCap n (call.goto
        (if Admits cfg n.registry then .admitted v else .returned (.error (capReached cfg))))
  | decided (hpc : call.pc = .admitted v) {uuid : String} (huuid : uuid ≠ "")
      {lookup : BundleLookup}
      (hprobe : n.registry.probe (bundleIdFor call.request uuid) (.fromValidated v.files) =
        some lookup) :
      Turn n call (.probe uuid) n
        (call.goto (afterLookup platform (bundleIdFor call.request uuid) v lookup))
  | undecided (hpc : call.pc = .admitted v) {uuid : String} (huuid : uuid ≠ "")
      (hprobe : n.registry.probe (bundleIdFor call.request uuid) (.fromValidated v.files) = none) :
      Turn n call (.probe uuid) n (call.goto (.probed (bundleIdFor call.request uuid) v))
  | recheck (hpc : call.pc = .probed bundleId v)
      (now : SystemTime) :
      Turn n call (.recheck now)
        { n with registry := (n.registry.recheck bundleId (.fromValidated v.files) now).2 }
        (call.goto (afterLookup platform bundleId v
          (n.registry.recheck bundleId (.fromValidated v.files) now).1))
  | snapshot (hpc : call.pc = .fresh bundleId v)
      (priority : TransferPriority) :
      Turn n call .snapshot n (call.goto
        (settle bundleId (.fromValidated v.files) (IngestCall.start n.store v priority)))
  | ingest (hpc : call.pc = .ingesting bundleId identity c) {l : IngestLabel} {w' : Store}
      (hturn : IngestCall.Turn n.store c l w' c') :
      Turn n call (.ingest l) { n with store := w' } (call.goto (settle bundleId identity c'))
  | record (hpc : call.pc = .ingested bundleId identity blobs) {now : SystemTime} {victim : String}
      {handles : List AttachmentHandleRecord}
      (hhandles : buildHandleRecords call.request blobs = some handles) {registry : Registry}
      (hinsert : n.registry.insert cfg.maxKnownBundles (.new bundleId identity handles now) victim =
        some registry) :
      Turn n call (.record now victim) { n with registry := registry }
        (call.goto (.returned (.ok (buildResponse bundleId handles))))

variable {platform cfg} {n n' : Sidecar} {call call' : SendCall} {label : SendLabel}

theorem Turn.of_advance (h : advance platform cfg n call label = some (n', call')) :
    Turn platform cfg n call label n' call' := by
  unfold advance at h
  split at h
  case h_6 hpc =>
    obtain ⟨⟨w', c'⟩, hadvance, hr⟩ := map_eq_some_iff.1 h
    cases hr
    exact .ingest hpc (.of_advance hadvance)
  case h_7 hpc =>
    obtain ⟨handles, hhandles, h⟩ := bind_eq_some_iff.1 h
    obtain ⟨registry, hinsert, hr⟩ := map_eq_some_iff.1 h
    cases hr
    exact .record hpc hhandles hinsert
  all_goals grind [Turn]

theorem Turn.request (h : Turn platform cfg n call label n' call') :
    call'.request = call.request := by
  cases h <;> rfl

end SendCall

/-! ### The requests of a node -/

/-- A node and its requests, in the order of their arrival. -/
structure SendAttachments where
  node : Sidecar
  calls : List SendCall

inductive SendAttachmentsLabel
  | arrive (request : SendAttachmentsRequest)
  | advance (i : ℕ) (label : SendLabel)
  -- the watchers, the sweeper and the other handlers
  | updateStatus (bundleId : String) (status : BundleStatus) (now : SystemTime)
  | evictExpired (now : SystemTime)
  | get (bundleId : String) (now : SystemTime)
  | cancel (distributionId : String)
  -- what else puts blobs in and takes them out
  | changeBlobs (blobs : Finset BlobHash)

namespace Store

def cancel (w : Store) (distributionId : String) : Store :=
  { w with
    distributions := w.distributions.map fun d =>
      if d.handle.distributionId = distributionId then { d with cancelled := true } else d }

end Store

namespace SendAttachments

def init (blobs : Finset BlobHash) : SendAttachments := ⟨⟨.empty, ⟨blobs, []⟩⟩, []⟩

variable (platform : Platform) (cfg : AttachmentConfig)

def step (s : SendAttachments) : SendAttachmentsLabel → Option SendAttachments
  | .arrive request => some { s with calls := s.calls ++ [⟨request, .received⟩] }
  | .advance i label =>
    match s.calls[i]? with
    | none => none
    | some call =>
      (SendCall.advance platform cfg s.node call label).map fun r => ⟨r.1, s.calls.set i r.2⟩
  | .updateStatus bundleId status now =>
    some { s with node.registry := s.node.registry.updateStatus bundleId status now }
  | .evictExpired now =>
    some { s with node.registry := s.node.registry.evictExpired cfg.handleRetentionSecs now }
  | .get bundleId now => some { s with node.registry := (s.node.registry.get bundleId now).2 }
  | .cancel distributionId => some { s with node.store := s.node.store.cancel distributionId }
  | .changeBlobs blobs => some { s with node.store.blobs := blobs }

def Reachable (s : SendAttachments) : Prop :=
  ∃ blobs labels, Lts.exec (step platform cfg) (init blobs) labels = some s

variable {platform cfg} {s s' : SendAttachments}

theorem turn_of_step (h : step platform cfg s (.advance i label) = some s') :
    ∃ call n' call', s.calls[i]? = some call ∧
      SendCall.Turn platform cfg s.node call label n' call' ∧ s' = ⟨n', s.calls.set i call'⟩ := by
  simp only [step] at h
  split at h
  · simp at h
  · rename_i call hcall
    obtain ⟨⟨n', call'⟩, hadvance, rfl⟩ := map_eq_some_iff.1 h
    exact ⟨call, n', call', hcall, .of_advance hadvance, rfl⟩

end SendAttachments

def plainConfig : AttachmentConfig where
  roots := [("outbox", [47])]
  maxFileBytes := 100
  maxBundleBytes := 100
  maxFilesPerBundle := 4
  maxNodeListLen := 4
  maxConcurrentDistributions := 1
  queueWhenFull := false
  defaultPriority := .routine
  handleRetentionSecs := 0
  maxKnownBundles := 4

theorem exists_validated {platform : Platform} {cfg : AttachmentConfig} {fs : FileSystem}
    {request : SendAttachmentsRequest}
    (h : (validateRequest platform cfg fs request).isOk = true) :
    ∃ v, validateRequest platform cfg fs request = .ok v := by
  cases hv : validateRequest platform cfg fs request with
  | ok v => exact ⟨v, rfl⟩
  | error e => simp [hv, Except.isOk, Except.toBool] at h

def emptyFiles : FileSystem := ⟨fun path => .ok path, fun _ => .ok ⟨true, 0⟩⟩

end PeatNode.Attachments
