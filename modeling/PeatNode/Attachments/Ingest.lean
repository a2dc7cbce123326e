/-
# Ingesting a bundle

`ingest_bundle` of `src/attachments/ingest.rs`, cut at its await points.  A call takes a snapshot
of the local blobs, streams every file into the store, starts one distribution per file and, on
the first failure, deletes what it has put in, except the blobs of the snapshot.

| state | what is awaited |
| --- | --- |
| `ingesting` | `create_blob_from_stream` |
| `mismatched` | `delete_blob` of a blob whose SHA-256 is not the declared one |
| `distributing` | `distribute` |
| `rollingBack` | `delete_blob` of a blob this call has put in |

The store is content-addressed: a blob is its hash.  A label carries what was answered.
-/

import PeatNode.Attachments.Validate
import PeatNode.Lib.Lts

namespace PeatNode.Attachments

open UnixPath List

/-! ### Blobs and distributions -/

abbrev BlobHash := String

structure BlobMetadata where
  name : Option String
  contentType : Option String
deriving DecidableEq

def buildBlobMetadata (file : ValidatedFile) : BlobMetadata :=
  ⟨file.displayName.or (some file.relativePath), file.contentType⟩

structure BlobToken where
  hash : BlobHash
  sizeBytes : ℕ
  metadata : BlobMetadata
deriving DecidableEq

inductive TransferPriority
  | critical
  | high
  | normal
  | low
deriving DecidableEq

inductive DistributionScope
  | allNodes
  | nodes (nodeIds : List String)
deriving DecidableEq

def scopeToProtocol : ValidatedScope → DistributionScope
  | .allNodes => .allNodes
  | .nodeList nodeIds => .nodes nodeIds

structure DistributionHandle where
  distributionId : String
  blobHash : BlobHash
  scope : DistributionScope
  priority : TransferPriority
deriving DecidableEq

structure IngestedBlob where
  fileIndex : ℕ
  blobToken : BlobToken
  distributionHandle : DistributionHandle
deriving DecidableEq

/-- A distribution that was started; only `cancel` ends it from this side. -/
structure Distribution where
  handle : DistributionHandle
  cancelled : Bool
deriving DecidableEq

/-- The local blobs and the distributions of a node. -/
structure Store where
  blobs : Finset BlobHash
  distributions : List Distribution
deriving DecidableEq

namespace Store

def createBlob (w : Store) (hash : BlobHash) : Store := { w with blobs := insert hash w.blobs }

/-- It may fail, and then deletes nothing. -/
def deleteBlob (w : Store) (deleted : Bool) (hash : BlobHash) : Store :=
  if deleted then { w with blobs := w.blobs.erase hash } else w

def startDistribution (w : Store) (handle : DistributionHandle) : Store :=
  { w with distributions := w.distributions ++ [⟨handle, false⟩] }

def running (w : Store) : List DistributionHandle :=
  (w.distributions.filter fun d => !d.cancelled).map Distribution.handle

def issued (w : Store) : List String := w.distributions.map fun d => d.handle.distributionId

/-- Creating a blob puts it in. -/
@[simp] theorem blobs_createBlob (w : Store) (hash : BlobHash) :
    (w.createBlob hash).blobs = insert hash w.blobs := rfl

@[simp] theorem distributions_createBlob (w : Store) (hash : BlobHash) :
    (w.createBlob hash).distributions = w.distributions := rfl

/-- A deletion that succeeds takes the blob out. -/
@[simp] theorem blobs_deleteBlob_true (w : Store) (hash : BlobHash) :
    (w.deleteBlob true hash).blobs = w.blobs.erase hash := rfl

@[simp] theorem deleteBlob_false (w : Store) (hash : BlobHash) : w.deleteBlob false hash = w := rfl

/-- Deleting a blob leaves the distributions alone. -/
@[simp] theorem distributions_deleteBlob (w : Store) (deleted : Bool) (hash : BlobHash) :
    (w.deleteBlob deleted hash).distributions = w.distributions := by
  cases deleted <;> rfl

@[simp] theorem blobs_startDistribution (w : Store) (handle : DistributionHandle) :
    (w.startDistribution handle).blobs = w.blobs := rfl

/-- A started distribution runs. -/
@[simp] theorem running_startDistribution (w : Store) (handle : DistributionHandle) :
    (w.startDistribution handle).running = w.running ++ [handle] := by
  simp [running, startDistribution]

/-- A started distribution is issued. -/
@[simp] theorem issued_startDistribution (w : Store) (handle : DistributionHandle) :
    (w.startDistribution handle).issued = w.issued ++ [handle.distributionId] := by
  simp [issued, startDistribution]

/-- What runs is read off the distributions. -/
theorem running_congr {w w' : Store} (h : w'.distributions = w.distributions) :
    w'.running = w.running := by
  rw [running, running, h]

/-- What was issued is read off the distributions. -/
theorem issued_congr {w w' : Store} (h : w'.distributions = w.distributions) :
    w'.issued = w.issued := by
  rw [issued, issued, h]

end Store

/-! ### One call -/

inductive IngestPc
  | ingesting (file : ValidatedFile) (rest : List ValidatedFile)
  | mismatched (file : ValidatedFile) (token : BlobToken)
  | distributing (file : ValidatedFile) (token : BlobToken) (rest : List (ValidatedFile × BlobToken))
  | rollingBack (token : BlobToken) (rest : List BlobToken) (error : ConnectError)
  | returned (result : Except ConnectError (List IngestedBlob))

/-- The call can only return an error any more. -/
def IngestPc.failing : IngestPc → Bool
  | .mismatched .. | .rollingBack .. | .returned (.error _) => true
  | .ingesting .. | .distributing .. | .returned (.ok _) => false

def IngestPc.deleting : IngestPc → Option BlobHash
  | .mismatched _ token | .rollingBack token _ _ => some token.hash
  | .ingesting .. | .distributing .. | .returned _ => none

def IngestPc.returnedHandles : IngestPc → List IngestedBlob
  | .returned (.ok handles) => handles
  | .ingesting .. | .mismatched .. | .distributing .. | .rollingBack .. | .returned (.error _) => []

def IngestPc.isReturned : IngestPc → Bool
  | .returned _ => true
  | .ingesting .. | .mismatched .. | .distributing .. | .rollingBack .. => false

structure IngestCall where
  validated : ValidatedBundle
  priority : TransferPriority
  preExisting : Finset BlobHash
  created : List BlobToken
  handles : List IngestedBlob
  pc : IngestPc

/-- What reading a file through the store came to. -/
inductive FileRead
  | openFailed (error : String)
  | streamFailed (error : String)
  | content (bytes : List UInt8)

inductive IngestLabel
  | read (outcome : FileRead)
  | delete (deleted : Bool)
  | distribute (outcome : Except String String)

namespace IngestCall

/-- Phase 2: the next file, or the return. -/
def distributeNext (c : IngestCall) : List (ValidatedFile × BlobToken) → IngestCall
  | [] => { c with pc := .returned (.ok c.handles) }
  | (file, token) :: rest => { c with pc := .distributing file token rest }

/-- Phase 1: the next file, or phase 2. -/
def ingestNext (c : IngestCall) : List ValidatedFile → IngestCall
  | [] => c.distributeNext (c.validated.files.zip c.created)
  | file :: rest => { c with pc := .ingesting file rest }

/-- The next blob to delete, or the return. -/
def rollbackNext (c : IngestCall) (error : ConnectError) : List BlobToken → IngestCall
  | [] => { c with pc := .returned (.error error) }
  | token :: rest => { c with pc := .rollingBack token rest error }

/-- The blobs of the snapshot are passed over. -/
def rollback (c : IngestCall) (error : ConnectError) : IngestCall :=
  c.rollbackNext error (c.created.filter fun token => token.hash ∉ c.preExisting)

/-- `ingest_bundle` up to its first await. -/
def start (w : Store) (validated : ValidatedBundle) (priority : TransferPriority) : IngestCall :=
  IngestCall.ingestNext
    { validated := validated
      priority := priority
      preExisting := w.blobs
      created := []
      handles := []
      pc := .returned (.ok []) }
    validated.files

def push (c : IngestCall) (token : BlobToken) : IngestCall :=
  { c with created := c.created ++ [token] }

def mismatch (c : IngestCall) (file : ValidatedFile) (token : BlobToken) : IngestCall :=
  { c with pc := .mismatched file token }

def pushHandle (c : IngestCall) (blob : IngestedBlob) : IngestCall :=
  { c with handles := c.handles ++ [blob] }

def handleFor (c : IngestCall) (token : BlobToken) (distributionId : String) : DistributionHandle :=
  ⟨distributionId, token.hash, scopeToProtocol c.validated.scope, c.priority⟩

def fileError (code : ErrorCode) (file : ValidatedFile) (text : String) : ConnectError :=
  ⟨code, "files[" ++ toString file.fileIndex ++ "]" ++ text⟩

variable (platform : Platform)

def openError (file : ValidatedFile) (e : String) : ConnectError :=
  fileError .invalidArgument file
    (": open `" ++ platform.display file.absolutePath ++ "` failed: " ++ e)

def streamError (file : ValidatedFile) (e : String) : ConnectError :=
  fileError .internal file (": blob ingest failed: " ++ e)

def mismatchError (file : ValidatedFile) : ConnectError :=
  fileError .invalidArgument file ".sha256: streamed hash does not match declared"

def distributeError (file : ValidatedFile) (e : String) : ConnectError :=
  fileError .internal file (": distribute failed: " ++ e)

/-- The token of a file's bytes. -/
def tokenFor (file : ValidatedFile) (bytes : List UInt8) : BlobToken :=
  ⟨platform.contentHash bytes, bytes.length, buildBlobMetadata file⟩

def advance (w : Store) (c : IngestCall) (label : IngestLabel) : Option (Store × IngestCall) :=
  match c.pc, label with
  | .ingesting file _, .read (.openFailed e) =>
    some (w, c.rollback (openError platform file e))
  | .ingesting file _, .read (.streamFailed e) =>
    some (w, c.rollback (streamError file e))
  | .ingesting file rest, .read (.content bytes) =>
    let token := tokenFor platform file bytes
    if Sha256.hash bytes = file.sha256.1 then
      some (w.createBlob token.hash, (c.push token).ingestNext rest)
    else some (w.createBlob token.hash, c.mismatch file token)
  | .mismatched file token, .delete deleted =>
    some (w.deleteBlob deleted token.hash, c.rollback (mismatchError file))
  | .distributing file token rest, .distribute (.ok distributionId) =>
    -- the protocol names every distribution by a new id
    if distributionId ∈ w.issued then none
    else
      let handle := c.handleFor token distributionId
      some (w.startDistribution handle,
        (c.pushHandle ⟨file.fileIndex, token, handle⟩).distributeNext rest)
  | .distributing file _ _, .distribute (.error e) =>
    some (w, c.rollback (distributeError file e))
  | .rollingBack token rest error, .delete deleted =>
    some (w.deleteBlob deleted token.hash, c.rollbackNext error rest)
  | _, _ => none

/-! ### The turns of a call -/

inductive Turn (w : Store) (c : IngestCall) : IngestLabel → Store → IngestCall → Prop
  | unread (hpc : c.pc = .ingesting file rest)
      (outcome : FileRead) (error : ConnectError) : Turn w c (.read outcome) w (c.rollback error)
  | stored (hpc : c.pc = .ingesting file rest)
      (outcome : FileRead) (token : BlobToken) :
      Turn w c (.read outcome) (w.createBlob token.hash) ((c.push token).ingestNext rest)
  | mismatched (hpc : c.pc = .ingesting file rest) (outcome : FileRead) (token : BlobToken) :
      Turn w c (.read outcome) (w.createBlob token.hash) (c.mismatch file token)
  | discarded (hpc : c.pc = .mismatched file token)
      (deleted : Bool) (error : ConnectError) :
      Turn w c (.delete deleted) (w.deleteBlob deleted token.hash) (c.rollback error)
  | started (hpc : c.pc = .distributing file token rest) {distributionId : String}
      (hnew : distributionId ∉ w.issued) :
      Turn w c (.distribute (.ok distributionId))
        (w.startDistribution (c.handleFor token distributionId))
        ((c.pushHandle ⟨file.fileIndex, token, c.handleFor token distributionId⟩).distributeNext
          rest)
  | unstarted (hpc : c.pc = .distributing file token rest) (e : String) (error : ConnectError) :
      Turn w c (.distribute (.error e)) w (c.rollback error)
  | deleted (hpc : c.pc = .rollingBack token rest error) (deleted : Bool) :
      Turn w c (.delete deleted) (w.deleteBlob deleted token.hash) (c.rollbackNext error rest)

variable {platform} {w w' : Store} {c c' : IngestCall} {label : IngestLabel}

/-- Every section of a call is one of the turns. -/
theorem Turn.of_advance (h : advance platform w c label = some (w', c')) :
    Turn w c label w' c' := by
  unfold advance at h
  split at h
  all_goals grind [Turn]

/-! ### What the loops leave alone -/

/-- The loop of `rollback` changes the program counter only. -/
@[simp] theorem rollbackNext_frame (c : IngestCall) (error : ConnectError) (todo : List BlobToken) :
    (c.rollbackNext error todo).preExisting = c.preExisting ∧
      (c.rollbackNext error todo).created = c.created ∧
      (c.rollbackNext error todo).handles = c.handles ∧
      (c.rollbackNext error todo).pc.failing = true := by
  cases todo <;> exact ⟨rfl, rfl, rfl, rfl⟩

/-- A rollback goes on with the same bundle. -/
theorem validated_rollbackNext (c : IngestCall) (error : ConnectError) (todo : List BlobToken) :
    (c.rollbackNext error todo).validated = c.validated := by
  cases todo <;> rfl

/-- A rollback changes the program counter only. -/
@[simp] theorem rollback_frame (c : IngestCall) (error : ConnectError) :
    (c.rollback error).preExisting = c.preExisting ∧ (c.rollback error).created = c.created ∧
      (c.rollback error).handles = c.handles ∧ (c.rollback error).pc.failing = true :=
  rollbackNext_frame c error _

/-- The loop of phase 2 changes the program counter only. -/
@[simp] theorem distributeNext_frame (c : IngestCall) (todo : List (ValidatedFile × BlobToken)) :
    (c.distributeNext todo).validated = c.validated ∧
      (c.distributeNext todo).preExisting = c.preExisting ∧
      (c.distributeNext todo).created = c.created ∧ (c.distributeNext todo).handles = c.handles ∧
      (c.distributeNext todo).pc.failing = false := by
  cases todo <;> exact ⟨rfl, rfl, rfl, rfl, rfl⟩

/-- The loop of phase 1 changes the program counter only. -/
@[simp] theorem ingestNext_frame (c : IngestCall) (todo : List ValidatedFile) :
    (c.ingestNext todo).validated = c.validated ∧ (c.ingestNext todo).preExisting = c.preExisting ∧
      (c.ingestNext todo).created = c.created ∧ (c.ingestNext todo).handles = c.handles ∧
      (c.ingestNext todo).pc.failing = false := by
  cases todo with
  | nil => exact distributeNext_frame c _
  | cons file rest => exact ⟨rfl, rfl, rfl, rfl, rfl⟩

/-- Deleted for a wrong SHA-256. -/
def mismatchedBlob : IngestPc → Option BlobHash
  | .mismatched _ token => some token.hash
  | .ingesting .. | .distributing .. | .rollingBack .. | .returned _ => none

/-- In the rollback nothing is deleted for its SHA-256. -/
@[simp] theorem mismatchedBlob_rollbackNext (c : IngestCall) (error : ConnectError)
    (todo : List BlobToken) : mismatchedBlob (c.rollbackNext error todo).pc = none := by
  cases todo <;> rfl

/-- Nor is it in phase 2. -/
@[simp] theorem mismatchedBlob_distributeNext (c : IngestCall)
    (todo : List (ValidatedFile × BlobToken)) : mismatchedBlob (c.distributeNext todo).pc = none := by
  cases todo <;> rfl

/-- Nor at the head of phase 1. -/
@[simp] theorem mismatchedBlob_ingestNext (c : IngestCall) (todo : List ValidatedFile) :
    mismatchedBlob (c.ingestNext todo).pc = none := by
  cases todo with
  | nil => exact mismatchedBlob_distributeNext c _
  | cons file rest => rfl

/-! ### What every call keeps -/

/-- How far the call has come. -/
def Progress (c : IngestCall) : IngestPc → Prop
  | .ingesting _ rest =>
    c.handles = [] ∧ c.created.length + (rest.length + 1) = c.validated.files.length
  | .mismatched .. => c.handles = []
  | .distributing _ token rest =>
    token ∈ c.created ∧ (∀ p ∈ rest, p.2 ∈ c.created) ∧
      c.handles.length + (rest.length + 1) = c.validated.files.length
  | .rollingBack token rest _ => ∀ t ∈ token :: rest, t ∈ c.created ∧ t.hash ∉ c.preExisting
  | .returned (.error _) => True
  | .returned (.ok handles) => handles = c.handles ∧ handles.length = c.validated.files.length

structure WellFormed (c : IngestCall) : Prop where
  tokens : ∀ b ∈ c.handles, b.blobToken ∈ c.created
  progress : c.Progress c.pc

/-- A rollback deletes only blobs of the call. -/
theorem wellFormed_rollbackNext (htokens : ∀ b ∈ c.handles, b.blobToken ∈ c.created)
    (error : ConnectError) {todo : List BlobToken}
    (htodo : ∀ t ∈ todo, t ∈ c.created ∧ t.hash ∉ c.preExisting) :
    (c.rollbackNext error todo).WellFormed := by
  cases todo with
  | nil => exact ⟨htokens, trivial⟩
  | cons token rest => exact ⟨htokens, htodo⟩

/-- A rollback deletes only what the call put in and its snapshot lacks. -/
theorem wellFormed_rollback (htokens : ∀ b ∈ c.handles, b.blobToken ∈ c.created)
    (error : ConnectError) : (c.rollback error).WellFormed :=
  wellFormed_rollbackNext htokens error fun t ht => by simpa using ht

/-- Phase 2 goes on with a blob for each file left. -/
theorem wellFormed_distributeNext (htokens : ∀ b ∈ c.handles, b.blobToken ∈ c.created)
    (htodo : ∀ p ∈ todo, p.2 ∈ c.created)
    (hlength : c.handles.length + todo.length = c.validated.files.length) :
    (c.distributeNext todo).WellFormed := by
  cases todo with
  | nil => exact ⟨htokens, rfl, hlength⟩
  | cons p rest =>
    have htoken : p.2 ∈ c.created := htodo p mem_cons_self
    have hrest : ∀ q ∈ rest, q.2 ∈ c.created := fun q hq => htodo q (mem_cons_of_mem p hq)
    exact ⟨htokens, htoken, hrest, hlength⟩

/-- Phase 1 goes on with the files that have no blob. -/
theorem wellFormed_ingestNext (hhandles : c.handles = [])
    (hlength : c.created.length + todo.length = c.validated.files.length) :
    (c.ingestNext todo).WellFormed := by
  have htokens : ∀ b ∈ c.handles, b.blobToken ∈ c.created := by simp [hhandles]
  cases todo with
  | nil =>
    refine wellFormed_distributeNext htokens (fun p hp => (of_mem_zip hp).2) ?_
    rw [hhandles, length_zip]
    simp only [length_nil] at hlength ⊢
    omega
  | cons file rest => exact ⟨htokens, hhandles, hlength⟩

/-- A call starts well formed. -/
theorem wellFormed_start (w : Store) (validated : ValidatedBundle) (priority : TransferPriority) :
    (start w validated priority).WellFormed :=
  wellFormed_ingestNext rfl (by simp)

/-- **Every turn keeps a call well formed.** -/
theorem WellFormed.turn (hc : c.WellFormed) (h : Turn w c label w' c') : c'.WellFormed := by
  have hprogress := hc.progress
  cases h with
  | unread | discarded | unstarted => exact wellFormed_rollback hc.tokens _
  | deleted hpc =>
    rw [hpc] at hprogress
    exact wellFormed_rollbackNext hc.tokens _ fun t ht => hprogress t (mem_cons_of_mem _ ht)
  | stored hpc outcome token =>
    rw [hpc] at hprogress
    refine wellFormed_ingestNext hprogress.1 ?_
    have hlength := hprogress.2
    simp only [push, length_append, length_singleton]
    omega
  | mismatched hpc outcome token =>
    rw [hpc] at hprogress
    exact ⟨hc.tokens, hprogress.1⟩
  | started hpc hnew =>
    rw [hpc] at hprogress
    obtain ⟨htoken, hrest, hlength⟩ := hprogress
    refine wellFormed_distributeNext (fun b hb => ?_) hrest ?_
    · rcases mem_append.1 hb with hb | hb
      · exact hc.tokens b hb
      · rw [mem_singleton.1 hb]
        exact htoken
    · simp only [pushHandle, length_append, length_singleton]
      omega

end IngestCall

/-! ### A platform and files to run the model on -/

/-- A content address without collisions. -/
def byContent : Platform where
  display _ := ""
  debugTime _ := ""
  contentHash bytes := String.ofList (bytes.map fun b => Char.ofNat b.toNat)

def sampleFile (index : ℕ) (sha256 : Digest) : ValidatedFile where
  fileIndex := index
  absolutePath := []
  rootName := "outbox"
  relativePath := "report"
  sizeBytes := 0
  sha256 := sha256
  contentType := none
  displayName := none

def digestOf (bytes : List UInt8) : Digest := ⟨Sha256.hash bytes, Sha256.length_hash bytes⟩

def zeroDigest : Digest := ⟨List.replicate 32 0, rfl⟩

def bundleOf (files : List ValidatedFile) : ValidatedBundle := ⟨files, .allNodes, none⟩

end PeatNode.Attachments
