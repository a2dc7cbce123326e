/-
# Sending a bundle again

A request with the id and the files of a known bundle is to be answered with its handles.  But the
table is asked last: a resubmission is answered exactly when it passes the validation and the
concurrency cap, which counts the bundle itself (`Screened`). No resident id is empty
(`id_ne_of_resident`).
-/

import PeatNode.Attachments.SendAttachments
import PeatNode.Lib.Lists

namespace PeatNode.Attachments

open Registry Lts

/-! ### A resubmission alone -/

namespace SendCall

/-- A request that finds its bundle. -/
def lookupSections (fs : FileSystem) (uuid : String) (now : SystemTime) : List SendLabel :=
  [.validate fs, .checkCap, .probe uuid, .recheck now]

/-- Answered alone on the node, without a change. -/
def Answered (platform : Platform) (cfg : AttachmentConfig) (n : Sidecar)
    (request : SendAttachmentsRequest) (fs : FileSystem) (uuid : String) (now : SystemTime)
    (result : Except ConnectError SendAttachmentsResponse) : Prop :=
  ∃ m, ∃ r ∈ Lts.exec (step platform cfg) (n, ⟨request, .received⟩)
      ((lookupSections fs uuid now).take m),
    r.2.pc = .returned result ∧ r.1.store = n.store

/-- The checks before the table is asked. -/
def Screened (platform : Platform) (cfg : AttachmentConfig) (n : Sidecar)
    (request : SendAttachmentsRequest) (fs : FileSystem) : Prop :=
  (∃ v, validateRequest platform cfg fs request = .ok v) ∧ Admits cfg n.registry

variable {platform : Platform} {cfg : AttachmentConfig} {n n₀ n' : Sidecar} {call call' : SendCall}
  {fs : FileSystem} {request : SendAttachmentsRequest} {label : SendLabel}

/-- How far a request has been screened. -/
def ScreenedAt (platform : Platform) (cfg : AttachmentConfig) (n₀ : Sidecar)
    (request : SendAttachmentsRequest) (fs : FileSystem) (n : Sidecar) : SendPc → Prop
  | .received => n = n₀
  | .validated _ => n = n₀ ∧ ∃ v, validateRequest platform cfg fs request = .ok v
  | .returned (.error _) => True
  | .admitted _ | .probed .. | .fresh .. | .ingesting .. | .ingested .. | .returned (.ok _) =>
    Screened platform cfg n₀ request fs

theorem screenedAt_of_screened (h : Screened platform cfg n₀ request fs) {pc : SendPc}
    (hpc : pc ≠ .received) (hv : ∀ v, pc ≠ .validated v) :
    ScreenedAt platform cfg n₀ request fs n pc := by
  cases pc with
  | received => exact absurd rfl hpc
  | validated v => exact absurd rfl (hv v)
  | returned result =>
    cases result with
    | error e => trivial
    | ok response => exact h
  | admitted | probed | fresh | ingesting | ingested => exact h

theorem afterLookup_late (bundleId : String) (v : ValidatedBundle) (lookup : BundleLookup) :
    afterLookup platform bundleId v lookup ≠ .received ∧
      ∀ u, afterLookup platform bundleId v lookup ≠ .validated u := by
  cases lookup <;> exact ⟨nofun, nofun⟩

theorem settle_late (bundleId : String) (identity : BundleIdentity) (c : IngestCall) :
    settle bundleId identity c ≠ .received ∧ ∀ u, settle bundleId identity c ≠ .validated u := by
  unfold settle
  split <;> exact ⟨nofun, nofun⟩

theorem screenedAt_turn (hrequest : call.request = request)
    (hlabel : ∀ fs', label = .validate fs' → fs' = fs)
    (hs : ScreenedAt platform cfg n₀ request fs n call.pc)
    (h : Turn platform cfg n call label n' call') :
    ScreenedAt platform cfg n₀ request fs n' call'.pc := by
  cases h with
  | validate hpc fs' =>
    rw [hpc] at hs
    obtain rfl : n = n₀ := hs
    obtain rfl := hlabel fs' rfl
    subst hrequest
    simp only [goto, afterValidate]
    split_ifs
    · split
      · rename_i v hv
        exact ⟨rfl, v, hv⟩
      · trivial
    · trivial
  | cap hpc =>
    rw [hpc] at hs
    obtain ⟨rfl, hvalid⟩ := hs
    simp only [goto]
    split_ifs with hadmits
    · exact ⟨hvalid, hadmits⟩
    · trivial
  | decided hpc | recheck hpc =>
    rw [hpc] at hs
    exact screenedAt_of_screened hs (afterLookup_late _ _ _).1 (afterLookup_late _ _ _).2
  | snapshot hpc | ingest hpc =>
    rw [hpc] at hs
    exact screenedAt_of_screened hs (settle_late _ _ _).1 (settle_late _ _ _).2
  | undecided hpc | record hpc =>
    rw [hpc] at hs
    exact hs

/-- A request that is answered well has passed the checks. -/
theorem screened_of_answered (h : Answered platform cfg n request fs uuid now (.ok response)) :
    Screened platform cfg n request fs := by
  obtain ⟨m, ⟨n', call'⟩, hrun, hpc, -⟩ := h
  have hlabels : ∀ label ∈ (lookupSections fs uuid now).take m, ∀ fs', label = .validate fs' → fs' = fs := by
    intro label hlabel fs' hvalidate
    have hmem := List.mem_of_mem_take hlabel
    subst hvalidate
    simpa [lookupSections] using hmem
  have hstart : ScreenedAt platform cfg n request fs n .received := rfl
  have hend := exec_invariant (fun s : Sidecar × SendCall =>
      s.2.request = request ∧ ScreenedAt platform cfg n request fs s.1 s.2.pc)
    (fun s a s' hs ha hstep =>
      ⟨(Turn.of_advance hstep).request.trans hs.1,
        screenedAt_turn hs.1 ha hs.2 (Turn.of_advance hstep)⟩)
    ⟨rfl, hstart⟩ (along_of_forall hlabels _) hrun
  have hscreened := hend.2
  simp only at hpc
  simp only [hpc] at hscreened
  exact hscreened

theorem bundleIdFor_of_some {id uuid : String} (hid : request.bundleId = some id) (hne : id ≠ "") :
    bundleIdFor request uuid = id := by
  simp [bundleIdFor, hid, hne]

/-- A screened resubmission finds its bundle. -/
theorem answered_of_screened {id uuid : String} {rec : BundleRecord}
    (hid : request.bundleId = some id) (hne : id ≠ "") (huuid : uuid ≠ "")
    (hresident : n.registry.bundles.lookup id = some rec) (hidentity : rec.identity.Identifies request)
    (hstatus : rec.status.allowsReuseWithDifferentFiles = false) (now : SystemTime)
    (h : Screened platform cfg n request fs) :
    Answered platform cfg n request fs uuid now (.ok (buildResponse id rec.handles)) := by
  obtain ⟨⟨v, hv⟩, hadmits⟩ := h
  have hsame : BundleIdentity.fromValidated v.files = rec.identity :=
    (BundleIdentity.identifies_fromValidated hv).unique hidentity
  have hprobe : n.registry.probe id (.fromValidated v.files) = none :=
    hsame ▸ probe_of_identical hresident
  have hrecheck := recheck_of_identical hresident hstatus now
  have hvalidate : step platform cfg (n, ⟨request, .received⟩) (.validate fs) =
      some (n, ⟨request, .validated v⟩) := by
    simp [step, advance, goto, afterValidate, hasRoots_of_validateRequest hv, hv]
  have hcap : step platform cfg (n, ⟨request, .validated v⟩) .checkCap =
      some (n, ⟨request, .admitted v⟩) := by
    simp [step, advance, goto, hadmits]
  have hfirst : step platform cfg (n, ⟨request, .admitted v⟩) (.probe uuid) =
      some (n, ⟨request, .probed id v⟩) := by
    simp [step, advance, goto, huuid, bundleIdFor_of_some hid hne, hprobe]
  have hsecond : step platform cfg (n, ⟨request, .probed id v⟩) (.recheck now) =
      some (⟨(n.registry.recheck id rec.identity now).2, n.store⟩,
        ⟨request, .returned (.ok (buildResponse id rec.handles))⟩) := by
    simp [step, advance, goto, hsame, hrecheck, afterLookup, touched]
  have hrun : exec (step platform cfg) (n, ⟨request, .received⟩) (lookupSections fs uuid now) =
      some (⟨(n.registry.recheck id rec.identity now).2, n.store⟩,
        ⟨request, .returned (.ok (buildResponse id rec.handles))⟩) :=
    exec_cons_eq_some.2 ⟨_, hvalidate, exec_cons_eq_some.2 ⟨_, hcap,
      exec_cons_eq_some.2 ⟨_, hfirst, exec_cons_eq_some.2 ⟨_, hsecond, rfl⟩⟩⟩⟩
  exact ⟨4, _, hrun, rfl, rfl⟩

end SendCall

/-! ### Ids are never empty -/

def SendPc.bundleId : SendPc → Option String
  | .probed bundleId _ | .fresh bundleId _ | .ingesting bundleId _ _ | .ingested bundleId _ _ =>
    some bundleId
  | .received | .validated _ | .admitted _ | .returned _ => none

namespace SendCall

variable {platform : Platform} {cfg : AttachmentConfig} {n n' : Sidecar} {call call' : SendCall}
  {label : SendLabel}

theorem bundleIdFor_ne {request : SendAttachmentsRequest} (huuid : uuid ≠ "") :
    bundleIdFor request uuid ≠ "" := by
  unfold bundleIdFor
  split
  · exact huuid
  · split_ifs with h
    · exact huuid
    · exact h

theorem bundleId_afterLookup {bundleId id : String}
    (h : (afterLookup platform bundleId v lookup).bundleId = some id) : bundleId = id := by
  cases lookup with
  | notFound => exact Option.some.inj h
  | idempotent | conflict => simp [afterLookup, SendPc.bundleId] at h

theorem bundleId_settle {bundleId id : String}
    (h : (settle bundleId identity c).bundleId = some id) : bundleId = id := by
  unfold settle at h
  split at h
  · simp [SendPc.bundleId] at h
  all_goals exact Option.some.inj h

/-- A request takes its id once, and an insert uses it. -/
theorem named_turn (hcall : call.pc.bundleId ≠ some "") (hregistry : "" ∉ n.registry.bundles)
    (h : Turn platform cfg n call label n' call') :
    call'.pc.bundleId ≠ some "" ∧ "" ∉ n'.registry.bundles := by
  cases h with
  | validate hpc fs =>
    refine ⟨?_, hregistry⟩
    simp only [goto, afterValidate]
    split_ifs
    · split <;> exact nofun
    · exact nofun
  | cap hpc =>
    refine ⟨?_, hregistry⟩
    simp only [goto]
    split_ifs <;> exact nofun
  | decided hpc huuid hprobe =>
    exact ⟨fun h => bundleIdFor_ne huuid (bundleId_afterLookup h), hregistry⟩
  | undecided hpc huuid hprobe =>
    exact ⟨fun h => bundleIdFor_ne huuid (Option.some.inj h), hregistry⟩
  | recheck hpc now =>
    rw [hpc] at hcall
    exact ⟨fun h => hcall (congrArg some (bundleId_afterLookup h)),
      fun h => hregistry (mem_of_mem_recheck h)⟩
  | snapshot hpc | ingest hpc =>
    rw [hpc] at hcall
    exact ⟨fun h => hcall (congrArg some (bundleId_settle h)), hregistry⟩
  | record hpc hhandles hinsert =>
    rw [hpc] at hcall
    refine ⟨nofun, fun h => ?_⟩
    rcases mem_of_mem_insert hinsert h with h | h
    · exact hcall (congrArg some h.symm)
    · exact hregistry h

end SendCall

namespace SendAttachments

variable {platform : Platform} {cfg : AttachmentConfig} {s s' : SendAttachments}

structure Named (s : SendAttachments) : Prop where
  registry : "" ∉ s.node.registry.bundles
  calls : ∀ call ∈ s.calls, call.pc.bundleId ≠ some ""

theorem Named.step (hs : s.Named) (h : step platform cfg s label = some s') : s'.Named := by
  cases label with
  | arrive request =>
    cases h
    exact ⟨hs.registry, List.forall_mem_concat hs.calls nofun⟩
  | advance i label =>
    obtain ⟨call, n', call', hcall, hturn, rfl⟩ := turn_of_step h
    have hmem := List.mem_of_getElem? hcall
    obtain ⟨hnamed, hregistry⟩ := SendCall.named_turn (hs.calls call hmem) hs.registry hturn
    exact ⟨hregistry, List.forall_mem_set hs.calls hnamed⟩
  | updateStatus | get =>
    cases h
    exact ⟨fun h => hs.registry (mem_of_mem_modify h), hs.calls⟩
  | evictExpired =>
    cases h
    exact ⟨fun h => hs.registry (mem_of_mem_evictExpired h), hs.calls⟩
  | cancel | changeBlobs =>
    cases h
    exact ⟨hs.registry, hs.calls⟩

theorem named_of_reachable (h : s.Reachable platform cfg) : s.Named := by
  obtain ⟨blobs, labels, hrun⟩ := h
  have hinit : (init blobs).Named :=
    ⟨AList.notMem_empty "", fun call hcall => by simp [init] at hcall⟩
  exact exec_preserves Named (fun s a s' hs h => hs.step h) hinit hrun

/-- A resident bundle has an id that a caller can name. -/
theorem id_ne_of_resident (h : s.Reachable platform cfg) {id : String} {rec : BundleRecord}
    (hresident : s.node.registry.bundles.lookup id = some rec) : id ≠ "" := by
  rintro rfl
  exact (named_of_reachable h).registry (AList.lookup_isSome.1 (by rw [hresident]; rfl))

end SendAttachments

end PeatNode.Attachments
