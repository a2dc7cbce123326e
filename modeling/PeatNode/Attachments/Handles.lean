/-
# The handles of a bundle

What a request brings into the table: one handle per file, numbered like the files
(`Prepared`), under distribution ids that neither another request nor a bundle of
an earlier request has (`Apart`).
-/

import PeatNode.Attachments.Runtime
import PeatNode.Attachments.TwoRequests

namespace PeatNode.Attachments

open List ValidatedFile List.Sublist

/-! ### The order of the files -/

/-- There is a file, and they are numbered in order. -/
def Numbered (files : List ValidatedFile) : Prop :=
  files ≠ [] ∧ files.map ValidatedFile.fileIndex = List.range files.length

variable {platform : Platform} {cfg : AttachmentConfig} {fs : FileSystem}

theorem numbered_of_validateRequest (h : validateRequest platform cfg fs req = .ok v) :
    Numbered v.files := by
  obtain ⟨-, -, -, hindices, -⟩ := validateRequest_spec h
  exact ⟨validateRequest_ne_nil h, hindices⟩

namespace IngestCall

/-- Handles made and files to come, in order. -/
def InOrder (c : IngestCall) : Prop :=
  match c.pc with
  | .distributing file _ rest =>
    c.handles.map IngestedBlob.fileIndex ++ file.fileIndex :: rest.map (·.1.fileIndex) =
      c.validated.files.map ValidatedFile.fileIndex
  | .returned (.ok handles) =>
    handles.map IngestedBlob.fileIndex = c.validated.files.map ValidatedFile.fileIndex
  | .ingesting .. | .mismatched .. | .rollingBack .. | .returned (.error _) => True

variable {w w' : Store} {c c' : IngestCall} {label : IngestLabel}

theorem inOrder_rollbackNext (c : IngestCall) (error : ConnectError) (todo : List BlobToken) :
    (c.rollbackNext error todo).InOrder := by
  cases todo <;> exact trivial

theorem inOrder_distributeNext
    (h : c.handles.map IngestedBlob.fileIndex ++ todo.map (·.1.fileIndex) =
      c.validated.files.map fileIndex) : (c.distributeNext todo).InOrder := by
  cases todo with
  | nil => simpa [InOrder, distributeNext] using h
  | cons p rest => exact h

theorem inOrder_ingestNext (hhandles : c.handles = [])
    (hlength : c.created.length + todo.length = c.validated.files.length) :
    (c.ingestNext todo).InOrder := by
  cases todo with
  | nil =>
    refine inOrder_distributeNext ?_
    have hzip : (c.validated.files.zip c.created).map Prod.fst = c.validated.files :=
      map_fst_zip (by simp only [length_nil] at hlength; omega)
    rw [hhandles, map_nil, nil_append]
    calc (c.validated.files.zip c.created).map (·.1.fileIndex)
        = ((c.validated.files.zip c.created).map Prod.fst).map fileIndex := by
          rw [map_map]
          rfl
      _ = c.validated.files.map fileIndex := by rw [hzip]
  | cons file rest => exact trivial

theorem InOrder.turn (hc : c.InOrder) (hwell : c.WellFormed) (h : Turn w c label w' c') :
    c'.InOrder := by
  have hprogress := hwell.progress
  cases h with
  | unread | discarded | unstarted | deleted => exact inOrder_rollbackNext _ _ _
  | mismatched => exact trivial
  | stored hpc outcome token =>
    rw [hpc] at hprogress
    refine inOrder_ingestNext hprogress.1 ?_
    have hlength := hprogress.2
    simp only [push, length_append, length_singleton]
    omega
  | started hpc hnew =>
    rw [InOrder, hpc] at hc
    refine inOrder_distributeNext ?_
    simpa [pushHandle] using hc

end IngestCall

/-! ### What a request has prepared -/

def SendPc.Prepared : SendPc → Prop
  | .received | .returned _ => True
  | .validated v | .admitted v | .probed _ v | .fresh _ v => Numbered v.files
  | .ingesting _ _ c => c.WellFormed ∧ c.InOrder ∧ Numbered c.validated.files
  | .ingested _ _ blobs =>
    blobs ≠ [] ∧ blobs.map IngestedBlob.fileIndex = List.range blobs.length

/-- Started and not yet recorded. -/
def SendPc.held : SendPc → List String
  | .ingesting _ _ c => c.handles.map fun b => b.distributionHandle.distributionId
  | .ingested _ _ blobs => blobs.map fun b => b.distributionHandle.distributionId
  | .received | .validated _ | .admitted _ | .probed .. | .fresh .. | .returned _ => []

namespace SendCall

variable {platform : Platform} {cfg : AttachmentConfig} {n n' : Sidecar} {call call' : SendCall}
  {label : SendLabel}

theorem prepared_afterLookup (h : Numbered v.files) (lookup : BundleLookup) :
    (afterLookup platform bundleId v lookup).Prepared := by
  cases lookup with
  | notFound => exact h
  | idempotent | conflict => exact trivial

theorem prepared_settle (bundleId : String) (identity : BundleIdentity) (hwell : c.WellFormed)
    (horder : c.InOrder) (hfiles : Numbered c.validated.files) :
    (settle bundleId identity c).Prepared := by
  unfold settle
  split
  · exact trivial
  · next blobs hpc =>
    have hlength : blobs.length = c.validated.files.length := by
      have hprogress := hwell.progress
      rw [hpc] at hprogress
      exact hprogress.2
    rw [IngestCall.InOrder, hpc] at horder
    refine ⟨?_, ?_⟩
    · rw [← length_pos_iff, hlength]
      exact length_pos_iff.2 hfiles.1
    · rw [horder, hfiles.2, hlength]
  all_goals exact ⟨hwell, horder, hfiles⟩

theorem prepared_turn (hcall : call.pc.Prepared) (h : Turn platform cfg n call label n' call') :
    call'.pc.Prepared := by
  cases h with
  | validate hpc fs =>
    simp only [goto, afterValidate]
    split_ifs
    · split
      · next v hv => exact numbered_of_validateRequest hv
      · exact trivial
    · exact trivial
  | cap hpc =>
    rw [hpc] at hcall
    simp only [goto]
    split_ifs
    · exact hcall
    · exact trivial
  | decided hpc huuid hprobe | recheck hpc now =>
    rw [hpc] at hcall
    exact prepared_afterLookup hcall _
  | undecided hpc huuid hprobe =>
    rw [hpc] at hcall
    exact hcall
  | snapshot hpc priority =>
    rw [hpc] at hcall
    refine prepared_settle _ _ (IngestCall.wellFormed_start _ _ _) ?_ ?_
    · exact IngestCall.inOrder_ingestNext rfl (by simp)
    · rw [IngestCall.start, (IngestCall.ingestNext_frame _ _).1]
      exact hcall
  | ingest hpc hturn =>
    rw [hpc] at hcall
    obtain ⟨hwell, horder, hfiles⟩ := hcall
    refine prepared_settle _ _ (hwell.turn hturn) (horder.turn hwell hturn) ?_
    rwa [validated_turn hturn]
  | record => exact trivial

theorem held_afterLookup (bundleId : String) (v : ValidatedBundle) (lookup : BundleLookup) :
    (afterLookup platform bundleId v lookup).held = [] := by
  cases lookup <;> rfl

/-- When a call of `ingest_bundle` is over, the request holds its handles or nothing. -/
theorem held_settle (bundleId : String) (identity : BundleIdentity) (hwell : c.WellFormed) :
    ((settle bundleId identity c).held).Sublist
      (c.handles.map fun b => b.distributionHandle.distributionId) := by
  unfold settle
  split
  · exact nil_sublist _
  · next blobs hpc =>
    have hprogress := hwell.progress
    rw [hpc] at hprogress
    rw [hprogress.1]
    exact refl _
  all_goals exact refl _

/-- **What a request comes to hold is new**, or it held it before. -/
theorem held_turn (hcall : call.pc.Prepared) (h : Turn platform cfg n call label n' call') :
    ∃ new : List String, n'.store.issued = n.store.issued ++ new ∧ new.Nodup ∧
      (∀ d ∈ new, d ∉ n.store.issued) ∧ (call'.pc.held).Sublist (call.pc.held ++ new) := by
  have hnothing : n'.store = n.store → call'.pc.held = [] →
      ∃ new : List String, n'.store.issued = n.store.issued ++ new ∧ new.Nodup ∧
        (∀ d ∈ new, d ∉ n.store.issued) ∧ (call'.pc.held).Sublist (call.pc.held ++ new) := by
    intro hstore hheld
    refine ⟨[], by rw [hstore, append_nil], nodup_nil, by simp, ?_⟩
    rw [hheld]
    exact nil_sublist _
  cases h with
  | validate hpc fs =>
    refine hnothing rfl ?_
    simp only [goto, afterValidate]
    split_ifs
    · split <;> rfl
    · rfl
  | cap hpc =>
    refine hnothing rfl ?_
    simp only [goto]
    split_ifs <;> rfl
  | decided | recheck => exact hnothing rfl (held_afterLookup _ _ _)
  | undecided | record => exact hnothing rfl rfl
  | @snapshot bundleId v hpc priority =>
    refine hnothing rfl (sublist_nil.1 ?_)
    have hheld := held_settle bundleId (.fromValidated v.files)
      (IngestCall.wellFormed_start n.store v priority)
    rwa [IngestCall.start, (IngestCall.ingestNext_frame _ _).2.2.2.1] at hheld
  | @ingest bundleId identity c c' hpc l w' hturn =>
    rw [hpc] at hcall ⊢
    have hheld := held_settle bundleId identity (hcall.1.turn hturn)
    rcases ids_turn hturn with ⟨hissued, hhandles⟩ | ⟨b, hnew, hissued, hhandles⟩
    · rw [hhandles] at hheld
      exact ⟨[], by rw [append_nil]; exact hissued, nodup_nil, by simp,
        by rw [append_nil]; exact hheld⟩
    · rw [hhandles, map_append] at hheld
      exact ⟨[b.distributionHandle.distributionId], hissued, nodup_singleton _,
        by simpa using hnew, hheld⟩

/-- The handles of a bundle are numbered in their order. -/
theorem fileIndex_buildHandleRecords {request : SendAttachmentsRequest}
    (h : buildHandleRecords request blobs = some handles) :
    handles.map AttachmentHandleRecord.fileIndex = blobs.map IngestedBlob.fileIndex := by
  simpa [Function.comp_def] using congrArg (map Prod.fst) (map_buildHandleRecords h)

end SendCall

/-! ### The requests of a node -/

namespace SendAttachments

variable {platform : Platform} {cfg : AttachmentConfig} {s s' : SendAttachments}
  {recorded : List String}

def held (s : SendAttachments) : List String := s.calls.flatMap fun call => call.pc.held

/-- No distribution is held by two requests, or is held and recorded. -/
structure Apart (s : SendAttachments) (recorded : List String) : Prop where
  prepared : ∀ call ∈ s.calls, call.pc.Prepared
  nodup : (s.held ++ recorded).Nodup
  issued : ∀ d ∈ s.held ++ recorded, d ∈ s.node.store.issued

theorem issued_cancel (w : Store) (d : String) : (w.cancel d).issued = w.issued := by
  simp only [Store.issued, Store.cancel, map_map]
  refine map_congr_left fun x _ => ?_
  simp only [Function.comp]
  split_ifs <;> rfl

theorem Apart.congr (hs : s.Apart recorded) (h : w.issued = s.node.store.issued) :
    Apart ⟨⟨registry, w⟩, s.calls⟩ recorded where
  prepared := hs.prepared
  nodup := hs.nodup
  issued d hd := by
    show d ∈ w.issued
    rw [h]
    exact hs.issued d hd

theorem Apart.turn (hs : s.Apart recorded) (hcall : s.calls[i]? = some call)
    (h : SendCall.Turn platform cfg s.node call label n' call') :
    Apart ⟨n', s.calls.set i call'⟩ recorded := by
  have hprepared := hs.prepared call (mem_of_getElem? hcall)
  obtain ⟨new, hissued, hnew, hfresh, hheld⟩ := SendCall.held_turn hprepared h
  obtain ⟨l₁, l₂, hsplit, hset⟩ := exists_set_split hcall
  -- the new ids come last in a permutation of what is held then
  have hsub : (held ⟨n', s.calls.set i call'⟩ ++ recorded).Subperm (s.held ++ recorded ++ new) := by
    have hperm : (l₁.flatMap (·.pc.held) ++ (call.pc.held ++ new ++ l₂.flatMap (·.pc.held)) ++
        recorded).Perm (s.held ++ recorded ++ new) := by
      rw [held, hsplit, flatMap_append, flatMap_cons]
      simp only [append_assoc, perm_append_left_iff]
      rw [← append_assoc (l₂.flatMap _)]
      exact perm_append_comm
    refine List.Subperm.trans (subperm ?_) hperm.subperm
    rw [held, hset, flatMap_append, flatMap_cons]
    exact ((refl _).append (hheld.append (refl _))).append
      (refl _)
  have hnodup : (s.held ++ recorded ++ new).Nodup :=
    hs.nodup.append hnew fun d hd hd' => hfresh d hd' (hs.issued d hd)
  refine ⟨forall_mem_set hs.prepared (SendCall.prepared_turn hprepared h), ?_, fun d hd => ?_⟩
  · obtain ⟨l, hperm, hl⟩ := hsub
    exact hperm.nodup_iff.1 (hl.nodup hnodup)
  · show d ∈ n'.store.issued
    rw [hissued, mem_append]
    rcases mem_append.1 (hsub.subset hd) with hd | hd
    · exact .inl (hs.issued d hd)
    · exact .inr hd

theorem Apart.step (hs : s.Apart recorded) (h : step platform cfg s label = some s') :
    s'.Apart recorded := by
  cases label with
  | arrive request =>
    cases h
    have hheld : held { s with calls := s.calls ++ [⟨request, .received⟩] } = s.held := by
      simp [held, SendPc.held]
    exact ⟨forall_mem_concat hs.prepared trivial, by rw [hheld]; exact hs.nodup,
      by rw [hheld]; exact hs.issued⟩
  | advance i label =>
    obtain ⟨call, n', call', hcall, hturn, rfl⟩ := turn_of_step h
    exact hs.turn hcall hturn
  | updateStatus | get | evictExpired | changeBlobs blobs =>
    cases h
    exact hs.congr rfl
  | cancel d =>
    cases h
    exact hs.congr (issued_cancel _ d)

theorem Apart.record (hs : s.Apart recorded) (hcall : s.calls[i]? = some call)
    (registry : Registry) (call' : SendCall) (hcall' : call'.pc.held = [] ∧ call'.pc.Prepared) :
    Apart ⟨⟨registry, s.node.store⟩, s.calls.set i call'⟩ (recorded ++ call.pc.held) := by
  obtain ⟨l₁, l₂, hsplit, hset⟩ := exists_set_split hcall
  have hperm : (held ⟨⟨registry, s.node.store⟩, s.calls.set i call'⟩ ++
      (recorded ++ call.pc.held)).Perm (s.held ++ recorded) := by
    rw [held, held, hset, hsplit]
    simp only [flatMap_append, flatMap_cons, hcall'.1, nil_append, append_assoc,
      perm_append_left_iff]
    rw [← append_assoc]
    exact perm_append_comm
  exact ⟨forall_mem_set hs.prepared hcall'.2, hperm.nodup_iff.2 hs.nodup,
    fun d hd => hs.issued d (hperm.subset hd)⟩

end SendAttachments

end PeatNode.Attachments
