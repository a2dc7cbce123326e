/-
# What a request may read

A bundle that `validate_request` lets pass has been looked up in the file system: its files
are below their roots and within the limits, and `ingest_bundle` opens just these paths,
one after the other (`accepted_within_limits`).
-/

import PeatNode.Attachments.TwoRequests

namespace PeatNode.Attachments

open UnixPath List

theorem aggregateSize_eq (h : aggregateSize files = some total) :
    total.toNat = (files.map fun f => f.sizeBytes.toNat).sum := by
  suffices hfold : ∀ start : UInt64, files.foldlM (fun total f =>
      if total.toNat + f.sizeBytes.toNat < UInt64.size then some (total + f.sizeBytes) else none)
        start = some total →
      total.toNat = start.toNat + (files.map fun f => f.sizeBytes.toNat).sum by
    simpa using hfold 0 h
  clear h
  induction files with
  | nil =>
    intro start h
    cases h
    rfl
  | cons f rest ih =>
    intro start h
    obtain ⟨next, hnext, h⟩ := Lts.exec_cons_eq_some.1 h
    split_ifs at hnext with hfits
    cases hnext
    rw [ih _ h, UInt64.toNat_add, Nat.mod_eq_of_lt hfits, map_cons, sum_cons, Nat.add_assoc]

namespace IngestCall

def opens (c : IngestCall) : Option Path :=
  match c.pc with
  | .ingesting file _ => some file.absolutePath
  | .mismatched .. | .distributing .. | .rollingBack .. | .returned _ => none

/-- The call reads the files of the bundle in order. -/
def Reads (v : ValidatedBundle) (c : IngestCall) : Prop :=
  c.validated = v ∧ ∀ file rest, c.pc = .ingesting file rest →
    v.files.drop c.created.length = file :: rest

variable {v : ValidatedBundle} {w w' : Store} {c c' : IngestCall} {label : IngestLabel}

theorem reads_of_failing (hv : c.validated = v) (h : c.pc.failing = true) : c.Reads v := by
  refine ⟨hv, fun file rest hpc => ?_⟩
  rw [hpc] at h
  nomatch h

theorem reads_ingestNext (hv : c.validated = v) (h : v.files.drop c.created.length = todo) :
    (c.ingestNext todo).Reads v := by
  cases todo with
  | nil =>
    refine ⟨(ingestNext_frame c []).1.trans hv, fun file rest hpc => ?_⟩
    simp only [ingestNext] at hpc
    cases hzip : c.validated.files.zip c.created <;> rw [hzip] at hpc <;> nomatch hpc
  | cons file rest =>
    refine ⟨hv, fun file' rest' hpc => ?_⟩
    cases hpc
    exact h

theorem Reads.turn (hc : c.Reads v) (h : Turn w c label w' c') : c'.Reads v := by
  have hrollback : ∀ error todo, (c.rollbackNext error todo).Reads v := fun error todo =>
    reads_of_failing ((validated_rollbackNext c error todo).trans hc.1)
      (rollbackNext_frame c error todo).2.2.2
  cases h with
  | unread | discarded | unstarted | deleted => exact hrollback _ _
  | stored hpc outcome token =>
    have hdrop := hc.2 _ _ hpc
    refine reads_ingestNext hc.1 ?_
    simp only [push, length_append, length_singleton]
    rw [← drop_drop, hdrop, drop_one, tail_cons]
  | mismatched => exact reads_of_failing hc.1 rfl
  | @started file token rest hpc =>
    refine ⟨(distributeNext_frame _ rest).1.trans hc.1, fun file' rest' hpc' => ?_⟩
    cases rest <;> cases hpc'

end IngestCall

/-- **What is accepted is within the limits.** Between one and the allowed number of files,
numbered in order; each has passed its rules; their sizes add up to no more than a bundle may
have; and whatever the store holds, the ingestion opens the path found for the next file. -/
theorem accepted_within_limits {platform : Platform} {cfg : AttachmentConfig} {fs : FileSystem}
    {req : SendAttachmentsRequest} {v : ValidatedBundle}
    (h : validateRequest platform cfg fs req = .ok v) :
    1 ≤ v.files.length ∧ v.files.length ≤ cfg.maxFilesPerBundle ∧
      v.files.map ValidatedFile.fileIndex = List.range v.files.length ∧
      List.Forall₂ (Passed cfg fs) req.files v.files ∧
      (v.files.map fun file => file.sizeBytes.toNat).sum ≤ cfg.maxBundleBytes.toNat ∧
      ∀ w priority labels c,
        Lts.exec (fun c (l : Store × IngestLabel) =>
          (IngestCall.advance platform l.1 c l.2).map Prod.snd) (.start w v priority) labels =
            some c →
        ∀ path ∈ c.opens, ∃ file, v.files[c.created.length]? = some file ∧
          file.absolutePath = path := by
  obtain ⟨hne, hcount, ⟨total, htotal, hlimit⟩, hindices, hpassed⟩ := validateRequest_spec h
  have hlength := hpassed.length_eq
  have hsizes : (v.files.map fun file => file.sizeBytes.toNat) =
      req.files.map fun f => f.sizeBytes.toNat := by
    have hwire := congrArg (map fun i => i.sizeBytes.toNat) (validateRequest_wire h)
    rwa [map_map, map_map] at hwire
  refine ⟨?_, hlength ▸ hcount, hindices, hpassed, ?_, fun w priority labels c hrun path hpath => ?_⟩
  · rw [← hlength]
    exact length_pos_iff.2 hne
  · rw [hsizes, ← aggregateSize_eq htotal]
    exact UInt64.le_iff_toNat_le.1 hlimit
  · have hreads : c.Reads v := by
      refine Lts.exec_preserves (IngestCall.Reads v) (fun c l c' hc hstep => ?_)
        (IngestCall.reads_ingestNext rfl rfl) hrun
      obtain ⟨⟨w', c''⟩, hadvance, rfl⟩ := Option.map_eq_some_iff.1 hstep
      exact hc.turn (.of_advance hadvance)
    unfold IngestCall.opens at hpath
    split at hpath
    · next file rest hpc =>
      cases hpath
      have hdrop := hreads.2 file rest hpc
      exact ⟨file, by rw [← head?_drop, hdrop, head?_cons], rfl⟩
    all_goals nomatch hpath

/-- Two files with all the bytes of a bundle. -/
def fullRequest : SendAttachmentsRequest :=
  { sampleRequest with
    files := [⟨"outbox", "a", 40, Sha256.hash [], none, none⟩,
      ⟨"outbox", "b", 60, Sha256.hash [1], none, none⟩] }

def fullFiles : FileSystem where
  canonicalize path := .ok path
  metadata path := .ok ⟨true, if path = [47, 97] then 40 else 60⟩

theorem accepted_full : ∃ v, validateRequest byContent plainConfig fullFiles fullRequest = .ok v ∧
    (v.files.map fun file => file.sizeBytes.toNat) = [40, 60] ∧
    v.files.map ValidatedFile.fileIndex = List.range v.files.length ∧
    (v.files.map fun file => file.sizeBytes.toNat).sum ≤ 100 := by
  have hok : (validateRequest byContent plainConfig fullFiles fullRequest).toOption.any
      (fun v => (v.files.map fun file => file.sizeBytes.toNat) = [40, 60]) = true := by
    decide +kernel
  cases hv : validateRequest byContent plainConfig fullFiles fullRequest with
  | error e =>
    rw [hv] at hok
    nomatch hok
  | ok v =>
    rw [hv] at hok
    obtain ⟨-, -, hindices, -, hsizes, -⟩ := accepted_within_limits hv
    exact ⟨v, rfl, of_decide_eq_true hok, hindices, hsizes⟩

end PeatNode.Attachments
