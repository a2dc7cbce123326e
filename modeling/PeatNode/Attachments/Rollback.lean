/-
# What a failed request leaves behind

Alone on its node, with every `delete_blob` succeeding, a request that fails puts the store back
in all but two cases:

* a file whose streamed SHA-256 is not the declared one has a content that was in the store
  before: `ingest_file` deletes it without asking the snapshot;
* `distribute` fails after it has succeeded for an earlier file: the distributions that run are
  not cancelled.

`failed_request_undone_iff` says that these are the only two.
-/

import PeatNode.Attachments.SendAttachments

namespace PeatNode.Attachments

open List

namespace IngestCall

def hashes (tokens : List BlobToken) : Finset BlobHash := (tokens.map BlobToken.hash).toFinset

@[simp] theorem mem_hashes {hash : BlobHash} :
    hash ∈ hashes tokens ↔ ∃ token ∈ tokens, token.hash = hash := by
  simp [hashes]

theorem hashes_concat (tokens : List BlobToken) (token : BlobToken) :
    hashes (tokens ++ [token]) = insert token.hash (hashes tokens) := by
  rw [hashes, map_append, toFinset_append, hashes, Finset.union_comm]
  rfl

/-- The failure at hand can be made up for. -/
def Recoverable (c : IngestCall) : IngestLabel → Prop
  | .delete _ => ∀ hash ∈ mismatchedBlob c.pc, hash ∉ c.preExisting
  | .distribute (.error _) => c.handles = []
  | .read _ | .distribute (.ok _) => True

instance (c : IngestCall) (label : IngestLabel) : Decidable (c.Recoverable label) := by
  unfold Recoverable
  split <;> infer_instance

/-- The store within a call from `w₀`. -/
def Between (w₀ w : Store) (c : IngestCall) : IngestPc → Prop
  | .ingesting .. | .distributing .. => w.blobs = w₀.blobs ∪ hashes c.created
  | .mismatched _ token =>
    w.blobs = insert token.hash (w₀.blobs ∪ hashes c.created) ∧ c.handles = []
  | .rollingBack token rest _ =>
    w₀.blobs ⊆ w.blobs ∧ w.blobs ⊆ w₀.blobs ∪ hashes (token :: rest) ∧
      (∀ t ∈ token :: rest, t.hash ∉ w₀.blobs) ∧ c.handles = []
  | .returned (.error _) => w.blobs = w₀.blobs ∧ c.handles = []
  | .returned (.ok _) => True

/-- What a call and its store remember of the start. -/
structure Since (w₀ w : Store) (c : IngestCall) : Prop where
  snapshot : c.preExisting = w₀.blobs
  running : w.running = w₀.running ++ c.handles.map IngestedBlob.distributionHandle

structure Undoable (w₀ w : Store) (c : IngestCall) : Prop extends Since w₀ w c where
  between : Between w₀ w c c.pc

structure Spoiled (w₀ w : Store) (c : IngestCall) : Prop extends Since w₀ w c where
  failing : c.pc.failing = true
  spoiled : ¬ w₀.blobs ⊆ w.blobs ∨ c.handles ≠ []

variable {w₀ w w' : Store} {c c' : IngestCall} {label : IngestLabel}

/-- A turn that starts no distribution keeps what is remembered. -/
theorem Since.keep (hc : Since w₀ w c) (hsnapshot : c'.preExisting = c.preExisting)
    (hhandles : c'.handles = c.handles) (hdistributions : w'.distributions = w.distributions) :
    Since w₀ w' c' where
  snapshot := hsnapshot.trans hc.snapshot
  running := by rw [Store.running_congr hdistributions, hc.running, hhandles]

theorem Since.turn (hc : Since w₀ w c) (h : Turn w c label w' c') : Since w₀ w' c' := by
  cases h with
  | unread | unstarted | discarded =>
    exact hc.keep (rollback_frame c _).1 (rollback_frame c _).2.2.1 (by simp)
  | deleted =>
    exact hc.keep (rollbackNext_frame c _ _).1 (rollbackNext_frame c _ _).2.2.1 (by simp)
  | stored hpc outcome token =>
    exact hc.keep (ingestNext_frame (c.push token) _).2.1 (ingestNext_frame (c.push token) _).2.2.2.1
      (by simp)
  | mismatched => exact hc.keep rfl rfl (by simp)
  | started hpc hnew =>
    refine ⟨(distributeNext_frame _ _).2.1.trans hc.snapshot, ?_⟩
    rw [Store.running_startDistribution, hc.running, (distributeNext_frame _ _).2.2.2.1, pushHandle,
      map_append, append_assoc]
    rfl

/-! ### The good side -/

theorem deleted_of_ne (h : IngestLabel.delete deleted ≠ .delete false) : deleted = true := by
  cases deleted with
  | false => exact absurd rfl h
  | true => rfl

theorem between_rollbackNext {todo : List BlobToken} (hlow : w₀.blobs ⊆ w.blobs)
    (hhigh : w.blobs ⊆ w₀.blobs ∪ hashes todo) (hnew : ∀ t ∈ todo, t.hash ∉ w₀.blobs)
    (hhandles : c.handles = []) (error : ConnectError) :
    Between w₀ w (c.rollbackNext error todo) (c.rollbackNext error todo).pc := by
  cases todo with
  | nil =>
    refine ⟨Finset.Subset.antisymm (fun hash hmem => ?_) hlow, hhandles⟩
    simpa using hhigh hmem
  | cons token rest => exact ⟨hlow, hhigh, hnew, hhandles⟩

/-- A rollback starts with the snapshot still there. -/
theorem between_rollback (hsnapshot : c.preExisting = w₀.blobs) (hlow : w₀.blobs ⊆ w.blobs)
    (hhigh : w.blobs ⊆ w₀.blobs ∪ hashes c.created) (hhandles : c.handles = [])
    (error : ConnectError) : Between w₀ w (c.rollback error) (c.rollback error).pc := by
  refine between_rollbackNext hlow (fun hash hmem => ?_) (fun t ht => ?_) hhandles error
  · rw [Finset.mem_union]
    by_cases hold : hash ∈ w₀.blobs
    · exact .inl hold
    · rcases Finset.mem_union.1 (hhigh hmem) with h | h
      · exact absurd h hold
      · obtain ⟨token, htoken, rfl⟩ := mem_hashes.1 h
        refine .inr (mem_hashes.2 ⟨token, mem_filter.2 ⟨htoken, ?_⟩, rfl⟩)
        rw [hsnapshot]
        exact decide_eq_true hold
  · have hfresh := of_decide_eq_true (mem_filter.1 ht).2
    rwa [hsnapshot] at hfresh

theorem between_distributeNext (hblobs : w.blobs = w₀.blobs ∪ hashes c.created) :
    Between w₀ w (c.distributeNext todo) (c.distributeNext todo).pc := by
  cases todo with
  | nil => trivial
  | cons p rest => exact hblobs

theorem between_ingestNext (hblobs : w.blobs = w₀.blobs ∪ hashes c.created) :
    Between w₀ w (c.ingestNext todo) (c.ingestNext todo).pc := by
  cases todo with
  | nil => exact between_distributeNext hblobs
  | cons file rest => exact hblobs

theorem undoable_start (w : Store) (validated : ValidatedBundle) (priority : TransferPriority) :
    Undoable w w (start w validated priority) where
  snapshot := (ingestNext_frame _ _).2.1
  running := by simp [start]
  between := between_ingestNext (by simp [hashes])

theorem Undoable.turn (hc : Undoable w₀ w c) (hwell : c.WellFormed)
    (hdeleted : label ≠ .delete false) (hok : c.Recoverable label) (h : Turn w c label w' c') :
    Undoable w₀ w' c' := by
  refine ⟨hc.toSince.turn h, ?_⟩
  have hbetween := hc.between
  have hprogress := hwell.progress
  cases h with
  | unread hpc =>
    rw [hpc] at hbetween hprogress
    have hblobs : w.blobs = w₀.blobs ∪ hashes c.created := hbetween
    exact between_rollback hc.snapshot (hblobs ▸ Finset.subset_union_left) hblobs.subset
      hprogress.1 _
  | stored hpc outcome token =>
    rw [hpc] at hbetween
    have hblobs : w.blobs = w₀.blobs ∪ hashes c.created := hbetween
    refine between_ingestNext ?_
    rw [Store.blobs_createBlob, hblobs, push, hashes_concat, Finset.union_insert]
  | mismatched hpc outcome token =>
    rw [hpc] at hbetween hprogress
    have hblobs : w.blobs = w₀.blobs ∪ hashes c.created := hbetween
    exact ⟨by rw [Store.blobs_createBlob, hblobs]; rfl, hprogress.1⟩
  | @discarded file token hpc deleted =>
    rw [hpc] at hbetween
    obtain ⟨hblobs, hhandles⟩ := hbetween
    -- the deleted blob is not of the snapshot, so the rollback can do the rest
    have hnew : token.hash ∉ w₀.blobs := hc.snapshot ▸ hok token.hash (by rw [hpc]; rfl)
    obtain rfl := deleted_of_ne hdeleted
    refine between_rollback hc.snapshot (fun hash hmem => ?_) (fun hash hmem => ?_) hhandles _
    · rw [Store.blobs_deleteBlob_true, hblobs, Finset.mem_erase]
      refine ⟨?_, Finset.mem_insert_of_mem (Finset.mem_union_left _ hmem)⟩
      rintro rfl
      exact hnew hmem
    · rw [Store.blobs_deleteBlob_true, hblobs, Finset.mem_erase, Finset.mem_insert] at hmem
      exact hmem.2.resolve_left hmem.1
  | started hpc hnew =>
    rw [hpc] at hbetween
    exact between_distributeNext hbetween
  | unstarted hpc e error =>
    rw [hpc] at hbetween
    have hblobs : w.blobs = w₀.blobs ∪ hashes c.created := hbetween
    exact between_rollback hc.snapshot (hblobs ▸ Finset.subset_union_left) hblobs.subset hok _
  | @deleted token rest error hpc deleted =>
    rw [hpc] at hbetween
    obtain ⟨hlow, hhigh, hnew, hhandles⟩ := hbetween
    obtain rfl := deleted_of_ne hdeleted
    refine between_rollbackNext (fun hash hmem => ?_) (fun hash hmem => ?_)
      (fun t ht => hnew t (mem_cons_of_mem token ht)) hhandles error
    · refine Finset.mem_erase.2 ⟨?_, hlow hmem⟩
      rintro rfl
      exact hnew token mem_cons_self hmem
    · obtain ⟨hne, hmem⟩ := Finset.mem_erase.1 hmem
      have hsplit := hhigh hmem
      simp only [Finset.mem_union, mem_hashes, mem_cons, exists_eq_or_imp] at hsplit ⊢
      rcases hsplit with h | h | h
      · exact .inl h
      · exact absurd h.symm hne
      · exact .inr h

/-! ### The bad side -/

/-- The two cases spoil a call for good. -/
theorem Undoable.spoil (hc : Undoable w₀ w c) (hdeleted : label ≠ .delete false)
    (hok : ¬ c.Recoverable label) (h : Turn w c label w' c') : Spoiled w₀ w' c' := by
  have hsince := hc.toSince.turn h
  cases h with
  | unread | stored | mismatched | started => exact absurd trivial hok
  | deleted hpc => simp [Recoverable, mismatchedBlob, hpc] at hok
  | @discarded file token hpc deleted =>
    refine ⟨hsince, (rollback_frame c _).2.2.2, .inl fun hsub => ?_⟩
    have hold : token.hash ∈ w₀.blobs := by
      simpa [Recoverable, mismatchedBlob, hpc, hc.snapshot] using hok
    obtain rfl := deleted_of_ne hdeleted
    exact Finset.notMem_erase _ _ (hsub hold)
  | unstarted hpc =>
    refine ⟨hsince, (rollback_frame c _).2.2.2, .inr ?_⟩
    rwa [(rollback_frame c _).2.2.1]

/-- A failing call only deletes. -/
theorem Spoiled.turn (hc : Spoiled w₀ w c) (h : Turn w c label w' c') : Spoiled w₀ w' c' := by
  have hsince := hc.toSince.turn h
  have hfailing := hc.failing
  have hless : ∀ (deleted : Bool) (hash : BlobHash), ¬ w₀.blobs ⊆ w.blobs →
      ¬ w₀.blobs ⊆ (w.deleteBlob deleted hash).blobs := by
    intro deleted hash hgone hsub
    cases deleted with
    | false => exact hgone hsub
    | true => exact hgone (hsub.trans (Finset.erase_subset _ _))
  cases h with
  | unread hpc | stored hpc | mismatched hpc | started hpc | unstarted hpc =>
    simp [hpc, IngestPc.failing] at hfailing
  | discarded hpc deleted error =>
    refine ⟨hsince, (rollback_frame c _).2.2.2, hc.spoiled.imp (hless _ _) fun hne => ?_⟩
    rwa [(rollback_frame c _).2.2.1]
  | deleted hpc deleted =>
    refine ⟨hsince, (rollbackNext_frame c _ _).2.2.2, hc.spoiled.imp (hless _ _) fun hne => ?_⟩
    rwa [(rollbackNext_frame c _ _).2.2.1]

end IngestCall

/-! ### The request around the call -/

def SendPc.ingestCall : SendPc → Option IngestCall
  | .ingesting _ _ c => some c
  | .received | .validated _ | .admitted _ | .probed .. | .fresh .. | .ingested .. | .returned _ => none

namespace SendCall

/-- The failure at hand can be made up for. -/
def Recoverable (s : Sidecar × SendCall) : SendLabel → Prop
  | .ingest l => ∀ c ∈ s.2.pc.ingestCall, c.Recoverable l
  | .validate _ | .checkCap | .probe _ | .recheck _ | .snapshot | .record .. => True

instance (s : Sidecar × SendCall) (label : SendLabel) : Decidable (Recoverable s label) := by
  unfold Recoverable
  split <;> infer_instance

/-- Blobs and distributions are those of the start. -/
def Undone (w₀ w : Store) : Prop := w.blobs = w₀.blobs ∧ w.running = w₀.running

def Good (w₀ w : Store) : SendPc → Prop
  | .fresh .. => w = w₀
  | .ingesting _ _ c => c.WellFormed ∧ c.Undoable w₀ w
  | .ingested .. | .returned (.ok _) => True
  | .returned (.error _) => Undone w₀ w
  | .received | .validated _ | .admitted _ | .probed .. => False

def Bad (w₀ w : Store) : SendPc → Prop
  | .ingesting _ _ c => c.Spoiled w₀ w
  | .returned (.error _) => ¬ Undone w₀ w
  | .received | .validated _ | .admitted _ | .probed .. | .fresh .. | .ingested ..
  | .returned (.ok _) => False

variable {platform : Platform} {cfg : AttachmentConfig} {w₀ w : Store} {c : IngestCall}
  {n n' : Sidecar} {call call' : SendCall} {label : SendLabel}

theorem good_settle (hwell : c.WellFormed) (hc : c.Undoable w₀ w) (bundleId : String)
    (identity : BundleIdentity) : Good w₀ w (settle bundleId identity c) := by
  unfold settle
  split
  · rename_i hpc
    have hbetween := hc.between
    rw [hpc] at hbetween
    obtain ⟨hblobs, hhandles⟩ := hbetween
    refine ⟨hblobs, ?_⟩
    rw [hc.running, hhandles, map_nil, append_nil]
  · trivial
  all_goals exact ⟨hwell, hc⟩

theorem bad_settle (hc : c.Spoiled w₀ w) (bundleId : String) (identity : BundleIdentity) :
    Bad w₀ w (settle bundleId identity c) := by
  unfold settle
  split
  · rintro ⟨hblobs, hrunning⟩
    rcases hc.spoiled with hgone | hhandles
    · exact hgone hblobs.ge
    · rw [hc.running, append_right_eq_self, map_eq_nil_iff] at hrunning
      exact hhandles hrunning
  · rename_i hpc
    have hfailing := hc.failing
    simp [hpc, IngestPc.failing] at hfailing
  all_goals exact hc

theorem good_turn (hgood : Good w₀ n.store call.pc) (hdeleted : label ≠ .ingest (.delete false))
    (hok : Recoverable (n, call) label) (h : Turn platform cfg n call label n' call') :
    Good w₀ n'.store call'.pc := by
  cases h with
  | validate hpc | cap hpc | decided hpc | undecided hpc | recheck hpc =>
    rw [hpc] at hgood
    exact hgood.elim
  | snapshot hpc priority =>
    rw [hpc] at hgood
    obtain rfl : n.store = w₀ := hgood
    exact good_settle (IngestCall.wellFormed_start _ _ _) (IngestCall.undoable_start _ _ _) _ _
  | ingest hpc hturn =>
    rw [hpc] at hgood
    obtain ⟨hwell, hundoable⟩ := hgood
    have hrecoverable := hok _ (by rw [hpc]; rfl)
    refine good_settle (hwell.turn hturn) (hundoable.turn hwell ?_ hrecoverable hturn) _ _
    rintro rfl
    exact hdeleted rfl
  | record => trivial

theorem bad_of_turn (hgood : Good w₀ n.store call.pc) (hdeleted : label ≠ .ingest (.delete false))
    (hok : ¬ Recoverable (n, call) label) (h : Turn platform cfg n call label n' call') :
    Bad w₀ n'.store call'.pc := by
  cases h with
  | validate | cap | decided | undecided | recheck | snapshot | record => exact absurd trivial hok
  | ingest hpc hturn =>
    rw [hpc] at hgood
    refine bad_settle (hgood.2.spoil ?_ (fun hrecoverable => hok ?_) hturn) _ _
    · rintro rfl
      exact hdeleted rfl
    · intro c hc
      rw [hpc] at hc
      exact Option.some.inj hc ▸ hrecoverable

theorem bad_turn (hbad : Bad w₀ n.store call.pc) (h : Turn platform cfg n call label n' call') :
    Bad w₀ n'.store call'.pc := by
  cases h with
  | validate hpc | cap hpc | decided hpc | undecided hpc | recheck hpc | snapshot hpc | record hpc =>
    rw [hpc] at hbad
    exact hbad.elim
  | ingest hpc hturn =>
    rw [hpc] at hbad
    exact bad_settle (hbad.turn hturn) _ _

/-- **When a failed request leaves nothing behind.** For every bundle, store and place of the
failure, with all deletions succeeding: the request returns an error with the blobs and the
distributions as they were exactly when neither case has come up. -/
theorem failed_request_undone_iff (platform : Platform) (cfg : AttachmentConfig) (n n' : Sidecar)
    (request : SendAttachmentsRequest) (bundleId : String) (v : ValidatedBundle)
    (labels : List SendLabel) (call' : SendCall) (e : ConnectError)
    (hrun : Lts.exec (step platform cfg) (n, ⟨request, .fresh bundleId v⟩) labels =
      some (n', call')) (hdeleted : ∀ label ∈ labels, label ≠ .ingest (.delete false))
    (hfailed : call'.pc = .returned (.error e)) :
    (n'.store.blobs = n.store.blobs ∧ n'.store.running = n.store.running) ↔
      Lts.Along (step platform cfg) Recoverable (n, ⟨request, .fresh bundleId v⟩) labels := by
  have hstart : Good n.store n.store (.fresh bundleId v) := rfl
  rcases Lts.exec_dichotomy_within (fun _ label => label ≠ .ingest (.delete false))
      (fun s : Sidecar × SendCall => Good n.store s.1.store s.2.pc)
      (fun s : Sidecar × SendCall => Bad n.store s.1.store s.2.pc)
      (fun s a s' hs ha hok h => good_turn hs ha hok (.of_advance h))
      (fun s a s' hs ha hok h => bad_of_turn hs ha hok (.of_advance h))
      (fun s a s' hs _ h => bad_turn hs (.of_advance h)) hstart (Lts.along_of_forall hdeleted _) hrun with
    ⟨halong, hend⟩ | ⟨halong, hend⟩
  · simp only [hfailed] at hend
    exact iff_of_true hend halong
  · simp only [hfailed] at hend
    exact iff_of_false hend halong

def nodeWith (blobs : Finset BlobHash) : Sidecar := ⟨.empty, ⟨blobs, []⟩⟩

def newBundle (files : List ValidatedFile) : SendCall :=
  ⟨⟨[], none, none, none⟩, .fresh "bundle" (bundleOf files)⟩

def vanished : List SendLabel :=
  [.snapshot, .ingest (.read (.content [])), .ingest (.read (.openFailed "gone")),
    .ingest (.delete true)]

theorem vanished_undone : ∃ r ∈ Lts.exec (step byContent plainConfig)
        (nodeWith {"other"}, newBundle [sampleFile 0 (digestOf []), sampleFile 1 (digestOf [])])
        vanished,
      r.2.pc.result = some (.error
        (IngestCall.openError byContent (sampleFile 1 (digestOf [])) "gone")) ∧
      r.1.store.blobs = {"other"} ∧ r.1.store.running = [] := by
  have hdeleted : ∀ label ∈ vanished, label ≠ .ingest (.delete false) := by simp [vanished]
  exact Lts.exists_mem_and (by decide +kernel) fun r hrun hresult =>
    (failed_request_undone_iff byContent plainConfig (nodeWith {"other"}) r.1 _ _ _ vanished r.2 _ hrun
      hdeleted (SendPc.eq_returned hresult)).2 (by decide +kernel)

/-- The file is there, its hash declared wrong. -/
def misdeclared : List SendLabel :=
  [.snapshot, .ingest (.read (.content [])), .ingest (.delete true)]

def undistributed : List SendLabel :=
  [.snapshot, .ingest (.read (.content [])), .ingest (.read (.content [1])),
    .ingest (.distribute (.ok "first")), .ingest (.distribute (.error "offline")),
    .ingest (.delete true), .ingest (.delete true)]

/-- **The two cases.**  The blob that was there is gone; the first distribution
runs, without its blob. -/
theorem failed_request_leaves_traces : (∃ r ∈ Lts.exec (step byContent plainConfig)
        (nodeWith {""}, newBundle [sampleFile 0 zeroDigest]) misdeclared,
      r.2.pc.result = some (.error (IngestCall.mismatchError (sampleFile 0 zeroDigest))) ∧
        r.1.store.blobs = ∅) ∧
    ∃ r ∈ Lts.exec (step byContent plainConfig)
        (nodeWith ∅, newBundle [sampleFile 0 (digestOf []), sampleFile 1 (digestOf [1])])
        undistributed,
      r.2.pc.result = some (.error
        (IngestCall.distributeError (sampleFile 1 (digestOf [1])) "offline")) ∧
        r.1.store.blobs = ∅ ∧ r.1.store.running = [⟨"first", "", .allNodes, .normal⟩] := by
  decide +kernel

end SendCall

end PeatNode.Attachments
