/-
# Requests that share the blob store

Any number of `ingest_bundle` calls over one store, interleaved at their await points.  What a
call may delete is decided by its snapshot, so two requests with a file in common can both take
the blob for their own, and the rollback of one deletes that of the other. The deletion after a
SHA-256 mismatch does not even look at the snapshot (`shared_blob_lost`).

Where calls with a content in common do not overlap and the later one declares the right SHA-256,
every blob that was returned stays (`returned_blobs_kept`).
-/

import PeatNode.Attachments.Ingest
import PeatNode.Lib.Lists

namespace PeatNode.Attachments

open List IngestCall

/-- The calls of `ingest_bundle` of a node, by their starts. -/
structure Ingests where
  store : Store
  calls : List IngestCall
  earlier : List (List ℕ)

inductive IngestsLabel
  | start (validated : ValidatedBundle) (priority : TransferPriority)
  | advance (i : ℕ) (label : IngestLabel)

namespace Ingests

def init (w : Store) : Ingests := ⟨w, [], []⟩

def returnedCalls (s : Ingests) : List ℕ :=
  (range s.calls.length).filter fun j => s.calls[j]?.any (·.pc.isReturned)

variable (platform : Platform)

def step (s : Ingests) : IngestsLabel → Option Ingests
  | .start validated priority =>
    some { s with
      calls := s.calls ++ [IngestCall.start s.store validated priority]
      earlier := s.earlier ++ [s.returnedCalls] }
  | .advance i label =>
    match s.calls[i]? with
    | none => none
    | some c =>
      (IngestCall.advance platform s.store c label).map fun r =>
        { s with store := r.1, calls := s.calls.set i r.2 }

/-- The blobs of returned handles are stored. -/
def Kept (s : Ingests) : Prop :=
  ∀ c ∈ s.calls, ∀ b ∈ c.pc.returnedHandles, b.blobToken.hash ∈ s.store.blobs
deriving Decidable

/-! ### Contents and overlap -/

/-- Call `j` had returned when `i` started. -/
def Before (s : Ingests) (j i : ℕ) : Prop := ∃ done ∈ s.earlier[i]?, j ∈ done
deriving Decidable

/-- It has read this content. -/
def Reads (c : IngestCall) (hash : BlobHash) : Prop :=
  (∃ token ∈ c.created, token.hash = hash) ∨ mismatchedBlob c.pc = some hash
deriving Decidable

/-- The hash that the label lets it read. -/
def reading (c : IngestCall) (label : IngestLabel) : Option BlobHash :=
  match c.pc, label with
  | .ingesting .., .read (.content bytes) => some (platform.contentHash bytes)
  | _, _ => none

/-- The file read has the declared SHA-256. -/
def Declared (c : IngestCall) (label : IngestLabel) : Prop :=
  match c.pc, label with
  | .ingesting file _, .read (.content bytes) => Sha256.hash bytes = file.sha256.1
  | _, _ => True

/-- Calls that read the same content do not overlap, and the later one declares its SHA-256 if the
earlier one returned `Ok`. -/
def Apart (s : Ingests) : IngestsLabel → Prop
  | .start .. => True
  | .advance i label => ∀ c ∈ s.calls[i]?, ∀ hash ∈ reading platform c label,
      ∀ j < s.calls.length, j ≠ i → ∀ d ∈ s.calls[j]?, Reads d hash →
        s.Before j i ∧ (d.pc.failing = false → Declared c label)

instance (c : IngestCall) (label : IngestLabel) : Decidable (Declared c label) := by
  unfold Declared
  split <;> infer_instance

instance (s : Ingests) (label : IngestsLabel) : Decidable (s.Apart platform label) := by
  cases label <;> unfold Apart <;> infer_instance

variable {platform} {s s' : Ingests}

/-- A step is the start of a call or a turn of one. -/
theorem step_cases (h : step platform s label = some s') :
    (∃ validated priority, s' = { s with
        calls := s.calls ++ [start s.store validated priority]
        earlier := s.earlier ++ [s.returnedCalls] }) ∨
      ∃ i l c w' c', label = .advance i l ∧ s.calls[i]? = some c ∧
        IngestCall.advance platform s.store c l = some (w', c') ∧
          s' = { s with store := w', calls := s.calls.set i c' } := by
  cases label with
  | start validated priority => exact .inl ⟨validated, priority, (Option.some.inj h).symm⟩
  | advance i l =>
    simp only [step] at h
    split at h
    · simp at h
    · rename_i c hc
      obtain ⟨⟨w', c'⟩, hadvance, rfl⟩ := Option.map_eq_some_iff.1 h
      exact .inr ⟨i, l, c, w', c', rfl, hc, hadvance, rfl⟩

theorem mem_returnedCalls {j : ℕ} :
    j ∈ s.returnedCalls ↔ ∃ d, s.calls[j]? = some d ∧ d.pc.isReturned = true := by
  simp only [returnedCalls, mem_filter, mem_range, Option.any_eq_true]
  exact ⟨fun h => h.2, fun ⟨d, hd, hret⟩ => ⟨(List.getElem?_eq_some_iff.1 hd).1, d, hd, hret⟩⟩

/-! ### Every call that goes well finds its blobs -/

/-- It has put the blob in and has not failed. -/
def Holds (c : IngestCall) (hash : BlobHash) : Prop :=
  c.pc.failing = false ∧ ∃ token ∈ c.created, token.hash = hash

/-- The blobs the call has put in are in the store, unless it failed. -/
structure Supplied (w : Store) (c : IngestCall) : Prop where
  wellFormed : c.WellFormed
  present : ∀ hash, Holds c hash → hash ∈ w.blobs

theorem not_holds_of_failing (h : c.pc.failing = true) (hash : BlobHash) : ¬ Holds c hash := by
  rintro ⟨hgoing, -⟩
  simp [h] at hgoing

theorem Supplied.start (w : Store) (validated : ValidatedBundle) (priority : TransferPriority) :
    Supplied w (IngestCall.start w validated priority) where
  wellFormed := IngestCall.wellFormed_start w validated priority
  present := by
    rintro hash ⟨-, token, htoken, -⟩
    simp [IngestCall.start] at htoken

/-- The turn of a call keeps its own supply: it deletes only once it has failed. -/
theorem Supplied.turn (hc : Supplied w c) (h : IngestCall.Turn w c l w' c') : Supplied w' c' := by
  refine ⟨hc.wellFormed.turn h, ?_⟩
  cases h with
  | unread | discarded | unstarted =>
    exact fun hash hholds =>
      absurd hholds (not_holds_of_failing (rollback_frame c _).2.2.2 hash)
  | deleted =>
    exact fun hash hholds =>
      absurd hholds (not_holds_of_failing (rollbackNext_frame c _ _).2.2.2 hash)
  | mismatched => exact fun hash hholds => absurd hholds (not_holds_of_failing rfl hash)
  | stored hpc outcome token =>
    rintro hash ⟨-, t, ht, rfl⟩
    rw [(ingestNext_frame _ _).2.2.1, push, mem_append] at ht
    rw [Store.blobs_createBlob, Finset.mem_insert]
    rcases ht with ht | ht
    · exact .inr (hc.present t.hash ⟨by rw [hpc]; rfl, t, ht, rfl⟩)
    · exact .inl (by rw [mem_singleton.1 ht])
  | started hpc hnew =>
    rintro hash ⟨-, t, ht, rfl⟩
    rw [(distributeNext_frame _ _).2.2.1] at ht
    exact hc.present t.hash ⟨by rw [hpc]; rfl, t, ht, rfl⟩

/-- What a turn takes out of the store is the blob that the call is deleting. -/
theorem mem_blobs_of_turn (h : IngestCall.Turn w c l w' c') {hash : BlobHash}
    (hmem : hash ∈ w.blobs) (hkeep : l = .delete true → c.pc.deleting ≠ some hash) :
    hash ∈ w'.blobs := by
  have hdelete : ∀ (token : BlobToken) (deleted : Bool), l = .delete deleted →
      c.pc.deleting = some token.hash → hash ∈ (w.deleteBlob deleted token.hash).blobs := by
    intro token deleted hl hdeleting
    cases deleted with
    | false => exact hmem
    | true =>
      refine Finset.mem_erase.2 ⟨?_, hmem⟩
      rintro rfl
      exact hkeep hl hdeleting
  cases h with
  | unread | unstarted | started => exact hmem
  | stored | mismatched => exact Finset.mem_insert_of_mem hmem
  | discarded hpc deleted error | deleted hpc deleted =>
    exact hdelete _ deleted rfl (by rw [hpc]; rfl)

/-! ### What a call reads -/

section Reading

variable (h : IngestCall.advance platform w c l = some (w', c')) {hash : BlobHash}
include h

/-- A step reads no content, or one that it takes in, or one that it discards. -/
theorem advance_cases :
    (c'.created = c.created ∧ mismatchedBlob c'.pc = none ∧
        (c'.pc.failing = false → c.pc.failing = false)) ∨
      ∃ token, reading platform c l = some token.hash ∧ c.pc.failing = false ∧
        (c'.created = c.created ++ [token] ∧ mismatchedBlob c'.pc = none ∨
          c'.created = c.created ∧ c'.pc.failing = true ∧
            mismatchedBlob c'.pc = some token.hash ∧ ¬ Declared c l) := by
  unfold IngestCall.advance at h
  split at h
  case h_3 file rest bytes hpc =>
    have hread : reading platform c (.read (.content bytes)) =
        some (tokenFor platform file bytes).hash := by
      simp [reading, hpc, tokenFor]
    have hgoing : c.pc.failing = false := by rw [hpc]; rfl
    simp only at h
    split_ifs at h with hsha
    all_goals
      cases h
      refine .inr ⟨_, hread, hgoing, ?_⟩
    · exact .inl ⟨(ingestNext_frame _ _).2.2.1, mismatchedBlob_ingestNext _ _⟩
    · exact .inr ⟨rfl, rfl, rfl, by simpa [Declared, hpc] using hsha⟩
  case h_5 =>
    split_ifs at h
    cases h
    simp [*, IngestPc.failing, pushHandle]
  all_goals cases h
  all_goals simp [rollback]

theorem reads_advance (hreads : Reads c' hash) :
    Reads c hash ∨ reading platform c l = some hash := by
  unfold Reads at hreads
  rcases advance_cases h with ⟨hcreated, hnone, -⟩ | ⟨token, hread, -, hstored | hdropped⟩
  · rw [hcreated, hnone] at hreads
    exact .inl (.inl (hreads.resolve_right nofun))
  · rw [hstored.1, hstored.2] at hreads
    obtain ⟨t, ht, rfl⟩ := hreads.resolve_right nofun
    rcases mem_append.1 ht with ht | ht
    · exact .inl (.inl ⟨t, ht, rfl⟩)
    · rw [mem_singleton.1 ht]
      exact .inr hread
  · rw [hdropped.1, hdropped.2.2.1] at hreads
    exact hreads.imp .inl hread.trans

theorem holds_advance (hholds : Holds c' hash) :
    Holds c hash ∨ reading platform c l = some hash := by
  obtain ⟨hgoing, t, ht, rfl⟩ := hholds
  rcases advance_cases h with ⟨hcreated, -, hkeep⟩ | ⟨token, hread, hwas, hstored | hdropped⟩
  · exact .inl ⟨hkeep hgoing, t, hcreated ▸ ht, rfl⟩
  · rw [hstored.1] at ht
    rcases mem_append.1 ht with ht | ht
    · exact .inl ⟨hwas, t, ht, rfl⟩
    · rw [mem_singleton.1 ht]
      exact .inr hread
  · simp [hdropped.2.1] at hgoing

theorem mismatched_advance (hblob : mismatchedBlob c'.pc = some hash) :
    reading platform c l = some hash ∧ ¬ Declared c l := by
  rcases advance_cases h with ⟨-, hnone, -⟩ | ⟨token, hread, -, ⟨-, hnone⟩ | hdropped⟩
  · simp [hnone] at hblob
  · simp [hnone] at hblob
  · rw [hdropped.2.2.1] at hblob
    exact ⟨hread.trans hblob, hdropped.2.2.2⟩

theorem not_returned_of_advance : c.pc.isReturned = false := by
  cases hpc : c.pc with
  | returned result => simp [IngestCall.advance, hpc] at h
  | ingesting | mismatched | distributing | rollingBack => rfl

theorem preExisting_advance : c'.preExisting = c.preExisting := by
  cases IngestCall.Turn.of_advance h with
  | unread | discarded | unstarted => exact (rollback_frame c _).1
  | deleted => exact (rollbackNext_frame c _ _).1
  | stored => exact (ingestNext_frame _ _).2.1
  | mismatched => rfl
  | started => exact (distributeNext_frame _ _).2.1

end Reading

/-! ### What a rollback may delete -/

/-- `c` may delete nothing that `d` holds: a blob it has read was in its snapshot and is not
discarded. -/
def Spares (c d : IngestCall) : Prop := ∀ hash, Holds d hash → c.pc.isReturned = false →
  Reads c hash → hash ∈ c.preExisting ∧ mismatchedBlob c.pc ≠ some hash

theorem Spares.not_deleting {hash : BlobHash} (h : Spares c d) (hc : c.WellFormed)
    (hholds : Holds d hash) :
    c.pc.deleting ≠ some hash := by
  intro hdeleting
  have hprogress := hc.progress
  have hspared := h hash hholds
  cases hpc : c.pc with
  | mismatched file token =>
    rw [hpc] at hspared hdeleting
    exact (hspared rfl (.inr (hpc ▸ hdeleting))).2 hdeleting
  | rollingBack token rest error =>
    rw [hpc] at hprogress hdeleting
    obtain rfl := Option.some.inj hdeleting
    obtain ⟨hcreated, hnew⟩ := hprogress token mem_cons_self
    exact hnew (hspared (by rw [hpc]; rfl) (.inl ⟨token, hcreated, rfl⟩)).1
  | ingesting | distributing | returned => simp [hpc, IngestPc.deleting] at hdeleting

structure Inv (s : Ingests) : Prop where
  supplied : ∀ (i : ℕ) c, s.calls[i]? = some c → Supplied s.store c
  starts : s.earlier.length = s.calls.length
  before : ∀ i j, s.Before j i → ∃ d, s.calls[j]? = some d ∧ d.pc.isReturned = true ∧
    ∀ c ∈ s.calls[i]?, ∀ hash, Holds d hash → hash ∈ c.preExisting
  spares : ∀ (i j : ℕ) c d, i ≠ j → s.calls[i]? = some c → s.calls[j]? = some d → Spares c d

theorem not_reads_start (w : Store) (validated : ValidatedBundle) (priority : TransferPriority)
    (hash : BlobHash) : ¬ Reads (IngestCall.start w validated priority) hash := by
  simp [Reads, IngestCall.start]

theorem Holds.reads {hash : BlobHash} (h : Holds c hash) : Reads c hash := .inl h.2

theorem Inv.start (hs : s.Inv) (validated : ValidatedBundle) (priority : TransferPriority) :
    Inv { s with
      calls := s.calls ++ [IngestCall.start s.store validated priority]
      earlier := s.earlier ++ [s.returnedCalls] } := by
  refine ⟨fun i c hc => ?_, by simp [hs.starts], fun i j ⟨done, hdone, hj⟩ => ?_,
    fun i j c d hij hc hd => ?_⟩
  · rcases getElem?_concat_cases hc with hc | ⟨-, rfl⟩
    · exact hs.supplied i c hc
    · exact .start s.store validated priority
  · -- the snapshot of the new call is the store, in which every call finds its blobs
    rcases getElem?_concat_cases hdone with hdone | ⟨hi, rfl⟩
    · obtain ⟨d, hd, hret, hfound⟩ := hs.before i j ⟨done, hdone, hj⟩
      refine ⟨d, (prefix_append ..).getElem?_eq_some hd, hret, fun c hc => ?_⟩
      have hlt := (List.getElem?_eq_some_iff.1 hdone).1
      rw [hs.starts] at hlt
      exact hfound c (getElem?_append_left hlt ▸ hc)
    · obtain ⟨d, hd, hret⟩ := mem_returnedCalls.1 hj
      refine ⟨d, (prefix_append ..).getElem?_eq_some hd, hret, fun c hc hash hholds => ?_⟩
      obtain rfl : c = IngestCall.start s.store validated priority := by
        rw [hi, hs.starts] at hc
        simpa using hc.symm
      rw [IngestCall.start, (ingestNext_frame _ _).2.1]
      exact (hs.supplied j d hd).present hash hholds
  · rcases getElem?_concat_cases hc with hc | ⟨-, rfl⟩
    · rcases getElem?_concat_cases hd with hd | ⟨-, rfl⟩
      · exact hs.spares i j c d hij hc hd
      · exact fun hash hholds => absurd hholds.reads (not_reads_start _ _ _ hash)
    · exact fun hash _ _ hreads => absurd hreads (not_reads_start _ _ _ hash)

theorem Inv.advance (hs : s.Inv) (hok : s.Apart platform (.advance i l)) (hc : s.calls[i]? = some c)
    (h : IngestCall.advance platform s.store c l = some (w', c')) :
    Inv { s with store := w', calls := s.calls.set i c' } := by
  have hturn := IngestCall.Turn.of_advance h
  have hpre := preExisting_advance h
  -- what the call reads no other call has read, or one that had returned when it started
  have hshared : ∀ (j : ℕ) d hash, j ≠ i → s.calls[j]? = some d →
      reading platform c l = some hash → Reads d hash →
        s.Before j i ∧ (d.pc.failing = false → Declared c l) := fun j d hash hij hd hread =>
    hok c hc hash hread j (List.getElem?_eq_some_iff.1 hd).1 hij d hd
  have hbefore : ∀ (j : ℕ) d, s.Before j i → s.calls[j]? = some d → d.pc.isReturned = true ∧
      ∀ hash, Holds d hash → hash ∈ c.preExisting := by
    intro j d hj hd
    obtain ⟨d', hd', hret, hfound⟩ := hs.before i j hj
    obtain rfl : d' = d := Option.some.inj (hd'.symm.trans hd)
    exact ⟨hret, hfound c hc⟩
  refine ⟨fun j d hd => ?_, by simp [hs.starts], fun i' j hj => ?_, fun i' j e d hne he hd => ?_⟩
  · rcases getElem?_set_cases hd with ⟨-, rfl⟩ | ⟨hji, hd⟩
    · exact (hs.supplied i c hc).turn hturn
    · have hsupplied := hs.supplied j d hd
      have hspares := hs.spares i j c d hji.symm hc hd
      exact ⟨hsupplied.wellFormed, fun hash hholds =>
        mem_blobs_of_turn hturn (hsupplied.present hash hholds)
          fun _ => hspares.not_deleting (hs.supplied i c hc).wellFormed hholds⟩
  · obtain ⟨d, hd, hret, hfound⟩ := hs.before i' j hj
    have hij : i ≠ j := by
      rintro rfl
      obtain rfl : c = d := Option.some.inj (hc.symm.trans hd)
      simp [not_returned_of_advance h] at hret
    refine ⟨d, by rw [getElem?_set_ne hij, hd], hret, fun e he => ?_⟩
    rcases getElem?_set_cases he with ⟨rfl, rfl⟩ | ⟨-, he⟩
    · rw [hpre]
      exact hfound c hc
    · exact hfound e he
  · rcases getElem?_set_cases he with ⟨hi, rfl⟩ | ⟨hi, he'⟩
    · obtain ⟨hji, hd⟩ := (getElem?_set_cases hd).resolve_left fun hj => hne (hi.trans hj.1.symm)
      intro hash hholds _ hreads
      refine ⟨hpre ▸ ?_, fun hblob => ?_⟩
      · rcases reads_advance h hreads with hold | hnew
        · exact (hs.spares i j c d hji.symm hc hd hash hholds (not_returned_of_advance h) hold).1
        · exact (hbefore j d (hshared j d hash hji hd hnew hholds.reads).1 hd).2 hash hholds
      · obtain ⟨hnew, hwrong⟩ := mismatched_advance h hblob
        exact hwrong ((hshared j d hash hji hd hnew hholds.reads).2 hholds.1)
    · rcases getElem?_set_cases hd with ⟨-, rfl⟩ | ⟨-, hd⟩
      · intro hash hholds hrun hreads
        rcases holds_advance h hholds with hold | hnew
        · exact hs.spares i' i e c hi he' hc hash hold hrun hreads
        · have hret := (hbefore i' e (hshared i' e hash hi he' hnew hreads).1 he').1
          simp [hrun] at hret
      · exact hs.spares i' j e d hne he' hd

theorem Inv.step (hs : s.Inv) (hok : s.Apart platform label)
    (h : step platform s label = some s') : s'.Inv := by
  obtain ⟨validated, priority, rfl⟩ | ⟨i, l, c, w', c', rfl, hc, hadvance, rfl⟩ := step_cases h
  · exact hs.start validated priority
  · exact hs.advance hok hc hadvance

theorem Inv.kept (hs : s.Inv) : s.Kept := by
  intro c hc b hb
  obtain ⟨i, hi⟩ := mem_iff_getElem?.1 hc
  have hsupplied := hs.supplied i c hi
  have hprogress := hsupplied.wellFormed.progress
  cases hpc : c.pc with
  | returned result =>
    cases result with
    | error e => simp [hpc, IngestPc.returnedHandles] at hb
    | ok handles =>
      rw [hpc] at hprogress hb
      obtain ⟨rfl, -⟩ := hprogress
      exact hsupplied.present _ ⟨by rw [hpc]; rfl, _, hsupplied.wellFormed.tokens b hb, rfl⟩
  | ingesting | mismatched | distributing | rollingBack =>
    simp [hpc, IngestPc.returnedHandles] at hb

/-- **What was returned stays.** In a run in which calls with a content in common do not overlap
and none misdeclares a content that was returned, the handles of every returned call find their
blobs, whatever other calls roll back. -/
theorem returned_blobs_kept (platform : Platform) (w : Store) (labels : List IngestsLabel)
    (s : Ingests) (hrun : Lts.exec (step platform) (init w) labels = some s)
    (hapart : Lts.Along (step platform) (Apart platform) (init w) labels) : s.Kept := by
  have hinit : (init w).Inv := by
    constructor <;> simp [init, Before]
  exact (Lts.exec_invariant Inv (fun s label s' hs hok h => hs.step hok h) hinit hapart hrun).kept

/-! ### A blob that is kept and blobs that are lost -/

def sendsEmpty : List IngestsLabel :=
  [.advance 0 (.read (.content [])), .advance 0 (.distribute (.ok "first"))]

/-- The second call, after the first, sends the same file and one of its own, and fails at a
third: its rollback passes over the first. -/
def resent : List IngestsLabel :=
  [.start (bundleOf [sampleFile 0 (digestOf [])]) .normal] ++ sendsEmpty ++
  [.start (bundleOf [sampleFile 0 (digestOf []), sampleFile 1 (digestOf [1]),
      sampleFile 2 (digestOf [])]) .normal,
    .advance 1 (.read (.content [])), .advance 1 (.read (.content [1])),
    .advance 1 (.read (.openFailed "gone")), .advance 1 (.delete true)]

theorem resent_blobs_kept : ∃ s ∈ Lts.exec (step byContent) (init ⟨∅, []⟩) resent,
      (s.store.blobs = {""} ∧ s.returnedCalls = [0, 1] ∧
        s.calls.any fun c => c.pc.returnedHandles.length = 1) ∧ s.Kept :=
  Lts.exists_mem_and (by decide +kernel) fun s hrun _ =>
    returned_blobs_kept byContent _ _ s hrun (by decide +kernel)

/-- The second call starts early and fails late. -/
def overlapping : List IngestsLabel :=
  [.start (bundleOf [sampleFile 0 (digestOf [])]) .normal,
    .start (bundleOf [sampleFile 0 (digestOf []), sampleFile 1 (digestOf [])]) .normal] ++
  sendsEmpty ++
  [.advance 1 (.read (.content [])), .advance 1 (.read (.openFailed "gone")),
    .advance 1 (.delete true)]

/-- The second call declares a wrong hash. -/
def misdeclared : List IngestsLabel :=
  [.start (bundleOf [sampleFile 0 (digestOf [])]) .normal] ++ sendsEmpty ++
  [.start (bundleOf [sampleFile 0 zeroDigest]) .normal,
    .advance 1 (.read (.content [])), .advance 1 (.delete true)]

/-- Both runs end without the blob that the first call has returned. -/
theorem shared_blob_lost : (∃ s ∈ Lts.exec (step byContent) (init ⟨∅, []⟩) overlapping, ¬ s.Kept) ∧
      ∃ s ∈ Lts.exec (step byContent) (init ⟨∅, []⟩) misdeclared, ¬ s.Kept := by
  decide +kernel

end Ingests

end PeatNode.Attachments
