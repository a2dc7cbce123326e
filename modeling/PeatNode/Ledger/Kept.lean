/-
# Records that a journal file keeps

A digest is kept by some bytes when one of the whole records behind the header decodes to it.
Recovery knows exactly the digests its file keeps (`mem_iff_of_recover`), and neither a request nor
an attempt to open the file takes one away (`recordInner_advances`, `kept_openJournal`).
-/

import PeatNode.Ledger.Reopen

namespace PeatNode.Ledger

open Chunks DurableFile List Finmap

/-- A header and whole records. -/
def InChunks (f : File) : Prop :=
  headerLen ≤ f.content.length ∧ (f.content.length - headerLen) % recordLen = 0
deriving Decidable

theorem InChunks.length_eq (h : InChunks f) :
    f.content.length = headerLen + (f.content.length - headerLen) / recordLen * recordLen := by
  have hdiv := Nat.div_add_mod (f.content.length - headerLen) recordLen
  rw [h.2, Nat.add_zero, Nat.mul_comm] at hdiv
  have hle := h.1
  omega

theorem mem_chunks_of_isPrefix {bytes bytes' chunk : List UInt8} (h : bytes <+: bytes')
    (hc : chunk ∈ wholeChunks recordLen (bytes.drop headerLen)) :
    chunk ∈ wholeChunks recordLen (bytes'.drop headerLen) :=
  (wholeChunks_of_isPrefix (by decide) (h.drop headerLen)).subset hc

theorem InChunks.mem_chunks_append (h : InChunks f) (sequence : ℕ) (state : RecordState)
    (digest : LedgerDigest) :
    encodeRecord sequence state digest ∈ wholeChunks recordLen ((f.content ++
      (encodeRecord sequence state digest).take AppendFault.none.written).drop headerLen) := by
  have hall := take_of_length_le (length_encodeRecord sequence state digest).le
  rw [AppendFault.written, hall, wholeChunks_drop_append h.length_eq,
    wholeChunks_single (by decide) (length_encodeRecord _ _ _)]
  exact mem_append_right _ mem_cons_self

/-- A whole record is about it. -/
def Kept (bytes : List UInt8) (d : LedgerDigest) : Prop :=
  ∃ chunk ∈ wholeChunks recordLen (bytes.drop headerLen),
    ∃ sequence state, decodeRecord chunk = .ok (sequence, state, d)

variable {d : LedgerDigest}

theorem Kept.mono (h : Kept bytes d) (hle : bytes <+: bytes') : Kept bytes' d := by
  obtain ⟨chunk, hc, hd⟩ := h
  exact ⟨chunk, mem_chunks_of_isPrefix hle hc, hd⟩

theorem not_kept_nil (d : LedgerDigest) : ¬ Kept [] d := by
  rintro ⟨chunk, hc, -⟩
  rw [drop_nil, wholeChunks_nil] at hc
  simp at hc

theorem Kept.take (h : Kept bytes d) :
    Kept (bytes.take (headerLen + (bytes.length - headerLen) / recordLen * recordLen)) d := by
  obtain ⟨chunk, hc, hd⟩ := h
  refine ⟨chunk, ?_, hd⟩
  rw [drop_take, Nat.add_sub_cancel_left, wholeChunks_take (by decide) (by rw [length_drop])]
  exact hc

/-! ### Recovery -/

theorem exists_of_replay_ok {kind : JournalKind} {chunks : List (List UInt8)} {acc acc' : ℕ × Index}
    (h : chunks.foldlM (recoverStep kind) acc = .ok acc') (hd : d ∈ acc'.2) :
    d ∈ acc.2 ∨ ∃ chunk ∈ chunks, ∃ sequence state, decodeRecord chunk = .ok (sequence, state, d) := by
  induction chunks generalizing acc with
  | nil =>
    cases h
    exact .inl hd
  | cons chunk chunks ih =>
    rw [foldlM_cons] at h
    cases hstep : recoverStep kind acc chunk with
    | error e => rw [hstep] at h; cases h
    | ok acc₁ =>
      rw [hstep] at h
      obtain ⟨state, digest, hdec, -, rfl⟩ := recoverStep_eq_ok hstep
      rcases ih h with hmem | ⟨chunk', hc', hdec'⟩
      · rcases mem_insert.1 hmem with rfl | hmem
        · exact .inr ⟨chunk, mem_cons_self, acc.1, state, hdec⟩
        · exact .inl hmem
      · exact .inr ⟨chunk', mem_cons_of_mem _ hc', hdec'⟩

/-- **Recovery knows exactly what the file keeps.** -/
theorem mem_iff_of_recover (h : recover kind bytes = .ok r) : d ∈ r.index ↔ Kept bytes d := by
  unfold recover at h
  split_ifs at h
  split at h
  · rename_i expected index hfold
    cases h
    constructor
    · intro hd
      rcases exists_of_replay_ok hfold hd with hmem | hkept
      · exact absurd hmem notMem_empty
      · exact hkept
    · rintro ⟨chunk, hc, sequence, state, hdec⟩
      exact mem_of_replay_ok hfold hc hdec
  · simp at h

/-- A file that is not empty is left or cut to its whole records, and a journal that opens has its
index. -/
theorem openJournal_of_active (kind : JournalKind) (fault : OpenFault)
    (hactive : dir.active = some f) (hne : f.content ≠ []) :
    (∃ f', (openJournal kind fault dir).1.active = some f' ∧
      let cut := headerLen + (f.content.length - headerLen) / recordLen * recordLen
      (f' = f ∨ f' = f.setLen cut ∨ f' = (f.setLen cut).sync)) ∧
    ∀ j, (openJournal kind fault dir).2 = .ok j → j.dir = (openJournal kind fault dir).1 ∧
        ∃ r, recover kind f.content = .ok r ∧ r.index = j.index := by
  have hlen : ¬ f.content.length = 0 := fun h => hne (length_eq_zero_iff.1 h)
  unfold openJournal
  simp only [hactive, Option.getD_some, if_neg hlen]
  split_ifs with h₁ h₂
  · exact ⟨⟨f, hactive, .inl rfl⟩, fun j hj => by cases hj⟩
  · exact ⟨⟨f, rfl, .inl rfl⟩, fun j hj => by cases hj⟩
  · unfold openFile
    cases hr : recover kind f.content with
    | error e => exact ⟨⟨f, rfl, .inl rfl⟩, fun j hj => by cases hj⟩
    | ok r =>
      simp only [(recover_ok hr).2.2.2.1]
      split_ifs with hkept
      · refine ⟨⟨f, rfl, .inl rfl⟩, fun j hj => ?_⟩
        cases hj
        exact ⟨rfl, r, rfl, rfl⟩
      · split
        · exact ⟨⟨f, rfl, .inl rfl⟩, fun j hj => by cases hj⟩
        · exact ⟨⟨_, rfl, .inr (.inl rfl)⟩, fun j hj => by cases hj⟩
        · refine ⟨⟨_, rfl, .inr (.inr rfl)⟩, fun j hj => ?_⟩
          cases hj
          exact ⟨rfl, r, rfl, rfl⟩

/-- The directory names a file that keeps it. -/
def KeptIn (dir : LedgerDir) (d : LedgerDigest) : Prop :=
  ∃ f, dir.active = some f ∧ Kept f.content d

/-- **Opening takes no record away**, whether it succeeds or fails, and the
opened journal knows the digest. -/
theorem kept_openJournal (kind : JournalKind) (fault : OpenFault) (h : KeptIn dir d) :
    KeptIn (openJournal kind fault dir).1 d ∧ ∀ j, (openJournal kind fault dir).2 = .ok j →
        j.dir = (openJournal kind fault dir).1 ∧ d ∈ j.index := by
  obtain ⟨f, hactive, hd⟩ := h
  have hne : f.content ≠ [] := fun h0 => not_kept_nil d (h0 ▸ hd)
  obtain ⟨⟨f', hf', hcut⟩, hopen⟩ := openJournal_of_active kind fault hactive hne
  refine ⟨⟨f', hf', ?_⟩, fun j hj => ?_⟩
  · rcases hcut with rfl | rfl | rfl
    · exact hd
    · exact hd.take
    · exact hd.take
  · obtain ⟨hdir, r, hr, hindex⟩ := hopen j hj
    exact ⟨hdir, hindex ▸ (mem_iff_of_recover hr).2 hd⟩

/-! ### Requests -/

/-- What every request keeps. -/
structure Advances (j j' : Journal) : Prop where
  linked : j'.Linked
  fits : Fits j'
  kind_eq : j'.kind = j.kind
  synced : j.file.synced <+: j'.file.synced
  content : j.file.content <+: j'.file.content
  index : j.index.Below j'.index

variable {j : Journal}

theorem Advances.refl (hl : j.Linked) (hfit : Fits j) : Advances j j :=
  ⟨hl, hfit, rfl, prefix_rfl, prefix_rfl, Index.Below.refl _⟩

/-- **No request takes anything away**, whatever fails in it. -/
theorem recordInner_advances (hl : j.Linked) (hfit : Fits j) (digest : LedgerDigest)
    (state : RecordState) (io : RecordIo) : Advances j (recordInner j digest state io).1 := by
  by_cases ha : Admits j digest state
  · have hkind := kind_recordInner j digest state io
    rw [recordInner_of_admits ha (hfit.records_lt ha)] at hkind ⊢
    by_cases hseq : j.sequence + 1 < 2 ^ 64
    · obtain ⟨hlink, -, hcontent, hreply⟩ := appendRecord_spec hseq digest state hl io.append
      have hgrow := hcontent ▸ prefix_append j.file.content _
      rcases hreply with ⟨-, hi, hr, hs, -⟩ | ⟨-, hi, hr, hs, -⟩
      · refine ⟨hlink, hfit.insert ha hi hr, hkind, ?_, hgrow, by rw [hi]; exact Index.below_insert ha.2.1⟩
        rw [hs, hcontent]
        exact j.file.synced_isPrefix.trans (prefix_append _ _)
      · exact ⟨hlink, ⟨by rw [hi, hr]; exact hfit.records_le, by rw [hi]; exact hfit.len_le⟩, hkind,
          by rw [hs], hgrow, by rw [hi]; exact Index.Below.refl _⟩
    · unfold appendRecord
      rw [if_neg hseq]
      exact .refl hl hfit
  · rw [(recordInner_of_not_admits ha io).1]
    exact .refl hl hfit

theorem index_recordInner (hl : j.Linked) (hfit : Fits j) (digest : LedgerDigest)
    (state : RecordState) (io : RecordIo) :
    let r := recordInner j digest state io
    (r.1.index = j.index ∧ ∀ inserted, r.2 = .ok inserted → digest ∈ j.index) ∨
      r.1.index = j.index.insert digest state := by
  by_cases ha : Admits j digest state
  · rw [recordInner_of_admits ha (hfit.records_lt ha)]
    by_cases hseq : j.sequence + 1 < 2 ^ 64
    · obtain ⟨-, -, -, ⟨-, hi, -⟩ | ⟨-, hi, -, -, herr⟩⟩ :=
        appendRecord_spec hseq digest state hl io.append
      · exact .inr hi
      · refine .inl ⟨hi, fun inserted h => ?_⟩
        rw [herr] at h
        simp at h
    · unfold appendRecord
      rw [if_neg hseq]
      exact .inl ⟨rfl, fun inserted h => by cases h⟩
  · have hsame := (recordInner_of_not_admits ha io).1
    exact .inl ⟨congrArg Journal.index hsame, fun inserted h => mem_of_recordInner_ok ha h⟩

/-- A digest is reserved once: the journal knows it only from then on. -/
theorem fresh_of_recordInner (hl : j.Linked) (hfit : Fits j)
    (hans : (recordInner j digest .reserved io).2 = .ok true) :
    digest ∉ j.index ∧ digest ∈ (recordInner j digest .reserved io).1.index := by
  have ha : Admits j digest .reserved := by
    by_contra ha
    exact (recordInner_of_not_admits ha io).2 hans
  have hnew : digest ∉ j.index := by
    intro hd
    obtain ⟨current, hcur⟩ := mem_iff.1 hd
    have ht := ha.2.1
    rw [hcur] at ht
    cases (eq_of_recordTransition_some ht).2
  refine ⟨hnew, ?_⟩
  rcases index_recordInner hl hfit digest .reserved io with ⟨-, hknown⟩ | hins
  · exact absurd (hknown true hans) hnew
  · rw [hins]
    exact mem_insert.2 (.inl rfl)

/-- The file keeps what the index holds. -/
structure Knows (j : Journal) : Prop where
  linked : j.Linked
  fits : Fits j
  kept : ∀ d ∈ j.index, Kept j.file.content d

theorem Faithful.knows (h : Faithful j) : Knows j where
  linked := h.linked
  fits := h.fits
  kept := fun _ hd => (mem_iff_of_recover h.recovers.recover_eq).1 hd

/-- **A request keeps the index within the file**, if the file is in step when
something is appended. -/
theorem Knows.recordInner (h : Knows j) (io : RecordIo)
    (hstep : Admits j digest state → InChunks j.file) :
    Knows (recordInner j digest state io).1 := by
  have hadv := recordInner_advances h.linked h.fits digest state io
  refine ⟨hadv.linked, hadv.fits, ?_⟩
  by_cases ha : Admits j digest state
  · intro d hd
    have hgrow := hadv.content
    rw [recordInner_of_admits ha (h.fits.records_lt ha)] at hd hgrow ⊢
    by_cases hseq : j.sequence + 1 < 2 ^ 64
    · obtain ⟨-, -, hcontent, ⟨hf, hi, -⟩ | ⟨-, hi, -⟩⟩ :=
        appendRecord_spec hseq digest state h.linked io.append
      · rw [hi] at hd
        rcases mem_insert.1 hd with rfl | hd
        · refine ⟨_, ?_, j.sequence + 1, state, decodeRecord_encodeRecord hseq state d⟩
          rw [hcontent, hf]
          exact (hstep ha).mem_chunks_append _ _ _
        · exact (h.kept d hd).mono hgrow
      · rw [hi] at hd
        exact (h.kept d hd).mono hgrow
    · unfold appendRecord at hd ⊢
      rw [if_neg hseq] at hd ⊢
      exact h.kept d hd
  · rw [(recordInner_of_not_admits ha io).1]
    exact h.kept

end PeatNode.Ledger
