/-
# Opening a journal again

What `Journal::open` makes of the file a journal leaves behind: a journal of whole records with less
than a record behind them opens with the index of those records (`openJournal_of_recoversTo`), an
empty file gets a header (`openJournal_of_empty`), and a file that recovery rejects does not open
(`openJournal_of_error`).

`Faithful` is the state of a journal whose file recovers to exactly what it holds in memory.
-/

import PeatNode.Ledger.Journal

namespace PeatNode.Ledger

open DurableFile List Nat

namespace Journal

variable {j : Journal}

@[simp] theorem file_setFile (j : Journal) (f : File) : (j.setFile f).file = f := by
  unfold setFile file
  split <;> simp_all

@[simp] theorem kind_setFile (j : Journal) (f : File) : (j.setFile f).kind = j.kind := by
  unfold setFile
  split <;> rfl

@[simp] theorem index_setFile (j : Journal) (f : File) : (j.setFile f).index = j.index := by
  unfold setFile
  split <;> rfl

@[simp] theorem records_setFile (j : Journal) (f : File) : (j.setFile f).records = j.records := by
  unfold setFile
  split <;> rfl

/-- Its directory names its file. -/
def Linked (j : Journal) : Prop := j.orphan = none ∧ j.dir.active = some j.file

theorem Linked.setFile (h : j.Linked) (f : File) : (j.setFile f).Linked := by
  have hset : j.setFile f = { j with dir := { j.dir with active := some f } } := by
    unfold Journal.setFile
    rw [h.1]
  have hfile := file_setFile j f
  rw [hset] at hfile ⊢
  exact ⟨h.1, by rw [hfile]⟩

end Journal

theorem kind_appendRecord (j : Journal) (digest : LedgerDigest) (state : RecordState)
    (fault : AppendFault) : (appendRecord j digest state fault).1.kind = j.kind := by
  unfold appendRecord
  split_ifs
  · cases fault <;> simp
  · rfl

theorem kind_compactInner (j : Journal) (stop : Option CompactStop) :
    (compactInner j stop).1.kind = j.kind := by
  unfold compactInner
  split_ifs
  · rfl
  · rcases stop with _ | _ | _ | _ | _ | _ <;> rfl

theorem kind_recordInner (j : Journal) (digest : LedgerDigest) (state : RecordState) (io : RecordIo) :
    (recordInner j digest state io).1.kind = j.kind := by
  by_cases ha : Admits j digest state
  · rw [recordInner_eq_of_admits ha]
    split_ifs
    · have hcompact := kind_compactInner j io.compact
      split
      · rename_i heq
        rwa [heq] at hcompact
      · rename_i heq
        rw [heq] at hcompact
        rwa [kind_appendRecord]
    · exact kind_appendRecord j digest state io.append
  · rw [(recordInner_of_not_admits ha io).1]

/-! ### What a file opens to -/

variable {kind : JournalKind} {dir : LedgerDir}

/-- A file of whole records and less than a record behind them opens with the index of the
records, the rest cut off. -/
theorem openJournal_of_recoversTo (hactive : dir.active = some f) (hf : f.content = base ++ rest)
    (h : RecoversTo kind base n index) (hrest : rest.length < recordLen)
    (hn : rest ≠ [] → n < maxRecords) :
    ∃ f', f'.content = base ∧ openJournal kind .none dir =
      (⟨some f', none⟩, .ok ⟨kind, n, n, index, ⟨some f', none⟩, none⟩) := by
  have hlen := h.length_eq
  have hheader : headerLen = 32 := rfl
  have hrecord : recordLen = 80 := rfl
  have hmax : f.content.length ≤ maxFileBytes := by
    by_cases hr : rest = []
    · rw [hf, hr, append_nil]
      exact h.length_le
    · have hroom := mul_le_mul_right recordLen (succ_le_of_lt (hn hr))
      have hfile : maxFileBytes = headerLen + maxRecords * recordLen := rfl
      rw [succ_mul] at hroom
      rw [hf, length_append]
      omega
  have hpos : f.content.length ≠ 0 := by
    rw [hf, length_append]
    omega
  have hopen : openJournal kind .none dir = openFile kind .none f := by
    unfold openJournal
    simp only [reduceCtorEq, if_false, hactive, Option.getD_some, if_neg hpos,
      if_neg (not_lt.2 hmax)]
  have hrecover : recover kind f.content = .ok ⟨n, n, index⟩ := by
    rw [hf]
    exact h.recover_append_short hrest
  rw [hopen]
  unfold openFile
  rw [hrecover]
  by_cases hkept : headerLen + n * recordLen = f.content.length
  · refine ⟨f, ?_, by simp only [if_pos hkept]⟩
    have hr : rest.length = 0 := by
      rw [hf, length_append] at hkept
      omega
    rw [hf, length_eq_zero_iff.1 hr, append_nil]
  · refine ⟨(f.setLen (headerLen + n * recordLen)).sync, ?_, by simp only [if_neg hkept]⟩
    rw [File.content_sync, File.content_setLen, hf, ← hlen, take_left']
    rfl

/-- Of a file just created. -/
def freshJournal (kind : JournalKind) : Journal :=
  ⟨kind, 0, 0, ∅, ⟨some (.ofDisk (header kind)), none⟩, none⟩

theorem openJournal_of_empty (h : (dir.active.getD (.ofDisk [])).content = []) :
    openJournal kind .none dir = ((freshJournal kind).dir, .ok (freshJournal kind)) := by
  have hfile : ((dir.active.getD (.ofDisk [])).append (header kind)).sync = .ofDisk (header kind) := by
    rw [File.sync, File.content_append, h, nil_append]
  unfold openJournal
  simp only [reduceCtorEq, if_false, h, length_nil, if_true, hfile]
  unfold openFile
  rw [File.content_ofDisk, (recoversTo_header kind).recover_eq]
  simp [freshJournal]

/-- The journal of a directory without one is fresh. -/
theorem openJournal_new (kind : JournalKind) :
    (openJournal kind .none ⟨none, none⟩).2 = .ok (freshJournal kind) :=
  congrArg Prod.snd (openJournal_of_empty rfl)

theorem openJournal_of_error (hactive : dir.active = some f) (hpos : f.content ≠ [])
    (h : recover kind f.content = .error e) (fault : OpenFault) :
    ∃ e', (openJournal kind fault dir).2 = .error e' := by
  have hlen : f.content.length ≠ 0 := fun h0 => hpos (length_eq_zero_iff.1 h0)
  unfold openJournal
  simp only [hactive, Option.getD_some, if_neg hlen]
  split_ifs with h₁ h₂
  · exact ⟨_, rfl⟩
  · exact ⟨_, rfl⟩
  · refine ⟨e, ?_⟩
    unfold openFile
    rw [h]

/-! ### Faithful and spoiled journals -/

/-- The file recovers to what the journal holds in memory. -/
structure Faithful (j : Journal) : Prop where
  linked : j.Linked
  sequence_eq : j.sequence = j.records
  recovers : RecoversTo j.kind j.file.content j.records j.index

/-- The file is rejected for its whole records: nothing behind them counts. -/
structure Spoiled (j : Journal) : Prop where
  linked : j.Linked
  fits : Fits j
  rejected : ∃ n base rest, j.file.content = base ++ rest ∧
    base.length = headerLen + n * recordLen ∧ ∃ e, recover j.kind base = .error e

/-- Opening the file gives this journal again. -/
def Reopens (j : Journal) : Prop :=
  ∃ j', (openJournal j.kind .none j.dir).2 = .ok j' ∧ j'.index = j.index ∧
    j'.sequence = j.sequence ∧ j'.records = j.records

namespace Faithful

variable {j : Journal} {digest : LedgerDigest} {state : RecordState}

theorem fits (h : Faithful j) : Fits j := ⟨h.recovers.weight_eq.ge, h.recovers.len_le⟩

theorem sequence_lt (h : Faithful j) : j.sequence + 1 < 2 ^ 64 := by
  have := h.recovers.le_maxRecords
  have hmax : maxRecords = 524288 := rfl
  rw [h.sequence_eq]
  omega

theorem reopens (h : Faithful j) : Reopens j := by
  obtain ⟨f', -, hopen⟩ := openJournal_of_recoversTo h.linked.2 (append_nil _).symm h.recovers
    (by decide) (fun hr => absurd rfl hr)
  exact ⟨_, congrArg Prod.snd hopen, rfl, h.sequence_eq.symm, rfl⟩

end Faithful

theorem faithful_freshJournal (kind : JournalKind) : Faithful (freshJournal kind) :=
  ⟨⟨rfl, rfl⟩, rfl, recoversTo_header kind⟩

variable {j : Journal}

theorem Spoiled.not_reopens (h : Spoiled j) : ¬ Reopens j := by
  rintro ⟨j', hopen, -⟩
  obtain ⟨n, base, rest, hf, hlen, herr⟩ := h.rejected
  obtain ⟨e, he⟩ := recover_append_of_error hlen herr rest
  rw [← hf] at he
  have hpos : j.file.content ≠ [] := by
    intro h0
    have hheader : headerLen = 32 := rfl
    rw [hf, append_eq_nil_iff] at h0
    rw [h0.1, length_nil] at hlen
    omega
  obtain ⟨e', he'⟩ := openJournal_of_error h.linked.2 hpos he .none
  rw [he'] at hopen
  simp at hopen

/-! ### Appending -/

variable {digest : LedgerDigest} {state : RecordState}

/-- What the writer admits, recovery accepts, except `Completed` for a digest
that is not in the index. -/
theorem Admits.accepts_iff (hfit : Fits j) (h : Admits j digest state) :
    Accepts j.kind j.index state digest ↔ ¬(digest ∉ j.index ∧ state = .completed) := by
  unfold Accepts
  rw [recoverTransition_iff, Finmap.lookup_eq_none]
  exact ⟨fun ha => ha.2.1.2, fun hc => ⟨h.1, ⟨h.2.1, hc⟩, hfit.insert_len_le h⟩⟩

/-- How much of the record reaches the file. -/
def AppendFault.written : AppendFault → ℕ
  | .none => recordLen
  | .seek => 0
  | .write n => n
  | .sync => recordLen

section Append

variable {j : Journal} (hseq : j.sequence + 1 < 2 ^ 64) (digest : LedgerDigest) (state : RecordState)

include hseq

theorem appendRecord_none : appendRecord j digest state .none =
      ({ (j.setFile (j.file.append (encodeRecord (j.sequence + 1) state digest)).sync) with
          sequence := j.sequence + 1
          index := j.index.insert digest state
          records := j.records + 1 }, .ok true) := by
  unfold appendRecord
  rw [if_pos hseq]
  unfold Journal.setFile Journal.file
  cases j.orphan <;> rfl

/-- The append with a failure: some of the record is in the file, and the
sequence number is used up. -/
theorem appendRecord_failed (hl : j.Linked) (hf : fault ≠ .none) :
    appendRecord j digest state fault =
      ({ (j.setFile (j.file.append ((encodeRecord (j.sequence + 1) state digest).take
            fault.written))) with sequence := j.sequence + 1 }, .error .unavailable) := by
  have hset : ∀ f, j.setFile f = { j with dir := { j.dir with active := some f } } := by
    intro f
    unfold Journal.setFile
    rw [hl.1]
  have hnum : ∀ f, ({ j with sequence := j.sequence + 1 } : Journal).setFile f =
      { j.setFile f with sequence := j.sequence + 1 } := by
    intro f
    unfold Journal.setFile
    cases j.orphan <;> rfl
  unfold appendRecord
  rw [if_pos hseq]
  cases fault with
  | none => exact absurd rfl hf
  | seek =>
    have hnil : j.file.append [] = j.file := by
      simp [File.append]
    simp only [AppendFault.written, take_zero, hnil, hset, ← hl.2]
  | write n => simp only [AppendFault.written, hnum]; rfl
  | sync =>
    have hall := take_of_length_le (length_encodeRecord (j.sequence + 1) state digest).le
    simp only [AppendFault.written, hnum, hall]
    rfl

/-- The append in one view: what is in the file, and what the caller and the
memory learn of it. -/
theorem appendRecord_spec (hl : j.Linked) (fault : AppendFault) :
    let r := appendRecord j digest state fault
    r.1.Linked ∧ r.1.sequence = j.sequence + 1 ∧ r.1.file.content =
        j.file.content ++ (encodeRecord (j.sequence + 1) state digest).take fault.written ∧
      (fault = .none ∧ r.1.index = j.index.insert digest state ∧ r.1.records = j.records + 1 ∧
          r.1.file.synced = r.1.file.content ∧ r.2 = .ok true ∨
        fault ≠ .none ∧ r.1.index = j.index ∧ r.1.records = j.records ∧
          r.1.file.synced = j.file.synced ∧ r.2 = .error .unavailable) := by
  by_cases hf : fault = .none
  · subst hf
    have hlink := hl.setFile (j.file.append (encodeRecord (j.sequence + 1) state digest)).sync
    have hall := take_of_length_le (length_encodeRecord (j.sequence + 1) state digest).le
    rw [appendRecord_none hseq]
    refine ⟨⟨hlink.1, hlink.2⟩, rfl, ?_, .inl ⟨rfl, rfl, rfl, ?_, rfl⟩⟩
    · show (j.setFile _).file.content = _
      rw [Journal.file_setFile, AppendFault.written, hall]
      rfl
    · show (j.setFile _).file.synced = (j.setFile _).file.content
      rw [Journal.file_setFile]
      rfl
  · have hlink := hl.setFile (j.file.append ((encodeRecord (j.sequence + 1) state digest).take
      fault.written))
    rw [appendRecord_failed hseq digest state hl hf]
    refine ⟨⟨hlink.1, hlink.2⟩, rfl, ?_, .inr ⟨hf, ?_, ?_, ?_, rfl⟩⟩
    · show (j.setFile _).file.content = _
      rw [Journal.file_setFile]
      rfl
    · show (j.setFile _).index = _
      rw [Journal.index_setFile]
    · show (j.setFile _).records = _
      rw [Journal.records_setFile]
    · show (j.setFile _).file.synced = _
      rw [Journal.file_setFile]
      rfl

end Append

theorem Fits.insert (h : Fits j) (ha : Admits j digest state)
    (hindex : j'.index = j.index.insert digest state) (hrecords : j'.records = j.records + 1) :
    Fits j' := by
  have hlt := Index.weight_lt_weight_insert ha.2.1
  have hle := h.records_le
  constructor
  · rw [hindex, hrecords]
    omega
  · rw [hindex]
    exact h.insert_len_le ha

/-- What a successful request leaves in memory and in the file. -/
theorem recordInner_clean (hfit : Fits j)
    (hseq : j.sequence + 1 < 2 ^ 64) (ha : Admits j digest state) :
    recordInner j digest state .clean =
      ({ (j.setFile (j.file.append (encodeRecord (j.sequence + 1) state digest)).sync) with
          sequence := j.sequence + 1
          index := j.index.insert digest state
          records := j.records + 1 }, .ok true) := by
  rw [recordInner_of_admits ha (hfit.records_lt ha)]
  exact appendRecord_none hseq digest state

namespace Faithful

variable {j : Journal} {digest : LedgerDigest} {state : RecordState}

/-- **A record that recovery accepts keeps the journal faithful.** -/
theorem recordInner (h : Faithful j) (ha : Admits j digest state)
    (hc : ¬(digest ∉ j.index ∧ state = .completed)) :
    Faithful (recordInner j digest state .clean).1 := by
  rw [recordInner_clean h.fits h.sequence_lt ha]
  have hl := h.linked.setFile (j.file.append (encodeRecord (j.sequence + 1) state digest)).sync
  refine ⟨⟨hl.1, hl.2⟩, by simp [h.sequence_eq], ?_⟩
  have happ := h.recovers.append ((ha.accepts_iff h.fits).2 hc)
  rw [← h.sequence_eq] at happ
  have hfile := j.file_setFile (j.file.append (encodeRecord (j.sequence + 1) state digest)).sync
  show RecoversTo (j.setFile _).kind (j.setFile _).file.content (j.records + 1) _
  rw [hfile, Journal.kind_setFile, ← h.sequence_eq]
  exact happ

/-- **A record that recovery does not accept spoils the journal.** -/
theorem spoiled_recordInner (h : Faithful j) (ha : Admits j digest state)
    (hc : digest ∉ j.index ∧ state = .completed) :
    Spoiled (Ledger.recordInner j digest state .clean).1 := by
  rw [recordInner_clean h.fits h.sequence_lt ha]
  have hl := h.linked.setFile (j.file.append (encodeRecord (j.sequence + 1) state digest)).sync
  refine ⟨⟨hl.1, hl.2⟩, h.fits.insert ha rfl rfl, ?_⟩
  have hnot : ¬ Accepts j.kind j.index state digest := fun hacc => (ha.accepts_iff h.fits).1 hacc hc
  have hlen := h.recovers.length_eq
  refine ⟨j.records + 1, j.file.content ++ encodeRecord (j.records + 1) state digest, [], ?_, ?_, ?_⟩
  · show (j.setFile _).file.content = _
    rw [Journal.file_setFile, h.sequence_eq, append_nil]
    rfl
  · rw [length_append, length_encodeRecord, hlen, succ_mul, add_assoc]
  · have hrej := recover_append_of_not_accepts h.recovers hnot []
    rw [append_nil] at hrej
    show ∃ e, recover (j.setFile _).kind _ = _
    rw [Journal.kind_setFile]
    exact hrej

end Faithful

/-- **A spoiled journal stays spoiled.** -/
theorem Spoiled.recordInner (h : Spoiled j) (digest : LedgerDigest)
    (state : RecordState) : Spoiled (recordInner j digest state .clean).1 := by
  by_cases ha : Admits j digest state
  · by_cases hseq : j.sequence + 1 < 2 ^ 64
    · rw [recordInner_clean h.fits hseq ha]
      have hl := h.linked.setFile (j.file.append (encodeRecord (j.sequence + 1) state digest)).sync
      obtain ⟨n, base, rest, hf, hlen, herr⟩ := h.rejected
      refine ⟨⟨hl.1, hl.2⟩, h.fits.insert ha rfl rfl, n, base,
        rest ++ encodeRecord (j.sequence + 1) state digest, ?_, hlen, ?_⟩
      · show (j.setFile _).file.content = _
        rw [Journal.file_setFile, File.content_sync, File.content_append, hf, append_assoc]
      · show ∃ e, recover (j.setFile _).kind _ = _
        rw [Journal.kind_setFile]
        exact herr
    · rw [recordInner_of_admits ha (h.fits.records_lt ha)]
      unfold appendRecord
      rw [if_neg hseq]
      exact h
  · rw [(recordInner_of_not_admits ha .clean).1]
    exact h

/-- **Opening leads to a faithful journal**, whatever the directory held, and
leaves no temporary file. -/
theorem faithful_of_openJournal (h : (openJournal kind fault dir).2 = .ok j) :
    Faithful j ∧ j.kind = kind ∧ j.dir.temp = none := by
  have hfile : ∀ f, (openFile kind fault f).2 = .ok j →
      Faithful j ∧ j.kind = kind ∧ j.dir.temp = none := by
    intro f hf
    unfold openFile at hf
    split at hf
    · simp at hf
    · rename_i r hr
      have hrec := recoversTo_of_recover hr
      have hseq := (recover_ok hr).2.2.1
      simp only at hf
      split_ifs at hf with hkept
      · cases hf
        rw [hkept, take_length] at hrec
        exact ⟨⟨⟨rfl, rfl⟩, hseq, hrec⟩, rfl, rfl⟩
      · split at hf
        · simp at hf
        · simp at hf
        · cases hf
          exact ⟨⟨⟨rfl, rfl⟩, hseq, hrec⟩, rfl, rfl⟩
  unfold openJournal at h
  split_ifs at h with h₁
  simp only at h
  split_ifs at h with h₂ h₃
  · split at h
    · simp at h
    · simp at h
    · exact hfile _ h
  · exact hfile _ h

end PeatNode.Ledger
