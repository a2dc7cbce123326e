/-
# A journal and its own failures

The loop of `Worker::spawn` goes on after a failed `record_inner`, with a journal whose sequence
number, file tail and index no longer agree: a failed seek leaves a gap in the sequence numbers, a
short write the next record out of step with the chunks of 80 bytes, and a failed sync a record
that the index does not know.

The file stays a journal (`failures_reopen`) as long as no record is appended behind a torn one, and
every appended record is one that recovery accepts (`InStep`).
-/

import PeatNode.Ledger.Worker

namespace PeatNode.Ledger

open List

/-- A `Command::Record` and the failures that serving it meets. -/
structure RecordCommand where
  digest : LedgerDigest
  state : RecordState
  io : RecordIo
deriving DecidableEq

/-- The worker's loop, and a record of what it has done. -/
structure FailureRun where
  worker : Worker
  written : Index
  torn : Bool
  acked : List (LedgerDigest × RecordState)
deriving DecidableEq

namespace FailureRun

def start (j : Journal) : FailureRun := ⟨.spawn j, j.index, false, []⟩

def serve (s : FailureRun) (c : RecordCommand) : FailureRun :=
  let reply := s.worker.serveRecord c.digest c.state c.io
  let appends := Admits s.worker.journal c.digest c.state
  { worker := reply.1
    written := if appends ∧ recordLen ≤ c.io.append.written then s.written.insert c.digest c.state
      else s.written
    torn := s.torn || decide (appends ∧ c.io.append.written < recordLen)
    acked := match reply.2 with
      | .ok true => (c.digest, c.state) :: s.acked
      | _ => s.acked }

def step (s : FailureRun) (c : RecordCommand) : Option FailureRun := some (s.serve c)

/-- The command is not appended, or in step: no earlier record is torn, and recovery accepts it
behind those in the file. -/
def InStep (s : FailureRun) (c : RecordCommand) : Prop :=
  Admits s.worker.journal c.digest c.state →
    s.torn = false ∧ Accepts s.worker.journal.kind s.written c.state c.digest
deriving Decidable

/-- Opened again, it holds what was acknowledged. -/
def Survives (s : FailureRun) : Prop :=
  ∃ j, (openJournal s.worker.journal.kind .none s.worker.journal.dir).2 = .ok j ∧
    j.index.Holds s.acked

/-- In a run in step the file is `n` whole records that recover to `written`, with less than a
record behind them. -/
structure Sound (s : FailureRun) : Prop where
  linked : s.worker.journal.Linked
  fits : Fits s.worker.journal
  file : ∃ n base rest, s.worker.journal.file.content = base ++ rest ∧
    RecoversTo s.worker.journal.kind base n s.written ∧ rest.length < recordLen ∧
    (rest ≠ [] → n < maxRecords) ∧ (s.torn = false → rest = [] ∧ s.worker.journal.sequence = n)
  acked : s.written.Holds s.acked

variable {s : FailureRun} {c : RecordCommand}

theorem Sound.survives (h : Sound s) : Survives s := by
  obtain ⟨n, base, rest, hf, hrec, hrest, hn, -⟩ := h.file
  obtain ⟨f', -, hopen⟩ := openJournal_of_recoversTo h.linked.2 hf hrec hrest hn
  exact ⟨_, congrArg Prod.snd hopen, h.acked⟩

theorem sound_start (h : Faithful j) : Sound (start j) :=
  ⟨h.linked, h.fits, ⟨j.records, j.file.content, [], (append_nil _).symm, h.recovers,
    by decide, fun hne => absurd rfl hne, fun _ => ⟨rfl, h.sequence_eq⟩⟩, Index.holds_nil _⟩

@[simp] theorem journal_serve (s : FailureRun) (c : RecordCommand) :
    (s.serve c).worker.journal = (recordInner s.worker.journal c.digest c.state c.io).1 :=
  Worker.journal_serveRecord _ _ _ _

theorem acked_serve_of_ok (h : (recordInner s.worker.journal c.digest c.state c.io).2 = .ok true) :
    (s.serve c).acked = (c.digest, c.state) :: s.acked := by
  simp only [serve, Worker.reply_serveRecord, h]

theorem acked_serve_of_ne (h : (recordInner s.worker.journal c.digest c.state c.io).2 ≠ .ok true) :
    (s.serve c).acked = s.acked := by
  simp only [serve, Worker.reply_serveRecord]

theorem Sound.serve_of_not_admits (h : Sound s)
    (ha : ¬ Admits s.worker.journal c.digest c.state) : Sound (s.serve c) := by
  obtain ⟨hj, hok⟩ := recordInner_of_not_admits ha c.io
  have hjournal : (s.serve c).worker.journal = s.worker.journal := by rw [journal_serve, hj]
  have hwritten : (s.serve c).written = s.written := if_neg fun h => ha h.1
  have htorn : (s.serve c).torn = s.torn := by simp [serve, ha]
  refine ⟨by rw [hjournal]; exact h.linked, by rw [hjournal]; exact h.fits, ?_, ?_⟩
  · rw [hjournal, hwritten, htorn]
    exact h.file
  · rw [acked_serve_of_ne hok, hwritten]
    exact h.acked

theorem Sound.file_serve (h : Sound s) (ha : Admits s.worker.journal c.digest c.state)
    (htorn : s.torn = false) (hacc : Accepts s.worker.journal.kind s.written c.state c.digest) :
    ∃ n base rest, (s.serve c).worker.journal.file.content = base ++ rest ∧
      RecoversTo (s.serve c).worker.journal.kind base n (s.serve c).written ∧
      rest.length < recordLen ∧ (rest ≠ [] → n < maxRecords) ∧
      ((s.serve c).torn = false → rest = [] ∧ (s.serve c).worker.journal.sequence = n) := by
  obtain ⟨n, base, rest, hf, hrec, -, -, hclean⟩ := h.file
  obtain ⟨rfl, hseq⟩ := hclean htorn
  rw [append_nil] at hf
  have happ := hrec.append hacc
  have hlt : n < maxRecords := happ.le_maxRecords
  have hmax : maxRecords = 524288 := rfl
  obtain ⟨-, hseq', hfile, -⟩ := appendRecord_spec (show s.worker.journal.sequence + 1 < 2 ^ 64 by omega)
    c.digest c.state h.linked c.io.append
  rw [← recordInner_of_admits ha (h.fits.records_lt ha)] at hseq' hfile
  rw [journal_serve, kind_recordInner, hfile, hf, hseq', hseq]
  by_cases hw : recordLen ≤ c.io.append.written
  · have hall := take_of_length_le ((length_encodeRecord (n + 1) c.state c.digest).le.trans hw)
    have hwritten : (s.serve c).written = s.written.insert c.digest c.state := if_pos ⟨ha, hw⟩
    rw [hwritten, hall]
    exact ⟨n + 1, _, [], (append_nil _).symm, happ, by decide, fun hne => absurd rfl hne,
      fun _ => ⟨rfl, rfl⟩⟩
  · have hshort : ((encodeRecord (n + 1) c.state c.digest).take c.io.append.written).length <
        recordLen := by
      rw [length_take]
      omega
    have hwritten : (s.serve c).written = s.written := if_neg fun h => hw h.2
    have htorn' : (s.serve c).torn = true := by
      simp [serve, ha, Nat.not_le.1 hw]
    rw [hwritten, htorn']
    exact ⟨n, base, _, rfl, hrec, hshort, fun _ => hlt, fun h => by cases h⟩

/-- **One command in step keeps the journal sound.** -/
theorem Sound.serve (h : Sound s) (hok : InStep s c) : Sound (s.serve c) := by
  by_cases ha : Admits s.worker.journal c.digest c.state
  · obtain ⟨htorn, hacc⟩ := hok ha
    have hbelow : s.written.Below (s.written.insert c.digest c.state) :=
      Index.below_insert ((recoverTransition_iff _ _).1 hacc.2.1).1
    have hbound : s.worker.journal.sequence + 1 < 2 ^ 64 := by
      obtain ⟨n, base, rest, -, hrec, -, -, hclean⟩ := h.file
      have hle := hrec.le_maxRecords
      have hmax : maxRecords = 524288 := rfl
      have hseq := (hclean htorn).2
      omega
    obtain ⟨hlink, -, -, hreply⟩ := appendRecord_spec hbound c.digest c.state h.linked c.io.append
    rw [← recordInner_of_admits ha (h.fits.records_lt ha)] at hlink hreply
    rcases hreply with ⟨hf, hi, hr, -, hans⟩ | ⟨-, hi, hr, -, hans⟩
    · -- the record is acknowledged, so it is whole
      refine ⟨by rw [journal_serve]; exact hlink, by rw [journal_serve]; exact h.fits.insert ha hi hr,
        h.file_serve ha htorn hacc, ?_⟩
      have hwritten : (s.serve c).written = s.written.insert c.digest c.state :=
        if_pos ⟨ha, by rw [hf]; exact le_rfl⟩
      rw [acked_serve_of_ok hans, hwritten]
      exact (h.acked.mono hbelow).cons_insert
    · refine ⟨by rw [journal_serve]; exact hlink, ?_, h.file_serve ha htorn hacc, ?_⟩
      · rw [journal_serve]
        exact ⟨by rw [hi, hr]; exact h.fits.records_le, by rw [hi]; exact h.fits.len_le⟩
      · rw [acked_serve_of_ne (by rw [hans]; simp)]
        show Index.Holds (if _ then _ else _) _
        split_ifs
        · exact h.acked.mono hbelow
        · exact h.acked
  · exact h.serve_of_not_admits ha

end FailureRun

/-- **A journal survives its failures as long as it stays in step.** Whatever commands the loop
serves and wherever they fail: if no record is appended behind a torn one, and every appended
record is acceptable where it stands, the file opens and holds everything that was acknowledged. -/
theorem failures_reopen {kind : JournalKind} {fault : OpenFault} {dir : LedgerDir} {j : Journal}
    (hopen : (openJournal kind fault dir).2 = .ok j) {cs : List RecordCommand} {s : FailureRun}
    (hstep : Lts.Along FailureRun.step FailureRun.InStep (.start j) cs)
    (hrun : Lts.exec FailureRun.step (.start j) cs = some s) : s.Survives := by
  have hstart := FailureRun.sound_start (faithful_of_openJournal hopen).1
  have hsound : s.Sound := by
    refine Lts.exec_invariant FailureRun.Sound (fun s c s' hs hok h => ?_) hstart hstep hrun
    cases h
    exact hs.serve hok
  exact hsound.survives

/-- A new delivery journal serves a record whose sync fails, and then another one. -/
theorem syncFailure_reopen : ∃ j s, (openJournal .delivery .none ⟨none, none⟩).2 = .ok j ∧
      Lts.exec FailureRun.step (.start j) [⟨documentDigest "frames" "1", .reserved, ⟨.sync, none⟩⟩,
          ⟨documentDigest "frames" "2", .reserved, .clean⟩] = some s ∧ s.Survives := by
  have hrun : Lts.exec FailureRun.step (.start (freshJournal .delivery))
      [⟨documentDigest "frames" "1", .reserved, ⟨.sync, none⟩⟩,
        ⟨documentDigest "frames" "2", .reserved, .clean⟩] = some _ := rfl
  have hopen := openJournal_new .delivery
  exact ⟨_, _, hopen, hrun, failures_reopen hopen (by decide +kernel) hrun⟩

/-- The first write fails, the second is acknowledged. -/
def gapCommands : List RecordCommand :=
  [⟨documentDigest "frames" "1", .reserved, ⟨.write 0, none⟩⟩,
    ⟨documentDigest "frames" "2", .reserved, .clean⟩]

/-- **A failed write and one more record.** The second record has the sequence number 2 in the
place of the first: the file does not open again. -/
theorem gapCommands_not_survive : ∃ j s, (openJournal .delivery .none ⟨none, none⟩).2 = .ok j ∧
      Lts.exec FailureRun.step (.start j) gapCommands = some s ∧
      (documentDigest "frames" "2", RecordState.reserved) ∈ s.acked ∧ ¬ s.Survives := by
  refine ⟨freshJournal .delivery, gapCommands.foldl FailureRun.serve (.start (freshJournal .delivery)),
    openJournal_new _, rfl, by decide +kernel, ?_⟩
  rintro ⟨j, hj, -⟩
  have hfail : (openJournal .delivery .none (gapCommands.foldl FailureRun.serve
      (.start (freshJournal .delivery))).worker.journal.dir).2.isOk = false := by decide +kernel
  have hkind : (gapCommands.foldl FailureRun.serve
      (.start (freshJournal .delivery))).worker.journal.kind = .delivery := by decide +kernel
  rw [hkind] at hj
  rw [hj] at hfail
  cases hfail

end PeatNode.Ledger
