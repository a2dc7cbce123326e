/-
# The journal worker and its facades

The thread of `Worker::spawn` in `src/nats_bridge/ledger.rs` owns a journal and serves one command
after the other; an error makes it unhealthy for good.  The facades `LocalExclusionLedger` and
`DeliveryLedger` are the only callers: a `FacadeOp` is one of their three writing calls.  Here every
call is served before the next one is made.

`mark_completed` on a digest that was never reserved is written and acknowledged, and the file does
not open again.  `facadeHistory_reopens_iff` says that nothing else goes wrong.
-/

import PeatNode.Ledger.Reopen
import PeatNode.Lib.Lts

namespace PeatNode.Ledger

/-- A worker with an empty command queue. -/
structure Worker where
  journal : Journal
  healthy : Bool
deriving DecidableEq

namespace Worker

def spawn (journal : Journal) : Worker := ⟨journal, true⟩

/-- A turn that serves `Command::Record`. -/
def serveRecord (w : Worker) (digest : LedgerDigest) (state : RecordState) (io : RecordIo) :
    Worker × Except LedgerError Bool :=
  match recordInner w.journal digest state io with
  | (journal, .ok inserted) => (⟨journal, w.healthy⟩, .ok inserted)
  | (journal, .error e) => (⟨journal, false⟩, .error e)

/-- A turn that serves `Command::Lookup`. -/
def serveLookup (w : Worker) (digest : LedgerDigest) : Except LedgerError (Option RecordState) :=
  if w.healthy then .ok (w.journal.index.lookup digest) else .error .unavailable

def record (w : Worker) (digest : LedgerDigest) (state : RecordState) (io : RecordIo) :
    Worker × Except LedgerError Bool :=
  if w.healthy then w.serveRecord digest state io else (w, .error .unavailable)

@[simp] theorem journal_serveRecord (w : Worker) (digest : LedgerDigest) (state : RecordState)
    (io : RecordIo) :
    (w.serveRecord digest state io).1.journal = (recordInner w.journal digest state io).1 := by
  unfold serveRecord
  split <;> simp_all

@[simp] theorem reply_serveRecord (w : Worker) (digest : LedgerDigest) (state : RecordState)
    (io : RecordIo) :
    (w.serveRecord digest state io).2 = (recordInner w.journal digest state io).2 := by
  unfold serveRecord
  split <;> simp_all

end Worker

/-! ### The facades -/

inductive ReserveResult
  | reserved
  | suppressed
deriving DecidableEq

/-- `LocalExclusionLedger::record_local_excluded`. -/
def recordLocalExcluded (w : Worker) (digest : LedgerDigest) (io : RecordIo) :
    Worker × Except LedgerError Unit :=
  ((w.record digest .localExcluded io).1, (w.record digest .localExcluded io).2.map fun _ => ())

def contains (w : Worker) (digest : LedgerDigest) : Except LedgerError Bool :=
  (w.serveLookup digest).map fun state => decide (state = some .localExcluded)

/-- `DeliveryLedger::check_and_reserve`. -/
def checkAndReserve (w : Worker) (digest : LedgerDigest) (io : RecordIo) :
    Worker × Except LedgerError ReserveResult :=
  ((w.record digest .reserved io).1,
    (w.record digest .reserved io).2.map fun inserted => if inserted then .reserved else .suppressed)

def markCompleted (w : Worker) (digest : LedgerDigest) (io : RecordIo) :
    Worker × Except LedgerError Unit :=
  ((w.record digest .completed io).1, (w.record digest .completed io).2.map fun _ => ())

def isSuppressed (w : Worker) (digest : LedgerDigest) : Except LedgerError Bool :=
  (w.serveLookup digest).map fun state =>
    decide (state = some .reserved ∨ state = some .completed)

/-- The writing calls of the facade of one journal. -/
inductive FacadeOp : JournalKind → Type
  | recordLocalExcluded (digest : LedgerDigest) : FacadeOp .exclusion
  | checkAndReserve (digest : LedgerDigest) : FacadeOp .delivery
  | markCompleted (digest : LedgerDigest) : FacadeOp .delivery

namespace FacadeOp

variable {kind : JournalKind}

def digest : FacadeOp kind → LedgerDigest
  | recordLocalExcluded digest => digest
  | checkAndReserve digest => digest
  | markCompleted digest => digest

def state : FacadeOp kind → RecordState
  | recordLocalExcluded _ => .localExcluded
  | checkAndReserve _ => .reserved
  | markCompleted _ => .completed

def run (w : Worker) : FacadeOp kind → Worker
  | recordLocalExcluded digest => (Ledger.recordLocalExcluded w digest .clean).1
  | checkAndReserve digest => (Ledger.checkAndReserve w digest .clean).1
  | markCompleted digest => (Ledger.markCompleted w digest .clean).1

theorem run_eq (w : Worker) (op : FacadeOp kind) :
    op.run w = (w.record op.digest op.state .clean).1 := by
  cases op <;> rfl

theorem permits (op : FacadeOp kind) : kind.permits op.state = true := by
  cases op <;> rfl

end FacadeOp

/-! ### Histories -/

def facadeStep {kind : JournalKind} (w : Worker) (op : FacadeOp kind) : Option Worker :=
  some (op.run w)

/-- `Completed` is not written for an unknown digest: the worker refuses, the digest is known, or
the index is full. -/
def CompletesKnown {kind : JournalKind} (w : Worker) (op : FacadeOp kind) : Prop :=
  op.state = .completed → w.healthy = true → op.digest ∉ w.journal.index →
    maxUniqueEntries ≤ w.journal.index.len
deriving Decidable

variable {kind : JournalKind} {w w' : Worker}

theorem facadeStep_cases (h : facadeStep w op = some w') :
    w.healthy = false ∧ w'.journal = w.journal ∨
      w.healthy = true ∧ w'.journal = (recordInner w.journal op.digest op.state .clean).1 := by
  cases h
  rw [FacadeOp.run_eq, Worker.record]
  cases hh : w.healthy with
  | false => exact .inl ⟨rfl, rfl⟩
  | true => exact .inr ⟨rfl, by simp⟩

theorem kind_facadeStep (h : facadeStep w op = some w') : w'.journal.kind = w.journal.kind := by
  rcases facadeStep_cases h with ⟨-, hw⟩ | ⟨-, hw⟩ <;> rw [hw]
  exact kind_recordInner _ _ _ _

theorem Faithful.facadeStep (hj : Faithful w.journal) (hok : CompletesKnown w op)
    (h : facadeStep w op = some w') : Faithful w'.journal := by
  rcases facadeStep_cases h with ⟨-, hw⟩ | ⟨hh, hw⟩ <;> rw [hw]
  · exact hj
  · by_cases ha : Admits w.journal op.digest op.state
    · refine hj.recordInner ha fun ⟨hd, hs⟩ => ?_
      exact Nat.not_lt.2 (hok hs hh hd) (ha.2.2 hd)
    · rw [(recordInner_of_not_admits ha .clean).1]
      exact hj

/-- A call that completes an unknown digest spoils the journal. -/
theorem Faithful.spoiled_facadeStep {op : FacadeOp kind} (hj : Faithful w.journal)
    (hkind : w.journal.kind = kind) (hok : ¬ CompletesKnown w op)
    (h : Ledger.facadeStep w op = some w') : Spoiled w'.journal := by
  unfold CompletesKnown at hok
  push Not at hok
  obtain ⟨hs, hh, hd, hroom⟩ := hok
  rcases facadeStep_cases h with ⟨hh', -⟩ | ⟨-, hw⟩
  · rw [hh] at hh'
    simp at hh'
  · rw [hw]
    have htrans : recordTransition (w.journal.index.lookup op.digest) op.state = .ok true := by
      rw [Finmap.lookup_eq_none.2 hd]
      rfl
    exact hj.spoiled_recordInner ⟨hkind ▸ op.permits, htrans, fun _ => hroom⟩ ⟨hd, hs⟩

theorem Spoiled.facadeStep (hj : Spoiled w.journal) (h : facadeStep w op = some w') :
    Spoiled w'.journal := by
  rcases facadeStep_cases h with ⟨-, hw⟩ | ⟨-, hw⟩ <;> rw [hw]
  · exact hj
  · exact hj.recordInner op.digest op.state

/-- **When a journal opens to what it holds in memory.** After any history of facade calls on a
new journal, `Journal::open` gives its own index, sequence and number of records exactly if no
`mark_completed` wrote a record for a digest not in the index. -/
theorem facadeHistory_reopens_iff {dir : LedgerDir} {j : Journal}
    (hempty : (dir.active.getD (.ofDisk [])).content = [])
    (hopen : (openJournal kind .none dir).2 = .ok j) {ops : List (FacadeOp kind)}
    (hrun : Lts.exec facadeStep (.spawn j) ops = some w') :
    Reopens w'.journal ↔ Lts.Along facadeStep CompletesKnown (.spawn j) ops := by
  rw [openJournal_of_empty hempty] at hopen
  cases hopen
  have hstart : Faithful (Worker.spawn (freshJournal kind)).journal ∧
      (Worker.spawn (freshJournal kind)).journal.kind = kind := ⟨faithful_freshJournal kind, rfl⟩
  refine Lts.exec_dichotomy_iff (fun w : Worker => Faithful w.journal ∧ w.journal.kind = kind)
    (fun w : Worker => Spoiled w.journal) ?_ ?_ ?_ hstart hrun (fun hend => hend.1.reopens)
    (fun hend => hend.not_reopens)
  · rintro w op w' ⟨hj, hkind⟩ hok hs
    exact ⟨hj.facadeStep hok hs, (kind_facadeStep hs).trans hkind⟩
  · rintro w op w' ⟨hj, hkind⟩ hno hs
    exact hj.spoiled_facadeStep hkind hno hs
  · intro w op w' hj hs
    exact hj.facadeStep hs

/-- A new journal reserves and completes: the file opens to the same. -/
theorem reserve_complete_reopens : ∃ j w, (openJournal .delivery .none ⟨none, none⟩).2 = .ok j ∧
      Lts.exec facadeStep (.spawn j) [.checkAndReserve (documentDigest "frames" "1"),
        .markCompleted (documentDigest "frames" "1")] = some w ∧ Reopens w.journal := by
  have hrun : Lts.exec facadeStep (.spawn (freshJournal .delivery))
      [.checkAndReserve (documentDigest "frames" "1"), .markCompleted (documentDigest "frames" "1")] =
        some _ := rfl
  have hopen := openJournal_new .delivery
  exact ⟨_, _, hopen, hrun, (facadeHistory_reopens_iff rfl hopen hrun).2 (by decide +kernel)⟩

/-- `mark_completed` on a digest that was never reserved is acknowledged, and the
journal does not open again. -/
theorem complete_unreserved_not_reopens :
    ∃ j w, (openJournal .delivery .none ⟨none, none⟩).2 = .ok j ∧
      (markCompleted (.spawn j) (documentDigest "frames" "1") .clean).2 = .ok () ∧
      Lts.exec facadeStep (.spawn j) [.markCompleted (documentDigest "frames" "1")] = some w ∧
      ¬ Reopens w.journal := by
  have hfresh : Faithful (Worker.spawn (freshJournal .delivery)).journal :=
    faithful_freshJournal .delivery
  have hunknown : ¬ CompletesKnown (.spawn (freshJournal .delivery))
      (.markCompleted (documentDigest "frames" "1")) :=
    fun h => absurd (h rfl rfl Finmap.notMem_empty) (by decide)
  refine ⟨_, _, openJournal_new _, rfl, rfl, ?_⟩
  exact (hfresh.spoiled_facadeStep rfl hunknown rfl).not_reopens

end PeatNode.Ledger
