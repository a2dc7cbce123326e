/-
# The journal and its operations

`Journal::open`, `record_inner` and `compact_inner` of `src/nats_bridge/ledger.rs` on the active
file and the temporary file of a compaction.  Every operation takes the point at which it fails
(`OpenFault`, `AppendFault`, `CompactStop`) and leaves the directory as that failure does.
Between the rename and the reopening of the active file the journal still holds the old one, which
no directory entry names (`Journal.orphan`).
-/

import Mathlib.Data.Finset.Sort
import PeatNode.Ledger.WholeRecords
import PeatNode.Lib.DurableFile

namespace PeatNode.Ledger

open DurableFile

/-- The two entries of the ledger directory for one journal. -/
structure LedgerDir where
  active : Option File
  temp : Option File
deriving DecidableEq

structure Journal where
  kind : JournalKind
  sequence : ℕ
  records : ℕ
  index : Index
  dir : LedgerDir
  orphan : Option File
deriving DecidableEq

namespace Journal

/-- The file the journal holds open. -/
def file (j : Journal) : File := j.orphan.getD (j.dir.active.getD (.ofDisk []))

/-- The journal with another open file. -/
def setFile (j : Journal) (f : File) : Journal :=
  match j.orphan with
  | some _ => { j with orphan := some f }
  | none => { j with dir := { j.dir with active := some f } }

end Journal

/-! ### Opening -/

/-- Where `Journal::open` fails, if it gets there. -/
inductive OpenFault
  | none
  | prepare
  | header (written : ℕ)
  | headerSync
  | setLen
  | setLenSync
deriving DecidableEq

/-- The end of `Journal::open`: the torn rest is dropped. -/
def openFile (kind : JournalKind) (fault : OpenFault) (file : File) :
    LedgerDir × Except LedgerError Journal :=
  match recover kind file.content with
  | .error e => (⟨some file, none⟩, .error e)
  | .ok r =>
    let kept := headerLen + r.records * recordLen
    let journal (f : File) : Journal := ⟨kind, r.sequence, r.records, r.index, ⟨some f, none⟩, none⟩
    if kept = file.content.length then (⟨some file, none⟩, .ok (journal file))
    else match fault with
      | .setLen => (⟨some file, none⟩, .error .unavailable)
      | .setLenSync => (⟨some (file.setLen kept), none⟩, .error .unavailable)
      | _ => (⟨some (file.setLen kept).sync, none⟩, .ok (journal (file.setLen kept).sync))

def openJournal (kind : JournalKind) (fault : OpenFault) (dir : LedgerDir) :
    LedgerDir × Except LedgerError Journal :=
  if fault = .prepare then (dir, .error .unavailable)
  else
    let file := dir.active.getD (.ofDisk [])
    if file.content.length = 0 then
      match fault with
      | .header n => (⟨some (file.append ((header kind).take n)), none⟩, .error .unavailable)
      | .headerSync => (⟨some (file.append (header kind)), none⟩, .error .unavailable)
      | _ => openFile kind fault (file.append (header kind)).sync
    else if maxFileBytes < file.content.length then (⟨some file, none⟩, .error .capacity)
    else openFile kind fault file

/-! ### Compaction -/

def LedgerDigest.key (d : LedgerDigest) : List ℕ := d.bytes.map UInt8.toNat

theorem LedgerDigest.key_injective : Function.Injective LedgerDigest.key := by
  rintro ⟨a, _⟩ ⟨b, _⟩ h
  have hab : a = b := List.map_injective_iff.2 (fun _ _ => UInt8.toNat_inj.1) h
  subst hab
  rfl

/-- `[u8; 32]` is ordered lexicographically. -/
instance : LinearOrder LedgerDigest := LinearOrder.lift' LedgerDigest.key LedgerDigest.key_injective

/-- The index in the order of its digests. -/
def compactEntries (index : Index) : List (LedgerDigest × RecordState) :=
  (index.keys.sort (· ≤ ·)).filterMap fun d => (index.lookup d).map fun state => (d, state)

/-- Records numbered on from `n`. -/
def encodeEntries : ℕ → List (LedgerDigest × RecordState) → List UInt8
  | _, [] => []
  | n, (digest, state) :: entries =>
    encodeRecord (n + 1) state digest ++ encodeEntries (n + 1) entries

def compacted (kind : JournalKind) (index : Index) : List UInt8 :=
  header kind ++ encodeEntries 0 (compactEntries index)

/-- Where `compact_inner` stops short; before the sync of the temporary file only a part of it may
be written. -/
inductive CompactStop
  | createTemp
  | beforeTempSync (written : ℕ)
  | afterTempSync
  | afterRename
  | afterDirectorySync
deriving DecidableEq

def compactInner (j : Journal) (stop : Option CompactStop) : Journal × Except LedgerError Unit :=
  if j.dir.temp.isSome then (j, .error .unavailable)
  else
    let replacement := File.ofDisk (compacted j.kind j.index)
    let renamed : Journal := { j with dir := ⟨some replacement, none⟩, orphan := some j.file }
    match stop with
    | some .createTemp => (j, .error .unavailable)
    | some (.beforeTempSync n) =>
      ({ j with dir := { j.dir with
          temp := some ((File.ofDisk []).append ((compacted j.kind j.index).take n)) } },
        .error .unavailable)
    | some .afterTempSync =>
      ({ j with dir := { j.dir with temp := some replacement } }, .error .unavailable)
    | some .afterRename => (renamed, .error .unavailable)
    | some .afterDirectorySync => (renamed, .error .unavailable)
    | none =>
      ({ renamed with
          orphan := none
          sequence := (compactEntries j.index).length
          records := j.index.len }, .ok ())

/-! ### Recording -/

/-- Where an append fails; a failed `write_all` has written an initial part of the record. -/
inductive AppendFault
  | none
  | seek
  | write (written : ℕ)
  | sync
deriving DecidableEq

/-- The failures one call of `record_inner` meets. -/
structure RecordIo where
  append : AppendFault
  compact : Option CompactStop
deriving DecidableEq

def RecordIo.clean : RecordIo := ⟨.none, none⟩

/-- The second half of `record_inner`. -/
def appendRecord (j : Journal) (digest : LedgerDigest) (state : RecordState) (fault : AppendFault) :
    Journal × Except LedgerError Bool :=
  if j.sequence + 1 < 2 ^ 64 then
    let record := encodeRecord (j.sequence + 1) state digest
    let j := { j with sequence := j.sequence + 1 }
    match fault with
    | .seek => (j, .error .unavailable)
    | .write n => (j.setFile (j.file.append (record.take n)), .error .unavailable)
    | .sync => (j.setFile (j.file.append record), .error .unavailable)
    | .none =>
      ({ j.setFile (j.file.append record).sync with
          index := j.index.insert digest state, records := j.records + 1 }, .ok true)
  else (j, .error .capacity)

def recordInner (j : Journal) (digest : LedgerDigest) (state : RecordState) (io : RecordIo) :
    Journal × Except LedgerError Bool :=
  if j.kind.permits state = false then (j, .error .corrupt)
  else match recordTransition (j.index.lookup digest) state with
    | .error e => (j, .error e)
    | .ok false => (j, .ok false)
    | .ok true =>
      if maxUniqueEntries ≤ j.index.len ∧ digest ∉ j.index then (j, .error .capacity)
      else if maxRecords ≤ j.records then
        match compactInner j io.compact with
        | (j', .error e) => (j', .error e)
        | (j', .ok ()) => appendRecord j' digest state io.append
      else appendRecord j digest state io.append

/-- The request gets as far as the append. -/
def Admits (j : Journal) (digest : LedgerDigest) (state : RecordState) : Prop :=
  j.kind.permits state = true ∧ recordTransition (j.index.lookup digest) state = .ok true ∧
    (digest ∉ j.index → j.index.len < maxUniqueEntries)
deriving Decidable

variable {j : Journal} {digest : LedgerDigest} {state : RecordState}

/-- **A request that is not admitted leaves the journal as it is**, and is not
answered with `Ok(true)`. -/
theorem recordInner_of_not_admits (h : ¬ Admits j digest state) (io : RecordIo) :
    (recordInner j digest state io).1 = j ∧ (recordInner j digest state io).2 ≠ .ok true := by
  unfold recordInner
  by_cases hp : j.kind.permits state = false
  · rw [if_pos hp]
    exact ⟨rfl, by simp⟩
  · rw [if_neg hp]
    rw [Bool.not_eq_false] at hp
    cases ht : recordTransition (j.index.lookup digest) state with
    | error e => exact ⟨rfl, by simp⟩
    | ok admitted =>
      cases admitted with
      | false => exact ⟨rfl, by simp⟩
      | true =>
        have hfull : maxUniqueEntries ≤ j.index.len ∧ digest ∉ j.index := by
          by_contra hroom
          exact h ⟨hp, ht, fun hd => Nat.not_le.1 fun hle => hroom ⟨hle, hd⟩⟩
        simp only [if_pos hfull]
        exact ⟨trivial, by simp⟩

theorem mem_of_recordInner_ok (h : ¬ Admits j digest state)
    (hans : (recordInner j digest state io).2 = .ok inserted) : digest ∈ j.index := by
  by_contra hd
  have ht : recordTransition (j.index.lookup digest) state = .ok true := by
    rw [Finmap.lookup_eq_none.2 hd]
    rfl
  unfold recordInner at hans
  rw [ht] at hans
  by_cases hp : j.kind.permits state = false
  · rw [if_pos hp] at hans
    simp at hans
  · have hfull : maxUniqueEntries ≤ j.index.len ∧ digest ∉ j.index := by
      refine ⟨Nat.not_lt.1 fun hlt => h ⟨by rwa [Bool.not_eq_false] at hp, ht, fun _ => hlt⟩, hd⟩
    simp only [if_neg hp, if_pos hfull] at hans
    simp at hans

/-- An admitted request is an append, at the record limit after a compaction. -/
theorem recordInner_eq_of_admits (h : Admits j digest state) (io : RecordIo) :
    recordInner j digest state io = if maxRecords ≤ j.records then
        match compactInner j io.compact with
        | (j', .error e) => (j', .error e)
        | (j', .ok ()) => appendRecord j' digest state io.append
      else appendRecord j digest state io.append := by
  obtain ⟨hp, ht, hroom⟩ := h
  have hfull : ¬(maxUniqueEntries ≤ j.index.len ∧ digest ∉ j.index) :=
    fun hf => Nat.not_lt.2 hf.1 (hroom hf.2)
  unfold recordInner
  rw [if_neg (by simp [hp]), ht]
  exact if_neg hfull

theorem recordInner_of_admits (h : Admits j digest state) (hrec : j.records < maxRecords)
    (io : RecordIo) : recordInner j digest state io = appendRecord j digest state io.append := by
  rw [recordInner_eq_of_admits h, if_neg (Nat.not_le.2 hrec)]

/-- The journal counts no more records than its index accounts for, and its
index is within its limit. -/
structure Fits (j : Journal) : Prop where
  records_le : j.records ≤ j.index.weight
  len_le : j.index.len ≤ maxUniqueEntries

namespace Fits

variable {j : Journal} {digest : LedgerDigest} {state : RecordState}

/-- **Compaction is not reached.**  A full journal admits nothing. -/
theorem records_lt (h : Fits j) (ha : Admits j digest state) : j.records < maxRecords :=
  lt_of_le_of_lt h.records_le (Index.weight_lt_maxRecords ha.2.1 h.len_le ha.2.2)

theorem insert_len_le (h : Fits j) (ha : Admits j digest state) :
    Index.len (j.index.insert digest state) ≤ maxUniqueEntries := by
  by_cases hd : digest ∈ j.index
  · rw [Index.len_insert_of_mem hd]
    exact h.len_le
  · rw [Index.len_insert_of_notMem hd]
    exact ha.2.2 hd

end Fits

end PeatNode.Ledger
