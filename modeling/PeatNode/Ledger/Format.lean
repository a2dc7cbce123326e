/-
# The journal format of the bridge ledger

`src/nats_bridge/ledger.rs`: the two journals (`JournalKind`), their fixed
sizes, the 32-byte header and the 80-byte record.

| bytes of a record | content |
| --- | --- |
| 0 … 8 | sequence, big-endian `u64` |
| 8 | record state |
| 9 … 16 | zero |
| 16 … 48 | document digest |
| 48 … 80 | `record_checksum` of the first 48 bytes |

SHA-256 is used for the digests of documents and for the checksums of records; no
two documents, and no document and record, give it the same bytes
(`digestInput_framing`).
-/

import PeatNode.Lib.Sha256

namespace PeatNode.Ledger

open List BigEndian

/-- `str::as_bytes`. -/
def asBytes (s : String) : List UInt8 := s.toUTF8.data.toList

def magic : List UInt8 := asBytes "PNATSJ01"

def version : ℕ := 1

def headerLen : ℕ := 32

def recordLen : ℕ := 80

def commandCapacity : ℕ := 64

def maxUniqueEntries : ℕ := 262144

def maxRecords : ℕ := maxUniqueEntries * 2

def maxFileBytes : ℕ := headerLen + maxRecords * recordLen

def digestDomain : List UInt8 := asBytes "peat-node:nats-bridge-ledger-key:v1"

def checksumDomain : List UInt8 := asBytes "peat-node:nats-bridge-ledger-record:v1"

/-- `LedgerDigest([u8; 32])`. -/
structure LedgerDigest where
  bytes : List UInt8
  size : bytes.length = 32
deriving DecidableEq

/-- SHA-256 of domain, collection and id. -/
def documentDigest (collection docId : String) : LedgerDigest :=
  ⟨Sha256.hash (BigEndian.toBytes 8 digestDomain.length ++ digestDomain ++
      BigEndian.toBytes 8 (asBytes collection).length ++ asBytes collection ++
      BigEndian.toBytes 8 (asBytes docId).length ++ asBytes docId),
    Sha256.length_hash _⟩

inductive LedgerError
  | unavailable
  | corrupt
  | capacity
  | queueFull
  | stopped
  | ioUnjoined
deriving DecidableEq

inductive RecordState
  | localExcluded
  | reserved
  | completed
deriving DecidableEq

namespace RecordState

/-- The `#[repr(u8)]` value. -/
def toByte : RecordState → UInt8
  | localExcluded => 1
  | reserved => 2
  | completed => 3

def decode (value : UInt8) : Except LedgerError RecordState :=
  if value = 1 then .ok localExcluded
  else if value = 2 then .ok reserved
  else if value = 3 then .ok completed
  else .error .corrupt

@[simp] theorem decode_toByte (state : RecordState) : decode state.toByte = .ok state := by
  cases state <;> rfl

theorem eq_toByte_of_decode (h : decode value = .ok state) : value = state.toByte := by
  unfold decode at h
  split_ifs at h with h₁ h₂ h₃
  · cases h
    exact h₁
  · cases h
    exact h₂
  · cases h
    exact h₃

end RecordState

inductive JournalKind
  | exclusion
  | delivery
deriving DecidableEq

namespace JournalKind

/-- The `#[repr(u8)]` value. -/
def toByte : JournalKind → UInt8
  | exclusion => 1
  | delivery => 2

def permits : JournalKind → RecordState → Bool
  | exclusion, .localExcluded => true
  | delivery, .reserved => true
  | delivery, .completed => true
  | _, _ => false

end JournalKind

/-- The bytes `write_header` writes. -/
def header (kind : JournalKind) : List UInt8 :=
  magic ++ BigEndian.toBytes 4 version ++ BigEndian.toBytes 4 recordLen ++ [kind.toByte] ++
    List.replicate 15 0

/-- What `recover` asks of a header. -/
def headerOk (kind : JournalKind) (bytes : List UInt8) : Bool :=
  headerLen ≤ bytes.length && bytes.take 8 == magic &&
    BigEndian.ofBytes ((bytes.drop 8).take 4) == version &&
    BigEndian.ofBytes ((bytes.drop 12).take 4) == recordLen &&
    bytes.getD 16 0 == kind.toByte && ((bytes.drop 17).take 15).all (· == 0)

@[simp] theorem length_header (kind : JournalKind) : (header kind).length = headerLen := by
  cases kind <;> rfl

@[simp] theorem headerOk_header_append (kind : JournalKind) (rest : List UInt8) :
    headerOk kind (header kind ++ rest) = true := by
  have hlen : headerLen ≤ (header kind ++ rest).length := by simp
  unfold headerOk
  rw [decide_eq_true hlen]
  cases kind <;> rfl

theorem drop_eq_take_append_drop (l : List α) (i k : ℕ) :
    l.drop i = (l.drop i).take k ++ l.drop (i + k) := by
  rw [← drop_drop, take_append_drop]

theorem take_one_drop {l : List α} (h : i < l.length) (a : α) :
    (l.drop i).take 1 = [l.getD i a] := by
  rw [drop_eq_getElem_cons h, getD_eq_getElem?_getD, getElem?_eq_getElem h]
  rfl

/-- **Only the header passes.**  What passes the test starts with the bytes
`write_header` writes. -/
theorem eq_header_append_of_headerOk {kind : JournalKind} (h : headerOk kind bytes = true) :
    bytes = header kind ++ bytes.drop headerLen := by
  simp only [headerOk, Bool.and_eq_true, decide_eq_true_eq, beq_iff_eq, all_eq_true] at h
  obtain ⟨⟨⟨⟨⟨hlen, hmagic⟩, hversion⟩, hrecord⟩, hkind⟩, hzero⟩ := h
  have hlen : 32 ≤ bytes.length := hlen
  have hfield : ∀ i k, i + k ≤ 32 → ((bytes.drop i).take k).length = k := by
    intro i k hi
    rw [length_take, length_drop]
    omega
  have hversion := eq_toBytes_of_ofBytes_eq (hfield 8 4 (by omega)) hversion
  have hrecord := eq_toBytes_of_ofBytes_eq (hfield 12 4 (by omega)) hrecord
  have hkind : (bytes.drop 16).take 1 = [kind.toByte] := by
    rw [take_one_drop (by omega) 0, hkind]
  have hzero : (bytes.drop 17).take 15 = replicate 15 0 :=
    eq_replicate_iff.2 ⟨hfield 17 15 (by omega), hzero⟩
  calc bytes = bytes.take 8 ++ ((bytes.drop 8).take 4 ++ ((bytes.drop 12).take 4 ++
        ((bytes.drop 16).take 1 ++ ((bytes.drop 17).take 15 ++ bytes.drop 32)))) := by
          rw [← drop_eq_take_append_drop, ← drop_eq_take_append_drop, ← drop_eq_take_append_drop,
            ← drop_eq_take_append_drop, take_append_drop]
    _ = header kind ++ bytes.drop headerLen := by
          rw [hmagic, hversion, hrecord, hkind, hzero]
          simp [header, headerLen]

theorem headerOk_of_length_lt (h : bytes.length < headerLen) : headerOk kind bytes = false := by
  have hlen : ¬ headerLen ≤ bytes.length := Nat.not_le.2 h
  simp [headerOk, hlen]

def recordChecksum (fields : List UInt8) : List UInt8 :=
  Sha256.hash (BigEndian.toBytes 8 checksumDomain.length ++ checksumDomain ++ fields)

/-- The first 48 bytes of a record. -/
def recordFields (sequence : ℕ) (state : RecordState) (digest : LedgerDigest) : List UInt8 :=
  BigEndian.toBytes 8 sequence ++ [state.toByte] ++ List.replicate 7 0 ++ digest.bytes

def encodeRecord (sequence : ℕ) (state : RecordState) (digest : LedgerDigest) : List UInt8 :=
  recordFields sequence state digest ++ recordChecksum (recordFields sequence state digest)

def decodeRecord (record : List UInt8) : Except LedgerError (ℕ × RecordState × LedgerDigest) :=
  if h : record.length = recordLen ∧ ((record.drop 9).take 7).all (· == 0) then
    if recordChecksum (record.take 48) = record.drop 48 then
      match RecordState.decode (record.getD 8 0) with
      | .ok state => .ok (BigEndian.ofBytes (record.take 8), state,
          ⟨(record.drop 16).take 32, by simp [h.1, recordLen]⟩)
      | .error e => .error e
    else .error .corrupt
  else .error .corrupt

@[simp] theorem length_recordFields (sequence : ℕ) (state : RecordState) (digest : LedgerDigest) :
    (recordFields sequence state digest).length = 48 := by
  simp [recordFields, digest.size]

@[simp] theorem length_recordChecksum (fields : List UInt8) :
    (recordChecksum fields).length = 32 := Sha256.length_hash _

@[simp] theorem length_encodeRecord (sequence : ℕ) (state : RecordState) (digest : LedgerDigest) :
    (encodeRecord sequence state digest).length = recordLen := by
  simp [encodeRecord, recordLen]

/-- **A record is read back as it was written**, as long as its sequence fits
the `u64` field. -/
theorem decodeRecord_encodeRecord {sequence : ℕ} (hseq : sequence < 2 ^ 64) (state : RecordState)
    (digest : LedgerDigest) :
    decodeRecord (encodeRecord sequence state digest) = .ok (sequence, state, digest) := by
  have hsum : (encodeRecord sequence state digest).take 48 = recordFields sequence state digest := by
    simp [encodeRecord]
  have htail : (encodeRecord sequence state digest).drop 48 =
      recordChecksum (recordFields sequence state digest) := by
    simp [encodeRecord]
  have hnum : (encodeRecord sequence state digest).take 8 = toBytes 8 sequence := by
    simp [encodeRecord, recordFields]
  have hstate : (encodeRecord sequence state digest).getD 8 0 = state.toByte := by
    simp [encodeRecord, recordFields, getD_eq_getElem?_getD]
  have hzero : ((encodeRecord sequence state digest).drop 9).take 7 = replicate 7 0 := by
    simp [encodeRecord, recordFields, drop_append, take_append]
  have hdigest : ((encodeRecord sequence state digest).drop 16).take 32 = digest.bytes := by
    simp [encodeRecord, recordFields, drop_append, take_append, digest.size]
  have hpass : (encodeRecord sequence state digest).length = recordLen ∧
      (((encodeRecord sequence state digest).drop 9).take 7).all (· == 0) := by
    rw [hzero]
    exact ⟨length_encodeRecord _ _ _, rfl⟩
  unfold decodeRecord
  rw [dif_pos hpass, if_pos (by rw [hsum, htail]), hstate, RecordState.decode_toByte, hnum,
    ofBytes_toBytes_of_lt hseq]
  simp only [hdigest]

/-- **Only records are read.**  Bytes that decode are the record of what they
decode to. -/
theorem encodeRecord_of_decodeRecord {record : List UInt8} {sequence : ℕ} {state : RecordState}
    {digest : LedgerDigest} (h : decodeRecord record = .ok (sequence, state, digest)) :
    record = encodeRecord sequence state digest := by
  unfold decodeRecord at h
  split_ifs at h with hpass hsum
  obtain ⟨hlen, hzero⟩ := hpass
  have hlen : record.length = 80 := hlen
  split at h
  · rename_i state' hstate
    rw [Except.ok.injEq, Prod.mk.injEq, Prod.mk.injEq] at h
    obtain ⟨hseq, rfl, rfl⟩ := h
    have hnum := eq_toBytes_of_ofBytes_eq (w := 8) (by rw [length_take]; omega) hseq
    have hbyte : (record.drop 8).take 1 = [state'.toByte] := by
      rw [take_one_drop (by omega) 0, RecordState.eq_toByte_of_decode hstate]
    have hzero : (record.drop 9).take 7 = replicate 7 0 := by
      simp only [all_eq_true, beq_iff_eq] at hzero
      refine eq_replicate_iff.2 ⟨?_, hzero⟩
      rw [length_take, length_drop]
      omega
    have hsplit : record = record.take 8 ++ ((record.drop 8).take 1 ++ ((record.drop 9).take 7 ++
        ((record.drop 16).take 32 ++ record.drop 48))) := by
      rw [← drop_eq_take_append_drop, ← drop_eq_take_append_drop, ← drop_eq_take_append_drop,
        take_append_drop]
    rw [hnum, hbyte, hzero] at hsplit
    have hfields : record.take 48 = toBytes 8 sequence ++ [state'.toByte] ++
        replicate 7 0 ++ (record.drop 16).take 32 := by
      conv_lhs => rw [hsplit, ← append_assoc, ← append_assoc, ← append_assoc]
      refine take_left' ?_
      simp [hlen]
    rw [encodeRecord, recordFields, ← hfields, hsum, take_append_drop]
  · simp at h

/-! ### What is hashed -/

/-- What `document_digest` feeds to SHA-256. -/
def digestInput (collection docId : String) : List UInt8 :=
  framed 8 digestDomain ++ (framed 8 (asBytes collection) ++ framed 8 (asBytes docId))

/-- What `record_checksum` feeds to SHA-256. -/
def checksumInput (fields : List UInt8) : List UInt8 := framed 8 checksumDomain ++ fields

theorem bytes_documentDigest (collection docId : String) :
    (documentDigest collection docId).bytes = Sha256.hash (digestInput collection docId) := by
  simp only [documentDigest, digestInput, framed, append_assoc]

theorem asBytes_inj (h : asBytes s = asBytes t) : s = t :=
  String.toByteArray_inj.1 (ByteArray.ext (Array.toList_inj.1 h))

theorem digestInput_inj (hc₁ : (asBytes c₁).length < 2 ^ 64) (hd₁ : (asBytes d₁).length < 2 ^ 64)
    (hc₂ : (asBytes c₂).length < 2 ^ 64) (hd₂ : (asBytes d₂).length < 2 ^ 64)
    (h : digestInput c₁ d₁ = digestInput c₂ d₂) : c₁ = c₂ ∧ d₁ = d₂ := by
  obtain ⟨-, hparts⟩ := framed_append_inj (by decide) (by decide) h
  obtain ⟨hc, hrest⟩ := framed_append_inj hc₁ hc₂ hparts
  have hd := framed_append_inj hd₁ hd₂ (congrArg (· ++ []) hrest)
  exact ⟨asBytes_inj hc, asBytes_inj hd.1⟩

/-- The domains have different lengths, so the first frames differ. -/
theorem digestInput_ne_checksumInput (collection docId : String) (fields : List UInt8) :
    digestInput collection docId ≠ checksumInput fields := by
  intro h
  have hdomain := (framed_append_inj (by decide) (by decide) h).1
  exact absurd hdomain (by decide)

/-- **The two uses of SHA-256 cannot be confused**, and no two documents have the same
bytes hashed. -/
theorem digestInput_framing {c₁ d₁ c₂ d₂ : String} (hc₁ : (asBytes c₁).length < 2 ^ 64)
    (hd₁ : (asBytes d₁).length < 2 ^ 64) (hc₂ : (asBytes c₂).length < 2 ^ 64)
    (hd₂ : (asBytes d₂).length < 2 ^ 64) :
    (∀ c d, (documentDigest c d).bytes = Sha256.hash (digestInput c d)) ∧
      (∀ fields, recordChecksum fields = Sha256.hash (checksumInput fields)) ∧
      (digestInput c₁ d₁ = digestInput c₂ d₂ → c₁ = c₂ ∧ d₁ = d₂) ∧
      ∀ fields, digestInput c₁ d₁ ≠ checksumInput fields ∧
        digestInput c₂ d₂ ≠ checksumInput fields :=
  ⟨bytes_documentDigest, fun _ => rfl, digestInput_inj hc₁ hd₁ hc₂ hd₂, fun fields =>
    ⟨digestInput_ne_checksumInput c₁ d₁ fields, digestInput_ne_checksumInput c₂ d₂ fields⟩⟩

/-- A byte that moves from the collection to the id changes the input. -/
theorem digestInput_shifted : digestInput "ab" "c" ≠ digestInput "a" "bc" := by
  intro h
  have hsame := (digestInput_framing (by decide) (by decide) (by decide) (by decide)).2.2.1 h
  exact absurd hsame (by decide)

end PeatNode.Ledger
