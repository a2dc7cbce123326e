/-
# Reading a journal back

`recover` of `src/nats_bridge/ledger.rs` on the bytes of a file: the header test, and the loop over
the whole 80-byte chunks of the body.  A successful recovery counts the same in every way
(`recover_ok`): the returned sequence, the number of records, the whole chunks of the file and the
weight of the index.
-/

import PeatNode.Ledger.Index

namespace PeatNode.Ledger

open Chunks List

/-- The body of the recovery loop. -/
def acceptRecord (kind : JournalKind) (expected : ℕ) (index : Index) (sequence : ℕ)
    (state : RecordState) (digest : LedgerDigest) : Except LedgerError (ℕ × Index) :=
  if sequence ≠ expected ∨ kind.permits state = false then .error .corrupt
  else if expected + 1 < 2 ^ 64 then
    if recoverTransition (index.lookup digest) state then
      if maxUniqueEntries < Index.len (index.insert digest state) then .error .capacity
      else .ok (expected + 1, index.insert digest state)
    else .error .corrupt
  else .error .corrupt

/-- One turn of the recovery loop. -/
def recoverStep (kind : JournalKind) (acc : ℕ × Index) (chunk : List UInt8) :
    Except LedgerError (ℕ × Index) :=
  match decodeRecord chunk with
  | .ok (sequence, state, digest) => acceptRecord kind acc.1 acc.2 sequence state digest
  | .error e => .error e

structure Recovered where
  sequence : ℕ
  records : ℕ
  index : Index
deriving DecidableEq

/-- `recover`, without the truncation. -/
def recover (kind : JournalKind) (bytes : List UInt8) : Except LedgerError Recovered :=
  if headerOk kind bytes then
    match (wholeChunks recordLen (bytes.drop headerLen)).foldlM (recoverStep kind) (1, ∅) with
    | .ok (expected, index) => .ok ⟨expected - 1, (bytes.length - headerLen) / recordLen, index⟩
    | .error e => .error e
  else .error .corrupt

/-- What recovery asks of a record. -/
def Accepts (kind : JournalKind) (index : Index) (state : RecordState) (digest : LedgerDigest) :
    Prop :=
  kind.permits state = true ∧ recoverTransition (index.lookup digest) state = true ∧
    Index.len (index.insert digest state) ≤ maxUniqueEntries
deriving Decidable

variable {kind : JournalKind} {state : RecordState} {digest : LedgerDigest}

theorem acceptRecord_eq_ok {expected sequence : ℕ} {index : Index} {acc : ℕ × Index}
    (h : acceptRecord kind expected index sequence state digest = .ok acc) :
    sequence = expected ∧ Accepts kind index state digest ∧
      acc = (expected + 1, index.insert digest state) := by
  unfold acceptRecord at h
  split_ifs at h with h₁ h₂ h₃ h₄
  rw [not_or, not_not, Bool.not_eq_false] at h₁
  exact ⟨h₁.1, ⟨h₁.2, h₃, Nat.not_lt.1 h₄⟩, (Except.ok.inj h).symm⟩

theorem acceptRecord_of_accepts (hn : n + 1 < 2 ^ 64) (h : Accepts kind index state digest) :
    acceptRecord kind n index n state digest = .ok (n + 1, index.insert digest state) := by
  obtain ⟨h₁, h₂, h₃⟩ := h
  unfold acceptRecord
  rw [if_neg (by simp [h₁]), if_pos hn, if_pos h₂, if_neg (Nat.not_lt.2 h₃)]

theorem recoverStep_eq_ok (h : recoverStep kind acc chunk = .ok acc') :
    ∃ state digest, decodeRecord chunk = .ok (acc.1, state, digest) ∧
      Accepts kind acc.2 state digest ∧ acc' = (acc.1 + 1, acc.2.insert digest state) := by
  unfold recoverStep at h
  split at h
  · rename_i sequence state digest hd
    obtain ⟨rfl, ha, rfl⟩ := acceptRecord_eq_ok h
    exact ⟨state, digest, hd, ha, rfl⟩
  · simp at h

/-- Every accepted chunk is one sequence number and one record of the index's weight, and nothing
leaves the index. -/
theorem replay_ok {chunks : List (List UInt8)}
    (h : chunks.foldlM (recoverStep kind) (n, index) = .ok (n', index')) :
    n' = n + chunks.length ∧ index'.weight = index.weight + chunks.length ∧
      (index.len ≤ maxUniqueEntries → index'.len ≤ maxUniqueEntries) ∧ index.Below index' := by
  induction chunks generalizing n index with
  | nil =>
    cases h
    simp [Index.Below.refl]
  | cons chunk chunks ih =>
    rw [foldlM_cons] at h
    cases hstep : recoverStep kind (n, index) chunk with
    | error e => rw [hstep] at h; cases h
    | ok acc =>
      rw [hstep] at h
      obtain ⟨state, digest, -, ⟨-, htrans, hlen⟩, rfl⟩ := recoverStep_eq_ok hstep
      obtain ⟨hn, hw, hl, hb⟩ := ih h
      rw [Index.weight_insert htrans] at hw
      simp only [length_cons] at hn hw ⊢
      exact ⟨by omega, by omega, fun _ => hl hlen,
        (Index.below_insert ((recoverTransition_iff _ _).1 htrans).1).trans hb⟩

theorem permits_of_replay_ok {chunks : List (List UInt8)}
    (h : chunks.foldlM (recoverStep kind) (n, index) = .ok acc)
    (hperm : ∀ d state, index.lookup d = some state → kind.permits state = true) :
    ∀ d state, acc.2.lookup d = some state → kind.permits state = true := by
  induction chunks generalizing n index with
  | nil =>
    cases h
    exact hperm
  | cons chunk chunks ih =>
    rw [foldlM_cons] at h
    cases hstep : recoverStep kind (n, index) chunk with
    | error e => rw [hstep] at h; cases h
    | ok acc₁ =>
      rw [hstep] at h
      obtain ⟨state, digest, -, ⟨hp, -, -⟩, rfl⟩ := recoverStep_eq_ok hstep
      refine ih h fun d state' hd => ?_
      by_cases hne : d = digest
      · subst hne
        rw [Finmap.lookup_insert, Option.some.injEq] at hd
        exact hd ▸ hp
      · rw [Finmap.lookup_insert_of_ne _ hne] at hd
        exact hperm d state' hd

/-- **Whatever the loop has read is in the index.** -/
theorem mem_of_replay_ok {chunks : List (List UInt8)} {acc acc' : ℕ × Index}
    (h : chunks.foldlM (recoverStep kind) acc = .ok acc') {chunk : List UInt8}
    (hc : chunk ∈ chunks) {sequence : ℕ} (hd : decodeRecord chunk = .ok (sequence, state, digest)) :
    digest ∈ acc'.2 := by
  induction chunks generalizing acc with
  | nil => cases hc
  | cons head chunks ih =>
    rw [foldlM_cons] at h
    cases hstep : recoverStep kind acc head with
    | error e => rw [hstep] at h; cases h
    | ok acc₁ =>
      rw [hstep] at h
      rcases mem_cons.1 hc with rfl | hc
      · obtain ⟨state', digest', hd', -, rfl⟩ := recoverStep_eq_ok hstep
        obtain ⟨-, rfl, rfl⟩ : sequence = acc.1 ∧ state = state' ∧ digest = digest' := by
          rw [hd] at hd'
          simpa using hd'
        exact (replay_ok (show _ = Except.ok (acc'.1, acc'.2) from h)).2.2.2.mem
          (Finmap.mem_insert.2 (.inl rfl))
      · exact ih h hc

variable {bytes : List UInt8}

theorem headerOk_append (h : headerLen ≤ bytes.length)
    (rest : List UInt8) : headerOk kind (bytes ++ rest) = headerOk kind bytes := by
  have hlen : headerLen = 32 := rfl
  have hget : (bytes ++ rest).getD 16 0 = bytes.getD 16 0 := by
    rw [getD_eq_getElem?_getD, getD_eq_getElem?_getD, getElem?_append_left (by omega)]
  have hcut : ∀ i k, i + k ≤ 32 → ((bytes ++ rest).drop i).take k = (bytes.drop i).take k := by
    intro i k hik
    rw [drop_append_of_le_length (by omega), take_append_of_le_length]
    rw [length_drop]
    omega
  have htake : (bytes ++ rest).take 8 = bytes.take 8 := by
    rw [take_append_of_le_length (by omega)]
  have hle : decide (headerLen ≤ (bytes ++ rest).length) = decide (headerLen ≤ bytes.length) := by
    rw [decide_eq_true h, decide_eq_true]
    rw [length_append]
    omega
  unfold headerOk
  rw [hget, htake, hle, hcut 8 4 (by omega), hcut 12 4 (by omega), hcut 17 15 (by omega)]

/-- A successful recovery in one view: the counts agree with each other, with the index and with
the length of the file. -/
theorem recover_ok (h : recover kind bytes = .ok r) :
    headerOk kind bytes = true ∧ headerLen ≤ bytes.length ∧ r.sequence = r.records ∧
      r.records = (bytes.length - headerLen) / recordLen ∧ r.index.weight = r.records ∧
      r.index.len ≤ maxUniqueEntries := by
  unfold recover at h
  split_ifs at h with hh
  have hlen : headerLen ≤ bytes.length := by
    by_contra hlt
    rw [headerOk_of_length_lt (Nat.not_le.1 hlt)] at hh
    simp at hh
  split at h
  · rename_i expected index hfold
    cases h
    obtain ⟨hn, hw, hl, -⟩ := replay_ok hfold
    rw [length_wholeChunks, length_drop] at hn hw
    rw [Index.weight_empty, Nat.zero_add] at hw
    exact ⟨hh, hlen, by simp only; omega, rfl, hw, hl (Nat.zero_le _)⟩
  · simp at h

theorem mem_of_recover_ok {r : Recovered} (h : recover kind bytes = .ok r) {sequence : ℕ}
    (hseq : sequence < 2 ^ 64)
    (hc : encodeRecord sequence state digest ∈ wholeChunks recordLen (bytes.drop headerLen)) :
    digest ∈ r.index := by
  unfold recover at h
  split_ifs at h
  split at h
  · rename_i expected index hfold
    cases h
    exact mem_of_replay_ok hfold hc (decodeRecord_encodeRecord hseq state digest)
  · simp at h

end PeatNode.Ledger
