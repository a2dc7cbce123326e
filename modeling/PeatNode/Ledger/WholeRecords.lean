/-
# Files of whole records

`RecoversTo` is the state of a journal file between two records.  An acceptable record leads to
the next such state (`RecoversTo.append`), any other spoils the file for good
(`recover_append_of_not_accepts`, `recover_append_of_error`), and a torn rest changes nothing
(`RecoversTo.recover_append_short`).
-/

import PeatNode.Ledger.Recover

namespace PeatNode.Ledger

open Chunks List Nat

/-- The file is a header and `n` whole records, and recovery gives `index`. -/
structure RecoversTo (kind : JournalKind) (content : List UInt8) (n : ℕ) (index : Index) : Prop where
  length_eq : content.length = headerLen + n * recordLen
  recover_eq : recover kind content = .ok ⟨n, n, index⟩

variable {content : List UInt8}

theorem wholeChunks_drop_append (h : content.length = headerLen + n * recordLen)
    (rest : List UInt8) :
    wholeChunks recordLen ((content ++ rest).drop headerLen) =
      wholeChunks recordLen (content.drop headerLen) ++ wholeChunks recordLen rest := by
  rw [drop_append_of_le_length (by omega)]
  exact wholeChunks_append (by decide) (m := n) (by rw [length_drop]; omega) rest

theorem recoversTo_header (kind : JournalKind) : RecoversTo kind (header kind) 0 ∅ := by
  refine ⟨by simp, ?_⟩
  have hok := headerOk_header_append kind []
  rw [append_nil] at hok
  have hdrop : (header kind).drop headerLen = [] := drop_eq_nil_of_le (by simp)
  unfold recover
  rw [if_pos hok, hdrop, wholeChunks_nil, length_header]
  rfl

namespace RecoversTo

variable {kind : JournalKind} {content : List UInt8} {n : ℕ} {index : Index}

theorem headerOk_eq (h : RecoversTo kind content n index) : headerOk kind content = true :=
  (recover_ok h.recover_eq).1

theorem weight_eq (h : RecoversTo kind content n index) : index.weight = n :=
  (recover_ok h.recover_eq).2.2.2.2.1

theorem len_le (h : RecoversTo kind content n index) : index.len ≤ maxUniqueEntries :=
  (recover_ok h.recover_eq).2.2.2.2.2

theorem le_maxRecords (h : RecoversTo kind content n index) : n ≤ maxRecords := by
  have h₁ := h.weight_eq
  have h₂ := h.len_le
  have h₃ := Index.completed_card_le_len index
  rw [Index.weight] at h₁
  rw [maxRecords]
  omega

theorem length_le (h : RecoversTo kind content n index) : content.length ≤ maxFileBytes := by
  have := mul_le_mul_right recordLen h.le_maxRecords
  rw [h.length_eq, maxFileBytes]
  omega

theorem replay_eq (h : RecoversTo kind content n index) :
    (wholeChunks recordLen (content.drop headerLen)).foldlM (recoverStep kind) (1, ∅) =
      .ok (n + 1, index) := by
  have hr := h.recover_eq
  unfold recover at hr
  rw [if_pos h.headerOk_eq] at hr
  split at hr
  · rename_i expected index' hfold
    obtain ⟨h₁, -, h₃⟩ := Recovered.mk.inj (Except.ok.inj hr)
    obtain ⟨hn, -⟩ := replay_ok hfold
    rw [hfold, ← h₃]
    congr 2
    omega
  · simp at hr

theorem permits_of_lookup (h : RecoversTo kind content n index) (hd : index.lookup d = some state) :
    kind.permits state = true := by
  refine permits_of_replay_ok h.replay_eq (fun d state h0 => ?_) d state hd
  rw [Finmap.lookup_empty] at h0
  simp at h0

/-- **What follows the whole records decides.**  Recovery of an extension goes
on from the state the file has reached. -/
theorem recover_append (h : RecoversTo kind content n index) (rest : List UInt8) :
    recover kind (content ++ rest) =
      match (wholeChunks recordLen rest).foldlM (recoverStep kind) (n + 1, index) with
      | .ok (expected, index') => .ok ⟨expected - 1, n + rest.length / recordLen, index'⟩
      | .error e => .error e := by
  have hlen := h.length_eq
  have hcount : ((content ++ rest).length - headerLen) / recordLen = n + rest.length / recordLen := by
    have hsub : (content ++ rest).length - headerLen = rest.length + n * recordLen := by
      rw [length_append]
      omega
    rw [hsub, add_mul_div_right _ _ (by decide), add_comm]
  unfold recover
  rw [headerOk_append (by omega), if_pos h.headerOk_eq, wholeChunks_drop_append hlen,
    foldlM_append, h.replay_eq, hcount]
  rfl

/-- **A torn rest is not seen.** -/
theorem recover_append_short (h : RecoversTo kind content n index)
    (hrest : rest.length < recordLen) : recover kind (content ++ rest) = .ok ⟨n, n, index⟩ := by
  rw [h.recover_append, wholeChunks_short hrest, div_eq_of_lt hrest]
  rfl

theorem recoverStep_encodeRecord (h : RecoversTo kind content n index) (state : RecordState)
    (digest : LedgerDigest) :
    recoverStep kind (n + 1, index) (encodeRecord (n + 1) state digest) =
      acceptRecord kind (n + 1) index (n + 1) state digest := by
  have := h.le_maxRecords
  have hmax : maxRecords = 524288 := rfl
  unfold recoverStep
  rw [decodeRecord_encodeRecord (by omega)]

/-- **One more acceptable record.** -/
theorem append (h : RecoversTo kind content n index) (ha : Accepts kind index state digest) :
    RecoversTo kind (content ++ encodeRecord (n + 1) state digest) (n + 1)
      (index.insert digest state) := by
  have hlen := h.length_eq
  have hmax : maxRecords = 524288 := rfl
  have hle := h.le_maxRecords
  constructor
  · rw [length_append, length_encodeRecord, hlen]
    ring
  · rw [h.recover_append, wholeChunks_single (by decide) (length_encodeRecord _ _ _),
      foldlM_cons, h.recoverStep_encodeRecord, acceptRecord_of_accepts (by omega) ha,
      length_encodeRecord]
    rfl

end RecoversTo

variable {kind : JournalKind}

/-- **A record that is not acceptable spoils the file**, whatever follows it. -/
theorem recover_append_of_not_accepts (h : RecoversTo kind content n index)
    (ha : ¬ Accepts kind index state digest) (rest : List UInt8) :
    ∃ e, recover kind (content ++ encodeRecord (n + 1) state digest ++ rest) = .error e := by
  rw [append_assoc, h.recover_append,
    wholeChunks_append (by decide) (m := 1) (by simp), wholeChunks_single (by decide)
      (length_encodeRecord _ _ _), singleton_append, foldlM_cons,
    h.recoverStep_encodeRecord]
  cases hacc : acceptRecord kind (n + 1) index (n + 1) state digest with
  | ok acc => exact absurd (acceptRecord_eq_ok hacc).2.1 ha
  | error e => exact ⟨e, rfl⟩

/-- **A spoiled file stays spoiled**: what is appended behind whole records that recovery rejects
does not repair them. -/
theorem recover_append_of_error (hlen : content.length = headerLen + n * recordLen)
    (h : ∃ e, recover kind content = .error e) (rest : List UInt8) :
    ∃ e, recover kind (content ++ rest) = .error e := by
  obtain ⟨e, h⟩ := h
  unfold recover at h ⊢
  rw [headerOk_append (by omega)]
  split_ifs at h ⊢ with hh
  · rw [wholeChunks_drop_append hlen, foldlM_append]
    split at h
    · simp at h
    · rename_i e' hfold
      rw [hfold]
      exact ⟨e', rfl⟩
  · exact ⟨.corrupt, rfl⟩

/-- **What recovery keeps of a file**: cut after its last whole record, it is a journal of the
recovered records. -/
theorem recoversTo_of_recover (h : recover kind bytes = .ok r) :
    RecoversTo kind (bytes.take (headerLen + r.records * recordLen)) r.records r.index := by
  obtain ⟨hh, hlen, hseq, hrec, -, -⟩ := recover_ok h
  set kept := headerLen + r.records * recordLen with hkept
  have hle : kept ≤ bytes.length := by
    have := div_mul_le_self (bytes.length - headerLen) recordLen
    rw [hkept, hrec]
    omega
  have hlt : bytes.length - kept < recordLen := by
    have hmod := mod_lt (bytes.length - headerLen) (show recordLen > 0 by decide)
    have hdiv := div_add_mod (bytes.length - headerLen) recordLen
    rw [← hrec, mul_comm] at hdiv
    omega
  have hcut : (bytes.take kept).length = headerLen + r.records * recordLen := by
    rw [length_take, min_eq_left hle]
  have hbytes : bytes = bytes.take kept ++ bytes.drop kept := (take_append_drop _ _).symm
  have hchunks : wholeChunks recordLen (bytes.drop headerLen) =
      wholeChunks recordLen ((bytes.take kept).drop headerLen) := by
    have hrest : (bytes.drop kept).length < recordLen := by
      rw [length_drop]
      omega
    conv_lhs => rw [hbytes]
    rw [wholeChunks_drop_append hcut, wholeChunks_short hrest, append_nil]
  refine ⟨hcut, ?_⟩
  have hok : headerOk kind (bytes.take kept) = true := by
    rw [hbytes, headerOk_append (by omega)] at hh
    exact hh
  unfold recover at h ⊢
  rw [if_pos hh] at h
  rw [if_pos hok, ← hchunks, hcut]
  split at h
  · rename_i expected index hfold
    cases h
    simp only at hseq hrec ⊢
    rw [Nat.add_sub_cancel_left, Nat.mul_div_cancel _ (by decide), hseq]
  · simp at h

end PeatNode.Ledger
