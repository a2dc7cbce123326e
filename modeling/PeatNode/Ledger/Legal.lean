/-
# Legal journals

Which files `recover` of `src/nats_bridge/ledger.rs` accepts, said without the recovery loop.  A
history is legal for a kind of journal when the kind permits every state in it, every digest is
first excluded or reserved and then, if reserved, completed at most once, and there are at most
262,144 digests (`Legal`).

A file is accepted exactly when it is the header, the records of a legal history numbered from one,
and a rest shorter than a record (`openFile_eq_ok_iff_legal`).
-/

import PeatNode.Ledger.Journal

namespace PeatNode.Ledger

open Chunks DurableFile List

/-- The records a journal has received, oldest first. -/
abbrev History := List (LedgerDigest × RecordState)

namespace History

/-- What is said of one digest. -/
def states (history : History) (d : LedgerDigest) : List RecordState :=
  (history.filter fun e => e.1 = d).map Prod.snd

def digests (history : History) : Finset LedgerDigest := (history.map Prod.fst).toFinset

/-- The header and the records. -/
def content (kind : JournalKind) (history : History) : List UInt8 :=
  header kind ++ encodeEntries 0 history

/-- The last state of every digest. -/
def index (history : History) : Index := history.foldl (fun index e => index.insert e.1 e.2) ∅

end History

/-- How records of a digest may follow. -/
def legalStates : List (List RecordState) :=
  [[], [.localExcluded], [.reserved], [.reserved, .completed]]

/-- A history that a journal of this kind may have received. -/
structure Legal (kind : JournalKind) (history : History) : Prop where
  permitted : ∀ e ∈ history, kind.permits e.2 = true
  ordered : ∀ d, history.states d ∈ legalStates
  bounded : history.digests.card ≤ maxUniqueEntries

namespace History

variable {history : History}

theorem states_concat (history : History) (e : LedgerDigest × RecordState) (d : LedgerDigest) :
    states (history ++ [e]) d = if e.1 = d then states history d ++ [e.2] else states history d := by
  unfold states
  split_ifs with h <;> simp [h]

theorem digests_concat (history : History) (e : LedgerDigest × RecordState) :
    digests (history ++ [e]) = insert e.1 (digests history) := by
  ext d
  simp [digests]

theorem index_concat (history : History) (e : LedgerDigest × RecordState) :
    index (history ++ [e]) = (index history).insert e.1 e.2 := by
  simp [index, foldl_append]

/-- **The index holds the last state of every digest.** -/
theorem lookup_index (history : History) (d : LedgerDigest) :
    (index history).lookup d = (states history d).getLast? := by
  induction history using reverseRecOn with
  | nil => rfl
  | append_singleton history e ih =>
    rw [index_concat, states_concat]
    split_ifs with h
    · rw [← h, Finmap.lookup_insert, getLast?_concat]
    · rw [Finmap.lookup_insert_of_ne _ (Ne.symm h), ih]

theorem keys_index (history : History) : (index history).keys = digests history := by
  induction history using reverseRecOn with
  | nil => rfl
  | append_singleton history e ih => rw [index_concat, digests_concat, Index.keys_insert, ih]

theorem len_index (history : History) : (index history).len = (digests history).card := by
  rw [Index.len, keys_index]

end History

theorem encodeEntries_concat (n : ℕ) (history : History) (e : LedgerDigest × RecordState) :
    encodeEntries n (history ++ [e]) =
      encodeEntries n history ++ encodeRecord (n + history.length + 1) e.2 e.1 := by
  induction history generalizing n with
  | nil => simp [encodeEntries]
  | cons head history ih =>
    rw [cons_append, encodeEntries, encodeEntries, ih, append_assoc, length_cons,
      show n + 1 + history.length + 1 = n + (history.length + 1) + 1 by omega]

theorem History.content_concat (kind : JournalKind) (history : History)
    (e : LedgerDigest × RecordState) :
    content kind (history ++ [e]) =
      content kind history ++ encodeRecord (history.length + 1) e.2 e.1 := by
  rw [content, content, encodeEntries_concat, Nat.zero_add, append_assoc]

theorem legal_nil (kind : JournalKind) : Legal kind [] :=
  ⟨by simp, fun _ => by simp [History.states, legalStates], by simp [History.digests]⟩

/-! ### One more record -/

/-- One more state of a digest is in order exactly when the table of `recover`
allows it after the last one. -/
theorem concat_mem_legalStates_iff (h : states ∈ legalStates) (state : RecordState) :
    states ++ [state] ∈ legalStates ↔ recoverTransition states.getLast? state = true := by
  simp only [legalStates, mem_cons, not_mem_nil, or_false] at h
  rcases h with rfl | rfl | rfl | rfl <;> cases state <;> decide

theorem mem_legalStates_of_concat (h : states ++ [state] ∈ legalStates) : states ∈ legalStates := by
  have hclosed : ∀ l ∈ legalStates, l.dropLast ∈ legalStates := by decide
  have := hclosed _ h
  rwa [dropLast_concat] at this

/-- **One more record is legal exactly when recovery accepts it.** -/
theorem legal_concat_iff (kind : JournalKind) (history : History) (e : LedgerDigest × RecordState) :
    Legal kind (history ++ [e]) ↔ Legal kind history ∧ Accepts kind history.index e.2 e.1 := by
  have hlen : Index.len (history.index.insert e.1 e.2) = (History.digests (history ++ [e])).card := by
    rw [← History.index_concat, History.len_index]
  constructor
  · rintro ⟨hperm, hord, hbound⟩
    have hmem : history.states e.1 ++ [e.2] ∈ legalStates := by
      have := hord e.1
      rwa [History.states_concat, if_pos rfl] at this
    refine ⟨⟨fun e' h' => hperm e' (mem_append_left _ h'), fun d => ?_, ?_⟩, ?_⟩
    · have := hord d
      rw [History.states_concat] at this
      split_ifs at this
      · exact mem_legalStates_of_concat this
      · exact this
    · refine le_trans (Finset.card_le_card ?_) hbound
      rw [History.digests_concat]
      exact Finset.subset_insert _ _
    · refine ⟨hperm e (by simp), ?_, hlen ▸ hbound⟩
      rw [History.lookup_index]
      exact (concat_mem_legalStates_iff (mem_legalStates_of_concat hmem) _).1 hmem
  · rintro ⟨⟨hperm, hord, -⟩, hp, htrans, hroom⟩
    refine ⟨fun e' h' => ?_, fun d => ?_, hlen ▸ hroom⟩
    · rcases mem_append.1 h' with h' | h'
      · exact hperm e' h'
      · rw [mem_singleton.1 h']
        exact hp
    · rw [History.states_concat]
      split_ifs with hd
      · subst hd
        rw [History.lookup_index] at htrans
        exact (concat_mem_legalStates_iff (hord e.1) _).2 htrans
      · exact hord d

/-! ### Legal histories are recovered -/

variable {kind : JournalKind} {history : History}

/-- **The file of a legal history is recovered to that history.** -/
theorem Legal.recoversTo (h : Legal kind history) :
    RecoversTo kind (history.content kind) history.length history.index := by
  induction history using reverseRecOn with
  | nil =>
    have hcontent : History.content kind [] = header kind := by
      simp [History.content, encodeEntries]
    rw [hcontent]
    exact recoversTo_header kind
  | append_singleton history e ih =>
    obtain ⟨hbefore, hacc⟩ := (legal_concat_iff _ _ _).1 h
    rw [History.content_concat, History.index_concat, length_append, length_singleton]
    exact (ih hbefore).append hacc

/-! ### What is recovered is a legal history -/

/-- **The records the loop accepts are a legal history.** -/
theorem exists_history_of_replay {chunks : List (List UInt8)}
    (h : chunks.foldlM (recoverStep kind) (1, ∅) = .ok (n, index)) :
    ∃ history : History, Legal kind history ∧ n = history.length + 1 ∧ index = history.index ∧
      chunks.flatten = encodeEntries 0 history := by
  induction chunks using reverseRecOn generalizing n index with
  | nil =>
    cases h
    exact ⟨[], legal_nil kind, rfl, rfl, rfl⟩
  | append_singleton chunks chunk ih =>
    rw [foldlM_append] at h
    cases hfold : chunks.foldlM (recoverStep kind) (1, ∅) with
    | error e => rw [hfold] at h; cases h
    | ok acc =>
      obtain ⟨history, hlegal, hn, hindex, hflat⟩ := ih hfold
      have hstep : recoverStep kind acc chunk = .ok (n, index) := by
        simp only [hfold, foldlM_cons, foldlM_nil, bind_pure] at h
        exact h
      obtain ⟨state, digest, hdec, hacc, heq⟩ := recoverStep_eq_ok hstep
      cases heq
      rw [hindex] at hacc
      rw [hn] at hdec
      refine ⟨history ++ [(digest, state)], (legal_concat_iff _ _ _).2 ⟨hlegal, hacc⟩, ?_, ?_, ?_⟩
      · rw [hn, length_append, length_singleton]
      · rw [History.index_concat, hindex]
      · rw [flatten_append, flatten_singleton, hflat, encodeEntries_concat,
          Nat.zero_add, encodeRecord_of_decodeRecord hdec]

/-- **A file of whole records is the file of a legal history.** -/
theorem RecoversTo.exists_history {content : List UInt8} (h : RecoversTo kind content n index) :
    ∃ history : History, Legal kind history ∧ n = history.length ∧ index = history.index ∧
      content = history.content kind := by
  obtain ⟨history, hlegal, hn, hindex, hflat⟩ := exists_history_of_replay h.replay_eq
  refine ⟨history, hlegal, by omega, hindex, ?_⟩
  have hbody : (content.drop headerLen).length = n * recordLen := by
    rw [length_drop, h.length_eq]
    omega
  rw [flatten_wholeChunks (by decide) hbody] at hflat
  rw [eq_header_append_of_headerOk h.headerOk_eq, hflat, History.content]

/-! ### Opening a file -/

/-- A journal of the history, with a torn rest. -/
def TornJournal (kind : JournalKind) (history : History) (bytes : List UInt8) : Prop :=
  Legal kind history ∧ ∃ tail : List UInt8, tail.length < recordLen ∧
    bytes = history.content kind ++ tail

theorem recover_of_tornJournal (h : TornJournal kind history bytes) :
    recover kind bytes = .ok ⟨history.length, history.length, history.index⟩ := by
  obtain ⟨hlegal, tail, htail, rfl⟩ := h
  exact hlegal.recoversTo.recover_append_short htail

theorem exists_tornJournal_of_recover (h : recover kind bytes = .ok r) :
    ∃ history, TornJournal kind history bytes := by
  obtain ⟨history, hlegal, hn, -, hcontent⟩ := (recoversTo_of_recover h).exists_history
  obtain ⟨-, hlen, -, hrec, -, -⟩ := recover_ok h
  refine ⟨history, hlegal, bytes.drop (headerLen + r.records * recordLen), ?_, ?_⟩
  · have hmod := Nat.mod_lt (bytes.length - headerLen) (show recordLen > 0 by decide)
    have hdiv := Nat.div_add_mod (bytes.length - headerLen) recordLen
    rw [← hrec, Nat.mul_comm] at hdiv
    rw [length_drop]
    omega
  · rw [← hcontent, take_append_drop]

theorem openFile_of_tornJournal (h : TornJournal kind history file.content) :
    ∃ f : File, f.content = history.content kind ∧
      openFile kind .none file = (⟨some f, none⟩,
        .ok ⟨kind, history.length, history.length, history.index, ⟨some f, none⟩, none⟩) := by
  have hlen := h.1.recoversTo.length_eq
  obtain ⟨-, tail, htail, hbytes⟩ := id h
  have hkept : file.content.take (headerLen + history.length * recordLen) = history.content kind := by
    rw [hbytes, ← hlen, take_left]
  unfold openFile
  rw [recover_of_tornJournal h]
  by_cases hwhole : headerLen + history.length * recordLen = file.content.length
  · refine ⟨file, ?_, by simp only [if_pos hwhole]⟩
    rwa [hwhole, take_length] at hkept
  · exact ⟨(file.setLen (headerLen + history.length * recordLen)).sync, hkept,
      by simp only [if_neg hwhole]⟩

/-- **Recovery accepts exactly the legal journals.** Where input and output do not fail, a file is
accepted exactly when it is a header, the records of a legal history and a torn rest. The journal
has the length and the last states of that history, and its file is cut to header and records. Any
other file is left as it is. -/
theorem openFile_eq_ok_iff_legal (kind : JournalKind) (file : File) :
    ((∃ j, (openFile kind .none file).2 = .ok j) ↔ ∃ history, TornJournal kind history file.content) ∧
    (∀ j, (openFile kind .none file).2 = .ok j →
      ∀ history, TornJournal kind history file.content →
        j.sequence = history.length ∧ j.records = history.length ∧
        (∀ d, j.index.lookup d = (history.states d).getLast?) ∧
        (openFile kind .none file).1.active = some j.file ∧
        j.file.content = header kind ++ encodeEntries 0 history) ∧
    (∀ e, (openFile kind .none file).2 = .error e → (openFile kind .none file).1.active = some file) := by
  refine ⟨⟨?_, ?_⟩, ?_, ?_⟩
  · rintro ⟨j, hj⟩
    cases hr : recover kind file.content with
    | error e =>
      unfold openFile at hj
      rw [hr] at hj
      simp at hj
    | ok r => exact exists_tornJournal_of_recover hr
  · rintro ⟨history, h⟩
    obtain ⟨f, -, hopen⟩ := openFile_of_tornJournal h
    exact ⟨_, by rw [hopen]⟩
  · intro j hj history h
    obtain ⟨f, hf, hopen⟩ := openFile_of_tornJournal h
    rw [hopen] at hj ⊢
    cases hj
    exact ⟨rfl, rfl, history.lookup_index, rfl, hf⟩
  · intro e he
    cases hr : recover kind file.content with
    | error e' =>
      unfold openFile
      rw [hr]
    | ok r =>
      obtain ⟨history, h⟩ := exists_tornJournal_of_recover hr
      obtain ⟨f, -, hopen⟩ := openFile_of_tornJournal h
      rw [hopen] at he
      simp at he

end PeatNode.Ledger
