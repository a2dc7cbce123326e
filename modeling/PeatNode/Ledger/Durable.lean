/-
# Durable reservations

A digest is durably reserved when the synced part of the journal file holds a whole `Reserved`
record for it, in step with the chunks recovery reads.  Such a record survives every further request
(`recordInner_advances`), every crash and every attempt to open the file (`durable_openJournal`).
An acknowledged request makes one if the file was in step before (`durable_of_recordInner`).
-/

import PeatNode.Ledger.Kept

namespace PeatNode.Ledger

open Chunks DurableFile

/-- A synced `Reserved` record. -/
def DurablyReserved (f : File) (d : LedgerDigest) : Prop :=
  ∃ n < 2 ^ 64, encodeRecord n .reserved d ∈ wholeChunks recordLen (f.synced.drop headerLen)

variable {d : LedgerDigest}

theorem DurablyReserved.mono (h : DurablyReserved f d) (hsync : f.synced <+: f'.synced) :
    DurablyReserved f' d := by
  obtain ⟨n, hn, hc⟩ := h
  exact ⟨n, hn, mem_chunks_of_isPrefix hsync hc⟩

/-- Recovery of a file that starts with the synced part knows the digest. -/
theorem DurablyReserved.mem_of_recover (h : DurablyReserved f d)
    (hr : recover kind f.content = .ok r) : d ∈ r.index := by
  obtain ⟨n, hn, hc⟩ := h
  exact mem_of_recover_ok hr hn (mem_chunks_of_isPrefix f.synced_isPrefix hc)

/-! ### Requests -/

/-- **An acknowledged reservation is durable**, and the digest was not known
before, if the file was in step. -/
theorem durable_of_recordInner (hl : j.Linked) (hfit : Fits j)
    (hans : (recordInner j digest .reserved io).2 = .ok true)
    (hstep : Admits j digest .reserved → InChunks j.file) :
    digest ∉ j.index ∧ digest ∈ (recordInner j digest .reserved io).1.index ∧
      DurablyReserved (recordInner j digest .reserved io).1.file digest := by
  have ha : Admits j digest .reserved := by
    by_contra ha
    exact (recordInner_of_not_admits ha io).2 hans
  obtain ⟨hnew, hknown⟩ := fresh_of_recordInner hl hfit hans
  refine ⟨hnew, hknown, ?_⟩
  rw [recordInner_of_admits ha (hfit.records_lt ha)] at hans ⊢
  by_cases hseq : j.sequence + 1 < 2 ^ 64
  · obtain ⟨-, -, hcontent, hreply⟩ := appendRecord_spec hseq digest .reserved hl io.append
    rcases hreply with ⟨hf, -, -, hs, -⟩ | ⟨-, -, -, -, herr⟩
    · refine ⟨j.sequence + 1, hseq, ?_⟩
      rw [hs, hcontent, hf]
      exact (hstep ha).mem_chunks_append _ _ _
    · rw [herr] at hans
      simp at hans
  · unfold appendRecord at hans
    rw [if_neg hseq] at hans
    simp at hans

/-! ### Opening and crashing -/

/-- A named file has it durably reserved. -/
def DurableIn (dir : LedgerDir) (d : LedgerDigest) : Prop :=
  ∃ f, dir.active = some f ∧ DurablyReserved f d

theorem DurablyReserved.setLen (h : DurablyReserved f d)
    (hm : (f.content.length - headerLen) / recordLen ≤ m) :
    DurablyReserved (f.setLen (headerLen + m * recordLen)) d := by
  obtain ⟨n, hn, hc⟩ := h
  have hlen := f.synced_isPrefix.length_le
  have hle : (f.synced.drop headerLen).length / recordLen ≤ m := by
    refine le_trans (Nat.div_le_div_right ?_) hm
    rw [List.length_drop]
    omega
  refine ⟨n, hn, ?_⟩
  rw [File.synced_setLen, List.drop_take, Nat.add_sub_cancel_left, wholeChunks_take (by decide) hle]
  exact hc

theorem DurablyReserved.sync (h : DurablyReserved f d) :
    DurablyReserved f.sync d := h.mono f.synced_isPrefix

theorem not_durablyReserved_of_nil (h : f.content = []) (d : LedgerDigest) :
    ¬ DurablyReserved f d := by
  rintro ⟨n, -, hc⟩
  have hsynced : f.synced = [] := List.prefix_nil.1 (h ▸ f.synced_isPrefix)
  rw [hsynced, List.drop_nil, wholeChunks_nil] at hc
  simp at hc

/-- **Opening takes no durable record away**, whether it succeeds or fails, and
the opened journal knows the digest. -/
theorem durable_openJournal (kind : JournalKind) (fault : OpenFault) (h : DurableIn dir d) :
    DurableIn (openJournal kind fault dir).1 d ∧ ∀ j, (openJournal kind fault dir).2 = .ok j →
        j.dir = (openJournal kind fault dir).1 ∧ d ∈ j.index := by
  obtain ⟨f, hactive, hd⟩ := h
  have hne : f.content ≠ [] := fun h0 => not_durablyReserved_of_nil h0 d hd
  obtain ⟨⟨f', hf', hcut⟩, hopen⟩ := openJournal_of_active kind fault hactive hne
  refine ⟨⟨f', hf', ?_⟩, fun j hj => ?_⟩
  · rcases hcut with rfl | rfl | rfl
    · exact hd
    · exact hd.setLen le_rfl
    · exact (hd.setLen le_rfl).sync
  · obtain ⟨hdir, r, hr, hindex⟩ := hopen j hj
    exact ⟨hdir, hindex ▸ hd.mem_of_recover hr⟩

end PeatNode.Ledger
