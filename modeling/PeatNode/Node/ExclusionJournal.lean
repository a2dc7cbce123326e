/-
# What the exclusion journal and a mapped name guarantee

A mapped collection has no colon in its name, so a key of it names its
collection and document (`documentKey_inj_of_valid`).  The journal of exclusions
answers from its index, which holds exclusions only (`JournalSound`): what it
denies was never recorded in it.
-/

import PeatNode.Ledger.Kept
import PeatNode.Node.LocalWrites

namespace PeatNode.Node

open Bridge Ledger Reconcile

/-! ### Names of collections -/

theorem colon_notMem_of_validCollection (h : validCollection collection = true) :
    ':' ∉ collection.toList := by
  unfold validCollection at h
  split at h
  · simp at h
  · rename_i first rest hlist
    rw [Bool.and_eq_true, List.all_eq_true] at h
    rw [hlist]
    intro hmem
    rcases List.mem_cons.1 hmem with rfl | hmem
    · exact absurd h.1 (by decide)
    · exact absurd (h.2 ':' hmem) (by decide)

/-- Of two readings of one key, a colon-free collection is the shorter one. -/
theorem eq_nil_of_colon (hc : ':' ∉ cs ++ rest) (h : ':' :: d = rest ++ ':' :: d') : rest = [] := by
  cases rest with
  | nil => rfl
  | cons head rest =>
    have hhead : ':' = head := (List.cons.inj h).1
    rw [← hhead] at hc
    exact absurd (List.mem_append_right cs List.mem_cons_self) hc

/-- Without a colon in the collections, a key has one reading. -/
theorem documentKey_inj_of_valid (hm : validCollection m = true) (hc : validCollection c = true)
    (h : documentKey m d = documentKey c d') : m = c ∧ d = d' := by
  have hcm := colon_notMem_of_validCollection hm
  have hcc := colon_notMem_of_validCollection hc
  have hlist : m.toList ++ ':' :: d.toList = c.toList ++ ':' :: d'.toList := by
    have := congrArg String.toList h
    simpa [documentKey] using this
  have hmc : m.toList = c.toList := by
    rcases List.append_eq_append_iff.1 hlist with ⟨rest, hrest, htail⟩ | ⟨rest, hrest, htail⟩
    · rw [hrest] at hcc ⊢
      rw [eq_nil_of_colon hcc htail, List.append_nil]
    · rw [hrest] at hcm ⊢
      rw [eq_nil_of_colon hcm htail, List.append_nil]
  obtain rfl := String.toList_inj.1 hmc
  exact ⟨rfl, documentKey_injective m h⟩

/-! ### The exclusion journal -/

/-- The worker's file keeps its index, which holds exclusions only. -/
structure JournalSound (w : Worker) : Prop where
  knows : Knows w.journal
  excluded : ∀ d state, w.journal.index.lookup d = some state → state = .localExcluded

theorem journalSound_spawn (h : (openJournal .exclusion fault dir).2 = .ok j) :
    JournalSound (Worker.spawn j) := by
  obtain ⟨hj, hkind, -⟩ := faithful_of_openJournal h
  refine ⟨hj.knows, fun d state hd => ?_⟩
  have hp := hj.recovers.permits_of_lookup hd
  rw [hkind] at hp
  cases state with
  | localExcluded => rfl
  | reserved | completed => cases hp

/-- **Recording an exclusion** keeps the journal sound; an answer means that the
digest is in the index. -/
theorem JournalSound.serveRecord (h : JournalSound w) (io : RecordIo)
    (hstep : Admits w.journal d .localExcluded → InChunks w.journal.file) :
    JournalSound (w.serveRecord d .localExcluded io).1 ∧
      ∀ inserted, (w.serveRecord d .localExcluded io).2 = .ok inserted →
        d ∈ (w.serveRecord d .localExcluded io).1.journal.index := by
  have hknows := h.knows.recordInner io hstep
  have hindex := index_recordInner h.knows.linked h.knows.fits d .localExcluded io
  simp only [Worker.reply_serveRecord, Worker.journal_serveRecord]
  refine ⟨⟨by rw [Worker.journal_serveRecord]; exact hknows, fun d' state hd' => ?_⟩, fun inserted hr => ?_⟩
  · rw [Worker.journal_serveRecord] at hd'
    rcases hindex with ⟨hi, -⟩ | hi
    · exact h.excluded d' state (hi ▸ hd')
    · rw [hi] at hd'
      by_cases hne : d' = d
      · subst hne
        rw [Finmap.lookup_insert] at hd'
        exact (Option.some.inj hd').symm
      · rw [Finmap.lookup_insert_of_ne _ hne] at hd'
        exact h.excluded d' state hd'
  · rcases hindex with ⟨hi, hmem⟩ | hi
    · rw [hi]
      exact hmem inserted hr
    · rw [hi]
      exact Finmap.mem_insert.2 (.inl rfl)

/-- What `contains` denies is not in the index. -/
theorem JournalSound.notMem_of_contains (h : JournalSound w) (hc : contains w d = .ok false) :
    d ∉ w.journal.index := by
  intro hd
  obtain ⟨state, hstate⟩ := Finmap.mem_iff.1 hd
  unfold contains Worker.serveLookup at hc
  split_ifs at hc
  · rw [hstate, h.excluded d state hstate] at hc
    cases hc
  · cases hc

end PeatNode.Node
