/-
# The in-memory index of a journal

`index: HashMap<LedgerDigest, RecordState>` in `src/nats_bridge/ledger.rs`, and the two tables that
say which record may follow which: that of `record_inner` (`recordTransition`) and that of `recover`
(`recoverTransition`).  They differ at one place (`recoverTransition_iff`): a `Completed` record for
a digest that is not in the index is written and not read back.
-/

import Mathlib.Data.Finmap
import PeatNode.Ledger.Format

namespace PeatNode.Ledger

open Finmap

abbrev Index := Finmap fun _ : LedgerDigest => RecordState

/-- The match of `record_inner` on present and requested state: `ok false` answers at once,
`ok true` appends. -/
def recordTransition : Option RecordState → RecordState → Except LedgerError Bool
  | some .localExcluded, .localExcluded => .ok false
  | some .reserved, .reserved => .ok false
  | some .completed, .reserved => .ok false
  | some .completed, .completed => .ok false
  | some .reserved, .completed => .ok true
  | none, _ => .ok true
  | _, _ => .error .corrupt

/-- The match of `recover` on both states. -/
def recoverTransition : Option RecordState → RecordState → Bool
  | none, .localExcluded => true
  | none, .reserved => true
  | some .reserved, .completed => true
  | _, _ => false

/-- **The two tables differ at one place.**  Recovery takes what the writer
appends, except `Completed` for a digest it has not seen. -/
theorem recoverTransition_iff (current : Option RecordState) (state : RecordState) :
    recoverTransition current state = true ↔
      recordTransition current state = .ok true ∧ ¬(current = none ∧ state = .completed) := by
  rcases current with _ | _ | _ | _ <;> cases state <;> simp [recoverTransition, recordTransition]

/-- The only append for a digest already in the index turns `Reserved` into
`Completed`. -/
theorem eq_of_recordTransition_some (h : recordTransition (some current) state = .ok true) :
    current = .reserved ∧ state = .completed := by
  cases current <;> cases state <;> simp_all [recordTransition]

/-- The same, or completes a reservation. -/
def RecordState.Supersedes (state' state : RecordState) : Prop :=
  state' = state ∨ state = .reserved ∧ state' = .completed

theorem RecordState.Supersedes.trans {a b c : RecordState} (hab : a.Supersedes b)
    (hbc : b.Supersedes c) : a.Supersedes c := by
  rcases hab with rfl | ⟨rfl, rfl⟩
  · exact hbc
  · rcases hbc with rfl | ⟨-, hbc⟩
    · exact .inr ⟨rfl, rfl⟩
    · simp at hbc

namespace Index

/-- `index'` has every entry, or its completion. -/
def Below (index index' : Index) : Prop :=
  ∀ d state, index.lookup d = some state → ∃ state', index'.lookup d = some state' ∧
    state'.Supersedes state

theorem Below.refl (index : Index) : index.Below index := fun _ state h => ⟨state, h, .inl rfl⟩

theorem Below.trans {a b c : Index} (hab : a.Below b) (hbc : b.Below c) : a.Below c := by
  intro d state h
  obtain ⟨state₁, h₁, hs₁⟩ := hab d state h
  obtain ⟨state₂, h₂, hs₂⟩ := hbc d state₁ h₁
  exact ⟨state₂, h₂, hs₂.trans hs₁⟩

variable {d : LedgerDigest}

theorem Below.mem {index index' : Index} (h : index.Below index')
    (hd : d ∈ index) : d ∈ index' := by
  obtain ⟨state, hs⟩ := mem_iff.1 hd
  obtain ⟨state', hs', -⟩ := h d state hs
  exact mem_of_lookup_eq_some hs'

variable {index : Index} {state : RecordState}

/-- An admitted record only adds to the index. -/
theorem below_insert (h : recordTransition (index.lookup d) state = .ok true) :
    index.Below (index.insert d state) := by
  intro d' current hcur
  by_cases hd : d' = d
  · subst hd
    rw [hcur] at h
    obtain ⟨rfl, rfl⟩ := eq_of_recordTransition_some h
    exact ⟨.completed, lookup_insert _, .inr ⟨rfl, rfl⟩⟩
  · exact ⟨current, by rw [lookup_insert_of_ne _ hd, hcur], .inl rfl⟩

/-- Each entry is in it, or completed. -/
def Holds (index : Index) (entries : List (LedgerDigest × RecordState)) : Prop :=
  ∀ d state, (d, state) ∈ entries →
    ∃ state', index.lookup d = some state' ∧ state'.Supersedes state

theorem holds_nil (index : Index) : index.Holds [] := by
  intro d state h
  simp at h

theorem Holds.mono {entries : List (LedgerDigest × RecordState)} (h : index.Holds entries)
    (hb : index.Below index') : index'.Holds entries := by
  intro d state hmem
  obtain ⟨state₁, hl₁, hs₁⟩ := h d state hmem
  obtain ⟨state₂, hl₂, hs₂⟩ := hb d state₁ hl₁
  exact ⟨state₂, hl₂, hs₂.trans hs₁⟩

/-- The index holds the record that was just entered. -/
theorem Holds.cons_insert {entries : List (LedgerDigest × RecordState)}
    (h : Holds (index.insert d state) entries) :
    Holds (index.insert d state) ((d, state) :: entries) := by
  intro d' state' hmem
  rcases List.mem_cons.1 hmem with heq | hmem
  · obtain ⟨rfl, rfl⟩ := Prod.mk.inj heq
    exact ⟨state', lookup_insert _, .inl rfl⟩
  · exact h d' state' hmem

def len (index : Index) : ℕ := index.keys.card

def completed (index : Index) : Finset LedgerDigest :=
  index.keys.filter fun d => index.lookup d = some .completed

/-- The records its journal needs. -/
def weight (index : Index) : ℕ := index.len + index.completed.card

@[simp] theorem weight_empty : weight ∅ = 0 := rfl

theorem keys_insert (index : Index) (d : LedgerDigest) (state : RecordState) :
    (index.insert d state).keys = insert d index.keys := by
  ext d'
  simp [mem_keys, mem_insert]

theorem len_insert_of_notMem (h : d ∉ index)
    (state : RecordState) : len (index.insert d state) = index.len + 1 := by
  rw [len, keys_insert, Finset.card_insert_of_notMem (by rwa [mem_keys])]
  rfl

theorem len_insert_of_mem (h : d ∈ index)
    (state : RecordState) : len (index.insert d state) = index.len := by
  rw [len, keys_insert, Finset.insert_eq_self.2 (mem_keys.2 h)]
  rfl

theorem mem_completed : d ∈ index.completed ↔ index.lookup d = some .completed := by
  simp only [completed, Finset.mem_filter, mem_keys, and_iff_right_iff_imp]
  exact mem_of_lookup_eq_some

theorem completed_insert_completed (index : Index) (d : LedgerDigest) :
    completed (index.insert d .completed) = insert d index.completed := by
  ext d'
  rw [Finset.mem_insert, mem_completed, mem_completed]
  by_cases h : d' = d
  · subst h
    simp
  · simp [h, lookup_insert_of_ne]

theorem completed_insert_of_notMem (h : d ∉ index) (hs : state ≠ .completed) :
    completed (index.insert d state) = index.completed := by
  ext d'
  rw [mem_completed, mem_completed]
  by_cases hd : d' = d
  · subst hd
    simp [hs, lookup_eq_none.2 h]
  · rw [lookup_insert_of_ne _ hd]

theorem completed_card_le_len (index : Index) : index.completed.card ≤ index.len :=
  Finset.card_filter_le _ _

theorem completed_card_lt_len (h : d ∈ index)
    (hd : index.lookup d ≠ some .completed) : index.completed.card < index.len := by
  apply Finset.card_lt_card
  refine ⟨Finset.filter_subset _ _, fun hsub => hd ?_⟩
  exact mem_completed.1 (hsub (mem_keys.2 h))

/-- **Every accepted record is one more record.** -/
theorem weight_insert (h : recoverTransition (index.lookup d) state = true) :
    weight (index.insert d state) = index.weight + 1 := by
  by_cases hd : d ∈ index
  · obtain ⟨current, hcur⟩ := mem_iff.1 hd
    rw [hcur] at h
    obtain ⟨rfl, rfl⟩ := eq_of_recordTransition_some ((recoverTransition_iff _ _).1 h).1
    have hnot : d ∉ index.completed := by rw [mem_completed, hcur]; simp
    rw [weight, weight, len_insert_of_mem hd, completed_insert_completed,
      Finset.card_insert_of_notMem hnot]
    rfl
  · have hnone := lookup_eq_none.2 hd
    have hs : state ≠ .completed := fun hs => ((recoverTransition_iff _ _).1 h).2 ⟨hnone, hs⟩
    rw [weight, weight, len_insert_of_notMem hd, completed_insert_of_notMem hd hs]
    omega

/-- Also a record that only the writer admits adds at least one. -/
theorem weight_lt_weight_insert (h : recordTransition (index.lookup d) state = .ok true) :
    index.weight < weight (index.insert d state) := by
  by_cases hc : index.lookup d = none ∧ state = .completed
  · obtain ⟨hnone, rfl⟩ := hc
    have hd := lookup_eq_none.1 hnone
    have hsub : index.completed ⊆ insert d index.completed := Finset.subset_insert _ _
    have := Finset.card_le_card hsub
    rw [weight, weight, len_insert_of_notMem hd, completed_insert_completed]
    omega
  · rw [weight_insert ((recoverTransition_iff _ _).2 ⟨h, hc⟩)]
    omega

/-- **An admitted record finds the journal below its record limit.** An index needs at most two
records an entry, and that only when every entry is completed, in which case nothing is admitted. -/
theorem weight_lt_maxRecords (h : recordTransition (index.lookup d) state = .ok true)
    (hlen : index.len ≤ maxUniqueEntries) (hroom : d ∉ index → index.len < maxUniqueEntries) :
    index.weight < maxRecords := by
  have hle := completed_card_le_len index
  rw [weight, maxRecords]
  by_cases hd : d ∈ index
  · obtain ⟨current, hcur⟩ := mem_iff.1 hd
    rw [hcur] at h
    obtain ⟨rfl, rfl⟩ := eq_of_recordTransition_some h
    have := completed_card_lt_len hd (by rw [hcur]; simp)
    omega
  · have := hroom hd
    omega

end Index

end PeatNode.Ledger
