/-
# The sizes of a journal

Along every run of successful `record` calls the sequence number, the count of records, the length
of the file and the index stay in balance (`journal_sizes`): one record for an excluded or reserved
digest, two for a completed one, 80 bytes for a record.  So `record_inner` never comes to compact.

`Capacity` is the answer for a new digest once the index holds 262,144 entries, unless its state
does not belong into the journal (`full_journal_corrupt`).
-/

import PeatNode.Ledger.Failures

namespace PeatNode.Ledger

open DurableFile Finmap

/-- The number of digests in one state. -/
def Index.count (index : Index) (state : RecordState) : ℕ :=
  (index.keys.filter fun d => index.lookup d = some state).card

theorem Index.len_eq_count (index : Index) :
    index.len = index.count .localExcluded + index.count .reserved + index.count .completed := by
  have hsplit : index.keys = (index.keys.filter fun d => index.lookup d = some .localExcluded) ∪
        (index.keys.filter fun d => index.lookup d = some .reserved) ∪
        (index.keys.filter fun d => index.lookup d = some .completed) := by
    ext d
    simp only [Finset.mem_union, Finset.mem_filter, mem_keys, ← and_or_left]
    refine ⟨fun hd => ⟨hd, ?_⟩, fun h => h.1⟩
    obtain ⟨state, hs⟩ := mem_iff.1 hd
    rw [hs]
    cases state <;> simp
  have hdisj : ∀ a b : RecordState, a ≠ b →
      Disjoint (index.keys.filter fun d => index.lookup d = some a)
        (index.keys.filter fun d => index.lookup d = some b) := by
    intro a b hab
    rw [Finset.disjoint_filter]
    intro d _ ha hb
    rw [ha, Option.some.injEq] at hb
    exact hab hb
  rw [Index.len]
  conv_lhs => rw [hsplit]
  rw [Finset.card_union_of_disjoint, Finset.card_union_of_disjoint (hdisj _ _ (by decide))]
  · rfl
  · exact Finset.disjoint_union_left.2 ⟨hdisj _ _ (by decide), hdisj _ _ (by decide)⟩

theorem Index.weight_eq_count (index : Index) : index.weight =
      index.count .localExcluded + index.count .reserved + 2 * index.count .completed := by
  have hcompleted : index.completed.card = index.count .completed := rfl
  rw [Index.weight, Index.len_eq_count, hcompleted]
  omega

/-! ### Runs of successful calls -/

/-- One successful call of `record`. -/
def recordStep (j : Journal) (c : RecordCommand) : Option Journal :=
  match recordInner j c.digest c.state c.io with
  | (j', .ok _) => some j'
  | (_, .error _) => none

/-- Only what is reserved is completed. -/
def CompletesReserved (j : Journal) (c : RecordCommand) : Prop :=
  c.state = .completed → c.digest ∈ j.index

/-- The compaction branch of `record_inner`. -/
def Compacts (j : Journal) (digest : LedgerDigest) (state : RecordState) : Prop :=
  Admits j digest state ∧ maxRecords ≤ j.records

variable {j j' : Journal} {c : RecordCommand}

/-- A successful call leaves the journal as it is, or appends a whole record. -/
theorem recordStep_cases (hj : Faithful j) (h : recordStep j c = some j') :
    j' = j ∨ Admits j c.digest c.state ∧ j' = (recordInner j c.digest c.state .clean).1 := by
  unfold recordStep at h
  split at h
  · rename_i j₁ inserted heq
    cases h
    by_cases ha : Admits j c.digest c.state
    · have happ := recordInner_of_admits ha (hj.fits.records_lt ha)
      have hspec := (appendRecord_spec hj.sequence_lt c.digest c.state hj.linked c.io.append).2.2.2
      rw [← happ c.io, heq] at hspec
      rcases hspec with ⟨hnone, -⟩ | ⟨-, -, -, -, herr⟩
      · refine .inr ⟨ha, ?_⟩
        rw [happ .clean, RecordIo.clean, ← hnone, ← happ c.io, heq]
      · simp at herr
    · have hsame := (recordInner_of_not_admits ha c.io).1
      rw [heq] at hsame
      exact .inl hsame
  · simp at h

theorem Faithful.recordStep (hj : Faithful j) (hc : CompletesReserved j c)
    (h : recordStep j c = some j') : Faithful j' := by
  rcases recordStep_cases hj h with rfl | ⟨ha, rfl⟩
  · exact hj
  · exact hj.recordInner ha fun hnew => hnew.1 (hc hnew.2)

theorem kind_recordStep (h : recordStep j c = some j') : j'.kind = j.kind := by
  have hkind := kind_recordInner j c.digest c.state c.io
  unfold recordStep at h
  split at h
  · rename_i heq
    cases h
    rwa [heq] at hkind
  · simp at h

/-- **Compaction is never reached.** -/
theorem Faithful.not_compacts (hj : Faithful j) (digest : LedgerDigest) (state : RecordState) :
    ¬ Compacts j digest state :=
  fun h => Nat.not_lt.2 h.2 (hj.fits.records_lt h.1)

/-- **When the answer is `Capacity`.** -/
theorem Faithful.recordInner_eq_capacity_iff (hj : Faithful j) (digest : LedgerDigest)
    (state : RecordState) (io : RecordIo) :
    (Ledger.recordInner j digest state io).2 = .error .capacity ↔
      j.kind.permits state = true ∧ digest ∉ j.index ∧ j.index.len = maxUniqueEntries := by
  by_cases ha : Admits j digest state
  · have hans : (Ledger.recordInner j digest state io).2 ≠ .error .capacity := by
      rw [recordInner_of_admits ha (hj.fits.records_lt ha)]
      obtain ⟨-, -, -, ⟨-, -, -, -, hok⟩ | ⟨-, -, -, -, herr⟩⟩ :=
        appendRecord_spec hj.sequence_lt digest state hj.linked io.append
      · rw [hok]
        simp
      · rw [herr]
        simp
    exact iff_of_false hans fun h => (ha.2.2 h.2.1).ne h.2.2
  · unfold Ledger.recordInner
    by_cases hp : j.kind.permits state = false
    · rw [if_pos hp, hp]
      simp
    · rw [if_neg hp]
      rw [Bool.not_eq_false] at hp
      cases hd : j.index.lookup digest with
      | some current =>
        have hmem := mem_of_lookup_eq_some hd
        cases ht : recordTransition (some current) state with
        | error e =>
          have he : e = .corrupt := by
            cases current <;> cases state <;> simp_all [recordTransition]
          simp [he, hmem]
        | ok admitted =>
          cases admitted with
          | false => simp [hmem]
          | true => exact absurd ⟨hp, by rw [hd, ht], fun hnew => absurd hmem hnew⟩ ha
      | none =>
        have hnew := lookup_eq_none.1 hd
        have hfull : maxUniqueEntries ≤ j.index.len :=
          Nat.not_lt.1 fun hlt => ha ⟨hp, by rw [hd]; rfl, fun _ => hlt⟩
        simp only [recordTransition, if_pos (And.intro hfull hnew)]
        exact iff_of_true trivial ⟨hp, hnew, le_antisymm hj.fits.len_le hfull⟩

theorem faithful_of_exec (hopen : (openJournal kind fault dir).2 = .ok j₀)
    (hrun : Lts.exec recordStep j₀ commands = some j)
    (hres : Lts.Along recordStep CompletesReserved j₀ commands) : Faithful j ∧ j.kind = kind := by
  obtain ⟨hstart, hkind, -⟩ := faithful_of_openJournal hopen
  refine Lts.exec_invariant (fun j => Faithful j ∧ j.kind = kind) ?_ ⟨hstart, hkind⟩ hres hrun
  rintro j c j' ⟨hj, hk⟩ hc hstep
  exact ⟨hj.recordStep hc hstep, (kind_recordStep hstep).trans hk⟩

/-- **The sizes of a journal.** In every state that successful `record` calls reach from
a successful `Journal::open`, as long as only reserved digests are completed: sequence,
number of records and index are what the length of the file says; both limits are kept
and the file opens again; nothing comes to compact; and `Capacity` is answered exactly
for a new digest of a full index whose state belongs into the journal. -/
theorem journal_sizes {kind : JournalKind} {fault : OpenFault} {dir : LedgerDir} {j₀ : Journal}
    (hopen : (openJournal kind fault dir).2 = .ok j₀) {commands : List RecordCommand}
    (hrun : Lts.exec recordStep j₀ commands = some j)
    (hres : Lts.Along recordStep CompletesReserved j₀ commands) :
    (j.sequence = j.records ∧ j.records = (j.file.content.length - 32) / 80) ∧
    j.records =
      j.index.count .localExcluded + j.index.count .reserved + 2 * j.index.count .completed ∧
    j.records ≤ 524288 ∧
    (j.file.content.length ≤ maxFileBytes ∧ Reopens j) ∧
    (∀ digest state, ¬ Compacts j digest state) ∧
    (∀ digest state io, (recordInner j digest state io).2 = .error .capacity ↔
      kind.permits state = true ∧ digest ∉ j.index ∧ j.index.len = 262144) := by
  obtain ⟨hj, rfl⟩ := faithful_of_exec hopen hrun hres
  have hlen : j.file.content.length = 32 + j.records * 80 := hj.recovers.length_eq
  refine ⟨⟨hj.sequence_eq, ?_⟩, ?_, hj.recovers.le_maxRecords,
    ⟨hj.recovers.length_le, hj.reopens⟩, hj.not_compacts, hj.recordInner_eq_capacity_iff⟩
  · omega
  · rw [← Index.weight_eq_count, hj.recovers.weight_eq]

/-! ### A full journal -/

/-- A sequence of different digests. -/
def numberedDigest (n : ℕ) : LedgerDigest := ⟨BigEndian.toBytes 32 n, BigEndian.length_toBytes 32 n⟩

theorem numberedDigest_inj (hm : m < 256 ^ 32) (hn : n < 256 ^ 32)
    (h : numberedDigest m = numberedDigest n) : m = n := by
  unfold numberedDigest at h
  have hbytes := LedgerDigest.mk.inj h
  rw [← BigEndian.ofBytes_toBytes_of_lt (w := 32) hm, hbytes,
    BigEndian.ofBytes_toBytes_of_lt (w := 32) hn]

/-- The exclusion of the first `n` digests. -/
def fillCommands (n : ℕ) : List RecordCommand :=
  (List.range n).map fun i => ⟨numberedDigest i, .localExcluded, .clean⟩

theorem along_of_state_ne (h : ∀ c ∈ commands, c.state ≠ .completed) (j : Journal) :
    Lts.Along recordStep CompletesReserved j commands := by
  induction commands generalizing j with
  | nil => trivial
  | cons c commands ih =>
    refine ⟨fun hc => absurd hc (h c List.mem_cons_self), fun j' _ => ih ?_ j'⟩
    exact fun c' h' => h c' (List.mem_cons_of_mem _ h')

theorem along_fillCommands (j : Journal) (n : ℕ) :
    Lts.Along recordStep CompletesReserved j (fillCommands n) := by
  refine along_of_state_ne (fun c hc => ?_) j
  obtain ⟨i, -, rfl⟩ := List.mem_map.1 hc
  simp

/-- An exclusion journal takes any number of digests up to its limit. -/
theorem exists_filled (hn : n ≤ maxUniqueEntries) :
    ∃ j, Lts.exec recordStep (freshJournal .exclusion) (fillCommands n) = some j ∧ Faithful j ∧
      j.kind = .exclusion ∧ (∀ i < 256 ^ 32, numberedDigest i ∈ j.index ↔ i < n) ∧
      j.index.len = n := by
  have hmax : maxUniqueEntries = 262144 := rfl
  induction n with
  | zero => exact ⟨freshJournal .exclusion, rfl, faithful_freshJournal _, rfl,
      fun i _ => iff_of_false notMem_empty (Nat.not_lt_zero i), rfl⟩
  | succ n ih =>
    obtain ⟨j, hrun, hj, hkind, hmem, hlen⟩ := ih (by omega)
    have hnew : numberedDigest n ∉ j.index := fun h => lt_irrefl n ((hmem n (by omega)).1 h)
    have ha : Admits j (numberedDigest n) .localExcluded :=
      ⟨by rw [hkind]; rfl, by rw [lookup_eq_none.2 hnew]; rfl, fun _ => by omega⟩
    have hrec := recordInner_clean hj.fits hj.sequence_lt ha
    have hstep : recordStep j ⟨numberedDigest n, .localExcluded, .clean⟩ =
        some (recordInner j (numberedDigest n) .localExcluded .clean).1 := by
      unfold recordStep
      rw [hrec]
    have hindex : (recordInner j (numberedDigest n) .localExcluded .clean).1.index =
        j.index.insert (numberedDigest n) .localExcluded := by rw [hrec]
    refine ⟨_, ?_, hj.recordInner ha (by simp), by rw [kind_recordInner, hkind], ?_, ?_⟩
    · rw [fillCommands, List.range_succ, List.map_append]
      exact Lts.exec_concat hrun hstep
    · intro i hi
      rw [hindex, mem_insert, hmem i hi, Nat.lt_succ_iff_lt_or_eq, or_comm]
      exact or_congr_right ⟨numberedDigest_inj hi (by omega), congrArg numberedDigest⟩
    · rw [hindex, Index.len_insert_of_notMem hnew, hlen]

/-- A run that fills a journal to any number of digests, and one that is not in it. -/
theorem exists_run (hn : n ≤ maxUniqueEntries) :
    ∃ commands j, Lts.exec recordStep (freshJournal .exclusion) commands = some j ∧
      Lts.Along recordStep CompletesReserved (freshJournal .exclusion) commands ∧
      j.kind = .exclusion ∧ numberedDigest n ∉ j.index ∧ j.index.len = n := by
  obtain ⟨j, hrun, -, hkind, hmem, hlen⟩ := exists_filled hn
  have hmax : maxUniqueEntries = 262144 := rfl
  exact ⟨fillCommands n, j, hrun, along_fillCommands _ _, hkind,
    fun h => lt_irrefl n ((hmem n (by omega)).1 h), hlen⟩

/-- The balance at the limit: a full journal of exclusions, and the answer
`Capacity` for one digest more. -/
theorem journal_sizes_full :
    ∃ j₀ commands j, (openJournal .exclusion .none ⟨none, none⟩).2 = .ok j₀ ∧
      Lts.exec recordStep j₀ commands = some j ∧
      Lts.Along recordStep CompletesReserved j₀ commands ∧ j.index.len = 262144 ∧
      (recordInner j (numberedDigest 262144) .localExcluded .clean).2 = .error .capacity := by
  have hopen := openJournal_new .exclusion
  obtain ⟨commands, j, hrun, hres, -, hnew, hlen⟩ := exists_run (le_refl maxUniqueEntries)
  obtain ⟨-, -, -, -, -, hcapacity⟩ := journal_sizes hopen hrun hres
  exact ⟨_, commands, j, hopen, hrun, hres, hlen, (hcapacity _ _ _).2 ⟨rfl, hnew, hlen⟩⟩

/-- A full journal answers a new digest with `Corrupt` when the state does not
belong into it. -/
theorem full_journal_corrupt :
    ∃ j₀ commands j, (openJournal .exclusion .none ⟨none, none⟩).2 = .ok j₀ ∧
      Lts.exec recordStep j₀ commands = some j ∧
      Lts.Along recordStep CompletesReserved j₀ commands ∧
      numberedDigest 262144 ∉ j.index ∧ j.index.len = 262144 ∧
      (recordInner j (numberedDigest 262144) .reserved .clean).2 = .error .corrupt := by
  obtain ⟨commands, j, hrun, hres, hkind, hnew, hlen⟩ := exists_run (le_refl maxUniqueEntries)
  refine ⟨_, commands, j, openJournal_new _, hrun, hres, hnew, hlen, ?_⟩
  unfold recordInner
  rw [if_pos (by rw [hkind]; rfl)]

end PeatNode.Ledger
