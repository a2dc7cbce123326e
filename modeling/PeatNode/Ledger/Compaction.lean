/-
# Compaction

`compact_inner` of `src/nats_bridge/ledger.rs` writes one record for every entry of the index, in
the order of the digests, and puts the new file in the place of the old one.  Recovery does not
take `Completed` for a digest it has not seen reserved, so the file of an index with a completed
entry is no journal (`recover_compacted_of_completed`), that of any other is one
(`recoversTo_compacted`).  After a crash the directory names one or the other file
(`compact_recovers_iff`).

`record_inner` never gets to call `compact` (`Fits.records_lt`).
-/

import PeatNode.Ledger.Worker

namespace PeatNode.Ledger

open DurableFile List Finmap

/-- The entries of these digests. -/
def entriesOf (index : Index) (keys : List LedgerDigest) : List (LedgerDigest × RecordState) :=
  keys.filterMap fun d => (index.lookup d).map fun state => (d, state)

theorem entriesOf_cons (h : index.lookup d = some state) (keys : List LedgerDigest) :
    entriesOf index (d :: keys) = (d, state) :: entriesOf index keys := by
  rw [entriesOf, filterMap_cons, h]
  rfl

section Compacted

variable {kind : JournalKind} {target : Index}

variable {index : Index}

theorem lookup_insert_of_sub
    (hsub : ∀ d state, index.lookup d = some state → target.lookup d = some state)
    (hs : target.lookup d = some state) :
    ∀ d' state', (index.insert d state).lookup d' = some state' →
      target.lookup d' = some state' := by
  intro d' state' h'
  by_cases hne : d' = d
  · subst hne
    rw [lookup_insert] at h'
    rw [hs, h']
  · rw [lookup_insert_of_ne _ hne] at h'
    exact hsub d' state' h'

theorem len_le_of_sub
    (hsub : ∀ d state, index.lookup d = some state → target.lookup d = some state) :
    index.len ≤ target.len := by
  refine Finset.card_le_card fun d hd => ?_
  obtain ⟨state, hs⟩ := mem_iff.1 (mem_keys.1 hd)
  exact mem_keys.2 (mem_of_lookup_eq_some (hsub d state hs))

theorem recoversTo_encodeEntries (hlen : target.len ≤ maxUniqueEntries)
    (hperm : ∀ d state, target.lookup d = some state → kind.permits state = true)
    (hopen : ∀ d, target.lookup d ≠ some .completed) {keys done : List LedgerDigest}
    (hrec : RecoversTo kind base done.length index)
    (hsub : ∀ d state, index.lookup d = some state → target.lookup d = some state)
    (hdone : ∀ d, d ∈ index ↔ d ∈ done) (hnodup : (done ++ keys).Nodup)
    (hkeys : ∀ d, d ∈ target ↔ d ∈ done ++ keys) :
    RecoversTo kind (base ++ encodeEntries done.length (entriesOf target keys))
      (done ++ keys).length target := by
  induction keys generalizing done base index with
  | nil =>
    have heq : index = target := by
      refine ext_lookup fun d => ?_
      by_cases hd : d ∈ index
      · obtain ⟨state, hs⟩ := mem_iff.1 hd
        rw [hs, hsub d state hs]
      · have hd' : d ∉ target := by rwa [hkeys, append_nil, ← hdone]
        rw [lookup_eq_none.2 hd, lookup_eq_none.2 hd']
    subst heq
    simpa [entriesOf, encodeEntries] using hrec
  | cons d keys ih =>
    have hd : d ∈ target := (hkeys d).2 (by simp)
    obtain ⟨state, hs⟩ := mem_iff.1 hd
    have hnew : d ∉ index := by
      rw [hdone]
      intro hmem
      exact (nodup_append.1 hnodup).2.2 d hmem d mem_cons_self rfl
    have hsub' := lookup_insert_of_sub hsub hs
    have hroom : Index.len (index.insert d state) ≤ maxUniqueEntries :=
      (len_le_of_sub hsub').trans hlen
    have hacc : Accepts kind index state d := by
      refine ⟨hperm d state hs, ?_, hroom⟩
      rw [recoverTransition_iff, lookup_eq_none.2 hnew]
      exact ⟨rfl, fun hc => hopen d (by rw [hs, hc.2])⟩
    have hlength : done.length + 1 = (done ++ [d]).length := by simp
    have happ := hrec.append hacc
    rw [hlength] at happ
    have hih := ih happ hsub' (fun d' => by rw [mem_insert, hdone]; simp [or_comm])
      (by simpa using hnodup) (fun d' => by rw [hkeys]; simp)
    rw [entriesOf_cons hs, encodeEntries, ← append_assoc, hlength]
    simpa using hih

theorem recover_encodeEntries_of_completed {keys : List LedgerDigest}
    (hrec : RecoversTo kind base n index) (hkeys : ∀ d ∈ keys, d ∈ target) (hnodup : keys.Nodup)
    (hnew : ∀ d ∈ keys, d ∉ index) (hex : ∃ d ∈ keys, target.lookup d = some .completed) :
    ∃ e, recover kind (base ++ encodeEntries n (entriesOf target keys)) = .error e := by
  induction keys generalizing n base index with
  | nil =>
    obtain ⟨d, hd, -⟩ := hex
    simp at hd
  | cons d keys ih =>
    obtain ⟨state, hs⟩ := mem_iff.1 (hkeys d mem_cons_self)
    rw [entriesOf_cons hs, encodeEntries, ← append_assoc]
    by_cases hacc : Accepts kind index state d
    · -- the record is accepted, so the completed one comes later
      obtain ⟨hd, hnodup⟩ := nodup_cons.1 hnodup
      refine ih (hrec.append hacc) (fun d' h' => hkeys d' (mem_cons_of_mem _ h')) hnodup ?_ ?_
      · intro d' h' hmem
        rcases mem_insert.1 hmem with rfl | hmem
        · exact hd h'
        · exact hnew d' (mem_cons_of_mem _ h') hmem
      · obtain ⟨d', h', hc⟩ := hex
        rcases mem_cons.1 h' with rfl | h'
        · have htrans := hacc.2.1
          rw [hs, Option.some.injEq] at hc
          rw [lookup_eq_none.2 (hnew d' mem_cons_self), hc] at htrans
          cases htrans
        · exact ⟨d', h', hc⟩
    · exact recover_append_of_not_accepts hrec hacc _

/-- **The file of an index without completed entries is a journal of it.** -/
theorem recoversTo_compacted {content : List UInt8} (h : RecoversTo kind content n target)
    (hopen : target.completed = ∅) : RecoversTo kind (compacted kind target) target.len target := by
  have hno : ∀ d, target.lookup d ≠ some .completed := by
    intro d hd
    have hmem := Index.mem_completed.2 hd
    rw [hopen] at hmem
    simp at hmem
  have hall : RecoversTo kind (header kind ++ encodeEntries ([] : List LedgerDigest).length
      (entriesOf target (target.keys.sort (· ≤ ·)))) ([] ++ target.keys.sort (· ≤ ·)).length target := by
    refine recoversTo_encodeEntries h.len_le (fun d state => h.permits_of_lookup) hno
      (recoversTo_header kind) ?_ ?_ (Finset.sort_nodup _ _) ?_
    · intro d state hd
      rw [lookup_empty] at hd
      simp at hd
    · intro d
      simp [notMem_empty]
    · intro d
      simp [Finmap.mem_keys]
  rw [nil_append, Finset.length_sort] at hall
  exact hall

/-- **The file of an index with a completed entry is none.** -/
theorem recover_compacted_of_completed (kind : JournalKind) (h : target.completed ≠ ∅) :
    ∃ e, recover kind (compacted kind target) = .error e := by
  obtain ⟨d, hd⟩ := Finset.nonempty_iff_ne_empty.2 h
  have hlook := Index.mem_completed.1 hd
  refine recover_encodeEntries_of_completed (recoversTo_header kind) ?_ (Finset.sort_nodup _ _) ?_ ?_
  · intro d' h'
    exact mem_keys.1 ((Finset.mem_sort _).1 h')
  · intro d' _
    exact notMem_empty
  · exact ⟨d, (Finset.mem_sort _).2 (mem_keys.2 (mem_of_lookup_eq_some hlook)), hlook⟩

end Compacted

/-! ### Crashes -/

/-- What a crash in or after a compaction leaves. A rename that the directory sync has not covered
may be lost. -/
def compactCrash (j : Journal) (stop : Option CompactStop) (lost : Bool) : LedgerDir :=
  if stop = some .afterRename ∧ lost = true then (compactInner j (some .afterTempSync)).1.dir
  else (compactInner j stop).1.dir

/-- The compacted file took the old one's place. -/
def Replaced (stop : Option CompactStop) (lost : Bool) : Prop :=
  stop = none ∨ stop = some .afterDirectorySync ∨ stop = some .afterRename ∧ lost = false

theorem active_compactCrash_of_replaced (htemp : j.dir.temp = none) (h : Replaced stop lost) :
    (compactCrash j stop lost).active = some (.ofDisk (compacted j.kind j.index)) := by
  rcases h with rfl | rfl | ⟨rfl, rfl⟩ <;> simp [compactCrash, compactInner, htemp]

theorem active_compactCrash_of_not_replaced (h : ¬ Replaced stop lost) :
    (compactCrash j stop lost).active = j.dir.active := by
  unfold Replaced at h
  rcases stop with _ | _ | n | _ | _ | _
  · exact absurd (.inl rfl) h
  · simp [compactCrash, compactInner]
  · by_cases ht : j.dir.temp.isSome <;> simp [compactCrash, compactInner, ht]
  · by_cases ht : j.dir.temp.isSome <;> simp [compactCrash, compactInner, ht]
  · cases lost with
    | false => exact absurd (.inr (.inr ⟨rfl, rfl⟩)) h
    | true => by_cases ht : j.dir.temp.isSome <;> simp [compactCrash, compactInner, ht]
  · exact absurd (.inr (.inl rfl)) h

theorem temp_facadeStep (hj : Faithful w.journal) (htemp : w.journal.dir.temp = none)
    (h : facadeStep w op = some w') : w'.journal.dir.temp = none := by
  rcases facadeStep_cases h with ⟨-, hw⟩ | ⟨-, hw⟩ <;> rw [hw]
  · exact htemp
  · by_cases ha : Admits w.journal op.digest op.state
    · rw [recordInner_clean hj.fits hj.sequence_lt ha]
      show (w.journal.setFile _).dir.temp = none
      unfold Journal.setFile
      rw [hj.linked.1]
      exact htemp
    · rw [(recordInner_of_not_admits ha .clean).1]
      exact htemp

/-- **When compaction preserves the journal.** For a journal after any legal history, and a crash
at any point of `compact_inner`: the next `Journal::open` recovers the index exactly if no entry
is completed, or the crash has left the old file in place. -/
theorem compact_recovers_iff {kind : JournalKind} {dir : LedgerDir} {j : Journal}
    (hopen : (openJournal kind .none dir).2 = .ok j) {ops : List (FacadeOp kind)} {w : Worker}
    (hrun : Lts.exec facadeStep (.spawn j) ops = some w)
    (hlegal : Lts.Along facadeStep CompletesKnown (.spawn j) ops) (stop : Option CompactStop)
    (lost : Bool) :
    (∃ j', (openJournal kind .none (compactCrash w.journal stop lost)).2 = .ok j' ∧
      j'.index = w.journal.index) ↔ w.journal.index.completed = ∅ ∨ ¬ Replaced stop lost := by
  obtain ⟨hj, hkind, htemp⟩ : Faithful w.journal ∧ w.journal.kind = kind ∧
      w.journal.dir.temp = none := by
    refine Lts.exec_invariant (fun w : Worker => Faithful w.journal ∧ w.journal.kind = kind ∧
      w.journal.dir.temp = none) (fun s op s' hs hok h => ?_) (faithful_of_openJournal hopen) hlegal hrun
    obtain ⟨hj, hkind, htemp⟩ := hs
    exact ⟨hj.facadeStep hok h, (kind_facadeStep h).trans hkind, temp_facadeStep hj htemp h⟩
  subst hkind
  by_cases hrep : Replaced stop lost
  · have hactive := active_compactCrash_of_replaced htemp hrep
    by_cases hc : w.journal.index.completed = ∅
    · refine ⟨fun _ => .inl hc, fun _ => ?_⟩
      obtain ⟨f', -, hopen'⟩ := openJournal_of_recoversTo hactive (append_nil _).symm
        (recoversTo_compacted hj.recovers hc) (by decide) (fun hne => absurd rfl hne)
      exact ⟨_, congrArg Prod.snd hopen', rfl⟩
    · refine ⟨?_, fun h => h.elim (fun h0 => absurd h0 hc) (fun hn => absurd hrep hn)⟩
      rintro ⟨j', hj', -⟩
      obtain ⟨e, he⟩ := recover_compacted_of_completed w.journal.kind hc
      obtain ⟨e', he'⟩ := openJournal_of_error hactive (by simp [compacted, header]) he .none
      rw [he'] at hj'
      simp at hj'
  · refine ⟨fun _ => .inr hrep, fun _ => ?_⟩
    have hactive := (active_compactCrash_of_not_replaced hrep).trans hj.linked.2
    obtain ⟨f', -, hopen'⟩ := openJournal_of_recoversTo hactive (append_nil _).symm hj.recovers
      (by decide) (fun hne => absurd rfl hne)
    exact ⟨_, congrArg Prod.snd hopen', rfl⟩

/-- A reserved digest survives a compaction. -/
theorem reserved_compact_recovers : ∃ j w, (openJournal .delivery .none ⟨none, none⟩).2 = .ok j ∧
      Lts.exec facadeStep (.spawn j) [.checkAndReserve (documentDigest "frames" "1")] = some w ∧
      ∃ j', (openJournal .delivery .none (compactCrash w.journal none false)).2 = .ok j' ∧
        j'.index = w.journal.index := by
  have hrun : Lts.exec facadeStep (.spawn (freshJournal .delivery))
      [.checkAndReserve (documentDigest "frames" "1")] = some _ := rfl
  have hopen := openJournal_new .delivery
  exact ⟨_, _, hopen, hrun, (compact_recovers_iff hopen hrun (by decide +kernel) none false).2
    (.inl (by decide +kernel))⟩

def deliveryCalls : List (FacadeOp .delivery) :=
  [.checkAndReserve (documentDigest "frames" "compacted"),
    .markCompleted (documentDigest "frames" "compacted")]

/-- **A completed digest does not survive a compaction.** The compacted file begins with
`Completed`, and does not open again. -/
theorem completed_compact_not_recovers :
    ∃ j w, (openJournal .delivery .none ⟨none, none⟩).2 = .ok j ∧
      Lts.exec facadeStep (.spawn j) deliveryCalls = some w ∧
      (compactInner w.journal none).2 = .ok () ∧
      ¬ ∃ j', (openJournal .delivery .none (compactCrash w.journal none false)).2 = .ok j' := by
  refine ⟨freshJournal .delivery, deliveryCalls.foldl FacadeOp.run (.spawn (freshJournal .delivery)),
    openJournal_new _, rfl, by decide +kernel, ?_⟩
  rintro ⟨j', hj'⟩
  have hfail : (openJournal .delivery .none (compactCrash (deliveryCalls.foldl FacadeOp.run
      (.spawn (freshJournal .delivery))).journal none false)).2.isOk = false := by decide +kernel
  rw [hj'] at hfail
  cases hfail

end PeatNode.Ledger
