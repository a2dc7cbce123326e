/-
# Exclusions survive, and scans ask for them

A recorded exclusion stays in the index and in the file, over every restart (`Recorded`), and a scan
offers a key only after the journal has said that it is not excluded.  `Sound` is the invariant,
with one lemma for each kind of step.
-/

import PeatNode.Node.ExclusionJournal

namespace PeatNode.Node

open Bridge Ledger Reconcile Option Multiset List

/-! ### The invariant -/

/-- What a call knows of the record. -/
def WriteCall.Sound (recorded : LedgerDigest → Prop) (c : WriteCall) : Prop :=
  match c.pc with
  | .mapped | .queued => validCollection c.collection = true
  | .allowed true => validCollection c.collection = true ∧ recorded c.digest
  | _ => True

theorem WriteCall.Sound.mono {c : WriteCall} (h : c.Sound recorded)
    (hle : ∀ d, recorded d → recorded' d) : c.Sound recorded' := by
  unfold WriteCall.Sound at h ⊢
  split
  · simp_all
  · simp_all
  · simp_all
  · trivial

/-- What a running scan knows. -/
structure ScanSound (collections : Option (List String)) (writes : List LocalWrite) (scan : Scan) :
    Prop where
  within : ∃ cs ∈ collections, scan.pc.Within cs
  before : scan.before ⊆ writes
  passed : ∀ c, scan.pc = .candidate c → scan.stage = .passed →
    ∀ w ∈ scan.before, documentKey c.collection c.docId ≠ w.key

namespace SidecarNode

variable {s s' : SidecarNode}

def collections (s : SidecarNode) : Option (List String) := s.installed.map Installed.collections

/-- In the file, and in an open index. -/
def Recorded (s : SidecarNode) (d : LedgerDigest) : Prop :=
  KeptIn s.diskDir d ∧ ∀ w, s.worker = some w → d ∈ w.journal.index

/-- **No scan offers a key stored by a local write before it.** -/
def NeverOffered (s : SidecarNode) : Prop := ∀ o ∈ s.offers, ∀ w ∈ o.before, o.key ≠ w.key
deriving Decidable

structure Sound (s : SidecarNode) : Prop where
  worker : ∀ w, s.worker = some w → JournalSound w
  valid : ∀ cs ∈ s.collections, ∀ m ∈ cs, validCollection m = true
  apart : ∀ cs ∈ s.collections, ∀ w ∈ s.writes, w.excluded = false →
    ∀ m ∈ cs, docIdOf m w.key = none
  calls : ∀ c ∈ s.calls, c.Sound s.Recorded
  writes : ∀ w ∈ s.writes, w.excluded = true →
    validCollection w.collection = true ∧ s.Recorded w.digest
  scan : ∀ sc ∈ s.scan, ScanSound s.collections s.writes sc
  offers : s.NeverOffered

/-- A step that leaves the ledger alone has to care for the calls, the writes
and the scan only. -/
theorem Recorded.congr (h : s.Recorded d) (hdir : s'.dir = s.dir)
    (hinst : s'.installed = s.installed) : s'.Recorded d := by
  unfold Recorded diskDir worker at h ⊢
  rw [hdir, hinst]
  exact h

variable {cs : List String}

/-- **Why the scan is right**: a key that the journal does not exclude is no
local write that reached the store before. -/
theorem Sound.key_ne (h : s.Sound) (hcs : cs ∈ s.collections) (hc : c.collection ∈ cs)
    (hlook : s.lookup c = some false) (hw : w ∈ s.writes) :
    documentKey c.collection c.docId ≠ w.key := by
  intro hkey
  by_cases hex : w.excluded = true
  · obtain ⟨hvalid, hrec⟩ := h.writes w hw hex
    obtain ⟨hcol, hdoc⟩ := documentKey_inj_of_valid (h.valid cs hcs _ hc) hvalid hkey
    obtain ⟨wk, hwk, hans⟩ := bind_eq_some_iff.1 hlook
    have hcontains : contains wk w.digest = .ok false := by
      rw [hcol, hdoc] at hans
      cases hres : contains wk (documentDigest w.collection w.docId) with
      | error e => rw [hres] at hans; cases hans
      | ok b =>
        rw [hres] at hans
        exact hres.trans (congrArg Except.ok (some.inj hans))
    exact (h.worker wk hwk).notMem_of_contains hcontains (hrec.2 wk hwk)
  · -- no mapped collection reads this key at all
    have hnone := h.apart cs hcs w hw (Bool.eq_false_iff.2 hex) _ hc
    rw [docIdOf_eq_some_iff.2 hkey.symm] at hnone
    simp at hnone

/-! ### Steps that leave the ledger alone -/

theorem Sound.frame (h : s.Sound) (hdir : s'.dir = s.dir) (hinst : s'.installed = s.installed)
    (hwrites : s'.writes = s.writes) (hcalls : ∀ c ∈ s'.calls, c.Sound s.Recorded)
    (hscan : ∀ sc ∈ s'.scan, ScanSound s.collections s.writes sc) (hoffers : s'.NeverOffered) :
    s'.Sound where
  worker := by
    unfold SidecarNode.worker
    rw [hinst]
    exact h.worker
  valid := by
    unfold SidecarNode.collections
    rw [hinst]
    exact h.valid
  apart := by
    unfold SidecarNode.collections
    rw [hinst, hwrites]
    exact h.apart
  calls := fun c hc => (hcalls c hc).mono fun _ hd => hd.congr hdir hinst
  writes := by
    rw [hwrites]
    intro w hw hex
    exact ⟨(h.writes w hw hex).1, (h.writes w hw hex).2.congr hdir hinst⟩
  scan := by
    unfold SidecarNode.collections
    rw [hinst, hwrites]
    exact hscan
  offers := hoffers

theorem Sound.leave (h : s.Sound) (c : WriteCall) : (s.leave c).Sound :=
  h.frame rfl rfl rfl (fun c' hc' => h.calls c' (mem_of_mem_erase hc')) h.scan h.offers

variable {c : WriteCall}

theorem Sound.move (h : s.Sound) (hc : WriteCall.Sound s.Recorded { c with pc := pc }) :
    (s.move c pc).Sound := by
  refine h.frame rfl rfl rfl (fun c' hc' => ?_) h.scan h.offers
  rcases mem_cons.1 hc' with rfl | hc'
  · exact hc
  · exact h.calls c' (mem_of_mem_erase hc')

/-- The store part ends the call; it may add a write to the history. -/
theorem stepStore_cases (hs : s.stepStore c written = some s') :
    ∃ store, s' = { s.leave c with store := store } ∨
      ∃ excluded, c.pc = .allowed excluded ∧ s.installed.any Installed.healthy = true ∧
        s' = { s.leave c with
          store := store, writes := ⟨c.collection, c.docId, excluded⟩ :: s.writes } := by
  unfold stepStore at hs
  split at hs
  · rename_i excluded hpc
    split_ifs at hs <;> cases hs
    all_goals first | exact ⟨_, .inl rfl⟩ | exact ⟨_, .inr ⟨excluded, hpc, ‹_›, rfl⟩⟩
  · simp at hs

theorem Sound.store (h : s.Sound) (hc : c ∈ s.calls)
    (hsep : c.pc = .allowed false → s.installed.any Installed.healthy = true →
      ∀ cs ∈ s.collections, ∀ m ∈ cs, docIdOf m c.key = none)
    (hs : s.stepStore c written = some s') : s'.Sound := by
  have hl := h.leave c
  obtain ⟨store, rfl | ⟨excluded, hpc, hcount, rfl⟩⟩ := stepStore_cases hs
  · exact hl.frame rfl rfl rfl hl.calls hl.scan hl.offers
  · refine ⟨hl.worker, hl.valid, ?_, hl.calls, ?_, ?_, hl.offers⟩
    · intro cs hcs w hw hex
      rcases mem_cons.1 hw with rfl | hw
      · obtain rfl : excluded = false := hex
        exact hsep hpc hcount cs hcs
      · exact h.apart cs hcs w hw hex
    · intro w hw hex
      rcases mem_cons.1 hw with rfl | hw
      · obtain rfl : excluded = true := hex
        have hcall := h.calls c hc
        rw [WriteCall.Sound, hpc] at hcall
        exact hcall
      · exact hl.writes w hw hex
    · intro sc hsc
      have hold := h.scan sc hsc
      exact ⟨hold.within, fun w hw => mem_cons_of_mem _ (hold.before hw), hold.passed⟩

/-! ### Scans -/

theorem Sound.setScan (h : s.Sound) {scan : Scan} (hscan : ScanSound s.collections s.writes scan) :
    Sound { s with scan := some scan } := by
  refine h.frame rfl rfl rfl h.calls (fun sc hsc => ?_) h.offers
  cases hsc
  exact hscan

theorem Sound.resume (h : s.Sound) {scan : Scan} (hscan : scan ∈ s.scan)
    (hs : s.resume scan a = some s') : s'.Sound := by
  obtain ⟨r, hr, rfl⟩ := map_eq_some_iff.1 hs
  have hold := h.scan scan hscan
  obtain ⟨cs, hcs, hw⟩ := hold.within
  exact h.setScan ⟨⟨cs, hcs, hw.answer hr⟩, hold.before, fun c _ hstage => by cases hstage⟩

theorem Sound.stepScan (h : s.Sound) {scan : Scan} (hscan : scan ∈ s.scan)
    (hs : s.stepScan scan event = some s') : s'.Sound := by
  have hold := h.scan scan hscan
  obtain ⟨cs, hcs, hwithin⟩ := hold.within
  cases event with
  | check closed deliveryHealthy status =>
    obtain ⟨pc, hpc, rfl⟩ := map_eq_some_iff.1 hs
    exact h.setScan ⟨⟨cs, hcs, hwithin.check hpc⟩, hold.before, fun c _ hstage => by cases hstage⟩
  | keys result =>
    simp only [SidecarNode.stepScan] at hs
    split_ifs at hs
    exact h.resume hscan hs
  | excluded =>
    simp only [SidecarNode.stepScan] at hs
    split at hs
    · exact h.resume hscan hs
    · simp at hs
  | suppressed result | delayed | call => exact h.resume hscan hs
  | hydrate result =>
    simp only [SidecarNode.stepScan] at hs
    split at hs
    · exact h.resume hscan hs
    · exact h.resume hscan hs
    · split_ifs at hs
      cases hs
      exact h.setScan ⟨⟨cs, hcs, hwithin⟩, hold.before, fun c _ hstage => by cases hstage⟩
    · simp at hs
  | recheck =>
    simp only [SidecarNode.stepScan] at hs
    split at hs
    · rename_i c hpc hstage
      split at hs
      · exact h.resume hscan hs
      · exact h.resume hscan hs
      · rename_i hlook
        cases hs
        refine h.setScan ⟨⟨cs, hcs, hwithin⟩, hold.before, fun c' hc' _ w hw => ?_⟩
        obtain rfl := ScanPc.candidate.inj (hpc.symm.trans hc')
        rw [hpc] at hwithin
        exact h.key_ne hcs hwithin.1 hlook (hold.before hw)
    · simp at hs
  | deliver =>
    simp only [SidecarNode.stepScan] at hs
    split at hs
    · rename_i c hpc hstage
      have hoffer : Sound { s with offers := ⟨c.collection, c.docId, scan.before⟩ :: s.offers } := by
        refine h.frame rfl rfl rfl h.calls h.scan fun o ho => ?_
        rcases mem_cons.1 ho with rfl | ho
        · exact hold.passed c hpc hstage
        · exact h.offers o ho
      exact hoffer.resume hscan hs
    · simp at hs

theorem Sound.startScan (h : s.Sound) (hs : s.startScan = some s') : s'.Sound := by
  unfold SidecarNode.startScan at hs
  split at hs
  · rename_i i hinst hscan
    split_ifs at hs
    cases hs
    refine h.setScan ⟨⟨i.collections, ?_, ScanPc.within_nextMapping (List.Subset.refl _)⟩,
      List.Subset.refl _, fun c _ hstage => by cases hstage⟩
    rw [SidecarNode.collections, hinst]
    rfl
  · simp at hs

/-! ### Recording an exclusion -/

/-- The worker serves a record: what was on record stays on record. -/
theorem Sound.setWorker (h : s.Sound) (hi : s.installed = some i) {w w' : Worker}
    (hw : i.exclusion = some w) (hw' : JournalSound w') (hadv : Advances w.journal w'.journal) :
    (s.setWorker i w').Sound ∧ ∀ d, s.Recorded d → (s.setWorker i w').Recorded d := by
  have hworker : s.worker = some w := by rw [SidecarNode.worker, hi]; exact hw
  have hrec : ∀ d, s.Recorded d → (s.setWorker i w').Recorded d := by
    rintro d ⟨⟨f, hf, hd⟩, hindex⟩
    refine ⟨⟨w'.journal.file, hw'.knows.linked.2, ?_⟩, fun wk hwk => ?_⟩
    · rw [diskDir, hworker] at hf
      have hfile : f = w.journal.file :=
        some.inj (hf.symm.trans (h.worker w hworker).knows.linked.2)
      exact (hfile ▸ hd).mono hadv.content
    · cases hwk
      exact hadv.index.mem (hindex w hworker)
  have hcol : (s.setWorker i w').collections = s.collections := by
    rw [SidecarNode.collections, SidecarNode.collections, hi]
    rfl
  refine ⟨⟨fun wk hwk => ?_, ?_, ?_, fun c hc => (h.calls c hc).mono hrec, fun x hx hex => ?_, ?_, h.offers⟩,
    hrec⟩
  · cases hwk
    exact hw'
  · rw [hcol]
    exact h.valid
  · rw [hcol]
    exact h.apart
  · exact ⟨(h.writes x hx hex).1, hrec _ (h.writes x hx hex).2⟩
  · rw [hcol]
    exact h.scan

theorem Sound.stepExclusion (h : s.Sound) (hc : c ∈ s.calls)
    (hstep : c.pc = .queued → ∀ w, s.worker = some w →
      Admits w.journal c.digest .localExcluded → InChunks w.journal.file)
    (hs : s.stepExclusion c io = some s') : s'.Sound := by
  have hcall := h.calls c hc
  unfold SidecarNode.stepExclusion at hs
  split at hs
  · cases hs
    exact h.move trivial
  · rename_i i hpc hi
    split_ifs at hs with hmapped hnone
    · cases hs
      exact h.leave c
    · cases hs
      refine h.move (h.valid i.collections ?_ _ hmapped)
      rw [SidecarNode.collections, hi]
      rfl
    · cases hs
      exact h.move trivial
  · rename_i i hpc hi
    obtain ⟨w, hw, rfl⟩ := map_eq_some_iff.1 hs
    rw [WriteCall.Sound, hpc] at hcall
    split_ifs
    · exact h.move hcall
    · exact h.leave c
  · rename_i i hpc hi
    obtain ⟨w, hw, rfl⟩ := map_eq_some_iff.1 hs
    rw [WriteCall.Sound, hpc] at hcall
    have hworker : s.worker = some w := by rw [SidecarNode.worker, hi]; exact hw
    have hsound := h.worker w hworker
    obtain ⟨hserve, hmem⟩ := hsound.serveRecord io (hstep hpc w hworker)
    have hadv := recordInner_advances hsound.knows.linked hsound.knows.fits c.digest .localExcluded io
    rw [← Worker.journal_serveRecord] at hadv
    obtain ⟨hset, -⟩ := h.setWorker hi hw hserve hadv
    split
    · rename_i w' inserted hreply
      rw [hreply] at hserve hset hmem
      refine hset.move ⟨hcall, ⟨w'.journal.file, hserve.knows.linked.2, ?_⟩, fun wk hwk => ?_⟩
      · exact hserve.knows.kept _ (hmem inserted rfl)
      · cases hwk
        exact hmem inserted rfl
    · rename_i w' e hreply
      rw [hreply] at hset
      exact hset.leave c
  · simp at hs

/-! ### Restarts -/

theorem Sound.restart (h : s.Sound) : s.restart.Sound where
  worker := fun w hw => by cases hw
  valid := fun cs hcs => by cases hcs
  apart := fun cs hcs => by cases hcs
  calls := fun c hc => absurd hc (notMem_zero c)
  writes := by
    intro w hw hex
    exact ⟨(h.writes w hw hex).1, (h.writes w hw hex).2.1, fun wk hwk => by cases hwk⟩
  scan := fun sc hsc => by cases hsc
  offers := h.offers

/-- Without an installed ledger no scan runs. -/
theorem Sound.scan_eq_none (h : s.Sound) (hi : s.installed = none) : s.scan = none := by
  cases hsc : s.scan with
  | none => rfl
  | some sc =>
    obtain ⟨cs, hcs, -⟩ := (h.scan sc hsc).within
    rw [collections, hi] at hcs
    simp at hcs

/-- Collections are installed where there were none, with the journal that was opened: what was on
record must still be. -/
theorem Sound.of_install (h : s.Sound) (hnone : s.installed = none)
    (hvalid : cs.all validCollection = true)
    (hsep : ∀ w ∈ s.writes, w.excluded = false → ∀ m ∈ cs, docIdOf m w.key = none)
    (hcol : s'.collections = some cs) (hwrites : s'.writes = s.writes) (hcalls : s'.calls = s.calls)
    (hscan : s'.scan = s.scan) (hoffers : s'.offers = s.offers)
    (hworker : ∀ w, s'.worker = some w → JournalSound w)
    (hrec : ∀ d, s.Recorded d → s'.Recorded d) : s'.Sound where
  worker := hworker
  valid := by
    intro cs' hcs' m hm
    rw [hcol, mem_some_iff] at hcs'
    exact all_eq_true.1 hvalid m (hcs' ▸ hm)
  apart := by
    intro cs' hcs' w hw hex m hm
    rw [hcol, mem_some_iff] at hcs'
    exact hsep w (hwrites ▸ hw) hex m (hcs' ▸ hm)
  calls := by
    intro c hc
    exact (h.calls c (hcalls ▸ hc)).mono hrec
  writes := by
    intro w hw hex
    obtain ⟨hv, hr⟩ := h.writes w (hwrites ▸ hw) hex
    exact ⟨hv, hrec _ hr⟩
  scan := by
    intro sc hsc
    rw [hscan, h.scan_eq_none hnone] at hsc
    simp at hsc
  offers := by
    rw [NeverOffered, hoffers]
    exact h.offers

theorem Sound.install (h : s.Sound)
    (hsep : ∀ w ∈ s.writes, w.excluded = false → ∀ m ∈ cs, docIdOf m w.key = none)
    (hs : s.install cs fault delivery = some s') : s'.Sound := by
  unfold SidecarNode.install at hs
  split_ifs at hs with hcan
  obtain ⟨hnone, hvalid⟩ := hcan
  have hdisk : s.diskDir = s.dir := by rw [diskDir, SidecarNode.worker, hnone]; rfl
  split at hs
  · rename_i dir j hopen
    cases hs
    refine h.of_install hnone hvalid hsep rfl rfl rfl rfl rfl (fun w hw => ?_) fun d hd => ?_
    · cases hw
      exact journalSound_spawn (congrArg Prod.snd hopen)
    · obtain ⟨hkept, hmem⟩ := kept_openJournal .exclusion fault (hdisk ▸ hd.1)
      obtain ⟨hdir, hd'⟩ := hmem j (congrArg Prod.snd hopen)
      refine ⟨?_, fun w hw => ?_⟩
      · show KeptIn j.dir d
        rw [hdir]
        exact hkept
      · cases hw
        exact hd'
  · rename_i dir e hopen
    cases hs
    refine h.of_install hnone hvalid hsep rfl rfl rfl rfl rfl (fun w hw => by cases hw) fun d hd => ?_
    obtain ⟨hkept, -⟩ := kept_openJournal .exclusion fault (hdisk ▸ hd.1)
    rw [hopen] at hkept
    exact ⟨hkept, fun w hw => by cases hw⟩

end SidecarNode
end PeatNode.Node
