/-
# A scan examines every key

What `scan_once` has done by the time it returns, when `can_scan` holds at every check and no
listing or journal lookup fails.  `Progress`: the examined keys, followed by the outstanding ones,
are the listed ones, and all but the one in hand are settled; at the end none is outstanding
(`scan_complete`).
-/

import PeatNode.Reconcile.Batches

namespace PeatNode.Reconcile

open List

/-! ### What is settled and what is outstanding -/

/-- What `scan_once` owes a key: to ask the exclusion journal, then the delivery journal, and hand
the document over once if neither knows it. -/
def Examination.Settled (e : Examination) : Prop :=
  ∃ docId, e.key = documentKey e.collection docId ∧
    (e.excluded = some true ∧ e.calls = [] ∨
      e.excluded = some false ∧ e.suppressed = some true ∧ e.calls = [] ∨
      e.excluded = some false ∧ e.suppressed = some false ∧ e.calls = [(e.collection, docId)] ∧
        ∃ r, e.result = some r)

/-- Gone, which no counter shows. -/
def Examination.missing (e : Examination) : Bool := e.result = some (.ok .missing)

namespace ScanLog

def listedKeys (log : ScanLog) : List (String × String) :=
  log.listed.flatMap fun l => l.2.map fun k => (l.1, k)

def examinedKeys (log : ScanLog) : List (String × String) :=
  log.examined.map fun e => (e.collection, e.key)

def missing (log : ScanLog) : ℕ := log.examined.countP Examination.missing

theorem amend_of_eq {log : ScanLog} (f : Examination → Examination)
    (h : log.examined = done ++ [e]) : log.amend f = ⟨log.listed, done ++ [f e]⟩ := by
  rw [← amend_concat, ← h]

theorem listedKeys_check (log : ScanLog) (pc : ScanPc) (ok : Bool) :
    (log.observe pc (.check ok)).listedKeys = log.listedKeys := by
  cases pc <;> cases ok <;> rfl

theorem listedKeys_concat (log : ScanLog) (m : String) (ks : List String) :
    listedKeys ⟨log.listed ++ [(m, ks)], log.examined⟩ = log.listedKeys ++ ks.map fun k => (m, k) := by
  simp [listedKeys]

theorem examinedKeys_concat {log : ScanLog} (h : log.examined = done ++ [e]) :
    log.examinedKeys = (done.map fun e => (e.collection, e.key)) ++ [(e.collection, e.key)] := by
  rw [examinedKeys, h, map_append, map_singleton]

end ScanLog

/-- The keys a scan has counted. -/
def ReconcileStats.outcomes (stats : ReconcileStats) : ℕ :=
  stats.suppressed + stats.hydrated + stats.failures

def ScanEffect.weight : ScanEffect → ℕ
  | .nothing => 0
  | _ => 1

@[simp] theorem ReconcileStats.outcomes_count (stats : ReconcileStats) (effect : ScanEffect) :
    (stats.count effect).outcomes = stats.outcomes + effect.weight := by
  cases effect <;> simp [count, outcomes, ScanEffect.weight] <;> omega

namespace ScanPc

/-- The collections not listed yet. -/
def unlisted : ScanPc → List String
  | .mapping m ms | .listing m ms => m :: ms
  | .key _ _ _ ms => ms
  | .exclusion c | .suppression c | .delay c | .hydration c | .cleared c | .candidate c => c.mappings
  | .done => []

/-- The keys listed and not yet examined. -/
def unexamined : ScanPc → List (String × String)
  | .key m k ks _ => (k :: ks).map fun k => (m, k)
  | .exclusion c | .suppression c | .delay c | .hydration c | .cleared c | .candidate c =>
    c.keys.map fun k => (c.collection, k)
  | .mapping _ _ | .listing _ _ | .done => []

/-- The notes on the key in hand. -/
def inHand : ScanPc → Option Examination
  | .exclusion c => some ⟨c.collection, documentKey c.collection c.docId, none, none, [], none⟩
  | .suppression c =>
    some ⟨c.collection, documentKey c.collection c.docId, some false, none, [], none⟩
  | .delay c | .hydration c | .cleared c =>
    some ⟨c.collection, documentKey c.collection c.docId, some false, some false, [], none⟩
  | .candidate c =>
    some ⟨c.collection, documentKey c.collection c.docId, some false, some false,
      [(c.collection, c.docId)], none⟩
  | _ => none

@[simp] theorem unlisted_nextMapping (ms : List String) : (nextMapping ms).unlisted = ms := by
  cases ms <;> rfl

@[simp] theorem unexamined_nextMapping (ms : List String) : (nextMapping ms).unexamined = [] := by
  cases ms <;> rfl

@[simp] theorem inHand_nextMapping (ms : List String) : (nextMapping ms).inHand = none := by
  cases ms <;> rfl

@[simp] theorem unlisted_nextKey (m : String) (ms ks : List String) :
    (nextKey m ms ks).unlisted = ms := by
  cases ks with
  | nil => exact unlisted_nextMapping ms
  | cons k ks => rfl

@[simp] theorem unexamined_nextKey (m : String) (ms ks : List String) :
    (nextKey m ms ks).unexamined = ks.map fun k => (m, k) := by
  cases ks with
  | nil => exact unexamined_nextMapping ms
  | cons k ks => rfl

@[simp] theorem inHand_nextKey (m : String) (ms ks : List String) :
    (nextKey m ms ks).inHand = none := by
  cases ks with
  | nil => exact inHand_nextMapping ms
  | cons k ks => rfl

end ScanPc

/-! ### Turns of an undisturbed scan -/

/-- The keys are of the collection listed. -/
def ScanPc.Carries (ks : List String) : ScanPc → Prop
  | .listing m _ => ∀ k ∈ ks, (docIdOf m k).isSome
  | _ => True

/-- `can_scan` holds, nothing fails, keys carry their collection. -/
def ScanPc.Undisturbed (pc : ScanPc) : ScanLabel → Prop
  | .check ok => ok = true
  | .answer (.keys r) => ∃ ks ∈ r, pc.Carries ks
  | .answer (.excluded r) => r ≠ none
  | .answer (.suppressed r) => r ≠ none
  | .answer (.candidate r) => r ≠ .error .exclusion
  | .answer .delayed | .answer .call => True

instance (ks : List String) (pc : ScanPc) : Decidable (pc.Carries ks) := by
  unfold ScanPc.Carries
  split <;> infer_instance

instance (pc : ScanPc) (l : ScanLabel) : Decidable (pc.Undisturbed l) := by
  unfold ScanPc.Undisturbed
  split <;> infer_instance

inductive ScanTurn (s : ScanRun ScanPc) : ScanRun ScanPc → Prop
  | wait (hin : pc.inHand = s.pc.inHand) (hunlisted : pc.unlisted = s.pc.unlisted)
      (hunexamined : pc.unexamined = s.pc.unexamined) : ScanTurn s ⟨pc, s.stats, s.log⟩
  | list (hpc : s.pc = .listing m ms) (ks : List String)
      (hks : ∀ k ∈ ks, ∃ docId, k = documentKey m docId) :
      ScanTurn s ⟨.nextKey m ms ks, s.stats, s.log.listed ++ [(m, ks)], s.log.examined⟩
  | take (hpc : s.pc = .key m (documentKey m docId) ks ms) :
      ScanTurn s ⟨.exclusion ⟨m, docId, ks, ms⟩, s.stats, s.log.listed,
        s.log.examined ++ [⟨m, documentKey m docId, none, none, [], none⟩]⟩
  | note (f : Examination → Examination) {pc : ScanPc} {e : Examination}
      (hin : s.pc.inHand = some e) (hin' : pc.inHand = some (f e))
      (hplace : ((f e).collection, (f e).key) = (e.collection, e.key))
      (hunlisted : pc.unlisted = s.pc.unlisted) (hunexamined : pc.unexamined = s.pc.unexamined) :
      ScanTurn s ⟨pc, s.stats, s.log.amend f⟩
  | settle (f : Examination → Examination) {c : Candidate} {e : Examination} (effect : ScanEffect)
      (hin : s.pc.inHand = some e) (hsettled : (f e).Settled)
      (hplace : ((f e).collection, (f e).key) = (e.collection, e.key))
      (hunlisted : c.mappings = s.pc.unlisted)
      (hunexamined : (c.keys.map fun k => (c.collection, k)) = s.pc.unexamined)
      (hweight : effect.weight + (f e).missing.toNat = 1) :
      ScanTurn s ⟨.next c, s.stats.count effect, s.log.amend f⟩

/-- **The turns of an undisturbed scan.** -/
theorem ScanTurn.of_step (hok : s.pc.Undisturbed l)
    (hkeys : ∀ x ∈ s.pc.unexamined, ∃ docId, x.2 = documentKey x.1 docId) (h : s.step l = some s') :
    ScanTurn s s' := by
  obtain ⟨pc, stats, log⟩ := s
  cases l with
  | check ok =>
    obtain rfl : ok = true := hok
    obtain ⟨pc', hpc', rfl⟩ := Option.map_eq_some_iff.1 h
    cases pc with
    | mapping | hydration =>
      cases hpc'
      exact .wait rfl rfl rfl
    | key m k ks ms =>
      obtain ⟨docId, rfl⟩ : ∃ docId, k = documentKey m docId := hkeys (m, k) mem_cons_self
      have hid := docIdOf_eq_some_iff.2 (rfl : documentKey m docId = documentKey m docId)
      simp only [ScanPc.check, hid, if_true, Option.some.injEq] at hpc'
      subst hpc'
      exact .take rfl
    | _ => simp [ScanPc.check] at hpc'
  | answer a =>
    obtain ⟨r, hr, rfl⟩ := Option.map_eq_some_iff.1 h
    change pc.answer a = some r at hr
    unfold ScanPc.answer at hr
    split at hr <;> cases hr
    case h_1 m ms ks =>
      obtain ⟨ks', hks', hcarries⟩ := hok
      cases hks'
      refine .list rfl ks fun k hk => ?_
      obtain ⟨docId, hid⟩ := Option.isSome_iff_exists.1 (hcarries k hk)
      exact ⟨docId, docIdOf_eq_some_iff.1 hid⟩
    case h_3 c =>
      exact .settle (fun e => { e with excluded := some true }) .suppressed rfl
        ⟨c.docId, rfl, .inl ⟨rfl, rfl⟩⟩ rfl rfl rfl rfl
    case h_4 c => exact .note (fun e => { e with excluded := some false }) rfl rfl rfl rfl rfl
    case h_6 c =>
      exact .settle (fun e => { e with suppressed := some true }) .suppressed rfl
        ⟨c.docId, rfl, .inr (.inl ⟨rfl, rfl, rfl⟩)⟩ rfl rfl rfl rfl
    case h_7 c => exact .note (fun e => { e with suppressed := some false }) rfl rfl rfl rfl rfl
    case h_9 c => exact .wait rfl rfl rfl
    case h_10 c =>
      exact .note (fun e => { e with calls := e.calls ++ [(c.collection, c.docId)] }) rfl rfl rfl
        rfl rfl
    case h_11 c | h_12 c | h_13 c | h_14 c =>
      exact .settle (fun e => { e with result := some _ }) _ rfl
        ⟨c.docId, rfl, .inr (.inr ⟨rfl, rfl, rfl, _, rfl⟩)⟩ rfl rfl rfl rfl
    all_goals simp [ScanPc.Undisturbed] at hok

/-! ### Progress -/

/-- How far an undisturbed scan has come. -/
structure Progress (cs : List String) (stats₀ : ReconcileStats) (s : ScanRun ScanPc) : Prop where
  listed : s.log.listed.map Prod.fst ++ s.pc.unlisted = cs
  examined : s.log.examinedKeys ++ s.pc.unexamined = s.log.listedKeys
  carried : ∀ x ∈ s.pc.unexamined, ∃ docId, x.2 = documentKey x.1 docId
  settled : ∃ done, s.log.examined = done ++ s.pc.inHand.toList ∧
    (∀ e ∈ done, Examination.Settled e) ∧
    s.stats.outcomes + done.countP Examination.missing = stats₀.outcomes + done.length

namespace Progress

variable {cs : List String} {stats₀ : ReconcileStats} {s s' : ScanRun ScanPc}

theorem start (cs : List String) (stats : ReconcileStats) :
    Progress cs stats (ScanRun.start cs stats) where
  listed := by simp [ScanRun.start]
  examined := by simp [ScanRun.start, ScanLog.examinedKeys, ScanLog.listedKeys]
  carried := by simp [ScanRun.start]
  settled := ⟨[], by simp [ScanRun.start], by simp, by simp [ScanRun.start]⟩

theorem turn (h : Progress cs stats₀ s) (ht : ScanTurn s s') : Progress cs stats₀ s' := by
  obtain ⟨done, hdone, hsettled, hcount⟩ := h.settled
  have hlisted := h.listed
  have hexamined := h.examined
  have hcarried := h.carried
  cases ht with
  | wait hin hunlisted hunexamined =>
    rw [← hunlisted] at hlisted
    rw [← hunexamined] at hexamined hcarried
    rw [← hin] at hdone
    exact ⟨hlisted, hexamined, hcarried, done, hdone, hsettled, hcount⟩
  | list hpc ks hks =>
    rename_i m ms
    rw [hpc] at hlisted hexamined hdone
    have hlisted : s.log.listed.map Prod.fst ++ m :: ms = cs := hlisted
    have hexamined : s.log.examinedKeys ++ [] = s.log.listedKeys := hexamined
    refine ⟨?_, ?_, ?_, done, ?_, hsettled, hcount⟩
    · rw [ScanPc.unlisted_nextKey, map_append, append_assoc]
      exact hlisted
    · rw [ScanPc.unexamined_nextKey, ScanLog.listedKeys_concat, ← hexamined, append_nil]
      rfl
    · intro x hx
      rw [ScanPc.unexamined_nextKey, mem_map] at hx
      obtain ⟨k, hk, rfl⟩ := hx
      exact hks k hk
    · rw [ScanPc.inHand_nextKey]
      exact hdone
  | take hpc =>
    rw [hpc] at hlisted hexamined hdone hcarried
    refine ⟨hlisted, ?_, ?_, done, ?_, hsettled, hcount⟩
    · simpa [ScanPc.unexamined, ScanLog.examinedKeys, ScanLog.listedKeys] using hexamined
    · intro x hx
      exact hcarried x (mem_cons_of_mem _ hx)
    · have hdone : s.log.examined = done ++ [] := hdone
      rw [hdone, append_nil]
      rfl
  | note f hin hin' hplace hunlisted hunexamined =>
    rw [hin, Option.toList_some] at hdone
    rw [ScanLog.amend_of_eq f hdone]
    refine ⟨?_, ?_, ?_, done, ?_, hsettled, hcount⟩
    · rw [hunlisted]
      exact hlisted
    · rw [ScanLog.examinedKeys_concat hdone] at hexamined
      rw [ScanLog.examinedKeys_concat rfl, hplace, hunexamined]
      exact hexamined
    · rw [hunexamined]
      exact hcarried
    · rw [hin', Option.toList_some]
  | settle f effect hin he' hplace hunlisted hunexamined hweight =>
    rename_i c e
    rw [hin, Option.toList_some] at hdone
    rw [ScanLog.amend_of_eq f hdone]
    refine ⟨?_, ?_, ?_, done ++ [f e], ?_, ?_, ?_⟩
    · rw [ScanPc.next, ScanPc.unlisted_nextKey, hunlisted]
      exact hlisted
    · rw [ScanLog.examinedKeys_concat hdone] at hexamined
      rw [ScanLog.examinedKeys_concat rfl, hplace, ScanPc.next, ScanPc.unexamined_nextKey,
        hunexamined]
      exact hexamined
    · rw [ScanPc.next, ScanPc.unexamined_nextKey, hunexamined]
      exact hcarried
    · rw [ScanPc.next, ScanPc.inHand_nextKey, Option.toList_none, append_nil]
    · exact forall_mem_append.2 ⟨hsettled, forall_mem_singleton.2 he'⟩
    · simp only [ReconcileStats.outcomes_count, countP_append, countP_singleton,
        length_append, length_singleton]
      cases hm : (f e).missing <;> simp [hm] at hweight ⊢ <;> omega

/-- At the end nothing is outstanding. -/
theorem at_done (h : Progress cs stats₀ s) (hdone : s.pc = .done) :
    s.log.listed.map Prod.fst = cs ∧ s.log.examinedKeys = s.log.listedKeys ∧
      (∀ e ∈ s.log.examined, e.Settled) ∧
      s.stats.suppressed + s.stats.hydrated + s.stats.failures + s.log.missing =
        stats₀.suppressed + stats₀.hydrated + stats₀.failures + s.log.examined.length := by
  obtain ⟨done, hexamined, hsettled, hcount⟩ := h.settled
  have hlisted := h.listed
  have hkeys := h.examined
  rw [hdone] at hlisted hkeys hexamined
  obtain rfl : s.log.examined = done := hexamined.trans (append_nil done)
  exact ⟨(append_nil _).symm.trans hlisted, (append_nil _).symm.trans hkeys, hsettled, hcount⟩

end Progress

/-! ### A scan comes to its end -/

namespace Place

/-- Steps behind the key in hand. -/
def cost (p : Place) : ℕ :=
  7 * p.batch.length + 1 + (p.batches.map fun b => 7 * b.length + 1).sum + 2 * p.mappings.length

end Place

namespace BatchPc

/-- Steps without the listings to come. -/
def cost : BatchPc → ℕ
  | .mapping _ ms => 2 + 2 * ms.length
  | .listing _ ms => 1 + 2 * ms.length
  | .key _ p => 7 + p.cost
  | .exclusion _ p => 6 + p.cost
  | .suppression _ p => 5 + p.cost
  | .delay _ p => 4 + p.cost
  | .hydration _ p => 3 + p.cost
  | .cleared _ p => 2 + p.cost
  | .candidate _ p => 1 + p.cost
  | .yielding p => 1 + (p.batches.map fun b => 7 * b.length + 1).sum + 2 * p.mappings.length
  | .done => 0

theorem cost_nextMapping (ms : List String) : (nextMapping ms).cost = 2 * ms.length := by
  cases ms with
  | nil => rfl
  | cons m ms =>
    simp only [nextMapping, cost, length_cons]
    omega

theorem cost_nextKey (p : Place) : (nextKey p).cost = p.cost := by
  obtain ⟨collection, batch, batches, mappings⟩ := p
  cases batch with
  | nil => simp [nextKey, cost, Place.cost]
  | cons k ks =>
    simp only [nextKey, cost, Place.cost, length_cons]
    omega

theorem cost_nextBatch (p : Place) :
    (nextBatch p).cost = (p.batches.map fun b => 7 * b.length + 1).sum + 2 * p.mappings.length := by
  obtain ⟨collection, batch, batches, mappings⟩ := p
  cases batches with
  | nil => simp [nextBatch, cost_nextMapping]
  | cons b bs =>
    simp only [nextBatch, cost_nextKey, Place.cost, map_cons, sum_cons]

theorem sum_cost_chunks (hn : 0 < n) (ks : List String) :
    ((Chunks.chunks n ks).map fun b => 7 * b.length + 1).sum ≤ 8 * ks.length := by
  have hsum : ∀ bs : List (List String),
      (bs.map fun b => 7 * b.length + 1).sum = 7 * bs.flatten.length + bs.length := by
    intro bs
    induction bs with
    | nil => rfl
    | cons b bs ih =>
      simp only [map_cons, sum_cons, ih, flatten_cons, length_append, length_cons]
      omega
  have hlen := Chunks.length_chunks_le hn ks
  rw [hsum, Chunks.flatten_chunks hn]
  omega

variable {pc pc' : BatchPc}

theorem cost_check (h : pc.check ok = some pc') : pc'.cost < pc.cost := by
  cases pc with
  | mapping | hydration =>
    cases h
    cases ok <;> simp [cost]
  | key k p =>
    cases h
    split_ifs
    · split
      · rw [cost_nextKey, cost]
        omega
      · simp [cost]
    · simp [cost]
  | _ => simp [check] at h

theorem cost_yield (h : pc.yield = some pc') : pc'.cost < pc.cost := by
  cases pc with
  | yielding p =>
    cases h
    rw [cost_nextBatch, cost]
    omega
  | _ => simp [yield] at h

end BatchPc

namespace BatchRun

variable {n : ℕ} {s s' : ScanRun BatchPc}

theorem cost_answer (hn : 0 < n) (log : ScanLog) {pc : BatchPc} (h : pc.answer n a = some r) :
    1 + r.1.cost + 8 * log.listedKeys.length ≤
      pc.cost + 8 * (log.observe pc.flat (.answer a)).listedKeys.length := by
  unfold BatchPc.answer at h
  split at h <;> cases h
  case h_1 m ms ks =>
    have hsum := BatchPc.sum_cost_chunks hn ks
    have hlisted : (log.observe (BatchPc.listing m ms).flat (.answer (.keys (some ks)))).listedKeys =
        log.listedKeys ++ ks.map fun k => (m, k) := log.listedKeys_concat m ks
    rw [hlisted, BatchPc.cost_nextBatch, length_append, length_map]
    simp only [BatchPc.cost]
    omega
  all_goals
    change 1 + _ + 8 * log.listedKeys.length ≤ _ + 8 * log.listedKeys.length
    try rw [BatchPc.cost_nextKey]
    simp only [BatchPc.cost]
    omega

/-- **Every step is paid for**, by the way still to go or by a listed key. -/
theorem cost_step (hn : 0 < n) (h : step n s l = some s') :
    1 + s'.pc.cost + 8 * s.log.listedKeys.length ≤ s.pc.cost + 8 * s'.log.listedKeys.length := by
  obtain ⟨pc, stats, log⟩ := s
  cases l with
  | scan l =>
    cases l with
    | check ok =>
      obtain ⟨pc', hpc', rfl⟩ := Option.map_eq_some_iff.1 h
      have hcost : pc'.cost < pc.cost := BatchPc.cost_check hpc'
      simp only [ScanLog.listedKeys_check]
      omega
    | answer a =>
      obtain ⟨r, hr, rfl⟩ := Option.map_eq_some_iff.1 h
      exact cost_answer hn log hr
  | yield =>
    obtain ⟨pc', hpc', rfl⟩ := Option.map_eq_some_iff.1 h
    have hcost : pc'.cost < pc.cost := BatchPc.cost_yield hpc'
    simp only
    omega

theorem length_le_cost (hn : 0 < n) (h : Lts.exec (step n) s labels = some s') :
    labels.length + s'.pc.cost + 8 * s.log.listedKeys.length ≤
      s.pc.cost + 8 * s'.log.listedKeys.length := by
  induction labels generalizing s with
  | nil =>
    rw [Lts.exec_nil, Option.some.injEq] at h
    subst h
    simp
  | cons l labels ih =>
    obtain ⟨t, hst, hrun⟩ := Lts.exec_cons_eq_some.1 h
    have h₁ := cost_step hn hst
    have h₂ := ih hrun
    rw [length_cons]
    omega

/-- `can_scan` holds, nothing fails. -/
def Undisturbed (s : ScanRun BatchPc) : BatchLabel → Prop
  | .scan l => s.pc.flat.Undisturbed l
  | .yield => True

instance (s : ScanRun BatchPc) (l : BatchLabel) : Decidable (Undisturbed s l) := by
  cases l <;> unfold Undisturbed <;> infer_instance

/-- A scan that is not over waits for something. -/
theorem exists_step (n : ℕ) (h : s.pc ≠ .done) :
    ∃ l s', Undisturbed s l ∧ step n s l = some s' := by
  obtain ⟨pc, stats, log⟩ := s
  cases pc with
  | mapping | key | hydration => exact ⟨.scan (.check true), _, rfl, rfl⟩
  | listing m ms =>
    exact ⟨.scan (.answer (.keys (some []))), _, ⟨[], rfl, forall_mem_nil _⟩, rfl⟩
  | exclusion d p => exact ⟨.scan (.answer (.excluded (some true))), _, Option.some_ne_none _, rfl⟩
  | suppression d p =>
    exact ⟨.scan (.answer (.suppressed (some true))), _, Option.some_ne_none _, rfl⟩
  | delay d p => exact ⟨.scan (.answer .delayed), _, trivial, rfl⟩
  | cleared d p => exact ⟨.scan (.answer .call), _, trivial, rfl⟩
  | candidate d p =>
    refine ⟨.scan (.answer (.candidate (.ok .missing))), _, ?_, rfl⟩
    simp [Undisturbed, ScanPc.Undisturbed]
  | yielding p => exact ⟨.yield, _, trivial, rfl⟩
  | done => exact absurd rfl h

end BatchRun

/-- **A scan examines every key.** Suppose `can_scan` holds at every check, no listing
or journal lookup fails, and keys carry their collection. Then for all mappings and
every size of the batches: the examined keys are the first of the listed ones, in order;
the scan ends after a bounded number of steps and is not stuck before; at its end every
mapping was listed and every key examined and counted once, and handed over once if
neither journal knew it; and the scan without batches does the same. -/
theorem scan_complete {n : ℕ} (hn : 0 < n) (cs : List String) (stats₀ : ReconcileStats)
    {labels : List BatchLabel} {s : ScanRun BatchPc}
    (hrun : Lts.exec (BatchRun.step n) (BatchRun.start cs stats₀) labels = some s)
    (hok : Lts.Along (BatchRun.step n) BatchRun.Undisturbed (BatchRun.start cs stats₀) labels) :
    s.log.examinedKeys <+: s.log.listedKeys ∧
    (labels.length ≤ 2 * cs.length + 8 * s.log.listedKeys.length ∧
      (s.pc ≠ .done → ∃ l s', BatchRun.Undisturbed s l ∧ BatchRun.step n s l = some s')) ∧
    (s.pc = .done →
      s.log.listed.map Prod.fst = cs ∧ s.log.examinedKeys = s.log.listedKeys ∧
      (∀ e ∈ s.log.examined, e.Settled) ∧
      s.stats.suppressed + s.stats.hydrated + s.stats.failures + s.log.missing =
        stats₀.suppressed + stats₀.hydrated + stats₀.failures + s.log.examined.length) ∧
    Lts.exec ScanRun.step (ScanRun.start cs stats₀) (labels.filterMap BatchLabel.visible) =
      some ⟨s.pc.flat, s.stats, s.log⟩ := by
  have hprogress : Progress cs stats₀ (BatchRun.flat s) := by
    refine Lts.exec_invariant (fun s => Progress cs stats₀ (BatchRun.flat s)) ?_ ?_ hok hrun
    · intro s l s' hs hl hstep
      cases l with
      | scan l => exact hs.turn (.of_step hl hs.carried (BatchRun.flat_step hn hstep))
      | yield =>
        rw [BatchRun.flat_yield hstep]
        exact hs
    · rw [BatchRun.flat_start]
      exact Progress.start cs stats₀
  have hcost := BatchRun.length_le_cost hn hrun
  have hstart : (BatchRun.start cs stats₀).pc.cost = 2 * cs.length := BatchPc.cost_nextMapping cs
  have hflat := BatchRun.exec_flat hn hrun
  rw [BatchRun.flat_start] at hflat
  refine ⟨⟨_, hprogress.examined⟩, ⟨by omega, BatchRun.exists_step n⟩, fun hdone => ?_, hflat⟩
  exact hprogress.at_done (by rw [BatchRun.flat, hdone]; rfl)

/-- One excluded, one gone, one unreadable. -/
def threeKeys : List BatchLabel :=
  [.scan (.check true),
    .scan (.answer (.keys (some ["frames:1", "frames:2", "frames:3"]))),
    .scan (.check true), .scan (.answer (.excluded (some true))),
    .scan (.check true), .scan (.answer (.excluded (some false))),
    .scan (.answer (.suppressed (some false))), .scan (.answer .delayed), .scan (.check true),
    .scan (.answer .call), .scan (.answer (.candidate (.ok .missing))), .yield,
    .scan (.check true), .scan (.answer (.excluded (some false))),
    .scan (.answer (.suppressed (some false))), .scan (.answer .delayed), .scan (.check true),
    .scan (.answer .call), .scan (.answer (.candidate (.error .read))), .yield]

/-- Every key of it is examined and counted. -/
theorem scan_complete_threeKeys :
    ∃ s ∈ Lts.exec (BatchRun.step 2) (BatchRun.start ["frames"] {}) threeKeys,
      (s.pc = .done ∧ s.log.listed = [("frames", ["frames:1", "frames:2", "frames:3"])]) ∧
      s.log.examinedKeys = [("frames", "frames:1"), ("frames", "frames:2"), ("frames", "frames:3")] ∧
      s.stats.suppressed + s.stats.hydrated + s.stats.failures + s.log.missing = 3 := by
  refine Lts.exists_mem_and (by decide +kernel) fun s hrun ⟨hdone, hlisted⟩ => ?_
  obtain ⟨-, -, hcomplete, -⟩ := scan_complete (by decide) ["frames"] {} hrun (by decide +kernel)
  obtain ⟨-, hkeys, -, hcount⟩ := hcomplete hdone
  have hexamined : s.log.examinedKeys =
      [("frames", "frames:1"), ("frames", "frames:2"), ("frames", "frames:3")] := by
    rw [hkeys, ScanLog.listedKeys, hlisted]
    rfl
  refine ⟨hexamined, ?_⟩
  have hlen := congrArg List.length hexamined
  rw [ScanLog.examinedKeys, length_map] at hlen
  rw [hcount, hlen]
  rfl

end PeatNode.Reconcile
