/-
# The batches of a scan

`scan_once` has three nested loops: over the mappings, over the batches of 64 keys that
`keys.chunks` makes of a listing, and over the keys of a batch, with a `yield_now` behind every
batch (`BatchPc`).  `BatchPc.flat` is its view as `ScanPc`, which has one loop over the keys; the
size of the batches makes no difference (`BatchRun.exec_flat`).
-/

import Mathlib.Data.List.ModifyLast
import PeatNode.Lib.Chunks
import PeatNode.Reconcile.Trigger

namespace PeatNode.Reconcile

/-! ### What is observed of a scan -/

/-- What a scan waits for. -/
inductive ScanLabel
  | check (ok : Bool)
  | answer (a : ScanAnswer)
deriving DecidableEq

/-- What a scan did with a key: the two journal answers, the calls of `deliver_candidate` and
their result. -/
structure Examination where
  collection : String
  key : String
  excluded : Option Bool
  suppressed : Option Bool
  calls : List (String × String)
  result : Option (Except CandidateError CandidateOutcome)
deriving DecidableEq

/-- What an observer notes of a scan, oldest first. -/
structure ScanLog where
  listed : List (String × List String)
  examined : List Examination
deriving DecidableEq

namespace ScanLog

def amend (log : ScanLog) (f : Examination → Examination) : ScanLog :=
  { log with examined := log.examined.modifyLast f }

def observe (log : ScanLog) : ScanPc → ScanLabel → ScanLog
  | .listing m _, .answer (.keys (some ks)) => { log with listed := log.listed ++ [(m, ks)] }
  | .key m k _ _, .check true =>
    { log with examined := log.examined ++ [⟨m, k, none, none, [], none⟩] }
  | .exclusion _, .answer (.excluded b) => log.amend fun e => { e with excluded := b }
  | .suppression _, .answer (.suppressed b) => log.amend fun e => { e with suppressed := b }
  | .cleared c, .answer .call =>
    log.amend fun e => { e with calls := e.calls ++ [(c.collection, c.docId)] }
  | .candidate _, .answer (.candidate r) => log.amend fun e => { e with result := some r }
  | _, _ => log

theorem amend_concat (listed : List (String × List String)) (done : List Examination)
    (e : Examination) (f : Examination → Examination) :
    amend ⟨listed, done ++ [e]⟩ f = ⟨listed, done ++ [f e]⟩ := by
  rw [amend, List.modifyLast_concat]

end ScanLog

/-- A scan, the counters and what was observed. -/
structure ScanRun (π : Type) where
  pc : π
  stats : ReconcileStats
  log : ScanLog
deriving DecidableEq

namespace ScanRun

def start (cs : List String) (stats : ReconcileStats) : ScanRun ScanPc :=
  ⟨ScanPc.nextMapping cs, stats, [], []⟩

def step (s : ScanRun ScanPc) : ScanLabel → Option (ScanRun ScanPc)
  | .check ok => (s.pc.check ok).map fun pc => ⟨pc, s.stats, s.log.observe s.pc (.check ok)⟩
  | .answer a => (s.pc.answer a).map fun r =>
    ⟨r.1, s.stats.count r.2, s.log.observe s.pc (.answer a)⟩

end ScanRun

/-! ### Three loops -/

/-- The loop variables around a key: its collection, the rest of its batch, the batches and
mappings behind it. -/
structure Place where
  collection : String
  batch : List String
  batches : List (List String)
  mappings : List String
deriving DecidableEq

inductive BatchPc
  | mapping (collection : String) (mappings : List String)
  | listing (collection : String) (mappings : List String)
  | key (key : String) (p : Place)
  | exclusion (docId : String) (p : Place)
  | suppression (docId : String) (p : Place)
  | delay (docId : String) (p : Place)
  | hydration (docId : String) (p : Place)
  | cleared (docId : String) (p : Place)
  | candidate (docId : String) (p : Place)
  | yielding (p : Place)
  | done
deriving DecidableEq

namespace BatchPc

def nextMapping : List String → BatchPc
  | [] => .done
  | m :: ms => .mapping m ms

/-- The head of the loop over a batch. -/
def nextKey (p : Place) : BatchPc :=
  match p.batch with
  | [] => .yielding p
  | k :: ks => .key k { p with batch := ks }

/-- The head of the loop over the batches. -/
def nextBatch (p : Place) : BatchPc :=
  match p.batches with
  | [] => nextMapping p.mappings
  | b :: bs => nextKey { p with batch := b, batches := bs }

def check : BatchPc → Bool → Option BatchPc
  | .mapping m ms, ok => some (if ok then .listing m ms else .done)
  | .key k p, ok =>
    some <| if ok then
      match docIdOf p.collection k with
      | none => nextKey p
      | some docId => .exclusion docId p
    else .done
  | .hydration d p, ok => some (if ok then .cleared d p else .done)
  | _, _ => none

/-- A listing is cut into batches of `n`. -/
def answer (n : ℕ) : BatchPc → ScanAnswer → Option (BatchPc × ScanEffect)
  | .listing m ms, .keys (some ks) => some (nextBatch ⟨m, [], Chunks.chunks n ks, ms⟩, .nothing)
  | .listing _ _, .keys none => some (.done, .failure)
  | .exclusion _ p, .excluded (some true) => some (nextKey p, .suppressed)
  | .exclusion d p, .excluded (some false) => some (.suppression d p, .nothing)
  | .exclusion _ _, .excluded none => some (.done, .exclusionFailure)
  | .suppression _ p, .suppressed (some true) => some (nextKey p, .suppressed)
  | .suppression d p, .suppressed (some false) => some (.delay d p, .nothing)
  | .suppression _ _, .suppressed none => some (.done, .deliveryFailure)
  | .delay d p, .delayed => some (.hydration d p, .nothing)
  | .cleared d p, .call => some (.candidate d p, .nothing)
  | .candidate _ p, .candidate (.ok .missing) => some (nextKey p, .nothing)
  | .candidate _ p, .candidate (.ok .localExcluded) => some (nextKey p, .suppressed)
  | .candidate _ p, .candidate (.ok .offered) => some (nextKey p, .hydrated)
  | .candidate _ p, .candidate (.error .read) => some (nextKey p, .failure)
  | .candidate _ _, .candidate (.error .exclusion) => some (.done, .exclusionFailure)
  | _, _ => none

def yield : BatchPc → Option BatchPc
  | .yielding p => some (nextBatch p)
  | _ => none

end BatchPc

/-! ### The flat view -/

namespace Place

/-- The keys behind the one in hand. -/
def keys (p : Place) : List String := p.batch ++ p.batches.flatten

def candidate (p : Place) (docId : String) : Candidate := ⟨p.collection, docId, p.keys, p.mappings⟩

end Place

namespace BatchPc

/-- The program with one loop over the keys. -/
def flat : BatchPc → ScanPc
  | .mapping m ms => .mapping m ms
  | .listing m ms => .listing m ms
  | .key k p => .key p.collection k p.keys p.mappings
  | .exclusion d p => .exclusion (p.candidate d)
  | .suppression d p => .suppression (p.candidate d)
  | .delay d p => .delay (p.candidate d)
  | .hydration d p => .hydration (p.candidate d)
  | .cleared d p => .cleared (p.candidate d)
  | .candidate d p => .candidate (p.candidate d)
  | .yielding p => ScanPc.nextKey p.collection p.mappings p.batches.flatten
  | .done => .done

theorem flat_nextMapping (mappings : List String) :
    (nextMapping mappings).flat = ScanPc.nextMapping mappings := by
  cases mappings <;> rfl

theorem flat_nextKey (p : Place) :
    (nextKey p).flat = ScanPc.nextKey p.collection p.mappings p.keys := by
  obtain ⟨collection, batch, batches, mappings⟩ := p
  cases batch <;> rfl

theorem flat_nextBatch (p : Place) :
    (nextBatch p).flat = ScanPc.nextKey p.collection p.mappings p.batches.flatten := by
  obtain ⟨collection, batch, batches, mappings⟩ := p
  cases batches with
  | nil => exact flat_nextMapping mappings
  | cons b bs => exact flat_nextKey ⟨collection, b, bs, mappings⟩

variable {pc pc' : BatchPc}

theorem flat_check (h : pc.check ok = some pc') : pc.flat.check ok = some pc'.flat := by
  cases pc with
  | mapping | hydration =>
    cases h
    cases ok <;> rfl
  | key k p =>
    cases h
    cases ok with
    | false => rfl
    | true =>
      simp only [flat, ScanPc.check, if_true]
      cases docIdOf p.collection k with
      | none => exact congrArg some (flat_nextKey p).symm
      | some docId => rfl
  | _ => simp [check] at h

theorem flat_answer (hn : 0 < n) (h : pc.answer n a = some r) :
    pc.flat.answer a = some (r.1.flat, r.2) := by
  unfold answer at h
  split at h <;> cases h
  case h_1 m ms ks =>
    simp only [flat_nextBatch, Chunks.flatten_chunks hn]
    rfl
  all_goals first | rfl | (simp only [flat_nextKey]; rfl)

theorem flat_yield (h : pc.yield = some pc') : pc'.flat = pc.flat := by
  cases pc with
  | yielding p =>
    cases h
    exact flat_nextBatch p
  | _ => simp [yield] at h

end BatchPc

/-! ### Runs -/

/-- What the batched program waits for. -/
inductive BatchLabel
  | scan (l : ScanLabel)
  | yield
deriving DecidableEq

/-- The labels the flat program knows. -/
def BatchLabel.visible : BatchLabel → Option ScanLabel
  | .scan l => some l
  | .yield => none

namespace BatchRun

def start (cs : List String) (stats : ReconcileStats) : ScanRun BatchPc :=
  ⟨BatchPc.nextMapping cs, stats, [], []⟩

def step (n : ℕ) (s : ScanRun BatchPc) : BatchLabel → Option (ScanRun BatchPc)
  | .scan (.check ok) =>
    (s.pc.check ok).map fun pc => ⟨pc, s.stats, s.log.observe s.pc.flat (.check ok)⟩
  | .scan (.answer a) => (s.pc.answer n a).map fun r =>
    ⟨r.1, s.stats.count r.2, s.log.observe s.pc.flat (.answer a)⟩
  | .yield => s.pc.yield.map fun pc => { s with pc := pc }

/-- The run in the flat view. -/
def flat (s : ScanRun BatchPc) : ScanRun ScanPc := ⟨s.pc.flat, s.stats, s.log⟩

variable {n : ℕ} {s s' : ScanRun BatchPc}

theorem flat_start (cs : List String) (stats : ReconcileStats) :
    flat (start cs stats) = ScanRun.start cs stats := by
  rw [flat, start, ScanRun.start, BatchPc.flat_nextMapping]

/-- **A visible step is a step of the flat program.** -/
theorem flat_step (hn : 0 < n) (h : step n s (.scan l) = some s') :
    (flat s).step l = some (flat s') := by
  cases l with
  | check ok =>
    obtain ⟨pc, hpc, rfl⟩ := Option.map_eq_some_iff.1 h
    exact Option.map_eq_some_iff.2 ⟨_, BatchPc.flat_check hpc, rfl⟩
  | answer a =>
    obtain ⟨r, hr, rfl⟩ := Option.map_eq_some_iff.1 h
    exact Option.map_eq_some_iff.2 ⟨_, BatchPc.flat_answer hn hr, rfl⟩

/-- **A yield is not seen.** -/
theorem flat_yield (h : step n s .yield = some s') : flat s' = flat s := by
  obtain ⟨pc, hpc, rfl⟩ := Option.map_eq_some_iff.1 h
  rw [flat, flat, BatchPc.flat_yield hpc]

/-- **The size of the batches makes no difference.** With the same answers, the program without
batches gets to the same counters and notes. -/
theorem exec_flat (hn : 0 < n) (h : Lts.exec (step n) s labels = some s') :
    Lts.exec ScanRun.step (flat s) (labels.filterMap BatchLabel.visible) = some (flat s') := by
  refine Lts.exec_filterMap flat BatchLabel.visible ?_ ?_ h
  · intro s a s' l hstep hl
    cases a with
    | scan l' =>
      cases hl
      exact flat_step hn hstep
    | yield => simp [BatchLabel.visible] at hl
  · intro s a s' hstep hl
    cases a with
    | scan l' => simp [BatchLabel.visible] at hl
    | yield => exact flat_yield hstep

end BatchRun
end PeatNode.Reconcile
