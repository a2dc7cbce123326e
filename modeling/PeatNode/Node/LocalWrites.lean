/-
# Local writes and reconciliation scans

The calls that change a document locally (`put_document`, `create_bridge_document`,
`delete_document` of `src/node.rs`), the exclusion journal they write to, `install_bridge_ledger`,
and the scans of `PeatNode.Reconcile.Scan`, in any interleaving and over any number of process
lifetimes.

A write records its exclusion before it reaches the store, if its collection is installed; a scan
reads the store, then asks the exclusion journal, then offers.  A restart keeps the store and the
journal file as the process left them.
-/

import PeatNode.Ledger.Worker
import PeatNode.Reconcile.Scan

namespace PeatNode.Node

open Bridge Ledger Reconcile

/-- Of `src/nats_bridge/config.rs`. -/
def validCollection (collection : String) : Bool :=
  match collection.toList with
  | [] => false
  | first :: rest =>
    first.isAlphanum && rest.all fun c => c.isAlphanum || c == '.' || c == '_' || c == '-'

/-! ### Calls and scans in progress -/

inductive WriteKind
  | putDocument
  | createBridgeDocument
  | deleteDocument
deriving DecidableEq

inductive WritePc
  | started
  | mapped
  | queued
  | allowed (excluded : Bool)
deriving DecidableEq

structure WriteCall where
  kind : WriteKind
  collection : String
  docId : String
  pc : WritePc
deriving DecidableEq

def WriteCall.key (c : WriteCall) : String := documentKey c.collection c.docId

def WriteCall.digest (c : WriteCall) : LedgerDigest := documentDigest c.collection c.docId

structure LocalWrite where
  collection : String
  docId : String
  excluded : Bool
deriving DecidableEq

def LocalWrite.key (w : LocalWrite) : String := documentKey w.collection w.docId

def LocalWrite.digest (w : LocalWrite) : LedgerDigest := documentDigest w.collection w.docId

/-- Where `deliver_bridge_reconciliation_candidate` stands. -/
inductive CandidateStage
  | called
  | hydrated
  | passed
deriving DecidableEq

/-- A running `scan_once`, with the local writes in the store at its start. -/
structure Scan where
  pc : ScanPc
  stage : CandidateStage
  before : List LocalWrite
deriving DecidableEq

/-- A document offered to `DeliveryCoordinator::deliver` by a scan. -/
structure Offered where
  collection : String
  docId : String
  before : List LocalWrite
deriving DecidableEq

def Offered.key (o : Offered) : String := documentKey o.collection o.docId

/-! ### The node -/

/-- `InstalledBridgeLedger`; of the delivery journal, whether it was opened. -/
structure Installed where
  collections : List String
  exclusion : Option Worker
  delivery : Bool
deriving DecidableEq

/-- Both journals are healthy. -/
def Installed.healthy (i : Installed) : Bool := i.exclusion.isSome && i.delivery

structure SidecarNode where
  dir : LedgerDir
  installed : Option Installed
  calls : Multiset WriteCall
  scan : Option Scan
  store : Finset String
  -- history: the local writes after a healthy installation, and all offers
  writes : List LocalWrite
  offers : List Offered

namespace SidecarNode

def start (dir : LedgerDir) (store : Finset String) : SidecarNode where
  dir := dir
  installed := none
  calls := 0
  scan := none
  store := store
  writes := []
  offers := []

def worker (s : SidecarNode) : Option Worker := s.installed.bind Installed.exclusion

/-- The exclusion journal's, on disk. -/
def diskDir (s : SidecarNode) : LedgerDir := (s.worker.map (·.journal.dir)).getD s.dir

/-- `install_bridge_ledger`; the exclusion journal comes first. -/
def install (s : SidecarNode) (collections : List String) (fault : OpenFault) (delivery : Bool) :
    Option SidecarNode :=
  if s.installed = none ∧ collections.all validCollection then
    match openJournal .exclusion fault s.dir with
    | (dir, .ok j) =>
      some { s with dir := dir, installed := some ⟨collections, some (Worker.spawn j), delivery⟩ }
    | (dir, .error _) => some { s with dir := dir, installed := some ⟨collections, none, false⟩ }
  else none

def restart (s : SidecarNode) : SidecarNode :=
  { s with dir := s.diskDir, installed := none, calls := 0, scan := none }

def move (s : SidecarNode) (c : WriteCall) (pc : WritePc) : SidecarNode :=
  { s with calls := { c with pc := pc } ::ₘ s.calls.erase c }

def leave (s : SidecarNode) (c : WriteCall) : SidecarNode := { s with calls := s.calls.erase c }

def setWorker (s : SidecarNode) (i : Installed) (w : Worker) : SidecarNode :=
  { s with installed := some { i with exclusion := some w } }

/-- `io` is for the worker's turn. -/
def stepExclusion (s : SidecarNode) (c : WriteCall) (io : RecordIo) : Option SidecarNode :=
  match c.pc, s.installed with
  | .started, none => some (s.move c (.allowed false))
  | .started, some i =>
    if c.collection ∈ i.collections then
      some (if i.exclusion = none then s.leave c else s.move c .mapped)
    else some (s.move c (.allowed false))
  | .mapped, some i =>
    i.exclusion.map fun w => if w.healthy then s.move c .queued else s.leave c
  | .queued, some i =>
    i.exclusion.map fun w =>
      match w.serveRecord c.digest .localExcluded io with
      | (w', .ok _) => (s.setWorker i w').move c (.allowed true)
      | (w', .error _) => (s.setWorker i w').leave c
  | _, _ => none

/-- It may fail; `CreateOnly` fails on an existing key. -/
def stepStore (s : SidecarNode) (c : WriteCall) (written : Bool) : Option SidecarNode :=
  match c.pc with
  | .allowed excluded =>
    if !written then some (s.leave c)
    else if c.kind = .createBridgeDocument ∧ c.key ∈ s.store then none
    else some { s.leave c with
      store := if c.kind = .deleteDocument then s.store.erase c.key else insert c.key s.store,
      writes := if s.installed.any Installed.healthy then
          ⟨c.collection, c.docId, excluded⟩ :: s.writes
        else s.writes }
  | _ => none

/-! ### Scans -/

/-- The scan goes on, if it waits for the answer. -/
def resume (s : SidecarNode) (scan : Scan) (a : ScanAnswer) : Option SidecarNode :=
  (scan.pc.answer a).map fun r => { s with scan := some { scan with pc := r.1, stage := .called } }

/-- `contains`, as the scan sees it. -/
def lookup (s : SidecarNode) (c : Candidate) : Option Bool :=
  s.worker.bind fun w => (contains w (documentDigest c.collection c.docId)).toOption

inductive ScanEvent
  | check (closed deliveryHealthy : Bool) (status : BridgeStatus)
  | keys (result : Option (List String))
  | excluded
  | suppressed (result : Option Bool)
  | delayed
  | call
  | hydrate (result : Option Bool)
  | recheck
  | deliver
deriving DecidableEq

def stepScan (s : SidecarNode) (scan : Scan) : ScanEvent → Option SidecarNode
  | .check closed deliveryHealthy status =>
    (scan.pc.check (canScan closed (s.worker.any (·.healthy)) deliveryHealthy status)).map
      fun pc => { s with scan := some { scan with pc := pc, stage := .called } }
  | .keys result =>
    if ∀ key ∈ result.getD [], key ∈ s.store then s.resume scan (.keys result) else none
  | .excluded =>
    match scan.pc with
    | .exclusion c => s.resume scan (.excluded (s.lookup c))
    | _ => none
  | .suppressed result => s.resume scan (.suppressed result)
  | .delayed => s.resume scan .delayed
  | .call => s.resume scan .call
  | .hydrate result =>
    match scan.pc, scan.stage, result with
    | .candidate _, .called, none => s.resume scan (.candidate (.error .read))
    | .candidate _, .called, some false => s.resume scan (.candidate (.ok .missing))
    | .candidate c, .called, some true =>
      if documentKey c.collection c.docId ∈ s.store then
        some { s with scan := some { scan with stage := .hydrated } }
      else none
    | _, _, _ => none
  | .recheck =>
    match scan.pc, scan.stage with
    | .candidate c, .hydrated =>
      match s.lookup c with
      | none => s.resume scan (.candidate (.error .exclusion))
      | some true => s.resume scan (.candidate (.ok .localExcluded))
      | some false => some { s with scan := some { scan with stage := .passed } }
    | _, _ => none
  | .deliver =>
    match scan.pc, scan.stage with
    | .candidate c, .passed =>
      SidecarNode.resume { s with offers := ⟨c.collection, c.docId, scan.before⟩ :: s.offers }
        scan (.candidate (.ok .offered))
    | _, _ => none

/-- A scan starts with both journals installed. -/
def startScan (s : SidecarNode) : Option SidecarNode :=
  match s.installed, s.scan with
  | some i, none =>
    if i.healthy then
      some { s with scan := some ⟨ScanPc.nextMapping i.collections, .called, s.writes⟩ }
    else none
  | _, _ => none

/-! ### Steps -/

inductive Label
  | install (collections : List String) (fault : OpenFault) (delivery : Bool)
  | restart
  | begin (kind : WriteKind) (collection docId : String)
  | exclude (c : WriteCall) (io : RecordIo)
  | store (c : WriteCall) (written : Bool)
  | abandon (c : WriteCall)
  | remote (key : String) (present : Bool)
  | startScan
  | scan (event : ScanEvent)
  | endScan

def step (s : SidecarNode) : Label → Option SidecarNode
  | .install collections fault delivery => s.install collections fault delivery
  | .restart => some s.restart
  | .begin kind collection docId =>
    some { s with calls := ⟨kind, collection, docId, .started⟩ ::ₘ s.calls }
  | .exclude c io => if c ∈ s.calls then s.stepExclusion c io else none
  | .store c written => if c ∈ s.calls then s.stepStore c written else none
  | .abandon c => if c ∈ s.calls then some (s.leave c) else none
  | .remote key present =>
    some { s with store := if present then insert key s.store else s.store.erase key }
  | .startScan => s.startScan
  | .scan event => s.scan.bind fun scan => s.stepScan scan event
  | .endScan => if s.scan.any (·.pc = .done) then some { s with scan := none } else none

end SidecarNode
end PeatNode.Node
