/-
# One reconciliation scan

`scan_once` of `src/nats_bridge/reconcile.rs` as a program with one state for every point at which
it waits: for `can_scan` (`ScanPc.check`), the key listing, the two journal lookups, the delay and
`deliver_candidate` (`ScanPc.answer`, which also says which counter and which health flag the answer
touches).  The two inner loops are one loop over the keys here.
-/

import PeatNode.Bridge.Readiness

namespace PeatNode.Reconcile

open Bridge String

/-! ### Keys -/

/-- The store key of a document. -/
def documentKey (collection docId : String) : String := collection ++ ":" ++ docId

def stripPrefix (lead s : String) : Option String :=
  (s.toList.dropPrefix? lead.toList).map String.ofList

/-- What is left after an initial part completes it. -/
theorem stripPrefix_eq_some_iff : stripPrefix lead s = some rest ↔ s = lead ++ rest := by
  simp only [stripPrefix, Option.map_eq_some_iff, List.dropPrefix?_eq_some_iff, beq_iff_eq]
  constructor
  · rintro ⟨cs, ⟨_, hs, rfl⟩, rfl⟩
    rw [← toList_inj, toList_append, toList_ofList]
    exact hs
  · rintro rfl
    exact ⟨rest.toList, ⟨lead.toList, toList_append, rfl⟩, ofList_toList⟩

/-- The id read off a key. -/
def docIdOf (collection key : String) : Option String := stripPrefix (collection ++ ":") key

/-- **The scan inverts the key**: it reads an id off a key exactly when the
collection and the id make that key. -/
theorem docIdOf_eq_some_iff :
    docIdOf collection key = some docId ↔ key = documentKey collection docId :=
  stripPrefix_eq_some_iff

theorem documentKey_injective (collection : String) :
    Function.Injective (documentKey collection) := by
  intro d d' h
  have hd := docIdOf_eq_some_iff.2 (rfl : documentKey collection d = documentKey collection d)
  rw [docIdOf_eq_some_iff.2 h] at hd
  exact (Option.some.inj hd).symm

/-! ### The scan -/

inductive CandidateOutcome
  | missing
  | localExcluded
  | offered
deriving DecidableEq

inductive CandidateError
  | read
  | exclusion
deriving DecidableEq

/-- A key under examination, with the work left after it. -/
structure Candidate where
  collection : String
  docId : String
  keys : List String
  mappings : List String
deriving DecidableEq

/-- Where `scan_once` stands.  `mappings` are the collections still to scan. -/
inductive ScanPc
  | mapping (collection : String) (mappings : List String)
  | listing (collection : String) (mappings : List String)
  | key (collection key : String) (keys mappings : List String)
  | exclusion (c : Candidate)
  | suppression (c : Candidate)
  | delay (c : Candidate)
  | hydration (c : Candidate)
  | cleared (c : Candidate)
  | candidate (c : Candidate)
  | done
deriving DecidableEq

/-- What the scan waits for, other than `can_scan`; a failed call is `none`. -/
inductive ScanAnswer
  | keys (result : Option (List String))
  | excluded (result : Option Bool)
  | suppressed (result : Option Bool)
  | delayed
  | call
  | candidate (result : Except CandidateError CandidateOutcome)
deriving DecidableEq

/-- What an answer counts, and which journal it reports as unhealthy. -/
inductive ScanEffect
  | nothing
  | suppressed
  | hydrated
  | failure
  | exclusionFailure
  | deliveryFailure
deriving DecidableEq

def canScan (closed exclusionHealthy deliveryHealthy : Bool) (status : BridgeStatus) : Bool :=
  !closed && exclusionHealthy && deliveryHealthy && status.isReady

namespace ScanPc

def nextMapping : List String → ScanPc
  | [] => .done
  | m :: ms => .mapping m ms

def nextKey (collection : String) (mappings : List String) : List String → ScanPc
  | [] => nextMapping mappings
  | k :: ks => .key collection k ks mappings

/-- `continue` in the loop over the keys. -/
def next (c : Candidate) : ScanPc := nextKey c.collection c.mappings c.keys

/-- `none` where the scan does not ask. -/
def check : ScanPc → Bool → Option ScanPc
  | .mapping m ms, ok => some (if ok then .listing m ms else .done)
  | .key m k ks ms, ok =>
    some <| if ok then
      match docIdOf m k with
      | none => nextKey m ms ks
      | some docId => .exclusion ⟨m, docId, ks, ms⟩
    else .done
  | .hydration c, ok => some (if ok then .cleared c else .done)
  | _, _ => none

/-- Go on with any other answer. -/
def answer : ScanPc → ScanAnswer → Option (ScanPc × ScanEffect)
  | .listing m ms, .keys (some ks) => some (nextKey m ms ks, .nothing)
  | .listing _ _, .keys none => some (.done, .failure)
  | .exclusion c, .excluded (some true) => some (next c, .suppressed)
  | .exclusion c, .excluded (some false) => some (.suppression c, .nothing)
  | .exclusion _, .excluded none => some (.done, .exclusionFailure)
  | .suppression c, .suppressed (some true) => some (next c, .suppressed)
  | .suppression c, .suppressed (some false) => some (.delay c, .nothing)
  | .suppression _, .suppressed none => some (.done, .deliveryFailure)
  | .delay c, .delayed => some (.hydration c, .nothing)
  | .cleared c, .call => some (.candidate c, .nothing)
  | .candidate c, .candidate (.ok .missing) => some (next c, .nothing)
  | .candidate c, .candidate (.ok .localExcluded) => some (next c, .suppressed)
  | .candidate c, .candidate (.ok .offered) => some (next c, .hydrated)
  | .candidate c, .candidate (.error .read) => some (next c, .failure)
  | .candidate _, .candidate (.error .exclusion) => some (.done, .exclusionFailure)
  | _, _ => none

/-! ### The scan stays within its mappings -/

/-- The collections left are among `cs`. -/
def Within (cs : List String) : ScanPc → Prop
  | .mapping m ms | .listing m ms | .key m _ _ ms => m ∈ cs ∧ ms ⊆ cs
  | .exclusion c | .suppression c | .delay c | .hydration c | .cleared c | .candidate c =>
    c.collection ∈ cs ∧ c.mappings ⊆ cs
  | .done => True

variable {cs : List String} {pc pc' : ScanPc}

theorem within_nextMapping (h : mappings ⊆ cs) : (nextMapping mappings).Within cs := by
  cases mappings with
  | nil => trivial
  | cons m ms => exact List.cons_subset.1 h

theorem within_nextKey (hc : collection ∈ cs) (h : mappings ⊆ cs) (keys : List String) :
    (nextKey collection mappings keys).Within cs := by
  cases keys with
  | nil => exact within_nextMapping h
  | cons k ks => exact ⟨hc, h⟩

theorem Within.check (h : pc.Within cs) (hs : pc.check ok = some pc') : pc'.Within cs := by
  unfold ScanPc.check at hs
  split at hs
  · cases hs
    split_ifs
    · exact h
    · trivial
  · cases hs
    split_ifs
    · split
      · exact within_nextKey h.1 h.2 _
      · exact h
    · trivial
  · cases hs
    split_ifs
    · exact h
    · trivial
  · simp at hs

theorem Within.answer (h : pc.Within cs) (hs : pc.answer a = some r) : r.1.Within cs := by
  unfold ScanPc.answer at hs
  split at hs <;> cases hs
  all_goals first | exact within_nextKey h.1 h.2 _ | exact h | trivial

end ScanPc
end PeatNode.Reconcile
