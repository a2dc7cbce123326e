/-
# From the store to the event router

A remote change crosses two broadcast channels: the store's own one, read by
`forward_bridge_changes` (`src/node.rs`), and the bridge's change channel, read by
`run_bridge_event_router` (`src/nats_bridge/egress.rs`).  The router answers a lag with
`ReconcileTrigger::trigger`, the forwarder with a warning.  The capacity of the store's channel is
a parameter.
-/

import Mathlib.Data.List.TakeWhile
import PeatNode.Egress.Classify
import PeatNode.Lib.Broadcast
import PeatNode.Reconcile.Trigger

namespace PeatNode.Bridge

open Broadcast Egress Reconcile List

def bridgeChangeCapacity : ℕ := 256

def maxBridgeIdentityBytes : ℕ := 1024

def maxBridgeEventJsonBytes : ℕ := 2 * 1048576 + 4096

inductive ChangeOrigin
  | local
  | remote (peerId : String)
deriving DecidableEq

structure DocChange where
  key : String
  origin : ChangeOrigin
deriving DecidableEq

def DocChange.isRemote (c : DocChange) : Bool :=
  match c.origin with
  | .local => false
  | .remote _ => true

/-- `str::split_once(':')`. -/
def splitKey (key : String) : Option (String × String) :=
  match key.toList.dropWhile (· ≠ ':') with
  | [] => none
  | _ :: rest => some (String.ofList (key.toList.takeWhile (· ≠ ':')), String.ofList rest)

theorem splitKey_documentKey (h : ':' ∉ collection.toList) :
    splitKey (documentKey collection docId) = some (collection, docId) := by
  have hlist : (documentKey collection docId).toList = collection.toList ++ ':' :: docId.toList := by
    simp [documentKey]
  have hall : ∀ c ∈ collection.toList, decide (c ≠ ':') = true := by
    intro c hc
    rw [decide_eq_true_eq]
    rintro rfl
    exact h hc
  have hdrop : (documentKey collection docId).toList.dropWhile (· ≠ ':') = ':' :: docId.toList := by
    rw [hlist, dropWhile_append_of_pos hall]
    simp
  have htake : (documentKey collection docId).toList.takeWhile (· ≠ ':') = collection.toList := by
    rw [hlist, takeWhile_append_of_pos hall]
    simp
  simp only [splitKey, hdrop, htake, String.ofList_toList]

/-- A key is split at its first colon. -/
theorem splitKey_eq_some_iff :
    splitKey key = some (collection, docId) ↔
      ':' ∉ collection.toList ∧ key = documentKey collection docId := by
  constructor
  · intro h
    unfold splitKey at h
    split at h
    · cases h
    · next c rest hdrop =>
      cases h
      have hcolon : c = ':' := by
        have hhead := head?_dropWhile_not (· ≠ ':') key.toList
        rw [hdrop] at hhead
        simpa using hhead
      refine ⟨fun hmem => ?_, ?_⟩
      · rw [String.toList_ofList] at hmem
        simpa using mem_takeWhile_imp hmem
      · have hsplit : key.toList.takeWhile (· ≠ ':') ++ key.toList.dropWhile (· ≠ ':') = key.toList :=
          takeWhile_append_dropWhile
        rw [hdrop, hcolon] at hsplit
        rw [← String.toList_inj]
        exact hsplit.symm.trans (by simp [documentKey])
  · rintro ⟨hcolon, rfl⟩
    exact splitKey_documentKey hcolon

/-- `json` is the document as it is read and decrypted. -/
def bridgeEvent (key peerId : String) (json : Option String) : Option BridgeChangeEvent :=
  match splitKey key, json with
  | some (collection, docId), some json =>
    if collection.utf8ByteSize ≤ maxBridgeIdentityBytes ∧
        docId.utf8ByteSize ≤ maxBridgeIdentityBytes ∧
        peerId.utf8ByteSize ≤ maxBridgeIdentityBytes ∧
        json.utf8ByteSize ≤ maxBridgeEventJsonBytes then
      some ⟨collection, docId, peerId, json⟩
    else none
  | _, _ => none

inductive ForwarderPc
  | recv
  | hydrating (key peerId : String)
  | stopped
deriving DecidableEq

inductive RouterPc
  | recv
  | delivering (event : BridgeChangeEvent)
  | lagged (missed : ℕ)
  | stopped
deriving DecidableEq

structure ChangePath where
  status : BridgeStatus
  store : Channel DocChange
  forwarderNext : ℕ
  forwarder : ForwarderPc
  events : Channel BridgeChangeEvent
  routerNext : ℕ
  router : RouterPc
  -- history: the `trigger` calls; the lag reports of a ready bridge and the keys
  -- of the remote changes they dropped, since the last `trigger` call
  triggers : List ReconcileReason
  unanswered : ℕ
  owed : List String
deriving DecidableEq

namespace ChangePath

/-- A fresh node, over a channel of this capacity. -/
def start (status : BridgeStatus) (capacity : ℕ) : ChangePath where
  status := status
  store := .new capacity
  forwarderNext := 0
  forwarder := .recv
  events := .new bridgeChangeCapacity
  routerNext := 0
  router := .recv
  triggers := []
  unanswered := 0
  owed := []

def report (s : ChangePath) (keys : List String) : ChangePath :=
  if s.status.isReady then { s with unanswered := s.unanswered + 1, owed := keys ++ s.owed } else s

def trigger (s : ChangePath) (reason : ReconcileReason) : ChangePath :=
  { s with triggers := reason :: s.triggers, unanswered := 0, owed := [] }

/-- `none` where the forwarder waits. -/
def stepForwarder (s : ChangePath) (json : Option String) : Option ChangePath :=
  match s.forwarder with
  | .recv =>
    match s.store.recv s.forwarderNext with
    | (.wait, _) => none
    | (.message ⟨key, .remote peerId⟩, next) =>
      some { s with forwarderNext := next, forwarder := .hydrating key peerId }
    | (.message ⟨_, .local⟩, next) => some { s with forwarderNext := next }
    | (.lagged _, next) =>
      let dropped := (s.store.missed s.forwarderNext).filter DocChange.isRemote
      some { s.report (dropped.map DocChange.key) with forwarderNext := next }
    | (.closed, _) => some { s with forwarder := .stopped }
  | .hydrating key peerId =>
    match bridgeEvent key peerId json with
    | some event => some { s with forwarder := .recv, events := s.events.send event }
    | none => some { s with forwarder := .recv }
  | .stopped => none

/-- `none` where the router waits. -/
def stepRouter (s : ChangePath) : Option ChangePath :=
  match s.router with
  | .recv =>
    match s.events.recv s.routerNext with
    | (.wait, _) => none
    | (.message event, next) => some { s with routerNext := next, router := .delivering event }
    | (.lagged missed, next) =>
      let dropped := s.events.missed s.routerNext
      some { s.report (dropped.map fun e => documentKey e.collection e.docId) with
        routerNext := next, router := .lagged missed }
    | (.closed, _) => some { s with router := .stopped }
  | .delivering _ => some { s with router := .recv }
  | .lagged _ => some { s.trigger .eventLagged with router := .recv }
  | .stopped => none

inductive Label
  | setStatus (status : BridgeStatus)
  | notify (change : DocChange)
  | forwarder (json : Option String)
  | router
  | trigger (reason : ReconcileReason)

def step (s : ChangePath) : Label → Option ChangePath
  | .setStatus status => some { s with status := status }
  | .notify change => some { s with store := s.store.send change }
  | .forwarder json => s.stepForwarder json
  | .router => s.stepRouter
  | .trigger reason => some (s.trigger reason)

/-- Every lag of a ready bridge was followed by `trigger`. -/
def Recovered (s : ChangePath) : Prop := s.unanswered = 0 ∧ s.owed = []

/-- Not between a report and `trigger`. -/
def Settled (s : ChangePath) : Prop := ∀ missed, s.router ≠ .lagged missed

/-- Neither task moves before the store does. -/
def Quiescent (s : ChangePath) : Prop := s.stepRouter = none ∧ ∀ json, s.stepForwarder json = none

end ChangePath
end PeatNode.Bridge
