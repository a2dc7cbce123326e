/-
# Classification of bridge events

`EgressClassifier::classify` of `src/nats_bridge/egress.rs`: a remote change becomes a publish
request if its body is a bridge envelope of this version, its collection is mapped, the envelope
names the subject of that mapping, it comes from another node and its payload is not too large.

`serde_json::from_str::<BridgeEnvelope>` is a parameter (`parse`).  An `Offer` is the request
together with the document it was made from.
-/

import PeatNode.Ledger.Format

namespace PeatNode.Egress

open Ledger

/-- `BridgeChangeEvent` of `src/node.rs`. -/
structure BridgeChangeEvent where
  collection : String
  docId : String
  remotePeerId : String
  jsonData : String
deriving DecidableEq

/-- `BridgeEnvelope` of `src/nats_bridge/envelope.rs`. -/
structure BridgeEnvelope where
  kind : String
  version : ℕ
  subject : String
  sourceNodeId : String
  payload : String
deriving DecidableEq

def bridgeEnvelopeKind : String := "peat.nats-bridge"

def bridgeEnvelopeVersion : ℕ := 1

def maxIngressPayloadBytes : ℕ := 1048576

inductive EgressSkipKind
  | malformedEnvelope
  | unsupportedKind
  | unsupportedVersion
  | unmappedCollection
  | routeMismatch
  | returnedLocal
  | oversizedPayload
  | duplicate
deriving DecidableEq

/-- `SubjectMapping` of `src/nats_bridge/config.rs`. -/
structure SubjectMapping where
  subject : String
  collection : String
deriving DecidableEq

structure EgressItem where
  digest : LedgerDigest
  subject : String
  payload : String
  routeIndex : ℕ
deriving DecidableEq

/-- `EgressClassifier`; the last mapping of a collection decides, as in its two hash maps. -/
structure EgressClassifier where
  mappings : List SubjectMapping
  localNodeId : String
deriving DecidableEq

namespace EgressClassifier

/-- A collection's entry in `routes`. -/
def route (k : EgressClassifier) (collection : String) : Option (SubjectMapping × ℕ) :=
  k.mappings.zipIdx.reverse.find? fun m => m.1.collection = collection

def classify (k : EgressClassifier) (parse : String → Option BridgeEnvelope)
    (event : BridgeChangeEvent) : Except EgressSkipKind EgressItem :=
  match parse event.jsonData with
  | none => .error .malformedEnvelope
  | some envelope =>
    if envelope.kind ≠ bridgeEnvelopeKind then .error .unsupportedKind
    else if envelope.version ≠ bridgeEnvelopeVersion then .error .unsupportedVersion
    else match k.route event.collection with
      | none => .error .unmappedCollection
      | some (mapping, index) =>
        if envelope.subject ≠ mapping.subject then .error .routeMismatch
        else if envelope.sourceNodeId = k.localNodeId then .error .returnedLocal
        else if maxIngressPayloadBytes < envelope.payload.utf8ByteSize then
          .error .oversizedPayload
        else .ok ⟨documentDigest event.collection event.docId, mapping.subject,
          envelope.payload, index⟩

/-- An item is made for the document of its event. -/
theorem digest_of_classify {k : EgressClassifier} (h : k.classify parse event = .ok item) :
    item.digest = documentDigest event.collection event.docId := by
  unfold classify at h
  repeat' split at h
  all_goals cases h
  rfl

theorem sourceNodeId_ne_of_classify {k : EgressClassifier}
    {parse : String → Option BridgeEnvelope} (h : k.classify parse event = .ok item)
    (hparse : parse event.jsonData = some e) : e.sourceNodeId ≠ k.localNodeId := by
  intro hsource
  simp only [classify, hparse, hsource, if_true] at h
  repeat' split at h
  all_goals cases h

end EgressClassifier

/-- A request and the document it was made from. -/
structure Offer where
  collection : String
  docId : String
  item : EgressItem
  digest_eq : item.digest = documentDigest collection docId
deriving DecidableEq

def offer (k : EgressClassifier) (parse : String → Option BridgeEnvelope)
    (event : BridgeChangeEvent) : Option Offer :=
  match h : k.classify parse event with
  | .ok item => some ⟨event.collection, event.docId, item, EgressClassifier.digest_of_classify h⟩
  | .error _ => none

end PeatNode.Egress
