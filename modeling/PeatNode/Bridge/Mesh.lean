/-
# Bridges around a mesh

Several nodes with the same mappings, each with a connection to a broker, and the mesh that
carries their documents.  A message of a broker becomes a document at the nodes attached to it,
which reaches the other nodes, and each publishes it once on its own broker with its node id in
the origin header.

Messages and documents arrive in any order or not at all. A broker may hand a message back to the
connection it came from: the origin header alone keeps it out.  The header names one node, so a
second bridge on the same broker takes the publications of the first for messages of an
application.
-/

import PeatNode.Ingress.Readers
import PeatNode.Lib.Lists

namespace PeatNode.Bridge

open Egress Ingress List EgressClassifier BridgeEnvelope List.Subset Lts
open Ledger (LedgerDigest asBytes documentDigest)

/-- Nodes of one mesh with the same mappings, and the broker of each. -/
structure BridgedMesh (N B : Type) where
  nodeId : N → String
  nodeId_injective : Function.Injective nodeId
  broker : N → B
  mappings : List SubjectMapping
  subjects_nodup : (mappings.map (·.subject)).Nodup
  collections_nodup : (mappings.map (·.collection)).Nodup
  range : NumberRange

/-- A message on a broker, with the node that published it and its document; an application has
neither. -/
structure Publication (N B : Type) where
  broker : B
  publisher : Option (N × ℕ)
  message : Message
deriving DecidableEq

/-- A document, with the node that created it and the message it was made of. -/
structure MeshDocument (N : Type) where
  creator : N
  message : ℕ
  collection : String
  docId : String
  envelope : BridgeEnvelope
deriving DecidableEq

/-- All messages and documents so far, in order; the messages handed to the connection of a node,
the documents it received from a peer, and the digests in its delivery ledger. -/
structure MeshState (N B : Type) where
  messages : List (Publication N B)
  taken : List (N × ℕ)
  documents : List (MeshDocument N)
  received : List (N × ℕ)
  reserved : List (N × LedgerDigest)

namespace MeshState

variable {N B : Type}

def start : MeshState N B := ⟨[], [], [], [], []⟩

def Has (s : MeshState N B) (i : N) (d : ℕ) : Prop :=
  (∃ doc ∈ s.documents[d]?, doc.creator = i) ∨ (i, d) ∈ s.received

instance [DecidableEq N] (s : MeshState N B) (i : N) (d : ℕ) : Decidable (s.Has i d) :=
  inferInstanceAs (Decidable (_ ∨ _))

/-- The bridges' publications: node and document. -/
def bridgePublications (s : MeshState N B) : List (N × ℕ) := s.messages.filterMap (·.publisher)

def applicationMessages (s : MeshState N B) : Finset ℕ :=
  (Finset.range s.messages.length).filter fun k => ∃ pub ∈ s.messages[k]?, pub.publisher.isNone

def documentsOf [DecidableEq N] (s : MeshState N B) (i : N) (k : ℕ) : ℕ :=
  s.documents.countP fun doc => doc.creator = i ∧ doc.message = k

end MeshState

namespace BridgedMesh

variable {N B : Type}

/-- The collection and envelope of its document. -/
def ingest (net : BridgedMesh N B) (i : N) (m : Message) : Option (String × BridgeEnvelope) :=
  match net.mappings.find? (·.subject = m.subject) with
  | none => none
  | some mapping =>
    if hasExactOwnOrigin m (net.nodeId i) then none
    else if isPayloadOversized m.payload.length then none
    else
      match BridgeEnvelope.fromPayload net.range m.subject (net.nodeId i) m.payload with
      | .error _ => none
      | .ok envelope => some (mapping.collection, envelope)

def classifier (net : BridgedMesh N B) (i : N) : EgressClassifier := ⟨net.mappings, net.nodeId i⟩

/-- What a node publishes for an item. -/
def wireMessage (net : BridgedMesh N B) (i : N) (item : EgressItem) : Message :=
  ⟨item.subject, [net.nodeId i], asBytes item.payload⟩

inductive Label (N B : Type)
  | publish (b : B) (m : Message)
  | take (i : N) (k : ℕ) (docId : String) (stored : Bool)
  | sync (i j : N) (d : ℕ)
  | egress (i : N) (d : ℕ) (peerId json : String) (sent : Bool)

section Steps

variable [DecidableEq N] [DecidableEq B]

def step (net : BridgedMesh N B) (s : MeshState N B) : Label N B → Option (MeshState N B)
  | .publish b m => some { s with messages := s.messages ++ [⟨b, none, m⟩] }
  | .take i k docId stored =>
    match s.messages[k]? with
    | none => none
    | some pub =>
      if pub.broker = net.broker i ∧ (i, k) ∉ s.taken then
        match net.ingest i pub.message, stored with
        | some (collection, envelope), true =>
          if ∀ doc ∈ s.documents, (doc.collection, doc.docId) ≠ (collection, docId) then
            some { s with
              taken := (i, k) :: s.taken
              documents := s.documents ++ [⟨i, k, collection, docId, envelope⟩] }
          else none
        | _, _ => some { s with taken := (i, k) :: s.taken }
      else none
  | .sync i j d =>
    if i ≠ j ∧ s.Has i d then some { s with received := (j, d) :: s.received } else none
  | .egress i d peerId json sent =>
    match s.documents[d]? with
    | none => none
    | some doc =>
      if (i, d) ∈ s.received ∧ BridgeEnvelope.fromStr json = some doc.envelope then
        match (net.classifier i).classify BridgeEnvelope.fromStr
          ⟨doc.collection, doc.docId, peerId, json⟩ with
        | .error _ => some s
        | .ok item =>
          if (i, item.digest) ∈ s.reserved then some s
          else if sent then
            some { s with
              reserved := (i, item.digest) :: s.reserved
              messages := s.messages ++ [⟨net.broker i, some (i, d), net.wireMessage i item⟩] }
          else some { s with reserved := (i, item.digest) :: s.reserved }
      else none

/-! ### What a step can do -/

inductive Turn (net : BridgedMesh N B) (s : MeshState N B) : Label N B → MeshState N B → Prop
  | publish :
      Turn net s (.publish b m) { s with messages := s.messages ++ [⟨b, none, m⟩] }
  | create {i : N} {k : ℕ} {docId collection : String} {pub : Publication N B}
      {envelope : BridgeEnvelope} (hpub : s.messages[k]? = some pub)
      (hbroker : pub.broker = net.broker i) (hnew : (i, k) ∉ s.taken)
      (hingest : net.ingest i pub.message = some (collection, envelope)) :
      Turn net s (.take i k docId true) { s with
        taken := (i, k) :: s.taken
        documents := s.documents ++ [⟨i, k, collection, docId, envelope⟩] }
  | drop :
      Turn net s (.take i k docId stored) { s with taken := (i, k) :: s.taken }
  | sync :
      Turn net s (.sync i j d) { s with received := (j, d) :: s.received }
  | skip :
      Turn net s (.egress i d peerId json sent) s
  | send {i : N} {d : ℕ} {peerId json : String} {doc : MeshDocument N} {item : EgressItem}
      (hdoc : s.documents[d]? = some doc) (hother : doc.envelope.sourceNodeId ≠ net.nodeId i)
      (hdigest : item.digest = documentDigest doc.collection doc.docId)
      (hnew : (i, item.digest) ∉ s.reserved) :
      Turn net s (.egress i d peerId json true) { s with
        reserved := (i, item.digest) :: s.reserved
        messages := s.messages ++ [⟨net.broker i, some (i, d), net.wireMessage i item⟩] }
  | fail :
      Turn net s (.egress i d peerId json sent) { s with reserved := (i, digest) :: s.reserved }

variable {net : BridgedMesh N B} {s s' : MeshState N B} {label : Label N B}

theorem Turn.of_step (h : net.step s label = some s') : Turn net s label s' := by
  cases label with
  | publish | take | sync => grind [Turn, step]
  | egress i d peerId json sent =>
    rw [step] at h
    split at h
    · cases h
    · rename_i doc hdoc
      rw [Option.ite_none_right_eq_some] at h
      obtain ⟨⟨-, hjson⟩, h⟩ := h
      split at h
      · cases h
        exact .skip
      · rename_i item hitem
        have hother := sourceNodeId_ne_of_classify hitem hjson
        have hdigest := digest_of_classify hitem
        split_ifs at h with hdup hsent
        · cases h
          exact .skip
        · cases h
          subst hsent
          exact .send hdoc hother hdigest hdup
        · cases h
          exact .fail

end Steps

variable {net : BridgedMesh N B} {s s' : MeshState N B}

theorem ingest_own (h : m.origins = [net.nodeId i]) : net.ingest i m = none := by
  have hown : hasExactOwnOrigin m (net.nodeId i) = true := by simp [hasExactOwnOrigin, h]
  unfold ingest
  split
  · rfl
  · rw [if_pos hown]

theorem sourceNodeId_of_ingest (h : net.ingest i m = some (collection, e)) :
    e.sourceNodeId = net.nodeId i := by
  unfold ingest at h
  split at h
  · cases h
  · split_ifs at h
    split at h
    · cases h
    · rename_i hpayload
      obtain ⟨-, rfl⟩ := Prod.mk.inj (Option.some.inj h)
      exact (fromPayload_spec hpayload).2.2.2.1

/-! ### Where documents and publications come from -/

/-- A document is made by a node of the broker of its message. -/
structure Made (net : BridgedMesh N B) (s : MeshState N B) (doc : MeshDocument N) : Prop where
  taken : (doc.creator, doc.message) ∈ s.taken
  source : doc.envelope.sourceNodeId = net.nodeId doc.creator
  message : ∃ pub, s.messages[doc.message]? = some pub ∧ pub.broker = net.broker doc.creator

/-- A bridge publishes on its own broker, under its own id, a document of another node that its
ledger has. -/
structure Sent (net : BridgedMesh N B) (s : MeshState N B) (pub : Publication N B) (i : N) (d : ℕ) :
    Prop where
  broker : pub.broker = net.broker i
  origins : pub.message.origins = [net.nodeId i]
  document : ∃ doc, s.documents[d]? = some doc ∧ doc.creator ≠ i ∧
    (i, documentDigest doc.collection doc.docId) ∈ s.reserved

/-- Every document and every publication of a bridge has its origin, and is there once. -/
structure Traced (net : BridgedMesh N B) (s : MeshState N B) : Prop where
  made : ∀ doc ∈ s.documents, Made net s doc
  madeOnce : (s.documents.map fun doc => (doc.creator, doc.message)).Nodup
  sent : ∀ pub ∈ s.messages, ∀ i d, pub.publisher = some (i, d) → Sent net s pub i d
  sentOnce : s.bridgePublications.Nodup

/-- Nothing is taken back. -/
structure Extends (s s' : MeshState N B) : Prop where
  messages : s.messages <+: s'.messages
  documents : s.documents <+: s'.documents
  taken : s.taken ⊆ s'.taken
  reserved : s.reserved ⊆ s'.reserved

theorem Made.mono (hext : Extends s s') (h : Made net s doc) : Made net s' doc := by
  obtain ⟨pub, hpub, hbroker⟩ := h.message
  exact ⟨hext.taken h.taken, h.source, pub, hext.messages.getElem?_eq_some hpub, hbroker⟩

theorem Sent.mono (hext : Extends s s') (h : Sent net s pub i d) : Sent net s' pub i d := by
  obtain ⟨doc, hdoc, hother, hres⟩ := h.document
  exact ⟨h.broker, h.origins, doc, hext.documents.getElem?_eq_some hdoc, hother, hext.reserved hres⟩

theorem Traced.start : Traced net (.start : MeshState N B) := by
  constructor <;> simp [MeshState.start, MeshState.bridgePublications]

/-- No other node on its broker. -/
def Alone (net : BridgedMesh N B) (i : N) : Prop := ∀ j, net.broker j = net.broker i → j = i

/-- Alone on its broker, it stores applications' messages only. -/
def FromApplications (net : BridgedMesh N B) (s : MeshState N B) : Prop :=
  ∀ doc ∈ s.documents, net.Alone doc.creator →
    ∃ pub, s.messages[doc.message]? = some pub ∧ pub.publisher = none

/-- Every node publishes every document at most once. -/
theorem Traced.length_bridgePublications_le [Fintype N] [DecidableEq N] (ht : Traced net s) :
    s.bridgePublications.length ≤ Fintype.card N * s.documents.length := by
  have hsub : s.bridgePublications.toFinset ⊆
      (Finset.univ : Finset N) ×ˢ Finset.range s.documents.length := by
    rintro ⟨i, d⟩ hmem
    obtain ⟨pub, hpub, hid⟩ := List.mem_filterMap.1 (List.mem_toFinset.1 hmem)
    obtain ⟨doc, hdoc, -⟩ := (ht.sent pub hpub i d hid).document
    simp [(List.getElem?_eq_some_iff.1 hdoc).1]
  calc s.bridgePublications.length = s.bridgePublications.toFinset.card :=
        (List.toFinset_card_of_nodup ht.sentOnce).symm
    _ ≤ ((Finset.univ : Finset N) ×ˢ Finset.range s.documents.length).card :=
        Finset.card_le_card hsub
    _ = Fintype.card N * s.documents.length := by
        rw [Finset.card_product, Finset.card_univ, Finset.card_range]

theorem Traced.length_documents_le (hinj : Function.Injective net.broker) (ht : Traced net s)
    (hf : FromApplications net s) : s.documents.length ≤ s.applicationMessages.card := by
  have hsame : ∀ doc ∈ s.documents, ∀ doc' ∈ s.documents, doc.message = doc'.message →
      doc = doc' := by
    intro doc hdoc doc' hdoc' hmsg
    obtain ⟨pub, hpub, hbroker⟩ := (ht.made doc hdoc).message
    obtain ⟨pub', hpub', hbroker'⟩ := (ht.made doc' hdoc').message
    rw [hmsg] at hpub
    cases hpub.symm.trans hpub'
    have hcreator : doc.creator = doc'.creator := hinj (hbroker.symm.trans hbroker')
    exact inj_on_of_nodup_map ht.madeOnce hdoc hdoc' (by simp [hcreator, hmsg])
  have hnodup : (s.documents.map (·.message)).Nodup :=
    List.Nodup.map_on hsame (List.Nodup.of_map _ ht.madeOnce)
  have hsub : (s.documents.map (·.message)).toFinset ⊆ s.applicationMessages := by
    intro k hk
    obtain ⟨doc, hdoc, rfl⟩ := mem_map.1 (List.mem_toFinset.1 hk)
    obtain ⟨pub, hpub, happ⟩ := hf doc hdoc fun j hj => hinj hj
    simp only [MeshState.applicationMessages, Finset.mem_filter, Finset.mem_range]
    exact ⟨(List.getElem?_eq_some_iff.1 hpub).1, pub, hpub, by simp [happ]⟩
  calc s.documents.length = (s.documents.map (·.message)).length := (List.length_map _).symm
    _ = (s.documents.map (·.message)).toFinset.card := (List.toFinset_card_of_nodup hnodup).symm
    _ ≤ s.applicationMessages.card := Finset.card_le_card hsub

theorem Traced.documentsOf_le_one [DecidableEq N] (ht : Traced net s) (i : N) (k : ℕ) :
    s.documentsOf i k ≤ 1 := by
  have hcount := nodup_iff_count_le_one.1 ht.madeOnce (i, k)
  rw [count, countP_map] at hcount
  refine le_of_eq_of_le (countP_congr fun doc _ => ?_) hcount
  simp

/-! ### Runs of the mesh -/

variable [DecidableEq N] [DecidableEq B] {label : Label N B}

theorem Extends.of_step (h : net.step s label = some s') : Extends s s' := by
  cases Turn.of_step h with
  | publish => exact ⟨prefix_append _ _, prefix_rfl, refl _, refl _⟩
  | create =>
    exact ⟨prefix_rfl, prefix_append _ _, subset_cons_self _ _, refl _⟩
  | drop => exact ⟨prefix_rfl, prefix_rfl, subset_cons_self _ _, refl _⟩
  | sync | skip =>
    exact ⟨prefix_rfl, prefix_rfl, refl _, refl _⟩
  | send =>
    exact ⟨prefix_append _ _, prefix_rfl, refl _, subset_cons_self _ _⟩
  | fail => exact ⟨prefix_rfl, prefix_rfl, refl _, subset_cons_self _ _⟩

theorem Traced.step (ht : Traced net s) (h : net.step s label = some s') : Traced net s' := by
  have hext : Extends s s' := .of_step h
  have hmade : ∀ doc ∈ s.documents, Made net s' doc := fun doc hdoc => (ht.made doc hdoc).mono hext
  have hsent : ∀ pub ∈ s.messages, ∀ i d, pub.publisher = some (i, d) → Sent net s' pub i d :=
    fun pub hpub i d hid => (ht.sent pub hpub i d hid).mono hext
  cases Turn.of_step h with
  | publish =>
    refine ⟨hmade, ht.madeOnce, forall_mem_concat hsent nofun, ?_⟩
    · simpa [MeshState.bridgePublications] using ht.sentOnce
  | @create i k docId collection pub envelope hpub hbroker hnew hingest =>
    refine ⟨forall_mem_concat hmade ⟨mem_cons_self, sourceNodeId_of_ingest hingest, pub,
      hpub, hbroker⟩, ?_, hsent, ht.sentOnce⟩
    · -- every document was made of a message that its node has taken
      have hfresh : (i, k) ∉ s.documents.map fun doc => (doc.creator, doc.message) := by
        intro hmem
        obtain ⟨doc, hdoc, heq⟩ := mem_map.1 hmem
        have htaken := (ht.made doc hdoc).taken
        rw [heq] at htaken
        exact hnew htaken
      have hnodup := List.Nodup.concat hfresh ht.madeOnce
      rw [concat_eq_append] at hnodup
      rwa [map_append]
  | @send i d peerId json doc item hdoc hother hdigest hnew =>
    have hcreator : doc.creator ≠ i := by
      rintro rfl
      exact hother (ht.made doc (mem_of_getElem? hdoc)).source
    refine ⟨hmade, ht.madeOnce, fun pub hpub i' d' hid => ?_, ?_⟩
    · rcases mem_append.1 hpub with hpub | hpub
      · exact hsent pub hpub i' d' hid
      · obtain rfl := mem_singleton.1 hpub
        cases hid
        exact ⟨rfl, rfl, doc, hdoc, hcreator, by simp [hdigest]⟩
    · -- the ledger has the digest of everything that the node has published
      have hfresh : (i, d) ∉ s.bridgePublications := by
        intro hmem
        obtain ⟨pub, hpub, hid⟩ := mem_filterMap.1 hmem
        obtain ⟨doc', hdoc', -, hres⟩ := (ht.sent pub hpub i d hid).document
        cases hdoc.symm.trans hdoc'
        exact hnew (hdigest ▸ hres)
      have hnodup := List.Nodup.concat hfresh ht.sentOnce
      rw [concat_eq_append] at hnodup
      rwa [MeshState.bridgePublications, filterMap_append]
  | drop | sync | skip | fail => exact ⟨hmade, ht.madeOnce, hsent, ht.sentOnce⟩

/-- The publications of a bridge come back only to the other nodes of its broker. -/
theorem FromApplications.step (ht : Traced net s) (hf : FromApplications net s)
    (h : net.step s label = some s') : FromApplications net s' := by
  have hext : Extends s s' := .of_step h
  have hold : ∀ doc ∈ s.documents, net.Alone doc.creator →
      ∃ pub, s'.messages[doc.message]? = some pub ∧ pub.publisher = none := by
    intro doc hdoc halone
    obtain ⟨pub, hpub, happ⟩ := hf doc hdoc halone
    exact ⟨pub, hext.messages.getElem?_eq_some hpub, happ⟩
  cases Turn.of_step h with
  | @create i k docId collection pub envelope hpub hbroker hnew hingest =>
    intro doc hdoc halone
    rcases mem_append.1 hdoc with hdoc | hdoc
    · exact hold doc hdoc halone
    · obtain rfl := mem_singleton.1 hdoc
      refine ⟨pub, hpub, ?_⟩
      cases hid : pub.publisher with
      | none => rfl
      | some p =>
        obtain ⟨j, d⟩ := p
        have hsent := ht.sent pub (mem_of_getElem? hpub) j d hid
        obtain rfl : j = i := halone j (hsent.broker.symm.trans hbroker)
        simp [ingest_own hsent.origins] at hingest
  | publish | drop | sync | skip | send | fail => exact hold

/-- **Bridges with a broker each make no loop.** A message makes at most one document at every
node, and only at nodes of its broker. A node alone on its broker makes none of what a bridge has
published. Where every node is alone, the bridges publish at most once per node and message of an
application. -/
theorem loop_free [Fintype N] {labels : List (Label N B)}
    (hrun : Lts.exec net.step .start labels = some s) :
    (∀ i k, s.documentsOf i k ≤ 1) ∧
      (∀ doc ∈ s.documents, ∃ pub, s.messages[doc.message]? = some pub ∧
        pub.broker = net.broker doc.creator ∧ (net.Alone doc.creator → pub.publisher = none)) ∧
      (Function.Injective net.broker →
        s.bridgePublications.length ≤ Fintype.card N * s.applicationMessages.card) := by
  have hinv : Traced net s ∧ FromApplications net s :=
    exec_preserves (fun s => Traced net s ∧ FromApplications net s)
      (fun _ _ _ hi h => ⟨hi.1.step h, hi.2.step hi.1 h⟩)
      ⟨.start, by simp [FromApplications, MeshState.start]⟩ hrun
  obtain ⟨ht, hf⟩ := hinv
  refine ⟨ht.documentsOf_le_one, fun doc hdoc => ?_, fun hinj => ?_⟩
  · obtain ⟨pub, hpub, hbroker⟩ := (ht.made doc hdoc).message
    refine ⟨pub, hpub, hbroker, fun halone => ?_⟩
    obtain ⟨pub', hpub', happ⟩ := hf doc hdoc halone
    cases hpub.symm.trans hpub'
    exact happ
  · exact ht.length_bridgePublications_le.trans
      (Nat.mul_le_mul_left _ (ht.length_documents_le hinj hf))

/-! ### Two nodes -/

def twoNodes {B : Type} (broker : Bool → B) : BridgedMesh Bool B where
  nodeId i := if i then "edge-b" else "edge-a"
  nodeId_injective := by decide
  broker
  mappings := [⟨"telemetry", "telemetry"⟩]
  subjects_nodup := by decide
  collections_nodup := by decide
  range := ⟨fun _ => true, fun _ _ _ _ => rfl⟩

def nullMessage (origins : List String) : Message := ⟨"telemetry", origins, asBytes "null"⟩

def nullEnvelope (nodeId : String) : BridgeEnvelope :=
  ⟨bridgeEnvelopeKind, bridgeEnvelopeVersion, "telemetry", nodeId, "null"⟩

/-- A message of the first node's broker is bridged to that of the second. -/
def crossing {B : Type} (broker : Bool → B) : List (Label Bool B) :=
  [.publish (broker false) (nullMessage []), .take false 0 "d0" true, .sync false true 0,
    .egress true 0 "a" (nullEnvelope "edge-a").toJson true]

/-- Each node has a broker of its own. -/
theorem separate_brokers_loop_free :
    ∃ s ∈ Lts.exec (twoNodes id).step .start (crossing id), s.bridgePublications = [(true, 0)] ∧
      (∀ i k, s.documentsOf i k ≤ 1) ∧
      s.bridgePublications.length ≤ Fintype.card Bool * s.applicationMessages.card := by
  refine exists_mem_and (by decide +kernel) fun s hrun _ => ?_
  obtain ⟨honce, -, hbound⟩ := loop_free hrun
  exact ⟨honce, hbound Function.injective_id⟩

/-- On a shared broker the first node makes a document of what the second has published for a
document of the first. -/
theorem shared_broker_loops : ∃ s ∈ Lts.exec (twoNodes fun _ => ()).step .start
        (crossing (fun _ => ()) ++ [.take false 1 "d1" true]),
      ∃ doc ∈ s.documents, ∃ pub ∈ s.messages[doc.message]?, pub.publisher = some (true, 0) := by
  decide +kernel

end BridgedMesh

end PeatNode.Bridge
