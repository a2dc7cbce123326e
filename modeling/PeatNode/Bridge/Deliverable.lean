/-
# Accepted payloads reach the peer's egress

A NATS payload that ingress accepts becomes an envelope, a JSON text and a document; a peer with
the same key reads that document through the size gates of `forward_bridge_changes` and
`get_bridge_document` and classifies the text.

Without encryption every gate is wide enough.  With encryption the text is stored as one Base64
string, and the limit on scalar bytes leaves no room for the third that Base64 adds to a text made
long by escaping.  `payload_delivered_iff` says which payloads get through.

The chain of gates is written twice in the source, with different error handling.
-/

import PeatNode.Node.BridgeDocument
import PeatNode.Node.ExclusionJournal

namespace PeatNode.Bridge

open Egress Json Node Reconcile List Nat BridgeEnvelope DocumentCodec
open Ledger (asBytes)
open String (utf8Len)

/-! ### Configuration -/

/-- What `BridgeConfig::from_raw` guarantees of the mappings it accepts. -/
structure AcceptedMappings (mappings : List SubjectMapping) : Prop where
  collections : (mappings.map (·.collection)).Nodup
  valid : ∀ m ∈ mappings, validCollection m.collection = true
  short : ∀ m ∈ mappings, m.collection.utf8ByteSize ≤ maxBridgeIdentityBytes

/-- A name of bounded size that is written into JSON as it is. -/
structure PlainName (s : String) : Prop where
  short : s.utf8ByteSize ≤ maxBridgeIdentityBytes
  literal : ∀ c ∈ s.toList, Literal c

variable {k : EgressClassifier}

theorem exists_route (h : AcceptedMappings k.mappings) (hm : m ∈ k.mappings) :
    ∃ index, k.route m.collection = some (m, index) := by
  obtain ⟨i, hi, rfl⟩ := mem_iff_getElem.1 hm
  have hfound : (k.route k.mappings[i].collection).isSome := by
    rw [EgressClassifier.route, find?_isSome]
    exact ⟨(k.mappings[i], i), by simp [mem_zipIdx_iff_getElem?], by simp⟩
  obtain ⟨⟨m', j⟩, hroute⟩ := Option.isSome_iff_exists.1 hfound
  have hmem := mem_of_find?_eq_some hroute
  have hsame : m'.collection = k.mappings[i].collection := by
    simpa using find?_some hroute
  rw [mem_reverse] at hmem
  have hmem' : m' ∈ k.mappings := fst_mem_of_mem_zipIdx hmem
  have heq : m' = k.mappings[i] := inj_on_of_nodup_map h.collections hmem' hm hsame
  exact ⟨j, heq ▸ hroute⟩

/-! ### What a stored text uses -/

variable {w : DocValue}

theorem usage_of_string (h : Represents (.string s) w) :
    w.usage.objects ≤ 1 ∧ w.usage.entries = 0 ∧ w.usage.bytes ≤ s.utf8ByteSize ∧
      w.usage.proxy ≤ s.utf8ByteSize * 6 + 2 ∧ w.Fits 0 := by
  rcases h with _ | _ | _ | _ | ⟨_, hpos, hle⟩
  · exact ⟨zero_le 1, rfl, le_refl _, le_refl _, trivial⟩
  · refine ⟨le_refl 1, rfl, ?_, ?_, by decide, trivial⟩
    · simpa [DocValue.usage, DocObject.inner, Usage.object, Usage.text] using hle
    · simp [DocValue.usage, DocObject.inner, Usage.object, Usage.text]
      omega

theorem bytes_of_ascii (h : Represents (.string s) w) (hascii : ∀ c ∈ s.toList, c.utf8Size = 1) :
    w.usage.bytes = s.utf8ByteSize := by
  have hsize := utf8ByteSize_of_ascii hascii
  rcases h with _ | _ | _ | _ | ⟨_, hpos, hle⟩
  · rfl
  · simp [DocValue.usage, DocObject.inner, Usage.object, Usage.text]
    omega

theorem usage_of_number (h : Represents (.number n) w) : w.usage = ⟨0, 0, 0, 32⟩ ∧ w.Fits 0 := by
  rcases h with _ | _ | @⟨_, v, hv⟩
  cases v <;> first | exact ⟨rfl, trivial⟩ | simp [ScalarValue.isNumber] at hv

theorem entriesUsage_perm (h : es.Perm es') : entriesUsage es = entriesUsage es' := by
  induction h with
  | nil => rfl
  | cons e _ ih => rw [entriesUsage, entriesUsage, ih]
  | swap e e' es =>
    simp only [entriesUsage]
    ext <;> simp <;> omega
  | trans _ _ ih ih' => exact ih.trans ih'

/-! ### Encrypted documents -/

/-- **The limit on scalar bytes is the limit on ciphertexts.** -/
theorem preflight_ciphertext_iff (h : Represents (.string ciphertext) w)
    (hascii : ∀ c ∈ ciphertext.toList, c.utf8Size = 1) :
    preflightEventDocument [("value", w)] = .ok () ↔
      ciphertext.utf8ByteSize ≤ maxEventScalarBytes := by
  obtain ⟨hobjects, hentries, -, hproxy, hfits⟩ := usage_of_string h
  have hbytes := bytes_of_ascii h hascii
  have hkey : "value".utf8ByteSize = 5 := by decide
  have hshape : (DocObject.map [("value", w)]).Fits 0 :=
    ⟨by simp [maxEventContainerEntries], hfits, trivial⟩
  rw [preflightEventDocument_eq_ok_iff, and_iff_left hshape]
  simp only [Usage.Within, entriesUsage, Usage.entry, Usage.objects_add, Usage.entries_add,
    Usage.bytes_add, Usage.proxy_add, Usage.objects_zero, Usage.entries_zero, Usage.bytes_zero,
    Usage.proxy_zero, hentries, hbytes, hkey]
  constructor
  · rintro ⟨-, -, hle, -⟩
    omega
  · intro hle
    simp only [maxEventScalarBytes, maxEventDocumentObjects, maxEventTotalEntries,
      maxEventOutputProxyBytes, maxBridgeEventJsonBytes] at hle ⊢
    omega

/-! ### Plain documents -/

/-- **An envelope of an accepted payload passes the preflight** if it is stored as
it is. -/
theorem preflight_envelope {e : BridgeEnvelope} (hkind : e.kind = bridgeEnvelopeKind)
    (hsubject : PlainName e.subject) (hsource : PlainName e.sourceNodeId)
    (hpayload : e.payload.utf8ByteSize ≤ maxIngressPayloadBytes)
    (h : Represents e.toValue (.object (.map doc))) : preflightEventDocument doc = .ok () := by
  rcases h with _ | _ | _ | _ | _ | _ | @⟨_, es, _, hms, hperm⟩
  rcases hms with _ | @⟨_, _, w₁, _, _, hw₁, hms⟩
  rcases hms with _ | @⟨_, _, w₂, _, _, hw₂, hms⟩
  rcases hms with _ | @⟨_, _, w₃, _, _, hw₃, hms⟩
  rcases hms with _ | @⟨_, _, w₄, _, _, hw₄, hms⟩
  rcases hms with _ | @⟨_, _, w₅, _, _, hw₅, hms⟩
  cases hms
  obtain ⟨ho₁, he₁, hb₁, hp₁, hf₁⟩ := usage_of_string hw₁
  obtain ⟨hu₂, hf₂⟩ := usage_of_number hw₂
  obtain ⟨ho₃, he₃, hb₃, hp₃, hf₃⟩ := usage_of_string hw₃
  obtain ⟨ho₄, he₄, hb₄, hp₄, hf₄⟩ := usage_of_string hw₄
  obtain ⟨ho₅, he₅, hb₅, hp₅, hf₅⟩ := usage_of_string hw₅
  have hsizes : "kind".utf8ByteSize = 4 ∧ "version".utf8ByteSize = 7 ∧ "subject".utf8ByteSize = 7 ∧
      "source_node_id".utf8ByteSize = 14 ∧ "payload".utf8ByteSize = 7 ∧
      bridgeEnvelopeKind.utf8ByteSize = 16 := by decide
  obtain ⟨hk₁, hk₂, hk₃, hk₄, hk₅, hk⟩ := hsizes
  have hsub := hsubject.short
  have hsrc := hsource.short
  rw [hkind, hk] at hb₁ hp₁
  simp only [maxBridgeIdentityBytes, maxIngressPayloadBytes] at hsub hsrc hpayload
  rw [preflightEventDocument_eq_ok_iff]
  constructor
  · rw [← entriesUsage_perm hperm]
    simp only [Usage.Within, entriesUsage, Usage.entry, Usage.objects_add, Usage.entries_add,
      Usage.bytes_add, Usage.proxy_add, Usage.objects_zero, Usage.entries_zero, Usage.bytes_zero,
      Usage.proxy_zero, hu₂, he₁, he₃, he₄, he₅, hk₁, hk₂, hk₃, hk₄, hk₅, maxEventScalarBytes,
      maxEventDocumentObjects, maxEventTotalEntries, maxEventOutputProxyBytes,
      maxBridgeEventJsonBytes]
    omega
  · refine ⟨by rw [← hperm.length_eq]; simp [maxEventContainerEntries], entriesFit_iff.2 ?_⟩
    intro entry hentry
    have hentry' := hperm.mem_iff.2 hentry
    simp only [mem_cons, not_mem_nil, or_false] at hentry'
    rcases hentry' with rfl | rfl | rfl | rfl | rfl <;> assumption

/-! ### The gates -/

/-- The text that a document is read as. -/
def readText (n : DocumentCodec) (doc : Document) : Option String :=
  let snapshot := n.conversion.automergeToJson doc
  match DocumentCodec.encryptedValue snapshot with
  | some encrypted => n.cipher.bind fun cipher => cipher.decrypt encrypted
  | none => some snapshot.toText

/-- The text both reads of the bridge give for a stored document: within the size and shape
limits, and not too long itself. -/
def boundedRead (n : DocumentCodec) (doc : Document) : Option String :=
  if n.saveNocompress doc ≤ maxBridgeAutomergeBytes ∧ preflightEventDocument doc = .ok () then
    (readText n doc).filter fun text => text.utf8ByteSize ≤ maxBridgeEventJsonBytes
  else none

variable {n : DocumentCodec}

theorem boundedRead_eq_some_iff :
    boundedRead n doc = some json ↔
      n.saveNocompress doc ≤ maxBridgeAutomergeBytes ∧ preflightEventDocument doc = .ok () ∧
        readText n doc = some json ∧ json.utf8ByteSize ≤ maxBridgeEventJsonBytes := by
  unfold boundedRead
  split_ifs with h
  · simp [h.1, h.2, Option.filter_eq_some_iff]
  · exact iff_of_false (by simp) fun hpass => h ⟨hpass.1, hpass.2.1⟩

/-- **The live path emits the bounded read.** -/
theorem forwardBridgeChange_eq_some_iff {read : Except Unit (Option Document)} :
    n.forwardBridgeChange key peerId read = .ok (some event) ↔
      splitKey key = some (event.collection, event.docId) ∧ event.remotePeerId = peerId ∧
        (event.collection.utf8ByteSize ≤ maxBridgeIdentityBytes ∧
          event.docId.utf8ByteSize ≤ maxBridgeIdentityBytes ∧
          peerId.utf8ByteSize ≤ maxBridgeIdentityBytes) ∧
        ∃ doc, read = .ok (some doc) ∧ boundedRead n doc = some event.jsonData := by
  simp only [boundedRead_eq_some_iff, readText]
  unfold forwardBridgeChange
  constructor
  · -- every gate but the last way out is a rejection
    intro h
    split at h
    · cases h
    rename_i collection docId hkey
    split_ifs at h with hsize
    split at h
    · cases h
    · cases h
    rename_i doc
    split_ifs at h with hsaved
    split at h
    · cases h
    rename_i hpre
    simp only at h
    split at h
    · cases h
    rename_i json hjson
    split_ifs at h with hlong
    cases Except.ok.inj h
    have hsmall : collection.utf8ByteSize ≤ maxBridgeIdentityBytes ∧
        docId.utf8ByteSize ≤ maxBridgeIdentityBytes ∧
        peerId.utf8ByteSize ≤ maxBridgeIdentityBytes := by omega
    refine ⟨hkey, rfl, hsmall, doc, rfl, not_lt.1 hsaved, hpre, ?_, not_lt.1 hlong⟩
    cases hvalue : encryptedValue (n.conversion.automergeToJson doc) with
    | none => simpa [hvalue] using hjson
    | some encrypted =>
      cases hcipher : n.cipher with
      | none => simp [hvalue, hcipher] at hjson
      | some cipher => cases hdec : cipher.decrypt encrypted <;> simp_all
  · rintro ⟨hkey, rfl, ⟨hcollection, hdocId, hpeer⟩, doc, rfl, hsaved, hpre, htext, hlong⟩
    simp only [hkey, not_lt.2 hcollection, not_lt.2 hdocId, not_lt.2 hpeer,
      not_lt.2 hsaved, hpre, or_self, if_false]
    cases hvalue : encryptedValue (n.conversion.automergeToJson doc) with
    | none =>
      simp only [hvalue] at htext
      simp only [Option.some.inj htext, not_lt.2 hlong, if_false]
    | some encrypted =>
      simp only [hvalue] at htext
      obtain ⟨cipher, hcipher, hdecrypt⟩ := Option.bind_eq_some_iff.1 htext
      simp only [hcipher, hdecrypt, not_lt.2 hlong, if_false]

/-- **The reconciliation path returns the bounded read.** -/
theorem getBridgeDocument_eq_some_iff {read : Except Unit (Option Document)} :
    n.getBridgeDocument collection docId read = .ok (some json) ↔
      (collection.utf8ByteSize ≤ maxBridgeIdentityBytes ∧
          docId.utf8ByteSize ≤ maxBridgeIdentityBytes) ∧
        ∃ doc, read = .ok (some doc) ∧ boundedRead n doc = some json := by
  simp only [boundedRead_eq_some_iff, readText]
  unfold getBridgeDocument
  by_cases hsize : maxBridgeIdentityBytes < collection.utf8ByteSize ∨
      maxBridgeIdentityBytes < docId.utf8ByteSize
  · rw [if_pos hsize]
    exact iff_of_false (by simp) fun h => by omega
  · rw [if_neg hsize]
    have hsmall : collection.utf8ByteSize ≤ maxBridgeIdentityBytes ∧
      docId.utf8ByteSize ≤ maxBridgeIdentityBytes := by omega
    rcases read with _ | _ | doc
    · simp
    · simp
    · by_cases hsaved : maxBridgeAutomergeBytes < n.saveNocompress doc
      · simp [hsaved]
      · cases hpre : preflightEventDocument doc with
        | error kind => simp [hsaved, hpre]
        | ok u =>
          cases hvalue : encryptedValue (n.conversion.automergeToJson doc) with
          | none => simp [hsaved, hpre, hvalue, hsmall, not_lt.1 hsaved, Option.filter_eq_some_iff]
          | some encrypted =>
            cases hcipher : n.cipher with
            | none => simp [hsaved, hpre, hvalue]
            | some cipher =>
              cases hdec : cipher.decrypt encrypted <;>
                simp [hsaved, hpre, hvalue, hdec, hsmall, not_lt.1 hsaved,
                  Option.filter_eq_some_iff]

section Gates

variable {n : DocumentCodec} {collection docId peerId : String} {doc : Document}
  (hcolon : ':' ∉ collection.toList) (hcollection : collection.utf8ByteSize ≤ maxBridgeIdentityBytes)
  (hdocId : docId.utf8ByteSize ≤ maxBridgeIdentityBytes)
  (hpeer : peerId.utf8ByteSize ≤ maxBridgeIdentityBytes)
  (hencoded : n.saveNocompress doc ≤ maxBridgeAutomergeBytes)

include hcolon hcollection hdocId hpeer hencoded

theorem reads_of_passes (hpreflight : preflightEventDocument doc = .ok ())
    (htext : readText n doc = some json) (hjson : json.utf8ByteSize ≤ maxBridgeEventJsonBytes) :
    n.forwardBridgeChange (documentKey collection docId) peerId (.ok (some doc)) =
        .ok (some ⟨collection, docId, peerId, json⟩) ∧
      n.getBridgeDocument collection docId (.ok (some doc)) = .ok (some json) := by
  have hread := boundedRead_eq_some_iff.2 ⟨hencoded, hpreflight, htext, hjson⟩
  exact ⟨forwardBridgeChange_eq_some_iff.2 ⟨splitKey_documentKey hcolon, rfl,
      ⟨hcollection, hdocId, hpeer⟩, doc, rfl, hread⟩,
    getBridgeDocument_eq_some_iff.2 ⟨⟨hcollection, hdocId⟩, doc, rfl, hread⟩⟩

theorem rejected_of_preflight (hpreflight : preflightEventDocument doc ≠ .ok ()) :
    (∃ kind, n.forwardBridgeChange (documentKey collection docId) peerId (.ok (some doc)) =
        .error kind) ∧
      n.getBridgeDocument collection docId (.ok (some doc)) = .ok none := by
  obtain ⟨kind, hkind⟩ : ∃ kind, preflightEventDocument doc = .error kind := by
    cases h : preflightEventDocument doc with
    | error kind => exact ⟨kind, rfl⟩
    | ok u => exact absurd h hpreflight
  unfold forwardBridgeChange getBridgeDocument
  simp [splitKey_documentKey hcolon, not_lt.2 hcollection, not_lt.2 hdocId,
    not_lt.2 hpeer, not_lt.2 hencoded, hkind]

end Gates

/-! ### What is written -/

section Written

variable {n : DocumentCodec} {nonce : Nonce} {e : BridgeEnvelope} {doc : Document}

theorem exists_doc_of_create (hversion : e.version < UInt64.size)
    (h : (n.createBridgeDocument nonce o collection docId e.toJson store).1 = .ok ()) :
    ∃ doc, (n.createBridgeDocument nonce o collection docId e.toJson store).2
        (documentKey collection docId) = some doc ∧
      n.encode nonce e.toJson e.toValue none = .ok doc :=
  exists_doc_of_write (fromStr_toJson n.range hversion) (.inl rfl) h

theorem readText_of_cipher {cipher : StoreCipher} (hcipher : n.cipher = some cipher)
    (hencrypt : cipher.encrypt nonce e.toJson = some ciphertext)
    (hvalue : encryptedValue (n.conversion.automergeToJson doc) = some ciphertext) :
    readText n doc = some e.toJson := by
  simp only [readText, hvalue, hcipher, Option.bind_some, StoreCipher.decrypt_encrypt hencrypt]

theorem readText_of_plain (h : Same e.toValue (n.conversion.automergeToJson doc)) :
    readText n doc = some (n.conversion.automergeToJson doc).toText := by
  obtain ⟨ms, hms, hperm⟩ := exists_perm_of_same h
  have hvalue : encryptedValue (.object ms) = none := by
    have hfind : ms.find? (·.1 = "value") = none := by
      rw [find?_eq_none]
      intro m hm
      have hm' := hperm.mem_iff.2 hm
      simp only [mem_cons, not_mem_nil, or_false] at hm'
      rcases hm' with rfl | rfl | rfl | rfl | rfl <;> simp
    simp [encryptedValue, hfind]
  simp only [readText, hms, hvalue]

end Written

/-! ### Delivery -/

/-- The peer's item has this subject and payload. -/
def DeliveredBy (n : DocumentCodec) (k : EgressClassifier) (peerId collection docId subject : String)
    (bytes : List UInt8) (read : Option Document) : Prop :=
  ∃ json item,
    n.forwardBridgeChange (documentKey collection docId) peerId (.ok read) =
        .ok (some ⟨collection, docId, peerId, json⟩) ∧
      n.getBridgeDocument collection docId (.ok read) = .ok (some json) ∧
      k.classify BridgeEnvelope.fromStr ⟨collection, docId, peerId, json⟩ = .ok item ∧
      item.subject = subject ∧ asBytes item.payload = bytes

/-- The envelope of an accepted payload, from one node to the other. -/
structure Accepted (range : NumberRange) (k : EgressClassifier) (subject collection nodeId : String)
    (bytes : List UInt8) (e : BridgeEnvelope) : Prop where
  config : AcceptedMappings k.mappings
  mapped : ⟨subject, collection⟩ ∈ k.mappings
  plainSubject : PlainName subject
  plainNode : PlainName nodeId
  other : nodeId ≠ k.localNodeId
  size : bytes.length ≤ maxIngressPayloadBytes
  payload : BridgeEnvelope.fromPayload range subject nodeId bytes = .ok e

namespace Accepted

variable {range : NumberRange} {k : EgressClassifier} {subject collection nodeId : String}
  {bytes : List UInt8} {e : BridgeEnvelope}

theorem payload_size (h : Accepted range k subject collection nodeId bytes e) :
    e.payload.utf8ByteSize ≤ maxIngressPayloadBytes := by
  obtain ⟨-, -, -, -, hbytes, -⟩ := fromPayload_spec h.payload
  rw [← length_asBytes, hbytes]
  exact h.size

/-- **The text of an envelope is never too long for an event.** -/
theorem toJson_size (h : Accepted range k subject collection nodeId bytes e) :
    e.toJson.utf8ByteSize ≤ maxBridgeEventJsonBytes := by
  obtain ⟨hkind, hversion, rfl, rfl, -, hplain⟩ := fromPayload_spec h.payload
  have hsize := h.payload_size
  have hescape := utf8Len_escape_le hplain
  rw [String.utf8Len_toList e.payload] at hescape
  have hsubject := h.plainSubject.short
  have hnode := h.plainNode.short
  rw [utf8ByteSize_toJson hkind hversion,
    utf8Len_escape_of_literal h.plainSubject.literal,
    utf8Len_escape_of_literal h.plainNode.literal]
  simp only [maxBridgeIdentityBytes, maxIngressPayloadBytes, maxBridgeEventJsonBytes,
    frameBytes] at *
  omega

theorem classify (h : Accepted range k subject collection nodeId bytes e)
    (hsame : Same e.toValue v) (docId peerId : String) :
    ∃ item, k.classify fromStr ⟨collection, docId, peerId, v.toText⟩ = .ok item ∧
      item.subject = subject ∧ asBytes item.payload = bytes := by
  have hsize := h.payload_size
  obtain ⟨hkind, hversion, hsubject, hnode, hbytes, -⟩ := fromPayload_spec h.payload
  obtain ⟨index, hroute⟩ := exists_route h.config h.mapped
  have hparse := fromStr_of_same (by rw [hversion]; decide) hsame
  refine ⟨⟨Ledger.documentDigest collection docId, subject, e.payload, index⟩, ?_, rfl, hbytes⟩
  simp [EgressClassifier.classify, hparse, hkind, hversion, hroute, hsubject, hnode, h.other,
    not_lt.2 hsize]

end Accepted

section Delivery

variable {n : DocumentCodec} {k : EgressClassifier} {subject collection nodeId docId peerId : String}
  {bytes : List UInt8} {e : BridgeEnvelope} {nonce : Nonce} {doc : Document}
  (h : Accepted n.range k subject collection nodeId bytes e)
  (hdocId : docId.utf8ByteSize ≤ maxBridgeIdentityBytes)
  (hpeer : peerId.utf8ByteSize ≤ maxBridgeIdentityBytes)
  (hdoc : n.encode nonce e.toJson e.toValue none = .ok doc)
  (hencoded : n.saveNocompress doc ≤ maxBridgeAutomergeBytes)

include h hdocId hpeer hdoc hencoded

theorem delivered_of_plain (hcipher : n.cipher = none) :
    DeliveredBy n k peerId collection docId subject bytes (some doc) := by
  obtain ⟨hrepr, hsame⟩ := encode_of_plain hcipher hdoc
  have htext := readText_of_plain hsame
  generalize n.conversion.automergeToJson doc = v at hsame htext
  obtain ⟨hkind, -, hsubject, hnode, -, -⟩ := fromPayload_spec h.payload
  have hpreflight := preflight_envelope hkind (hsubject ▸ h.plainSubject) (hnode ▸ h.plainNode)
    h.payload_size hrepr
  have hsize : v.toText.utf8ByteSize ≤ maxBridgeEventJsonBytes := by
    have hjson := h.toJson_size
    obtain ⟨ms, rfl, hperm⟩ := exists_perm_of_same hsame
    have hne : ms ≠ [] := by
      rintro rfl
      simp at hperm
    rw [toJson, Value.toText, String.utf8ByteSize_ofList, toValue,
      utf8Len_render_object _ (by simp), (hperm.map memberBytes).sum_eq] at hjson
    rw [Value.toText, String.utf8ByteSize_ofList, utf8Len_render_object ms hne]
    exact hjson
  obtain ⟨item, hitem⟩ := h.classify hsame docId peerId
  obtain ⟨hforward, hget⟩ := reads_of_passes
    (colon_notMem_of_validCollection (h.config.valid _ h.mapped)) (h.config.short _ h.mapped)
    hdocId hpeer hencoded hpreflight htext hsize
  exact ⟨_, item, hforward, hget, hitem⟩

/-- **An encrypted document is delivered exactly if its ciphertext fits** the limit
on scalar bytes. -/
theorem delivered_iff_of_cipher {cipher : StoreCipher} (hcipher : n.cipher = some cipher) :
    (StoreCipher.encryptedBytes e.toJson.utf8ByteSize ≤ maxEventScalarBytes →
        DeliveredBy n k peerId collection docId subject bytes (some doc)) ∧
      (¬ StoreCipher.encryptedBytes e.toJson.utf8ByteSize ≤ maxEventScalarBytes →
        (∃ kind, n.forwardBridgeChange (documentKey collection docId) peerId (.ok (some doc)) =
            .error kind) ∧
          n.getBridgeDocument collection docId (.ok (some doc)) = .ok none) := by
  obtain ⟨ciphertext, w, hencrypt, rfl, hw, hvalue⟩ := encode_of_cipher hcipher hdoc
  have htext := readText_of_cipher hcipher hencrypt hvalue
  have hpreflight := preflight_ciphertext_iff hw (StoreCipher.ascii_encrypt hencrypt)
  rw [StoreCipher.utf8ByteSize_encrypt hencrypt] at hpreflight
  have hcolon := colon_notMem_of_validCollection (h.config.valid _ h.mapped)
  have hcollection := h.config.short _ h.mapped
  constructor
  · intro hfits
    obtain ⟨item, hitem⟩ := h.classify (e.same_toValue) docId peerId
    obtain ⟨hforward, hget⟩ := reads_of_passes hcolon hcollection hdocId hpeer hencoded
      (hpreflight.2 hfits) htext h.toJson_size
    exact ⟨_, item, hforward, hget, hitem⟩
  · intro hlong
    exact rejected_of_preflight hcolon hcollection hdocId hpeer hencoded
      fun hok => hlong (hpreflight.1 hok)

end Delivery

/-- **A payload is delivered exactly if the store is not encrypted or its envelope
is short enough to be.** -/
theorem payload_delivered_iff (n : DocumentCodec) (k : EgressClassifier)
    (subject collection nodeId docId peerId : String) (bytes : List UInt8) (e : BridgeEnvelope)
    (nonce : Nonce) (o : StoreOutcome) (store : Store)
    (h : Accepted n.range k subject collection nodeId bytes e)
    (hdocId : docId.utf8ByteSize ≤ maxBridgeIdentityBytes)
    (hpeer : peerId.utf8ByteSize ≤ maxBridgeIdentityBytes)
    (hwrite : (n.createBridgeDocument nonce o collection docId e.toJson store).1 = .ok ())
    (hencoded : ∀ doc, (n.createBridgeDocument nonce o collection docId e.toJson store).2
      (documentKey collection docId) = some doc → n.saveNocompress doc ≤ maxBridgeAutomergeBytes) :
    DeliveredBy n k peerId collection docId subject bytes
        ((n.createBridgeDocument nonce o collection docId e.toJson store).2
          (documentKey collection docId)) ↔
      (n.cipher = none ∨
        StoreCipher.encryptedBytes e.toJson.utf8ByteSize ≤ maxEventScalarBytes) := by
  obtain ⟨-, hversion, -⟩ := fromPayload_spec h.payload
  obtain ⟨doc, hstored, hdoc⟩ := exists_doc_of_create (by rw [hversion]; decide) hwrite
  have hsaved := hencoded doc hstored
  rw [hstored]
  cases hcipher : n.cipher with
  | none => simp [delivered_of_plain h hdocId hpeer hdoc hsaved hcipher]
  | some cipher =>
    obtain ⟨hfits, hlong⟩ := delivered_iff_of_cipher h hdocId hpeer hdoc hsaved hcipher
    simp only [reduceCtorEq, false_or]
    refine ⟨?_, hfits⟩
    rintro ⟨json, item, hforward, -⟩
    by_contra hno
    obtain ⟨⟨kind, hkind⟩, -⟩ := hlong hno
    rw [hkind] at hforward
    simp at hforward

/-! ### Two payloads in an encrypted store -/

/-- A tag of zeros in place of a cipher. -/
def zeroTag : Aead where
  encrypt _ plaintext := some (plaintext ++ List.replicate tagBytes 0)
  decrypt _ ciphertext := some (ciphertext.take (ciphertext.length - tagBytes))
  length_encrypt nonce plaintext ciphertext h := by
    cases h
    rw [length_append, length_replicate]
  decrypt_encrypt nonce plaintext ciphertext h := by
    cases h
    simp

def zeroNonce : Nonce := ⟨List.replicate nonceBytes 0, length_replicate⟩

/-- Strings and natural numbers as scalars. -/
def flatValue : Value → Option DocValue
  | .string s => some (.scalar (.str s))
  | .number n => n.toNat?.bind fun k =>
    if Number.ofNat k = n then some (.scalar (.uint k)) else none
  | .null | .bool _ | .array _ | .object _ => none

def flatMembers : List (String × Value) → Option Document
  | [] => some []
  | (name, v) :: ms => (flatValue v).bind fun w => (flatMembers ms).map fun es => (name, w) :: es

def flatText : DocValue → Value
  | .scalar (.str s) => .string s
  | .scalar (.uint k) => .number (.ofNat k)
  | _ => .null

theorem flatValue_spec (h : flatValue v = some w) : Represents v w ∧ Same v (flatText w) := by
  cases v with
  | string s =>
    cases h
    exact ⟨.string s, .string s⟩
  | number n =>
    obtain ⟨k, -, hk⟩ := Option.bind_eq_some_iff.1 h
    split_ifs at hk with hn
    cases hk
    subst hn
    exact ⟨.number _ rfl, .number _⟩
  | null | bool b | array items | object members => simp [flatValue] at h

theorem flatMembers_spec (h : flatMembers ms = some doc) :
    RepresentsMembers ms doc ∧ SameMembers ms (doc.map fun e => (e.1, flatText e.2)) := by
  induction ms generalizing doc with
  | nil =>
    cases h
    exact ⟨.nil, .nil⟩
  | cons m ms ih =>
    obtain ⟨name, v⟩ := m
    obtain ⟨w, hw, hes⟩ := Option.bind_eq_some_iff.1 h
    obtain ⟨es, hms, rfl⟩ := Option.map_eq_some_iff.1 hes
    obtain ⟨hrepr, hsame⟩ := flatValue_spec hw
    exact ⟨.cons hrepr (ih hms).1, .cons hsame (ih hms).2⟩

/-- Objects whose members are strings and numbers. -/
def flat : Conversion where
  jsonToAutomerge
    | .object members, none => flatMembers members
    | _, _ => none
  automergeToJson doc := .object (doc.map fun e => (e.1, flatText e.2))
  represents v doc h := by
    cases v with
    | object members => exact .object (flatMembers_spec h).1 (.refl _)
    | _ => simp at h
  roundTrip v doc h := by
    cases v with
    | object members => exact .object (flatMembers_spec h).2 (.refl _)
    | _ => simp at h

def encryptedStore : DocumentCodec where
  range := ⟨fun _ => true, fun _ _ _ _ => rfl⟩
  conversion := flat
  saveNocompress doc := (entriesUsage doc).bytes
  cipher := some ⟨zeroTag⟩

def peerClassifier : EgressClassifier := ⟨[⟨"telemetry", "telemetry"⟩], "edge-b"⟩

/-- A value that `edge-a` receives. -/
def valueEnvelope (v : Value) : BridgeEnvelope :=
  ⟨bridgeEnvelopeKind, bridgeEnvelopeVersion, "telemetry", "edge-a", v.toText⟩

theorem accepted_value (hdepth : v.depth ≤ recursionLimit)
    (hsize : v.toText.utf8ByteSize ≤ maxIngressPayloadBytes) :
    Accepted encryptedStore.range peerClassifier "telemetry" "telemetry" "edge-a"
      (asBytes v.toText) (valueEnvelope v) where
  config := ⟨by decide, by decide, by decide⟩
  mapped := mem_cons_self
  plainSubject := ⟨by decide, by simp [Literal]⟩
  plainNode := ⟨by decide, by simp [Literal]⟩
  other := by decide
  size := by rwa [length_asBytes]
  payload := by
    simp [fromPayload, fromUtf8_asBytes, NumberRange.fromStr, parse_toText hdepth,
      encryptedStore, valueEnvelope]

/-- An envelope's document in an empty store. -/
def created (e : BridgeEnvelope) : Except DocumentWriteError Unit × Store :=
  encryptedStore.createBridgeDocument zeroNonce ⟨true, true, .ok⟩ "telemetry" "doc" e.toJson
    fun _ => none

theorem version_valueEnvelope (v : Value) : (valueEnvelope v).version < UInt64.size :=
  show bridgeEnvelopeVersion < UInt64.size by decide

theorem created_ok (v : Value) : (created (valueEnvelope v)).1 = .ok () := by
  simp only [created, createBridgeDocument, writeDocument,
    fromStr_toJson encryptedStore.range (version_valueEnvelope v)]
  simp [encode, encryptedStore, StoreCipher.encrypt, zeroTag, flat, flatMembers,
    flatValue]

theorem created_saved (v : Value) :
    ∃ doc, (created (valueEnvelope v)).2 (documentKey "telemetry" "doc") = some doc ∧
      encryptedStore.encode zeroNonce (valueEnvelope v).toJson (valueEnvelope v).toValue none =
        .ok doc ∧
      encryptedStore.saveNocompress doc =
        StoreCipher.encryptedBytes (valueEnvelope v).toJson.utf8ByteSize := by
  obtain ⟨doc, hstored, hdoc⟩ := exists_doc_of_create (version_valueEnvelope v) (created_ok v)
  obtain ⟨ciphertext, w, hencrypt, rfl, hw, -⟩ := encode_of_cipher rfl hdoc
  refine ⟨_, hstored, hdoc, ?_⟩
  rw [← StoreCipher.utf8ByteSize_encrypt hencrypt, ← bytes_of_ascii hw
    (StoreCipher.ascii_encrypt hencrypt)]
  simp [encryptedStore, entriesUsage, Usage.entry]

theorem size_nullEnvelope : (valueEnvelope .null).toJson.utf8ByteSize = 104 := by
  rw [utf8ByteSize_toJson rfl rfl]
  decide

/-- A short payload is delivered through an encrypted store. -/
theorem null_delivered :
    DeliveredBy encryptedStore peerClassifier "peer" "telemetry" "doc" "telemetry"
      (asBytes Value.null.toText)
      ((created (valueEnvelope .null)).2 (documentKey "telemetry" "doc")) := by
  refine (payload_delivered_iff encryptedStore peerClassifier "telemetry" "telemetry" "edge-a" "doc"
    "peer" _ _ zeroNonce ⟨true, true, .ok⟩ (fun _ => none) (accepted_value (by decide) (by decide))
    (by decide) (by decide) (created_ok _) ?_).2 (.inr ?_)
  · intro doc hdoc
    obtain ⟨doc', hstored, -, hsaved⟩ := created_saved .null
    cases hstored.symm.trans hdoc
    rw [hsaved, size_nullEnvelope]
    decide
  · rw [size_nullEnvelope]
    decide

/-- The payload `["",…,""]`. -/
def emptyStrings (n : ℕ) : Value := .array (List.replicate (n + 1) (.string ""))

theorem itemsTail_emptyStrings (n : ℕ) :
    utf8Len (Value.render.itemsTail (replicate n (.string ""))) = 3 * n + 1 ∧
      utf8Len (escape (Value.render.itemsTail (replicate n (.string "")))) = 5 * n + 1 := by
  induction n with
  | zero => decide
  | succ n ih =>
    have hstring : (Value.string "").render = ['"', '"'] := by decide
    have hcomma : ','.utf8Size = 1 ∧ '"'.utf8Size = 1 ∧ utf8Len (escapeChar ',') = 1 ∧
      utf8Len (escapeChar '"') = 2 := by decide
    obtain ⟨h₁, h₂, h₃, h₄⟩ := hcomma
    simp only [escape] at ih ⊢
    simp only [replicate_succ, Value.render.itemsTail, hstring, cons_append,
      nil_append, String.utf8Len_cons, flatMap_cons, String.utf8Len_append, h₁, h₂, h₃,
      h₄]
    omega

/-- Every quote of the payload is escaped in the envelope. -/
theorem size_emptyStrings (n : ℕ) :
    (emptyStrings n).toText.utf8ByteSize = 3 * n + 4 ∧
      (valueEnvelope (emptyStrings n)).toJson.utf8ByteSize = 5 * n + 106 := by
  obtain ⟨hplain, hescaped⟩ := itemsTail_emptyStrings n
  have hrender : (emptyStrings n).render =
      ['[', '"', '"'] ++ Value.render.itemsTail (replicate n (.string "")) := rfl
  have hlead : utf8Len ['[', '"', '"'] = 3 ∧ utf8Len (escape ['[', '"', '"']) = 5 ∧
      utf8Len (escape "telemetry".toList) = 9 ∧ utf8Len (escape "edge-a".toList) = 6 := by decide
  obtain ⟨h₁, h₂, h₃, h₄⟩ := hlead
  constructor
  · rw [Value.toText, String.utf8ByteSize_ofList, hrender, String.utf8Len_append, h₁, hplain]
    omega
  · have hpayload : utf8Len (escape (emptyStrings n).toText.toList) = 5 * n + 6 := by
      simp only [Value.toText, String.toList_ofList, hrender, escape, flatMap_append,
        String.utf8Len_append] at h₂ hescaped ⊢
      omega
    rw [utf8ByteSize_toJson rfl rfl]
    simp only [valueEnvelope, h₃, h₄, hpayload, frameBytes]
    omega

theorem depth_emptyStrings (n : ℕ) : (emptyStrings n).depth ≤ recursionLimit := by
  have hitems : ∀ n, Value.depth.depths (replicate n (.string "")) = 0 := by
    intro n
    induction n with
    | zero => rfl
    | succ n ih => simp [replicate_succ, Value.depth.depths, ih, Value.depth]
  simp only [emptyStrings, Value.depth, hitems, recursionLimit]
  omega

/-- **A payload that fills its limit with escapes is lost** in an encrypted store: accepted and
written, but neither read of the peer gives it. -/
theorem emptyStrings_rejected :
    Accepted encryptedStore.range peerClassifier "telemetry" "telemetry" "edge-a"
        (asBytes (emptyStrings 349524).toText) (valueEnvelope (emptyStrings 349524)) ∧
      (created (valueEnvelope (emptyStrings 349524))).1 = .ok () ∧
      ∃ doc, (created (valueEnvelope (emptyStrings 349524))).2 (documentKey "telemetry" "doc") =
          some doc ∧
        encryptedStore.saveNocompress doc ≤ maxBridgeAutomergeBytes ∧
        (∃ kind, encryptedStore.forwardBridgeChange (documentKey "telemetry" "doc") "peer"
          (.ok (some doc)) = .error kind) ∧
        encryptedStore.getBridgeDocument "telemetry" "doc" (.ok (some doc)) = .ok none := by
  obtain ⟨htext, hjson⟩ := size_emptyStrings 349524
  have haccepted := accepted_value (depth_emptyStrings 349524)
    (by rw [htext]; decide : _ ≤ maxIngressPayloadBytes)
  obtain ⟨doc, hstored, hdoc, hsaved⟩ := created_saved (emptyStrings 349524)
  have hencoded : encryptedStore.saveNocompress doc ≤ maxBridgeAutomergeBytes := by
    rw [hsaved, hjson]
    decide
  have hlong : ¬ StoreCipher.encryptedBytes (valueEnvelope (emptyStrings 349524)).toJson.utf8ByteSize
      ≤ maxEventScalarBytes := by
    rw [hjson]
    decide
  refine ⟨haccepted, created_ok _, doc, hstored, hencoded, ?_⟩
  exact (delivered_iff_of_cipher haccepted (by decide) (by decide) hdoc hencoded rfl).2 hlong

/-! ### The two reads agree -/

/-- The live path: the classification of the event that `forward_bridge_changes` emits for the
key, if it emits one. -/
def liveOutcome (n : DocumentCodec) (k : EgressClassifier) (parse : String → Option BridgeEnvelope)
    (key peerId : String) (read : Except Unit (Option Document)) :
    Option (Except EgressSkipKind EgressItem) :=
  match n.forwardBridgeChange key peerId read with
  | .ok (some event) => some (k.classify parse event)
  | _ => none

/-- The reconciliation path: `deliver_candidate` makes an event without a peer of what
`get_bridge_document` returns. -/
def reconcileOutcome (n : DocumentCodec) (k : EgressClassifier)
    (parse : String → Option BridgeEnvelope) (collection docId : String)
    (read : Except Unit (Option Document)) : Option (Except EgressSkipKind EgressItem) :=
  match n.getBridgeDocument collection docId read with
  | .ok (some json) => some (k.classify parse ⟨collection, docId, "", json⟩)
  | _ => none

/-- The peer is not looked at. -/
theorem classify_of_peer (k : EgressClassifier) (parse : String → Option BridgeEnvelope)
    (collection docId peerId peerId' json : String) :
    k.classify parse ⟨collection, docId, peerId, json⟩ =
      k.classify parse ⟨collection, docId, peerId', json⟩ := rfl

variable {outcome : Except EgressSkipKind EgressItem}

theorem liveOutcome_eq_some_iff {parse : String → Option BridgeEnvelope}
    {read : Except Unit (Option Document)} :
    liveOutcome n k parse key peerId read = some outcome ↔
      ∃ event, n.forwardBridgeChange key peerId read = .ok (some event) ∧
        k.classify parse event = outcome := by
  unfold liveOutcome
  split
  · rename_i event hevent
    simp [hevent]
  · rename_i hnone
    exact iff_of_false (by simp) fun ⟨event, hevent, _⟩ => hnone event hevent

theorem reconcileOutcome_eq_some_iff {parse : String → Option BridgeEnvelope}
    {read : Except Unit (Option Document)} :
    reconcileOutcome n k parse collection docId read = some outcome ↔
      ∃ json, n.getBridgeDocument collection docId read = .ok (some json) ∧
        k.classify parse ⟨collection, docId, "", json⟩ = outcome := by
  unfold reconcileOutcome
  split
  · rename_i json hjson
    simp [hjson]
  · rename_i hnone
    exact iff_of_false (by simp) fun ⟨json, hjson, _⟩ => hnone json hjson

/-- The live path's event is about the document and has the text that the reconciliation path
returns. -/
theorem forwardBridgeChange_iff_getBridgeDocument (hcolon : ':' ∉ collection.toList)
    (hcollection : collection.utf8ByteSize ≤ maxBridgeIdentityBytes)
    (hdocId : docId.utf8ByteSize ≤ maxBridgeIdentityBytes)
    (hpeer : peerId.utf8ByteSize ≤ maxBridgeIdentityBytes) {read : Except Unit (Option Document)}
    {event : BridgeChangeEvent} :
    n.forwardBridgeChange (documentKey collection docId) peerId read = .ok (some event) ↔
      n.getBridgeDocument collection docId read = .ok (some event.jsonData) ∧
        event = ⟨collection, docId, peerId, event.jsonData⟩ := by
  rw [forwardBridgeChange_eq_some_iff, getBridgeDocument_eq_some_iff, splitKey_documentKey hcolon]
  constructor
  · rintro ⟨hparts, rfl, -, hread⟩
    cases hparts
    exact ⟨⟨⟨hcollection, hdocId⟩, hread⟩, rfl⟩
  · rintro ⟨⟨-, hread⟩, hevent⟩
    rw [hevent]
    exact ⟨rfl, rfl, ⟨hcollection, hdocId, hpeer⟩, hread⟩

/-- **The live path and the reconciliation path agree.** For a key whose parts are within the
limits, whatever the store holds and whatever cipher is configured, the live path emits an event
with a text exactly if the reconciliation path returns that text, the event names the document,
and both classify it alike. -/
theorem reads_agree (n : DocumentCodec) {collection docId peerId : String}
    (hcolon : ':' ∉ collection.toList) (hcollection : collection.utf8ByteSize ≤ 1024)
    (hdocId : docId.utf8ByteSize ≤ 1024) (hpeer : peerId.utf8ByteSize ≤ 1024)
    (store : String → Except Unit (Option Document)) (k : EgressClassifier)
    (parse : String → Option BridgeEnvelope) :
    (∀ json, (∃ event, n.forwardBridgeChange (documentKey collection docId) peerId
          (store (documentKey collection docId)) = .ok (some event) ∧ event.jsonData = json) ↔
        n.getBridgeDocument collection docId (store (documentKey collection docId)) =
          .ok (some json)) ∧
      (∀ event, n.forwardBridgeChange (documentKey collection docId) peerId
          (store (documentKey collection docId)) = .ok (some event) →
        event.collection = collection ∧ event.docId = docId ∧ event.remotePeerId = peerId) ∧
      liveOutcome n k parse (documentKey collection docId) peerId
          (store (documentKey collection docId)) =
        reconcileOutcome n k parse collection docId (store (documentKey collection docId)) := by
  have hlive := @forwardBridgeChange_iff_getBridgeDocument n _ _ _ hcolon hcollection hdocId hpeer
    (store (documentKey collection docId))
  refine ⟨fun json => ⟨?_, fun hget => ?_⟩, fun event hevent => ?_, ?_⟩
  · rintro ⟨event, hevent, rfl⟩
    exact (hlive.1 hevent).1
  · exact ⟨⟨collection, docId, peerId, json⟩, hlive.2 ⟨hget, rfl⟩, rfl⟩
  · have heq := (hlive.1 hevent).2
    rw [heq]
    exact ⟨rfl, rfl, rfl⟩
  · ext outcome
    rw [liveOutcome_eq_some_iff, reconcileOutcome_eq_some_iff]
    constructor
    · rintro ⟨event, hevent, hout⟩
      obtain ⟨hget, heq⟩ := hlive.1 hevent
      rw [heq, classify_of_peer k parse _ _ _ ""] at hout
      exact ⟨event.jsonData, hget, hout⟩
    · rintro ⟨json, hget, hout⟩
      rw [classify_of_peer k parse _ _ _ peerId] at hout
      exact ⟨⟨collection, docId, peerId, json⟩, hlive.2 ⟨hget, rfl⟩, hout⟩

/-- The same store without a key. -/
def plainStore : DocumentCodec := { encryptedStore with cipher := none }

/-- The node encodes an envelope, and both paths read the same item from it. -/
def BothRead (n : DocumentCodec) : Prop :=
  ∃ doc ∈ (n.encode zeroNonce (valueEnvelope .null).toJson (valueEnvelope .null).toValue none).toOption,
    ∃ outcome ∈ reconcileOutcome n peerClassifier fromStr "telemetry" "doc" (.ok (some doc)),
      outcome.isOk = true ∧
        liveOutcome n peerClassifier fromStr (documentKey "telemetry" "doc") "peer"
          (.ok (some doc)) = some outcome

/-- An envelope is read alike on both paths, from an encrypted store and a plain one. -/
theorem reads_agree_envelope : BothRead encryptedStore ∧ BothRead plainStore := by
  have hagree : ∀ n doc, liveOutcome n peerClassifier fromStr (documentKey "telemetry" "doc") "peer"
      (.ok (some doc)) =
        reconcileOutcome n peerClassifier fromStr "telemetry" "doc" (.ok (some doc)) := fun n doc =>
    (reads_agree n (by simp) (by decide) (by decide) (by decide) (fun _ => .ok (some doc))
      peerClassifier fromStr).2.2
  exact ⟨Lts.exists_mem_mem_and (by decide +kernel) fun doc _ _ hread _ => (hagree _ doc).trans hread,
    Lts.exists_mem_mem_and (by decide +kernel) fun doc _ _ hread _ => (hagree _ doc).trans hread⟩

end PeatNode.Bridge
