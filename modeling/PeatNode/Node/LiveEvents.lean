/-
# The snapshot and the live events of a subscription

`subscribe` of `src/service.rs` answers with a snapshot of the collections it names, read by
`list_documents` and `get_document`, and then with the events of `forward_store_changes` that pass
`event_passes` of `src/query.rs`.  The snapshot keeps the collection it asked for; the forwarder
splits the key at the first colon, and drops a change whose collection or id is too long.
-/

import PeatNode.Node.ChangeFeed

namespace PeatNode.Node

open Bridge Reconcile Option List DocumentStore Nonce

/-! ### The two paths -/

/-- A query is its `matches_upsert`. -/
def eventPasses (collections : List String) (matcher : Option (String → Bool))
    (collection : String) (jsonData : Option String) : Bool :=
  if collections ≠ [] ∧ collection ∉ collections then false
  else match matcher, jsonData with
    | none, _ => true
    | some _, none => true
    | some matchesUpsert, some data => matchesUpsert data

namespace DocumentCodec

/-- The entry of one listed document. -/
def snapshotEvent (n : DocumentCodec) (matcher : Option (String → Bool)) (readable : Bool)
    (s : DocumentStore) (collection docId : String) : Option ChangeEvent :=
  match n.getDocument collection docId readable s with
  | .ok (some json) =>
    if matcher.all (· json) then some ⟨collection, docId, .upsert, some json⟩ else none
  | _ => none

/-- `none` where a listing fails. -/
def snapshot (n : DocumentCodec) (matcher : Option (String → Bool)) (readable : Bool)
    (s : DocumentStore) : List String → Option (List ChangeEvent)
  | [] => some []
  | collection :: collections => do
      let ids ← listDocuments collection readable s
      let rest ← n.snapshot matcher readable s collections
      return ids.filterMap (n.snapshotEvent matcher readable s collection) ++ rest

/-- What a subscriber receives. -/
def liveEvent (n : DocumentCodec) (collections : List String) (matcher : Option (String → Bool))
    (key : String) (readable : Bool) (s : DocumentStore) : Option ChangeEvent :=
  match n.forwardStoreChange key readable s with
  | .ok e => if eventPasses collections matcher e.collection e.jsonData then some e else none
  | .error _ => none

end DocumentCodec

/-- The subscriber receives for a document just what its snapshot would hold under the identity
`(collection, doc_id)`. -/
def Announced (n : DocumentCodec) (collections : List String) (matcher : Option (String → Bool))
    (readable : Bool) (s : DocumentStore) (collection docId : String) : Prop :=
  ∀ e : ChangeEvent,
    n.liveEvent collections matcher (documentKey collection docId) readable s = some e ↔
      (∃ events ∈ n.snapshot matcher readable s collections, e ∈ events) ∧
        e.collection = collection ∧ e.docId = docId

section Paths

variable {n : DocumentCodec} {collections : List String} {matcher : Option (String → Bool)}
  {readable : Bool} {s : DocumentStore} {collection docId : String} {e : ChangeEvent}

/-! ### What each path yields -/

theorem snapshotEvent_eq_some_iff : n.snapshotEvent matcher readable s collection docId = some e ↔
      readable = true ∧ ∃ doc text, s.read (documentKey collection docId) = some doc ∧
        n.documentText doc = .ok text ∧ matcher.all (· text) = true ∧
        e = ⟨collection, docId, .upsert, some text⟩ := by
  unfold DocumentCodec.snapshotEvent DocumentCodec.getDocument
  cases readable with
  | false => simp
  | true =>
    cases hread : s.read (documentKey collection docId) with
    | none => simp
    | some doc =>
      cases htext : n.documentText doc with
      | error err => simp [htext, Except.map]
      | ok text =>
        simp only [htext, Except.map, Bool.true_eq_false, if_false,
          ite_none_right_eq_some, some.injEq, true_and]
        constructor
        · rintro ⟨hpass, rfl⟩
          exact ⟨doc, text, rfl, htext, hpass, rfl⟩
        · rintro ⟨_, text', rfl, htext', hpass, rfl⟩
          obtain rfl : text = text' := by simpa [htext] using htext'
          exact ⟨hpass, rfl⟩

/-- A readable store lists every collection. -/
theorem snapshot_eq (n : DocumentCodec) (matcher : Option (String → Bool)) (s : DocumentStore)
    (collections : List String) :
    n.snapshot matcher true s collections = some (collections.flatMap fun collection =>
      ((s.scanPrefix (collection ++ ":")).filterMap (docIdOf collection)).filterMap
        (n.snapshotEvent matcher true s collection)) := by
  induction collections with
  | nil => rfl
  | cons collection collections ih => simp [DocumentCodec.snapshot, listDocuments, ih]

theorem mem_snapshot_iff : (∃ events ∈ n.snapshot matcher true s collections, e ∈ events) ↔
      e.collection ∈ collections ∧
        n.snapshotEvent matcher true s e.collection e.docId = some e := by
  simp only [snapshot_eq, mem_some_iff, exists_eq_left', mem_flatMap, mem_filterMap]
  constructor
  · rintro ⟨collection, hmem, docId, -, hevent⟩
    obtain ⟨-, doc, text, -, -, -, rfl⟩ := snapshotEvent_eq_some_iff.1 hevent
    exact ⟨hmem, hevent⟩
  · rintro ⟨hmem, hevent⟩
    obtain ⟨-, doc, text, hread, -⟩ := snapshotEvent_eq_some_iff.1 hevent
    have hlisted := mem_listDocuments.2 (isSome_iff_exists.2 ⟨doc, hread⟩)
    exact ⟨e.collection, hmem, e.docId, (mem_filterMap.1 hlisted), hevent⟩

theorem eventPasses_some :
    eventPasses collections matcher collection (some text) = true ↔
      (collections = [] ∨ collection ∈ collections) ∧ matcher.all (· text) = true := by
  unfold eventPasses
  split_ifs with h
  · simp [h]
  · have hwanted : collections = [] ∨ collection ∈ collections := by
      rw [not_and_or, not_not, not_not] at h
      exact h
    cases matcher <;> simp [hwanted]

theorem liveEvent_eq_some_iff (hread : s.read key = some doc) :
    n.liveEvent collections matcher key readable s = some e ↔
      readable = true ∧ ∃ collection docId text, splitKey key = some (collection, docId) ∧
        (collection.utf8ByteSize ≤ maxBridgeIdentityBytes ∧
          docId.utf8ByteSize ≤ maxBridgeIdentityBytes) ∧
        n.documentText doc = .ok text ∧ eventPasses collections matcher collection (some text) ∧
        e = ⟨collection, docId, .upsert, some text⟩ := by
  unfold DocumentCodec.liveEvent
  rw [forwardStoreChange_eq hread]
  constructor
  · intro h
    cases hsplit : splitKey key with
    | none => simp [hsplit] at h
    | some parts =>
      obtain ⟨collection, docId⟩ := parts
      simp only [hsplit] at h
      split_ifs at h with hsize hfault
      cases htext : n.documentText doc with
      | error err => simp [htext] at h
      | ok text =>
        simp only [htext, ite_none_right_eq_some, some.injEq] at h
        exact ⟨by simpa using hfault, collection, docId, text, rfl, by omega, rfl, h.1, h.2.symm⟩
  · rintro ⟨rfl, collection, docId, text, hsplit, ⟨hc, hd⟩, htext, hpass, rfl⟩
    have hsize : ¬(maxBridgeIdentityBytes < collection.utf8ByteSize ∨
        maxBridgeIdentityBytes < docId.utf8ByteSize) := by omega
    simp only [hsplit, htext, if_neg hsize, hpass, Bool.true_eq_false, if_true, if_false]

/-! ### Agreement -/

/-- What the forwarder passes on. -/
def Forwardable (collection docId : String) : Prop :=
  ':' ∉ collection.toList ∧ collection.utf8ByteSize ≤ maxBridgeIdentityBytes ∧
    docId.utf8ByteSize ≤ maxBridgeIdentityBytes
deriving Decidable

/-- A live event is the one the snapshot holds, if the identity can be read off the key; otherwise
the snapshot's event does not come. -/
theorem liveEvent_iff_snapshotEvent (hmem : collection ∈ collections)
    (hread : (s.read (documentKey collection docId)).isSome) :
    (∀ e, n.liveEvent collections matcher (documentKey collection docId) readable s = some e ↔
        n.snapshotEvent matcher readable s collection docId = some e) ↔
      n.snapshotEvent matcher readable s collection docId = none ∨
        Forwardable collection docId := by
  obtain ⟨doc, hdoc⟩ := isSome_iff_exists.1 hread
  simp only [liveEvent_eq_some_iff hdoc, eventPasses_some, splitKey_eq_some_iff]
  constructor
  · intro hsame
    cases hevent : n.snapshotEvent matcher readable s collection docId with
    | none => exact .inl rfl
    | some e =>
      obtain ⟨-, collection', docId', text', ⟨hcolon, -⟩, hsize, -, -, he⟩ := (hsame e).2 hevent
      obtain ⟨-, -, text, -, -, -, he'⟩ := snapshotEvent_eq_some_iff.1 hevent
      obtain ⟨rfl, rfl⟩ : collection' = collection ∧ docId' = docId := by
        simpa using And.intro (congrArg ChangeEvent.collection (he.symm.trans he'))
          (congrArg ChangeEvent.docId (he.symm.trans he'))
      exact .inr ⟨hcolon, hsize⟩
  · rintro (hnone | ⟨hcolon, hsize⟩) e
    · rw [hnone]
      refine iff_of_false ?_ (by simp)
      rintro ⟨rfl, collection', docId', text, -, -, htext, ⟨-, hpass⟩, -⟩
      have hsome := snapshotEvent_eq_some_iff.2 ⟨rfl, doc, text, hdoc, htext, hpass, rfl⟩
      simp [hnone] at hsome
    · rw [snapshotEvent_eq_some_iff]
      constructor
      · rintro ⟨rfl, collection', docId', text, ⟨hcolon', hkey⟩, -, htext, ⟨-, hpass⟩, rfl⟩
        obtain ⟨rfl, rfl⟩ : collection = collection' ∧ docId = docId' := by
          have hparts : splitKey (documentKey collection docId) = some (collection, docId) :=
            splitKey_documentKey hcolon
          simpa using hparts.symm.trans (splitKey_eq_some_iff.2 ⟨hcolon', hkey⟩)
        exact ⟨rfl, doc, text, hdoc, htext, hpass, rfl⟩
      · rintro ⟨rfl, doc', text, hdoc', htext, hpass, rfl⟩
        cases hdoc.symm.trans hdoc'
        exact ⟨rfl, collection, docId, text, ⟨hcolon, rfl⟩, hsize, htext, ⟨.inr hmem, hpass⟩, rfl⟩

theorem snapshot_iff_snapshotEvent (hmem : collection ∈ collections) :
    ((∃ events ∈ n.snapshot matcher readable s collections, e ∈ events) ∧
        e.collection = collection ∧ e.docId = docId) ↔
      n.snapshotEvent matcher readable s collection docId = some e := by
  cases readable with
  | false =>
    have hfail : n.snapshot matcher false s collections = none := by
      cases collections with
      | nil => cases hmem
      | cons c cs => rfl
    simp [hfail, snapshotEvent_eq_some_iff]
  | true =>
    rw [mem_snapshot_iff]
    constructor
    · rintro ⟨⟨-, hevent⟩, rfl, rfl⟩
      exact hevent
    · intro hevent
      obtain ⟨-, doc, text, -, -, -, rfl⟩ := snapshotEvent_eq_some_iff.1 hevent
      exact ⟨⟨hmem, hevent⟩, rfl, rfl⟩

theorem isSome_of_putDocument (h : n.putDocument nonce o collection docId json s = (.ok (), s')) :
    (s'.read (documentKey collection docId)).isSome := by
  have hresult : (n.writeDocument .upsert nonce o collection docId json s.read).1 = .ok () :=
    congrArg Prod.fst h
  have hread : s'.read = (n.writeDocument .upsert nonce o collection docId json s.read).2 := by
    rw [← n.read_putDocument nonce o collection docId json s, h]
  obtain ⟨doc, -, -, heq⟩ | ⟨doc, -, -, heq⟩ | ⟨err, -, heq⟩ :=
    n.writeDocument_cases .upsert nonce o collection docId json s.read
  · simp [hread, heq]
  all_goals simp [heq] at hresult

theorem announced_iff_of_present (hmem : collection ∈ collections)
    (hread : (s.read (documentKey collection docId)).isSome) :
    Announced n collections matcher readable s collection docId ↔
      n.snapshotEvent matcher readable s collection docId = none ∨
        Forwardable collection docId := by
  rw [← liveEvent_iff_snapshotEvent hmem hread]
  simp only [Announced, snapshot_iff_snapshotEvent hmem]

/-- **Live events and identities.** After an accepted `put_document`, while its document is not
replaced, a subscriber of the collection receives for the notification what its snapshot holds
exactly when there is nothing to receive or the identity can be read off the key and passes the
limits. -/
theorem live_event_iff (n : DocumentCodec) (nonce : Nonce) (o : StoreOutcome)
    (collection docId json : String) (s s' now : DocumentStore)
    (hput : n.putDocument nonce o collection docId json s = (.ok (), s'))
    (hnow : now.read (documentKey collection docId) = s'.read (documentKey collection docId))
    (collections : List String) (hmem : collection ∈ collections)
    (matcher : Option (String → Bool)) (readable : Bool) :
    Announced n collections matcher readable now collection docId ↔
      n.snapshotEvent matcher readable now collection docId = none ∨ Forwardable collection docId :=
  announced_iff_of_present hmem (hnow ▸ isSome_of_putDocument hput)

end Paths

/-! ### Samples -/

theorem putDocument_plainNode (nonce : Nonce) (collection docId : String) (s : DocumentStore) :
    plainNode.putDocument nonce ⟨true, true, .ok⟩ collection docId "\x7b\x7d" s =
      (.ok (), s.set (documentKey collection docId) (some [])) := by
  have hparse : plainNode.range.fromStr "\x7b\x7d" = some (.object []) := by
    have hdepth : (Json.Value.object []).depth ≤ Egress.recursionLimit := by decide
    have hread := Json.parse_toText hdepth
    have htext : (Json.Value.object []).toText = "\x7b\x7d" := rfl
    rw [htext] at hread
    rw [Egress.NumberRange.fromStr, hread]
    rfl
  have hencode : ∀ base, plainNode.encode nonce "\x7b\x7d" (.object []) base = .ok [] := fun _ => rfl
  simp [DocumentCodec.putDocument, DocumentCodec.writeDocument, hparse, hencode]

theorem snapshotEvent_plainNode (collection docId : String) (s : DocumentStore) :
    plainNode.snapshotEvent none true (s.set (documentKey collection docId) (some [])) collection
      docId = some ⟨collection, docId, .upsert, some "\x7b\x7d"⟩ :=
  snapshotEvent_eq_some_iff.2
    ⟨rfl, [], "\x7b\x7d", s.read_set_self _ _, by decide +kernel, rfl, rfl⟩

theorem Nonce.length_zeros : (replicate nonceBytes (0 : UInt8)).length = nonceBytes :=
  length_replicate

def Nonce.zeros : Nonce := ⟨List.replicate nonceBytes 0, Nonce.length_zeros⟩

/-- A plain identity is announced as it was written. -/
theorem alpha_announced : let s := empty.set (documentKey "nodes" "alpha") (some [])
    plainNode.putDocument zeros ⟨true, true, .ok⟩ "nodes" "alpha" "\x7b\x7d" .empty = (.ok (), s) ∧
      Announced plainNode ["nodes"] none true s "nodes" "alpha" := by
  have hput := putDocument_plainNode zeros "nodes" "alpha" .empty
  exact ⟨hput, (live_event_iff plainNode zeros ⟨true, true, .ok⟩ "nodes" "alpha" "\x7b\x7d" .empty
    _ _ hput rfl ["nodes"] (by simp) none true).2 (.inr (by decide))⟩

/-- **A colon moves a document to another collection and a long id hides it**: the accepted
document `c` of collection `a:b` is announced as `b:c` of `a`, which the subscriber of `a:b` does
not receive, and no event is made for an id of 1025 bytes; the snapshot holds both. -/
theorem identity_lost : let long := String.ofList (replicate 1025 'x')
    let colon := empty.set (documentKey "a:b" "c") (some [])
    let large := empty.set (documentKey "nodes" long) (some [])
    (plainNode.putDocument zeros ⟨true, true, .ok⟩ "a:b" "c" "\x7b\x7d" .empty = (.ok (), colon) ∧
      plainNode.snapshotEvent none true colon "a:b" "c" =
        some ⟨"a:b", "c", .upsert, some "\x7b\x7d"⟩ ∧
      plainNode.forwardStoreChange (documentKey "a:b" "c") true colon =
        .ok ⟨"a", "b:c", .upsert, some "\x7b\x7d"⟩ ∧
      ¬ Announced plainNode ["a:b"] none true colon "a:b" "c") ∧
    plainNode.putDocument zeros ⟨true, true, .ok⟩ "nodes" long "\x7b\x7d" .empty =
        (.ok (), large) ∧
      plainNode.snapshotEvent none true large "nodes" long =
        some ⟨"nodes", long, .upsert, some "\x7b\x7d"⟩ ∧
      plainNode.forwardStoreChange (documentKey "nodes" long) true large =
        .error .identityTooLarge ∧
      ¬ Announced plainNode ["nodes"] none true large "nodes" long := by
  intro long colon large
  have hlong : long.utf8ByteSize = 1025 := by
    rw [utf8ByteSize_of_ascii fun c hc => ?_]
    · rw [String.toList_ofList, length_replicate]
    · rw [String.toList_ofList] at hc
      rw [eq_of_mem_replicate hc]
      rfl
  have hcolonEvent := snapshotEvent_plainNode "a:b" "c" .empty
  have hlargeEvent := snapshotEvent_plainNode "nodes" long .empty
  refine ⟨⟨putDocument_plainNode .., hcolonEvent, by decide +kernel, fun h => ?_⟩,
    putDocument_plainNode .., hlargeEvent, ?_, fun h => ?_⟩
  · rw [announced_iff_of_present (by simp) (by simp [colon]), hcolonEvent] at h
    simp [Forwardable] at h
  · rw [forwardStoreChange_eq ((empty).read_set_self _ _), splitKey_documentKey (by simp)]
    simp [hlong, maxBridgeIdentityBytes]
  · rw [announced_iff_of_present (by simp) (by simp [large]), hlargeEvent] at h
    simp [Forwardable, hlong, maxBridgeIdentityBytes] at h

end PeatNode.Node
