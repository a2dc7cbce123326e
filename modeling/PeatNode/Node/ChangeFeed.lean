/-
# The change feed of one document

What a subscriber of `Subscribe` learns about a document: `put_document` and `delete_document` under
the lock of the key, the observer of the store, the task `forward_store_changes` of `src/node.rs`
and the broadcast channel to the subscribers.

`put` notifies the observer of the key; the forwarder reads the store again and sends what it
finds, always as an upsert. A delete is sent by the deleting call. Whether
`AutomergeStore::delete` notifies the observer as well is a parameter (`observed`).

An upsert without a text can be the last word on a deleted document (`delete_overtaken`).
-/

import PeatNode.Node.Documents

namespace PeatNode.Node

open Bridge Broadcast Reconcile Option StoreCipher Channel List

inductive ChangeType
  | upsert
  | delete
deriving DecidableEq

structure ChangeEvent where
  collection : String
  docId : String
  changeType : ChangeType
  jsonData : Option String
deriving DecidableEq

/-! ### The forwarder -/

namespace DocumentCodec

/-- From the store, before decryption. -/
def rawText (n : DocumentCodec) (entry : Option Document) : Option String :=
  entry.map fun doc =>
    let json := n.conversion.automergeToJson doc
    match encryptedValue json with
    | some encrypted => encrypted
    | none => json.toText

/-- `readable` is false on a store error. -/
def forwardStoreChange (n : DocumentCodec) (key : String) (readable : Bool) (s : DocumentStore) :
    Except NodeChangeRejectKind ChangeEvent :=
  match splitKey key with
  | none => .error .invalidKey
  | some (collection, docId) =>
    if maxBridgeIdentityBytes < collection.utf8ByteSize ∨
        maxBridgeIdentityBytes < docId.utf8ByteSize then .error .identityTooLarge
    else if readable = false then .error .storeRead
    else match n.rawText (s.read key) with
      | none => .ok ⟨collection, docId, .upsert, none⟩
      | some text =>
        if StoreCipher.isEncrypted text then
          match n.cipher with
          | none => .ok ⟨collection, docId, .upsert, some text⟩
          | some cipher =>
            match cipher.decrypt text with
            | none => .error .decrypt
            | some plaintext => .ok ⟨collection, docId, .upsert, some plaintext⟩
        else .ok ⟨collection, docId, .upsert, some text⟩

end DocumentCodec

/-- A JSON text does not start like an encrypted value. -/
theorem isEncrypted_toText (v : Json.Value) : isEncrypted v.toText = false := by
  rw [isEncrypted, isSome_eq_false_iff, isNone_iff_eq_none, eq_none_iff_forall_ne_some]
  intro rest hrest
  rw [stripPrefix_eq_some_iff, ← String.toList_inj, String.toList_append, Json.Value.toText,
    String.toList_ofList] at hrest
  have hhead : v.render.head? = some 'E' := by
    rw [hrest]
    rfl
  cases v with
  | null | string s => cases hhead
  | bool b => cases b <;> cases hhead
  | number number =>
    obtain ⟨text, hvalid⟩ := number
    cases text with
    | nil => cases hhead
    | cons c cs =>
      obtain rfl : c = 'E' := some.inj hhead
      cases hvalid
  | array items => cases items <;> cases hhead
  | object members => cases members <;> cases hhead

theorem isEncrypted_of_encryptedValue (h : DocumentCodec.encryptedValue v = some s) :
    isEncrypted s := by
  unfold DocumentCodec.encryptedValue at h
  split at h
  · split at h
    · split_ifs at h with henc
      exact some.inj h ▸ henc
    · nomatch h
  · nomatch h

/-- The forwarder sends the text that a document that is there is read as. -/
theorem forwardStoreChange_eq {n : DocumentCodec} (hdoc : s.read key = some doc) (readable : Bool) :
    n.forwardStoreChange key readable s = match splitKey key with
      | none => .error .invalidKey
      | some (collection, docId) =>
        if maxBridgeIdentityBytes < collection.utf8ByteSize ∨
            maxBridgeIdentityBytes < docId.utf8ByteSize then .error .identityTooLarge
        else if readable = false then .error .storeRead
        else match n.documentText doc with
          | .ok text => .ok ⟨collection, docId, .upsert, some text⟩
          | .error _ => .error .decrypt := by
  unfold DocumentCodec.forwardStoreChange
  rw [hdoc]
  simp only [DocumentCodec.rawText, map_some, DocumentCodec.documentText]
  cases hvalue : DocumentCodec.encryptedValue (n.conversion.automergeToJson doc) with
  | none => simp only [isEncrypted_toText, Bool.false_eq_true, if_false]
  | some encrypted =>
    simp only [isEncrypted_of_encryptedValue hvalue, if_true, DocumentCodec.maybeDecrypt]
    cases n.cipher with
    | none => rfl
    | some cipher => cases hplain : cipher.decrypt encrypted <;> simp only [hplain]

/-- **The forwarder sends what `get_document` returns**: for a document that is there, an upsert
with the text it is read as. -/
theorem forwardStoreChange_of_present {n : DocumentCodec} {readable : Bool}
    (hdoc : s.read key = some doc) (h : n.forwardStoreChange key readable s = .ok e) :
    e.changeType = .upsert ∧ ∃ text, e.jsonData = some text ∧ n.documentText doc = .ok text := by
  rw [forwardStoreChange_eq hdoc] at h
  split at h
  · cases h
  · split_ifs at h
    split at h
    · next text htext =>
      cases h
      exact ⟨rfl, text, rfl, htext⟩
    · cases h

theorem exists_forwardStoreChange {n : DocumentCodec} (hparts : splitKey key = some parts)
    (hlimits : parts.1.utf8ByteSize ≤ maxBridgeIdentityBytes ∧
      parts.2.utf8ByteSize ≤ maxBridgeIdentityBytes)
    (hdoc : s.read key = some doc) (htext : (n.documentText doc).isOk) :
    ∃ event, n.forwardStoreChange key true s = .ok event := by
  have hshort : ¬ (maxBridgeIdentityBytes < parts.1.utf8ByteSize ∨
      maxBridgeIdentityBytes < parts.2.utf8ByteSize) := by omega
  rw [forwardStoreChange_eq hdoc, hparts]
  simp only [if_neg hshort]
  cases hread : n.documentText doc with
  | error e =>
    rw [hread] at htext
    cases htext
  | ok text => exact ⟨_, rfl⟩

/-! ### The feed -/

inductive Holder
  | notifying
  | deleted
deriving DecidableEq

/-- A receiver: where it started, what it reads next and has read. -/
structure Subscriber where
  start : ℕ
  next : ℕ
  received : List ChangeEvent

structure ChangeFeed where
  store : DocumentStore
  holder : Option Holder
  notified : ℕ
  hydrated : Option ChangeEvent
  changeTx : Channel ChangeEvent
  subscriber : Option Subscriber

inductive FeedLabel
  | putDocument (nonce : Nonce) (o : StoreOutcome) (json : String)
  | notify
  | deleteDocument (o : DeleteOutcome)
  | sendDelete
  | hydrate (readable : Bool)
  | forward
  | subscribe
  | recv

namespace ChangeFeed

/-- Before any call on the document. -/
def start (store : DocumentStore) : ChangeFeed := ⟨store, none, 0, none, .new 256, none⟩

variable (n : DocumentCodec) (observed : Bool) (collection docId : String)

def step (s : ChangeFeed) : FeedLabel → Option ChangeFeed
  | .putDocument nonce o json =>
    if s.holder = none then
      match n.putDocument nonce o collection docId json s.store with
      | (.ok (), store) => some { s with store, holder := some .notifying }
      | (.error _, store) => some { s with store }
    else none
  | .notify =>
    if s.holder = some .notifying then
      some { s with holder := none, notified := s.notified + 1 }
    else none
  | .deleteDocument o =>
    if s.holder = none then
      match Node.deleteDocument o collection docId s.store with
      | (.ok (), store) =>
        some { s with store, holder := some .deleted, notified := s.notified + observed.toNat }
      | (.error _, store) => some { s with store }
    else none
  | .sendDelete =>
    if s.holder = some .deleted then
      some { s with holder := none, changeTx := s.changeTx.send ⟨collection, docId, .delete, none⟩ }
    else none
  | .hydrate readable =>
    if s.notified = 0 ∨ s.hydrated ≠ none then none
    else match n.forwardStoreChange (documentKey collection docId) readable s.store with
      | .error _ => some { s with notified := s.notified - 1 }
      | .ok event => some { s with notified := s.notified - 1, hydrated := some event }
  | .forward =>
    match s.hydrated with
    | none => none
    | some event => some { s with hydrated := none, changeTx := s.changeTx.send event }
  | .subscribe =>
    some { s with subscriber := some ⟨s.changeTx.sent.length, s.changeTx.sent.length, []⟩ }
  | .recv =>
    match s.subscriber with
    | none => none
    | some r =>
      match s.changeTx.recv r.next with
      | (.message event, next) =>
        some { s with subscriber := some ⟨r.start, next, r.received ++ [event]⟩ }
      | (_, next) => some { s with subscriber := some { r with next } }

/-! ### Agreement with the store -/

/-- The event says what the store holds. -/
def Agrees (store : DocumentStore) (e : ChangeEvent) : Prop :=
  match store.read (documentKey collection docId) with
  | none => e.changeType = .delete
  | some _ => e.changeType = .upsert ∧ ∃ text, e.jsonData = some text ∧
      n.getDocument collection docId true store = .ok (some text)

/-- Calls over, notifications forwarded. -/
def Quiet (s : ChangeFeed) : Prop := s.holder = none ∧ s.notified = 0 ∧ s.hydrated = none
deriving Decidable

/-- In the end the last event agrees with the store. -/
def Converged (s : ChangeFeed) : Prop :=
  s.Quiet → ∀ r ∈ s.subscriber, r.next = s.changeTx.sent.length →
    ∀ e, r.received.getLast? = some e → Agrees n collection docId s.store e

/-- No upsert was sent without a text. -/
def Texted (s : ChangeFeed) : Prop :=
  ∀ e ∈ s.changeTx.sent, e.changeType = .upsert → e.jsonData ≠ none

/-- Failing calls leave the store as it was; the forwarder finds the document, under a key within
the limits, and can read and decrypt it; no delete comes between that and its send; the subscriber
does not lag. -/
def Uncrossed (s : ChangeFeed) : FeedLabel → Prop
  | .putDocument _ o _ => o.put ≠ .error true
  | .deleteDocument o => o.delete ≠ .error true ∧ s.hydrated = none
  | .hydrate readable => readable = true ∧
      (∃ parts ∈ splitKey (documentKey collection docId),
        parts.1.utf8ByteSize ≤ maxBridgeIdentityBytes ∧
          parts.2.utf8ByteSize ≤ maxBridgeIdentityBytes) ∧
      ∃ doc ∈ s.store.read (documentKey collection docId), (n.documentText doc).isOk
  | .recv => ∀ r ∈ s.subscriber, s.changeTx.oldest ≤ r.next
  | .notify | .sendDelete | .forward | .subscribe => True

instance (s : ChangeFeed) (label : FeedLabel) :
    Decidable (Uncrossed n collection docId s label) := by
  cases label <;> unfold Uncrossed <;> infer_instance

/-! ### What the locked sections leave -/

variable {n observed collection docId} {s s' : ChangeFeed}

theorem put_cases (hput : o.put ≠ .error true)
    (h : step n observed collection docId s (.putDocument nonce o json) = some s') :
    ∃ store, (s' = { s with store, holder := some .notifying } ∧
        (store.read (documentKey collection docId)).isSome) ∨
      (s' = { s with store } ∧
        store.read (documentKey collection docId) = s.store.read (documentKey collection docId)) := by
  have hread := n.read_putDocument nonce o collection docId json s.store
  simp only [step] at h
  split_ifs at h with hfree
  obtain ⟨doc, -, -, heq⟩ | ⟨doc, -, herror, -⟩ | ⟨e, -, heq⟩ :=
    n.writeDocument_cases .upsert nonce o collection docId json s.store.read
  · rw [heq] at hread
    simp only [DocumentCodec.putDocument, heq, some.injEq] at h hread
    exact ⟨_, .inl ⟨h.symm, by rw [hread]; simp⟩⟩
  · exact absurd herror hput
  · rw [heq] at hread
    simp only [DocumentCodec.putDocument, heq, some.injEq] at h hread
    exact ⟨_, .inr ⟨h.symm, by rw [hread]⟩⟩

theorem delete_cases (hdelete : o.delete ≠ .error true)
    (h : step n observed collection docId s (.deleteDocument o) = some s') :
    s' = s ∨ s' = { s with
      store := s.store.set (documentKey collection docId) none
      holder := some .deleted
      notified := s.notified + observed.toNat } := by
  simp only [step, deleteDocument] at h
  split_ifs at h with hfree hledger
  · exact .inl (some.inj h).symm
  · split at h
    · next hok =>
      split at hok
      · obtain ⟨-, rfl⟩ := Prod.mk.inj hok
        exact .inr (some.inj h).symm
      · cases hok
      · cases hok
    · next herror =>
      split at herror
      · cases herror
      · contradiction
      · obtain ⟨-, rfl⟩ := Prod.mk.inj herror
        exact .inl (some.inj h).symm

/-! ### The invariant -/

/-- What the forwarder has in hand is an upsert with the text of a document still there; what was
received is what was sent; where no notification is on its way, the last event, or the one in
hand, agrees with the store. -/
structure Tracked (n : DocumentCodec) (collection docId : String) (s : ChangeFeed) : Prop where
  present : s.hydrated.isSome → (s.store.read (documentKey collection docId)).isSome
  texted : ∀ e ∈ s.hydrated, e.jsonData ≠ none
  absent : s.holder = some .deleted → s.store.read (documentKey collection docId) = none
  sent : s.Texted
  agrees : s.holder = none → s.notified = 0 →
    ∀ e, s.hydrated.or s.changeTx.sent.getLast? = some e → Agrees n collection docId s.store e
  received : ∀ r ∈ s.subscriber, r.start ≤ r.next ∧ r.next ≤ s.changeTx.sent.length ∧
    r.received = s.changeTx.between r.start r.next

theorem Tracked.init (store : DocumentStore) : Tracked n collection docId (start store) where
  present := nofun
  texted := nofun
  absent := nofun
  sent := nofun
  agrees _ _ e he := by simp [start, new] at he
  received := nofun

theorem Agrees.congr {store store' : DocumentStore}
    (h : store'.read (documentKey collection docId) = store.read (documentKey collection docId))
    (hagrees : Agrees n collection docId store e) : Agrees n collection docId store' e := by
  unfold Agrees DocumentCodec.getDocument at hagrees ⊢
  rwa [h]

namespace Tracked

variable (hs : Tracked n collection docId s)
include hs

theorem write {store : DocumentStore} (hpresent : (store.read (documentKey collection docId)).isSome) :
    Tracked n collection docId { s with store, holder := some .notifying } :=
  { hs with present := fun _ => hpresent, absent := nofun, agrees := nofun }

theorem sameEntry {store : DocumentStore}
    (h : store.read (documentKey collection docId) = s.store.read (documentKey collection docId)) :
    Tracked n collection docId { s with store } :=
  { hs with
    present := fun hsome => by
      rw [h]
      exact hs.present hsome
    absent := fun hheld => by
      rw [h]
      exact hs.absent hheld
    agrees := fun hfree hnone e he => (hs.agrees hfree hnone e he).congr h }

theorem erase (more : ℕ) (hidle : s.hydrated = none) : Tracked n collection docId { s with
      store := s.store.set (documentKey collection docId) none
      holder := some .deleted
      notified := s.notified + more } :=
  { hs with
    present := fun hsome => by simp [hidle] at hsome
    absent := fun _ => s.store.read_set_self ..
    agrees := nofun }

/-- A sent event; what was received stays what it was. -/
theorem received_send (e : ChangeEvent) : ∀ r ∈ s.subscriber,
    r.start ≤ r.next ∧ r.next ≤ (s.changeTx.send e).sent.length ∧
      r.received = (s.changeTx.send e).between r.start r.next := by
  intro r hr
  obtain ⟨hstart, hnext, hreceived⟩ := hs.received r hr
  refine ⟨hstart, ?_, by rw [hreceived, between_send e hnext]⟩
  simp only [send, length_append, length_singleton]
  omega

theorem sendDelete (hheld : s.holder = some .deleted) : Tracked n collection docId { s with
      holder := none
      changeTx := s.changeTx.send ⟨collection, docId, .delete, none⟩ } where
  present := hs.present
  texted := hs.texted
  absent := nofun
  sent := forall_mem_append.2 ⟨hs.sent, forall_mem_singleton.2 nofun⟩
  agrees _ _ e he := by
    have habsent := hs.absent hheld
    -- a document that is gone is not in the forwarder's hands
    have hidle : s.hydrated = none := by
      by_contra hne
      have := hs.present (isSome_iff_ne_none.2 hne)
      simp [habsent] at this
    obtain rfl : e = ⟨collection, docId, .delete, none⟩ := by
      simpa [hidle, send, eq_comm] using he
    simp [Agrees, habsent]
  received := hs.received_send _

variable {event : ChangeEvent}

theorem hydrate (hpresent : (s.store.read (documentKey collection docId)).isSome)
    (hevent : n.forwardStoreChange (documentKey collection docId) readable s.store = .ok event) :
    Tracked n collection docId { s with notified := s.notified - 1, hydrated := some event } := by
  obtain ⟨doc, hdoc⟩ := isSome_iff_exists.1 hpresent
  obtain ⟨htype, text, htext, hget⟩ := forwardStoreChange_of_present hdoc hevent
  exact { hs with
    present := fun _ => hpresent
    texted := fun e he => by
      cases he
      simp [htext]
    agrees := fun _ _ e he => by
      cases he
      simp [Agrees, hdoc, htype, htext, DocumentCodec.getDocument, hget, Except.map] }

theorem forward (hevent : s.hydrated = some event) : Tracked n collection docId
      { s with hydrated := none, changeTx := s.changeTx.send event } where
  present := nofun
  texted := nofun
  absent := hs.absent
  sent := forall_mem_append.2
    ⟨hs.sent, forall_mem_singleton.2 fun _ => hs.texted _ hevent⟩
  agrees hfree hnone e he := by
    obtain rfl : e = event := by simpa [send, eq_comm] using he
    exact hs.agrees hfree hnone e (by simp [hevent])
  received := hs.received_send _

theorem recv (hr : s.subscriber = some r) (hevent : s.changeTx.sent[r.next]? = some event) :
    Tracked n collection docId
      { s with subscriber := some ⟨r.start, r.next + 1, r.received ++ [event]⟩ } :=
  { hs with
    received := fun r' hr' => by
      cases hr'
      obtain ⟨hstart, hnext, hreceived⟩ := hs.received r hr
      have hlt := (List.getElem?_eq_some_iff.1 hevent).1
      refine ⟨by simp only; omega, by simp only; omega, ?_⟩
      rw [between_succ hstart hevent, ← hreceived] }

/-- **One step** of an uncrossed feed keeps it tracked. -/
theorem step (hok : Uncrossed n collection docId s label)
    (h : ChangeFeed.step n observed collection docId s label = some s') :
    Tracked n collection docId s' := by
  cases label with
  | putDocument nonce o json =>
    obtain ⟨store, ⟨rfl, hpresent⟩ | ⟨rfl, hsame⟩⟩ := put_cases hok h
    · exact hs.write hpresent
    · exact hs.sameEntry hsame
  | notify =>
    simp only [ChangeFeed.step] at h
    split_ifs at h
    cases h
    exact { hs with absent := nofun, agrees := fun _ hnone => by simp at hnone }
  | deleteDocument o =>
    obtain rfl | rfl := delete_cases hok.1 h
    · exact hs
    · exact hs.erase _ hok.2
  | sendDelete =>
    simp only [ChangeFeed.step] at h
    split_ifs at h with hheld
    cases h
    exact hs.sendDelete hheld
  | hydrate readable =>
    obtain ⟨hreadable, ⟨parts, hparts, hlimits⟩, doc, hdoc, htext⟩ := hok
    obtain ⟨event, hevent⟩ := exists_forwardStoreChange hparts hlimits hdoc htext
    simp only [ChangeFeed.step, hreadable, hevent] at h
    split_ifs at h
    cases h
    exact hs.hydrate (isSome_iff_exists.2 ⟨doc, hdoc⟩) hevent
  | forward =>
    simp only [ChangeFeed.step] at h
    split at h
    · nomatch h
    · next event hevent =>
      cases h
      exact hs.forward hevent
  | subscribe =>
    cases h
    exact { hs with
      received := fun r hr => by
        cases hr
        exact ⟨le_rfl, le_rfl, (s.changeTx.between_self _).symm⟩ }
  | recv =>
    simp only [ChangeFeed.step] at h
    split at h
    · nomatch h
    · next r hr =>
      have hnolag := hok r hr
      cases hevent : s.changeTx.sent[r.next]? with
      | some event =>
        rw [recv_of_some hnolag hevent] at h
        cases h
        exact hs.recv hr hevent
      | none =>
        have hsame : s' = { s with subscriber := some r } := by
          rw [recv_of_none hnolag hevent] at h
          cases hclosed : s.changeTx.closed <;> simp [hclosed] at h <;> exact h.symm
        rw [hsame, ← hr]
        exact hs

theorem converged : s.Converged n collection docId := by
  rintro ⟨hfree, hnone, hidle⟩ r hr hdrained e he
  obtain ⟨-, -, hreceived⟩ := hs.received r hr
  rw [hreceived, hdrained] at he
  exact hs.agrees hfree hnone e (by simpa [hidle] using getLast?_of_between he)

end Tracked

/-! ### The result -/

/-- **The feed converges.** In every run in which no failing call changes the store, the forwarder
finds the document whenever it looks, no delete comes between that look and the send, and the
subscriber does not lag, every state is converged and no upsert is sent without a text. -/
theorem feed_converges (n : DocumentCodec) (observed : Bool) (collection docId : String)
    (store : DocumentStore) (labels : List FeedLabel) (s : ChangeFeed)
    (hok : Lts.Along (step n observed collection docId) (Uncrossed n collection docId) (start store)
      labels) (hrun : Lts.exec (step n observed collection docId) (start store) labels = some s) :
    s.Converged n collection docId ∧ s.Texted := by
  have hs : Tracked n collection docId s :=
    Lts.exec_invariant (Tracked n collection docId) (fun _ _ _ hs hok h => hs.step hok h)
      (Tracked.init store) hok hrun
  exact ⟨hs.converged, hs.sent⟩

/-! ### Samples -/

def okPut : FeedLabel := .putDocument ⟨List.replicate 12 0, rfl⟩ ⟨true, true, .ok⟩ "\x7b\x7d"

def okDelete : FeedLabel := .deleteDocument ⟨true, .ok⟩

/-- A subscriber that reads everything. -/
def orderly : List FeedLabel :=
  [.subscribe, okPut, .notify, .hydrate true, .forward, .recv, okDelete, .sendDelete, .recv, okPut,
    .notify, .hydrate true, .forward, .recv]

/-- The orderly run ends quiet, with an upsert as the last event received. -/
theorem orderly_converges :
    ∃ s ∈ Lts.exec (step plainNode false "nodes" "alpha") (start .empty) orderly,
      (s.Quiet ∧ (s.subscriber.bind (·.received.getLast?)) =
        some ⟨"nodes", "alpha", .upsert, some "\x7b\x7d"⟩) ∧
      s.Converged plainNode "nodes" "alpha" ∧ s.Texted :=
  Lts.exists_mem_and (by decide +kernel) fun s hrun _ =>
    feed_converges plainNode false "nodes" "alpha" .empty orderly s (by decide +kernel) hrun

/-- The delete overtakes a notification. -/
def overtaken : List FeedLabel :=
  [.subscribe, okPut, .notify, okDelete, .sendDelete, .recv, .hydrate true, .forward, .recv]

/-- **A delete can be overtaken**: all is forwarded and received, the document is gone, and the
last event is an upsert without a text. -/
theorem delete_overtaken : ∃ s,
    Lts.exec (step plainNode false "nodes" "alpha") (start .empty) overtaken = some s ∧ s.Quiet ∧
      plainNode.getDocument "nodes" "alpha" true s.store = .ok none ∧
      (s.subscriber.bind (·.received.getLast?)) = some ⟨"nodes", "alpha", .upsert, none⟩ ∧
      ¬ s.Converged plainNode "nodes" "alpha" ∧ ¬ s.Texted := by
  have hend : ∃ s ∈ Lts.exec (step plainNode false "nodes" "alpha") (start .empty) overtaken,
      s.Quiet ∧
      (s.store.read (documentKey "nodes" "alpha")).isNone ∧
      s.changeTx.sent.getLast? = some ⟨"nodes", "alpha", .upsert, none⟩ ∧
      ∃ r ∈ s.subscriber, r.next = s.changeTx.sent.length ∧
        r.received.getLast? = some ⟨"nodes", "alpha", .upsert, none⟩ := by
    decide +kernel
  obtain ⟨s, hrun, hquiet, hnone, hsent, r, hr, hdrained, hlast⟩ := hend
  have habsent := isNone_iff_eq_none.1 hnone
  refine ⟨s, hrun, hquiet, by simp [DocumentCodec.getDocument, habsent], ?_, ?_, ?_⟩
  · rw [mem_def.1 hr]
    exact hlast
  · intro hconv
    have hagrees := hconv hquiet r hr hdrained _ hlast
    simp [Agrees, habsent] at hagrees
  · intro htexted
    exact htexted _ (mem_of_getLast? hsent) rfl rfl

end ChangeFeed

end PeatNode.Node
