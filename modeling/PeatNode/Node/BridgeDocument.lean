/-
# Bridge documents in the store

`write_document` of `src/node.rs`, the path every local document takes into the store, and the two
bounded reads of the bridge: `forward_bridge_changes` and `get_bridge_document`.

What the calls of the store return is an input (`StoreOutcome`); a `put` that reports an error may
have taken effect or not.  `DocumentCodec` holds what the node gets from its configuration and from
Automerge.
-/

import PeatNode.Egress.Envelope
import PeatNode.Node.PreflightLimits

namespace PeatNode.Node

open Bridge Egress Reconcile

def maxBridgeAutomergeBytes : ℕ := 8 * 1048576

/-- How a node turns JSON into documents and back. -/
structure DocumentCodec where
  range : NumberRange
  conversion : Conversion
  saveNocompress : Document → ℕ
  cipher : Option StoreCipher

/-! ### Writing -/

abbrev Store := String → Option Document

inductive DocumentWriteMode
  | upsert
  | createOnly
deriving DecidableEq

/-- `DocumentWriteError` without the errors it carries; also `CreateBridgeDocumentError`. -/
inductive DocumentWriteError
  | alreadyExists
  | invalidInput
  | encryption
  | conversion
  | storeRead
  | storeWrite
  | ledger
deriving DecidableEq

/-- What `AutomergeStore::put` does. -/
inductive PutOutcome
  | ok
  | error (effective : Bool)
deriving DecidableEq

/-- Whether `record_local_exclusion` and `AutomergeStore::get` succeed, and what
`put` does. -/
structure StoreOutcome where
  ledger : Bool
  get : Bool
  put : PutOutcome
deriving DecidableEq

namespace DocumentCodec

/-- The document of a JSON text, over a stored one or not. -/
def encode (n : DocumentCodec) (nonce : Nonce) (json : String) (parsed : Json.Value)
    (base : Option Document) : Except DocumentWriteError Document :=
  match n.cipher with
  | some cipher =>
    match cipher.encrypt nonce json with
    | none => .error .encryption
    | some ciphertext =>
      match n.conversion.jsonToAutomerge (.object [("value", .string ciphertext)]) base with
      | none => .error .conversion
      | some doc => .ok doc
  | none =>
    match n.conversion.jsonToAutomerge parsed base with
    | none => .error .conversion
    | some doc => .ok doc

def writeDocument (n : DocumentCodec) (mode : DocumentWriteMode) (nonce : Nonce) (o : StoreOutcome)
    (collection docId json : String) (store : Store) : Except DocumentWriteError Unit × Store :=
  match n.range.fromStr json with
  | none => (.error .invalidInput, store)
  | some parsed =>
    let key := documentKey collection docId
    if o.ledger = false then (.error .ledger, store)
    else if o.get = false then (.error .storeRead, store)
    else if mode = .createOnly ∧ (store key).isSome then (.error .alreadyExists, store)
    else
      let base := match mode with
        | .upsert => store key
        | .createOnly => none
      match n.encode nonce json parsed base with
      | .error e => (.error e, store)
      | .ok doc =>
        match o.put with
        | .ok => (.ok (), Function.update store key (some doc))
        | .error true => (.error .storeWrite, Function.update store key (some doc))
        | .error false => (.error .storeWrite, store)

/-- `SidecarNode::create_bridge_document`. -/
def createBridgeDocument (n : DocumentCodec) (nonce : Nonce) (o : StoreOutcome)
    (collection docId envelopeJson : String) (store : Store) :
    Except DocumentWriteError Unit × Store :=
  n.writeDocument .createOnly nonce o collection docId envelopeJson store

theorem encode_ne_storeWrite (n : DocumentCodec) (nonce : Nonce) (json : String)
    (parsed : Json.Value) (base : Option Document) :
    n.encode nonce json parsed base ≠ .error .storeWrite := by
  unfold encode
  repeat' split
  all_goals simp

/-- `write_document` writes and says so, writes and reports an error, or fails without an effect.
A create-only write takes place only where there was nothing. -/
theorem writeDocument_cases (n : DocumentCodec) (mode : DocumentWriteMode) (nonce : Nonce)
    (o : StoreOutcome) (collection docId json : String) (store : Store) :
    (∃ doc, (mode = .createOnly → store (documentKey collection docId) = none) ∧ o.put = .ok ∧
        n.writeDocument mode nonce o collection docId json store =
          (.ok (), Function.update store (documentKey collection docId) (some doc))) ∨
      (∃ doc, (mode = .createOnly → store (documentKey collection docId) = none) ∧
        o.put = .error true ∧ n.writeDocument mode nonce o collection docId json store =
          (.error .storeWrite, Function.update store (documentKey collection docId) (some doc))) ∨
      ∃ e, (e = .storeWrite → o.put ≠ .error true) ∧
        n.writeDocument mode nonce o collection docId json store = (.error e, store) := by
  unfold writeDocument
  split
  · exact .inr (.inr ⟨.invalidInput, nofun, rfl⟩)
  dsimp only
  split_ifs with hledger hget hexists
  · exact .inr (.inr ⟨.ledger, nofun, rfl⟩)
  · exact .inr (.inr ⟨.storeRead, nofun, rfl⟩)
  · exact .inr (.inr ⟨.alreadyExists, nofun, rfl⟩)
  have hnone : mode = .createOnly → store (documentKey collection docId) = none := by
    intro hmode
    simpa [hmode] using hexists
  split
  · next e hencode =>
    refine .inr (.inr ⟨e, ?_, rfl⟩)
    rintro rfl
    exact absurd hencode (n.encode_ne_storeWrite nonce json _ _)
  · next doc hencode =>
    cases o.put with
    | ok => exact .inl ⟨doc, hnone, rfl, rfl⟩
    | error effective =>
      cases effective with
      | true => exact .inr (.inl ⟨doc, hnone, rfl, rfl⟩)
      | false => exact .inr (.inr ⟨.storeWrite, nofun, rfl⟩)

theorem createBridgeDocument_cases (n : DocumentCodec) (nonce : Nonce) (o : StoreOutcome)
    (collection docId json : String) (store : Store) :
    (∃ doc, store (documentKey collection docId) = none ∧ o.put = .ok ∧
        n.createBridgeDocument nonce o collection docId json store =
          (.ok (), Function.update store (documentKey collection docId) (some doc))) ∨
      (∃ doc, store (documentKey collection docId) = none ∧ o.put = .error true ∧
        n.createBridgeDocument nonce o collection docId json store =
          (.error .storeWrite, Function.update store (documentKey collection docId) (some doc))) ∨
      ∃ e, (e = .storeWrite → o.put ≠ .error true) ∧
        n.createBridgeDocument nonce o collection docId json store = (.error e, store) := by
  simpa only [forall_const, createBridgeDocument] using
    n.writeDocument_cases .createOnly nonce o collection docId json store

/-! ### Reading -/

/-- The text under `value`, if it is encrypted. -/
def encryptedValue (snapshot : Json.Value) : Option String :=
  match snapshot with
  | .object members =>
    match members.find? (·.1 = "value") with
    | some (_, .string s) => if StoreCipher.isEncrypted s then some s else none
    | _ => none
  | _ => none

section Encode

variable {n : DocumentCodec} {nonce : Nonce} {json : String} {parsed : Json.Value} {doc : Document}

theorem exists_doc_of_write (hparse : n.range.fromStr json = some parsed)
    (hnew : mode = .createOnly ∨ store (documentKey collection docId) = none)
    (h : (n.writeDocument mode nonce o collection docId json store).1 = .ok ()) :
    ∃ doc, (n.writeDocument mode nonce o collection docId json store).2
        (documentKey collection docId) = some doc ∧ n.encode nonce json parsed none = .ok doc := by
  unfold writeDocument at h ⊢
  simp only [hparse] at h ⊢
  split_ifs at h ⊢
  have hbase : (match mode with
      | .upsert => store (documentKey collection docId)
      | .createOnly => none) = none := by
    cases mode with
    | upsert => exact hnew.resolve_left nofun
    | createOnly => rfl
  rw [hbase] at h ⊢
  split at h
  · simp at h
  · rename_i doc hencode
    cases hput : o.put with
    | ok => exact ⟨doc, by simp, hencode⟩
    | error effective => cases effective <;> simp [hput] at h

theorem exists_of_value
    (h : Represents (.object [("value", .string ciphertext)]) (.object (.map doc))) :
    ∃ w, doc = [("value", w)] ∧ Represents (.string ciphertext) w := by
  rcases h with _ | _ | _ | _ | _ | _ | @⟨_, es, _, hms, hperm⟩
  rcases hms with _ | @⟨_, _, w, _, _, hw, hms⟩
  cases hms
  exact ⟨w, (List.perm_singleton.1 hperm.symm), hw⟩

/-- With a cipher: the ciphertext, the document and what is found in its snapshot. -/
theorem encode_of_cipher {cipher : StoreCipher} (hcipher : n.cipher = some cipher)
    (h : n.encode nonce json parsed none = .ok doc) :
    ∃ ciphertext w, cipher.encrypt nonce json = some ciphertext ∧ doc = [("value", w)] ∧
      Represents (.string ciphertext) w ∧
      encryptedValue (n.conversion.automergeToJson doc) = some ciphertext := by
  unfold encode at h
  simp only [hcipher] at h
  split at h
  · simp at h
  · rename_i ciphertext hencrypt
    split at h
    · simp at h
    · rename_i doc' hconv
      cases h
      obtain ⟨w, rfl, hw⟩ := exists_of_value (n.conversion.represents _ _ hconv)
      refine ⟨ciphertext, w, hencrypt, rfl, hw, ?_⟩
      -- the snapshot of a document with one entry
      have hsame := n.conversion.roundTrip _ _ hconv
      generalize n.conversion.automergeToJson [("value", w)] = v at hsame
      rcases hsame with _ | _ | _ | _ | _ | @⟨_, ns, ns', hms, hperm⟩
      rcases hms with _ | ⟨hvalue, hms⟩
      cases hms
      cases hvalue
      rw [List.perm_singleton.1 hperm.symm]
      simp [encryptedValue, StoreCipher.isEncrypted_encrypt hencrypt]

/-- Without a cipher: the document and its snapshot. -/
theorem encode_of_plain (hcipher : n.cipher = none) (h : n.encode nonce json parsed none = .ok doc) :
    Represents parsed (.object (.map doc)) ∧
      Json.Same parsed (n.conversion.automergeToJson doc) := by
  unfold encode at h
  simp only [hcipher] at h
  split at h
  · simp at h
  · rename_i doc' hconv
    cases h
    exact ⟨n.conversion.represents _ _ hconv, n.conversion.roundTrip _ _ hconv⟩

end Encode

/-- `none` where the document is gone. -/
def forwardBridgeChange (n : DocumentCodec) (key remotePeerId : String)
    (read : Except Unit (Option Document)) :
    Except NodeChangeRejectKind (Option BridgeChangeEvent) :=
  match splitKey key with
  | none => .error .invalidKey
  | some (collection, docId) =>
    if maxBridgeIdentityBytes < collection.utf8ByteSize ∨
        maxBridgeIdentityBytes < docId.utf8ByteSize ∨
        maxBridgeIdentityBytes < remotePeerId.utf8ByteSize then .error .identityTooLarge
    else match read with
      | .error _ => .error .storeRead
      | .ok none => .ok none
      | .ok (some doc) =>
        if maxBridgeAutomergeBytes < n.saveNocompress doc then .error .encodedTooLarge
        else match preflightEventDocument doc with
          | .error kind => .error kind
          | .ok () =>
            let snapshot := n.conversion.automergeToJson doc
            let jsonData : Except NodeChangeRejectKind String :=
              match encryptedValue snapshot with
              | some encrypted =>
                match n.cipher with
                | none => .error .decrypt
                | some cipher =>
                  match cipher.decrypt encrypted with
                  | some plaintext => .ok plaintext
                  | none => .error .decrypt
              | none => .ok snapshot.toText
            match jsonData with
            | .error kind => .error kind
            | .ok jsonData =>
              if maxBridgeEventJsonBytes < jsonData.utf8ByteSize then .error .eventTooLarge
              else .ok (some ⟨collection, docId, remotePeerId, jsonData⟩)

inductive ReadError
  | storeRead
  | decrypt
deriving DecidableEq

/-- With what the store returns. -/
def getBridgeDocument (n : DocumentCodec) (collection docId : String)
    (read : Except Unit (Option Document)) : Except ReadError (Option String) :=
  if maxBridgeIdentityBytes < collection.utf8ByteSize ∨
      maxBridgeIdentityBytes < docId.utf8ByteSize then .ok none
  else match read with
    | .error _ => .error .storeRead
    | .ok none => .ok none
    | .ok (some doc) =>
      if maxBridgeAutomergeBytes < n.saveNocompress doc then .ok none
      else match preflightEventDocument doc with
        | .error _ => .ok none
        | .ok () =>
          let json := n.conversion.automergeToJson doc
          let value : Except ReadError (Option String) :=
            match encryptedValue json with
            | some encrypted =>
              match n.cipher with
              | none => .ok none
              | some cipher =>
                match cipher.decrypt encrypted with
                | some plaintext => .ok (some plaintext)
                | none => .error .decrypt
            | none => .ok (some json.toText)
          match value with
          | .error e => .error e
          | .ok value =>
            .ok (value.filter fun value => value.utf8ByteSize ≤ maxBridgeEventJsonBytes)

end DocumentCodec

end PeatNode.Node
