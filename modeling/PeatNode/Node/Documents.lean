/-
# Documents by collection

`put_document`, `get_document`, `delete_document` and `list_documents` of `src/node.rs`.  A document
lies under `{collection}:{doc_id}` in one flat store, and a listing takes every key that starts with
`{collection}:`.  With a colon inside an identifier two collections may share documents
(`colon_shares_documents`).
-/

import Mathlib.Data.Finset.Sort
import PeatNode.Node.BridgeDocument

namespace PeatNode.Node

open Reconcile Function Finset

/-! ### The store -/

/-- The store as a finite map; its keys are listed in order. -/
structure DocumentStore where
  read : Store
  keys : Finset String
  mem_keys : ∀ key, key ∈ keys ↔ (read key).isSome

namespace DocumentStore

def empty : DocumentStore where
  read _ := none
  keys := ∅
  mem_keys := by simp

def set (s : DocumentStore) (key : String) (entry : Option Document) : DocumentStore where
  read := Function.update s.read key entry
  keys := if entry.isSome then insert key s.keys else s.keys.erase key
  mem_keys key' := by
    by_cases hkey : key' = key
    · subst hkey
      cases entry <;> simp
    · cases entry <;> simp [hkey, s.mem_keys]

@[simp] theorem read_set_self (s : DocumentStore) (key : String) (entry : Option Document) :
    (s.set key entry).read key = entry := update_self ..

theorem read_set_of_ne (s : DocumentStore) (entry : Option Document) (h : key' ≠ key) :
    (s.set key entry).read key' = s.read key' := update_of_ne h ..

/-- The keys of `AutomergeStore::scan_prefix`. -/
def scanPrefix (s : DocumentStore) (lead : String) : List String :=
  (s.keys.filter fun key => (stripPrefix lead key).isSome).sort (· ≤ ·)

theorem mem_scanPrefix {s : DocumentStore} :
    key ∈ s.scanPrefix lead ↔ (s.read key).isSome ∧ (stripPrefix lead key).isSome := by
  rw [scanPrefix, mem_sort, mem_filter, s.mem_keys]

theorem scanPrefix_set (s : DocumentStore) (entry : Option Document)
    (h : stripPrefix lead key = none) : (s.set key entry).scanPrefix lead = s.scanPrefix lead := by
  have hkeys : (s.set key entry).keys.filter (fun key => (stripPrefix lead key).isSome) =
      s.keys.filter fun key => (stripPrefix lead key).isSome := by
    ext key'
    rw [mem_filter, mem_filter, mem_keys, mem_keys]
    by_cases hkey : key' = key
    · subst hkey
      simp [h]
    · rw [s.read_set_of_ne entry hkey]
  rw [scanPrefix, hkeys, scanPrefix]

end DocumentStore

/-! ### Calls -/

/-- What fails in `delete_document`. -/
inductive DocumentDeleteError
  | ledger
  | storeDelete
deriving DecidableEq

/-- Whether `record_local_exclusion` succeeds, and what `delete` does. -/
structure DeleteOutcome where
  ledger : Bool
  delete : PutOutcome
deriving DecidableEq

namespace DocumentCodec

theorem writeDocument_frame (n : DocumentCodec) (mode : DocumentWriteMode) (nonce : Nonce)
    (o : StoreOutcome) (collection docId json : String) (store : Store)
    (h : key ≠ documentKey collection docId) :
    (n.writeDocument mode nonce o collection docId json store).2 key = store key := by
  obtain ⟨doc, -, -, heq⟩ | ⟨doc, -, -, heq⟩ | ⟨e, -, heq⟩ :=
    n.writeDocument_cases mode nonce o collection docId json store
  · rw [heq]
    exact update_of_ne h ..
  · rw [heq]
    exact update_of_ne h ..
  · rw [heq]

def putDocument (n : DocumentCodec) (nonce : Nonce) (o : StoreOutcome)
    (collection docId json : String) (s : DocumentStore) :
    Except DocumentWriteError Unit × DocumentStore :=
  let (result, store) := n.writeDocument .upsert nonce o collection docId json s.read
  (result, s.set (documentKey collection docId) (store (documentKey collection docId)))

/-- The entry that `put_document` stores is the one `write_document` leaves. -/
theorem read_putDocument (n : DocumentCodec) (nonce : Nonce) (o : StoreOutcome)
    (collection docId json : String) (s : DocumentStore) :
    (n.putDocument nonce o collection docId json s).2.read =
      (n.writeDocument .upsert nonce o collection docId json s.read).2 := by
  funext key
  by_cases hkey : key = documentKey collection docId
  · subst hkey
    exact s.read_set_self ..
  · rw [n.writeDocument_frame _ _ _ _ _ _ _ hkey]
    exact s.read_set_of_ne _ hkey

/-- `maybe_decrypt` of an encrypted value. -/
def maybeDecrypt (n : DocumentCodec) (encrypted : String) : Except ReadError String :=
  match n.cipher with
  | none => .ok encrypted
  | some cipher =>
    match cipher.decrypt encrypted with
    | some plaintext => .ok plaintext
    | none => .error .decrypt

/-- What a stored document is read as. -/
def documentText (n : DocumentCodec) (doc : Document) : Except ReadError String :=
  let json := n.conversion.automergeToJson doc
  match encryptedValue json with
  | some encrypted => n.maybeDecrypt encrypted
  | none => .ok json.toText

/-- `readable` is false on a store error. -/
def getDocument (n : DocumentCodec) (collection docId : String) (readable : Bool)
    (s : DocumentStore) : Except ReadError (Option String) :=
  if readable = false then .error .storeRead
  else match s.read (documentKey collection docId) with
    | none => .ok none
    | some doc => (n.documentText doc).map some

end DocumentCodec

/-- `delete_document` on the store. -/
def deleteDocument (o : DeleteOutcome) (collection docId : String) (s : DocumentStore) :
    Except DocumentDeleteError Unit × DocumentStore :=
  if o.ledger = false then (.error .ledger, s)
  else match o.delete with
    | .ok => (.ok (), s.set (documentKey collection docId) none)
    | .error true => (.error .storeDelete, s.set (documentKey collection docId) none)
    | .error false => (.error .storeDelete, s)

/-- `readable` is false on a store error. -/
def listDocuments (collection : String) (readable : Bool) (s : DocumentStore) :
    Option (List String) :=
  if readable = false then none
  else some ((s.scanPrefix (collection ++ ":")).filterMap (docIdOf collection))

theorem mem_listDocuments {collection docId : String} {s : DocumentStore} :
    docId ∈ (s.scanPrefix (collection ++ ":")).filterMap (docIdOf collection) ↔
      (s.read (documentKey collection docId)).isSome := by
  simp only [List.mem_filterMap, docIdOf_eq_some_iff, DocumentStore.mem_scanPrefix]
  constructor
  · rintro ⟨key, ⟨hread, -⟩, rfl⟩
    exact hread
  · intro hread
    have hlead : docIdOf collection (documentKey collection docId) = some docId :=
      docIdOf_eq_some_iff.2 rfl
    exact ⟨_, ⟨hread, Option.isSome_iff_exists.2 ⟨docId, hlead⟩⟩, rfl⟩

/-! ### Isolation -/

/-- A local call that changes a document. -/
inductive LocalCall
  | putDocument (nonce : Nonce) (o : StoreOutcome) (json : String)
  | deleteDocument (o : DeleteOutcome)

namespace LocalCall

/-- The store after a call on one document. -/
def run (n : DocumentCodec) (collection docId : String) (s : DocumentStore) :
    LocalCall → DocumentStore
  | .putDocument nonce o json => (n.putDocument nonce o collection docId json s).2
  | .deleteDocument o => (Node.deleteDocument o collection docId s).2

theorem run_eq (n : DocumentCodec) (collection docId : String) (s : DocumentStore)
    (call : LocalCall) :
    call.run n collection docId s = s ∨
      ∃ entry, call.run n collection docId s = s.set (documentKey collection docId) entry := by
  cases call with
  | putDocument nonce o json => exact .inr ⟨_, rfl⟩
  | deleteDocument o =>
    simp only [run, Node.deleteDocument]
    split_ifs
    · exact .inl rfl
    · split
      · exact .inr ⟨_, rfl⟩
      · exact .inr ⟨_, rfl⟩
      · exact .inl rfl

end LocalCall

section Isolation

variable {n : DocumentCodec} {c₁ d₁ c₂ d₂ : String}

/-- Calls on the first document are not seen in a read of the second, nor in a listing of its
collection if that is another one. -/
def Isolated (n : DocumentCodec) (c₁ d₁ c₂ d₂ : String) : Prop :=
  ∀ (s : DocumentStore) (call : LocalCall) (readable : Bool),
    n.getDocument c₂ d₂ readable (call.run n c₁ d₁ s) = n.getDocument c₂ d₂ readable s ∧
      (c₁ ≠ c₂ → listDocuments c₂ readable (call.run n c₁ d₁ s) = listDocuments c₂ readable s)

theorem getDocument_run (s : DocumentStore) (call : LocalCall) (readable : Bool)
    (h : documentKey c₂ d₂ ≠ documentKey c₁ d₁) :
    n.getDocument c₂ d₂ readable (call.run n c₁ d₁ s) = n.getDocument c₂ d₂ readable s := by
  obtain heq | ⟨entry, heq⟩ := call.run_eq n c₁ d₁ s
  · rw [heq]
  · simp only [heq, DocumentCodec.getDocument, s.read_set_of_ne entry h]

theorem listDocuments_run (s : DocumentStore) (call : LocalCall) (readable : Bool)
    (h : docIdOf c₂ (documentKey c₁ d₁) = none) :
    listDocuments c₂ readable (call.run n c₁ d₁ s) = listDocuments c₂ readable s := by
  obtain heq | ⟨entry, heq⟩ := call.run_eq n c₁ d₁ s
  · rw [heq]
  · simp only [heq, listDocuments, s.scanPrefix_set entry h]

/-- A successful `delete_document` removes what any `list_documents` read off its key. -/
theorem listDocuments_delete_ne {docId : String} (s : DocumentStore)
    (hpresent : (s.read (documentKey c₁ d₁)).isSome)
    (h : docIdOf c₂ (documentKey c₁ d₁) = some docId) :
    listDocuments c₂ true ((LocalCall.deleteDocument ⟨true, .ok⟩).run n c₁ d₁ s) ≠
      listDocuments c₂ true s := by
  have hkey : documentKey c₁ d₁ = documentKey c₂ docId := docIdOf_eq_some_iff.1 h
  intro heq
  have hbefore := mem_listDocuments.2 (hkey ▸ hpresent)
  rw [← Option.some.inj heq, mem_listDocuments, hkey.symm] at hbefore
  simp [LocalCall.run, deleteDocument] at hbefore

/-- **Isolation of collections.** Calls on one document leave the reads of another and the
listings of another collection unchanged exactly when both are in one collection or the key of the
first does not start with the second collection and a colon. -/
theorem collections_isolated_iff (n : DocumentCodec) (c₁ d₁ c₂ d₂ : String)
    (hne : (c₁, d₁) ≠ (c₂, d₂)) :
    Isolated n c₁ d₁ c₂ d₂ ↔ c₁ = c₂ ∨ docIdOf c₂ (documentKey c₁ d₁) = none := by
  constructor
  · intro hiso
    by_cases hc : c₁ = c₂
    · exact .inl hc
    · refine .inr (Option.eq_none_iff_forall_ne_some.2 fun docId hdoc => ?_)
      let s := DocumentStore.empty.set (documentKey c₁ d₁) (some [])
      have hpresent : (s.read (documentKey c₁ d₁)).isSome := by simp [s]
      exact listDocuments_delete_ne s hpresent hdoc ((hiso s (.deleteDocument ⟨true, .ok⟩) true).2 hc)
  · rintro hcond s call readable
    have hkey : documentKey c₂ d₂ ≠ documentKey c₁ d₁ := by
      intro heq
      rcases hcond with rfl | hnone
      · exact hne (by rw [documentKey_injective c₁ heq])
      · exact nomatch (docIdOf_eq_some_iff.2 heq.symm).symm.trans hnone
    refine ⟨getDocument_run s call readable hkey, fun hc => ?_⟩
    exact listDocuments_run s call readable (hcond.resolve_left hc)

end Isolation

/-! ### Samples -/

/-- It knows the empty object only. -/
def emptyObject : Conversion where
  jsonToAutomerge
    | .object [], _ => some []
    | _, _ => none
  automergeToJson _ := .object []
  represents v doc h := by
    split at h
    · cases h
      exact .object .nil (.refl _)
    · nomatch h
  roundTrip v doc h := by
    split at h
    · exact .object .nil (.refl _)
    · nomatch h

/-- Without encryption at rest. -/
def plainNode : DocumentCodec where
  range := ⟨fun _ => true, fun _ _ _ _ => rfl⟩
  conversion := emptyObject
  saveNocompress _ := 0
  cipher := none

/-- Collections without colons do not see each other. -/
theorem nodes_tracks_isolated : Isolated plainNode "nodes" "alpha" "tracks" "alpha" :=
  (collections_isolated_iff plainNode "nodes" "alpha" "tracks" "alpha" (by decide)).2
    (.inr (by decide))

/-- **A colon in an identifier joins two collections**: deleting `c` of collection `a:b` deletes
`b:c` of collection `a`, for the read as for the listing. -/
theorem colon_shares_documents : let s := DocumentStore.empty.set (documentKey "a" "b:c") (some [])
    let deleted := (LocalCall.deleteDocument ⟨true, .ok⟩).run plainNode "a:b" "c" s
    (("a:b", "c") : String × String) ≠ ("a", "b:c") ∧
      plainNode.getDocument "a" "b:c" true s = .ok (some "\x7b\x7d") ∧
      plainNode.getDocument "a" "b:c" true deleted = .ok none ∧
      listDocuments "a" true deleted ≠ listDocuments "a" true s := by
  have hkey : documentKey "a:b" "c" = documentKey "a" "b:c" := by decide
  refine ⟨by decide, by decide +kernel, by decide +kernel, ?_⟩
  exact listDocuments_delete_ne _ (by simp [hkey]) (docIdOf_eq_some_iff.2 hkey)

end PeatNode.Node
