/-
# Settings of collections

`set_collection_config` puts an entry into the map in memory, writes the whole map to
`collection_configs.json` with `fs::write` and reports whether that worked.  At the next start a
file that cannot be read is replaced by the empty map (`src/node.rs`).  `fs::write` truncates the
file first, so a failure or a crash leaves an initial part of the text; and a call that fails has
changed the map.

`serde` is a parameter (`ConfigCodec`): what it writes it reads back.
-/

import Mathlib.Data.Finmap
import PeatNode.Egress.Envelope
import PeatNode.Lib.JsonPretty
import PeatNode.Lib.Lts

namespace PeatNode.Node

open Finmap

open Ledger (asBytes)

inductive StoredDeletionPolicy
  | softDelete
  | tombstone
  | implicitTtl
  | immutable
deriving DecidableEq

structure CollectionConfigEntry where
  collection : String
  deletionPolicy : StoredDeletionPolicy
  softDeleteTtlSecs : Option UInt64
  tombstoneTtlSecs : Option UInt64
deriving DecidableEq

/-- A `HashMap` of entries, in no specified order. -/
abbrev CollectionConfigs := Finmap fun _ : String => CollectionConfigEntry

/-- The same map in the order in which it is written. -/
abbrev ConfigListing := AList fun _ : String => CollectionConfigEntry

/-- `serde_json` on the map of settings. -/
structure ConfigCodec where
  toStringPretty : ConfigListing → String
  fromStr : String → Option CollectionConfigs
  fromStr_toStringPretty (listed : ConfigListing) :
    fromStr (toStringPretty listed) = some listed.toFinmap

namespace ConfigCodec

variable (codec : ConfigCodec)

def bytes (listed : ConfigListing) : List UInt8 := asBytes (codec.toStringPretty listed)

/-- The map in the file on the disk. -/
def load : Option (List UInt8) → CollectionConfigs
  | none => ∅
  | some content => ((fromUtf8 content).bind codec.fromStr).getD ∅

@[simp] theorem load_bytes (listed : ConfigListing) :
    codec.load (some (codec.bytes listed)) = listed.toFinmap := by
  simp [load, bytes, fromUtf8_asBytes, codec.fromStr_toStringPretty]

end ConfigCodec

/-! ### The store of settings -/

/-- The map in memory and the file, with what callers have been told and whether the last write
stopped halfway. -/
structure ConfigStore where
  configs : CollectionConfigs
  file : Option (List UInt8)
  acked : CollectionConfigs
  torn : Bool

/-- What becomes of `fs::write`: success, a file that cannot be opened, or a stop after some
bytes. -/
inductive WriteOutcome
  | done
  | openFails
  | fails (written : ℕ)
deriving DecidableEq

namespace ConfigStore

/-- The file's entries count as told. -/
def start (codec : ConfigCodec) (file : Option (List UInt8)) : ConfigStore :=
  ⟨codec.load file, file, codec.load file, false⟩

def getCollectionConfig (s : ConfigStore) (collection : String) : Option CollectionConfigEntry :=
  s.configs.lookup collection

def listCollectionConfigs (s : ConfigStore) : Multiset CollectionConfigEntry :=
  s.configs.entries.map Sigma.snd

/-- What can happen to the settings.  `listed` is the order in which the map is
written. -/
inductive Label
  | set (entry : CollectionConfigEntry) (listed : ConfigListing) (outcome : WriteOutcome)
  | crash (entry : CollectionConfigEntry) (listed : ConfigListing) (written : ℕ)
  | restart

def insert (s : ConfigStore) (entry : CollectionConfigEntry) : CollectionConfigs :=
  s.configs.insert entry.collection entry

/-- `Ok` only where the write is done. -/
def setCollectionConfig (codec : ConfigCodec) (s : ConfigStore) (entry : CollectionConfigEntry)
    (listed : ConfigListing) : WriteOutcome → Option ConfigStore
  | .done => some {
      configs := s.insert entry
      file := some (codec.bytes listed)
      acked := s.acked.insert entry.collection entry
      torn := false }
  | .openFails => some { s with configs := s.insert entry }
  | .fails written =>
    if written < (codec.bytes listed).length then
      some { s with
        configs := s.insert entry
        file := some ((codec.bytes listed).take written)
        torn := true }
    else none

/-- An entry fully on disk counts as told. -/
def crash (codec : ConfigCodec) (s : ConfigStore) (entry : CollectionConfigEntry)
    (listed : ConfigListing) (written : ℕ) : Option ConfigStore :=
  let file := some ((codec.bytes listed).take written)
  if written < (codec.bytes listed).length then
    some { configs := codec.load file, file, acked := s.acked, torn := true }
  else
    some {
      configs := codec.load file
      file
      acked := s.acked.insert entry.collection entry
      torn := false }

def step (codec : ConfigCodec) (s : ConfigStore) : Label → Option ConfigStore
  | .set entry listed outcome =>
    if listed.toFinmap = s.insert entry then setCollectionConfig codec s entry listed outcome
    else none
  | .crash entry listed written =>
    if listed.toFinmap = s.insert entry then crash codec s entry listed written else none
  | .restart => some { s with configs := codec.load s.file }

/-! ### What a step can do -/

inductive Turn (codec : ConfigCodec) (s : ConfigStore) : Label → ConfigStore → Prop
  | done {entry : CollectionConfigEntry} {listed : ConfigListing}
      (hlisted : listed.toFinmap = s.insert entry) :
      Turn codec s (.set entry listed .done)
        ⟨s.insert entry, some (codec.bytes listed), s.acked.insert entry.collection entry, false⟩
  | openFails :
      Turn codec s (.set entry listed .openFails) ⟨s.insert entry, s.file, s.acked, s.torn⟩
  | fails :
      Turn codec s (.set entry listed (.fails written))
        ⟨s.insert entry, some ((codec.bytes listed).take written), s.acked, true⟩
  | halfway {entry : CollectionConfigEntry} {listed : ConfigListing} {written : ℕ}
      (hshort : written < (codec.bytes listed).length) :
      Turn codec s (.crash entry listed written)
        ⟨codec.load (some ((codec.bytes listed).take written)),
          some ((codec.bytes listed).take written), s.acked, true⟩
  | whole {entry : CollectionConfigEntry} {listed : ConfigListing} {written : ℕ}
      (hlisted : listed.toFinmap = s.insert entry) :
      Turn codec s (.crash entry listed written)
        ⟨s.insert entry, some (codec.bytes listed), s.acked.insert entry.collection entry, false⟩
  | restart : Turn codec s .restart ⟨codec.load s.file, s.file, s.acked, s.torn⟩

variable {codec : ConfigCodec} {s s' : ConfigStore}

theorem Turn.of_step (h : step codec s label = some s') : Turn codec s label s' := by
  cases label with
  | set entry listed outcome =>
    rw [step, Option.ite_none_right_eq_some] at h
    obtain ⟨hlisted, h⟩ := h
    cases outcome with
    | done =>
      cases h
      exact .done hlisted
    | openFails =>
      cases h
      exact .openFails
    | fails written =>
      rw [setCollectionConfig, Option.ite_none_right_eq_some] at h
      obtain rfl := Option.some.inj h.2
      exact .fails
  | crash entry listed written =>
    rw [step, Option.ite_none_right_eq_some] at h
    obtain ⟨hlisted, h⟩ := h
    by_cases hshort : written < (codec.bytes listed).length
    · rw [crash, if_pos hshort] at h
      cases h
      exact .halfway hshort
    · rw [crash, if_neg hshort, List.take_of_length_le (Nat.not_lt.1 hshort),
        codec.load_bytes, hlisted] at h
      cases h
      exact .whole hlisted
  | restart =>
    cases h
    exact .restart

/-! ### When settings are kept -/

/-- Every entry is in the second map. -/
def Within (m m' : CollectionConfigs) : Prop :=
  ∀ collection entry, m.lookup collection = some entry → m'.lookup collection = some entry

theorem Within.empty (m : CollectionConfigs) : Within ∅ m := by
  intro collection entry h
  simp at h

theorem Within.insert (h : Within m m') (collection : String) (entry : CollectionConfigEntry) :
    Within (m.insert collection entry) (m'.insert collection entry) := by
  intro c e hc
  by_cases hne : c = collection
  · subst hne
    rw [lookup_insert] at hc ⊢
    exact hc
  · rw [lookup_insert_of_ne _ hne] at hc ⊢
    exact h c e hc

variable {entry : CollectionConfigEntry}

/-- Setting an entry changes nothing exactly if it is already set. -/
theorem insert_eq_iff :
    s.insert entry = s.configs ↔ s.getCollectionConfig entry.collection = some entry := by
  constructor
  · intro h
    have hlookup : (s.insert entry).lookup entry.collection = some entry := lookup_insert _
    rwa [h] at hlookup
  · intro h
    refine ext_lookup fun c => ?_
    by_cases hne : c = entry.collection
    · subst hne
      exact (lookup_insert _).trans h.symm
    · exact lookup_insert_of_ne _ hne

/-- Nothing is lost: a call that fails sets what is already set, and the node restarts on a whole
file unless there is nothing to lose. -/
def Kept (codec : ConfigCodec) (s : ConfigStore) : Label → Prop
  | .set _ _ .done => True
  | .set entry _ _ => s.getCollectionConfig entry.collection = some entry
  | .crash _ listed written => s.acked = ∅ ∨ (codec.bytes listed).length ≤ written
  | .restart => s.acked = ∅ ∨ s.torn = false

instance (codec : ConfigCodec) (s : ConfigStore) (l : Label) : Decidable (Kept codec s l) := by
  unfold Kept
  split <;> infer_instance

/-- What was told is in memory, and on disk unless the last write stopped halfway. -/
structure Told (codec : ConfigCodec) (s : ConfigStore) : Prop where
  held : Within s.acked s.configs
  saved : s.torn = false → Within s.acked (codec.load s.file)

theorem Told.start (codec : ConfigCodec) (file : Option (List UInt8)) :
    Told codec (start codec file) :=
  ⟨fun _ _ => id, fun _ _ _ => id⟩

/-- The file is written in full. -/
theorem Told.written (ht : Told codec s) (hlisted : listed.toFinmap = s.insert entry) :
    Told codec ⟨s.insert entry, some (codec.bytes listed),
      s.acked.insert entry.collection entry, false⟩ := by
  have hboth : Within (s.acked.insert entry.collection entry) (s.insert entry) := ht.held.insert _ _
  refine ⟨hboth, fun _ => ?_⟩
  rw [codec.load_bytes, hlisted]
  exact hboth

theorem Told.step (ht : Told codec s) (hk : Kept codec s label) (h : step codec s label = some s') :
    Told codec s' := by
  cases Turn.of_step h with
  | done hlisted | whole hlisted => exact ht.written hlisted
  | openFails =>
    rw [insert_eq_iff.2 hk]
    exact ht
  | fails =>
    rw [insert_eq_iff.2 hk]
    exact ⟨ht.held, by simp⟩
  | halfway hshort =>
    have hnone : s.acked = ∅ := hk.resolve_right (Nat.not_le.2 hshort)
    refine ⟨?_, by simp⟩
    simp only [hnone]
    exact .empty _
  | restart =>
    refine ⟨?_, ht.saved⟩
    rcases hk with hnone | hwhole
    · simp only [hnone]
      exact .empty _
    · exact ht.saved hwhole

/-- A call that fails leaves the map in memory with its entry set. -/
theorem configs_of_set_fails (hout : outcome ≠ .done)
    (h : step codec s (.set entry listed outcome) = some s') : s'.configs = s.insert entry := by
  cases Turn.of_step h with
  | done => exact absurd rfl hout
  | openFails | fails => rfl

/-- **Settings are kept** in every run whose steps lose nothing: what a caller was told is set,
and what the file had at first and no call has changed, also after a start. A call that fails
leaves everything as it was exactly if its entry was already set. -/
theorem settings_kept (codec : ConfigCodec) (file : Option (List UInt8)) {labels : List Label}
    (hrun : Lts.exec (step codec) (start codec file) labels = some s)
    (hkept : Lts.Along (step codec) (Kept codec) (start codec file) labels) :
    (∀ collection entry, s.acked.lookup collection = some entry →
      s.getCollectionConfig collection = some entry) ∧
    ∀ entry listed outcome s', outcome ≠ .done →
      step codec s (.set entry listed outcome) = some s' →
      ((∀ collection, s'.getCollectionConfig collection = s.getCollectionConfig collection) ∧
          s'.listCollectionConfigs = s.listCollectionConfigs ↔
        s.getCollectionConfig entry.collection = some entry) := by
  have htold : Told codec s :=
    Lts.exec_invariant (Told codec) (fun _ _ _ ht hk h => ht.step hk h) (Told.start codec file) hkept hrun
  refine ⟨htold.held, fun entry listed outcome s' hout hset => ?_⟩
  have hconfigs : s'.configs = s.insert entry := configs_of_set_fails hout hset
  constructor
  · rintro ⟨hget, -⟩
    have hset : s'.getCollectionConfig entry.collection = some entry := by
      rw [getCollectionConfig, hconfigs]
      exact lookup_insert _
    rw [← hget, hset]
  · intro hsame
    rw [insert_eq_iff.2 hsame] at hconfigs
    constructor
    · intro collection
      rw [getCollectionConfig, hconfigs, getCollectionConfig]
    · rw [listCollectionConfigs, hconfigs, listCollectionConfigs]

end ConfigStore

/-! ### The settings as JSON -/

open Json (Value Number parse parse_toTextPretty)
open Egress (recursionLimit)
open Egress.BridgeEnvelope (field asStr)

def StoredDeletionPolicy.text : StoredDeletionPolicy → String
  | .softDelete => "SoftDelete"
  | .tombstone => "Tombstone"
  | .implicitTtl => "ImplicitTTL"
  | .immutable => "Immutable"

def StoredDeletionPolicy.ofText (text : String) : Option StoredDeletionPolicy :=
  [softDelete, tombstone, implicitTtl, immutable].find? (·.text = text)

/-- A name, or an object with it alone. -/
def asPolicy : Value → Option StoredDeletionPolicy
  | .string name => StoredDeletionPolicy.ofText name
  | .object [(name, .null)] => StoredDeletionPolicy.ofText name
  | _ => none

/-- `Option<u64>`. -/
def asOptionalU64 : Value → Option (Option UInt64)
  | .null => some none
  | .number n =>
    n.toNat?.bind fun k => if k < UInt64.size then some (some (UInt64.ofNat k)) else none
  | .bool _ | .string _ | .array _ | .object _ => none

/-- A missing `Option` is `None`. -/
def optionalField (members : List (String × Value)) (name : String) : Option (Option UInt64) :=
  match members.filter (·.1 = name) with
  | [] => some none
  | [m] => asOptionalU64 m.2
  | _ => none

def ofOptionalU64 : Option UInt64 → Value
  | none => .null
  | some k => .number (.ofNat k.toNat)

namespace CollectionConfigEntry

/-- The fields in the order of the struct. -/
def toValue (e : CollectionConfigEntry) : Value :=
  .object [("collection", .string e.collection), ("deletion_policy", .string e.deletionPolicy.text),
    ("soft_delete_ttl_secs", ofOptionalU64 e.softDeleteTtlSecs),
    ("tombstone_ttl_secs", ofOptionalU64 e.tombstoneTtlSecs)]

/-- The derived `Deserialize`. -/
def ofValue : Value → Option CollectionConfigEntry
  | .object members => do
      let collection ← (field members "collection").bind asStr
      let deletionPolicy ← (field members "deletion_policy").bind asPolicy
      let softDeleteTtlSecs ← optionalField members "soft_delete_ttl_secs"
      let tombstoneTtlSecs ← optionalField members "tombstone_ttl_secs"
      return ⟨collection, deletionPolicy, softDeleteTtlSecs, tombstoneTtlSecs⟩
  | .array [collection, deletionPolicy, softDeleteTtlSecs, tombstoneTtlSecs] => do
      return ⟨← asStr collection, ← asPolicy deletionPolicy, ← asOptionalU64 softDeleteTtlSecs,
        ← asOptionalU64 tombstoneTtlSecs⟩
  | _ => none

theorem asOptionalU64_ofOptionalU64 (k : Option UInt64) :
    asOptionalU64 (ofOptionalU64 k) = some k := by
  cases k with
  | none => rfl
  | some k =>
    have hlt : k.toNat < UInt64.size := k.toNat_lt_size
    simp [ofOptionalU64, asOptionalU64, Number.toNat?_ofNat, hlt]

theorem ofText_text (p : StoredDeletionPolicy) : StoredDeletionPolicy.ofText p.text = some p := by
  cases p <;> decide

theorem ofValue_toValue (e : CollectionConfigEntry) : ofValue e.toValue = some e := by
  simp [toValue, ofValue, field, optionalField, asStr, asPolicy, ofText_text,
    asOptionalU64_ofOptionalU64]

theorem depth_toValue (e : CollectionConfigEntry) : e.toValue.depth = 1 := by
  have hflat : ∀ k, (ofOptionalU64 k).depth = 0 := by
    intro k
    cases k <;> rfl
  simp [toValue, Value.depth, Value.depth.memberDepths, hflat]

end CollectionConfigEntry

namespace ConfigCodec

/-- A map as an object, in the order of its entries. -/
def members (listed : List (Sigma fun _ : String => CollectionConfigEntry)) :
    List (String × Value) :=
  listed.map fun e => (e.1, e.2.toValue)

def ofMembers :
    List (String × Value) → Option (List (Sigma fun _ : String => CollectionConfigEntry))
  | [] => some []
  | (k, v) :: ms => do
      let e ← CollectionConfigEntry.ofValue v
      let es ← ofMembers ms
      return ⟨k, e⟩ :: es

/-- The last entry of a name stays. -/
def ofValue : Value → Option CollectionConfigs
  | .object ms => (ofMembers ms).map fun es => es.reverse.toFinmap
  | .null | .bool _ | .number _ | .string _ | .array _ => none

theorem ofMembers_members (listed : List (Sigma fun _ : String => CollectionConfigEntry)) :
    ofMembers (members listed) = some listed := by
  induction listed with
  | nil => rfl
  | cons e es ih =>
    have hcons : members (e :: es) = (e.1, e.2.toValue) :: members es := rfl
    simp [hcons, ofMembers, ih, CollectionConfigEntry.ofValue_toValue]

theorem ofValue_members (listed : ConfigListing) :
    ofValue (.object (members listed.entries)) = some listed.toFinmap := by
  rw [ofValue, ofMembers_members, Option.map_some]
  refine congrArg some (ext_lookup fun c => ?_)
  have hperm : listed.entries.reverse.Perm listed.entries := List.reverse_perm _
  have hnodup : listed.entries.reverse.NodupKeys := (List.perm_nodupKeys hperm).2 listed.nodupKeys
  rw [dlookup_list_toFinmap, List.perm_dlookup c hnodup hperm]
  exact (lookup_toFinmap c listed).symm

theorem memberDepths_members (listed : List (Sigma fun _ : String => CollectionConfigEntry)) :
    Value.depth.memberDepths (members listed) ≤ 1 := by
  induction listed with
  | nil => exact Nat.zero_le 1
  | cons e es ih =>
    have hcons : members (e :: es) = (e.1, e.2.toValue) :: members es := rfl
    rw [hcons, Value.depth.memberDepths, CollectionConfigEntry.depth_toValue]
    omega

theorem ofValue_parse_toTextPretty (listed : ConfigListing) :
    (parse recursionLimit (Value.object (members listed.entries)).toTextPretty).bind ofValue =
      some listed.toFinmap := by
  have hdepth : (Value.object (members listed.entries)).depth ≤ recursionLimit := by
    have hmembers := memberDepths_members listed.entries
    rw [Value.depth, recursionLimit]
    omega
  rw [parse_toTextPretty hdepth, Option.bind_some, ofValue_members]

/-- `to_string_pretty` and `from_str`. -/
def serdeJson : ConfigCodec where
  toStringPretty listed := (Value.object (members listed.entries)).toTextPretty
  fromStr text := (parse recursionLimit text).bind ofValue
  fromStr_toStringPretty := ofValue_parse_toTextPretty

/-- An empty file is not JSON. -/
theorem load_serdeJson_nil : serdeJson.load (some []) = ∅ := by
  have htext : fromUtf8 [] = some "" := fromUtf8_asBytes ""
  have hparse : parse recursionLimit "" = none := by
    simp [parse, Json.value, Json.skipSpace]
  simp [load, htext, serdeJson, hparse]

end ConfigCodec

namespace ConfigStore

/-! ### Runs -/

def orders : CollectionConfigEntry := ⟨"orders", .immutable, none, none⟩

def tracks : CollectionConfigEntry := ⟨"tracks", .tombstone, none, some 3600⟩

def ordersListed : ConfigListing := AList.singleton "orders" orders

def bothListed : ConfigListing := ordersListed.insert "tracks" tracks

/-- Two calls and a start. -/
theorem two_calls_kept : ∃ s ∈ Lts.exec (step .serdeJson) (start .serdeJson none)
        [.set orders ordersListed .done, .set tracks bothListed .done, .restart],
      (s.acked.lookup "orders" = some orders ∧ s.acked.lookup "tracks" = some tracks) ∧
      s.getCollectionConfig "orders" = some orders ∧
      s.getCollectionConfig "tracks" = some tracks := by
  refine Lts.exists_mem_and (by decide +kernel) fun s hrun ⟨horders, htracks⟩ => ?_
  have htold := (settings_kept .serdeJson none hrun (by decide +kernel)).1
  exact ⟨htold _ _ horders, htold _ _ htracks⟩

/-- A call whose file cannot be opened fails and its entry is set; a crash that leaves an empty
file loses an entry of a successful call. -/
theorem settings_lost :
    (∃ s ∈ Lts.exec (step .serdeJson) (start .serdeJson none) [.set orders ordersListed .openFails],
      (start .serdeJson none).getCollectionConfig "orders" = none ∧
      s.getCollectionConfig "orders" = some orders) ∧
    ∃ s ∈ Lts.exec (step .serdeJson) (start .serdeJson none)
        [.set orders ordersListed .done, .crash tracks bothListed 0],
      s.acked.lookup "orders" = some orders ∧ s.getCollectionConfig "orders" = none := by
  constructor
  · decide +kernel
  · have hfirst : ∃ s ∈ step .serdeJson (start .serdeJson none) (.set orders ordersListed .done),
        s.acked.lookup "orders" = some orders ∧ bothListed.toFinmap = s.insert tracks := by
      decide +kernel
    have hshort : 0 < (ConfigCodec.serdeJson.bytes bothListed).length := by decide +kernel
    obtain ⟨s, hset, hacked, hlisted⟩ := hfirst
    refine ⟨⟨ConfigCodec.serdeJson.load (some []), some [], s.acked, true⟩, ?_, hacked, ?_⟩
    · refine Lts.exec_cons_eq_some.2 ⟨s, hset, ?_⟩
      simp [step, crash, hlisted, hshort]
    · rw [getCollectionConfig, ConfigCodec.load_serdeJson_nil]
      rfl

end ConfigStore

end PeatNode.Node
