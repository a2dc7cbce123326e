/-
# The table of known bundles

`src/attachments/registry.rs`: the bundles by id, and an index from the distribution ids back to
them.  Every operation holds the lock once, except `check_resubmit`, which reads under the shared
lock (`probe`) and comes back for the exclusive one when it has to change something (`recheck`).

`HashMap` iterates in no fixed order, so which of several least recently touched bundles
`evict_lru` drops is an argument.  Times are arguments too.
-/

import Mathlib.Data.List.AList
import PeatNode.Attachments.Ingest

namespace PeatNode.Attachments

open List AList

abbrev SystemTime := ℤ

/-! ### Records -/

structure FileIdentity where
  rootName : String
  relativePath : String
  sizeBytes : UInt64
  sha256 : Digest
deriving DecidableEq

def FileIdentity.fromValidated (file : ValidatedFile) : FileIdentity :=
  ⟨file.rootName, file.relativePath, file.sizeBytes, file.sha256⟩

def FileIdentity.wire (f : FileIdentity) : WireIdentity :=
  ⟨f.rootName, f.relativePath, f.sizeBytes, f.sha256.1⟩

/-- Files with one wire identity are identical. -/
theorem FileIdentity.wire_injective : Function.Injective FileIdentity.wire := by
  rintro ⟨root, path, size, sha⟩ ⟨root', path', size', sha'⟩ h
  obtain ⟨rfl, rfl, rfl, hsha⟩ := WireIdentity.mk.inj h
  obtain rfl : sha = sha' := Subtype.ext hsha
  rfl

structure BundleIdentity where
  files : List FileIdentity
deriving DecidableEq

def BundleIdentity.fromValidated (files : List ValidatedFile) : BundleIdentity :=
  ⟨files.map FileIdentity.fromValidated⟩

/-- It is that of the files, in order. -/
def BundleIdentity.Identifies (identity : BundleIdentity) (req : SendAttachmentsRequest) : Prop :=
  identity.files.map FileIdentity.wire = req.files.map FileSpec.wire
deriving Decidable

/-- The identity of validated files is that of the request. -/
theorem BundleIdentity.identifies_fromValidated (h : validateRequest platform cfg fs req = .ok v) :
    (fromValidated v.files).Identifies req := by
  rw [Identifies, ← validateRequest_wire h, fromValidated, map_map]
  rfl

/-- A request has one identity. -/
theorem BundleIdentity.Identifies.unique {a b : BundleIdentity} (ha : a.Identifies req)
    (hb : b.Identifies req) : a = b := by
  obtain ⟨files⟩ := a
  obtain ⟨files'⟩ := b
  obtain rfl : files = files' := FileIdentity.wire_injective.list_map (ha.trans hb.symm)
  rfl

structure AttachmentHandleRecord where
  fileIndex : ℕ
  blobTokenHash : String
  distributionHandle : DistributionHandle
  contentType : Option String
  displayName : Option String
deriving DecidableEq

def AttachmentHandleRecord.distributionId (h : AttachmentHandleRecord) : String :=
  h.distributionHandle.distributionId

inductive BundleStatus
  | pending
  | inProgress
  | completed
  | partially
  | failed
  | cancelled
deriving DecidableEq

namespace BundleStatus

def isTerminal : BundleStatus → Bool
  | .completed | .partially | .failed | .cancelled => true
  | .pending | .inProgress => false

def allowsReuseWithDifferentFiles : BundleStatus → Bool
  | .failed | .cancelled => true
  | .pending | .inProgress | .completed | .partially => false

end BundleStatus

structure BundleRecord where
  bundleId : String
  identity : BundleIdentity
  handles : List AttachmentHandleRecord
  status : BundleStatus
  createdAt : SystemTime
  lastTouchedAt : SystemTime
deriving DecidableEq

def BundleRecord.new (bundleId : String) (identity : BundleIdentity)
    (handles : List AttachmentHandleRecord) (now : SystemTime) : BundleRecord :=
  ⟨bundleId, identity, handles, .pending, now, now⟩

inductive BundleLookup
  | idempotent (existing : BundleRecord)
  | conflict (createdAt : SystemTime)
  | notFound

/-! ### The table -/

structure Registry where
  bundles : AList fun _ : String => BundleRecord
  distributionIndex : AList fun _ : String => String

namespace Registry

def empty : Registry := ⟨∅, ∅⟩

def values (r : Registry) : List BundleRecord := r.bundles.entries.map Sigma.snd

def dropRecordIndexesOnly (r : Registry) (rec : BundleRecord) : Registry :=
  { r with
    distributionIndex :=
      rec.handles.foldl (fun index h => index.erase h.distributionId) r.distributionIndex }

def dropRecord (r : Registry) (rec : BundleRecord) : Registry :=
  { r with bundles := r.bundles.erase rec.bundleId }.dropRecordIndexesOnly rec

/-- `get_mut`, if there is a record. -/
def modify (r : Registry) (bundleId : String) (change : BundleRecord → BundleRecord) : Registry :=
  match r.bundles.lookup bundleId with
  | none => r
  | some rec => { r with bundles := r.bundles.insert bundleId (change rec) }

def touched (now : SystemTime) (rec : BundleRecord) : BundleRecord := { rec with lastTouchedAt := now }

/-- The first phase of `check_resubmit`. -/
def probe (r : Registry) (bundleId : String) (identity : BundleIdentity) : Option BundleLookup :=
  match r.bundles.lookup bundleId with
  | none => some .notFound
  | some existing =>
    if ¬ existing.status.allowsReuseWithDifferentFiles ∧ existing.identity ≠ identity then
      some (.conflict existing.createdAt)
    else none

/-- The second phase of `check_resubmit`. -/
def recheck (r : Registry) (bundleId : String) (identity : BundleIdentity) (now : SystemTime) :
    BundleLookup × Registry :=
  match r.bundles.lookup bundleId with
  | none => (.notFound, r)
  | some existing =>
    if existing.status.allowsReuseWithDifferentFiles then (.notFound, r.dropRecord existing)
    else if existing.identity = identity then
      (.idempotent (touched now existing), r.modify bundleId (touched now))
    else (.conflict existing.createdAt, r)

/-- With the choice among the oldest. -/
def evictLru (r : Registry) (victim : String) : Option Registry :=
  match r.bundles.lookup victim with
  | none => none
  | some rec =>
    if ∀ other ∈ r.values, rec.lastTouchedAt ≤ other.lastTouchedAt then some (r.dropRecord rec)
    else none

/-- A prior record of the id leaves. -/
def removePrior (r : Registry) (bundleId : String) : Registry :=
  match r.bundles.lookup bundleId with
  | none => r
  | some prior => { r with bundles := r.bundles.erase bundleId }.dropRecordIndexesOnly prior

def makeRoom (r : Registry) (maxKnownBundles : ℕ) (victim : String) : Option Registry :=
  if 0 < maxKnownBundles ∧ maxKnownBundles ≤ r.values.length then r.evictLru victim else some r

def add (r : Registry) (rec : BundleRecord) : Registry where
  bundles := r.bundles.insert rec.bundleId rec
  distributionIndex :=
    rec.handles.foldl (fun index h => index.insert h.distributionId rec.bundleId) r.distributionIndex

def insert (r : Registry) (maxKnownBundles : ℕ) (rec : BundleRecord) (victim : String) :
    Option Registry :=
  ((r.removePrior rec.bundleId).makeRoom maxKnownBundles victim).map fun r => r.add rec

def get (r : Registry) (bundleId : String) (now : SystemTime) : Option BundleRecord × Registry :=
  ((r.bundles.lookup bundleId).map (touched now), r.modify bundleId (touched now))

def lookupDistribution (r : Registry) (distributionId : String) : Option (String × BundleRecord) :=
  match r.distributionIndex.lookup distributionId with
  | none => none
  | some bundleId => (r.bundles.lookup bundleId).map fun rec => (bundleId, rec)

def updateStatus (r : Registry) (bundleId : String) (status : BundleStatus) (now : SystemTime) :
    Registry :=
  r.modify bundleId fun rec => { rec with status := status, lastTouchedAt := now }

def evictExpired (r : Registry) (handleRetentionSecs : ℕ) (now : SystemTime) : Registry :=
  if handleRetentionSecs = 0 then r
  else
    let cutoff := now - handleRetentionSecs * 1000000000
    (r.values.filter fun rec => rec.status.isTerminal && rec.lastTouchedAt < cutoff).foldl
      dropRecord r

def nonTerminalCount (r : Registry) : ℕ := (r.values.filter fun rec => !rec.status.isTerminal).length

/-! ### What the operations do to the table -/

variable {r r' : Registry} {id : String} {rec : BundleRecord}

@[simp] theorem bundles_dropRecord (r : Registry) (rec : BundleRecord) :
    (r.dropRecord rec).bundles = r.bundles.erase rec.bundleId := rfl

/-- Dropping a record brings no id in. -/
theorem mem_of_mem_dropRecord (h : id ∈ (r.dropRecord rec).bundles) : id ∈ r.bundles :=
  (mem_erase.1 h).2

variable {bundleId : String}

/-- Nor does a change in place. -/
theorem mem_of_mem_modify (h : id ∈ (r.modify bundleId change).bundles) : id ∈ r.bundles := by
  unfold modify at h
  split at h
  · exact h
  · rename_i rec hrec
    rcases (mem_insert _).1 h with rfl | h
    · exact lookup_isSome.1 (by rw [hrec]; rfl)
    · exact h

/-- Nor does the second phase of `check_resubmit`. -/
theorem mem_of_mem_recheck (h : id ∈ (r.recheck bundleId identity now).2.bundles) :
    id ∈ r.bundles := by
  unfold recheck at h
  split at h
  · exact h
  · split_ifs at h
    · exact mem_of_mem_dropRecord h
    · exact mem_of_mem_modify h
    · exact h

/-- Nor does the sweep. -/
theorem mem_of_mem_evictExpired (h : id ∈ (r.evictExpired handleRetentionSecs now).bundles) :
    id ∈ r.bundles := by
  have hfold : ∀ (dropped : List BundleRecord) (r : Registry),
      id ∈ (dropped.foldl dropRecord r).bundles → id ∈ r.bundles := by
    intro dropped
    induction dropped with
    | nil => exact fun r h => h
    | cons rec rest ih => exact fun r h => mem_of_mem_dropRecord (ih _ h)
  unfold evictExpired at h
  split_ifs at h
  · exact h
  · exact hfold _ r h

variable {cap : ℕ} {victim : String}

/-- An insert into a full table drops one of the least recently touched bundles. -/
theorem makeRoom_cases (hm : r.makeRoom cap victim = some r') :
    ¬ (0 < cap ∧ cap ≤ r.values.length) ∧ r' = r ∨
      (0 < cap ∧ cap ≤ r.values.length) ∧ ∃ old, r.bundles.lookup victim = some old ∧
        (∀ other ∈ r.values, old.lastTouchedAt ≤ other.lastTouchedAt) ∧ r' = r.dropRecord old := by
  unfold makeRoom evictLru at hm
  split_ifs at hm with hfull
  · split at hm
    · cases hm
    · next old hold =>
      split_ifs at hm with hleast
      exact .inr ⟨hfull, old, hold, hleast, (Option.some.inj hm).symm⟩
  · exact .inl ⟨hfull, (Option.some.inj hm).symm⟩

/-- Making room brings no id in. -/
theorem mem_of_mem_makeRoom (hm : r.makeRoom cap victim = some r')
    (h : id ∈ r'.bundles) : id ∈ r.bundles := by
  rcases makeRoom_cases hm with ⟨-, rfl⟩ | ⟨-, old, -, -, rfl⟩
  · exact h
  · exact mem_of_mem_dropRecord h

/-- Nor does the removal of a prior record. -/
theorem mem_of_mem_removePrior (h : id ∈ (r.removePrior bundleId).bundles) : id ∈ r.bundles := by
  unfold removePrior at h
  split at h
  · exact h
  · exact (mem_erase.1 h).2

/-- An insert brings in the id of its record only. -/
theorem mem_of_mem_insert (hi : r.insert cap rec victim = some r')
    (h : id ∈ r'.bundles) : id = rec.bundleId ∨ id ∈ r.bundles := by
  obtain ⟨roomy, hroomy, rfl⟩ := Option.map_eq_some_iff.1 hi
  rcases (mem_insert _).1 h with h | h
  · exact .inl h
  · exact .inr (mem_of_mem_removePrior (mem_of_mem_makeRoom hroomy h))

/-! ### What an insert makes findable -/

variable {handles : List AttachmentHandleRecord} {bundleId distributionId : String}

/-- The index finds what is added to it or was there for the bundle. -/
theorem lookup_add_index {index : AList fun _ : String => String}
    (h : index.lookup distributionId = some bundleId ∨
      ∃ handle ∈ handles, handle.distributionId = distributionId) :
    (handles.foldl (fun index h => index.insert h.distributionId bundleId) index).lookup
      distributionId = some bundleId := by
  induction handles generalizing index with
  | nil => simpa using h
  | cons handle rest ih =>
    rw [foldl_cons]
    apply ih
    by_cases heq : handle.distributionId = distributionId
    · exact .inl (by rw [heq, lookup_insert])
    · rcases h with h | ⟨other, hother, hid⟩
      · exact .inl (by rw [lookup_insert_ne (Ne.symm heq), h])
      · rcases mem_cons.1 hother with rfl | hother
        · exact absurd hid heq
        · exact .inr ⟨other, hother, hid⟩

/-- **An inserted bundle is found**, by its id and each of its distributions, whichever bundle
made room. -/
theorem insert_found (hi : r.insert cap rec victim = some r') :
    r'.bundles.lookup rec.bundleId = some rec ∧
      ∀ h ∈ rec.handles, r'.distributionIndex.lookup h.distributionId = some rec.bundleId := by
  obtain ⟨roomy, -, rfl⟩ := Option.map_eq_some_iff.1 hi
  exact ⟨lookup_insert _, fun h hh => lookup_add_index (.inr ⟨h, hh, rfl⟩)⟩

variable {distributionId : String}

/-- The index leads to the record. -/
theorem lookupDistribution_eq_some (hindex : r.distributionIndex.lookup distributionId = some id)
    (hbundle : r.bundles.lookup id = some rec) :
    r.lookupDistribution distributionId = some (id, rec) := by
  simp [lookupDistribution, hindex, hbundle]

/-- A distribution that is found belongs to a resident record. -/
theorem lookup_of_lookupDistribution
    (h : r.lookupDistribution distributionId = some (id, rec)) : r.bundles.lookup id = some rec := by
  unfold lookupDistribution at h
  split at h
  · nomatch h
  · obtain ⟨rec', hrec', hpair⟩ := Option.map_eq_some_iff.1 h
    cases hpair
    exact hrec'

/-! ### What becomes of a record -/

def Keyed (r : Registry) : Prop := ∀ id rec, r.bundles.lookup id = some rec → rec.bundleId = id

/-- Records are touched, and only ended ones leave. -/
structure Ages (r r' : Registry) : Prop where
  kept : ∀ id rec', r'.bundles.lookup id = some rec' →
    ∃ rec now, r.bundles.lookup id = some rec ∧ rec' = touched now rec
  stays : ∀ id rec, r.bundles.lookup id = some rec → rec.status.isTerminal = false →
    ∃ now, r'.bundles.lookup id = some (touched now rec)

/-- Nothing has happened. -/
theorem Ages.refl (r : Registry) : Ages r r where
  kept _ rec h := ⟨rec, rec.lastTouchedAt, h, rfl⟩
  stays _ rec h _ := ⟨rec.lastTouchedAt, h⟩

/-- Ageing keeps the records under their ids. -/
theorem Ages.keyed (h : Ages r r') (hr : r.Keyed) : r'.Keyed := by
  intro id rec' hrec'
  obtain ⟨rec, now, hrec, rfl⟩ := h.kept id rec' hrec'
  exact hr id rec hrec

/-- The values are the records that are found. -/
theorem mem_values : rec ∈ r.values ↔ ∃ id, r.bundles.lookup id = some rec := by
  constructor
  · intro h
    obtain ⟨⟨id, rec'⟩, hentry, rfl⟩ := mem_map.1 h
    exact ⟨id, mem_lookup_iff.2 hentry⟩
  · rintro ⟨id, h⟩
    exact mem_map.2 ⟨⟨id, rec⟩, mem_lookup_iff.1 h, rfl⟩

/-- A change in place is seen under its id only. -/
theorem lookup_modify (r : Registry) (bundleId : String) (change : BundleRecord → BundleRecord)
    (id : String) :
    (r.modify bundleId change).bundles.lookup id =
      if id = bundleId then (r.bundles.lookup id).map change else r.bundles.lookup id := by
  unfold modify
  split
  · next hnone =>
    split_ifs with hid
    · rw [hid, hnone, Option.map_none]
    · rfl
  · next rec hrec =>
    split_ifs with hid
    · rw [hid, lookup_insert, hrec, Option.map_some]
    · exact lookup_insert_ne hid

/-- A touch only changes a time. -/
theorem ages_touch (r : Registry) (bundleId : String) (now : SystemTime) :
    Ages r (r.modify bundleId (touched now)) where
  kept id rec' h := by
    rw [lookup_modify] at h
    split_ifs at h
    · obtain ⟨rec, hrec, rfl⟩ := Option.map_eq_some_iff.1 h
      exact ⟨rec, now, hrec, rfl⟩
    · exact (Ages.refl r).kept id rec' h
  stays id rec h hstatus := by
    rw [lookup_modify]
    split_ifs
    · exact ⟨now, by rw [h, Option.map_some]⟩
    · exact (Ages.refl r).stays id rec h hstatus

/-- Records with other ids stay when some are dropped. -/
theorem lookup_foldl_dropRecord (dropped : List BundleRecord) (r : Registry) (id : String) :
    (dropped.foldl dropRecord r).bundles.lookup id =
      if ∃ rec ∈ dropped, rec.bundleId = id then none else r.bundles.lookup id := by
  induction dropped generalizing r with
  | nil => simp
  | cons rec rest ih =>
    rw [foldl_cons, ih, bundles_dropRecord]
    by_cases hid : rec.bundleId = id
    · simp [hid]
    · rw [lookup_erase_ne (Ne.symm hid)]
      simp [hid]

/-- Dropping ended records is ageing. -/
theorem ages_drop (hr : r.Keyed) (dropped : List BundleRecord)
    (h : ∀ rec ∈ dropped, rec ∈ r.values ∧ rec.status.isTerminal = true) :
    Ages r (dropped.foldl dropRecord r) where
  kept id rec' hrec' := by
    rw [lookup_foldl_dropRecord] at hrec'
    split_ifs at hrec'
    exact (Ages.refl r).kept id rec' hrec'
  stays id rec hrec hstatus := by
    rw [lookup_foldl_dropRecord, if_neg]
    · exact (Ages.refl r).stays id rec hrec hstatus
    · rintro ⟨other, hother, rfl⟩
      obtain ⟨hvalue, hterminal⟩ := h other hother
      obtain ⟨id, hid⟩ := mem_values.1 hvalue
      rw [hr id other hid, hid, Option.some.injEq] at hrec
      simp [hrec, hstatus] at hterminal

/-- So is the second phase of `check_resubmit`. -/
theorem ages_recheck (hr : r.Keyed) (bundleId : String) (identity : BundleIdentity)
    (now : SystemTime) : Ages r (r.recheck bundleId identity now).2 := by
  unfold recheck
  split
  · exact .refl r
  · next existing hexisting =>
    split_ifs with hreuse hidentity
    · refine ages_drop hr [existing] fun rec hrec => ?_
      obtain rfl := mem_singleton.1 hrec
      refine ⟨mem_values.2 ⟨bundleId, hexisting⟩, ?_⟩
      cases hstatus : rec.status <;> simp_all [BundleStatus.allowsReuseWithDifferentFiles,
        BundleStatus.isTerminal]
    · exact ages_touch r bundleId now
    · exact .refl r

/-- So is the sweep. -/
theorem ages_evictExpired (hr : r.Keyed) (handleRetentionSecs : ℕ) (now : SystemTime) :
    Ages r (r.evictExpired handleRetentionSecs now) := by
  unfold evictExpired
  split_ifs
  · exact .refl r
  · refine ages_drop hr _ fun rec hrec => ?_
    obtain ⟨hvalue, hexpired⟩ := mem_filter.1 hrec
    exact ⟨hvalue, (Bool.and_eq_true_iff.1 hexpired).1⟩

def dropped (r : Registry) (maxKnownBundles : ℕ) (bundleId victim : String) : List String :=
  if 0 < maxKnownBundles ∧ maxKnownBundles ≤ (r.removePrior bundleId).values.length then
    [bundleId, victim]
  else [bundleId]

/-- Records with other ids stay when the prior one is removed. -/
theorem lookup_removePrior (r : Registry) (id bundleId : String) :
    (r.removePrior bundleId).bundles.lookup id =
      if id = bundleId then none else r.bundles.lookup id := by
  unfold removePrior
  split
  · next hnone =>
    split_ifs with hid
    · rw [hid, hnone]
    · rfl
  · split_ifs with hid
    · rw [hid]
      exact lookup_erase _ _
    · exact lookup_erase_ne hid

/-- Records with other ids stay when one is dropped. -/
theorem lookup_dropRecord (r : Registry) (rec : BundleRecord) (id : String) :
    (r.dropRecord rec).bundles.lookup id =
      if id = rec.bundleId then none else r.bundles.lookup id := by
  rw [bundles_dropRecord]
  split_ifs with hid
  · rw [hid, lookup_erase]
  · exact lookup_erase_ne hid

/-- The removal keeps the records under their ids. -/
theorem keyed_removePrior (hr : r.Keyed) (bundleId : String) : (r.removePrior bundleId).Keyed := by
  intro id rec hrec
  rw [lookup_removePrior] at hrec
  split_ifs at hrec
  exact hr id rec hrec

/-- An insert leaves the other records as they are, except those that it drops. -/
theorem lookup_insert (hr : r.Keyed) (hi : r.insert cap rec victim = some r')
    (hid : id ≠ rec.bundleId) :
    r'.bundles.lookup id =
      if id ∈ r.dropped cap rec.bundleId victim then none else r.bundles.lookup id := by
  obtain ⟨roomy, hroomy, rfl⟩ := Option.map_eq_some_iff.1 hi
  have hold : (r.removePrior rec.bundleId).bundles.lookup id = r.bundles.lookup id := by
    rw [lookup_removePrior, if_neg hid]
  have hadd : (roomy.add rec).bundles.lookup id = roomy.bundles.lookup id :=
    lookup_insert_ne hid
  rw [hadd]
  unfold dropped
  rcases makeRoom_cases hroomy with ⟨hroom, rfl⟩ | ⟨hfull, old, hvictim, -, rfl⟩
  · rw [if_neg hroom, hold, if_neg (by simpa using hid)]
  · rw [if_pos hfull, lookup_dropRecord, keyed_removePrior hr _ victim old hvictim, hold]
    simp [hid]

/-- An insert keeps the records under their ids. -/
theorem keyed_insert (hr : r.Keyed) (hi : r.insert cap rec victim = some r') : r'.Keyed := by
  intro id rec' hrec'
  by_cases hid : id = rec.bundleId
  · rw [hid, (insert_found hi).1, Option.some.injEq] at hrec'
    rw [← hrec', hid]
  · rw [lookup_insert hr hi hid] at hrec'
    split_ifs at hrec'
    exact hr id rec' hrec'

/-! ### What a distribution finds -/

/-- Every distribution of a record finds it. -/
def Indexed (r : Registry) : Prop :=
  ∀ id rec, r.bundles.lookup id = some rec → ∀ h ∈ rec.handles,
    r.distributionIndex.lookup h.distributionId = some id

/-- No other record has its distributions. -/
def Clear (r : Registry) (rec : BundleRecord) : Prop :=
  ∀ id rec', r.bundles.lookup id = some rec' → id ≠ rec.bundleId →
    ∀ h ∈ rec.handles, ∀ h' ∈ rec'.handles, h.distributionId ≠ h'.distributionId

def Distinct (r : Registry) : Prop := ∀ id rec, r.bundles.lookup id = some rec → r.Clear rec

/-- Fewer records have no more distributions. -/
theorem Clear.mono (h : r.Clear rec)
    (hsub : ∀ id rec', r'.bundles.lookup id = some rec' → r.bundles.lookup id = some rec') :
    r'.Clear rec :=
  fun id rec' hrec' => h id rec' (hsub id rec' hrec')

/-- A change in place leaves the index alone. -/
@[simp] theorem distributionIndex_modify (r : Registry) (bundleId : String)
    (change : BundleRecord → BundleRecord) :
    (r.modify bundleId change).distributionIndex = r.distributionIndex := by
  unfold modify
  split <;> rfl

/-- The index stays right if the handles stay. -/
theorem indexed_modify (hi : r.Indexed) (bundleId : String)
    (hhandles : ∀ rec, (change rec).handles = rec.handles) :
    (r.modify bundleId change).Indexed := by
  intro id rec' hrec' h hh
  rw [lookup_modify] at hrec'
  rw [distributionIndex_modify]
  split_ifs at hrec'
  · obtain ⟨rec, hrec, rfl⟩ := Option.map_eq_some_iff.1 hrec'
    rw [hhandles] at hh
    exact hi id rec hrec h hh
  · exact hi id rec' hrec' h hh

/-- Other distributions stay in the index. -/
theorem lookup_foldl_erase (h : ∀ handle ∈ handles, handle.distributionId ≠ distributionId)
    (index : AList fun _ : String => String) :
    (handles.foldl (fun index h => index.erase h.distributionId) index).lookup distributionId =
      index.lookup distributionId := by
  induction handles generalizing index with
  | nil => rfl
  | cons handle rest ih =>
    rw [foldl_cons, ih fun other hother => h other (mem_cons_of_mem _ hother)]
    exact lookup_erase_ne (h handle mem_cons_self).symm

/-- Other distributions are found as before. -/
theorem lookup_foldl_insert_ne (h : ∀ handle ∈ handles, handle.distributionId ≠ distributionId)
    (index : AList fun _ : String => String) :
    (handles.foldl (fun index h => index.insert h.distributionId bundleId) index).lookup
      distributionId = index.lookup distributionId := by
  induction handles generalizing index with
  | nil => rfl
  | cons handle rest ih =>
    rw [foldl_cons, ih fun other hother => h other (mem_cons_of_mem _ hother)]
    exact lookup_insert_ne (h handle mem_cons_self).symm

/-- What is left was there, under another id. -/
theorem lookup_of_lookup_dropRecord (h : (r.dropRecord rec).bundles.lookup id = some rec') :
    id ≠ rec.bundleId ∧ r.bundles.lookup id = some rec' := by
  rw [lookup_dropRecord] at h
  split_ifs at h with hid
  exact ⟨hid, h⟩

/-- The index stays right when a record is dropped. -/
theorem indexed_dropRecord (hi : r.Indexed) (hclear : r.Clear rec) : (r.dropRecord rec).Indexed := by
  intro id rec' hrec' h hh
  obtain ⟨hid, hold⟩ := lookup_of_lookup_dropRecord hrec'
  exact (lookup_foldl_erase (fun other hother => hclear id rec' hold hid other hother h hh) _).trans
    (hi id rec' hold h hh)

/-- So it does when several are. -/
theorem indexed_foldl_dropRecord {dropped : List BundleRecord} (hi : r.Indexed)
    (hclear : ∀ rec ∈ dropped, r.Clear rec) : (dropped.foldl dropRecord r).Indexed := by
  induction dropped generalizing r with
  | nil => exact hi
  | cons rec rest ih =>
    refine ih (indexed_dropRecord hi (hclear rec mem_cons_self)) fun other hother => ?_
    exact (hclear other (mem_cons_of_mem _ hother)).mono fun id rec' h =>
      (lookup_of_lookup_dropRecord h).2

/-- So it does in the second phase of `check_resubmit`. -/
theorem indexed_recheck (hi : r.Indexed) (hd : r.Distinct) (bundleId : String)
    (identity : BundleIdentity) (now : SystemTime) : (r.recheck bundleId identity now).2.Indexed := by
  unfold recheck
  split
  · exact hi
  · next existing hexisting =>
    split_ifs
    · exact indexed_dropRecord hi (hd bundleId existing hexisting)
    · exact indexed_modify hi bundleId fun rec => rfl
    · exact hi

/-- So it does in the sweep. -/
theorem indexed_evictExpired (hi : r.Indexed) (hd : r.Distinct) (handleRetentionSecs : ℕ)
    (now : SystemTime) : (r.evictExpired handleRetentionSecs now).Indexed := by
  unfold evictExpired
  split_ifs
  · exact hi
  · refine indexed_foldl_dropRecord hi fun rec hrec => ?_
    obtain ⟨id, hid⟩ := mem_values.1 (mem_filter.1 hrec).1
    exact hd id rec hid

/-- The prior record is dropped like any other. -/
theorem removePrior_eq_dropRecord (hr : r.Keyed) (h : r.bundles.lookup id = some prior) :
    r.removePrior id = r.dropRecord prior := by
  rw [removePrior, h, dropRecord, hr id prior h]

/-- The index stays right when a record is added. -/
theorem indexed_add (hi : r.Indexed) (hclear : (r.add rec).Clear rec) : (r.add rec).Indexed := by
  intro id rec' hrec' h hh
  by_cases hid : id = rec.bundleId
  · obtain rfl : rec = rec' := by
      rw [hid] at hrec'
      exact Option.some.inj ((AList.lookup_insert _).symm.trans hrec')
    rw [hid]
    exact lookup_add_index (.inr ⟨h, hh, rfl⟩)
  · have hold : r.bundles.lookup id = some rec' := by
      rw [← hrec']
      exact (lookup_insert_ne hid).symm
    exact (lookup_foldl_insert_ne
      (fun other hother => hclear id rec' hrec' hid other hother h hh) _).trans
        (hi id rec' hold h hh)

/-- **An insert keeps the index right.** -/
theorem indexed_insert (hr : r.Keyed) (hi : r.Indexed) (hd : r.Distinct)
    (hinsert : r.insert cap rec victim = some r') (hclear : r'.Clear rec) : r'.Indexed := by
  have hprior : (r.removePrior rec.bundleId).Indexed ∧ (r.removePrior rec.bundleId).Distinct := by
    cases hlookup : r.bundles.lookup rec.bundleId with
    | none =>
      rw [removePrior, hlookup]
      exact ⟨hi, hd⟩
    | some prior =>
      rw [removePrior_eq_dropRecord hr hlookup]
      have hsub : ∀ id rec', (r.dropRecord prior).bundles.lookup id = some rec' →
          r.bundles.lookup id = some rec' := fun id rec' h => (lookup_of_lookup_dropRecord h).2
      exact ⟨indexed_dropRecord hi (hd _ prior hlookup),
        fun id rec' h => (hd id rec' (hsub id rec' h)).mono hsub⟩
  obtain ⟨roomy, hroomy, rfl⟩ := Option.map_eq_some_iff.1 hinsert
  refine indexed_add ?_ hclear
  rcases makeRoom_cases hroomy with ⟨-, rfl⟩ | ⟨-, old, hold, -, rfl⟩
  · exact hprior.1
  · exact indexed_dropRecord hprior.1 (hprior.2 _ old hold)

/-! ### What a resubmission finds -/

/-- The same files pass the first phase. -/
theorem probe_of_identical (hr : r.bundles.lookup id = some rec) : r.probe id rec.identity = none := by
  simp [probe, hr]

/-- The same files find the resident record. -/
theorem recheck_of_identical (hr : r.bundles.lookup id = some rec)
    (hstatus : rec.status.allowsReuseWithDifferentFiles = false) (now : SystemTime) :
    r.recheck id rec.identity now = (.idempotent (touched now rec),
        { r with bundles := r.bundles.insert id (touched now rec) }) := by
  simp [recheck, modify, hr, hstatus]

end Registry

end PeatNode.Attachments
