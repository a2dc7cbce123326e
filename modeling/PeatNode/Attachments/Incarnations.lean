/-
# The bundles of a node, told apart

A bundle keeps its id, its handles and its place from its acceptance on
(`Turn.identities_isPrefix`).  In every run, every record of the table is that of an accepted
bundle, and no distribution belongs to two of them (`Filed`); so handles tell the incarnations of
an id apart (`Filed.eq_of_handles`).
-/

import PeatNode.Attachments.Bundles

namespace PeatNode.Attachments

open List Registry

/-! ### Who is who -/

/-- What does not change about a bundle. -/
def Incarnation.identity (inc : Incarnation) : String × List AttachmentHandleRecord :=
  (inc.bundleId, inc.handles)

def idsOfHandles (handles : List AttachmentHandleRecord) : List String :=
  handles.map AttachmentHandleRecord.distributionId

namespace Bundles

variable {platform : Platform} {cfg : AttachmentConfig} {s s' : Bundles} {label : BundlesLabel}

def identities (s : Bundles) : List (String × List AttachmentHandleRecord) :=
  s.incarnations.map Incarnation.identity

theorem mem_identities (h : inc ∈ s.incarnations) : inc.identity ∈ s.identities :=
  mem_map_of_mem h

theorem exists_of_identity {k : ℕ} (h : s.identities[k]? = some b) :
    ∃ inc, s.incarnations[k]? = some inc ∧ inc.identity = b := by
  rw [identities, getElem?_map] at h
  exact Option.map_eq_some_iff.1 h

theorem Turn.identities_isPrefix (h : Turn platform cfg s label s') :
    s.identities <+: s'.identities := by
  have hsame : s'.identities = s.identities → s.identities <+: s'.identities := fun h =>
    h ▸ prefix_rfl
  cases h with
  | send | cancel => exact hsame rfl
  | accept =>
    rw [identities, identities, map_append]
    exact prefix_append _ _
  | register hinc | watch hinc | watcherStatus hinc => exact hsame (map_set_of_eq hinc rfl)
  | advanceCancel hcall hturn =>
    cases hturn with
    | substrate | found | absent | finalize | updateStatus => exact hsame rfl
    | update hinc hturn => exact hsame (map_set_of_eq hinc rfl)

/-- A request other than one that records its bundle touches records and drops ended
ones. -/
theorem ages_of_step {sends sends' : SendAttachments} {label : SendAttachmentsLabel}
    (hkeyed : sends.node.registry.Keyed) (hown : label.isOwn = true)
    (hnone : ∀ i now victim, label ≠ .advance i (.record now victim))
    (h : SendAttachments.step platform cfg sends label = some sends') :
    sends.node.registry.Ages sends'.node.registry := by
  cases label with
  | arrive | changeBlobs =>
    cases h
    exact .refl _
  | updateStatus | cancel => nomatch hown
  | evictExpired now =>
    cases h
    exact ages_evictExpired hkeyed _ _
  | get bundleId now =>
    cases h
    exact ages_touch _ _ _
  | advance i label =>
    obtain ⟨call, n', call', hcall, hturn, rfl⟩ := SendAttachments.turn_of_step h
    cases hturn with
    | validate | cap | decided | undecided | snapshot | ingest => exact .refl _
    | recheck => exact ages_recheck hkeyed _ _ _
    | record => exact absurd rfl (hnone _ _ _)

theorem lookup_setStatus (s : Bundles) (bundleId : String) (status : BundleStatus) (now : SystemTime)
    (id : String) :
    (s.setStatus bundleId status now).registry.bundles.lookup id = if id = bundleId then
        (s.registry.bundles.lookup id).map fun rec => { rec with status := status, lastTouchedAt := now }
      else s.registry.bundles.lookup id :=
  lookup_modify _ _ _ _

/-! ### Records and bundles -/

structure Filed (s : Bundles) : Prop where
  keyed : s.registry.Keyed
  apart : s.sends.Apart (s.identities.flatMap fun b => idsOfHandles b.2)
  numbered : ∀ b ∈ s.identities,
    b.2 ≠ [] ∧ b.2.map AttachmentHandleRecord.fileIndex = List.range b.2.length
  resident : ∀ id rec, s.registry.bundles.lookup id = some rec → (id, rec.handles) ∈ s.identities

theorem filed_init (blobs : Finset BlobHash) : (init blobs).Filed where
  keyed id rec h := by simp [init, SendAttachments.init, empty] at h
  apart := ⟨by simp [init, SendAttachments.init], by simp [init, identities, SendAttachments.init,
    SendAttachments.held], by simp [init, identities, SendAttachments.init, SendAttachments.held]⟩
  numbered b hb := by simp [init, identities] at hb
  resident id rec h := by simp [init, SendAttachments.init, empty] at h

theorem Filed.congr (hs : s.Filed) (hidentities : s'.identities = s.identities)
    (hcalls : s'.sends.calls = s.sends.calls)
    (hissued : s'.sends.node.store.issued = s.sends.node.store.issued)
    (hrecords : ∀ id rec', s'.registry.bundles.lookup id = some rec' →
      ∃ rec, s.registry.bundles.lookup id = some rec ∧ rec'.bundleId = rec.bundleId ∧
        rec'.handles = rec.handles) : s'.Filed where
  keyed id rec' h := by
    obtain ⟨rec, hrec, hid, -⟩ := hrecords id rec' h
    rw [hid, hs.keyed id rec hrec]
  apart := by
    rw [hidentities]
    obtain ⟨⟨n, calls⟩, incarnations, runtimes, cancels⟩ := s'
    obtain rfl : calls = s.sends.calls := hcalls
    exact hs.apart.congr hissued
  numbered := by
    rw [hidentities]
    exact hs.numbered
  resident id rec' h := by
    obtain ⟨rec, hrec, -, hhandles⟩ := hrecords id rec' h
    rw [hidentities, hhandles]
    exact hs.resident id rec hrec

theorem setStatus_records (s : Bundles) (bundleId : String) (status : BundleStatus) (now : SystemTime) :
    ∀ id rec', (s.setStatus bundleId status now).registry.bundles.lookup id = some rec' →
      ∃ rec, s.registry.bundles.lookup id = some rec ∧ rec'.bundleId = rec.bundleId ∧
        rec'.handles = rec.handles := by
  intro id rec' h
  rw [lookup_setStatus] at h
  split_ifs at h
  · obtain ⟨rec, hrec, rfl⟩ := Option.map_eq_some_iff.1 h
    exact ⟨rec, hrec, rfl, rfl⟩
  · exact ⟨rec', h, rfl, rfl⟩

theorem Filed.step (hs : s.Filed) (h : step platform cfg s label = some s') : s'.Filed := by
  have hsame : ∀ id rec', s.registry.bundles.lookup id = some rec' →
      ∃ rec, s.registry.bundles.lookup id = some rec ∧ rec'.bundleId = rec.bundleId ∧
        rec'.handles = rec.handles := fun id rec' h => ⟨rec', h, rfl, rfl⟩
  cases Turn.of_step h with
  | send hown hnone hstep =>
    have hages := ages_of_step hs.keyed hown hnone hstep
    refine ⟨hages.keyed hs.keyed, hs.apart.step hstep, hs.numbered, fun id rec' hrec' => ?_⟩
    obtain ⟨rec, now, hrec, rfl⟩ := hages.kept id rec' hrec'
    exact hs.resident id rec hrec
  | @accept i now victim bundleId call identity blobs handles registry hcall hpc hhandles hinsert =>
    have hids : idsOfHandles handles = call.pc.held := by
      rw [hpc]
      exact SendCall.distributionIds_buildHandleRecords hhandles
    have hprepared := hs.apart.prepared call (mem_of_getElem? hcall)
    rw [hpc] at hprepared
    have hindex := SendCall.fileIndex_buildHandleRecords hhandles
    have hlength : handles.length = blobs.length := by simpa using congrArg length hindex
    have hnew : (Incarnation.new bundleId handles blobs).identity = (bundleId, handles) := rfl
    have hidentities : (s.incarnations ++ [Incarnation.new bundleId handles blobs]).map
        Incarnation.identity = s.identities ++ [(bundleId, handles)] := by
      rw [map_append, map_singleton, hnew]
      rfl
    refine ⟨keyed_insert hs.keyed hinsert, ?_, fun b hb => ?_, fun id rec hrec => ?_⟩
    · have happart := hs.apart.record hcall registry
        (call.goto (.returned (.ok (buildResponse bundleId handles)))) ⟨rfl, trivial⟩
      rw [identities, hidentities, flatMap_append, flatMap_singleton]
      show SendAttachments.Apart _ (_ ++ idsOfHandles handles)
      rw [hids]
      exact happart
    · rw [identities, hidentities, mem_append, mem_singleton] at hb
      rcases hb with hb | rfl
      · exact hs.numbered b hb
      · refine ⟨?_, ?_⟩
        · rw [← length_pos_iff, hlength]
          exact length_pos_iff.2 hprepared.1
        · rw [hindex, hprepared.2, hlength]
    · rw [identities, hidentities, mem_append, mem_singleton]
      by_cases hid : id = bundleId
      · right
        have hfound := (insert_found hinsert).1
        cases (hid ▸ hrec).symm.trans hfound
        rw [hid]
        rfl
      · left
        have hlookup := lookup_insert hs.keyed hinsert hid
        rw [hlookup] at hrec
        split_ifs at hrec
        exact hs.resident id rec hrec
  | register hinc | watch hinc => exact hs.congr (map_set_of_eq hinc rfl) rfl rfl hsame
  | watcherStatus hinc hw hpc now =>
    exact hs.congr (map_set_of_eq hinc rfl) rfl rfl (setStatus_records s _ _ now)
  | cancel => exact hs.congr rfl rfl rfl hsame
  | advanceCancel hcall hturn =>
    cases hturn with
    | substrate w hstore => exact hs.congr rfl rfl hstore hsame
    | found | absent | finalize => exact hs.congr rfl rfl rfl hsame
    | update hinc => exact hs.congr (map_set_of_eq hinc rfl) rfl rfl hsame
    | updateStatus status now => exact hs.congr rfl rfl rfl (setStatus_records s _ _ now)

variable {inc inc' : Incarnation}

/-- **A distribution belongs to one bundle.** -/
theorem Filed.unique (hs : s.Filed) {k k' : ℕ} (hk : s.incarnations[k]? = some inc)
    (hk' : s.incarnations[k']? = some inc') (hd : d ∈ inc.ids) (hd' : d ∈ inc'.ids) : k = k' := by
  have hnodup := (nodup_append.1 hs.apart.nodup).2.1
  have hapart := pairwise_iff_getElem.1 (nodup_flatMap.1 hnodup).2
  obtain ⟨hlt, rfl⟩ := List.getElem?_eq_some_iff.1 hk
  obtain ⟨hlt', rfl⟩ := List.getElem?_eq_some_iff.1 hk'
  have hlength : s.identities.length = s.incarnations.length := List.length_map _
  rcases lt_trichotomy k k' with hlt'' | heq | hgt
  · have hdisjoint := hapart k k' (hlength ▸ hlt) (hlength ▸ hlt') hlt''
    simp only [identities, getElem_map] at hdisjoint
    exact absurd hd' (hdisjoint hd)
  · exact heq
  · have hdisjoint := hapart k' k (hlength ▸ hlt') (hlength ▸ hlt) hgt
    simp only [identities, getElem_map] at hdisjoint
    exact absurd hd (hdisjoint hd')

/-- Handles tell bundles apart. -/
theorem Filed.eq_of_handles (hs : s.Filed) {k k' : ℕ} (hk : s.incarnations[k]? = some inc)
    (hk' : s.incarnations[k']? = some inc') (hhandles : inc.handles = inc'.handles) : k = k' := by
  have hne := (hs.numbered _ (mem_identities (mem_of_getElem? hk))).1
  obtain ⟨h, hh⟩ := exists_mem_of_ne_nil _ hne
  have hd : h.distributionId ∈ inc.ids := mem_map_of_mem hh
  refine hs.unique hk hk' hd ?_
  rw [Incarnation.ids, ← hhandles]
  exact hd

theorem Filed.inc_eq_of_handles (hs : s.Filed) (hinc : inc ∈ s.incarnations)
    (hinc' : inc' ∈ s.incarnations) (hhandles : inc.handles = inc'.handles) : inc = inc' := by
  obtain ⟨k, hk⟩ := getElem?_of_mem hinc
  obtain ⟨k', hk'⟩ := getElem?_of_mem hinc'
  obtain rfl := hs.eq_of_handles hk hk' hhandles
  exact Option.some.inj (hk.symm.trans hk')

/-- The ids of one bundle are all different. -/
theorem Filed.nodup_ids (hs : s.Filed) (hinc : inc ∈ s.incarnations) : inc.ids.Nodup :=
  (nodup_flatMap.1 (nodup_append.1 hs.apart.nodup).2.1).1 _ (mem_identities hinc)

end Bundles

end PeatNode.Attachments
