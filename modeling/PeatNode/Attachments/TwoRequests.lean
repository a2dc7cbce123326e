/-
# The same bundle sent twice at once

A new bundle comes into the table only after its ingest.  A second request that looks it up
meanwhile sends it again, and the later insert takes the distributions of the earlier out of the
index.  Two identical requests agree exactly when neither looks the bundle up while the other has
it in hand (`Sequential`).
-/

import PeatNode.Attachments.Resubmit

namespace PeatNode.Attachments

open List Registry

structure TwoRequests where
  node : Sidecar
  first : SendCall
  second : SendCall

inductive TwoLabel
  | first (label : SendLabel)
  | second (label : SendLabel)

/-- Looked up, not found, not yet in the table. -/
def SendPc.inHand : SendPc → Bool
  | .fresh .. | .ingesting .. | .ingested .. => true
  | .received | .validated _ | .admitted _ | .probed .. | .returned _ => false

/-- What it started, or was answered with. -/
def SendPc.ids : SendPc → List String
  | .ingesting _ _ c => c.handles.map fun b => b.distributionHandle.distributionId
  | .ingested _ _ blobs => blobs.map fun b => b.distributionHandle.distributionId
  | .returned (.ok response) => response.handles.map AttachmentHandle.distributionId
  | .received | .validated _ | .admitted _ | .probed .. | .fresh .. | .returned (.error _) => []

namespace TwoRequests

variable (platform : Platform) (cfg : AttachmentConfig)

def step (s : TwoRequests) : TwoLabel → Option TwoRequests
  | .first label =>
    (SendCall.advance platform cfg s.node s.first label).map fun r => ⟨r.1, r.2, s.second⟩
  | .second label =>
    (SendCall.advance platform cfg s.node s.second label).map fun r => ⟨r.1, s.first, r.2⟩

def start (n : Sidecar) (request : SendAttachmentsRequest) : TwoRequests :=
  ⟨n, ⟨request, .received⟩, ⟨request, .received⟩⟩

/-- No look-up while the other has it in hand. -/
def Sequential (s : TwoRequests) : TwoLabel → Prop
  | .first (.probe _) => s.second.pc.inHand = false
  | .second (.probe _) => s.first.pc.inHand = false
  | .first _ | .second _ => True

instance (s : TwoRequests) (l : TwoLabel) : Decidable (s.Sequential l) := by
  unfold Sequential
  split <;> infer_instance

end TwoRequests

namespace SendCall

variable {platform : Platform} {cfg : AttachmentConfig} {n n' : Sidecar} {call call' : SendCall}
  {label : SendLabel} {request : SendAttachmentsRequest} {id : String}

/-- What passed the validation of the request. -/
def Fits (request : SendAttachmentsRequest) (v : ValidatedBundle) : Prop :=
  (BundleIdentity.fromValidated v.files).Identifies request ∧ v.files ≠ []

def Waiting (request : SendAttachmentsRequest) : SendPc → Prop
  | .received => True
  | .validated v | .admitted v => Fits request v
  | .probed .. | .fresh .. | .ingesting .. | .ingested .. | .returned _ => False

def Refused (pc : SendPc) : Prop := ∃ e, pc = .returned (.error e)

/-- The bundle in hand has issued distributions. -/
def Carrying (request : SendAttachmentsRequest) (id : String) (w : Store) (pc : SendPc) : Prop :=
  (∀ d ∈ pc.ids, d ∈ w.issued) ∧
    match pc with
    | .fresh bundleId v => bundleId = id ∧ Fits request v
    | .ingesting bundleId identity c =>
      bundleId = id ∧ identity.Identifies request ∧ c.WellFormed ∧ c.validated.files ≠ []
    | .ingested bundleId identity blobs =>
      bundleId = id ∧ identity.Identifies request ∧ blobs ≠ []
    | .received | .validated _ | .admitted _ | .probed .. | .returned _ => False

theorem Carrying.inHand {pc : SendPc} (h : Carrying request id w pc) : pc.inHand = true := by
  cases pc with
  | fresh | ingesting | ingested => rfl
  | received | validated | admitted | probed | returned => exact h.2.elim

theorem Waiting.inHand {pc : SendPc} (h : Waiting request pc) : pc.inHand = false := by
  cases pc with
  | received | validated | admitted => rfl
  | fresh | ingesting | ingested | probed | returned => exact h.elim

theorem Refused.inHand {pc : SendPc} (h : Refused pc) : pc.inHand = false := by
  obtain ⟨e, rfl⟩ := h
  rfl

/-! ### The turns of a request that waits -/

theorem Waiting.turn (hrequest : call.request = request) (hcall : Waiting request call.pc)
    (hprobe : ∀ uuid, label ≠ .probe uuid) (h : Turn platform cfg n call label n' call') :
    n' = n ∧ (Waiting request call'.pc ∨ Refused call'.pc) := by
  cases h with
  | validate hpc fs =>
    refine ⟨rfl, ?_⟩
    subst hrequest
    simp only [goto, afterValidate]
    split_ifs
    · split
      · rename_i v hv
        exact .inl ⟨BundleIdentity.identifies_fromValidated hv, validateRequest_ne_nil hv⟩
      · exact .inr ⟨_, rfl⟩
    · exact .inr ⟨_, rfl⟩
  | cap hpc =>
    rw [hpc] at hcall
    refine ⟨rfl, ?_⟩
    simp only [goto]
    split_ifs
    · exact .inl hcall
    · exact .inr ⟨_, rfl⟩
  | decided | undecided => exact absurd rfl (hprobe _)
  | recheck hpc | snapshot hpc | ingest hpc | record hpc =>
    rw [hpc] at hcall
    exact hcall.elim

theorem Waiting.probe_absent (hid : ∀ uuid, bundleIdFor request uuid = id)
    (hrequest : call.request = request) (hcall : Waiting request call.pc)
    (habsent : n.registry.bundles.lookup id = none)
    (h : Turn platform cfg n call (.probe uuid) n' call') :
    n' = n ∧ ∃ v, Fits request v ∧ call'.pc = .fresh id v := by
  subst hrequest
  cases h with
  | decided hpc huuid hprobe =>
    rw [hpc] at hcall
    rw [hid uuid, probe, habsent] at hprobe
    cases hprobe
    exact ⟨rfl, _, hcall, by rw [hid uuid]; rfl⟩
  | undecided hpc huuid hprobe =>
    rw [hid uuid, probe, habsent] at hprobe
    simp at hprobe

theorem Waiting.probe_resident (hid : ∀ uuid, bundleIdFor request uuid = id)
    (hrequest : call.request = request) (hcall : Waiting request call.pc) {rec : BundleRecord}
    (hresident : n.registry.bundles.lookup id = some rec)
    (hidentity : rec.identity.Identifies request)
    (h : Turn platform cfg n call (.probe uuid) n' call') :
    n' = n ∧ ∃ v, Fits request v ∧ call'.pc = .probed id v := by
  subst hrequest
  have hnone : ∀ v, Fits call.request v → n.registry.probe id (.fromValidated v.files) = none := by
    intro v hv
    rw [hv.1.unique hidentity]
    exact probe_of_identical hresident
  cases h with
  | decided hpc huuid hprobe =>
    rw [hpc] at hcall
    rw [hid uuid, hnone _ hcall] at hprobe
    simp at hprobe
  | undecided hpc huuid hprobe =>
    rw [hpc] at hcall
    exact ⟨rfl, _, hcall, by rw [hid uuid]; rfl⟩

/-! ### The turns of a request that has the bundle in hand -/

theorem map_buildHandleRecords (h : buildHandleRecords request blobs = some handles) :
    handles.map (fun r => (r.fileIndex, r.distributionHandle)) =
      blobs.map fun b => (b.fileIndex, b.distributionHandle) := by
  induction blobs generalizing handles with
  | nil =>
    obtain rfl : [] = handles := by simpa [buildHandleRecords] using h
    rfl
  | cons blob rest ih =>
    rw [buildHandleRecords, mapM_cons] at h
    obtain ⟨handle, hhandle, h⟩ := Option.bind_eq_some_iff.1 h
    obtain ⟨tail, htail, h⟩ := Option.bind_eq_some_iff.1 h
    cases h
    obtain ⟨original, -, rfl⟩ := Option.map_eq_some_iff.1 hhandle
    rw [map_cons, map_cons, ih htail]

theorem distributionIds_buildHandleRecords (h : buildHandleRecords request blobs = some handles) :
    handles.map AttachmentHandleRecord.distributionId =
      blobs.map fun b => b.distributionHandle.distributionId := by
  have hmap := congrArg (map fun r => r.2.distributionId) (map_buildHandleRecords h)
  rw [map_map, map_map] at hmap
  exact hmap

theorem ids_buildResponse (bundleId : String) (handles : List AttachmentHandleRecord) :
    SendPc.ids (.returned (.ok (buildResponse bundleId handles))) =
      handles.map AttachmentHandleRecord.distributionId := by
  simp [SendPc.ids, buildResponse, buildHandle, Function.comp_def]

theorem ids_turn (h : IngestCall.Turn w c l w' c') :
    (w'.issued = w.issued ∧ c'.handles = c.handles) ∨
      ∃ b : IngestedBlob, b.distributionHandle.distributionId ∉ w.issued ∧
        w'.issued = w.issued ++ [b.distributionHandle.distributionId] ∧
        c'.handles = c.handles ++ [b] := by
  cases h with
  | unread | unstarted => exact .inl ⟨rfl, (IngestCall.rollback_frame c _).2.2.1⟩
  | discarded =>
    exact .inl ⟨Store.issued_congr (by simp), (IngestCall.rollback_frame c _).2.2.1⟩
  | deleted =>
    exact .inl ⟨Store.issued_congr (by simp), (IngestCall.rollbackNext_frame c _ _).2.2.1⟩
  | stored hpc outcome token =>
    exact .inl ⟨Store.issued_congr (by simp), (IngestCall.ingestNext_frame (c.push token) _).2.2.2.1⟩
  | mismatched => exact .inl ⟨Store.issued_congr (by simp), rfl⟩
  | @started file token rest hpc distributionId hnew =>
    refine .inr ⟨⟨file.fileIndex, token, c.handleFor token distributionId⟩, hnew,
      Store.issued_startDistribution _ _, ?_⟩
    rw [(IngestCall.distributeNext_frame _ _).2.2.2.1]
    rfl

theorem validated_turn (h : IngestCall.Turn w c l w' c') : c'.validated = c.validated := by
  cases h with
  | unread | unstarted | discarded | deleted => exact IngestCall.validated_rollbackNext _ _ _
  | stored hpc outcome token => exact (IngestCall.ingestNext_frame (c.push token) _).1
  | mismatched => rfl
  | started => exact (IngestCall.distributeNext_frame _ _).1

/-- Where a call of `ingest_bundle` leaves the request. -/
theorem carrying_settle (hidentity : identity.Identifies request) (hwell : c.WellFormed)
    (hne : c.validated.files ≠ []) (hids : ∀ d ∈ (settle id identity c).ids, d ∈ w.issued) :
    Carrying request id w (settle id identity c) ∨ Refused (settle id identity c) := by
  revert hids
  unfold settle
  split
  · exact fun _ => .inr ⟨_, rfl⟩
  · rename_i blobs hpc
    have hprogress := hwell.progress
    rw [hpc] at hprogress
    obtain ⟨rfl, hlength⟩ := hprogress
    refine fun hids => .inl ⟨hids, rfl, hidentity, ?_⟩
    rw [← length_pos_iff, hlength]
    exact length_pos_iff.2 hne
  all_goals exact fun hids => .inl ⟨hids, rfl, hidentity, hwell, hne⟩

theorem ids_settle (bundleId : String) (identity : BundleIdentity) (hwell : c.WellFormed) :
    ∀ d ∈ (settle bundleId identity c).ids,
      d ∈ c.handles.map fun b => b.distributionHandle.distributionId := by
  unfold settle
  split
  · exact fun d hd => by simp [SendPc.ids] at hd
  · rename_i blobs hpc
    have hprogress := hwell.progress
    rw [hpc] at hprogress
    obtain ⟨rfl, -⟩ := hprogress
    exact fun d hd => hd
  all_goals exact fun d hd => hd

/-- Ids that a request comes to hold were its own or are new. -/
theorem ids_of_turn (hcall : Carrying request id n.store call.pc)
    (h : Turn platform cfg n call label n' call') :
    (∀ d ∈ call'.pc.ids, d ∈ call.pc.ids ∨ d ∉ n.store.issued) ∧
      (∀ d ∈ n.store.issued, d ∈ n'.store.issued) ∧ ∀ d ∈ call'.pc.ids, d ∈ n'.store.issued := by
  obtain ⟨hids, hcall⟩ := hcall
  cases h with
  | validate hpc | cap hpc | decided hpc | undecided hpc | recheck hpc =>
    rw [hpc] at hcall
    exact hcall.elim
  | @snapshot bundleId v hpc priority =>
    have hnone : ∀ d, d ∉ (settle bundleId (.fromValidated v.files)
        (IngestCall.start n.store v priority)).ids := by
      intro d hd
      have hmem := ids_settle _ _ (IngestCall.wellFormed_start _ _ _) d hd
      rw [IngestCall.start, (IngestCall.ingestNext_frame _ _).2.2.2.1] at hmem
      simp at hmem
    exact ⟨fun d hd => absurd hd (hnone d), fun d hd => hd, fun d hd => absurd hd (hnone d)⟩
  | @ingest bundleId identity c c' hpc l w' hturn =>
    rw [hpc] at hcall hids
    have hsettled := ids_settle bundleId identity (hcall.2.2.1.turn hturn)
    rcases ids_turn hturn with ⟨hissued, hhandles⟩ | ⟨new, hnew, hissued, hhandles⟩
    · rw [hhandles] at hsettled
      refine ⟨fun d hd => .inl (by rw [hpc]; exact hsettled d hd), fun d hd => hissued ▸ hd, ?_⟩
      exact fun d hd => hissued ▸ hids d (hsettled d hd)
    · rw [hhandles] at hsettled
      have hsplit : ∀ d ∈ (settle bundleId identity c').ids,
          d ∈ SendPc.ids (.ingesting bundleId identity c) ∨
            d = new.distributionHandle.distributionId := by
        intro d hd
        have hmem := hsettled d hd
        rw [map_append, mem_append] at hmem
        exact hmem.imp (fun h => h) fun h => by simpa using h
      refine ⟨fun d hd => ?_, fun d hd => ?_, fun d hd => ?_⟩
      · rcases hsplit d hd with h | rfl
        · exact .inl (by rw [hpc]; exact h)
        · exact .inr hnew
      · show d ∈ w'.issued
        rw [hissued]
        exact mem_append_left _ hd
      · show d ∈ w'.issued
        rw [hissued, mem_append, mem_singleton]
        exact (hsplit d hd).imp (hids d) fun h => h
  | @record bundleId identity blobs hpc now victim handles hhandles registry hinsert =>
    rw [hpc] at hids
    have hsame : SendPc.ids (.returned (.ok (buildResponse bundleId handles))) =
        SendPc.ids (.ingested bundleId identity blobs) :=
      (ids_buildResponse bundleId handles).trans (distributionIds_buildHandleRecords hhandles)
    refine ⟨fun d hd => .inl ?_, fun d hd => hd, fun d hd => hids d ?_⟩
    · rw [hpc]
      exact hsame ▸ hd
    · exact hsame ▸ hd

/-- What a request with the bundle in hand does: it goes on, it fails, or it puts
the bundle into the table. -/
theorem Carrying.turn (hcall : Carrying request id n.store call.pc)
    (h : Turn platform cfg n call label n' call') :
    (n'.registry = n.registry ∧ (Carrying request id n'.store call'.pc ∨ Refused call'.pc)) ∨
      ∃ identity handles now victim, identity.Identifies request ∧ handles ≠ [] ∧
        n'.store = n.store ∧
        n.registry.insert cfg.maxKnownBundles (.new id identity handles now) victim =
          some n'.registry ∧
        call'.pc = .returned (.ok (buildResponse id handles)) := by
  have hissued := (ids_of_turn hcall h).2.2
  obtain ⟨-, hcall⟩ := hcall
  cases h with
  | validate hpc | cap hpc | decided hpc | undecided hpc | recheck hpc =>
    rw [hpc] at hcall
    exact hcall.elim
  | snapshot hpc priority =>
    rw [hpc] at hcall
    obtain ⟨rfl, hfits⟩ := hcall
    refine .inl ⟨rfl, carrying_settle hfits.1 (IngestCall.wellFormed_start _ _ _) ?_ hissued⟩
    rw [IngestCall.start, (IngestCall.ingestNext_frame _ _).1]
    exact hfits.2
  | @ingest bundleId identity c c' hpc l w' hturn =>
    rw [hpc] at hcall
    obtain ⟨rfl, hidentity, hwell, hne⟩ := hcall
    refine .inl ⟨rfl, carrying_settle hidentity (hwell.turn hturn) ?_ hissued⟩
    rwa [validated_turn hturn]
  | record hpc hhandles hinsert =>
    rw [hpc] at hcall
    obtain ⟨rfl, hidentity, hne⟩ := hcall
    refine .inr ⟨_, _, _, _, hidentity, ?_, rfl, hinsert, rfl⟩
    have hids := distributionIds_buildHandleRecords hhandles
    intro hnil
    rw [hnil, map_nil] at hids
    exact hne (map_eq_nil_iff.1 hids.symm)

theorem not_turn_of_returned (hpc : call.pc = .returned result) :
    ¬ Turn platform cfg n call label n' call' := by
  intro h
  cases h with
  | validate h | cap h | decided h | undecided h | recheck h | snapshot h | ingest h | record h =>
    simp [hpc] at h

end SendCall

/-! ### Two requests that take turns -/

namespace TwoRequests

open SendCall

variable {platform : Platform} {cfg : AttachmentConfig} {n n' : Sidecar} {call call' : SendCall}
  {label : SendLabel} {request : SendAttachmentsRequest} {id : String} {a b : SendPc}

/-- It has not asked yet, or has the handles. -/
def Served (request : SendAttachmentsRequest) (id : String) (rec : BundleRecord) (pc : SendPc) : Prop :=
  Waiting request pc ∨ Refused pc ∨ (∃ v, Fits request v ∧ pc = .probed id v) ∨
    pc = .returned (.ok (buildResponse id rec.handles))

/-- The table has the bundle of the request, whole. -/
structure Resident (request : SendAttachmentsRequest) (id : String) (registry : Registry)
    (rec : BundleRecord) : Prop where
  lookup : registry.bundles.lookup id = some rec
  identity : rec.identity.Identifies request
  status : rec.status.allowsReuseWithDifferentFiles = false
  index : ∀ h ∈ rec.handles, registry.distributionIndex.lookup h.distributionId = some id

inductive Agreeing (request : SendAttachmentsRequest) (id : String) (n : Sidecar) (a b : SendPc) : Prop
  | absent (hlookup : n.registry.bundles.lookup id = none)
      (ha : Waiting request a ∨ Refused a ∨ Carrying request id n.store a)
      (hb : Waiting request b ∨ Refused b ∨ Carrying request id n.store b)
      (hone : a.inHand = false ∨ b.inHand = false)
  | resident {rec : BundleRecord} (hrec : Resident request id n.registry rec)
      (ha : Served request id rec a) (hb : Served request id rec b)

theorem Agreeing.symm (h : Agreeing request id n a b) : Agreeing request id n b a := by
  cases h with
  | absent hlookup ha hb hone => exact .absent hlookup hb ha hone.symm
  | resident hrec ha hb => exact .resident hrec hb ha

theorem Served.inHand {rec : BundleRecord} (h : Served request id rec a) : a.inHand = false := by
  rcases h with h | h | ⟨v, -, rfl⟩ | rfl
  · exact h.inHand
  · exact h.inHand
  · rfl
  · rfl

theorem waiting_or_refused (h : Waiting request a ∨ Refused a ∨ Carrying request id w a)
    (hhand : a.inHand = false) : Waiting request a ∨ Refused a := by
  rcases h with h | h | h
  · exact .inl h
  · exact .inr h
  · simp [h.inHand] at hhand

theorem resident_of_insert {registry registry' : Registry}
    (hidentity : identity.Identifies request)
    (h : registry.insert cap (.new id identity handles now) victim = some registry') :
    Resident request id registry' (.new id identity handles now) :=
  ⟨(insert_found h).1, hidentity, rfl, (insert_found h).2⟩

/-- The second phase of the look-up answers with the bundle and only touches it. -/
theorem served_of_recheck {rec : BundleRecord} (hrec : Resident request id n.registry rec)
    (hv : Fits request v) (hpc : call.pc = .probed id v)
    (h : Turn platform cfg n call label n' call') :
    ∃ rec', rec'.handles = rec.handles ∧ Resident request id n'.registry rec' ∧
      call'.pc = .returned (.ok (buildResponse id rec.handles)) := by
  cases h with
  | recheck hpc' now =>
    cases hpc.symm.trans hpc'
    have hsame := recheck_of_identical hrec.lookup hrec.status now
    rw [← hv.1.unique hrec.identity] at hsame
    refine ⟨touched now rec, rfl, ?_, ?_⟩
    · rw [hsame]
      exact ⟨AList.lookup_insert _, hrec.identity, hrec.status, hrec.index⟩
    · rw [hsame]
      rfl
  | validate h | cap h | decided h | undecided h | snapshot h | ingest h | record h =>
    simp [hpc] at h

theorem Agreeing.turn (hid : ∀ uuid, bundleIdFor request uuid = id)
    (hrequest : call.request = request) (hs : Agreeing request id n call.pc b)
    (hok : ∀ uuid, label = .probe uuid → b.inHand = false)
    (h : Turn platform cfg n call label n' call') : Agreeing request id n' call'.pc b := by
  cases hs with
  | absent hlookup ha hb hone =>
    rcases ha with ha | ⟨e, he⟩ | ha
    · by_cases hprobe : ∃ uuid, label = .probe uuid
      · obtain ⟨uuid, rfl⟩ := hprobe
        obtain ⟨rfl, v, hv, hpc⟩ := ha.probe_absent hid hrequest hlookup h
        rw [hpc]
        refine .absent hlookup (.inr (.inr ⟨?_, rfl, hv⟩)) hb (.inr (hok uuid rfl))
        exact fun d hd => by simp [SendPc.ids] at hd
      · obtain ⟨rfl, hnext⟩ := ha.turn hrequest (fun uuid hl => hprobe ⟨uuid, hl⟩) h
        refine .absent hlookup (hnext.imp_right .inl) hb (.inl ?_)
        exact hnext.elim Waiting.inHand Refused.inHand
    · exact absurd h (not_turn_of_returned he)
    · have hidle : b.inHand = false := by
        refine hone.resolve_left fun hhand => ?_
        simp [ha.inHand] at hhand
      have hb' := waiting_or_refused hb hidle
      rcases ha.turn h with ⟨hregistry, hnext⟩ |
        ⟨identity, handles, now, victim, hidentity, -, -, hinsert, hpc⟩
      · refine .absent (by rw [hregistry, hlookup]) ?_ (hb'.imp_right .inl) (.inr hidle)
        exact .inr (hnext.symm)
      · rw [hpc]
        refine .resident (resident_of_insert hidentity hinsert) (.inr (.inr (.inr rfl))) ?_
        exact hb'.imp_right .inl
  | resident hrec ha hb =>
    rcases ha with ha | ⟨e, he⟩ | ⟨v, hv, hpc⟩ | hpc
    · by_cases hprobe : ∃ uuid, label = .probe uuid
      · obtain ⟨uuid, rfl⟩ := hprobe
        obtain ⟨rfl, v, hv, hpc⟩ := ha.probe_resident hid hrequest hrec.lookup hrec.identity h
        exact .resident hrec (.inr (.inr (.inl ⟨v, hv, hpc⟩))) hb
      · obtain ⟨rfl, hnext⟩ := ha.turn hrequest (fun uuid hl => hprobe ⟨uuid, hl⟩) h
        exact .resident hrec (hnext.imp_right .inl) hb
    · exact absurd h (not_turn_of_returned he)
    · obtain ⟨rec', hhandles, hrec', hpc'⟩ := served_of_recheck hrec hv hpc h
      refine .resident hrec' (.inr (.inr (.inr ?_))) ?_
      · rw [hpc', hhandles]
      · unfold Served at hb ⊢
        rwa [hhandles]
    · exact absurd h (not_turn_of_returned hpc)

/-! ### Two requests that have both sent the bundle -/

def Taken (request : SendAttachmentsRequest) (id : String) (w : Store) (pc : SendPc) : Prop :=
  Carrying request id w pc ∨ Refused pc ∨
    ∃ response, pc = .returned (.ok response) ∧ pc.ids ≠ [] ∧ ∀ d ∈ pc.ids, d ∈ w.issued

structure Divided (request : SendAttachmentsRequest) (id : String) (n : Sidecar) (a b : SendPc) :
    Prop where
  first : Taken request id n.store a
  second : Taken request id n.store b
  disjoint : ∀ d ∈ a.ids, d ∉ b.ids

theorem Divided.symm (h : Divided request id n a b) : Divided request id n b a :=
  ⟨h.second, h.first, fun d hb ha => h.disjoint d ha hb⟩

theorem Taken.issued (h : Taken request id w a) : ∀ d ∈ a.ids, d ∈ w.issued := by
  rcases h with h | ⟨e, rfl⟩ | ⟨response, -, -, h⟩
  · exact h.1
  · exact fun d hd => by simp [SendPc.ids] at hd
  · exact h

theorem Taken.mono (h : Taken request id w a) (hissued : ∀ d ∈ w.issued, d ∈ w'.issued) :
    Taken request id w' a := by
  rcases h with ⟨hids, h⟩ | h | ⟨response, hpc, hne, hids⟩
  · exact .inl ⟨fun d hd => hissued d (hids d hd), h⟩
  · exact .inr (.inl h)
  · exact .inr (.inr ⟨response, hpc, hne, fun d hd => hissued d (hids d hd)⟩)

theorem Divided.turn (hs : Divided request id n call.pc b)
    (h : Turn platform cfg n call label n' call') : Divided request id n' call'.pc b := by
  rcases hs.first with ha | ⟨e, he⟩ | ⟨response, hpc, -⟩
  · obtain ⟨hown, hgrow, hnew⟩ := ids_of_turn ha h
    refine ⟨?_, hs.second.mono hgrow, fun d hd hdb => ?_⟩
    · rcases ha.turn h with ⟨-, hnext⟩ | ⟨identity, handles, now, victim, -, hne, -, -, hpc⟩
      · exact hnext.imp_right .inl
      · refine .inr (.inr ⟨_, hpc, ?_, hnew⟩)
        rw [hpc, ids_buildResponse]
        exact fun hnil => hne (map_eq_nil_iff.1 hnil)
    · rcases hown d hd with hold | hfresh
      · exact hs.disjoint d hold hdb
      · exact hfresh (hs.second.issued d hdb)
  · exact absurd h (not_turn_of_returned he)
  · exact absurd h (not_turn_of_returned hpc)

/-- The look-up that comes too early. -/
theorem Agreeing.divide (hid : ∀ uuid, bundleIdFor request uuid = id)
    (hrequest : call.request = request) (hs : Agreeing request id n call.pc b)
    (hhand : b.inHand = true) (h : Turn platform cfg n call (.probe uuid) n' call') :
    Divided request id n' call'.pc b := by
  cases hs with
  | resident hrec ha hb =>
    simp [hb.inHand] at hhand
  | absent hlookup ha hb hone =>
    have hidle : call.pc.inHand = false := by
      refine hone.resolve_right fun hfalse => ?_
      simp [hhand] at hfalse
    rcases waiting_or_refused ha hidle with ha | ⟨e, he⟩
    · obtain ⟨rfl, v, hv, hpc⟩ := ha.probe_absent hid hrequest hlookup h
      have hnone : ∀ d, d ∉ SendPc.ids (.fresh id v) := fun d hd => by simp [SendPc.ids] at hd
      rw [hpc]
      refine ⟨.inl ⟨fun d hd => absurd hd (hnone d), rfl, hv⟩, ?_, fun d hd => absurd hd (hnone d)⟩
      rcases hb with hb | hb | hb
      · simp [hb.inHand] at hhand
      · exact .inr (.inl hb)
      · exact .inl hb
    · exact absurd h (not_turn_of_returned he)

/-! ### What two requests are answered -/

/-- The same handles, each of them found. -/
def Agreed (registry : Registry) (r₁ r₂ : SendAttachmentsResponse) : Prop :=
  r₁.handles = r₂.handles ∧
    ∀ h ∈ r₁.handles ++ r₂.handles, (registry.lookupDistribution h.distributionId).isSome

variable {s s' : TwoRequests} {r₁ r₂ : SendAttachmentsResponse}

/-- Two requests, with what is known of them. -/
def Paired (P : Sidecar → SendPc → SendPc → Prop) (request : SendAttachmentsRequest)
    (s : TwoRequests) : Prop :=
  s.first.request = request ∧ s.second.request = request ∧ P s.node s.first.pc s.second.pc

variable {l : TwoLabel}

/-- A step of two requests is a turn of one of them. -/
theorem step_cases (h : step platform cfg s l = some s') :
    (∃ label n' call', l = .first label ∧ Turn platform cfg s.node s.first label n' call' ∧
        s' = ⟨n', call', s.second⟩) ∨
      ∃ label n' call', l = .second label ∧ Turn platform cfg s.node s.second label n' call' ∧
        s' = ⟨n', s.first, call'⟩ := by
  cases l with
  | first label =>
    obtain ⟨⟨n', call'⟩, hadvance, rfl⟩ := Option.map_eq_some_iff.1 h
    exact .inl ⟨label, n', call', rfl, .of_advance hadvance, rfl⟩
  | second label =>
    obtain ⟨⟨n', call'⟩, hadvance, rfl⟩ := Option.map_eq_some_iff.1 h
    exact .inr ⟨label, n', call', rfl, .of_advance hadvance, rfl⟩

theorem agreeing_step (hid : ∀ uuid, bundleIdFor request uuid = id)
    (hs : Paired (Agreeing request id) request s) (hok : s.Sequential l)
    (h : step platform cfg s l = some s') : Paired (Agreeing request id) request s' := by
  obtain ⟨h₁, h₂, hagree⟩ := hs
  obtain ⟨label, n', call', rfl, hturn, rfl⟩ | ⟨label, n', call', rfl, hturn, rfl⟩ := step_cases h
  · refine ⟨hturn.request.trans h₁, h₂, hagree.turn hid h₁ ?_ hturn⟩
    rintro uuid rfl
    exact hok
  · refine ⟨h₁, hturn.request.trans h₂, (hagree.symm.turn hid h₂ ?_ hturn).symm⟩
    rintro uuid rfl
    exact hok

theorem divided_of_step (hid : ∀ uuid, bundleIdFor request uuid = id)
    (hs : Paired (Agreeing request id) request s) (hok : ¬ s.Sequential l)
    (h : step platform cfg s l = some s') : Paired (Divided request id) request s' := by
  obtain ⟨h₁, h₂, hagree⟩ := hs
  obtain ⟨label, n', call', rfl, hturn, rfl⟩ | ⟨label, n', call', rfl, hturn, rfl⟩ := step_cases h
  · refine ⟨hturn.request.trans h₁, h₂, ?_⟩
    cases label with
    | probe uuid => exact hagree.divide hid h₁ (Bool.not_eq_false _ ▸ hok) hturn
    | validate | checkCap | recheck | snapshot | ingest | record => exact absurd trivial hok
  · refine ⟨h₁, hturn.request.trans h₂, ?_⟩
    cases label with
    | probe uuid => exact (hagree.symm.divide hid h₂ (Bool.not_eq_false _ ▸ hok) hturn).symm
    | validate | checkCap | recheck | snapshot | ingest | record => exact absurd trivial hok

theorem divided_step (hs : Paired (Divided request id) request s)
    (h : step platform cfg s l = some s') : Paired (Divided request id) request s' := by
  obtain ⟨h₁, h₂, hdivided⟩ := hs
  obtain ⟨label, n', call', rfl, hturn, rfl⟩ | ⟨label, n', call', rfl, hturn, rfl⟩ := step_cases h
  · exact ⟨hturn.request.trans h₁, h₂, hdivided.turn hturn⟩
  · exact ⟨h₁, hturn.request.trans h₂, (hdivided.symm.turn hturn).symm⟩

theorem Agreeing.agreed (h : Agreeing request id n (.returned (.ok r₁)) (.returned (.ok r₂))) :
    Agreed n.registry r₁ r₂ := by
  cases h with
  | absent hlookup ha hb hone =>
    rcases ha with ha | ⟨e, he⟩ | ha
    · exact ha.elim
    · exact nomatch he
    · exact ha.2.elim
  | @resident rec hrec ha hb =>
    have hanswer : ∀ {r : SendAttachmentsResponse}, Served request id rec (.returned (.ok r)) →
        r = buildResponse id rec.handles := by
      rintro r (h | ⟨e, he⟩ | ⟨v, -, hv⟩ | h)
      · exact h.elim
      · exact nomatch he
      · exact nomatch hv
      · exact Except.ok.inj (SendPc.returned.inj h)
    obtain rfl := hanswer ha
    obtain rfl := hanswer hb
    refine ⟨rfl, fun h hh => ?_⟩
    have hmem : h ∈ rec.handles.map buildHandle := by
      rcases mem_append.1 hh with hh | hh <;> exact hh
    obtain ⟨record, hrecord, rfl⟩ := mem_map.1 hmem
    have hfound : n.registry.lookupDistribution record.distributionId = some (id, rec) :=
      lookupDistribution_eq_some (hrec.index record hrecord) hrec.lookup
    show (n.registry.lookupDistribution record.distributionId).isSome
    rw [hfound]
    rfl

theorem Divided.not_agreed (h : Divided request id n (.returned (.ok r₁)) (.returned (.ok r₂))) :
    ¬ Agreed n.registry r₁ r₂ := by
  rintro ⟨hsame, -⟩
  rcases h.first with ha | ⟨e, he⟩ | ⟨response, -, hne, -⟩
  · exact ha.2.elim
  · exact nomatch he
  · obtain ⟨d, hd⟩ := exists_mem_of_ne_nil _ hne
    refine h.disjoint d hd ?_
    simp only [SendPc.ids] at hd ⊢
    rwa [← hsame]

theorem agreed_iff_sequential (hbundle : request.bundleId = some id) (hne : id ≠ "")
    (hnew : n.registry.bundles.lookup id = none)
    (hrun : Lts.exec (step platform cfg) (start n request) labels = some s')
    (hfirst : s'.first.pc = .returned (.ok r₁)) (hsecond : s'.second.pc = .returned (.ok r₂)) :
    Agreed s'.node.registry r₁ r₂ ↔
      Lts.Along (step platform cfg) Sequential (start n request) labels := by
  have hid : ∀ uuid, bundleIdFor request uuid = id := fun uuid => bundleIdFor_of_some hbundle hne
  have hstart : Paired (Agreeing request id) request (start n request) :=
    ⟨rfl, rfl, .absent hnew (.inl trivial) (.inl trivial) (.inl rfl)⟩
  refine Lts.exec_dichotomy_iff (Paired (Agreeing request id) request)
    (Paired (Divided request id) request) (fun s l s' hs hok h => agreeing_step hid hs hok h)
    (fun s l s' hs hok h => divided_of_step hid hs hok h) (fun s l s' hs h => divided_step hs h)
    hstart hrun ?_ ?_
  · rintro ⟨-, -, hagree⟩
    rw [hfirst, hsecond] at hagree
    exact hagree.agreed
  · rintro ⟨-, -, hdivided⟩
    rw [hfirst, hsecond] at hdivided
    exact hdivided.not_agreed

end TwoRequests

/-! ### Idempotent resubmission -/

/-- **When a bundle may be sent twice.** In every reachable state a request for a resident bundle
with the same files, locked by its status, is answered with its handles and without an ingest
exactly when it passes the validation and the cap; and two requests for a new bundle that are both
answered, in any interleaving, agree exactly when neither looks it up while the other has it in
hand. -/
theorem resubmission_idempotent_iff (platform : Platform) (cfg : AttachmentConfig)
    (request : SendAttachmentsRequest) (id : String) (hbundle : request.bundleId = some id) :
    (∀ (s : SendAttachments) (rec : BundleRecord) (fs : FileSystem) (uuid : String)
        (now : SystemTime), s.Reachable platform cfg →
      s.node.registry.bundles.lookup id = some rec → rec.identity.Identifies request →
      rec.status.allowsReuseWithDifferentFiles = false → uuid ≠ "" →
        (SendCall.Answered platform cfg s.node request fs uuid now
            (.ok (buildResponse id rec.handles)) ↔
          SendCall.Screened platform cfg s.node request fs)) ∧
    ∀ (n : Sidecar) (labels : List TwoLabel) (s' : TwoRequests) (r₁ r₂ : SendAttachmentsResponse),
      id ≠ "" → n.registry.bundles.lookup id = none →
      Lts.exec (TwoRequests.step platform cfg) (TwoRequests.start n request) labels = some s' →
      s'.first.pc = .returned (.ok r₁) → s'.second.pc = .returned (.ok r₂) →
        (TwoRequests.Agreed s'.node.registry r₁ r₂ ↔
          Lts.Along (TwoRequests.step platform cfg) TwoRequests.Sequential
            (TwoRequests.start n request) labels) := by
  constructor
  · intro s rec fs uuid now hreachable hresident hidentity hstatus huuid
    have hne : id ≠ "" := SendAttachments.id_ne_of_resident hreachable hresident
    constructor
    · exact SendCall.screened_of_answered
    · exact SendCall.answered_of_screened hbundle hne huuid hresident hidentity hstatus now
  · intro n labels s' r₁ r₂ hne hnew hrun hfirst hsecond
    exact TwoRequests.agreed_iff_sequential hbundle hne hnew hrun hfirst hsecond

def noFiles : FileSystem := ⟨fun _ => .error "gone", fun _ => .error "gone"⟩

def sampleRequest : SendAttachmentsRequest where
  files := [⟨"outbox", "report", 0, Sha256.hash [], none, none⟩]
  scope := some (some .allNodes)
  priority := none
  bundleId := some "bundle"

/-- Looking the bundle up, and sending it. -/
def looksUp : List SendLabel := [.validate emptyFiles, .checkCap, .probe "uuid"]

def sends (distributionId : String) : List SendLabel :=
  [.snapshot, .ingest (.read (.content [])), .ingest (.distribute (.ok distributionId)),
    .record 0 ""]

def sent : List SendAttachmentsLabel :=
  .arrive sampleRequest :: (looksUp ++ sends "first").map (.advance 0)

/-- The bundle is sent, completed and sent again; or two requests for it come one after the other. -/
theorem completed_resubmission_idempotent :
    (∃ s ∈ Lts.exec (SendAttachments.step byContent plainConfig) (.init ∅)
        (sent ++ [.updateStatus "bundle" .completed 1]),
      ∃ rec ∈ s.node.registry.bundles.lookup "bundle",
        (SendCall.Admits plainConfig s.node.registry ∧ rec.identity.Identifies sampleRequest ∧
          rec.status.allowsReuseWithDifferentFiles = false ∧
          buildResponse "bundle" rec.handles = ⟨"bundle", [⟨0, "", "first"⟩]⟩) ∧
        SendCall.Answered byContent plainConfig s.node sampleRequest emptyFiles "uuid" 2
          (.ok (buildResponse "bundle" rec.handles))) ∧
    ∃ s' ∈ Lts.exec (TwoRequests.step byContent plainConfig)
        (.start ⟨.empty, ⟨∅, []⟩⟩ sampleRequest)
        (.second (.validate emptyFiles) :: .second .checkCap ::
          (looksUp ++ sends "first").map .first ++ [.second (.probe "uuid"), .second (.recheck 1)]),
      (s'.first.pc.result = some (.ok ⟨"bundle", [⟨0, "", "first"⟩]⟩) ∧
        s'.second.pc.result = some (.ok ⟨"bundle", [⟨0, "", "first"⟩]⟩)) ∧
      TwoRequests.Agreed s'.node.registry ⟨"bundle", [⟨0, "", "first"⟩]⟩
        ⟨"bundle", [⟨0, "", "first"⟩]⟩ := by
  have hboth := resubmission_idempotent_iff byContent plainConfig sampleRequest "bundle" rfl
  constructor
  · refine Lts.exists_mem_mem_and (by decide +kernel) ?_
    rintro s rec hrun hresident ⟨hadmits, hidentity, hstatus, -⟩
    exact (hboth.1 s rec emptyFiles "uuid" 2 ⟨∅, _, hrun⟩ hresident hidentity hstatus
      (by decide)).2 ⟨exists_validated (by decide +kernel), hadmits⟩
  · refine Lts.exists_mem_and (by decide +kernel) fun s' hrun ⟨hfirst, hsecond⟩ => ?_
    exact (hboth.2 _ _ s' _ _ (by decide) rfl hrun (SendPc.eq_returned hfirst)
      (SendPc.eq_returned hsecond)).2 (by decide +kernel)

/-- The bundle still on its way, sent again: refused for the cap, which it fills itself, and for
its file, which was removed. And two requests at once: two sets of handles, the earlier one
unknown. -/
theorem resubmission_refused_and_doubled :
    (∃ s ∈ Lts.exec (SendAttachments.step byContent plainConfig) (.init ∅) sent,
      (∃ rec ∈ s.node.registry.bundles.lookup "bundle", rec.identity.Identifies sampleRequest ∧
        rec.status = .pending) ∧
      (∃ r ∈ Lts.exec (SendCall.step byContent plainConfig) (s.node, ⟨sampleRequest, .received⟩)
          [.validate emptyFiles, .checkCap],
        r.2.pc.result = some (.error (capReached plainConfig))) ∧
      ∃ r ∈ Lts.exec (SendCall.step byContent plainConfig) (s.node, ⟨sampleRequest, .received⟩)
          [.validate noFiles],
        r.2.pc.result = some (.error ⟨.invalidArgument,
          "files[0].relative_path: cannot resolve ``: gone"⟩)) ∧
    ∃ s' ∈ Lts.exec (TwoRequests.step byContent plainConfig)
        (.start ⟨.empty, ⟨∅, []⟩⟩ sampleRequest)
        (looksUp.map .first ++ looksUp.map .second ++ (sends "first").map .first ++
          (sends "second").map .second),
      s'.first.pc.result = some (.ok ⟨"bundle", [⟨0, "", "first"⟩]⟩) ∧
      s'.second.pc.result = some (.ok ⟨"bundle", [⟨0, "", "second"⟩]⟩) ∧
      s'.node.registry.lookupDistribution "first" = none := by
  decide +kernel

end PeatNode.Attachments
