/-
# What is left when the work is over

Four things that every run of the node keeps:

- a bundle is recorded only if roots are configured (`Rooted`);
- every distribution of a record finds that record (`Registry.Indexed`);
- the last frame of a slot is one of a distribution with that file index, of the bundle itself or
  of one that was cancelled (`Framed`);
- when all distributions of a bundle have ended, someone is at work who will write a terminal
  status under its id, or its record is terminal (`Attended`).
-/

import PeatNode.Attachments.OwnStatus

namespace PeatNode.Attachments

open List Option Registry Incarnation

/-! ### Roots -/

/-- Validated and not over. -/
def SendPc.passed : SendPc → Bool
  | .received | .returned _ => false
  | .validated _ | .admitted _ | .probed .. | .fresh .. | .ingesting .. | .ingested .. => true

theorem SendCall.passed_turn (h : Turn platform cfg n call label n' call')
    (hcall : call.pc.passed = true → cfg.hasRoots = true) :
    call'.pc.passed = true → cfg.hasRoots = true := by
  cases h with
  | validate hpc fs =>
    intro hpassed
    simp only [goto, afterValidate] at hpassed
    split_ifs at hpassed with hroots
    · exact hroots
    · cases hpassed
  | cap hpc | decided hpc | undecided hpc | recheck hpc | snapshot hpc | ingest hpc =>
    rw [hpc] at hcall
    exact fun _ => hcall rfl
  | record =>
    intro hpassed
    cases hpassed

/-! ### Frames -/

theorem UpdateCall.Turn.slot (h : Turn rt c rt' c') {slot : PerDistributionProgress}
    (hslot : rt'.perDistribution[j]? = some slot) :
    rt.perDistribution[j]? = some slot ∨ j = c.update.fileIndex ∧ slot = c.update.slot := by
  cases h with
  | refused | sent => exact .inl hslot
  | counted =>
    rw [BundleRuntime.perDistribution_count] at hslot
    exact .inl hslot
  | written =>
    rcases getElem?_set_cases hslot with hnew | ⟨-, hold⟩
    · exact .inr hnew
    · exact .inl hold

/-- The slot has a frame of a distribution of the node, of the bundle itself unless it came with a
cancellation. -/
structure FrameOf (identities : List (String × List AttachmentHandleRecord))
    (handles : List AttachmentHandleRecord) (j : ℕ) (slot : PerDistributionProgress) : Prop where
  status : slot.lastProgress.status = slot.state.status
  source : ∃ b ∈ identities, ∃ h ∈ b.2, h.fileIndex = j ∧
    h.distributionId = slot.lastProgress.distributionId ∧ (b.2 = handles ∨ slot.state = .cancelled)

theorem FrameOf.mono {handles : List AttachmentHandleRecord}
    (h : FrameOf identities handles j slot) (hsub : identities ⊆ identities') :
    FrameOf identities' handles j slot := by
  obtain ⟨b, hb, hsource⟩ := h.source
  exact ⟨h.status, b, hsub hb, hsource⟩

/-! ### Who is at work -/

/-- It will look at bundle `k`, or write its status. -/
def CancelCall.attends (k : ℕ) (bundleId : String) : CancelCall → Bool
  | .running _ (.applying owner _) | .running _ (.finalizing owner) => owner = k
  | .running f (.updating _) => f.bundleId = bundleId
  | .running _ .cancelling | .running _ .mirroring | .returned _ => false

def AtWork (cancels : List CancelCall) (k : ℕ) (inc : Incarnation) : Prop :=
  (∃ w ∈ inc.watchers, w.isFinished = false) ∨
    ∃ call ∈ cancels, call.attends k inc.bundleId = true

theorem isTerminal_finalStatus (slots : List PerDistributionProgress) :
    (finalStatus slots).isTerminal = true := by
  unfold finalStatus
  split_ifs <;> rfl

theorem Watcher.due_of_finished {w : Watcher} (h : w.isFinished = true) : w.due = 0 := by
  unfold isFinished at h
  unfold due
  split at h
  · next hpc => rw [hpc]
  all_goals nomatch h

theorem CancelCall.due_of_not_attends {call : CancelCall} (bundleId : String)
    (h : call.attends k bundleId = false) : call.due k = 0 := by
  unfold due
  split
  · next owner update => exact if_neg (by simpa [attends] using h)
  all_goals rfl

/-- The bundle's own record is right. -/
def OverBy (ok : BundleRuntime → BundleStatus → Prop) (registry : Registry) (inc : Incarnation) :
    Prop :=
  ∀ rec, registry.bundles.lookup inc.bundleId = some rec → rec.handles = inc.handles →
    ok inc.runtime rec.status

variable {inc : Incarnation}

theorem OverBy.ages (h : OverBy ok r inc) (hages : r.Ages r') : OverBy ok r' inc := by
  intro rec' hrec' hhandles
  obtain ⟨rec, now, hrec, rfl⟩ := hages.kept _ rec' hrec'
  exact h rec hrec hhandles

/-- A section of a cancellation that does not attend to the bundle leaves the others
at work. -/
theorem AtWork.set (h : AtWork cancels k inc) (hi : cancels[i]? = some call)
    (hnot : call.attends k inc.bundleId = false) (call' : CancelCall) :
    AtWork (cancels.set i call') k inc := by
  rcases h with hwatcher | ⟨other, hother, hattends⟩
  · exact .inl hwatcher
  · obtain ⟨j, hj⟩ := getElem?_of_mem hother
    have hne : i ≠ j := by
      rintro rfl
      rw [some.inj (hi.symm.trans hj), hattends] at hnot
      nomatch hnot
    exact .inr ⟨other, mem_of_getElem? ((getElem?_set_ne hne).trans hj), hattends⟩

theorem atWork_of_call {cancels : List CancelCall} (hi : cancels[i]? = some call)
    (hattends : call'.attends k inc.bundleId = true) : AtWork (cancels.set i call') k inc := by
  have hlt := (List.getElem?_eq_some_iff.1 hi).1
  exact .inr ⟨call', List.mem_of_getElem? (List.getElem?_set_self hlt), hattends⟩

namespace Bundles

variable {platform : Platform} {cfg : AttachmentConfig} {s s' : Bundles} {label : BundlesLabel}

variable {inc : Incarnation}

/-- **Who has not counted is still at work**: if the counter lags behind the slots,
someone has to add to it. -/
theorem Counted.atWork (hs : s.Counted) (hk : s.incarnations[k]? = some inc)
    (hended : inc.runtime.Ended) (hopen : inc.runtime.allTerminal = false) :
    AtWork s.cancels k inc := by
  obtain ⟨htotal, hlength⟩ := hs.sized inc (mem_of_getElem? hk)
  have hcount := hs.counted k inc hk
  have hslots := inc.runtime.ended_iff.1 hended
  have hbehind : inc.runtime.terminalCount < inc.runtime.totalDistributions := by
    simpa [BundleRuntime.allTerminal] using hopen
  have hdue : (inc.watchers.map Watcher.due).sum + (s.cancels.map (CancelCall.due k)).sum ≠ 0 := by
    rw [due] at hcount
    omega
  by_contra hidle
  obtain ⟨hwatchers, hcancels⟩ := not_or.1 hidle
  have hwatched : (inc.watchers.map Watcher.due).sum = 0 := by
    refine sum_eq_zero fun n hn => ?_
    obtain ⟨w, hw, rfl⟩ := mem_map.1 hn
    refine Watcher.due_of_finished ?_
    by_contra hfinished
    exact hwatchers ⟨w, hw, by simpa using hfinished⟩
  have hcancelled : (s.cancels.map (CancelCall.due k)).sum = 0 := by
    refine sum_eq_zero fun n hn => ?_
    obtain ⟨call, hcall, rfl⟩ := mem_map.1 hn
    refine CancelCall.due_of_not_attends inc.bundleId ?_
    by_contra hattends
    exact hcancels ⟨call, hcall, by simpa using hattends⟩
  omega

/-! ### Roots and the index -/

/-- Requests pass, and bundles are accepted, only if roots are configured. -/
structure Rooted (cfg : AttachmentConfig) (s : Bundles) : Prop where
  calls : ∀ call ∈ s.sends.calls, call.pc.passed = true → cfg.hasRoots = true
  bundles : s.incarnations ≠ [] → cfg.hasRoots = true

theorem rooted_init (cfg : AttachmentConfig) (blobs : Finset BlobHash) : (init blobs).Rooted cfg where
  calls call hcall := by simp [init, SendAttachments.init] at hcall
  bundles h := absurd rfl h

theorem passed_step {sends sends' : SendAttachments} {label : SendAttachmentsLabel}
    (hcalls : ∀ call ∈ sends.calls, call.pc.passed = true → cfg.hasRoots = true)
    (h : SendAttachments.step platform cfg sends label = some sends') :
    ∀ call ∈ sends'.calls, call.pc.passed = true → cfg.hasRoots = true := by
  cases label with
  | arrive request =>
    cases h
    exact forall_mem_concat hcalls nofun
  | updateStatus | evictExpired | get | cancel | changeBlobs =>
    cases h
    exact hcalls
  | advance i label =>
    obtain ⟨call, n', call', hcall, hturn, rfl⟩ := SendAttachments.turn_of_step h
    have hpassed := SendCall.passed_turn hturn (hcalls call (mem_of_getElem? hcall))
    exact forall_mem_set hcalls hpassed

theorem Rooted.step (hs : s.Rooted cfg) (h : step platform cfg s label = some s') : s'.Rooted cfg := by
  have hset : ∀ {k : ℕ} {inc : Incarnation}, s.incarnations.set k inc ≠ [] → cfg.hasRoots = true :=
    fun hne => hs.bundles fun hnil => hne (by rw [hnil]; rfl)
  cases Turn.of_step h with
  | send hown hnone hstep => exact ⟨passed_step hs.calls hstep, hs.bundles⟩
  | @accept i now victim bundleId call identity blobs handles registry hcall hpc hhandles hinsert =>
    have hroots : cfg.hasRoots = true := by
      refine hs.calls call (mem_of_getElem? hcall) ?_
      rw [hpc]
      rfl
    exact ⟨fun _ _ _ => hroots, fun _ => hroots⟩
  | register | watch | watcherStatus => exact ⟨hs.calls, hset⟩
  | cancel => exact ⟨hs.calls, hs.bundles⟩
  | advanceCancel hcall hturn =>
    cases hturn with
    | substrate | found | absent | finalize | updateStatus => exact ⟨hs.calls, hs.bundles⟩
    | update => exact ⟨hs.calls, hset⟩

theorem Filed.distinct (hs : s.Filed) : s.registry.Distinct := by
  intro id rec hrec id' rec' hrec' hne h hh h' hh' hsame
  obtain ⟨k, hk⟩ := getElem?_of_mem (hs.resident id rec hrec)
  obtain ⟨k', hk'⟩ := getElem?_of_mem (hs.resident id' rec' hrec')
  obtain ⟨inc, hinc, hidentity⟩ := exists_of_identity hk
  obtain ⟨inc', hinc', hidentity'⟩ := exists_of_identity hk'
  have hd : h.distributionId ∈ inc.ids := by
    rw [ids, (Prod.mk.inj hidentity).2]
    exact mem_map_of_mem hh
  have hd' : h.distributionId ∈ inc'.ids := by
    rw [ids, (Prod.mk.inj hidentity').2, hsame]
    exact mem_map_of_mem hh'
  obtain rfl := hs.unique hinc hinc' hd hd'
  rw [hk, some.injEq, Prod.mk.injEq] at hk'
  exact hne (hk'.1.symm.trans (hs.keyed id rec hrec).symm)

theorem indexed_of_step {sends sends' : SendAttachments} {label : SendAttachmentsLabel}
    (hi : sends.node.registry.Indexed) (hd : sends.node.registry.Distinct) (hown : label.isOwn = true)
    (hnone : ∀ i now victim, label ≠ .advance i (.record now victim))
    (h : SendAttachments.step platform cfg sends label = some sends') :
    sends'.node.registry.Indexed := by
  cases label with
  | arrive | changeBlobs =>
    cases h
    exact hi
  | updateStatus | cancel => nomatch hown
  | evictExpired now =>
    cases h
    exact indexed_evictExpired hi hd _ _
  | get bundleId now =>
    cases h
    exact indexed_modify hi _ fun rec => rfl
  | advance i label =>
    obtain ⟨call, n', call', hcall, hturn, rfl⟩ := SendAttachments.turn_of_step h
    cases hturn with
    | validate | cap | decided | undecided | snapshot | ingest => exact hi
    | recheck => exact indexed_recheck hi hd _ _ _
    | record => exact absurd rfl (hnone _ _ _)

theorem indexed_step (hi : s.registry.Indexed) (hs : s.Filed)
    (h : step platform cfg s label = some s') : s'.registry.Indexed := by
  have hs' := hs.step h
  have hstatus : ∀ bundleId status now, (s.setStatus bundleId status now).registry.Indexed :=
    fun bundleId status now => indexed_modify hi bundleId fun rec => rfl
  cases Turn.of_step h with
  | send hown hnone hstep => exact indexed_of_step hi hs.distinct hown hnone hstep
  | accept hcall hpc hhandles hinsert =>
    exact indexed_insert hs.keyed hi hs.distinct hinsert
      (hs'.distinct _ _ (insert_found hinsert).1)
  | register | watch | cancel => exact hi
  | watcherStatus => exact hstatus _ _ _
  | advanceCancel hcall hturn =>
    cases hturn with
    | substrate | found | absent | finalize | update => exact hi
    | updateStatus => exact hstatus _ _ _

/-! ### The frames of the slots -/

def Framed (s : Bundles) : Prop :=
  ∀ inc ∈ s.incarnations, ∀ (j : ℕ) slot, inc.runtime.perDistribution[j]? = some slot →
    FrameOf s.identities inc.handles j slot

/-- A bundle whose runtime does a section of an update has such frames if the update brings one.
-/
theorem Framed.set (hs : s.Framed) (hinc : s.incarnations[k]? = some inc)
    (hset : s'.incarnations = s.incarnations.set k inc')
    (hidentity : inc'.identity = inc.identity)
    (hslots : ∀ (j : ℕ) slot, inc'.runtime.perDistribution[j]? = some slot →
      inc.runtime.perDistribution[j]? = some slot ∨ FrameOf s.identities inc.handles j slot) :
    s'.Framed := by
  have hidentities : s'.identities = s.identities := by
    rw [identities, hset]
    exact map_set_of_eq hinc hidentity
  intro other hother j slot hslot
  rw [hidentities]
  rw [hset] at hother
  rcases mem_or_eq_of_mem_set hother with hother | rfl
  · exact hs other hother j slot hslot
  · rw [(Prod.mk.inj hidentity).2]
    rcases hslots j slot hslot with hold | hnew
    · exact hs inc (mem_of_getElem? hinc) j slot hold
    · exact hnew

theorem frameOf_new {handles : List AttachmentHandleRecord} {bundleId : String}
    {identities : List (String × List AttachmentHandleRecord)}
    (hmem : (bundleId, handles) ∈ identities)
    (hnumbered : handles.map AttachmentHandleRecord.fileIndex = List.range handles.length)
    (hslot : (handles.map (runtimeSlot blobs))[j]? = some slot) :
    FrameOf identities handles j slot := by
  rw [getElem?_map] at hslot
  obtain ⟨h, hh, rfl⟩ := map_eq_some_iff.1 hslot
  have hindex : (handles.map AttachmentHandleRecord.fileIndex)[j]? = some h.fileIndex := by
    rw [getElem?_map, hh, map_some]
  rw [hnumbered] at hindex
  obtain ⟨hlt, hj⟩ := List.getElem?_eq_some_iff.1 hindex
  rw [List.getElem_range] at hj
  exact ⟨rfl, _, hmem, h, List.mem_of_getElem? hh, hj.symm, rfl, .inl rfl⟩

theorem Framed.step (hs : s.Framed) (hsound : s.Sound) (h : step platform cfg s label = some s') :
    s'.Framed := by
  have hfiled' := hsound.filed.step h
  cases Turn.of_step h with
  | send | cancel => exact hs
  | @accept i now victim bundleId call identity blobs handles registry hcall hpc hhandles hinsert =>
    intro inc hinc j slot hslot
    rcases mem_append.1 hinc with hold | hnew
    · refine (hs inc hold j slot hslot).mono ?_
      exact (Turn.of_step h).identities_isPrefix.subset
    · have hmem := mem_identities hinc
      obtain rfl := mem_singleton.1 hnew
      exact frameOf_new hmem (hfiled'.numbered _ hmem).2 hslot
  | register hinc | watcherStatus hinc => exact hs.set hinc rfl rfl fun j slot hslot => .inl hslot
  | @watch k i inc w w' label rt' hinc hw hturn =>
    refine hs.set hinc rfl rfl fun j slot hslot => ?_
    have hmem := mem_of_getElem? hinc
    obtain ⟨handle, hhandle, hserves⟩ := hsound.staffed.watchers inc hmem w (mem_of_getElem? hw)
    rcases hturn.runtime with ⟨rfl, -⟩ | ⟨report, call, last, call', hpc, hupdate, -⟩
    · exact .inl hslot
    · rcases hupdate.slot hslot with hold | ⟨rfl, rfl⟩
      · exact .inl hold
      · obtain ⟨progress, hcall, hid, hstatus⟩ := hserves.update _ _ _ hpc
        rw [hcall]
        exact .inr ⟨hstatus.symm, inc.identity, mem_identities hmem, handle, hhandle, rfl, hid.symm,
          .inl rfl⟩
  | @advanceCancel i f pc cancelLabel s'' cancel hcall hturn =>
    cases hturn with
    | substrate | found | absent | finalize | updateStatus => exact hs
    | @update owner inc call call' rt' hinc hupdate =>
      have hf := hsound.staffed.cancels _ _ (mem_of_getElem? hcall)
      refine hs.set hinc rfl rfl fun j slot hslot => ?_
      rcases hupdate.slot hslot with hold | ⟨rfl, rfl⟩
      · exact .inl hold
      · rw [hf.update _ _ rfl]
        have hid : f.handle.distributionId = f.distributionId := by
          simpa using find?_some hf.find
        exact .inr ⟨rfl, _, hf.bundle, _, mem_of_find?_eq_some hf.find, rfl, hid, .inr rfl⟩

/-! ### Nothing is forgotten -/

section SettledBy

variable {ok : BundleRuntime → BundleStatus → Prop}

def written (s : Bundles) : BundlesLabel → Option (String × BundleStatus)
  | .watcherStatus k j _ => do
    let inc ← s.incarnations[k]?
    let w ← inc.watchers[j]?
    match w.pc with
    | .updating status => some (inc.bundleId, status)
    | _ => none
  | .advanceCancel i (.updateStatus _) =>
    match s.cancels[i]? with
    | some (.running f (.updating status)) => some (f.bundleId, status)
    | _ => none
  | _ => none

/-- The status is right for the bundle of the id. -/
def Fits (ok : BundleRuntime → BundleStatus → Prop) (s : Bundles) (bundleId : String)
    (status : BundleStatus) : Prop :=
  ∀ inc ∈ s.incarnations, inc.bundleId = bundleId → ∀ rec ∈ s.registry.bundles.lookup bundleId,
    rec.handles = inc.handles → ok inc.runtime status

def Writes (ok : BundleRuntime → BundleStatus → Prop) (s : Bundles) (label : BundlesLabel) : Prop :=
  ∀ w ∈ s.written label, s.Fits ok w.1 w.2

/-- An ended bundle is attended, or its record right. -/
def SettledBy (ok : BundleRuntime → BundleStatus → Prop) (s : Bundles) : Prop :=
  ∀ (k : ℕ) inc, s.incarnations[k]? = some inc → inc.runtime.Ended →
    AtWork s.cancels k inc ∨ OverBy ok s.registry inc

theorem Fits.overBy {bundleId : String} (h : s.Fits ok bundleId status)
    (hinc : inc ∈ s.incarnations) (hover : OverBy ok s.registry inc ∨ inc.bundleId = bundleId)
    (now : SystemTime) : OverBy ok (s.setStatus bundleId status now).registry inc := by
  intro rec' hrec' hhandles
  rw [lookup_setStatus] at hrec'
  split_ifs at hrec' with hid
  · obtain ⟨rec, hrec, rfl⟩ := map_eq_some_iff.1 hrec'
    exact h inc hinc hid rec (hid ▸ hrec) hhandles
  · exact hover.resolve_right hid rec' hrec' hhandles

theorem SettledBy.set (hs : s.SettledBy ok) (hset : s'.incarnations = s.incarnations.set k inc')
    (hcancels : s'.cancels = s.cancels)
    (hover : ∀ inc ∈ s.incarnations, OverBy ok s.registry inc → OverBy ok s'.registry inc)
    (hsettled : inc'.runtime.Ended → AtWork s.cancels k inc' ∨ OverBy ok s'.registry inc') :
    s'.SettledBy ok := by
  intro k' other hother hended
  rw [hcancels]
  rw [hset] at hother
  rcases getElem?_set_cases hother with ⟨rfl, rfl⟩ | ⟨-, hother⟩
  · exact hsettled hended
  · exact (hs k' other hother hended).imp_right (hover other (mem_of_getElem? hother))

/-- A watcher that takes a turn goes on, or the counter says that someone else does. -/
theorem Sound.atWork_watch (hsound' : s'.Sound) {label : WatcherLabel}
    (hset : s'.incarnations = s.incarnations.set k ((inc.setRuntime rt').setWatcher j w'))
    (hinc : s.incarnations[k]? = some inc) (hw : inc.watchers[j]? = some w)
    (hturn : Watcher.Turn inc.runtime w label rt' w') (hended : rt'.Ended) :
    AtWork s'.cancels k ((inc.setRuntime rt').setWatcher j w') := by
  have hinc' : s'.incarnations[k]? = some ((inc.setRuntime rt').setWatcher j w') := by
    rw [hset, List.getElem?_set_self (List.getElem?_eq_some_iff.1 hinc).1]
  cases hfinished : w'.isFinished with
  | false =>
    refine .inl ⟨w', List.mem_of_getElem? (List.getElem?_set_self ?_), hfinished⟩
    exact (List.getElem?_eq_some_iff.1 hw).1
  | true =>
    refine hsound'.counted.atWork hinc' hended ?_
    obtain ⟨rfl, hopen⟩ := hturn.of_finished hfinished
    exact hopen

/-- A section of a cancellation that leaves the bundles alone: those it attended to must be
attended to by it or another afterwards, or be over. -/
theorem SettledBy.cancel (hs : s.SettledBy ok) (hi : s.cancels[i]? = some call)
    (hincs : s'.incarnations = s.incarnations) (hcancels : s'.cancels = s.cancels.set i call')
    (hover : ∀ inc ∈ s.incarnations, OverBy ok s.registry inc → OverBy ok s'.registry inc)
    (hsettled : ∀ (k : ℕ) inc, s.incarnations[k]? = some inc → inc.runtime.Ended →
      call.attends k inc.bundleId = true → AtWork s'.cancels k inc ∨ OverBy ok s'.registry inc) :
    s'.SettledBy ok := by
  intro k inc hinc hended
  rw [hincs] at hinc
  cases hattends : call.attends k inc.bundleId with
  | true => exact hsettled k inc hinc hended hattends
  | false =>
    rw [hcancels]
    exact (hs k inc hinc hended).imp (fun h => h.set hi hattends call')
      (hover inc (mem_of_getElem? hinc))

theorem attends_settle (f : CancelTarget) (k : ℕ) (bundleId : String) (call : UpdateCall) :
    CancelCall.attends k bundleId (.running f (.settle k call)) = true := by
  unfold CancelPc.settle
  split <;> simp [CancelCall.attends]

theorem SettledBy.step (hs : s.SettledBy ok) (hsound : s.Sound) (hok : s.Writes ok label)
    (h : step platform cfg s label = some s') : s'.SettledBy ok := by
  have hsound' := hsound.step h
  cases Turn.of_step h with
  | send hown hnone hstep =>
    have hages := ages_of_step hsound.filed.keyed hown hnone hstep
    exact fun k inc hinc hended => (hs k inc hinc hended).imp_right fun hover => hover.ages hages
  | @accept i now victim bundleId call identity blobs handles registry hcall hpc hhandles hinsert =>
    have hlast : (s.incarnations ++ [new bundleId handles blobs])[s.incarnations.length]? =
        some (.new bundleId handles blobs) := by simp
    intro k inc hinc hended
    by_cases hk : k < s.incarnations.length
    · have hold : s.incarnations[k]? = some inc := by
        rw [← hinc]
        exact (getElem?_append_left hk).symm
      refine (hs k inc hold hended).imp_right fun hover rec' hrec' hsame => ?_
      -- The new record has handles of its own, and the others are as before or gone.
      by_cases hid : inc.bundleId = bundleId
      · rw [hid] at hrec'
        cases (insert_found hinsert).1.symm.trans hrec'
        have hself := hsound'.filed.eq_of_handles hinc hlast hsame.symm
        omega
      · rw [lookup_insert hsound.filed.keyed hinsert hid] at hrec'
        split_ifs at hrec'
        exact hover rec' hrec' hsame
    · obtain rfl : k = s.incarnations.length := by
        have hlt := (List.getElem?_eq_some_iff.1 hinc).1
        rw [List.length_append, List.length_singleton] at hlt
        omega
      cases hlast.symm.trans hinc
      have hne := (hsound'.filed.numbered _ (mem_identities (List.mem_of_getElem? hinc))).1
      obtain ⟨handle, hhandle⟩ := exists_mem_of_ne_nil _ hne
      nomatch hended (runtimeSlot blobs handle) (mem_map_of_mem hhandle)
  | @register k inc hinc hnew =>
    have hne := (hsound.filed.numbered _ (mem_identities (List.mem_of_getElem? hinc))).1
    obtain ⟨handle, hhandle⟩ := exists_mem_of_ne_nil _ hne
    refine hs.set rfl rfl (fun _ _ h => h) fun _ => .inl (.inl ?_)
    exact ⟨Watcher.spawn handle, mem_map_of_mem hhandle, rfl⟩
  | watch hinc hw hturn =>
    exact hs.set rfl rfl (fun _ _ h => h) fun hended =>
      .inl (hsound'.atWork_watch rfl hinc hw hturn hended)
  | @watcherStatus k j inc w status hinc hw hpc now =>
    have hfits := hok (inc.bundleId, status) (by simp [written, hinc, hw, hpc])
    refine hs.set rfl rfl (fun other hother h => hfits.overBy hother (.inl h) now) fun _ => .inr ?_
    exact hfits.overBy (List.mem_of_getElem? hinc) (.inr rfl) now
  | @cancel distributionId call hcall =>
    intro k inc hinc hended
    refine (hs k inc hinc hended).imp_left fun hwork => ?_
    exact hwork.imp_right fun ⟨call, hmem, hattends⟩ =>
      ⟨call, mem_append_left _ hmem, hattends⟩
  | @advanceCancel i f pc cancelLabel s'' call hcall hturn =>
    cases hturn with
    | substrate | found | absent =>
      exact hs.cancel hcall rfl rfl (fun _ _ h => h)
        fun _ _ _ _ hattends => absurd hattends (by simp [CancelCall.attends])
    | @update owner inc call call' rt' hinc hupdate =>
      intro k other hother hended
      rcases getElem?_set_cases hother with ⟨rfl, rfl⟩ | ⟨hne, hother⟩
      · exact .inl (atWork_of_call hcall (attends_settle f k _ call'))
      · refine (hs k other hother hended).imp_left fun hwork => hwork.set hcall ?_ _
        simpa [CancelCall.attends] using hne.symm
    | @finalize owner inc hinc =>
      refine hs.cancel hcall rfl rfl (fun _ _ h => h) fun k other hother hended hattends => .inl ?_
      obtain rfl : owner = k := by simpa [CancelCall.attends] using hattends
      cases hinc.symm.trans hother
      by_cases hall : inc.runtime.allTerminal = true
      · refine atWork_of_call hcall ?_
        have hf := hsound.staffed.cancels _ _ (List.mem_of_getElem? hcall)
        obtain ⟨b, hb, hid⟩ := hf.owner owner rfl
        obtain ⟨inc', hinc', rfl⟩ := exists_of_identity hb
        cases hinc.symm.trans hinc'
        have hbundle : f.bundleId = inc.bundleId := hid.symm
        rw [if_pos hall]
        simpa [CancelCall.attends] using hbundle
      · exact hsound'.counted.atWork hother hended (by simpa using hall)
    | updateStatus status now =>
      have hfits := hok (f.bundleId, status) (by simp [written, hcall])
      refine hs.cancel hcall rfl rfl (fun inc hinc h => hfits.overBy hinc (.inl h) now)
        fun k inc hinc hended hattends => .inr (hfits.overBy (List.mem_of_getElem? hinc) (.inr ?_) now)
      have hid : f.bundleId = inc.bundleId := by simpa [CancelCall.attends] using hattends
      exact hid.symm

end SettledBy

structure Attended (s : Bundles) : Prop where
  watchers : ∀ inc ∈ s.incarnations, ∀ w ∈ inc.watchers, ∀ status, w.pc = .updating status →
    status.isTerminal = true
  cancels : ∀ f status, .running f (.updating status) ∈ s.cancels → status.isTerminal = true
  settled : s.SettledBy fun _ status => status.isTerminal = true

/-- Who writes a status: a watcher or a cancellation. -/
theorem of_written {bundleId : String} (h : s.written label = some (bundleId, status)) :
    (∃ (k j : ℕ) (inc : Incarnation) (w : Watcher), s.incarnations[k]? = some inc ∧
        inc.watchers[j]? = some w ∧ inc.bundleId = bundleId ∧ w.pc = .updating status) ∨
      ∃ (i : ℕ) (f : CancelTarget), s.cancels[i]? = some (.running f (.updating status)) ∧ f.bundleId = bundleId := by
  unfold written at h
  split at h
  · simp only [bind_eq_bind, bind_eq_some_iff] at h
    obtain ⟨inc, hinc, w, hw, hpc⟩ := h
    split at hpc <;> cases hpc
    exact .inl ⟨_, _, inc, w, hinc, hw, rfl, by assumption⟩
  · split at h <;> cases h
    exact .inr ⟨_, _, by assumption, rfl⟩
  · cases h

theorem attended_init (blobs : Finset BlobHash) : (init blobs).Attended where
  watchers inc hinc := by simp [init] at hinc
  cancels f status h := by simp [init] at h
  settled k inc hinc := by simp [init] at hinc

theorem Attended.writes (hs : s.Attended) (label : BundlesLabel) :
    s.Writes (fun _ status => status.isTerminal = true) label := by
  rintro ⟨bundleId, status⟩ hwritten _ _ _ _ _ _
  rcases of_written hwritten with ⟨k, j, inc, w, hinc, hw, -, hpc⟩ | ⟨i, f, hcall, -⟩
  · exact hs.watchers inc (mem_of_getElem? hinc) w (mem_of_getElem? hw) status hpc
  · exact hs.cancels f status (mem_of_getElem? hcall)

theorem Attended.step (hs : s.Attended) (hsound : s.Sound) (h : step platform cfg s label = some s') :
    s'.Attended := by
  refine ⟨?_, ?_, hs.settled.step hsound (hs.writes label) h⟩
  · cases Turn.of_step h with
    | send | cancel => exact hs.watchers
    | accept => exact forall_mem_concat hs.watchers fun w hw => absurd hw not_mem_nil
    | register =>
      refine forall_mem_set hs.watchers fun w hw status hpc => ?_
      obtain ⟨handle, -, rfl⟩ := mem_map.1 hw
      nomatch hpc
    | @watch _ _ inc _ _ _ _ hinc hw hturn =>
      refine forall_mem_set hs.watchers (forall_mem_set
        (hs.watchers inc (mem_of_getElem? hinc)) fun status hpc => ?_)
      rw [(hturn.of_updating hpc).2.2]
      exact isTerminal_finalStatus _
    | watcherStatus hinc =>
      exact forall_mem_set hs.watchers
        (forall_mem_set (hs.watchers _ (mem_of_getElem? hinc)) nofun)
    | advanceCancel hcall hturn =>
      cases hturn with
      | substrate | found | absent | finalize | updateStatus => exact hs.watchers
      | @update _ inc _ _ _ hinc =>
        exact forall_mem_set hs.watchers (hs.watchers inc (mem_of_getElem? hinc))
  · cases Turn.of_step h with
    | send | accept | register | watch | watcherStatus => exact hs.cancels
    | cancel hcall =>
      intro f status hf
      rcases mem_append.1 hf with hf | hf
      · exact hs.cancels f status hf
      · obtain rfl := mem_singleton.1 hf
        nomatch (cancelAttachmentDistribution_running hcall).2.2.1
    | advanceCancel hcall hturn =>
      intro f status hf
      rcases mem_or_eq_of_mem_set hf with hold | hnew
      · cases hturn with
        | _ => exact hs.cancels f status hold
      · cases hturn with
        | substrate _ _ hresult => rcases hresult with rfl | ⟨e, rfl⟩ <;> nomatch hnew
        | found | updateStatus => nomatch hnew
        | absent =>
          obtain ⟨-, hpc⟩ := CancelCall.running.inj hnew
          rw [CancelPc.updating.inj hpc]
          rfl
        | @update owner _ _ call' =>
          obtain ⟨-, hpc⟩ := CancelCall.running.inj hnew
          have howner := CancelPc.owner_settle owner call'
          rw [← hpc] at howner
          nomatch howner
        | finalize =>
          split_ifs at hnew
          obtain ⟨-, hpc⟩ := CancelCall.running.inj hnew
          rw [CancelPc.updating.inj hpc]
          exact isTerminal_finalStatus _

/-- What every run keeps, with what it leaves behind. -/
structure Settled (cfg : AttachmentConfig) (s : Bundles) : Prop extends s.Sound where
  rooted : s.Rooted cfg
  indexed : s.registry.Indexed
  framed : s.Framed
  attended : s.Attended

theorem settled_of_reachable (h : s.Reachable platform cfg) : s.Settled cfg := by
  obtain ⟨blobs, labels, hrun⟩ := h
  refine Lts.exec_preserves (Settled cfg) (fun s label s' hs hstep => ?_) ?_ hrun
  · exact ⟨hs.toSound.step hstep, hs.rooted.step hstep, indexed_step hs.indexed hs.filed hstep,
      hs.framed.step hs.toSound hstep, hs.attended.step hs.toSound hstep⟩
  · exact ⟨sound_init blobs, rooted_init cfg blobs,
      by simp [Registry.Indexed, init, SendAttachments.init, empty], by simp [Framed, init],
      attended_init blobs⟩

/-- Every watcher is spawned, nobody is at work. -/
def Quiescent (s : Bundles) : Prop :=
  (∀ inc ∈ s.incarnations, inc.Idle) ∧ ∀ call ∈ s.cancels, call.target = none
deriving Decidable

theorem Quiescent.not_atWork (hquiet : s.Quiescent)
    (hinc : inc ∈ s.incarnations) (k : ℕ) : ¬ AtWork s.cancels k inc := by
  rintro (⟨w, hw, hbusy⟩ | ⟨call, hcall, hattends⟩)
  · rw [(hquiet.1 inc hinc).2 w hw] at hbusy
    nomatch hbusy
  · have htarget := hquiet.2 call hcall
    cases call with
    | running => nomatch htarget
    | returned => nomatch hattends

/-- **Nothing is forgotten**: when the work is over, a bundle whose distributions have all ended
has a terminal record. -/
theorem Settled.over (hs : s.Settled cfg) (hquiet : s.Quiescent)
    (hinc : inc ∈ s.incarnations) (hended : inc.runtime.Ended) :
    OverBy (fun _ status => status.isTerminal = true) s.registry inc := by
  obtain ⟨k, hk⟩ := getElem?_of_mem hinc
  exact (hs.attended.settled k inc hk hended).resolve_left (hquiet.not_atWork hinc k)

end Bundles

end PeatNode.Attachments
