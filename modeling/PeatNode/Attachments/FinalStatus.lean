/-
# The last status of a bundle

`maybe_finalize_bundle` reads the slots, and writes the status it makes of them in another step. A
cancellation that relabels a failure in between sees more, but the older view may be written last
(`stale_failure`).  If that does not happen (`Steady`) and nobody works on an earlier bundle of
the id (`Orderly`), the last status matches the slots when the work is over
(`final_status_matches`): whoever changes a slot looks at all of them afterwards.
-/

import PeatNode.Attachments.Quiescent

namespace PeatNode.Attachments

open List

/-- The update changes its slot now. -/
def UpdateCall.Relabels (c : UpdateCall) (rt : BundleRuntime) : Prop :=
  c.pc = .writing ∧ ∃ slot ∈ rt.perDistribution[c.update.fileIndex]?, c.update.keeps slot.state = false
deriving Decidable

/-- The watcher has a status to write. -/
def Watcher.isWriting (w : Watcher) : Bool :=
  match w.pc with
  | .updating _ => true
  | .checking | .subscribing | .receiving | .applying .. | .finalizing | .finished => false

/-- It has a status to write under the id. -/
def CancelCall.isWriting (bundleId : String) : CancelCall → Bool
  | .running f (.updating _) => f.bundleId = bundleId
  | .running .. | .returned _ => false

/-- The bundle and the update it is in. -/
def CancelCall.applying : CancelCall → Option (ℕ × UpdateCall)
  | .running _ (.applying owner call) => some (owner, call)
  | .running .. | .returned _ => none

theorem UpdateCall.Turn.slots_eq {c c' : UpdateCall} (h : Turn rt c rt' c') (hnot : ¬ c.Relabels rt) :
    rt'.perDistribution = rt.perDistribution := by
  cases h with
  | refused | sent => rfl
  | counted => exact BundleRuntime.perDistribution_count _ _
  | written hpc hslot hkeeps => exact absurd ⟨hpc, _, hslot, hkeeps⟩ hnot

/-- A watcher leaves the slots of a bundle that has ended alone. -/
theorem Watcher.Turn.slots_eq (hw : w.Serves h) (hturn : Watcher.Turn rt w label rt' w')
    (hended : rt.Ended) : rt'.perDistribution = rt.perDistribution := by
  rcases hturn.runtime with ⟨rfl, -⟩ | ⟨report, call, last, call', hpc, hupdate, -⟩
  · rfl
  · refine hupdate.slots_eq ?_
    rintro ⟨-, slot, hslot, hkeeps⟩
    obtain ⟨progress, hcall, -⟩ := hw.update _ _ _ hpc
    have hterminal := hended slot (mem_of_getElem? hslot)
    rw [hcall] at hkeeps
    simp [Update.keeps, applyProgress, hterminal] at hkeeps

namespace Bundles

variable {platform : Platform} {cfg : AttachmentConfig} {s s' : Bundles} {label : BundlesLabel}

/-- No relabelling between a finaliser's snapshot and its write. -/
def Steady (s : Bundles) : BundlesLabel → Prop
  | .advanceCancel i .update => ∀ call ∈ s.cancels[i]?, ∀ u ∈ call.applying,
      ∀ inc ∈ s.incarnations[u.1]?, u.2.Relabels inc.runtime →
        (∀ w ∈ inc.watchers, w.isWriting = false) ∧
          ∀ other ∈ s.cancels, other.isWriting inc.bundleId = false
  | _ => True

instance (s : Bundles) (label : BundlesLabel) : Decidable (s.Steady label) := by
  unfold Steady
  split <;> infer_instance

/-- The status is that of the slots. -/
def OfSlots (rt : BundleRuntime) (status : BundleStatus) : Prop :=
  status = finalStatus rt.perDistribution

/-- A status that is to be written is that of the slots of its bundle. -/
structure Fresh (s : Bundles) : Prop where
  watchers : ∀ inc ∈ s.incarnations, ∀ w ∈ inc.watchers, ∀ status, w.pc = .updating status →
    OfSlots inc.runtime status
  cancels : ∀ f status, .running f (.updating status) ∈ s.cancels → ∀ inc ∈ s.incarnations,
    inc.identity = (f.bundleId, f.bundle.handles) → OfSlots inc.runtime status

/-- A step of one bundle that leaves its slots as they are where a cancellation has a status
to write. -/
theorem Fresh.set (hs : s.Fresh) (hinc : s.incarnations[k]? = some inc)
    (hset : s'.incarnations = s.incarnations.set k inc') (hidentity : inc'.identity = inc.identity)
    (hwatchers : ∀ w ∈ inc'.watchers, ∀ status, w.pc = .updating status →
      OfSlots inc'.runtime status)
    (hcancels : ∀ f status, .running f (.updating status) ∈ s'.cancels →
      .running f (.updating status) ∈ s.cancels ∧
        (inc.identity = (f.bundleId, f.bundle.handles) →
          inc'.runtime.perDistribution = inc.runtime.perDistribution)) : s'.Fresh where
  watchers := by
    rw [hset]
    exact forall_mem_set hs.watchers hwatchers
  cancels f status hf := by
    obtain ⟨hold, hslots⟩ := hcancels f status hf
    rw [hset]
    refine forall_mem_set (hs.cancels f status hold) fun hown => ?_
    rw [hidentity] at hown
    rw [OfSlots, hslots hown]
    exact hs.cancels f status hold inc (mem_of_getElem? hinc) hown

/-- A cancellation that has taken its snapshot has the status of its own bundle. -/
theorem Fresh.finalize (hs : s.Fresh) (hkept : s.Kept)
    (hcall : s.cancels[i]? = some (.running f (.finalizing k))) (hinc : s.incarnations[k]? = some inc)
    (call : CancelCall) (hnew : ∀ f' status, call = .running f' (.updating status) →
      f' = f ∧ OfSlots inc.runtime status) :
    Fresh { s with cancels := s.cancels.set i call } where
  watchers := hs.watchers
  cancels f' status hf' inc' hinc' hown := by
    rcases mem_or_eq_of_mem_set hf' with hold | hf'
    · exact hs.cancels f' status hold inc' hinc' hown
    · obtain ⟨rfl, hslots⟩ := hnew f' status hf'.symm
      have hplace := (hkept.cancels f' _ (mem_of_getElem? hcall)).owner k rfl
      rw [identities, getElem?_map, hinc, Option.map_some, Option.some.injEq] at hplace
      rw [hkept.filed.inc_eq_of_handles hinc' (mem_of_getElem? hinc)
        ((Prod.mk.inj hown).2.trans (Prod.mk.inj hplace).2.symm)]
      exact hslots

/-- A section of a cancellation relabels a slot only when nobody has a status of the bundle to
write. -/
theorem Fresh.update (hs : s.Fresh) (hcall : s.cancels[i]? = some (.running f (.applying k call)))
    (hsteady : s.Steady (.advanceCancel i .update)) (hinc : s.incarnations[k]? = some inc)
    (hset : s'.incarnations = s.incarnations.set k (inc.setRuntime rt'))
    (hturn : UpdateCall.Turn inc.runtime call rt' call')
    (hcancels : ∀ f status, .running f (.updating status) ∈ s'.cancels →
      .running f (.updating status) ∈ s.cancels) : s'.Fresh := by
  by_cases hrelabels : call.Relabels inc.runtime
  · obtain ⟨hwatchers, hothers⟩ := hsteady _ hcall _ rfl inc hinc hrelabels
    refine hs.set hinc hset rfl (fun w hw status hpc => ?_) fun f' status hf' => ⟨hcancels _ _ hf', ?_⟩
    · exact absurd (hwatchers w hw) (by simp [Watcher.isWriting, hpc])
    · intro hown
      exact absurd (hothers _ (hcancels _ _ hf'))
        (by simp [CancelCall.isWriting, (Prod.mk.inj hown).1])
  · have hslots := hturn.slots_eq hrelabels
    refine hs.set hinc hset rfl (fun w hw status hpc => ?_)
      fun f' status hf' => ⟨hcancels _ _ hf', fun _ => hslots⟩
    show status = finalStatus rt'.perDistribution
    rw [hslots]
    exact hs.watchers inc (mem_of_getElem? hinc) w hw status hpc

theorem Fresh.step (hs : s.Fresh) (hkept : s.Kept) (horderly : s.Orderly label)
    (hsteady : s.Steady label) (h : step platform cfg s label = some s') : s'.Fresh := by
  cases Turn.of_step h with
  | send => exact ⟨hs.watchers, hs.cancels⟩
  | accept hcall hpc =>
    have hnocancel := (horderly.1 _ (recorded_of_ingested hcall hpc)).2
    refine ⟨forall_mem_concat hs.watchers (by simp [Incarnation.new]), fun f status hf =>
      forall_mem_concat (hs.cancels f status hf) fun hown => ?_⟩
    exact absurd (Prod.mk.inj hown).1.symm (hnocancel _ hf _ rfl)
  | register hinc =>
    refine hs.set hinc rfl rfl (fun w hw status hpc => ?_) fun f status hf => ⟨hf, fun _ => rfl⟩
    obtain ⟨handle, -, rfl⟩ := mem_map.1 hw
    cases hpc
  | @watch k j inc w w' label rt' hinc hw hturn =>
    have hmem := mem_of_getElem? hinc
    obtain ⟨handle, -, hserves⟩ := hkept.staffed.watchers inc hmem w (mem_of_getElem? hw)
    have hslots := hturn.slots_eq hserves
    refine hs.set hinc rfl rfl (forall_mem_set (fun v hv status hpc => ?_) fun status hpc => ?_)
      fun f status hf => ⟨hf, fun hown => hslots ((hkept.cancels f _ hf).ended status rfl inc hmem hown)⟩
    · show status = finalStatus rt'.perDistribution
      rw [hslots ((hkept.bundles inc hmem).watchers v hv status hpc)]
      exact hs.watchers inc hmem v hv status hpc
    · obtain ⟨rfl, -, hstatus⟩ := hturn.of_updating hpc
      exact hstatus
  | watcherStatus hinc =>
    exact hs.set hinc rfl rfl (forall_mem_set (hs.watchers _ (mem_of_getElem? hinc))
      fun status hpc => by cases hpc)
      fun f status hf => ⟨hf, fun _ => rfl⟩
  | cancel hcall =>
    refine ⟨hs.watchers, fun f status hf => ?_⟩
    rcases mem_append.1 hf with hf | hf
    · exact hs.cancels f status hf
    · rw [← mem_singleton.1 hf] at hcall
      cases (cancelAttachmentDistribution_running hcall).2.2.1
  | @advanceCancel i f pc label s₁ call hcall hturn =>
    have hold : (∀ f' status, call ≠ .running f' (.updating status)) → ∀ f' status,
        .running f' (.updating status) ∈ s.cancels.set i call →
          .running f' (.updating status) ∈ s.cancels := fun hne f' status hf' =>
      (mem_or_eq_of_mem_set hf').resolve_right fun hcall => hne f' status hcall.symm
    cases hturn with
    | substrate w hstore hresult =>
      refine ⟨hs.watchers, fun f' status hf' => hs.cancels f' status (hold ?_ f' status hf')⟩
      rcases hresult with rfl | ⟨e, rfl⟩ <;> simp
    | found | updateStatus =>
      exact ⟨hs.watchers, fun f' status hf' => hs.cancels f' status (hold (by simp) f' status hf')⟩
    | absent hnone =>
      obtain ⟨k, hk, -⟩ := horderly.2 _ hcall _ rfl
      cases hnone.symm.trans hk
    | @update k inc call call' rt' hinc hupdate =>
      refine hs.update hcall hsteady hinc rfl hupdate (hold fun f' status hnew => ?_)
      have howner := CancelPc.owner_settle k call'
      rw [(CancelCall.running.inj hnew).2] at howner
      cases howner
    | finalize hinc =>
      refine hs.finalize hkept hcall hinc _ fun f' status hnew => ?_
      split_ifs at hnew
      obtain ⟨rfl, hpc⟩ := CancelCall.running.inj hnew
      exact ⟨rfl, (CancelPc.updating.inj hpc).symm⟩

/-- What is written is that of the slots. -/
theorem Fresh.writes (hs : s.Fresh) (hkept : s.Kept) (label : BundlesLabel) :
    s.Writes OfSlots label := by
  rintro ⟨bundleId, status⟩ hwritten inc' hinc' hid rec hrec hhandles
  rcases of_written hwritten with ⟨k, j, inc, w, hinc, hw, rfl, hpc⟩ | ⟨i, f, hcall, rfl⟩
  · have hmem := mem_of_getElem? hinc
    have hbusy : ¬ inc.Idle := Incarnation.not_idle_of_mem (mem_of_getElem? hw)
      (by simp [Watcher.isFinished, hpc])
    have hown := (hkept.bundles inc hmem).record hbusy rec hrec
    rw [hkept.filed.inc_eq_of_handles hinc' hmem (hhandles.symm.trans hown)]
    exact hs.watchers inc hmem w (mem_of_getElem? hw) status hpc
  · have hcall := mem_of_getElem? hcall
    have hown := (hkept.cancels f _ hcall).record rec hrec
    exact hs.cancels f status hcall inc' hinc' (Prod.ext hid (hhandles.symm.trans hown))

/-- **The last status matches the slots** in every run in which no cancellation relabels a slot
between a finaliser's snapshot and its write, and nobody works on an earlier bundle of the id. -/
theorem final_status_matches (platform : Platform) (cfg : AttachmentConfig)
    (blobs : Finset BlobHash) (labels : List BundlesLabel) (s : Bundles)
    (hok : Lts.Along (step platform cfg) (fun s label => s.Orderly label ∧ s.Steady label)
      (init blobs) labels)
    (hrun : Lts.exec (step platform cfg) (init blobs) labels = some s) (hquiet : s.Quiescent) :
    ∀ inc ∈ s.incarnations, inc.runtime.Ended → ∀ rec,
      s.registry.bundles.lookup inc.bundleId = some rec → rec.handles = inc.handles →
      rec.status = if inc.runtime.perDistribution.any (·.state = .failed) then .failed
        else if inc.runtime.perDistribution.any (·.state = .cancelled) then .cancelled
        else .completed := by
  intro inc hinc hended
  obtain ⟨-, -, hsettled⟩ := Lts.exec_invariant
    (fun s => s.Kept ∧ s.Fresh ∧ s.SettledBy OfSlots)
    (fun s label s' ⟨hkept, hfresh, hsettled⟩ hok h => ⟨hkept.step hok.1 h,
      hfresh.step hkept hok.1 hok.2 h, hsettled.step hkept.toSound (hfresh.writes hkept label) h⟩)
    ⟨kept_init blobs, ⟨by simp [init], by simp [init]⟩, by simp [SettledBy, init]⟩ hok hrun
  obtain ⟨k, hk⟩ := List.getElem?_of_mem hinc
  exact (hsettled k inc hk hended).resolve_left (hquiet.not_atWork hinc k)

/-! ### A failure and a cancellation -/

def fails : List BundlesLabel :=
  [.recv (.report ⟨1, [⟨"peer", .failed, 0, 8, some "lost"⟩], true⟩), .update, .update, .update,
    .finalize].map (.watch 0 0)

/-- The cancellation comes before the watcher's look. -/
def relabelsFirst : List BundlesLabel :=
  watched ++ .cancel "first" :: fails.take 4 ++ (goesThrough 0).take 5 ++
    [.watch 0 0 .finalize, .advanceCancel 0 .finalize, .watcherStatus 0 0 2,
      .advanceCancel 0 (.updateStatus 3)]

/-- Then both write what the slots say. -/
theorem relabelsFirst_matches :
    ∃ s ∈ Lts.exec (step byContent plainConfig) (init ∅) relabelsFirst,
      ∃ inc ∈ s.incarnations, ∃ rec ∈ s.registry.bundles.lookup inc.bundleId,
        rec.status = .cancelled := by
  have hend : ∃ s ∈ Lts.exec (step byContent plainConfig) (init ∅) relabelsFirst,
      s.Quiescent ∧ ∃ inc ∈ s.incarnations, inc.runtime.Ended ∧
        inc.runtime.perDistribution.any (·.state = .failed) = false ∧
        inc.runtime.perDistribution.any (·.state = .cancelled) = true ∧
        ∃ rec ∈ s.registry.bundles.lookup inc.bundleId, rec.handles = inc.handles := by
    decide +kernel
  obtain ⟨s, hrun, hquiet, inc, hinc, hended, hnone, hcancelled, rec, hrec, hown⟩ := hend
  refine ⟨s, hrun, inc, hinc, rec, hrec, ?_⟩
  rw [final_status_matches byContent plainConfig ∅ _ s (by decide +kernel) hrun hquiet inc hinc
    hended rec hrec hown, hnone, hcancelled]
  rfl

/-- **A cancellation comes in between**: it relabels the failure and writes its status, and the
watcher then writes `Failed`, with no failed slot left. -/
theorem stale_failure : ∃ s ∈ Lts.exec (step byContent plainConfig) (init ∅)
        (watched ++ .cancel "first" :: fails ++ goesThrough 0 ++ [.watcherStatus 0 0 2]),
      s.Quiescent ∧ ∃ inc ∈ s.incarnations, inc.runtime.Ended ∧
        (inc.runtime.perDistribution.map (·.state)) = [.cancelled] ∧
        ∃ rec ∈ s.registry.bundles.lookup inc.bundleId, rec.handles = inc.handles ∧
          rec.status = .failed := by
  decide +kernel

end Bundles

end PeatNode.Attachments
