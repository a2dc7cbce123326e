/-
# A request that fails

`send_attachments` puts its bundle into the table last, but the second phase of `check_resubmit`
drops a record that has failed or was cancelled to make way for the new bundle, whose ingest can
still fail.  A failed request leaves the table as it was exactly if it did not find such a record
(`failed_send_keeps_iff`).
-/

import PeatNode.Attachments.OwnStatus

namespace PeatNode.Attachments

namespace SendCall

/-- `check_resubmit` finds no failed record again. -/
def ReusesNothing (s : Sidecar × SendCall) (label : SendLabel) : Prop :=
  ∀ now, label = .recheck now → ∀ bundleId v, s.2.pc = .probed bundleId v →
    ∀ rec, s.1.registry.bundles.lookup bundleId = some rec →
      rec.status.allowsReuseWithDifferentFiles = false

variable {platform : Platform} {cfg : AttachmentConfig} {s s' : Sidecar × SendCall} {r : Registry}
  {label : SendLabel}

def Succeeded (s : Sidecar × SendCall) : Prop := ∃ response, s.2.pc = .returned (.ok response)

/-- The table is as it was, or the request succeeded. -/
def Untouched (r : Registry) (s : Sidecar × SendCall) : Prop := s.1.registry = r ∨ Succeeded s

/-- Past the look-up, with a changed table or a success. -/
def Dropped (r : Registry) (s : Sidecar × SendCall) : Prop :=
  s.1.registry ≠ r ∧ (s.2.pc.inHand = true ∨ ∃ result, s.2.pc = .returned result) ∨ Succeeded s

theorem settle_inHand (bundleId : String) (identity : BundleIdentity) (c : IngestCall) :
    (settle bundleId identity c).inHand = true ∨ ∃ result, settle bundleId identity c = .returned result := by
  unfold settle
  split
  · exact .inr ⟨_, rfl⟩
  all_goals exact .inl rfl

theorem not_step_of_returned (h : s.2.pc = .returned result) :
    step platform cfg s label = none := by
  simp [step, advance, h]

theorem Untouched.step (hs : Untouched r s) (hok : ReusesNothing s label)
    (h : step platform cfg s label = some s') : Untouched r s' := by
  rcases hs with rfl | ⟨response, hpc⟩
  · obtain ⟨n', call'⟩ := s'
    cases Turn.of_advance h with
    | validate | cap | decided | undecided | snapshot | ingest => exact .inl rfl
    | @recheck bundleId v hpc now =>
      unfold Untouched Registry.recheck
      split
      · exact .inl rfl
      · next rec hrec =>
        have hkept := hok now rfl bundleId v hpc rec hrec
        rw [hkept, if_neg Bool.false_ne_true]
        split_ifs
        · exact .inr ⟨_, rfl⟩
        · exact .inl rfl
    | record => exact .inr ⟨_, rfl⟩
  · simp [not_step_of_returned hpc] at h

theorem Untouched.drop (hr : r.Keyed) (hs : Untouched r s) (hok : ¬ ReusesNothing s label)
    (h : SendCall.step platform cfg s label = some s') : Dropped r s' := by
  simp only [ReusesNothing, not_forall] at hok
  obtain ⟨now, rfl, bundleId, v, hpc, rec, hrec, hreuse⟩ := hok
  rcases hs with rfl | ⟨response, hpc'⟩
  · have hdrop : s.1.registry.recheck bundleId (.fromValidated v.files) now =
        (.notFound, s.1.registry.dropRecord rec) := by
      simp only [Registry.recheck, hrec, Bool.not_eq_false _ ▸ hreuse, if_true]
    simp only [SendCall.step, advance, hpc, hdrop] at h
    cases h
    refine .inl ⟨fun hsame => ?_, .inl rfl⟩
    -- the record is gone
    have hgone : (s.1.registry.dropRecord rec).bundles.lookup bundleId = none := by
      rw [Registry.bundles_dropRecord, hr bundleId rec hrec, AList.lookup_erase]
    have hsame' : s.1.registry.dropRecord rec = s.1.registry := hsame
    simp [hsame', hrec] at hgone
  · simp [not_step_of_returned hpc'] at h

theorem Dropped.step (hs : Dropped r s) (h : step platform cfg s label = some s') :
    Dropped r s' := by
  rcases hs with ⟨hne, hlate | ⟨result, hpc⟩⟩ | ⟨response, hpc⟩
  · obtain ⟨n', call'⟩ := s'
    cases Turn.of_advance h with
    | validate hpc | cap hpc | decided hpc | undecided hpc | recheck hpc =>
      rw [hpc] at hlate
      cases hlate
    | snapshot | ingest => exact .inl ⟨hne, settle_inHand _ _ _⟩
    | record => exact .inr ⟨_, rfl⟩
  all_goals
    simp [not_step_of_returned hpc] at h

end SendCall

/-- **A failed request and the table.** On a node in any reachable state, a request that ends with
an error leaves the bundles and the index as they were exactly if it did not come upon a failed or
cancelled record under its id. -/
theorem failed_send_keeps_iff (platform : Platform) (cfg : AttachmentConfig) (s : Bundles)
    (hs : s.Reachable platform cfg) (request : SendAttachmentsRequest) (labels : List SendLabel)
    (s' : Sidecar × SendCall) (e : ConnectError)
    (hrun : Lts.exec (SendCall.step platform cfg) (s.sends.node, ⟨request, .received⟩) labels =
      some s') (herror : s'.2.pc = .returned (.error e)) :
    s'.1.registry = s.registry ↔ Lts.Along (SendCall.step platform cfg) SendCall.ReusesNothing
        (s.sends.node, ⟨request, .received⟩) labels := by
  have hkeyed := (Bundles.sound_of_reachable hs).filed.keyed
  have hfailed : ¬ SendCall.Succeeded s' := by
    rintro ⟨response, hpc⟩
    simp [herror] at hpc
  refine Lts.exec_dichotomy_iff (SendCall.Untouched s.registry) (SendCall.Dropped s.registry)
    (fun _ _ _ hs hok h => hs.step hok h) (fun _ _ _ hs hok h => hs.drop hkeyed hok h)
    (fun _ _ _ hs h => hs.step h) (.inl rfl) hrun (fun hgood => ?_) (fun hbad => ?_)
  · exact hgood.resolve_right hfailed
  · exact (hbad.resolve_right hfailed).1

def cannotOpen : List SendLabel := [.snapshot, .ingest (.read (.openFailed "gone"))]

def refused (s : Sidecar × SendCall) : Bool := s.2.pc.result.any fun result => !result.isOk

theorem eq_error_of_refused (h : refused s = true) : ∃ e, s.2.pc = .returned (.error e) := by
  obtain ⟨result, hresult, herror⟩ := (Option.any_eq_true _ _).1 h
  cases result with
  | error e => exact ⟨e, SendPc.eq_returned hresult⟩
  | ok response => cases herror

/-- The bundle is sent and cancelled. -/
def cancelsFirst : List BundlesLabel :=
  Bundles.watched ++ .cancel "first" :: Bundles.goesThrough 0

/-- A request for another bundle fails; the cancelled one stays. -/
theorem failed_send_kept :
    ∃ s ∈ Lts.exec (Bundles.step byContent plainConfig) (Bundles.init ∅) cancelsFirst,
      ∃ s' ∈ Lts.exec (SendCall.step byContent plainConfig)
          (s.sends.node, ⟨{ sampleRequest with bundleId := some "other" }, .received⟩)
          (looksUp ++ cannotOpen),
        refused s' = true ∧ (s'.1.registry.lookupDistribution "first").isSome = true ∧
        s'.1.registry = s.registry ∧
        Lts.Along (SendCall.step byContent plainConfig) SendCall.ReusesNothing
          (s.sends.node, ⟨{ sampleRequest with bundleId := some "other" }, .received⟩)
          (looksUp ++ cannotOpen) := by
  have hend : ∃ s ∈ Lts.exec (Bundles.step byContent plainConfig) (Bundles.init ∅) cancelsFirst,
      ∃ s' ∈ Lts.exec (SendCall.step byContent plainConfig)
          (s.sends.node, ⟨{ sampleRequest with bundleId := some "other" }, .received⟩)
          (looksUp ++ cannotOpen),
        refused s' = true ∧ (s'.1.registry.lookupDistribution "first").isSome = true ∧
        s'.1.registry.bundles.entries = s.registry.bundles.entries ∧
        s'.1.registry.distributionIndex.entries = s.registry.distributionIndex.entries := by
    decide +kernel
  obtain ⟨s, hs, s', hrun, hrefused, hfound, hbundles, hindex⟩ := hend
  obtain ⟨e, herror⟩ := eq_error_of_refused hrefused
  have hsame : s'.1.registry = s.registry :=
    congrArg₂ Registry.mk (AList.ext hbundles) (AList.ext hindex)
  have hiff := failed_send_keeps_iff byContent plainConfig s ⟨∅, _, hs⟩ _ _ s' e hrun herror
  exact ⟨s, hs, s', hrun, hrefused, hfound, hsame, hiff.1 hsame⟩

/-- **A resubmission that fails takes the cancelled bundle with it**: its distribution is not
found any more. -/
theorem cancelled_bundle_forgotten :
    ∃ s ∈ Lts.exec (Bundles.step byContent plainConfig) (Bundles.init ∅) cancelsFirst,
      ∃ s' ∈ Lts.exec (SendCall.step byContent plainConfig)
          (s.sends.node, ⟨sampleRequest, .received⟩) (looksUp ++ .recheck 3 :: cannotOpen),
        refused s' = true ∧ (s.registry.lookupDistribution "first").isSome = true ∧
          s'.1.registry.lookupDistribution "first" = none ∧ s'.1.registry.values = [] := by
  decide +kernel

end PeatNode.Attachments
