/-
# What a cancellation answers

`cancel_attachment_distribution` looks at the status of the bundle and then writes the slot of one
distribution, which it finds by the bundle id.  The answer `was_cancelled` is the truth exactly
if, on arrival, the bundle is over just when the distribution is (`Agreeing`), and the look-up
finds the runtime of its bundle (`MirrorsOwn`).
-/

import PeatNode.Attachments.OwnStatus

namespace PeatNode.Attachments

open List

/-- The distribution's state in the runtime. -/
def Incarnation.slotState (inc : Incarnation) (distributionId : String) : Option DistributionState :=
  (inc.handles.find? (·.distributionId = distributionId)).bind fun h =>
    (inc.runtime.perDistribution[h.fileIndex]?).map PerDistributionProgress.state

def BundlesLabel.isOf (i : ℕ) : BundlesLabel → Bool
  | .advanceCancel j _ => j = i
  | .send _ | .register _ | .watch .. | .watcherStatus .. | .cancel _ => false

/-- What a cancellation makes of a state. -/
def DistributionState.cancel : DistributionState → DistributionState
  | .completed => .completed
  | .pending | .inProgress | .failed | .cancelled => .cancelled

theorem DistributionState.cancel_of_running {state : DistributionState}
    (h : state.isTerminal = false) : state.cancel = .cancelled := by
  cases state with
  | pending | inProgress => rfl
  | completed | failed | cancelled => nomatch h

def CancelCall.answer : CancelCall → Option (Except ConnectError Bool)
  | .running .. => none
  | .returned answer => some answer

theorem CancelCall.eq_returned {call : CancelCall} {answer : Except ConnectError Bool}
    (h : call.answer = some answer) : call = .returned answer := by
  cases call with
  | running => nomatch h
  | returned => rw [Option.some.inj h]

theorem Incarnation.mem_ids_of_slotState {inc : Incarnation}
    (h : inc.slotState distributionId ≠ none) : distributionId ∈ inc.ids := by
  obtain ⟨state, hstate⟩ := Option.ne_none_iff_exists'.1 h
  obtain ⟨handle, hfind, -⟩ := Option.bind_eq_some_iff.1 hstate
  have hid : handle.distributionId = distributionId := by simpa using find?_some hfind
  rw [← hid]
  exact mem_map_of_mem (mem_of_find?_eq_some hfind)

namespace Bundles

/-- The state of the distribution's own slot. -/
def slotState (s : Bundles) (distributionId : String) : Option DistributionState :=
  s.incarnations.findSome? (·.slotState distributionId)

variable (platform : Platform) (cfg : AttachmentConfig)

/-- Only cancellation `i` changes the slot. -/
def Unprogressed (distributionId : String) (i : ℕ) (s : Bundles) (label : BundlesLabel) : Prop :=
  ∀ s' ∈ step platform cfg s label, label.isOf i = false →
    s'.slotState distributionId = s.slotState distributionId
deriving Decidable

/-- Cancellation `i` finds its own runtime. -/
def MirrorsOwn (i : ℕ) (s : Bundles) (label : BundlesLabel) : Prop :=
  label.isOf i = true → ∀ call ∈ s.mirrored label, s.FindsOwn call
deriving Decidable

/-- The bundle has ended iff the distribution has. -/
def Agreeing (s : Bundles) (distributionId : String) : Prop :=
  ∀ bundle ∈ s.registry.lookupDistribution distributionId,
    (bundle.2.status.isTerminal = false ↔
      ∃ state ∈ s.slotState distributionId, state.isTerminal = false)
deriving Decidable

/-- The answer says whether the distribution was running on arrival; if so it is cancelled in the
end, else nothing has changed. -/
structure Truthful (s s₁ s₂ : Bundles) (distributionId : String) (wasCancelled : Bool) : Prop where
  running : wasCancelled = true ↔ ∃ state ∈ s.slotState distributionId, state.isTerminal = false
  cancelled : wasCancelled = true → s₂.slotState distributionId = some .cancelled
  unchanged : wasCancelled = false →
    s₁ = { s with cancels := s.cancels ++ [.returned (.ok false)] }

variable {platform cfg} {s s' : Bundles} {label : BundlesLabel}

/-! ### The slot of a distribution -/

/-- The bundle of a cancellation's target is the one at `k`. -/
structure Owned (s : Bundles) (f : CancelTarget) (k : ℕ) : Prop where
  sound : s.Sound
  find : f.bundle.handles.find? (·.distributionId = f.distributionId) = some f.handle
  identity : s.identities[k]? = some (f.bundleId, f.bundle.handles)

section Owned

variable {f : CancelTarget} {k : ℕ}

theorem Owned.step (h : s.Owned f k) (hstep : step platform cfg s label = some s') : s'.Owned f k where
  sound := h.sound.step hstep
  find := h.find
  identity := (Turn.of_step hstep).identities_isPrefix.getElem?_eq_some h.identity

theorem Owned.exists_inc (h : s.Owned f k) :
    ∃ inc, s.incarnations[k]? = some inc ∧ inc.handles = f.bundle.handles := by
  obtain ⟨inc, hinc, hidentity⟩ := exists_of_identity h.identity
  exact ⟨inc, hinc, congrArg Prod.snd hidentity⟩

theorem Owned.slotState (h : s.Owned f k) (hinc : s.incarnations[k]? = some inc) :
    s.slotState f.distributionId =
      (inc.runtime.perDistribution[f.handle.fileIndex]?).map PerDistributionProgress.state := by
  obtain ⟨inc', hinc', hhandles⟩ := h.exists_inc
  cases hinc.symm.trans hinc'
  have hid : f.handle.distributionId = f.distributionId := by simpa using find?_some h.find
  have hd : f.distributionId ∈ inc.ids := by
    rw [Incarnation.ids, hhandles, ← hid]
    exact mem_map_of_mem (mem_of_find?_eq_some h.find)
  have hown : s.slotState f.distributionId = inc.slotState f.distributionId := by
    refine findSome?_eq_of_unique (mem_of_getElem? hinc) fun other hmem hstate => ?_
    obtain ⟨k', hk'⟩ := getElem?_of_mem hmem
    obtain rfl := h.sound.filed.unique hinc hk' hd (Incarnation.mem_ids_of_slotState hstate)
    exact Option.some.inj (hk'.symm.trans hinc)
  rw [hown, Incarnation.slotState, hhandles, h.find]
  rfl

theorem Owned.slotState_congr (h : s.Owned f k) (h' : s'.Owned f k)
    (hsame : s'.incarnations[k]? = s.incarnations[k]?) :
    s'.slotState f.distributionId = s.slotState f.distributionId := by
  obtain ⟨inc, hinc, -⟩ := h.exists_inc
  rw [h.slotState hinc, h'.slotState (hsame.trans hinc)]

theorem Owned.exists_slot (h : s.Owned f k) : ∃ state, s.slotState f.distributionId = some state := by
  obtain ⟨inc, hinc, hhandles⟩ := h.exists_inc
  have hmem := mem_of_getElem? hinc
  have hindex : f.handle.fileIndex ∈ f.bundle.handles.map AttachmentHandleRecord.fileIndex :=
    mem_map_of_mem (mem_of_find?_eq_some h.find)
  rw [(h.sound.filed.numbered _ (mem_of_getElem? h.identity)).2, mem_range] at hindex
  have hlength : inc.runtime.perDistribution.length = f.bundle.handles.length := by
    rw [(h.sound.counted.sized inc hmem).2, hhandles]
  rw [h.slotState hinc, getElem?_eq_getElem (hlength ▸ hindex)]
  exact ⟨_, rfl⟩

end Owned

/-! ### The course of a cancellation -/

/-- Where a cancellation of its own runtime can be, with the slot's state, which was `state` on
arrival. -/
inductive OnCourse (f : CancelTarget) (k : ℕ) (state : DistributionState) :
    CancelCall → DistributionState → Prop
  | cancelling : OnCourse f k state (.running f .cancelling) state
  | mirroring : OnCourse f k state (.running f .mirroring) state
  | writing : OnCourse f k state (.running f (.applying k f.applies)) state
  | written (hpc : call.pc ≠ .writing) :
      OnCourse f k state (.running f (.applying k call)) state.cancel
  | finalizing : OnCourse f k state (.running f (.finalizing k)) state.cancel
  | updating (status : BundleStatus) : OnCourse f k state (.running f (.updating status)) state.cancel
  | answered : OnCourse f k state (.returned (.ok true)) state.cancel
  | failed (e : ConnectError) (state' : DistributionState) :
      OnCourse f k state (.returned (.error e)) state'

/-- Where one can be that has found another runtime, or none. -/
inductive Astray (f : CancelTarget) (k : ℕ) : CancelCall → Prop
  | applying (howner : owner ≠ k) :
      Astray f k (.running f (.applying owner call))
  | finalizing (howner : owner ≠ k) : Astray f k (.running f (.finalizing owner))
  | updating (status : BundleStatus) : Astray f k (.running f (.updating status))
  | answered : Astray f k (.returned (.ok true))

section Course

variable {f : CancelTarget} {k i : ℕ} {state state' : DistributionState} {pc : CancelPc}
  {cancelLabel : CancelLabel} {call : CancelCall}

theorem settle_onCourse (hpc : update.pc ≠ .writing) :
    OnCourse f k state (.running f (.settle k update)) state.cancel := by
  unfold CancelPc.settle
  split
  · exact .finalizing
  all_goals exact .written hpc

/-- The first section of the update writes the slot, the others leave it. -/
theorem applies_turn
    (hslot : (rt.perDistribution[f.handle.fileIndex]?).map PerDistributionProgress.state = some state)
    (hturn : UpdateCall.Turn rt f.applies rt' update') :
    update'.pc ≠ .writing ∧
      (rt'.perDistribution[f.handle.fileIndex]?).map PerDistributionProgress.state =
        some state.cancel := by
  obtain ⟨slot, hget, rfl⟩ := Option.map_eq_some_iff.1 hslot
  cases hturn with
  | refused hpc hkeeps =>
    refine ⟨by simp [UpdateCall.goto], ?_⟩
    have hkept : slot.state = .completed ∨ slot.state = .cancelled := by
      simpa [Update.keeps, CancelTarget.applies, applyCancellation] using hkeeps slot hget
    rw [hslot]
    rcases hkept with hkept | hkept <;> rw [hkept] <;> rfl
  | @written old hpc hold hkeeps =>
    refine ⟨by simp [UpdateCall.goto], ?_⟩
    cases hget.symm.trans hold
    have hrunning : slot.state ≠ .completed := by
      intro hcompleted
      simp [Update.keeps, CancelTarget.applies, applyCancellation, hcompleted] at hkeeps
    have hcancel : slot.state.cancel = .cancelled := by
      revert hrunning
      cases slot.state <;> simp [DistributionState.cancel]
    have hlt : f.handle.fileIndex < rt.perDistribution.length := (List.getElem?_eq_some_iff.1 hget).1
    rw [hcancel]
    show ((rt.perDistribution.set f.handle.fileIndex _)[f.handle.fileIndex]?).map _ = _
    rw [List.getElem?_set_self hlt]
    rfl
  | counted hpc | sent hpc => cases hpc

theorem perDistribution_of_written (hpc : update.pc ≠ .writing)
    (hturn : UpdateCall.Turn rt update rt' update') :
    update'.pc ≠ .writing ∧ rt'.perDistribution = rt.perDistribution := by
  cases hturn with
  | refused hwriting | written hwriting => exact absurd hwriting hpc
  | counted => exact ⟨nofun, rt.perDistribution_count _⟩
  | sent => exact ⟨nofun, rfl⟩

/-- The look-up of the runtime finds the bundle's own or leads astray. -/
theorem Owned.findsOwn_iff (hs : s.Owned f k) :
    s.FindsOwn (.running f pc) ↔ s.runtimes.lookup f.bundleId = some k := by
  obtain ⟨inc, hinc, hhandles⟩ := hs.exists_inc
  constructor
  · intro hfinds
    obtain ⟨k', hk', other, hother, hsame⟩ := hfinds _ rfl
    rw [hs.sound.filed.eq_of_handles hinc hother (hhandles.trans hsame.symm)]
    exact hk'
  · intro hlookup target htarget
    cases htarget
    exact ⟨k, hlookup, inc, hinc, hhandles⟩

/-- **A section keeps the cancellation on its course**, unless the look-up does not find the
bundle's own runtime. -/
theorem OnCourse.turn {cancels : List CancelCall} (hs : s.Owned f k)
    (hs' : Owned { s' with cancels := cancels } f k)
    (hslot : s.slotState f.distributionId = some state')
    (hcourse : OnCourse f k state (.running f pc) state')
    (hturn : CancelTurn s f pc cancelLabel s' call) :
    (cancelLabel = .mirror → s.FindsOwn (.running f pc)) ∧
        (∃ state'', s'.slotState f.distributionId = some state'' ∧ OnCourse f k state call state'') ∨
      cancelLabel = .mirror ∧ ¬ s.FindsOwn (.running f pc) ∧
        s'.slotState f.distributionId = some state ∧ Astray f k call := by
  cases hturn with
  | substrate w hstore hcall =>
    cases hcourse
    refine .inl ⟨nofun, state, hslot, ?_⟩
    rcases hcall with rfl | ⟨e, rfl⟩
    · exact .mirroring
    · exact .failed e state
  | @found owner howner =>
    cases hcourse
    by_cases hk : owner = k
    · subst hk
      exact .inl ⟨fun _ => hs.findsOwn_iff.2 howner, state, hslot, .writing⟩
    · refine .inr ⟨rfl, fun hfinds => hk ?_, hslot, .applying hk⟩
      exact Option.some.inj (howner.symm.trans (hs.findsOwn_iff.1 hfinds))
  | absent hnone =>
    cases hcourse
    refine .inr ⟨rfl, fun hfinds => ?_, hslot, .updating _⟩
    nomatch hnone.symm.trans (hs.findsOwn_iff.1 hfinds)
  | @update owner inc update update' rt' hinc hturn =>
    have hlt := (List.getElem?_eq_some_iff.1 hinc).1
    have hinc' : (s.incarnations.set owner (inc.setRuntime rt'))[owner]? =
        some (inc.setRuntime rt') := List.getElem?_set_self hlt
    cases hcourse with
    | writing =>
      rw [hs.slotState hinc] at hslot
      obtain ⟨hpc, hwritten⟩ := applies_turn hslot hturn
      exact .inl ⟨nofun, _, (hs'.slotState hinc').trans hwritten, settle_onCourse hpc⟩
    | written hpc =>
      rw [hs.slotState hinc] at hslot
      obtain ⟨hpc', hsame⟩ := perDistribution_of_written hpc hturn
      refine .inl ⟨nofun, _, (hs'.slotState hinc').trans ?_, settle_onCourse hpc'⟩
      rw [← hslot]
      exact congrArg (fun slots : List PerDistributionProgress => (slots[_]?).map _) hsame
  | @finalize owner inc hinc =>
    cases hcourse
    refine .inl ⟨nofun, _, hslot, ?_⟩
    split_ifs
    · exact .updating _
    · exact .answered
  | updateStatus status now =>
    cases hcourse
    exact .inl ⟨nofun, _, hslot, .answered⟩

/-- **Astray, the slot stays as it is.** -/
theorem Astray.turn {cancels : List CancelCall} (hs : s.Owned f k)
    (hs' : Owned { s' with cancels := cancels } f k) (hastray : Astray f k (.running f pc))
    (hturn : CancelTurn s f pc cancelLabel s' call) :
    s'.slotState f.distributionId = s.slotState f.distributionId ∧ Astray f k call := by
  cases hturn with
  | substrate | found | absent => cases hastray
  | @update owner inc update update' rt' hinc hturn =>
    cases hastray with
    | applying howner =>
      have hsame := hs.slotState_congr hs' (getElem?_set_ne howner)
      refine ⟨hsame, ?_⟩
      unfold CancelPc.settle
      split
      · exact .finalizing howner
      all_goals exact .applying howner
  | finalize hinc =>
    cases hastray with
    | finalizing howner =>
      refine ⟨rfl, ?_⟩
      split_ifs
      · exact .updating _
      · exact .answered
  | updateStatus => exact ⟨rfl, .answered⟩

/-- A cancellation stays where it is in the steps of the others. -/
theorem Turn.cancels_of_other (h : Turn platform cfg s label s') (hlabel : label.isOf i = false)
    (hi : s.cancels[i]? = some call) : s'.cancels[i]? = some call := by
  cases h with
  | send | accept | register | watch | watcherStatus => exact hi
  | cancel => exact (prefix_append _ _).getElem?_eq_some hi
  | @advanceCancel j f pc label s' call' hcall hturn =>
    have hne : j ≠ i := by simpa [BundlesLabel.isOf] using hlabel
    show (List.set _ _ _)[i]? = _
    rw [getElem?_set_ne hne, hi]

theorem mirrorsOwn_of_other (hlabel : label.isOf i = false) : MirrorsOwn i s label := by
  intro hown
  nomatch hlabel.symm.trans hown

theorem mirrorsOwn_iff (hi : s.cancels[i]? = some call) :
    MirrorsOwn i s (.advanceCancel i cancelLabel) ↔ (cancelLabel = .mirror → s.FindsOwn call) := by
  have hown : (BundlesLabel.advanceCancel i cancelLabel).isOf i = true := by simp [BundlesLabel.isOf]
  cases cancelLabel with
  | mirror => simp [MirrorsOwn, hown, mirrored, hi]
  | substrate | update | finalize | updateStatus => simp [MirrorsOwn, mirrored]

def Pursues (i : ℕ) (f : CancelTarget) (k : ℕ) (state : DistributionState) (s : Bundles) : Prop :=
  s.Owned f k ∧ ∃ call state', s.cancels[i]? = some call ∧
    s.slotState f.distributionId = some state' ∧ OnCourse f k state call state'

def Strays (i : ℕ) (f : CancelTarget) (k : ℕ) (state : DistributionState) (s : Bundles) : Prop :=
  s.Owned f k ∧ s.slotState f.distributionId = some state ∧
    ∃ call, s.cancels[i]? = some call ∧ Astray f k call

theorem exists_of_isOf (h : label.isOf i = true) : ∃ cancelLabel, label = .advanceCancel i cancelLabel := by
  cases label with
  | advanceCancel j cancelLabel =>
    obtain rfl : j = i := by simpa [BundlesLabel.isOf] using h
    exact ⟨cancelLabel, rfl⟩
  | send | register | watch | watcherStatus | cancel => nomatch h

theorem OnCourse.target (h : OnCourse f k state (.running f' pc) state') : f' = f := by
  cases h <;> rfl

theorem Astray.target (h : Astray f k (.running f' pc)) : f' = f := by
  cases h <;> rfl

theorem Pursues.step (hs : Pursues i f k state s)
    (hquiet : Unprogressed platform cfg f.distributionId i s label)
    (hstep : step platform cfg s label = some s') :
    MirrorsOwn i s label ∧ Pursues i f k state s' ∨
      ¬ MirrorsOwn i s label ∧ Strays i f k state s' := by
  obtain ⟨howned, call, state', hcall, hslot, hcourse⟩ := hs
  have howned' := howned.step hstep
  cases hown : label.isOf i with
  | false =>
    refine .inl ⟨mirrorsOwn_of_other hown, howned', call, state', ?_, ?_, hcourse⟩
    · exact (Turn.of_step hstep).cancels_of_other hown hcall
    · rw [hquiet s' hstep hown, hslot]
  | true =>
    obtain ⟨cancelLabel, rfl⟩ := exists_of_isOf hown
    rw [mirrorsOwn_iff hcall]
    have hlt := (List.getElem?_eq_some_iff.1 hcall).1
    cases Turn.of_step hstep with
    | @advanceCancel _ f' pc _ s'' call' hcall' hturn =>
      cases hcall.symm.trans hcall'
      obtain rfl := hcourse.target
      rcases hcourse.turn howned howned' hslot hturn with
        ⟨hfinds, state'', hslot', hcourse'⟩ | ⟨rfl, hlost, hslot', hastray⟩
      · exact .inl ⟨hfinds, howned', call', state'', List.getElem?_set_self hlt, hslot', hcourse'⟩
      · exact .inr ⟨fun hfinds => hlost (hfinds rfl), howned', hslot', call',
          List.getElem?_set_self hlt, hastray⟩

theorem Strays.step (hs : Strays i f k state s)
    (hquiet : Unprogressed platform cfg f.distributionId i s label)
    (hstep : step platform cfg s label = some s') : Strays i f k state s' := by
  obtain ⟨howned, hslot, call, hcall, hastray⟩ := hs
  have howned' := howned.step hstep
  cases hown : label.isOf i with
  | false =>
    refine ⟨howned', ?_, call, (Turn.of_step hstep).cancels_of_other hown hcall, hastray⟩
    rw [hquiet s' hstep hown, hslot]
  | true =>
    obtain ⟨cancelLabel, rfl⟩ := exists_of_isOf hown
    have hlt := (List.getElem?_eq_some_iff.1 hcall).1
    cases Turn.of_step hstep with
    | @advanceCancel _ f' pc _ s'' call' hcall' hturn =>
      cases hcall.symm.trans hcall'
      obtain rfl := hastray.target
      obtain ⟨hslot', hastray'⟩ := hastray.turn howned howned' hturn
      exact ⟨howned', hslot'.trans hslot, call', List.getElem?_set_self hlt, hastray'⟩

theorem Pursues.run (hs : Pursues i f k state s) (hquiet : Lts.Along (Bundles.step platform cfg)
      (Unprogressed platform cfg f.distributionId i) s labels)
    (hrun : Lts.exec (Bundles.step platform cfg) s labels = some s') :
    Lts.Along (Bundles.step platform cfg) (MirrorsOwn i) s labels ∧ Pursues i f k state s' ∨
      ¬ Lts.Along (Bundles.step platform cfg) (MirrorsOwn i) s labels ∧ Strays i f k state s' := by
  refine Lts.exec_dichotomy_within _ _ _ (fun t label t' ht hquiet hok hstep => ?_)
    (fun t label t' ht hquiet hok hstep => ?_) (fun t label t' ht hquiet hstep => ht.step hquiet hstep)
    hs hquiet hrun
  · rcases ht.step hquiet hstep with ⟨-, ht'⟩ | ⟨hlost, -⟩
    · exact ht'
    · exact absurd hok hlost
  · rcases ht.step hquiet hstep with ⟨hfinds, -⟩ | ⟨-, ht'⟩
    · exact absurd hfinds hok
    · exact ht'

variable {answer : Except ConnectError Bool}

theorem returned_step (hi : s.cancels[i]? = some (.returned answer))
    (hstep : step platform cfg s label = some s') : s'.cancels[i]? = some (.returned answer) := by
  cases hown : label.isOf i with
  | false => exact (Turn.of_step hstep).cancels_of_other hown hi
  | true =>
    obtain ⟨cancelLabel, rfl⟩ := exists_of_isOf hown
    cases Turn.of_step hstep with
    | advanceCancel hcall => nomatch hi.symm.trans hcall

theorem mirrorsOwn_of_returned
    (hi : s.cancels[i]? = some (.returned answer)) (label : BundlesLabel) : MirrorsOwn i s label := by
  cases hown : label.isOf i with
  | false => exact mirrorsOwn_of_other hown
  | true =>
    obtain ⟨cancelLabel, rfl⟩ := exists_of_isOf hown
    rw [mirrorsOwn_iff hi]
    rintro - target htarget
    nomatch htarget

theorem owned_of_arrival (hs : s.Sound)
    (hs' : Sound { s with cancels := s.cancels ++ [.running f pc] })
    (h : cancelAttachmentDistribution cfg s.registry distributionId = some (.running f pc)) :
    ∃ k, Owned { s with cancels := s.cancels ++ [.running f pc] } f k := by
  have htargets := targets_of_arrival hs.filed h
  obtain ⟨k, hk⟩ := getElem?_of_mem htargets.bundle
  exact ⟨k, hs', htargets.find, hk⟩

end Course

/-! ### The answer -/

/-- A request that is answered at once has found a bundle that has ended. -/
theorem cancelAttachmentDistribution_returned {registry : Registry}
    (h : cancelAttachmentDistribution cfg registry distributionId =
      some (.returned (.ok wasCancelled))) :
    wasCancelled = false ∧ ∃ bundle, registry.lookupDistribution distributionId = some bundle ∧
      bundle.2.status.isTerminal = true := by
  unfold cancelAttachmentDistribution at h
  split at h
  swap
  · nomatch h
  split at h
  · nomatch h
  · next bundleId bundle hlookup =>
    split at h
    · next hstatus =>
      have hanswer := CancelCall.returned.inj (Option.some.inj h)
      exact ⟨(Except.ok.inj hanswer).symm, _, hlookup, hstatus⟩
    · obtain ⟨handle, -, hcall⟩ := Option.map_eq_some_iff.1 h
      nomatch hcall

/-- **A cancellation tells the truth exactly if** the bundle and the distribution agree on arrival
on whether they have ended, and it finds the runtime of the distribution's bundle; anything but
progress of the distribution may come in between. -/
theorem cancel_truthful_iff (platform : Platform) (cfg : AttachmentConfig) (s s₁ s₂ : Bundles)
    (distributionId : String) (labels : List BundlesLabel) (wasCancelled : Bool)
    (hs : s.Reachable platform cfg)
    (harrive : step platform cfg s (.cancel distributionId) = some s₁)
    (hquiet : Lts.Along (step platform cfg)
      (Unprogressed platform cfg distributionId s.cancels.length) s₁ labels)
    (hrun : Lts.exec (step platform cfg) s₁ labels = some s₂)
    (hanswer : s₂.cancels[s.cancels.length]? = some (.returned (.ok wasCancelled))) :
    Truthful s s₁ s₂ distributionId wasCancelled ↔ s.Agreeing distributionId ∧
        Lts.Along (step platform cfg) (MirrorsOwn s.cancels.length) s₁ labels := by
  have hsound := sound_of_reachable hs
  have hsound₁ := hsound.step harrive
  cases Turn.of_step harrive with
  | @cancel _ call hcall =>
  have hnew : (s.cancels ++ [call])[s.cancels.length]? = some call := by simp
  cases call with
  | returned answer =>
    have hstays := Lts.exec_preserves (fun t => t.cancels[s.cancels.length]? = some (.returned answer))
      (fun t label t' ht hstep => returned_step ht hstep) hnew hrun
    cases Option.some.inj (hstays.symm.trans hanswer)
    obtain ⟨rfl, bundle, hlookup, hended⟩ := cancelAttachmentDistribution_returned hcall
    have halong : Lts.Along (step platform cfg) (MirrorsOwn s.cancels.length)
        { s with cancels := s.cancels ++ [.returned (.ok false)] } labels := by
      refine Lts.along_of_invariant (fun t => t.cancels[s.cancels.length]? = some (.returned (.ok false)))
        (fun t label t' ht hstep => returned_step ht hstep) (fun t label ht => ?_) hnew labels
      exact mirrorsOwn_of_returned ht label
    constructor
    · intro htruth
      refine ⟨fun other hother => ?_, halong⟩
      cases hlookup.symm.trans hother
      simpa [hended] using htruth.running
    · rintro ⟨hagree, -⟩
      exact ⟨by simpa [hended] using hagree bundle hlookup, nofun, fun _ => rfl⟩
  | running f pc =>
    obtain ⟨k, howned⟩ := owned_of_arrival hsound hsound₁ hcall
    obtain ⟨hlookup, hrunning, rfl, rfl, -⟩ := cancelAttachmentDistribution_running hcall
    obtain ⟨state, hslot⟩ := howned.exists_slot
    have hslot₀ : s.slotState f.distributionId = some state := hslot
    have hagree : s.Agreeing f.distributionId ↔ state.isTerminal = false := by
      simp [Agreeing, hlookup, hslot₀, hrunning]
    have hstart : Pursues s.cancels.length f k state _ :=
      ⟨howned, _, state, hnew, hslot, .cancelling⟩
    rw [hagree]
    rcases hstart.run hquiet hrun with ⟨halong, hend⟩ | ⟨hlost, hend⟩
    · obtain ⟨-, call, state', hcall', hslot', hcourse⟩ := hend
      cases hcall'.symm.trans hanswer
      cases hcourse
      constructor
      · intro htruth
        obtain ⟨other, hother, hopen⟩ := htruth.running.1 rfl
        cases hslot₀.symm.trans hother
        exact ⟨hopen, halong⟩
      · rintro ⟨hopen, -⟩
        refine ⟨iff_of_true rfl ⟨state, hslot₀, hopen⟩, fun _ => ?_, nofun⟩
        rw [hslot', DistributionState.cancel_of_running hopen]
    · obtain ⟨-, hslot', call, hcall', hastray⟩ := hend
      cases hcall'.symm.trans hanswer
      cases hastray
      refine iff_of_false (fun htruth => ?_) fun h => hlost h.2
      -- The slot has its old state, so that would be both running and cancelled.
      obtain ⟨other, hother, hopen⟩ := htruth.running.1 rfl
      cases hslot₀.symm.trans hother
      cases hslot'.symm.trans (htruth.cancelled rfl)
      nomatch hopen

/-! ### A bundle of two files -/

def pairRequest : SendAttachmentsRequest :=
  { sampleRequest with files := sampleRequest.files ++ sampleRequest.files }

def pairSent : List BundlesLabel :=
  .send (.arrive pairRequest) ::
    (looksUp ++ [SendLabel.snapshot, .ingest (.read (.content [])), .ingest (.read (.content [])),
      .ingest (.distribute (.ok "first")), .ingest (.distribute (.ok "second")), .record 0 ""]).map
      (fun label => .send (.advance 0 label)) ++ [.register 0]

/-- The first distribution has no targets. -/
def firstCompletes : List BundlesLabel :=
  [.status (.ok ⟨0, [], true⟩), .update, .update, .update, .finalize].map (.watch 0 0)

/-- A cancellation that does not end the bundle. -/
def cancelsOne : List BundlesLabel :=
  [.advanceCancel 0 (.substrate (.ok ())), .watch 0 1 (.status (.ok ⟨1, [], false⟩)),
    .advanceCancel 0 .mirror, .advanceCancel 0 .update, .advanceCancel 0 .update,
    .advanceCancel 0 .update, .advanceCancel 0 .finalize]

theorem cancelled_truthfully :
    ∃ s s₁ s₂ : Bundles, Lts.exec (step byContent plainConfig) (init ∅) pairSent = some s ∧
      step byContent plainConfig s (.cancel "first") = some s₁ ∧
      Lts.exec (step byContent plainConfig) s₁ cancelsOne = some s₂ ∧
      Truthful s s₁ s₂ "first" true := by
  have hend : ∃ s ∈ Lts.exec (step byContent plainConfig) (init ∅) pairSent,
      ∃ s₁ ∈ step byContent plainConfig s (.cancel "first"),
      ∃ s₂ ∈ Lts.exec (step byContent plainConfig) s₁ cancelsOne,
      (∃ call ∈ s₂.cancels[s.cancels.length]?, call.answer = some (.ok true)) ∧
      Lts.Along (step byContent plainConfig)
        (Unprogressed byContent plainConfig "first" s.cancels.length) s₁ cancelsOne ∧
      s.Agreeing "first" ∧
      Lts.Along (step byContent plainConfig) (MirrorsOwn s.cancels.length) s₁ cancelsOne := by
    decide +kernel
  obtain ⟨s, hreach, s₁, harrive, s₂, hrun, ⟨call, hcall, hanswer⟩, hquiet, hcondition⟩ := hend
  have hreturned : s₂.cancels[s.cancels.length]? = some (.returned (.ok true)) := by
    rw [hcall, CancelCall.eq_returned hanswer]
  exact ⟨s, s₁, s₂, hreach, harrive, hrun, (cancel_truthful_iff byContent plainConfig s s₁ s₂ "first"
    cancelsOne true ⟨∅, _, hreach⟩ harrive hquiet hrun hreturned).2 hcondition⟩

/-- **A cancellation of what has ended says that it has cancelled it**: the first distribution is
complete and stays so, but its bundle goes on; and the substrate was told to cancel it. -/
theorem completed_cancelled : ∃ s s₁ s₂ : Bundles,
      Lts.exec (step byContent plainConfig) (init ∅) (pairSent ++ firstCompletes) = some s ∧
      s.slotState "first" = some .completed ∧
      step byContent plainConfig s (.cancel "first") = some s₁ ∧
      Lts.exec (step byContent plainConfig) s₁
        ([.substrate (.ok ()), .mirror, .update, .finalize].map (.advanceCancel 0)) = some s₂ ∧
      s₂.cancels[0]? = some (.returned (.ok true)) ∧ s₂.slotState "first" = some .completed ∧
      ¬ Truthful s s₁ s₂ "first" true := by
  have hend : ∃ s ∈ Lts.exec (step byContent plainConfig) (init ∅) (pairSent ++ firstCompletes),
      ∃ s₁ ∈ step byContent plainConfig s (.cancel "first"),
      ∃ s₂ ∈ Lts.exec (step byContent plainConfig) s₁
        ([.substrate (.ok ()), .mirror, .update, .finalize].map (.advanceCancel 0)),
      s.slotState "first" = some .completed ∧ s₂.slotState "first" = some .completed ∧
      ∃ call ∈ s₂.cancels[0]?, call.answer = some (.ok true) := by
    decide +kernel
  obtain ⟨s, hreach, s₁, harrive, s₂, hrun, hbefore, hafter, call, hcall, hanswer⟩ := hend
  have hreturned : s₂.cancels[0]? = some (.returned (.ok true)) := by
    rw [hcall, CancelCall.eq_returned hanswer]
  refine ⟨s, s₁, s₂, hreach, hbefore, harrive, hrun, hreturned, hafter, fun htruth => ?_⟩
  nomatch hafter.symm.trans (htruth.cancelled rfl)

end Bundles

end PeatNode.Attachments
