/-
# Whose status a record has

`update_status` finds a record by its bundle id, so a watcher or a cancellation of an earlier
bundle under the same id writes the status of the current one if it comes late.  And a
cancellation between the insert of a bundle and the registration of its runtime finds the runtime
of the bundle before it, or none. Where neither happens (`Orderly`), a record has its own status.
-/

import PeatNode.Attachments.Staffed

namespace PeatNode.Attachments

open List

def Watcher.isFinished (w : Watcher) : Bool :=
  match w.pc with
  | .finished => true
  | .checking | .subscribing | .receiving | .applying .. | .finalizing | .updating _ => false

/-- Nothing works on the bundle any more. -/
def Incarnation.Idle (inc : Incarnation) : Prop :=
  inc.registered = true ∧ ∀ w ∈ inc.watchers, w.isFinished = true
deriving Decidable

/-- The id and handles of the record found. -/
def CancelCall.target : CancelCall → Option (String × List AttachmentHandleRecord)
  | .running f _ => some (f.bundleId, f.bundle.handles)
  | .returned _ => none

namespace Bundles

variable (platform : Platform) (cfg : AttachmentConfig)

/-- A terminal record has terminal distributions. -/
def Honest (s : Bundles) : Prop :=
  ∀ inc ∈ s.incarnations, ∀ rec, s.registry.bundles.lookup inc.bundleId = some rec →
    rec.handles = inc.handles → rec.status.isTerminal = true → inc.runtime.Ended

instance (s : Bundles) : Decidable s.Honest :=
  inferInstanceAs (Decidable (∀ inc ∈ s.incarnations,
    ∀ rec ∈ s.registry.bundles.lookup inc.bundleId, _ = _ → _ = _ → inc.runtime.Ended))

/-- The handles of the record it belongs to. -/
def actor (s : Bundles) : BundlesLabel → Option (List AttachmentHandleRecord)
  | .watch k _ _ | .watcherStatus k _ _ => (s.incarnations[k]?).map Incarnation.handles
  | .advanceCancel i _ => (s.cancels[i]?).bind fun call => call.target.map Prod.snd
  | .send _ | .register _ | .cancel _ => none

/-- Only the status of its own record changes. -/
def OwnWrite (s : Bundles) (label : BundlesLabel) : Prop :=
  ∀ s', step platform cfg s label = some s' → ∀ handles ∈ s.actor label, ∀ id rec rec',
    s.registry.bundles.lookup id = some rec → s'.registry.bundles.lookup id = some rec' →
      rec'.status ≠ rec.status → rec.handles = handles

def recorded (s : Bundles) : BundlesLabel → Option String
  | .send (.advance i (.record _ _)) => (s.sends.calls[i]?).bind fun call => call.pc.bundleId
  | _ => none

def mirrored (s : Bundles) : BundlesLabel → Option CancelCall
  | .advanceCancel i .mirror => s.cancels[i]?
  | _ => none

/-- The runtime found is the record's own. -/
def FindsOwn (s : Bundles) (call : CancelCall) : Prop :=
  ∀ target ∈ call.target, ∃ k ∈ s.runtimes.lookup target.1, ∃ inc ∈ s.incarnations[k]?,
    inc.handles = target.2
deriving Decidable

/-- Bundles of one id do not overlap, and cancellations find their own. -/
def Orderly (s : Bundles) (label : BundlesLabel) : Prop :=
  (∀ id ∈ s.recorded label, (∀ inc ∈ s.incarnations, inc.bundleId = id → inc.Idle) ∧
    ∀ call ∈ s.cancels, ∀ target ∈ call.target, target.1 ≠ id) ∧
  ∀ call ∈ s.mirrored label, s.FindsOwn call
deriving Decidable

end Bundles

/-! ### How a bundle goes on -/

structure Incarnation.Evolves (inc inc' : Incarnation) : Prop where
  identity : inc'.identity = inc.identity
  ended : inc.runtime.Ended → inc'.runtime.Ended
  idle : inc.Idle → inc'.Idle

theorem Incarnation.Evolves.refl (inc : Incarnation) : inc.Evolves inc :=
  ⟨rfl, fun h => h, fun h => h⟩

variable {rt rt' : BundleRuntime} {w w' : Watcher} {label : WatcherLabel}

theorem Watcher.Turn.not_finished (h : Watcher.Turn rt w label rt' w') : w.isFinished = false := by
  cases h with
  | frame hpc | quiet hpc => rcases hpc with hpc | hpc | hpc <;> simp [isFinished, hpc]
  | update hpc | finalize hpc => simp [isFinished, hpc]

theorem Watcher.pc_settle (report : Option TransferReport) (call : UpdateCall) (last : Bool) :
    settle report call last = .applying report call last ∨ settle report call last = .finalizing ∨
      settle report call last = .receiving := by
  unfold settle
  split
  · cases last <;> simp
  all_goals exact .inl rfl

theorem Watcher.Turn.of_updating (h : Watcher.Turn rt w label rt' w')
    (hpc : w'.pc = .updating status) :
    rt' = rt ∧ rt.allTerminal = true ∧ status = finalStatus rt.perDistribution := by
  cases h with
  | frame => nomatch hpc
  | quiet _ hpc' => rcases hpc' with rfl | rfl | rfl <;> nomatch hpc
  | @update report call call' last =>
    change settle report call' last = _ at hpc
    rcases pc_settle report call' last with h | h | h <;> nomatch h.symm.trans hpc
  | finalize =>
    change ite _ _ _ = _ at hpc
    split_ifs at hpc with hall
    exact ⟨rfl, hall, (WatcherPc.updating.inj hpc).symm⟩

theorem Watcher.Turn.of_finished (h : Watcher.Turn rt w label rt' w')
    (hfinished : w'.isFinished = true) : rt' = rt ∧ rt.allTerminal = false := by
  cases h with
  | frame => nomatch hfinished
  | quiet _ hpc' => rcases hpc' with rfl | rfl | rfl <;> nomatch hfinished
  | @update report call call' last =>
    rcases pc_settle report call' last with h | h | h <;> rw [h] at hfinished <;> nomatch hfinished
  | finalize =>
    cases hall : rt.allTerminal with
    | false => exact ⟨rfl, rfl⟩
    | true =>
      rw [hall] at hfinished
      nomatch hfinished

theorem Watcher.Turn.ended (hw : w.Serves h) (hturn : Watcher.Turn rt w label rt' w')
    (hended : rt.Ended) : rt'.Ended := by
  rcases hturn.runtime with ⟨rfl, -⟩ | ⟨report, call, last, call', hpc, hupdate, -⟩
  · exact hended
  · exact hupdate.ended (hw.not_cancels hpc) hended

theorem Incarnation.not_idle_of_mem {inc : Incarnation} (hw : w ∈ inc.watchers)
    (h : w.isFinished = false) : ¬ inc.Idle := by
  rintro ⟨-, hfinished⟩
  simp [hfinished w hw] at h

namespace Bundles

variable {platform : Platform} {cfg : AttachmentConfig} {s s' : Bundles} {label : BundlesLabel}

variable {f : CancelTarget}

/-- Every step but a record lets the bundles go on. -/
theorem Turn.evolves (hs : s.Staffed) (h : Turn platform cfg s label s') :
    List.Forall₂ Incarnation.Evolves s.incarnations s'.incarnations ∨
      ∃ i now victim, label = .send (.advance i (.record now victim)) := by
  have hrefl : List.Forall₂ Incarnation.Evolves s.incarnations s.incarnations :=
    forall₂_same.2 fun inc _ => .refl inc
  cases h with
  | accept => exact .inr ⟨_, _, _, rfl⟩
  | send | cancel => exact .inl hrefl
  | @register k inc hinc hnew =>
    refine .inl (forall₂_set Incarnation.Evolves.refl hinc ⟨rfl, fun h => h, fun hidle => ?_⟩)
    nomatch hnew.symm.trans hidle.1
  | @watch k j inc w w' label rt' hinc hw hturn =>
    have hmem := mem_of_getElem? hw
    obtain ⟨handle, -, hserves⟩ := hs.watchers inc (mem_of_getElem? hinc) w hmem
    refine .inl (forall₂_set Incarnation.Evolves.refl hinc
      ⟨rfl, hturn.ended hserves, fun hidle => ?_⟩)
    exact absurd hidle (Incarnation.not_idle_of_mem hmem hturn.not_finished)
  | @watcherStatus k j inc w status hinc hw hpc now =>
    refine .inl (forall₂_set Incarnation.Evolves.refl hinc ⟨rfl, fun h => h, fun hidle => ?_⟩)
    exact absurd hidle (Incarnation.not_idle_of_mem (mem_of_getElem? hw)
      (by simp [Watcher.isFinished, hpc]))
  | advanceCancel hcall hturn =>
    cases hturn with
    | substrate | found | absent | finalize | updateStatus => exact .inl hrefl
    | update hinc hturn =>
      have hcancels := (hs.cancels _ _ (mem_of_getElem? hcall)).cancels
      exact .inl (forall₂_set Incarnation.Evolves.refl hinc
        ⟨rfl, hturn.ended hcancels, fun hidle => hidle⟩)

/-! ### The invariant -/

/-- The bundle has the record of its id while something works on it; the record ends after it. -/
structure OwnsRecord (s : Bundles) (inc : Incarnation) : Prop where
  record : ¬ inc.Idle → ∀ rec, s.registry.bundles.lookup inc.bundleId = some rec →
    rec.handles = inc.handles
  watchers : ∀ w ∈ inc.watchers, ∀ status, w.pc = .updating status → inc.runtime.Ended
  honest : ∀ rec, s.registry.bundles.lookup inc.bundleId = some rec → rec.handles = inc.handles →
    rec.status.isTerminal = true → inc.runtime.Ended

/-- The cancellation works on the bundle that has the record of its id. -/
structure OwnsCancel (s : Bundles) (f : CancelTarget) (pc : CancelPc) : Prop where
  record : ∀ rec, s.registry.bundles.lookup f.bundleId = some rec → rec.handles = f.bundle.handles
  owner : ∀ k, pc.owner = some k → s.identities[k]? = some (f.bundleId, f.bundle.handles)
  ended : ∀ status, pc = .updating status → ∀ inc ∈ s.incarnations,
    inc.identity = (f.bundleId, f.bundle.handles) → inc.runtime.Ended

structure Kept (s : Bundles) : Prop extends s.Sound where
  bundles : ∀ inc ∈ s.incarnations, s.OwnsRecord inc
  cancels : ∀ f pc, .running f pc ∈ s.cancels → s.OwnsCancel f pc

theorem kept_init (blobs : Finset BlobHash) : (init blobs).Kept where
  toSound := sound_init blobs
  bundles inc hinc := by simp [init] at hinc
  cancels f pc h := by simp [init] at h

theorem map_identity_of_evolves (h : List.Forall₂ Incarnation.Evolves l l') :
    l'.map Incarnation.identity = l.map Incarnation.identity := by
  induction h with
  | nil => rfl
  | cons hhead _ ih => rw [map_cons, map_cons, hhead.identity, ih]

/-- A status changes only when the bundle has ended. -/
def Records (s s' : Bundles) : Prop :=
  ∀ id rec', s'.registry.bundles.lookup id = some rec' →
    ∃ rec, s.registry.bundles.lookup id = some rec ∧ rec'.handles = rec.handles ∧
      (rec'.status = rec.status ∨ ∀ inc ∈ s'.incarnations, inc.bundleId = id →
        inc.handles = rec.handles → inc.runtime.Ended)

theorem records_of_eq (h : s'.registry = s.registry) : Records s s' := by
  intro id rec' hrec'
  rw [h] at hrec'
  exact ⟨rec', hrec', rfl, .inl rfl⟩

theorem OwnsRecord.carry (hinc : s.OwnsRecord inc) (hev : inc.Evolves inc')
    (hmem : inc' ∈ s'.incarnations) (hrecords : Records s s')
    (hwatchers : ∀ w ∈ inc'.watchers, ∀ status, w.pc = .updating status → inc'.runtime.Ended) :
    s'.OwnsRecord inc' := by
  obtain ⟨hid, hhandles⟩ := Prod.mk.inj hev.identity
  refine ⟨fun hidle rec' hrec' => ?_, hwatchers, fun rec' hrec' hown hterminal => ?_⟩
  · obtain ⟨rec, hrec, hsame, -⟩ := hrecords _ rec' hrec'
    rw [hsame, hhandles]
    rw [hid] at hrec
    exact hinc.record (fun h => hidle (hev.idle h)) rec hrec
  · obtain ⟨rec, hrec, hsame, hstatus | hended⟩ := hrecords _ rec' hrec'
    · rw [hid] at hrec
      rw [hsame, hhandles] at hown
      rw [hstatus] at hterminal
      exact hev.ended (hinc.honest rec hrec hown hterminal)
    · exact hended inc' hmem rfl (hown.symm.trans hsame)

theorem OwnsCancel.carry (hf : s.OwnsCancel f pc)
    (hevolves : List.Forall₂ Incarnation.Evolves s.incarnations s'.incarnations)
    (hrecords : Records s s') : s'.OwnsCancel f pc where
  record rec' hrec' := by
    obtain ⟨rec, hrec, hsame, -⟩ := hrecords _ rec' hrec'
    exact hsame.trans (hf.record rec hrec)
  owner k hk := by
    rw [identities, map_identity_of_evolves hevolves]
    exact hf.owner k hk
  ended status hpc inc' hinc' hid := by
    obtain ⟨inc, hinc, hev⟩ := exists_of_forall₂ hevolves hinc'
    exact hev.ended (hf.ended status hpc inc hinc (hev.identity.symm.trans hid))

/-- A step that records no bundle. -/
theorem Kept.carry (hs : s.Kept) (hstep : step platform cfg s label = some s')
    (hevolves : List.Forall₂ Incarnation.Evolves s.incarnations s'.incarnations)
    (hwatchers : ∀ inc ∈ s'.incarnations, ∀ w ∈ inc.watchers, ∀ status, w.pc = .updating status →
      inc.runtime.Ended)
    (hrecords : Records s s')
    (hcancels : ∀ f pc, .running f pc ∈ s'.cancels → .running f pc ∈ s.cancels ∨ s'.OwnsCancel f pc) :
    s'.Kept where
  toSound := hs.toSound.step hstep
  bundles inc' hinc' := by
    obtain ⟨inc, hinc, hev⟩ := exists_of_forall₂ hevolves hinc'
    exact (hs.bundles inc hinc).carry hev hinc' hrecords (hwatchers inc' hinc')
  cancels f pc hf := by
    rcases hcancels f pc hf with hold | hnew
    · exact (hs.cancels f pc hold).carry hevolves hrecords
    · exact hnew

theorem Counted.ended_of_updating (hs : s.Counted) (hinc : inc ∈ s.incarnations)
    {label : WatcherLabel} (h : Watcher.Turn inc.runtime w label rt' w')
    (hpc : w'.pc = .updating status) : rt'.Ended := by
  obtain ⟨rfl, hall, -⟩ := h.of_updating hpc
  exact hs.ended_of_allTerminal hinc hall

theorem OwnsCancel.turn {label : CancelLabel} (hs : s.Kept)
    (hcall : s.cancels[i]? = some (.running f pc)) (hok : s.Orderly (.advanceCancel i label))
    (h : CancelTurn s f pc label s' call) (hnew : call = .running f' pc') :
    f' = f ∧ s.OwnsCancel f pc' := by
  have hf := hs.cancels f pc (mem_of_getElem? hcall)
  have hkeep : ∀ pc', (∀ k, pc'.owner = some k → s.identities[k]? = some (f.bundleId, f.bundle.handles)) →
      (∀ status, pc' = .updating status → ∀ inc ∈ s.incarnations,
        inc.identity = (f.bundleId, f.bundle.handles) → inc.runtime.Ended) → s.OwnsCancel f pc' :=
    fun pc' howner hended => ⟨hf.record, howner, hended⟩
  cases h with
  | substrate w hstore hresult =>
    rcases hresult with rfl | ⟨e, rfl⟩
    · obtain ⟨rfl, rfl⟩ := CancelCall.running.inj hnew
      exact ⟨rfl, hkeep _ (by simp [CancelPc.owner]) (by simp)⟩
    · cases hnew
  | found howner =>
    obtain ⟨rfl, rfl⟩ := CancelCall.running.inj hnew
    refine ⟨rfl, hkeep _ (fun k hk => ?_) (by simp)⟩
    cases hk
    obtain ⟨k, hk, inc, hinc, hhandles⟩ := hok.2 _ hcall _ rfl
    cases howner.symm.trans hk
    obtain ⟨b, hb, hid⟩ := hs.staffed.runtimes _ _ howner
    obtain ⟨inc', hinc', rfl⟩ := exists_of_identity hb
    cases hinc.symm.trans hinc'
    rw [hb, Incarnation.identity, hhandles]
    exact congrArg (fun id => some (id, _)) hid
  | absent hnone =>
    obtain ⟨k, hk, -⟩ := hok.2 _ hcall _ rfl
    cases hnone.symm.trans hk
  | @update k inc call call' rt' hinc hturn =>
    obtain ⟨rfl, rfl⟩ := CancelCall.running.inj hnew
    refine ⟨rfl, hkeep _ (fun k' hk' => ?_) fun status hpc => ?_⟩
    · rw [CancelPc.owner_settle] at hk'
      exact hf.owner k' hk'
    · have howner := CancelPc.owner_settle k call'
      rw [hpc] at howner
      cases howner
  | @finalize k inc hinc =>
    split_ifs at hnew with hall
    obtain ⟨rfl, rfl⟩ := CancelCall.running.inj hnew
    refine ⟨rfl, hkeep _ (by simp [CancelPc.owner]) fun status _ inc' hinc' hid => ?_⟩
    have hmem := mem_of_getElem? hinc
    have hidentity : inc.identity = (f.bundleId, f.bundle.handles) := by
      have hplace := hf.owner k rfl
      rw [identities, getElem?_map, hinc, Option.map_some, Option.some.injEq] at hplace
      exact hplace
    obtain rfl := hs.filed.inc_eq_of_handles hinc' hmem
      ((Prod.mk.inj hid).2.trans (Prod.mk.inj hidentity).2.symm)
    exact hs.counted.ended_of_allTerminal hmem hall
  | updateStatus => cases hnew

/-- Who writes the status of a bundle that has ended, and has the record. -/
theorem records_setStatus {s₀ : Bundles} (handles : List AttachmentHandleRecord)
    (status : BundleStatus) (now : SystemTime) (hregistry : s₀.registry = s.registry)
    (hrecord : ∀ rec, s.registry.bundles.lookup bundleId = some rec → rec.handles = handles)
    (hended : ∀ inc ∈ s₀.incarnations, inc.identity = (bundleId, handles) → inc.runtime.Ended) :
    Records s (s₀.setStatus bundleId status now) := by
  intro id rec' hrec'
  rw [lookup_setStatus, hregistry] at hrec'
  split_ifs at hrec' with hid
  · obtain ⟨rec, hrec, rfl⟩ := Option.map_eq_some_iff.1 hrec'
    refine ⟨rec, hrec, rfl, .inr fun inc hinc hbundle hhandles => ?_⟩
    refine hended inc hinc (Prod.ext (hbundle.trans hid) (hhandles.trans (hrecord rec ?_)))
    rw [← hid, hrec]
  · exact ⟨rec', hrec', rfl, .inl rfl⟩

theorem recorded_of_ingested {call : SendCall} (hcall : s.sends.calls[i]? = some call)
    (hpc : call.pc = .ingested bundleId identity blobs) {now : SystemTime} {victim : String} :
    s.recorded (.send (.advance i (.record now victim))) = some bundleId := by
  simp [recorded, hcall, hpc, SendPc.bundleId]

/-- A bundle is recorded under an id that nothing works on: the other records are as they
were. -/
theorem Kept.accept (hs : s.Kept) (hok : s.Orderly (.send (.advance i (.record now victim))))
    {call : SendCall} (hcall : s.sends.calls[i]? = some call)
    (hpc : call.pc = .ingested bundleId identity blobs)
    (hinsert : s.registry.insert cfg.maxKnownBundles (.new bundleId identity handles now) victim =
      some s'.registry)
    (hset : s'.incarnations = s.incarnations ++ [.new bundleId handles blobs])
    (hcancels : s'.cancels = s.cancels) (hbegins : s.identities <+: s'.identities)
    (hsound : s'.Sound) : s'.Kept := by
  obtain ⟨hidle, hnocancel⟩ := hok.1 bundleId (recorded_of_ingested hcall hpc)
  have hfound := (Registry.insert_found hinsert).1
  have hother : ∀ id rec, id ≠ bundleId → s'.registry.bundles.lookup id = some rec →
      s.registry.bundles.lookup id = some rec := by
    intro id rec hid hrec
    rw [Registry.lookup_insert hs.filed.keyed hinsert hid] at hrec
    split_ifs at hrec
    exact hrec
  refine ⟨hsound, fun inc hinc => ?_, fun f pc hf => ?_⟩
  · rw [hset] at hinc
    rcases mem_append.1 hinc with hinc | hinc
    · have hold := hs.bundles inc hinc
      by_cases hid : inc.bundleId = bundleId
      · refine ⟨fun hbusy => absurd (hidle inc hinc hid) hbusy, hold.watchers, ?_⟩
        intro rec hrec _ hterminal
        cases (hid ▸ hrec).symm.trans hfound
        cases hterminal
      · exact ⟨fun hbusy rec hrec => hold.record hbusy rec (hother _ rec hid hrec), hold.watchers,
          fun rec hrec => hold.honest rec (hother _ rec hid hrec)⟩
    · rw [mem_singleton.1 hinc]
      refine ⟨fun _ rec hrec => ?_, by simp [Incarnation.new], fun rec hrec _ hterminal => ?_⟩
      · cases hrec.symm.trans hfound
        rfl
      · cases hrec.symm.trans hfound
        cases hterminal
  · rw [hcancels] at hf
    have hold := hs.cancels f pc hf
    have hid : f.bundleId ≠ bundleId := hnocancel _ hf _ rfl
    refine ⟨fun rec hrec => hold.record rec (hother _ rec hid hrec), fun k hk => ?_, ?_⟩
    · exact hbegins.getElem?_eq_some (hold.owner k hk)
    · rw [hset]
      exact fun status hpc => forall_mem_concat (hold.ended status hpc) fun hidentity =>
        absurd (Prod.mk.inj hidentity).1.symm hid

/-- A watcher writes the status of its bundle, which has ended and has the record. -/
theorem Kept.records_watcherStatus (hs : s.Kept) (hinc : s.incarnations[k]? = some inc)
    (hw : inc.watchers[j]? = some w) (hpc : w.pc = .updating status) (now : SystemTime) :
    inc.runtime.Ended ∧ Records s (setStatus
      { s with incarnations := s.incarnations.set k (inc.setWatcher j (w.goto .finished)) }
      inc.bundleId status now) := by
  have hmem := mem_of_getElem? hinc
  have hown := hs.bundles inc hmem
  have hended := hown.watchers w (mem_of_getElem? hw) status hpc
  have hbusy : ¬ inc.Idle := Incarnation.not_idle_of_mem (mem_of_getElem? hw)
    (by simp [Watcher.isFinished, hpc])
  refine ⟨hended, records_setStatus inc.handles status now rfl (hown.record hbusy)
    (forall_mem_set (fun inc' hinc' hidentity => ?_) fun _ => hended)⟩
  rw [hs.filed.inc_eq_of_handles hinc' hmem (Prod.mk.inj hidentity).2]
  exact hended

/-- A section of a cancellation. -/
theorem Kept.cancelTurn {label : CancelLabel} {s₁ : Bundles} (hs : s.Kept)
    (hok : s.Orderly (.advanceCancel i label)) (hcall : s.cancels[i]? = some (.running f pc))
    (hturn : CancelTurn s f pc label s₁ call)
    (hevolves : List.Forall₂ Incarnation.Evolves s.incarnations s₁.incarnations)
    (h : step platform cfg s (.advanceCancel i label) =
      some { s₁ with cancels := s.cancels.set i call }) :
    Kept { s₁ with cancels := s.cancels.set i call } := by
  have hwatchers : ∀ inc ∈ s.incarnations, ∀ w ∈ inc.watchers, ∀ status, w.pc = .updating status →
      inc.runtime.Ended := fun inc hinc => (hs.bundles inc hinc).watchers
  have hcarry : Records s { s₁ with cancels := s.cancels.set i call } →
      (∀ inc ∈ s₁.incarnations, ∀ w ∈ inc.watchers, ∀ status, w.pc = .updating status →
        inc.runtime.Ended) → Kept { s₁ with cancels := s.cancels.set i call } := by
    refine fun hrecords hw => hs.carry h hevolves hw hrecords fun f' pc' hf' => ?_
    rcases mem_or_eq_of_mem_set hf' with hf' | hf'
    · exact .inl hf'
    · obtain ⟨rfl, hown⟩ := OwnsCancel.turn hs hcall hok hturn hf'.symm
      exact .inr (hown.carry hevolves hrecords)
  cases hturn with
  | substrate | found | absent | finalize => exact hcarry (records_of_eq rfl) hwatchers
  | @update k inc call call' rt' hinc hturn =>
    have hupdates := (hs.staffed.cancels _ _ (mem_of_getElem? hcall)).cancels
    exact hcarry (records_of_eq rfl) (forall_mem_set hwatchers fun w hw status hpc =>
      hturn.ended hupdates (hwatchers inc (mem_of_getElem? hinc) w hw status hpc))
  | updateStatus status now =>
    have hown := hs.cancels f _ (mem_of_getElem? hcall)
    exact hcarry (records_setStatus _ status now rfl hown.record (hown.ended status rfl)) hwatchers

theorem Kept.step (hs : s.Kept) (hok : s.Orderly label) (h : step platform cfg s label = some s') :
    s'.Kept := by
  have hturn := Turn.of_step h
  have hevolves := hturn.evolves hs.staffed
  have hbegins := hturn.identities_isPrefix
  have hwatchers : ∀ inc ∈ s.incarnations, ∀ w ∈ inc.watchers, ∀ status, w.pc = .updating status →
      inc.runtime.Ended := fun inc hinc => (hs.bundles inc hinc).watchers
  cases hturn with
  | send hown hnone hstep =>
    refine hs.carry h (hevolves.resolve_right ?_) hwatchers ?_ fun f pc hf => .inl hf
    · rintro ⟨i, now, victim, hlabel⟩
      exact hnone i now victim (BundlesLabel.send.inj hlabel)
    · intro id rec' hrec'
      obtain ⟨rec, now, hrec, rfl⟩ := (ages_of_step hs.filed.keyed hown hnone hstep).kept id rec' hrec'
      exact ⟨rec, hrec, rfl, .inl rfl⟩
  | accept hcall hpc hhandles hinsert =>
    exact hs.accept hok hcall hpc hinsert rfl rfl hbegins (hs.toSound.step h)
  | @register k inc hinc hnew =>
    refine hs.carry h (hevolves.resolve_right (by simp))
      (forall_mem_set hwatchers fun w hw status hpc => ?_) (records_of_eq rfl)
      fun f pc hf => .inl hf
    obtain ⟨handle, -, rfl⟩ := mem_map.1 hw
    cases hpc
  | @watch k j inc w w' label rt' hinc hw hturn =>
    have hmem := mem_of_getElem? hinc
    obtain ⟨handle, -, hserves⟩ := hs.staffed.watchers inc hmem w (mem_of_getElem? hw)
    exact hs.carry h (hevolves.resolve_right (by simp)) (forall_mem_set hwatchers (forall_mem_set
        (fun v hv status hpc => hturn.ended hserves (hwatchers inc hmem v hv status hpc))
        fun _ hpc => hs.counted.ended_of_updating hmem hturn hpc)) (records_of_eq rfl)
      fun f pc hf => .inl hf
  | watcherStatus hinc hw hpc now =>
    obtain ⟨hended, hrecords⟩ := hs.records_watcherStatus hinc hw hpc now
    exact hs.carry h (hevolves.resolve_right (by simp))
      (forall_mem_set hwatchers fun _ _ _ _ => hended) hrecords fun f pc hf => .inl hf
  | cancel hcall =>
    refine hs.carry h (hevolves.resolve_right (by simp)) hwatchers (records_of_eq rfl) fun f pc hf => ?_
    rcases mem_append.1 hf with hf | hf
    · exact .inl hf
    · rw [← mem_singleton.1 hf] at hcall
      obtain ⟨hlookup, -, rfl, -⟩ := cancelAttachmentDistribution_running hcall
      have hresident := Registry.lookup_of_lookupDistribution hlookup
      refine .inr ⟨fun rec hrec => ?_, by simp [CancelPc.owner], by simp⟩
      rw [Option.some.inj (hrec.symm.trans hresident)]
  | advanceCancel hcall hturn =>
    exact hs.cancelTurn hok hcall hturn (hevolves.resolve_right (by simp)) h

/-! ### The result -/

theorem Kept.ownWrite (hs : s.Kept) (label : BundlesLabel) : OwnWrite platform cfg s label := by
  intro s' hstep handles hactor id rec rec' hrec hrec' hstatus
  have hsame : s'.registry = s.registry → rec.handles = handles := by
    intro hregistry
    rw [hregistry, hrec, Option.some.injEq] at hrec'
    exact absurd (congrArg BundleRecord.status hrec'.symm) hstatus
  cases Turn.of_step hstep with
  | send | accept | register | cancel => nomatch hactor
  | watch => exact hsame rfl
  | @watcherStatus k j inc w status hinc hw hpc now =>
    obtain rfl : inc.handles = handles := by simpa [actor, hinc] using hactor
    rw [lookup_setStatus] at hrec'
    split_ifs at hrec' with hid
    · have hbusy : ¬ inc.Idle := Incarnation.not_idle_of_mem (mem_of_getElem? hw)
        (by simp [Watcher.isFinished, hpc])
      exact (hs.bundles inc (mem_of_getElem? hinc)).record hbusy rec (hid ▸ hrec)
    · exact absurd (congrArg BundleRecord.status (Option.some.inj (hrec'.symm.trans hrec))) hstatus
  | @advanceCancel i f pc label s₁ call hcall hturn =>
    obtain rfl : f.bundle.handles = handles := by
      simpa [actor, hcall, CancelCall.target] using hactor
    cases hturn with
    | substrate | found | absent | update | finalize => exact hsame rfl
    | updateStatus status now =>
      rw [show _ = _ from lookup_setStatus s f.bundleId status now id] at hrec'
      split_ifs at hrec' with hid
      · exact (hs.cancels f _ (mem_of_getElem? hcall)).record rec (hid ▸ hrec)
      · exact absurd (congrArg BundleRecord.status (Option.some.inj (hrec'.symm.trans hrec)))
          hstatus

/-- **A record has its own status** in every state of an orderly run: it is terminal
only if all its distributions are, and no watcher or cancellation of another bundle
changes it. -/
theorem status_own (platform : Platform) (cfg : AttachmentConfig) (blobs : Finset BlobHash)
    (labels : List BundlesLabel) (s : Bundles)
    (hok : Lts.Along (step platform cfg) Orderly (init blobs) labels)
    (hrun : Lts.exec (step platform cfg) (init blobs) labels = some s) :
    s.Honest ∧ ∀ label, OwnWrite platform cfg s label := by
  have hkept := Lts.exec_invariant Kept (fun s a s' hs hok h => hs.step hok h) (kept_init blobs) hok hrun
  exact ⟨fun inc hinc => (hkept.bundles inc hinc).honest, hkept.ownWrite⟩

/-! ### A bundle that is cancelled and sent again -/

def watched : List BundlesLabel :=
  sent.map .send ++
    [.register 0, .watch 0 0 (.status (.ok ⟨1, [], false⟩)), .watch 0 0 (.subscribe (.ok ()))]

def goesThrough (i : ℕ) : List BundlesLabel :=
  [.substrate (.ok ()), .mirror, .update, .update, .update, .finalize, .updateStatus 1].map
    (.advanceCancel i)

/-- The first watcher's reports are over. -/
def leaves : List BundlesLabel :=
  [.watch 0 0 (.recv .closed), .watch 0 0 .finalize, .watcherStatus 0 0 2]

def sentAgain : List BundlesLabel :=
  .send (.arrive sampleRequest) ::
    (looksUp ++ SendLabel.recheck 3 :: Attachments.sends "second").map
      (fun label => .send (.advance 1 label)) ++ [.register 1]

/-- The watcher leaves first. -/
theorem resent_after_watcher : ∃ s ∈ Lts.exec (step byContent plainConfig) (init ∅)
        (watched ++ .cancel "first" :: goesThrough 0 ++ leaves ++ sentAgain),
      (∃ rec ∈ s.registry.bundles.lookup "bundle", rec.status = .pending) ∧
      s.Honest ∧ ∀ label, OwnWrite byContent plainConfig s label :=
  Lts.exists_mem_and (by decide +kernel) fun s hrun _ =>
    status_own byContent plainConfig ∅ _ s (by decide +kernel) hrun

/-- **A late watcher writes the status of another bundle**: of the second one, which has not
begun. And a cancellation before the runtime is registered leaves a bundle that is cancelled in
the table and goes on. -/
theorem late_writes : (∃ s ∈ Lts.exec (step byContent plainConfig) (init ∅)
        (watched ++ .cancel "first" :: goesThrough 0 ++ sentAgain ++ leaves), ¬ s.Honest) ∧
    (∃ s ∈ Lts.exec (step byContent plainConfig) (init ∅)
        (watched ++ .cancel "first" :: goesThrough 0 ++ sentAgain ++ leaves.take 2),
      ¬ OwnWrite byContent plainConfig s (.watcherStatus 0 0 2)) ∧
    ∃ s ∈ Lts.exec (step byContent plainConfig) (init ∅) (sent.map .send ++ .cancel "first" ::
          [.substrate (.ok ()), .mirror, .updateStatus 1].map (.advanceCancel 0)), ¬ s.Honest := by
  refine ⟨by decide +kernel, ?_, by decide +kernel⟩
  have hend : ∃ s ∈ Lts.exec (step byContent plainConfig) (init ∅)
      (watched ++ .cancel "first" :: goesThrough 0 ++ sentAgain ++ leaves.take 2),
      ∃ s' ∈ step byContent plainConfig s (.watcherStatus 0 0 2),
        ∃ handles ∈ s.actor (.watcherStatus 0 0 2), ∃ rec ∈ s.registry.bundles.lookup "bundle",
          ∃ rec' ∈ s'.registry.bundles.lookup "bundle", rec'.status ≠ rec.status ∧
            rec.handles ≠ handles := by
    decide +kernel
  obtain ⟨s, hrun, s', hstep, handles, hactor, rec, hrec, rec', hrec', hstatus, hother⟩ := hend
  exact ⟨s, hrun, fun hown =>
    hother (hown s' hstep handles hactor "bundle" rec rec' hrec hrec' hstatus)⟩

end Bundles

end PeatNode.Attachments
