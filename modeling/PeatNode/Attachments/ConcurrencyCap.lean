/-
# The cap on bundles in flight

`send_attachments` refuses a bundle when `max_concurrent_distributions` records are not terminal.
The count is read long before the bundle is recorded, so overlapping requests see the same one;
and an insert can drop the record of a running bundle.  The cap holds in every orderly run in
which neither happens (`Exclusive`).
-/

import PeatNode.Attachments.OwnStatus

namespace PeatNode.Attachments

open List Registry SendCall

/-- Between the cap and the table. -/
def SendPc.passedCap : SendPc → Bool
  | .admitted _ | .probed .. | .fresh .. | .ingesting .. | .ingested .. => true
  | .received | .validated _ | .returned _ => false

/-- What the request adds to the count. -/
def SendCall.weight (call : SendCall) : ℕ := if call.pc.passedCap then 1 else 0

theorem SendCall.weight_le_one (call : SendCall) : call.weight ≤ 1 := by
  unfold weight
  split_ifs <;> omega

theorem SendCall.weight_of_not_passed {call : SendCall} (h : call.pc.passedCap = false) :
    call.weight = 0 := by
  simp [weight, h]

theorem SendCall.weight_of_passed {call : SendCall} (h : call.pc.passedCap = true) :
    call.weight = 1 := by
  simp [weight, h]

theorem Registry.length_le_nonTerminalCount {r : Registry} {ids : List String} (hnodup : ids.Nodup)
    (h : ∀ id ∈ ids, ∃ rec, r.bundles.lookup id = some rec ∧ rec.status.isTerminal = false) :
    ids.length ≤ r.nonTerminalCount := by
  have hsub : ids ⊆ (r.bundles.entries.filter fun e => !e.2.status.isTerminal).map Sigma.fst := by
    intro id hid
    obtain ⟨rec, hrec, hstatus⟩ := h id hid
    refine mem_map.2 ⟨⟨id, rec⟩, mem_filter.2 ⟨AList.mem_lookup_iff.1 hrec, ?_⟩, rfl⟩
    simp [hstatus]
  have hcount : r.nonTerminalCount =
      ((r.bundles.entries.filter fun e => !e.2.status.isTerminal).map Sigma.fst).length := by
    rw [nonTerminalCount, values, filter_map, length_map, length_map]
    rfl
  rw [hcount]
  exact (hnodup.subperm hsub).length_le

namespace Bundles

/-- The accepted bundles that have not ended. -/
def active (s : Bundles) : ℕ := s.incarnations.countP fun inc => decide (¬ inc.runtime.Ended)

/-- The requests between the cap and the table. -/
def passing (calls : List SendCall) : ℕ := (calls.map SendCall.weight).sum

def checksCap : BundlesLabel → Bool
  | .send (.advance _ .checkCap) => true
  | _ => false

/-- The ids whose records the step drops. -/
def drops (cfg : AttachmentConfig) (s : Bundles) : BundlesLabel → List String
  | .send (.advance i (.record _ victim)) =>
    match (s.sends.calls[i]?).bind fun call => call.pc.bundleId with
    | some id => s.registry.dropped cfg.maxKnownBundles id victim
    | none => []
  | _ => []

/-- One request at a time checks the cap, and no running bundle is dropped. -/
def Exclusive (cfg : AttachmentConfig) (s : Bundles) (label : BundlesLabel) : Prop :=
  s.Orderly label ∧
    (checksCap label = true → ∀ call ∈ s.sends.calls, call.pc.passedCap = false) ∧
    ∀ inc ∈ s.incarnations, inc.bundleId ∈ s.drops cfg label → inc.runtime.Ended
deriving Decidable

variable {platform : Platform} {cfg : AttachmentConfig} {s s' : Bundles} {label : BundlesLabel}

/-! ### The count -/

/-- Every running bundle has its record. -/
def Recorded (s : Bundles) : Prop :=
  ∀ inc ∈ s.incarnations, ¬ inc.runtime.Ended →
    ∃ rec, s.registry.bundles.lookup inc.bundleId = some rec ∧ rec.handles = inc.handles

theorem Filed.nodup (hs : s.Filed) : s.incarnations.Nodup := by
  rw [nodup_iff_getElem?_ne_getElem?]
  intro i j hij hj heq
  obtain ⟨inc, hinc⟩ : ∃ inc, s.incarnations[j]? = some inc := ⟨_, getElem?_eq_getElem hj⟩
  have hsame := hs.eq_of_handles (heq.trans hinc) hinc rfl
  omega

/-- **What runs is counted.** -/
theorem active_le_nonTerminalCount (hs : s.Kept) (hrecorded : s.Recorded) :
    s.active ≤ s.registry.nonTerminalCount := by
  have hmem : ∀ inc ∈ s.incarnations.filter fun inc => decide (¬ inc.runtime.Ended),
      inc ∈ s.incarnations ∧ ¬ inc.runtime.Ended := by
    intro inc hinc
    obtain ⟨hinc, hrunning⟩ := mem_filter.1 hinc
    exact ⟨hinc, by simpa using hrunning⟩
  rw [active, countP_eq_length_filter, ← length_map Incarnation.bundleId]
  refine length_le_nonTerminalCount ?_ fun id hid => ?_
  · refine (hs.filed.nodup.filter _).map_on fun inc hinc inc' hinc' hid => ?_
    -- two bundles of one id that run have the same record
    obtain ⟨hinc, hrunning⟩ := hmem inc hinc
    obtain ⟨hinc', hrunning'⟩ := hmem inc' hinc'
    obtain ⟨rec, hrec, hhandles⟩ := hrecorded inc hinc hrunning
    obtain ⟨rec', hrec', hhandles'⟩ := hrecorded inc' hinc' hrunning'
    rw [hid] at hrec
    cases hrec.symm.trans hrec'
    exact hs.filed.inc_eq_of_handles hinc hinc' (hhandles.symm.trans hhandles')
  · obtain ⟨inc, hinc, rfl⟩ := mem_map.1 hid
    obtain ⟨hinc, hrunning⟩ := hmem inc hinc
    obtain ⟨rec, hrec, hhandles⟩ := hrecorded inc hinc hrunning
    refine ⟨rec, hrec, ?_⟩
    by_contra hterminal
    exact hrunning ((hs.bundles inc hinc).honest rec hrec hhandles (by simpa using hterminal))

theorem countP_running_le (h : Forall₂ Incarnation.Evolves l l') :
    (l'.countP fun inc => decide (¬ inc.runtime.Ended)) ≤
      l.countP fun inc => decide (¬ inc.runtime.Ended) := by
  induction h with
  | nil => exact le_rfl
  | @cons inc inc' _ _ hhead _ ih =>
    rw [countP_cons, countP_cons]
    refine Nat.add_le_add ih ?_
    by_cases hended : inc.runtime.Ended
    · simp [hhead.ended hended]
    · simp only [hended, not_false_eq_true, decide_true, if_true]
      split_ifs <;> omega

/-! ### The steps -/

theorem recorded_of_evolves (hs : s.Recorded)
    (hevolves : Forall₂ Incarnation.Evolves s.incarnations s'.incarnations)
    (hkeeps : ∀ id rec, s.registry.bundles.lookup id = some rec →
      (∀ inc ∈ s.incarnations, inc.identity = (id, rec.handles) → ¬ inc.runtime.Ended →
        ∃ rec', s'.registry.bundles.lookup id = some rec' ∧ rec'.handles = rec.handles)) :
    s'.Recorded := by
  intro inc' hinc' hrunning
  obtain ⟨inc, hinc, hev⟩ := exists_of_forall₂ hevolves hinc'
  obtain ⟨hid, hhandles⟩ := Prod.mk.inj hev.identity
  have hrunning' : ¬ inc.runtime.Ended := fun h => hrunning (hev.ended h)
  obtain ⟨rec, hrec, hown⟩ := hs inc hinc hrunning'
  obtain ⟨rec', hrec', hsame⟩ := hkeeps _ rec hrec inc hinc (Prod.ext rfl hown.symm) hrunning'
  refine ⟨rec', ?_, hsame.trans (hown.trans hhandles.symm)⟩
  rw [hid]
  exact hrec'

theorem Recorded.step (hs : s.Recorded) (hkept : s.Kept) (hok : s.Exclusive cfg label)
    (h : step platform cfg s label = some s') : s'.Recorded := by
  have hturn := Turn.of_step h
  have hevolves := hturn.evolves hkept.staffed
  have hstatus : ∀ (s₀ : Bundles) bundleId status now, s₀.registry = s.registry → ∀ id rec,
      s.registry.bundles.lookup id = some rec → ∃ rec',
        (s₀.setStatus bundleId status now).registry.bundles.lookup id = some rec' ∧
          rec'.handles = rec.handles := by
    intro s₀ bundleId status now hregistry id rec hrec
    rw [lookup_setStatus, hregistry, hrec]
    split_ifs
    · exact ⟨_, rfl, rfl⟩
    · exact ⟨rec, rfl, rfl⟩
  cases hturn with
  | send hown hnone hstep =>
    refine recorded_of_evolves hs (hevolves.resolve_right ?_) fun id rec hrec inc hinc hid hrunning => ?_
    · rintro ⟨i, now, victim, hlabel⟩
      exact hnone i now victim (BundlesLabel.send.inj hlabel)
    · obtain ⟨rfl, hhandles⟩ := Prod.mk.inj hid
      have hopen : rec.status.isTerminal = false := by
        by_contra hterminal
        exact hrunning ((hkept.bundles inc hinc).honest rec hrec hhandles.symm
          (by simpa using hterminal))
      obtain ⟨now, hrec'⟩ := (ages_of_step hkept.filed.keyed hown hnone hstep).stays _ rec hrec hopen
      exact ⟨_, hrec', rfl⟩
  | @accept i now victim bundleId call identity blobs handles registry hcall hpc hhandles hinsert =>
    have hdrops : s.drops cfg (.send (.advance i (.record now victim))) =
        s.registry.dropped cfg.maxKnownBundles bundleId victim := by
      simp [drops, hcall, hpc, SendPc.bundleId]
    intro inc hinc hrunning
    rcases mem_append.1 hinc with hinc | hinc
    · obtain ⟨rec, hrec, hown⟩ := hs inc hinc hrunning
      have hkeptId : inc.bundleId ∉ s.registry.dropped cfg.maxKnownBundles bundleId victim :=
        fun hdropped => hrunning (hok.2.2 inc hinc (hdrops ▸ hdropped))
      have hid : inc.bundleId ≠ bundleId := by
        rintro hid
        refine hkeptId ?_
        unfold dropped
        split_ifs <;> simp [hid]
      refine ⟨rec, ?_, hown⟩
      have hlookup := lookup_insert hkept.filed.keyed hinsert hid
      exact hlookup.trans ((if_neg hkeptId).trans hrec)
    · rw [mem_singleton.1 hinc]
      exact ⟨_, (insert_found hinsert).1, rfl⟩
  | register | watch | cancel =>
    exact recorded_of_evolves hs (hevolves.resolve_right (by simp)) fun id rec hrec _ _ _ _ =>
      ⟨rec, hrec, rfl⟩
  | watcherStatus =>
    exact recorded_of_evolves hs (hevolves.resolve_right (by simp)) fun id rec hrec _ _ _ _ =>
      hstatus _ _ _ _ rfl id rec hrec
  | advanceCancel hcall hturn =>
    have hevolves' := hevolves.resolve_right (by simp)
    cases hturn with
    | substrate | found | absent | update | finalize =>
      exact recorded_of_evolves hs hevolves' fun id rec hrec _ _ _ _ => ⟨rec, hrec, rfl⟩
    | updateStatus status now =>
      exact recorded_of_evolves hs hevolves' fun id rec hrec _ _ _ _ =>
        hstatus s _ status now rfl id rec hrec

/-- Only the check of the cap brings a request past it. -/
theorem passedCap_turn {label : SendLabel} (hlabel : label ≠ .checkCap)
    (h : SendCall.Turn platform cfg n call label n' call') (hpassed : call'.pc.passedCap = true) :
    call.pc.passedCap = true := by
  cases h with
  | validate hpc fs =>
    simp only [goto, afterValidate] at hpassed
    split_ifs at hpassed
    · split at hpassed <;> cases hpassed
    · cases hpassed
  | cap => exact absurd rfl hlabel
  | decided hpc | undecided hpc | recheck hpc | snapshot hpc | ingest hpc | record hpc =>
    rw [hpc]
    rfl

theorem passing_eq_zero (h : ∀ call ∈ calls, call.pc.passedCap = false) : passing calls = 0 := by
  refine sum_eq_zero fun n hn => ?_
  obtain ⟨call, hcall, rfl⟩ := mem_map.1 hn
  exact weight_of_not_passed (h call hcall)

theorem passing_set (h : calls[i]? = some call) (call' : SendCall) :
    passing (calls.set i call') + call.weight = passing calls + call'.weight :=
  sum_map_set h _ _

/-- Only the check of the cap brings a request past it, and only if there is room. -/
theorem passing_step {sends sends' : SendAttachments} {label : SendAttachmentsLabel}
    (hqueue : cfg.queueWhenFull = false)
    (h : SendAttachments.step platform cfg sends label = some sends') :
    passing sends'.calls ≤ passing sends.calls ∨
      checksCap (.send label) = true ∧ passing sends'.calls ≤ passing sends.calls + 1 ∧
        sends.node.registry.nonTerminalCount < cfg.maxConcurrentDistributions := by
  cases label with
  | arrive request =>
    cases h
    left
    simp [passing, weight, SendPc.passedCap]
  | updateStatus | cancel | evictExpired | get | changeBlobs =>
    cases h
    exact .inl le_rfl
  | advance i label =>
    obtain ⟨call, n', call', hcall, hturn, rfl⟩ := SendAttachments.turn_of_step h
    have hset := passing_set hcall call'
    have hone := call'.weight_le_one
    show passing (sends.calls.set i call') ≤ _ ∨ _ ∧ passing (sends.calls.set i call') ≤ _ ∧ _
    by_cases hlabel : label = .checkCap
    · subst hlabel
      cases hturn with
      | @cap v hpc =>
        by_cases hadmits : SendCall.Admits cfg sends.node.registry
        · exact .inr ⟨rfl, by omega, hadmits.resolve_left (by simp [hqueue])⟩
        · rw [if_neg hadmits] at hset ⊢
          have hreturned : (call.goto (.returned (.error (capReached cfg)))).weight = 0 := rfl
          exact .inl (by omega)
    · left
      by_cases hpassed : call'.pc.passedCap = true
      · have hold := weight_of_passed (passedCap_turn hlabel hturn hpassed)
        omega
      · have hnew := weight_of_not_passed (by simpa using hpassed)
        omega

/-- The cap is kept, counting the requests on their way to the table. -/
structure Capped (cfg : AttachmentConfig) (s : Bundles) : Prop where
  kept : s.Kept
  recorded : s.Recorded
  bounded : s.active + passing s.sends.calls ≤ cfg.maxConcurrentDistributions

theorem Capped.step (hs : s.Capped cfg) (hqueue : cfg.queueWhenFull = false)
    (hok : s.Exclusive cfg label) (h : step platform cfg s label = some s') : s'.Capped cfg := by
  refine ⟨hs.kept.step hok.1 h, hs.recorded.step hs.kept hok h, ?_⟩
  have hbounded := hs.bounded
  have hturn := Turn.of_step h
  have hactive : Forall₂ Incarnation.Evolves s.incarnations s'.incarnations →
      s'.active ≤ s.active := countP_running_le
  have hevolves := hturn.evolves hs.kept.staffed
  -- the steps that leave the requests alone
  have hquiet : s'.sends.calls = s.sends.calls →
      Forall₂ Incarnation.Evolves s.incarnations s'.incarnations →
      s'.active + passing s'.sends.calls ≤ cfg.maxConcurrentDistributions := by
    intro hcalls hev
    rw [hcalls]
    exact le_trans (Nat.add_le_add_right (hactive hev) _) hbounded
  cases hturn with
  | send hown hnone hstep =>
    have hactive' := hactive (hevolves.resolve_right (by
      rintro ⟨i, now, victim, hlabel⟩
      exact hnone i now victim (BundlesLabel.send.inj hlabel)))
    rcases passing_step hqueue hstep with hle | ⟨hchecks, hle, hroom⟩
    · exact le_trans (Nat.add_le_add hactive' hle) hbounded
    · -- nobody else is on the way, and what runs is counted
      have hzero : passing s.sends.calls = 0 := passing_eq_zero (hok.2.1 hchecks)
      have hcounted := active_le_nonTerminalCount hs.kept hs.recorded
      have hroom' : s.registry.nonTerminalCount < cfg.maxConcurrentDistributions := hroom
      refine le_trans (Nat.add_le_add hactive' hle) ?_
      omega
  | @accept i now victim bundleId call identity blobs handles registry hcall hpc hhandles hinsert =>
    have hset := passing_set hcall (call.goto (.returned (.ok (buildResponse bundleId handles))))
    have hpassed : call.weight = 1 := weight_of_passed (by rw [hpc]; rfl)
    have hreturned :
        (call.goto (.returned (.ok (buildResponse bundleId handles)))).weight = 0 := rfl
    have hadded : (s.incarnations ++ [Incarnation.new bundleId handles blobs]).countP
        (fun inc => decide (¬ inc.runtime.Ended)) ≤ s.active + 1 := by
      rw [countP_append, countP_singleton, active]
      split_ifs <;> omega
    refine le_trans (Nat.add_le_add_right hadded _) ?_
    show s.active + 1 + passing (s.sends.calls.set i _) ≤ _
    omega
  | register | watch | watcherStatus | cancel => exact hquiet rfl (hevolves.resolve_right nofun)
  | advanceCancel hcall hturn =>
    have hev := hevolves.resolve_right nofun
    cases hturn with
    | substrate | found | absent | update | finalize | updateStatus => exact hquiet rfl hev

theorem capped_init (cfg : AttachmentConfig) (blobs : Finset BlobHash) : (init blobs).Capped cfg where
  kept := kept_init blobs
  recorded inc hinc := by simp [init] at hinc
  bounded := by simp [init, active, passing, SendAttachments.init]

/-- **The cap holds** in every state of a run in which checks and inserts do not overlap and no
running bundle loses its record. -/
theorem cap_holds (platform : Platform) (cfg : AttachmentConfig) (blobs : Finset BlobHash)
    (labels : List BundlesLabel) (s : Bundles) (hqueue : cfg.queueWhenFull = false)
    (hok : Lts.Along (step platform cfg) (Exclusive cfg) (init blobs) labels)
    (hrun : Lts.exec (step platform cfg) (init blobs) labels = some s) :
    s.active ≤ cfg.maxConcurrentDistributions := by
  have hcapped := Lts.exec_invariant (Capped cfg) (fun s a s' hs hok h => hs.step hqueue hok h)
    (capped_init cfg blobs) hok hrun
  exact le_trans (Nat.le_add_right _ _) hcapped.bounded

/-! ### Bundles in a row and at once -/

def named (id : String) : SendAttachmentsRequest := { sampleRequest with bundleId := some id }

def admitted (i : ℕ) : List BundlesLabel :=
  [.validate emptyFiles, .checkCap].map fun label => .send (.advance i label)

/-- Request `i` goes on; `victim` makes room. -/
def recordedAs (i : ℕ) (distributionId victim : String) : List BundlesLabel :=
  [.probe "uuid", .snapshot, .ingest (.read (.content [])),
    .ingest (.distribute (.ok distributionId)), .record 0 victim].map fun label =>
      .send (.advance i label)

/-- The first bundle ends before the second is sent. -/
def inARow : List BundlesLabel :=
  .send (.arrive (named "a")) :: admitted 0 ++ recordedAs 0 "first" "" ++
    [.register 0, .watch 0 0 (.status (.ok ⟨0, [], true⟩)), .watch 0 0 .update, .watch 0 0 .update,
      .watch 0 0 .update, .watch 0 0 .finalize, .watcherStatus 0 0 1,
      .send (.arrive (named "b"))] ++ admitted 1 ++ recordedAs 1 "second" ""

theorem inARow_capped : ∃ s ∈ Lts.exec (step byContent plainConfig) (init ∅) inARow, s.active = 1 ∧
      s.active ≤ plainConfig.maxConcurrentDistributions :=
  Lts.exists_mem_and (by decide +kernel) fun s hrun _ =>
    cap_holds byContent plainConfig ∅ _ s rfl (by decide +kernel) hrun

def smallTable : AttachmentConfig :=
  { plainConfig with maxConcurrentDistributions := 2, maxKnownBundles := 1 }

/-- **More bundles run than the cap allows**: two requests pass a cap of one before either has
recorded its bundle; and of three bundles sent in turn under a cap of two each takes the record of
the one before out of the table. -/
theorem cap_exceeded : plainConfig.queueWhenFull = false ∧ smallTable.queueWhenFull = false ∧
    (∃ s ∈ Lts.exec (step byContent plainConfig) (init ∅)
        (.send (.arrive (named "a")) :: .send (.arrive (named "b")) :: admitted 0 ++ admitted 1 ++
          recordedAs 0 "first" "" ++ recordedAs 1 "second" ""),
      plainConfig.maxConcurrentDistributions < s.active) ∧
    ∃ s ∈ Lts.exec (step byContent smallTable) (init ∅)
        (.send (.arrive (named "a")) :: admitted 0 ++ recordedAs 0 "first" "" ++
          .send (.arrive (named "b")) :: admitted 1 ++ recordedAs 1 "second" "a" ++
          .send (.arrive (named "c")) :: admitted 2 ++ recordedAs 2 "third" "b"),
      smallTable.maxConcurrentDistributions < s.active := by
  refine ⟨rfl, rfl, ?_, ?_⟩ <;> decide +kernel

end Bundles

end PeatNode.Attachments
