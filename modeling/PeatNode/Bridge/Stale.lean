/-
# Stale barriers and stale generation ends

A barrier is tagged with two epochs of the snapshot that the supervisor has read and with the id
of a generation.  The epochs count the events (`Traced.counted`), so they are current only if
nothing has been recorded since; ids count the builds.  Both counts are exact up to the largest
`u64`.
-/

import PeatNode.Bridge.Supervisor

namespace PeatNode.Bridge

open List

/-- A `commit_barrier` that establishes: the events recorded when the snapshot of its tags was
read, and by now; the generation at its start, and now. -/
structure Commit where
  taggedAt : ℕ
  committedAt : ℕ
  startedOn : Option ℕ
  generation : Option ℕ
deriving DecidableEq

/-- A generation that is removed: the id in `GenerationEnded`, and the generation that is there. -/
structure Removal where
  ended : Option ℕ
  generation : Option ℕ
deriving DecidableEq

structure Watch where
  events : ℕ := 0
  builds : ℕ := 0
  readAt : ℕ := 0
  taggedAt : ℕ := 0
  startedOn : Option ℕ := none
  ended : Option ℕ := none
  commits : List Commit := []
  removals : List Removal := []
  built : List ℕ := []
deriving DecidableEq

namespace Watch

/-- A barrier is started, or not. -/
def tag (w : Watch) (started : Bool) (readAt : ℕ) (generation : Option ℕ) : Watch :=
  if started then { w with taggedAt := readAt, startedOn := generation } else w

/-- A barrier for the generation kept. -/
def startsOnRetained (s : ClientSupervisor) (delivered : LifecycleSnapshot) : Bool :=
  decide (delivered.connectionEpoch ≠ s.handledConnectionEpoch) && s.ingress &&
    s.generationId.isSome && barrierAllowedAfterLatestDelivery delivered

def build (w : Watch) (s : ClientSupervisor) (subscribed : Bool) : Watch :=
  { w with
    builds := w.builds + 1
    built := if subscribed then s.nextGenerationId :: w.built else w.built }

def observe (s : ClientSupervisor) (l : ClientSupervisor.Label) (s' : ClientSupervisor)
    (w : Watch) : Watch :=
  match l with
  | .record => { w with events := w.events + 1 }
  | .lifecycleChanged => { w with readAt := w.events }
  | .signal => { w with ended := s.signals.head? }
  | .build subscribed =>
    match s.pc with
    | .building (some delivered) =>
      (w.build s subscribed).tag (barrierAllowedAfterLatestDelivery delivered) w.readAt
        s'.generationId
    | _ =>
      (w.build s subscribed).tag (barrierAllowedAfterLatestDelivery s.lifecycle) w.events
        s'.generationId
  | .proceed =>
    match s.pc with
    | .connecting delivered => w.tag (startsOnRetained s delivered) w.readAt s'.generationId
    | .removing _ => { w with removals := ⟨w.ended, s.generationId⟩ :: w.removals }
    | .committing _ =>
      { w with commits := ⟨w.taggedAt, w.events, w.startedOn, s.generationId⟩ :: w.commits }
    | _ => w
  | _ => w

theorem builds_observe_build (s : ClientSupervisor) (subscribed : Bool) (s' : ClientSupervisor)
    (w : Watch) : (observe s (.build subscribed) s' w).builds = w.builds + 1 := by
  simp only [observe, tag]
  split <;> split_ifs <;> rfl

theorem le_observe (s : ClientSupervisor) (l : ClientSupervisor.Label) (s' : ClientSupervisor)
    (w : Watch) : w.events ≤ (observe s l s' w).events ∧ w.builds ≤ (observe s l s' w).builds := by
  cases l with
  | record => exact ⟨Nat.le_succ _, le_rfl⟩
  | build subscribed =>
    refine ⟨?_, (builds_observe_build s subscribed s' w).ge.trans' (Nat.le_succ _)⟩
    simp only [observe, tag]
    split <;> split_ifs <;> exact le_rfl
  | proceed =>
    simp only [observe, tag]
    split
    · split_ifs <;> exact ⟨le_rfl, le_rfl⟩
    all_goals exact ⟨le_rfl, le_rfl⟩
  | _ => exact ⟨le_rfl, le_rfl⟩

end Watch

theorem eq_some_of_endedGenerationAction {id subjectCount : ℕ}
    (h : endedGenerationAction generation id connected subjectCount = some action) :
    generation = some id := by
  unfold endedGenerationAction at h
  split at h
  · simp at h
  · split_ifs at h with hne <;> rw [not_not.1 hne]

namespace ClientSupervisor

def watch (s : ClientSupervisor) (labels : List Label) : Watch :=
  Lts.history step Watch.observe s {} labels

def snapshot (s : ClientSupervisor) : Option LifecycleSnapshot :=
  match s.pc with
  | .connecting delivered => some delivered
  | .building delivered => delivered
  | _ => none

/-- What the supervisor holds where it stands, against the history. -/
structure HoldsAt (s : ClientSupervisor) (w : Watch) : Prop where
  read : ∀ d ∈ s.snapshot, d.connectionEpoch + d.invalidationEpoch = w.readAt
  removing : ∀ action, s.pc = .removing action →
    ∃ id, w.ended = some id ∧ s.generationId = some id
  committing : ∀ tags, s.pc = .committing tags →
    tags.connectionEpoch + tags.invalidationEpoch = w.taggedAt ∧
      w.startedOn = some tags.generationId ∧ s.delivering = none ∧
      barrierTagsMatch tags s.lifecycle s.generationId = true

theorem holdsAt_of_selecting {s : ClientSupervisor} (hpc : s.pc = .selecting) (w : Watch) :
    s.HoldsAt w where
  read := by simp [snapshot, hpc]
  removing := by simp [hpc]
  committing := by simp [hpc]

/-- The three ways out of the lifecycle branch: a barrier on the retained
generation, nothing, or a build. -/
theorem connect_cases (s : ClientSupervisor) (delivered : LifecycleSnapshot) :
    (Watch.startsOnRetained s delivered = true ∧ ∃ id, s.generationId = some id ∧
      s.connect delivered = { s with
        handledConnectionEpoch := delivered.connectionEpoch
        pc := .selecting
        barrier := some ⟨⟨delivered.connectionEpoch, delivered.invalidationEpoch, id⟩, none⟩ }) ∨
    (Watch.startsOnRetained s delivered = false ∧ ∃ n,
      s.connect delivered = { s with handledConnectionEpoch := n, pc := .selecting }) ∨
    (Watch.startsOnRetained s delivered = false ∧ s.generationId = none ∧
      s.connect delivered = { s with
        handledConnectionEpoch := delivered.connectionEpoch
        pc := .building (some delivered) }) := by
  by_cases hnew : delivered.connectionEpoch ≠ s.handledConnectionEpoch
  · cases hing : s.ingress with
    | false =>
      refine .inr (.inl ⟨by simp [Watch.startsOnRetained, hing], delivered.connectionEpoch, ?_⟩)
      simp [connect, hnew, hing]
    | true =>
      cases hgen : s.generation with
      | none =>
        refine .inr (.inr ⟨?_, ?_, ?_⟩)
        · simp [Watch.startsOnRetained, generationId, hgen]
        · simp [generationId, hgen]
        · simp [connect, hnew, hing, generationId, hgen, connectedGenerationAction]
      | some g =>
        cases hallow : barrierAllowedAfterLatestDelivery delivered with
        | false =>
          refine .inr (.inl ⟨by simp [Watch.startsOnRetained, hallow],
            delivered.connectionEpoch, ?_⟩)
          simp [connect, hnew, hing, generationId, hgen,
            connectedGenerationAction, startBarrier, hallow]
        | true =>
          refine .inl ⟨?_, g.id, ?_, ?_⟩
          · simp [Watch.startsOnRetained, generationId, hgen, hnew, hing, hallow]
          · simp [generationId, hgen]
          · simp [connect, hnew, hing, generationId, hgen,
              connectedGenerationAction, startBarrier, hallow]
  · rw [not_not] at hnew
    refine .inr (.inl ⟨by simp [Watch.startsOnRetained, hnew], s.handledConnectionEpoch, ?_⟩)
    simp [connect, hnew]

structure Traced (s : ClientSupervisor) (w : Watch) : Prop where
  real : s.delivering ≠ some .initial
  counted : s.lifecycle.connectionEpoch + s.lifecycle.invalidationEpoch = w.events
  holds : s.HoldsAt w
  tagged : ∀ b ∈ s.barrier, b.tags.connectionEpoch + b.tags.invalidationEpoch = w.taggedAt ∧
    w.startedOn = some b.tags.generationId
  next : s.nextGenerationId = min (w.builds + 1) u64Max
  built_le : ∀ id ∈ w.built, id ≤ w.builds
  nodup : w.built.Nodup
  commits : ∀ c ∈ w.commits, c.taggedAt = c.committedAt ∧
    ∃ id, c.startedOn = some id ∧ c.generation = some id
  removals : ∀ r ∈ w.removals, ∃ id, r.ended = some id ∧ r.generation = some id

theorem traced_start (subjects : List String)
    (exclusionHealthy deliveryHealthy ingress reconcile : Bool) :
    Traced (start subjects exclusionHealthy deliveryHealthy ingress reconcile) {} where
  real := nofun
  counted := rfl
  holds := holdsAt_of_selecting rfl _
  tagged := nofun
  next := rfl
  built_le := nofun
  nodup := nodup_nil
  commits := nofun
  removals := nofun

namespace Traced

variable {s s' : ClientSupervisor} {w : Watch}

/-- A step that the history does not look at, and that takes no barrier away but
the running one. -/
theorem of_eq (h : Traced s w) (hreal : s'.delivering ≠ some .initial)
    (hlife : s'.lifecycle = s.lifecycle) (hnext : s'.nextGenerationId = s.nextGenerationId)
    (hbar : ∀ b' ∈ s'.barrier, ∃ b ∈ s.barrier, b'.tags = b.tags) (hholds : s'.HoldsAt w) :
    Traced s' w where
  real := hreal
  counted := hlife ▸ h.counted
  holds := hholds
  tagged := by
    intro b' hb'
    obtain ⟨b, hb, htags⟩ := hbar b' hb'
    rw [htags]
    exact h.tagged b hb
  next := hnext ▸ h.next
  built_le := h.built_le
  nodup := h.nodup
  commits := h.commits
  removals := h.removals

/-- The supervisor's place does not change, and it is not inside `commit_barrier` or neither the
lock nor the snapshot does. -/
theorem holdsAt_of_eq (h : Traced s w) (hpc : s'.pc = s.pc)
    (hgen : s'.generationId = s.generationId)
    (hlock : s.isCommitting = true → s'.delivering = s.delivering ∧ s'.lifecycle = s.lifecycle) :
    s'.HoldsAt w where
  read := by
    have hsnap : s'.snapshot = s.snapshot := by simp only [snapshot, hpc]
    exact hsnap ▸ h.holds.read
  removing := by
    rw [hpc, hgen]
    exact h.holds.removing
  committing := by
    intro tags hat
    rw [hpc] at hat
    obtain ⟨hdel, hlife⟩ := hlock (by simp [isCommitting, hat])
    rw [hdel, hlife, hgen]
    exact h.holds.committing tags hat

theorem deliver (h : Traced s w) (hfree : s.lockFree = true) (hreal : event ≠ .initial) :
    Traced { s with status := event.readiness s.status, delivering := some event } w := by
  refine h.of_eq (fun hdel => hreal (Option.some.inj hdel)) rfl rfl (fun b hb => ⟨b, hb, rfl⟩)
    (h.holdsAt_of_eq rfl rfl fun hcommit => ?_)
  simp [lockFree, hcommit] at hfree

theorem record (h : Traced s w) (hmax : w.events < u64Max) (hdel : s.delivering = some event) :
    Traced { s with
      lifecycle := s.lifecycle.delivered event, delivering := none, changed := true }
      { w with events := w.events + 1 } := by
  have hcommit : s.isCommitting ≠ true := by
    intro hcommit
    unfold isCommitting at hcommit
    split at hcommit
    · next tags hat =>
      obtain ⟨-, -, hnone, -⟩ := h.holds.committing tags hat
      simp [hnone] at hdel
    · simp at hcommit
  have hholds : HoldsAt { s with
      lifecycle := s.lifecycle.delivered event, delivering := none, changed := true } w :=
    h.holdsAt_of_eq rfl rfl fun hc => absurd hc hcommit
  have hcounted := h.counted
  refine ⟨nofun, ?_, ⟨hholds.read, hholds.removing, hholds.committing⟩, h.tagged, h.next,
    h.built_le, h.nodup, h.commits, h.removals⟩
  cases event with
  | initial => exact absurd hdel h.real
  | connected | disconnected | error =>
    simp only [LifecycleSnapshot.delivered, saturatingSucc]
    omega

theorem degrade (h : Traced s w) (cause : Degradation) :
    Traced { s with status := s.status.degrade cause } w :=
  h.of_eq h.real rfl rfl (fun b hb => ⟨b, hb, rfl⟩) (h.holdsAt_of_eq rfl rfl fun _ => ⟨rfl, rfl⟩)

/-! ## The supervisor -/

/-- The supervisor reads the snapshot: its epochs add up to the events so far. -/
theorem lifecycleChanged (h : Traced s w) {barrier : Option BarrierAttempt}
    (hbarrier : ∀ b ∈ barrier, b ∈ s.barrier) :
    Traced { s with
      changed := false
      pc := .connecting s.lifecycle
      handledInvalidationEpoch := epoch
      barrier := barrier } { w with readAt := w.events } := by
  have hread : ∀ d ∈ some s.lifecycle, d.connectionEpoch + d.invalidationEpoch = w.events := by
    intro d hd
    cases hd
    exact h.counted
  exact ⟨h.real, h.counted, ⟨hread, nofun, nofun⟩, fun b hb => h.tagged b (hbarrier b hb), h.next,
    h.built_le, h.nodup, h.commits, h.removals⟩

theorem startBarrier (h : Traced s w) {lifecycle : LifecycleSnapshot} {readAt : ℕ}
    (hread : lifecycle.connectionEpoch + lifecycle.invalidationEpoch = readAt) :
    Traced (s.startBarrier lifecycle)
      (w.tag (barrierAllowedAfterLatestDelivery lifecycle) readAt s.generationId) := by
  unfold ClientSupervisor.startBarrier Watch.tag
  split_ifs
  · refine ⟨h.real, h.counted, holdsAt_of_selecting rfl _, ?_, h.next, h.built_le, h.nodup,
      h.commits, h.removals⟩
    intro b hb
    obtain ⟨id, hid, rfl⟩ := Option.map_eq_some_iff.1 hb
    exact ⟨hread, hid⟩
  · exact h.of_eq h.real rfl rfl (fun b hb => ⟨b, hb, rfl⟩) (holdsAt_of_selecting rfl _)

theorem connect (h : Traced s w) {delivered : LifecycleSnapshot} (hat : s.pc = .connecting delivered) :
    Traced (s.connect delivered)
      (w.tag (Watch.startsOnRetained s delivered) w.readAt (s.connect delivered).generationId) := by
  have hread : delivered.connectionEpoch + delivered.invalidationEpoch = w.readAt :=
    h.holds.read delivered (by simp [snapshot, hat])
  rcases connect_cases s delivered with ⟨hstart, id, hid, heq⟩ | ⟨hstart, n, heq⟩ |
    ⟨hstart, hnone, heq⟩ <;> rw [hstart, heq, Watch.tag]
  · refine ⟨h.real, h.counted, holdsAt_of_selecting rfl _, fun b hb => ?_, h.next, h.built_le,
      h.nodup, h.commits, h.removals⟩
    cases hb
    exact ⟨hread, hid⟩
  · exact h.of_eq h.real rfl rfl (fun b hb => ⟨b, hb, rfl⟩) (holdsAt_of_selecting rfl _)
  · refine h.of_eq h.real rfl rfl (fun b hb => ⟨b, hb, rfl⟩) ⟨fun d hd => ?_, nofun, nofun⟩
    cases hd
    exact hread

/-- Ids count the builds, so the new one is larger than all before it. -/
theorem build (h : Traced s w) (hmax : w.builds < u64Max) (hat : s.pc = .building delivered)
    {s' : ClientSupervisor} (hs' : s' = ClientSupervisor.startBarrier
      { s with
        generation := if subscribed then some ⟨s.nextGenerationId, false⟩ else none
        nextGenerationId := saturatingSucc s.nextGenerationId } (delivered.getD s.lifecycle)) :
    Traced s' (Watch.observe s (.build subscribed) s' w) := by
  have hid : s.nextGenerationId = w.builds + 1 := by
    rw [h.next]
    omega
  have hbuilt : Traced { s with
      generation := if subscribed then some ⟨s.nextGenerationId, false⟩ else none
      nextGenerationId := saturatingSucc s.nextGenerationId
      pc := .selecting } (w.build s subscribed) := by
    refine ⟨h.real, h.counted, holdsAt_of_selecting rfl _, h.tagged, ?_, ?_, ?_, h.commits,
      h.removals⟩
    · simp only [Watch.build, saturatingSucc, hid]
    · intro id hmem
      have hle : id ∈ w.built → id ≤ w.builds + 1 :=
        fun h' => (h.built_le id h').trans (Nat.le_succ _)
      cases subscribed with
      | false => exact hle hmem
      | true =>
        rcases mem_cons.1 hmem with rfl | hmem
        · exact hid.le
        · exact hle hmem
    · cases subscribed with
      | false => exact h.nodup
      | true =>
        refine nodup_cons.2 ⟨fun hmem => ?_, h.nodup⟩
        have hle := h.built_le _ hmem
        omega
  have hgen : ∀ (t : ClientSupervisor) (life : LifecycleSnapshot),
      (t.startBarrier life).generationId = t.generationId := by
    intro t life
    obtain ⟨barrier, heq⟩ := startBarrier_eq t life
    rw [heq]
    rfl
  subst hs'
  cases delivered with
  | some d =>
    have hread : d.connectionEpoch + d.invalidationEpoch = w.readAt :=
      h.holds.read d (by simp [snapshot, hat])
    simp only [Watch.observe, hat, Option.getD_some, hgen]
    exact hbuilt.startBarrier hread
  | none =>
    simp only [Watch.observe, hat, Option.getD_none, hgen]
    exact hbuilt.startBarrier h.counted

theorem remove (h : Traced s w) {action : GenerationAction} (hat : s.pc = .removing action) :
    Traced (s.remove action) { w with removals := ⟨w.ended, s.generationId⟩ :: w.removals } := by
  have hremoved : ∀ r ∈ (⟨w.ended, s.generationId⟩ : Removal) :: w.removals,
      ∃ id, r.ended = some id ∧ r.generation = some id := by
    intro r hr
    rcases mem_cons.1 hr with rfl | hr
    · exact h.holds.removing action hat
    · exact h.removals r hr
  obtain ⟨pc, hpc, heq⟩ := remove_eq s action
  rw [heq]
  refine ⟨h.real, h.counted, ?_, h.tagged, h.next, h.built_le, h.nodup, h.commits, hremoved⟩
  rcases hpc with rfl | rfl
  · exact holdsAt_of_selecting rfl _
  · exact ⟨nofun, nofun, nofun⟩

/-- A commit goes through only on the epochs of the present, and these add up to
all events so far. -/
theorem commit (h : Traced s w) {tags : BarrierTags} (hat : s.pc = .committing tags) :
    Traced (s.commit tags)
      { w with commits := ⟨w.taggedAt, w.events, w.startedOn, s.generationId⟩ :: w.commits } := by
  obtain ⟨htag, hstart, -, hmatch⟩ := h.holds.committing tags hat
  obtain ⟨-, hconn, hinv, hgen⟩ := barrierTagsMatch_iff.1 hmatch
  have hcounted := h.counted
  have hcommits : ∀ c ∈ (⟨w.taggedAt, w.events, w.startedOn, s.generationId⟩ : Commit) :: w.commits,
      c.taggedAt = c.committedAt ∧ ∃ id, c.startedOn = some id ∧ c.generation = some id := by
    intro c hc
    rcases mem_cons.1 hc with rfl | hc
    · refine ⟨?_, tags.generationId, hstart, hgen⟩
      show w.taggedAt = w.events
      omega
    · exact h.commits c hc
  obtain ⟨triggered, readyGenerations, heq⟩ := commit_eq s tags
  rw [heq]
  exact ⟨h.real, h.counted, holdsAt_of_selecting rfl _, h.tagged, h.next, h.built_le, h.nodup,
    hcommits, h.removals⟩

/-- **Every step keeps the account**, as long as the counts stay within `u64`. -/
theorem step {l : Label} (h : Traced s w) (hs : step s l = some s')
    (hevents : (Watch.observe s l s' w).events ≤ u64Max)
    (hbuilds : (Watch.observe s l s' w).builds ≤ u64Max) : Traced s' (Watch.observe s l s' w) := by
  have hbarrier : ∀ b ∈ s.barrier, ∃ b' ∈ s.barrier, b.tags = b'.tags := fun b hb => ⟨b, hb, rfl⟩
  cases Turn.of_step hs with
  | ignore => exact h
  | deliver free real => exact h.deliver free real
  | record delivering => exact h.record hevents delivering
  | degrade cause => exact h.degrade cause
  | @roundTrip tags _ barrier =>
    refine h.of_eq h.real rfl rfl (fun b hb => ?_) (h.holdsAt_of_eq rfl rfl fun _ => ⟨rfl, rfl⟩)
    cases hb
    exact ⟨⟨tags, none⟩, barrier, rfl⟩
  | @generationEnds id generation =>
    have hid : s.generationId = some id := by simp [generationId, generation]
    exact h.of_eq h.real rfl rfl hbarrier (h.holdsAt_of_eq rfl hid.symm fun _ => ⟨rfl, rfl⟩)
  | invalidated => exact h.lifecycleChanged nofun
  | read => exact h.lifecycleChanged fun _ hb => hb
  | staleSignal pc =>
    exact ⟨h.real, h.counted, holdsAt_of_selecting (by exact pc) _, h.tagged, h.next, h.built_le,
      h.nodup, h.commits, h.removals⟩
  | @signal id rest action pc signals ended =>
    -- a `GenerationEnded` is acted on only if it names the current generation
    refine ⟨h.real, h.counted, ⟨nofun, fun _ _ => ⟨id, ?_, ?_⟩, nofun⟩, nofun, h.next, h.built_le,
      h.nodup, h.commits, h.removals⟩
    · simp [Watch.observe, signals]
    · exact eq_some_of_endedGenerationAction ended
  | barrierFailed pc | staleBarrier pc =>
    exact h.of_eq h.real rfl rfl nofun (holdsAt_of_selecting (by exact pc) _)
  | barrier _ barrier free current =>
    refine h.of_eq h.real rfl rfl nofun ⟨nofun, nofun, fun tags' hpc => ?_⟩
    obtain rfl := ClientSupervisorPc.committing.inj hpc
    obtain ⟨htag, hstart⟩ := h.tagged _ barrier
    have hfree : s.delivering = none := by
      simp only [lockFree, Bool.and_eq_true, Option.isNone_iff_eq_none] at free
      exact free.1
    exact ⟨htag, hstart, hfree, current⟩
  | shutdown => exact h.of_eq h.real rfl rfl nofun ⟨nofun, nofun, nofun⟩
  | build pc =>
    rw [Watch.builds_observe_build] at hbuilds
    exact h.build hbuilds pc rfl
  | connect pc =>
    simp only [Watch.observe, pc]
    exact h.connect pc
  | remove pc =>
    simp only [Watch.observe, pc]
    exact h.remove pc
  | commit pc =>
    simp only [Watch.observe, pc]
    exact h.commit pc
  | stop pc =>
    simp only [Watch.observe, pc]
    exact h.of_eq h.real rfl rfl hbarrier ⟨nofun, nofun, nofun⟩

end Traced

/-- **Stale barriers and stale generation ends take no effect.** In every run with fewer than 2⁶⁴
events and builds: between the snapshot that tagged a barrier and its commit no event was recorded
and the generation stayed; a generation is removed or rebuilt only for a signal that names it; no
id is used twice. -/
theorem stale_takes_no_effect (subjects : List String)
    (exclusionHealthy deliveryHealthy ingress reconcile : Bool) {labels : List Label}
    {s : ClientSupervisor} {w : Watch}
    (hrun : Lts.exec step (start subjects exclusionHealthy deliveryHealthy ingress reconcile)
      labels = some s)
    (hwatch : watch (start subjects exclusionHealthy deliveryHealthy ingress reconcile) labels = w)
    (hevents : w.events < UInt64.size) (hbuilds : w.builds < UInt64.size) :
    (∀ c ∈ w.commits, c.taggedAt = c.committedAt ∧
        ∃ id, c.startedOn = some id ∧ c.generation = some id) ∧
      (∀ r ∈ w.removals, ∃ id, r.ended = some id ∧ r.generation = some id) ∧ w.built.Nodup := by
  have htraced : w.events ≤ u64Max → w.builds ≤ u64Max → Traced s w := by
    rw [← hwatch]
    refine Lts.exec_history (fun s w => w.events ≤ u64Max → w.builds ≤ u64Max → Traced s w) ?_
      (fun _ _ => traced_start subjects exclusionHealthy deliveryHealthy ingress reconcile) hrun
    intro s l s' w h hs hevents hbuilds
    have hmono := Watch.le_observe s l s' w
    exact (h (hmono.1.trans hevents) (hmono.2.trans hbuilds)).step hs hevents hbuilds
  have h := htraced (Nat.le_pred_of_lt hevents) (Nat.le_pred_of_lt hbuilds)
  exact ⟨h.commits, h.removals, h.nodup⟩

/-- The client connects and a barrier is committed; a reader ends, and the supervisor rebuilds and
commits another. -/
def endAndRebuild : List Label :=
  [.deliver .connected, .record, .lifecycleChanged, .proceed, .build true, .roundTrip true,
    .barrier, .proceed, .generationEnds, .signal, .proceed, .build true, .roundTrip true, .barrier,
    .proceed]

theorem endAndRebuild_not_stale :
    ∃ w, watch (start ["demo.>"] true true true true) endAndRebuild = w ∧ w.commits.length = 2 ∧
      w.removals.length = 1 ∧ (∀ c ∈ w.commits, c.taggedAt = c.committedAt ∧
        ∃ id, c.startedOn = some id ∧ c.generation = some id) ∧
      (∀ r ∈ w.removals, ∃ id, r.ended = some id ∧ r.generation = some id) ∧ w.built.Nodup := by
  have hend : ∃ s ∈ Lts.exec step (start ["demo.>"] true true true true) endAndRebuild,
      s.generationId = some 2 := by decide +kernel
  obtain ⟨s, hrun, -⟩ := hend
  exact ⟨_, rfl, by decide +kernel, by decide +kernel,
    stale_takes_no_effect ["demo.>"] true true true true hrun rfl (by decide +kernel)
      (by decide +kernel)⟩

end ClientSupervisor

end PeatNode.Bridge
