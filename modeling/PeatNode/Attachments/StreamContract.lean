/-
# The contract of the progress stream

What `subscribe_attachment_bundle` promises: one terminal frame for every distribution, nothing of
a distribution after it, and an end only when all of them have gone out.

A cancellation may replace `Failed`, so a distribution has two terminal frames, and the stream,
which counts frames, ends too early (`relabelled_ends_early`). And a progress frame may reach the
channel after the terminal one.  Where neither happens and the receiver does not lag, the contract
is kept (`stream_contract`).
-/

import PeatNode.Attachments.Subscribe

namespace PeatNode.Attachments.Feed

open Broadcast List Channel SubscribeStream

/-- The second frame may come after the first. -/
def After (p q : AttachmentProgress) : Prop :=
  p.isTerminal = true → q.distributionId ≠ p.distributionId
deriving Decidable

/-- How many terminal frames went out. -/
def terminalFrames (t : SubscribeStream) (id : String) : ℕ :=
  t.delivered.countP fun p => p.isTerminal && decide (p.distributionId = id)

structure Contract (ids : List String) (s : Feed) (t : SubscribeStream) : Prop where
  once : ∀ id, terminalFrames t id ≤ 1
  last : t.delivered.Pairwise After
  complete : s.Settled → s.Drained t → ∀ id ∈ ids, terminalFrames t id = 1
  ended : t.closed = true → ∀ id ∈ ids, terminalFrames t id = 1

/-- Updates of a distribution do not overlap, and there is no lag. -/
def Orderly (s : Feed) : FeedEvent → Prop
  | .advance i => ∀ c ∈ s.calls[i]?, c.pc = .writing →
      ∀ slot ∈ s.runtime.perDistribution[c.update.fileIndex]?, c.update.keeps slot.state = false →
        slot.state.isTerminal = false ∧
          ∀ p ∈ s.pending, p.distributionId ≠ c.update.progress.distributionId
  | .poll => ∀ t ∈ s.stream, s.runtime.progressTx.oldest ≤ t.next
  | .begin _ | .subscribe | .snapshot => True

instance (s : Feed) (event : FeedEvent) : Decidable (Orderly s event) :=
  match event with
  | .advance i => inferInstanceAs (Decidable (∀ c ∈ s.calls[i]?, c.pc = .writing →
      ∀ slot ∈ s.runtime.perDistribution[c.update.fileIndex]?, c.update.keeps slot.state = false →
        slot.state.isTerminal = false ∧
          ∀ p ∈ s.pending, p.distributionId ≠ c.update.progress.distributionId))
  | .poll => inferInstanceAs (Decidable (∀ t ∈ s.stream, s.runtime.progressTx.oldest ≤ t.next))
  | .begin _ | .subscribe | .snapshot => inferInstanceAs (Decidable True)

variable {ids : List String} {s s' : Feed} {event : FeedEvent}

theorem Orderly.noTerminalMissed (h : Orderly s event) : NoTerminalMissed s event := by
  cases event with
  | poll =>
    intro t ht _ p hp
    simp [missed_eq_nil (h t ht)] at hp
  | begin | advance | subscribe | snapshot => trivial

/-! ### The order of the frames -/

/-- No frame of a distribution follows its terminal frame, in the channel or on its way; at most
one frame of each is on its way. -/
structure Ordered (s : Feed) : Prop where
  sent : s.runtime.progressTx.sent.Pairwise After
  pending : ∀ p ∈ s.runtime.progressTx.sent, ∀ q ∈ s.pending, After p q
  single : (s.pending.map (·.distributionId)).Nodup

theorem Ordered.turn (hcons : Consistent ids s) (hs : Ordered s) (hok : Orderly s event)
    (h : Turn ids s event s') : Ordered s' := by
  cases h with
  | silent hslots htotal hsent hpending hcalls =>
    refine ⟨hsent ▸ hs.sent, ?_, ?_⟩
    · rw [Feed.pending, hpending, hsent]
      exact hs.pending
    · rw [Feed.pending, hpending]
      exact hs.single
  | @written i c slot calls before after hc hpc hslot hkeeps hold hnew hcalls =>
    obtain ⟨hrunning, hfree⟩ := hok c hc hpc slot hslot hkeeps
    have hu := hcons.calls c (mem_of_getElem? hc)
    refine ⟨hs.sent, fun p hp q hq => ?_, ?_⟩
    · rw [Feed.pending, hnew] at hq
      rcases mem_append.1 hq with hq | hq
      · exact hs.pending p hp q (hold ▸ mem_append_left _ hq)
      rcases mem_cons.1 hq with rfl | hq
      · -- a terminal frame of the distribution would have ended it
        intro hterminal heq
        have hid : p.distributionId = slot.lastProgress.distributionId :=
          heq.symm.trans (Option.some.inj (hu.slot.symm.trans (hcons.id_of_slot hslot)))
        have := hcons.running _ slot hslot hrunning p (.inl hp) hid
        simp [this] at hterminal
      · exact hs.pending p hp q (hold ▸ mem_append_right _ hq)
    · have hsingle := hs.single
      rw [hold, map_append] at hsingle
      rw [Feed.pending, hnew, map_append, map_cons, nodup_middle, nodup_cons]
      refine ⟨fun hmem => ?_, hsingle⟩
      rw [← map_append, ← hold] at hmem
      obtain ⟨p, hp, hid⟩ := mem_map.1 hmem
      exact hfree p hp hid
  | @sent i progress calls before after hold hnew hcalls =>
    have hsingle := hs.single
    rw [hold, map_append, map_cons, nodup_middle, nodup_cons,
      ← map_append] at hsingle
    have hprogress : progress ∈ s.pending := by
      rw [hold]
      exact mem_append_right _ mem_cons_self
    refine ⟨?_, fun p hp q hq => ?_, ?_⟩
    · refine pairwise_append.2 ⟨hs.sent, pairwise_singleton .., fun p hp q hq => ?_⟩
      obtain rfl := mem_singleton.1 hq
      exact hs.pending p hp q hprogress
    · rw [Feed.pending, hnew] at hq
      rcases mem_append.1 hp with hp | hp
      · refine hs.pending p hp q ?_
        rw [hold]
        rcases mem_append.1 hq with hq | hq
        · exact mem_append_left _ hq
        · exact mem_append_right _ (mem_cons_of_mem _ hq)
      · obtain rfl := mem_singleton.1 hp
        exact fun _ heq => hsingle.1 (mem_map.2 ⟨q, hq, heq⟩)
    · rw [Feed.pending, hnew]
      exact hsingle.2
  | subscribe | snapshot | poll => exact ⟨hs.sent, hs.pending, hs.single⟩

/-! ### What the stream delivers -/

/-- The stream has delivered frames of the copy, then what it read of the channel without the
distributions of the copy. -/
structure Exact (ids : List String) (c : Channel AttachmentProgress) (t : SubscribeStream) : Prop where
  start_le : t.start ≤ t.next
  next_le : t.next ≤ c.sent.length
  untouched : t.taken = false → t.delivered = []
  waiting : t.taken = false ∨ t.snapshotFrames ≠ [] → t.next = t.start
  parts : ∃ shown, t.delivered = shown ++
      (c.between t.start t.next).filter (fun p => p.distributionId ∉ t.snapshotTerminalIds) ∧
    (shown ++ t.snapshotFrames).map (·.distributionId) = t.snapshotTerminalIds
  copied : t.snapshotTerminalIds.Nodup ∧ t.snapshotTerminalIds ⊆ ids
  counted : t.terminalCount = t.delivered.countP (·.isTerminal)
  closing : t.taken = true → t.total = ids.length ∧ (t.closed = true ↔ t.total ≤ t.terminalCount)

namespace Exact

variable {c c' : Channel AttachmentProgress} {t t' : SubscribeStream}

theorem attach (ids : List String) (rt : BundleRuntime) : Exact ids rt.progressTx (.attach rt) where
  start_le := le_rfl
  next_le := le_rfl
  untouched _ := rfl
  waiting _ := rfl
  parts := ⟨[], by simp [SubscribeStream.attach, between_self]⟩
  copied := by simp [SubscribeStream.attach]
  counted := rfl
  closing := nofun

theorem grow (ht : Exact ids c t) (p : AttachmentProgress) : Exact ids (c.send p) t where
  start_le := ht.start_le
  next_le := by
    have := ht.next_le
    simp only [send, length_append, length_singleton]
    omega
  untouched := ht.untouched
  waiting := ht.waiting
  parts := by
    rw [between_send p ht.next_le]
    exact ht.parts
  copied := ht.copied
  counted := ht.counted
  closing := ht.closing

/-- The distributions that have ended are some of the distributions. -/
theorem sublist_snapshotFrames (slots : List PerDistributionProgress) :
    ((snapshotFrames slots).map (·.distributionId)).Sublist (idsOf slots) := by
  rw [snapshotFrames, map_map, idsOf]
  exact filter_sublist.map _

theorem take (hnodup : ids.Nodup) (hs : Consistent ids s) (ht : Exact ids s.runtime.progressTx t)
    (hfirst : t.taken = false) : Exact ids s.runtime.progressTx (t.take s.runtime) := by
  have hsub : ((snapshotFrames s.runtime.perDistribution).map (·.distributionId)).Sublist ids :=
    hs.slotIds ▸ sublist_snapshotFrames s.runtime.perDistribution
  have hnext := ht.waiting (.inl hfirst)
  have hnone := ht.untouched hfirst
  have hcount : t.terminalCount = 0 := by
    rw [ht.counted, hnone]
    rfl
  refine ⟨ht.start_le, ht.next_le, nofun, fun _ => hnext, ⟨[], ?_, rfl⟩,
    ⟨hnodup.sublist hsub, hsub.subset⟩, ht.counted, fun _ => ⟨hs.total, ?_⟩⟩
  · simp [SubscribeStream.take, hnone, hnext, between_self]
  · simp [SubscribeStream.take, hcount]

theorem closing_deliver (hclosing : t.total = ids.length ∧ (t.closed = true ↔ t.total ≤ t.terminalCount))
    (hopen : t.closed = false) (p : AttachmentProgress) :
    (t.deliver p).total = ids.length ∧
      ((t.deliver p).closed = true ↔ (t.deliver p).total ≤ (t.deliver p).terminalCount) := by
  refine ⟨hclosing.1, ?_⟩
  have hbefore : ¬ t.total ≤ t.terminalCount := by
    rw [← hclosing.2, hopen]
    simp
  cases hterminal : p.isTerminal with
  | false => simpa [deliver, hterminal] using hbefore
  | true => simp [deliver, hterminal]

theorem counted_deliver (hcounted : t.terminalCount = t.delivered.countP (·.isTerminal))
    (p : AttachmentProgress) :
    (t.deliver p).terminalCount = (t.deliver p).delivered.countP (·.isTerminal) := by
  simp only [deliver, countP_append, countP_singleton, hcounted]
  split_ifs <;> rfl

theorem poll (ht : Exact ids c t) (hnolag : c.oldest ≤ t.next) (hpoll : t.poll c = some t') :
    Exact ids c t' := by
  obtain ⟨htaken, hopen, hpolled⟩ := SubscribeStream.Polled.of_poll hpoll
  have hclosing := ht.closing htaken
  obtain ⟨shown, hdelivered, hids⟩ := ht.parts
  cases hpolled with
  | @frame p rest hframes =>
    have hnext := ht.waiting (.inr (by simp [hframes]))
    have hnone : c.between t.start t.next = [] := by rw [hnext, between_self]
    refine ⟨ht.start_le, ht.next_le, fun h => absurd (htaken.symm.trans h) (by simp), fun _ => hnext,
      ⟨shown ++ [p], ?_, ?_⟩, ht.copied, counted_deliver ht.counted p,
      fun _ => closing_deliver hclosing hopen p⟩
    · rw [hnone] at hdelivered
      simpa [deliver, hnone] using hdelivered
    · rw [hframes] at hids
      simpa [deliver] using hids
  | suppressed hframes hold hp hid =>
    have hlt := (List.getElem?_eq_some_iff.1 hp).1
    refine ⟨Nat.le_succ_of_le ht.start_le, hlt, fun h => absurd (htaken.symm.trans h) (by simp), ?_,
      ⟨shown, ?_, hids⟩, ht.copied, ht.counted, fun _ => hclosing⟩
    · simp [htaken, hframes]
    · rw [between_succ ht.start_le hp, filter_append]
      simpa [hid] using hdelivered
  | @live p hframes hold hp hid =>
    have hlt := (List.getElem?_eq_some_iff.1 hp).1
    refine ⟨Nat.le_succ_of_le ht.start_le, hlt, fun h => absurd (htaken.symm.trans h) (by simp), ?_,
      ⟨shown, ?_, hids⟩, ht.copied, counted_deliver ht.counted p,
      fun _ => closing_deliver hclosing hopen p⟩
    · simp [deliver, htaken, hframes]
    · show t.delivered ++ [p] = shown ++ (c.between t.start (t.next + 1)).filter _
      rw [between_succ ht.start_le hp, filter_append, hdelivered]
      simp [hid, deliver]
  | lagged hframes hlag => exact absurd hnolag (Nat.not_le.2 hlag)

end Exact

/-! ### The contract -/

structure InOrder (ids : List String) (s : Feed) : Prop where
  sound : Sound ids s
  ordered : Ordered s
  exact : ∀ t ∈ s.stream, Exact ids s.runtime.progressTx t

theorem InOrder.turn (hnodup : ids.Nodup) (hs : InOrder ids s) (hok : Orderly s event)
    (h : Turn ids s event s') : InOrder ids s' := by
  refine ⟨hs.sound.turn hnodup hok.noTerminalMissed h, hs.ordered.turn hs.sound.consistent hok h,
    fun t' ht' => ?_⟩
  cases h with
  | silent hslots htotal hsent hpending hcalls =>
    simp only [hsent]
    exact hs.exact t' ht'
  | written before after => exact hs.exact t' ht'
  | @sent i progress calls before after => exact (hs.exact t' ht').grow progress
  | subscribe =>
    cases ht'
    exact .attach ids s.runtime
  | @snapshot t ht htaken =>
    cases ht'
    exact Exact.take (s := s) hnodup hs.sound.consistent (hs.exact t ht) htaken
  | @poll t t₁ ht hpoll =>
    cases ht'
    exact (hs.exact t ht).poll (hok t ht) hpoll

namespace InOrder

variable (hs : InOrder ids s) {t : SubscribeStream} (ht : t ∈ s.stream)
include hs ht

/-- Nothing of a distribution follows its terminal frame: frames of the copy are of different
distributions, those of the channel of others, in order. -/
theorem last : t.delivered.Pairwise After := by
  obtain ⟨shown, hdelivered, hids⟩ := (hs.exact t ht).parts
  have hnodup := (hs.exact t ht).copied.1
  have hshown : ∀ p ∈ shown, p.distributionId ∈ t.snapshotTerminalIds := by
    intro p hp
    rw [← hids]
    exact mem_map_of_mem (mem_append_left _ hp)
  rw [hdelivered, pairwise_append]
  refine ⟨?_, ?_, fun p hp q hq _ heq => ?_⟩
  · rw [← hids, map_append] at hnodup
    have hfirst := (nodup_append.1 hnodup).1
    exact (pairwise_map.1 hfirst).imp fun hne _ heq => hne heq.symm
  · refine hs.ordered.sent.sublist (List.Sublist.trans filter_sublist ?_)
    exact (drop_sublist _ _).trans (take_sublist _ _)
  · have hother := (mem_filter.1 hq).2
    simp only [decide_eq_true_eq] at hother
    exact hother (heq ▸ hshown p hp)

theorem once (id : String) : terminalFrames t id ≤ 1 := by
  -- of two terminal frames of one distribution, neither may come after the other
  have hnone : (t.delivered.filter fun p => p.isTerminal && decide (p.distributionId = id)).Pairwise
      fun _ _ => False := by
    refine ((hs.last ht).filter _).imp_of_mem fun {p q} hp hq hafter => ?_
    obtain ⟨hterminal, hpid⟩ : p.isTerminal = true ∧ p.distributionId = id := by
      simpa using (mem_filter.1 hp).2
    obtain ⟨-, hqid⟩ : q.isTerminal = true ∧ q.distributionId = id := by
      simpa using (mem_filter.1 hq).2
    exact hafter hterminal (hqid.trans hpid.symm)
  rw [terminalFrames, countP_eq_length_filter]
  match hl : t.delivered.filter fun p => p.isTerminal && decide (p.distributionId = id) with
  | [] | [_] =>
    rw [hl]
    simp
  | p :: q :: rest =>
    rw [hl] at hnone
    exact ((pairwise_cons.1 hnone).1 q mem_cons_self).elim

theorem one_of_told {id : String} (htold : Told t id) : terminalFrames t id = 1 := by
  refine le_antisymm (hs.once ht id) ?_
  obtain ⟨p, hp, hid, hterminal⟩ := htold
  exact countP_pos_iff.2 ⟨p, hp, by simp [hid, hterminal]⟩

/-- As many terminal frames of different distributions as there are distributions
are one for each. -/
theorem told_of_closed (htaken : t.taken = true) (hclosed : t.closed = true) {id : String}
    (hid : id ∈ ids) : Told t id := by
  have hexact := hs.exact t ht
  obtain ⟨htotal, hclosing⟩ := hexact.closing htaken
  let ended := (t.delivered.filter (·.isTerminal)).map (·.distributionId)
  have hnodup : ended.Nodup := by
    have hlast := (hs.last ht).filter (·.isTerminal)
    refine pairwise_map.2 (hlast.imp_of_mem fun {p q} hp _ hafter => ?_)
    exact (hafter (by simpa using (mem_filter.1 hp).2)).symm
  have hsub : ended ⊆ ids := by
    intro d hd
    obtain ⟨p, hp, rfl⟩ := mem_map.1 hd
    obtain ⟨shown, hdelivered, hids⟩ := hexact.parts
    have hmem := (mem_filter.1 hp).1
    rw [hdelivered] at hmem
    rcases mem_append.1 hmem with hmem | hmem
    · apply hexact.copied.2
      rw [← hids]
      exact mem_map_of_mem (mem_append_left _ hmem)
    · have hsent := mem_of_mem_take (mem_of_mem_drop (mem_filter.1 hmem).1)
      exact hs.sound.consistent.named p (.inl hsent)
  have hlength : ids.length ≤ ended.length := by
    rw [length_map, ← countP_eq_length_filter, ← hexact.counted, ← htotal]
    exact hclosing.1 hclosed
  have hperm := (subperm_of_subset hnodup hsub).perm_of_length_le hlength
  obtain ⟨p, hp, rfl⟩ := mem_map.1 (hperm.mem_iff.2 hid)
  obtain ⟨hmem, hterminal⟩ := mem_filter.1 hp
  exact ⟨p, hmem, rfl, hterminal⟩

end InOrder

/-- **The stream keeps its contract** in every run in which an update finds its distribution
running and no other frame of it on its way, and the receiver does not lag. -/
theorem stream_contract (slots : List PerDistributionProgress) (hfresh : Fresh slots)
    (hnodup : (idsOf slots).Nodup) (events : List FeedEvent) (s : Feed)
    (hok : Lts.Along (step (idsOf slots)) Orderly (start slots) events)
    (hrun : Lts.exec (step (idsOf slots)) (start slots) events = some s) :
    ∀ t ∈ s.stream, t.taken = true → Contract (idsOf slots) s t := by
  have hstart : InOrder (idsOf slots) (start slots) :=
    ⟨⟨rfl, .init hfresh, nofun⟩, ⟨by simp [start, BundleRuntime.new, new], by simp [start, pending],
      by simp [start, pending]⟩, nofun⟩
  have hs : InOrder (idsOf slots) s :=
    Lts.exec_invariant (InOrder (idsOf slots)) (fun _ _ _ hs hok h => hs.turn hnodup hok (.of_step h))
      hstart hok hrun
  intro t ht htaken
  refine ⟨hs.once ht, hs.last ht, fun hsettled hdrained id hid => ?_, fun hclosed id hid => ?_⟩
  · exact hs.one_of_told ht (hs.sound.told ht hsettled hdrained hid)
  · exact hs.one_of_told ht (hs.told_of_closed ht htaken hclosed hid)

/-! ### Samples -/

/-- `"a"` ends before the copy, `"b"` after it. -/
def attentiveReader : List FeedEvent :=
  inTurn 0 [observed 0 .inProgress] ++ [.subscribe] ++ inTurn 1 [observed 0 .completed] ++
    [.snapshot, .poll, .poll] ++
    inTurn 2 [observed 1 .inProgress, applyCancellation 1 (frameOf "b" .cancelled)] ++ [.poll, .poll]

theorem attentiveReader_contract :
    ∃ s ∈ Lts.exec (step (idsOf twoSlots)) (start twoSlots) attentiveReader, ∃ t ∈ s.stream,
      (t.taken = true ∧ t.closed = true ∧ t.delivered =
        [frameOf "a" .completed, frameOf "b" .inProgress, frameOf "b" .cancelled]) ∧
      Contract (idsOf twoSlots) s t :=
  Lts.exists_mem_mem_and (by decide +kernel) fun s t hrun ht hend =>
    stream_contract twoSlots (by unfold Fresh; decide) (by decide) attentiveReader s (by decide +kernel)
      hrun t ht hend.1

/-- `"a"` fails and is cancelled afterwards. -/
def relabelled : List FeedEvent :=
  [.subscribe, .snapshot] ++ inTurn 0 [observed 0 .failed, applyCancellation 0 (frameOf "a" .cancelled)] ++
    [.poll, .poll]

/-- `"a"` is cancelled between a write and its send. -/
def overtaking : List FeedEvent :=
  [.subscribe, .snapshot, .begin (observed 0 .inProgress), .advance 0] ++
    inTurn 1 [applyCancellation 0 (frameOf "a" .cancelled)] ++ [.advance 0, .advance 0, .poll, .poll]

/-- **The contract is broken without a lag**: a failed distribution that is cancelled has two
terminal frames and ends the stream before the other has ended; and a progress frame can follow
the terminal one. -/
theorem relabelled_ends_early :
    (∃ s ∈ Lts.exec (step (idsOf twoSlots)) (start twoSlots) relabelled,
      ∃ t ∈ s.stream, t.delivered = [frameOf "a" .failed, frameOf "a" .cancelled] ∧ t.closed = true ∧
        terminalFrames t "a" = 2 ∧ terminalFrames t "b" = 0) ∧
    ∃ s ∈ Lts.exec (step (idsOf twoSlots)) (start twoSlots) overtaking,
      ∃ t ∈ s.stream, t.delivered = [frameOf "a" .cancelled, frameOf "a" .inProgress] ∧
        ¬ t.delivered.Pairwise After := by
  constructor <;> decide +kernel

end PeatNode.Attachments.Feed
