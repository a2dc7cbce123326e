/-
# The progress stream of a bundle

`subscribe_attachment_bundle` of `src/attachments/handlers.rs` against the updates of the bundle's
runtime.  The handler attaches a receiver, then copies the slots.  Its stream gives the last frame
of every distribution that had ended in the copy, then the frames of the channel for the others,
and closes when as many terminal frames have gone out as there are distributions.  A lag of the
receiver is skipped silently.

A frame that a slot has already may still be on its way to the channel (`Feed.pending`).
-/

import PeatNode.Attachments.Runtime

namespace PeatNode.Attachments

open Broadcast List Channel

/-! ### The stream -/

/-- The stream, once the receiver is attached; `taken` says that the slots have been copied, and
there is nothing to poll before. -/
structure SubscribeStream where
  start : ℕ
  next : ℕ
  taken : Bool
  snapshotFrames : List AttachmentProgress
  snapshotTerminalIds : List String
  terminalCount : ℕ
  total : ℕ
  closed : Bool
  delivered : List AttachmentProgress

/-- What the handler makes of a copy. -/
def snapshotFrames (slots : List PerDistributionProgress) : List AttachmentProgress :=
  (slots.filter fun slot => slot.state.isTerminal).map (·.lastProgress)

namespace SubscribeStream

/-- `runtime.subscribe()`. -/
def attach (rt : BundleRuntime) : SubscribeStream :=
  ⟨rt.progressTx.sent.length, rt.progressTx.sent.length, false, [], [], 0, 0, false, []⟩

/-- The copy, and the stream made of it. -/
def take (t : SubscribeStream) (rt : BundleRuntime) : SubscribeStream :=
  { t with
    taken := true
    snapshotFrames := Attachments.snapshotFrames rt.perDistribution
    snapshotTerminalIds := (Attachments.snapshotFrames rt.perDistribution).map (·.distributionId)
    total := rt.totalDistributions
    closed := rt.totalDistributions = 0 }

/-- A frame goes through the `StreamCloser`. -/
def deliver (t : SubscribeStream) (p : AttachmentProgress) : SubscribeStream :=
  let terminalCount := if p.isTerminal then t.terminalCount + 1 else t.terminalCount
  { t with
    delivered := t.delivered ++ [p]
    terminalCount
    closed := p.isTerminal && decide (t.total ≤ terminalCount) }

/-- `none`: ended, or nothing there yet. -/
def poll (t : SubscribeStream) (c : Channel AttachmentProgress) : Option SubscribeStream :=
  if t.taken = false ∨ t.closed = true then none
  else match t.snapshotFrames with
    | p :: rest => some ({ t with snapshotFrames := rest }.deliver p)
    | [] =>
      match c.recv t.next with
      | (.message p, next) =>
        if p.distributionId ∈ t.snapshotTerminalIds then some { t with next }
        else some ({ t with next }.deliver p)
      | (.lagged _, next) => some { t with next }
      | (.wait, _) | (.closed, _) => none

inductive Polled (t : SubscribeStream) (c : Channel AttachmentProgress) : SubscribeStream → Prop
  | frame {p : AttachmentProgress} {rest : List AttachmentProgress}
      (hframes : t.snapshotFrames = p :: rest) :
      Polled t c ({ t with snapshotFrames := rest }.deliver p)
  | suppressed {p : AttachmentProgress} (hframes : t.snapshotFrames = []) (hold : c.oldest ≤ t.next)
      (hp : c.sent[t.next]? = some p) (hid : p.distributionId ∈ t.snapshotTerminalIds) :
      Polled t c { t with next := t.next + 1 }
  | live {p : AttachmentProgress} (hframes : t.snapshotFrames = []) (hold : c.oldest ≤ t.next)
      (hp : c.sent[t.next]? = some p) (hid : p.distributionId ∉ t.snapshotTerminalIds) :
      Polled t c ({ t with next := t.next + 1 }.deliver p)
  | lagged (hframes : t.snapshotFrames = []) (hlag : t.next < c.oldest) :
      Polled t c { t with next := c.oldest }

theorem Polled.of_poll (h : t.poll c = some t') :
    t.taken = true ∧ t.closed = false ∧ Polled t c t' := by
  unfold poll at h
  split_ifs at h with hopen
  obtain ⟨htaken, hclosed⟩ := not_or.1 hopen
  refine ⟨by simpa using htaken, by simpa using hclosed, ?_⟩
  split at h
  · next p rest hframes =>
    cases h
    exact .frame hframes
  · next hframes =>
    by_cases hlag : t.next < c.oldest
    · rw [recv_of_lt_oldest hlag] at h
      cases h
      exact .lagged hframes hlag
    · have hold : c.oldest ≤ t.next := Nat.not_lt.1 hlag
      cases hp : c.sent[t.next]? with
      | none =>
        rw [recv_of_none hold hp] at h
        cases hclosed : c.closed <;> simp [hclosed] at h
      | some p =>
        rw [recv_of_some hold hp] at h
        simp only at h
        split_ifs at h with hid
        · cases h
          exact .suppressed hframes hold hp hid
        · cases h
          exact .live hframes hold hp hid

end SubscribeStream

/-! ### The feed -/

structure Feed where
  runtime : BundleRuntime
  calls : List UpdateCall
  stream : Option SubscribeStream

inductive FeedEvent
  | begin (u : Update)
  | advance (i : ℕ)
  | subscribe
  | snapshot
  | poll

namespace Feed

def start (slots : List PerDistributionProgress) : Feed := ⟨.new slots, [], none⟩

/-- Frames the channel has not had yet. -/
def pending (s : Feed) : List AttachmentProgress := s.calls.filterMap UpdateCall.pending

variable (ids : List String)

def step (s : Feed) : FeedEvent → Option Feed
  | .begin u => if u.Concerns ids then some { s with calls := s.calls ++ [⟨u, .writing⟩] } else none
  | .advance i =>
    match s.calls[i]? with
    | none => none
    | some c =>
      (UpdateCall.advance s.runtime c).map fun r =>
        { s with runtime := r.1, calls := s.calls.set i r.2 }
  | .subscribe => some { s with stream := some (.attach s.runtime) }
  | .snapshot =>
    match s.stream with
    | none => none
    | some t => if t.taken then none else some { s with stream := some (t.take s.runtime) }
  | .poll =>
    match s.stream with
    | none => none
    | some t => (t.poll s.runtime.progressTx).map fun t' => { s with stream := some t' }

/-! ### What a step does -/

/-- The steps by what they do to slots, pending frames and channel. -/
inductive Turn (s : Feed) : FeedEvent → Feed → Prop
  | silent {event : FeedEvent} {runtime : BundleRuntime} {calls : List UpdateCall}
      (hslots : runtime.perDistribution = s.runtime.perDistribution)
      (htotal : runtime.totalDistributions = s.runtime.totalDistributions)
      (hsent : runtime.progressTx = s.runtime.progressTx)
      (hpending : calls.filterMap UpdateCall.pending = s.pending)
      (hcalls : ∀ c ∈ calls, (∃ c' ∈ s.calls, c.update = c'.update) ∨ c.update.Concerns ids) :
      Turn s event { s with runtime, calls }
  | written {i : ℕ} {c : UpdateCall} {slot : PerDistributionProgress} {calls : List UpdateCall}
      (before after : List AttachmentProgress) (hc : s.calls[i]? = some c) (hpc : c.pc = .writing)
      (hslot : s.runtime.perDistribution[c.update.fileIndex]? = some slot)
      (hkeeps : c.update.keeps slot.state = false)
      (hold : s.pending = before ++ after)
      (hnew : calls.filterMap UpdateCall.pending = before ++ c.update.progress :: after)
      (hcalls : ∀ c ∈ calls, ∃ c' ∈ s.calls, c.update = c'.update) :
      Turn s (.advance i) { s with
        runtime := { s.runtime with
          perDistribution := s.runtime.perDistribution.set c.update.fileIndex c.update.slot }
        calls }
  | sent {i : ℕ} {progress : AttachmentProgress} {calls : List UpdateCall}
      (before after : List AttachmentProgress)
      (hold : s.pending = before ++ progress :: after)
      (hnew : calls.filterMap UpdateCall.pending = before ++ after)
      (hcalls : ∀ c ∈ calls, ∃ c' ∈ s.calls, c.update = c'.update) :
      Turn s (.advance i) { s with runtime := s.runtime.send progress, calls }
  | subscribe : Turn s .subscribe { s with stream := some (.attach s.runtime) }
  | snapshot {t : SubscribeStream} (ht : s.stream = some t) (htaken : t.taken = false) :
      Turn s .snapshot { s with stream := some (t.take s.runtime) }
  | poll {t t' : SubscribeStream} (ht : s.stream = some t)
      (hpoll : t.poll s.runtime.progressTx = some t') :
      Turn s .poll { s with stream := some t' }

variable {ids} {s s' : Feed} {event : FeedEvent}

theorem Turn.of_step (h : step ids s event = some s') : Turn ids s event s' := by
  cases event with
  | begin u =>
    simp only [step] at h
    split_ifs at h with hu
    cases h
    refine .silent rfl rfl rfl (by simp [pending, UpdateCall.pending]) ?_
    intro c hc
    rcases mem_append.1 hc with hc | hc
    · exact .inl ⟨c, hc, rfl⟩
    · obtain rfl := mem_singleton.1 hc
      exact .inr hu
  | advance i =>
    simp only [step] at h
    split at h
    · nomatch h
    · next c hc =>
      obtain ⟨⟨rt', c'⟩, hadvance, rfl⟩ := Option.map_eq_some_iff.1 h
      have hturn := UpdateCall.Turn.of_advance hadvance
      obtain ⟨l₁, l₂, hsplit, hset⟩ := exists_set_split hc
      have hcalls : ∀ d ∈ s.calls.set i c', ∃ d' ∈ s.calls, d.update = d'.update := by
        intro d hd
        rcases mem_or_eq_of_mem_set hd with hd | rfl
        · exact ⟨d, hd, rfl⟩
        · exact ⟨c, mem_of_getElem? hc, hturn.update⟩
      have hpending : s.pending = l₁.filterMap UpdateCall.pending ++
          (c.pending.toList ++ l₂.filterMap UpdateCall.pending) := by
        rw [pending, hsplit, filterMap_append, filterMap_cons]
        cases c.pending <;> rfl
      have hpending' : (s.calls.set i c').filterMap UpdateCall.pending =
          l₁.filterMap UpdateCall.pending ++
            (c'.pending.toList ++ l₂.filterMap UpdateCall.pending) := by
        rw [hset, filterMap_append, filterMap_cons]
        cases c'.pending <;> rfl
      cases hturn with
      | refused hpc hkeeps =>
        refine .silent rfl rfl rfl ?_ fun d hd => .inl (hcalls d hd)
        rw [hpending', hpending]
        simp [UpdateCall.pending, UpdateCall.goto, hpc]
      | written hpc hslot hkeeps =>
        refine .written (l₁.filterMap UpdateCall.pending) (l₂.filterMap UpdateCall.pending) hc hpc
          hslot hkeeps ?_ ?_ hcalls
        · rw [hpending]
          simp [UpdateCall.pending, hpc]
        · rw [hpending']
          simp [UpdateCall.pending, UpdateCall.goto]
      | counted hpc =>
        refine .silent (by simp) (by simp) (by simp) ?_ fun d hd => .inl (hcalls d hd)
        rw [hpending', hpending]
        simp [UpdateCall.pending, UpdateCall.goto, hpc]
      | sent hpc =>
        refine .sent (l₁.filterMap UpdateCall.pending) (l₂.filterMap UpdateCall.pending) ?_ ?_
          hcalls
        · rw [hpending]
          simp [UpdateCall.pending, hpc]
        · rw [hpending']
          simp [UpdateCall.pending, UpdateCall.goto]
  | subscribe =>
    cases h
    exact .subscribe
  | snapshot =>
    simp only [step] at h
    split at h
    · nomatch h
    · next t ht =>
      split_ifs at h with htaken
      cases h
      exact .snapshot ht (by simpa using htaken)
  | poll =>
    simp only [step] at h
    split at h
    · nomatch h
    · next t ht =>
      obtain ⟨t', hpoll, rfl⟩ := Option.map_eq_some_iff.1 h
      exact .poll ht hpoll

theorem Turn.capacity (h : Turn ids s event s') :
    s'.runtime.progressTx.capacity = s.runtime.progressTx.capacity := by
  cases h with
  | silent _ _ hsent => rw [hsent]
  | written | sent | subscribe | snapshot | poll => rfl

/-! ### Slots and frames -/

def Fresh (slots : List PerDistributionProgress) : Prop :=
  ∀ slot ∈ slots, slot.state = .pending ∧ slot.lastProgress.status = .pending

def idsOf (slots : List PerDistributionProgress) : List String :=
  slots.map (·.lastProgress.distributionId)

/-- The frame has been written to its slot. -/
def Emitted (s : Feed) (p : AttachmentProgress) : Prop :=
  p ∈ s.runtime.progressTx.sent ∨ p ∈ s.pending

/-- A distribution has ended exactly if a terminal frame of it was emitted. -/
structure Consistent (ids : List String) (s : Feed) : Prop where
  slotIds : idsOf s.runtime.perDistribution = ids
  total : s.runtime.totalDistributions = ids.length
  states : ∀ slot ∈ s.runtime.perDistribution,
    slot.state = aggregatedToDistributionState slot.lastProgress.status
  calls : ∀ c ∈ s.calls, c.update.Concerns ids
  named : ∀ p, s.Emitted p → p.distributionId ∈ ids
  running : ∀ (j : ℕ) slot, s.runtime.perDistribution[j]? = some slot → slot.state.isTerminal = false →
    ∀ p, s.Emitted p → p.distributionId = slot.lastProgress.distributionId → p.isTerminal = false
  ended : ∀ (j : ℕ) slot, s.runtime.perDistribution[j]? = some slot → slot.state.isTerminal = true →
    ∃ p, s.Emitted p ∧ p.distributionId = slot.lastProgress.distributionId ∧ p.isTerminal = true

variable {slots : List PerDistributionProgress}

theorem Consistent.init (hfresh : Fresh slots) : Consistent (idsOf slots) (start slots) where
  slotIds := rfl
  total := by simp [start, BundleRuntime.new, idsOf]
  states slot hslot := by
    obtain ⟨hstate, hstatus⟩ := hfresh slot hslot
    rw [hstate, hstatus]
    rfl
  calls := by simp [start]
  named p hp := by simp [Emitted, start, BundleRuntime.new, new, pending] at hp
  running _ _ _ _ p hp := by simp [Emitted, start, BundleRuntime.new, new, pending] at hp
  ended j slot hslot hterminal := by
    rw [(hfresh slot (mem_of_getElem? hslot)).1] at hterminal
    nomatch hterminal

namespace Consistent

variable (hs : Consistent ids s)
include hs

theorem id_of_slot {j : ℕ} (h : s.runtime.perDistribution[j]? = some slot) :
    ids[j]? = some slot.lastProgress.distributionId := by
  rw [← hs.slotIds, idsOf, getElem?_map, h]
  rfl

theorem slot_of_id {id : String} (h : id ∈ ids) :
    ∃ (j : ℕ) (slot : PerDistributionProgress), s.runtime.perDistribution[j]? = some slot ∧
      slot.lastProgress.distributionId = id := by
  rw [← hs.slotIds] at h
  obtain ⟨slot, hslot, rfl⟩ := mem_map.1 h
  obtain ⟨j, hj⟩ := mem_iff_getElem?.1 hslot
  exact ⟨j, slot, hj, rfl⟩

/-- Frames and slots are all that matters, and which call has the frame does not. -/
theorem of_emitted (hslots : s'.runtime.perDistribution = s.runtime.perDistribution)
    (htotal : s'.runtime.totalDistributions = s.runtime.totalDistributions)
    (hcalls : ∀ c ∈ s'.calls, c.update.Concerns ids) (hemitted : ∀ p, s'.Emitted p ↔ s.Emitted p) :
    Consistent ids s' where
  slotIds := by rw [hslots, hs.slotIds]
  total := by rw [htotal, hs.total]
  states := by
    rw [hslots]
    exact hs.states
  calls := hcalls
  named p hp := hs.named p ((hemitted p).1 hp)
  running j slot hslot hstate p hp := hs.running j slot (hslots ▸ hslot) hstate p ((hemitted p).1 hp)
  ended j slot hslot hstate := by
    obtain ⟨p, hp, hboth⟩ := hs.ended j slot (hslots ▸ hslot) hstate
    exact ⟨p, (hemitted p).2 hp, hboth⟩

theorem write {u : Update} (hnodup : ids.Nodup) (hu : u.Concerns ids)
    (hslot : s.runtime.perDistribution[u.fileIndex]? = some slot)
    (hkeeps : u.keeps slot.state = false)
    (hslots : s'.runtime.perDistribution = s.runtime.perDistribution.set u.fileIndex u.slot)
    (htotal : s'.runtime.totalDistributions = s.runtime.totalDistributions)
    (hcalls : ∀ c ∈ s'.calls, c.update.Concerns ids)
    (hemitted : ∀ p, s'.Emitted p ↔ s.Emitted p ∨ p = u.progress) : Consistent ids s' := by
  have hid : slot.lastProgress.distributionId = u.progress.distributionId :=
    Option.some.inj ((hs.id_of_slot hslot).symm.trans hu.slot)
  -- a slot elsewhere belongs to another distribution
  have hother : ∀ {j : ℕ} {slot' : PerDistributionProgress}, j ≠ u.fileIndex →
      s.runtime.perDistribution[j]? = some slot' →
      u.progress.distributionId ≠ slot'.lastProgress.distributionId := by
    intro j slot' hj hslot' heq
    have hj' := hs.id_of_slot hslot'
    rw [← heq, ← hu.slot] at hj'
    have hlt := (List.getElem?_eq_some_iff.1 (hs.id_of_slot hslot')).1
    exact hj ((List.getElem?_inj hlt hnodup).1 hj')
  have hterminal := hu.isTerminal
  refine ⟨?_, by rw [htotal, hs.total], ?_, hcalls, ?_, ?_, ?_⟩
  · obtain ⟨hlt, hget⟩ := List.getElem?_eq_some_iff.1 hu.slot
    have hsame : idsOf (s.runtime.perDistribution.set u.fileIndex u.slot) =
        ids.set u.fileIndex u.progress.distributionId := by
      rw [← hs.slotIds, idsOf, map_set, idsOf]
      rfl
    rw [hslots, hsame, ← hget, set_getElem_self]
  · intro slot' hslot'
    obtain ⟨j, hj⟩ := mem_iff_getElem?.1 (hslots ▸ hslot')
    obtain ⟨-, rfl⟩ | ⟨-, hold⟩ := getElem?_set_cases hj
    · exact hu.state
    · exact hs.states slot' (mem_of_getElem? hold)
  · intro p hp
    rcases (hemitted p).1 hp with hp | rfl
    · exact hs.named p hp
    · exact mem_of_getElem? hu.slot
  · intro j slot' hslot' hstate p hp hpid
    obtain ⟨rfl, rfl⟩ | ⟨hj, hold⟩ := getElem?_set_cases (hslots ▸ hslot')
    · -- what is not terminal has not replaced a terminal state
      have hbefore : slot.state.isTerminal = false := by
        by_contra hne
        have := Update.isTerminal_of_keeps hu.cancelled hkeeps (by simpa using hne)
        simp [Update.slot, this] at hstate
      rcases (hemitted p).1 hp with hp | rfl
      · exact hs.running _ slot hslot hbefore p hp (hpid.trans hid.symm)
      · rw [← hterminal]
        exact hstate
    · rcases (hemitted p).1 hp with hp | rfl
      · exact hs.running j slot' hold hstate p hp hpid
      · exact absurd hpid (hother hj hold)
  · intro j slot' hslot' hstate
    obtain ⟨rfl, rfl⟩ | ⟨hj, hold⟩ := getElem?_set_cases (hslots ▸ hslot')
    · exact ⟨u.progress, (hemitted _).2 (.inr rfl), rfl, hterminal ▸ hstate⟩
    · obtain ⟨p, hp, hboth⟩ := hs.ended j slot' hold hstate
      exact ⟨p, (hemitted p).2 (.inl hp), hboth⟩

theorem turn (hnodup : ids.Nodup) (h : Turn ids s event s') : Consistent ids s' := by
  have hkept : ∀ {calls : List UpdateCall}, (∀ c ∈ calls, ∃ c' ∈ s.calls, c.update = c'.update) →
      ∀ c ∈ calls, c.update.Concerns ids := by
    intro calls hcalls c hc
    obtain ⟨c', hc', heq⟩ := hcalls c hc
    exact heq ▸ hs.calls c' hc'
  cases h with
  | silent hslots htotal hsent hpending hcalls =>
    refine hs.of_emitted hslots htotal (fun c hc => ?_) fun p => ?_
    · rcases hcalls c hc with ⟨c', hc', heq⟩ | hconcerns
      · exact heq ▸ hs.calls c' hc'
      · exact hconcerns
    · rw [Emitted, Emitted, hsent, pending, hpending]
  | written before after hc hpc hslot hkeeps hold hnew hcalls =>
    refine hs.write hnodup (hs.calls _ (mem_of_getElem? hc)) hslot hkeeps rfl rfl (hkept hcalls)
      fun p => ?_
    rw [Emitted, Emitted, pending, hnew, hold]
    simp only [mem_append, mem_cons]
    tauto
  | sent before after hold hnew hcalls =>
    refine hs.of_emitted rfl rfl (hkept hcalls) fun p => ?_
    rw [Emitted, Emitted, pending, hnew, hold]
    simp only [BundleRuntime.send, send, mem_append, mem_cons, not_mem_nil, or_false]
    tauto
  | subscribe | snapshot | poll => exact hs.of_emitted rfl rfl hs.calls fun _ => Iff.rfl

end Consistent

/-! ### What the stream has caught -/

def Told (t : SubscribeStream) (id : String) : Prop :=
  ∃ p ∈ t.delivered, p.distributionId = id ∧ p.isTerminal = true
deriving Decidable

variable {t : SubscribeStream}

theorem Told.deliver {id : String} (h : Told t id) (p : AttachmentProgress) :
    Told (t.deliver p) id := by
  obtain ⟨q, hq, hboth⟩ := h
  exact ⟨q, mem_append_left _ hq, hboth⟩

theorem told_deliver_self (h : p.isTerminal = true) : Told (t.deliver p) p.distributionId :=
  ⟨p, mem_append_right _ mem_cons_self, rfl, h⟩

/-- Every terminal frame of the copy has gone out or will, and so has every other one that the
receiver is past. -/
structure Caught (c : Channel AttachmentProgress) (t : SubscribeStream) : Prop where
  next_le : t.next ≤ c.sent.length
  copied : ∀ id ∈ t.snapshotTerminalIds, Told t id ∨
    ∃ p ∈ t.snapshotFrames, p.distributionId = id ∧ p.isTerminal = true
  passed : t.taken = true → ∀ p ∈ c.sent.take t.next, p.isTerminal = true →
    p.distributionId ∉ t.snapshotTerminalIds → Told t p.distributionId

/-- A lag skips no terminal frame that is still due. -/
def NoTerminalMissed (s : Feed) : FeedEvent → Prop
  | .poll => ∀ t ∈ s.stream, t.snapshotFrames = [] →
      ∀ p ∈ s.runtime.progressTx.missed t.next, p.isTerminal = true →
        p.distributionId ∈ t.snapshotTerminalIds
  | .begin _ | .advance _ | .subscribe | .snapshot => True

/-- The receiver keeps up: at every poll fewer frames than the channel retains were sent behind an
unread terminal frame, except of distributions that had ended in the copy. -/
def Timely (s : Feed) : FeedEvent → Prop
  | .poll => ∀ t ∈ s.stream, ∀ i < s.runtime.progressTx.sent.length, t.next ≤ i →
      ∀ p ∈ s.runtime.progressTx.sent[i]?, p.isTerminal = true →
        p.distributionId ∉ t.snapshotTerminalIds →
          (s.runtime.progressTx.sent.drop (i + 1)).length < progressBacklog
  | .begin _ | .advance _ | .subscribe | .snapshot => True

instance (s : Feed) (event : FeedEvent) : Decidable (Timely s event) := by
  cases event <;> unfold Timely <;> infer_instance

/-- What `Timely` asks for is retained by a channel of `progressBacklog` frames. -/
theorem Timely.noTerminalMissed (h : Timely s event)
    (hcap : s.runtime.progressTx.capacity = progressBacklog) : NoTerminalMissed s event := by
  cases event with
  | poll =>
    intro t ht _ p hp hterminal
    by_contra hid
    obtain ⟨i, hle, hi, hbehind⟩ := exists_of_mem_missed hp
    have hlt := h t ht i (List.getElem?_eq_some_iff.1 hi).1 hle p hi hterminal hid
    omega
  | begin | advance | subscribe | snapshot => trivial

namespace Caught

variable {c c' : Channel AttachmentProgress} {t t' : SubscribeStream}

theorem attach (rt : BundleRuntime) : Caught rt.progressTx (.attach rt) where
  next_le := le_rfl
  copied := nofun
  passed := nofun

/-- The copy holds every distribution of which a terminal frame is in the channel
already. -/
theorem take (hs : Consistent ids s) (ht : Caught s.runtime.progressTx t) :
    Caught s.runtime.progressTx (t.take s.runtime) where
  next_le := ht.next_le
  copied id hid := by
    obtain ⟨p, hp, rfl⟩ := mem_map.1 hid
    obtain ⟨slot, hslot, rfl⟩ := mem_map.1 hp
    obtain ⟨hmem, hterminal⟩ := mem_filter.1 hslot
    refine .inr ⟨_, hp, rfl, ?_⟩
    rw [AttachmentProgress.isTerminal, ← isTerminal_aggregated, ← hs.states slot hmem]
    exact hterminal
  passed _ p hp hterminal hid := by
    have hemitted : s.Emitted p := .inl (mem_of_mem_take hp)
    obtain ⟨j, slot, hslot, heq⟩ := hs.slot_of_id (hs.named p hemitted)
    cases hstate : slot.state.isTerminal with
    | false =>
      have := hs.running j slot hslot hstate p hemitted heq.symm
      simp [this] at hterminal
    | true =>
      refine absurd (mem_map.2 ⟨slot.lastProgress, mem_map.2 ⟨slot, ?_, rfl⟩, heq⟩) hid
      exact mem_filter.2 ⟨mem_of_getElem? hslot, hstate⟩

theorem grow (ht : Caught c t) (more : List AttachmentProgress) (hsent : c'.sent = c.sent ++ more) :
    Caught c' t where
  next_le := by
    rw [hsent, length_append]
    have := ht.next_le
    omega
  copied := ht.copied
  passed htaken p hp := by
    rw [hsent, take_append_of_le_length ht.next_le] at hp
    exact ht.passed htaken p hp

theorem poll (ht : Caught c t)
    (hok : t.snapshotFrames = [] → ∀ p ∈ c.missed t.next, p.isTerminal = true →
      p.distributionId ∈ t.snapshotTerminalIds) (hpoll : t.poll c = some t') : Caught c t' := by
  obtain ⟨htaken, -, hpolled⟩ := SubscribeStream.Polled.of_poll hpoll
  cases hpolled with
  | @frame p rest hframes =>
    refine ⟨ht.next_le, fun id hid => ?_, fun _ q hq hterminal hnot => ?_⟩
    · rcases ht.copied id hid with htold | ⟨q, hq, hqid, hterminal⟩
      · exact .inl (htold.deliver p)
      · rw [hframes] at hq
        rcases mem_cons.1 hq with rfl | hq
        · exact .inl (hqid ▸ told_deliver_self hterminal)
        · exact .inr ⟨q, hq, hqid, hterminal⟩
    · exact (ht.passed htaken q hq hterminal hnot).deliver p
  | suppressed hframes hold hp hid =>
    obtain ⟨hlt, rfl⟩ := List.getElem?_eq_some_iff.1 hp
    refine ⟨hlt, ht.copied, fun _ q hq hterminal hnot => ?_⟩
    rw [List.take_succ_eq_append_getElem hlt] at hq
    rcases mem_append.1 hq with hq | hq
    · exact ht.passed htaken q hq hterminal hnot
    · rw [mem_singleton.1 hq] at hnot
      exact absurd hid hnot
  | live hframes hold hp hid =>
    obtain ⟨hlt, rfl⟩ := List.getElem?_eq_some_iff.1 hp
    refine ⟨hlt, fun id hid => ?_, fun _ q hq hterminal hnot => ?_⟩
    · rcases ht.copied id hid with htold | hframe
      · exact .inl (htold.deliver _)
      · exact .inr hframe
    · have hq' : q ∈ c.sent.take t.next ++ [c.sent[t.next]] := by
        rw [← List.take_succ_eq_append_getElem hlt]
        exact hq
      rcases mem_append.1 hq' with hq | hq
      · exact (ht.passed htaken q hq hterminal hnot).deliver _
      · rw [mem_singleton.1 hq] at hterminal ⊢
        exact told_deliver_self hterminal
  | lagged hframes hlag =>
    refine ⟨?_, ht.copied, fun _ q hq hterminal hnot => ?_⟩
    · simp only [oldest]
      omega
    · rw [take_oldest hlag.le] at hq
      rcases mem_append.1 hq with hq | hq
      · exact ht.passed htaken q hq hterminal hnot
      · exact absurd (hok hframes q hq hterminal) hnot

end Caught

structure Sound (ids : List String) (s : Feed) : Prop where
  capacity : s.runtime.progressTx.capacity = progressBacklog
  consistent : Consistent ids s
  caught : ∀ t ∈ s.stream, Caught s.runtime.progressTx t

theorem Sound.turn (hnodup : ids.Nodup) (hs : Sound ids s) (hok : NoTerminalMissed s event)
    (h : Turn ids s event s') : Sound ids s' := by
  refine ⟨h.capacity.trans hs.capacity, hs.consistent.turn hnodup h, fun t' ht' => ?_⟩
  cases h with
  | silent hslots htotal hsent hpending hcalls =>
    exact (hs.caught t' ht').grow [] (by rw [hsent, append_nil])
  | written before after => exact hs.caught t' ht'
  | @sent i progress calls before after => exact (hs.caught t' ht').grow [progress] rfl
  | subscribe =>
    cases ht'
    exact .attach s.runtime
  | @snapshot t ht htaken =>
    cases ht'
    exact Caught.take (s := s) hs.consistent (hs.caught t ht)
  | @poll t t₁ ht hpoll =>
    cases ht'
    exact (hs.caught t ht).poll (hok t ht) hpoll

/-! ### Lag -/

/-- The stream has nothing left to give. -/
def Drained (s : Feed) (t : SubscribeStream) : Prop :=
  t.taken = true ∧ t.snapshotFrames = [] ∧ t.next = s.runtime.progressTx.sent.length
deriving Decidable

/-- All have ended, all frames are sent. -/
def Settled (s : Feed) : Prop := s.runtime.Ended ∧ s.pending = []
deriving Decidable

/-- It waits for a frame that will not come. -/
def Stuck (ids : List String) (s : Feed) (t : SubscribeStream) : Prop :=
  s.Settled ∧ s.Drained t ∧ t.closed = false ∧ ∃ id ∈ ids, ¬ Told t id
deriving Decidable

/-- A drained stream of a settled bundle has told of every distribution. -/
theorem Sound.told (hs : Sound ids s) (ht : t ∈ s.stream) (hsettled : s.Settled)
    (hdrained : s.Drained t) {id : String} (hid : id ∈ ids) : Told t id := by
  obtain ⟨hended, hnone⟩ := hsettled
  obtain ⟨htaken, hframes, hnext⟩ := hdrained
  have hcaught := hs.caught t ht
  by_cases hcopied : id ∈ t.snapshotTerminalIds
  · rcases hcaught.copied id hcopied with htold | ⟨p, hp, -⟩
    · exact htold
    · simp [hframes] at hp
  · obtain ⟨j, slot, hslot, rfl⟩ := hs.consistent.slot_of_id hid
    have hterminal := hended slot (mem_of_getElem? hslot)
    obtain ⟨p, hp, heq, hpterminal⟩ := hs.consistent.ended j slot hslot hterminal
    have hsent : p ∈ s.runtime.progressTx.sent := by
      rcases hp with hp | hp
      · exact hp
      · simp [hnone] at hp
    rw [← heq] at hcopied ⊢
    refine hcaught.passed htaken p ?_ hpterminal hcopied
    rw [hnext, take_length]
    exact hsent

theorem Sound.of_run (hfresh : Fresh slots) (hnodup : (idsOf slots).Nodup)
    (hok : Lts.Along (step (idsOf slots)) Timely (start slots) events)
    (hrun : Lts.exec (step (idsOf slots)) (start slots) events = some s) :
    Sound (idsOf slots) s := by
  have hstart : Sound (idsOf slots) (start slots) := ⟨rfl, .init hfresh, nofun⟩
  exact Lts.exec_invariant (Sound (idsOf slots))
    (fun _ _ _ hs hok h => hs.turn hnodup (hok.noTerminalMissed hs.capacity) (.of_step h))
    hstart hok hrun

/-- **No stream is stuck** in a run in which, whenever the receiver reads, at most 63 frames were
sent behind an unread terminal frame of a distribution that had not ended when the stream began. -/
theorem stream_not_stuck (slots : List PerDistributionProgress) (hfresh : Fresh slots)
    (hnodup : (idsOf slots).Nodup) (events : List FeedEvent) (s : Feed)
    (hok : Lts.Along (step (idsOf slots)) Timely (start slots) events)
    (hrun : Lts.exec (step (idsOf slots)) (start slots) events = some s) :
    ∀ t ∈ s.stream, ¬ Stuck (idsOf slots) s t := by
  rintro t ht ⟨hsettled, hdrained, -, id, hid, hnot⟩
  exact hnot ((Sound.of_run hfresh hnodup hok hrun).told ht hsettled hdrained hid)

/-! ### Samples -/

def frameOf (id : String) (status : DistributionStatus) : AttachmentProgress :=
  ⟨id, "blob", status, 0, 0, none⟩

def twoSlots : List PerDistributionProgress :=
  [⟨.pending, 0, 0, none, frameOf "a" .pending⟩, ⟨.pending, 0, 0, none, frameOf "b" .pending⟩]

def observed (fileIndex : ℕ) (status : DistributionStatus) : Update :=
  applyProgress fileIndex (aggregatedToDistributionState status)
    (frameOf (if fileIndex = 0 then "a" else "b") status)

/-- Updates one after the other, from call `k` on. -/
def inTurn (k : ℕ) : List Update → List FeedEvent
  | [] => []
  | u :: us => [.begin u, .advance k, .advance k, .advance k] ++ inTurn (k + 1) us

/-- It misses one progress frame of `"a"`. -/
def slowReader : List FeedEvent :=
  [.subscribe, .snapshot] ++ inTurn 0 (List.replicate 65 (observed 0 .inProgress)) ++
    List.replicate 65 .poll ++ inTurn 65 [observed 0 .completed, observed 1 .failed] ++ [.poll, .poll]

theorem slowReader_not_stuck :
    ∃ s ∈ Lts.exec (step (idsOf twoSlots)) (start twoSlots) slowReader, (s.Settled ∧
        ∃ t ∈ s.stream, s.Drained t ∧ t.delivered.length = 66 ∧ t.closed = true) ∧
      ∀ t ∈ s.stream, ¬ Stuck (idsOf twoSlots) s t :=
  Lts.exists_mem_and (by decide +kernel) fun s hrun _ =>
    stream_not_stuck twoSlots (by unfold Fresh; decide) (by decide) slowReader s (by decide +kernel)
      hrun

/-- It reads when both have ended. -/
def lateReader : List FeedEvent :=
  [.subscribe, .snapshot] ++
    inTurn 0 (observed 0 .completed :: List.replicate 63 (observed 1 .inProgress) ++
      [observed 1 .completed]) ++ List.replicate 65 .poll

/-- **Lag costs a terminal frame**: the end of `"a"` is pushed out of the channel by
the progress of `"b"`, and the stream stays open for ever. -/
theorem lateReader_stuck :
    ∃ s ∈ Lts.exec (step (idsOf twoSlots)) (start twoSlots) lateReader,
      ∃ t ∈ s.stream, Stuck (idsOf twoSlots) s t := by
  decide +kernel

end Feed

end PeatNode.Attachments
