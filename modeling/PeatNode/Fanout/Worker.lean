/-
# Closing the fanout queue

The two tasks around the queue: `sync_on_change` of `src/node.rs`, which enqueues the changes and
closes the queue when there are no more, and the worker (`PriorityFanout::run`).

| state of the worker | next step |
| --- | --- |
| `popping` | `pop` |
| `fanning` | the end of the fanout |
| `checking` | `closed.load` |
| `parking` | `notified().await` |
| `exited` | |

`enqueue` and `close` are two steps each: what they change, then `notify_one`.  If a change and the
close both fall between a `pop` that finds nothing and the look at `closed`, the worker exits with
the change pending.
-/

import PeatNode.Fanout.Queue

namespace PeatNode.Fanout

inductive ListenerPc
  | listening
  | enqueued
  | closing
  | returned
deriving DecidableEq

inductive WorkerPc
  | popping
  | fanning (docKey : String) (kind : FanoutKind)
  | checking
  | parking
  | exited
deriving DecidableEq

structure Relay where
  queue : Inner
  permit : Bool
  closed : Bool
  listener : ListenerPc
  worker : WorkerPc

inductive RelayLabel
  | enqueue (docKey : String) (kind : FanoutKind)
  | close
  | notify
  | pop
  | fanned
  | check
  | wake
deriving DecidableEq

namespace Relay

def start : Relay := ⟨.default, false, false, .listening, .popping⟩

variable (forCollection : String → ℕ)

def step (s : Relay) : RelayLabel → Option Relay
  | .enqueue docKey kind =>
    if s.listener = .listening then
      (s.queue.enqueue forCollection docKey kind).map fun queue =>
        -- a document that is pending already wakes nobody
        { s with
          queue
          listener := if (s.queue.entries.lookup docKey).isSome then .listening else .enqueued }
    else none
  | .close =>
    if s.listener = .listening then some { s with closed := true, listener := .closing } else none
  | .notify =>
    match s.listener with
    | .enqueued => some { s with permit := true, listener := .listening }
    | .closing => some { s with permit := true, listener := .returned }
    | .listening | .returned => none
  | .pop =>
    if s.worker = .popping then
      match s.queue.pop with
      | (some (docKey, kind), queue) => some { s with queue, worker := .fanning docKey kind }
      | (none, queue) => some { s with queue, worker := .checking }
    else none
  | .fanned =>
    match s.worker with
    | .fanning _ _ => some { s with worker := .popping }
    | .popping | .checking | .parking | .exited => none
  | .check =>
    if s.worker = .checking then
      some { s with worker := if s.closed then .exited else .parking }
    else none
  | .wake =>
    if s.worker = .parking ∧ s.permit = true then
      some { s with permit := false, worker := .popping }
    else none

inductive Turn (s : Relay) : RelayLabel → Relay → Prop
  | coalesced {docKey : String} {kind : FanoutKind} {queue : Inner} (hlistener : s.listener = .listening)
      (hold : (s.queue.entries.lookup docKey).isSome)
      (hqueue : s.queue.step forCollection (.enqueue docKey kind) = some queue) :
      Turn s (.enqueue docKey kind) { s with queue }
  | enqueued {docKey : String} {kind : FanoutKind} {queue : Inner} (hlistener : s.listener = .listening)
      (hnew : s.queue.entries.lookup docKey = none)
      (hqueue : s.queue.step forCollection (.enqueue docKey kind) = some queue) :
      Turn s (.enqueue docKey kind) { s with queue, listener := .enqueued }
  | closed (hlistener : s.listener = .listening) :
      Turn s .close { s with closed := true, listener := .closing }
  | notifiedEntry (hlistener : s.listener = .enqueued) :
      Turn s .notify { s with permit := true, listener := .listening }
  | notifiedClose (hlistener : s.listener = .closing) :
      Turn s .notify { s with permit := true, listener := .returned }
  | popped {docKey : String} {kind : FanoutKind} (hworker : s.worker = .popping)
      (hpop : s.queue.pop.1 = some (docKey, kind)) :
      Turn s .pop { s with queue := s.queue.pop.2, worker := .fanning docKey kind }
  | drained (hworker : s.worker = .popping) (hpop : s.queue.pop.1 = none) :
      Turn s .pop { s with queue := s.queue.pop.2, worker := .checking }
  | fanned {docKey : String} {kind : FanoutKind} (hworker : s.worker = .fanning docKey kind) :
      Turn s .fanned { s with worker := .popping }
  | exited (hworker : s.worker = .checking) (hclosed : s.closed = true) :
      Turn s .check { s with worker := .exited }
  | parked (hworker : s.worker = .checking) (hclosed : s.closed = false) :
      Turn s .check { s with worker := .parking }
  | woken (hworker : s.worker = .parking) (hpermit : s.permit = true) :
      Turn s .wake { s with permit := false, worker := .popping }

variable {forCollection} {s s' : Relay} {label : RelayLabel}

theorem Turn.of_step (h : s.step forCollection label = some s') : Turn forCollection s label s' := by
  cases label with
  | enqueue docKey kind =>
    simp only [step] at h
    split_ifs at h with hlistener hold
    · obtain ⟨queue, hqueue, rfl⟩ := Option.map_eq_some_iff.1 h
      rw [← hlistener]
      exact .coalesced hlistener hold hqueue
    · obtain ⟨queue, hqueue, rfl⟩ := Option.map_eq_some_iff.1 h
      exact .enqueued hlistener (Option.not_isSome_iff_eq_none.1 hold) hqueue
  | close | notify | pop | fanned | check | wake => grind [Turn, step]

/-! ### What becomes of the changes -/

/-- The entries inserted, what became of them, and those whose fanout is over. -/
structure Account where
  inserted : List Pending
  log : Inner.Log
  fanned : List Pending

def Account.empty : Account := ⟨[], .empty, []⟩

variable (forCollection) in
def Account.next (s : Relay) (label : RelayLabel) (s' : Relay) (a : Account) : Account :=
  match label with
  | .enqueue docKey kind =>
    { a with
      inserted := if (s.queue.entries.lookup docKey).isSome then a.inserted
        else a.inserted ++ [s.queue.offered forCollection docKey]
      log := a.log.next forCollection s.queue (.enqueue docKey kind) s'.queue }
  | .pop => { a with log := a.log.next forCollection s.queue .pop s'.queue }
  -- there is one worker, so everything that it has popped is fanned out by now
  | .fanned => { a with fanned := a.log.popped }
  | .close | .notify | .check | .wake => a

variable (forCollection) in
def accountOf (labels : List RelayLabel) : Account :=
  Lts.history (step forCollection) (Account.next forCollection) start .empty labels

/-- Every inserted entry is pending, popped or shed; what is popped is fanned out when the worker
is not at it. -/
structure Accounted (s : Relay) (a : Account) : Prop where
  sound : s.queue.Sound
  inserted : ∀ p ∈ a.inserted, Inner.Placed p s.queue a.log
  fanned : (∀ docKey kind, s.worker ≠ .fanning docKey kind) → a.log.popped ⊆ a.fanned

theorem Accounted.step (hs : Accounted s a) (h : s.step forCollection label = some s') :
    Accounted s' (a.next forCollection s label s') := by
  cases Turn.of_step h with
  | @coalesced docKey kind queue hlistener hold hqueue =>
    refine ⟨hs.sound.step hqueue, fun p hp => ?_, fun hworker => ?_⟩
    · rw [Account.next, if_pos hold] at hp
      exact (hs.inserted p hp).step hs.sound hqueue
    · rw [Account.next, Inner.Log.popped_enqueue]
      exact hs.fanned hworker
  | @enqueued docKey kind queue hlistener hnew hqueue =>
    refine ⟨hs.sound.step hqueue, fun p hp => ?_, fun hworker => ?_⟩
    · rw [Account.next, hnew, if_neg (by simp)] at hp
      rcases List.mem_append.1 hp with hp | hp
      · exact (hs.inserted p hp).step hs.sound hqueue
      · rw [List.mem_singleton.1 hp]
        exact Inner.placed_offered hnew kind queue
    · rw [Account.next, Inner.Log.popped_enqueue]
      exact hs.fanned hworker
  | popped hworker hpop =>
    have hqueue : s.queue.step forCollection .pop = some s.queue.pop.2 := rfl
    refine ⟨hs.sound.step hqueue, fun p hp => (hs.inserted p hp).step hs.sound hqueue, fun hidle => ?_⟩
    exact absurd rfl (hidle _ _)
  | drained hworker hpop =>
    have hqueue : s.queue.step forCollection .pop = some s.queue.pop.2 := rfl
    refine ⟨hs.sound.step hqueue, fun p hp => (hs.inserted p hp).step hs.sound hqueue, fun _ => ?_⟩
    have hlog : a.log.next forCollection s.queue .pop s.queue.pop.2 = a.log := by
      rw [Inner.Log.next, hpop, if_neg (by simp)]
    rw [Account.next, hlog]
    exact hs.fanned (by simp [hworker])
  | fanned => exact ⟨hs.sound, hs.inserted, fun _ => List.Subset.refl _⟩
  | exited hworker | parked hworker | woken hworker =>
    exact ⟨hs.sound, hs.inserted, fun _ => hs.fanned (by simp [hworker])⟩
  | closed | notifiedEntry | notifiedClose => exact ⟨hs.sound, hs.inserted, hs.fanned⟩

theorem accounted_of_exec (h : Lts.exec (step forCollection) start labels = some s) :
    Accounted s (accountOf forCollection labels) := by
  have hstep : ∀ s label s' a, Accounted s a → step forCollection s label = some s' →
      Accounted s' (Account.next forCollection s label s' a) := fun _ _ _ _ hs h => hs.step h
  have hstart : Accounted start .empty :=
    ⟨Inner.sound_default, by simp [Account.empty], fun _ => List.Subset.refl _⟩
  exact Lts.exec_history Accounted hstep hstart h

/-! ### The exit of the worker -/

/-- No close between the two looks, unless nothing is pending. -/
def Guarded (s : Relay) (label : RelayLabel) : Prop :=
  label = .close → s.worker = .checking → s.queue.pending = ∅
deriving Decidable

/-- A worker that will see the close, or has, has nothing pending. -/
structure Draining (s : Relay) : Prop where
  sound : s.queue.Sound
  listener : s.closed = true → s.listener = .closing ∨ s.listener = .returned
  checking : s.closed = true → s.worker = .checking → s.queue.pending = ∅
  exited : s.worker = .exited → s.closed = true ∧ s.queue.pending = ∅

/-- The worker is about to exit, or has, with something pending. -/
structure Stranded (s : Relay) : Prop where
  closed : s.closed = true
  listener : s.listener = .closing ∨ s.listener = .returned
  worker : s.worker = .checking ∨ s.worker = .exited
  pending : s.queue.pending ≠ ∅

theorem draining_start : start.Draining where
  sound := Inner.sound_default
  listener h := by cases h
  checking h := by cases h
  exited h := by cases h

/-- A listener that still listens has not closed the queue. -/
theorem Draining.not_closed (hs : s.Draining) (h : s.listener = .listening ∨ s.listener = .enqueued) :
    s.closed ≠ true := by
  intro hclosed
  rcases hs.listener hclosed with hl | hl <;> rcases h with h | h <;> rw [hl] at h <;> cases h

theorem Draining.step (hs : s.Draining) (hok : s.Guarded label)
    (h : s.step forCollection label = some s') : s'.Draining := by
  cases Turn.of_step h with
  | coalesced hlistener _ hqueue =>
    have hopen := hs.not_closed (.inl hlistener)
    exact ⟨hs.sound.step hqueue, hs.listener, fun hclosed => absurd hclosed hopen,
      fun hexited => absurd (hs.exited hexited).1 hopen⟩
  | enqueued hlistener _ hqueue =>
    have hopen := hs.not_closed (.inl hlistener)
    exact ⟨hs.sound.step hqueue, fun hclosed => absurd hclosed hopen,
      fun hclosed => absurd hclosed hopen, fun hexited => absurd (hs.exited hexited).1 hopen⟩
  | closed hlistener =>
    have hopen := hs.not_closed (.inl hlistener)
    exact ⟨hs.sound, fun _ => .inl rfl, fun _ hworker => hok rfl hworker,
      fun hexited => absurd (hs.exited hexited).1 hopen⟩
  | notifiedEntry hlistener =>
    have hopen := hs.not_closed (.inr hlistener)
    exact ⟨hs.sound, fun hclosed => absurd hclosed hopen, hs.checking, hs.exited⟩
  | notifiedClose => exact ⟨hs.sound, fun _ => .inr rfl, hs.checking, hs.exited⟩
  | popped hworker hpop =>
    have hqueue : s.queue.step forCollection .pop = some s.queue.pop.2 := rfl
    exact ⟨hs.sound.step hqueue, hs.listener, by simp, by simp⟩
  | drained hworker hpop =>
    have hqueue : s.queue.step forCollection .pop = some s.queue.pop.2 := rfl
    exact ⟨hs.sound.step hqueue, hs.listener, fun _ _ => hs.sound.pending_of_pop hpop, by simp⟩
  | exited hworker hclosed =>
    exact ⟨hs.sound, hs.listener, by simp, fun _ => ⟨hclosed, hs.checking hclosed hworker⟩⟩
  | fanned | parked | woken => exact ⟨hs.sound, hs.listener, by simp, by simp⟩

/-- A close at the wrong moment strands what is pending. -/
theorem stranded_of_not_guarded (hok : ¬ s.Guarded label)
    (h : s.step forCollection label = some s') : s'.Stranded := by
  simp only [Guarded, Classical.not_imp] at hok
  obtain ⟨rfl, hworker, hpending⟩ := hok
  cases Turn.of_step h with
  | closed => exact ⟨rfl, .inl rfl, .inl hworker, hpending⟩

theorem Stranded.step (hs : s.Stranded) (h : s.step forCollection label = some s') : s'.Stranded := by
  have hlistening : s.listener ≠ .listening ∧ s.listener ≠ .enqueued := by
    rcases hs.listener with hl | hl <;> simp [hl]
  cases Turn.of_step h with
  | coalesced hlistener | enqueued hlistener | closed hlistener =>
    exact absurd hlistener hlistening.1
  | notifiedEntry hlistener => exact absurd hlistener hlistening.2
  | notifiedClose => exact ⟨hs.closed, .inr rfl, hs.worker, hs.pending⟩
  | exited => exact ⟨hs.closed, hs.listener, .inr rfl, hs.pending⟩
  | parked hworker hopen => exact absurd hs.closed (by simp [hopen])
  | popped hworker | drained hworker | fanned hworker | woken hworker =>
    rcases hs.worker with hw | hw <;> rw [hw] at hworker <;> cases hworker

/-- All that was inserted is fanned out or shed. -/
def Drained (s : Relay) (a : Account) : Prop :=
  s.queue.pending = ∅ ∧ ∀ p ∈ a.inserted, p ∈ a.fanned ∨ p ∈ a.log.evicted

theorem Accounted.drained (hs : Accounted s a) (hexited : s.worker = .exited)
    (hpending : s.queue.pending = ∅) : s.Drained a := by
  refine ⟨hpending, fun p hp => ?_⟩
  rcases hs.inserted p hp with hmem | hpopped | hevicted
  · rw [hpending] at hmem
    exact absurd hmem OrderedSet.notMem_empty
  · exact .inl (hs.fanned (by simp [hexited]) hpopped)
  · exact .inr hevicted

/-- **When closing drains the queue.** For every interleaving of the listener and the worker after
which the worker has exited: the queue is empty and every entry was fanned out or shed, exactly if
the listener never closed it between an empty `pop` and the look at `closed` with something
pending. -/
theorem drained_iff (forCollection : String → ℕ) (labels : List RelayLabel) (s : Relay)
    (hrun : Lts.exec (Relay.step forCollection) start labels = some s)
    (hexited : s.worker = .exited) :
    s.Drained (accountOf forCollection labels) ↔
      Lts.Along (Relay.step forCollection) Guarded start labels := by
  refine Lts.exec_dichotomy_iff Draining Stranded (fun _ _ _ hs hok h => hs.step hok h)
    (fun _ _ _ _ hok h => stranded_of_not_guarded hok h) (fun _ _ _ hs h => hs.step h)
    draining_start hrun (fun hs => ?_) (fun hs hdrained => hs.pending hdrained.1)
  exact (accounted_of_exec hrun).drained hexited (hs.exited hexited).2

/-- Fanned out before the close. -/
def closedInTime : List RelayLabel :=
  [.enqueue "nodes:a" .allPeers, .notify, .pop, .fanned, .pop, .check, .close, .notify, .wake, .pop,
    .check]

theorem closedInTime_drained :
    ∃ s ∈ Lts.exec (Relay.step fun _ => 2) start closedInTime, (s.worker = .exited ∧
        (accountOf (fun _ => 2) closedInTime).inserted = [⟨2, 0, "nodes:a"⟩]) ∧
      s.Drained (accountOf (fun _ => 2) closedInTime) :=
  Lts.exists_mem_and (by decide +kernel) fun s hrun ⟨hexited, _⟩ =>
    (drained_iff (fun _ => 2) closedInTime s hrun hexited).2 (by decide +kernel)

/-- **The worker leaves a change behind** that comes, with the close, between its empty `pop` and
its look at `closed`: pending, neither fanned out nor shed. -/
theorem change_left_behind : ∃ s ∈ Lts.exec (Relay.step fun _ => 2) start
        [.pop, .enqueue "nodes:a" .allPeers, .notify, .close, .check],
      s.worker = .exited ∧ s.queue.pending.toList = [⟨2, 0, "nodes:a"⟩] ∧
      (accountOf (fun _ => 2)
        [.pop, .enqueue "nodes:a" .allPeers, .notify, .close, .check]).fanned = [] ∧
      (accountOf (fun _ => 2)
        [.pop, .enqueue "nodes:a" .allPeers, .notify, .close, .check]).log.evicted = [] := by
  decide +kernel

end Relay
end PeatNode.Fanout
