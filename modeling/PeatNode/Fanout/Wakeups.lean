/-
# The wake-ups of the fanout worker

`PriorityFanout` with its `Notify`, under any number of `enqueue` and `close` calls and the one
worker of `run`.  A call changes the queue or sets `closed` in one step and calls `notify_one` in
another; calls between the two are counted (`notifying`).

The worker looks into the queue, then at `closed`, then waits.  While there is work the permit is
stored, the waiting worker is woken or a call is about to notify (`Signalled`).
-/

import PeatNode.Fanout.Worker
import PeatNode.Lib.Notify

namespace PeatNode.Fanout

/-- `PriorityFanout`, its worker and the calls that have yet to notify. -/
structure Drain where
  inner : Inner
  notify : Notify
  closed : Bool
  notifying : ℕ
  worker : WorkerPc

inductive DrainLabel
  | enqueue (docKey : String) (kind : FanoutKind)
  | close
  | notifyOne
  | pop
  | fanned
  | check
  | poll
deriving DecidableEq

namespace Drain

def new : Drain := ⟨.default, .new, false, 0, .popping⟩

variable (forCollection : String → ℕ)

def step (s : Drain) : DrainLabel → Option Drain
  | .enqueue docKey kind =>
    (s.inner.enqueue forCollection docKey kind).map fun inner =>
      { s with
        inner
        notifying := if (s.inner.entries.lookup docKey).isSome then s.notifying
          else s.notifying + 1 }
  | .close => some { s with closed := true, notifying := s.notifying + 1 }
  | .notifyOne =>
    match s.notifying with
    | 0 => none
    | notifying + 1 => some { s with notify := s.notify.notifyOne, notifying }
  | .pop =>
    if s.worker = .popping then
      match s.inner.pop with
      | (some (docKey, kind), inner) => some { s with inner, worker := .fanning docKey kind }
      | (none, inner) => some { s with inner, worker := .checking }
    else none
  | .fanned =>
    match s.worker with
    | .fanning _ _ => some { s with worker := .popping }
    | .popping | .checking | .parking | .exited => none
  | .check =>
    if s.worker = .checking then
      some { s with worker := if s.closed then .exited else .parking }
    else none
  | .poll =>
    if s.worker = .parking then
      match s.notify.poll with
      | (true, notify) => some { s with notify, worker := .popping }
      | (false, notify) => some { s with notify }
    else none

variable {forCollection} {s s' : Drain} {label : DrainLabel}

/-! ### The invariant -/

/-- The wait ends without a further call. -/
def Signalled (s : Drain) : Prop := s.notify.poll.1 = true ∨ 0 < s.notifying

/-- What came after the worker's last look came with a signal. -/
structure Heard (s : Drain) : Prop where
  sound : s.inner.Sound
  checking : s.worker = .checking → s.inner.pending ≠ ∅ → s.Signalled
  parking : s.worker = .parking → s.inner.pending ≠ ∅ ∨ s.closed = true → s.Signalled

theorem heard_new : new.Heard where
  sound := Inner.sound_default
  checking h := by cases h
  parking h := by cases h

/-- A worker that is not about to wait needs no signal. -/
theorem heard_of_busy (hsound : s.inner.Sound) (h : s.worker ≠ .checking ∧ s.worker ≠ .parking) :
    s.Heard :=
  ⟨hsound, fun hworker => absurd hworker h.1, fun hworker => absurd hworker h.2⟩

theorem pending_of_coalesced {q q' : Inner} (hq : q.Sound)
    (hold : (q.entries.lookup docKey).isSome)
    (h : q.step forCollection (.enqueue docKey kind) = some q') : q'.pending = q.pending := by
  cases Inner.Turn.of_step hq h with
  | coalesced => rfl
  | inserted hnew | shed hnew =>
    simp [hnew] at hold

theorem Heard.step (hs : s.Heard) (h : s.step forCollection label = some s') : s'.Heard := by
  cases label with
  | enqueue docKey kind =>
    obtain ⟨inner, hinner, rfl⟩ := Option.map_eq_some_iff.1 h
    have hstep : s.inner.step forCollection (.enqueue docKey kind) = some inner := hinner
    have hsound := hs.sound.step hstep
    split_ifs with hold
    · have hpending := pending_of_coalesced hs.sound hold hstep
      refine ⟨hsound, fun hworker hne => ?_, fun hworker hcause => ?_⟩
      · exact hs.checking hworker (hpending ▸ hne)
      · exact hs.parking hworker (hpending ▸ hcause)
    · exact ⟨hsound, fun _ _ => .inr (Nat.succ_pos _), fun _ _ => .inr (Nat.succ_pos _)⟩
  | close =>
    cases h
    exact ⟨hs.sound, fun _ _ => .inr (Nat.succ_pos _), fun _ _ => .inr (Nat.succ_pos _)⟩
  | notifyOne =>
    simp only [step] at h
    split at h
    · cases h
    · cases h
      have hready := s.notify.poll_notifyOne
      exact ⟨hs.sound, fun _ _ => .inl hready, fun _ _ => .inl hready⟩
  | pop =>
    have hstep : s.inner.step forCollection .pop = some s.inner.pop.2 := rfl
    have hsound := hs.sound.step hstep
    simp only [step] at h
    split_ifs at h
    split at h
    · next docKey kind inner hpop =>
      cases h
      rw [hpop] at hsound
      exact heard_of_busy hsound ⟨by simp, by simp⟩
    · next inner hpop =>
      cases h
      have hempty := hs.sound.pending_of_pop (congrArg Prod.fst hpop)
      rw [hpop] at hsound hempty
      exact ⟨hsound, fun _ hne => absurd hempty hne, fun hparking => absurd hparking (by simp)⟩
  | fanned =>
    simp only [step] at h
    split at h
    · cases h
      exact heard_of_busy hs.sound ⟨by simp, by simp⟩
    all_goals cases h
  | check =>
    simp only [step] at h
    split_ifs at h with hworker hclosed
    · cases h
      exact heard_of_busy hs.sound ⟨by simp, by simp⟩
    · cases h
      -- what is pending by now came after the empty pop
      refine ⟨hs.sound, fun hchecking => absurd hchecking (by simp), fun _ hcause => ?_⟩
      exact hs.checking hworker (hcause.resolve_right hclosed)
  | poll =>
    simp only [step] at h
    split_ifs at h with hworker
    split at h
    · cases h
      exact heard_of_busy hs.sound ⟨by simp, by simp⟩
    · next notify hpoll =>
      cases h
      refine ⟨hs.sound, fun hchecking => ?_, fun _ hcause => .inr ?_⟩
      · exact WorkerPc.noConfusion (hworker.symm.trans hchecking)
      · refine (hs.parking hworker hcause).resolve_left fun hready => ?_
        simp [hpoll] at hready

theorem heard_of_exec (h : Lts.exec (step forCollection) new labels = some s) : s.Heard :=
  Lts.exec_preserves Heard (fun _ _ _ hs h => hs.step h) heard_new h

/-- It waits, and a look would not end it. -/
def Parked (s : Drain) : Prop := s.worker = .parking ∧ s.notify.poll.1 = false

/-- **No wake-up is lost.**  A parked worker has nothing to do, whatever the calls, unless
one of them is about to notify. -/
theorem no_lost_wakeup (labels : List DrainLabel)
    (h : Lts.exec (step forCollection) new labels = some s) (hparked : s.Parked)
    (hcause : s.inner.pending ≠ ∅ ∨ s.closed = true) : 0 < s.notifying := by
  obtain ⟨hworker, hwaits⟩ := hparked
  rcases (heard_of_exec h).parking hworker hcause with hready | hnotifying
  · exact absurd (hwaits.symm.trans hready) Bool.false_ne_true
  · exact hnotifying

/-- An entry is there and the worker waits: its `enqueue` has yet to notify. -/
theorem no_lost_wakeup_enqueue :
    ∃ s ∈ Lts.exec (step fun _ => 5) new [.pop, .check, .poll, .enqueue "a:1" .allPeers],
      s.Parked ∧ 0 < s.notifying := by
  obtain ⟨s, hrun⟩ : ∃ s, Lts.exec (step fun _ => 5) new
      [.pop, .check, .poll, .enqueue "a:1" .allPeers] = some s := ⟨_, rfl⟩
  have hparked : s.Parked := by
    cases hrun
    exact ⟨rfl, rfl⟩
  refine ⟨s, hrun, hparked, no_lost_wakeup _ hrun hparked (.inl ?_)⟩
  cases hrun
  decide +kernel

end Drain
end PeatNode.Fanout
