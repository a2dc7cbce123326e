/-
# A notification with one stored permit

`tokio::sync::Notify` with one task that waits on it.  `notifyOne` wakes the task if it is
registered, else stores a permit, one at most; `poll` is one look of the task: it takes the permit
or its wake-up, or registers.
-/

import Mathlib.Tactic.Common

/-- The place of the waiting task in the list of waiters. -/
inductive Waiter
  | absent
  | registered
  | notified
deriving DecidableEq

structure Notify where
  permit : Bool
  waiter : Waiter
deriving DecidableEq

namespace Notify

def new : Notify := ⟨false, .absent⟩

def notifyOne (n : Notify) : Notify :=
  match n.waiter with
  | .registered => { n with waiter := .notified }
  | .absent | .notified => { n with permit := true }

/-- Whether the wait is over. -/
def poll (n : Notify) : Bool × Notify :=
  match n.waiter with
  | .notified => (true, { n with waiter := .absent })
  | .registered => (false, n)
  | .absent =>
    if n.permit then (true, { n with permit := false }) else (false, { n with waiter := .registered })

/-- After a notification the next look is the last one. -/
theorem poll_notifyOne (n : Notify) : n.notifyOne.poll.1 = true := by
  obtain ⟨permit, waiter⟩ := n
  cases waiter <;> rfl

/-- Looking again finds nothing new. -/
theorem poll_poll {n : Notify} (h : n.poll.1 = false) : n.poll.2.poll.1 = false := by
  obtain ⟨permit, waiter⟩ := n
  cases waiter <;> cases permit <;> first | rfl | cases h

end Notify
