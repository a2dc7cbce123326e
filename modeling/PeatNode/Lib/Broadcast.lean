/-
# Bounded broadcast channels

A broadcast channel of tokio as its receivers see it: everything that was sent,
in order, of which the last `capacity` messages are retained.  A receiver is the
position it reads next.  One that has fallen behind the retained messages is
told how many it has missed and goes on with the oldest retained one.
-/

import Mathlib.Data.List.Basic

namespace Broadcast

open List

variable {α : Type*}

structure Channel (α : Type*) where
  capacity : ℕ
  sent : List α
  closed : Bool
deriving DecidableEq

/-- What `recv` gives; `wait` if there is nothing to receive yet. -/
inductive Recv (α : Type*)
  | wait
  | message (a : α)
  | lagged (missed : ℕ)
  | closed
deriving DecidableEq

namespace Channel

def new (capacity : ℕ) : Channel α := ⟨capacity, [], false⟩

def send (c : Channel α) (a : α) : Channel α := { c with sent := c.sent ++ [a] }

def oldest (c : Channel α) : ℕ := c.sent.length - c.capacity

/-- The result of `recv`, and the new position. -/
def recv (c : Channel α) (next : ℕ) : Recv α × ℕ :=
  if next < c.oldest then (.lagged (c.oldest - next), c.oldest)
  else match c.sent[next]? with
    | some a => (.message a, next + 1)
    | none => (if c.closed then .closed else .wait, next)

/-- What the receiver can no longer get. -/
def missed (c : Channel α) (next : ℕ) : List α := (c.sent.take c.oldest).drop next

variable {c : Channel α} {next : ℕ}

theorem recv_of_lt_oldest (h : next < c.oldest) :
    c.recv next = (.lagged (c.oldest - next), c.oldest) := if_pos h

theorem recv_of_some (h : c.oldest ≤ next) (ha : c.sent[next]? = some a) :
    c.recv next = (.message a, next + 1) := by
  rw [recv, if_neg (Nat.not_lt.2 h), ha]

theorem recv_of_none (h : c.oldest ≤ next) (hnone : c.sent[next]? = none) :
    c.recv next = (if c.closed then .closed else .wait, next) := by
  rw [recv, if_neg (Nat.not_lt.2 h), hnone]

theorem recv_of_length_le (h : c.sent.length ≤ next) (hopen : c.closed = false) :
    c.recv next = (.wait, next) := by
  have hold : c.oldest ≤ next := by
    unfold oldest
    omega
  rw [recv_of_none hold (getElem?_eq_none h), hopen]
  rfl

/-- A receiver lags only if the oldest retained message is ahead of it. -/
theorem lt_oldest_of_lagged (h : c.recv next = (.lagged n, next')) : next < c.oldest := by
  by_contra hle
  rw [recv, if_neg hle] at h
  split at h
  · simp at h
  · split_ifs at h <;> cases h

/-- What comes before the oldest retained message is what the receiver is past and
what it misses. -/
theorem take_oldest (h : next ≤ c.oldest) :
    c.sent.take c.oldest = c.sent.take next ++ c.missed next := by
  have hpast : (c.sent.take c.oldest).take next = c.sent.take next := by
    rw [take_take, Nat.min_eq_left h]
  rw [missed, ← hpast, take_append_drop]

/-- Behind a message that a receiver misses `capacity` others have been sent. -/
theorem exists_of_mem_missed (h : a ∈ c.missed next) :
    ∃ i, next ≤ i ∧ c.sent[i]? = some a ∧ c.capacity ≤ (c.sent.drop (i + 1)).length := by
  obtain ⟨j, hj⟩ := mem_iff_getElem?.1 h
  rw [missed, getElem?_drop, getElem?_take] at hj
  split_ifs at hj with hlt
  refine ⟨next + j, by omega, hj, ?_⟩
  rw [length_drop]
  unfold oldest at hlt
  omega

theorem missed_eq_nil (h : c.oldest ≤ next) : c.missed next = [] := by
  refine drop_eq_nil_of_le ?_
  rw [length_take]
  omega

/-! ### What a receiver has been sent -/

def between (c : Channel α) (start next : ℕ) : List α := (c.sent.take next).drop start

theorem between_self (c : Channel α) (next : ℕ) : c.between next next = [] :=
  drop_eq_nil_of_le (length_take_le _ _)

theorem between_send (a : α) (h : next ≤ c.sent.length) :
    (c.send a).between start next = c.between start next := by
  rw [between, send, take_append_of_le_length h, between]

theorem between_succ (h : start ≤ next) (ha : c.sent[next]? = some a) :
    c.between start (next + 1) = c.between start next ++ [a] := by
  obtain ⟨hlt, rfl⟩ := List.getElem?_eq_some_iff.1 ha
  have hlength : start ≤ (c.sent.take next).length := by
    rw [List.length_take]
    omega
  rw [between, take_succ_eq_append_getElem hlt, drop_append_of_le_length hlength, between]

theorem getLast?_of_between (h : (c.between start c.sent.length).getLast? = some a) :
    c.sent.getLast? = some a := by
  rw [between, take_length] at h
  have hne : c.sent.drop start ≠ [] := by
    intro hnil
    simp [hnil] at h
  rw [← h, ← take_append_drop start c.sent, getLast?_append_of_ne_nil _ (by simpa using hne)]
  simp

end Channel
end Broadcast
