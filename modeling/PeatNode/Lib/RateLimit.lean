/-
# Rate limited counting

A bucket lets one event through, then holds back and counts the others for an interval; the next
one let through reports the count.  A limiter has one bucket for each key.

Nothing is lost (`Limiter.accounted_run`), events let through are an interval apart whatever the
clock does, and the events of a key leave other buckets alone (`Limiter.run_filter`).
`Implements` says that a program with its own tables behaves like a limiter.
-/

import Mathlib.Algebra.GroupWithZero.Nat
import Mathlib.Data.List.Induction
import PeatNode.Lib.Lts

namespace RateLimit

open List Option

/-- When the next event is let through, and how many were held back. -/
structure Bucket where
  nextEmit : Option ℕ
  suppressed : ℕ
deriving DecidableEq

namespace Bucket

def empty : Bucket := ⟨none, 0⟩

/-- An event at the time `now`: the bucket after it, and the count that is reported
if it is let through.  The counter saturates at `limit`. -/
def record (limit interval now : ℕ) (b : Bucket) : Bucket × Option ℕ :=
  if b.nextEmit.any (now < ·) then ({ b with suppressed := min (b.suppressed + 1) limit }, none)
  else (⟨some (now + interval), 0⟩, some b.suppressed)

end Bucket

structure Emission (κ : Type*) where
  key : κ
  time : ℕ
  suppressed : ℕ
deriving DecidableEq

/-- A bucket for each key, and what was let through so far. -/
structure Limiter (κ : Type*) where
  bucket : κ → Bucket
  emitted : List (Emission κ)

/-- **The account of a bucket**: every event is let through, reported or pending, and
events that are let through are an interval apart. -/
structure Accounted {κ : Type*} (interval events : ℕ) (emitted : List (Emission κ))
    (pending : ℕ) : Prop where
  conserved : events = emitted.length + (emitted.map (·.suppressed)).sum + pending
  spaced : emitted.Pairwise fun a b => a.time + interval ≤ b.time

namespace Limiter

variable {κ : Type*} [DecidableEq κ] {limit interval : ℕ}

def start : Limiter κ := ⟨fun _ => .empty, []⟩

def emittedBy (s : Limiter κ) (k : κ) : List (Emission κ) := s.emitted.filter (·.key = k)

/-- The key `event.1` at time `event.2`. -/
def record (limit interval : ℕ) (s : Limiter κ) (event : κ × ℕ) : Limiter κ :=
  let r := (s.bucket event.1).record limit interval event.2
  { bucket := Function.update s.bucket event.1 r.1
    emitted := s.emitted ++ (r.2.map fun n => ⟨event.1, event.2, n⟩).toList }

def run (limit interval : ℕ) (s : Limiter κ) (events : List (κ × ℕ)) : Limiter κ :=
  events.foldl (record limit interval) s

@[simp] theorem run_nil (s : Limiter κ) : s.run limit interval [] = s := rfl

theorem run_concat (s : Limiter κ) (events : List (κ × ℕ)) (event : κ × ℕ) :
    s.run limit interval (events ++ [event]) =
      (s.run limit interval events).record limit interval event := by
  rw [run, foldl_append]
  rfl

/-! ### One bucket at a time -/

theorem bucket_record_of_ne {s : Limiter κ} (h : event.1 ≠ k) :
    (s.record limit interval event).bucket k = s.bucket k := Function.update_of_ne (Ne.symm h) _ _

theorem emittedBy_record_of_ne {s : Limiter κ} (h : event.1 ≠ k) :
    (s.record limit interval event).emittedBy k = s.emittedBy k := by
  unfold emittedBy record
  cases ((s.bucket event.1).record limit interval event.2).2 <;> simp [h]

theorem record_self (limit interval : ℕ) (s : Limiter κ) (k : κ) (now : ℕ) :
    (s.record limit interval (k, now)).bucket k = ((s.bucket k).record limit interval now).1 ∧
      (s.record limit interval (k, now)).emittedBy k = s.emittedBy k ++
        (((s.bucket k).record limit interval now).2.map fun n => ⟨k, now, n⟩).toList := by
  unfold record emittedBy
  refine ⟨Function.update_self _ _ _, ?_⟩
  dsimp only
  cases ((s.bucket k).record limit interval now).2 <;> simp

/-- **Only the events of a key matter for its bucket.** -/
theorem run_filter (limit interval : ℕ) (s : Limiter κ) (events : List (κ × ℕ)) (k : κ) :
    (s.run limit interval events).bucket k =
        (s.run limit interval (events.filter (·.1 = k))).bucket k ∧
      (s.run limit interval events).emittedBy k =
        (s.run limit interval (events.filter (·.1 = k))).emittedBy k := by
  induction events using reverseRecOn with
  | nil => exact ⟨rfl, rfl⟩
  | append_singleton events event ih =>
    obtain ⟨hbucket, hemitted⟩ := ih
    rw [filter_append, run_concat]
    by_cases hk : event.1 = k
    · obtain ⟨key, now⟩ := event
      obtain rfl : key = k := hk
      have hown : [(key, now)].filter (·.1 = key) = [(key, now)] := by simp
      obtain ⟨hb, he⟩ := record_self limit interval
        (s.run limit interval events) key now
      obtain ⟨hb', he'⟩ := record_self limit interval
        (s.run limit interval (events.filter (·.1 = key))) key now
      rw [hown, run_concat, hb, he, hb', he', hbucket, hemitted]
      exact ⟨rfl, rfl⟩
    · have hother : [event].filter (·.1 = k) = [] := by simp [hk]
      rw [hother, append_nil, bucket_record_of_ne hk, emittedBy_record_of_ne hk]
      exact ⟨hbucket, hemitted⟩

/-! ### The account -/

/-- The account of a key, and the deadline behind what it let through. -/
structure Balanced (interval : ℕ) (s : Limiter κ) (events : List (κ × ℕ)) (k : κ) : Prop where
  account : Accounted interval (events.filter (·.1 = k)).length (s.emittedBy k)
    (s.bucket k).suppressed
  deadline : ∀ e ∈ s.emittedBy k, ∃ d, (s.bucket k).nextEmit = some d ∧ e.time + interval ≤ d

/-- The step: an event is counted once, under its own key. -/
theorem Balanced.record {s : Limiter κ} (h : s.Balanced interval events k)
    (hroom : events.length < limit) (event : κ × ℕ) :
    (s.record limit interval event).Balanced interval (events ++ [event]) k := by
  by_cases hk : event.1 = k
  · obtain ⟨key, now⟩ := event
    obtain rfl : key = k := hk
    obtain ⟨⟨hconserved, hspaced⟩, hdeadline⟩ := h
    have hcount : ((events ++ [(key, now)]).filter (·.1 = key)).length =
        (events.filter (·.1 = key)).length + 1 := by simp [filter_append]
    have hfew : (events.filter (·.1 = key)).length ≤ events.length := length_filter_le ..
    obtain ⟨hb, he⟩ := record_self limit interval s key now
    by_cases hheld : (s.bucket key).nextEmit.any (now < ·) = true
    · -- the event is held back
      have hrecord : (s.bucket key).record limit interval now =
          ({ s.bucket key with suppressed := min ((s.bucket key).suppressed + 1) limit }, none) :=
        if_pos hheld
      rw [hrecord] at hb he
      have hemitted : (s.record limit interval (key, now)).emittedBy key = s.emittedBy key := by
        simpa using he
      refine ⟨⟨?_, ?_⟩, ?_⟩
      · rw [hcount, hb, hemitted]
        dsimp only
        omega
      · rw [hemitted]
        exact hspaced
      · rw [hemitted, hb]
        exact hdeadline
    · -- the event is let through: its time is past every deadline so far
      have hrecord : (s.bucket key).record limit interval now =
          (⟨some (now + interval), 0⟩, some (s.bucket key).suppressed) := if_neg hheld
      rw [hrecord] at hb he
      have hemitted : (s.record limit interval (key, now)).emittedBy key =
          s.emittedBy key ++ [⟨key, now, (s.bucket key).suppressed⟩] := by simpa using he
      have hpast : ∀ e ∈ s.emittedBy key, e.time + interval ≤ now := by
        intro e hmem
        obtain ⟨d, hd, hle⟩ := hdeadline e hmem
        rw [hd, any_some, decide_eq_true_eq] at hheld
        omega
      refine ⟨⟨?_, ?_⟩, ?_⟩
      · rw [hcount, hb, hemitted]
        simp only [length_append, length_singleton, map_append, sum_append,
          map_singleton, sum_singleton]
        omega
      · rw [hemitted, pairwise_append]
        refine ⟨hspaced, pairwise_singleton _ _, ?_⟩
        intro a ha b hb
        rw [mem_singleton.1 hb]
        exact hpast a ha
      · rw [hemitted, hb]
        intro e hmem
        refine ⟨now + interval, rfl, ?_⟩
        rcases mem_append.1 hmem with hold | hnew
        · have hle := hpast e hold
          omega
        · obtain rfl := mem_singleton.1 hnew
          exact Nat.le_refl _
  · have hother : (events ++ [event]).filter (·.1 = k) = events.filter (·.1 = k) := by
      simp [filter_append, hk]
    refine ⟨?_, ?_⟩
    · rw [hother, emittedBy_record_of_ne hk, bucket_record_of_ne hk]
      exact h.account
    · rw [emittedBy_record_of_ne hk, bucket_record_of_ne hk]
      exact h.deadline

theorem balanced_run (events : List (κ × ℕ)) (hroom : events.length ≤ limit) (k : κ) :
    ((start : Limiter κ).run limit interval events).Balanced interval events k := by
  induction events using reverseRecOn with
  | nil => exact ⟨⟨rfl, List.Pairwise.nil⟩, fun _ he => absurd he not_mem_nil⟩
  | append_singleton events event ih =>
    rw [length_append, length_singleton] at hroom
    rw [run_concat]
    exact (ih (by omega)).record (by omega) event

/-- **No event is lost**, as long as there are not more than a counter can hold. -/
theorem accounted_run (interval : ℕ) (events : List (κ × ℕ)) (hroom : events.length ≤ limit) (k : κ) :
    Accounted interval (events.filter (·.1 = k)).length
      (((start : Limiter κ).run limit interval events).emittedBy k)
      (((start : Limiter κ).run limit interval events).bucket k).suppressed :=
  (balanced_run events hroom k).account

end Limiter

/-! ### Implementations -/

section Implementation

variable {δ γ κ : Type*} [DecidableEq κ]

/-- The limiter that a program shows. -/
def limiterOf (bucket : δ → κ → Option Bucket) (emissions : δ → List (Emission κ)) (d : δ) :
    Limiter κ := ⟨fun k => (bucket d k).getD .empty, emissions d⟩

/-- A program whose calls are events of a limiter. A call without one changes nothing, and no call
adds or removes a bucket. -/
structure Implements (limit interval : ℕ) (step : δ → γ → Option δ) (event : γ → Option (κ × ℕ))
    (bucket : δ → κ → Option Bucket) (emissions : δ → List (Emission κ)) (Inv : δ → Prop) :
    Prop where
  total : ∀ d c, Inv d → ∃ d', step d c = some d'
  kept : ∀ d c d', Inv d → step d c = some d' → Inv d'
  keys : ∀ d c d' k, Inv d → step d c = some d' → (bucket d' k).isSome = (bucket d k).isSome
  follows : ∀ d c d', Inv d → step d c = some d' → limiterOf bucket emissions d' =
    (event c).elim (limiterOf bucket emissions d)
      ((limiterOf bucket emissions d).record limit interval)

def belongs (event : γ → Option (κ × ℕ)) (k : κ) (c : γ) : Bool := (event c).any (·.1 = k)

/-- **What a program counts**, in all runs from one state: no call fails, and each bucket accounts
for its own calls and is what they alone make it. -/
structure Counts (limit interval : ℕ) (step : δ → γ → Option δ) (event : γ → Option (κ × ℕ))
    (bucket : δ → κ → Option Bucket) (emissions : δ → List (Emission κ)) (d₀ : δ) : Prop where
  total : ∀ calls, ∃ d, Lts.exec step d₀ calls = some d
  accounted : ∀ calls d, calls.length ≤ limit → Lts.exec step d₀ calls = some d →
    ∀ k b, bucket d k = some b →
      Accounted interval (calls.filter (belongs event k)).length
        ((emissions d).filter (·.key = k)) b.suppressed
  separate : ∀ calls d d' k, Lts.exec step d₀ calls = some d →
    Lts.exec step d₀ (calls.filter (belongs event k)) = some d' →
      bucket d k = bucket d' k ∧
        (emissions d).filter (·.key = k) = (emissions d').filter (·.key = k)

namespace Implements

variable {limit interval : ℕ} {step : δ → γ → Option δ} {event : γ → Option (κ × ℕ)}
  {bucket : δ → κ → Option Bucket} {emissions : δ → List (Emission κ)} {Inv : δ → Prop}

theorem exec_total (h : Implements limit interval step event bucket emissions Inv) (hd : Inv d)
    (calls : List γ) : ∃ d', Lts.exec step d calls = some d' := by
  induction calls generalizing d with
  | nil => exact ⟨d, rfl⟩
  | cons c calls ih =>
    obtain ⟨d₁, hstep⟩ := h.total d c hd
    obtain ⟨d', hrun⟩ := ih (h.kept d c d₁ hd hstep)
    exact ⟨d', Lts.exec_cons_eq_some.2 ⟨d₁, hstep, hrun⟩⟩

theorem exec_follows (h : Implements limit interval step event bucket emissions Inv) (hd : Inv d)
    (hrun : Lts.exec step d calls = some d') :
    limiterOf bucket emissions d' =
        (limiterOf bucket emissions d).run limit interval (calls.filterMap event) ∧
      ∀ k, (bucket d' k).isSome = (bucket d k).isSome := by
  induction calls generalizing d with
  | nil =>
    cases hrun
    exact ⟨rfl, fun _ => rfl⟩
  | cons c calls ih =>
    obtain ⟨d₁, hstep, hrest⟩ := Lts.exec_cons_eq_some.1 hrun
    obtain ⟨hview, hkeys⟩ := ih (h.kept d c d₁ hd hstep) hrest
    refine ⟨?_, fun k => (hkeys k).trans (h.keys d c d₁ k hd hstep)⟩
    rw [hview, h.follows d c d₁ hd hstep]
    cases hevent : event c with
    | none => rw [filterMap_cons_none hevent, elim_none]
    | some e =>
      rw [filterMap_cons_some hevent, elim_some]
      rfl

theorem filterMap_belongs (event : γ → Option (κ × ℕ)) (calls : List γ) (k : κ) :
    (calls.filterMap event).filter (·.1 = k) = (calls.filter (belongs event k)).filterMap event ∧
      ((calls.filterMap event).filter (·.1 = k)).length = (calls.filter (belongs event k)).length := by
  induction calls with
  | nil => exact ⟨rfl, rfl⟩
  | cons c calls ih =>
    obtain ⟨hlist, hlength⟩ := ih
    cases hevent : event c with
    | none =>
      have hno : belongs event k c = false := by simp [belongs, hevent]
      rw [filterMap_cons_none hevent, filter_cons_of_neg (by simp [hno])]
      exact ⟨hlist, hlength⟩
    | some e =>
      rw [filterMap_cons_some hevent]
      by_cases hk : e.1 = k
      · have hyes : belongs event k c = true := by simp [belongs, hevent, hk]
        rw [filter_cons_of_pos (by simpa using hk), filter_cons_of_pos hyes,
          filterMap_cons_some hevent, hlist, length_cons, length_cons, ← hlist,
          hlength]
        exact ⟨rfl, rfl⟩
      · have hno : belongs event k c = false := by simp [belongs, hevent, hk]
        rw [filter_cons_of_neg (by simpa using hk), filter_cons_of_neg (by simp [hno])]
        exact ⟨hlist, hlength⟩

/-- **A program that implements a limiter loses no count.** -/
theorem counts (h : Implements limit interval step event bucket emissions Inv) (hd : Inv d₀)
    (hstart : limiterOf bucket emissions d₀ = .start) :
    Counts limit interval step event bucket emissions d₀ where
  total := h.exec_total hd
  accounted calls d hroom hrun k b hb := by
    obtain ⟨hview, -⟩ := h.exec_follows hd hrun
    have hfew : (calls.filterMap event).length ≤ limit := Nat.le_trans (length_filterMap_le ..) hroom
    have haccount := Limiter.accounted_run interval _ hfew k
    rw [← hstart, ← hview, (filterMap_belongs event calls k).2] at haccount
    have hbucket : (limiterOf bucket emissions d).bucket k = b := by simp [limiterOf, hb]
    rwa [hbucket] at haccount
  separate calls d d' k hrun hrun' := by
    obtain ⟨hview, hkeys⟩ := h.exec_follows hd hrun
    obtain ⟨hview', hkeys'⟩ := h.exec_follows hd hrun'
    obtain ⟨hbucket, hemitted⟩ := Limiter.run_filter limit interval
      (limiterOf bucket emissions d₀) (calls.filterMap event) k
    rw [(filterMap_belongs event calls k).1, ← hview, ← hview'] at hbucket hemitted
    refine ⟨?_, hemitted⟩
    have hsome := (hkeys k).trans (hkeys' k).symm
    have hvalue : (bucket d k).getD .empty = (bucket d' k).getD .empty := hbucket
    cases hb : bucket d k with
    | none =>
      rw [hb, isSome_none, eq_comm, isSome_eq_false_iff] at hsome
      exact (isNone_iff_eq_none.1 hsome).symm
    | some b =>
      rw [hb, isSome_some, eq_comm] at hsome
      obtain ⟨b', hb'⟩ := isSome_iff_exists.1 hsome
      rw [hb, hb', getD_some, getD_some] at hvalue
      rw [hb', hvalue]

end Implements

end Implementation

end RateLimit
