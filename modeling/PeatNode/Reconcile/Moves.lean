/-
# What a step of the reconciler can do

`Moves` lists the ways in which one step of a `trigger` or `close` call or of the
loop changes the state, each with the part of its guard that later arguments
need, and `moves_step` says that there are no others.
-/

import PeatNode.Reconcile.Trigger

namespace PeatNode.Reconcile

def LoopPc.running : LoopPc → ℕ
  | .scanning _ => 1
  | _ => 0

/-- Received, and no scan started for it. -/
def LoopPc.reasons : LoopPc → ℕ
  | .received => 1
  | _ => 0

/-- Past the last `can_scan` before an offer. -/
def ScanPc.clearance : ScanPc → ℕ
  | .cleared _ => 1
  | _ => 0

def LoopPc.clearance : LoopPc → ℕ
  | .scanning pc => pc.clearance
  | _ => 0

namespace ScanPc

@[simp] theorem clearance_nextMapping (mappings : List String) : (nextMapping mappings).clearance = 0 := by
  cases mappings <;> rfl

@[simp] theorem clearance_nextKey (collection : String) (mappings keys : List String) :
    (nextKey collection mappings keys).clearance = 0 := by
  cases keys with
  | nil => exact clearance_nextMapping mappings
  | cons k ks => rfl

/-- A scan whose `can_scan` fails is over. -/
theorem check_false {pc pc' : ScanPc} (h : pc.check false = some pc') : pc' = .done := by
  cases pc <;> simp_all [check]

/-- Only `can_scan` clears a candidate, and only a cleared one is delivered. -/
theorem clearance_answer {pc : ScanPc} (h : pc.answer a = some r) :
    r.1.clearance = 0 ∧ (a = .call → pc.clearance = 1) := by
  unfold answer at h
  split at h <;> cases h
  all_goals first | exact ⟨clearance_nextKey _ _ _, by simp⟩ | simp [clearance]

end ScanPc

namespace Reconciler

variable {s s' : Reconciler} {l : Label}

inductive Moves (s : Reconciler) : Reconciler → Prop
  | trigger (reason : ReconcileReason) (hd : s.dropped = false) :
      Moves s { s with
        begun := s.begun + 1, calls := ⟨reason, s.stats.scans, .began⟩ ::ₘ s.calls }
  | turnAway {c : TriggerCall} (hc : c ∈ s.calls) (hcl : s.closed = true) : Moves s (s.finish c)
  | enter {c : TriggerCall} (hc : c ∈ s.calls) :
      Moves s { s.move c .opened with stats.triggers := s.stats.triggers + 1 }
  | send {c : TriggerCall} (hc : c ∈ s.calls) (hch : s.channel = none) :
      Moves s { s.finish c with channel := some c.reason }
  | refuse {c : TriggerCall} (hc : c ∈ s.calls) (hch : s.channel ≠ none ∨ s.loop = .exited) :
      Moves s (s.move c .refused)
  | mark {c : TriggerCall} (hc : c ∈ s.calls) (hpc : c.pc = .refused) (n : ℕ) :
      Moves s { s.finish c with pending := true, stats.coalesced := n }
  | closeFlag : Moves s { s with closed := true, closing := s.closing + 1 }
  | closePending (hpos : 0 < s.closing) :
      Moves s { s with pending := false, closing := s.closing - 1, closeReturned := true }
  | drop (hnil : s.calls = 0) : Moves s { s with dropped := true }
  | receive (hl : s.loop = .recv) (hch : s.channel ≠ none) :
      Moves s { s with channel := none, loop := .received }
  | hangUp (hl : s.loop = .recv) (hd : s.dropped = true) : Moves s { s with loop := .exited }
  | quit (hl : s.loop = .received) (hcl : s.closed = true) : Moves s { s with loop := .exited }
  | scan (hl : s.loop = .received) : Moves s s.startScan
  | rescan (hl : s.loop = .swapping) (hp : s.pending = true) :
      Moves s { s.startScan with pending := false }
  | scanReturns (hl : s.loop = .scanning .done) :
      Moves s { s with loop := .scanned, returned := s.returned + 1 }
  | afterScan {pc : LoopPc} (hl : s.loop = .scanned ∨ s.loop = .swapping)
      (hpc : pc = .recv ∨ pc = .swapping) : Moves s { s with loop := pc }
  | check {pc pc' : ScanPc} (hl : s.loop = .scanning pc) (hcl : s.closed = true → pc' = .done) :
      Moves s { s with loop := .scanning pc' }
  | answer {pc pc' : ScanPc} {a : ScanAnswer} (effect : ScanEffect) (hl : s.loop = .scanning pc)
      (hnot : pc'.clearance = 0) (hcall : a = .call → pc.clearance = 1) :
      Moves s { s with
        loop := .scanning pc', stats := s.stats.count effect,
        lateCandidates := s.lateCandidates + if s.closeReturned ∧ a = .call then 1 else 0 }

theorem moves_stepCall (hc : c ∈ s.calls) : s.Moves (s.stepCall c) := by
  unfold stepCall
  split
  · split_ifs with hcl
    · exact .turnAway hc hcl
    · exact .enter hc
  · split_ifs with hch
    · exact .send hc hch.1
    · exact .refuse hc (by tauto)
  · rename_i hpc
    dsimp only
    split_ifs
    · exact .mark hc hpc s.stats.coalesced
    · exact .mark hc hpc (s.stats.coalesced + 1)

theorem moves_stepLoop (h : s.stepLoop = some s') : s.Moves s' := by
  unfold stepLoop at h
  split at h
  · rename_i hl
    split_ifs at h with hch hd
    · cases h
      exact .receive hl hch
    · cases h
      exact .hangUp hl hd
  · rename_i hl
    cases h
    split_ifs with hcl
    · exact .quit hl hcl
    · exact .scan hl
  · rename_i hl
    cases h
    exact .scanReturns hl
  · rename_i hl
    cases h
    refine .afterScan (.inl hl) ?_
    split_ifs
    · exact .inl rfl
    · exact .inr rfl
  · rename_i hl
    cases h
    split_ifs with hp
    · exact .rescan hl hp
    · exact .afterScan (.inr hl) (.inl rfl)
  · simp at h

theorem moves_stepCheck (h : s.stepCheck exclusionHealthy deliveryHealthy status = some s') :
    s.Moves s' := by
  unfold stepCheck at h
  split at h
  · rename_i pc hl
    obtain ⟨pc', hpc', rfl⟩ := Option.map_eq_some_iff.1 h
    refine .check hl fun hcl => ?_
    rw [canScan, hcl] at hpc'
    exact ScanPc.check_false hpc'
  · simp at h

theorem moves_stepAnswer (h : s.stepAnswer a = some s') : s.Moves s' := by
  unfold stepAnswer at h
  split at h
  · rename_i pc hl
    obtain ⟨r, hr, rfl⟩ := Option.map_eq_some_iff.1 h
    obtain ⟨hnot, hcall⟩ := ScanPc.clearance_answer hr
    exact .answer r.2 hl hnot hcall
  · simp at h

theorem moves_step (h : s.step l = some s') : s.Moves s' := by
  cases l with
  | trigger reason =>
    simp only [step] at h
    split_ifs at h with hd
    cases h
    exact .trigger reason (Bool.eq_false_iff.2 hd)
  | call c =>
    simp only [step] at h
    split_ifs at h with hc
    cases h
    exact moves_stepCall hc
  | closeFlag =>
    cases h
    exact .closeFlag
  | closePending =>
    simp only [step] at h
    split_ifs at h with hz
    cases h
    exact .closePending (Nat.pos_of_ne_zero hz)
  | drop =>
    simp only [step] at h
    split_ifs at h with hnil
    cases h
    exact .drop hnil
  | loop => exact moves_stepLoop h
  | check exclusionHealthy deliveryHealthy status => exact moves_stepCheck h
  | answer a => exact moves_stepAnswer h

end Reconciler
end PeatNode.Reconcile
