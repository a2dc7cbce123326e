/-
# The runtime of a bundle

`src/attachments/runtime.rs`: one slot per distribution, a counter of those that have ended, and
the broadcast channel of the progress frames.  `apply_progress` and `apply_cancellation` take the
lock for the slot only; the counter and the channel come after it. A call has three sections
(`UpdateCall`), and other calls may come between them.  Progress keeps every terminal state, a
cancellation keeps `Completed` and `Cancelled` and relabels `Failed`.
-/

import PeatNode.Attachments.SendAttachments
import PeatNode.Lib.Broadcast
import PeatNode.Lib.Lists

namespace PeatNode.Attachments

open Broadcast List

/-! ### States and statuses -/

inductive DistributionState
  | pending
  | inProgress
  | completed
  | failed
  | cancelled
deriving DecidableEq

def DistributionState.isTerminal : DistributionState → Bool
  | .completed | .failed | .cancelled => true
  | .pending | .inProgress => false

inductive DistributionStatus
  | unspecified
  | pending
  | inProgress
  | completed
  | partially
  | failed
  | cancelled
deriving DecidableEq

def isTerminalStatus : DistributionStatus → Bool
  | .completed | .partially | .failed | .cancelled => true
  | .unspecified | .pending | .inProgress => false

def aggregatedToDistributionState : DistributionStatus → DistributionState
  | .pending | .unspecified => .pending
  | .inProgress => .inProgress
  | .completed | .partially => .completed
  | .failed => .failed
  | .cancelled => .cancelled

/-- A status is terminal exactly if the state it stands for is. -/
theorem isTerminal_aggregated (status : DistributionStatus) :
    (aggregatedToDistributionState status).isTerminal = isTerminalStatus status := by
  cases status <;> rfl

/-- A progress frame; `changed_node` is never set. -/
structure AttachmentProgress where
  distributionId : String
  blobToken : String
  status : DistributionStatus
  bytesTransferred : UInt64
  bytesTotal : UInt64
  error : Option String
deriving DecidableEq

def AttachmentProgress.isTerminal (p : AttachmentProgress) : Bool := isTerminalStatus p.status

structure PerDistributionProgress where
  state : DistributionState
  bytesTransferred : UInt64
  bytesTotal : UInt64
  error : Option String
  lastProgress : AttachmentProgress
deriving DecidableEq

/-! ### The runtime -/

def progressBacklog : ℕ := 64

structure BundleRuntime where
  progressTx : Channel AttachmentProgress
  perDistribution : List PerDistributionProgress
  terminalCount : ℕ
  totalDistributions : ℕ
deriving DecidableEq

namespace BundleRuntime

/-- The runtime that `register` allocates. -/
def new (slots : List PerDistributionProgress) : BundleRuntime :=
  ⟨.new progressBacklog, slots, 0, slots.length⟩

def allTerminal (rt : BundleRuntime) : Bool := rt.totalDistributions ≤ rt.terminalCount

def Ended (rt : BundleRuntime) : Prop := ∀ slot ∈ rt.perDistribution, slot.state.isTerminal = true
deriving Decidable

def count (rt : BundleRuntime) (fresh : Bool) : BundleRuntime :=
  if fresh then { rt with terminalCount := rt.terminalCount + 1 } else rt

def send (rt : BundleRuntime) (progress : AttachmentProgress) : BundleRuntime :=
  { rt with progressTx := rt.progressTx.send progress }

@[simp] theorem perDistribution_count (rt : BundleRuntime) (fresh : Bool) :
    (rt.count fresh).perDistribution = rt.perDistribution := by
  cases fresh <;> rfl

@[simp] theorem progressTx_count (rt : BundleRuntime) (fresh : Bool) :
    (rt.count fresh).progressTx = rt.progressTx := by
  cases fresh <;> rfl

@[simp] theorem totalDistributions_count (rt : BundleRuntime) (fresh : Bool) :
    (rt.count fresh).totalDistributions = rt.totalDistributions := by
  cases fresh <;> rfl

end BundleRuntime

/-! ### Updates -/

structure Update where
  cancels : Bool
  fileIndex : ℕ
  newState : DistributionState
  progress : AttachmentProgress
deriving DecidableEq

def applyProgress (fileIndex : ℕ) (newState : DistributionState) (progress : AttachmentProgress) :
    Update :=
  ⟨false, fileIndex, newState, progress⟩

def applyCancellation (fileIndex : ℕ) (progress : AttachmentProgress) : Update :=
  ⟨true, fileIndex, .cancelled, progress⟩

namespace Update

/-- The states that the update keeps. -/
def keeps (u : Update) (state : DistributionState) : Bool :=
  if u.cancels then state = .completed || state = .cancelled else state.isTerminal

def slot (u : Update) : PerDistributionProgress :=
  ⟨u.newState, u.progress.bytesTransferred, u.progress.bytesTotal, u.progress.error, u.progress⟩

end Update

inductive UpdatePc
  | writing
  | counting (fresh : Bool)
  | sending (fresh : Bool)
  | returned (fresh : Bool)
deriving DecidableEq

structure UpdateCall where
  update : Update
  pc : UpdatePc
deriving DecidableEq

namespace UpdateCall

def goto (c : UpdateCall) (pc : UpdatePc) : UpdateCall := { c with pc := pc }

def advance (rt : BundleRuntime) (c : UpdateCall) : Option (BundleRuntime × UpdateCall) :=
  match c.pc with
  | .writing =>
    match rt.perDistribution[c.update.fileIndex]? with
    | none => some (rt, c.goto (.returned false))
    | some slot =>
      if c.update.keeps slot.state then some (rt, c.goto (.returned false))
      else
        some ({ rt with
            perDistribution := rt.perDistribution.set c.update.fileIndex c.update.slot },
          c.goto (.counting (!slot.state.isTerminal && c.update.newState.isTerminal)))
  | .counting fresh => some (rt.count fresh, c.goto (.sending fresh))
  | .sending fresh => some (rt.send c.update.progress, c.goto (.returned fresh))
  | .returned _ => none

/-- In the slot and not yet in the channel. -/
def pending (c : UpdateCall) : Option AttachmentProgress :=
  match c.pc with
  | .counting _ | .sending _ => some c.update.progress
  | .writing | .returned _ => none

inductive Turn (rt : BundleRuntime) (c : UpdateCall) : BundleRuntime → UpdateCall → Prop
  | refused (hpc : c.pc = .writing)
      (hkeeps : ∀ slot ∈ rt.perDistribution[c.update.fileIndex]?, c.update.keeps slot.state) :
      Turn rt c rt (c.goto (.returned false))
  | written (hpc : c.pc = .writing)
      (hslot : rt.perDistribution[c.update.fileIndex]? = some slot)
      (hkeeps : c.update.keeps slot.state = false) :
      Turn rt c
        { rt with perDistribution := rt.perDistribution.set c.update.fileIndex c.update.slot }
        (c.goto (.counting (!slot.state.isTerminal && c.update.newState.isTerminal)))
  | counted (hpc : c.pc = .counting fresh) :
      Turn rt c (rt.count fresh) (c.goto (.sending fresh))
  | sent (hpc : c.pc = .sending fresh) :
      Turn rt c (rt.send c.update.progress) (c.goto (.returned fresh))

variable {rt rt' : BundleRuntime} {c c' : UpdateCall}

theorem Turn.of_advance (h : advance rt c = some (rt', c')) : Turn rt c rt' c' := by
  unfold advance at h
  split at h
  all_goals grind [Turn]

theorem Turn.update (h : Turn rt c rt' c') : c'.update = c.update := by
  cases h <;> rfl

/-- An update that is not refused is written. -/
theorem advance_of_not_keeps (hpc : c.pc = .writing)
    (hslot : rt.perDistribution[c.update.fileIndex]? = some slot)
    (hkeeps : c.update.keeps slot.state = false) :
    advance rt c = some
      ({ rt with perDistribution := rt.perDistribution.set c.update.fileIndex c.update.slot },
        c.goto (.counting (!slot.state.isTerminal && c.update.newState.isTerminal))) := by
  simp [advance, hpc, hslot, hkeeps]

end UpdateCall

/-- A call of the handlers: the frame names the distribution of its slot, and the state is that of
the frame's status. -/
structure Update.Concerns (u : Update) (ids : List String) : Prop where
  slot : ids[u.fileIndex]? = some u.progress.distributionId
  state : u.newState = aggregatedToDistributionState u.progress.status
  cancelled : u.cancels = true → u.newState = .cancelled

instance (u : Update) (ids : List String) : Decidable (u.Concerns ids) :=
  decidable_of_iff (ids[u.fileIndex]? = some u.progress.distributionId ∧
      u.newState = aggregatedToDistributionState u.progress.status ∧
      (u.cancels = true → u.newState = .cancelled))
    ⟨fun ⟨h₁, h₂, h₃⟩ => ⟨h₁, h₂, h₃⟩, fun h => ⟨h.slot, h.state, h.cancelled⟩⟩

theorem Update.Concerns.isTerminal {u : Update} (h : u.Concerns ids) :
    u.newState.isTerminal = u.progress.isTerminal := by
  rw [h.state, isTerminal_aggregated, AttachmentProgress.isTerminal]

/-- What an update replaces a terminal state by is terminal. -/
theorem Update.isTerminal_of_keeps {u : Update} (h : u.cancels = true → u.newState = .cancelled)
    (hkeeps : u.keeps state = false) (hstate : state.isTerminal = true) :
    u.newState.isTerminal = true := by
  cases hcancels : u.cancels with
  | false => simp [keeps, hcancels, hstate] at hkeeps
  | true =>
    rw [h hcancels]
    rfl

/-! ### The counter -/

def BundleRuntime.endedCount (rt : BundleRuntime) : ℕ :=
  rt.perDistribution.countP fun slot => slot.state.isTerminal

theorem BundleRuntime.ended_iff (rt : BundleRuntime) :
    rt.Ended ↔ rt.perDistribution.length ≤ rt.endedCount := by
  rw [Ended, endedCount, ← countP_eq_length]
  exact ⟨fun h => h.ge, fun h => le_antisymm countP_le_length h⟩

/-- What it will still add to the counter. -/
def UpdateCall.due (c : UpdateCall) : ℕ := if c.pc = .counting true then 1 else 0

namespace UpdateCall

variable {rt rt' : BundleRuntime} {c c' : UpdateCall}

theorem Turn.sized (h : Turn rt c rt' c') : rt'.totalDistributions = rt.totalDistributions ∧
      rt'.perDistribution.length = rt.perDistribution.length := by
  cases h with
  | refused | sent => exact ⟨rfl, rfl⟩
  | written => exact ⟨rfl, length_set⟩
  | counted => simp

/-- **The counter and what is due follow the slots.** -/
theorem Turn.due (hcancels : c.update.cancels = true → c.update.newState = .cancelled)
    (h : Turn rt c rt' c') :
    rt'.terminalCount + c'.due + rt.endedCount = rt.terminalCount + c.due + rt'.endedCount := by
  cases h with
  | refused hpc => simp [due, goto, hpc]
  | sent hpc => simp [due, goto, hpc, BundleRuntime.send, BundleRuntime.endedCount]
  | @counted fresh hpc =>
    cases fresh <;> simp [due, goto, hpc, BundleRuntime.count, BundleRuntime.endedCount]
  | @written slot hpc hslot hkeeps =>
    have hterminal := Update.isTerminal_of_keeps hcancels hkeeps
    obtain ⟨l₁, l₂, hsplit, hset⟩ := exists_set_split hslot
    simp only [BundleRuntime.endedCount, hset]
    rw [hsplit]
    simp only [countP_append, countP_cons, due, goto, hpc, Update.slot]
    cases hold : slot.state.isTerminal with
    | false =>
      cases c.update.newState.isTerminal with
      | false => simp
      | true =>
        simp
        omega
    | true => simp [hterminal hold]

theorem Turn.ended (hcancels : c.update.cancels = true → c.update.newState = .cancelled)
    (h : Turn rt c rt' c') (hended : rt.Ended) : rt'.Ended := by
  cases h with
  | refused | sent => exact hended
  | counted =>
    rw [BundleRuntime.Ended, BundleRuntime.perDistribution_count]
    exact hended
  | @written slot hpc hslot hkeeps =>
    exact forall_mem_set hended
      (Update.isTerminal_of_keeps hcancels hkeeps (hended slot (mem_of_getElem? hslot)))

end UpdateCall

/-! ### Any number of calls -/

structure SharedRuntime where
  runtime : BundleRuntime
  calls : List UpdateCall

inductive SharedLabel
  | applyProgress (fileIndex : ℕ) (newState : DistributionState) (progress : AttachmentProgress)
  | applyCancellation (fileIndex : ℕ) (progress : AttachmentProgress)
  | advance (i : ℕ)
deriving DecidableEq

namespace SharedRuntime

def register (slots : List PerDistributionProgress) : SharedRuntime := ⟨.new slots, []⟩

def begin (s : SharedRuntime) (u : Update) : SharedRuntime :=
  { s with calls := s.calls ++ [⟨u, .writing⟩] }

def step (s : SharedRuntime) : SharedLabel → Option SharedRuntime
  | .applyProgress fileIndex newState progress =>
    some (s.begin (Attachments.applyProgress fileIndex newState progress))
  | .applyCancellation fileIndex progress =>
    some (s.begin (Attachments.applyCancellation fileIndex progress))
  | .advance i =>
    s.calls[i]?.bind fun c =>
      (c.advance s.runtime).map fun r => ⟨r.1, s.calls.set i r.2⟩

def Idle (s : SharedRuntime) : Prop :=
  ∀ c ∈ s.calls, c.pc = .returned true ∨ c.pc = .returned false

/-- The counter lacks what the calls are about to add. -/
structure Counted (n : ℕ) (s : SharedRuntime) : Prop where
  cancels : ∀ c ∈ s.calls, c.update.cancels = true → c.update.newState = .cancelled
  total : s.runtime.totalDistributions = n
  length : s.runtime.perDistribution.length = n
  balanced : s.runtime.terminalCount + (s.calls.map UpdateCall.due).sum = s.runtime.endedCount

variable {n : ℕ} {s s' : SharedRuntime} {label : SharedLabel}

theorem counted_register (h : ∀ slot ∈ slots, slot.state = .pending) :
    (register slots).Counted slots.length where
  cancels c hc := absurd hc not_mem_nil
  total := rfl
  length := rfl
  balanced := by
    refine (countP_eq_zero.2 fun slot hslot => ?_).symm
    simp [h slot hslot, DistributionState.isTerminal]

theorem Counted.begin (hs : s.Counted n) (hu : u.cancels = true → u.newState = .cancelled) :
    (s.begin u).Counted n where
  cancels := forall_mem_concat hs.cancels hu
  total := hs.total
  length := hs.length
  balanced := by simpa [SharedRuntime.begin, UpdateCall.due] using hs.balanced

theorem exists_turn (h : s.step (.advance i) = some s') :
    ∃ c c', s.calls[i]? = some c ∧ UpdateCall.Turn s.runtime c s'.runtime c' ∧
      s'.calls = s.calls.set i c' := by
  obtain ⟨c, hc, h⟩ := Option.bind_eq_some_iff.1 h
  obtain ⟨⟨rt', c'⟩, hadvance, rfl⟩ := Option.map_eq_some_iff.1 h
  exact ⟨c, c', hc, .of_advance hadvance, rfl⟩

theorem Counted.step (hs : s.Counted n) (h : s.step label = some s') : s'.Counted n := by
  cases label with
  | applyProgress fileIndex newState progress =>
    cases h
    exact hs.begin fun h => absurd h (by simp [applyProgress])
  | applyCancellation fileIndex progress =>
    cases h
    exact hs.begin fun _ => rfl
  | advance i =>
    obtain ⟨c, c', hc, hturn, hcalls⟩ := exists_turn h
    have hcancels := hs.cancels c (mem_of_getElem? hc)
    have hsum := sum_map_set hc UpdateCall.due c'
    have hdue := hturn.due hcancels
    have hbalanced := hs.balanced
    refine ⟨?_, hturn.sized.1.trans hs.total, hturn.sized.2.trans hs.length, ?_⟩
    · rw [hcalls]
      exact forall_mem_set hs.cancels (by rwa [hturn.update])
    · rw [hcalls]
      omega

/-- Only a failure is relabelled, by a cancellation. -/
def Relabels (slot slot' : PerDistributionProgress) : Prop :=
  slot' = slot ∨ slot.state = .failed ∧ slot'.state = .cancelled

/-- A terminal slot changes only if a cancellation relabels its failure. -/
theorem slot_step (hs : s.Counted n) (h : s.step label = some s')
    (hslot : s.runtime.perDistribution[j]? = some slot) (hterminal : slot.state.isTerminal = true) :
    ∃ slot', s'.runtime.perDistribution[j]? = some slot' ∧ Relabels slot slot' ∧
      (slot' ≠ slot → ∃ i c, label = .advance i ∧ s.calls[i]? = some c ∧
        c.update.cancels = true ∧ c.update.fileIndex = j) := by
  cases label with
  | applyProgress | applyCancellation =>
    cases h
    exact ⟨slot, hslot, .inl rfl, fun hne => absurd rfl hne⟩
  | advance i =>
    obtain ⟨c, c', hc, hturn, -⟩ := exists_turn h
    have hcancels := hs.cancels c (mem_of_getElem? hc)
    generalize s'.runtime = rt' at hturn ⊢
    cases hturn with
    | refused | sent => exact ⟨slot, hslot, .inl rfl, fun hne => absurd rfl hne⟩
    | counted =>
      rw [BundleRuntime.perDistribution_count]
      exact ⟨slot, hslot, .inl rfl, fun hne => absurd rfl hne⟩
    | @written old hpc hold hkeeps =>
      by_cases hj : c.update.fileIndex = j
      · subst hj
        cases hold.symm.trans hslot
        -- progress keeps every terminal slot
        have hcancel : c.update.cancels = true := by
          by_contra hno
          simp [Update.keeps, hno, hterminal] at hkeeps
        have hfailed : slot.state = .failed := by
          cases hstate : slot.state <;> simp_all [Update.keeps, DistributionState.isTerminal]
        refine ⟨c.update.slot, List.getElem?_set_self (List.getElem?_eq_some_iff.1 hslot).1,
          .inr ⟨hfailed, hcancels hcancel⟩, fun _ => ⟨i, c, rfl, hc, hcancel, rfl⟩⟩
      · exact ⟨slot, (List.getElem?_set_ne hj).trans hslot, .inl rfl, fun hne => absurd rfl hne⟩

theorem slot_exec (hs : s.Counted n) (h : Lts.exec step s labels = some s') {j : ℕ}
    (hslot : s.runtime.perDistribution[j]? = some slot) (hterminal : slot.state.isTerminal = true) :
    ∃ slot', s'.runtime.perDistribution[j]? = some slot' ∧ Relabels slot slot' := by
  induction labels generalizing s slot with
  | nil =>
    cases h
    exact ⟨slot, hslot, .inl rfl⟩
  | cons label labels ih =>
    obtain ⟨t, hstep, hrest⟩ := Lts.exec_cons_eq_some.1 h
    obtain ⟨next, hnext, hrelabels, -⟩ := slot_step hs hstep hslot hterminal
    rcases hrelabels with rfl | ⟨hfailed, hcancelled⟩
    · exact ih (hs.step hstep) hrest hnext hterminal
    · obtain ⟨slot', hslot', hlater⟩ := ih (hs.step hstep) hrest hnext (by rw [hcancelled]; rfl)
      refine ⟨slot', hslot', .inr ⟨hfailed, ?_⟩⟩
      rcases hlater with rfl | ⟨hfailed', -⟩
      · exact hcancelled
      · exact absurd (hcancelled.symm.trans hfailed') (by decide)

/-- **The counter is sound.** Whatever the interleaving, it is never ahead of the slots and level
with them when no call is in progress, and a slot that has ended changes only by the one
relabelling of a failure by a cancellation. -/
theorem terminal_counting_sound {slots : List PerDistributionProgress}
    (hslots : ∀ slot ∈ slots, slot.state = .pending) {labels : List SharedLabel}
    (h : Lts.exec step (register slots) labels = some s) :
    s.runtime.terminalCount ≤ s.runtime.endedCount ∧
      (s.Idle → s.runtime.terminalCount = s.runtime.endedCount) ∧
      s.runtime.terminalCount ≤ slots.length ∧
      (s.runtime.allTerminal = true → s.runtime.Ended) ∧
      ∀ j slot, s.runtime.perDistribution[j]? = some slot → slot.state.isTerminal = true →
        (∀ label s', s.step label = some s' → ∃ slot', s'.runtime.perDistribution[j]? = some slot' ∧
          Relabels slot slot' ∧ (slot' ≠ slot → ∃ i c, label = .advance i ∧ s.calls[i]? = some c ∧
            c.update.cancels = true ∧ c.update.fileIndex = j)) ∧
        ∀ later s', Lts.exec step s later = some s' →
          ∃ slot', s'.runtime.perDistribution[j]? = some slot' ∧ Relabels slot slot' := by
  have hs : s.Counted slots.length :=
    Lts.exec_preserves (Counted slots.length) (fun _ _ _ hs h => hs.step h)
      (counted_register hslots) h
  have hbalanced := hs.balanced
  have hended : s.runtime.endedCount ≤ slots.length := hs.length ▸ countP_le_length
  refine ⟨by omega, fun hidle => ?_, by omega, fun hall => ?_, fun j slot hslot hterminal => ?_⟩
  · have hdue : (s.calls.map UpdateCall.due).sum = 0 := by
      refine sum_eq_zero fun d hd => ?_
      obtain ⟨c, hc, rfl⟩ := mem_map.1 hd
      rcases hidle c hc with hpc | hpc <;> simp [UpdateCall.due, hpc]
    omega
  · have hreached : s.runtime.totalDistributions ≤ s.runtime.terminalCount := of_decide_eq_true hall
    rw [BundleRuntime.ended_iff, hs.length]
    have htotal := hs.total
    omega
  · exact ⟨fun label s' hstep => slot_step hs hstep hslot hterminal,
      fun later s' hlater => slot_exec hs hlater hslot hterminal⟩

def sampleFrame (status : DistributionStatus) : AttachmentProgress := ⟨"d1", "b1", status, 0, 1, none⟩

def relabelling : List SharedLabel :=
  [.applyProgress 0 .failed (sampleFrame .failed), .advance 0, .advance 0, .advance 0,
    .applyCancellation 0 (sampleFrame .cancelled), .advance 1, .advance 1, .advance 1]

theorem terminal_counting_relabelling :
    ∃ s ∈ Lts.exec step (register [⟨.pending, 0, 1, none, sampleFrame .pending⟩]) relabelling,
      s.Idle ∧ s.runtime.terminalCount = s.runtime.endedCount ∧
        s.runtime.perDistribution.map (·.state) = [.cancelled] := by
  obtain ⟨s, hrun⟩ : ∃ s, Lts.exec step (register [⟨.pending, 0, 1, none, sampleFrame .pending⟩])
      relabelling = some s := ⟨_, rfl⟩
  have hidle : s.Idle := by
    cases hrun
    unfold Idle
    decide +kernel
  refine ⟨s, hrun, hidle, (terminal_counting_sound (by simp) hrun).2.1 hidle, ?_⟩
  cases hrun
  rfl

end SharedRuntime

end PeatNode.Attachments
