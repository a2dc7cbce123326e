/-
# Generations of subscriptions

What a step of the supervisor does to its generation.  All that matters is where
the supervisor stands with respect to building and stopping (`Phase`) and which
generation it holds; `GenerationMove.of_step` reads every possible move off the
turns.
-/

import PeatNode.Bridge.Supervisor

namespace PeatNode.Bridge.ClientSupervisor

inductive Phase
  | running
  | building
  | removing
  | stopping
  | returned
deriving DecidableEq

def phase (s : ClientSupervisor) : Phase :=
  match s.pc with
  | .selecting | .connecting _ | .committing _ => .running
  | .building _ => .building
  | .removing _ => .removing
  | .stopping => .stopping
  | .returned => .returned

inductive GenerationMove (s : ClientSupervisor) (l : Label) (s' : ClientSupervisor) : Prop
  | stay (phase : s'.phase = s.phase) (generation : s'.generationId = s.generationId)
      (build : ∀ subscribed, l ≠ .build subscribed)
      (proceed : l = .proceed → s.phase = .running)
  | leave (before : s.phase = .running) (generation : s'.generationId = s.generationId)
      (after : s'.phase = .removing ∨ s'.phase = .stopping ∨
        s'.phase = .building ∧ s.generationId = none)
      (build : ∀ subscribed, l ≠ .build subscribed)
  | removed (label : l = .proceed) (before : s.phase = .removing) (generation : s'.generationId = none)
      (after : s'.phase = .running ∨ s'.phase = .building)
  | stopped (label : l = .proceed) (before : s.phase = .stopping) (generation : s'.generationId = none)
      (after : s'.phase = .returned)
  | built (subscribed : Bool) (label : l = .build subscribed) (before : s.phase = .building)
      (after : s'.phase = .running)
      (generation : s'.generationId = if subscribed then some s.nextGenerationId else none)

namespace GenerationMove

variable {s s' : ClientSupervisor} {l : Label}

theorem connect (hpc : s.pc = .connecting delivered) :
    GenerationMove s .proceed (s.connect delivered) := by
  have hrunning : s.phase = .running := by rw [phase, hpc]
  rcases connect_eq s delivered with ⟨epoch, barrier, heq⟩ | ⟨hnone, heq⟩ <;> rw [heq]
  · exact .stay hrunning.symm rfl nofun fun _ => hrunning
  · exact .leave hrunning rfl (.inr (.inr ⟨rfl, hnone⟩)) nofun

theorem remove (hpc : s.pc = .removing action) : GenerationMove s .proceed (s.remove action) := by
  have hphase : s.phase = .removing := by rw [phase, hpc]
  obtain ⟨pc, hafter, heq⟩ := remove_eq s action
  rw [heq]
  rcases hafter with rfl | rfl
  · exact .removed rfl hphase rfl (.inl rfl)
  · exact .removed rfl hphase rfl (.inr rfl)

theorem build (hpc : s.pc = .building delivered) (lifecycle : LifecycleSnapshot) :
    GenerationMove s (.build subscribed) (startBarrier { s with
        generation := if subscribed then some ⟨s.nextGenerationId, false⟩ else none
        nextGenerationId := saturatingSucc s.nextGenerationId } lifecycle) := by
  obtain ⟨barrier, heq⟩ := startBarrier_eq { s with
      generation := if subscribed then some ⟨s.nextGenerationId, false⟩ else none
      nextGenerationId := saturatingSucc s.nextGenerationId } lifecycle
  rw [heq]
  refine .built subscribed rfl (by rw [phase, hpc]) rfl ?_
  cases subscribed <;> rfl

theorem of_pc_eq (hpc : s'.pc = s.pc) (hid : s'.generationId = s.generationId)
    (hbuild : ∀ subscribed, l ≠ .build subscribed) (hproceed : l ≠ .proceed) :
    GenerationMove s l s' :=
  .stay (by rw [phase, phase, hpc]) hid hbuild fun h => absurd h hproceed

/-- **Every step of the supervisor is one of these moves.** -/
theorem of_step (hs : s.step l = some s') : GenerationMove s l s' := by
  have hselecting : s.pc = .selecting → s.phase = .running := fun hpc => by rw [phase, hpc]
  cases Turn.of_step hs with
  | ignore | deliver | record | degrade | roundTrip | staleSignal | barrierFailed | staleBarrier =>
    exact .of_pc_eq rfl rfl nofun nofun
  | generationEnds generation =>
    exact .of_pc_eq rfl (by simp [generationId, generation]) nofun nofun
  | invalidated pc | read pc | barrier pc =>
    exact .stay (hselecting pc).symm rfl nofun nofun
  | signal pc => exact .leave (hselecting pc) rfl (.inl rfl) nofun
  | shutdown pc => exact .leave (hselecting pc) rfl (.inr (.inl rfl)) nofun
  | build pc => exact .build pc _
  | connect pc => exact .connect pc
  | remove pc => exact .remove pc
  | @commit tags pc =>
    have hrunning : s.phase = .running := by rw [phase, pc]
    obtain ⟨triggered, readyGenerations, heq⟩ := commit_eq s tags
    rw [heq]
    exact .stay hrunning.symm rfl nofun fun _ => hrunning
  | stop pc => exact .stopped rfl (by rw [phase, pc]) rfl rfl

end GenerationMove

/-! ### Before the shutdown -/

/-- It accepts messages, and no shutdown has begun. -/
def Open (s : ClientSupervisor) : Prop :=
  s.status.accepting = true ∧ s.phase ≠ .stopping ∧ s.phase ≠ .returned

/-- A bridge that nobody shuts down stays open. -/
theorem Open.step {s s' : ClientSupervisor} (h : s.Open) (hl : l ≠ .shutdown)
    (hdegrade : l ≠ .degrade .beginShutdown) (hs : s.step l = some s') : s'.Open := by
  obtain ⟨hacc, hstop, hreturned⟩ := h
  cases Turn.of_step hs with
  | ignore | record | roundTrip | generationEnds | staleSignal | barrierFailed | staleBarrier =>
    exact ⟨hacc, hstop, hreturned⟩
  | @deliver event => exact ⟨by cases event <;> exact hacc, hstop, hreturned⟩
  | degrade cause =>
    cases cause with
    | deliveryUnhealthy | exclusionUnhealthy => exact ⟨hacc, hstop, hreturned⟩
    | beginShutdown => exact absurd rfl hdegrade
  | invalidated | read | signal | barrier => exact ⟨hacc, nofun, nofun⟩
  | shutdown => exact absurd rfl hl
  | build =>
    obtain ⟨barrier, heq⟩ := startBarrier_eq _ _
    rw [heq]
    exact ⟨hacc, nofun, nofun⟩
  | @connect delivered =>
    rcases connect_eq s delivered with ⟨epoch, barrier, heq⟩ | ⟨-, heq⟩ <;> rw [heq]
    all_goals exact ⟨hacc, nofun, nofun⟩
  | @remove action =>
    obtain ⟨pc, rfl | rfl, heq⟩ := remove_eq s action <;> rw [heq]
    all_goals exact ⟨hacc, nofun, nofun⟩
  | @commit tags =>
    obtain ⟨triggered, readyGenerations, heq⟩ := commit_eq s tags
    rw [heq]
    exact ⟨hacc, nofun, nofun⟩
  | stop pc => exact absurd (by rw [phase, pc]) hstop

end PeatNode.Bridge.ClientSupervisor
