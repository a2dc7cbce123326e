/-
# Granted digests

A digest that the journal has granted to a call of `deliver` is on its way to the publisher: with
the call, in the FIFO, or in the hand of the egress worker (`Process.grants`).  Only the worker's
answer `Ok(true)` to a reservation adds to it (`Process.serve_cases`); every other step passes
grants on or drops them, and leaves the journal alone (`Process.quiet_step`).
-/

import Mathlib.Tactic.Abel
import PeatNode.Egress.Turns

namespace PeatNode.Egress

open Bridge Ledger Call Multiset Worker

/-- Granted and not yet passed on. -/
def Call.grant (c : Call) : Multiset LedgerDigest :=
  match c.pc with
  | .answered (.ok true) => {c.offer.item.digest}
  | _ => 0

theorem Call.grant_of_command {c : Call} {command : Command} (h : c.command = some command) :
    c.grant = 0 ∧ command.digest = c.offer.item.digest ∧ command.state = .reserved := by
  unfold Call.command at h
  split at h
  · rename_i ticket hpc
    cases h
    exact ⟨by simp [Call.grant, hpc], rfl, rfl⟩
  · simp at h

theorem Call.grant_answered_of_ne {offer : Offer} (h : answer ≠ .ok true) :
    (⟨offer, .answered answer⟩ : Call).grant = 0 := by
  rcases answer with e | _ | _
  · rfl
  · rfl
  · exact absurd rfl h

/-- Received and not yet published. -/
def EgressPc.grant : EgressPc → Multiset LedgerDigest
  | .received o => {o.item.digest}
  | _ => 0

def digests (offers : List Offer) : Multiset LedgerDigest := (offers.map fun o => o.item.digest : List _)

@[simp] theorem digests_nil : digests [] = 0 := rfl

@[simp] theorem digests_cons (o : Offer) (offers : List Offer) :
    digests (o :: offers) = {o.item.digest} + digests offers := by
  simp [digests]

@[simp] theorem digests_append (os os' : List Offer) : digests (os ++ os') = digests os + digests os' := by
  simp [digests, ← coe_add]

namespace Process

def grants (p : Process) : Multiset LedgerDigest :=
  p.calls.bind Call.grant + digests p.fifo + p.egress.grant

variable {c : Call}

theorem bind_grant_erase {calls : Multiset Call} (hc : c ∈ calls) :
    calls.bind grant = c.grant + (calls.erase c).bind grant := by
  rw [← cons_bind, cons_erase hc]

variable {p : Process}

theorem grants_move (hc : c ∈ p.calls) (pc : CallPc) :
    (p.move c pc).grants + c.grant = (⟨c.offer, pc⟩ : Call).grant + p.grants := by
  simp only [grants, move, cons_bind, bind_grant_erase hc]
  abel

/-- A call that moves on without a grant adds nothing. -/
theorem grants_move_le (hc : c ∈ p.calls) {pc : CallPc}
    (hpc : (⟨c.offer, pc⟩ : Call).grant = 0) : (p.move c pc).grants ≤ p.grants := by
  have h := grants_move hc pc
  rw [hpc, zero_add] at h
  rw [← h]
  exact le_add_right _ _

/-- A step that leaves the journal alone and grants nothing. -/
structure Quiet (p p' : Process) : Prop where
  journal_eq : p'.worker.journal = p.worker.journal
  grants_le : p'.grants ≤ p.grants

theorem quiet_move (hc : c ∈ p.calls) {pc : CallPc}
    (hpc : (⟨c.offer, pc⟩ : Call).grant = 0) : Quiet p (p.move c pc) :=
  ⟨rfl, grants_move_le hc hpc⟩

/-- The egress worker moves on without a new item. -/
theorem grants_le_of_egress {p p' : Process} (hcalls : p'.calls = p.calls) (hfifo : p'.fifo = p.fifo)
    (he : p'.egress.grant = 0) : p'.grants ≤ p.grants := by
  rw [grants, grants, hcalls, hfifo, he, add_zero]
  exact le_add_right _ _

theorem quiet_dropEgress (p : Process) : Quiet p p.dropEgress := by
  refine ⟨rfl, ?_⟩
  simp only [grants, dropEgress, digests_nil, EgressPc.grant, add_zero]
  exact le_add_right _ _ |>.trans (le_add_right _ _)

theorem quiet_afterReserve (hc : c ∈ p.calls) {answer : Except LedgerError Bool}
    (hpc : c.pc = .answered answer) : Quiet p (p.afterReserve c answer) := by
  unfold afterReserve
  rcases answer with e | _ | _
  · exact ⟨rfl, grants_move_le hc rfl⟩
  · exact quiet_move hc rfl
  · split_ifs
    · exact quiet_move hc rfl
    · exact quiet_move hc rfl
    · have hgrant : c.grant = {c.offer.item.digest} := by simp [grant, hpc]
      refine ⟨rfl, le_of_eq ?_⟩
      simp only [grants, move, cons_bind, bind_grant_erase hc, hgrant, digests_append,
        digests_cons, digests_nil]
      simp only [grant]
      abel

variable {k : EgressClassifier} {parse : String → Option BridgeEnvelope} {p p' : Process}

/-- **Only the worker grants.**  Every other step is quiet. -/
theorem quiet_step {a : Action} (h : p.step k parse a = some p')
    (ha : ∀ io receiver, a ≠ .serve io receiver) : Quiet p p' := by
  cases Turn.of_step h with
  | answered io | completeAnswered io | servedNobody io => exact absurd rfl (ha io _)
  | offered ho => exact ⟨rfl, by simp [grants, grant]⟩
  | setStatus | skipped | ledgerStopped => exact ⟨rfl, le_rfl⟩
  | admitted hc | refused hc | cleared hc | unhealthy hc | unsent hc | unanswered hc =>
    exact quiet_move hc rfl
  | sent hc => exact ⟨rfl, grants_move_le hc rfl⟩
  | resumed hc hpc => exact quiet_afterReserve hc hpc
  | aborted hc =>
    refine ⟨rfl, ?_⟩
    simp only [grants, bind_grant_erase hc]
    gcongr
    exact le_add_left _ _
  | received hegress hfifo =>
    refine ⟨rfl, le_of_eq ?_⟩
    simp only [grants, hegress, hfifo, digests_cons, EgressPc.grant]
    abel
  | flushed | publishFailed | completeCleared | completeUnhealthy | completeSent | completeUnsent
  | completeUnanswered | completed | uncompleted =>
    exact ⟨rfl, grants_le_of_egress rfl rfl rfl⟩
  | panicked | egressAborted => exact quiet_dropEgress p

/-- **What serving a command does.** At most one digest is granted: the one the command reserves,
if the answer is `Ok(true)`. -/
theorem serve_cases {receiver : Receiver} (h : p.step k parse (.serve io receiver) = some p') :
    ∃ command rest, p.commands = command :: rest ∧ p'.worker.journal =
        (recordInner p.worker.journal command.digest command.state io).1 ∧
      (p'.grants ≤ p.grants ∨ command.state = .reserved ∧ p'.grants = {command.digest} + p.grants ∧
          (recordInner p.worker.journal command.digest command.state io).2 = .ok true) := by
  cases Turn.of_step h with
  | answered io hcommands hc hcommand =>
    rename_i c command rest
    refine ⟨command, rest, hcommands, journal_serveRecord _ _ _ _, ?_⟩
    obtain ⟨hzero, hdigest, hstate⟩ := grant_of_command hcommand
    have hmove := grants_move hc (.answered
      (recordInner p.worker.journal command.digest command.state io).2)
    rw [hzero, add_zero] at hmove
    show grants (p.move c (.answered (p.worker.serveRecord _ _ io).2)) ≤ _ ∨
      _ ∧ grants (p.move c (.answered (p.worker.serveRecord _ _ io).2)) = _ ∧ _
    rw [reply_serveRecord, hmove]
    by_cases hans : (recordInner p.worker.journal command.digest command.state io).2 = .ok true
    · exact .inr ⟨hstate, by rw [hans, hdigest]; rfl, hans⟩
    · exact .inl (by rw [grant_answered_of_ne hans, zero_add])
  | completeAnswered io hcommands hcommand =>
    exact ⟨_, _, hcommands, journal_serveRecord _ _ _ _,
      .inl (grants_le_of_egress rfl rfl rfl)⟩
  | servedNobody io hcommands =>
    exact ⟨_, _, hcommands, journal_serveRecord _ _ _ _, .inl le_rfl⟩

end Process

end PeatNode.Egress
