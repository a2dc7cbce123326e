/-
# The turns of a process

`Process.step` read backwards: if a step is taken, it is one of the turns below,
with everything that the step checked.  An invariant of the delivery pipeline is
a case analysis over the turns.
-/

import PeatNode.Egress.System

namespace PeatNode.Egress

open Bridge Ledger

namespace Process

/-- `deliver` goes on to the journal. -/
def admitting (p : Process) : Bool :=
  p.status.accepting && p.status.deliveryHealthy && p.status.isReady

/-- One more command for the worker. -/
def enqueue (p : Process) (digest : LedgerDigest) (state : RecordState) : Process :=
  { p with
    commands := p.commands ++ [⟨p.nextTicket, digest, state⟩]
    nextTicket := p.nextTicket + 1 }

/-- The worker has served a command. -/
def served (p : Process) (command : Command) (rest : List Command) (io : RecordIo) : Process :=
  { p with
    worker := (p.worker.serveRecord command.digest command.state io).1
    commands := rest }

inductive Turn (k : EgressClassifier) (parse : String → Option BridgeEnvelope) (p : Process) :
    Action → Process → Prop
  | setStatus (status : BridgeStatus) : Turn k parse p (.setStatus status) { p with status := status }
  -- a call of `deliver`
  | offered (ho : offer k parse event = some o) :
      Turn k parse p (.deliver event) { p with calls := ⟨o, .classified⟩ ::ₘ p.calls }
  | skipped (ho : offer k parse event = none) :
      Turn k parse p (.deliver event) p
  | admitted (hc : c ∈ p.calls) (hpc : c.pc = .classified) (hready : p.admitting = true) :
      Turn k parse p (.checkReadiness c) (p.move c .admitted)
  | refused (hc : c ∈ p.calls) (hpc : c.pc = .classified) (hready : ¬ p.admitting = true) :
      Turn k parse p (.checkReadiness c) (p.move c (.done (.error (.lost .unavailable))))
  | cleared (hc : c ∈ p.calls) (hpc : c.pc = .admitted) :
      Turn k parse p (.checkHealth c) (p.move c .cleared)
  | unhealthy (hc : c ∈ p.calls) (hpc : c.pc = .admitted) :
      Turn k parse p (.checkHealth c) (p.move c (.answered (.error .unavailable)))
  | sent (hc : c ∈ p.calls) (hpc : c.pc = .cleared) :
      Turn k parse p (.send c)
        ((p.enqueue c.offer.item.digest .reserved).move c (.waiting p.nextTicket))
  | unsent (hc : c ∈ p.calls) (hpc : c.pc = .cleared) (e : LedgerError) :
      Turn k parse p (.send c) (p.move c (.answered (.error e)))
  | answered {c : Call} {command : Command} {rest : List Command} (io : RecordIo)
      (hcommands : p.commands = command :: rest) (hc : c ∈ p.calls)
      (hcommand : c.command = some command) : Turn k parse p (.serve io (.call c))
        ((p.served command rest io).move c
          (.answered (p.worker.serveRecord command.digest command.state io).2))
  | unanswered (hc : c ∈ p.calls) (hcommand : c.command.isSome) :
      Turn k parse p (.dropReply c) (p.move c (.answered (.error .stopped)))
  | resumed (hc : c ∈ p.calls)
      (hpc : c.pc = .answered answer) : Turn k parse p (.resume c) (p.afterReserve c answer)
  | aborted (hc : c ∈ p.calls) :
      Turn k parse p (.abort c) { p with calls := p.calls.erase c }
  -- the egress worker
  | received (hegress : p.egress = .idle) (hfifo : p.fifo = o :: rest) :
      Turn k parse p .receive { p with egress := .received o, fifo := rest }
  | flushed (hegress : p.egress = .publishing o) :
      Turn k parse p (.publishReturns (.ok ())) { p with egress := .flushed o }
  | publishFailed (hegress : p.egress = .publishing o) {kind : EgressFailureKind}
      (hkind : kind.ofPublisher = true) :
      Turn k parse p (.publishReturns (.error kind)) { p with egress := .idle }
  | panicked (hegress : p.egress = .publishing o) {kind : EgressFailureKind}
      (hkind : ¬ kind.ofPublisher = true) :
      Turn k parse p (.publishReturns (.error kind)) p.dropEgress
  | completeCleared (hegress : p.egress = .flushed o) :
      Turn k parse p .completeHealth { p with egress := .cleared o }
  | completeUnhealthy (hegress : p.egress = .flushed o) :
      Turn k parse p .completeHealth { p with egress := .answered (.error .unavailable) }
  | completeSent (hegress : p.egress = .cleared o) :
      Turn k parse p .completeSend
        { p.enqueue o.item.digest .completed with egress := .waiting p.nextTicket o }
  | completeUnsent (hegress : p.egress = .cleared o) (e : LedgerError) :
      Turn k parse p .completeSend { p with egress := .answered (.error e) }
  | completeAnswered (io : RecordIo)
      (hcommands : p.commands = command :: rest) (hcommand : p.egress.command = some command) :
      Turn k parse p (.serve io .egress) { p.served command rest io with
        egress := .answered (p.worker.serveRecord command.digest command.state io).2 }
  | completeUnanswered (hcommand : p.egress.command.isSome) :
      Turn k parse p .dropCompletion { p with egress := .answered (.error .stopped) }
  | completed (hegress : p.egress = .answered (.ok found)) :
      Turn k parse p .completeResume { p with egress := .idle }
  | uncompleted (hegress : p.egress = .answered (.error e)) :
      Turn k parse p .completeResume
        { p with egress := .idle, status := p.status.setDeliveryHealthy false }
  | egressAborted : Turn k parse p .abortEgress p.dropEgress
  -- the journal's worker
  | servedNobody (io : RecordIo)
      (hcommands : p.commands = command :: rest) :
      Turn k parse p (.serve io .gone) (p.served command rest io)
  | ledgerStopped : Turn k parse p .stopLedger { p with
      worker := { p.worker with healthy := false }
      commands := []
      stopped := true }

theorem stepCall_eq_some {p p' next : Process} (h : p.stepCall c pc next = some p') :
    c ∈ p.calls ∧ c.pc = pc ∧ p' = next := by
  unfold stepCall at h
  split_ifs at h with hc
  exact ⟨hc.1, hc.2, (Option.some.inj h).symm⟩

theorem trySend_ok {p p' : Process} (h : p.trySend digest state = .ok p') :
    p' = p.enqueue digest state := by
  unfold trySend at h
  split_ifs at h
  exact (Except.ok.inj h).symm

variable {k : EgressClassifier} {parse : String → Option BridgeEnvelope} {p p' : Process}

/-- Serving a command is a turn of whoever waits for it. -/
theorem Turn.of_serve (hcommands : p.commands = command :: rest)
    (h : p.serve command rest io receiver = some p') : Turn k parse p (.serve io receiver) p' := by
  cases receiver with
  | call c =>
    simp only [serve] at h
    split_ifs at h with hc
    cases h
    exact .answered io hcommands hc.1 hc.2
  | egress =>
    simp only [serve] at h
    split_ifs at h with hcommand
    cases h
    exact .completeAnswered io hcommands hcommand
  | gone =>
    simp only [serve] at h
    split_ifs at h
    cases h
    exact .servedNobody io hcommands

theorem Turn.of_step (h : p.step k parse a = some p') : Turn k parse p a p' := by
  cases a with
  | checkReadiness c =>
    obtain ⟨hc, hpc, hp'⟩ := stepCall_eq_some h
    by_cases hready : p.admitting = true
    · obtain rfl := hp'.trans (if_pos hready)
      exact .admitted hc hpc hready
    · obtain rfl := hp'.trans (if_neg hready)
      exact .refused hc hpc hready
  | checkHealth c =>
    obtain ⟨hc, hpc, rfl⟩ := stepCall_eq_some h
    split_ifs
    · exact .cleared hc hpc
    · exact .unhealthy hc hpc
  | send c =>
    obtain ⟨hc, hpc, rfl⟩ := stepCall_eq_some h
    split
    · rename_i p₁ hp₁
      obtain rfl := trySend_ok hp₁
      exact .sent hc hpc
    · exact .unsent hc hpc _
  | serve io receiver =>
    simp only [step] at h
    split at h
    · simp at h
    · rename_i command rest hcommands
      exact .of_serve hcommands h
  | completeSend =>
    simp only [step] at h
    split at h
    · rename_i o ho
      split at h
      · rename_i p₁ hp₁
        obtain rfl := trySend_ok hp₁
        cases h
        exact .completeSent ho
      · cases h
        exact .completeUnsent ho _
    · simp at h
  | setStatus | deliver | abortEgress | stopLedger | resume | abort | receive | publishReturns
  | completeHealth | completeResume | dropReply | dropCompletion => grind [Turn, step]

end Process

end PeatNode.Egress
