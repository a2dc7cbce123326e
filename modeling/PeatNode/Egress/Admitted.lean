/-
# What a process may write

A digest gets into the delivery journal by a command of a `deliver` call that has passed the
readiness check or of the egress worker, which takes its items from such calls.  `Process.Holds`
names every place on that way; only the readiness check lets a new digest in (`Holds.step`), so a
refused call leaves no trace in the journal.
-/

import PeatNode.Egress.Grants
import PeatNode.Ledger.Kept
import PeatNode.Lib.Lists

namespace PeatNode.Egress

open Bridge Ledger List Multiset Call

/-- Past the readiness check, not returned. -/
def Call.isAdmitted (c : Call) : Bool :=
  match c.pc with
  | .classified | .done _ => false
  | .admitted | .cleared | .waiting _ | .answered _ => true

/-- The item in the hand of the egress worker. -/
def EgressPc.offer : EgressPc → Option Offer
  | .idle | .answered _ => none
  | .received o | .publishing o | .flushed o | .cleared o | .waiting _ o => some o

namespace Process

def admittedBy (p : Process) : Action → Set LedgerDigest
  | .checkReadiness c => {d | p.admitting = true ∧ d = c.offer.item.digest}
  | _ => ∅

/-- What is written, or may still be, is in `known`. -/
structure Holds (p : Process) (known : Set LedgerDigest) : Prop where
  linked : p.worker.journal.Linked
  fits : Fits p.worker.journal
  index : ∀ d ∈ p.worker.journal.index, d ∈ known
  commands : ∀ command ∈ p.commands, command.digest ∈ known
  calls : ∀ c ∈ p.calls, c.isAdmitted = true → c.offer.item.digest ∈ known
  fifo : ∀ o ∈ p.fifo, o.item.digest ∈ known
  egress : ∀ o ∈ p.egress.offer, o.item.digest ∈ known

theorem holds_start (k : EgressClassifier) (hj : Faithful j) :
    (start k j).Holds {d | d ∈ j.index} where
  linked := hj.linked
  fits := hj.fits
  index := fun _ hd => hd
  commands := fun _ hc => absurd hc not_mem_nil
  calls := fun c hc => absurd hc (notMem_zero c)
  fifo := fun _ ho => absurd ho not_mem_nil
  egress := fun _ ho => by cases ho

namespace Holds

variable {p p' : Process} {known known' : Set LedgerDigest}

theorem mono (h : p.Holds known) (hle : known ⊆ known') : p.Holds known' where
  linked := h.linked
  fits := h.fits
  index := fun d hd => hle (h.index d hd)
  commands := fun c hc => hle (h.commands c hc)
  calls := fun c hc hadm => hle (h.calls c hc hadm)
  fifo := fun o ho => hle (h.fifo o ho)
  egress := fun o ho => hle (h.egress o ho)

theorem move (h : p.Holds known) (c : Call) {pc : CallPc}
    (hpc : (⟨c.offer, pc⟩ : Call).isAdmitted = true → c.offer.item.digest ∈ known) :
    (p.move c pc).Holds known where
  linked := h.linked
  fits := h.fits
  index := h.index
  commands := h.commands
  calls := by
    intro c' hc' hadm
    rcases mem_cons.1 hc' with rfl | hc'
    · exact hpc hadm
    · exact h.calls c' (mem_of_mem_erase hc') hadm
  fifo := h.fifo
  egress := h.egress

/-- The egress worker moves on with what it has. -/
theorem toEgress (h : p.Holds known) (he : ∀ o ∈ e.offer, o.item.digest ∈ known) :
    ({ p with egress := e }).Holds known :=
  ⟨h.linked, h.fits, h.index, h.commands, h.calls, h.fifo, he⟩

theorem dropEgress (h : p.Holds known) : p.dropEgress.Holds known :=
  ⟨h.linked, h.fits, h.index, h.commands, h.calls, fun _ ho => absurd ho not_mem_nil, nofun⟩

theorem withStatus (h : p.Holds known) (status : BridgeStatus) :
    ({ p with status := status }).Holds known :=
  ⟨h.linked, h.fits, h.index, h.commands, h.calls, h.fifo, h.egress⟩

theorem enqueue (h : p.Holds known) (state : RecordState) (hd : digest ∈ known) :
    (p.enqueue digest state).Holds known := by
  exact ⟨h.linked, h.fits, h.index, forall_mem_concat h.commands hd, h.calls, h.fifo, h.egress⟩

theorem served (h : p.Holds known) {command : Command} (hcommands : p.commands = command :: rest)
    (io : RecordIo) : (p.served command rest io).Holds known := by
  have hadv := recordInner_advances h.linked h.fits command.digest command.state io
  have hidx := index_recordInner h.linked h.fits command.digest command.state io
  simp only [← Worker.journal_serveRecord] at hadv hidx
  refine ⟨hadv.linked, hadv.fits, fun d hd => ?_, fun c hc => ?_, h.calls, h.fifo, h.egress⟩
  · rcases hidx with ⟨hsame, -⟩ | hins
    · rw [Process.served, hsame] at hd
      exact h.index d hd
    · rw [Process.served, hins] at hd
      rcases Finmap.mem_insert.1 hd with rfl | hd
      · exact h.commands command (hcommands ▸ mem_cons_self)
      · exact h.index d hd
  · exact h.commands c (hcommands ▸ mem_cons_of_mem _ hc)

theorem afterReserve (h : p.Holds known) (c : Call) (hd : c.offer.item.digest ∈ known)
    (answer : Except LedgerError Bool) : (p.afterReserve c answer).Holds known := by
  have hdone : ∀ result, (p.move c (.done result)).Holds known := fun result =>
    h.move c fun hadm => by simp [isAdmitted] at hadm
  unfold Process.afterReserve
  rcases answer with e | _ | _
  · exact (hdone _).withStatus _
  · exact hdone _
  · split_ifs
    · exact hdone _
    · exact hdone _
    · have hok := hdone (.ok ())
      exact ⟨hok.linked, hok.fits, hok.index, hok.commands, hok.calls,
        forall_mem_concat h.fifo hd, hok.egress⟩

/-- **Only the readiness check lets a digest in.** -/
theorem step {parse : String → Option BridgeEnvelope} {a : Action} (h : p.Holds known)
    (hs : p.step k parse a = some p') : p'.Holds (known ∪ p.admittedBy a) := by
  have h' : p.Holds (known ∪ p.admittedBy a) := h.mono Set.subset_union_left
  -- an admitted call brings its digest along
  have hcall : ∀ {c : Call} {pc : CallPc}, c ∈ p.calls → c.pc = pc →
      (⟨c.offer, pc⟩ : Call).isAdmitted = true → c.offer.item.digest ∈ known ∪ p.admittedBy a := by
    rintro c pc hc rfl hadm
    exact .inl (h.calls c hc hadm)
  cases Turn.of_step hs with
  | setStatus status => exact h'.withStatus status
  | skipped => exact h'
  | offered =>
    refine ⟨h'.linked, h'.fits, h'.index, h'.commands, fun c hc hadm => ?_, h'.fifo, h'.egress⟩
    rcases mem_cons.1 hc with rfl | hc
    · simp [isAdmitted] at hadm
    · exact h'.calls c hc hadm
  | admitted _ _ hready => exact h'.move _ fun _ => .inr ⟨hready, rfl⟩
  | refused => exact h'.move _ fun hadm => by simp [isAdmitted] at hadm
  | cleared hc hpc | unhealthy hc hpc | unsent hc hpc => exact h'.move _ fun _ => hcall hc hpc rfl
  | sent hc hpc =>
    have hd := hcall hc hpc rfl
    exact (h'.enqueue .reserved hd).move _ fun _ => hd
  | answered io hcommands hc hcommand =>
    refine (h'.served hcommands io).move _ fun _ => ?_
    obtain ⟨-, hdigest, -⟩ := grant_of_command hcommand
    rw [← hdigest]
    exact h'.commands _ (hcommands ▸ mem_cons_self)
  | unanswered hc hcommand =>
    refine h'.move _ fun _ => h'.calls _ hc ?_
    unfold command at hcommand
    split at hcommand
    · rename_i ticket hpc
      simp [isAdmitted, hpc]
    · simp at hcommand
  | resumed hc hpc => exact h'.afterReserve _ (hcall hc hpc rfl) _
  | aborted =>
    exact ⟨h'.linked, h'.fits, h'.index, h'.commands,
      fun c' hc' => h'.calls c' (mem_of_mem_erase hc'), h'.fifo, h'.egress⟩
  | received hegress hfifo =>
    refine ⟨h'.linked, h'.fits, h'.index, h'.commands, h'.calls, fun o' ho' => ?_,
      fun o' ho' => ?_⟩
    · exact h'.fifo o' (hfifo ▸ mem_cons_of_mem _ ho')
    · cases ho'
      exact h'.fifo _ (hfifo ▸ mem_cons_self)
  | flushed hegress | completeCleared hegress =>
    exact h'.toEgress fun o' ho' => h'.egress o' (by rw [hegress]; exact ho')
  | completeSent hegress =>
    have hd := h'.egress _ (by rw [hegress]; rfl)
    refine (h'.enqueue .completed hd).toEgress fun o' ho' => ?_
    cases ho'
    exact hd
  | completeAnswered io hcommands => exact (h'.served hcommands io).toEgress nofun
  | publishFailed | completeUnhealthy | completeUnsent | completeUnanswered | completed =>
    exact h'.toEgress nofun
  | uncompleted => exact (h'.withStatus (p.status.setDeliveryHealthy false)).toEgress nofun
  | panicked | egressAborted => exact h'.dropEgress
  | servedNobody io hcommands => exact h'.served hcommands io
  | ledgerStopped =>
    exact ⟨h'.linked, h'.fits, h'.index, fun _ hc => absurd hc not_mem_nil, h'.calls,
      h'.fifo, h'.egress⟩

end Holds

/-- **What a process does to readiness**: at most it reports the journal as
unhealthy. -/
theorem status_step {p p' : Process} (hs : p.step k parse a = some p')
    (ha : ∀ status, a ≠ .setStatus status) :
    p'.status = p.status ∨ p'.status = p.status.setDeliveryHealthy false := by
  cases Turn.of_step hs with
  | setStatus status => exact absurd rfl (ha status)
  | resumed =>
    unfold afterReserve
    split
    · split_ifs <;> exact .inl rfl
    · exact .inl rfl
    · exact .inr rfl
  | uncompleted => exact .inr rfl
  | _ => exact .inl rfl

end Process

end PeatNode.Egress
