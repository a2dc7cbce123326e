/-
# The egress accounting balances

Calls of `deliver` run side by side and the egress worker runs behind them.  `Counted` ties the
counters to the log; `Conserved` ties the log to the state: a reserved digest is completed, with
the worker, in the FIFO, refused, given up or dropped, and is reserved once, as the journal's
index never forgets.
-/

import PeatNode.Egress.AtMostOnce
import PeatNode.Egress.Counted

namespace PeatNode.Egress

open Bridge EgressLog Ledger Multiset Process

/-! ### Where the reserved digests are -/

/-- Granted, and not yet heard of. -/
def Process.pending (p : Process) : Multiset LedgerDigest := p.calls.bind Call.grant

theorem Process.pending_of_move {p p' : Process} (hc : c ∈ p.calls)
    (hcalls : p'.calls = ⟨c.offer, pc⟩ ::ₘ p.calls.erase c) :
    p'.pending + c.grant = (⟨c.offer, pc⟩ : Call).grant + p.pending := by
  rw [pending, pending, hcalls, cons_bind, bind_grant_erase hc]
  abel

/-- The rest of `deliver`: the call returns, and a grant goes into the FIFO or is
refused. -/
theorem Process.afterReserve_spec {p : Process} (hpc : c.pc = .answered answer) :
    ∃ result, (p.afterReserve c answer).calls = ⟨c.offer, .done result⟩ ::ₘ p.calls.erase c ∧
      (p.afterReserve c answer).worker = p.worker ∧ (p.afterReserve c answer).egress = p.egress ∧
      c.grant + digests p.fifo = digests (p.afterReserve c answer).fifo +
        if (p.afterReserve c answer).fifo = p.fifo then c.grant else 0 := by
  -- as long as the FIFO stays as it is
  have hkeep : c.grant + digests p.fifo = digests p.fifo + if p.fifo = p.fifo then c.grant else 0 := by
    rw [if_pos rfl, add_comm]
  rcases answer with e | _ | _
  · exact ⟨_, rfl, rfl, rfl, hkeep⟩
  · exact ⟨_, rfl, rfl, rfl, hkeep⟩
  · simp only [afterReserve]
    split
    · exact ⟨_, rfl, rfl, rfl, hkeep⟩
    · split
      · exact ⟨_, rfl, rfl, rfl, hkeep⟩
      · refine ⟨_, rfl, rfl, rfl, ?_⟩
        have hgrant : c.grant = {c.offer.item.digest} := by simp [Call.grant, hpc]
        simp [hgrant, add_comm]

/-- A step of a call leaves the journal, the FIFO and the egress worker alone. -/
structure CallStep (p p' : Process) : Prop where
  journal_eq : p'.worker.journal = p.worker.journal
  fifo_eq : p'.fifo = p.fifo
  egress_eq : p'.egress = p.egress

/-- A step of the egress worker leaves the journal and the calls alone. -/
structure EgressStep (p p' : Process) : Prop where
  journal_eq : p'.worker.journal = p.worker.journal
  calls_eq : p'.calls = p.calls

/-- **Every reserved digest is in one place**, and was reserved once. -/
structure Conserved (p : Process) (log : EgressLog) : Prop where
  linked : p.worker.journal.Linked
  fits : Fits p.worker.journal
  held_eq : ∀ o ∈ p.egress.offer, log.held = {o.item.digest}
  card_held : log.held.card = if p.egress = .idle then 0 else 1
  balance : log.reserved = log.completed + log.held + digests p.fifo + log.refused +
    log.failed.map Prod.fst + log.dropped
  nodup : (log.reserved + p.pending).Nodup
  known : ∀ d ∈ log.reserved + p.pending, d ∈ p.worker.journal.index

namespace Conserved

variable {p p' : Process} {log log' : EgressLog} {c : Call}
  {results : Multiset (Except EgressActionKind Unit)}

theorem of_calls (h : Conserved p log) (hstep : CallStep p p') (hle : p'.pending ≤ p.pending) :
    Conserved p' (log.returning results) := by
  obtain ⟨hj, hfifo, hegress⟩ := hstep
  have hsub : log.reserved + p'.pending ≤ log.reserved + p.pending := by
    gcongr
  refine ⟨hj ▸ h.linked, hj ▸ h.fits, hegress ▸ h.held_eq, hegress ▸ h.card_held,
    hfifo ▸ h.balance, nodup_of_le hsub h.nodup, fun d hd => ?_⟩
  rw [hj]
  exact h.known d (mem_of_le hsub hd)

theorem of_move (h : Conserved p log) (hc : c ∈ p.calls) (hstep : CallStep p p') (pc : CallPc)
    (hpc : (⟨c.offer, pc⟩ : Call).grant = 0)
    (hcalls : p'.calls = ⟨c.offer, pc⟩ ::ₘ p.calls.erase c) :
    Conserved p' (log.returning results) := by
  refine h.of_calls hstep ?_
  have hmove := pending_of_move hc hcalls
  rw [hpc, zero_add] at hmove
  rw [← hmove]
  exact le_add_right _ _

theorem of_egress (h : Conserved p log) (hstep : EgressStep p p') (hfifo : p'.fifo = p.fifo)
    (hoffer : ∀ o ∈ p'.egress.offer, o ∈ p.egress.offer) (hbusy : p.egress ≠ .idle)
    (hbusy' : p'.egress ≠ .idle) : Conserved p' (log.returning results) := by
  obtain ⟨hj, hcalls⟩ := hstep
  have hpending : p'.pending = p.pending := by rw [pending, hcalls]; rfl
  have hcard := h.card_held
  rw [if_neg hbusy] at hcard
  refine ⟨hj ▸ h.linked, hj ▸ h.fits, fun o ho => h.held_eq o (hoffer o ho), ?_,
    hfifo ▸ h.balance, ?_, ?_⟩
  · rw [if_neg hbusy']
    exact hcard
  · rw [hpending]
    exact h.nodup
  · rw [hpending, hj]
    exact h.known

theorem of_idle (h : Conserved p log) (hstep : EgressStep p p') (hidle : p'.egress = .idle) (hheld : log'.held = 0)
    (hreserved : log'.reserved = log.reserved)
    (hbalance : log.reserved = log'.completed + log'.held + digests p'.fifo + log'.refused +
      log'.failed.map Prod.fst + log'.dropped) : Conserved p' log' := by
  obtain ⟨hj, hcalls⟩ := hstep
  have hpending : p'.pending = p.pending := by rw [pending, hcalls]; rfl
  refine ⟨hj ▸ h.linked, hj ▸ h.fits, ?_, ?_, hreserved ▸ hbalance, ?_, ?_⟩
  · rw [hidle]
    nofun
  · rw [hidle, hheld]
    rfl
  · rw [hreserved, hpending]
    exact h.nodup
  · rw [hreserved, hpending, hj]
    exact h.known

/-- The worker gives up its item. -/
theorem fail (h : Conserved p log) (kind : EgressFailureKind) (hstep : EgressStep p p')
    (hfifo : p'.fifo = p.fifo) (hidle : p'.egress = .idle) : Conserved p' (log.fail kind) := by
  refine h.of_idle hstep hidle rfl rfl ?_
  have hfst : (log.fail kind).failed.map Prod.fst = log.failed.map Prod.fst + log.held := by
    simp [EgressLog.fail]
  rw [h.balance, hfst, hfifo]
  simp only [EgressLog.fail]
  abel

theorem drop (h : Conserved p log) : Conserved p.dropEgress (log.drop p) := by
  refine h.of_idle ⟨rfl, rfl⟩ rfl rfl rfl ?_
  rw [h.balance]
  simp only [EgressLog.drop, dropEgress, digests_nil]
  abel

theorem of_return (h : Conserved p log) (hc : c ∈ p.calls)
    (hcalls : p'.calls = ⟨c.offer, .done result⟩ ::ₘ p.calls.erase c)
    (hj : p'.worker.journal = p.worker.journal) (hegress : p'.egress = p.egress)
    {refused : Multiset LedgerDigest}
    (hsplit : c.grant + digests p.fifo = digests p'.fifo + refused) :
    Conserved p' ((log.reserving c.grant refused).returning results) := by
  have hspent : log.reserved + c.grant + p'.pending = log.reserved + p.pending := by
    have hmove : p'.pending + c.grant = p.pending := by
      rw [pending_of_move hc hcalls]
      exact zero_add _
    rw [← hmove]
    abel
  refine ⟨hj ▸ h.linked, hj ▸ h.fits, hegress ▸ h.held_eq, hegress ▸ h.card_held, ?_, ?_, ?_⟩
  · calc log.reserved + c.grant
        = log.completed + log.held + (c.grant + digests p.fifo) + log.refused +
            log.failed.map Prod.fst + log.dropped := by
          rw [h.balance]
          abel
      _ = log.completed + log.held + digests p'.fifo + (log.refused + refused) +
            log.failed.map Prod.fst + log.dropped := by
          rw [hsplit]
          abel
  · exact hspent ▸ h.nodup
  · rw [hj]
    exact hspent ▸ h.known

theorem receive (h : Conserved p log) (hidle : p.egress = .idle) (hfifo : p.fifo = o :: rest) :
    Conserved { p with egress := .received o, fifo := rest }
      { log with held := digests (p.fifo.take 1) } := by
  have hheld : log.held = 0 := by
    have hcard := h.card_held
    rw [if_pos hidle] at hcard
    exact card_eq_zero.1 hcard
  have htake : digests (p.fifo.take 1) = {o.item.digest} := by simp [hfifo]
  refine ⟨h.linked, h.fits, fun o' ho' => ?_, ?_, ?_, h.nodup, h.known⟩
  · cases ho'
    exact htake
  · simp [htake]
  · simp only [htake]
    rw [h.balance, hheld, hfifo, digests_cons]
    abel

theorem served (h : Conserved p log) (command : Command) (rest : List Command) (io : RecordIo) :
    Conserved (p.served command rest io) log := by
  have hadv := recordInner_advances h.linked h.fits command.digest command.state io
  rw [← Worker.journal_serveRecord] at hadv
  exact ⟨hadv.linked, hadv.fits, h.held_eq, h.card_held, h.balance, h.nodup,
    fun d hd => hadv.index.mem (h.known d hd)⟩

theorem started (h : Conserved p log) : Conserved p { log with started := log.started + 1 } :=
  ⟨h.linked, h.fits, h.held_eq, h.card_held, h.balance, h.nodup, h.known⟩

theorem abort (h : Conserved p log) (hc : c ∈ p.calls) (abandoned : ℕ) :
    Conserved { p with calls := p.calls.erase c } { log with abandoned := abandoned } := by
  have hle : ({ p with calls := p.calls.erase c } : Process).pending ≤ p.pending := by
    rw [pending, pending, bind_grant_erase hc]
    exact le_add_left _ _
  have h' : Conserved { p with calls := p.calls.erase c } (log.returning 0) :=
    h.of_calls ⟨rfl, rfl, rfl⟩ hle
  exact ⟨h'.linked, h'.fits, h'.held_eq, h'.card_held, h'.balance, h'.nodup, h'.known⟩

theorem of_answer (h : Conserved p log) (hc : c ∈ p.calls) (hcommand : c.command = some command)
    (hj : p'.worker.journal = (recordInner p.worker.journal command.digest command.state io).1)
    (hcalls : p'.calls = ⟨c.offer, .answered
      (recordInner p.worker.journal command.digest command.state io).2⟩ ::ₘ p.calls.erase c)
    (hfifo : p'.fifo = p.fifo) (hegress : p'.egress = p.egress) :
    Conserved p' (log.returning results) := by
  obtain ⟨hzero, hdigest, hstate⟩ := Call.grant_of_command hcommand
  have hadv := recordInner_advances h.linked h.fits command.digest command.state io
  rw [← hj] at hadv
  have hpending := pending_of_move hc hcalls
  rw [hzero, add_zero] at hpending
  by_cases hans : (recordInner p.worker.journal command.digest command.state io).2 = .ok true
  · rw [hans] at hpending
    rw [hstate] at hans hj
    obtain ⟨hnew, hin⟩ := fresh_of_recordInner h.linked h.fits hans
    rw [← hj, hdigest] at hin
    rw [hdigest] at hnew
    have hall : log.reserved + p'.pending = c.offer.item.digest ::ₘ (log.reserved + p.pending) := by
      rw [hpending, ← singleton_add]
      simp only [Call.grant]
      abel
    refine ⟨hadv.linked, hadv.fits, hegress ▸ h.held_eq, hegress ▸ h.card_held,
      hfifo ▸ h.balance, ?_, fun d hd => ?_⟩
    · show (log.reserved + p'.pending).Nodup
      rw [hall, nodup_cons]
      exact ⟨fun hd => hnew (h.known _ hd), h.nodup⟩
    · have hd : d ∈ log.reserved + p'.pending := hd
      rw [hall] at hd
      rcases mem_cons.1 hd with rfl | hd
      · exact hin
      · exact hadv.index.mem (h.known d hd)
  · rw [Call.grant_answered_of_ne hans, zero_add] at hpending
    refine ⟨hadv.linked, hadv.fits, hegress ▸ h.held_eq, hegress ▸ h.card_held,
      hfifo ▸ h.balance, ?_, fun d hd => ?_⟩
    · rw [hpending]
      exact h.nodup
    · rw [hpending] at hd
      exact hadv.index.mem (h.known d hd)

variable {k : EgressClassifier} {parse : String → Option BridgeEnvelope} {a : Action}

theorem ne_idle_of_command {e : EgressPc} (h : e.command.isSome) : e ≠ .idle := by
  rintro rfl
  simp [EgressPc.command] at h

/-- **No step loses a reserved digest or reserves one twice.** -/
theorem step (h : Conserved p log) (hs : p.step k parse a = some p') :
    Conserved p' (log.next k parse p p' a) := by
  cases Process.Turn.of_step hs with
  | setStatus | ledgerStopped => exact h.of_calls ⟨rfl, rfl, rfl⟩ le_rfl
  | offered =>
    exact h.started.of_calls ⟨rfl, rfl, rfl⟩ (by simp [pending, Call.grant])
  | skipped => exact h.started.of_calls ⟨rfl, rfl, rfl⟩ le_rfl
  | admitted hc | refused hc | cleared hc | unhealthy hc | sent hc | unsent hc | unanswered hc =>
    exact h.of_move hc ⟨rfl, rfl, rfl⟩ _ rfl rfl
  | answered io hcommands hc hcommand =>
    refine h.of_answer hc hcommand (Worker.journal_serveRecord _ _ _ io) ?_ rfl rfl
    rw [← Worker.reply_serveRecord]
    rfl
  | resumed hc hpc =>
    obtain ⟨result, hcalls, hworker, hegress, hsplit⟩ := afterReserve_spec (p := p) hpc
    exact h.of_return hc hcalls (by rw [hworker]) hegress hsplit
  | aborted hc => exact h.abort hc _
  | received hegress hfifo => exact h.receive hegress hfifo
  | flushed hegress | completeCleared hegress | completeSent hegress =>
    exact h.of_egress ⟨rfl, rfl⟩ rfl (by simp [hegress, EgressPc.offer]) (by simp [hegress]) (by simp)
  | completeUnhealthy hegress | completeUnsent hegress =>
    exact h.of_egress ⟨rfl, rfl⟩ rfl (by simp [EgressPc.offer]) (by simp [hegress]) (by simp)
  | completeUnanswered hcommand =>
    exact h.of_egress ⟨rfl, rfl⟩ rfl (by simp [EgressPc.offer]) (ne_idle_of_command hcommand) (by simp)
  | completeAnswered io hcommands hcommand =>
    rename_i command rest
    refine (h.served command rest io).of_egress ⟨rfl, rfl⟩ rfl (by simp [EgressPc.offer]) ?_ (by simp)
    exact ne_idle_of_command (Option.isSome_iff_exists.2 ⟨command, hcommand⟩)
  | servedNobody io => exact (h.served _ _ io).of_calls ⟨rfl, rfl, rfl⟩ le_rfl
  | publishFailed hegress hkind =>
    simp only [next, if_pos hkind]
    exact h.fail _ ⟨rfl, rfl⟩ rfl rfl
  | panicked hegress hkind =>
    simp only [next, if_neg hkind]
    exact h.drop
  | egressAborted => exact h.drop
  | completed hegress =>
    simp only [next, hegress]
    refine h.of_idle ⟨rfl, rfl⟩ rfl rfl rfl ?_
    rw [h.balance]
    simp
  | uncompleted hegress =>
    simp only [next, hegress]
    exact h.fail _ ⟨rfl, rfl⟩ rfl rfl

end Conserved

theorem EgressLog.dropped_next (k : EgressClassifier) (parse : String → Option BridgeEnvelope)
    (p p' : Process) (log : EgressLog) (ha : a.dropsEgress = false) :
    (log.next k parse p p' a).dropped = log.dropped := by
  cases a with
  | publishReturns outcome =>
    cases outcome with
    | ok _ => rfl
    | error kind =>
      simp only [Action.dropsEgress, Bool.not_eq_false'] at ha
      simp only [next, if_pos ha]
      rfl
  | completeResume =>
    simp only [next]
    split <;> rfl
  | abortEgress => simp [Action.dropsEgress] at ha
  | _ => rfl

namespace Books

variable {k : EgressClassifier} {parse : String → Option BridgeEnvelope} {s s' : System} {b : Books}

def InOrder (s : System) (b : Books) : Prop :=
  ∀ p ∈ s.machine.process, Counted p b ∧ Conserved p b.log

theorem inOrder_start (k : EgressClassifier) (hj : Faithful j) :
    Counted (.start k j) empty ∧ Conserved (.start k j) empty.log := by
  refine ⟨⟨rfl, rfl, nofun⟩, hj.linked, hj.fits, nofun, rfl, rfl, ?_, ?_⟩
  · exact nodup_zero
  · exact fun d hd => absurd hd (notMem_zero d)

theorem inOrder_down (dir : LedgerDir) (published : List Offer) (b : Books) :
    InOrder ⟨.down dir, published⟩ b := by
  intro p hp
  simp [Machine.process] at hp

/-- The worker calls the publisher. -/
theorem inOrder_publish (h : Counted p b ∧ Conserved p b.log) (ho : p.egress = .received o) :
    Counted { p with egress := .publishing o } b ∧
      Conserved { p with egress := .publishing o } b.log := by
  refine ⟨⟨h.1.stats_eq, h.1.calls_eq, h.1.results⟩, ?_⟩
  rw [← returning_zero b.log]
  exact h.2.of_egress ⟨rfl, rfl⟩ rfl (by simp [ho, EgressPc.offer]) (by simp [ho]) (by simp)

/-- **One step of the system.** -/
theorem InOrder.step (h : InOrder s b) (hs : System.step k parse s l = some s') :
    InOrder s' (next k parse s l s' b) := by
  obtain ⟨machine, published⟩ := s
  cases machine with
  | down dir =>
    cases l with
    | openJournal fault =>
      simp only [System.step] at hs
      split at hs
      · rename_i dir' j hopen
        cases hs
        rintro p hp
        cases hp
        exact inOrder_start k (faithful_of_openJournal (by rw [hopen])).1
      · cases hs
        exact inOrder_down _ _ _
    | crash bytes =>
      simp only [System.step, Option.map_eq_some_iff] at hs
      obtain ⟨dir', -, rfl⟩ := hs
      exact inOrder_down _ _ _
    | publish | act a => cases hs
  | up p =>
    cases l with
    | openJournal fault => cases hs
    | crash bytes =>
      simp only [System.step, Option.map_eq_some_iff] at hs
      obtain ⟨dir', -, rfl⟩ := hs
      exact inOrder_down _ _ _
    | publish =>
      simp only [System.step] at hs
      split at hs
      · rename_i o ho
        cases hs
        rintro p' hp'
        cases hp'
        exact inOrder_publish (h p rfl) ho
      · simp at hs
    | act a =>
      simp only [System.step, Option.map_eq_some_iff] at hs
      obtain ⟨p', hp', rfl⟩ := hs
      rintro p'' hp''
      cases hp''
      obtain ⟨hcounted, hconserved⟩ := h p rfl
      exact ⟨hcounted.step hconserved.card_held hp', hconserved.step hp'⟩

theorem dropped_next (hl : ∀ a, l = .act a → a.dropsEgress = false) (h : b.log.dropped = 0) :
    (next k parse s l s' b).log.dropped = 0 := by
  unfold next
  split
  · rfl
  · rw [EgressLog.dropped_next _ _ _ _ _ (hl _ rfl), h]
  · exact h

end Books

/-- What the accounting of a process promises. -/
structure Balanced (p : Process) (b : Books) : Prop where
  calls : b.log.started = b.log.returned.card + p.running.card + b.log.abandoned
  outcomes : ∀ result ∈ b.log.returned, result = .ok () ∨
    (∃ kind, result = .error (.skipped kind)) ∨ ∃ kind, result = .error (.lost kind)
  counted : b.stats = b.log.stats
  reserved : b.stats.reserved = b.stats.completed +
    (p.fifo.length + if p.egress = .idle then 0 else 1) +
    (b.log.refused.card + b.log.failed.card) + b.log.dropped.card
  completed_le : b.stats.completed ≤ b.stats.reserved
  published : p.egress = .idle → b.stats.published = b.stats.completed
  uncertain : p.egress = .idle → b.stats.deliveryReservationsUncertain =
    (b.log.reserved.toFinset \ b.log.completed.toFinset).card

/-- Within one process a digest is reserved once, so digests and counts agree. -/
theorem Conserved.card_uncertain (h : Conserved p log) :
    log.reserved.card - log.completed.card =
      (log.reserved.toFinset \ log.completed.toFinset).card := by
  have hreserved : log.reserved.Nodup := nodup_of_le (le_add_right _ _) h.nodup
  have hle : log.completed ≤ log.reserved := by
    rw [h.balance]
    simp only [add_assoc]
    exact le_add_right _ _
  have hsub : log.completed.toFinset ⊆ log.reserved.toFinset :=
    toFinset_subset.2 (subset_of_le hle)
  rw [Finset.card_sdiff_of_subset hsub, toFinset_card_of_nodup hreserved,
    toFinset_card_of_nodup (nodup_of_le hle hreserved)]

theorem Balanced.of_conserved (hcounted : Counted p b) (hconserved : Conserved p b.log) :
    Balanced p b := by
  have hreserved : b.stats.reserved = b.log.reserved.card := by rw [hcounted.stats_eq]; rfl
  have hcompleted : b.stats.completed = b.log.completed.card := by rw [hcounted.stats_eq]; rfl
  have hpublished : b.stats.published = b.log.completed.card := by rw [hcounted.stats_eq]; rfl
  have hsum : b.log.reserved.card = b.log.completed.card + b.log.held.card + p.fifo.length +
      b.log.refused.card + b.log.failed.card + b.log.dropped.card := by
    have hcard := congrArg card hconserved.balance
    simpa [digests] using hcard
  rw [hconserved.card_held] at hsum
  refine ⟨hcounted.calls_eq, fun result hr => ?_, hcounted.stats_eq, by omega, by omega,
    fun _ => by omega, fun _ => ?_⟩
  · have hne := hcounted.results result hr
    rcases result with (kind | kind | _) | _
    · exact .inr (.inl ⟨kind, rfl⟩)
    · exact .inr (.inr ⟨kind, rfl⟩)
    · exact absurd rfl hne
    · exact .inl rfl
  · rw [EgressStats.deliveryReservationsUncertain, hreserved, hcompleted]
    exact hconserved.card_uncertain

/-- **The egress accounting balances.** In every run, over any number of processes and whatever
the journal and the publisher answer, the books of the running process balance. A reservation goes
down with a worker only if a step takes the worker down. -/
theorem egress_accounting {k : EgressClassifier} {parse : String → Option BridgeEnvelope}
    {dir : LedgerDir} {labels : List Label} {s : System} {p : Process}
    (hrun : Lts.exec (System.step k parse) (.start dir) labels = some s) (hup : s.machine = .up p) :
    Balanced p (Lts.history (System.step k parse) (Books.next k parse) (.start dir) .empty labels) ∧
      ((∀ a, .act a ∈ labels → a.dropsEgress = false) →
        (Lts.history (System.step k parse) (Books.next k parse) (.start dir) .empty
          labels).log.dropped = 0) := by
  constructor
  · have hbooks : Books.InOrder s (Lts.history (System.step k parse) (Books.next k parse)
        (.start dir) .empty labels) := by
      refine Lts.exec_history Books.InOrder (fun s l s' b h hs => ?_)
        (Books.inOrder_down dir [] .empty) hrun
      exact h.step hs
    obtain ⟨hcounted, hconserved⟩ := hbooks p (by rw [hup]; rfl)
    exact .of_conserved hcounted hconserved
  · intro hkeep
    have hok : Lts.Along (System.step k parse) (fun _ l => ∀ a, l = .act a → a.dropsEgress = false)
        (.start dir) labels := by
      refine Lts.along_of_forall (fun l hl a ha => hkeep a ?_) _
      rw [← ha]
      exact hl
    refine Lts.exec_history_along (fun _ (b : Books) => b.log.dropped = 0)
      (fun s l s' b h hl _ => ?_) rfl hok hrun
    exact Books.dropped_next hl h

/-! ### A run

One item is published and completed, the flush of a second one fails, and the
first comes back as a duplicate. -/

/-- Published, and marked completed. -/
def completeSteps : List Label :=
  [.act (.publishReturns (.ok ())), .act .completeHealth, .act .completeSend,
    .act (.serve .clean .egress), .act .completeResume]

def accountsRun : List Label :=
  deliveryRun ++ completeSteps ++
    requestSteps "1" ++ publishSteps "1" 2 ++ [.act (.publishReturns (.error .flushFailed))] ++
    requestSteps "0" ++ [.act (.serve .clean (.call ⟨framesOffer "0", .waiting 3⟩)),
      .act (.resume ⟨framesOffer "0", .answered (.ok false)⟩)]

theorem accountsRun_balanced :
    ∃ s p, Lts.exec (System.step framesClassifier framesParse) (.start ⟨none, none⟩) accountsRun = some s ∧
      s.machine = .up p ∧
      Balanced p (Lts.history (System.step framesClassifier framesParse)
        (Books.next framesClassifier framesParse) (.start ⟨none, none⟩) .empty accountsRun) := by
  have hend : ∃ s ∈ Lts.exec (System.step framesClassifier framesParse) (.start ⟨none, none⟩) accountsRun,
      s.machine.process.isSome = true := by decide +kernel
  obtain ⟨⟨dir | p, published⟩, hs, hup⟩ := hend
  · simp [Machine.process] at hup
  · exact ⟨_, p, hs, rfl, (egress_accounting hs rfl).1⟩

example : (Lts.history (System.step framesClassifier framesParse)
    (Books.next framesClassifier framesParse) (.start ⟨none, none⟩) .empty accountsRun).stats =
      { EgressStats.zero with reserved := 2, completed := 1, published := 1, flushFailed := 1,
                              duplicate := 1 } := by
  decide +kernel

end PeatNode.Egress
