/-
# Refused events and the next scan

The client supervisor beside the delivery pipeline of one process, with one `BridgeReadiness`
between them.  An event that arrives while the bridge is not ready is refused with
`Lost(Unavailable)`.  The scan makes up for it: readiness only returns by a commit of the
supervisor (`readyByCommit_step`), each commit triggers one reconciliation, and a refused document
is not in the delivery journal, so the scan does not pass over it.
-/

import PeatNode.Bridge.Fresh
import PeatNode.Egress.Admitted
import PeatNode.Egress.AtMostOnce

namespace PeatNode.Bridge

open Egress Ledger Reconcile ReadinessTransition BridgeStatus Process List

/-! ### How readiness returns -/

namespace ClientSupervisor

variable {s s' : ClientSupervisor}

/-- A step that makes the bridge ready is a commit and triggers a reconciliation; no other does. -/
structure ReadyByCommit (s : ClientSupervisor) (l : Label) (s' : ClientSupervisor) : Prop where
  trigger : s.status.isReady = false → s'.status.isReady = true →
    ∃ tags reason, l = .proceed ∧ s.pc = .committing tags ∧ s' = s.commit tags ∧
      s'.triggered = s.triggered ++ [reason]
  quiet : s.status.isReady = true ∨ s'.status.isReady = false → s'.triggered = s.triggered

/-- A step that does not make the bridge ready and triggers nothing. -/
theorem ReadyByCommit.of_le (hready : s'.status.isReady = true → s.status.isReady = true)
    (htrig : s'.triggered = s.triggered) : ReadyByCommit s l s' where
  trigger := fun hno hyes => by simp [hready hyes] at hno
  quiet := fun _ => htrig

theorem readyByCommit_commit (hrec : s.reconcile = true) (hat : s.pc = .committing tags) :
    ReadyByCommit s .proceed (s.commit tags) := by
  have hstatus : (s.commit tags).status = s.status.markAllSubscriptionsEstablished := by
    simp only [commit, update]
    split_ifs <;> rfl
  constructor
  · intro hno hyes
    rw [hstatus] at hyes
    refine ⟨tags, reconcileReasonForReadyGeneration s.readyGenerations, rfl, hat, rfl, ?_⟩
    simp [commit, update, becameReady, hno, hyes, hrec]
  · intro h
    rw [hstatus] at h
    rcases h with h | h <;> simp [commit, update, becameReady, h]

/-- **Readiness returns by a commit only**, in every reachable state. -/
theorem readyByCommit_step (h : Grounded s) (hrec : s.reconcile = true) (hs : step s l = some s') :
    ReadyByCommit s l s' := by
  have h' := h.step hs
  cases Effect.of_step h hs with
  | quiet able configured subjects _ _ _ triggered =>
    refine .of_le (fun hready => ?_) triggered
    obtain ⟨hable, -, hsub⟩ := isReady_iff_able.1 hready
    exact h.ready (able hable) (by rw [← subjects, hsub]; exact h'.configured)
  | clear subjects triggered =>
    refine .of_le (fun hready => ?_) triggered
    obtain ⟨-, -, hsub⟩ := isReady_iff_able.1 hready
    exact absurd (hsub.symm.trans subjects) h'.configured
  | ended able triggered =>
    refine .of_le (fun hready => ?_) triggered
    rw [(isReady_iff_able.1 hready).1] at able
    simp at able
  | recorded event _ _ eq =>
    subst eq
    exact .of_le id rfl
  | committed tags label pc eq =>
    subst label eq
    exact readyByCommit_commit hrec pc

theorem reconcile_step (hs : step s l = some s') : s'.reconcile = s.reconcile := by
  cases Turn.of_step hs with
  | build =>
    obtain ⟨barrier, heq⟩ := startBarrier_eq _ _
    rw [heq]
  | @connect delivered =>
    rcases connect_eq s delivered with ⟨epoch, barrier, heq⟩ | ⟨-, heq⟩ <;> rw [heq]
  | @remove action =>
    obtain ⟨pc, -, heq⟩ := remove_eq s action
    rw [heq]
  | @commit tags =>
    obtain ⟨triggered, readyGenerations, heq⟩ := commit_eq s tags
    rw [heq]
  | _ => rfl

end ClientSupervisor

/-! ### The running bridge -/

/-- The supervisor and the delivery pipeline of one process. -/
structure BridgeRuntime where
  supervisor : ClientSupervisor
  process : Process
deriving DecidableEq

namespace BridgeRuntime

/-- A step of the supervisor's side, of the delivery pipeline, or of the publisher. -/
inductive Label
  | supervise (l : ClientSupervisor.Label)
  | delivery (a : Action)
  | publish
deriving DecidableEq

/-- An open journal, and a reconciler. -/
def start (k : EgressClassifier) (j : Journal) (exclusionHealthy deliveryHealthy ingress : Bool) :
    BridgeRuntime :=
  let supervisor := ClientSupervisor.start (k.mappings.map SubjectMapping.subject)
    exclusionHealthy deliveryHealthy ingress true
  ⟨supervisor, { Process.start k j with status := supervisor.status }⟩

/-- The sides share `BridgeReadiness`. -/
def step (k : EgressClassifier) (parse : String → Option BridgeEnvelope) (s : BridgeRuntime) :
    Label → Option BridgeRuntime
  | .supervise l => (s.supervisor.step l).map fun supervisor =>
    ⟨supervisor, { s.process with status := supervisor.status }⟩
  | .delivery (.setStatus _) => none
  | .delivery a => (s.process.step k parse a).map fun process =>
    ⟨{ s.supervisor with status := process.status }, process⟩
  | .publish => match s.process.egress with
    | .received o => some { s with process := { s.process with egress := .publishing o } }
    | _ => none

/-- A call of `deliver` that has been through the readiness check. -/
structure Attempt where
  offer : Offer
  refused : Bool
deriving DecidableEq

/-- `deliver` has returned `Lost(Unavailable)`. -/
def refuse (p : Process) (c : Call) : Process :=
  p.move c (.done (.error (.lost .unavailable)))

def observe (s : BridgeRuntime) : Label → BridgeRuntime → List Attempt → List Attempt
  | .delivery (.checkReadiness c), s', attempts =>
    attempts ++ [⟨c.offer, decide (s'.process = refuse s.process c)⟩]
  | _, _, attempts => attempts

def attempts (k : EgressClassifier) (parse : String → Option BridgeEnvelope) (s : BridgeRuntime)
    (labels : List Label) : List Attempt :=
  Lts.history (step k parse) observe s [] labels

/-- The scan passes over it because of the journal. -/
def PassesOver (w : Worker) (c : Candidate) : Prop :=
  ScanPc.answer (.suppression c)
    (.suppressed (isSuppressed w (documentDigest c.collection c.docId)).toOption) =
      some (ScanPc.next c, .suppressed)

/-- A candidate that is passed over is in the journal. -/
theorem mem_of_passesOver (h : PassesOver w c) :
    documentDigest c.collection c.docId ∈ w.journal.index := by
  unfold PassesOver isSuppressed Worker.serveLookup at h
  by_contra hd
  rw [Finmap.lookup_eq_none.2 hd] at h
  split_ifs at h
  all_goals simp [Except.map, Except.toOption, ScanPc.answer] at h

variable {k : EgressClassifier} {parse : String → Option BridgeEnvelope} {s s' : BridgeRuntime}

/-- A delivery step is a step of the process, and the supervisor sees at most a
degradation. -/
theorem delivery_cases (hs : step k parse s (.delivery a) = some s') :
    s.process.step k parse a = some s'.process ∧
      s'.supervisor = { s.supervisor with status := s'.process.status } ∧
      (s'.process.status = s.process.status ∨
        s'.process.status = s.process.status.setDeliveryHealthy false) := by
  cases a with
  | setStatus status => cases hs
  | _ =>
    simp only [step, Option.map_eq_some_iff] at hs
    obtain ⟨p', hp', rfl⟩ := hs
    exact ⟨hp', rfl, status_step hp' nofun⟩

/-- At the start in the journal, or admitted since. -/
def known (j : Journal) (attempts : List Attempt) : Set LedgerDigest :=
  {d | d ∈ j.index ∨ ∃ a ∈ attempts, a.refused = false ∧ a.offer.item.digest = d}

variable {j : Journal} {as : List Attempt}

theorem known_mono (bs : List Attempt) : known j as ⊆ known j (as ++ bs) := by
  rintro d (hd | ⟨a, ha, hok⟩)
  · exact .inl hd
  · exact .inr ⟨a, mem_append_left _ ha, hok⟩

structure Tracked (j : Journal) (s : BridgeRuntime) (attempts : List Attempt) : Prop where
  grounded : s.supervisor.Grounded
  reconcile : s.supervisor.reconcile = true
  status : s.process.status = s.supervisor.status
  holds : s.process.Holds (known j attempts)

theorem tracked_start (hne : k.mappings ≠ []) (hj : Faithful j)
    (exclusionHealthy deliveryHealthy ingress : Bool) :
    Tracked j (start k j exclusionHealthy deliveryHealthy ingress) [] where
  grounded := ClientSupervisor.grounded_start (by simpa using hne) _ _ _ _
  reconcile := rfl
  status := rfl
  holds := ((holds_start k hj).mono fun _ hd => .inl hd).withStatus _

theorem move_admitted_ne_refuse (p : Process) (c : Call) : p.move c .admitted ≠ refuse p c := by
  intro h
  have hcalls : (⟨c.offer, .admitted⟩ : Call) ::ₘ p.calls.erase c =
      ⟨c.offer, .done (.error (.lost .unavailable))⟩ ::ₘ p.calls.erase c :=
    congrArg calls h
  simp [Multiset.cons_inj_left] at hcalls

theorem admittedBy_subset (j : Journal) (hs : s.process.step k parse a = some s'.process) :
    known j as ∪ s.process.admittedBy a ⊆ known j (observe s (.delivery a) s' as) := by
  cases a with
  | checkReadiness c =>
    refine Set.union_subset (known_mono _) ?_
    rintro d ⟨hadm, rfl⟩
    obtain ⟨-, -, hp'⟩ := stepCall_eq_some hs
    refine .inr ⟨_, mem_append_right _ mem_cons_self, ?_, rfl⟩
    rw [hp'.trans (if_pos hadm)]
    exact decide_eq_false (move_admitted_ne_refuse s.process c)
  | _ => exact Set.union_subset subset_rfl (Set.empty_subset _)

theorem Tracked.step (h : Tracked j s as) (hs : BridgeRuntime.step k parse s l = some s') :
    Tracked j s' (observe s l s' as) := by
  cases l with
  | supervise l =>
    obtain ⟨supervisor, hsup, rfl⟩ := Option.map_eq_some_iff.1 hs
    exact ⟨h.grounded.step hsup, (ClientSupervisor.reconcile_step hsup).trans h.reconcile, rfl,
      h.holds.withStatus _⟩
  | delivery a =>
    obtain ⟨hp', hsup, hstatus⟩ := delivery_cases hs
    refine ⟨?_, by rw [hsup]; exact h.reconcile, by rw [hsup], ?_⟩
    · rw [h.status] at hstatus
      rcases hstatus with hstatus | hstatus <;> rw [hsup, hstatus]
      · exact h.grounded
      · exact h.grounded.degrade .deliveryUnhealthy
    · exact (h.holds.step hp').mono (admittedBy_subset j hp')
  | publish =>
    simp only [BridgeRuntime.step] at hs
    split at hs
    · rename_i o he
      cases hs
      refine ⟨h.grounded, h.reconcile, h.status, h.holds.toEgress fun o' ho' => ?_⟩
      cases ho'
      exact h.holds.egress o (by rw [he]; rfl)
    · simp at hs

def ready (s : BridgeRuntime) : Bool := s.supervisor.status.isReady

def triggered (s : BridgeRuntime) : List ReconcileReason := s.supervisor.triggered

/-- **Readiness returns by commits, each with one scan.** -/
def CommitTriggers (k : EgressClassifier) (parse : String → Option BridgeEnvelope)
    (s : BridgeRuntime) : Prop :=
  ∀ l s', step k parse s l = some s' →
    (s.ready = false → s'.ready = true →
      ∃ tags reason, l = .supervise .proceed ∧ s.supervisor.pc = .committing tags ∧
        s'.supervisor = s.supervisor.commit tags ∧ s'.triggered = s.triggered ++ [reason]) ∧
    (s.ready = true ∨ s'.ready = false → s'.triggered = s.triggered)

theorem Tracked.commitTriggers (h : Tracked j s as) : CommitTriggers k parse s := by
  intro l s' hs
  cases l with
  | supervise l =>
    obtain ⟨supervisor, hsup, rfl⟩ := Option.map_eq_some_iff.1 hs
    obtain ⟨htrigger, hquiet⟩ :=
      ClientSupervisor.readyByCommit_step h.grounded h.reconcile hsup
    refine ⟨fun hno hyes => ?_, hquiet⟩
    obtain ⟨tags, reason, rfl, hat, rfl, htrig⟩ := htrigger hno hyes
    exact ⟨tags, reason, rfl, hat, rfl, htrig⟩
  | delivery a =>
    obtain ⟨-, hsup, hstatus⟩ := delivery_cases hs
    have htrig : s'.triggered = s.triggered := by rw [triggered, hsup]; rfl
    refine ⟨fun hno hyes => ?_, fun _ => htrig⟩
    -- the journal can only be reported as unhealthy
    rw [h.status] at hstatus
    rw [ready, hsup] at hyes
    rw [ready] at hno
    rcases hstatus with hstatus | hstatus <;> rw [hstatus] at hyes
    · rw [hno] at hyes
      simp at hyes
    · simp [BridgeStatus.isReady, BridgeStatus.setDeliveryHealthy] at hyes
  | publish =>
    simp only [BridgeRuntime.step] at hs
    split at hs
    · cases hs
      refine ⟨fun hno hyes => ?_, fun _ => rfl⟩
      rw [ready] at hno hyes
      rw [hno] at hyes
      simp at hyes
    · simp at hs

/-- A candidate whose every attempt was refused is passed over only if an admitted document has
its digest. -/
theorem Tracked.not_passedOver (h : Tracked j s as)
    (hnew : documentDigest c.collection c.docId ∉ j.index) (hpass : PassesOver s.process.worker c) :
    ∃ a ∈ as, a.refused = false ∧
      documentDigest a.offer.collection a.offer.docId = documentDigest c.collection c.docId := by
  rcases h.holds.index _ (mem_of_passesOver hpass) with hold | ⟨a, ha, hok, hd⟩
  · exact absurd hold hnew
  · exact ⟨a, ha, hok, a.offer.digest_eq.symm.trans hd⟩

/-- **Refused events are covered by the next scan.** In every state that a bridge with a
reconciler reaches: both sides see one readiness, which returns only by the commit of a barrier
that triggers one reconciliation; a refused event leaves the journal and its queue alone; and a
document whose attempts were all refused is not passed over by a scan, unless one with its digest
was admitted. -/
theorem refused_events_covered (hne : k.mappings ≠ []) {fault : OpenFault} {dir : LedgerDir}
    {j : Journal} (hopen : (openJournal .delivery fault dir).2 = .ok j)
    (exclusionHealthy deliveryHealthy ingress : Bool) {labels : List Label}
    (hrun : Lts.exec (step k parse) (start k j exclusionHealthy deliveryHealthy ingress) labels =
      some s) :
    s.process.status = s.supervisor.status ∧
    CommitTriggers k parse s ∧
    (∀ c s', step k parse s (.delivery (.checkReadiness c)) = some s' →
      s'.process = refuse s.process c →
        s'.process.worker = s.process.worker ∧ s'.process.commands = s.process.commands) ∧
    ∀ c : Candidate, documentDigest c.collection c.docId ∉ j.index →
      (∀ a ∈ attempts k parse (start k j exclusionHealthy deliveryHealthy ingress) labels,
        a.offer.collection = c.collection → a.offer.docId = c.docId → a.refused = true) →
      PassesOver s.process.worker c →
      ∃ a ∈ attempts k parse (start k j exclusionHealthy deliveryHealthy ingress) labels,
        a.refused = false ∧ (a.offer.collection, a.offer.docId) ≠ (c.collection, c.docId) ∧
          documentDigest a.offer.collection a.offer.docId =
            documentDigest c.collection c.docId := by
  have hstart := tracked_start hne (faithful_of_openJournal hopen).1 exclusionHealthy
    deliveryHealthy ingress
  have h : Tracked j s
      (attempts k parse (start k j exclusionHealthy deliveryHealthy ingress) labels) := by
    refine Lts.exec_history (Tracked j) (fun s l s' as h hs => ?_) hstart hrun
    exact h.step hs
  refine ⟨h.status, h.commitTriggers, fun c s' _ hp' => ?_, fun c hnew hrefused hpass => ?_⟩
  · rw [hp']
    exact ⟨rfl, rfl⟩
  · obtain ⟨a, ha, hok, hd⟩ := h.not_passedOver hnew hpass
    refine ⟨a, ha, hok, fun heq => ?_, hd⟩
    obtain ⟨hc, hdoc⟩ := Prod.mk.inj heq
    rw [hrefused a ha hc hdoc] at hok
    simp at hok

/-- A document is refused, then the bridge is ready. -/
def refusedSteps : List Label :=
  [.delivery (.deliver (framesEvent "0")),
    .delivery (.checkReadiness ⟨framesOffer "0", .classified⟩)] ++
    ClientSupervisor.connectSteps.map .supervise

/-- The commit has triggered a scan, which does not pass over the document. -/
theorem refusedSteps_covered : ∃ s ∈ Lts.exec (step framesClassifier framesParse)
        (start framesClassifier (freshJournal .delivery) true true true) refusedSteps,
      (s.ready = true ∧ s.triggered = [.startupReady]) ∧
      ¬ PassesOver s.process.worker ⟨"frames", "0", [], []⟩ := by
  have hattempts : attempts framesClassifier framesParse
      (start framesClassifier (freshJournal .delivery) true true true) refusedSteps =
        [⟨framesOffer "0", true⟩] := by decide +kernel
  refine Lts.exists_mem_and (by decide +kernel) fun s hrun _ hpass => ?_
  obtain ⟨-, -, -, hcovered⟩ := refused_events_covered (by decide) (openJournal_new _) true true
    true hrun
  rw [hattempts] at hcovered
  obtain ⟨a, ha, hok, -⟩ := hcovered ⟨"frames", "0", [], []⟩ Finmap.notMem_empty
    (fun a ha _ _ => by rw [mem_singleton.1 ha]) hpass
  rw [mem_singleton.1 ha] at hok
  simp at hok

end BridgeRuntime

end PeatNode.Bridge
