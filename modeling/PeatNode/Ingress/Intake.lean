/-
# What becomes of a message that a reader takes

A reader takes a message and counts it as its own or as oversized, or turns it into an item, which
it holds while its `send` is pending. When one subscription of a generation ends, the other
readers are dropped with what they hold. Nothing else is lost before the shutdown
(`messages_conserved_iff`).
-/

import PeatNode.Ingress.Bounded

namespace PeatNode.Ingress

open Bridge Egress Node List Lts IngressProcessor

/-! ### Messages taken -/

/-- A message that a reader took, and the collection of its mapping. -/
structure Taken where
  message : Message
  collection : String
deriving DecidableEq

namespace Taken

def selfSuppressed (localNodeId : String) (t : Taken) : Bool :=
  hasExactOwnOrigin t.message localNodeId

def oversized (localNodeId : String) (t : Taken) : Bool :=
  !t.selfSuppressed localNodeId && isPayloadOversized t.message.payload.length

def item (localNodeId : String) (t : Taken) : Option IngressItem :=
  if t.selfSuppressed localNodeId || t.oversized localNodeId then none
  else some ⟨t.message.subject, t.collection, t.message.payload⟩

theorem length_eq (localNodeId : String) (taken : List Taken) :
    taken.length = taken.countP (·.selfSuppressed localNodeId) +
      taken.countP (·.oversized localNodeId) + (taken.filterMap (·.item localNodeId)).length := by
  induction taken with
  | nil => rfl
  | cons t taken ih =>
    have hitem : t.item localNodeId = if t.selfSuppressed localNodeId || t.oversized localNodeId
        then none else some ⟨t.message.subject, t.collection, t.message.payload⟩ := rfl
    rw [length_cons, countP_cons, countP_cons, filterMap_cons, hitem, ih]
    cases hself : t.selfSuppressed localNodeId with
    | true =>
      simp [oversized, hself]
      omega
    | false => cases hover : t.oversized localNodeId <;> simp <;> omega

end Taken

/-- The items taken from the FIFO. -/
def IngressProcessor.reached (s : IngressProcessor) : List IngressItem :=
  s.done.map (·.item) ++ s.current.toList

def Reader.items (r : Reader) : Multiset IngressItem := r.held.toList

def GenerationTask.items (t : GenerationTask) : Multiset IngressItem :=
  (t.readers.map Reader.items).sum

namespace IngressSystem

def held (s : IngressSystem) : Multiset IngressItem := (s.live.map GenerationTask.items).sum

def takes (s : IngressSystem) : Label → List Taken
  | .read k i =>
    match s.live[k]?.bind fun t => t.readers[i]? with
    | some ⟨⟨collection, message :: _⟩, _⟩ => [⟨message, collection⟩]
    | _ => []
  | _ => []

/-- The tasks dropped by the step. -/
def drops (s : IngressSystem) : Label → List GenerationTask
  | .supervise .generationEnds _ => s.live.filter fun t => some t.id = s.supervisor.generationId
  | .supervise .proceed _ =>
    if s.supervisor.phase = .removing then
      s.live.filter fun t => some t.id = s.supervisor.generationId
    else []
  | _ => []

/-- The items that go down with them. -/
def loses (s : IngressSystem) (l : Label) : Multiset IngressItem :=
  ((s.drops l).map GenerationTask.items).sum

/-- No reader of a dropped task holds an item. -/
def Unladen (s : IngressSystem) (l : Label) : Prop := s.loses l = 0
deriving Decidable

/-- The messages taken in a run, and the items lost. -/
structure Intake where
  taken : List Taken
  lost : Multiset IngressItem

def Intake.next (s : IngressSystem) (l : Label) (_ : IngressSystem) (a : Intake) : Intake :=
  ⟨a.taken ++ s.takes l, a.lost + s.loses l⟩

/-- **Conservation**: each message taken is counted as its own or as oversized, or is an item
held, queued or received; once nothing is held or queued, the counters say how many were taken. -/
structure Conserved (localNodeId : String) (s : IngressSystem) (taken : List Taken) : Prop where
  selfSuppressed : s.selfSuppressed = taken.countP (·.selfSuppressed localNodeId)
  oversized : s.oversizedPayloads = taken.countP (·.oversized localNodeId)
  items : (taken.filterMap (·.item localNodeId) : Multiset IngressItem) =
    s.held + s.processor.queue + s.processor.reached
  received : s.processor.stats.received = s.processor.reached.length
  total : s.processor.queue = [] → s.held = 0 →
    taken.length = s.selfSuppressed + s.oversizedPayloads + s.processor.stats.received

/-! ### Runs before the shutdown -/

/-- No shutdown, and the FIFO keeps its senders. -/
def Label.serving : Label → Bool
  | .supervise .shutdown _ => false
  | .supervise (.degrade .beginShutdown) _ => false
  | .process .close => false
  | _ => true

/-- What holds as long as nobody shuts the bridge down. -/
structure Serving (s : IngressSystem) : Prop where
  supervisor : s.supervisor.Open
  opened : s.processor.closed = false
  running : s.processor.pc ≠ .stopped

theorem serving_start (mappings : List SubjectMapping)
    (exclusionHealthy deliveryHealthy reconcile : Bool) (store : Store) :
    (start mappings exclusionHealthy deliveryHealthy reconcile store).Serving :=
  ⟨⟨rfl, by simp [start, ClientSupervisor.start, ClientSupervisor.phase],
    by simp [start, ClientSupervisor.start, ClientSupervisor.phase]⟩, rfl,
    by simp [start, IngressProcessor.start]⟩

end IngressSystem

/-- What the steps of the processor leave alone while the FIFO has senders. -/
theorem kept_step {s s' : IngressProcessor} (hsend : ∀ item, l ≠ .send item) (hclose : l ≠ .close)
    (hopened : s.closed = false) (hrunning : s.pc ≠ .stopped)
    (hs : s.step n sourceNodeId l = some s') :
    s'.sent = s.sent ∧ s'.closed = false ∧ s'.pc ≠ .stopped := by
  cases Turn.of_step hs with
  | send => exact absurd rfl (hsend _)
  | close => exact absurd rfl hclose
  | @received docId item queue hpc hqueue =>
    have hkept := FifoKept.receive { s with queue := queue } n.range sourceNodeId docId item
    exact ⟨hkept.sent, hkept.closed.trans hopened, hkept.running⟩
  | stopped hpc hclosed =>
    simp [hopened] at hclosed
  | @attempted nonce o item docId json attempt delay hpc hdelay =>
    have hkept := FifoKept.attemptWrite s n nonce o item docId json attempt delay
    exact ⟨hkept.sent, hkept.closed.trans hopened, hkept.running⟩
  | exhausted => exact ⟨rfl, hopened, by simp⟩
  | tick | other => exact ⟨rfl, hopened, hrunning⟩

namespace IngressSystem

variable {localNodeId : String} {s s' : IngressSystem} {k i : ℕ} {t : GenerationTask} {r : Reader}

/-! ### Items in pending sends -/

theorem held_setReader (ht : s.live[k]? = some t) (hr : t.readers[i]? = some r) (r' : Reader) :
    (s.setReader k i t r').held + r.items = s.held + r'.items := by
  have htask : ({ t with readers := t.readers.set i r' } : GenerationTask).items + r.items =
      t.items + r'.items := sum_map_set hr Reader.items r'
  have hlive : (s.setReader k i t r').held + t.items =
      s.held + ({ t with readers := t.readers.set i r' } : GenerationTask).items :=
    sum_map_set ht GenerationTask.items _
  refine add_right_cancel (b := t.items) ?_
  calc (s.setReader k i t r').held + r.items + t.items
      = (s.setReader k i t r').held + t.items + r.items := add_right_comm ..
    _ = s.held + (t.items + r'.items) := by rw [hlive, add_assoc, htask]
    _ = s.held + r'.items + t.items := by rw [add_comm t.items, add_assoc]

theorem held_endReader (ht : s.live[k]? = some t) (hr : t.readers[i]? = some r)
    (hheld : r.held = none) : (s.endReader k i t).held = s.held := by
  have hitems : r.items = 0 := by rw [Reader.items, hheld]; rfl
  have htask : ({ t with readers := t.readers.eraseIdx i, ended := true } : GenerationTask).items =
      t.items := by
    have hsum := sum_map_eraseIdx hr Reader.items
    rwa [hitems, add_zero] at hsum
  have hlive := sum_map_set ht GenerationTask.items
    { t with readers := t.readers.eraseIdx i, ended := true }
  rw [htask] at hlive
  exact add_right_cancel hlive

theorem held_dropGeneration (s : IngressSystem) : (s.dropGeneration.map GenerationTask.items).sum +
        ((s.live.filter fun t => some t.id = s.supervisor.generationId).map
          GenerationTask.items).sum = s.held := by
  rw [add_comm]
  exact sum_map_filter_add_sum_map_filter_not _ _ _

/-! ### The books -/

/-- What conservation is about. -/
structure Books where
  selfSuppressed : ℕ
  oversizedPayloads : ℕ
  sent : Multiset IngressItem
  held : Multiset IngressItem

def books (s : IngressSystem) : Books :=
  ⟨s.selfSuppressed, s.oversizedPayloads, s.processor.sent, s.held⟩

/-- What a step before the shutdown does to the books, with the messages taken and the items lost. -/
inductive Flow (localNodeId : String) (b b' : Books) : List Taken → Multiset IngressItem → Prop
  | idle (books : b' = b) : Flow localNodeId b b' [] 0
  | selfSuppressed (t : Taken) (own : t.selfSuppressed localNodeId = true)
      (books : b' = { b with selfSuppressed := b.selfSuppressed + 1 }) : Flow localNodeId b b' [t] 0
  | oversized (t : Taken) (large : t.oversized localNodeId = true)
      (books : b' = { b with oversizedPayloads := b.oversizedPayloads + 1 }) :
      Flow localNodeId b b' [t] 0
  | taken (t : Taken) (item : IngressItem) (kept : t.item localNodeId = some item)
      (books : b' = { b with held := b.held + {item} }) : Flow localNodeId b b' [t] 0
  | sent (item : IngressItem) (rest : Multiset IngressItem) (held : b.held = rest + {item})
      (books : b' = { b with sent := b.sent + {item}, held := rest }) : Flow localNodeId b b' [] 0
  | dropped (rest lost : Multiset IngressItem) (held : b.held = rest + lost)
      (books : b' = { b with held := rest }) : Flow localNodeId b b' [] lost

theorem books_of_held (hbooks : s'.books = { b with held := s'.held }) (hheld : s'.held = b.held) :
    s'.books = b := by
  rw [hbooks, hheld]

namespace Flow

theorem read (hs : s.Serving) (ht : s.live[k]? = some t) (hr : t.readers[i]? = some r)
    (hheld : r.held = none) (m : Message) (inbox : List Message) :
    Flow localNodeId s.books (s.readMessage localNodeId k i t r m inbox).books
      [⟨m, r.subscriber.collection⟩] 0 := by
  have hnone : r.items = 0 := by rw [Reader.items, hheld]; rfl
  have hset : ∀ r' : Reader, (s.setReader k i t r').held = s.held + r'.items := by
    intro r'
    have hsum := held_setReader ht hr r'
    rwa [hnone, add_zero] at hsum
  have hkept : (s.setReader k i t { r with subscriber.inbox := inbox }).held = s.held := by
    rw [hset]
    exact (congrArg (s.held + ·) hnone).trans (add_zero _)
  unfold IngressSystem.readMessage
  dsimp only
  rw [if_neg (by simp [hs.supervisor.1])]
  split_ifs with hown hlarge
  · refine .selfSuppressed _ hown (books_of_held rfl hkept)
  · have hover : Taken.oversized localNodeId ⟨m, r.subscriber.collection⟩ = true := by
      simp [Taken.oversized, Taken.selfSuppressed, hown, hlarge]
    exact .oversized _ hover (books_of_held rfl hkept)
  · have hitem : Taken.item localNodeId ⟨m, r.subscriber.collection⟩ =
        some ⟨m.subject, r.subscriber.collection, m.payload⟩ := by
      simp [Taken.item, Taken.oversized, Taken.selfSuppressed, hown, hlarge]
    exact .taken _ _ hitem (books_of_held rfl (hset _))

theorem supervise (hs : s.Serving) (h : s.stepSupervisor mappings l joined = some s') :
    Flow localNodeId s.books s'.books [] (s.loses (.supervise l joined)) := by
  unfold stepSupervisor at h
  split at h
  · cases h
  · cases l with
    | build subscribed =>
      cases subscribed with
      | true =>
        dsimp only at h
        split_ifs at h
        cases h
        refine .idle (books_of_held rfl ?_)
        have hnew : (GenerationTask.mk s.supervisor.nextGenerationId
            (s.subscribers.map (⟨·, none⟩)) false).items = 0 := by
          simp [GenerationTask.items, Reader.items, Function.comp_def]
        simp [held, hnew, books]
      | false =>
        dsimp only at h
        split_ifs at h
        cases h
        exact .idle rfl
    | generationEnds =>
      dsimp only at h
      split_ifs at h
      cases h
      exact .dropped _ _ s.held_dropGeneration.symm rfl
    | proceed =>
      dsimp only at h
      cases hphase : s.supervisor.phase with
      | removing =>
        rw [hphase] at h
        cases h
        simp only [loses, drops, hphase, if_true]
        exact .dropped _ _ s.held_dropGeneration.symm rfl
      | stopping => exact absurd hphase hs.supervisor.2.1
      | returned => exact absurd hphase hs.supervisor.2.2
      | running | building =>
        rw [hphase] at h
        cases h
        simp only [loses, drops, hphase]
        exact .idle rfl
    | _ =>
      cases h
      exact .idle rfl

/-- **Every step before the shutdown is one of these.** -/
theorem of_step {mappings : List SubjectMapping} (hs : s.Serving) (hl : l.serving = true)
    (h : s.step n localNodeId mappings l = some s') :
    Flow localNodeId s.books s'.books (s.takes l) (s.loses l) := by
  cases Turn.of_step h with
  | supervise h => exact supervise hs h
  | subscribe | arriveNew => exact .idle rfl
  | arrive ht hr m => exact .idle (books_of_held rfl (add_right_cancel (held_setReader ht hr _)))
  | @read k i t r m inbox ht hr hheld hinbox =>
    have htakes : s.takes (.read k i) = [⟨m, r.subscriber.collection⟩] := by
      obtain ⟨⟨collection, inbox'⟩, held⟩ := r
      obtain rfl : inbox' = m :: inbox := hinbox
      simp [takes, ht, hr]
    rw [htakes]
    exact read hs ht hr hheld m inbox
  | @send k i t r item processor ht hr hheld hsend =>
    cases IngressProcessor.Turn.of_step hsend with
    | send hopened hroom =>
      have hsum := held_setReader ht hr { r with held := none }
      have hitems : r.items = {item} := by rw [Reader.items, hheld]; rfl
      rw [hitems] at hsum
      have hsent : ((s.processor.sent ++ [item] : List IngressItem) : Multiset IngressItem) =
          s.processor.sent + {item} := (Multiset.coe_add _ _).symm
      exact .sent item _ (hsum.trans (add_zero _)).symm (by simp only [books, hsent]; rfl)
  | @readerReturns k i t r ht hr hreturn =>
    -- a pending `send` fails only when the processor has stopped
    have hheld : r.held = none := by
      cases hheld : r.held with
      | none => rfl
      | some item => simp [canReturn, hheld, hs.running] at hreturn
    exact .idle (books_of_held rfl (held_endReader ht hr hheld))
  | @process l processor hsend hstep =>
    have hclose : l ≠ .close := by
      rintro rfl
      cases hl
    obtain ⟨hsent, -⟩ := kept_step hsend hclose hs.opened hs.running hstep
    refine .idle ?_
    simp [books, held, hsent]
  | @dropTask k t ht hdrop =>
    obtain ⟨hempty, -⟩ := hdrop.resolve_left hs.supervisor.2.2
    have hitems : t.items = 0 := by rw [GenerationTask.items, hempty]; rfl
    have hsum := sum_map_eraseIdx ht GenerationTask.items
    rw [hitems, add_zero] at hsum
    exact .idle (books_of_held rfl hsum)

end Flow

/-! ### The balance of a run -/

/-- The messages taken are those on the books and those lost. -/
structure Balanced (localNodeId : String) (b : Books) (a : Intake) : Prop where
  selfSuppressed : b.selfSuppressed = a.taken.countP (·.selfSuppressed localNodeId)
  oversized : b.oversizedPayloads = a.taken.countP (·.oversized localNodeId)
  items : (a.taken.filterMap (·.item localNodeId) : Multiset IngressItem) =
    b.held + b.sent + a.lost

theorem Balanced.flow (h : Balanced localNodeId b a) (hflow : Flow localNodeId b b' taken lost) :
    Balanced localNodeId b' ⟨a.taken ++ taken, a.lost + lost⟩ := by
  obtain ⟨hself, hover, hitems⟩ := h
  cases hflow with
  | idle hbooks =>
    subst hbooks
    refine ⟨?_, ?_, ?_⟩ <;> simpa
  | selfSuppressed t hown hbooks =>
    subst hbooks
    have hsmall : t.oversized localNodeId = false := by simp [Taken.oversized, hown]
    have hnone : t.item localNodeId = none := by simp [Taken.item, hown]
    refine ⟨?_, ?_, ?_⟩
    · simp [hself, hown]
    · simp [hover, hsmall]
    · simpa [hnone] using hitems
  | oversized t hlarge hbooks =>
    subst hbooks
    have hother : t.selfSuppressed localNodeId = false := by
      simp only [Taken.oversized, Bool.and_eq_true, Bool.not_eq_true'] at hlarge
      exact hlarge.1
    have hnone : t.item localNodeId = none := by simp [Taken.item, hlarge]
    refine ⟨?_, ?_, ?_⟩
    · simp [hself, hother]
    · simp [hover, hlarge]
    · simpa [hnone] using hitems
  | taken t item hkept hbooks =>
    subst hbooks
    have hneither : t.selfSuppressed localNodeId = false ∧ t.oversized localNodeId = false := by
      unfold Taken.item at hkept
      split_ifs at hkept with hcounted
      simpa using hcounted
    refine ⟨?_, ?_, ?_⟩
    · simp [hself, hneither]
    · simp [hover, hneither]
    · have hlast : [t].filterMap (·.item localNodeId) = [item] := by simp [hkept]
      rw [filterMap_append, hlast, ← Multiset.coe_add, hitems, add_zero, Multiset.coe_singleton]
      dsimp only
      ac_rfl
  | sent item rest hheld hbooks =>
    subst hbooks
    rw [append_nil, add_zero]
    refine ⟨hself, hover, ?_⟩
    rw [hitems, hheld]
    dsimp only
    ac_rfl
  | dropped rest _ hheld hbooks =>
    subst hbooks
    rw [append_nil]
    refine ⟨hself, hover, ?_⟩
    rw [hitems, hheld]
    dsimp only
    ac_rfl

variable {n : DocumentCodec} {mappings : List SubjectMapping} {l : Label}

theorem processor_step (h : s.step n localNodeId mappings l = some s') :
    s'.processor = s.processor ∨ ∃ l', s.processor.step n localNodeId l' = some s'.processor ∧
        (l = .process l' ∧ (∀ item, l' ≠ .send item) ∨ ∃ item, l' = .send item) := by
  cases Turn.of_step h with
  | supervise h =>
    obtain ⟨supervisor, live, subscribers, -, rfl, -⟩ := stepSupervisor_cases h
    exact .inl rfl
  | read =>
    left
    unfold readMessage
    dsimp only
    split_ifs <;> rfl
  | send ht hr hheld hsend => exact .inr ⟨_, hsend, .inr ⟨_, rfl⟩⟩
  | process hsend hstep => exact .inr ⟨_, hstep, .inl ⟨rfl, hsend⟩⟩
  | subscribe | arriveNew | arrive | readerReturns | dropTask => exact .inl rfl

theorem supervisor_step (h : s.step n localNodeId mappings l = some s') :
    s'.supervisor = s.supervisor ∨
      ∃ l' joined, l = .supervise l' joined ∧ s.supervisor.step l' = some s'.supervisor := by
  cases Turn.of_step h with
  | supervise h =>
    obtain ⟨supervisor, live, subscribers, hstep, rfl, -⟩ := stepSupervisor_cases h
    exact .inr ⟨_, _, rfl, hstep⟩
  | read ht hr hheld hinbox => exact .inl (TaskMove.readMessage ht hr hinbox).supervisor
  | subscribe | arriveNew | arrive | send | readerReturns | process | dropTask => exact .inl rfl

theorem Serving.step (hs : s.Serving) (hl : l.serving = true)
    (h : s.step n localNodeId mappings l = some s') : s'.Serving := by
  have hsupervisor : s'.supervisor.Open := by
    rcases supervisor_step h with heq | ⟨l', joined, rfl, hstep⟩
    · exact heq ▸ hs.supervisor
    · refine hs.supervisor.step ?_ ?_ hstep <;>
      · rintro rfl
        cases hl
  rcases processor_step h with heq | ⟨l', hstep, ⟨rfl, hsend⟩ | ⟨item, rfl⟩⟩
  · exact ⟨hsupervisor, heq ▸ hs.opened, heq ▸ hs.running⟩
  · have hclose : l' ≠ .close := by
      rintro rfl
      cases hl
    obtain ⟨-, hopened, hrunning⟩ :=
      kept_step hsend hclose hs.opened hs.running hstep
    exact ⟨hsupervisor, hopened, hrunning⟩
  · simp only [IngressProcessor.step] at hstep
    split_ifs at hstep
    have heq := Option.some.inj hstep
    exact ⟨hsupervisor, by rw [← heq]; exact hs.opened, by rw [← heq]; exact hs.running⟩

theorem accounted_step (hs : s.processor.Accounted False)
    (h : s.step n localNodeId mappings l = some s') : s'.processor.Accounted False := by
  rcases processor_step h with heq | ⟨l', hstep, -⟩
  · exact heq ▸ hs
  · exact hs.step False.elim hstep

/-- Messages taken and items lost. -/
def intakeOf (n : DocumentCodec) (localNodeId : String) (mappings : List SubjectMapping)
    (s : IngressSystem) (labels : List Label) : Intake :=
  Lts.history (IngressSystem.step n localNodeId mappings) Intake.next s ⟨[], 0⟩ labels

section Runs

variable {n : DocumentCodec} {mappings : List SubjectMapping} {labels : List Label}

theorem balanced_of_exec (hs : s.Serving) (haccounted : s.processor.Accounted False)
    (hbalanced : Balanced localNodeId s.books ⟨[], 0⟩) (hserving : ∀ l ∈ labels, l.serving = true)
    (hrun : Lts.exec (IngressSystem.step n localNodeId mappings) s labels = some s') :
    s'.processor.Accounted False ∧
      Balanced localNodeId s'.books (intakeOf n localNodeId mappings s labels) := by
  have hstep : ∀ s l s' a, (s.Serving ∧ s.processor.Accounted False ∧ Balanced localNodeId s.books a) →
      l.serving = true → IngressSystem.step n localNodeId mappings s l = some s' →
      s'.Serving ∧ s'.processor.Accounted False ∧
        Balanced localNodeId s'.books (Intake.next s l s' a) :=
    fun s l s' a hs hl h => ⟨hs.1.step hl h, accounted_step hs.2.1 h,
      hs.2.2.flow (Flow.of_step hs.1 hl h)⟩
  exact (exec_history_along
    (fun s a => s.Serving ∧ s.processor.Accounted False ∧ Balanced localNodeId s.books a) hstep
    ⟨hs, haccounted, hbalanced⟩ (along_of_forall hserving s) hrun).2

/-- With balanced books nothing is lost exactly if everything is conserved. -/
theorem conserved_iff_lost (haccounted : s.processor.Accounted False)
    (hbalanced : Balanced localNodeId s.books a) :
    Conserved localNodeId s a.taken ↔ a.lost = 0 := by
  have hsent : (s.processor.sent : Multiset IngressItem) =
      s.processor.queue + s.processor.reached := by
    rw [haccounted.fifo, ← Multiset.coe_add, add_comm]
    rfl
  have hitems : (a.taken.filterMap (·.item localNodeId) : Multiset IngressItem) =
      s.held + s.processor.queue + s.processor.reached + a.lost := by
    rw [hbalanced.items, add_assoc s.held, ← hsent]
    rfl
  have hreceived : s.processor.stats.received = s.processor.reached.length := by
    rw [haccounted.received, IngressProcessor.reached, length_append, length_map]
  constructor
  · intro h
    have hcancel := h.items.symm.trans hitems
    rwa [left_eq_add] at hcancel
  · intro hlost
    rw [hlost, add_zero] at hitems
    refine ⟨hbalanced.selfSuppressed, hbalanced.oversized, hitems, hreceived, ?_⟩
    intro hqueue hheld
    rw [hqueue, hheld, Multiset.coe_nil, add_zero, zero_add] at hitems
    have hcard := congrArg Multiset.card hitems
    rw [Multiset.coe_card, Multiset.coe_card, ← hreceived] at hcard
    rw [Taken.length_eq localNodeId, hcard, ← hbalanced.selfSuppressed, ← hbalanced.oversized]
    rfl

end Runs

/-- **No message is lost silently, if no task is dropped with an item.** In every run before the
shutdown, every message that a reader of any generation took was counted as suppressed or
oversized, or is held, queued or received once, exactly if no step dropped the task of a
generation while one of its readers held an item. -/
theorem messages_conserved_iff (n : DocumentCodec) (localNodeId : String)
    (mappings : List SubjectMapping) (exclusionHealthy deliveryHealthy reconcile : Bool)
    (store : Store) (labels : List Label) (s : IngressSystem)
    (hserving : ∀ l ∈ labels, l.serving = true)
    (hrun : Lts.exec (IngressSystem.step n localNodeId mappings)
      (start mappings exclusionHealthy deliveryHealthy reconcile store) labels = some s) :
    Conserved localNodeId s (intakeOf n localNodeId mappings
        (start mappings exclusionHealthy deliveryHealthy reconcile store) labels).taken ↔
      Lts.Along (IngressSystem.step n localNodeId mappings) Unladen
        (start mappings exclusionHealthy deliveryHealthy reconcile store) labels := by
  obtain ⟨haccounted, hbalanced⟩ := balanced_of_exec (serving_start ..)
    (accounted_start ..) ⟨rfl, rfl, rfl⟩ hserving hrun
  rw [conserved_iff_lost haccounted hbalanced]
  have hclean : ∀ s l s' a, IngressSystem.step n localNodeId mappings s l = some s' →
      ((Intake.next s l s' a).lost = 0 ↔ a.lost = 0 ∧ s.Unladen l) :=
    fun s l s' a _ => add_eq_zero_iff_of_nonneg (Multiset.zero_le _) (Multiset.zero_le _)
  have hiff := history_clean_iff (g := ⟨[], 0⟩) (fun a : Intake => a.lost = 0) hclean hrun
  rwa [and_iff_right rfl] at hiff

/-! ### Samples -/

def twoMappings : List SubjectMapping := [⟨"telemetry", "telemetry"⟩, ⟨"alerts", "alerts"⟩]

def built : List Label :=
  [.supervise (.deliver .connected) true, .supervise .record true, .supervise .lifecycleChanged true,
    .supervise .proceed true, .subscribe, .subscribe, .supervise (.build true) true]

/-- A message without a body is taken, one of its own suppressed, and the second subscription ends
when the first reader has sent its item. -/
def sentInTime : List Label :=
  built ++ [.arrive 0 0 ⟨"telemetry", [], []⟩, .read 0 0, .send 0 0,
    .arrive 0 0 ⟨"telemetry", ["edge-a"], []⟩, .read 0 0, .readerReturns 0 1,
    .supervise .generationEnds true, .process (.recv "doc")]

/-- Two messages are taken, one is counted as its own and one is received. -/
theorem sentInTime_conserved :
    ∃ s ∈ Lts.exec (IngressSystem.step plainStore "edge-a" twoMappings)
        (start twoMappings true true true fun _ => none) sentInTime,
      (s.selfSuppressed = 1 ∧ s.processor.stats.received = 1 ∧ s.live = []) ∧
      Conserved "edge-a" s (intakeOf plainStore "edge-a" twoMappings
        (start twoMappings true true true fun _ => none) sentInTime).taken :=
  Lts.exists_mem_and (by decide +kernel) fun s hrun _ =>
    (messages_conserved_iff plainStore "edge-a" twoMappings true true true (fun _ => none) sentInTime s
      (by decide) hrun).2 (by decide +kernel)

def emptyMessage : Message := ⟨"telemetry", [], []⟩

def relayed : List Label := [.arrive 0 0 emptyMessage, .read 0 0, .send 0 0]

/-- It ends while the first reader is in `send`. -/
def cutOff : List Label :=
  [.arrive 0 0 emptyMessage, .read 0 0, .readerReturns 0 1, .supervise .generationEnds true]

/-- The second subscription ends while the FIFO is full. -/
def endedUnderPressure : List Label :=
  built ++ ((List.replicate ingressQueueCapacity relayed).flatten ++ cutOff)

/-- **An item in a pending `send` is lost with its generation**: 257 messages were taken and 256
are queued; none was counted or received, and no reader is left. -/
theorem held_item_lost :
    ∃ s ∈ Lts.exec (IngressSystem.step plainStore "edge-a" twoMappings)
        (start twoMappings true true true fun _ => none) endedUnderPressure,
      ((∀ l ∈ endedUnderPressure, l.serving = true) ∧
        (intakeOf plainStore "edge-a" twoMappings
          (start twoMappings true true true fun _ => none) endedUnderPressure).taken.length = 257 ∧
        (s.processor.queue.length = 256 ∧ s.live = []) ∧
        (s.selfSuppressed = 0 ∧ s.oversizedPayloads = 0 ∧ s.processor.reached = [])) ∧
      ¬ Conserved "edge-a" s (intakeOf plainStore "edge-a" twoMappings
        (start twoMappings true true true fun _ => none) endedUnderPressure).taken := by
  refine exists_mem_and (by decide +kernel) ?_
  rintro s - ⟨-, htaken, ⟨hqueue, hlive⟩, hown, hlarge, hreached⟩ hconserved
  have hheld : s.held = 0 := by rw [held, hlive]; rfl
  have hitems := congrArg Multiset.card hconserved.items
  rw [hheld, hreached, zero_add, Multiset.coe_nil, add_zero, Multiset.coe_card, Multiset.coe_card,
    hqueue] at hitems
  rw [Taken.length_eq "edge-a", ← hconserved.selfSuppressed, ← hconserved.oversized, hitems, hown,
    hlarge] at htaken
  omega

end IngressSystem

end PeatNode.Ingress
