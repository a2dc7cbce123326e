/-
# Ingress bodies are bounded

The subscriptions and readers of at most one generation exist at a time, in every run
(`GenerationMove`).  So the raw bodies behind `M` mappings are at most `257 + 2 M`: one in each
subscription, one in each pending `send`, 256 in the FIFO and one in the processor's hands.
-/

import Mathlib.Algebra.Order.BigOperators.Group.List
import PeatNode.Ingress.Accounting
import PeatNode.Ingress.Readers
import PeatNode.Lib.Lists

namespace PeatNode.Ingress

open Bridge Egress Node List Nat IngressProcessor

theorem length_queue_step {s s' : IngressProcessor} (hs : s.step n sourceNodeId l = some s') :
    s'.queue.length ≤ max s.queue.length ingressQueueCapacity := by
  cases Turn.of_step hs with
  | send hopened hroom =>
    rw [length_append]
    exact le_max_of_le_right hroom
  | received hpc hqueue =>
    rw [(FifoKept.receive ..).queue, hqueue, length_cons]
    dsimp only
    omega
  | attempted hpc hdelay =>
    rw [(FifoKept.attemptWrite ..).queue]
    exact le_max_left _ _
  | close | stopped | exhausted | tick | other => exact le_max_left _ _

namespace IngressSystem

/-! ### Steps -/

inductive Turn (n : DocumentCodec) (localNodeId : String) (mappings : List SubjectMapping)
    (s : IngressSystem) : Label → IngressSystem → Prop
  | supervise {l : ClientSupervisor.Label} {joined : Bool} {s' : IngressSystem}
      (h : s.stepSupervisor mappings l joined = some s') :
      Turn n localNodeId mappings s (.supervise l joined) s'
  | subscribe {m : SubjectMapping} (hphase : s.supervisor.phase = .building)
      (hm : mappings[s.subscribers.length]? = some m) :
      Turn n localNodeId mappings s .subscribe
        { s with subscribers := s.subscribers ++ [⟨m.collection, []⟩] }
  | arriveNew (i : ℕ) (m : Message) :
      Turn n localNodeId mappings s (.arriveNew i m)
        { s with subscribers := s.subscribers.modify i (·.push m) }
  | arrive {k i : ℕ} {t : GenerationTask} {r : Reader} (ht : s.live[k]? = some t)
      (hr : t.readers[i]? = some r) (m : Message) :
      Turn n localNodeId mappings s (.arrive k i m)
        (s.setReader k i t { r with subscriber := r.subscriber.push m })
  | read {k i : ℕ} {t : GenerationTask} {r : Reader} {m : Message} {inbox : List Message}
      (ht : s.live[k]? = some t) (hr : t.readers[i]? = some r) (hheld : r.held = none)
      (hinbox : r.subscriber.inbox = m :: inbox) :
      Turn n localNodeId mappings s (.read k i) (s.readMessage localNodeId k i t r m inbox)
  | send {k i : ℕ} {t : GenerationTask} {r : Reader} {item : IngressItem}
      {processor : IngressProcessor} (ht : s.live[k]? = some t) (hr : t.readers[i]? = some r)
      (hheld : r.held = some item)
      (hsend : s.processor.step n localNodeId (.send item) = some processor) :
      Turn n localNodeId mappings s (.send k i)
        { s.setReader k i t { r with held := none } with processor := processor }
  | readerReturns {k i : ℕ} {t : GenerationTask} {r : Reader} (ht : s.live[k]? = some t)
      (hr : t.readers[i]? = some r) (hreturn : s.canReturn r = true) :
      Turn n localNodeId mappings s (.readerReturns k i) (s.endReader k i t)
  | process {l : IngressProcessor.Label} {processor : IngressProcessor}
      (hsend : ∀ item, l ≠ .send item)
      (hstep : s.processor.step n localNodeId l = some processor) :
      Turn n localNodeId mappings s (.process l) { s with processor := processor }
  | dropTask {k : ℕ} {t : GenerationTask} (ht : s.live[k]? = some t)
      (hdrop : s.supervisor.phase = .returned ∨ t.readers = [] ∧ t.ended = false) :
      Turn n localNodeId mappings s (.dropTask k) { s with live := s.live.eraseIdx k }

variable {s s' : IngressSystem}

theorem withReader_eq_some (h : s.withReader k i f = some s') :
    ∃ t r, s.live[k]? = some t ∧ t.readers[i]? = some r ∧ f t r = some s' := by
  unfold withReader at h
  split at h
  · simp at h
  · rename_i t ht
    split at h
    · simp at h
    · rename_i r hr
      exact ⟨t, r, ht, hr, h⟩

theorem Turn.of_step (h : s.step n localNodeId mappings l = some s') :
    Turn n localNodeId mappings s l s' := by
  cases l with
  | supervise l joined => exact .supervise h
  | send k i =>
    obtain ⟨t, r, ht, hr, h⟩ := withReader_eq_some h
    split at h
    · rename_i hheld
      obtain ⟨processor, hsend, rfl⟩ := Option.map_eq_some_iff.1 h
      exact .send ht hr hheld hsend
    · cases h
  | process l =>
    cases l with
    | send item => cases h
    | _ =>
      simp only [step, Option.map_eq_some_iff] at h
      obtain ⟨processor, hstep, rfl⟩ := h
      exact .process (by simp) hstep
  | subscribe | arriveNew | arrive | read | readerReturns | dropTask =>
    grind [Turn, step, stepSubscribe, withReader_eq_some]

/-! ### Readers -/

/-- What a step of a reader, or a message for it, does to the tasks. -/
structure TaskMove (s s' : IngressSystem) : Prop where
  supervisor : s'.supervisor = s.supervisor
  subscribers : s'.subscribers = s.subscribers
  queue : s'.processor.queue.length ≤ max s.processor.queue.length ingressQueueCapacity
  task : ∃ k t t', s.live[k]? = some t ∧ s'.live = s.live.set k t' ∧ t'.id = t.id ∧
    t'.readers.length ≤ t.readers.length ∧
    ∀ r' ∈ t'.readers, ∃ r ∈ t.readers,
      r'.subscriber.inbox.length ≤ max r.subscriber.inbox.length subscriptionCapacity

theorem Subscriber.length_push (sub : Subscriber) (m : Message) :
    (sub.push m).inbox.length ≤ max sub.inbox.length subscriptionCapacity := by
  unfold Subscriber.push
  split_ifs with h
  · rw [length_append]
    exact le_max_of_le_right h
  · exact le_max_left _ _

namespace TaskMove

variable {s : IngressSystem} {k i : ℕ} {t : GenerationTask} {r : Reader}

theorem setReader (r' : Reader) (ht : s.live[k]? = some t) (hr : t.readers[i]? = some r)
    (hinbox : r'.subscriber.inbox.length ≤ max r.subscriber.inbox.length subscriptionCapacity) :
    TaskMove s (s.setReader k i t r') := by
  refine ⟨rfl, rfl, le_max_left _ _, k, t, _, ht, rfl, rfl, by simp, ?_⟩
  intro r'' hr''
  rcases mem_or_eq_of_mem_set hr'' with hmem | rfl
  · exact ⟨r'', hmem, le_max_left _ _⟩
  · exact ⟨r, mem_of_getElem? hr, hinbox⟩

theorem endReader (ht : s.live[k]? = some t) : TaskMove s (s.endReader k i t) :=
  ⟨rfl, rfl, le_max_left _ _, k, t, _, ht, rfl, rfl, length_eraseIdx_le _ _, fun r' hr' =>
    ⟨r', mem_of_mem_eraseIdx hr', le_max_left _ _⟩⟩

theorem readMessage (ht : s.live[k]? = some t) (hr : t.readers[i]? = some r)
    (hinbox : r.subscriber.inbox = m :: inbox) :
    TaskMove s (s.readMessage localNodeId k i t r m inbox) := by
  have hle : inbox.length ≤ max r.subscriber.inbox.length subscriptionCapacity := by
    rw [hinbox, length_cons]
    omega
  unfold IngressSystem.readMessage
  dsimp only
  split_ifs
  · exact endReader ht
  · have hmove := setReader { r with subscriber.inbox := inbox } ht hr hle
    exact ⟨hmove.supervisor, hmove.subscribers, hmove.queue, hmove.task⟩
  · have hmove := setReader { r with subscriber.inbox := inbox } ht hr hle
    exact ⟨hmove.supervisor, hmove.subscribers, hmove.queue, hmove.task⟩
  · exact setReader _ ht hr hle

theorem send {processor : IngressProcessor} (ht : s.live[k]? = some t)
    (hr : t.readers[i]? = some r)
    (hsend : s.processor.step n localNodeId (.send item) = some processor) :
    TaskMove s { s.setReader k i t { r with held := none } with processor := processor } := by
  have hmove := setReader { r with held := none } ht hr (le_max_left _ _)
  exact ⟨hmove.supervisor, hmove.subscribers, length_queue_step hsend, hmove.task⟩

end TaskMove

/-! ### One generation -/

/-- The tasks left by a step. -/
def Leaves (s : IngressSystem) (l : ClientSupervisor.Label) (live : List GenerationTask) : Prop :=
  live = s.dropGeneration ∨
    live = s.live ∧ ¬ (l = .proceed ∧ s.supervisor.phase = .removing)

variable {l : ClientSupervisor.Label}

theorem stepSupervisor_cases (hs : s.stepSupervisor mappings l joined = some s') :
    ∃ supervisor live subscribers, s.supervisor.step l = some supervisor ∧
      s' = { s with supervisor := supervisor, live := live, subscribers := subscribers } ∧
      (l = .build true ∧ subscribers = [] ∧ s.subscribers.length = mappings.length ∧
          live = s.live ++
            [⟨s.supervisor.nextGenerationId, s.subscribers.map (⟨·, none⟩), false⟩] ∨
        l = .build false ∧ subscribers = [] ∧ live = s.live ∨
        (∀ subscribed, l ≠ .build subscribed) ∧ subscribers = s.subscribers ∧ s.Leaves l live) := by
  unfold stepSupervisor at hs
  split at hs
  · simp at hs
  · rename_i supervisor hsup
    refine ⟨supervisor, s'.live, s'.subscribers, hsup, ?_⟩
    cases l with
    | build subscribed =>
      cases subscribed with
      | true =>
        dsimp only at hs
        split_ifs at hs with hlength
        cases hs
        exact ⟨rfl, .inl ⟨rfl, rfl, hlength, rfl⟩⟩
      | false =>
        dsimp only at hs
        split_ifs at hs
        cases hs
        exact ⟨rfl, .inr (.inl ⟨rfl, rfl, rfl⟩)⟩
    | generationEnds =>
      dsimp only at hs
      split_ifs at hs
      cases hs
      exact ⟨rfl, .inr (.inr ⟨nofun, rfl, .inl rfl⟩)⟩
    | proceed =>
      dsimp only at hs
      cases hphase : s.supervisor.phase with
      | removing =>
        rw [hphase] at hs
        cases hs
        exact ⟨rfl, .inr (.inr ⟨nofun, rfl, .inl rfl⟩)⟩
      | stopping =>
        rw [hphase] at hs
        cases hs
        refine ⟨rfl, .inr (.inr ⟨nofun, rfl, ?_⟩)⟩
        cases joined with
        | true => exact .inl rfl
        | false => exact .inr ⟨rfl, by simp [hphase]⟩
      | _ =>
        rw [hphase] at hs
        cases hs
        exact ⟨rfl, .inr (.inr ⟨nofun, rfl, .inr ⟨rfl, by simp [hphase]⟩⟩)⟩
    | _ =>
      cases hs
      exact ⟨rfl, .inr (.inr ⟨nofun, rfl, .inr ⟨rfl, by simp⟩⟩)⟩

theorem leaves_of_cases {live : List GenerationTask} {subscribers : List Subscriber}
    (hl : ∀ subscribed, l ≠ .build subscribed) (h : l = .build true ∧ p ∨ l = .build false ∧ q ∨
      (∀ subscribed, l ≠ .build subscribed) ∧ subscribers = s.subscribers ∧ s.Leaves l live) :
    subscribers = s.subscribers ∧ s.Leaves l live := by
  rcases h with ⟨hb, -⟩ | ⟨hb, -⟩ | ⟨-, h⟩
  · exact absurd hb (hl true)
  · exact absurd hb (hl false)
  · exact h

theorem Leaves.sublist {live : List GenerationTask} (h : s.Leaves l live) :
    live.Sublist s.live := by
  rcases h with rfl | ⟨rfl, -⟩
  · exact filter_sublist
  · exact .refl _

/-- Which tasks exist, given where the supervisor stands. -/
structure OneGeneration (s : IngressSystem) : Prop where
  single : s.live.length ≤ 1
  owned : ∀ t ∈ s.live,
    s.supervisor.generationId = some t.id ∨ s.supervisor.phase = .returned
  vacant : s.supervisor.phase = .building → s.supervisor.generationId = none
  unfinished : s.subscribers ≠ [] → s.supervisor.phase = .building

theorem oneGeneration_start (mappings : List SubjectMapping)
    (exclusionHealthy deliveryHealthy reconcile : Bool) (store : Store) :
    (start mappings exclusionHealthy deliveryHealthy reconcile store).OneGeneration :=
  ⟨zero_le 1, fun _ ht => absurd ht not_mem_nil, fun _ => rfl, fun h => absurd rfl h⟩

namespace OneGeneration

variable {s s' : IngressSystem}

/-- While a generation is being built there is no other. -/
theorem eq_nil_of_building (h : s.OneGeneration) (hphase : s.supervisor.phase = .building) :
    s.live = [] := by
  rw [eq_nil_iff_forall_not_mem]
  intro t ht
  rcases h.owned t ht with hid | hreturned
  · rw [h.vacant hphase] at hid
    simp at hid
  · simp [hphase] at hreturned

/-- Tasks may come and go as long as they stay the supervisor's. -/
theorem of_live (h : s.OneGeneration) (hsup : s'.supervisor = s.supervisor)
    (hsub : s'.subscribers ≠ [] → s.subscribers ≠ []) (hlength : s'.live.length ≤ s.live.length)
    (hlive : ∀ t ∈ s'.live, ∃ t₀ ∈ s.live, t₀.id = t.id) : s'.OneGeneration where
  single := hlength.trans h.single
  owned t ht := by
    obtain ⟨t₀, ht₀, hid⟩ := hlive t ht
    rw [hsup, ← hid]
    exact h.owned t₀ ht₀
  vacant := by
    rw [hsup]
    exact h.vacant
  unfinished hne := by
    rw [hsup]
    exact h.unfinished (hsub hne)

theorem taskMove (h : s.OneGeneration) (hmove : TaskMove s s') : s'.OneGeneration := by
  obtain ⟨hsup, hsubs, -, k, t, t', ht, hlive, hid, -⟩ := hmove
  refine h.of_live hsup (fun hne => hsubs ▸ hne) (by rw [hlive, length_set]) ?_
  intro t'' ht''
  rw [hlive] at ht''
  rcases mem_or_eq_of_mem_set ht'' with hmem | rfl
  · exact ⟨t'', hmem, rfl⟩
  · exact ⟨t, mem_of_getElem? ht, hid.symm⟩

/-- Only a supervisor that has returned leaves tasks when its generation is dropped. -/
theorem returned_of_mem_dropGeneration (h : s.OneGeneration) (ht : t ∈ s.dropGeneration) :
    t ∈ s.live ∧ s.supervisor.phase = .returned := by
  obtain ⟨hmem, hne⟩ := mem_filter.1 ht
  rcases h.owned t hmem with hid | hreturned
  · simp [hid] at hne
  · exact ⟨hmem, hreturned⟩

/-- **A step of the supervisor keeps one generation.** -/
theorem stepSupervisor (h : s.OneGeneration) (hs : s.stepSupervisor mappings l joined = some s') :
    s'.OneGeneration := by
  obtain ⟨sup, live, subs, hsup, rfl, htasks⟩ := stepSupervisor_cases hs
  -- outside a build nothing is collected
  have hnone : ∀ phase, s.supervisor.phase = phase → phase ≠ .building → s.subscribers ≠ [] →
      sup.phase = .building := fun phase hphase hne hsome =>
    absurd (hphase.symm.trans (h.unfinished hsome)) hne
  rcases ClientSupervisor.GenerationMove.of_step hsup with
    ⟨hphase, hid, hbuild, hproceed⟩ | ⟨hbefore, hid, hafter, hbuild⟩ |
    ⟨rfl, hbefore, hid, hafter⟩ | ⟨rfl, hbefore, hid, hafter⟩ |
    ⟨subscribed, rfl, hbefore, hafter, hid⟩
  · obtain ⟨rfl, hleaves⟩ := leaves_of_cases hbuild htasks
    exact {
      single := hleaves.sublist.length_le.trans h.single
      owned := fun t ht => by
        rw [hid, hphase]
        exact h.owned t (hleaves.sublist.subset ht)
      vacant := fun hb => by
        rw [hid]
        exact h.vacant (hphase ▸ hb)
      unfinished := fun hne => hphase.trans (h.unfinished hne) }
  · obtain ⟨rfl, hleaves⟩ := leaves_of_cases hbuild htasks
    exact {
      single := hleaves.sublist.length_le.trans h.single
      owned := fun t ht => by
        rw [hid]
        refine .inl ((h.owned t (hleaves.sublist.subset ht)).resolve_right ?_)
        rw [hbefore]
        nofun
      vacant := fun hb => by
        rw [hid]
        rcases hafter with hr | hr | hr
        · exact absurd (hr.symm.trans hb) nofun
        · exact absurd (hr.symm.trans hb) nofun
        · exact hr.2
      unfinished := hnone _ hbefore nofun }
  · obtain ⟨rfl, hleaves⟩ := leaves_of_cases (l := .proceed) nofun htasks
    -- `stop` has returned, so the only task is gone
    have hempty : live = [] := by
      rcases hleaves with rfl | ⟨-, hno⟩
      · rw [eq_nil_iff_forall_not_mem]
        intro t ht
        exact absurd (hbefore.symm.trans (h.returned_of_mem_dropGeneration ht).2) nofun
      · exact absurd ⟨rfl, hbefore⟩ hno
    subst hempty
    exact {
      single := zero_le 1
      owned := nofun
      vacant := fun _ => hid
      unfinished := hnone _ hbefore nofun }
  · obtain ⟨rfl, hleaves⟩ := leaves_of_cases (l := .proceed) nofun htasks
    exact {
      single := hleaves.sublist.length_le.trans h.single
      owned := fun _ _ => .inr hafter
      vacant := fun _ => hid
      unfinished := hnone _ hbefore nofun }
  · have hempty := h.eq_nil_of_building hbefore
    have hrunning : sup.phase ≠ .building := by
      rw [hafter]
      nofun
    rcases htasks with ⟨hl, rfl, -, rfl⟩ | ⟨-, rfl, rfl⟩ | ⟨hno, -⟩
    · obtain rfl := ClientSupervisor.Label.build.inj hl
      exact {
        single := by simp [hempty]
        owned := fun t ht => by
          rw [hempty, nil_append, mem_singleton] at ht
          exact .inl (hid.trans (by rw [ht]; rfl))
        vacant := fun hb => absurd hb hrunning
        unfinished := fun hne => absurd rfl hne }
    · rw [hempty]
      exact {
        single := zero_le 1
        owned := nofun
        vacant := fun hb => absurd hb hrunning
        unfinished := fun hne => absurd rfl hne }
    · exact absurd rfl (hno subscribed)

theorem step (h : s.OneGeneration) {l : Label} (hs : s.step n localNodeId mappings l = some s') :
    s'.OneGeneration := by
  cases Turn.of_step hs with
  | supervise hs => exact h.stepSupervisor hs
  | subscribe hphase hm => exact ⟨h.single, h.owned, h.vacant, fun _ => hphase⟩
  | arriveNew i m =>
    refine h.of_live rfl ?_ (le_refl _) fun t ht => ⟨t, ht, rfl⟩
    intro hne hnil
    simp [hnil] at hne
  | arrive ht hr m => exact h.taskMove (.setReader _ ht hr (Subscriber.length_push _ _))
  | read ht hr hheld hinbox => exact h.taskMove (.readMessage ht hr hinbox)
  | send ht hr hheld hsend => exact h.taskMove (.send ht hr hsend)
  | readerReturns ht hr hreturn => exact h.taskMove (.endReader ht)
  | process hsend hstep => exact h.of_live rfl id (le_refl _) fun t ht => ⟨t, ht, rfl⟩
  | dropTask ht hdrop =>
    exact h.of_live rfl id (length_eraseIdx_le _ _) fun t ht =>
      ⟨t, mem_of_mem_eraseIdx ht, rfl⟩

end OneGeneration

/-! ### Bodies -/

/-- No subscription, generation or queue is larger than it may be. -/
structure Small (M : ℕ) (s : IngressSystem) : Prop where
  collected : s.subscribers.length ≤ M
  fresh : ∀ sub ∈ s.subscribers, sub.inbox.length ≤ subscriptionCapacity
  width : ∀ t ∈ s.live, t.readers.length ≤ M
  inbox : ∀ t ∈ s.live, ∀ r ∈ t.readers, r.subscriber.inbox.length ≤ subscriptionCapacity
  queue : s.processor.queue.length ≤ ingressQueueCapacity

theorem small_start (mappings : List SubjectMapping)
    (exclusionHealthy deliveryHealthy reconcile : Bool) (store : Store) :
    (start mappings exclusionHealthy deliveryHealthy reconcile store).Small mappings.length :=
  ⟨zero_le _, fun _ ht => absurd ht not_mem_nil, fun _ ht => absurd ht not_mem_nil,
    fun _ ht => absurd ht not_mem_nil, zero_le _⟩

namespace Small

variable {M : ℕ} {s s' : IngressSystem}

theorem taskMove (h : s.Small M) (hmove : TaskMove s s') : s'.Small M := by
  obtain ⟨-, hsubs, hqueue, k, t, t', ht, hlive, -, hwidth, hreaders⟩ := hmove
  have hmem := mem_of_getElem? ht
  have hcases : ∀ u ∈ s'.live, u ∈ s.live ∨ u = t' := by
    intro u hu
    rw [hlive] at hu
    exact mem_or_eq_of_mem_set hu
  refine ⟨hsubs ▸ h.collected, hsubs ▸ h.fresh, ?_, ?_, hqueue.trans (max_le h.queue (le_refl _))⟩
  · intro u hu
    rcases hcases u hu with hu | rfl
    · exact h.width u hu
    · exact hwidth.trans (h.width t hmem)
  · intro u hu
    rcases hcases u hu with hu | rfl
    · exact h.inbox u hu
    · intro r' hr'
      obtain ⟨r, hr, hle⟩ := hreaders r' hr'
      exact hle.trans (max_le (h.inbox t hmem r hr) (le_refl _))

theorem stepSupervisor (h : s.Small M) (hs : s.stepSupervisor mappings l joined = some s') :
    s'.Small M := by
  obtain ⟨sup, live, subs, -, rfl, htasks⟩ := stepSupervisor_cases hs
  rcases htasks with ⟨-, rfl, -, rfl⟩ | ⟨-, rfl, rfl⟩ | ⟨-, rfl, hleaves⟩
  · refine ⟨zero_le M, nofun, forall_mem_concat h.width (by simpa using h.collected),
      forall_mem_concat h.inbox fun r hr => ?_, h.queue⟩
    obtain ⟨sub, hsub, rfl⟩ := mem_map.1 hr
    exact h.fresh sub hsub
  · exact ⟨zero_le M, nofun, h.width, h.inbox, h.queue⟩
  · exact ⟨h.collected, h.fresh, fun t ht => h.width t (hleaves.sublist.subset ht),
      fun t ht => h.inbox t (hleaves.sublist.subset ht), h.queue⟩

theorem step (h : s.Small mappings.length) {l : Label}
    (hs : s.step n localNodeId mappings l = some s') : s'.Small mappings.length := by
  cases Turn.of_step hs with
  | supervise hs => exact h.stepSupervisor hs
  | subscribe hphase hm =>
    have hlt := (List.getElem?_eq_some_iff.1 hm).1
    refine ⟨?_, ?_, h.width, h.inbox, h.queue⟩
    · rw [List.length_append]
      exact hlt
    · exact forall_mem_concat h.fresh (zero_le _)
  | arriveNew i m =>
    refine ⟨?_, ?_, h.width, h.inbox, h.queue⟩
    · rw [length_modify]
      exact h.collected
    · intro sub hsub
      obtain ⟨j, hj, rfl⟩ := mem_iff_getElem.1 hsub
      rw [getElem_modify]
      rw [length_modify] at hj
      split_ifs
      · exact (Subscriber.length_push _ m).trans
          (max_le (h.fresh _ (getElem_mem hj)) (le_refl _))
      · exact h.fresh _ (getElem_mem hj)
  | arrive ht hr m => exact h.taskMove (.setReader _ ht hr (Subscriber.length_push _ _))
  | read ht hr hheld hinbox => exact h.taskMove (.readMessage ht hr hinbox)
  | send ht hr hheld hsend => exact h.taskMove (.send ht hr hsend)
  | readerReturns ht hr hreturn => exact h.taskMove (.endReader ht)
  | process hsend hstep =>
    exact ⟨h.collected, h.fresh, h.width, h.inbox,
      (length_queue_step hstep).trans (max_le h.queue (le_refl _))⟩
  | dropTask ht hdrop =>
    exact ⟨h.collected, h.fresh, fun t ht => h.width t (mem_of_mem_eraseIdx ht),
      fun t ht => h.inbox t (mem_of_mem_eraseIdx ht), h.queue⟩

theorem bodies_collected (h : s.Small M) :
    (s.subscribers.map fun sub => sub.inbox.length).sum ≤ M := by
  have hle : (s.subscribers.map fun sub => sub.inbox.length).sum ≤ s.subscribers.length * 1 := by
    rw [← length_map (fun sub : Subscriber => sub.inbox.length)]
    refine sum_le_card_nsmul _ 1 ?_
    intro n hn
    obtain ⟨sub, hsub, rfl⟩ := mem_map.1 hn
    exact h.fresh sub hsub
  have hlength := h.collected
  omega

theorem bodies_readers (h : s.Small M) (ht : t ∈ s.live) :
    (t.readers.map Reader.bodies).sum ≤ 2 * M := by
  have hle : (t.readers.map Reader.bodies).sum ≤ t.readers.length * 2 := by
    rw [← length_map Reader.bodies]
    refine sum_le_card_nsmul _ 2 ?_
    intro n hn
    obtain ⟨r, hr, rfl⟩ := mem_map.1 hn
    have hinbox := h.inbox t ht r hr
    have hheld : r.held.toList.length ≤ 1 := by cases r.held <;> simp
    unfold Reader.bodies
    unfold subscriptionCapacity at hinbox
    omega
  have hlength := h.width t ht
  omega

end Small

/-- **Ingress bodies are bounded.**  In every run the subscriptions and readers of
at most one generation exist, and the raw bodies behind `M` mappings are at most
`257 + 2 M`. -/
theorem ingress_bodies_bounded {n : DocumentCodec} {localNodeId : String}
    {mappings : List SubjectMapping} {exclusionHealthy deliveryHealthy reconcile : Bool}
    {store : Store} {labels : List Label} {s : IngressSystem}
    (hrun : Lts.exec (IngressSystem.step n localNodeId mappings)
      (start mappings exclusionHealthy deliveryHealthy reconcile store) labels = some s) :
    s.live.length ≤ 1 ∧ (s.subscribers ≠ [] → s.live = []) ∧
      s.bodies ≤ 257 + 2 * mappings.length := by
  have hone : s.OneGeneration := Lts.exec_preserves OneGeneration (fun s l s' hs h => hs.step h)
    (oneGeneration_start mappings exclusionHealthy deliveryHealthy reconcile store) hrun
  have hsmall : s.Small mappings.length := Lts.exec_preserves (Small mappings.length)
    (fun s l s' hs h => hs.step h)
    (small_start mappings exclusionHealthy deliveryHealthy reconcile store) hrun
  have halone : s.subscribers ≠ [] → s.live = [] := fun hne =>
    hone.eq_nil_of_building (hone.unfinished hne)
  refine ⟨hone.single, halone, ?_⟩
  have hqueue := hsmall.queue
  have hcurrent : s.processor.current.toList.length ≤ 1 := by cases s.processor.current <;> simp
  unfold ingressQueueCapacity at hqueue
  unfold bodies
  -- either a generation is being built, or there is at most one task
  by_cases hne : s.subscribers = []
  · have hreaders : ((s.live.flatMap fun t => t.readers).map Reader.bodies).sum ≤
        2 * mappings.length := by
      match hlive : s.live with
      | [] => simp
      | [t] =>
        have ht := hsmall.bodies_readers (t := t) (by rw [hlive]; exact mem_singleton_self t)
        simpa using ht
      | _ :: _ :: _ =>
        have hsingle := hone.single
        rw [hlive] at hsingle
        simp at hsingle
    rw [hne, map_nil, sum_nil]
    omega
  · have hcollected := hsmall.bodies_collected
    rw [halone hne, flatMap_nil, map_nil, sum_nil]
    omega

/-- A reader takes a message; another one arrives. -/
def readerRun : List Label :=
  [.supervise (.deliver .connected) true, .supervise .record true, .supervise .lifecycleChanged true,
    .supervise .proceed true, .subscribe, .arriveNew 0 ⟨"telemetry", [], [49]⟩,
    .supervise (.build true) true, .read 0 0, .arrive 0 0 ⟨"telemetry", [], [50]⟩, .send 0 0,
    .read 0 0, .arrive 0 0 ⟨"telemetry", [], [51]⟩]

theorem readerRun_bounded : ∃ s ∈ Lts.exec (IngressSystem.step plainStore "edge-a"
        [⟨"telemetry", "telemetry"⟩])
        (start [⟨"telemetry", "telemetry"⟩] true true true fun _ => none) readerRun,
      (s.live.length = 1 ∧ s.bodies = 3) ∧ s.bodies ≤ 259 :=
  Lts.exists_mem_and (by decide +kernel) fun _ hs _ => (ingress_bodies_bounded hs).2.2

end IngressSystem
end PeatNode.Ingress
