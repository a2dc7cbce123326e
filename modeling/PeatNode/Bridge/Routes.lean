/-
# Mappings as routes in both directions

A mapping is used twice: `build_subscription_generation` of
`src/nats_bridge/runtime.rs` subscribes to its subject and stores into its
collection, and `EgressClassifier` publishes the documents of its collection under
its subject.  The two directions are inverse (`routes_inverse`).
-/

import PeatNode.Bridge.Config
import PeatNode.Ingress.Bounded

namespace PeatNode.Bridge

open Egress Ingress Node List

/-! ### Routes -/

/-- **The route of a collection is the mapping of that collection.** -/
theorem route_eq_some_iff {k : EgressClassifier} (h : (k.mappings.map (·.collection)).Nodup) :
    k.route collection = some (m, i) ↔ k.mappings[i]? = some m ∧ m.collection = collection := by
  have hfound : ∀ {m i}, k.route collection = some (m, i) →
      k.mappings[i]? = some m ∧ m.collection = collection := by
    intro m i hroute
    have hmem := mem_reverse.1 (mem_of_find?_eq_some hroute)
    exact ⟨mem_zipIdx_iff_getElem?.1 hmem, by simpa using find?_some hroute⟩
  refine ⟨hfound, ?_⟩
  rintro ⟨hm, hcollection⟩
  have hsome : (k.route collection).isSome := by
    rw [EgressClassifier.route, find?_isSome]
    exact ⟨(m, i), mem_reverse.2 (mem_zipIdx_iff_getElem?.2 hm), by simpa using hcollection⟩
  obtain ⟨⟨m', j⟩, hroute⟩ := Option.isSome_iff_exists.1 hsome
  obtain ⟨hm', hcollection'⟩ := hfound hroute
  -- the two positions hold the same collection
  have hi : (k.mappings.map (·.collection))[i]? = some collection := by
    rw [List.getElem?_map, hm, Option.map_some, hcollection]
  have hj : (k.mappings.map (·.collection))[j]? = some collection := by
    rw [List.getElem?_map, hm', Option.map_some, hcollection']
  have hlt : i < (k.mappings.map (·.collection)).length := (List.getElem?_eq_some_iff.1 hi).1
  obtain rfl : i = j := (List.getElem?_inj hlt h).1 (hi.trans hj.symm)
  rw [hroute, Option.some.inj (hm'.symm.trans hm)]

/-! ### Readers -/

/-- The first loop of `build_subscription_generation`: each subject with the collection its reader
stores into; `client.subscribe` may fail. -/
def subscribeAll (subscribe : String → Bool) : List SubjectMapping → Option (List (String × String))
  | [] => some []
  | m :: ms =>
    if subscribe m.subject then
      (subscribeAll subscribe ms).map ((m.subject, m.collection) :: ·)
    else none

theorem subscribeAll_eq_some (h : subscribeAll subscribe mappings = some readers) :
    readers = mappings.map fun m => (m.subject, m.collection) := by
  induction mappings generalizing readers with
  | nil => exact (Option.some.inj h).symm
  | cons m ms ih =>
    rw [subscribeAll] at h
    split_ifs at h
    obtain ⟨rest, hrest, rfl⟩ := Option.map_eq_some_iff.1 h
    rw [ih hrest, map_cons]

end Bridge

namespace Ingress.IngressSystem

open Bridge Egress Node

/-- The readers of a generation, or the subscriptions of one being built, store into the
collections of the mappings, in their order. -/
structure Ordered (mappings : List SubjectMapping) (s : IngressSystem) : Prop where
  building : s.subscribers.map (·.collection) =
    (mappings.take s.subscribers.length).map (·.collection)
  reading : ∀ t ∈ s.live, t.ended = false →
    t.readers.map (·.subscriber.collection) = mappings.map (·.collection)

variable {mappings : List SubjectMapping} {s s' : IngressSystem}

theorem ordered_start (mappings : List SubjectMapping)
    (exclusionHealthy deliveryHealthy reconcile : Bool) (store : Store) :
    (start mappings exclusionHealthy deliveryHealthy reconcile store).Ordered mappings :=
  ⟨rfl, fun _ ht => absurd ht List.not_mem_nil⟩

namespace Ordered

variable {k i : ℕ} {t : GenerationTask} {r : Reader}

/-- One task changes, but not what its readers store into. -/
theorem set_task (h : s.Ordered mappings) (ht : s.live[k]? = some t)
    (hsubscribers : s'.subscribers = s.subscribers) (hlive : s'.live = s.live.set k t')
    (hsame : t'.ended = false → t.ended = false ∧ t'.readers.map (·.subscriber.collection) =
      t.readers.map (·.subscriber.collection)) : s'.Ordered mappings := by
  refine ⟨hsubscribers ▸ h.building, ?_⟩
  rw [hlive]
  intro t'' ht'' hended
  rcases List.mem_or_eq_of_mem_set ht'' with hmem | rfl
  · exact h.reading t'' hmem hended
  · obtain ⟨hended, heq⟩ := hsame hended
    rw [heq, h.reading t (List.mem_of_getElem? ht) hended]

theorem setReader (h : s.Ordered mappings) (ht : s.live[k]? = some t) (hr : t.readers[i]? = some r)
    (r' : Reader) (hcollection : r'.subscriber.collection = r.subscriber.collection) :
    (s.setReader k i t r').Ordered mappings := by
  refine h.set_task ht rfl rfl fun hended => ⟨hended, ?_⟩
  obtain ⟨hlt, rfl⟩ := List.getElem?_eq_some_iff.1 hr
  have hlt' : i < (t.readers.map (·.subscriber.collection)).length := by simpa using hlt
  have hsame := List.set_getElem_self hlt'
  rw [List.getElem_map] at hsame
  rw [List.map_set, hcollection, hsame]

theorem endReader (h : s.Ordered mappings) (ht : s.live[k]? = some t) :
    (s.endReader k i t).Ordered mappings :=
  h.set_task ht rfl rfl fun hended => absurd hended (by simp)

variable {localNodeId : String}

theorem readMessage (h : s.Ordered mappings) (ht : s.live[k]? = some t)
    (hr : t.readers[i]? = some r) :
    (s.readMessage localNodeId k i t r m inbox).Ordered mappings := by
  have htaken : ∀ held, (s.setReader k i t
      ⟨{ r.subscriber with inbox := inbox }, held⟩).Ordered mappings :=
    fun held => h.setReader ht hr _ rfl
  unfold IngressSystem.readMessage
  dsimp only
  split_ifs
  · exact h.endReader ht
  · exact ⟨(htaken r.held).building, (htaken r.held).reading⟩
  · exact ⟨(htaken r.held).building, (htaken r.held).reading⟩
  · exact htaken _

theorem stepSupervisor (h : s.Ordered mappings)
    (hs : s.stepSupervisor mappings l joined = some s') : s'.Ordered mappings := by
  obtain ⟨supervisor, live, subscribers, -, rfl, hcases⟩ := stepSupervisor_cases hs
  rcases hcases with ⟨-, rfl, hlength, rfl⟩ | ⟨-, rfl, rfl⟩ | ⟨-, rfl, hleaves⟩
  · refine ⟨rfl, ?_⟩
    intro t ht hended
    rcases List.mem_append.1 ht with hmem | hnew
    · exact h.reading t hmem hended
    · obtain rfl := List.mem_singleton.1 hnew
      have hbuilt := h.building
      rw [hlength, List.take_length] at hbuilt
      simpa [List.map_map, Function.comp_def] using hbuilt
  · exact ⟨rfl, h.reading⟩
  · exact ⟨h.building, fun t ht => h.reading t (hleaves.sublist.mem ht)⟩

/-- **The order is kept by every step.** -/
theorem step (h : s.Ordered mappings) (hs : s.step n localNodeId mappings l = some s') :
    s'.Ordered mappings := by
  cases Turn.of_step hs with
  | supervise hs => exact h.stepSupervisor hs
  | @subscribe m hphase hm =>
    refine ⟨?_, h.reading⟩
    have hlt := (List.getElem?_eq_some_iff.1 hm).1
    rw [List.map_append, h.building, List.length_append, List.length_singleton,
      List.take_add_one, hm, List.map_append]
    rfl
  | arriveNew i m =>
    have hpush : ∀ sub : Subscriber, (sub.push m).collection = sub.collection := by
      intro sub
      unfold Subscriber.push
      split_ifs <;> rfl
    have hsame : (s.subscribers.modify i (·.push m)).map (·.collection) =
        s.subscribers.map (·.collection) := by
      refine List.ext_getElem? fun j => ?_
      rw [List.getElem?_map, List.getElem?_modify, List.getElem?_map]
      split_ifs <;> cases s.subscribers[j]? <;> simp [hpush]
    refine ⟨?_, h.reading⟩
    rw [hsame, List.length_modify]
    exact h.building
  | arrive ht hr m =>
    refine h.setReader ht hr _ ?_
    unfold Subscriber.push
    split_ifs <;> rfl
  | read ht hr hheld hinbox => exact h.readMessage ht hr
  | send ht hr hheld hsend =>
    have hset := h.setReader ht hr { (_ : Reader) with held := none } rfl
    exact ⟨hset.building, hset.reading⟩
  | readerReturns ht hr hreturn => exact h.endReader ht
  | process hsend hstep => exact ⟨h.building, h.reading⟩
  | dropTask ht hdrop =>
    exact ⟨h.building, fun t ht => h.reading t (List.mem_of_mem_eraseIdx ht)⟩

theorem exec (h : s.Ordered mappings)
    (hs : Lts.exec (IngressSystem.step n localNodeId mappings) s labels = some s') :
    s'.Ordered mappings :=
  Lts.exec_preserves (Ordered mappings) (fun _ _ _ h hs => Ordered.step h hs) h hs

end Ordered
end Ingress.IngressSystem

namespace Bridge

open Egress Ingress Node

/-! ### The two directions -/

/-- What the bridge publishes and what it stores, for a list of mappings. -/
structure RoutesInverse (mappings : List SubjectMapping) (localNodeId : String) : Prop where
  route : ∀ collection m i, EgressClassifier.route ⟨mappings, localNodeId⟩ collection = some (m, i) ↔
    mappings[i]? = some m ∧ m.collection = collection
  reader : ∀ subscribe readers, subscribeAll subscribe mappings = some readers →
    ∀ subject collection i,
      EgressClassifier.route ⟨mappings, localNodeId⟩ collection = some (⟨subject, collection⟩, i) ↔
        readers[i]? = some (subject, collection)
  running : ∀ n exclusionHealthy deliveryHealthy reconcile store labels s,
    Lts.exec (IngressSystem.step n localNodeId mappings)
      (.start mappings exclusionHealthy deliveryHealthy reconcile store) labels = some s →
    ∀ t ∈ s.live, t.ended = false → ∀ i r, t.readers[i]? = some r →
      ∃ m, mappings[i]? = some m ∧
        EgressClassifier.route ⟨mappings, localNodeId⟩ r.subscriber.collection = some (m, i)

theorem routesInverse_of_nodup (h : (mappings.map (·.collection)).Nodup) (localNodeId : String) :
    RoutesInverse mappings localNodeId where
  route collection m i := route_eq_some_iff h
  reader subscribe readers hreaders subject collection i := by
    rw [route_eq_some_iff h, subscribeAll_eq_some hreaders, List.getElem?_map]
    cases hm : mappings[i]? with
    | none => simp
    | some m =>
      obtain ⟨subject', collection'⟩ := m
      simp only [Option.some.injEq, SubjectMapping.mk.injEq, Option.map_some, Prod.mk.injEq,
        and_true]
  running n exclusionHealthy deliveryHealthy reconcile store labels s hs t ht hended i r hr := by
    have hordered := (IngressSystem.ordered_start mappings exclusionHealthy deliveryHealthy
      reconcile store).exec hs
    have hcollection : (mappings.map (·.collection))[i]? = some r.subscriber.collection := by
      rw [← hordered.reading t ht hended, List.getElem?_map, hr, Option.map_some]
    rw [List.getElem?_map, Option.map_eq_some_iff] at hcollection
    obtain ⟨m, hm, hsame⟩ := hcollection
    exact ⟨m, hm, (route_eq_some_iff h).2 ⟨hm, hsame⟩⟩

/-- **Validation and routing are inverse.** The bridge is enabled exactly with a valid URL and a
non-empty list of valid entries without a subject or a collection twice, its mappings are those
entries in order, and every collection is routed to the subject whose reader stores into it. -/
theorem routes_inverse {lib : ClientLibrary} {natsUrl : Option String} {rawMappings : List String}
    {config : EnabledBridgeConfig} :
    (fromRaw lib natsUrl rawMappings = .ok (.enabled config) ↔
      (∃ raw scheme, natsUrl = some raw ∧ ValidUrl lib raw scheme config.serverAddr ∧
        config.endpoint = sanitized scheme config.serverAddr) ∧
      rawMappings ≠ [] ∧ List.Forall₂ (Entry lib) rawMappings config.mappings ∧
      (config.mappings.map (·.subject)).Nodup ∧ (config.mappings.map (·.collection)).Nodup) ∧
    (fromRaw lib natsUrl rawMappings = .ok (.enabled config) →
      ∀ localNodeId, RoutesInverse config.mappings localNodeId) := by
  refine ⟨fromRaw_eq_enabled_iff, fun h localNodeId => ?_⟩
  exact routesInverse_of_nodup (fromRaw_eq_enabled_iff.1 h).2.2.2.2 localNodeId

/-- It takes every subject, and every URL is one host. -/
def lenientLibrary : ClientLibrary where
  parseServerAddr _ := some ⟨"broker", some "broker", "", none, none, none, "", none⟩
  validated _ := true

def twoRoutes : EnabledBridgeConfig where
  serverAddr := ⟨"broker", some "broker", "", none, none, none, "", none⟩
  endpoint := ⟨.nats, "broker", 4222, false⟩
  mappings := [⟨"vision.summary", "frames"⟩, ⟨"alerts", "alerts"⟩]

theorem routes_inverse_twoRoutes :
    EgressClassifier.route ⟨twoRoutes.mappings, "node"⟩ "alerts" = some (⟨"alerts", "alerts"⟩, 1) := by
  have henabled : fromRaw lenientLibrary (some "nats://broker")
      [" vision.summary = frames", "alerts=alerts "] = .ok (.enabled twoRoutes) := by decide
  have hinverse := routes_inverse.2 henabled "node"
  exact (hinverse.reader (fun _ => true) [("vision.summary", "frames"), ("alerts", "alerts")] rfl
    "alerts" "alerts" 1).2 rfl

end PeatNode.Bridge
