/-
# The relay's fanout queue

`PriorityFanout` of `src/fanout.rs` without its wake-ups: the pending documents in the order of
their class and age, with the peers that each of them goes to.  A pending document keeps its place
and its kind is widened; a new one is inserted, and the last in the order is shed when the queue
is full. `pop` takes the first, but after eight of these the oldest (`select`).

A call that needs one sequence number more than `u64` has does not return.  The class of a
collection comes from `peat_mesh` and is a parameter.
-/

import Mathlib.Data.List.AList
import Mathlib.Data.Prod.Lex
import Mathlib.Data.String.Basic
import PeatNode.Lib.Lts
import PeatNode.Lib.OrderedSet

namespace PeatNode.Fanout

open List OrderedSet AList Nat

/-! ### Which peers a change goes to -/

inductive FanoutKind
  | allPeers
  | excludeSource (source : String)
deriving DecidableEq

namespace FanoutKind

def merge : FanoutKind → FanoutKind → FanoutKind
  | .allPeers, _ => .allPeers
  | .excludeSource _, .allPeers => .allPeers
  | .excludeSource a, .excludeSource b => if a = b then .excludeSource a else .allPeers

/-- The peers the worker sends to. -/
def targets (connected : List String) : FanoutKind → List String
  | .allPeers => connected
  | .excludeSource source => connected.filter (· ≠ source)

theorem merge_eq (k k' : FanoutKind) : k.merge k' = if k = k' then k else .allPeers := by
  cases k with
  | allPeers => simp [merge]
  | excludeSource a =>
    cases k' with
    | allPeers | excludeSource b => simp [merge]

theorem targets_subset_allPeers (connected : List String) (k : FanoutKind) :
    k.targets connected ⊆ allPeers.targets connected := by
  cases k with
  | allPeers => exact List.Subset.refl _
  | excludeSource source =>
    intro peer hpeer
    exact mem_of_mem_filter hpeer

end FanoutKind

/-! ### The queue -/

/-- The pending entry of a document, ordered by class, then age. -/
structure Pending where
  qosRank : ℕ
  seq : ℕ
  docKey : String
deriving DecidableEq

instance : LinearOrder Pending :=
  LinearOrder.lift' (fun p => toLex (p.qosRank, toLex (p.seq, p.docKey))) fun p p' h => by
    obtain ⟨hrank, hrest⟩ := Prod.mk.inj (toLex.injective h)
    obtain ⟨hseq, hkey⟩ := Prod.mk.inj (toLex.injective hrest)
    cases p
    cases p'
    simp_all

structure Entry where
  qosRank : ℕ
  seq : ℕ
  kind : FanoutKind
deriving DecidableEq

structure Inner where
  pending : OrderedSet Pending
  entries : AList fun _ : String => Entry
  nextSeq : ℕ
  droppedByClass : List ℕ
  priorityBurst : ℕ

def maxPending : ℕ := 4096

def maxPriorityBurst : ℕ := 8

/-- The text before the first colon. -/
def collectionOf (docKey : String) : String := String.ofList (docKey.toList.takeWhile (· ≠ ':'))

inductive Call
  | enqueue (docKey : String) (kind : FanoutKind)
  | pop
deriving DecidableEq

namespace Inner

def default : Inner := ⟨∅, ∅, 0, List.replicate 6 0, 0⟩

variable (forCollection : String → ℕ)

def qosRank (docKey : String) : ℕ := forCollection (collectionOf docKey)

/-- For a document that is not pending. -/
def offered (q : Inner) (docKey : String) : Pending :=
  ⟨qosRank forCollection docKey, q.nextSeq, docKey⟩

/-- Before any entry is shed. -/
def push (q : Inner) (docKey : String) (kind : FanoutKind) : Inner :=
  { q with
    nextSeq := q.nextSeq + 1
    pending := q.pending.insert (q.offered forCollection docKey)
    entries := q.entries.insert docKey ⟨qosRank forCollection docKey, q.nextSeq, kind⟩ }

def evict (q : Inner) (victim : Pending) : Inner :=
  { q with
    pending := q.pending.remove victim
    entries := q.entries.erase victim.docKey
    droppedByClass := q.droppedByClass.modify victim.qosRank (· + 1) }

/-- The loop of `enqueue`; the entries are its fuel. -/
def shed : ℕ → Inner → Inner
  | 0, q => q
  | fuel + 1, q =>
    if maxPending < q.pending.len then
      match q.pending.last? with
      | none => q
      | some victim => shed fuel (q.evict victim)
    else q

/-- Under the lock; `none` is an overflow of `next_seq`. -/
def enqueue (q : Inner) (docKey : String) (kind : FanoutKind) : Option Inner :=
  match q.entries.lookup docKey with
  | some entry =>
    some { q with entries := q.entries.insert docKey { entry with kind := entry.kind.merge kind } }
  | none =>
    if q.nextSeq + 1 < UInt64.size then
      let pushed := q.push forCollection docKey kind
      some (shed pushed.pending.len pushed)
    else none

/-- What `pop` takes, and the burst counter. -/
def select (q : Inner) : Option (Pending × ℕ) :=
  match q.pending.first?, q.pending.minByKey (·.seq) with
  | some highestPriority, some oldest =>
    if highestPriority = oldest then some (highestPriority, 0)
    else if maxPriorityBurst ≤ q.priorityBurst then some (oldest, 0)
    else some (highestPriority, q.priorityBurst + 1)
  | _, _ => none

def pop (q : Inner) : Option (String × FanoutKind) × Inner :=
  match q.select with
  | none => (none, { q with priorityBurst := 0 })
  | some (key, burst) =>
    let q' := { q with pending := q.pending.remove key, priorityBurst := burst }
    match q.entries.lookup key.docKey with
    | none => (none, q')
    | some entry => (some (key.docKey, entry.kind),
        { q' with entries := q.entries.erase key.docKey })

def step (q : Inner) : Call → Option Inner
  | .enqueue docKey kind => q.enqueue forCollection docKey kind
  | .pop => some q.pop.2

/-! ### The two tables -/

/-- `pending` and `entries` have the same documents, each under its own sequence number. -/
structure Linked (q : Inner) : Prop where
  pending : ∀ docKey entry, q.entries.lookup docKey = some entry →
    ⟨entry.qosRank, entry.seq, docKey⟩ ∈ q.pending
  entries : ∀ p ∈ q.pending, ∃ entry, q.entries.lookup p.docKey = some entry ∧
    entry.qosRank = p.qosRank ∧ entry.seq = p.seq
  below : ∀ p ∈ q.pending, p.seq < q.nextSeq
  distinct : ∀ p ∈ q.pending, ∀ p' ∈ q.pending, p.seq = p'.seq → p = p'

/-- The tables agree and are not too long. -/
structure Sound (q : Inner) : Prop extends Linked q where
  bounded : q.pending.len ≤ maxPending

theorem sound_default : default.Sound where
  pending docKey entry h := by cases h
  entries p h := absurd h notMem_empty
  below p h := absurd h notMem_empty
  distinct p h := absurd h notMem_empty
  bounded := zero_le _

inductive Turn (q : Inner) : Call → Inner → Prop
  | coalesced {docKey : String} {kind : FanoutKind} {entry : Entry}
      (hentry : q.entries.lookup docKey = some entry) :
      Turn q (.enqueue docKey kind)
        { q with entries := q.entries.insert docKey { entry with kind := entry.kind.merge kind } }
  | inserted (hnew : q.entries.lookup docKey = none)
      (hroom : q.pending.len < maxPending) :
      Turn q (.enqueue docKey kind) (q.push forCollection docKey kind)
  | shed (hnew : q.entries.lookup docKey = none) (hfull : q.pending.len = maxPending)
      (hlast : (q.push forCollection docKey kind).pending.last? = some victim) :
      Turn q (.enqueue docKey kind) ((q.push forCollection docKey kind).evict victim)
  | popped (hselect : q.select = some (key, burst))
      (hentry : q.entries.lookup key.docKey = some entry) :
      Turn q .pop { q with
        pending := q.pending.remove key
        priorityBurst := burst
        entries := q.entries.erase key.docKey }
  | empty (hempty : q.select = none) : Turn q .pop { q with priorityBurst := 0 }

variable {forCollection} {q q' : Inner} {call : Call}

theorem mem_of_select (h : q.select = some (key, burst)) : key ∈ q.pending := by
  unfold select at h
  split at h
  · next highest oldest hfirst hmin =>
    split_ifs at h
    · obtain ⟨rfl, -⟩ := Prod.mk.inj (Option.some.inj h)
      exact mem_of_first? hfirst
    · obtain ⟨rfl, -⟩ := Prod.mk.inj (Option.some.inj h)
      exact mem_of_minByKey hmin
    · obtain ⟨rfl, -⟩ := Prod.mk.inj (Option.some.inj h)
      exact mem_of_first? hfirst
  · cases h

theorem select_eq_none_iff : q.select = none ↔ ∀ p, p ∉ q.pending := by
  constructor
  · intro h p hp
    obtain ⟨oldest, hmin⟩ : ∃ oldest, q.pending.minByKey Pending.seq = some oldest :=
      exists_minByKey hp
    cases hfirst : q.pending.first? with
    | none => exact first?_eq_none_iff.1 hfirst p hp
    | some highest =>
      simp only [select, hfirst, hmin] at h
      split_ifs at h
  · intro h
    rw [select, first?_eq_none_iff.2 h]

theorem Linked.pending_of_pop (hq : q.Linked) (h : q.pop.1 = none) : q.pop.2.pending = ∅ := by
  have hselect : q.select = none := by
    unfold pop at h
    split at h
    · assumption
    · next key burst hselect =>
      obtain ⟨entry, hentry, -⟩ := hq.entries key (mem_of_select hselect)
      simp [hentry] at h
  have hnone : ∀ p, p ∉ q.pending := select_eq_none_iff.1 hselect
  rw [pop, hselect]
  exact eq_empty_iff.2 hnone

/-- The counter goes up, or the oldest entry is taken and it starts again. -/
theorem select_cases (h : q.select = some (key, burst)) :
    (q.priorityBurst < maxPriorityBurst ∧ burst = q.priorityBurst + 1) ∨
      burst = 0 ∧ ∀ p ∈ q.pending, key.seq ≤ p.seq := by
  unfold select at h
  split at h
  · next highest oldest hfirst hmin =>
    split_ifs at h with hsame hburst
    · cases h
      exact .inr ⟨rfl, fun p hp => hsame ▸ minByKey_le hmin hp⟩
    · cases h
      exact .inr ⟨rfl, fun p hp => minByKey_le hmin hp⟩
    · cases h
      exact .inl ⟨Nat.lt_of_not_le hburst, rfl⟩
  · cases h

variable {docKey : String}

theorem Sound.notMem_offered (hq : q.Sound) :
    q.offered forCollection docKey ∉ q.pending := fun hmem =>
  lt_irrefl _ (hq.below _ hmem)

theorem Sound.len_push (hq : q.Sound) :
    (q.push forCollection docKey kind).pending.len = q.pending.len + 1 :=
  len_insert hq.notMem_offered

/-- A queue that is one over the bound sheds its last entry. -/
theorem shed_of_full (h : q.pending.len = maxPending + 1) (fuel : ℕ) (hfuel : 0 < fuel) :
    ∃ victim, q.pending.last? = some victim ∧ q.shed fuel = q.evict victim := by
  obtain ⟨fuel, rfl⟩ := exists_eq_succ_of_ne_zero hfuel.ne'
  cases hlast : q.pending.last? with
  | none =>
    rw [last?, getLast?_eq_none_iff] at hlast
    simp [len, hlast] at h
  | some victim =>
    refine ⟨victim, rfl, ?_⟩
    have hlen : ¬ maxPending < (q.evict victim).pending.len := by
      have hremove : (q.evict victim).pending.len + 1 = q.pending.len :=
        len_remove (mem_of_last? hlast)
      omega
    have hstop : ∀ fuel, (q.evict victim).shed fuel = q.evict victim := by
      intro fuel
      cases fuel with
      | zero => rfl
      | succ fuel => rw [shed, if_neg hlen]
    rw [shed, if_pos (by omega), hlast]
    exact hstop fuel

theorem shed_of_le (h : q.pending.len ≤ maxPending) (fuel : ℕ) : q.shed fuel = q := by
  cases fuel with
  | zero => rfl
  | succ fuel => rw [shed, if_neg (not_lt.2 h)]

theorem Turn.of_step (hq : q.Sound) (h : q.step forCollection call = some q') :
    Turn forCollection q call q' := by
  cases call with
  | enqueue docKey kind =>
    simp only [step, enqueue] at h
    split at h
    · next entry hentry =>
      cases h
      exact .coalesced hentry
    · next hnew =>
      split_ifs at h with hseq
      cases h
      have hlen : (q.push forCollection docKey kind).pending.len = q.pending.len + 1 := hq.len_push
      rcases lt_or_eq_of_le hq.bounded with hroom | hfull
      · rw [shed_of_le (by omega)]
        exact .inserted hnew hroom
      · have hpos : 0 < (q.push forCollection docKey kind).pending.len := by omega
        obtain ⟨victim, hlast, hshed⟩ := shed_of_full (hlen.trans (by rw [hfull])) _ hpos
        rw [hshed]
        exact .shed hnew hfull hlast
  | pop =>
    cases h
    unfold pop
    split
    · next hselect => exact .empty hselect
    · next key burst hselect =>
      obtain ⟨entry, hentry, -⟩ := hq.entries key (mem_of_select hselect)
      simp only [hentry]
      exact .popped hselect hentry

/-! ### The invariant -/

theorem Linked.coalesce (hq : q.Linked) (kind : FanoutKind)
    (hentry : q.entries.lookup docKey = some entry) :
    Linked { q with entries := q.entries.insert docKey { entry with kind } } where
  pending docKey' entry' h := by
    by_cases hkey : docKey' = docKey
    · subst hkey
      rw [lookup_insert] at h
      cases h
      exact hq.pending docKey' entry hentry
    · rw [lookup_insert_ne hkey] at h
      exact hq.pending docKey' entry' h
  entries p hp := by
    obtain ⟨entry', hentry', hsame⟩ := hq.entries p hp
    by_cases hkey : p.docKey = docKey
    · rw [hkey, hentry] at hentry'
      cases hentry'
      exact ⟨{ entry with kind }, by rw [hkey, lookup_insert], hsame⟩
    · exact ⟨entry', by rw [lookup_insert_ne hkey, hentry'], hsame⟩
  below := hq.below
  distinct := hq.distinct

theorem Linked.push (hq : q.Linked) (kind : FanoutKind)
    (hnew : q.entries.lookup docKey = none) : Linked (q.push forCollection docKey kind) where
  pending docKey' entry' h := by
    by_cases hkey : docKey' = docKey
    · subst hkey
      rw [Inner.push, lookup_insert] at h
      cases h
      exact mem_insert.2 (.inl rfl)
    · rw [Inner.push, lookup_insert_ne hkey] at h
      exact mem_insert.2 (.inr (hq.pending docKey' entry' h))
  entries p hp := by
    rcases mem_insert.1 hp with rfl | hp
    · exact ⟨_, lookup_insert _, rfl, rfl⟩
    · obtain ⟨entry', hentry', hsame⟩ := hq.entries p hp
      have hkey : p.docKey ≠ docKey := by
        intro hkey
        rw [hkey, hnew] at hentry'
        cases hentry'
      exact ⟨entry', by rw [Inner.push, lookup_insert_ne hkey, hentry'], hsame⟩
  below p hp := by
    rcases mem_insert.1 hp with rfl | hp
    · exact lt_succ_self _
    · exact lt_succ_of_lt (hq.below p hp)
  distinct p hp p' hp' hseq := by
    rcases mem_insert.1 hp with rfl | hp <;>
      rcases mem_insert.1 hp' with rfl | hp'
    · rfl
    · exact absurd hseq (hq.below p' hp').ne'
    · exact absurd hseq (hq.below p hp).ne
    · exact hq.distinct p hp p' hp' hseq

theorem Linked.remove (hq : q.Linked) (hkey : key ∈ q.pending)
    (hpending : q'.pending = q.pending.remove key)
    (hentries : q'.entries = q.entries.erase key.docKey) (hseq : q'.nextSeq = q.nextSeq) :
    q'.Linked := by
  -- no other pending entry is one of the same document
  have hother : ∀ p ∈ q.pending, p ≠ key → p.docKey ≠ key.docKey := by
    intro p hp hne hdoc
    obtain ⟨entry, hentry, -, hpseq⟩ := hq.entries p hp
    obtain ⟨entry', hentry', -, hkeyseq⟩ := hq.entries key hkey
    rw [hdoc, hentry'] at hentry
    cases hentry
    exact hne (hq.distinct p hp key hkey (hpseq.symm.trans hkeyseq))
  refine ⟨fun docKey entry h => ?_, fun p hp => ?_, fun p hp => ?_, fun p hp p' hp' => ?_⟩
  · rw [hentries] at h
    rw [hpending, mem_remove]
    have hne : docKey ≠ key.docKey := by
      rintro rfl
      simp [lookup_erase] at h
    rw [lookup_erase_ne hne] at h
    refine ⟨?_, hq.pending docKey entry h⟩
    rintro rfl
    exact hne rfl
  · rw [hpending, mem_remove] at hp
    rw [hentries, lookup_erase_ne (hother p hp.2 hp.1)]
    exact hq.entries p hp.2
  · rw [hpending, mem_remove] at hp
    rw [hseq]
    exact hq.below p hp.2
  · rw [hpending, mem_remove] at hp hp'
    exact hq.distinct p hp.2 p' hp'.2

theorem Sound.turn (hq : q.Sound) (h : Turn forCollection q call q') : q'.Sound := by
  cases h with
  | coalesced hentry => exact ⟨hq.coalesce _ hentry, hq.bounded⟩
  | inserted hnew hroom => exact ⟨hq.toLinked.push _ hnew, hq.len_push.trans_le hroom⟩
  | @shed docKey kind victim hnew hfull hlast =>
    have hmem := mem_of_last? hlast
    have hlen : ((q.push forCollection docKey kind).evict victim).pending.len + 1 = maxPending + 1 := by
      rw [← hfull, ← hq.len_push]
      exact len_remove hmem
    exact ⟨(hq.toLinked.push kind hnew).remove hmem rfl rfl rfl, by omega⟩
  | @popped key burst entry hselect hentry =>
    have hmem := mem_of_select hselect
    have hlen : (q.pending.remove key).len + 1 = q.pending.len := len_remove hmem
    have hbound := hq.bounded
    refine ⟨hq.toLinked.remove hmem rfl rfl rfl, ?_⟩
    show (q.pending.remove key).len ≤ maxPending
    omega
  | empty => exact ⟨⟨hq.pending, hq.entries, hq.below, hq.distinct⟩, hq.bounded⟩

theorem Sound.step (hq : q.Sound) (h : q.step forCollection call = some q') : q'.Sound :=
  hq.turn (Turn.of_step hq h)

/-- **The two tables agree in every run.** -/
theorem sound_of_exec (h : Lts.exec (step forCollection) default calls = some q) : q.Sound :=
  Lts.exec_preserves Sound (fun _ _ _ hq h => hq.step h) sound_default h

/-! ### What becomes of an entry -/

structure Log where
  popped : List Pending
  evicted : List Pending

def Log.empty : Log := ⟨[], []⟩

variable (forCollection)

/-- A `pop` is logged with its entry, an `enqueue` of a new document with what it does not leave
in the queue. -/
def Log.next (q : Inner) (call : Call) (q' : Inner) (log : Log) : Log :=
  match call with
  | .enqueue docKey _ =>
    if (q.entries.lookup docKey).isSome then log
    else { log with
      evicted := log.evicted ++
        (q.offered forCollection docKey :: q.pending.toList).filter (· ∉ q'.pending) }
  | .pop =>
    if q.pop.1.isSome then { log with popped := log.popped ++ (q.select.map Prod.fst).toList }
    else log

def logOf (q : Inner) (calls : List Call) : Log :=
  Lts.history (step forCollection) (Log.next forCollection) q .empty calls

variable {forCollection} {p : Pending} {log : Log}

def Placed (p : Pending) (q : Inner) (log : Log) : Prop :=
  p ∈ q.pending ∨ p ∈ log.popped ∨ p ∈ log.evicted

section Log

variable {kind : FanoutKind} {victim : Pending}

/-- A widened entry leaves the log as it is. -/
theorem Log.next_coalesced (hentry : q.entries.lookup docKey = some entry) :
    log.next forCollection q (.enqueue docKey kind) q' = log := by
  simp [Log.next, hentry]

/-- So does a new entry that there is room for. -/
theorem Log.next_inserted (hnew : q.entries.lookup docKey = none) :
    log.next forCollection q (.enqueue docKey kind) (q.push forCollection docKey kind) = log := by
  have hnone : (q.offered forCollection docKey :: q.pending.toList).filter
      (· ∉ (q.push forCollection docKey kind).pending) = [] := by
    rw [filter_eq_nil_iff]
    intro p hp
    have hpushed : p ∈ (q.push forCollection docKey kind).pending := mem_insert.2 (mem_cons.1 hp)
    simpa using hpushed
  simp only [Log.next, hnew, hnone]
  simp

/-- A full queue logs the last entry, which may be the new one. -/
theorem Log.next_shed (hq : q.Sound) (hnew : q.entries.lookup docKey = none)
    (hlast : (q.push forCollection docKey kind).pending.last? = some victim) :
    log.next forCollection q (.enqueue docKey kind)
      ((q.push forCollection docKey kind).evict victim) =
        { log with evicted := log.evicted ++ [victim] } := by
  have hnodup : (q.offered forCollection docKey :: q.pending.toList).Nodup :=
    nodup_cons.2 ⟨hq.notMem_offered, q.pending.nodup⟩
  have hvictim : victim ∈ q.offered forCollection docKey :: q.pending.toList :=
    mem_cons.2 (mem_insert.1 (mem_of_last? hlast))
  have hgone : (q.offered forCollection docKey :: q.pending.toList).filter
      (· ∉ ((q.push forCollection docKey kind).evict victim).pending) = [victim] := by
    have hiff : ∀ p ∈ q.offered forCollection docKey :: q.pending.toList,
        decide (p ∉ ((q.push forCollection docKey kind).evict victim).pending) =
          decide (p = victim) := by
      intro p hp
      have hpushed : p ∈ (q.push forCollection docKey kind).pending :=
        mem_insert.2 (mem_cons.1 hp)
      simp [evict, mem_remove, hpushed]
    rw [filter_congr hiff, filter_eq, count_eq_one_of_mem hnodup hvictim, replicate_one]
  simp only [Log.next, hnew, hgone]
  simp

/-- A successful `pop` logs the entry it takes. -/
theorem Log.next_popped (hselect : q.select = some (key, burst))
    (hentry : q.entries.lookup key.docKey = some entry) :
    log.next forCollection q .pop q' = { log with popped := log.popped ++ [key] } := by
  simp [Log.next, pop, hselect, hentry]

theorem Log.next_empty (hempty : q.select = none) : log.next forCollection q .pop q' = log := by
  simp [Log.next, pop, hempty]

/-- An `enqueue` pops nothing. -/
theorem Log.popped_enqueue :
    (log.next forCollection q (.enqueue docKey kind) q').popped = log.popped := by
  rw [Log.next]
  split_ifs <;> rfl

end Log

theorem placed_offered (hnew : q.entries.lookup docKey = none) (kind : FanoutKind) (q' : Inner) :
    Placed (q.offered forCollection docKey) q' (log.next forCollection q (.enqueue docKey kind) q') := by
  by_cases hstays : q.offered forCollection docKey ∈ q'.pending
  · exact .inl hstays
  · refine .inr (.inr ?_)
    rw [Log.next, hnew, if_neg (by simp)]
    exact mem_append_right _ (mem_filter.2 ⟨mem_cons_self, decide_eq_true hstays⟩)

/-- No entry gets lost. -/
theorem Placed.step (hp : Placed p q log) (hq : q.Sound) (h : q.step forCollection call = some q') :
    Placed p q' (log.next forCollection q call q') := by
  cases Turn.of_step hq h with
  | coalesced hentry =>
    rw [Log.next_coalesced hentry]
    exact hp
  | inserted hnew =>
    rw [Log.next_inserted hnew]
    exact hp.imp_left fun hp => mem_insert.2 (.inr hp)
  | @shed _ _ victim hnew _ hlast =>
    rw [Log.next_shed hq hnew hlast]
    rcases hp with hp | hp | hp
    · by_cases hvictim : p = victim
      · exact .inr (.inr (by simp [hvictim]))
      · exact .inl (mem_remove.2 ⟨hvictim, mem_insert.2 (.inr hp)⟩)
    · exact .inr (.inl hp)
    · exact .inr (.inr (mem_append_left _ hp))
  | @popped key _ _ hselect hentry =>
    rw [Log.next_popped hselect hentry]
    rcases hp with hp | hp | hp
    · by_cases hkey : p = key
      · exact .inr (.inl (by simp [hkey]))
      · exact .inl (mem_remove.2 ⟨hkey, hp⟩)
    · exact .inr (.inl (mem_append_left _ hp))
    · exact .inr (.inr hp)
  | empty hempty =>
    rw [Log.next_empty hempty]
    exact hp

end Inner
end PeatNode.Fanout
