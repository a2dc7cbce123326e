/-
# What the fanout queue keeps, and what it sheds

`Kept` says how the two tables and the counters of the queue stay together over every run: the
tables agree (`Sound`), the burst counter is within its limit, `next_seq` is the number of entries
ever made, and each of these was popped, was shed or is pending.

A full queue sheds one entry for every new one: the last in the order of class and age (`Sheds`).
Within a class entries are popped as they came (`popped_in_order`).

The classes of `peat_mesh` are the numbers from 1 for `Critical` to 5 for `Bulk`.
-/

import PeatNode.Fanout.Queue
import PeatNode.Lib.Lists

namespace PeatNode.Fanout

open List OrderedSet Nat

/-- `QoSClass as u8`. -/
def QosClass : Type := { rank : ℕ // 1 ≤ rank ∧ rank ≤ 5 }

def QosClass.bulk : QosClass := ⟨5, by decide⟩

def Call.isEnqueue : Call → Bool
  | .enqueue _ _ => true
  | .pop => false

/-- Entries are ordered by class, then age. -/
theorem Pending.rank_le_of_le {p p' : Pending} (h : p ≤ p') :
    p.qosRank < p'.qosRank ∨ p.qosRank = p'.qosRank ∧ p.seq ≤ p'.seq := by
  have hlex : toLex (p.qosRank, toLex (p.seq, p.docKey)) ≤
      toLex (p'.qosRank, toLex (p'.seq, p'.docKey)) := h
  rcases Prod.Lex.toLex_le_toLex.1 hlex with hrank | ⟨hrank, hrest⟩
  · exact .inl hrank
  · refine .inr ⟨hrank, ?_⟩
    rcases Prod.Lex.toLex_le_toLex.1 hrest with hseq | ⟨hseq, -⟩
    · exact le_of_lt hseq
    · exact le_of_eq hseq

/-- `p` came first, or they differ in class. -/
def Pending.Precedes (p p' : Pending) : Prop := p.qosRank = p'.qosRank → p.seq < p'.seq

namespace Inner

variable {forCollection : String → ℕ} {q q' : Inner} {call : Call}

/-! ### One overflow -/

/-- A new entry came into a full queue, and the last one in the order, the new one included, had
to go. -/
structure Sheds (forCollection : String → ℕ) (q : Inner) (docKey : String) (q' : Inner)
    (victim : Pending) : Prop where
  offered : victim = q.offered forCollection docKey ∨ victim ∈ q.pending
  stays : ∀ p, p ∈ q'.pending ↔
    p ≠ victim ∧ (p = q.offered forCollection docKey ∨ p ∈ q.pending)
  greatest : ∀ p ∈ q'.pending,
    p.qosRank < victim.qosRank ∨ p.qosRank = victim.qosRank ∧ p.seq < victim.seq
  counted : q'.droppedByClass = q.droppedByClass.modify victim.qosRank (· + 1)

variable {docKey : String} {kind : FanoutKind} {victim : Pending}

theorem Sound.sheds (hq : q.Sound) (hnew : q.entries.lookup docKey = none)
    (hlast : (q.push forCollection docKey kind).pending.last? = some victim) :
    Sheds forCollection q docKey ((q.push forCollection docKey kind).evict victim) victim := by
  have hmem : ∀ p, p ∈ (q.push forCollection docKey kind).pending ↔
      p = q.offered forCollection docKey ∨ p ∈ q.pending := fun p => mem_insert
  have hvictim := mem_of_last? hlast
  have hlinked : (q.push forCollection docKey kind).Linked := hq.toLinked.push kind hnew
  refine ⟨(hmem victim).1 hvictim, fun p => ?_, fun p hp => ?_, rfl⟩
  · rw [← hmem p]
    exact mem_remove
  · obtain ⟨hne, hpushed⟩ := mem_remove.1 hp
    rcases Pending.rank_le_of_le (le_last? hlast hpushed) with hrank | ⟨hrank, hseq⟩
    · exact .inl hrank
    · refine .inr ⟨hrank, lt_of_le_of_ne hseq fun hsame => ?_⟩
      exact hne (hlinked.distinct p hpushed victim hvictim hsame)

/-! ### Counting -/

/-- How many entries were made, and what became of those that are gone. -/
structure Tally where
  made : ℕ
  log : Log

def Tally.empty : Tally := ⟨0, .empty⟩

variable (forCollection) in
def Tally.next (q : Inner) (call : Call) (q' : Inner) (t : Tally) : Tally where
  made :=
    match call with
    | .enqueue docKey _ => if (q.entries.lookup docKey).isSome then t.made else t.made + 1
    | .pop => t.made
  log := t.log.next forCollection q call q'

variable (forCollection) in
def tallyOf (calls : List Call) : Tally :=
  Lts.history (step forCollection) (Tally.next forCollection) default .empty calls

def Log.byClass (log : Log) : List ℕ :=
  (List.range 6).map fun rank => log.evicted.countP (·.qosRank = rank)

/-- **What every run keeps.** -/
structure Kept (q : Inner) (t : Tally) : Prop extends Sound q where
  ranked : ∀ p ∈ q.pending, 1 ≤ p.qosRank ∧ p.qosRank ≤ 5
  classed : ∀ p ∈ t.log.evicted, 1 ≤ p.qosRank ∧ p.qosRank ≤ 5
  burst : q.priorityBurst ≤ maxPriorityBurst
  numbered : q.nextSeq = t.made
  conserved : t.made = t.log.popped.length + t.log.evicted.length + q.pending.len
  dropped : q.droppedByClass = t.log.byClass

theorem kept_default : Kept default .empty where
  toSound := sound_default
  ranked _ h := absurd h notMem_empty
  classed _ h := absurd h not_mem_nil
  burst := zero_le _
  numbered := rfl
  conserved := rfl
  dropped := rfl

theorem Log.byClass_concat (log : Log) (victim : Pending) :
    Log.byClass { log with evicted := log.evicted ++ [victim] } =
      log.byClass.modify victim.qosRank (· + 1) := by
  refine ext_getElem? fun rank => ?_
  rw [getElem?_modify, Log.byClass, Log.byClass, getElem?_map, getElem?_map]
  by_cases hlt : rank < 6
  · rw [getElem?_range hlt]
    by_cases hsame : victim.qosRank = rank
    all_goals simp [hsame, countP_append]
  · rw [getElem?_eq_none (by simpa using hlt)]
    simp

theorem Kept.step {t : Tally} (hq : Kept q t)
    (hclass : ∀ collection, 1 ≤ forCollection collection ∧ forCollection collection ≤ 5)
    (h : q.step forCollection call = some q') : Kept q' (t.next forCollection q call q') := by
  have hsound := hq.toSound.step h
  have hconserved := hq.conserved
  have hoffered : ∀ docKey kind, ∀ p ∈ (q.push forCollection docKey kind).pending,
      1 ≤ p.qosRank ∧ p.qosRank ≤ 5 := by
    intro docKey kind p hp
    rcases mem_insert.1 hp with rfl | hp
    · exact hclass _
    · exact hq.ranked p hp
  cases Turn.of_step hq.toSound h with
  | coalesced hentry =>
    simp only [Tally.next, Log.next_coalesced hentry, hentry]
    exact { hq with toSound := hsound }
  | @inserted docKey kind hnew hroom =>
    have hlen : (q.push forCollection docKey kind).pending.len = q.pending.len + 1 :=
      hq.toSound.len_push
    simp only [Tally.next, Log.next_inserted hnew, hnew]
    refine ⟨hsound, hoffered docKey kind, hq.classed, hq.burst, congrArg (· + 1) hq.numbered, ?_,
      hq.dropped⟩
    simp
    omega
  | @shed docKey kind victim hnew hfull hlast =>
    have hmem := mem_of_last? hlast
    have hlen : ((q.push forCollection docKey kind).evict victim).pending.len + 1 =
        q.pending.len + 1 := by
      rw [← hq.toSound.len_push]
      exact len_remove hmem
    simp only [Tally.next, Log.next_shed hq.toSound hnew hlast, hnew]
    refine ⟨hsound, fun p hp => hoffered docKey kind p (mem_remove.1 hp).2, fun p hp => ?_,
      hq.burst, congrArg (· + 1) hq.numbered, ?_, ?_⟩
    · rcases mem_append.1 hp with hp | hp
      · exact hq.classed p hp
      · obtain rfl := mem_singleton.1 hp
        exact hoffered docKey kind p hmem
    · simp
      omega
    · rw [Log.byClass_concat, ← hq.dropped]
      rfl
  | @popped key burst entry hselect hentry =>
    have hlen : (q.pending.remove key).len + 1 = q.pending.len :=
      len_remove (mem_of_select hselect)
    have hburst : burst ≤ maxPriorityBurst := by
      rcases select_cases hselect with ⟨hburst, rfl⟩ | ⟨rfl, -⟩
      · exact hburst
      · exact zero_le _
    simp only [Tally.next, Log.next_popped hselect hentry]
    refine ⟨hsound, fun p hp => hq.ranked p (mem_remove.1 hp).2, hq.classed, hburst, hq.numbered, ?_,
      hq.dropped⟩
    simp
    omega
  | empty hempty =>
    simp only [Tally.next, Log.next_empty hempty]
    exact { hq with toSound := hsound, burst := zero_le _ }

theorem kept_of_exec
    (hclass : ∀ collection, 1 ≤ forCollection collection ∧ forCollection collection ≤ 5)
    (h : Lts.exec (step forCollection) default calls = some q) :
    q.Kept (tallyOf forCollection calls) := by
  have hstep : ∀ q call q' t, Kept q t → step forCollection q call = some q' →
      Kept q' (Tally.next forCollection q call q' t) := fun _ _ _ _ hq h => hq.step hclass h
  exact Lts.exec_history Kept hstep kept_default h

/-! ### Enough sequence numbers -/

theorem Sound.exists_step (hq : q.Sound) (call : Call)
    (hseq : q.nextSeq + (if call.isEnqueue then 1 else 0) < UInt64.size) :
    ∃ q', q.step forCollection call = some q' ∧
      q'.nextSeq ≤ q.nextSeq + if call.isEnqueue then 1 else 0 := by
  have hreturns : ∃ q', q.step forCollection call = some q' := by
    cases call with
    | enqueue docKey kind =>
      have hroom : q.nextSeq + 1 < UInt64.size := hseq
      simp only [Inner.step, enqueue, if_pos hroom]
      cases q.entries.lookup docKey with
      | none | some entry => exact ⟨_, rfl⟩
    | pop => exact ⟨_, rfl⟩
  obtain ⟨q', h⟩ := hreturns
  refine ⟨q', h, ?_⟩
  cases Turn.of_step hq h with
  | coalesced => exact le_succ _
  | inserted | shed | popped | empty => exact le_refl _

/-- With fewer enqueues than sequence numbers every call of a run returns. -/
theorem Sound.exists_exec (calls : List Call) (hq : q.Sound)
    (hseq : q.nextSeq + calls.countP Call.isEnqueue < UInt64.size) :
    ∃ q', Lts.exec (Inner.step forCollection) q calls = some q' := by
  induction calls generalizing q with
  | nil => exact ⟨q, rfl⟩
  | cons call calls ih =>
    rw [countP_cons] at hseq
    obtain ⟨next, hstep, hnext⟩ : ∃ next, q.step forCollection call = some next ∧
        next.nextSeq ≤ q.nextSeq + if call.isEnqueue then 1 else 0 :=
      hq.exists_step call (by omega)
    obtain ⟨q', hrun⟩ := ih (hq.step hstep) (by omega)
    exact ⟨q', Lts.exec_cons_eq_some.2 ⟨next, hstep, hrun⟩⟩

/-! ### The order within a class -/

/-- The first entry in the order and the oldest of all are the oldest of their class. -/
theorem select_oldest (h : q.select = some (key, burst)) (hp : p ∈ q.pending)
    (hrank : key.qosRank = p.qosRank) : key.seq ≤ p.seq := by
  unfold select at h
  split at h
  · next highest oldest hfirst hmin =>
    have hhighest : highest.qosRank = p.qosRank → highest.seq ≤ p.seq := by
      intro hrank
      rcases Pending.rank_le_of_le (first?_le hfirst hp) with hlt | ⟨-, hseq⟩
      · exact absurd hrank hlt.ne
      · exact hseq
    split_ifs at h <;> cases h
    · exact hhighest hrank
    · exact minByKey_le hmin hp
    · exact hhighest hrank
  · cases h

structure InOrder (q : Inner) (log : Log) : Prop where
  sound : q.Sound
  popped : log.popped.Pairwise Pending.Precedes
  pending : ∀ p ∈ log.popped, ∀ p' ∈ q.pending, p.Precedes p'
  below : ∀ p ∈ log.popped, p.seq < q.nextSeq

variable {log log' : Log}

/-- A call that pops nothing brings only entries with new numbers. -/
theorem InOrder.keep (hq : InOrder q log) (hsound : q'.Sound) (hlog : log'.popped = log.popped)
    (hseq : q.nextSeq ≤ q'.nextSeq)
    (hnew : ∀ p ∈ q'.pending, p.seq = q.nextSeq ∨ p ∈ q.pending) : InOrder q' log' := by
  refine ⟨hsound, ?_, fun p hp p' hp' => ?_, fun p hp => ?_⟩
  all_goals rw [hlog] at *
  · exact hq.popped
  · rcases hnew p' hp' with hnext | hp'
    · exact fun _ => (hq.below p hp).trans_eq hnext.symm
    · exact hq.pending p hp p' hp'
  · exact (hq.below p hp).trans_le hseq

theorem InOrder.step (hq : InOrder q log) (h : q.step forCollection call = some q') :
    InOrder q' (log.next forCollection q call q') := by
  have hsound := hq.sound.step h
  have hpush : ∀ docKey kind, ∀ p ∈ (q.push forCollection docKey kind).pending,
      p.seq = q.nextSeq ∨ p ∈ q.pending := by
    intro docKey kind p hp
    rcases mem_insert.1 hp with rfl | hp
    · exact .inl rfl
    · exact .inr hp
  cases Turn.of_step hq.sound h with
  | coalesced => exact hq.keep hsound Log.popped_enqueue (le_refl _) fun p hp => .inr hp
  | inserted => exact hq.keep hsound Log.popped_enqueue (le_succ _) (hpush _ _)
  | shed =>
    refine hq.keep hsound Log.popped_enqueue (le_succ _) fun p hp => ?_
    exact hpush _ _ p (mem_remove.1 hp).2
  | @popped key burst entry hselect hentry =>
    have hkey := mem_of_select hselect
    rw [Log.next_popped hselect hentry]
    refine ⟨hsound, ?_, fun p hp p' hp' => ?_, fun p hp => ?_⟩
    · refine pairwise_append.2 ⟨hq.popped, pairwise_singleton _ key, fun p hp p' hp' => ?_⟩
      obtain rfl := mem_singleton.1 hp'
      exact hq.pending p hp p' hkey
    · obtain ⟨hne, hstays⟩ := mem_remove.1 hp'
      rcases mem_append.1 hp with hp | hp
      · exact hq.pending p hp p' hstays
      · obtain rfl := mem_singleton.1 hp
        intro hrank
        refine lt_of_le_of_ne (select_oldest hselect hstays hrank) fun hseq => ?_
        exact hne (hq.sound.distinct p' hstays p hkey hseq.symm)
    · rcases mem_append.1 hp with hp | hp
      · exact hq.below p hp
      · obtain rfl := mem_singleton.1 hp
        exact hq.sound.below p hkey
  | empty hempty =>
    rw [Log.next_empty hempty]
    exact hq.keep hsound rfl (le_refl _) fun p hp => .inr hp

/-- **First come, first served within a class.** In every run, the entries of one class are popped
in the order they came, also where the oldest of all is popped out of turn, and none while an
older one of its class is pending. -/
theorem popped_in_order (h : Lts.exec (step forCollection) default calls = some q) :
    (logOf forCollection default calls).popped.Pairwise Pending.Precedes ∧
      ∀ p ∈ (logOf forCollection default calls).popped, ∀ p' ∈ q.pending, p.Precedes p' := by
  have hstart : InOrder default .empty :=
    ⟨sound_default, .nil, fun _ hp => absurd hp not_mem_nil, fun _ hp => absurd hp not_mem_nil⟩
  have hstep : ∀ q call q' log, InOrder q log → step forCollection q call = some q' →
      InOrder q' (Log.next forCollection q call q' log) := fun _ _ _ _ hq h => hq.step h
  have horder := Lts.exec_history InOrder hstep hstart h
  exact ⟨horder.popped, horder.pending⟩

/-- A document of a higher class goes before the two that came first. -/
theorem popped_in_order_three :
    (logOf (fun c => c.length) default [.enqueue "bb:1" .allPeers, .enqueue "bb:2" .allPeers,
      .enqueue "a:1" .allPeers, .pop, .pop, .pop]).popped.Pairwise Pending.Precedes := by
  obtain ⟨q, hrun⟩ := sound_default.exists_exec [.enqueue "bb:1" .allPeers,
    .enqueue "bb:2" .allPeers, .enqueue "a:1" .allPeers, .pop, .pop, .pop] (by decide)
  exact (popped_in_order hrun).1

/-! ### The queue over every run -/

/-- What an `enqueue` of a document that is not pending does. -/
structure Enqueues (forCollection : String → ℕ) (q : Inner) (docKey : String) (q' : Inner) :
    Prop where
  room : q.pending.len < maxPending → q'.droppedByClass = q.droppedByClass ∧
    ∀ p, p ∈ q'.pending ↔ p = q.offered forCollection docKey ∨ p ∈ q.pending
  full : q.pending.len = maxPending → ∃! victim, Sheds forCollection q docKey q' victim

theorem Sound.enqueues (hq : q.Sound) (hnew : q.entries.lookup docKey = none)
    (h : q.step forCollection (.enqueue docKey kind) = some q') :
    Enqueues forCollection q docKey q' := by
  cases Turn.of_step hq h with
  | coalesced hentry =>
    simp [hnew] at hentry
  | inserted _ hroom =>
    exact ⟨fun _ => ⟨rfl, fun p => mem_insert⟩, fun hfull => absurd hfull hroom.ne⟩
  | @shed _ _ victim _ hfull hlast =>
    have hsheds := hq.sheds hnew hlast
    refine ⟨fun hroom => absurd hfull hroom.ne, fun _ => ⟨victim, hsheds, fun other hother => ?_⟩⟩
    -- the other one would be among those that stay
    by_contra hne
    exact ((hother.stays other).1 ((hsheds.stays other).2 ⟨hne, hother.offered⟩)).1 rfl

/-- **The fanout queue over every run.** With fewer enqueues than sequence numbers every call
returns; the tables, the bound and the counters are kept, and an enqueue into a full queue sheds
one entry, the last in the order of class and age. -/
theorem queue_kept_and_shedding (forCollection : String → QosClass) (calls : List Call)
    (hcalls : calls.countP Call.isEnqueue < UInt64.size) :
    ∃ q, Lts.exec (step fun collection => (forCollection collection).1) default calls = some q ∧
      q.Kept (tallyOf (fun collection => (forCollection collection).1) calls) ∧
      ∀ docKey kind q', q.entries.lookup docKey = none →
        q.step (fun collection => (forCollection collection).1) (.enqueue docKey kind) = some q' →
        Enqueues (fun collection => (forCollection collection).1) q docKey q' := by
  have hseq : default.nextSeq + calls.countP Call.isEnqueue < UInt64.size :=
    (zero_add _).trans_lt hcalls
  obtain ⟨q, hrun⟩ := sound_default.exists_exec calls hseq
  have hkept := kept_of_exec (fun collection => (forCollection collection).2) hrun
  exact ⟨q, hrun, hkept, fun docKey kind q' hnew h => hkept.toSound.enqueues hnew h⟩

/-- As long as there is room, all documents that are enqueued are pending. -/
structure Filled (q : Inner) (docKeys : List String) : Prop extends Sound q where
  len : q.pending.len = docKeys.length
  keys : ∀ docKey, docKey ∈ q.entries ↔ docKey ∈ docKeys
  made : q.nextSeq = docKeys.length

theorem filled_of_exec {docKeys : List String} (hnodup : docKeys.Nodup)
    (hlen : docKeys.length ≤ maxPending)
    (hrun : Lts.exec (step forCollection) default (docKeys.map (.enqueue · .allPeers)) = some q) :
    q.Filled docKeys := by
  induction docKeys using reverseRecOn generalizing q with
  | nil =>
    cases hrun
    exact ⟨sound_default, rfl, fun docKey => by simp [default], rfl⟩
  | append_singleton docKeys docKey ih =>
    rw [map_append, Lts.exec_append, Option.bind_eq_some_iff] at hrun
    obtain ⟨q₁, hrun, hstep⟩ := hrun
    have hstep : q₁.step forCollection (.enqueue docKey .allPeers) = some q := by simpa using hstep
    rw [← concat_eq_append, nodup_concat] at hnodup
    rw [length_append, length_singleton] at hlen
    have h := ih hnodup.2 (le_of_succ_le hlen) hrun
    cases Turn.of_step h.toSound hstep with
    | coalesced hentry =>
      have hmem := (h.keys docKey).1 (AList.lookup_isSome.1 (by rw [hentry]; rfl))
      exact absurd hmem hnodup.1
    | inserted =>
      refine ⟨h.toSound.step hstep, ?_, fun key => ?_, ?_⟩
      · rw [h.toSound.len_push, h.len, length_append, length_singleton]
      · simp [push, h.keys, or_comm]
      · simp [push, h.made]
    | shed hnew hfull =>
      rw [h.len] at hfull
      omega

def fillKeys : List String := (range maxPending).map fun i => .ofList (replicate i 'k')

/-- Documents of the lowest class fill the queue; one more sheds one entry. -/
theorem queue_kept_full :
    ∃ q, Lts.exec (step fun _ => 5) default (fillKeys.map (.enqueue · .allPeers)) = some q ∧
      q.Kept (tallyOf (fun _ => 5) (fillKeys.map (.enqueue · .allPeers))) ∧
      q.pending.len = maxPending ∧ ∃ q', q.step (fun _ => 5) (.enqueue "b:1" .allPeers) = some q' ∧
        ∃! victim, Sheds (fun _ => 5) q "b:1" q' victim := by
  have hlength : fillKeys.length = maxPending := by simp [fillKeys]
  have hcalls : (fillKeys.map (Call.enqueue · .allPeers)).countP Call.isEnqueue < UInt64.size := by
    refine countP_le_length.trans_lt ?_
    rw [length_map, hlength]
    decide
  obtain ⟨q, hrun, hkept, hnext⟩ := queue_kept_and_shedding (fun _ => .bulk)
    (fillKeys.map (.enqueue · .allPeers)) hcalls
  have hfilled : q.Filled fillKeys :=
    filled_of_exec (nodup_range.map (ofList_replicate_injective 'k')) hlength.le hrun
  have hfull := hfilled.len.trans hlength
  have hnew : q.entries.lookup "b:1" = none := by
    rw [AList.lookup_eq_none, hfilled.keys]
    intro hmem
    obtain ⟨i, -, hi⟩ := mem_map.1 hmem
    have hk : 'b' ∈ (String.ofList (replicate i 'k')).toList := by
      rw [hi]
      decide
    rw [String.toList_ofList] at hk
    exact absurd (eq_of_mem_replicate hk) (by decide)
  obtain ⟨q', hstep, -⟩ : ∃ q', q.step (fun _ => 5) (.enqueue "b:1" .allPeers) = some q' ∧ _ :=
    hfilled.toSound.exists_step _ (by rw [hfilled.made, hlength]; decide)
  exact ⟨q, hrun, hkept, hfull, q', hstep, (hnext "b:1" .allPeers q' hnew hstep).full hfull⟩

end Inner
end PeatNode.Fanout
