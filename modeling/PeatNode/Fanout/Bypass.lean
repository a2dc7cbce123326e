/-
# Bounded bypass

`pop` prefers the first class, but it takes the oldest entry after eight others.
`9 * (k + 1)` pops are therefore enough for an entry with `k` older ones: a pop of the
oldest entry takes the entry itself or one of the `k`, and at most eight other pops
come between two of these.  What is enqueued meanwhile is younger.
-/

import PeatNode.Fanout.Queue

namespace PeatNode.Fanout.Inner

open List OrderedSet

/-- How many pending entries are older. -/
def older (q : Inner) (p : Pending) : ℕ := (q.pending.toList.filter (·.seq < p.seq)).length

variable {forCollection : String → ℕ} {q q' : Inner} {call : Call} {p : Pending}

theorem mem_filter_older :
    p' ∈ q.pending.toList.filter (·.seq < p.seq) ↔ p' ∈ q.pending ∧ p'.seq < p.seq := by
  rw [mem_filter, decide_eq_true_eq, mem_def]

theorem older_le (h : ∀ p' ∈ q'.pending, p'.seq < p.seq → p' ∈ q.pending) :
    q'.older p ≤ q.older p := by
  refine (subperm_of_subset (q'.pending.nodup.filter _) fun p' hp' => ?_).length_le
  obtain ⟨hmem, hseq⟩ := mem_filter_older.1 hp'
  exact mem_filter_older.2 ⟨h p' hmem hseq, hseq⟩

theorem older_lt (hkey : key ∈ q.pending) (hseq : key.seq < p.seq) (hgone : key ∉ q'.pending)
    (h : ∀ p' ∈ q'.pending, p'.seq < p.seq → p' ∈ q.pending) : q'.older p < q.older p := by
  have hnodup : (key :: q'.pending.toList.filter (·.seq < p.seq)).Nodup := by
    refine nodup_cons.2 ⟨fun hmem => ?_, q'.pending.nodup.filter _⟩
    exact hgone (mem_filter_older.1 hmem).1
  refine (subperm_of_subset hnodup fun p' hp' => ?_).length_le
  rcases mem_cons.1 hp' with rfl | hp'
  · exact mem_filter_older.2 ⟨hkey, hseq⟩
  · obtain ⟨hmem, hseq'⟩ := mem_filter_older.1 hp'
    exact mem_filter_older.2 ⟨h p' hmem hseq', hseq'⟩

/-- The entry is pending with its turn within the bound, or was popped within it, or was shed. -/
structure Waits (p : Pending) (bound : ℕ) (q : Inner) (log : Log) : Prop where
  sound : q.Sound
  waits : (p ∈ q.pending ∧
      log.popped.length + 9 * q.older p + (maxPriorityBurst - q.priorityBurst) + 1 ≤ bound) ∨
    p ∈ log.popped.take bound ∨ p ∈ log.evicted

theorem mem_take_append {l l' : List Pending} (h : p ∈ l.take bound) :
    p ∈ (l ++ l').take bound := by
  rw [take_append]
  exact mem_append_left _ h

theorem Waits.step {bound : ℕ} (hq : Waits p bound q log)
    (h : q.step forCollection call = some q') :
    Waits p bound q' (log.next forCollection q call q') := by
  refine ⟨hq.sound.step h, ?_⟩
  rcases hq.waits with ⟨hp, hbound⟩ | hdone | hdone
  · -- a new entry is younger than `p`
    have hyoung : ∀ docKey kind, ∀ p' ∈ (q.push forCollection docKey kind).pending,
        p'.seq < p.seq → p' ∈ q.pending := by
      intro docKey kind p' hp' hseq
      rcases mem_insert.1 hp' with rfl | hp'
      · exact absurd hseq (Nat.lt_asymm (hq.sound.below p hp))
      · exact hp'
    cases Turn.of_step hq.sound h with
    | coalesced hentry =>
      rw [Log.next_coalesced hentry]
      exact .inl ⟨hp, hbound⟩
    | @inserted docKey kind hnew hroom =>
      rw [Log.next_inserted hnew]
      refine .inl ⟨mem_insert.2 (.inr hp), ?_⟩
      have hle : (q.push forCollection docKey kind).older p ≤ q.older p :=
        older_le (hyoung docKey kind)
      show log.popped.length + 9 * (q.push forCollection docKey kind).older p +
        (maxPriorityBurst - q.priorityBurst) + 1 ≤ bound
      omega
    | @shed docKey kind victim hnew hfull hlast =>
      rw [Log.next_shed hq.sound hnew hlast]
      by_cases hvictim : p = victim
      · exact .inr (.inr (by simp [hvictim]))
      · refine .inl ⟨mem_remove.2 ⟨hvictim, mem_insert.2 (.inr hp)⟩, ?_⟩
        have hle : ((q.push forCollection docKey kind).evict victim).older p ≤ q.older p :=
          older_le fun p' hp' => hyoung docKey kind p' (mem_remove.1 hp').2
        show log.popped.length + 9 * ((q.push forCollection docKey kind).evict victim).older p +
          (maxPriorityBurst - q.priorityBurst) + 1 ≤ bound
        omega
    | @popped key burst entry hselect hentry =>
      rw [Log.next_popped hselect hentry]
      have hlength : (log.popped ++ [key]).length = log.popped.length + 1 := length_append
      by_cases hkey : p = key
      · have htake : (log.popped ++ [key]).take bound = log.popped ++ [key] :=
          take_of_length_le (by omega)
        refine .inr (.inl ?_)
        show p ∈ (log.popped ++ [key]).take bound
        rw [htake, hkey]
        exact mem_append_right _ mem_cons_self
      · refine .inl ⟨mem_remove.2 ⟨hkey, hp⟩, ?_⟩
        set q' : Inner := ⟨q.pending.remove key, q.entries.erase key.docKey, q.nextSeq,
          q.droppedByClass, burst⟩
        have hold : ∀ p' ∈ q'.pending, p'.seq < p.seq → p' ∈ q.pending := fun p' hp' _ =>
          (mem_remove.1 hp').2
        show (log.popped ++ [key]).length + 9 * q'.older p + (maxPriorityBurst - burst) + 1 ≤ bound
        rcases select_cases hselect with ⟨hburst, rfl⟩ | ⟨rfl, holdest⟩
        · have hle : q'.older p ≤ q.older p := older_le hold
          omega
        · -- the oldest entry is older than `p`, which stays
          have hmem := mem_of_select hselect
          have hseq : key.seq < p.seq := by
            refine Nat.lt_of_le_of_ne (holdest p hp) fun hsame => ?_
            exact hkey (hq.sound.distinct key hmem p hp hsame).symm
          have hgone : key ∉ q'.pending := fun hmem => (mem_remove.1 hmem).1 rfl
          have hlt : q'.older p < q.older p := older_lt hmem hseq hgone hold
          have hmax : maxPriorityBurst = 8 := rfl
          omega
    | empty hempty => exact absurd hp (select_eq_none_iff.1 hempty p)
  · right; left
    cases Turn.of_step hq.sound h with
    | coalesced | inserted | shed => rwa [Log.popped_enqueue]
    | popped hselect hentry =>
      rw [Log.next_popped hselect hentry]
      exact mem_take_append hdone
    | empty hempty => rwa [Log.next_empty hempty]
  · right; right
    cases Turn.of_step hq.sound h with
    | coalesced hentry => rwa [Log.next_coalesced hentry]
    | inserted hnew => rwa [Log.next_inserted hnew]
    | shed hnew _ hlast =>
      rw [Log.next_shed hq.sound hnew hlast]
      exact mem_append_left _ hdone
    | popped hselect hentry => rwa [Log.next_popped hselect hentry]
    | empty hempty => rwa [Log.next_empty hempty]

/-- The bound holds at the start: the burst counter leaves at most nine pops. -/
theorem waits_of_mem (hq : q.Sound) (hp : p ∈ q.pending) :
    Waits p (9 * (q.older p + 1)) q .empty := by
  refine ⟨hq, .inl ⟨hp, ?_⟩⟩
  have hmax : maxPriorityBurst = 8 := rfl
  show 0 + 9 * q.older p + (maxPriorityBurst - q.priorityBurst) + 1 ≤ 9 * (q.older p + 1)
  omega

theorem waits_of_exec (hq : Waits p bound q .empty)
    (h : Lts.exec (Inner.step forCollection) q calls = some q') :
    Waits p bound q' (logOf forCollection q calls) := by
  have hstep : ∀ q call q' log, Waits p bound q log → Inner.step forCollection q call = some q' →
      Waits p bound q' (Log.next forCollection q call q' log) := fun _ _ _ _ hq h => hq.step h
  exact Lts.exec_history (Waits p bound) hstep hq h

/-- **Bounded bypass.** From any moment of any run, whatever is enqueued meanwhile: once
`9 * (k + 1)` pops have succeeded, an entry that had `k` older ones was popped or shed. -/
theorem popped_within (forCollection : String → ℕ) (calls later : List Call) (q q' : Inner)
    (p : Pending) (hrun : Lts.exec (Inner.step forCollection) default calls = some q)
    (hlater : Lts.exec (Inner.step forCollection) q later = some q') (hp : p ∈ q.pending)
    (hpops : 9 * (q.older p + 1) ≤ (logOf forCollection q later).popped.length) :
    p ∈ (logOf forCollection q later).popped.take (9 * (q.older p + 1)) ∨
      p ∈ (logOf forCollection q later).evicted := by
  have hwaits := waits_of_exec (waits_of_mem (sound_of_exec hrun) hp) hlater
  rcases hwaits.waits with ⟨-, hbound⟩ | hdone
  · omega
  · exact hdone

def alertsFirst (collection : String) : ℕ := if collection = "alerts" then 1 else 5

def alerts : List Call :=
  (List.replicate 9 [Call.enqueue "alerts:a" .allPeers, Call.pop]).flatten

/-- The ninth pop takes the report that eight alerts went past. -/
theorem report_popped :
    ∃ q ∈ Lts.exec (Inner.step alertsFirst) default [.enqueue "sitreps:r" .allPeers],
      ∃ q' ∈ Lts.exec (Inner.step alertsFirst) q alerts,
        (⟨5, 0, "sitreps:r"⟩ ∈ q.pending ∧ q.older ⟨5, 0, "sitreps:r"⟩ = 0 ∧
          (logOf alertsFirst q alerts).popped.length = 9 ∧
          (logOf alertsFirst q alerts).popped.getLast? = some ⟨5, 0, "sitreps:r"⟩ ∧
          q'.pending.len = 1) ∧
        (⟨5, 0, "sitreps:r"⟩ ∈ (logOf alertsFirst q alerts).popped.take 9 ∨
          ⟨5, 0, "sitreps:r"⟩ ∈ (logOf alertsFirst q alerts).evicted) := by
  refine Lts.exists_mem_mem_and (by decide +kernel) ?_
  rintro q q' hrun hlater ⟨hp, holder, hlength, -⟩
  have hpopped := popped_within alertsFirst _ alerts q q' _ hrun hlater hp (by rw [holder, hlength])
  rwa [holder] at hpopped

end PeatNode.Fanout.Inner
