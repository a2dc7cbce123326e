/-
# Observing documents

The loop of `peat observe` (`crates/peat-cli/src/cli/observe.rs`): for every notified key the
document is read, and a record is written unless the state is the one that was written last.  The
loop remembers the hash of that state for each key until the document is gone; at 10,000 keys the
memory is cleared.

So a key notified twice while its document is gone has two records of that, and no record repeats
otherwise (`observe_repeats_iff`).
-/

import Mathlib.Data.Finset.Card
import Mathlib.Data.List.AList
import Mathlib.Data.List.Chain
import PeatNode.Lib.Lists

namespace PeatNode.Cli

open List Option AList

/-- The documents asked for: those whose keys start so, or one. -/
inductive Scope
  | keysWith (start : String)
  | document (key : String)

def Scope.covers : Scope → String → Bool
  | .keysWith start, key => start.toList.isPrefixOf key.toList
  | .document target, key => key = target

/-- A record is written of a state, or of a document that is gone. -/
structure Observer (State : Type) where
  lastSeen : AList fun _ : String => UInt64
  records : List (String × Option State)

/-- A key, and what the store answers when it is read. -/
abbrev Notification (State : Type) := String × Except String (Option State)

def maxDedupKeys : ℕ := 10000

variable {State : Type} {scope : Scope} {digest : State → UInt64} {ns : List (Notification State)}
  {n : Notification State} {key : String}

/-- What was read of a key that is asked for. -/
def readsOf (scope : Scope) (key : String) (ns : List (Notification State)) : List (Option State) :=
  ns.filterMap fun n => if n.1 = key ∧ scope.covers key then n.2.toOption else none

namespace Observer

def start : Observer State := ⟨∅, []⟩

def step (scope : Scope) (digest : State → UInt64) (s : Observer State) (n : Notification State) :
    Observer State :=
  if scope.covers n.1 then
    match n.2 with
    | .ok (some d) =>
      if s.lastSeen.lookup n.1 = some (digest d) then s
      else
        let lastSeen := if maxDedupKeys ≤ s.lastSeen.keys.length then ∅ else s.lastSeen
        ⟨lastSeen.insert n.1 (digest d), s.records ++ [(n.1, some d)]⟩
    | .ok none => ⟨s.lastSeen.erase n.1, s.records ++ [(n.1, none)]⟩
    | .error _ => s
  else s

def run (scope : Scope) (digest : State → UInt64) (ns : List (Notification State)) :
    Observer State :=
  ns.foldl (step scope digest) start

def recordsOf (s : Observer State) (key : String) : List (Option State) :=
  (s.records.filter fun r => r.1 = key).map Prod.snd

variable {s : Observer State} {reads : List (Option State)}

/-- What the loop has written and remembers of a key after these reads. -/
structure Tracks (digest : State → UInt64) (s : Observer State) (key : String)
    (reads : List (Option State)) : Prop where
  seen : s.lastSeen.lookup key = reads.getLast?.join.map digest
  last : (s.recordsOf key).getLast? = reads.getLast?
  repeats : (s.recordsOf key).IsChain (· ≠ ·) ↔ reads.IsChain fun a b => a.isSome ∨ b.isSome

theorem isChain_concat : (l ++ [a]).IsChain R ↔ l.IsChain R ∧ ∀ b ∈ l.getLast?, R b a := by
  simp [isChain_append]

theorem Tracks.record (h : s.Tracks digest key reads) (hnew : r.isSome → reads.getLast? ≠ some r)
    {lastSeen : AList fun _ : String => UInt64} (hseen : lastSeen.lookup key = r.map digest) :
    Tracks digest ⟨lastSeen, s.records ++ [(key, r)]⟩ key (reads ++ [r]) := by
  have hrecords : recordsOf ⟨lastSeen, s.records ++ [(key, r)]⟩ key = s.recordsOf key ++ [r] := by
    simp [recordsOf]
  refine ⟨by simpa using hseen, by simp [hrecords], ?_⟩
  rw [hrecords, isChain_concat, isChain_concat, h.repeats, h.last]
  refine and_congr_right fun _ => ?_
  cases hlast : reads.getLast? with
  | none => simp
  | some r' => cases r <;> cases r' <;> grind

/-- No record is written of a state that has one. -/
theorem Tracks.again (h : s.Tracks digest key reads) (hlast : reads.getLast? = some (some d)) :
    s.Tracks digest key (reads ++ [some d]) where
  seen := by simp [h.seen, hlast]
  last := by simp [h.last, hlast]
  repeats := by simp [h.repeats, isChain_concat]

theorem Tracks.other (h : s.Tracks digest key reads) {lastSeen : AList fun _ : String => UInt64}
    (hseen : lastSeen.lookup key = s.lastSeen.lookup key) (hkey : key' ≠ key) :
    Tracks digest ⟨lastSeen, s.records ++ [(key', r)]⟩ key reads := by
  have hrecords : recordsOf ⟨lastSeen, s.records ++ [(key', r)]⟩ key = s.recordsOf key := by
    simp [recordsOf, hkey]
  exact ⟨hseen.trans h.seen, hrecords ▸ h.last, hrecords ▸ h.repeats⟩

theorem readsOf_concat : readsOf scope key (ns ++ [n]) = readsOf scope key ns ++
    (if n.1 = key ∧ scope.covers key then n.2.toOption else none).toList := by
  rw [readsOf, filterMap_append]
  congr 1

def states (ns : List (Notification State)) : Set State := {d | ∃ key, (key, .ok (some d)) ∈ ns}

theorem mem_states (h : some d ∈ readsOf scope key ns) : d ∈ states ns := by
  obtain ⟨⟨key', read⟩, hn, hread⟩ := mem_filterMap.1 h
  rw [ite_none_right_eq_some] at hread
  cases read with
  | error e => cases hread.2
  | ok read => exact ⟨key', by cases hread.2; exact hn⟩

theorem states_concat : states ns ⊆ states (ns ++ [n]) :=
  fun _ ⟨key, h⟩ => ⟨key, mem_append_left _ h⟩

/-- What a notification does to the loop, and to what was read of one key. -/
inductive Turn (digest : State → UInt64) (s : Observer State) (key : String) :
    Notification State → Observer State → Option (Option State) → Prop
  | idle {n : Notification State} : Turn digest s key n s none
  | again {d : State} (hsame : s.lastSeen.lookup key = some (digest d)) :
      Turn digest s key (key, .ok (some d)) s (some (some d))
  | record {n : Notification State} {r : Option State} {memory : AList fun _ : String => UInt64}
      (hseen : memory.lookup key = r.map digest)
      (hnew : ∀ d, r = some d → s.lastSeen.lookup key ≠ some (digest d)) :
      Turn digest s key n ⟨memory, s.records ++ [(key, r)]⟩ (some r)
  | other {n : Notification State} {key' : String} {r : Option State}
      {memory : AList fun _ : String => UInt64} (hkey : key' ≠ key)
      (hseen : ∀ hash ∈ memory.lookup key, hash ∈ s.lastSeen.lookup key)
      (hroom : s.lastSeen.keys.length < maxDedupKeys →
        memory.lookup key = s.lastSeen.lookup key) :
      Turn digest s key n ⟨memory, s.records ++ [(key', r)]⟩ none

theorem Turn.of_step (scope : Scope) (digest : State → UInt64) (s : Observer State) (key : String)
    (ns : List (Notification State)) (n : Notification State) :
    ∃ s' read, s.step scope digest n = s' ∧
      readsOf scope key (ns ++ [n]) = readsOf scope key ns ++ read.toList ∧
      Turn digest s key n s' read := by
  refine ⟨_, _, rfl, readsOf_concat, ?_⟩
  obtain ⟨key', read⟩ := n
  have hkept : ∀ hash ∈ (if maxDedupKeys ≤ s.lastSeen.keys.length then ∅
      else s.lastSeen).lookup key, hash ∈ s.lastSeen.lookup key := by
    split_ifs <;> simp
  have hroom : s.lastSeen.keys.length < maxDedupKeys →
      (if maxDedupKeys ≤ s.lastSeen.keys.length then ∅ else s.lastSeen) = s.lastSeen :=
    fun h => if_neg (Nat.not_le.2 h)
  simp only [step]
  generalize (if maxDedupKeys ≤ s.lastSeen.keys.length then ∅ else s.lastSeen) = kept at hkept hroom ⊢
  by_cases hkey : key' = key
  swap
  · simp only [hkey, false_and, if_false]
    split_ifs
    · split
      · split_ifs
        · exact .idle
        · refine .other hkey ?_ fun h => ?_ <;> rw [lookup_insert_ne (Ne.symm hkey)]
          · exact hkept
          · rw [hroom h]
      · refine .other hkey ?_ fun h => ?_ <;> rw [lookup_erase_ne (Ne.symm hkey)]
        exact fun _ => id
      · exact .idle
    · exact .idle
  subst hkey
  by_cases hcovers : scope.covers key'
  swap
  · simpa [hcovers] using .idle
  simp only [hcovers, if_true, and_self]
  match read with
  | .error e => exact .idle
  | .ok none => exact .record (lookup_erase _ _) nofun
  | .ok (some d) =>
    dsimp only
    split_ifs with hsame
    · exact .again hsame
    · refine .record (lookup_insert _) ?_
      rintro d ⟨⟩
      exact hsame

/-- With no two states of one hash, what has the hash of the last state read is that state. -/
theorem eq_of_digest (hd : (states (ns ++ [(key, .ok (some d))])).InjOn digest)
    (hlast : (readsOf scope key' ns).getLast? = some (some d')) (h : digest d' = digest d) :
    d' = d :=
  hd (states_concat (mem_states (mem_of_getLast? hlast))) ⟨key, by simp⟩ h

theorem Tracks.step (hroom : s.lastSeen.keys.length < maxDedupKeys)
    (h : s.Tracks digest key (readsOf scope key ns)) (hd : (states (ns ++ [n])).InjOn digest) :
    (s.step scope digest n).Tracks digest key (readsOf scope key (ns ++ [n])) := by
  obtain ⟨s', read, hs, hreads, hturn⟩ := Turn.of_step scope digest s key ns n
  rw [hs, hreads]
  cases hturn with
  | idle => simpa using h
  | again hsame =>
    rw [h.seen] at hsame
    obtain ⟨d', hlast, hdigest⟩ := map_eq_some_iff.1 hsame
    obtain rfl := eq_of_digest hd (join_eq_some_iff.1 hlast) hdigest
    exact h.again (join_eq_some_iff.1 hlast)
  | @record _ r _ hseen hnew =>
    refine h.record (fun hr hlast => ?_) hseen
    obtain ⟨d, rfl⟩ := isSome_iff_exists.1 hr
    exact hnew d rfl (by simp [h.seen, hlast])
  | other hkey hseen hsame => simpa using h.other (hsame hroom) hkey

theorem mem_step (h : key ∈ (s.step scope digest n).lastSeen) : key = n.1 ∨ key ∈ s.lastSeen := by
  unfold step at h
  split at h
  · split at h
    · grind [mem_insert, notMem_empty]
    · exact .inr (mem_erase.1 h).2
    · exact .inr h
  · exact .inr h

def notified (ns : List (Notification State)) : Finset String := (ns.map Prod.fst).toFinset

theorem run_concat : run scope digest (ns ++ [n]) = (run scope digest ns).step scope digest n := by
  simp [run]

theorem mem_notified (h : key ∈ (run scope digest ns).lastSeen) : key ∈ notified ns := by
  induction ns using reverseRecOn with
  | nil => exact absurd h (notMem_empty key)
  | append_singleton ns n ih =>
    rw [run_concat] at h
    rcases mem_step h with rfl | h
    · simp [notified]
    · have := ih h
      simp_all [notified]

theorem tracks_run (hkeys : (notified ns).card < maxDedupKeys) (hd : (states ns).InjOn digest)
    (key : String) : (run scope digest ns).Tracks digest key (readsOf scope key ns) := by
  induction ns using reverseRecOn with
  | nil => exact ⟨rfl, rfl, by simp [recordsOf, readsOf, run, start]⟩
  | append_singleton ns n ih =>
    have hnotified : notified ns ⊆ notified (ns ++ [n]) := by simp [notified]
    have hroom : (run scope digest ns).lastSeen.keys.length < maxDedupKeys := by
      rw [← toFinset_card_of_nodup (keys_nodup _)]
      refine (Finset.card_le_card fun k hk => hnotified ?_).trans_lt hkeys
      exact mem_notified (mem_toFinset.1 hk)
    have h := ih ((Finset.card_le_card hnotified).trans_lt hkeys) (hd.mono states_concat)
    rw [run_concat]
    exact h.step hroom hd

/-- With fewer keys than the memory holds and no two states of one hash: the last record of each
key is of what was read last, and none repeats the one before, unless the document was found gone
twice in a row. -/
theorem observe_repeats_iff (hkeys : (notified ns).card < maxDedupKeys)
    (hd : (states ns).InjOn digest) (key : String) :
    (((run scope digest ns).recordsOf key).IsChain (· ≠ ·) ↔
      (readsOf scope key ns).IsChain fun a b => a.isSome ∨ b.isSome) ∧
    ((run scope digest ns).recordsOf key).getLast? = (readsOf scope key ns).getLast? :=
  have h := tracks_run hkeys hd key
  ⟨h.repeats, h.last⟩

/-- A document that changes, does not change, is deleted and created again. -/
theorem observe_changes :
    ((run (.keysWith "c:") id [("c:d", .ok (some 1)), ("c:e", .ok none), ("c:d", .ok (some 1)),
      ("c:d", .ok none), ("c:d", .ok (some 1))]).recordsOf "c:d").IsChain (· ≠ ·) :=
  (observe_repeats_iff (by decide) Function.injective_id.injOn "c:d").1.2 (by decide)

/-- **A record repeats**: a key is notified again while its document is gone. -/
theorem observe_deleted_twice :
    (run (.keysWith "c:") (id : UInt64 → UInt64)
      [("c:d", .ok none), ("c:d", .ok none)]).recordsOf "c:d" = [none, none] := by
  decide

/-! ### More keys than the memory holds -/

/-- What is remembered of a key is the hash of the last read, which has a record. -/
structure Current (digest : State → UInt64) (s : Observer State) (key : String)
    (reads : List (Option State)) : Prop where
  seen : ∀ hash ∈ s.lastSeen.lookup key, ∃ d, reads.getLast? = some (some d) ∧ digest d = hash
  last : (s.recordsOf key).getLast? = reads.getLast?

theorem Current.step (h : s.Current digest key (readsOf scope key ns))
    (hd : (states (ns ++ [n])).InjOn digest) :
    (s.step scope digest n).Current digest key (readsOf scope key (ns ++ [n])) := by
  obtain ⟨s', read, hs, hreads, hturn⟩ := Turn.of_step scope digest s key ns n
  rw [hs, hreads]
  cases hturn with
  | idle => simpa using h
  | again hsame =>
    -- nothing is written, so the last state is this one
    obtain ⟨d', hlast, hdigest⟩ := h.seen _ hsame
    obtain rfl := eq_of_digest hd hlast hdigest
    exact ⟨by simp [hsame], by simp [h.last, hlast]⟩
  | record hseen hnew =>
    refine ⟨fun hash hhash => ?_, by simp [recordsOf]⟩
    obtain ⟨d, rfl, hd⟩ := map_eq_some_iff.1 (hseen ▸ hhash)
    exact ⟨d, by simp, hd⟩
  | other hkey hseen hroom =>
    refine ⟨fun hash hhash => ?_, ?_⟩
    · simpa using h.seen hash (hseen hash hhash)
    · simpa [recordsOf, hkey] using h.last

theorem length_step (h : s.lastSeen.keys.length ≤ maxDedupKeys) :
    (s.step scope digest n).lastSeen.keys.length ≤ maxDedupKeys := by
  have hkept : (if maxDedupKeys ≤ s.lastSeen.keys.length then ∅
      else s.lastSeen).keys.length < maxDedupKeys := by
    split_ifs with hfull
    · decide
    · exact Nat.not_le.1 hfull
  have herase : ∀ m : AList fun _ : String => UInt64,
      (m.keys.erase n.1).length ≤ m.keys.length := fun m => erase_sublist.length_le
  simp only [step]
  generalize (if maxDedupKeys ≤ s.lastSeen.keys.length then ∅ else s.lastSeen) = kept at hkept ⊢
  split
  · split
    · split_ifs
      · exact h
      · rw [keys_insert]
        exact Nat.lt_of_le_of_lt (herase kept) hkept
    · rw [keys_erase]
      exact (herase _).trans h
    · exact h
  · exact h

theorem length_run (scope : Scope) (digest : State → UInt64) (ns : List (Notification State)) :
    (run scope digest ns).lastSeen.keys.length ≤ maxDedupKeys := by
  induction ns using reverseRecOn with
  | nil => exact Nat.zero_le _
  | append_singleton ns n ih =>
    rw [run_concat]
    exact length_step ih

theorem current_run (hd : (states ns).InjOn digest) (key : String) :
    (run scope digest ns).Current digest key (readsOf scope key ns) := by
  induction ns using reverseRecOn with
  | nil => exact ⟨fun _ h => (by cases h), rfl⟩
  | append_singleton ns n ih =>
    rw [run_concat]
    exact (ih (hd.mono states_concat)).step hd

/-- **Clearing the memory costs repeats only.**  However many keys are notified, the memory is
within its bound; and with no two states of one hash the last record of each key is of what was
read last. -/
theorem observe_bounded (scope : Scope) (digest : State → UInt64)
    (ns : List (Notification State)) :
    (run scope digest ns).lastSeen.keys.length ≤ maxDedupKeys ∧
      ((states ns).InjOn digest → ∀ key,
        ((run scope digest ns).recordsOf key).getLast? = (readsOf scope key ns).getLast?) :=
  ⟨length_run scope digest ns, fun hd key => (current_run hd key).last⟩

def manyKey (i : ℕ) : String := .ofList (replicate i 'k')

/-- The first `m` keys, once each. -/
def manyKeys (m : ℕ) : List (Notification UInt64) :=
  (range m).map fun i => (manyKey i, .ok (some 0))

theorem manyKey_notMem (m : ℕ) :
    manyKey m ∉ (run (.keysWith "") id (manyKeys m)).lastSeen := by
  intro hmem
  obtain ⟨i, hi, heq⟩ : ∃ i < m, manyKey i = manyKey m := by
    simpa [notified, manyKeys] using mem_notified hmem
  exact hi.ne (ofList_replicate_injective 'k' heq)

theorem lastSeen_manyKeys_succ (m : ℕ) :
    (run (.keysWith "") id (manyKeys (m + 1))).lastSeen =
      (if maxDedupKeys ≤ (run (.keysWith "") id (manyKeys m)).lastSeen.keys.length then ∅
        else (run (.keysWith "") id (manyKeys m)).lastSeen).insert (manyKey m) 0 := by
  rw [manyKeys, range_succ, map_append, map_singleton, run_concat, ← manyKeys]
  simp [step, Scope.covers, lookup_eq_none.2 (manyKey_notMem m)]

theorem length_manyKeys (h : m ≤ maxDedupKeys) :
    (run (.keysWith "") id (manyKeys m)).lastSeen.keys.length = m := by
  induction m with
  | zero => rfl
  | succ m ih =>
    have hm := ih (Nat.le_of_succ_le h)
    rw [lastSeen_manyKeys_succ, hm, if_neg (Nat.not_le.2 h), keys_insert,
      erase_of_not_mem (manyKey_notMem m), length_cons, hm]

/-- The memory is filled, cleared by one more key, and the last record of a forgotten key
is still of what was read last. -/
theorem observe_bounded_cleared :
    (run (.keysWith "") id (manyKeys maxDedupKeys)).lastSeen.keys.length = maxDedupKeys ∧
    (run (.keysWith "") id (manyKeys (maxDedupKeys + 1))).lastSeen.keys = [manyKey maxDedupKeys] ∧
    ((run (.keysWith "") id (manyKeys (maxDedupKeys + 1) ++ [(manyKey 0, .ok (some 1))])).recordsOf
      (manyKey 0)).getLast? = some (some 1) := by
  have hfull := length_manyKeys le_rfl
  refine ⟨hfull, ?_, ?_⟩
  · rw [lastSeen_manyKeys_succ, if_pos hfull.ge]
    rfl
  · rw [(observe_bounded _ _ _).2 Function.injective_id.injOn, readsOf_concat]
    simp [Scope.covers, Except.toOption]

end Observer

end PeatNode.Cli
