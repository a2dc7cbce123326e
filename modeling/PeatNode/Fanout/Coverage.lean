/-
# A coalesced change reaches everyone it should

An entry of the fanout queue stands for all the changes of its document since it was inserted, and
`enqueuedSince` lists their kinds from the calls alone.  The kind of the entry is the merge of the
list (`Merged.step`): its only kind, or all peers, whatever their order.
-/

import Mathlib.Data.List.Perm.Basic
import PeatNode.Fanout.Queue

namespace PeatNode.Fanout

open List AList

namespace FanoutKind

theorem merge_assoc (k₁ k₂ k₃ : FanoutKind) : (k₁.merge k₂).merge k₃ = k₁.merge (k₂.merge k₃) := by
  simp only [merge_eq]
  split_ifs <;> simp_all

theorem merge_comm (k₁ k₂ : FanoutKind) : k₁.merge k₂ = k₂.merge k₁ := by
  rw [merge_eq, merge_eq]
  split_ifs <;> simp_all

theorem merge_self (k : FanoutKind) : k.merge k = k := by rw [merge_eq, if_pos rfl]

theorem allPeers_merge (k : FanoutKind) : allPeers.merge k = allPeers := rfl

theorem merge_allPeers (k : FanoutKind) : k.merge allPeers = allPeers := by
  rw [merge_comm, allPeers_merge]

/-- An entry's kind after these changes. -/
def mergeAll : List FanoutKind → Option FanoutKind
  | [] => none
  | k :: ks => some (ks.foldl merge k)

variable {ks : List FanoutKind}

theorem mergeAll_concat (h : mergeAll ks = some k) (k' : FanoutKind) :
    mergeAll (ks ++ [k']) = some (k.merge k') := by
  cases ks with
  | nil => cases h
  | cons k₀ ks =>
    cases h
    rw [cons_append, mergeAll, foldl_append, foldl_cons, foldl_nil]

theorem foldl_merge (k : FanoutKind) (ks : List FanoutKind) :
    ks.foldl merge k = if ∀ k' ∈ ks, k' = k then k else allPeers := by
  induction ks generalizing k with
  | nil => simp
  | cons k' ks ih =>
    rw [foldl_cons, ih, merge_eq]
    by_cases hk : k' = k
    · subst hk
      simp
    · rw [if_neg (Ne.symm hk), ite_self, if_neg]
      intro hall
      exact hk (hall k' mem_cons_self)

/-- A merge excludes a source exactly if each of its parts does. -/
theorem mergeAll_eq_excludeSource_iff (h : mergeAll ks = some k) (source : String) :
    k = .excludeSource source ↔ ∀ k' ∈ ks, k' = .excludeSource source := by
  cases ks with
  | nil => cases h
  | cons k₀ ks =>
    rw [← Option.some.inj h, foldl_merge]
    constructor
    · intro heq
      split_ifs at heq with hall
      intro k' hk'
      rcases mem_cons.1 hk' with rfl | hk'
      · exact heq
      · rw [hall k' hk', heq]
    · intro hall
      have hhead := hall k₀ mem_cons_self
      rw [if_pos, hhead]
      intro k' hk'
      rw [hall k' (mem_cons_of_mem k₀ hk'), hhead]

/-- A merge goes wherever one of its parts goes. -/
theorem targets_subset_of_mergeAll (h : mergeAll ks = some k) (hk' : k' ∈ ks)
    (connected : List String) : k'.targets connected ⊆ k.targets connected := by
  cases k with
  | allPeers => exact targets_subset_allPeers connected k'
  | excludeSource source =>
    rw [(mergeAll_eq_excludeSource_iff h source).1 rfl k' hk']
    exact List.Subset.refl _

/-- The order of the parts does not matter. -/
theorem mergeAll_perm (h : ks'.Perm ks) : mergeAll ks' = mergeAll ks := by
  have : RightCommutative merge := ⟨fun k₁ k₂ k₃ => by
    rw [merge_assoc, merge_comm k₂ k₃, ← merge_assoc]⟩
  induction h with
  | nil => rfl
  | cons k h ih => exact congrArg some (h.foldl_eq k)
  | swap k₁ k₂ ks => exact congrArg (fun k => some (ks.foldl merge k)) (merge_comm k₂ k₁)
  | trans _ _ ih₁ ih₂ => exact ih₁.trans ih₂

end FanoutKind

namespace Inner

variable {forCollection : String → ℕ} {q q' : Inner} {call : Call}

/-- Kinds of changes since the insertion. -/
def since (q : Inner) (call : Call) (_ : Inner) (kinds : String → List FanoutKind) :
    String → List FanoutKind :=
  match call with
  | .enqueue docKey kind =>
    Function.update kinds docKey
      (if (q.entries.lookup docKey).isSome then kinds docKey ++ [kind] else [kind])
  | .pop => kinds

def enqueuedSince (forCollection : String → ℕ) (calls : List Call) : String → List FanoutKind :=
  Lts.history (step forCollection) since default (fun _ => []) calls

structure Merged (q : Inner) (kinds : String → List FanoutKind) : Prop where
  sound : q.Sound
  kind : ∀ docKey entry, q.entries.lookup docKey = some entry →
    FanoutKind.mergeAll (kinds docKey) = some entry.kind

theorem Merged.step (hq : Merged q kinds) (h : q.step forCollection call = some q') :
    Merged q' (since q call q' kinds) := by
  refine ⟨hq.sound.step h, fun docKey entry hentry => ?_⟩
  -- an entry that a call leaves as it was
  have hother : ∀ {docKey'} {ks}, docKey ≠ docKey' → q.entries.lookup docKey = some entry →
      FanoutKind.mergeAll (Function.update kinds docKey' ks docKey) = some entry.kind := by
    intro docKey' ks hne hold
    rw [Function.update_of_ne hne]
    exact hq.kind docKey entry hold
  have herase : ∀ {docKey'}, (q.entries.erase docKey').lookup docKey = some entry →
      q.entries.lookup docKey = some entry := by
    intro docKey' hlookup
    by_cases hkey : docKey = docKey'
    · subst hkey
      simp [lookup_erase] at hlookup
    · rwa [lookup_erase_ne hkey] at hlookup
  have hpush : ∀ {docKey' kind}, q.entries.lookup docKey' = none →
      (q.push forCollection docKey' kind).entries.lookup docKey = some entry →
        FanoutKind.mergeAll (since q (.enqueue docKey' kind) q' kinds docKey) = some entry.kind := by
    intro docKey' kind hnew hlookup
    by_cases hkey : docKey = docKey'
    · subst hkey
      rw [push, lookup_insert] at hlookup
      cases hlookup
      rw [since, Function.update_self, hnew]
      rfl
    · rw [push, lookup_insert_ne hkey] at hlookup
      exact hother hkey hlookup
  cases Turn.of_step hq.sound h with
  | @coalesced docKey' kind old hold =>
    by_cases hkey : docKey = docKey'
    · subst hkey
      rw [lookup_insert] at hentry
      cases hentry
      rw [since, Function.update_self, hold, Option.isSome_some, if_pos rfl]
      exact FanoutKind.mergeAll_concat (hq.kind docKey old hold) kind
    · rw [lookup_insert_ne hkey] at hentry
      exact hother hkey hentry
  | inserted hnew hroom => exact hpush hnew hentry
  | @shed docKey' kind victim hnew hfull hlast =>
    refine hpush hnew ?_
    by_cases hkey : docKey = victim.docKey
    · rw [evict, hkey, lookup_erase] at hentry
      cases hentry
    · rwa [evict, lookup_erase_ne hkey] at hentry
  | popped => exact hq.kind docKey entry (herase hentry)
  | empty => exact hq.kind docKey entry hentry

theorem merged_of_exec (h : Lts.exec (step forCollection) default calls = some q) :
    Merged q (enqueuedSince forCollection calls) := by
  have hstep : ∀ q call q' kinds, Merged q kinds → step forCollection q call = some q' →
      Merged q' (since q call q' kinds) := fun q call q' kinds hq hstep => hq.step hstep
  have hstart : Merged default fun _ => [] := ⟨sound_default, fun docKey entry h => by cases h⟩
  exact Lts.exec_history Merged hstep hstart h

/-- What `pop` returns is in the table. -/
theorem lookup_of_pop (h : q.pop.1 = some (docKey, kind)) :
    ∃ entry, q.entries.lookup docKey = some entry ∧ entry.kind = kind := by
  unfold pop at h
  split at h
  · cases h
  · next key burst hselect =>
    split at h
    · cases h
    · next entry hentry =>
      cases h
      exact ⟨entry, hentry, rfl⟩

/-- **A popped kind covers the changes it stands for.** In every run, the kind that `pop` returns
goes to every peer that a kind since the insert goes to, and leaves a source out exactly if each
of them does. It is the merge of those kinds in any order: `merge` is a semilattice with
`AllPeers` on top. -/
theorem popped_kind_covers (forCollection : String → ℕ) (calls : List Call) (q : Inner)
    (docKey : String) (kind : FanoutKind)
    (hrun : Lts.exec (Inner.step forCollection) default calls = some q)
    (hpop : q.pop.1 = some (docKey, kind)) :
    (∀ k ∈ enqueuedSince forCollection calls docKey, ∀ connected,
        k.targets connected ⊆ kind.targets connected) ∧
      (∀ source, kind = .excludeSource source ↔
        ∀ k ∈ enqueuedSince forCollection calls docKey, k = .excludeSource source) ∧
      (∀ kinds, kinds.Perm (enqueuedSince forCollection calls docKey) →
        FanoutKind.mergeAll kinds = some kind) ∧
      Std.Associative FanoutKind.merge ∧ Std.Commutative FanoutKind.merge ∧
      Std.IdempotentOp FanoutKind.merge ∧
      ∀ k, FanoutKind.allPeers.merge k = .allPeers ∧ k.merge .allPeers = .allPeers := by
  obtain ⟨entry, hentry, rfl⟩ := lookup_of_pop hpop
  have hmerge := (merged_of_exec hrun).kind docKey entry hentry
  refine ⟨fun k hk connected => FanoutKind.targets_subset_of_mergeAll hmerge hk connected,
    FanoutKind.mergeAll_eq_excludeSource_iff hmerge, fun kinds hperm => ?_,
    ⟨FanoutKind.merge_assoc⟩, ⟨FanoutKind.merge_comm⟩, ⟨FanoutKind.merge_self⟩,
    fun k => ⟨FanoutKind.allPeers_merge k, FanoutKind.merge_allPeers k⟩⟩
  rw [FanoutKind.mergeAll_perm hperm, hmerge]

/-- Two changes from one peer, then one from another: the first entry leaves the peer out; the
second, after its pop, goes to everyone. -/
def twoSources : List Call :=
  [.enqueue "nodes:a" (.excludeSource "p"), .enqueue "nodes:a" (.excludeSource "p"), .pop,
    .enqueue "nodes:a" (.excludeSource "p"), .enqueue "nodes:a" (.excludeSource "q")]

theorem twoSources_covered : ∃ q ∈ Lts.exec (Inner.step fun _ => 2) default twoSources,
      (enqueuedSince (fun _ => 2) twoSources "nodes:a" = [.excludeSource "p", .excludeSource "q"] ∧
        q.pop.1 = some ("nodes:a", .allPeers)) ∧
      ∀ k ∈ enqueuedSince (fun _ => 2) twoSources "nodes:a", ∀ connected,
        k.targets connected ⊆ FanoutKind.allPeers.targets connected :=
  Lts.exists_mem_and (by decide +kernel) fun q hrun ⟨_, hpop⟩ =>
    (popped_kind_covers (fun _ => 2) twoSources q "nodes:a" .allPeers hrun hpop).1

end Inner
end PeatNode.Fanout
