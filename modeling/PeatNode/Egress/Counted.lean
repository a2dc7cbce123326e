/-
# Every outcome is counted once

The counters against the log of what the process did.  A call of `deliver` that
moves on keeps running or returns one result (`Process.card_running_of_move`), a
result is in the counter of its kind and in no other (`EgressLog.stats_returning`),
and so is a failure of the egress worker (`EgressLog.stats_fail`).
-/

import Mathlib.Data.Multiset.OrderedMonoid
import PeatNode.Egress.Stats

namespace PeatNode.Egress

open Bridge Ledger Multiset EgressStats Process

/-! ### What calls return -/

namespace EgressLog

/-- Nothing returns where the calls stay. -/
theorem returnedBy_of_calls_eq (h : p'.calls = p.calls) : returnedBy p p' = 0 := by
  rw [returnedBy, h, tsub_self, filterMap_zero]

/-- A call that moves on returns what it is at its end with. -/
theorem returnedBy_of_move (hc : c ∈ p.calls) (hpc : c.pc ≠ pc)
    (hcalls : p'.calls = ⟨c.offer, pc⟩ ::ₘ p.calls.erase c) :
    returnedBy p p' = filterMap Call.result {⟨c.offer, pc⟩} := by
  have hne : c ≠ ⟨c.offer, pc⟩ := fun h => hpc (congrArg Call.pc h)
  have hsub : p'.calls - p.calls = {(⟨c.offer, pc⟩ : Call)} := by
    rw [hcalls]
    nth_rewrite 2 [← cons_erase hc]
    rw [← singleton_add, ← singleton_add, add_tsub_add_eq_tsub_right,
      sub_singleton, erase_of_notMem (by simpa using hne)]
  rw [returnedBy, hsub]

/-- No result changes nothing. -/
@[simp] theorem returning_zero (log : EgressLog) : log.returning 0 = log := by
  simp [returning]

/-- One more result is counted under its kind. -/
theorem count_returning (log : EgressLog) (r x : Except EgressActionKind Unit) :
    (log.returning {r}).returned.count x = log.returned.count x + if x = r then 1 else 0 := by
  rw [returning, count_add, count_singleton]

/-- A skip or a loss is counted as such. -/
theorem stats_returning (log : EgressLog) (hkind : kind ≠ .published) :
    (log.returning {.error kind}).stats = log.stats.recordAction kind := by
  have hfailed : (log.returning {.error kind}).failed = log.failed := rfl
  have hreserved : (log.returning {.error kind}).reserved = log.reserved := rfl
  have hcompleted : (log.returning {.error kind}).completed = log.completed := rfl
  simp only [stats, count_returning, hfailed, hreserved, hcompleted]
  cases kind with
  | skipped kind =>
    cases kind with
    | unsupportedKind =>
      dsimp only [recordAction, recordSkip]
      congr 1
      exact Nat.add_right_comm _ 1 _
    | _ => rfl
  | lost kind =>
    cases kind with
    | eventLagged | queueFull | queueClosed => rfl
    | _ =>
      -- the worker's failures go into the same counter
      dsimp only [recordAction, recordFailure]
      congr 1
      exact Nat.add_right_comm _ 1 _
  | published => exact absurd rfl hkind

/-- A success is not counted before it is published. -/
theorem stats_enqueued (log : EgressLog) : (log.returning {.ok ()}).stats = log.stats := by
  simp [stats, returning]

/-- A reservation is counted. -/
theorem stats_reserving (log : EgressLog) (d : LedgerDigest) (refused : Multiset LedgerDigest) :
    (log.reserving {d} refused).stats = log.stats.recordReserved := by
  simp [stats, reserving, recordReserved]

/-- What is not reserved is not counted. -/
theorem stats_reserving_zero (log : EgressLog) (refused : Multiset LedgerDigest) :
    (log.reserving 0 refused).stats = log.stats := by
  simp [stats, reserving]

/-- An item that the worker gives up is counted once. -/
theorem stats_fail {log : EgressLog} (hkind : kind.ofPublisher = true) (hheld : log.held.card = 1) :
    (log.fail kind).stats = log.stats.recordFailure kind := by
  obtain ⟨d, hd⟩ := card_eq_one.1 hheld
  have hfailed : (log.fail kind).failed.map Prod.snd = log.failed.map Prod.snd + {kind} := by
    simp only [fail, hd, map_add, map_singleton]
  have hreturned : (log.fail kind).returned = log.returned := rfl
  have hreserved : (log.fail kind).reserved = log.reserved := rfl
  have hcompleted : (log.fail kind).completed = log.completed := rfl
  simp only [stats, hfailed, hreturned, hreserved, hcompleted, count_add,
    count_singleton]
  cases kind with
  | eventLagged | queueFull | queueClosed => cases hkind
  | _ => rfl

end EgressLog

open EgressLog

/-- A call that moves on goes on running or returns. -/
theorem Process.card_running_of_move (hc : c ∈ p.calls) (hrun : c.result = none) (hpc : c.pc ≠ pc)
    (hcalls : p'.calls = ⟨c.offer, pc⟩ ::ₘ p.calls.erase c) :
    (returnedBy p p').card + p'.running.card = p.running.card := by
  have hbefore : p.running.card = 1 + ((p.calls.erase c).filter fun c => c.result = none).card := by
    nth_rewrite 1 [running, ← cons_erase hc]
    rw [filter_cons_of_pos (p := fun c : Call => c.result = none) _ hrun, card_cons,
      add_comm]
  rw [returnedBy_of_move hc hpc hcalls, hbefore, running, hcalls]
  cases hresult : (⟨c.offer, pc⟩ : Call).result with
  | none =>
    rw [filter_cons_of_pos (p := fun c : Call => c.result = none) _ hresult,
      ← cons_zero, filterMap_cons_none _ _ hresult, card_cons, filterMap_zero, card_zero]
    omega
  | some result =>
    have hneg : ¬ (⟨c.offer, pc⟩ : Call).result = none := by simp [hresult]
    rw [filter_cons_of_neg (p := fun c : Call => c.result = none) _ hneg,
      ← cons_zero, filterMap_cons_some _ _ _ hresult, filterMap_zero]
    rfl

/-- The counters say what the log says, every `deliver` is in it once, and a call returns a
success, a skip or a loss. -/
structure Counted (p : Process) (b : Books) : Prop where
  stats_eq : b.stats = b.log.stats
  calls_eq : b.log.started = b.log.returned.card + p.running.card + b.log.abandoned
  results : ∀ result ∈ b.log.returned, result ≠ .error .published

namespace Counted

variable {p p' : Process} {b : Books} {c : Call}

/-- The step is none of a call. -/
theorem of_calls_eq (h : Counted p b) (hcalls : p'.calls = p.calls) :
    Counted p' ⟨b.stats, b.log.returning (returnedBy p p')⟩ := by
  rw [returnedBy_of_calls_eq hcalls, returning_zero]
  refine ⟨h.stats_eq, ?_, h.results⟩
  rw [running, hcalls]
  exact h.calls_eq

/-- A call moves on and does not return. -/
theorem of_move (h : Counted p b) (hc : c ∈ p.calls) (hrun : c.result = none) (pc : CallPc)
    (hne : c.pc ≠ pc) (hpc : (⟨c.offer, pc⟩ : Call).result = none)
    (hcalls : p'.calls = ⟨c.offer, pc⟩ ::ₘ p.calls.erase c) :
    Counted p' ⟨b.stats, b.log.returning (returnedBy p p')⟩ := by
  have hret : returnedBy p p' = 0 := by
    rw [returnedBy_of_move hc hne hcalls, ← cons_zero, filterMap_cons_none _ _ hpc,
      filterMap_zero]
  have hcard := card_running_of_move hc hrun hne hcalls
  rw [hret, card_zero, zero_add] at hcard
  rw [hret, returning_zero]
  refine ⟨h.stats_eq, ?_, h.results⟩
  rw [hcard]
  exact h.calls_eq

/-- A call returns. -/
theorem of_return (h : Counted p b) (hc : c ∈ p.calls) (hrun : c.result = none)
    (result : Except EgressActionKind Unit) (hresult : result ≠ .error .published)
    (hcalls : p'.calls = ⟨c.offer, .done result⟩ ::ₘ p.calls.erase c) {stats : EgressStats}
    (hstats : stats = (b.log.returning {result}).stats) :
    Counted p' ⟨stats, b.log.returning (returnedBy p p')⟩ := by
  have hne : c.pc ≠ .done result := by
    intro hpc
    simp [Call.result, hpc] at hrun
  have hret : returnedBy p p' = {result} := by
    rw [returnedBy_of_move hc hne hcalls]
    rfl
  have hcard := card_running_of_move hc hrun hne hcalls
  rw [hret] at hcard ⊢
  refine ⟨hstats, ?_, fun r hr => ?_⟩
  · have hsum := h.calls_eq
    simp only [returning, card_add, card_singleton] at hcard ⊢
    omega
  · rcases mem_add.1 hr with hr | hr
    · exact h.results r hr
    · obtain rfl := mem_singleton.1 hr
      exact hresult

variable {answer : Except LedgerError Bool}

/-- The rest of `deliver` counts what it returns. -/
theorem afterReserve (h : Counted p b) (hc : c ∈ p.calls)
    (hpc : c.pc = .answered answer) (refused : Multiset LedgerDigest) :
    Counted (p.afterReserve c answer) ⟨b.stats.afterReserve p answer,
      (b.log.reserving c.grant refused).returning (returnedBy p (p.afterReserve c answer))⟩ := by
  have hrun : c.result = none := by simp [Call.result, hpc]
  have hlog : Counted p ⟨(b.log.reserving c.grant refused).stats, b.log.reserving c.grant refused⟩ :=
    ⟨rfl, h.calls_eq, h.results⟩
  rcases answer with e | _ | _
  · have hgrant : c.grant = 0 := by simp [Call.grant, hpc]
    rw [hgrant] at hlog ⊢
    refine hlog.of_return hc hrun (.error (.lost .ledgerUnavailable)) (by simp) rfl ?_
    rw [stats_returning _ (by simp), stats_reserving_zero, h.stats_eq]
    rfl
  · have hgrant : c.grant = 0 := by simp [Call.grant, hpc]
    rw [hgrant] at hlog ⊢
    refine hlog.of_return hc hrun (.error (.skipped .duplicate)) (by simp) rfl ?_
    rw [stats_returning _ (by simp), stats_reserving_zero, h.stats_eq]
    rfl
  · have hgrant : c.grant = {c.offer.item.digest} := by simp [Call.grant, hpc]
    rw [hgrant] at hlog ⊢
    unfold Process.afterReserve EgressStats.afterReserve
    split_ifs
    · refine hlog.of_return hc hrun (.error (.lost .queueClosed)) (by simp) rfl ?_
      rw [stats_returning _ (by simp), stats_reserving, h.stats_eq]
    · refine hlog.of_return hc hrun (.error (.lost .queueFull)) (by simp) rfl ?_
      rw [stats_returning _ (by simp), stats_reserving, h.stats_eq]
    · refine hlog.of_return hc hrun (.ok ()) (by simp) rfl ?_
      rw [stats_enqueued, stats_reserving, h.stats_eq]

/-- A waiting call is answered. -/
theorem of_answer (h : Counted p b) (hc : c ∈ p.calls) (hcommand : c.command.isSome)
    (hcalls : p'.calls = ⟨c.offer, .answered answer⟩ ::ₘ p.calls.erase c) :
    Counted p' ⟨b.stats, b.log.returning (returnedBy p p')⟩ := by
  unfold Call.command at hcommand
  split at hcommand
  · rename_i ticket hpc
    exact h.of_move hc (by simp [Call.result, hpc]) _ (by simp [hpc]) rfl hcalls
  · simp at hcommand

/-- A call is dropped. -/
theorem abort (h : Counted p b) (hc : c ∈ p.calls) :
    Counted { p with calls := p.calls.erase c } ⟨b.stats, { b.log with
      abandoned := b.log.abandoned + if c.result = none then 1 else 0 }⟩ := by
  refine ⟨h.stats_eq, ?_, h.results⟩
  have hsum := h.calls_eq
  rw [running, ← cons_erase hc] at hsum
  simp only [running] at hsum ⊢
  split_ifs with hrun
  · rw [filter_cons_of_pos (p := fun c : Call => c.result = none) _ hrun, card_cons] at hsum
    omega
  · rw [filter_cons_of_neg (p := fun c : Call => c.result = none) _ hrun] at hsum
    omega

/-- The worker gives up its item. -/
theorem fail (h : Counted p b) (hkind : kind.ofPublisher = true) (hheld : b.log.held.card = 1)
    (hcalls : p'.calls = p.calls) : Counted p' ⟨b.stats.recordFailure kind, b.log.fail kind⟩ := by
  refine ⟨?_, ?_, h.results⟩
  · rw [stats_fail hkind hheld, h.stats_eq]
  · rw [running, hcalls]
    exact h.calls_eq

variable {k : EgressClassifier} {parse : String → Option BridgeEnvelope} {a : Action}

/-- What is not offered was not classified. -/
theorem offer_eq_none (h : offer k parse event = none) :
    ∃ kind, k.classify parse event = .error kind := by
  unfold offer at h
  split at h
  · simp at h
  · exact ⟨_, ‹_›⟩

/-- What is offered was classified. -/
theorem offer_eq_some (h : offer k parse event = some o) :
    ∃ item, k.classify parse event = .ok item := by
  unfold offer at h
  split at h
  · exact ⟨_, ‹_›⟩
  · simp at h

/-- A call of `deliver` begins. -/
theorem offered (h : Counted p b) (o : Offer) :
    Counted { p with calls := ⟨o, .classified⟩ ::ₘ p.calls }
      ⟨b.stats, { b.log with started := b.log.started + 1 }⟩ := by
  refine ⟨h.stats_eq, ?_, h.results⟩
  have hsum := h.calls_eq
  simp only [running] at hsum ⊢
  rw [filter_cons_of_pos (p := fun c : Call => c.result = none) _ rfl, card_cons]
  omega

/-- A call of `deliver` is skipped at once. -/
theorem skipped (h : Counted p b) (kind : EgressSkipKind) :
    Counted p ⟨b.stats.recordAction (.skipped kind),
      returning { b.log with started := b.log.started + 1 } {.error (.skipped kind)}⟩ := by
  have hsum := h.calls_eq
  refine ⟨?_, ?_, fun r hr => ?_⟩
  · rw [stats_returning _ (by simp), h.stats_eq]
    rfl
  · simp only [returning, card_add, card_singleton]
    omega
  · rcases mem_add.1 hr with hr | hr
    · exact h.results r hr
    · obtain rfl := mem_singleton.1 hr
      simp

/-- **Each call returns once, and each skip and each loss is counted once.** -/
theorem step (h : Counted p b) (hheld : b.log.held.card = if p.egress = .idle then 0 else 1)
    (hs : p.step k parse a = some p') :
    Counted p' ⟨b.stats.next k parse p a, b.log.next k parse p p' a⟩ := by
  cases Process.Turn.of_step hs with
  | offered ho =>
    obtain ⟨item, hitem⟩ := offer_eq_some ho
    simp only [EgressStats.next, EgressLog.next, skippedBy, hitem, returning_zero]
    exact h.offered _
  | skipped ho =>
    obtain ⟨kind, hkind⟩ := offer_eq_none ho
    simp only [EgressStats.next, EgressLog.next, skippedBy, hkind]
    exact h.skipped kind
  | admitted hc hpc hready =>
    simp only [EgressStats.next, EgressLog.next, if_pos hready]
    exact h.of_move hc (by simp [Call.result, hpc]) _ (by simp [hpc]) rfl rfl
  | refused hc hpc hready =>
    simp only [EgressStats.next, EgressLog.next, if_neg hready]
    refine h.of_return hc (by simp [Call.result, hpc]) (.error (.lost .unavailable)) (by simp) rfl ?_
    rw [stats_returning _ (by simp), h.stats_eq]
  | cleared hc hpc | unhealthy hc hpc | sent hc hpc | unsent hc hpc =>
    exact h.of_move hc (by simp [Call.result, hpc]) _ (by simp [hpc]) rfl rfl
  | answered io hcommands hc hcommand => exact h.of_answer hc (by rw [hcommand]; rfl) rfl
  | unanswered hc hcommand => exact h.of_answer hc hcommand rfl
  | resumed hc hpc =>
    simp only [EgressStats.next, EgressLog.next, hpc]
    exact h.afterReserve hc hpc _
  | aborted hc => exact h.abort hc
  | publishFailed hegress hkind =>
    simp only [EgressStats.next, EgressLog.next, if_pos hkind]
    exact h.fail hkind (by rw [hheld, hegress]; rfl) rfl
  | panicked hegress hkind =>
    simp only [EgressStats.next, EgressLog.next, if_neg hkind]
    exact ⟨h.stats_eq, h.calls_eq, h.results⟩
  | completed hegress =>
    simp only [EgressStats.next, EgressLog.next, hegress]
    have hone : b.log.held.card = 1 := by rw [hheld, hegress]; rfl
    refine ⟨?_, h.calls_eq, h.results⟩
    simp only [h.stats_eq, EgressLog.stats, card_add, hone]
  | uncompleted hegress =>
    simp only [EgressStats.next, EgressLog.next, hegress]
    exact h.fail rfl (by rw [hheld, hegress]; rfl) rfl
  | received | egressAborted => exact ⟨h.stats_eq, h.calls_eq, h.results⟩
  | _ => exact h.of_calls_eq rfl

end Counted

end PeatNode.Egress
