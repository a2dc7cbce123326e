/-
# Reconcile requests are neither lost nor multiplied

The invariants of `Reconciler` over every interleaving of `trigger` and `close` calls with the
loop. A refused `try_send` means that a reason is still in the channel, so a scan starts after the
call began (`Answered`).  A scan, a queued reason and a set `pending` each use up one completed
call (`tokens`).  After a `close` only a candidate that had passed its last `can_scan` can still
be delivered (`clearance`).
-/

import PeatNode.Reconcile.Moves

namespace PeatNode.Reconcile.Reconciler

open Option Multiset ReconcileStats Nat

variable {s s' : Reconciler} {l : Label}

/-! ### Scans run one at a time -/

/-- All scans but the running one returned. -/
def Counted (s : Reconciler) : Prop := s.stats.scans = s.returned + s.loop.running

theorem Moves.counted (h : s.Moves s') (hc : s.Counted) : s'.Counted := by
  unfold Counted at hc ⊢
  cases h with
  | trigger | turnAway | enter | send | refuse | mark | closeFlag | closePending | drop => exact hc
  | receive hl | hangUp hl | quit hl | scanReturns hl | check hl =>
    rw [hl] at hc
    exact hc
  | scan hl | rescan hl =>
    rw [hl] at hc
    exact congrArg (· + 1) hc
  | afterScan hl hpc =>
    rcases hl with hl | hl <;> rcases hpc with rfl | rfl <;> rw [hl] at hc <;> exact hc
  | answer effect hl hnot hcall =>
    rw [hl] at hc
    simp only [scans_count]
    exact hc

/-! ### Every scan uses up a completed call -/

/-- Scans started, and those still due. -/
def tokens (s : Reconciler) : ℕ :=
  s.stats.scans + s.channel.isSome.toNat + s.loop.reasons + s.pending.toNat

/-- The tokens are paid for by completed calls. -/
structure Funded (s : Reconciler) : Prop where
  tokens_le : s.tokens ≤ s.completed.length
  begun_eq : s.completed.length + s.calls.card = s.begun

theorem Funded.of_le (h : s.Funded) (htok : s'.tokens ≤ s.tokens) (hcomp : s'.completed = s.completed)
    (hcalls : s'.calls = s.calls) (hbegun : s'.begun = s.begun) : s'.Funded := by
  constructor
  · rw [hcomp]
    exact htok.trans h.tokens_le
  · rw [hcomp, hcalls, hbegun]
    exact h.begun_eq

variable {c : TriggerCall}

/-- A call that returns pays for one token. -/
theorem Funded.finish (h : s.Funded) (hc : c ∈ s.calls)
    (htok : s'.tokens ≤ s.tokens + 1) (hcomp : s'.completed = c.since :: s.completed)
    (hcalls : s'.calls = s.calls.erase c) (hbegun : s'.begun = s.begun) : s'.Funded := by
  have hle := h.tokens_le
  have hcard := h.begun_eq
  have herase := card_erase_add_one hc
  constructor
  · rw [hcomp, List.length_cons]
    omega
  · rw [hcomp, hcalls, hbegun, List.length_cons]
    omega

theorem Moves.funded (h : s.Moves s') (hf : s.Funded) : s'.Funded := by
  have hle := hf.tokens_le
  have hcard := hf.begun_eq
  cases h with
  | trigger reason hd =>
    refine ⟨hle, ?_⟩
    simp only [card_cons]
    omega
  | turnAway hc hcl => exact hf.finish hc (le_succ _) rfl rfl rfl
  | enter hc | refuse hc =>
    refine ⟨hle, ?_⟩
    have herase := card_erase_add_one hc
    simp only [move, card_cons]
    omega
  | send hc hch =>
    refine hf.finish hc ?_ rfl rfl rfl
    simp only [tokens, finish, hch, isSome_some, isSome_none, Bool.toNat_true, Bool.toNat_false]
    omega
  | mark hc hpc n =>
    refine hf.finish hc ?_ rfl rfl rfl
    simp only [tokens, finish, Bool.toNat_true]
    omega
  | closeFlag | drop hnil => exact ⟨hle, hcard⟩
  | closePending hpos =>
    refine hf.of_le ?_ rfl rfl rfl
    simp only [tokens, Bool.toNat_false]
    omega
  | receive hl hch =>
    refine hf.of_le ?_ rfl rfl rfl
    rw [ne_none_iff_isSome] at hch
    simp only [tokens, hl, hch, LoopPc.reasons, isSome_none, Bool.toNat_true, Bool.toNat_false]
    omega
  | hangUp hl | quit hl =>
    refine hf.of_le ?_ rfl rfl rfl
    simp only [tokens, LoopPc.reasons]
    omega
  | scan hl =>
    refine hf.of_le ?_ rfl rfl rfl
    simp only [tokens, startScan, hl, LoopPc.reasons]
    omega
  | rescan hl hp =>
    refine hf.of_le ?_ rfl rfl rfl
    simp only [tokens, startScan, hl, hp, LoopPc.reasons, Bool.toNat_true, Bool.toNat_false]
    omega
  | scanReturns hl | check hl hcl =>
    refine hf.of_le ?_ rfl rfl rfl
    simp only [tokens, hl, LoopPc.reasons, le_refl]
  | afterScan hl hpc =>
    refine hf.of_le ?_ rfl rfl rfl
    rcases hpc with rfl | rfl <;> simp only [tokens, LoopPc.reasons] <;> omega
  | answer effect hl hnot hcall =>
    refine hf.of_le ?_ rfl rfl rfl
    simp only [tokens, hl, scans_count, LoopPc.reasons, le_refl]

/-! ### Every completed call is answered by a scan -/

/-- A scan since `n`, or a reason on its way. -/
def Answered (s : Reconciler) (n : ℕ) : Prop :=
  n < s.stats.scans ∨ n = s.stats.scans ∧ (s.channel ≠ none ∨ s.loop = .received)

/-- Outside the moment after a receive, only the count and the channel matter. -/
theorem Answered.of_loop (h : s.Answered n) (hl : s.loop ≠ .received)
    (hscans : s'.stats.scans = s.stats.scans) (hch : s'.channel = s.channel) : s'.Answered n := by
  unfold Answered
  rw [hscans, hch]
  exact h.imp id fun ⟨heq, hway⟩ => ⟨heq, .inl (hway.resolve_right hl)⟩

/-- Before `close`, every call that returned or was refused is answered. -/
structure Woken (s : Reconciler) : Prop where
  since_le : ∀ c ∈ s.calls, c.since ≤ s.stats.scans
  refused : s.closed = false → ∀ c ∈ s.calls, c.pc = .refused → s.Answered c.since
  completed : s.closed = false → ∀ n ∈ s.completed, s.Answered n
  exited : s.loop = .exited → s.closed = true ∨ s.dropped = true
  dropped : s.dropped = true → s.calls = 0

/-- A step that leaves calls alone keeps them answered if it keeps the count
and what is on its way, or starts the scan. -/
theorem Woken.of_answered (h : s.Woken) (hcalls : s'.calls = s.calls)
    (hcomp : s'.completed = s.completed) (hscans : s.stats.scans ≤ s'.stats.scans)
    (hans : ∀ n, s.Answered n → s'.Answered n) (hcl : s'.closed = false → s.closed = false)
    (hex : s'.loop = .exited → s'.closed = true ∨ s'.dropped = true)
    (hdr : s'.dropped = true → s'.calls = 0) : s'.Woken where
  since_le := by
    intro c hc
    rw [hcalls] at hc
    exact (h.since_le c hc).trans hscans
  refused := by
    intro ho c hc hpc
    rw [hcalls] at hc
    exact hans _ (h.refused (hcl ho) c hc hpc)
  completed := by
    intro ho n hn
    rw [hcomp] at hn
    exact hans _ (h.completed (hcl ho) n hn)
  exited := hex
  dropped := hdr

/-- A call that goes on; one that goes on after a refusal has to be answered. -/
theorem Woken.move (h : s.Woken) (hc : c ∈ s.calls) (pc : TriggerPc)
    (hpc : pc = .refused → s.closed = false → s.Answered c.since) : (s.move c pc).Woken where
  since_le := by
    intro c' hc'
    rcases mem_cons.1 hc' with rfl | hc'
    · exact h.since_le c hc
    · exact h.since_le c' (mem_of_mem_erase hc')
  refused := by
    intro ho c' hc' hpc'
    rcases mem_cons.1 hc' with rfl | hc'
    · exact hpc hpc' ho
    · exact h.refused ho c' (mem_of_mem_erase hc') hpc'
  completed := h.completed
  exited := h.exited
  dropped := by
    intro hd
    rw [h.dropped hd] at hc
    exact absurd hc (notMem_zero c)

theorem Woken.finish (h : s.Woken) (hc : c ∈ s.calls)
    (hans : s.closed = false → s.Answered c.since) : (s.finish c).Woken where
  since_le := fun c' hc' => h.since_le c' (mem_of_mem_erase hc')
  refused := fun ho c' hc' => h.refused ho c' (mem_of_mem_erase hc')
  completed := by
    intro ho n hn
    rcases List.mem_cons.1 hn with rfl | hn
    · exact hans ho
    · exact h.completed ho n hn
  exited := h.exited
  dropped := by
    intro hd
    rw [h.dropped hd] at hc
    exact absurd hc (notMem_zero c)

theorem Moves.woken (h : s.Moves s') (hw : s.Woken) : s'.Woken := by
  cases h with
  | trigger reason hd =>
    refine ⟨?_, ?_, hw.completed, hw.exited, ?_⟩
    · intro c hc
      rcases mem_cons.1 hc with rfl | hc
      · exact le_rfl
      · exact hw.since_le c hc
    · intro ho c hc hpc
      rcases mem_cons.1 hc with rfl | hc
      · simp at hpc
      · exact hw.refused ho c hc hpc
    · intro hd'
      exact absurd hd' (Bool.eq_false_iff.1 hd)
  | turnAway hc hcl =>
    refine hw.finish hc fun ho => ?_
    rw [hcl] at ho
    simp at ho
  | enter hc =>
    have hm := hw.move hc .opened fun hpc => by cases hpc
    exact ⟨hm.since_le, hm.refused, hm.completed, hm.exited, hm.dropped⟩
  | @send c hc hch =>
    -- the reason of the call itself is now on its way
    have hsent : Woken { s with channel := some c.reason } := hw.of_answered rfl rfl le_rfl
        (fun n hn => hn.imp id fun h => ⟨h.1, .inl (some_ne_none _)⟩) id hw.exited hw.dropped
    refine hsent.finish hc fun _ => ?_
    rcases (hw.since_le c hc).lt_or_eq with hlt | heq
    · exact .inl hlt
    · exact .inr ⟨heq, .inl (some_ne_none _)⟩
  | @refuse c hc hch =>
    refine hw.move hc .refused fun _ ho => ?_
    rcases hch with hch | hex
    · rcases (hw.since_le c hc).lt_or_eq with hlt | heq
      · exact .inl hlt
      · exact .inr ⟨heq, .inl hch⟩
    · -- the loop only ends after `close` or with no call left
      rcases hw.exited hex with hcl | hd
      · rw [hcl] at ho
        simp at ho
      · rw [hw.dropped hd] at hc
        exact absurd hc (notMem_zero c)
  | @mark c hc hpc n =>
    have hf := hw.finish hc fun ho => hw.refused ho c hc hpc
    exact ⟨hf.since_le, hf.refused, hf.completed, hf.exited, hf.dropped⟩
  | closeFlag =>
    exact hw.of_answered rfl rfl le_rfl (fun n hn => hn) nofun (fun _ => .inl rfl) hw.dropped
  | closePending hpos =>
    exact hw.of_answered rfl rfl le_rfl (fun n hn => hn) id hw.exited hw.dropped
  | drop hnil =>
    exact hw.of_answered rfl rfl le_rfl (fun n hn => hn) id (fun _ => .inr rfl) (fun _ => hnil)
  | receive hl hch =>
    refine hw.of_answered rfl rfl le_rfl (fun n hn => ?_) id nofun hw.dropped
    exact hn.imp id fun h => ⟨h.1, .inr rfl⟩
  | hangUp hl hd =>
    refine hw.of_answered rfl rfl le_rfl (fun n hn => ?_) id (fun _ => .inr hd) hw.dropped
    exact hn.of_loop (by rw [hl]; simp) rfl rfl
  | quit hl hcl =>
    refine ⟨hw.since_le, fun ho => ?_, fun ho => ?_, fun _ => .inl hcl, hw.dropped⟩
    all_goals
      rw [hcl] at ho
      simp at ho
  | scan hl | rescan hl =>
    refine hw.of_answered rfl rfl (le_succ _) (fun n hn => ?_) id nofun hw.dropped
    exact .inl (lt_succ_of_le (hn.elim le_of_lt fun h => h.1.le))
  | scanReturns hl | check hl =>
    refine hw.of_answered rfl rfl le_rfl (fun n hn => ?_) id nofun hw.dropped
    exact hn.of_loop (by rw [hl]; simp) rfl rfl
  | afterScan hl hpc =>
    refine hw.of_answered rfl rfl le_rfl (fun n hn => ?_) id (fun h => ?_) hw.dropped
    · exact hn.of_loop (by rcases hl with hl | hl <;> rw [hl] <;> simp) rfl rfl
    · rcases hpc with rfl | rfl <;> cases h
  | answer effect hl hnot hcall =>
    refine hw.of_answered rfl rfl (scans_count _ _).ge (fun n hn => ?_) id
      nofun hw.dropped
    exact hn.of_loop (by rw [hl]; simp) (scans_count _ _) rfl

/-! ### After `close` at most one candidate is left -/

/-- `deliver_candidate` calls after a `close` and the one that is cleared. -/
structure Quiet (s : Reconciler) : Prop where
  closed_of_closing : 0 < s.closing → s.closed = true
  closed_of_returned : s.closeReturned = true → s.closed = true
  open_eq : s.closeReturned = false → s.lateCandidates = 0
  late_le : s.lateCandidates + s.loop.clearance ≤ 1

theorem Quiet.of_loop (h : s.Quiet) (hl : s'.loop.clearance ≤ s.loop.clearance)
    (hcl : s.closed = true → s'.closed = true) (hcg : s'.closing ≤ s.closing)
    (hret : s'.closeReturned = s.closeReturned) (hlate : s'.lateCandidates = s.lateCandidates) :
    s'.Quiet where
  closed_of_closing := fun hpos => hcl (h.closed_of_closing (by omega))
  closed_of_returned := by
    intro hr
    rw [hret] at hr
    exact hcl (h.closed_of_returned hr)
  open_eq := by
    rw [hret, hlate]
    exact h.open_eq
  late_le := by
    have hle := h.late_le
    omega

theorem Moves.quiet (h : s.Moves s') (hq : s.Quiet) : s'.Quiet := by
  cases h with
  | trigger | turnAway | enter | send | refuse | mark | drop =>
    exact hq.of_loop le_rfl id le_rfl rfl rfl
  | closeFlag => exact ⟨fun _ => rfl, fun _ => rfl, hq.open_eq, hq.late_le⟩
  | closePending hpos =>
    have hcl := hq.closed_of_closing hpos
    exact ⟨fun _ => hcl, fun _ => hcl, nofun, hq.late_le⟩
  | receive | hangUp | quit | scanReturns => exact hq.of_loop (Nat.zero_le _) id le_rfl rfl rfl
  | scan | rescan =>
    refine hq.of_loop ?_ id le_rfl rfl rfl
    simp only [startScan, LoopPc.clearance, ScanPc.clearance_nextMapping, Nat.zero_le]
  | afterScan hl hpc =>
    refine hq.of_loop ?_ id le_rfl rfl rfl
    rcases hpc with rfl | rfl <;> exact Nat.zero_le _
  | @check pc pc' hl hcl =>
    by_cases hc : s.closed = true
    · obtain rfl := hcl hc
      exact hq.of_loop (Nat.zero_le _) id le_rfl rfl rfl
    · -- nothing is counted yet, so one clearance fits
      have hret : s.closeReturned = false := Bool.eq_false_iff.2 fun h => hc (hq.closed_of_returned h)
      refine ⟨hq.closed_of_closing, hq.closed_of_returned, hq.open_eq, ?_⟩
      simp only [hq.open_eq hret, LoopPc.clearance]
      cases pc' <;> simp [ScanPc.clearance]
  | @answer pc pc' a effect hl hnot hcall =>
    have hle := hq.late_le
    rw [hl] at hle
    refine ⟨hq.closed_of_closing, hq.closed_of_returned, fun hret => ?_, ?_⟩
    · change s.closeReturned = false at hret
      simp only [hret, hq.open_eq hret, Bool.false_eq_true, false_and, if_false]
    · simp only [LoopPc.clearance, hnot] at hle ⊢
      split_ifs with hcount
      · have hone := hcall hcount.2
        omega
      · omega

/-! ### Runs -/

structure Sound (s : Reconciler) : Prop where
  counted : s.Counted
  funded : s.Funded
  woken : s.Woken
  quiet : s.Quiet

theorem sound_spawn (mappings : List String) : (spawn mappings).Sound where
  counted := rfl
  funded := ⟨le_rfl, rfl⟩
  woken := by constructor <;> simp [spawn]
  quiet := by constructor <;> simp [spawn, LoopPc.clearance]

theorem Sound.step (h : s.Sound) (hs : s.step l = some s') : s'.Sound := by
  have hm := moves_step hs
  exact ⟨hm.counted h.counted, hm.funded h.funded, hm.woken h.woken, hm.quiet h.quiet⟩

/-- **Requests are neither lost nor multiplied.** In every interleaving: before `close`, a parked
loop has started a scan since each completed call began; scans are no more than `trigger` calls;
all scans but one have returned; and after a `close` has returned at most one candidate is
delivered. -/
theorem requests_single_flight {mappings : List String} {labels : List Label}
    (hrun : Lts.exec Reconciler.step (spawn mappings) labels = some s) :
    (s.closed = false → s.Parked → ∀ n ∈ s.completed, n < s.stats.scans) ∧
      s.stats.scans ≤ s.begun ∧ s.stats.scans ≤ s.returned + 1 ∧ s.lateCandidates ≤ 1 := by
  have hs : s.Sound := Lts.exec_preserves Sound (fun s l s' h hstep => h.step hstep)
    (sound_spawn mappings) hrun
  refine ⟨?_, ?_, ?_, ?_⟩
  · rintro ho ⟨hl, hch⟩ n hn
    rcases hs.woken.completed ho n hn with hlt | ⟨-, hway | hway⟩
    · exact hlt
    · exact absurd hch hway
    · rw [hl] at hway
      simp at hway
  · have hle := hs.funded.tokens_le
    have hcard := hs.funded.begun_eq
    unfold tokens at hle
    omega
  · have hcount := hs.counted
    unfold Counted at hcount
    have hone : s.loop.running ≤ 1 := by cases s.loop <;> simp [LoopPc.running]
    omega
  · exact (Nat.le_add_right _ _).trans hs.quiet.late_le

/-- The second call sets `pending`: two scans. -/
def burst : List Label :=
  let ready := ((Bridge.BridgeStatus.new ["frames"]).setConnected).markAllSubscriptionsEstablished
  let scan : List Label := [.check true true ready, .answer (.keys (some [])), .loop, .loop, .loop]
  [.trigger .startupReady, .trigger .eventLagged,
    .call ⟨.startupReady, 0, .began⟩, .call ⟨.startupReady, 0, .opened⟩,
    .call ⟨.eventLagged, 0, .began⟩, .call ⟨.eventLagged, 0, .opened⟩,
    .loop, .call ⟨.eventLagged, 0, .refused⟩, .loop] ++ scan ++ scan

theorem burst_single_flight : ∃ s, Lts.exec Reconciler.step (spawn ["frames"]) burst = some s ∧
      s.Parked ∧ s.completed = [0, 0] ∧ s.stats.scans = 2 ∧
      (s.closed = false → s.Parked → ∀ n ∈ s.completed, n < s.stats.scans) ∧
      s.stats.scans ≤ s.begun ∧ s.stats.scans ≤ s.returned + 1 ∧ s.lateCandidates ≤ 1 := by
  have hrun : (Lts.exec step (spawn ["frames"]) burst).isSome = true := by
    decide +kernel
  obtain ⟨s, hs⟩ := isSome_iff_exists.1 hrun
  have hend : ∀ s ∈ Lts.exec step (spawn ["frames"]) burst,
      s.Parked ∧ s.completed = [0, 0] ∧ s.stats.scans = 2 := by
    decide +kernel
  obtain ⟨hp, hc, hn⟩ := hend s hs
  exact ⟨s, hs, hp, hc, hn, requests_single_flight hs⟩

end PeatNode.Reconcile.Reconciler
