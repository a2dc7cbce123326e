/-
# Ingress accounting

What the counters of the ingress processor say about the store.  Each item ends in exactly one
counter, and its writes take effect at most once, as the retries use one create-only document id,
if that is not in use (`Fresh`).

The counters are truthful for an item exactly if no write that took effect was reported as an
error: the retry then finds the document in place, and the item is counted as a final store
failure.
-/

import PeatNode.Bridge.Deliverable
import PeatNode.Ingress.Processor

namespace PeatNode.Ingress

open Egress Node Reconcile List Option Function

/-- The counter of a verdict. -/
def IngressStats.count (stats : IngressStats) : Verdict → ℕ
  | .stored => stats.stored
  | .invalidUtf8 => stats.invalidUtf8
  | .invalidJson => stats.invalidJson
  | .finalStoreFailure => stats.finalStoreFailures

namespace Processed

/-- Counted as stored iff it is in the store. -/
def Truthful (p : Processed) : Prop := p.verdict = .stored ↔ p.kept = true

/-- At most one write took effect, the document is there exactly if one did, and the counters are
right exactly if none was reported as an error. -/
structure Sound (p : Processed) : Prop where
  once : p.puts ≤ 1
  kept : p.kept = true ↔ p.puts = 1
  truthful : p.Truthful ↔ p.late = false

end Processed

namespace IngressProcessor

/-- How the counters and the queue go together, and the store if document ids are `fresh`. -/
structure Accounted (s : IngressProcessor) (fresh : Prop) : Prop where
  fifo : s.sent = s.done.map (·.item) ++ s.current.toList ++ s.queue
  received : s.stats.received = s.done.length + s.current.toList.length
  counts : ∀ v, s.stats.count v = s.done.countP (·.verdict = v)
  idle : s.current = none → s.puts = 0 ∧ s.late = false
  storing : ∀ item docId json attempt, s.pc = .storing item docId json attempt →
    attempt < storeAttemptDelays.length ∧ (fresh → s.puts = s.late.toNat ∧
      (s.store (documentKey item.collection docId)).isSome = s.late)
  records : fresh → ∀ p ∈ s.done, p.Sound

theorem accounted_start (store : Store) (subjects : List String) (fresh : Prop) :
    (start store subjects).Accounted fresh :=
  ⟨rfl, rfl, fun v => by cases v <;> rfl, fun _ => ⟨rfl, rfl⟩, nofun, nofun⟩

/-! ### Taking an item -/

theorem recordInvalid_eq (s : IngressProcessor) (item : IngressItem)
    (error : IngressValidationError) :
    ∃ warnings actions, s.recordInvalid item error =
      { s with
        stats := match error with
          | .invalidUtf8 => { s.stats with invalidUtf8 := s.stats.invalidUtf8 + 1 }
          | .invalidJson => { s.stats with invalidJson := s.stats.invalidJson + 1 }
        warnings := warnings
        actions := actions } := by
  have hwarn : ∀ (t : IngressProcessor) (kind : IngressErrorKind), ∃ warnings actions,
      t.warnInvalid item kind = { t with warnings := warnings, actions := actions } := by
    intro t kind
    unfold warnInvalid
    split
    · exact ⟨t.warnings, t.actions, rfl⟩
    · dsimp only
      split_ifs
      · exact ⟨_, t.actions, rfl⟩
      · exact ⟨_, _, rfl⟩
  cases error with
  | invalidUtf8 =>
    obtain ⟨warnings, actions, heq⟩ := hwarn ({ s with
      stats.invalidUtf8 := s.stats.invalidUtf8 + 1 }.emit
        (invalidAction .invalidOccurrence item .invalidUtf8 none)) .invalidUtf8
    exact ⟨warnings, actions, heq⟩
  | invalidJson =>
    obtain ⟨warnings, actions, heq⟩ := hwarn ({ s with
      stats.invalidJson := s.stats.invalidJson + 1 }.emit
        (invalidAction .invalidOccurrence item .invalidJson none)) .invalidJson
    exact ⟨warnings, actions, heq⟩

variable {s s' : IngressProcessor} {range : NumberRange} {sourceNodeId docId : String}
  {item : IngressItem} {fresh : Prop}

/-- An item that is taken is invalid and done with, or it is valid and to be stored. -/
theorem receive_cases (s : IngressProcessor) (range : NumberRange) (sourceNodeId docId : String)
    (item : IngressItem) :
    (∃ v stats warnings actions, (v = .invalidUtf8 ∨ v = .invalidJson) ∧
        stats.received = s.stats.received + 1 ∧
        (∀ w, stats.count w = s.stats.count w + if v = w then 1 else 0) ∧
        s.receive range sourceNodeId docId item = { s.finish item v false with
          stats := stats, warnings := warnings, actions := actions }) ∨
      (BridgeEnvelope.fromPayload range item.subject sourceNodeId item.payload).isOk = true ∧
        ∃ json, s.receive range sourceNodeId docId item = { s with
          stats.received := s.stats.received + 1
          pc := .storing item docId json 0 } := by
  unfold receive
  dsimp only
  split
  · obtain ⟨warnings, actions, heq⟩ := recordInvalid_eq
      { s with stats.received := s.stats.received + 1 } item .invalidUtf8
    rw [heq]
    refine .inl ⟨.invalidUtf8, _, warnings, actions, .inl rfl, rfl, ?_, rfl⟩
    intro w
    cases w <;> rfl
  · obtain ⟨warnings, actions, heq⟩ := recordInvalid_eq
      { s with stats.received := s.stats.received + 1 } item .invalidJson
    rw [heq]
    refine .inl ⟨.invalidJson, _, warnings, actions, .inr rfl, rfl, ?_, rfl⟩
    intro w
    cases w <;> rfl
  case h_3 envelope henvelope =>
    rw [henvelope]
    exact .inr ⟨rfl, envelope.toJson, rfl⟩

theorem Accounted.append (h : s.Accounted fresh) (hdone : s'.done = s.done ++ [p])
    (hsent : s'.sent = s.sent) (hqueue : s.current.toList ++ s.queue = p.item :: s'.queue)
    (hpc : s'.pc = .recv) (hreceived : s'.stats.received = s.done.length + 1)
    (hcounts : ∀ w, s'.stats.count w = s.stats.count w + if p.verdict = w then 1 else 0)
    (hidle : s'.puts = 0 ∧ s'.late = false) (hp : fresh → p.Sound) : s'.Accounted fresh := by
  have hcurrent : s'.current = none := by rw [current, hpc]
  refine ⟨?_, ?_, ?_, fun _ => hidle, ?_, ?_⟩
  · rw [hsent, h.fifo, append_assoc, hqueue, hdone, hcurrent]
    simp
  · rw [hreceived, hdone, hcurrent, length_append]
    rfl
  · intro w
    rw [hcounts w, h.counts w, hdone, countP_append, countP_singleton]
    simp
  · intro item docId json attempt hstoring
    simp [hpc] at hstoring
  · intro hfresh q hq
    rw [hdone] at hq
    rcases mem_append.1 hq with hq | hq
    · exact h.records hfresh q hq
    · rw [mem_singleton] at hq
      exact hq ▸ hp hfresh

theorem Accounted.receive {queue : List IngressItem} (h : s.Accounted fresh) (hpc : s.pc = .recv)
    (hqueue : s.queue = item :: queue)
    (hid : fresh →
      (BridgeEnvelope.fromPayload range item.subject sourceNodeId item.payload).isOk = true →
        s.store (documentKey item.collection docId) = none) :
    ({ s with queue := queue }.receive range sourceNodeId docId item).Accounted fresh := by
  have hcurrent : s.current = none := by rw [current, hpc]
  have hreceived := h.received
  obtain ⟨hputs, hlate⟩ := h.idle hcurrent
  rw [hcurrent] at hreceived
  rcases receive_cases { s with queue := queue } range sourceNodeId docId item with
    ⟨v, stats, warnings, actions, hv, hrec, hcounts, heq⟩ | ⟨hvalid, json, heq⟩ <;> rw [heq]
  · refine h.append (p := ⟨item, v, s.puts, s.late, false⟩) rfl rfl (by rw [hcurrent, hqueue]; rfl)
      rfl (hrec.trans (by rw [hreceived]; rfl)) hcounts ⟨rfl, rfl⟩ fun _ => ?_
    -- nothing was written for an invalid item
    refine ⟨show s.puts ≤ 1 by omega, by simp [hputs], ?_⟩
    rcases hv with rfl | rfl <;> simp [Processed.Truthful, hlate]
  · refine ⟨?_, ?_, ?_, nofun, ?_, h.records⟩
    · have hfifo := h.fifo
      rw [hcurrent, hqueue] at hfifo
      simpa [current] using hfifo
    · simpa [current] using hreceived
    · intro w
      rw [← h.counts w]
      cases w <;> rfl
    · rintro item' docId' json' attempt ⟨⟩
      refine ⟨by decide, fun hfresh => ⟨by simp [hputs, hlate], ?_⟩⟩
      simpa [hlate] using hid hfresh hvalid

/-! ### Writing -/

/-- **What an attempt can do**: store the item, store it and be told otherwise, or
fail; only the first ends in `stored`. -/
theorem attemptWrite_cases (n : DocumentCodec) (nonce : Nonce) (o : StoreOutcome)
    (item : IngressItem) (docId json : String) (attempt : ℕ) (delay : Option ℕ) :
    (∃ store, s.store (documentKey item.collection docId) = none ∧
        (store (documentKey item.collection docId)).isSome = true ∧
        s.attemptWrite n nonce o item docId json attempt delay = { s with
            store := store
            puts := s.puts + 1
            stats.stored := s.stats.stored + 1 }.finish item .stored true) ∨
      ∃ store wrote actions, (store (documentKey item.collection docId)).isSome =
            ((s.store (documentKey item.collection docId)).isSome || wrote) ∧
          (wrote = true → s.store (documentKey item.collection docId) = none) ∧
          (delay.isSome = true ∧ s.attemptWrite n nonce o item docId json attempt delay = { s with
                store := store
                puts := s.puts + wrote.toNat
                late := s.late || wrote
                pc := .storing item docId json (attempt + 1)
                actions := actions } ∨
            s.attemptWrite n nonce o item docId json attempt delay = { s with
                store := store
                puts := s.puts + wrote.toNat
                late := s.late || wrote
                stats.finalStoreFailures := s.stats.finalStoreFailures + 1
                actions := actions }.finish item .finalStoreFailure
                  (store (documentKey item.collection docId)).isSome) := by
  rcases n.createBridgeDocument_cases nonce o item.collection docId json s.store with
    ⟨doc, hnone, hput, hcreate⟩ | herror
  · refine .inl ⟨update s.store (documentKey item.collection docId) (some doc), hnone,
      ?_, ?_⟩
    · rw [update_self, isSome_some]
    · simp only [attemptWrite, hcreate, effective, update_self, isSome_some,
        Bool.toNat_true]
  · -- an error leads to a retry or to the final count, whatever it did to the store
    obtain ⟨e, store, wrote, hcreate, rfl, hstore, hwrote⟩ : ∃ e store wrote,
        n.createBridgeDocument nonce o item.collection docId json s.store = (.error e, store) ∧
        effective (.error e) o = wrote ∧ (store (documentKey item.collection docId)).isSome =
            ((s.store (documentKey item.collection docId)).isSome || wrote) ∧
          (wrote = true → s.store (documentKey item.collection docId) = none) := by
      rcases herror with ⟨doc, hnone, hput, hcreate⟩ | ⟨e, hno, hcreate⟩
      · exact ⟨_, _, true, hcreate, by simp [effective, hput], by simp, fun _ => hnone⟩
      · exact ⟨e, _, false, hcreate, by cases e <;> simp_all [effective], by simp, nofun⟩
    simp only [attemptWrite, hcreate]
    by_cases hretry : isTransient e = true ∧ delay.isSome = true
    · rw [if_pos hretry]
      exact .inr ⟨store, _, _, hstore, hwrote, .inl ⟨hretry.2, rfl⟩⟩
    · rw [if_neg hretry]
      exact .inr ⟨store, _, _, hstore, hwrote, .inr rfl⟩

variable {n : DocumentCodec}

theorem Accounted.attemptWrite (h : s.Accounted fresh)
    (hpc : s.pc = .storing item docId json attempt)
    (hdelay : storeAttemptDelays[attempt]? = some delay) :
    (s.attemptWrite n nonce o item docId json attempt delay).Accounted fresh := by
  have hcurrent : s.current = some item := by rw [current, hpc]
  have hreceived := h.received
  rw [hcurrent] at hreceived
  obtain ⟨hattempt, hwritten⟩ := h.storing _ _ _ _ hpc
  rcases attemptWrite_cases (s := s) n nonce o item docId json attempt delay with
    ⟨store, hnone, hsome, heq⟩ | ⟨store, wrote, actions, hsome, hwrote, ⟨hretry, heq⟩ | heq⟩
  · rw [heq]
    refine h.append (p := ⟨item, .stored, s.puts + 1, s.late, true⟩) rfl rfl
      (by rw [hcurrent]; rfl) rfl hreceived (fun w => by cases w <;> rfl) ⟨rfl, rfl⟩ fun hfresh => ?_
    obtain ⟨hputs, hstored⟩ := hwritten hfresh
    have hlate : s.late = false := by rw [← hstored, hnone, isSome_none]
    refine ⟨?_, ?_, ?_⟩ <;> simp [hputs, hlate, Processed.Truthful]
  · -- the last attempt has no delay, so that a retry stays in range
    have hnext : attempt + 1 < storeAttemptDelays.length := by
      match attempt, hattempt, hdelay with
      | 0, _, _ => decide
      | 1, _, _ => decide
      | 2, _, hdelay =>
        obtain rfl : delay = none := (some.inj hdelay).symm
        simp at hretry
    have hlate : fresh → (s.puts + wrote.toNat = (s.late || wrote).toNat) ∧
        (store (documentKey item.collection docId)).isSome = (s.late || wrote) := by
      intro hfresh
      obtain ⟨hputs, hstored⟩ := hwritten hfresh
      rw [hsome, hstored, hputs]
      cases wrote with
      | false => simp
      | true =>
        have hno : s.late = false := by rw [← hstored, hwrote rfl, isSome_none]
        simp [hno]
    rw [heq]
    refine ⟨?_, ?_, ?_, nofun, ?_, h.records⟩
    · have hfifo := h.fifo
      rw [hcurrent] at hfifo
      exact hfifo
    · exact hreceived
    · exact h.counts
    · rintro item' docId' json' attempt' ⟨⟩
      exact ⟨hnext, hlate⟩
  · rw [heq]
    refine h.append (p := ⟨item, .finalStoreFailure, s.puts + wrote.toNat, s.late || wrote,
      (store (documentKey item.collection docId)).isSome⟩) rfl rfl (by rw [hcurrent]; rfl) rfl
      hreceived (fun w => by cases w <;> rfl) ⟨rfl, rfl⟩ fun hfresh => ?_
    obtain ⟨hputs, hstored⟩ := hwritten hfresh
    -- a failure is counted, so the document must not be there
    cases hw : wrote with
    | false =>
      rw [hw, Bool.or_false, hstored] at hsome
      rw [hsome, Bool.toNat_false, Bool.or_false, hputs]
      refine ⟨?_, ?_, ?_⟩ <;> cases s.late <;> simp [Processed.Truthful]
    | true =>
      have hno : s.late = false := by rw [← hstored, hwrote hw, isSome_none]
      rw [hw, Bool.or_true] at hsome
      rw [hsome, hputs, hno]
      refine ⟨?_, ?_, ?_⟩ <;> simp [Processed.Truthful]

/-! ### Runs -/

inductive Turn (n : DocumentCodec) (sourceNodeId : String) (s : IngressProcessor) :
    Label → IngressProcessor → Prop
  | send {item : IngressItem} (hopened : s.closed = false)
      (hroom : s.queue.length < ingressQueueCapacity) :
      Turn n sourceNodeId s (.send item)
        { s with queue := s.queue ++ [item], sent := s.sent ++ [item] }
  | close : Turn n sourceNodeId s .close { s with closed := true }
  | received {docId : String} {item : IngressItem} {queue : List IngressItem}
      (hpc : s.pc = .recv) (hqueue : s.queue = item :: queue) :
      Turn n sourceNodeId s (.recv docId)
        ({ s with queue := queue }.receive n.range sourceNodeId docId item)
  | stopped {docId : String} (hpc : s.pc = .recv) (hclosed : s.closed = true) :
      Turn n sourceNodeId s (.recv docId) { s with pc := .stopped }
  | attempted {nonce : Nonce} {o : StoreOutcome} {item : IngressItem} {docId json : String}
      {attempt : ℕ} {delay : Option ℕ} (hpc : s.pc = .storing item docId json attempt)
      (hdelay : storeAttemptDelays[attempt]? = some delay) :
      Turn n sourceNodeId s (.attempt nonce o)
        (s.attemptWrite n nonce o item docId json attempt delay)
  | exhausted {nonce : Nonce} {o : StoreOutcome} {item : IngressItem} {docId json : String}
      {attempt : ℕ} (hpc : s.pc = .storing item docId json attempt)
      (hdelay : storeAttemptDelays[attempt]? = none) :
      Turn n sourceNodeId s (.attempt nonce o) { s with pc := .recv }
  | tick (hpc : s.pc = .recv) : Turn n sourceNodeId s .tick s.emitInvalidSummaries
  | other {key : String} {doc : Option Document} :
      Turn n sourceNodeId s (.other key doc) { s with store := Function.update s.store key doc }

theorem Turn.of_step (h : s.step n sourceNodeId l = some s') : Turn n sourceNodeId s l s' := by
  cases l with
  | send | close | recv | attempt | tick | other => grind [Turn, step]

theorem Accounted.step (h : s.Accounted fresh) (hfresh : fresh → s.Fresh n sourceNodeId l)
    (hs : s.step n sourceNodeId l = some s') : s'.Accounted fresh := by
  cases Turn.of_step hs with
  | @send item hopened hroom =>
    refine ⟨?_, h.received, h.counts, h.idle, h.storing, h.records⟩
    change s.sent ++ [item] = s.done.map (·.item) ++ s.current.toList ++ (s.queue ++ [item])
    rw [h.fifo, append_assoc _ s.queue]
  | close | tick hpc => exact ⟨h.fifo, h.received, h.counts, h.idle, h.storing, h.records⟩
  | received hpc hqueue =>
    exact h.receive hpc hqueue fun hf => hfresh hf _ (by rw [hqueue, head?_cons, mem_some_iff])
  | stopped hpc hclosed =>
    have hcurrent : s.current = none := by rw [current, hpc]
    have hfifo := h.fifo
    have hreceived := h.received
    rw [hcurrent] at hfifo hreceived
    exact ⟨hfifo, hreceived, h.counts, fun _ => h.idle hcurrent, nofun, h.records⟩
  | attempted hpc hdelay => exact h.attemptWrite hpc hdelay
  | exhausted hpc hdelay =>
    rw [getElem?_eq_none_iff] at hdelay
    have hlt := (h.storing _ _ _ _ hpc).1
    omega
  | @other key doc =>
    refine ⟨h.fifo, h.received, h.counts, h.idle, ?_, h.records⟩
    intro item docId json attempt (hpc : s.pc = _)
    obtain ⟨hattempt, hwritten⟩ := h.storing _ _ _ _ hpc
    refine ⟨hattempt, fun hf => ⟨(hwritten hf).1, ?_⟩⟩
    have hne : s.storingKey ≠ some key := hfresh hf
    have hkept : update s.store key doc (documentKey item.collection docId) =
        s.store (documentKey item.collection docId) := by
      refine update_of_ne (fun heq => hne ?_) _ _
      rw [storingKey, hpc, ← heq]
    exact (congrArg isSome hkept).trans (hwritten hf).2

/-! ### The ends of the FIFO -/

/-- The processor still serves the FIFO; nothing was sent or taken. -/
structure FifoKept (s s' : IngressProcessor) : Prop where
  queue : s'.queue = s.queue
  sent : s'.sent = s.sent
  closed : s'.closed = s.closed
  running : s'.pc ≠ .stopped

theorem FifoKept.receive (s : IngressProcessor) (range : NumberRange)
    (sourceNodeId docId : String) (item : IngressItem) :
    FifoKept s (s.receive range sourceNodeId docId item) := by
  rcases receive_cases s range sourceNodeId docId item with
    ⟨v, stats, warnings, actions, -, -, -, heq⟩ | ⟨-, json, heq⟩ <;>
  · rw [heq]
    exact ⟨rfl, rfl, rfl, by simp [finish]⟩

theorem FifoKept.attemptWrite (s : IngressProcessor) (n : DocumentCodec) (nonce : Nonce)
    (o : StoreOutcome) (item : IngressItem) (docId json : String) (attempt : ℕ)
    (delay : Option ℕ) : FifoKept s (s.attemptWrite n nonce o item docId json attempt delay) := by
  rcases attemptWrite_cases (s := s) n nonce o item docId json attempt delay with
    ⟨store, -, -, heq⟩ | ⟨store, wrote, actions, -, -, ⟨-, heq⟩ | heq⟩ <;>
  · rw [heq]
    exact ⟨rfl, rfl, rfl, by simp [finish]⟩

/-- **Ingress accounting.** In every run the items are processed in order and each ends in one
counter. If document ids are drawn fresh, each is written at most once, and its counter tells
whether its document is in the store exactly if no effective write of it was reported as an error. -/
theorem ingress_accounting {n : DocumentCodec} {sourceNodeId : String} {store : Store}
    {subjects : List String} {labels : List Label} {s : IngressProcessor}
    (hrun : Lts.exec (IngressProcessor.step n sourceNodeId) (start store subjects) labels = some s) :
    s.sent = s.done.map (·.item) ++ s.current.toList ++ s.queue ∧
      s.stats.received = s.done.length + s.current.toList.length ∧
      (∀ v, s.stats.count v = s.done.countP (·.verdict = v)) ∧
      (Lts.Along (IngressProcessor.step n sourceNodeId) (Fresh n sourceNodeId)
          (start store subjects) labels →
        ∀ p ∈ s.done,
          p.puts ≤ 1 ∧ (p.kept = true ↔ p.puts = 1) ∧ (p.Truthful ↔ p.late = false)) := by
  -- one invariant for both parts: the second one's hypothesis is its parameter
  have h := Lts.exec_invariant (Accounted · _) (fun s l s' hs hfresh h => hs.step hfresh h)
    (accounted_start store subjects _) (Lts.along_imp id) hrun
  exact ⟨h.fifo, h.received, h.counts, fun hfresh p hp =>
    ⟨(h.records hfresh p hp).once, (h.records hfresh p hp).kept, (h.records hfresh p hp).truthful⟩⟩

/-! ### Two runs -/

def nullItem : IngressItem := ⟨"telemetry", "telemetry", Ledger.asBytes "null"⟩

/-- A retried write, and an item that is not JSON. -/
def retryRun : List Label :=
  [.send nullItem, .send { nullItem with payload := [0] }, .recv "a",
    .attempt Bridge.zeroNonce ⟨true, true, .error false⟩, .other "b:c" none,
    .attempt Bridge.zeroNonce ⟨true, true, .ok⟩, .recv "d"]

theorem retryRun_truthful :
    ∃ s ∈ Lts.exec (IngressProcessor.step Bridge.plainStore "edge-a") (start (fun _ => none) ["telemetry"])
        retryRun,
      (s.stats = ⟨2, 1, 0, 1, 0⟩ ∧ ∀ p ∈ s.done, p.late = false) ∧ ∀ p ∈ s.done, p.Truthful := by
  refine Lts.exists_mem_and (by decide +kernel) fun s hs ⟨_, hlate⟩ p hp => ?_
  obtain ⟨-, -, -, hrecords⟩ := ingress_accounting hs
  exact (hrecords (by decide +kernel) p hp).2.2.2 (hlate p hp)

/-- The first write works and reports an error. -/
def lateRun : List Label :=
  [.send nullItem, .recv "a", .attempt Bridge.zeroNonce ⟨true, true, .error true⟩,
    .attempt Bridge.zeroNonce ⟨true, true, .ok⟩]

theorem lateRun_counts_failure :
    ∃ s ∈ Lts.exec (IngressProcessor.step Bridge.plainStore "edge-a") (start (fun _ => none) ["telemetry"])
        lateRun,
      s.stats = ⟨1, 0, 0, 0, 1⟩ ∧ s.done = [⟨nullItem, .finalStoreFailure, 1, true, true⟩] ∧
        (s.store (documentKey "telemetry" "a")).isSome = true := by
  decide +kernel

/-! ### Documents that are there -/

variable {key : String} {doc : Document}

theorem store_attemptWrite (hdoc : s.store key = some doc) :
    (s.attemptWrite n nonce o item docId json attempt delay).store key = some doc := by
  have hstore : (s.attemptWrite n nonce o item docId json attempt delay).store =
      (n.createBridgeDocument nonce o item.collection docId json s.store).2 := by
    unfold attemptWrite
    dsimp only
    split
    · rfl
    · split_ifs <;> rfl
  -- a write that takes effect has found nothing under its key
  have hwrite : ∀ new, s.store (documentKey item.collection docId) = none →
      update s.store (documentKey item.collection docId) (some new) key = some doc := by
    intro new hnone
    refine (update_of_ne (fun heq => ?_) _ _).trans hdoc
    simp [heq, hnone] at hdoc
  rw [hstore]
  rcases n.createBridgeDocument_cases nonce o item.collection docId json s.store with
    ⟨new, hnone, -, hcreate⟩ | ⟨new, hnone, -, hcreate⟩ | ⟨e, -, hcreate⟩ <;> rw [hcreate]
  · exact hwrite new hnone
  · exact hwrite new hnone
  · exact hdoc

theorem store_step (hdoc : s.store key = some doc) (hl : ∀ d, l ≠ .other key d)
    (h : s.step n sourceNodeId l = some s') : s'.store key = some doc := by
  cases Turn.of_step h with
  | send | close | stopped | exhausted | tick => exact hdoc
  | @received docId item queue hpc hqueue =>
    rcases receive_cases { s with queue := queue } n.range sourceNodeId docId item with
      ⟨v, stats, warnings, actions, -, -, -, heq⟩ | ⟨-, json, heq⟩ <;>
    · rw [heq]
      exact hdoc
  | attempted => exact store_attemptWrite hdoc
  | @other key' d =>
    have hne : key ≠ key' := fun heq => hl d (heq ▸ rfl)
    exact (update_of_ne hne _ _).trans hdoc

/-- **The processor only creates.** In every run, whatever the messages, the ids and the outcomes
of the writes, a document in the store stays as it is until another task changes it. -/
theorem ingress_creates_only {labels : List Label} (hdoc : s.store key = some doc)
    (hother : ∀ d, .other key d ∉ labels)
    (hrun : Lts.exec (step n sourceNodeId) s labels = some s') : s'.store key = some doc := by
  have hok : ∀ l ∈ labels, ∀ d, l ≠ .other key d := by
    rintro l hl d rfl
    exact hother d hl
  exact Lts.exec_invariant (fun s => s.store key = some doc)
    (fun _ _ _ hs hl h => store_step hs hl h) hdoc
    (Lts.along_of_forall hok s) hrun

/-- The id drawn is in use. -/
def sameId : List Label :=
  [.send { nullItem with payload := Ledger.asBytes "true" }, .recv "a",
    .attempt Bridge.zeroNonce ⟨true, true, .ok⟩]

theorem lateRun_creates_only : ∃ s ∈ Lts.exec (step Bridge.plainStore "edge-a")
    (start (fun _ => none) ["telemetry"]) lateRun, ∃ doc ∈ s.store (documentKey "telemetry" "a"),
      ∃ s' ∈ Lts.exec (step Bridge.plainStore "edge-a") s sameId,
        s'.stats = ⟨2, 0, 0, 0, 2⟩ ∧ s'.store (documentKey "telemetry" "a") = some doc := by
  have hend : ∃ s ∈ Lts.exec (step Bridge.plainStore "edge-a") (start (fun _ => none) ["telemetry"])
      lateRun, ∃ doc ∈ s.store (documentKey "telemetry" "a"),
        ∃ s' ∈ Lts.exec (step Bridge.plainStore "edge-a") s sameId, s'.stats = ⟨2, 0, 0, 0, 2⟩ := by
    decide +kernel
  obtain ⟨s, hs, doc, hdoc, s', hs', hstats⟩ := hend
  exact ⟨s, hs, doc, hdoc, s', hs', hstats,
    ingress_creates_only hdoc (by simp [sameId]) hs'⟩

end IngressProcessor

end PeatNode.Ingress
