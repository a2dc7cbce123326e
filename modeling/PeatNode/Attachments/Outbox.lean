/-
# The outbox watcher

`run` of `src/attachments/outbox.rs`: on every poll each file under the roots is compared with
what the poll before saw and with the version sent last; a stable version not sent yet is hashed
and handed to `send_attachments`. The environment's answers are inputs of a visit. The log of
attempts is not in the source.

A version counts as sent whatever the answer was.  An answer is settled if the bundle was accepted
or every node would refuse the request with the same error (`Recurs`), unlike the refusal for too
many bundles in flight (`not_recurs_capReached`).
-/

import PeatNode.Attachments.SendAttachments

namespace PeatNode.Attachments

open UnixPath Lts SendCall Option List
open Ledger (asBytes)

/-- Size and modification time. -/
abbrev Version := UInt64 × SystemTime

inductive OutboxDecision
  | send
  | wait
  | skip
deriving DecidableEq

def outboxDecision (current : Version) (lastSeen lastSent : Option Version) : OutboxDecision :=
  if lastSent = some current then .skip
  else if lastSeen = some current then .send
  else .wait

theorem outboxDecision_eq_send_iff :
    outboxDecision current lastSeen lastSent = .send ↔
      lastSent ≠ some current ∧ lastSeen = some current := by
  unfold outboxDecision
  split_ifs with hsent hseen
  · simp [hsent]
  · simp [hsent, hseen]
  · simp [hseen]

def pruneToObserved (map : Path → Option Version) (observed : List Path) : Path → Option Version :=
  fun path => if path ∈ observed then map path else none

theorem of_pruneToObserved {map : Path → Option Version}
    (h : pruneToObserved map observed path = some v) : map path = some v := by
  unfold pruneToObserved at h
  split_ifs at h
  exact h

structure Found where
  relativePath : String
  fullPath : Path
  size : UInt64
  mtime : SystemTime

def Found.version (f : Found) : Version := (f.size, f.mtime)

def buildRequest (rootName relativePath : String) (size : UInt64) (sha256 : List UInt8) :
    SendAttachmentsRequest where
  files := [⟨rootName, relativePath, size, sha256, none, none⟩]
  scope := some (some .allNodes)
  priority := some .unspecified
  bundleId := none

/-! ### The watcher -/

/-- One turn of the inner loop, with the hash, if reading the file succeeds, and the result of
`send_attachments` on the file system as it is then. -/
structure Visit where
  rootName : String
  found : Found
  sha256 : Option (List UInt8)
  fs : FileSystem
  result : Except ConnectError SendAttachmentsResponse

structure Attempt where
  path : Path
  version : Version
  request : SendAttachmentsRequest
  fs : FileSystem
  result : Except ConnectError SendAttachmentsResponse

structure Outbox where
  lastSeen : Path → Option Version
  lastSent : Path → Option Version
  observed : List Path
  attempts : List Attempt

inductive OutboxLabel
  | visit (v : Visit)
  | endPoll

namespace Outbox

def start : Outbox := ⟨fun _ => none, fun _ => none, [], []⟩

def decision (s : Outbox) (v : Visit) : OutboxDecision :=
  outboxDecision v.found.version (s.lastSeen v.found.fullPath) (s.lastSent v.found.fullPath)

def attempt (s : Outbox) (v : Visit) : Option Attempt :=
  if s.decision v = .send then
    v.sha256.map fun sha256 =>
      ⟨v.found.fullPath, v.found.version,
        buildRequest v.rootName v.found.relativePath v.found.size sha256, v.fs, v.result⟩
  else none

def see (s : Outbox) (v : Visit) : Outbox :=
  { s with
    lastSeen := Function.update s.lastSeen v.found.fullPath (some v.found.version)
    observed := v.found.fullPath :: s.observed }

/-- Recorded whatever the result was. -/
def mark (s : Outbox) (a : Attempt) : Outbox :=
  { s with
    lastSent := Function.update s.lastSent a.path (some a.version)
    attempts := s.attempts ++ [a] }

def endPoll (s : Outbox) : Outbox :=
  { s with
    lastSeen := pruneToObserved s.lastSeen s.observed
    lastSent := pruneToObserved s.lastSent s.observed
    observed := [] }

def step (s : Outbox) : OutboxLabel → Option Outbox
  | .visit v =>
    match s.attempt v with
    | none => some (s.see v)
    | some a => some ((s.see v).mark a)
  | .endPoll => some s.endPoll

theorem exec_isSome (s : Outbox) (labels : List OutboxLabel) :
    ∃ s', exec step s labels = some s' := by
  refine exists_exec (fun s label => ?_) s labels
  cases label with
  | visit v => cases h : s.attempt v <;> simp [step, h]
  | endPoll => exact ⟨s.endPoll, rfl⟩

end Outbox

/-! ### Settled attempts -/

section Settled

variable (platform : Platform) (cfg : AttachmentConfig)

/-- On this file system the answer is always this error. -/
def Recurs (fs : FileSystem) (request : SendAttachmentsRequest) (e : ConnectError) : Prop :=
  ∀ (n n' : Sidecar) (labels : List SendLabel) (call : SendCall)
    (result : Except ConnectError SendAttachmentsResponse),
    Lts.exec (SendCall.step platform cfg) (n, ⟨request, .received⟩) (.validate fs :: labels) =
        some (n', call) →
      call.pc.result = some result → result = .error e

variable {request : SendAttachmentsRequest}

/-- A request that passes the validation is not refused for the number of bundles in flight by a
node that has none. -/
theorem not_recurs_capReached (hv : afterValidate platform cfg fs request = .validated v)
    (hmax : 0 < cfg.maxConcurrentDistributions) :
    ¬ Recurs platform cfg fs request (capReached cfg) := by
  intro hrecurs
  -- on a node that has the bundle completed, the answer comes right after the cap
  let id := bundleIdFor request "uuid"
  let known : BundleRecord := ⟨id, .fromValidated v.files, [], .completed, 0, 0⟩
  let n : Sidecar := ⟨⟨AList.insert id known ∅, ∅⟩, ⟨∅, []⟩⟩
  have hadmits : SendCall.Admits cfg n.registry := .inr hmax
  have hlookup : n.registry.bundles.lookup id = some known := AList.lookup_insert ∅
  have hprobe : n.registry.probe id (.fromValidated v.files) = none :=
    Registry.probe_of_identical hlookup
  have hrecheck : (n.registry.recheck id (.fromValidated v.files) 0).1 =
      .idempotent (Registry.touched 0 known) :=
    congrArg Prod.fst (Registry.recheck_of_identical hlookup rfl 0)
  have hrun : exec (step platform cfg) (n, ⟨request, .received⟩)
      [.validate fs, .checkCap, .probe "uuid", .recheck 0] =
        some (⟨(n.registry.recheck id (.fromValidated v.files) 0).2, n.store⟩,
          ⟨request, .returned (.ok (buildResponse id []))⟩) := by
    simp only [exec_cons, exec_nil, step, advance, goto, hv,
      if_pos hadmits, bind_some]
    simp only [String.reduceEq, if_false, show bundleIdFor request "uuid" = id from rfl, hprobe,
      bind_some, hrecheck, afterLookup]
    rfl
  cases hrecurs n _ _ _ _ hrun rfl

/-- Accepted, or the refusal would recur. -/
def Attempt.Settled (a : Attempt) : Prop :=
  match a.result with
  | .ok _ => True
  | .error e => Recurs platform cfg a.fs a.request e

end Settled

namespace Outbox

variable (platform : Platform) (cfg : AttachmentConfig)

def HasSettled (s : Outbox) (path : Path) (version : Version) : Prop :=
  ∃ a ∈ s.attempts, a.path = path ∧ a.version = version ∧ a.Settled platform cfg

def Dispatched (s : Outbox) : Prop :=
  ∀ path version, s.lastSent path = some version → s.HasSettled platform cfg path version

/-- What is tried and not settled is tried again. -/
def Retries (s : Outbox) : Prop :=
  ∀ a ∈ s.attempts, ¬ s.HasSettled platform cfg a.path a.version →
    outboxDecision a.version (some a.version) (s.lastSent a.path) = .send

theorem Dispatched.retries {s : Outbox} (h : s.Dispatched platform cfg) :
    s.Retries platform cfg := by
  intro a _ hnot
  exact outboxDecision_eq_send_iff.2 ⟨fun hsent => hnot (h _ _ hsent), rfl⟩

/-- An attempt is settled, unless it was before. -/
def Settles (s : Outbox) : OutboxLabel → Prop
  | .visit v => ∀ a ∈ s.attempt v,
      a.Settled platform cfg ∨ s.HasSettled platform cfg a.path a.version
  | .endPoll => True

variable {platform cfg} {s s' : Outbox}

theorem HasSettled.mark (h : s.HasSettled platform cfg path version) (v : Visit) (a : Attempt) :
    ((s.see v).mark a).HasSettled platform cfg path version := by
  obtain ⟨b, hb, hpath⟩ := h
  exact ⟨b, mem_append_left _ hb, hpath⟩

theorem hasSettled_mark_self :
    ((s.see v).mark a).HasSettled platform cfg a.path a.version ↔
      a.Settled platform cfg ∨ s.HasSettled platform cfg a.path a.version := by
  constructor
  · rintro ⟨b, hb, hpath, hversion, hsettled⟩
    rcases mem_append.1 hb with hb | hb
    · exact .inr ⟨b, hb, hpath, hversion, hsettled⟩
    · obtain rfl := mem_singleton.1 hb
      exact .inl hsettled
  · rintro (hsettled | h)
    · exact ⟨a, mem_append_right _ mem_cons_self, rfl, rfl, hsettled⟩
    · exact h.mark v a

theorem Dispatched.mark (hs : s.Dispatched platform cfg)
    (ha : a.Settled platform cfg ∨ s.HasSettled platform cfg a.path a.version) :
    ((s.see v).mark a).Dispatched platform cfg := by
  intro path version hsent
  by_cases hpath : path = a.path
  · subst hpath
    obtain rfl : a.version = version := by simpa [Outbox.mark] using hsent
    exact hasSettled_mark_self.2 ha
  · have hold : s.lastSent path = some version := by simpa [Outbox.mark, see, hpath] using hsent
    exact (hs path version hold).mark v a

theorem Dispatched.step (hs : s.Dispatched platform cfg) (hok : s.Settles platform cfg label)
    (h : step s label = some s') : s'.Dispatched platform cfg := by
  cases label with
  | visit v =>
    simp only [Outbox.step] at h
    split at h
    · cases h
      exact hs
    · next a ha =>
      cases h
      exact hs.mark (hok a ha)
  | endPoll =>
    cases h
    exact fun path version hsent => hs path version (of_pruneToObserved hsent)

/-- An attempt that leaves its version unsettled breaks the record at once. -/
theorem not_dispatched_of_step (hok : ¬ s.Settles platform cfg label) (h : step s label = some s') :
    ¬ s'.Dispatched platform cfg := by
  cases label with
  | visit v =>
    intro hdisp
    apply hok
    intro a ha
    simp only [step, mem_def.1 ha] at h
    cases h
    exact hasSettled_mark_self.1 (hdisp a.path a.version (by simp [mark]))
  | endPoll => exact absurd trivial hok

/-- **The outbox forgets nothing it has not dispatched** in a run, and retries what is not
settled, exactly when in every visit the attempt is settled or its version was before. -/
theorem outbox_dispatches_iff (platform : Platform) (cfg : AttachmentConfig)
    (labels : List OutboxLabel) :
    Lts.Always step (fun s => s.Dispatched platform cfg ∧ s.Retries platform cfg) start labels ↔
      Lts.Along step (Settles platform cfg) start labels := by
  obtain ⟨s, hrun⟩ := exec_isSome start labels
  have hstart : start.Dispatched platform cfg := by
    intro path version hsent
    nomatch hsent
  refine always_iff_along (Dispatched platform cfg) _ ?_ ?_ ?_ hstart hrun
  · intro s label s' hs hok h
    exact hs.step hok h
  · intro s label s' _ hok h hboth
    exact not_dispatched_of_step hok h hboth.1
  · intro s hs
    exact ⟨hs, hs.retries⟩

/-- One bundle too many is in flight. -/
def refusedVisit : Visit where
  rootName := "outbox"
  found := ⟨"report", asBytes "/report", 0, 0⟩
  sha256 := some (Sha256.hash [])
  fs := emptyFiles
  result := .error (capReached plainConfig)

def refusedAttempt : Attempt where
  path := asBytes "/report"
  version := (0, 0)
  request := buildRequest "outbox" "report" 0 (Sha256.hash [])
  fs := emptyFiles
  result := .error (capReached plainConfig)

/-- **A refused file is forgotten**: seen twice, it is refused because too many bundles are in
flight, and skipped in the next poll, though it was never sent. -/
theorem refused_file_forgotten : ∃ s,
    Lts.exec step start [.visit refusedVisit, .endPoll, .visit refusedVisit, .endPoll] = some s ∧
      s.attempts.map (·.result) = [.error (capReached plainConfig)] ∧
      s.decision refusedVisit = .skip ∧ ¬ s.Dispatched byContent plainConfig := by
  refine ⟨((((start.see refusedVisit).endPoll).see refusedVisit).mark refusedAttempt).endPoll, rfl,
    rfl, by decide +kernel, ?_⟩
  intro hdisp
  obtain ⟨a, ha, -, -, hsettled⟩ := hdisp refusedAttempt.path (0, 0) (by decide +kernel)
  obtain rfl : a = refusedAttempt := mem_singleton.1 ha
  obtain ⟨v, hv⟩ : ∃ v, validateRequest byContent plainConfig emptyFiles refusedAttempt.request =
      .ok v := exists_validated (by decide +kernel)
  have hpass : afterValidate byContent plainConfig emptyFiles refusedAttempt.request =
      .validated v := by
    simp only [afterValidate, hv]
    rfl
  exact not_recurs_capReached byContent plainConfig hpass (by decide) hsettled

end Outbox

end PeatNode.Attachments
