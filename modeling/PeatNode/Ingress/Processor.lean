/-
# The ingress processor

`run_ingress_processor` of `src/nats_bridge/ingress.rs`: one task that takes raw messages from a
bounded FIFO, validates each, draws one document id for it and makes up to three create-only writes.

A step is what happens between two await points.  The sends, the outcome of every store call, the
document id (`Uuid::new_v4`) and what other tasks do to the documents are labels.  `Fresh`: the
drawn id is not in use, and no other task writes to it meanwhile.
-/

import PeatNode.Node.BridgeDocument

namespace PeatNode.Ingress

open Egress Node Reconcile

def ingressQueueCapacity : ℕ := 256

/-- `STORE_ATTEMPT_DELAYS`, in milliseconds. -/
def storeAttemptDelays : List (Option ℕ) := [some 50, some 200, none]

structure IngressItem where
  subject : String
  collection : String
  payload : List UInt8
deriving DecidableEq

/-! ### Counters and diagnostics -/

/-- The counters of `IngressStats` that the processor touches. -/
structure IngressStats where
  received : ℕ
  stored : ℕ
  invalidUtf8 : ℕ
  invalidJson : ℕ
  finalStoreFailures : ℕ
deriving DecidableEq

inductive IngressActionKind
  | oversizedPayload
  | invalidOccurrence
  | invalidWarning
  | invalidSummary
  | storeRetry
  | storeFailure
deriving DecidableEq

inductive IngressErrorKind
  | oversizedPayload
  | invalidUtf8
  | invalidJson
  | invalidInputSummary
  | envelopeEncoding
  | alreadyExists
  | invalidInput
  | encryption
  | conversion
  | storeRead
  | storeWrite
  | localExclusion
deriving DecidableEq

structure IngressAction where
  kind : IngressActionKind
  subject : Option String
  collection : Option String
  payloadBytes : Option ℕ
  documentId : Option String
  attempt : Option ℕ
  delayMs : Option ℕ
  suppressedCount : Option ℕ
  errorKind : IngressErrorKind
deriving DecidableEq

structure InvalidWarningState where
  warningEmitted : Bool
  suppressed : ℕ
deriving DecidableEq

def invalidAction (kind : IngressActionKind) (item : IngressItem) (errorKind : IngressErrorKind)
    (suppressedCount : Option ℕ) : IngressAction :=
  ⟨kind, some item.subject, some item.collection, some item.payload.length, none, none, none,
    suppressedCount, errorKind⟩

def storeAction (kind : IngressActionKind) (item : IngressItem) (docId : String) (attempt : ℕ)
    (delay : Option ℕ) (errorKind : IngressErrorKind) : IngressAction :=
  ⟨kind, some item.subject, some item.collection, some item.payload.length, some docId,
    some attempt, delay, none, errorKind⟩

/-- `From<CreateBridgeDocumentError>`. -/
def IngressErrorKind.ofWrite : DocumentWriteError → IngressErrorKind
  | .alreadyExists => .alreadyExists
  | .invalidInput => .invalidInput
  | .encryption => .encryption
  | .conversion => .conversion
  | .storeRead => .storeRead
  | .storeWrite => .storeWrite
  | .ledger => .localExclusion

def isTransient (error : DocumentWriteError) : Bool := error = .storeRead || error = .storeWrite

/-! ### State -/

/-- Which of the four counters an item ends in. -/
inductive Verdict
  | stored
  | invalidUtf8
  | invalidJson
  | finalStoreFailure
deriving DecidableEq

/-- What became of an item: its counter, how many writes of its document took effect, whether one
was reported as an error, and whether the document was stored in the end. -/
structure Processed where
  item : IngressItem
  verdict : Verdict
  puts : ℕ
  late : Bool
  kept : Bool
deriving DecidableEq

inductive ProcessorPc
  | recv
  | storing (item : IngressItem) (docId envelopeJson : String) (attempt : ℕ)
  | stopped
deriving DecidableEq

structure IngressProcessor where
  queue : List IngressItem
  closed : Bool
  pc : ProcessorPc
  store : Store
  stats : IngressStats
  warnings : List (String × InvalidWarningState)
  actions : List IngressAction
  -- history: the items sent, those done, and the writes of the current one
  sent : List IngressItem
  done : List Processed
  puts : ℕ
  late : Bool

namespace IngressProcessor

def start (store : Store) (subjects : List String) : IngressProcessor where
  queue := []
  closed := false
  pc := .recv
  store := store
  stats := ⟨0, 0, 0, 0, 0⟩
  warnings := subjects.map fun subject => (subject, ⟨false, 0⟩)
  actions := []
  sent := []
  done := []
  puts := 0
  late := false

def current (s : IngressProcessor) : Option IngressItem :=
  match s.pc with
  | .storing item _ _ _ => some item
  | .recv | .stopped => none

def emit (s : IngressProcessor) (action : IngressAction) : IngressProcessor :=
  { s with actions := s.actions ++ [action] }

def finish (s : IngressProcessor) (item : IngressItem) (verdict : Verdict) (kept : Bool) :
    IngressProcessor :=
  { s with
    pc := .recv
    done := s.done ++ [⟨item, verdict, s.puts, s.late, kept⟩]
    puts := 0
    late := false }

/-- The warning of an invalid item's subject, if configured. -/
def warnInvalid (s : IngressProcessor) (item : IngressItem) (errorKind : IngressErrorKind) :
    IngressProcessor :=
  match s.warnings.find? (·.1 = item.subject) with
  | none => s
  | some (_, state) =>
    let set (state : InvalidWarningState) := s.warnings.map fun w =>
      if w.1 = item.subject then (w.1, state) else w
    if state.warningEmitted then
      { s with
        warnings := set { state with suppressed := min (state.suppressed + 1) (UInt64.size - 1) } }
    else
      { s with warnings := set { state with warningEmitted := true } }.emit
        (invalidAction .invalidWarning item errorKind none)

def recordInvalid (s : IngressProcessor) (item : IngressItem) :
    IngressValidationError → IngressProcessor
  | .invalidUtf8 =>
    ({ s with stats.invalidUtf8 := s.stats.invalidUtf8 + 1 }.emit
      (invalidAction .invalidOccurrence item .invalidUtf8 none)).warnInvalid item .invalidUtf8
  | .invalidJson =>
    ({ s with stats.invalidJson := s.stats.invalidJson + 1 }.emit
      (invalidAction .invalidOccurrence item .invalidJson none)).warnInvalid item .invalidJson

def emitInvalidSummaries (s : IngressProcessor) : IngressProcessor :=
  { s with
    actions := s.actions ++ (s.warnings.filter fun w => 0 < w.2.suppressed).map fun w =>
      ⟨.invalidSummary, some w.1, none, none, none, none, none, some w.2.suppressed,
        .invalidInputSummary⟩
    warnings := s.warnings.map fun w => (w.1, ⟨false, 0⟩) }

/-- `process_item` up to its first write. -/
def receive (s : IngressProcessor) (range : NumberRange) (sourceNodeId docId : String)
    (item : IngressItem) : IngressProcessor :=
  let s := { s with stats.received := s.stats.received + 1 }
  match BridgeEnvelope.fromPayload range item.subject sourceNodeId item.payload with
  | .error .invalidUtf8 => (s.recordInvalid item .invalidUtf8).finish item .invalidUtf8 false
  | .error .invalidJson => (s.recordInvalid item .invalidJson).finish item .invalidJson false
  | .ok envelope => { s with pc := .storing item docId envelope.toJson 0 }

def effective (result : Except DocumentWriteError Unit) (o : StoreOutcome) : Bool :=
  match result, o.put with
  | .ok (), _ => true
  | .error .storeWrite, .error true => true
  | _, _ => false

/-- One turn over `STORE_ATTEMPT_DELAYS`. -/
def attemptWrite (s : IngressProcessor) (n : DocumentCodec) (nonce : Nonce) (o : StoreOutcome)
    (item : IngressItem) (docId envelopeJson : String) (attempt : ℕ) (delay : Option ℕ) :
    IngressProcessor :=
  let r := n.createBridgeDocument nonce o item.collection docId envelopeJson s.store
  let wrote := effective r.1 o
  let s := { s with store := r.2, puts := s.puts + wrote.toNat }
  let kept := (s.store (documentKey item.collection docId)).isSome
  match r.1 with
  | .ok () => { s with stats.stored := s.stats.stored + 1 }.finish item .stored kept
  | .error e =>
    let s := { s with late := s.late || wrote }
    if isTransient e ∧ delay.isSome then
      { s with pc := .storing item docId envelopeJson (attempt + 1) }.emit
        (storeAction .storeRetry item docId (attempt + 1) delay (.ofWrite e))
    else
      ({ s with stats.finalStoreFailures := s.stats.finalStoreFailures + 1 }.emit
        (storeAction .storeFailure item docId (attempt + 1) none (.ofWrite e))).finish item
          .finalStoreFailure kept

inductive Label
  | send (item : IngressItem)
  | close
  | recv (docId : String)
  | attempt (nonce : Nonce) (o : StoreOutcome)
  | tick
  | other (key : String) (doc : Option Document)

def step (n : DocumentCodec) (sourceNodeId : String) (s : IngressProcessor) :
    Label → Option IngressProcessor
  | .send item =>
    if s.closed = false ∧ s.queue.length < ingressQueueCapacity then
      some { s with queue := s.queue ++ [item], sent := s.sent ++ [item] }
    else none
  | .close => some { s with closed := true }
  | .recv docId =>
    match s.pc, s.queue with
    | .recv, item :: queue =>
      some ({ s with queue := queue }.receive n.range sourceNodeId docId item)
    | .recv, [] => if s.closed then some { s with pc := .stopped } else none
    | _, _ => none
  | .attempt nonce o =>
    match s.pc with
    | .storing item docId envelopeJson attempt =>
      match storeAttemptDelays[attempt]? with
      | some delay => some (s.attemptWrite n nonce o item docId envelopeJson attempt delay)
      | none => some { s with pc := .recv }
    | .recv | .stopped => none
  | .tick =>
    match s.pc with
    | .recv => some s.emitInvalidSummaries
    | .storing _ _ _ _ | .stopped => none
  | .other key doc => some { s with store := Function.update s.store key doc }

/-- The document being stored. -/
def storingKey (s : IngressProcessor) : Option String :=
  match s.pc with
  | .storing item docId _ _ => some (documentKey item.collection docId)
  | .recv | .stopped => none

/-- The document id of a valid item is not in use, and other tasks leave the document being stored
alone. -/
def Fresh (n : DocumentCodec) (sourceNodeId : String) (s : IngressProcessor) : Label → Prop
  | .recv docId => ∀ item ∈ s.queue.head?,
      (BridgeEnvelope.fromPayload n.range item.subject sourceNodeId item.payload).isOk = true →
        s.store (documentKey item.collection docId) = none
  | .other key _ => s.storingKey ≠ some key
  | .send _ | .close | .attempt _ _ | .tick => True

instance decidableFresh (n : DocumentCodec) (sourceNodeId : String) (s : IngressProcessor)
    (l : Label) : Decidable (s.Fresh n sourceNodeId l) := by
  cases l <;> unfold Fresh <;> infer_instance

end IngressProcessor

end PeatNode.Ingress
