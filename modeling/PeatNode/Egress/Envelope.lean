/-
# The durable envelope

`BridgeEnvelope` of `src/nats_bridge/envelope.rs`: how a NATS payload becomes an envelope, the JSON
text of an envelope and how it is read back.  `serde_json` reads a text with at most 127 nested
arrays and objects; which numbers its `Number` type holds is a parameter (`NumberRange`).  A struct
is read from an object with its members in any order, unknown ones ignored, or from an array.
-/

import PeatNode.Egress.Classify
import PeatNode.Lib.JsonPlain
import PeatNode.Node.StoreCipher

namespace PeatNode.Egress

open Json List Value
open Ledger (asBytes)
open Node (fromUtf8)
open String (utf8Len)

/-- The numbers that `serde_json::Number` holds. -/
structure NumberRange where
  fits : Number → Bool
  fits_of_nat : ∀ n k, n.toNat? = some k → k < UInt64.size → fits n = true

/-- The nesting that `serde_json` allows. -/
def recursionLimit : ℕ := 127

/-- `serde_json::from_str::<Value>`. -/
def NumberRange.fromStr (range : NumberRange) (text : String) : Option Value :=
  match parse recursionLimit text with
  | none => none
  | some v => if v.numbers.all range.fits then some v.merged else none

inductive IngressValidationError
  | invalidUtf8
  | invalidJson
deriving DecidableEq

namespace BridgeEnvelope

def fromPayload (range : NumberRange) (subject sourceNodeId : String) (bytes : List UInt8) :
    Except IngressValidationError BridgeEnvelope :=
  match fromUtf8 bytes with
  | none => .error .invalidUtf8
  | some payload =>
    match range.fromStr payload with
    | none => .error .invalidJson
    | some _ => .ok ⟨bridgeEnvelopeKind, bridgeEnvelopeVersion, subject, sourceNodeId, payload⟩

/-- The fields in the order of the struct. -/
def toValue (e : BridgeEnvelope) : Value :=
  .object [("kind", .string e.kind), ("version", .number (.ofNat e.version)),
    ("subject", .string e.subject), ("source_node_id", .string e.sourceNodeId),
    ("payload", .string e.payload)]

/-- `serde_json::to_string`. -/
def toJson (e : BridgeEnvelope) : String := e.toValue.toText

/-! ### Reading -/

/-- A missing or repeated member is an error. -/
def field (members : List (String × Value)) (name : String) : Option Value :=
  match members.filter (·.1 = name) with
  | [m] => some m.2
  | _ => none

def asStr : Value → Option String
  | .string s => some s
  | .null | .bool _ | .number _ | .array _ | .object _ => none

def asU32 : Value → Option ℕ
  | .number n => n.toNat?.bind fun k => if k < UInt32.size then some k else none
  | .null | .bool _ | .string _ | .array _ | .object _ => none

/-- The derived `Deserialize`. -/
def ofValue : Value → Option BridgeEnvelope
  | .object members => do
      let kind ← (field members "kind").bind asStr
      let version ← (field members "version").bind asU32
      let subject ← (field members "subject").bind asStr
      let sourceNodeId ← (field members "source_node_id").bind asStr
      let payload ← (field members "payload").bind asStr
      return ⟨kind, version, subject, sourceNodeId, payload⟩
  | .array [kind, version, subject, sourceNodeId, payload] => do
      return ⟨← asStr kind, ← asU32 version, ← asStr subject, ← asStr sourceNodeId,
        ← asStr payload⟩
  | _ => none

/-- `serde_json::from_str::<BridgeEnvelope>`. -/
def fromStr (text : String) : Option BridgeEnvelope := (parse recursionLimit text).bind ofValue

/-! ### Round trip -/

theorem field_eq_of_perm (h : ms.Perm ns) (hv : field ms name = some v) :
    field ns name = some v := by
  have hfilter : (ms.filter (·.1 = name)).Perm (ns.filter (·.1 = name)) := h.filter _
  unfold field at hv ⊢
  split at hv
  · rename_i m hm
    rw [hm] at hfilter
    rw [perm_singleton.1 hfilter.symm]
    exact hv
  · simp at hv

variable {e : BridgeEnvelope} {w : Value}

theorem same_toValue (e : BridgeEnvelope) : Same e.toValue e.toValue :=
  .object (.cons (.string _) (.cons (.number _) (.cons (.string _) (.cons (.string _)
    (.cons (.string _) .nil))))) (.refl _)

theorem exists_perm_of_same (h : Same e.toValue w) :
    ∃ ms, w = .object ms ∧ ([("kind", .string e.kind), ("version", .number (.ofNat e.version)),
      ("subject", .string e.subject), ("source_node_id", .string e.sourceNodeId),
      ("payload", .string e.payload)] : List (String × Value)).Perm ms := by
  rcases h with _ | _ | _ | _ | _ | @⟨_, ns, ns', hms, hperm⟩
  refine ⟨ns', rfl, ?_⟩
  rcases hms with _ | ⟨hkind, hms⟩
  rcases hms with _ | ⟨hversion, hms⟩
  rcases hms with _ | ⟨hsubject, hms⟩
  rcases hms with _ | ⟨hsource, hms⟩
  rcases hms with _ | ⟨hpayload, hms⟩
  cases hms
  cases hkind
  cases hversion
  cases hsubject
  cases hsource
  cases hpayload
  exact hperm

/-- **An envelope is read back**, in whatever order its fields were kept. -/
theorem fromStr_of_same (hversion : e.version < UInt32.size) (h : Same e.toValue w) :
    fromStr w.toText = some e := by
  obtain ⟨ms, rfl, hperm⟩ := exists_perm_of_same h
  have hdepth : (object ms).depth ≤ recursionLimit := by
    have hms : ∀ m ∈ ms, m.2.depth ≤ 0 := by
      intro m hm
      have hm' := hperm.mem_iff.2 hm
      simp only [mem_cons, not_mem_nil, or_false] at hm'
      rcases hm' with rfl | rfl | rfl | rfl | rfl <;> exact Nat.le_refl _
    have hle := memberDepths_le hms
    simp only [depth, recursionLimit]
    omega
  have hfield : ∀ name v, field _ name = some v → field ms name = some v := fun name v =>
    field_eq_of_perm hperm
  rw [fromStr, parse_toText hdepth, Option.bind_some, ofValue,
    hfield "kind" (.string e.kind) rfl, hfield "version" (.number (.ofNat e.version)) rfl,
    hfield "subject" (.string e.subject) rfl, hfield "source_node_id" (.string e.sourceNodeId) rfl,
    hfield "payload" (.string e.payload) rfl]
  simp [asStr, asU32, Number.toNat?_ofNat, hversion]

theorem fromStr_toJson (range : NumberRange) (hversion : e.version < UInt64.size) :
    range.fromStr e.toJson = some e.toValue := by
  have hfits : range.fits (.ofNat e.version) = true :=
    range.fits_of_nat _ _ (Number.toNat?_ofNat _) hversion
  have hdepth : e.toValue.depth ≤ recursionLimit := by
    simp [toValue, depth, depth.memberDepths, recursionLimit]
  rw [NumberRange.fromStr, toJson, parse_toText hdepth]
  simp [toValue, numbers, numbers.membersNumbers, hfits, merged,
    merged.membersMerged, lastOfEach]

/-! ### Accepted payloads -/

variable {range : NumberRange} {subject sourceNodeId : String} {bytes : List UInt8}

/-- What an accepted payload becomes. -/
theorem fromPayload_spec (h : fromPayload range subject sourceNodeId bytes = .ok e) :
    e.kind = bridgeEnvelopeKind ∧ e.version = bridgeEnvelopeVersion ∧ e.subject = subject ∧
      e.sourceNodeId = sourceNodeId ∧ asBytes e.payload = bytes ∧
      ∀ c ∈ e.payload.toList, Plain c := by
  unfold fromPayload at h
  split at h
  · simp at h
  · rename_i payload hutf8
    split at h
    · simp at h
    · rename_i v hjson
      cases h
      refine ⟨rfl, rfl, rfl, rfl, Node.asBytes_of_fromUtf8 hutf8, ?_⟩
      unfold NumberRange.fromStr at hjson
      split at hjson
      · simp at hjson
      · rename_i hparse
        exact (plain_of_parse hparse).1

/-- What an envelope adds to its parts. -/
def frameBytes : ℕ := 85

theorem utf8Len_escape_of_literal {s : String} (h : ∀ c ∈ s.toList, Literal c) :
    utf8Len (escape s.toList) = s.utf8ByteSize := by
  rw [escape_of_literal h, String.utf8Len_toList]

/-- The size of the text of an envelope. -/
theorem utf8ByteSize_toJson (hkind : e.kind = bridgeEnvelopeKind)
    (hversion : e.version = bridgeEnvelopeVersion) :
    e.toJson.utf8ByteSize = frameBytes + utf8Len (escape e.subject.toList) +
      utf8Len (escape e.sourceNodeId.toList) + utf8Len (escape e.payload.toList) := by
  have hnames : utf8Len (quote "kind") = 6 ∧ utf8Len (quote "version") = 9 ∧
      utf8Len (quote "subject") = 9 ∧ utf8Len (quote "source_node_id") = 16 ∧
      utf8Len (quote "payload") = 9 ∧ utf8Len (quote bridgeEnvelopeKind) = 18 ∧
      utf8Len (Number.ofNat bridgeEnvelopeVersion).text = 1 := by decide
  obtain ⟨h₁, h₂, h₃, h₄, h₅, h₆, h₇⟩ := hnames
  rw [toJson, toText, String.utf8ByteSize_ofList, toValue, hkind, hversion,
    utf8Len_render_object _ (by simp)]
  simp only [map_cons, map_nil, sum_cons, sum_nil, memberBytes, render,
    h₁, h₂, h₃, h₄, h₅, h₆, h₇, utf8Len_quote e.subject, utf8Len_quote e.sourceNodeId,
    utf8Len_quote e.payload, frameBytes]
  omega

end BridgeEnvelope

end PeatNode.Egress
