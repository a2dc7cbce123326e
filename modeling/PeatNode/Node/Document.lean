/-
# Stored documents

An Automerge document as `preflight_event_document` and `automerge_to_json` see it: a tree of maps,
tables, lists, texts and scalars whose root is a map.

The conversions from and to JSON belong to `peat_mesh` and are parameters.  `Conversion` states what
is documented of them: objects become maps, arrays become lists, a string becomes a string scalar or
a text, and the way back gives the value again, up to the order of the members.
-/

import PeatNode.Lib.Json

namespace PeatNode.Node

/-- `ScalarValueRef`. -/
inductive ScalarValue
  | str (value : String)
  | bytes (value : List UInt8)
  | unknown (value : List UInt8)
  | int (value : ℤ)
  | uint (value : ℕ)
  | f64 (bits : UInt64)
  | counter (value : ℤ)
  | timestamp (value : ℤ)
  | boolean (value : Bool)
  | null
deriving DecidableEq

mutual

/-- `ValueRef`. -/
inductive DocValue
  | scalar (value : ScalarValue)
  | object (value : DocObject)

/-- An object with its `ObjType`; a text's length is in the units of the document's encoding. -/
inductive DocObject
  | map (entries : List (String × DocValue))
  | table (entries : List (String × DocValue))
  | list (items : List DocValue)
  | text (value : String) (length : ℕ)

end

/-- The entries of the root map. -/
abbrev Document := List (String × DocValue)

/-- A scalar that stands for a JSON number. -/
def ScalarValue.isNumber : ScalarValue → Bool
  | .int _ | .uint _ | .f64 _ => true
  | .str _ | .bytes _ | .unknown _ | .counter _ | .timestamp _ | .boolean _ | .null => false

mutual

/-- The document value that a JSON value is stored as. -/
inductive Represents : Json.Value → DocValue → Prop
  | null : Represents .null (.scalar .null)
  | bool (b : Bool) : Represents (.bool b) (.scalar (.boolean b))
  | number (n : Json.Number) {v : ScalarValue} (h : v.isNumber = true) :
      Represents (.number n) (.scalar v)
  | string (s : String) : Represents (.string s) (.scalar (.str s))
  | text (s : String) {length : ℕ} (hpos : s.toList.length ≤ length)
      (hle : length ≤ s.utf8ByteSize) : Represents (.string s) (.object (.text s length))
  | array (h : RepresentsItems vs items) :
      Represents (.array vs) (.object (.list items))
  | object (h : RepresentsMembers ms entries) (hperm : entries.Perm entries') :
      Represents (.object ms) (.object (.map entries'))

inductive RepresentsItems : List Json.Value → List DocValue → Prop
  | nil : RepresentsItems [] []
  | cons (h : Represents v w) (hs : RepresentsItems vs ws) : RepresentsItems (v :: vs) (w :: ws)

inductive RepresentsMembers : List (String × Json.Value) → Document → Prop
  | nil : RepresentsMembers [] []
  | cons {k : String} {v : Json.Value} {w : DocValue} {ms : List (String × Json.Value)}
      {entries : Document} (h : Represents v w) (hs : RepresentsMembers ms entries) :
      RepresentsMembers ((k, v) :: ms) ((k, w) :: entries)

end

/-- `json_to_automerge`, which may start from a stored document, and `automerge_to_json`; the laws
are those of a new one. -/
structure Conversion where
  jsonToAutomerge : Json.Value → Option Document → Option Document
  automergeToJson : Document → Json.Value
  represents : ∀ v doc, jsonToAutomerge v none = some doc → Represents v (.object (.map doc))
  roundTrip : ∀ v doc, jsonToAutomerge v none = some doc → Json.Same v (automergeToJson doc)

end PeatNode.Node
