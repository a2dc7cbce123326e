/-
# The output proxy and the JSON text

`output_proxy` is meant as an upper bound of the JSON text of a document.  It has 6 bytes for each
byte of a key or a string, the quotes, the colon and the comma of an entry, 32 bytes for a number
and the two braces of the root, but no brackets for the objects below and no quotes for a text.

The text is within the proxy exactly if what is left of those bytes (`slack`) has room for the two
brackets or quotes of every object below the root (`proxy_conservative_iff`): a list of three empty
maps is longer than its proxy (`proxy_exceeded`).
-/

import Mathlib.Algebra.Order.BigOperators.Group.List
import PeatNode.Node.PreflightOrder

namespace PeatNode.Node

open List Json DocObject

open Json (Value quote escape memberBytes itemBytes)
open String (utf8Len)

/-! ### The JSON form of a document -/

section Form

-- how a double is written: a number, or `null` if it is not finite
variable (f64ToJson : UInt64 → Value)

def ScalarValue.toJson : ScalarValue → Value
  | .str value => .string value
  | .bytes _ | .unknown _ => .null
  | .int value | .counter value | .timestamp value => .number (.ofInt value)
  | .uint value => .number (.ofNat value)
  | .f64 bits => f64ToJson bits
  | .boolean value => .bool value
  | .null => .null

mutual

def DocValue.toJson : DocValue → Value
  | .scalar s => s.toJson f64ToJson
  | .object o => o.toJson

def DocObject.toJson : DocObject → Value
  | .map entries | .table entries => .object (entriesToJson entries)
  | .list items => .array (itemsToJson items)
  | .text value _ => .string value

def entriesToJson : List (String × DocValue) → List (String × Value)
  | [] => []
  | (key, value) :: entries => (key, value.toJson) :: entriesToJson entries

def itemsToJson : List DocValue → List Value
  | [] => []
  | value :: items => value.toJson :: itemsToJson items

end

def automergeToJson (doc : Document) : Value := (DocObject.map doc).toJson f64ToJson

end Form

/-- The integers of a scalar have 64 bits. -/
def ScalarValue.Native : ScalarValue → Prop
  | .int value | .counter value | .timestamp value => -2 ^ 63 ≤ value ∧ value < 2 ^ 63
  | .uint value => value < 2 ^ 64
  | .str _ | .bytes _ | .unknown _ | .f64 _ | .boolean _ | .null => True

instance : DecidablePred ScalarValue.Native := fun v => by
  cases v <;> unfold ScalarValue.Native <;> infer_instance

def DocValue.Native : DocValue → Prop
  | .scalar s => s.Native
  | .object _ => True

instance : DecidablePred DocValue.Native
  | .scalar s => inferInstanceAs (Decidable s.Native)
  | .object _ => inferInstanceAs (Decidable True)

/-- The number of characters of a text. -/
def DocObject.characters : DocObject → ℕ
  | .text value _ => value.toList.length
  | .map _ | .table _ | .list _ => 0

/-- **What Automerge can store**: 64-bit integers, and texts no shorter than their characters. -/
def DocObject.Native (o : DocObject) : Prop :=
  o.characters ≤ o.units ∧ ∀ m ∈ o.members, m.2.Native

instance (o : DocObject) : Decidable o.Native := inferInstanceAs (Decidable (_ ∧ _))

/-! ### What the proxy has to spare -/

/-- The bytes of a text without its quotes. -/
def DocObject.escaped : DocObject → ℕ
  | .text value _ => utf8Len (escape value.toList)
  | .map _ | .table _ | .list _ => 0

section Slack

variable (f64ToJson : UInt64 → Value)

/-- Six bytes are counted for a key's byte. -/
def memberSlack : Option String × DocValue → ℕ
  | (some key, .scalar s) => key.utf8ByteSize * 6 - utf8Len (escape key.toList) +
      (s.usage.proxy - utf8Len (s.toJson f64ToJson).render)
  | (some key, .object _) => key.utf8ByteSize * 6 - utf8Len (escape key.toList)
  | (none, .scalar s) => s.usage.proxy - utf8Len (s.toJson f64ToJson).render
  | (none, .object _) => 0

/-- What is counted and not written: with the above, six bytes for each unit of a text, and the
comma after the last entry. -/
def DocObject.slack (o : DocObject) : ℕ :=
  o.units * 6 - o.escaped + (o.members.map (memberSlack f64ToJson)).sum + min 1 o.members.length

def slack (doc : Document) : ℕ := ((objects doc).map fun o => o.1.slack f64ToJson).sum

end Slack

variable {f64ToJson : UInt64 → Value}

/-! ### Scalars and keys -/

theorem escape_le (value : String) :
    utf8Len (escape value.toList) ≤ value.utf8ByteSize * 6 := by
  have hescape := utf8Len_escape_le_six value.toList
  have hlength := length_le_utf8Len value.toList
  rw [String.utf8Len_toList] at hlength
  omega

theorem ScalarValue.render_le {s : ScalarValue} (h : s.Native)
    (hf64 : ∀ bits, utf8Len (f64ToJson bits).render ≤ 32) :
    utf8Len (s.toJson f64ToJson).render ≤ s.usage.proxy := by
  have hint : ∀ value : ℤ, -2 ^ 63 ≤ value ∧ value < 2 ^ 63 →
      utf8Len (Json.Number.ofInt value).text ≤ 32 := by
    intro value hvalue
    have habs : value.natAbs < 10 ^ 19 := by omega
    exact (utf8Len_ofInt_le (by decide) habs).trans (by decide)
  cases s with
  | str value =>
    have hle := escape_le value
    change utf8Len (quote value) ≤ value.utf8ByteSize * 6 + 2
    rw [utf8Len_quote]
    omega
  | int value | counter value | timestamp value => exact hint value h
  | uint value =>
    have hdigits := length_decimal_le (k := 20) (by decide) (h.trans (by decide))
    rw [← utf8Len_decimal] at hdigits
    exact hdigits.trans (by decide : 20 ≤ 32)
  | f64 bits => exact hf64 bits
  | bytes value | unknown value | null => exact (by decide : utf8Len Value.null.render ≤ 4)
  | boolean value =>
    have hbool : ∀ b, utf8Len (Value.bool b).render ≤ 5 := by decide
    exact hbool value

/-! ### Objects -/

/-- What an entry takes in the text. -/
def entryBytes (f64ToJson : UInt64 → Value) : Option String × DocValue → ℕ
  | (some key, value) => memberBytes (key, value.toJson f64ToJson)
  | (none, value) => itemBytes (value.toJson f64ToJson)

theorem length_entriesToJson (f64ToJson : UInt64 → Value) (entries : List (String × DocValue)) :
    (entriesToJson f64ToJson entries).length = entries.length := by
  induction entries with
  | nil => rfl
  | cons entry entries ih => rw [entriesToJson, length_cons, length_cons, ih]

theorem length_itemsToJson (f64ToJson : UInt64 → Value) (items : List DocValue) :
    (itemsToJson f64ToJson items).length = items.length := by
  induction items with
  | nil => rfl
  | cons value items ih => rw [itemsToJson, length_cons, length_cons, ih]

theorem DocObject.render_add (o : DocObject) :
    utf8Len (o.toJson f64ToJson).render + min 1 o.members.length =
      2 + o.escaped + (o.members.map (entryBytes f64ToJson)).sum := by
  have hentries : ∀ entries : List (String × DocValue),
      (entriesToJson f64ToJson entries).map memberBytes =
        (entries.map fun e => (some e.1, e.2)).map (entryBytes f64ToJson) := by
    intro entries
    induction entries with
    | nil => rfl
    | cons entry entries ih => simp only [entriesToJson, map_cons, ih, entryBytes]
  have hitems : ∀ items : List DocValue, (itemsToJson f64ToJson items).map itemBytes =
        (items.map fun v => (none, v)).map (entryBytes f64ToJson) := by
    intro items
    induction items with
    | nil => rfl
    | cons value items ih => simp only [itemsToJson, map_cons, ih, entryBytes]
  cases o with
  | map entries | table entries =>
    rw [toJson, members, ← hentries, length_map, ← length_entriesToJson f64ToJson]
    exact utf8Len_render_object_add _
  | list items =>
    rw [toJson, members, ← hitems, length_map, ← length_itemsToJson f64ToJson]
    exact utf8Len_render_array_add _
  | text value length =>
    simp only [toJson, Value.render, utf8Len_quote, escaped, members, map_nil, sum_nil, length_nil]
    omega

theorem DocObject.inner_proxy (o : DocObject) :
    o.inner.proxy = o.units * 6 + (o.members.map fun m => entryProxy m.1 + m.2.usage.proxy).sum := by
  have hslots : ∀ ms : List (Option String × DocValue),
      (slotsUsage (ms.map fun m => (entryProxy m.1, m.2))).proxy =
        (ms.map fun m => entryProxy m.1 + m.2.usage.proxy).sum := by
    intro ms
    induction ms with
    | nil => rfl
    | cons m ms ih => simp [slotsUsage, ih, Usage.entry]
  rw [o.inner_eq, o.slots_eq, Usage.proxy_add, hslots, Usage.text]

theorem DocObject.sum_nested (f : DocObject → ℕ) (o : DocObject) (depth : ℕ) :
    ((o.nested depth).map fun p => f p.1).sum =
      (o.members.map fun m => ((m.2.nested depth).map fun p => f p.1).sum).sum := by
  rw [o.nested_eq]
  induction o.members with
  | nil => rfl
  | cons m ms ih =>
    rw [flatMap_cons, map_append, sum_append, ih, map_cons, sum_cons]

/-- What an entry takes and what is left of its share, given the text and the slack of an object
in it. -/
theorem entryBytes_add (hnative : m.2.Native) (hf64 : ∀ bits, utf8Len (f64ToJson bits).render ≤ 32)
    (depth below : ℕ) (hscalar : ∀ s, m.2 = .scalar s → below = 0)
    (hobject : ∀ c, m.2 = .object c → utf8Len (c.toJson f64ToJson).render + below =
      c.inner.proxy + 2 * (m.2.nested depth).length) :
    entryBytes f64ToJson m + (memberSlack f64ToJson m + below) =
      entryProxy m.1 + m.2.usage.proxy + 2 * (m.2.nested depth).length := by
  rcases m with ⟨_ | key, s | c⟩
  · have hs := ScalarValue.render_le hnative hf64
    have hzero := hscalar s rfl
    simp only [entryBytes, itemBytes, DocValue.toJson, DocValue.usage, entryProxy, memberSlack,
      DocValue.nested, length_nil]
    omega
  · have hc := hobject c rfl
    dsimp only at hc
    simp only [entryBytes, itemBytes, DocValue.toJson, DocValue.usage, entryProxy, memberSlack,
      Usage.object, Usage.proxy_add]
    omega
  · have hs := ScalarValue.render_le hnative hf64
    have hzero := hscalar s rfl
    have hkey := escape_le key
    simp only [entryBytes, memberBytes, DocValue.toJson, DocValue.usage, entryProxy, memberSlack,
      DocValue.nested, length_nil, utf8Len_quote]
    omega
  · have hc := hobject c rfl
    dsimp only at hc
    have hkey := escape_le key
    simp only [entryBytes, memberBytes, DocValue.toJson, DocValue.usage, entryProxy, memberSlack,
      Usage.object, Usage.proxy_add, utf8Len_quote]
    omega

theorem DocObject.escaped_le {o : DocObject} (h : o.Native) : o.escaped ≤ o.units * 6 := by
  have hchars := h.1
  cases o with
  | map | table | list => exact Nat.zero_le _
  | text value length =>
    have hescape := utf8Len_escape_le_six value.toList
    simp only [characters, escaped] at hchars ⊢
    omega

/-- **What the proxy misses** is two bytes for each object, and what it has to spare is the
slack. -/
theorem DocObject.render_add_slack (hf64 : ∀ bits, utf8Len (f64ToJson bits).render ≤ 32)
    (o : DocObject) (depth : ℕ) (hnative : ∀ p ∈ (o, depth) :: o.nested depth, p.1.Native) :
    utf8Len (o.toJson f64ToJson).render +
        (((o, depth) :: o.nested depth).map fun p => p.1.slack f64ToJson).sum =
      o.inner.proxy + 2 * ((o, depth) :: o.nested depth).length := by
  induction o using induct generalizing depth with
  | h o ih =>
    obtain ⟨hown, hbelow⟩ := forall_mem_cons.1 hnative
    have hentry : ∀ m ∈ o.members, entryBytes f64ToJson m + (memberSlack f64ToJson m +
        ((m.2.nested depth).map fun p => p.1.slack f64ToJson).sum) =
          entryProxy m.1 + m.2.usage.proxy + 2 * (m.2.nested depth).length := by
      rintro ⟨key, value⟩ hm
      refine entryBytes_add (hown.2 _ hm) hf64 depth _ ?_ ?_
      · rintro s rfl
        rfl
      · rintro c rfl
        refine ih key c hm (depth + 1) fun p hp => hbelow p ?_
        rw [o.nested_eq]
        exact mem_flatMap.2 ⟨_, hm, hp⟩
    have hsum := congrArg List.sum (map_congr_left hentry)
    have hrender : utf8Len (o.toJson f64ToJson).render + _ = _ := o.render_add
    have hlength : (o.nested depth).length =
        (o.members.map fun m => (m.2.nested depth).length).sum := by
      rw [o.nested_eq, length_flatMap]
    have hescaped : o.escaped ≤ o.units * 6 := escaped_le hown
    rw [o.inner_proxy, map_cons, sum_cons, o.sum_nested, length_cons, hlength, slack]
    simp only [sum_map_add, sum_map_mul_left] at hsum ⊢
    omega

/-- **Exactly where the brackets fit into the slack, the proxy is an upper bound** of the text of
an accepted document: each object below the root has two that are not counted. -/
theorem proxy_conservative_iff {doc : Document} {used : Usage}
    (h : Traversal (.start doc) (.ok used)) (hnative : ∀ o ∈ objects doc, o.1.Native)
    (hf64 : ∀ bits, utf8Len (f64ToJson bits).render ≤ 32) :
    (automergeToJson f64ToJson doc).toText.utf8ByteSize ≤ used.proxy ↔
      2 * ((objects doc).length - 1) ≤ slack f64ToJson doc := by
  have hused : used = totals doc := by
    have hr := (traversal_iff doc _).1 h
    cases hdoc : preflightEventDocument doc with
    | error e =>
      rw [hdoc] at hr
      cases hr
    | ok _ =>
      rw [hdoc] at hr
      exact Except.ok.inj hr
  have hrender := render_add_slack hf64 (.map doc) 0 hnative
  rw [Value.toText, String.utf8ByteSize_ofList, automergeToJson, hused, totals_eq]
  simp only [DocObject.inner, Usage.proxy_add, length_cons] at hrender ⊢
  unfold slack objects
  rw [length_cons]
  omega

def oneMap : Document := [("a", .object (.list [.object (.map [])]))]

def threeMaps : Document :=
  [("a", .object (.list [.object (.map []), .object (.map []), .object (.map [])]))]

/-- The key of `oneMap` leaves room for its brackets, that of `threeMaps` does not. -/
theorem proxy_conservative_iff_maps :
    (automergeToJson (fun _ => .null) oneMap).toText.utf8ByteSize ≤ 13 ∧
      ¬ (automergeToJson (fun _ => .null) threeMaps).toText.utf8ByteSize ≤ 15 := by
  have hone := @proxy_conservative_iff (fun _ => .null) oneMap (totals oneMap)
    (traversal_of_limits (by decide)) (by decide) fun _ => by decide
  have hthree := @proxy_conservative_iff (fun _ => .null) threeMaps (totals threeMaps)
    (traversal_of_limits (by decide)) (by decide) fun _ => by decide
  exact ⟨hone.2 (by decide), fun hle => absurd (hthree.1 hle) (by decide)⟩

/-- **The proxy is not an upper bound**: the text of `threeMaps` has 16 bytes and
its proxy is 15. -/
theorem proxy_exceeded :
    Traversal (.start threeMaps) (.ok (totals threeMaps)) ∧ (totals threeMaps).proxy = 15 ∧
      (automergeToJson (fun _ => .null) threeMaps).toText.utf8ByteSize = 16 := by
  refine ⟨traversal_of_limits (by decide), by decide, by decide⟩

end PeatNode.Node
