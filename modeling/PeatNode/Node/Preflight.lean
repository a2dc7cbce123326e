/-
# The structural limits of bridge documents

`preflight_event_document` of `src/node.rs`: a traversal of the document with an explicit stack that
counts objects, entries, scalar bytes and an upper bound of the JSON text, and stops at the first
limit that is passed.  The counters saturate in the source, far above the limits.

`Usage` is what a part of a document adds to the four counters (`preflightObject_spec`).
-/

import PeatNode.Bridge.ChangePath
import PeatNode.Node.Document

namespace PeatNode.Node

open DocObject

open Bridge (maxBridgeEventJsonBytes)

def maxEventDocumentDepth : ℕ := 64
def maxEventDocumentObjects : ℕ := 4096
def maxEventContainerEntries : ℕ := 4096
def maxEventTotalEntries : ℕ := 65536
def maxEventScalarBytes : ℕ := 2 * 1048576
def maxEventOutputProxyBytes : ℕ := 6 * maxBridgeEventJsonBytes

inductive NodeChangeRejectKind
  | invalidKey
  | identityTooLarge
  | storeRead
  | encodedTooLarge
  | structuralLimit
  | decrypt
  | conversion
  | eventTooLarge
deriving DecidableEq

/-! ### What a document uses -/

/-- `object_count`, `total_entries`, `scalar_bytes` and `output_proxy`. -/
@[ext]
structure Usage where
  objects : ℕ
  entries : ℕ
  bytes : ℕ
  proxy : ℕ
deriving DecidableEq

namespace Usage

instance : Add Usage := ⟨fun u v =>
  ⟨u.objects + v.objects, u.entries + v.entries, u.bytes + v.bytes, u.proxy + v.proxy⟩⟩

instance : Zero Usage := ⟨⟨0, 0, 0, 0⟩⟩

@[simp] theorem objects_add (u v : Usage) : (u + v).objects = u.objects + v.objects := rfl
@[simp] theorem entries_add (u v : Usage) : (u + v).entries = u.entries + v.entries := rfl
@[simp] theorem bytes_add (u v : Usage) : (u + v).bytes = u.bytes + v.bytes := rfl
@[simp] theorem proxy_add (u v : Usage) : (u + v).proxy = u.proxy + v.proxy := rfl
@[simp] theorem objects_zero : (0 : Usage).objects = 0 := rfl
@[simp] theorem entries_zero : (0 : Usage).entries = 0 := rfl
@[simp] theorem bytes_zero : (0 : Usage).bytes = 0 := rfl
@[simp] theorem proxy_zero : (0 : Usage).proxy = 0 := rfl

def object : Usage := ⟨1, 0, 0, 0⟩

/-- Its key or comma adds `proxy`. -/
def entry (proxy : ℕ) : Usage := ⟨0, 1, 0, proxy⟩

def text (length : ℕ) : Usage := ⟨0, 0, length, length * 6⟩

def Within (u : Usage) : Prop :=
  u.objects ≤ maxEventDocumentObjects ∧ u.entries ≤ maxEventTotalEntries ∧
    u.bytes ≤ maxEventScalarBytes ∧ u.proxy ≤ maxEventOutputProxyBytes
deriving Decidable

end Usage

/-- Its bytes and share of the output. -/
def ScalarValue.usage : ScalarValue → Usage
  | .str value => ⟨0, 0, value.utf8ByteSize, value.utf8ByteSize * 6 + 2⟩
  | .bytes value => ⟨0, 0, value.length, 4⟩
  | .unknown value => ⟨0, 0, value.length, 4⟩
  | .int _ | .uint _ | .f64 _ | .counter _ | .timestamp _ => ⟨0, 0, 0, 32⟩
  | .boolean _ => ⟨0, 0, 0, 5⟩
  | .null => ⟨0, 0, 0, 4⟩

/-- The entries, with what keys or commas add. -/
def DocObject.slots : DocObject → List (ℕ × DocValue)
  | .map entries | .table entries => entries.map fun e => (e.1.utf8ByteSize * 6 + 4, e.2)
  | .list items => items.map fun value => (1, value)
  | .text _ _ => []

/-! ### The traversal -/

structure Preflight where
  stack : List (DocObject × ℕ)
  used : Usage

namespace Preflight

def preflightValue (st : Preflight) (value : DocValue) (depth : ℕ) :
    Except NodeChangeRejectKind Preflight :=
  match value with
  | .object o =>
    if maxEventDocumentObjects < st.used.objects + 1 ∨ maxEventDocumentDepth ≤ depth then
      .error .structuralLimit
    else .ok ⟨(o, depth + 1) :: st.stack, st.used + .object⟩
  | .scalar s => .ok { st with used := st.used + s.usage }

def enforcePreflightCounts (st : Preflight) (containerEntries : ℕ) :
    Except NodeChangeRejectKind Preflight :=
  if maxEventContainerEntries < containerEntries ∨ ¬ st.used.Within then .error .structuralLimit
  else .ok st

/-- The loop over `map_range` or `list_range`. -/
def preflightEntries (depth : ℕ) :
    Preflight → ℕ → List (ℕ × DocValue) → Except NodeChangeRejectKind Preflight
  | st, _, [] => .ok st
  | st, n, (proxy, value) :: slots =>
    match { st with used := st.used + Usage.entry proxy }.preflightValue value depth with
    | .error e => .error e
    | .ok st =>
      match st.enforcePreflightCounts (n + 1) with
      | .error e => .error e
      | .ok st => preflightEntries depth st (n + 1) slots

def preflightObject (st : Preflight) (depth : ℕ) : DocObject → Except NodeChangeRejectKind Preflight
  | .text _ length =>
    { st with used := st.used + Usage.text length }.enforcePreflightCounts 0
  | o => preflightEntries depth st 0 o.slots

end Preflight

/-! ### The traversal ends -/

mutual

/-- What a value adds, with everything below it. -/
def DocValue.usage : DocValue → Usage
  | .scalar s => s.usage
  | .object o => .object + o.inner

/-- What an object adds, beyond being one. -/
def DocObject.inner : DocObject → Usage
  | .map entries | .table entries => entriesUsage entries
  | .list items => itemsUsage items
  | .text _ length => .text length

def entriesUsage : List (String × DocValue) → Usage
  | [] => 0
  | (key, value) :: entries =>
    .entry (key.utf8ByteSize * 6 + 4) + value.usage + entriesUsage entries

def itemsUsage : List DocValue → Usage
  | [] => 0
  | value :: items => .entry 1 + value.usage + itemsUsage items

end

def slotsUsage : List (ℕ × DocValue) → Usage
  | [] => 0
  | (proxy, value) :: slots => .entry proxy + value.usage + slotsUsage slots

theorem entriesUsage_eq (entries : List (String × DocValue)) : entriesUsage entries =
      slotsUsage (entries.map fun e => (e.1.utf8ByteSize * 6 + 4, e.2)) := by
  induction entries with
  | nil => simp [entriesUsage, slotsUsage]
  | cons entry entries ih =>
    obtain ⟨key, value⟩ := entry
    simp [entriesUsage, slotsUsage, ih]

theorem itemsUsage_eq (items : List DocValue) :
    itemsUsage items = slotsUsage (items.map fun value => (1, value)) := by
  induction items with
  | nil => simp [itemsUsage, slotsUsage]
  | cons value items ih => simp [itemsUsage, slotsUsage, ih]

namespace Preflight

/-- What the objects on the stack will add. -/
def pending (stack : List (DocObject × ℕ)) : Usage := (stack.map fun o => o.1.inner).foldr (· + ·) 0

@[simp] theorem pending_nil : pending [] = 0 := rfl

@[simp] theorem pending_cons (o : DocObject × ℕ) (stack : List (DocObject × ℕ)) :
    pending (o :: stack) = o.1.inner + pending stack := rfl

/-- The counters at the end of the traversal. -/
def total (st : Preflight) : Usage := st.used + pending st.stack

variable {st st' : Preflight}

theorem eq_of_enforce (h : st.enforcePreflightCounts n = .ok st') :
    st' = st ∧ n ≤ maxEventContainerEntries ∧ st.used.Within := by
  unfold enforcePreflightCounts at h
  split_ifs at h with hno
  rw [not_or, not_not, Nat.not_lt] at hno
  exact ⟨(Except.ok.inj h).symm, hno⟩

variable {value : DocValue} {depth : ℕ}

/-- A value moves what it uses from the document to the counters and the stack. -/
theorem total_preflightValue (h : st.preflightValue value depth = .ok st') :
    st'.total = st.total + value.usage := by
  unfold preflightValue at h
  split at h
  · split_ifs at h
    cases h
    ext <;> simp [total, DocValue.usage] <;> omega
  · cases h
    ext <;> simp [total, DocValue.usage] <;> omega

/-- Every object that is counted is put on the stack. -/
theorem length_preflightValue (h : st.preflightValue value depth = .ok st') :
    st'.stack.length + st.used.objects = st.stack.length + st'.used.objects := by
  unfold preflightValue at h
  split at h
  · split_ifs at h
    cases h
    simp [Usage.object]
    omega
  · rename_i s
    cases h
    cases s <;> rfl

theorem preflightEntries_cons {slots : List (ℕ × DocValue)}
    (h : preflightEntries depth st n ((proxy, value) :: slots) = .ok st') :
    ∃ st₁, { st with used := st.used + Usage.entry proxy }.preflightValue value depth = .ok st₁ ∧
      n + 1 ≤ maxEventContainerEntries ∧ st₁.used.Within ∧
      preflightEntries depth st₁ (n + 1) slots = .ok st' := by
  rw [preflightEntries] at h
  split at h
  · simp at h
  · rename_i st₁ hvalue
    split at h
    · simp at h
    · rename_i st₂ hcounts
      obtain ⟨rfl, hn, hwithin⟩ := eq_of_enforce hcounts
      exact ⟨_, hvalue, hn, hwithin, h⟩

theorem preflightEntries_spec {slots : List (ℕ × DocValue)}
    (h : preflightEntries depth st n slots = .ok st') :
    st'.total = st.total + slotsUsage slots ∧
      st'.stack.length + st.used.objects = st.stack.length + st'.used.objects := by
  induction slots generalizing st n with
  | nil =>
    cases h
    exact ⟨by ext <;> simp [slotsUsage], rfl⟩
  | cons slot slots ih =>
    obtain ⟨proxy, value⟩ := slot
    obtain ⟨st₁, hvalue, -, -, hrest⟩ := preflightEntries_cons h
    obtain ⟨htotal, hlength⟩ := ih hrest
    have htotal₁ := total_preflightValue hvalue
    have hlength₁ := length_preflightValue hvalue
    constructor
    · rw [htotal, htotal₁]
      ext <;> simp [total, slotsUsage] <;> omega
    · simp [Usage.entry] at hlength₁
      omega

/-- **What is left to do stays the same**: an object moves what it uses to the
counters and to its children on the stack. -/
theorem preflightObject_spec (h : st.preflightObject depth o = .ok st') :
    st'.total = st.total + o.inner ∧
      st'.stack.length + st.used.objects = st.stack.length + st'.used.objects := by
  cases o with
  | map entries | table entries =>
    rw [DocObject.inner, entriesUsage_eq]
    exact preflightEntries_spec h
  | list items =>
    rw [DocObject.inner, itemsUsage_eq]
    exact preflightEntries_spec h
  | text value length =>
    obtain ⟨rfl, -⟩ := eq_of_enforce h
    constructor
    · ext <;> simp [total, DocObject.inner] <;> omega
    · rfl

def loop (st : Preflight) : Except NodeChangeRejectKind Unit :=
  match _hst : st.stack with
  | [] => .ok ()
  | (o, depth) :: rest =>
    if maxEventDocumentDepth < depth then .error .structuralLimit
    else
      match _hnext : { st with stack := rest }.preflightObject depth o with
      | .error e => .error e
      | .ok st' => loop st'
termination_by (pending st.stack).objects + st.stack.length
decreasing_by
  obtain ⟨htotal, hlength⟩ := preflightObject_spec _hnext
  have hobjects := congrArg Usage.objects htotal
  simp only [total, Usage.objects_add] at hobjects
  rw [_hst]
  simp only [pending_cons, Usage.objects_add, List.length_cons] at hlength ⊢
  omega

theorem loop_nil (h : st.stack = []) : st.loop = .ok () := by
  rw [loop]
  split
  · rfl
  · rename_i heq
    rw [h] at heq
    simp at heq

theorem loop_cons (h : st.stack = (o, depth) :: rest) (hdepth : depth ≤ maxEventDocumentDepth) :
    st.loop = ({ st with stack := rest }.preflightObject depth o).bind loop := by
  rw [loop]
  split
  · rename_i heq
    rw [h] at heq
    simp at heq
  · rename_i heq
    rw [h] at heq
    obtain ⟨hhead, rfl⟩ := List.cons.inj heq
    cases hhead
    rw [if_neg (Nat.not_lt.2 hdepth)]
    split <;> rename_i hnext <;> rw [hnext] <;> rfl

end Preflight

def preflightEventDocument (doc : Document) : Except NodeChangeRejectKind Unit :=
  Preflight.loop ⟨[(.map doc, 0)], ⟨1, 0, 0, 2⟩⟩

end PeatNode.Node
