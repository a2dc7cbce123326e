/-
# The limits of bridge documents, whatever the order

`Traversal` is the loop of `preflight_event_document` with its saturating `usize` counters, which
takes any pending object and reads its entries in any order; the stack is one way of doing so.

What is pending and what is counted add up to the same totals after every object
(`preflightEntries_spec`), and within the limits nothing saturates
(`Saturating.preflightEntries_eq`). So every traversal ends with the same answer
(`traversal_iff`).
-/

import PeatNode.Node.PreflightLimits

namespace PeatNode.Node

open List Preflight DocValue DocObject

/-! ### The objects of a document -/

mutual

/-- The objects below, with their depths. -/
def DocValue.nested (depth : ℕ) : DocValue → List (DocObject × ℕ)
  | .scalar _ => []
  | .object o => (o, depth + 1) :: o.nested (depth + 1)

def DocObject.nested (depth : ℕ) : DocObject → List (DocObject × ℕ)
  | .map entries | .table entries => entriesNested depth entries
  | .list items => itemsNested depth items
  | .text _ _ => []

def entriesNested (depth : ℕ) : List (String × DocValue) → List (DocObject × ℕ)
  | [] => []
  | (_, value) :: entries => value.nested depth ++ entriesNested depth entries

def itemsNested (depth : ℕ) : List DocValue → List (DocObject × ℕ)
  | [] => []
  | value :: items => value.nested depth ++ itemsNested depth items

end

/-- All objects with their depths, the root at 0. -/
def objects (doc : Document) : List (DocObject × ℕ) :=
  (.map doc, 0) :: (DocObject.map doc).nested 0

/-- The entries, with their keys if they have one. -/
def DocObject.members : DocObject → List (Option String × DocValue)
  | .map entries | .table entries => entries.map fun e => (some e.1, e.2)
  | .list items => items.map fun value => (none, value)
  | .text _ _ => []

/-- What a key or a comma adds. -/
def entryProxy : Option String → ℕ
  | some key => key.utf8ByteSize * 6 + 4
  | none => 1

def DocObject.width (o : DocObject) : ℕ := o.members.length

def DocObject.units : DocObject → ℕ
  | .text _ length => length
  | .map _ | .table _ | .list _ => 0

/-- What a value adds, without what is below. -/
def DocValue.own : DocValue → Usage
  | .scalar s => s.usage
  | .object _ => 0

/-- Its scalar and text lengths, without what is below. -/
def DocObject.ownBytes (o : DocObject) : ℕ :=
  o.units + (o.members.map fun m => m.2.own.bytes).sum

/-- Its share of the output, without what is below. -/
def DocObject.ownProxy (o : DocObject) : ℕ :=
  o.units * 6 + (o.members.map fun m => entryProxy m.1 + m.2.own.proxy).sum

/-- **The limits of a bridge document**, one by one. -/
structure Limits (doc : Document) : Prop where
  depth : ∀ o ∈ objects doc, o.2 ≤ maxEventDocumentDepth
  objects : (objects doc).length ≤ maxEventDocumentObjects
  width : ∀ o ∈ Node.objects doc, o.1.width ≤ maxEventContainerEntries
  entries : ((Node.objects doc).map fun o => o.1.width).sum ≤ maxEventTotalEntries
  bytes : ((Node.objects doc).map fun o => o.1.ownBytes).sum ≤ maxEventScalarBytes
  proxy : 2 + ((Node.objects doc).map fun o => o.1.ownProxy).sum ≤ maxEventOutputProxyBytes

/-- The counters of a whole document. -/
def totals (doc : Document) : Usage :=
  ⟨(objects doc).length, ((objects doc).map fun o => o.1.width).sum,
    ((objects doc).map fun o => o.1.ownBytes).sum,
    2 + ((objects doc).map fun o => o.1.ownProxy).sum⟩

theorem DocObject.slots_eq (o : DocObject) :
    o.slots = o.members.map fun m => (entryProxy m.1, m.2) := by
  cases o <;> simp [slots, members, entryProxy]

theorem DocObject.nested_eq (o : DocObject) (depth : ℕ) :
    o.nested depth = o.members.flatMap fun m => m.2.nested depth := by
  have hentries : ∀ entries : List (String × DocValue),
      entriesNested depth entries = entries.flatMap fun e => e.2.nested depth := by
    intro entries
    induction entries with
    | nil => rfl
    | cons entry entries ih => rw [entriesNested, ih, flatMap_cons]
  have hitems : ∀ items : List DocValue,
      itemsNested depth items = items.flatMap fun v => v.nested depth := by
    intro items
    induction items with
    | nil => rfl
    | cons value items ih => rw [itemsNested, ih, flatMap_cons]
  cases o <;> simp [nested, members, hentries, hitems, flatMap_map]

/-- A child is smaller than its object. -/
theorem DocObject.sizeOf_lt {o c : DocObject} (h : (key, object c) ∈ o.members) :
    sizeOf c < sizeOf o := by
  have hentry : ∀ entries : List (String × DocValue),
      (key, object c) ∈ entries.map (fun e => (some e.1, e.2)) →
        sizeOf c < sizeOf entries := by
    intro entries hmem
    obtain ⟨⟨k, v⟩, he, heq⟩ := mem_map.1 hmem
    obtain ⟨-, rfl⟩ := Prod.mk.inj heq
    have hlt := sizeOf_lt_of_mem he
    simp only [Prod.mk.sizeOf_spec, object.sizeOf_spec] at hlt
    omega
  cases o with
  | map entries =>
    have hlt := hentry entries h
    simp only [map.sizeOf_spec]
    omega
  | table entries =>
    have hlt := hentry entries h
    simp only [table.sizeOf_spec]
    omega
  | list items =>
    obtain ⟨v, hv, heq⟩ := mem_map.1 h
    obtain ⟨-, rfl⟩ := Prod.mk.inj heq
    have hlt := sizeOf_lt_of_mem hv
    simp only [object.sizeOf_spec, list.sizeOf_spec] at hlt ⊢
    omega
  | text value length => exact absurd h not_mem_nil

/-- **Induction over a document**: an object may use what holds of its children. -/
theorem DocObject.induct {P : DocObject → Prop}
    (h : ∀ o, (∀ key c, (key, object c) ∈ o.members → P c) → P o) (o : DocObject) : P o :=
  h o fun _ c _hc => induct h c
termination_by sizeOf o
decreasing_by exact DocObject.sizeOf_lt _hc

/-! ### Totals over the objects -/

instance : AddCommMonoid Usage where
  add_assoc _ _ _ := by ext <;> simp [Nat.add_assoc]
  zero_add _ := by ext <;> simp
  add_zero _ := by ext <;> simp
  add_comm _ _ := by ext <;> simp [Nat.add_comm]
  nsmul := nsmulRec

/-- What an object adds by itself. -/
def DocObject.own (o : DocObject) : Usage := ⟨1, o.width, o.ownBytes, o.ownProxy⟩

theorem DocObject.own_eq (o : DocObject) : o.own = .object + .text o.units +
      (o.members.map fun m => Usage.entry (entryProxy m.1) + m.2.own).sum := by
  have hsum : ∀ ms : List (Option String × DocValue),
      (ms.map fun m => Usage.entry (entryProxy m.1) + m.2.own).sum =
        ⟨0, ms.length, (ms.map fun m => m.2.own.bytes).sum,
          (ms.map fun m => entryProxy m.1 + m.2.own.proxy).sum⟩ := by
    intro ms
    induction ms with
    | nil => rfl
    | cons m ms ih =>
      have hnone : m.2.own.objects = 0 ∧ m.2.own.entries = 0 := by
        rcases m with ⟨key, s | o⟩
        · cases s <;> exact ⟨rfl, rfl⟩
        · exact ⟨rfl, rfl⟩
      rw [map_cons, sum_cons, ih]
      ext <;> simp [Usage.entry, hnone.1, hnone.2, Nat.add_comm]
  rw [hsum]
  ext <;> simp [own, width, ownBytes, ownProxy, Usage.object, Usage.text]

theorem slotsUsage_eq_sum (slots : List (ℕ × DocValue)) :
    slotsUsage slots = (slots.map fun s => Usage.entry s.1 + s.2.usage).sum := by
  induction slots with
  | nil => rfl
  | cons slot slots ih => rw [slotsUsage, ih, map_cons, sum_cons]

theorem Usage.text_zero : Usage.text 0 = 0 := rfl

theorem DocObject.inner_eq (o : DocObject) : o.inner = .text o.units + slotsUsage o.slots := by
  cases o with
  | map entries | table entries =>
    rw [DocObject.inner, units, slots, Usage.text_zero, zero_add, entriesUsage_eq]
  | list items =>
    rw [DocObject.inner, units, slots, Usage.text_zero, zero_add, itemsUsage_eq]
  | text value length => rfl

/-- **The objects of a document hold everything it adds.** -/
theorem DocObject.sum_own (o : DocObject) (depth : ℕ) :
    (((o, depth) :: o.nested depth).map fun p => p.1.own).sum = .object + o.inner := by
  induction o using induct generalizing depth with
  | h o ih =>
    have hmembers : ∀ ms : List (Option String × DocValue), (∀ m ∈ ms, m ∈ o.members) →
        (ms.map fun m => Usage.entry (entryProxy m.1) + m.2.own).sum +
            ((ms.flatMap fun m => m.2.nested depth).map fun p => p.1.own).sum =
          slotsUsage (ms.map fun m => (entryProxy m.1, m.2)) := by
      intro ms hms
      induction ms with
      | nil => rfl
      | cons m ms ihms =>
        have hrest := ihms fun m' hm' => hms m' (mem_cons_of_mem m hm')
        have hvalue : m.2.own + ((m.2.nested depth).map fun p => p.1.own).sum = m.2.usage := by
          rcases m with ⟨key, s | c⟩
          · exact add_zero _
          · rw [DocValue.own, zero_add, DocValue.nested, DocValue.usage]
            exact ih key c (hms _ mem_cons_self) (depth + 1)
        rw [map_cons, sum_cons, flatMap_cons, map_append, sum_append,
          map_cons, slotsUsage, ← hrest, ← hvalue]
        ac_rfl
    rw [map_cons, sum_cons, o.own_eq, o.nested_eq, o.inner_eq, o.slots_eq,
      ← hmembers _ fun _ hm => hm]
    ac_rfl

theorem totals_eq (doc : Document) : totals doc = ⟨1, 0, 0, 2⟩ + entriesUsage doc := by
  have hsum : ∀ os : List (DocObject × ℕ), (os.map fun p => p.1.own).sum =
      ⟨os.length, (os.map fun p => p.1.width).sum, (os.map fun p => p.1.ownBytes).sum,
        (os.map fun p => p.1.ownProxy).sum⟩ := by
    intro os
    induction os with
    | nil => rfl
    | cons p os ih =>
      rw [map_cons, sum_cons, ih]
      ext <;> simp [DocObject.own, Nat.add_comm]
  have hall := (hsum (objects doc)).symm.trans ((DocObject.map doc).sum_own 0)
  rw [DocObject.inner] at hall
  have hobjects := congrArg Usage.objects hall
  have hentries := congrArg Usage.entries hall
  have hbytes := congrArg Usage.bytes hall
  have hproxy := congrArg Usage.proxy hall
  ext <;> simp [totals, Usage.object] at hobjects hentries hbytes hproxy ⊢ <;> omega

/-! ### The shape of the objects -/

theorem DocObject.fits_iff_nested (o : DocObject) (depth : ℕ) :
    o.Fits depth ↔ o.width ≤ maxEventContainerEntries ∧
      ∀ c ∈ o.nested depth, c.2 ≤ maxEventDocumentDepth ∧ c.1.width ≤ maxEventContainerEntries := by
  induction o using induct generalizing depth with
  | h o ih =>
    have hvalue : ∀ m ∈ o.members, m.2.Fits depth ↔ ∀ c ∈ m.2.nested depth,
        c.2 ≤ maxEventDocumentDepth ∧ c.1.width ≤ maxEventContainerEntries := by
      rintro ⟨key, s | c⟩ hm
      · simp [DocValue.Fits, DocValue.nested]
      · rw [DocValue.Fits, DocValue.nested, forall_mem_cons, ih key c hm (depth + 1)]
        simp only [Nat.succ_le_iff, and_assoc]
    rw [fits_iff, o.slots_eq, length_map, forall_mem_map, o.nested_eq]
    refine and_congr_right fun _ => ?_
    constructor
    · intro hall c hc
      obtain ⟨m, hm, hcm⟩ := mem_flatMap.1 hc
      exact (hvalue m hm).1 (hall m hm) c hcm
    · intro hall m hm
      exact (hvalue m hm).2 fun c hc => hall c (mem_flatMap.2 ⟨m, hm, hc⟩)

theorem limits_iff : Limits doc ↔ (totals doc).Within ∧ (map doc).Fits 0 := by
  rw [fits_iff_nested]
  constructor
  · intro h
    refine ⟨⟨h.objects, h.entries, h.bytes, h.proxy⟩, h.width _ mem_cons_self, ?_⟩
    intro c hc
    exact ⟨h.depth c (mem_cons_of_mem _ hc), h.width c (mem_cons_of_mem _ hc)⟩
  · rintro ⟨⟨hobjects, hentries, hbytes, hproxy⟩, hwidth, hnested⟩
    refine ⟨?_, hobjects, ?_, hentries, hbytes, hproxy⟩
    · exact forall_mem_cons.2 ⟨Nat.zero_le _, fun c hc => (hnested c hc).1⟩
    · exact forall_mem_cons.2 ⟨hwidth, fun c hc => (hnested c hc).2⟩

/-! ### Saturating counters -/

def usizeMax : ℕ := 2 ^ 64 - 1

def saturatingAdd (a b : ℕ) : ℕ := min (a + b) usizeMax

def saturatingMul (a b : ℕ) : ℕ := min (a * b) usizeMax

namespace Saturating

/-- The pair of `preflight_value`; quotes do not saturate. -/
def scalarCost : ScalarValue → ℕ × ℕ
  | .str value =>
    (value.utf8ByteSize, (saturatingMul value.utf8ByteSize 6 + 2) % (usizeMax + 1))
  | .bytes value => (value.length, 4)
  | .unknown value => (value.length, 4)
  | .int _ | .uint _ | .f64 _ | .counter _ | .timestamp _ => (0, 32)
  | .boolean _ => (0, 5)
  | .null => (0, 4)

/-- The output after a key or a comma. -/
def addKey (proxy : ℕ) : Option String → ℕ
  | some key => saturatingAdd (saturatingAdd proxy (saturatingMul key.utf8ByteSize 6)) 4
  | none => saturatingAdd proxy 1

def countEntry (used : Usage) (key : Option String) : Usage :=
  { used with entries := saturatingAdd used.entries 1, proxy := addKey used.proxy key }

def countScalar (used : Usage) (s : ScalarValue) : Usage :=
  { used with
    bytes := saturatingAdd used.bytes (scalarCost s).1
    proxy := saturatingAdd used.proxy (scalarCost s).2 }

def countText (used : Usage) (length : ℕ) : Usage :=
  { used with
    bytes := saturatingAdd used.bytes length
    proxy := saturatingAdd used.proxy (saturatingMul length 6) }

def preflightValue (st : Preflight) (value : DocValue) (depth : ℕ) :
    Except NodeChangeRejectKind Preflight :=
  match value with
  | .object o =>
    let used := { st.used with objects := saturatingAdd st.used.objects 1 }
    if maxEventDocumentObjects < used.objects ∨ maxEventDocumentDepth ≤ depth then
      .error .structuralLimit
    else .ok ⟨(o, depth + 1) :: st.stack, used⟩
  | .scalar s => .ok { st with used := countScalar st.used s }

/-- The loop over `map_range` or `list_range`. -/
def preflightEntries (depth : ℕ) :
    Preflight → ℕ → List (Option String × DocValue) → Except NodeChangeRejectKind Preflight
  | st, _, [] => .ok st
  | st, n, (key, value) :: ms =>
    match preflightValue { st with used := countEntry st.used key } value depth with
    | .error e => .error e
    | .ok st =>
      match st.enforcePreflightCounts (saturatingAdd n 1) with
      | .error e => .error e
      | .ok st => preflightEntries depth st (saturatingAdd n 1) ms

/-- One object, its entries in the order `ms`. -/
def preflightObject (st : Preflight) (depth : ℕ) (ms : List (Option String × DocValue)) :
    DocObject → Except NodeChangeRejectKind Preflight
  | .text _ length =>
    { st with used := countText st.used length }.enforcePreflightCounts 0
  | .map _ | .table _ | .list _ => preflightEntries depth st 0 ms

/-- The same counters, or both too large. -/
def Agree (u v : Usage) : Prop := u = v ∨ ¬ u.Within ∧ ¬ v.Within

variable {st : Preflight} {u v : Usage}

theorem Agree.enforce (h : Agree u v) (stack : List (DocObject × ℕ)) (n : ℕ) :
    enforcePreflightCounts ⟨stack, u⟩ n = enforcePreflightCounts ⟨stack, v⟩ n := by
  rcases h with rfl | ⟨hu, hv⟩
  · rfl
  · unfold enforcePreflightCounts
    rw [if_pos (.inr hu), if_pos (.inr hv)]

/-- One saturating addition to each counter gives the sum, or both are too
large. -/
theorem agree_add (objects entries : ℕ) (hb : b' = saturatingAdd u.bytes b)
    (hp : b ≤ maxEventScalarBytes → p' = saturatingAdd u.proxy p) :
    Agree ⟨objects, entries, b', p'⟩ ⟨objects, entries, u.bytes + b, u.proxy + p⟩ := by
  by_cases hbytes : b ≤ maxEventScalarBytes
  · rw [hb, hp hbytes]
    unfold saturatingAdd
    by_cases hsmall : u.bytes + b ≤ usizeMax ∧ u.proxy + p ≤ usizeMax
    · rw [min_eq_left hsmall.1, min_eq_left hsmall.2]
      exact .inl rfl
    · right
      simp only [Usage.Within, maxEventScalarBytes, maxEventOutputProxyBytes,
        Bridge.maxBridgeEventJsonBytes, usizeMax] at hsmall ⊢
      omega
  · right
    simp only [Usage.Within, hb, saturatingAdd, maxEventScalarBytes, usizeMax] at hbytes ⊢
    omega

theorem addKey_eq (proxy : ℕ) (key : Option String) :
    addKey proxy key = saturatingAdd proxy (entryProxy key) := by
  cases key with
  | none => rfl
  | some key =>
    simp only [addKey, entryProxy, saturatingAdd, saturatingMul, usizeMax]
    omega

theorem scalarCost_bytes (s : ScalarValue) : (scalarCost s).1 = s.usage.bytes := by
  cases s <;> rfl

/-- The quotes overflow only for a string that is too long anyway. -/
theorem scalarCost_proxy (h : s.usage.bytes ≤ maxEventScalarBytes) :
    (scalarCost s).2 = s.usage.proxy := by
  cases s with
  | str value =>
    simp only [ScalarValue.usage, maxEventScalarBytes] at h
    simp only [scalarCost, ScalarValue.usage, saturatingMul, usizeMax]
    omega
  | bytes value | unknown value | int value | uint value | f64 bits | counter value
  | timestamp value | boolean value | null => rfl

theorem saturatingAdd_one (h : n ≤ limit) (hlimit : limit < usizeMax) :
    saturatingAdd n 1 = n + 1 := min_eq_left (by omega)

theorem entry_eq (hwithin : st.used.Within) (key : Option String) (value : DocValue) (depth n : ℕ) :
    (preflightValue { st with used := countEntry st.used key } value depth).bind
        (·.enforcePreflightCounts n) =
      ({ st with used := st.used + Usage.entry (entryProxy key) }.preflightValue value depth).bind
        (·.enforcePreflightCounts n) := by
  have hobjects : saturatingAdd st.used.objects 1 = st.used.objects + 1 :=
    saturatingAdd_one hwithin.1 (by decide)
  have hentries : saturatingAdd st.used.entries 1 = st.used.entries + 1 :=
    saturatingAdd_one hwithin.2.1 (by decide)
  cases value with
  | object o =>
    have hsat : preflightValue { st with used := countEntry st.used key } (.object o) depth =
        if maxEventDocumentObjects < saturatingAdd st.used.objects 1 ∨
            maxEventDocumentDepth ≤ depth then .error .structuralLimit
        else .ok ⟨(o, depth + 1) :: st.stack,
          { countEntry st.used key with objects := saturatingAdd st.used.objects 1 }⟩ := rfl
    have hnat : { st with used := st.used + Usage.entry (entryProxy key) }.preflightValue
        (.object o) depth =
        if maxEventDocumentObjects < st.used.objects + 1 ∨ maxEventDocumentDepth ≤ depth then
          .error .structuralLimit
        else .ok ⟨(o, depth + 1) :: st.stack,
          st.used + Usage.entry (entryProxy key) + .object⟩ := rfl
    rw [hsat, hnat, hobjects]
    split_ifs with hno
    · rfl
    · refine Agree.enforce ?_ _ n
      unfold countEntry
      rw [hentries, addKey_eq]
      refine agree_add (b := 0) _ _ (min_eq_left ?_).symm fun _ => rfl
      exact hwithin.2.2.1.trans (by decide)
  | scalar s =>
    refine Agree.enforce (u := countScalar (countEntry st.used key) s) ?_ _ n
    have hsum : st.used + Usage.entry (entryProxy key) + s.usage =
        ⟨st.used.objects, st.used.entries + 1, st.used.bytes + s.usage.bytes,
          st.used.proxy + (entryProxy key + s.usage.proxy)⟩ := by
      have hnone : s.usage.objects = 0 ∧ s.usage.entries = 0 := by cases s <;> exact ⟨rfl, rfl⟩
      ext <;> simp [Usage.entry, hnone.1, hnone.2, Nat.add_assoc]
    change Agree _ (st.used + Usage.entry (entryProxy key) + s.usage)
    rw [hsum, countScalar, countEntry, hentries, addKey_eq, scalarCost_bytes]
    refine agree_add _ _ rfl fun hbytes => ?_
    rw [scalarCost_proxy hbytes]
    simp only [saturatingAdd, usizeMax]
    omega

theorem preflightEntries_cons (depth n : ℕ) (key : Option String) (value : DocValue)
    (ms : List (Option String × DocValue)) :
    preflightEntries depth st n ((key, value) :: ms) =
      ((preflightValue { st with used := countEntry st.used key } value depth).bind
        (·.enforcePreflightCounts (saturatingAdd n 1))).bind
          fun st => preflightEntries depth st (saturatingAdd n 1) ms := by
  rw [preflightEntries]
  cases preflightValue { st with used := countEntry st.used key } value depth with
  | error e => rfl
  | ok st₁ =>
    simp only [Except.bind]
    cases st₁.enforcePreflightCounts (saturatingAdd n 1) <;> rfl

theorem preflightEntries_cons_nat (depth n proxy : ℕ) (value : DocValue)
    (slots : List (ℕ × DocValue)) :
    Preflight.preflightEntries depth st n ((proxy, value) :: slots) =
      (({ st with used := st.used + Usage.entry proxy }.preflightValue value depth).bind
        (·.enforcePreflightCounts (n + 1))).bind
          fun st => Preflight.preflightEntries depth st (n + 1) slots := by
  rw [Preflight.preflightEntries]
  cases { st with used := st.used + Usage.entry proxy }.preflightValue value depth with
  | error e => rfl
  | ok st₁ =>
    simp only [Except.bind]
    cases st₁.enforcePreflightCounts (n + 1) <;> rfl

theorem within_of_bind {r : Except NodeChangeRejectKind Preflight}
    (h : r.bind (·.enforcePreflightCounts n) = .ok st') :
    n ≤ maxEventContainerEntries ∧ st'.used.Within := by
  cases r with
  | error e => cases h
  | ok st₁ =>
    obtain ⟨rfl, hn, hwithin⟩ := eq_of_enforce h
    exact ⟨hn, hwithin⟩

/-- **No counter saturates before a limit is passed.** -/
theorem preflightEntries_eq (hwithin : st.used.Within) (hn : n ≤ maxEventContainerEntries)
    (depth : ℕ) (ms : List (Option String × DocValue)) :
    preflightEntries depth st n ms =
      Preflight.preflightEntries depth st n (ms.map fun m => (entryProxy m.1, m.2)) := by
  induction ms generalizing st n with
  | nil => rfl
  | cons m ms ih =>
    obtain ⟨key, value⟩ := m
    rw [preflightEntries_cons, map_cons, preflightEntries_cons_nat,
      saturatingAdd_one hn (by decide), entry_eq hwithin]
    cases hentry : ({ st with used := st.used + Usage.entry (entryProxy key) }.preflightValue
        value depth).bind (·.enforcePreflightCounts (n + 1)) with
    | error e => rfl
    | ok st₁ =>
      obtain ⟨hn₁, hwithin₁⟩ := within_of_bind hentry
      exact ih hwithin₁ hn₁

/-- The visit of an object whose entries come in some order. -/
theorem preflightObject_eq (hwithin : st.used.Within) (depth : ℕ) :
    preflightObject st depth ms o = match o with
      | .text _ length =>
        { st with used := st.used + Usage.text length }.enforcePreflightCounts 0
      | .map _ | .table _ | .list _ =>
        Preflight.preflightEntries depth st 0 (ms.map fun m => (entryProxy m.1, m.2)) := by
  cases o with
  | map entries | table entries | list items =>
    exact preflightEntries_eq hwithin (Nat.zero_le _) depth ms
  | text value length =>
    refine Agree.enforce (u := countText st.used length) ?_ _ 0
    refine agree_add (b := length) (p := length * 6) _ _ rfl fun _ => ?_
    simp only [saturatingAdd, saturatingMul, usizeMax]
    omega

/-- In the order of the document, the visit is that of `Preflight`. -/
theorem preflightObject_members (st : Preflight) (hwithin : st.used.Within) (depth : ℕ)
    (o : DocObject) : preflightObject st depth o.members o = st.preflightObject depth o := by
  rw [preflightObject_eq hwithin]
  cases o <;> simp [Preflight.preflightObject, DocObject.slots_eq]

end Saturating

/-! ### Any order -/

/-- **The traversal in any order**: each turn takes a pending object and reads its entries in any
order, up to the counters or the error. -/
inductive Traversal : Preflight → Except NodeChangeRejectKind Usage → Prop
  | done (h : st.stack = []) : Traversal st (.ok st.used)
  | deep {st : Preflight} {o : DocObject} {depth : ℕ} (h : (o, depth) ∈ st.stack)
      (hdeep : maxEventDocumentDepth < depth) : Traversal st (.error .structuralLimit)
  | rejected (h : st.stack.Perm ((o, depth) :: rest)) (hdepth : depth ≤ maxEventDocumentDepth)
      (hms : ms.Perm o.members)
      (hvisit : Saturating.preflightObject { st with stack := rest } depth ms o = .error e) :
      Traversal st (.error e)
  | next {st st' : Preflight} {o : DocObject} {depth : ℕ} {rest : List (DocObject × ℕ)}
      {ms : List (Option String × DocValue)} {r : Except NodeChangeRejectKind Usage}
      (h : st.stack.Perm ((o, depth) :: rest)) (hdepth : depth ≤ maxEventDocumentDepth)
      (hms : ms.Perm o.members)
      (hvisit : Saturating.preflightObject { st with stack := rest } depth ms o = .ok st')
      (ht : Traversal st' r) : Traversal st r

/-- Where `preflight_event_document` starts. -/
def Preflight.start (doc : Document) : Preflight := ⟨[(.map doc, 0)], ⟨1, 0, 0, 2⟩⟩

namespace Preflight

variable {st st' : Preflight}

theorem Leaves.of_perm {slots slots' : List (ℕ × DocValue)} (h : Leaves depth n st slots st')
    (hperm : slots.Perm slots') : Leaves depth n st slots' st' where
  within := h.within
  width := hperm.length_eq ▸ h.width
  child s hs := h.child s (hperm.mem_iff.2 hs)
  old := h.old
  new o ho := by
    rcases h.new o ho with hold | ⟨hdepth, heq, s, hs, hso⟩
    · exact .inl hold
    · exact .inr ⟨hdepth, heq, s, hperm.mem_iff.1 hs, hso⟩

variable {e : NodeChangeRejectKind}

theorem error_of_enforce (h : st.enforcePreflightCounts n = .error e) : e = .structuralLimit := by
  unfold enforcePreflightCounts at h
  split_ifs at h
  exact (Except.error.inj h).symm

theorem error_of_preflightEntries {slots : List (ℕ × DocValue)}
    (h : preflightEntries depth st n slots = .error e) : e = .structuralLimit := by
  induction slots generalizing st n with
  | nil => cases h
  | cons slot slots ih =>
    obtain ⟨proxy, value⟩ := slot
    rw [preflightEntries] at h
    split at h
    · rename_i hvalue
      unfold preflightValue at hvalue
      cases h
      split at hvalue
      · split_ifs at hvalue
        exact (Except.error.inj hvalue).symm
      · cases hvalue
    · split at h
      · rename_i hcounts
        exact Except.error.inj h ▸ error_of_enforce hcounts
      · exact ih h

/-- What is left to count is allowed. -/
def Allowed (st : Preflight) : Prop := st.total.Within ∧ ∀ o ∈ st.stack, o.1.Fits o.2

variable {o : DocObject}

theorem slots_perm {ms : List (Option String × DocValue)}
    (hms : ms.Perm o.members) : (ms.map fun m => (entryProxy m.1, m.2)).Perm o.slots := by
  rw [o.slots_eq]
  exact hms.map _

theorem slotsUsage_perm {slots slots' : List (ℕ × DocValue)} (h : slots.Perm slots') :
    slotsUsage slots = slotsUsage slots' := by
  rw [slotsUsage_eq_sum, slotsUsage_eq_sum]
  exact (h.map _).sum_eq

variable {depth : ℕ}

theorem visit_ok (h : Saturating.preflightObject st depth ms o = .ok st')
    (hwithin : st.used.Within) (hms : ms.Perm o.members) :
    st'.total = st.total + o.inner ∧ Leaves depth 0 st o.slots st' := by
  rw [Saturating.preflightObject_eq hwithin] at h
  cases o with
  | text value length =>
    have hsame : st.preflightObject depth (.text value length) = .ok st' := h
    exact ⟨(preflightObject_spec hsame).1, leaves_preflightObject hwithin hsame⟩
  | _ =>
    refine ⟨?_, (leaves_preflightEntries hwithin h).of_perm (slots_perm hms)⟩
    rw [(preflightEntries_spec h).1, slotsUsage_perm (slots_perm hms), inner_eq,
      units, Usage.text_zero, zero_add]

/-- A visit that fails shows that something is not allowed. -/
theorem visit_error (h : Saturating.preflightObject st depth ms o = .error e)
    (hwithin : st.used.Within) (hms : ms.Perm o.members) :
    e = .structuralLimit ∧ ¬ ((st.total + o.inner).Within ∧ o.Fits depth) := by
  rw [Saturating.preflightObject_eq hwithin] at h
  cases o with
  | text value length =>
    have hsame : st.preflightObject depth (.text value length) = .error e := h
    refine ⟨error_of_enforce h, ?_⟩
    rintro ⟨htotal, hfits⟩
    obtain ⟨st', hok⟩ := preflightObject_of_within htotal hfits
    simp [hok] at hsame
  | _ =>
    refine ⟨error_of_preflightEntries h, ?_⟩
    rintro ⟨htotal, hfits⟩
    have hperm := slots_perm hms
    obtain ⟨hwidth, hslots⟩ := fits_iff.1 hfits
    rw [DocObject.inner_eq, units, Usage.text_zero, zero_add,
      ← slotsUsage_perm hperm] at htotal
    obtain ⟨st', hok⟩ := preflightEntries_of_within (n := 0) htotal
      (by rw [hperm.length_eq]; omega) fun s hs => hslots s (hperm.mem_iff.1 hs)
    simp [hok] at h

theorem total_of_perm (h : st.stack.Perm ((o, depth) :: rest)) :
    st.total = { st with stack := rest }.total + o.inner := by
  have hpending : pending st.stack = pending ((o, depth) :: rest) := (h.map _).sum_eq
  rw [total, hpending, pending_cons, total]
  ac_rfl

theorem allowed_of_perm (h : st.stack.Perm ((o, depth) :: rest)) :
    st.Allowed ↔ ({ st with stack := rest }.total + o.inner).Within ∧
      (∀ o' ∈ rest, o'.1.Fits o'.2) ∧ o.Fits depth := by
  unfold Allowed
  rw [total_of_perm h, and_comm (a := ∀ o' ∈ rest, o'.1.Fits o'.2),
    ← forall_mem_cons (p := fun o' => o'.1.Fits o'.2) (a := (o, depth))]
  simp only [h.mem_iff]

end Preflight

/-- **Every order gives the same answer and the same counters.** -/
theorem Traversal.spec (h : Traversal st r) (hwithin : st.used.Within)
    (hdepth : ∀ o ∈ st.stack, o.2 ≤ maxEventDocumentDepth) :
    r = .ok st.total ∧ st.Allowed ∨ r = .error .structuralLimit ∧ ¬ st.Allowed := by
  induction h with
  | @done st hstack =>
    have htotal : st.total = st.used := by
      rw [total, hstack, pending_nil, add_zero]
    refine .inl ⟨by rw [htotal], htotal.symm ▸ hwithin, ?_⟩
    simp [hstack]
  | deep hmem hdeep => exact absurd (hdepth _ hmem) (Nat.not_le.2 hdeep)
  | @rejected st o depth rest ms e hperm hle hms hvisit =>
    obtain ⟨rfl, hno⟩ := visit_error hvisit hwithin hms
    refine .inr ⟨rfl, fun hall => hno ?_⟩
    obtain ⟨htotal, -, hfits⟩ := (allowed_of_perm hperm).1 hall
    exact ⟨htotal, hfits⟩
  | @next st st' o depth rest ms r hperm hle hms hvisit _ ih =>
    obtain ⟨htotal, hleaves⟩ := visit_ok hvisit hwithin hms
    have hdepth' : ∀ o' ∈ st'.stack, o'.2 ≤ maxEventDocumentDepth := by
      intro o' ho'
      rcases hleaves.new o' ho' with hold | ⟨hlt, heq, -⟩
      · exact hdepth o' (hperm.mem_iff.2 (mem_cons_of_mem _ hold))
      · omega
    have hsame : st'.Allowed ↔ st.Allowed := by
      rw [allowed_of_perm hperm, Preflight.Allowed, htotal, hleaves.fits_iff]
    rw [total_of_perm hperm, ← htotal, ← hsame]
    exact ih hleaves.within hdepth'

theorem loop_deep {st : Preflight} (h : st.stack = (o, depth) :: rest)
    (hdeep : maxEventDocumentDepth < depth) : st.loop = .error .structuralLimit := by
  rw [loop]
  split
  · rename_i heq
    simp [h] at heq
  · rename_i heq
    rw [h] at heq
    obtain ⟨hhead, rfl⟩ := cons.inj heq
    cases hhead
    rw [if_pos hdeep]

/-- The stack of the source is one of the orders. -/
theorem loop_traversal (st : Preflight) (hwithin : st.used.Within) :
    ∃ r, Traversal st r ∧ r.map (fun _ => ()) = st.loop := by
  induction st using loop.induct with
  | case1 st hstack => exact ⟨_, .done hstack, (loop_nil hstack).symm⟩
  | case2 st o depth rest hstack hdeep =>
    refine ⟨_, .deep (hstack ▸ mem_cons_self) hdeep, ?_⟩
    rw [loop_deep hstack hdeep]
    rfl
  | case3 st o depth rest hstack hdeep e herror =>
    have hvisit := Saturating.preflightObject_members { st with stack := rest } hwithin depth o
    refine ⟨_, .rejected (hstack ▸ .refl _) (Nat.not_lt.1 hdeep) (.refl _) (hvisit.trans herror), ?_⟩
    rw [loop_cons hstack (Nat.not_lt.1 hdeep), herror]
    rfl
  | case4 st o depth rest hstack hdeep st' hnext ih =>
    have hvisit := Saturating.preflightObject_members { st with stack := rest } hwithin depth o
    have hleaves : Leaves depth 0 { st with stack := rest } o.slots st' :=
      leaves_preflightObject hwithin hnext
    obtain ⟨r, ht, hr⟩ := ih hleaves.within
    refine ⟨r, .next (hstack ▸ .refl _) (Nat.not_lt.1 hdeep) (.refl _) (hvisit.trans hnext) ht, ?_⟩
    rw [loop_cons hstack (Nat.not_lt.1 hdeep), hnext]
    exact hr

theorem traversal_iff (doc : Document) (r : Except NodeChangeRejectKind Usage) :
    Traversal (.start doc) r ↔ r = (preflightEventDocument doc).map fun _ => totals doc := by
  have hwithin : (start doc).used.Within := by
    change (⟨1, 0, 0, 2⟩ : Usage).Within
    decide
  have hdepth : ∀ o ∈ (start doc).stack, o.2 ≤ maxEventDocumentDepth := by
    simp [start]
  have htotal : (start doc).total = totals doc := by
    rw [totals_eq]
    rfl
  obtain ⟨r₀, ht₀, hr₀⟩ := loop_traversal _ hwithin
  have heq : r₀ = (preflightEventDocument doc).map fun _ => totals doc := by
    unfold preflightEventDocument
    change _ = (start doc).loop.map _
    rw [← hr₀, ← htotal]
    rcases ht₀.spec hwithin hdepth with ⟨rfl, -⟩ | ⟨rfl, -⟩ <;> rfl
  constructor
  · intro ht
    rw [← heq]
    rcases ht.spec hwithin hdepth with ⟨rfl, h⟩ | ⟨rfl, h⟩ <;>
      rcases ht₀.spec hwithin hdepth with ⟨rfl, h₀⟩ | ⟨rfl, h₀⟩
    · rfl
    · exact absurd h h₀
    · exact absurd h₀ h
    · rfl
  · rintro rfl
    exact heq ▸ ht₀

instance (doc : Document) : Decidable (Limits doc) :=
  decidable_of_iff (((∀ o ∈ objects doc, o.2 ≤ maxEventDocumentDepth) ∧
      (∀ o ∈ objects doc, o.1.width ≤ maxEventContainerEntries)) ∧ (totals doc).Within)
    ⟨fun h => ⟨h.1.1, h.2.1, h.1.2, h.2.2.1, h.2.2.2.1, h.2.2.2.2⟩,
      fun h => ⟨⟨h.depth, h.width⟩, h.objects, h.entries, h.bytes, h.proxy⟩⟩

theorem preflightEventDocument_eq_ok_iff_limits :
    preflightEventDocument doc = .ok () ↔ Limits doc := by
  rw [preflightEventDocument_eq_ok_iff, limits_iff, totals_eq]

/-- A document within the limits is read to its end. -/
theorem traversal_of_limits (h : Limits doc) : Traversal (.start doc) (.ok (totals doc)) := by
  rw [traversal_iff, preflightEventDocument_eq_ok_iff_limits.2 h]
  rfl

/-- **The preflight is its limits**: a document passes exactly if it keeps each of them, and every
order of the traversal, with saturating counters, gives the answer of `preflight_event_document`. -/
theorem preflight_iff_limits (doc : Document) : (preflightEventDocument doc = .ok () ↔ Limits doc) ∧
      ∀ r, Traversal (.start doc) r ↔ r = (preflightEventDocument doc).map fun _ => totals doc :=
  ⟨preflightEventDocument_eq_ok_iff_limits, traversal_iff doc⟩

end PeatNode.Node
