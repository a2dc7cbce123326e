/-
# Setting fields by their paths

`apply_sets` of `crates/peat-cli/src/cli/writes.rs`: every `path=value` of the command line is put
into the value in turn; what is not an object on the way of a path is replaced by one.

An expression is well formed if it is an `assignment`: segments that are not empty, joined by dots,
then `=` and any text.  `Coerced` is what such a text stands for.  `apply_sets` fails exactly on the
other expressions and obeys the laws of updates (`sets_obey_update_laws`).
-/

import PeatNode.Lib.Json
import PeatNode.Lib.Lists
import PeatNode.Lib.SortedMap
import PeatNode.Peers.Dial

namespace PeatNode.Cli

open Json SortedMap List
open Peers (splitOnce)

/-! ### Expressions -/

structure KeyPath where
  head : String
  tail : List String

def KeyPath.keys (p : KeyPath) : List String := p.head :: p.tail

def naturalOf (ds : List Char) : Option ℕ :=
  if ds ≠ [] ∧ ds.all Char.isDigit then some (Nat.ofDigits 10 (ds.map digitValue).reverse) else none

/-- `raw.parse::<i64>()`. -/
def parseI64 (raw : List Char) : Option ℤ :=
  let z := match raw with
    | '-' :: ds => (naturalOf ds).map fun n : ℕ => -(n : ℤ)
    | '+' :: ds | ds => (naturalOf ds).map fun n : ℕ => (n : ℤ)
  z.filter fun z => -2 ^ 63 ≤ z ∧ z < 2 ^ 63

/-- `float` is what a text is as a finite double. -/
def coerce (float : String → Option Number) (raw : String) : Value :=
  if raw = "null" then .null
  else if raw = "true" then .bool true
  else if raw = "false" then .bool false
  else match parseI64 raw.toList with
    | some z => .number (.ofInt z)
    | none => match float raw with
      | some n => .number n
      | none => .string raw

/-- The error is that of `CliError::Malformed`. -/
def parseSet (float : String → Option Number) (expr : String) : Except String (KeyPath × Value) :=
  match splitOnce '=' expr with
  | none => .error ("--set `" ++ expr ++ "`: expected `path=value`")
  | some (path, raw) =>
    if path = "" then .error ("--set `" ++ expr ++ "`: empty path")
    else match (path.toList.splitOn '.').map String.ofList with
      | [] => .error ("--set `" ++ expr ++ "`: empty path")
      | head :: tail =>
        if "" ∈ head :: tail then .error ("--set `" ++ expr ++ "`: empty path segment")
        else .ok (⟨head, tail⟩, coerce float raw)

/-! ### Which expressions are well formed -/

/-- A path as written: segments not empty, without dot and `=`. -/
structure Segments (p : List String) : Prop where
  ne_nil : p ≠ []
  plain : ∀ s ∈ p, s ≠ "" ∧ '.' ∉ s.toList ∧ '=' ∉ s.toList

def assignment (p : List String) (raw : String) : String :=
  .ofList (['.'].intercalate (p.map String.toList) ++ '=' :: raw.toList)

/-- Digits, with or without a sign, within `i64`. -/
def IsI64 (raw : String) (z : ℤ) : Prop :=
  (-2 ^ 63 ≤ z ∧ z < 2 ^ 63) ∧ ∃ ds n, naturalOf ds = some n ∧
    (raw.toList = '-' :: ds ∧ z = -(n : ℤ) ∨ (raw.toList = '+' :: ds ∨ raw.toList = ds) ∧ z = n)

/-- What a text stands for: a word, else an integer, else a finite double, else itself. -/
inductive Coerced (float : String → Option Number) : String → Value → Prop
  | null : Coerced float "null" .null
  | true : Coerced float "true" (.bool true)
  | false : Coerced float "false" (.bool false)
  | int (h : IsI64 raw z) : Coerced float raw (.number (.ofInt z))
  | double (hword : raw ∉ ["null", "true", "false"])
      (hint : ∀ z, ¬ IsI64 raw z) (hfloat : float raw = some n) : Coerced float raw (.number n)
  | string (hword : raw ∉ ["null", "true", "false"]) (hint : ∀ z, ¬ IsI64 raw z)
      (hfloat : float raw = none) : Coerced float raw (.string raw)

theorem isDigit_of_naturalOf (h : naturalOf ds = some n) : ∀ c ∈ ds, c.isDigit = true := by
  unfold naturalOf at h
  split_ifs at h with hds
  exact all_eq_true.1 hds.2

theorem parseI64_eq_some {raw : String} : parseI64 raw.toList = some z ↔ IsI64 raw z := by
  -- digits do not begin with a sign
  have hsign : ∀ {c : Char} {ds : List Char} {n : ℕ}, naturalOf ds = some n → c.isDigit = false →
      ∀ tail, ds ≠ c :: tail := by
    rintro c ds n hds hc tail rfl
    simp [isDigit_of_naturalOf hds c mem_cons_self] at hc
  have hminus : ∀ {ds : List Char} {n : ℕ}, naturalOf ds = some n → ∀ tail, ds ≠ '-' :: tail :=
    fun h => hsign h (by decide)
  have hplus : ∀ {ds : List Char} {n : ℕ}, naturalOf ds = some n → ∀ tail, ds ≠ '+' :: tail :=
    fun h => hsign h (by decide)
  unfold parseI64 IsI64
  generalize raw.toList = cs
  simp only [Option.filter_eq_some_iff, decide_eq_true_eq]
  rw [and_comm]
  refine and_congr_right fun _ => ?_
  split <;> grind [Option.map_eq_some_iff]

theorem coerced_iff {float : String → Option Number} :
    Coerced float raw v ↔ v = coerce float raw := by
  have hwords : ∀ word ∈ ["null", "true", "false"], ∀ z, ¬ IsI64 word z := by
    intro word hword z hz
    rw [← parseI64_eq_some] at hz
    have hnone : ∀ word ∈ ["null", "true", "false"], parseI64 word.toList = none := by decide
    simp [hnone word hword] at hz
  constructor
  · intro h
    cases h with
    | null | true | false => rfl
    | int h =>
      have hword : raw ∉ ["null", "true", "false"] := fun hmem => hwords raw hmem _ h
      simp only [mem_cons, not_mem_nil, or_false, not_or] at hword
      simp [coerce, hword, parseI64_eq_some.2 h]
    | double hword hint hfloat | string hword hint hfloat =>
      have hnone : parseI64 raw.toList = none :=
        Option.eq_none_iff_forall_ne_some.2 fun z hz => hint z (parseI64_eq_some.1 hz)
      simp only [mem_cons, not_mem_nil, or_false, not_or] at hword
      simp [coerce, hword, hnone, hfloat]
  · rintro rfl
    unfold coerce
    split_ifs with hnull htrue hfalse
    · exact hnull ▸ .null
    · exact htrue ▸ .true
    · exact hfalse ▸ .false
    · have hword : raw ∉ ["null", "true", "false"] := by simp [hnull, htrue, hfalse]
      split
      · next z hz => exact .int (parseI64_eq_some.1 hz)
      · next hnone =>
        have hint : ∀ z, ¬ IsI64 raw z := fun z hz => by
          simp [← parseI64_eq_some, hnone] at hz
        split
        · next n hn => exact .double hword hint hn
        · next hn => exact .string hword hint hn

/-- **The well-formed expressions**: what is read is what was assigned. -/
theorem parseSet_eq_ok {float : String → Option Number} : parseSet float expr = .ok (p, new) ↔
    Segments p.keys ∧ ∃ raw, expr = assignment p.keys raw ∧ new = coerce float raw := by
  have hsep : '=' ≠ '.' := by decide
  constructor
  · intro h
    unfold parseSet at h
    split at h
    · cases h
    · next path raw hsplit =>
      obtain ⟨hexpr, hpath⟩ := Peers.splitOnce_eq_some.1 hsplit
      split_ifs at h
      split at h
      · cases h
      · next head tail hpieces =>
        split_ifs at h with hempty
        cases h
        have hkeys : (head :: tail).map String.toList = path.toList.splitOn '.' := by
          rw [← hpieces, map_map]
          simp [Function.comp_def]
        have hjoin : ['.'].intercalate ((head :: tail).map String.toList) = path.toList := by
          rw [hkeys, intercalate_splitOn]
        refine ⟨⟨cons_ne_nil _ _, fun s hs => ⟨fun hs' => hempty (hs' ▸ hs), ?_, fun hmem => ?_⟩⟩,
          raw, ?_, rfl⟩
        · exact notMem_of_mem_splitOn (hkeys ▸ mem_map_of_mem hs)
        · rw [← hjoin, mem_intercalate_singleton hsep] at hpath
          exact hpath ⟨_, mem_map_of_mem hs, hmem⟩
        · rw [assignment, KeyPath.keys, hjoin, ← hexpr, String.ofList_toList]
  · obtain ⟨head, tail⟩ := p
    rintro ⟨⟨-, hplain⟩, raw, rfl, rfl⟩
    have hplain : ∀ s ∈ head :: tail, s ≠ "" ∧ '.' ∉ s.toList ∧ '=' ∉ s.toList := hplain
    have hsplit : (['.'].intercalate ((head :: tail).map String.toList)).splitOn '.' =
        (head :: tail).map String.toList :=
      splitOn_intercalate _ (forall_mem_map.2 fun s hs => (hplain s hs).2.1) (by simp)
    have honce : splitOnce '=' (assignment (head :: tail) raw) =
        some (.ofList (['.'].intercalate ((head :: tail).map String.toList)), raw) := by
      refine Peers.splitOnce_eq_some.2 ⟨by simp [assignment], ?_⟩
      rw [String.toList_ofList, mem_intercalate_singleton hsep]
      rintro ⟨l, hl, hmem⟩
      obtain ⟨s, hs, rfl⟩ := mem_map.1 hl
      exact (hplain s hs).2.2 hmem
    have hpath : String.ofList (['.'].intercalate ((head :: tail).map String.toList)) ≠ "" := by
      intro hnil
      have hempty : ['.'].intercalate ((head :: tail).map String.toList) = [] := by
        simpa using congrArg String.toList hnil
      rw [hempty, splitOn_nil, map_cons] at hsplit
      exact (hplain head mem_cons_self).1 (String.toList_injective (cons.inj hsplit).1.symm)
    have hkeys : ((head :: tail).map String.toList).map String.ofList = head :: tail := by
      simp [Function.comp_def]
    rw [parseSet, KeyPath.keys, honce]
    simp only [hpath, if_false, String.toList_ofList, hsplit, hkeys]
    rw [if_neg fun hmem => (hplain "" hmem).1 rfl]

/-! ### Values -/

/-- The members of a value promoted to an object. -/
def members : Value → List (String × Value)
  | .object ms => ms
  | .null | .bool _ | .number _ | .string _ | .array _ => []

def setPath (new : Value) (head : String) : List String → Value → Value
  | [], v => .object (SortedMap.insert head new (members v))
  | next :: tail, v =>
    let entry := ((members v).lookup head).getD (.object [])
    .object (SortedMap.insert head (setPath new next tail entry) (members v))

def applySet (float : String → Option Number) (v : Value) (expr : String) : Except String Value :=
  (parseSet float expr).map fun set => setPath set.2 set.1.head set.1.tail v

def applySets (float : String → Option Number) (base : Value) (sets : List String) :
    Except String Value :=
  sets.foldlM (applySet float) base

/-- What stands at a path of objects. -/
def get : List String → Value → Option Value
  | [], v => some v
  | k :: ks, v => ((members v).lookup k).bind (get ks)

/-! ### The laws of one path -/

section Paths

variable {new other : Value} {h k : String} {t ks : List String}

@[simp] theorem members_object (ms : List (String × Value)) : members (.object ms) = ms := rfl

/-- A path changes one member, by what that member was. -/
theorem setPath_eq (new : Value) (h : String) (t : List String) : ∃ put : Option Value → Value,
    ∀ v, setPath new h t v =
      .object (insert h (put ((members v).lookup h)) (members v)) := by
  cases t with
  | nil => exact ⟨fun _ => new, fun _ => rfl⟩
  | cons next t => exact ⟨fun old => setPath new next t (old.getD (.object [])), fun _ => rfl⟩

theorem get_setPath (v : Value) : get (h :: t) (setPath new h t v) = some new := by
  induction t generalizing h v with
  | nil => simp [get, setPath, lookup_insert_self]
  | cons next t ih =>
    rw [get, setPath, members_object, lookup_insert_self, Option.bind_some]
    exact ih _

theorem setPath_setPath (v : Value) : setPath new h t (setPath other h t v) = setPath new h t v := by
  induction t generalizing h v with
  | nil => simp [setPath, insert_insert]
  | cons next t ih => simp [setPath, lookup_insert_self, insert_insert, ih]

/-- Neither path leads through the other. -/
def Apart (p q : List String) : Prop := ¬ p <+: q ∧ ¬ q <+: p

theorem apart_cons : Apart (h :: p) (k :: q) ↔ h = k → Apart p q := by
  by_cases hhk : h = k <;> simp [Apart, cons_prefix_cons, hhk, eq_comm]

theorem get_setPath_of_apart (v : Value) (hap : Apart (h :: t) (k :: ks)) :
    get (k :: ks) (setPath new h t v) = get (k :: ks) v := by
  induction t generalizing h k ks v with
  | nil =>
    have hne : k ≠ h := fun hkh => (apart_cons.1 hap hkh.symm).1 nil_prefix
    rw [get, get, setPath, members_object, lookup_insert_ne hne]
  | cons next t ih =>
    rw [get, get, setPath, members_object]
    by_cases hkh : k = h
    · subst hkh
      rw [lookup_insert_self, Option.bind_some]
      cases ks with
      | nil => exact absurd nil_prefix (apart_cons.1 hap rfl).2
      | cons k' ks =>
        rw [ih _ (apart_cons.1 hap rfl)]
        cases (members v).lookup k <;> rfl
    · rw [lookup_insert_ne hkh]

theorem setPath_comm_of_ne (v : Value) (hhk : h ≠ k) :
    setPath new h t (setPath other k ks v) = setPath other k ks (setPath new h t v) := by
  obtain ⟨put, hput⟩ := setPath_eq new h t
  obtain ⟨put', hput'⟩ := setPath_eq other k ks
  simp only [hput, hput', members_object, lookup_insert_ne hhk,
    lookup_insert_ne hhk.symm]
  rw [insert_comm hhk]

theorem setPath_comm (v : Value) (hap : Apart (h :: t) (k :: ks)) :
    setPath new h t (setPath other k ks v) = setPath other k ks (setPath new h t v) := by
  induction t generalizing h k ks v with
  | nil => exact setPath_comm_of_ne v fun hhk => (apart_cons.1 hap hhk).1 nil_prefix
  | cons next t ih =>
    by_cases hhk : h = k
    · subst hhk
      cases ks with
      | nil => exact absurd nil_prefix (apart_cons.1 hap rfl).2
      | cons k' ks =>
        simp only [setPath, members_object, lookup_insert_self, insert_insert,
          Option.getD_some]
        rw [ih _ (apart_cons.1 hap rfl)]
    · exact setPath_comm_of_ne v hhk

end Paths

/-! ### Expressions in a row -/

variable {float : String → Option Number}

theorem applySet_of_parseSet (h : parseSet float expr = .ok (p, new)) (v : Value) :
    applySet float v expr = .ok (setPath new p.head p.tail v) := by
  rw [applySet, h]
  rfl

/-- A run through the expressions goes on exactly if the first one can be read. -/
theorem applySets_cons_eq_ok :
    applySets float base (expr :: sets) = .ok out ↔ ∃ p new, parseSet float expr = .ok (p, new) ∧
      applySets float (setPath new p.head p.tail base) sets = .ok out := by
  rw [applySets, foldlM_cons]
  cases hparse : parseSet float expr with
  | error e => simp [applySet, hparse, Except.map, bind, Except.bind]
  | ok set =>
    obtain ⟨p, new⟩ := set
    simp [applySet_of_parseSet hparse, bind, Except.bind, applySets]

theorem get_applySets (h : parseSet float expr = .ok (p, new))
    (hout : applySets float base (sets ++ [expr]) = .ok out) : get p.keys out = some new := by
  induction sets generalizing base with
  | nil =>
    obtain ⟨p', new', h', hout⟩ := applySets_cons_eq_ok.1 hout
    cases h.symm.trans h'
    cases hout
    exact get_setPath base
  | cons first sets ih =>
    obtain ⟨p', new', -, hout⟩ := applySets_cons_eq_ok.1 hout
    exact ih hout

theorem get_applySets_of_apart (hout : applySets float base sets = .ok out)
    (hap : ∀ expr ∈ sets, ∀ p new, parseSet float expr = .ok (p, new) → Apart p.keys q) :
    get q out = get q base := by
  induction sets generalizing base with
  | nil =>
    cases hout
    rfl
  | cons expr sets ih =>
    obtain ⟨p, new, hparse, hout⟩ := applySets_cons_eq_ok.1 hout
    have hfirst := hap expr mem_cons_self p new hparse
    rw [ih hout fun e he => hap e (mem_cons_of_mem expr he)]
    cases q with
    | nil => exact absurd nil_prefix hfirst.2
    | cons k ks => exact get_setPath_of_apart base hfirst

theorem exists_applySets_iff :
    (∃ out, applySets float base sets = .ok out) ↔
      ∀ expr ∈ sets, ∃ set, parseSet float expr = .ok set := by
  induction sets generalizing base with
  | nil => exact iff_of_true ⟨base, rfl⟩ (by simp)
  | cons expr sets ih =>
    simp only [applySets_cons_eq_ok, forall_mem_cons]
    constructor
    · rintro ⟨out, p, new, hparse, hout⟩
      exact ⟨⟨_, hparse⟩, ih.1 ⟨out, hout⟩⟩
    · rintro ⟨⟨⟨p, new⟩, hparse⟩, hsets⟩
      obtain ⟨out, hout⟩ := ih.2 hsets
      exact ⟨out, p, new, hparse, hout⟩

/-- **`--set` obeys the laws of updates.** The last path has what its text is coerced to; of two
values for one path the second stays; paths that do not lead through one another can be set in
either order and leave each other alone; an error is returned exactly if an expression is
malformed. -/
theorem sets_obey_update_laws (float : String → Option Number) (base : Value) :
    (∀ sets p raw out, Segments p → applySets float base (sets ++ [assignment p raw]) = .ok out →
        ∀ v, get p out = some v ↔ Coerced float raw v) ∧
      (∀ p raw raw', Segments p → applySets float base [assignment p raw, assignment p raw'] =
        applySets float base [assignment p raw']) ∧
      (∀ p q raw raw', Segments p → Segments q → Apart p q →
        applySets float base [assignment p raw, assignment q raw'] =
          applySets float base [assignment q raw', assignment p raw]) ∧
      (∀ sets out q, applySets float base sets = .ok out →
        (∀ p raw, Segments p → assignment p raw ∈ sets → Apart p q) → get q out = get q base) ∧
      ∀ sets, (∃ e, applySets float base sets = .error e) ↔
        ∃ expr ∈ sets, ∀ p raw, Segments p → expr ≠ assignment p raw := by
  have hparse : ∀ {p : List String}, Segments p → ∃ path : KeyPath, path.keys = p ∧
      ∀ raw, parseSet float (assignment p raw) = .ok (path, coerce float raw) := by
    intro p hp
    obtain ⟨head, tail, rfl⟩ := exists_cons_of_ne_nil hp.ne_nil
    exact ⟨⟨head, tail⟩, rfl, fun raw => parseSet_eq_ok.2 ⟨hp, raw, rfl, rfl⟩⟩
  have htwo : ∀ {expr expr' p q new new'}, parseSet float expr = .ok (p, new) →
      parseSet float expr' = .ok (q, new') → applySets float base [expr, expr'] =
        .ok (setPath new' q.head q.tail (setPath new p.head p.tail base)) := fun h h' =>
    applySets_cons_eq_ok.2 ⟨_, _, h, applySets_cons_eq_ok.2 ⟨_, _, h', rfl⟩⟩
  refine ⟨fun sets p raw out hp hout v => ?_, fun p raw raw' hp => ?_,
    fun p q raw raw' hp hq hap => ?_, fun sets out q hout hap => ?_, fun sets => ?_⟩
  · obtain ⟨path, rfl, hpath⟩ := hparse hp
    rw [get_applySets (hpath raw) hout, Option.some.injEq, coerced_iff, eq_comm]
  · obtain ⟨path, -, h⟩ := hparse hp
    rw [htwo (h raw) (h raw'), setPath_setPath]
    exact (applySets_cons_eq_ok.2 ⟨_, _, h raw', rfl⟩).symm
  · obtain ⟨path, rfl, h⟩ := hparse hp
    obtain ⟨path', rfl, h'⟩ := hparse hq
    rw [htwo (h raw) (h' raw'), htwo (h' raw') (h raw), setPath_comm _ hap]
  · refine get_applySets_of_apart hout fun expr hexpr path new hpath => ?_
    obtain ⟨hp, raw, rfl, -⟩ := parseSet_eq_ok.1 hpath
    exact hap path.keys raw hp hexpr
  · cases hresult : applySets float base sets with
    | ok out =>
      refine iff_of_false (by simp) ?_
      rintro ⟨expr, hexpr, hbad⟩
      obtain ⟨⟨path, new⟩, hpath⟩ := exists_applySets_iff.1 ⟨out, hresult⟩ expr hexpr
      obtain ⟨hp, raw, heq, -⟩ := parseSet_eq_ok.1 hpath
      exact hbad _ raw hp heq
    | error e =>
      refine iff_of_true ⟨e, rfl⟩ ?_
      by_contra! hgood
      have hall : ∀ expr ∈ sets, ∃ set, parseSet float expr = .ok set := by
        intro expr hexpr
        obtain ⟨p, raw, hp, rfl⟩ := hgood expr hexpr
        obtain ⟨path, -, hpath⟩ := hparse hp
        exact ⟨_, hpath raw⟩
      obtain ⟨out, hout⟩ := exists_applySets_iff.2 hall
      cases hresult.symm.trans hout

/-- A number below a member that is not an object, after a text with a second `=`. -/
theorem sets_obey_update_laws_sample :
    ∃ out, applySets (fun _ => none) (.object [("a", .bool true)]) ["c=x=y", "a.b=-7"] = .ok out ∧
      get ["a", "b"] out = some (.number (.ofInt (-7))) := by
  have hsegments : Segments ["a", "b"] := ⟨by decide, by decide⟩
  have hseven : Coerced (fun _ => none) "-7" (.number (.ofInt (-7))) :=
    .int ⟨by decide, ['7'], 7, by decide, .inl (by decide)⟩
  refine ⟨_, rfl, ?_⟩
  exact ((sets_obey_update_laws (fun _ => none) (.object [("a", .bool true)])).1 ["c=x=y"]
    ["a", "b"] "-7" _ hsegments rfl _).2 hseven

end PeatNode.Cli
