/-
# Which documents pass the preflight

The traversal of `PeatNode.Node.Preflight` checks its counters after every entry.
They only grow, so all that matters is where they end: a document passes exactly
if the totals over the whole tree are within the limits and every object has an
allowed depth and width (`preflightEventDocument_eq_ok_iff`).
-/

import PeatNode.Node.Preflight

namespace PeatNode.Node

open List Nat DocObject

mutual

/-- Objects below it have allowed depth and width. -/
def DocValue.Fits (depth : ℕ) : DocValue → Prop
  | .scalar _ => True
  | .object o => depth < maxEventDocumentDepth ∧ o.Fits (depth + 1)

def DocObject.Fits (depth : ℕ) : DocObject → Prop
  | .map entries | .table entries =>
    entries.length ≤ maxEventContainerEntries ∧ entriesFit depth entries
  | .list items => items.length ≤ maxEventContainerEntries ∧ itemsFit depth items
  | .text _ _ => True

def entriesFit (depth : ℕ) : List (String × DocValue) → Prop
  | [] => True
  | (_, value) :: entries => value.Fits depth ∧ entriesFit depth entries

def itemsFit (depth : ℕ) : List DocValue → Prop
  | [] => True
  | value :: items => value.Fits depth ∧ itemsFit depth items

end

theorem entriesFit_iff : entriesFit depth entries ↔ ∀ e ∈ entries, e.2.Fits depth := by
  induction entries with
  | nil => simp [entriesFit]
  | cons entry entries ih =>
    obtain ⟨key, value⟩ := entry
    simp [entriesFit, ih]

theorem itemsFit_iff : itemsFit depth items ↔ ∀ v ∈ items, v.Fits depth := by
  induction items with
  | nil => simp [itemsFit]
  | cons value items ih => simp [itemsFit, ih]

theorem DocObject.fits_iff {o : DocObject} :
    o.Fits depth ↔
      o.slots.length ≤ maxEventContainerEntries ∧ ∀ s ∈ o.slots, s.2.Fits depth := by
  cases o with
  | map entries | table entries =>
    simp only [Fits, slots, entriesFit_iff, length_map, forall_mem_map]
  | list items =>
    simp only [Fits, slots, itemsFit_iff, length_map, forall_mem_map]
  | text value length => simp [Fits, slots]

namespace Usage

/-- Less than what is allowed is allowed. -/
theorem Within.of_le {u v : Usage} (h : v.Within) (hobjects : u.objects ≤ v.objects)
    (hentries : u.entries ≤ v.entries) (hbytes : u.bytes ≤ v.bytes) (hproxy : u.proxy ≤ v.proxy) :
    u.Within := by
  obtain ⟨h₁, h₂, h₃, h₄⟩ := h
  exact ⟨by omega, by omega, by omega, by omega⟩

theorem add_zero (u : Usage) : u + 0 = u := rfl

theorem Within.of_add {u v : Usage} (h : (u + v).Within) : u.Within :=
  h.of_le (le_add_right _ _) (le_add_right _ _) (le_add_right _ _)
    (le_add_right _ _)

end Usage

namespace Preflight

variable {st st' : Preflight}

theorem used_within_of_total (h : st.total.Within) : st.used.Within := Usage.Within.of_add h

/-! ### Entries -/

variable {depth : ℕ}

theorem stack_preflightValue (h : st.preflightValue value depth = .ok st') :
    (∃ s, value = .scalar s ∧ st'.stack = st.stack) ∨
      ∃ o, value = .object o ∧ depth < maxEventDocumentDepth ∧
        st'.stack = (o, depth + 1) :: st.stack := by
  unfold preflightValue at h
  split at h
  · split_ifs at h with hno
    cases h
    rw [not_or, not_lt, not_le] at hno
    exact .inr ⟨_, rfl, hno.2, rfl⟩
  · cases h
    exact .inl ⟨_, rfl, rfl⟩

/-- A value goes through if its objects may be counted and lie high enough. -/
theorem preflightValue_of_within (htotal : (st.total + value.usage).Within)
    (hfits : value.Fits depth) : ∃ st', st.preflightValue value depth = .ok st' := by
  cases value with
  | scalar s => exact ⟨_, rfl⟩
  | object o =>
    have hobjects : st.used.objects + 1 ≤ maxEventDocumentObjects := by
      have hall := htotal.1
      simp only [total, DocValue.usage, Usage.object, Usage.objects_add] at hall
      omega
    have hok : ¬ (maxEventDocumentObjects < st.used.objects + 1 ∨
        maxEventDocumentDepth ≤ depth) := by
      rw [not_or, not_lt, not_le]
      exact ⟨hobjects, hfits.1⟩
    exact ⟨_, if_neg hok⟩

/-- What the loop over the entries leaves. -/
structure Leaves (depth n : ℕ) (st : Preflight) (slots : List (ℕ × DocValue)) (st' : Preflight) :
    Prop where
  within : st'.used.Within
  width : n + slots.length ≤ max n maxEventContainerEntries
  child : ∀ s ∈ slots, ∀ o, s.2 = .object o →
    depth < maxEventDocumentDepth ∧ (o, depth + 1) ∈ st'.stack
  old : ∀ o ∈ st.stack, o ∈ st'.stack
  new : ∀ o ∈ st'.stack, o ∈ st.stack ∨
    depth < maxEventDocumentDepth ∧ o.2 = depth + 1 ∧ ∃ s ∈ slots, s.2 = .object o.1

theorem leaves_preflightEntries {slots : List (ℕ × DocValue)} (hwithin : st.used.Within)
    (h : preflightEntries depth st n slots = .ok st') : Leaves depth n st slots st' := by
  induction slots generalizing st n with
  | nil =>
    cases h
    exact ⟨hwithin, by simp, nofun, fun _ ho => ho, fun _ ho => .inl ho⟩
  | cons slot slots ih =>
    obtain ⟨proxy, value⟩ := slot
    obtain ⟨st₁, hvalue, hn, hwithin₁, hrest⟩ := preflightEntries_cons h
    have hleaves := ih hwithin₁ hrest
    have hwidth := hleaves.width
    have hcontainer : n + ((proxy, value) :: slots).length ≤ max n maxEventContainerEntries := by
      rw [length_cons]
      omega
    rcases stack_preflightValue hvalue with ⟨s, rfl, hstack⟩ | ⟨o, rfl, hdepth, hstack⟩
    · refine ⟨hleaves.within, hcontainer, ?_, ?_, ?_⟩
      · rintro s' hs' o ho
        rcases mem_cons.1 hs' with rfl | hs'
        · cases ho
        · exact hleaves.child s' hs' o ho
      · intro o ho
        exact hleaves.old o (hstack ▸ ho)
      · intro o ho
        rcases hleaves.new o ho with ho | ⟨hd, hdo, s', hs', hso⟩
        · exact .inl (hstack ▸ ho)
        · exact .inr ⟨hd, hdo, s', mem_cons_of_mem _ hs', hso⟩
    · refine ⟨hleaves.within, hcontainer, ?_, ?_, ?_⟩
      · rintro s' hs' o' ho'
        rcases mem_cons.1 hs' with rfl | hs'
        · obtain rfl := DocValue.object.inj ho'
          exact ⟨hdepth, hleaves.old _ (hstack ▸ mem_cons_self)⟩
        · exact hleaves.child s' hs' o' ho'
      · intro o' ho'
        exact hleaves.old o' (hstack ▸ mem_cons_of_mem _ ho')
      · intro o' ho'
        rcases hleaves.new o' ho' with ho' | ⟨hd, hdo, s', hs', hso⟩
        · rw [hstack] at ho'
          rcases mem_cons.1 ho' with rfl | ho'
          · exact .inr ⟨hdepth, rfl, _, mem_cons_self, rfl⟩
          · exact .inl ho'
        · exact .inr ⟨hd, hdo, s', mem_cons_of_mem _ hs', hso⟩

theorem preflightEntries_of_within {slots : List (ℕ × DocValue)}
    (htotal : (st.total + slotsUsage slots).Within)
    (hwidth : n + slots.length ≤ maxEventContainerEntries) (hfits : ∀ s ∈ slots, s.2.Fits depth) :
    ∃ st', preflightEntries depth st n slots = .ok st' := by
  induction slots generalizing st n with
  | nil => exact ⟨st, rfl⟩
  | cons slot slots ih =>
    obtain ⟨proxy, value⟩ := slot
    rw [length_cons] at hwidth
    have hsum : (({ st with used := st.used + Usage.entry proxy }.total + value.usage) +
        slotsUsage slots).Within := by
      refine htotal.of_le ?_ ?_ ?_ ?_ <;> simp [total, slotsUsage] <;> omega
    obtain ⟨st₁, hvalue⟩ := preflightValue_of_within hsum.of_add (hfits _ mem_cons_self)
    have htotal₁ : st₁.total = { st with used := st.used + Usage.entry proxy }.total + value.usage :=
      total_preflightValue hvalue
    rw [← htotal₁] at hsum
    have hcounts : st₁.enforcePreflightCounts (n + 1) = .ok st₁ := by
      refine if_neg ?_
      rw [not_or, not_lt, not_not]
      exact ⟨by omega, used_within_of_total hsum.of_add⟩
    obtain ⟨st', hrest⟩ := ih (n := n + 1) hsum (by omega) fun s hs => hfits s (mem_cons_of_mem _ hs)
    refine ⟨st', ?_⟩
    rw [preflightEntries, hvalue]
    simp only [hcounts]
    exact hrest

/-! ### Objects -/

variable {o : DocObject}

theorem leaves_preflightObject (hwithin : st.used.Within)
    (h : st.preflightObject depth o = .ok st') : Leaves depth 0 st o.slots st' := by
  cases o with
  | map entries | table entries | list items => exact leaves_preflightEntries hwithin h
  | text value length =>
    obtain ⟨rfl, -, hwithin⟩ := eq_of_enforce h
    exact ⟨hwithin, by simp [slots], nofun, fun _ ho => ho, fun _ ho => .inl ho⟩

theorem preflightObject_of_within (htotal : (st.total + o.inner).Within) (hfits : o.Fits depth) :
    ∃ st', st.preflightObject depth o = .ok st' := by
  have hshape := fits_iff.1 hfits
  have hwidth : 0 + o.slots.length ≤ maxEventContainerEntries := by omega
  cases o with
  | map entries | table entries =>
    rw [DocObject.inner, entriesUsage_eq] at htotal
    exact preflightEntries_of_within htotal hwidth hshape.2
  | list items =>
    rw [DocObject.inner, itemsUsage_eq] at htotal
    exact preflightEntries_of_within htotal hwidth hshape.2
  | text value length =>
    refine ⟨_, if_neg ?_⟩
    rw [not_or, not_not]
    refine ⟨not_lt_zero _, htotal.of_le ?_ ?_ ?_ ?_⟩ <;> simp [total, DocObject.inner]

/-- The children an object leaves on the stack have an allowed shape exactly if it
has one itself. -/
theorem Leaves.fits_iff (h : Leaves depth 0 st o.slots st') : (∀ o' ∈ st'.stack, o'.1.Fits o'.2) ↔
      (∀ o' ∈ st.stack, o'.1.Fits o'.2) ∧ o.Fits depth := by
  have hwidth : o.slots.length ≤ maxEventContainerEntries := by
    have hwidth := h.width
    omega
  rw [DocObject.fits_iff]
  constructor
  · intro hall
    refine ⟨fun o' ho' => hall o' (h.old o' ho'), hwidth, ?_⟩
    rintro ⟨proxy, value⟩ hs
    cases value with
    | scalar s => trivial
    | object c =>
      obtain ⟨hd, hc⟩ := h.child _ hs c rfl
      exact ⟨hd, hall _ hc⟩
  · rintro ⟨hold, -, hslots⟩ o' ho'
    rcases h.new o' ho' with ho' | ⟨hd, hdepth, ⟨proxy, value⟩, hs, rfl⟩
    · exact hold o' ho'
    · rw [hdepth]
      exact (hslots _ hs).2

/-! ### The whole traversal -/

theorem total_of_cons (h : st.stack = (o, depth) :: rest) :
    st.total = { st with stack := rest }.total + o.inner := by
  ext <;> simp [total, h] <;> omega

/-- **The traversal succeeds exactly if the totals and the shape are allowed.** -/
theorem loop_eq_ok_iff (hwithin : st.used.Within)
    (hdepth : ∀ o ∈ st.stack, o.2 ≤ maxEventDocumentDepth) :
    st.loop = .ok () ↔ st.total.Within ∧ ∀ o ∈ st.stack, o.1.Fits o.2 := by
  induction st using loop.induct with
  | case1 st hstack => simp [loop_nil hstack, total, hstack, Usage.add_zero, hwithin]
  | case2 st o depth rest hstack hdeep =>
    exact absurd (hdepth (o, depth) (hstack ▸ mem_cons_self)) (not_le.2 hdeep)
  | case3 st o depth rest hstack hdeep e herror =>
    rw [loop_cons hstack (not_lt.1 hdeep), herror, total_of_cons hstack, hstack]
    constructor
    · intro hok
      cases hok
    · rintro ⟨htotal, hfits⟩
      obtain ⟨st', hok⟩ := preflightObject_of_within htotal (hfits _ mem_cons_self)
      simp [hok] at herror
  | case4 st o depth rest hstack hdeep st' hnext ih =>
    rw [loop_cons hstack (not_lt.1 hdeep), hnext, total_of_cons hstack, hstack]
    have hleaves : Leaves depth 0 { st with stack := rest } o.slots st' :=
      leaves_preflightObject hwithin hnext
    have hdepth' : ∀ o' ∈ st'.stack, o'.2 ≤ maxEventDocumentDepth := by
      intro o' ho'
      rcases hleaves.new o' ho' with hold | ⟨hlt, heq, -⟩
      · exact hdepth o' (hstack ▸ mem_cons_of_mem _ hold)
      · omega
    have hsame : st'.loop = .ok () ↔ _ := ih hleaves.within hdepth'
    rw [hleaves.fits_iff, (preflightObject_spec hnext).1] at hsame
    rw [forall_mem_cons, and_comm (a := o.Fits depth)]
    exact hsame

end Preflight

/-- **A document passes exactly if its totals and its shape are allowed.** -/
theorem preflightEventDocument_eq_ok_iff :
    preflightEventDocument doc = .ok () ↔
      (⟨1, 0, 0, 2⟩ + entriesUsage doc : Usage).Within ∧ (map doc).Fits 0 := by
  have hstart : (⟨1, 0, 0, 2⟩ : Usage).Within := by decide
  unfold preflightEventDocument
  rw [Preflight.loop_eq_ok_iff hstart (by simp)]
  simp [Preflight.total, DocObject.inner, Usage.add_zero]

end PeatNode.Node
