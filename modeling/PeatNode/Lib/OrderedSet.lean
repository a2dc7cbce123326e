/-
# Ordered sets

A set that is walked through in the order of its elements, as `BTreeSet` is: a strictly increasing
list.  `mem_insert` and `mem_remove` say what is there; `first?` and `last?` are the ends of the
walk.
-/

import Mathlib.Data.List.MinMax
import Mathlib.Data.List.Sort

/-- A finite set, as the increasing list of its elements. -/
structure OrderedSet (α : Type*) [LinearOrder α] where
  toList : List α
  sorted : toList.Pairwise (· < ·)
deriving DecidableEq

namespace OrderedSet

open List

variable {α : Type*} [LinearOrder α] {s : OrderedSet α} {a b : α}

instance : Membership α (OrderedSet α) := ⟨fun s a => a ∈ s.toList⟩

theorem mem_def : a ∈ s ↔ a ∈ s.toList := Iff.rfl

instance (a : α) (s : OrderedSet α) : Decidable (a ∈ s) := inferInstanceAs (Decidable (a ∈ s.toList))

instance : EmptyCollection (OrderedSet α) := ⟨⟨[], .nil⟩⟩

@[simp] theorem notMem_empty : a ∉ (∅ : OrderedSet α) := not_mem_nil

theorem eq_empty_iff : s = ∅ ↔ ∀ a, a ∉ s := by
  constructor
  · rintro rfl a
    exact notMem_empty
  · intro h
    obtain ⟨l, hl⟩ := s
    obtain rfl : l = [] := eq_nil_iff_forall_not_mem.2 h
    rfl

theorem nodup (s : OrderedSet α) : s.toList.Nodup := s.sorted.imp ne_of_lt

def len (s : OrderedSet α) : ℕ := s.toList.length

def first? (s : OrderedSet α) : Option α := s.toList.head?

def last? (s : OrderedSet α) : Option α := s.toList.getLast?

/-- The first with the least key. -/
def minByKey {β : Type*} [LinearOrder β] (key : α → β) (s : OrderedSet α) : Option α :=
  s.toList.argmin key

def insert (s : OrderedSet α) (a : α) : OrderedSet α :=
  if h : a ∈ s then s
  else
    { toList := s.toList.orderedInsert (· ≤ ·) a
      sorted := by
        have hperm := perm_orderedInsert (· ≤ ·) a s.toList
        have hnodup : (s.toList.orderedInsert (· ≤ ·) a).Nodup :=
          hperm.nodup_iff.2 (nodup_cons.2 ⟨h, s.nodup⟩)
        have hle := (s.sorted.imp le_of_lt).orderedInsert a
        exact (hle.and hnodup).imp fun h => lt_of_le_of_ne h.1 h.2 }

def remove (s : OrderedSet α) (a : α) : OrderedSet α :=
  ⟨s.toList.erase a, s.sorted.sublist erase_sublist⟩

theorem mem_insert : b ∈ s.insert a ↔ b = a ∨ b ∈ s := by
  by_cases h : a ∈ s
  · rw [insert, dif_pos h]
    constructor
    · exact .inr
    · rintro (rfl | hb)
      · exact h
      · exact hb
  · rw [insert, dif_neg h]
    exact mem_orderedInsert _

theorem mem_remove : b ∈ s.remove a ↔ b ≠ a ∧ b ∈ s := s.nodup.mem_erase_iff

theorem len_insert (h : a ∉ s) : (s.insert a).len = s.len + 1 := by
  rw [insert, dif_neg h]
  exact orderedInsert_length _ _ _

theorem len_remove (h : a ∈ s) : (s.remove a).len + 1 = s.len := length_erase_add_one h

theorem first?_eq_none_iff : s.first? = none ↔ ∀ a, a ∉ s := by
  rw [first?, head?_eq_none_iff, eq_nil_iff_forall_not_mem]
  rfl

theorem mem_of_first? (h : s.first? = some a) : a ∈ s := mem_of_head? h

theorem first?_le (h : s.first? = some a) (hb : b ∈ s) : a ≤ b := by
  obtain ⟨l, hl⟩ := head?_eq_some_iff.1 h
  have hsorted := s.sorted
  rw [hl] at hsorted
  rw [mem_def, hl] at hb
  rcases mem_cons.1 hb with rfl | hb
  · exact le_refl b
  · exact le_of_lt (rel_of_pairwise_cons hsorted hb)

theorem mem_of_last? (h : s.last? = some a) : a ∈ s := mem_of_getLast? h

theorem le_last? (h : s.last? = some a) (hb : b ∈ s) : b ≤ a := by
  obtain ⟨l, hl⟩ := getLast?_eq_some_iff.1 h
  have hsorted := s.sorted
  rw [hl] at hsorted
  rw [mem_def, hl] at hb
  rcases mem_append.1 hb with hb | hb
  · exact le_of_lt ((pairwise_append.1 hsorted).2.2 b hb a mem_cons_self)
  · exact (mem_singleton.1 hb).le

section MinByKey

variable {β : Type*} [LinearOrder β] {key : α → β}

theorem mem_of_minByKey (h : s.minByKey key = some a) : a ∈ s := argmin_mem h

theorem minByKey_le (h : s.minByKey key = some a) (hb : b ∈ s) : key a ≤ key b :=
  le_of_mem_argmin hb h

theorem exists_minByKey (h : a ∈ s) : ∃ b, s.minByKey key = some b := by
  rw [← Option.isSome_iff_exists, ← Option.ne_none_iff_isSome, minByKey, Ne, argmin_eq_none]
  exact ne_nil_of_mem h

end MinByKey

end OrderedSet
