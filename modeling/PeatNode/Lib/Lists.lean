/-
# Lists of processes

A system of several processes keeps them in a list and replaces the one that takes a
step.  What `List.set` does to the rest, to a sum over the processes and to a relation
between two lists of them.
-/

import Mathlib.Algebra.BigOperators.Group.List.Basic
import Mathlib.Algebra.GroupWithZero.Nat

namespace List

open List

variable {α : Type*}

variable {i : ℕ} {a : α}

/-- Replacing one element of a list leaves the others in place. -/
theorem exists_set_split (h : l[i]? = some a) :
    ∃ l₁ l₂, l = l₁ ++ a :: l₂ ∧ ∀ b, l.set i b = l₁ ++ b :: l₂ := by
  obtain ⟨hi, rfl⟩ := getElem?_eq_some_iff.1 h
  refine ⟨l.take i, l.drop (i + 1), ?_, fun b => ?_⟩
  · rw [cons_getElem_drop_succ, take_append_drop]
  · rw [set_eq_take_append_cons_drop, if_pos hi]

theorem forall_mem_set {p : α → Prop} {l : List α} (h : ∀ b ∈ l, p b) (ha : p a) :
    ∀ b ∈ l.set i a, p b := by
  intro b hb
  rcases mem_or_eq_of_mem_set hb with hb | rfl
  · exact h b hb
  · exact ha

theorem forall_mem_concat {p : α → Prop} (h : ∀ b ∈ l, p b) (ha : p a) : ∀ b ∈ l ++ [a], p b :=
  forall_mem_append.2 ⟨h, forall_mem_singleton.2 ha⟩

theorem getElem?_set_cases {l : List α} (h : (l.set i a)[j]? = some b) :
    j = i ∧ b = a ∨ j ≠ i ∧ l[j]? = some b := by
  by_cases hj : j = i
  · subst hj
    rw [getElem?_set_self'] at h
    obtain ⟨_, _, hab⟩ := Option.map_eq_some_iff.1 h
    exact .inl ⟨rfl, hab.symm⟩
  · rw [getElem?_set_ne (Ne.symm hj)] at h
    exact .inr ⟨hj, h⟩

theorem getElem?_concat_cases {l : List α} (h : (l ++ [a])[i]? = some b) :
    l[i]? = some b ∨ i = l.length ∧ b = a := by
  rw [getElem?_append] at h
  split_ifs at h with hi
  · exact .inl h
  · obtain ⟨hlt, rfl⟩ := getElem?_eq_some_iff.1 h
    rw [length_singleton] at hlt
    exact .inr ⟨by omega, getElem_singleton _⟩

/-- The pieces of a list do not have what it is split at. -/
theorem notMem_of_mem_splitOn [BEq α] [LawfulBEq α] {l piece : List α} (h : piece ∈ l.splitOn a) :
    a ∉ piece := by
  induction l generalizing piece with
  | nil =>
    rw [splitOn_nil, mem_singleton] at h
    simp [h]
  | cons b l ih =>
    rw [splitOn_cons_eq_if_modifyHead] at h
    split at h
    · rcases mem_cons.1 h with rfl | h
      · simp
      · exact ih h
    · rename_i hb
      obtain ⟨first, rest, hsplit⟩ := exists_cons_of_ne_nil (splitOn_ne_nil a l)
      rw [hsplit] at h ih
      rcases mem_cons.1 h with rfl | h
      · have hfirst := ih mem_cons_self
        have hne : ¬ a = b := fun hs => hb (by simp [hs])
        simp [hne, hfirst]
      · exact ih (mem_cons_of_mem _ h)

theorem mem_intercalate_singleton {b : α} (hne : a ≠ b) {ls : List (List α)} :
    a ∈ [b].intercalate ls ↔ ∃ l ∈ ls, a ∈ l := by
  induction ls with
  | nil => simp [intercalate]
  | cons l ls ih =>
    cases ls with
    | nil => simp [intercalate]
    | cons l' ls => simpa [intercalate_cons_cons, hne] using or_congr_right ih

/-- A list that grows at its end keeps its elements in place. -/
theorem IsPrefix.getElem?_eq_some (h : l <+: l') (ha : l[i]? = some a) : l'[i]? = some a := by
  obtain ⟨new, rfl⟩ := h
  rw [getElem?_append_left (getElem?_eq_some_iff.1 ha).1, ha]

theorem map_set_of_eq {l : List α} (h : l[i]? = some a) (hf : f b = f a) :
    (l.set i b).map f = l.map f := by
  obtain ⟨l₁, l₂, hsplit, hset⟩ := exists_set_split h
  rw [hset, hsplit, map_append, map_append, map_cons, map_cons, hf]

/-- Changing one element so that `p` does not see it keeps the count of `p`. -/
theorem countP_modify_of_eq (h : ∀ a, p (f a) = p a) (l : List α) (i : ℕ) :
    (l.modify i f).countP p = l.countP p := by
  by_cases hi : i < l.length
  · obtain ⟨l₁, a, l₂, hsplit, -, hmodify⟩ := exists_of_modify f hi
    rw [hmodify, hsplit, countP_append, countP_append, countP_cons, countP_cons, h]
  · rw [modify_eq_self (Nat.le_of_not_lt hi)]

theorem sum_map_set [AddCommMonoid M] {l : List α} (h : l[i]? = some a) (f : α → M) (b : α) :
    ((l.set i b).map f).sum + f a = (l.map f).sum + f b := by
  obtain ⟨l₁, l₂, hsplit, hset⟩ := exists_set_split h
  rw [hset, hsplit]
  simp only [map_append, map_cons, sum_append, sum_cons]
  ac_rfl

theorem sum_map_eraseIdx [AddCommMonoid M] {l : List α} (h : l[i]? = some a) (f : α → M) :
    ((l.eraseIdx i).map f).sum + f a = (l.map f).sum := by
  obtain ⟨hi, rfl⟩ := getElem?_eq_some_iff.1 h
  have hsum := add_sum_eraseIdx (l := l.map f) (by simpa using hi) fun b _ => AddCommute.all _ b
  rwa [getElem_map, eraseIdx_map, add_comm] at hsum

theorem forall₂_set (hrefl : ∀ a, R a a) (h : l[i]? = some a) (hab : R a b) :
    Forall₂ R l (l.set i b) := by
  obtain ⟨l₁, l₂, hsplit, hset⟩ := exists_set_split h
  rw [hset, hsplit]
  exact rel_append (forall₂_same.2 fun a _ => hrefl a)
    (.cons hab (forall₂_same.2 fun a _ => hrefl a))

theorem exists_of_forall₂ (h : Forall₂ R l l') (hb : b ∈ l') : ∃ a ∈ l, R a b := by
  induction h with
  | nil => cases hb
  | cons hab _ ih =>
    rcases mem_cons.1 hb with rfl | hb
    · exact ⟨_, mem_cons_self, hab⟩
    · exact (ih hb).imp fun a h => ⟨mem_cons_of_mem _ h.1, h.2⟩

theorem findSome?_eq_of_unique {l : List α} (ha : a ∈ l) (hunique : ∀ b ∈ l, f b ≠ none → b = a) :
    l.findSome? f = f a := by
  cases hl : l.findSome? f with
  | none => exact (findSome?_eq_none_iff.1 hl a ha).symm
  | some c =>
    obtain ⟨b, hb, hfb⟩ := exists_of_findSome?_eq_some hl
    rw [← hunique b hb (by rw [hfb]; nofun), hfb]

/-- There are as many different texts as are asked for. -/
theorem ofList_replicate_injective (c : Char) :
    Function.Injective fun n => String.ofList (replicate n c) := fun m n h => by
  simpa using congrArg (fun text => text.toList.length) h

end List
