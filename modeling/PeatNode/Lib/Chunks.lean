/-
# Whole chunks of a list

`wholeChunks k l` cuts `l` into pieces of exactly `k` elements and drops a shorter rest, as Rust's
`chunks_exact` does; `chunks k l` keeps the rest as a last piece.  A reader of whole chunks is
indifferent to a torn rest (`wholeChunks_append_short`), and what it sees of a list it still sees of
every extension (`wholeChunks_of_isPrefix`).
-/

import Mathlib.Data.List.Range
import Mathlib.Tactic.Ring

namespace Chunks

open List Nat

variable {α : Type*}

/-- Rust's `chunks_exact`, without the rest. -/
def wholeChunks (k : ℕ) (l : List α) : List (List α) :=
  (List.range (l.length / k)).map fun i => (l.drop (i * k)).take k

@[simp] theorem length_wholeChunks (k : ℕ) (l : List α) :
    (wholeChunks k l).length = l.length / k := by
  simp [wholeChunks]

@[simp] theorem wholeChunks_nil (k : ℕ) : wholeChunks k ([] : List α) = [] := by
  simp [wholeChunks]

variable {k : ℕ}

/-- **Chunks of an aligned list in front.**  When the length of `l` is a
multiple of `k`, the cuts in `l` do not depend on what follows it. -/
theorem wholeChunks_append (hk : 0 < k) (hl : l.length = m * k) (r : List α) :
    wholeChunks k (l ++ r) = wholeChunks k l ++ wholeChunks k r := by
  have hdiv : (l ++ r).length / k = m + r.length / k := by
    rw [length_append, hl, add_comm, add_mul_div_right _ _ hk, add_comm]
  have hm : l.length / k = m := by rw [hl, Nat.mul_div_cancel _ hk]
  unfold wholeChunks
  rw [hdiv, hm, range_add, map_append, map_map]
  congr 1
  · apply map_congr_left
    intro i hi
    have hle : (i + 1) * k ≤ m * k := mul_le_mul_right k (mem_range.1 hi)
    rw [add_mul, one_mul] at hle
    rw [drop_append_of_le_length (by omega), take_append_of_le_length]
    rw [length_drop]
    omega
  · apply map_congr_left
    intro i _
    have hdrop : (m + i) * k = l.length + i * k := by rw [hl]; ring
    simp only [Function.comp_apply]
    rw [hdrop, drop_length_add_append]

theorem wholeChunks_short (hr : r.length < k) : wholeChunks k r = [] := by
  simp [wholeChunks, div_eq_of_lt hr]

theorem wholeChunks_append_short (hl : l.length = m * k) (hr : r.length < k) :
    wholeChunks k (l ++ r) = wholeChunks k l := by
  rw [wholeChunks_append (by omega) hl, wholeChunks_short hr, append_nil]

theorem wholeChunks_single (hk : 0 < k) (hc : c.length = k) : wholeChunks k c = [c] := by
  subst hc
  simp [wholeChunks, Nat.div_self hk]

theorem flatten_wholeChunks (hk : 0 < k) (hl : l.length = m * k) :
    (wholeChunks k l).flatten = l := by
  induction m generalizing l with
  | zero =>
    rw [zero_mul, length_eq_zero_iff] at hl
    simp [hl]
  | succ m ih =>
    have hhead : (l.take k).length = k := by
      rw [length_take, hl, succ_mul]
      omega
    have htail : (l.drop k).length = m * k := by
      rw [length_drop, hl, succ_mul]
      omega
    have hone : (l.take k).length = 1 * k := by rw [hhead, one_mul]
    conv_lhs => rw [← take_append_drop k l]
    rw [wholeChunks_append hk hone, wholeChunks_single hk hhead, flatten_append, ih htail,
      flatten_singleton, take_append_drop]

theorem exists_aligned_append_short (hk : 0 < k) (l : List α) :
    ∃ a r, l = a ++ r ∧ a.length = l.length / k * k ∧ r.length < k := by
  have hle : l.length / k * k ≤ l.length := div_mul_le_self _ _
  refine ⟨l.take (l.length / k * k), l.drop (l.length / k * k), (take_append_drop _ _).symm,
    by rw [length_take, min_eq_left hle], ?_⟩
  rw [length_drop]
  have := mod_add_div l.length k
  have hlt := mod_lt l.length hk
  rw [mul_comm] at this
  omega

/-- **Chunks survive an extension**: those of an initial segment are the first of the list. -/
theorem wholeChunks_of_isPrefix (hk : 0 < k) (h : l <+: l') :
    wholeChunks k l <+: wholeChunks k l' := by
  obtain ⟨t, rfl⟩ := h
  obtain ⟨a, r, hl, ha, hr⟩ := exists_aligned_append_short hk l
  rw [hl] at ha ⊢
  rw [wholeChunks_append_short ha hr, append_assoc, wholeChunks_append hk ha]
  exact prefix_append _ _

theorem wholeChunks_take (hk : 0 < k) (h : l.length / k ≤ m) :
    wholeChunks k (l.take (m * k)) = wholeChunks k l := by
  rcases le_total l.length (m * k) with hle | hle
  · rw [take_of_length_le hle]
  · have hm : (l.take (m * k)).length = m * k := by rw [length_take, min_eq_left hle]
    have hrest : (l.drop (m * k)).length < k := by
      have hlt := lt_mul_of_div_lt (lt_succ_of_le h) hk
      rw [succ_mul] at hlt
      rw [length_drop]
      omega
    conv_rhs => rw [← take_append_drop (m * k) l]
    rw [wholeChunks_append_short hm hrest]

/-- Rust's `chunks`. -/
def chunks (k : ℕ) (l : List α) : List (List α) :=
  wholeChunks k l ++ if l.length % k = 0 then [] else [l.drop (l.length / k * k)]

/-- **Chunks lose nothing.** -/
theorem flatten_chunks (hk : 0 < k) (l : List α) : (chunks k l).flatten = l := by
  have hle : l.length / k * k ≤ l.length := div_mul_le_self _ _
  have hwhole : (wholeChunks k l).flatten = l.take (l.length / k * k) := by
    rw [← wholeChunks_take hk (le_refl (l.length / k))]
    exact flatten_wholeChunks hk (by rw [length_take, min_eq_left hle])
  rw [chunks, flatten_append, hwhole]
  split_ifs with h
  · have hall : l.length / k * k = l.length := Nat.div_mul_cancel (Nat.dvd_of_mod_eq_zero h)
    rw [hall, take_length, flatten_nil, append_nil]
  · rw [flatten_singleton, take_append_drop]

theorem length_chunks_le (hk : 0 < k) (l : List α) : (chunks k l).length ≤ l.length := by
  have hdiv := div_add_mod l.length k
  have hmul : l.length / k ≤ k * (l.length / k) := Nat.le_mul_of_pos_left _ hk
  rw [chunks, length_append, length_wholeChunks]
  split_ifs with h
  · rw [length_nil]
    omega
  · rw [length_singleton]
    omega

end Chunks
