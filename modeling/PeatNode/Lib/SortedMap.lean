/-
# Maps in the order of their keys

A map as the list of its members in the order of their keys, as a B-tree iterates over
them.  The laws of `insert` and `lookup` need no invariant of the list.
-/

import Mathlib.Order.Lattice

namespace SortedMap

variable {κ α : Type} [LinearOrder κ]

def insert (k : κ) (a : α) : List (κ × α) → List (κ × α)
  | [] => [(k, a)]
  | (k', a') :: ms =>
    if k < k' then (k, a) :: (k', a') :: ms
    else if k = k' then (k, a) :: ms
    else (k', a') :: insert k a ms

variable {k l : κ} {a b : α}

theorem lookup_insert_self (ms : List (κ × α)) : (insert k a ms).lookup k = some a := by
  induction ms with
  | nil => simp [insert]
  | cons m ms ih => grind [insert]

theorem lookup_insert_ne (h : l ≠ k) (ms : List (κ × α)) :
    (insert k a ms).lookup l = ms.lookup l := by
  induction ms with
  | nil => grind [insert]
  | cons m ms ih => grind [insert]

theorem insert_insert (ms : List (κ × α)) : insert k b (insert k a ms) = insert k b ms := by
  induction ms with
  | nil => grind [insert]
  | cons m ms ih => grind [insert]

theorem insert_comm (h : k ≠ l) (ms : List (κ × α)) :
    insert k a (insert l b ms) = insert l b (insert k a ms) := by
  induction ms with
  | nil => grind [insert]
  | cons m ms ih => grind [insert]

end SortedMap
