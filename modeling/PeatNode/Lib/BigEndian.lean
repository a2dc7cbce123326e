/-
# Big-endian unsigned integers

The `w`-byte big-endian form of a natural number and the number a byte string stands for.  Writing
and reading back is reduction modulo `256 ^ w` (`ofBytes_toBytes`), reading and writing back is the
identity (`toBytes_ofBytes`).  Byte strings behind their lengths can be told apart in a sequence
(`framed_append_inj`).
-/

import Mathlib.Data.List.Induction
import Mathlib.Tactic.Ring

namespace BigEndian

/-- The last `w` base-256 digits. -/
def toBytes : ℕ → ℕ → List UInt8
  | 0, _ => []
  | w + 1, n => toBytes w (n / 256) ++ [UInt8.ofNat n]

/-- Base-256 digits, most significant first. -/
def ofBytes (bytes : List UInt8) : ℕ := bytes.foldl (fun n b => n * 256 + b.toNat) 0

@[simp] theorem length_toBytes (w n : ℕ) : (toBytes w n).length = w := by
  induction w generalizing n with
  | zero => rfl
  | succ w ih => simp [toBytes, ih]

@[simp] theorem ofBytes_nil : ofBytes [] = 0 := rfl

theorem ofBytes_concat (bytes : List UInt8) (b : UInt8) :
    ofBytes (bytes ++ [b]) = ofBytes bytes * 256 + b.toNat := by
  simp [ofBytes, List.foldl_append]

/-- **Reading what was written.**  A field of `w` bytes keeps a number modulo
`256 ^ w`. -/
theorem ofBytes_toBytes (w n : ℕ) : ofBytes (toBytes w n) = n % 256 ^ w := by
  induction w generalizing n with
  | zero => simp [toBytes, Nat.mod_one]
  | succ w ih =>
    rw [toBytes, ofBytes_concat, ih, pow_succ, mul_comm (256 ^ w), Nat.mod_mul]
    simp only [UInt8.toNat_ofNat']
    omega

theorem ofBytes_toBytes_of_lt (h : n < 256 ^ w) : ofBytes (toBytes w n) = n := by
  rw [ofBytes_toBytes, Nat.mod_eq_of_lt h]

/-- **Writing what was read.**  A byte string is the form of its number at its
own width. -/
theorem toBytes_ofBytes (bytes : List UInt8) : toBytes bytes.length (ofBytes bytes) = bytes := by
  induction bytes using List.reverseRecOn with
  | nil => rfl
  | append_singleton bytes b ih =>
    have hlow : UInt8.ofNat (ofBytes bytes * 256 + b.toNat) = b := by
      apply UInt8.toNat_inj.1
      have := UInt8.toNat_lt b
      rw [UInt8.toNat_ofNat']
      omega
    have hhigh : (ofBytes bytes * 256 + b.toNat) / 256 = ofBytes bytes := by
      have := UInt8.toNat_lt b
      omega
    rw [List.length_append, List.length_singleton, toBytes, ofBytes_concat, hhigh, ih, hlow]

theorem eq_toBytes_of_ofBytes_eq (hlen : bytes.length = w) (h : ofBytes bytes = n) :
    bytes = toBytes w n := by
  rw [← hlen, ← h, toBytes_ofBytes]

theorem toBytes_inj (hm : m < 256 ^ w) (hn : n < 256 ^ w) (h : toBytes w m = toBytes w n) :
    m = n := by
  rw [← ofBytes_toBytes_of_lt hm, h, ofBytes_toBytes_of_lt hn]

/-- The bytes behind their number. -/
def framed (w : ℕ) (bytes : List UInt8) : List UInt8 := toBytes w bytes.length ++ bytes

/-- **A frame ends where it ends**, whatever follows it. -/
theorem framed_append_inj (ha : a.length < 256 ^ w) (hb : b.length < 256 ^ w)
    (h : framed w a ++ rest = framed w b ++ rest') : a = b ∧ rest = rest' := by
  rw [framed, framed, List.append_assoc, List.append_assoc] at h
  obtain ⟨hnum, hbytes⟩ := List.append_inj h (by simp)
  exact List.append_inj hbytes (toBytes_inj ha hb hnum)

end BigEndian
