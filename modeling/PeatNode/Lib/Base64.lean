/-
# Base64

The standard alphabet with padding, on lists.  Decoding is strict, as the `base64` crate's standard
engine is: the padding must be there and the bits it leaves over must be zero.  Decoding inverts
encoding (`decode_encode`), and the size of the text is a function of the number of bytes alone
(`length_encode`).
-/

import Mathlib.Data.List.Basic

namespace Base64

open List

def symbol (n : ℕ) : Char :=
  if n < 26 then Char.ofNat ('A'.toNat + n)
  else if n < 52 then Char.ofNat ('a'.toNat + (n - 26))
  else if n < 62 then Char.ofNat ('0'.toNat + (n - 52))
  else if n = 62 then '+'
  else '/'

def sextet (c : Char) : Option ℕ :=
  if 'A' ≤ c ∧ c ≤ 'Z' then some (c.toNat - 'A'.toNat)
  else if 'a' ≤ c ∧ c ≤ 'z' then some (c.toNat - 'a'.toNat + 26)
  else if '0' ≤ c ∧ c ≤ '9' then some (c.toNat - '0'.toNat + 52)
  else if c = '+' then some 62
  else if c = '/' then some 63
  else none

/-- The four symbols of three bytes. -/
def quad (a b c : ℕ) : List Char :=
  [symbol (a / 4), symbol (a % 4 * 16 + b / 16), symbol (b % 16 * 4 + c / 64), symbol (c % 64)]

def encode : List UInt8 → List Char
  | [] => []
  | [a] => (quad a.toNat 0 0).take 2 ++ ['=', '=']
  | [a, b] => (quad a.toNat b.toNat 0).take 3 ++ ['=']
  | a :: b :: c :: rest => quad a.toNat b.toNat c.toNat ++ encode rest

/-- The three bytes of four sextets. -/
def triple (x y z w : ℕ) : List UInt8 :=
  [UInt8.ofNat (x * 4 + y / 16), UInt8.ofNat (y % 16 * 16 + z / 4), UInt8.ofNat (z % 4 * 64 + w)]

def decode : List Char → Option (List UInt8)
  | [] => some []
  | x :: y :: z :: w :: rest =>
    if rest = [] ∧ z = '=' ∧ w = '=' then
      match sextet x, sextet y with
      | some x, some y => if y % 16 = 0 then some ((triple x y 0 0).take 1) else none
      | _, _ => none
    else if rest = [] ∧ w = '=' then
      match sextet x, sextet y, sextet z with
      | some x, some y, some z => if z % 4 = 0 then some ((triple x y z 0).take 2) else none
      | _, _, _ => none
    else
      match sextet x, sextet y, sextet z, sextet w with
      | some x, some y, some z, some w => (decode rest).map (triple x y z w ++ ·)
      | _, _, _, _ => none
  | _ => none

theorem sextet_symbol : ∀ n < 64, sextet (symbol n) = some n := by decide

theorem symbol_ne_pad : ∀ n < 64, symbol n ≠ '=' := by decide

/-- Three bytes are read back from their sextets. -/
theorem triple_quad (a b c : UInt8) :
    triple (a.toNat / 4) (a.toNat % 4 * 16 + b.toNat / 16) (b.toNat % 16 * 4 + c.toNat / 64)
      (c.toNat % 64) = [a, b, c] := by
  have ha := a.toNat_lt
  have hb := b.toNat_lt
  have hc := c.toNat_lt
  have hfst : a.toNat / 4 * 4 + (a.toNat % 4 * 16 + b.toNat / 16) / 16 = a.toNat := by omega
  have hsnd : (a.toNat % 4 * 16 + b.toNat / 16) % 16 * 16 + (b.toNat % 16 * 4 + c.toNat / 64) / 4 =
      b.toNat := by omega
  have hthd : (b.toNat % 16 * 4 + c.toNat / 64) % 4 * 64 + c.toNat % 64 = c.toNat := by omega
  rw [triple, hfst, hsnd, hthd]
  simp only [UInt8.ofNat_toNat]

/-- **Decoding inverts encoding.** -/
theorem decode_encode (bytes : List UInt8) : decode (encode bytes) = some bytes := by
  induction bytes using encode.induct with
  | case1 => rfl
  | case2 a =>
    have ha := a.toNat_lt
    have hx := sextet_symbol (a.toNat / 4) (by omega)
    have hy := sextet_symbol (a.toNat % 4 * 16) (by omega)
    have hread : triple (a.toNat / 4) (a.toNat % 4 * 16) 0 0 = [a, 0, 0] := triple_quad a 0 0
    simp [encode, quad, decode, hx, hy, hread]
  | case3 a b =>
    have ha := a.toNat_lt
    have hb := b.toNat_lt
    have hx := sextet_symbol (a.toNat / 4) (by omega)
    have hy := sextet_symbol (a.toNat % 4 * 16 + b.toNat / 16) (by omega)
    have hz := sextet_symbol (b.toNat % 16 * 4) (by omega)
    have hpad := symbol_ne_pad (b.toNat % 16 * 4) (by omega)
    have hread : triple (a.toNat / 4) (a.toNat % 4 * 16 + b.toNat / 16) (b.toNat % 16 * 4) 0 =
        [a, b, 0] := triple_quad a b 0
    simp [encode, quad, decode, hx, hy, hz, hpad, hread]
  | case4 a b c rest ih =>
    have ha := a.toNat_lt
    have hb := b.toNat_lt
    have hc := c.toNat_lt
    have hx := sextet_symbol (a.toNat / 4) (by omega)
    have hy := sextet_symbol (a.toNat % 4 * 16 + b.toNat / 16) (by omega)
    have hz := sextet_symbol (b.toNat % 16 * 4 + c.toNat / 64) (by omega)
    have hw := sextet_symbol (c.toNat % 64) (by omega)
    have hpad := symbol_ne_pad (c.toNat % 64) (by omega)
    simp [encode, quad, decode, hx, hy, hz, hw, hpad, triple_quad, ih]

theorem length_encode (bytes : List UInt8) :
    (encode bytes).length = 4 * ((bytes.length + 2) / 3) := by
  induction bytes using encode.induct with
  | case1 => rfl
  | case2 a | case3 a b => simp [encode, quad]
  | case4 a b c rest ih =>
    simp only [encode, quad, length_append, length_cons, length_nil, ih]
    omega

theorem ascii_of_mem_encode (h : c ∈ encode bytes) : c.toNat < 128 := by
  have hsymbol : ∀ n, (symbol n).toNat < 128 := by
    intro n
    by_cases hn : n < 64
    · have hall : ∀ n < 64, (symbol n).toNat < 128 := by decide
      exact hall n hn
    · have hlast : symbol n = '/' := by
        simp only [symbol, show ¬ n < 26 by omega, show ¬ n < 52 by omega, show ¬ n < 62 by omega,
          show n ≠ 62 by omega, if_false]
      rw [hlast]
      decide
  induction bytes using encode.induct with
  | case1 => simp [encode] at h
  | case2 a =>
    simp only [encode, quad, take, cons_append, nil_append, mem_cons,
      not_mem_nil, or_false] at h
    rcases h with rfl | rfl | rfl | rfl
    · exact hsymbol _
    · exact hsymbol _
    · decide
    · decide
  | case3 a b =>
    simp only [encode, quad, take, cons_append, nil_append, mem_cons,
      not_mem_nil, or_false] at h
    rcases h with rfl | rfl | rfl | rfl
    · exact hsymbol _
    · exact hsymbol _
    · exact hsymbol _
    · decide
  | case4 a b c' rest ih =>
    rcases mem_append.1 h with h | h
    · simp only [quad, mem_cons, not_mem_nil, or_false] at h
      rcases h with rfl | rfl | rfl | rfl <;> exact hsymbol _
    · exact ih h

end Base64
