/-
# JSON values and their text

Values, the compact text that `serde_json::to_string` writes for them, and the size of that text in
bytes.  A `Number` carries a text that the automaton of the number grammar accepts.

A quote, a backslash and the five control characters with a short form take two bytes, any other
control character takes six (`escapeChar`), so a text without other control characters than white
space at most doubles (`utf8Len_escape_le`).
-/

import Mathlib.Data.Nat.Digits.Lemmas
import Mathlib.Data.String.Basic

namespace Json

open List Nat

open String (utf8Len)

/-! ### Numbers -/

/-- Where the automaton of the number grammar stands. -/
inductive NumberState
  | start
  | minus
  | zero
  | int
  | point
  | fraction
  | exponent
  | exponentSign
  | exponentInt
deriving DecidableEq

namespace NumberState

def step : NumberState → Char → Option NumberState
  | .start, c =>
    if c = '-' then some .minus
    else if c = '0' then some .zero
    else if c.isDigit then some .int
    else none
  | .minus, c => if c = '0' then some .zero else if c.isDigit then some .int else none
  | .zero, c => if c = '.' then some .point else if c = 'e' ∨ c = 'E' then some .exponent else none
  | .int, c =>
    if c.isDigit then some .int
    else if c = '.' then some .point
    else if c = 'e' ∨ c = 'E' then some .exponent
    else none
  | .point, c => if c.isDigit then some .fraction else none
  | .fraction, c =>
    if c.isDigit then some .fraction else if c = 'e' ∨ c = 'E' then some .exponent else none
  | .exponent, c =>
    if c = '+' ∨ c = '-' then some .exponentSign
    else if c.isDigit then some .exponentInt
    else none
  | .exponentSign, c => if c.isDigit then some .exponentInt else none
  | .exponentInt, c => if c.isDigit then some .exponentInt else none

def accepts : NumberState → Bool
  | .zero | .int | .fraction | .exponentInt => true
  | .start | .minus | .point | .exponent | .exponentSign => false

end NumberState

/-- The longest number, and the rest. -/
def scanNumber (s : NumberState) : List Char → Option (List Char × List Char)
  | [] => if s.accepts then some ([], []) else none
  | c :: cs =>
    match s.step c with
    | some s' => (scanNumber s' cs).map fun r => (c :: r.1, r.2)
    | none => if s.accepts then some ([], c :: cs) else none

/-- A number as it is written. -/
structure Number where
  text : List Char
  valid : scanNumber .start text = some (text, [])
deriving DecidableEq

/-- Nothing in the text continues a number. -/
def Stops (rest : List Char) : Prop := ∀ c ∈ rest.head?, ∀ s : NumberState, s.step c = none

/-- A number is read up to a text that does not continue it. -/
theorem scanNumber_append (h : scanNumber s l = some (l, [])) (hrest : Stops rest) :
    scanNumber s (l ++ rest) = some (l, rest) := by
  induction l generalizing s with
  | nil =>
    have hacc : s.accepts = true := by
      by_contra hno
      simp [scanNumber, hno] at h
    cases rest with
    | nil => simp [scanNumber, hacc]
    | cons c rest => simp [scanNumber, hacc, hrest c rfl s]
  | cons c l ih =>
    simp only [scanNumber, cons_append] at h ⊢
    cases hs : s.step c with
    | none =>
      rw [hs] at h
      simp at h
    | some s' =>
      rw [hs] at h
      simp only [Option.map_eq_some_iff, Prod.mk.injEq, List.cons.injEq, true_and] at h
      obtain ⟨⟨l', rest'⟩, hscan, rfl, rfl⟩ := h
      simp [ih hscan]

def digitChar (d : ℕ) : Char := Char.ofNat ('0'.toNat + d)

def digitValue (c : Char) : ℕ := c.toNat - '0'.toNat

theorem isDigit_digitChar : ∀ d < 10, (digitChar d).isDigit = true := by decide

theorem digitValue_digitChar : ∀ d < 10, digitValue (digitChar d) = d := by decide

/-- Most significant digit first. -/
def decimal (n : ℕ) : List Char :=
  if n = 0 then ['0'] else ((Nat.digits 10 n).map digitChar).reverse

theorem isDigit_of_mem_decimal (h : c ∈ decimal n) : c.isDigit = true := by
  unfold decimal at h
  split_ifs at h
  · rw [mem_singleton.1 h]
    rfl
  · obtain ⟨d, hd, rfl⟩ := mem_map.1 (mem_reverse.1 h)
    exact isDigit_digitChar d (digits_lt_base (by decide) hd)

theorem scanNumber_int (h : ∀ c ∈ cs, c.isDigit = true) : scanNumber .int cs = some (cs, []) := by
  induction cs with
  | nil => rfl
  | cons c cs ih =>
    have hc := h c mem_cons_self
    simp [scanNumber, NumberState.step, hc, ih fun d hd => h d (mem_cons_of_mem c hd)]

/-- The first digit of a positive number is not zero. -/
theorem exists_cons_of_decimal (hn : n ≠ 0) : ∃ c cs, decimal n = c :: cs ∧ c ≠ '0' := by
  have hne : Nat.digits 10 n ≠ [] := digits_ne_nil_iff_ne_zero.2 hn
  have hlast := getLast_digit_ne_zero 10 hn
  have hlt : (Nat.digits 10 n).getLast hne < 10 := digits_lt_base (by decide) (getLast_mem hne)
  have hall : ∀ d < 10, d ≠ 0 → digitChar d ≠ '0' := by decide
  refine ⟨digitChar ((Nat.digits 10 n).getLast hne),
    (((Nat.digits 10 n).dropLast).map digitChar).reverse, ?_, hall _ hlt hlast⟩
  have hsplit := congrArg (fun l => (l.map digitChar).reverse) (dropLast_append_getLast hne)
  rw [decimal, if_neg hn, ← hsplit]
  simp

/-- The digits of a number may stand at the start and after a minus sign. -/
theorem scanNumber_digits (hs : s = .start ∨ s = .minus) (n : ℕ) :
    scanNumber s (decimal n) = some (decimal n, []) := by
  by_cases hn : n = 0
  · subst hn
    rcases hs with rfl | rfl <;> rfl
  · obtain ⟨c, cs, hcs, hzero⟩ := exists_cons_of_decimal hn
    have hdigits : ∀ d ∈ c :: cs, d.isDigit = true := fun d hd => isDigit_of_mem_decimal (hcs ▸ hd)
    have hc := hdigits c mem_cons_self
    have hminus : c ≠ '-' := by
      rintro rfl
      simp at hc
    have hrest := scanNumber_int fun d hd => hdigits d (mem_cons_of_mem c hd)
    rw [hcs]
    rcases hs with rfl | rfl <;> simp [scanNumber, NumberState.step, hzero, hminus, hc, hrest]

theorem scanNumber_decimal (n : ℕ) : scanNumber .start (decimal n) = some (decimal n, []) :=
  scanNumber_digits (.inl rfl) n

theorem scanNumber_minus (n : ℕ) :
    scanNumber .start ('-' :: decimal n) = some ('-' :: decimal n, []) := by
  have hrest := scanNumber_digits (.inr rfl) n
  simp [scanNumber, NumberState.step, hrest]

def Number.ofNat (n : ℕ) : Number := ⟨decimal n, scanNumber_decimal n⟩

def Number.ofInt : ℤ → Number
  | .ofNat n => .ofNat n
  | .negSucc n => ⟨'-' :: decimal (n + 1), scanNumber_minus (n + 1)⟩

/-- If it is a natural number. -/
def Number.toNat? (n : Number) : Option ℕ :=
  if n.text.all Char.isDigit then some (Nat.ofDigits 10 (n.text.map digitValue).reverse) else none

theorem Number.toNat?_ofNat (n : ℕ) : (Number.ofNat n).toNat? = some n := by
  have hall : (decimal n).all Char.isDigit = true :=
    all_eq_true.2 fun c hc => isDigit_of_mem_decimal hc
  rw [toNat?, ofNat, if_pos hall]
  congr 1
  by_cases hn : n = 0
  · subst hn
    rfl
  · have hback : ((Nat.digits 10 n).map digitChar).map digitValue = Nat.digits 10 n := by
      rw [map_map]
      refine (map_congr_left fun d hd => ?_).trans (map_id _)
      exact digitValue_digitChar d (digits_lt_base (by decide) hd)
    simp only [decimal, if_neg hn, map_reverse, reverse_reverse, hback,
      ofDigits_digits]

/-! ### Values -/

inductive Value
  | null
  | bool (b : Bool)
  | number (n : Number)
  | string (s : String)
  | array (items : List Value)
  | object (members : List (String × Value))

/-- How deep arrays and objects are nested. -/
def Value.depth : Value → ℕ
  | .null | .bool _ | .number _ | .string _ => 0
  | .array items => depths items + 1
  | .object members => memberDepths members + 1
where
  depths : List Value → ℕ
    | [] => 0
    | v :: vs => max v.depth (depths vs)
  memberDepths : List (String × Value) → ℕ
    | [] => 0
    | (_, v) :: ms => max v.depth (memberDepths ms)

def Value.numbers : Value → List Number
  | .null | .bool _ | .string _ => []
  | .number n => [n]
  | .array items => itemsNumbers items
  | .object members => membersNumbers members
where
  itemsNumbers : List Value → List Number
    | [] => []
    | v :: vs => v.numbers ++ itemsNumbers vs
  membersNumbers : List (String × Value) → List Number
    | [] => []
    | (_, v) :: ms => v.numbers ++ membersNumbers ms

/-- Of the members with one name, the last. -/
def lastOfEach : List (String × Value) → List (String × Value)
  | [] => []
  | m :: ms => if ms.any (·.1 = m.1) then lastOfEach ms else m :: lastOfEach ms

/-- The value as a map type keeps it. -/
def Value.merged : Value → Value
  | .null => .null
  | .bool b => .bool b
  | .number n => .number n
  | .string s => .string s
  | .array items => .array (itemsMerged items)
  | .object members => .object (lastOfEach (membersMerged members))
where
  itemsMerged : List Value → List Value
    | [] => []
    | v :: vs => v.merged :: itemsMerged vs
  membersMerged : List (String × Value) → List (String × Value)
    | [] => []
    | (k, v) :: ms => (k, v.merged) :: membersMerged ms

mutual

/-- Equal up to the order of the members of objects. -/
inductive Same : Value → Value → Prop
  | null : Same .null .null
  | bool (b : Bool) : Same (.bool b) (.bool b)
  | number (n : Number) : Same (.number n) (.number n)
  | string (s : String) : Same (.string s) (.string s)
  | array (h : SameItems vs ws) : Same (.array vs) (.array ws)
  | object (h : SameMembers ms ns) (hperm : ns.Perm ns') :
      Same (.object ms) (.object ns')

inductive SameItems : List Value → List Value → Prop
  | nil : SameItems [] []
  | cons (h : Same v w) (hs : SameItems vs ws) :
      SameItems (v :: vs) (w :: ws)

inductive SameMembers : List (String × Value) → List (String × Value) → Prop
  | nil : SameMembers [] []
  | cons {k : String} {v w : Value} {ms ns : List (String × Value)} (h : Same v w)
      (hs : SameMembers ms ns) : SameMembers ((k, v) :: ms) ((k, w) :: ns)

end

/-! ### Text -/

def hexDigit (n : ℕ) : Char :=
  if n < 10 then Char.ofNat ('0'.toNat + n) else Char.ofNat ('a'.toNat + (n - 10))

def escapeChar (c : Char) : List Char :=
  if c = '"' then ['\\', '"']
  else if c = '\\' then ['\\', '\\']
  else if c = '\x08' then ['\\', 'b']
  else if c = '\t' then ['\\', 't']
  else if c = '\n' then ['\\', 'n']
  else if c = '\x0c' then ['\\', 'f']
  else if c = '\r' then ['\\', 'r']
  else if c.toNat < 32 then
    ['\\', 'u', '0', '0', hexDigit (c.toNat / 16), hexDigit (c.toNat % 16)]
  else [c]

def escape (cs : List Char) : List Char := cs.flatMap escapeChar

def quote (s : String) : List Char := '"' :: escape s.toList ++ ['"']

/-- The text of a value, without white space. -/
def Value.render : Value → List Char
  | .null => ['n', 'u', 'l', 'l']
  | .bool true => ['t', 'r', 'u', 'e']
  | .bool false => ['f', 'a', 'l', 's', 'e']
  | .number n => n.text
  | .string s => quote s
  | .array [] => ['[', ']']
  | .array (v :: vs) => '[' :: v.render ++ itemsTail vs
  | .object [] => ['{', '}']
  | .object ((k, v) :: ms) => '{' :: quote k ++ ':' :: v.render ++ membersTail ms
where
  itemsTail : List Value → List Char
    | [] => [']']
    | v :: vs => ',' :: v.render ++ itemsTail vs
  membersTail : List (String × Value) → List Char
    | [] => ['}']
    | (k, v) :: ms => ',' :: quote k ++ ':' :: v.render ++ membersTail ms

/-- `serde_json::to_string`. -/
def Value.toText (v : Value) : String := String.ofList v.render

/-! ### Sizes -/

/-- The character is not escaped. -/
def Literal (c : Char) : Prop := c ≠ '"' ∧ c ≠ '\\' ∧ 32 ≤ c.toNat
deriving Decidable

/-- The character may stand in a JSON text as it is. -/
def Plain (c : Char) : Prop := 32 ≤ c.toNat ∨ c = '\t' ∨ c = '\n' ∨ c = '\r'
deriving Decidable

theorem escapeChar_of_literal (h : Literal c) : escapeChar c = [c] := by
  obtain ⟨hquote, hslash, hctrl⟩ := h
  have hne : ∀ d : Char, d.toNat < 32 → c ≠ d := by
    rintro d hd rfl
    omega
  simp [escapeChar, hquote, hslash, hne '\x08' (by decide), hne '\t' (by decide),
    hne '\n' (by decide), hne '\x0c' (by decide), hne '\r' (by decide), Nat.not_lt.2 hctrl]

theorem escape_of_literal (h : ∀ c ∈ cs, Literal c) : escape cs = cs := by
  induction cs with
  | nil => rfl
  | cons c cs ih =>
    have hcs : escape cs = cs := ih fun d hd => h d (List.mem_cons_of_mem c hd)
    simp only [escape, List.flatMap_cons] at hcs ⊢
    rw [escapeChar_of_literal (h c List.mem_cons_self), hcs]
    rfl

theorem utf8Len_escapeChar_le (h : Plain c) : utf8Len (escapeChar c) ≤ 2 * c.utf8Size := by
  by_cases hl : Literal c
  · rw [escapeChar_of_literal hl]
    simp only [String.utf8Len_cons, String.utf8Len_nil]
    omega
  · have hcases : c = '"' ∨ c = '\\' ∨ c = '\t' ∨ c = '\n' ∨ c = '\r' := by
      simp only [Literal, not_and_or, not_not, not_le] at hl
      rcases h with h | h | h | h
      · rcases hl with hl | hl | hl
        · exact .inl hl
        · exact .inr (.inl hl)
        · omega
      · exact .inr (.inr (.inl h))
      · exact .inr (.inr (.inr (.inl h)))
      · exact .inr (.inr (.inr (.inr h)))
    rcases hcases with rfl | rfl | rfl | rfl | rfl <;> decide

/-- **A plain text at most doubles** when it is escaped. -/
theorem utf8Len_escape_le (h : ∀ c ∈ cs, Plain c) : utf8Len (escape cs) ≤ 2 * utf8Len cs := by
  induction cs with
  | nil => exact zero_le _
  | cons c cs ih =>
    have hc := utf8Len_escapeChar_le (h c mem_cons_self)
    have hcs := ih fun d hd => h d (mem_cons_of_mem c hd)
    simp only [escape, flatMap_cons, String.utf8Len_append, String.utf8Len_cons] at hcs ⊢
    omega

theorem utf8Len_escapeChar_le_six (c : Char) : utf8Len (escapeChar c) ≤ 6 := by
  have hsmall : ∀ n < 32, utf8Len (escapeChar (Char.ofNat n)) ≤ 6 := by decide
  by_cases hctrl : c.toNat < 32
  · have hc := hsmall c.toNat hctrl
    rwa [Char.ofNat_toNat] at hc
  · by_cases hl : Literal c
    · rw [escapeChar_of_literal hl]
      have hsize := c.utf8Size_le_four
      simp only [String.utf8Len_cons, String.utf8Len_nil]
      omega
    · have hcases : c = '"' ∨ c = '\\' := by
        simp only [Literal, not_and_or, not_not] at hl
        rcases hl with hl | hl | hl
        · exact .inl hl
        · exact .inr hl
        · omega
      rcases hcases with rfl | rfl <;> decide

/-- A character takes at most six bytes. -/
theorem utf8Len_escape_le_six (cs : List Char) : utf8Len (escape cs) ≤ 6 * cs.length := by
  induction cs with
  | nil => exact Nat.zero_le _
  | cons c cs ih =>
    have hc := utf8Len_escapeChar_le_six c
    simp only [escape, List.flatMap_cons, String.utf8Len_append, List.length_cons] at ih ⊢
    omega

theorem length_le_utf8Len (cs : List Char) : cs.length ≤ utf8Len cs := by
  induction cs with
  | nil => exact Nat.zero_le _
  | cons c cs ih =>
    have hc := c.utf8Size_pos
    simp only [List.length_cons, String.utf8Len_cons]
    omega

theorem utf8Len_decimal (n : ℕ) : utf8Len (decimal n) = (decimal n).length := by
  have hsize : ∀ c : Char, c.isDigit = true → c.utf8Size = 1 := by
    intro c hc
    rw [Char.isDigit, Bool.and_eq_true, decide_eq_true_eq, decide_eq_true_eq] at hc
    have hascii : '9'.val ≤ 127 := by decide
    exact Char.utf8Size_eq_one_iff.2 (UInt32.le_trans hc.2 hascii)
  have hall : ∀ c ∈ decimal n, c.utf8Size = 1 := fun c hc => hsize c (isDigit_of_mem_decimal hc)
  generalize decimal n = cs at hall
  induction cs with
  | nil => rfl
  | cons c cs ih =>
    rw [String.utf8Len_cons, ih fun d hd => hall d (List.mem_cons_of_mem c hd),
      hall c List.mem_cons_self, List.length_cons]

theorem length_decimal_le (hk : 0 < k) (h : n < 10 ^ k) : (decimal n).length ≤ k := by
  unfold decimal
  split_ifs
  · exact hk
  · rw [List.length_reverse, List.length_map]
    exact (Nat.digits_length_le_iff (by decide) n).2 h

theorem utf8Len_ofInt_le (hk : 0 < k) (h : n.natAbs < 10 ^ k) :
    utf8Len (Number.ofInt n).text ≤ k + 1 := by
  cases n with
  | ofNat n =>
    have hle := length_decimal_le hk h
    rw [← utf8Len_decimal] at hle
    exact Nat.le_succ_of_le hle
  | negSucc n =>
    have hle := length_decimal_le hk h
    rw [Int.natAbs_negSucc, Nat.succ_eq_add_one, ← utf8Len_decimal] at hle
    have hminus : '-'.utf8Size = 1 := by decide
    simp only [Number.ofInt, String.utf8Len_cons, hminus]
    omega

theorem utf8Len_quote (s : String) : utf8Len (quote s) = utf8Len (escape s.toList) + 2 := by
  simp only [quote, List.cons_append, String.utf8Len_cons, String.utf8Len_append,
    String.utf8Len_nil]
  have hquote : '"'.utf8Size = 1 := by decide
  omega

/-- A member with its colon and comma or brace. -/
def memberBytes (m : String × Value) : ℕ := utf8Len (quote m.1) + utf8Len m.2.render + 2

theorem utf8Len_membersTail (ms : List (String × Value)) :
    utf8Len (Value.render.membersTail ms) = 1 + (ms.map memberBytes).sum := by
  induction ms with
  | nil => decide
  | cons m ms ih =>
    obtain ⟨k, v⟩ := m
    have hcomma : ','.utf8Size = 1 := by decide
    have hcolon : ':'.utf8Size = 1 := by decide
    simp only [Value.render.membersTail, cons_append, String.utf8Len_cons,
      String.utf8Len_append, ih, map_cons, sum_cons, memberBytes]
    omega

theorem utf8Len_render_object (ms : List (String × Value)) (h : ms ≠ []) :
    utf8Len (Value.object ms).render = 1 + (ms.map memberBytes).sum := by
  obtain ⟨⟨k, v⟩, ms, rfl⟩ := exists_cons_of_ne_nil h
  have hbrace : '{'.utf8Size = 1 := by decide
  have hcolon : ':'.utf8Size = 1 := by decide
  simp only [Value.render, cons_append, String.utf8Len_cons, String.utf8Len_append,
    utf8Len_membersTail, map_cons, sum_cons, memberBytes]
  omega

/-- The last member has no comma; without members there are the braces. -/
theorem utf8Len_render_object_add (ms : List (String × Value)) :
    utf8Len (Value.object ms).render + min 1 ms.length = 2 + (ms.map memberBytes).sum := by
  cases ms with
  | nil => decide
  | cons m ms =>
    rw [utf8Len_render_object _ (cons_ne_nil m ms), length_cons]
    omega

/-- An item with its comma or bracket. -/
def itemBytes (v : Value) : ℕ := utf8Len v.render + 1

theorem utf8Len_itemsTail (vs : List Value) :
    utf8Len (Value.render.itemsTail vs) = 1 + (vs.map itemBytes).sum := by
  induction vs with
  | nil => decide
  | cons v vs ih =>
    have hcomma : ','.utf8Size = 1 := by decide
    simp only [Value.render.itemsTail, cons_append, String.utf8Len_cons,
      String.utf8Len_append, ih, map_cons, sum_cons, itemBytes]
    omega

theorem utf8Len_render_array_add (vs : List Value) :
    utf8Len (Value.array vs).render + min 1 vs.length = 2 + (vs.map itemBytes).sum := by
  cases vs with
  | nil => decide
  | cons v vs =>
    have hbracket : '['.utf8Size = 1 := by decide
    simp only [Value.render, cons_append, String.utf8Len_cons, String.utf8Len_append,
      utf8Len_itemsTail, map_cons, sum_cons, itemBytes, length_cons]
    omega

theorem memberDepths_le (h : ∀ m ∈ ms, m.2.depth ≤ d) : Value.depth.memberDepths ms ≤ d := by
  induction ms with
  | nil => exact zero_le d
  | cons m ms ih =>
    obtain ⟨k, v⟩ := m
    exact max_le (h _ mem_cons_self) (ih fun n hn => h n (mem_cons_of_mem _ hn))

end Json
