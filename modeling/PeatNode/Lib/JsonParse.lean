/-
# Reading JSON

A parser for the whole grammar with a bound on the nesting, as
`serde_json::from_str` has it.  `fuel` only makes the recursion structural: every
call that reads a value, a list or its tail takes one unit, and twice the length
of the text is enough.

What is written is read back (`parse_toText`).
-/

import PeatNode.Lib.Json

namespace Json

open List Nat NumberState Value

open String (utf8Len)

def isSpace (c : Char) : Bool := c = ' ' || c = '\t' || c = '\n' || c = '\r'

def skipSpace (cs : List Char) : List Char := cs.dropWhile isSpace

/-! ### Strings -/

def hexValue (c : Char) : Option ℕ :=
  if '0' ≤ c ∧ c ≤ '9' then some (c.toNat - '0'.toNat)
  else if 'a' ≤ c ∧ c ≤ 'f' then some (c.toNat - 'a'.toNat + 10)
  else if 'A' ≤ c ∧ c ≤ 'F' then some (c.toNat - 'A'.toNat + 10)
  else none

/-- The four digits of a `\u` escape. -/
def codeUnit (a b c d : Char) : Option ℕ := do
  return ((← hexValue a) * 16 + (← hexValue b)) * 256 + (← hexValue c) * 16 + (← hexValue d)

/-- Behind a backslash, other than `u`. -/
def shortEscape (c : Char) : Option Char :=
  if c = '"' ∨ c = '\\' ∨ c = '/' then some c
  else if c = 'b' then some '\x08'
  else if c = 'f' then some '\x0c'
  else if c = 'n' then some '\n'
  else if c = 'r' then some '\r'
  else if c = 't' then some '\t'
  else none

/-- Behind `\\u`; perhaps a surrogate pair. -/
def unicodeEscape : List Char → Option (Char × List Char)
  | x :: y :: z :: w :: rest =>
    match codeUnit x y z w with
    | none => none
    | some n =>
      if n < 0xD800 ∨ 0xE000 ≤ n then some (Char.ofNat n, rest)
      else
        match rest with
        | '\\' :: 'u' :: x' :: y' :: z' :: w' :: rest =>
          match codeUnit x' y' z' w' with
          | none => none
          | some m =>
            if n < 0xDC00 ∧ 0xDC00 ≤ m ∧ m < 0xE000 then
              some (Char.ofNat (0x10000 + (n - 0xD800) * 0x400 + (m - 0xDC00)), rest)
            else none
        | _ => none
  | _ => none

/-- A character, as it is or escaped. -/
def stringChar : List Char → Option (Char × List Char)
  | [] => none
  | c :: rest =>
    if c = '\\' then
      match rest with
      | [] => none
      | e :: rest =>
        if e = 'u' then unicodeEscape rest else (shortEscape e).map fun d => (d, rest)
    else if c.toNat < 32 then none
    else some (c, rest)

/-- A string behind its opening quote. -/
def stringBody : ℕ → List Char → Option (List Char × List Char)
  | 0, _ => none
  | fuel + 1, cs =>
    if cs.head? = some '"' then some ([], cs.tail)
    else
      match stringChar cs with
      | none => none
      | some (c, rest) => (stringBody fuel rest).map fun r => (c :: r.1, r.2)

/-! ### Values -/

def word (w cs : List Char) : Option (List Char) :=
  if w.isPrefixOf cs then some (cs.drop w.length) else none

def number (cs : List Char) : Option (Value × List Char) :=
  match scanNumber .start cs with
  | none => none
  | some (text, rest) =>
    if h : scanNumber .start text = some (text, []) then some (.number ⟨text, h⟩, rest) else none

mutual

/-- A value, with `limit` levels of nesting left. -/
def value : ℕ → ℕ → List Char → Option (Value × List Char)
  | 0, _, _ => none
  | fuel + 1, limit, cs =>
    match skipSpace cs with
    | [] => none
    | c :: rest =>
      if c = '"' then (stringBody rest.length rest).map fun r => (.string (String.ofList r.1), r.2)
      else if c = '[' then
        match limit with
        | 0 => none
        | limit + 1 => (items fuel limit rest).map fun r => (.array r.1, r.2)
      else if c = '{' then
        match limit with
        | 0 => none
        | limit + 1 => (members fuel limit rest).map fun r => (.object r.1, r.2)
      else if c = 'n' then (word ['u', 'l', 'l'] rest).map fun r => (.null, r)
      else if c = 't' then (word ['r', 'u', 'e'] rest).map fun r => (.bool true, r)
      else if c = 'f' then (word ['a', 'l', 's', 'e'] rest).map fun r => (.bool false, r)
      else number (c :: rest)

/-- The items of an array, behind its bracket. -/
def items : ℕ → ℕ → List Char → Option (List Value × List Char)
  | 0, _, _ => none
  | fuel + 1, limit, cs =>
    if (skipSpace cs).head? = some ']' then some ([], (skipSpace cs).tail)
    else
      match value fuel limit cs with
      | none => none
      | some (v, rest) => (itemsTail fuel limit rest).map fun r => (v :: r.1, r.2)

def itemsTail : ℕ → ℕ → List Char → Option (List Value × List Char)
  | 0, _, _ => none
  | fuel + 1, limit, cs =>
    match skipSpace cs with
    | [] => none
    | c :: rest =>
      if c = ']' then some ([], rest)
      else if c = ',' then
        match value fuel limit rest with
        | none => none
        | some (v, rest) => (itemsTail fuel limit rest).map fun r => (v :: r.1, r.2)
      else none

/-- A key, a colon and a value. -/
def member : ℕ → ℕ → List Char → Option ((String × Value) × List Char)
  | 0, _, _ => none
  | fuel + 1, limit, cs =>
    match skipSpace cs with
    | '"' :: rest =>
      match stringBody rest.length rest with
      | none => none
      | some (key, rest) =>
        match skipSpace rest with
        | ':' :: rest =>
          (value fuel limit rest).map fun r => ((String.ofList key, r.1), r.2)
        | _ => none
    | _ => none

/-- The members of an object, behind its brace. -/
def members : ℕ → ℕ → List Char → Option (List (String × Value) × List Char)
  | 0, _, _ => none
  | fuel + 1, limit, cs =>
    if (skipSpace cs).head? = some '}' then some ([], (skipSpace cs).tail)
    else
      match member fuel limit cs with
      | none => none
      | some (m, rest) => (membersTail fuel limit rest).map fun r => (m :: r.1, r.2)

def membersTail : ℕ → ℕ → List Char → Option (List (String × Value) × List Char)
  | 0, _, _ => none
  | fuel + 1, limit, cs =>
    match skipSpace cs with
    | [] => none
    | c :: rest =>
      if c = '}' then some ([], rest)
      else if c = ',' then
        match member fuel limit rest with
        | none => none
        | some (m, rest) => (membersTail fuel limit rest).map fun r => (m :: r.1, r.2)
      else none

end

def parse (limit : ℕ) (text : String) : Option Value :=
  match value (2 * text.toList.length + 1) limit text.toList with
  | none => none
  | some (v, rest) => if skipSpace rest = [] then some v else none

/-! ### What is written is read back -/

theorem hexValue_hexDigit : ∀ n < 16, hexValue (hexDigit n) = some n := by decide

/-- One escaped character is read back. -/
theorem stringChar_escapeChar (c : Char) (rest : List Char) :
    stringChar (escapeChar c ++ rest) = some (c, rest) := by
  by_cases hl : Literal c
  · obtain ⟨hquote, hslash, hctrl⟩ := hl
    rw [escapeChar_of_literal ⟨hquote, hslash, hctrl⟩]
    simp [stringChar, hslash, not_lt.2 hctrl]
  · unfold escapeChar
    split_ifs with h₁ h₂ h₃ h₄ h₅ h₆ h₇ h₈
    · subst h₁; simp [stringChar, shortEscape]
    · subst h₂; simp [stringChar, shortEscape]
    · subst h₃; simp [stringChar, shortEscape]
    · subst h₄; simp [stringChar, shortEscape]
    · subst h₅; simp [stringChar, shortEscape]
    · subst h₆; simp [stringChar, shortEscape]
    · subst h₇; simp [stringChar, shortEscape]
    · have hhigh := hexValue_hexDigit (c.toNat / 16) (by omega)
      have hlow := hexValue_hexDigit (c.toNat % 16) (by omega)
      have hunit : codeUnit '0' '0' (hexDigit (c.toNat / 16)) (hexDigit (c.toNat % 16)) =
          some c.toNat := by
        have hzero : hexValue '0' = some 0 := rfl
        simp only [codeUnit, hzero, hhigh, hlow, Option.bind_eq_bind, Option.bind_some]
        congr 1
        omega
      have hsmall : c.toNat < 0xD800 := by omega
      simp [stringChar, unicodeEscape, hunit, hsmall]
    · exact absurd ⟨h₁, h₂, not_lt.1 h₈⟩ hl

theorem length_le_length_escape (cs : List Char) : cs.length ≤ (escape cs).length := by
  induction cs with
  | nil => exact zero_le _
  | cons c cs ih =>
    have hc : 1 ≤ (escapeChar c).length := by
      unfold escapeChar
      split_ifs <;> simp
    simp only [escape, flatMap_cons, length_append, length_cons] at ih ⊢
    omega

/-- No escaped character looks like the end of the string. -/
theorem head?_escapeChar_append (c : Char) (rest : List Char) :
    (escapeChar c ++ rest).head? ≠ some '"' := by
  unfold escapeChar
  split_ifs with h₁ <;> simp [h₁]

/-- **Strings are read back.** -/
theorem stringBody_escape (hfuel : cs.length < fuel) (rest : List Char) :
    stringBody fuel (escape cs ++ '"' :: rest) = some (cs, rest) := by
  induction cs generalizing fuel with
  | nil =>
    obtain ⟨fuel, rfl⟩ := Nat.exists_eq_add_of_lt hfuel
    simp [escape, stringBody]
  | cons c cs ih =>
    obtain ⟨fuel, rfl⟩ : ∃ n, fuel = n + 1 := exists_eq_add_one.2 (by omega)
    have hcons : escape (c :: cs) ++ '"' :: rest =
        escapeChar c ++ (escape cs ++ '"' :: rest) := by
      simp [escape]
    have hcs : cs.length < fuel := by
      rw [length_cons] at hfuel
      omega
    rw [hcons, stringBody, if_neg (head?_escapeChar_append c _), stringChar_escapeChar]
    simp [ih hcs]

/-- What the parser needs to read a value back. -/
def Value.fuel : Value → ℕ
  | .null | .bool _ | .number _ | .string _ => 1
  | .array vs => 1 + itemsFuel vs
  | .object ms => 1 + membersFuel ms
where
  itemsFuel : List Value → ℕ
    | [] => 1
    | v :: vs => 1 + v.fuel + itemsFuel vs
  membersFuel : List (String × Value) → ℕ
    | [] => 1
    | (_, v) :: ms => 2 + v.fuel + membersFuel ms

/-- A number starts with a minus or a digit. -/
theorem exists_cons_of_number (n : Number) :
    ∃ c cs, n.text = c :: cs ∧ (c = '-' ∨ c.isDigit = true) := by
  obtain ⟨text, hvalid⟩ := n
  cases text with
  | nil => simp [scanNumber, accepts] at hvalid
  | cons c cs =>
    refine ⟨c, cs, rfl, ?_⟩
    by_contra hno
    rw [not_or] at hno
    have hzero : c ≠ '0' := by
      rintro rfl
      exact hno.2 rfl
    simp [scanNumber, step, hno, hzero, accepts] at hvalid

/-- The first character of a number is none of those that start other values. -/
theorem ne_of_isNumberStart (h : c = '-' ∨ c.isDigit = true) (hd : d ≠ '-' ∧ d.isDigit = false) :
    c ≠ d := by
  rintro rfl
  rcases h with h | h
  · exact hd.1 h
  · rw [hd.2] at h
    simp at h

/-- A value starts with a character that is not skipped and closes nothing. -/
theorem exists_cons_of_render (v : Value) :
    ∃ c cs, v.render = c :: cs ∧ isSpace c = false ∧ c ≠ ']' ∧ c ≠ '}' := by
  rcases v with _ | (_ | _) | n | s | (_ | ⟨v, vs⟩) | (_ | ⟨⟨k, v⟩, ms⟩)
  case number =>
    obtain ⟨c, cs, hcs, hc⟩ := exists_cons_of_number n
    have hne : ∀ d : Char, (d ≠ '-' ∧ d.isDigit = false) → c ≠ d := fun d hd =>
      ne_of_isNumberStart hc hd
    refine ⟨c, cs, hcs, ?_, hne _ (by decide), hne _ (by decide)⟩
    simp [isSpace, hne ' ' (by decide), hne '\t' (by decide), hne '\n' (by decide),
      hne '\r' (by decide)]
  all_goals exact ⟨_, _, rfl, by decide, by decide, by decide⟩

theorem skipSpace_cons (h : isSpace c = false) (cs : List Char) :
    skipSpace (c :: cs) = c :: cs := by
  simp [skipSpace, h]

theorem quote_append (s : String) (rest : List Char) :
    quote s ++ rest = '"' :: (escape s.toList ++ '"' :: rest) := by
  simp [quote]

/-- A quoted string is read back. -/
theorem stringBody_quote (s : String) (rest : List Char) :
    stringBody (escape s.toList ++ '"' :: rest).length (escape s.toList ++ '"' :: rest) =
      some (s.toList, rest) := by
  refine stringBody_escape ?_ rest
  have hle := length_le_length_escape s.toList
  rw [length_append, length_cons]
  omega

theorem stops_cons (h : ∀ s : NumberState, s.step c = none) (cs : List Char) : Stops (c :: cs) := by
  intro d hd
  cases hd
  exact h

theorem number_append (n : Number) (h : Stops rest) :
    number (n.text ++ rest) = some (.number n, rest) := by
  simp [number, scanNumber_append n.valid h, n.valid]

theorem Value.fuel_pos (v : Value) : 0 < v.fuel := by
  cases v <;> simp only [fuel] <;> omega

theorem itemsFuel_pos (vs : List Value) : 0 < fuel.itemsFuel vs := by
  cases vs <;> simp only [fuel.itemsFuel] <;> omega

theorem membersFuel_pos (ms : List (String × Value)) : 0 < fuel.membersFuel ms := by
  rcases ms with _ | ⟨⟨k, v⟩, ms⟩ <;> simp only [fuel.membersFuel] <;> omega

/-- Fuel that is enough for something is not used up. -/
theorem exists_fuel {need fuel : ℕ} (hpos : 0 < need) (h : need ≤ fuel) : ∃ n, fuel = n + 1 :=
  exists_eq_add_one.2 (by omega)

/-- The first character decides how a value is read. -/
theorem value_cons {c : Char} (hc : isSpace c = false) (fuel limit : ℕ) (cs : List Char) :
    value (fuel + 1) limit (c :: cs) =
      if c = '"' then (stringBody cs.length cs).map fun r => (.string (String.ofList r.1), r.2)
      else if c = '[' then
        match limit with
        | 0 => none
        | limit + 1 => (items fuel limit cs).map fun r => (.array r.1, r.2)
      else if c = '{' then
        match limit with
        | 0 => none
        | limit + 1 => (members fuel limit cs).map fun r => (.object r.1, r.2)
      else if c = 'n' then (word ['u', 'l', 'l'] cs).map fun r => (.null, r)
      else if c = 't' then (word ['r', 'u', 'e'] cs).map fun r => (.bool true, r)
      else if c = 'f' then (word ['a', 'l', 's', 'e'] cs).map fun r => (.bool false, r)
      else number (c :: cs) := by
  rw [value, skipSpace_cons hc]

theorem value_number (n : Number) {fuel limit : ℕ} (h : Stops rest) :
    value (fuel + 1) limit (n.text ++ rest) = some (.number n, rest) := by
  obtain ⟨c, cs, hcs, hc⟩ := exists_cons_of_number n
  have hne : ∀ d : Char, (d ≠ '-' ∧ d.isDigit = false) → c ≠ d := fun d hd =>
    ne_of_isNumberStart hc hd
  have hspace : isSpace c = false := by
    simp [isSpace, hne ' ' (by decide), hne '\t' (by decide), hne '\n' (by decide),
      hne '\r' (by decide)]
  have hread := number_append n h
  rw [hcs, List.cons_append] at hread ⊢
  rw [value_cons hspace]
  simp only [hne '"' (by decide), hne '[' (by decide), hne '{' (by decide), hne 'n' (by decide),
    hne 't' (by decide), hne 'f' (by decide), if_false]
  exact hread

theorem members_of_quote (k : String) (fuel limit : ℕ) (rest : List Char) :
    members (fuel + 1) limit (quote k ++ rest) = match member fuel limit (quote k ++ rest) with
      | none => none
      | some (m, rest) => (membersTail fuel limit rest).map fun r => (m :: r.1, r.2) := by
  have hne : (skipSpace (quote k ++ rest)).head? ≠ some '}' := by
    rw [quote_append, skipSpace_cons (by decide)]
    simp
  rw [members, if_neg hne]

theorem member_of_quote (k : String) (fuel limit : ℕ) (rest : List Char) :
    member (fuel + 1) limit (quote k ++ ':' :: rest) =
      (value fuel limit rest).map fun r => ((k, r.1), r.2) := by
  rw [quote_append, member, skipSpace_cons (by decide)]
  simp only [stringBody_quote, skipSpace_cons (show isSpace ':' = false by decide),
    String.ofList_toList]

/-! ### White space is skipped -/

section Space

variable {ws : List Char} (h : ∀ c ∈ ws, isSpace c = true) (fuel limit : ℕ) (cs : List Char)

include h

theorem skipSpace_append : skipSpace (ws ++ cs) = skipSpace cs := dropWhile_append_of_pos h

theorem value_space : value fuel limit (ws ++ cs) = value fuel limit cs := by
  cases fuel with
  | zero => simp only [value]
  | succ fuel => rw [value, value, skipSpace_append h]

theorem items_space : items fuel limit (ws ++ cs) = items fuel limit cs := by
  cases fuel with
  | zero => simp only [items]
  | succ fuel => rw [items, items, skipSpace_append h, value_space h]

theorem itemsTail_space : itemsTail fuel limit (ws ++ cs) = itemsTail fuel limit cs := by
  cases fuel with
  | zero => simp only [itemsTail]
  | succ fuel => rw [itemsTail, itemsTail, skipSpace_append h]

theorem member_space : member fuel limit (ws ++ cs) = member fuel limit cs := by
  cases fuel with
  | zero => simp only [member]
  | succ fuel => rw [member, member, skipSpace_append h]

theorem members_space : members fuel limit (ws ++ cs) = members fuel limit cs := by
  cases fuel with
  | zero => simp only [members]
  | succ fuel => rw [members, members, skipSpace_append h, member_space h]

theorem membersTail_space : membersTail fuel limit (ws ++ cs) = membersTail fuel limit cs := by
  cases fuel with
  | zero => simp only [membersTail]
  | succ fuel => rw [membersTail, membersTail, skipSpace_append h]

end Space

/-- With white space by level, before items and behind colons. -/
def Value.laidOut (line : ℕ → List Char) (blank : List Char) : ℕ → Value → List Char
  | level, .array (v :: vs) =>
    '[' :: line (level + 1) ++ v.laidOut line blank (level + 1) ++ itemsTail line blank level vs
  | level, .object ((k, v) :: ms) =>
    '{' :: line (level + 1) ++ quote k ++ ':' :: blank ++ v.laidOut line blank (level + 1) ++
      membersTail line blank level ms
  | _, v => v.render
where
  itemsTail (line : ℕ → List Char) (blank : List Char) (level : ℕ) : List Value → List Char
    | [] => line level ++ [']']
    | v :: vs =>
      ',' :: line (level + 1) ++ v.laidOut line blank (level + 1) ++ itemsTail line blank level vs
  membersTail (line : ℕ → List Char) (blank : List Char) (level : ℕ) :
      List (String × Value) → List Char
    | [] => line level ++ ['}']
    | (k, v) :: ms =>
      ',' :: line (level + 1) ++ quote k ++ ':' :: blank ++ v.laidOut line blank (level + 1) ++
        membersTail line blank level ms

section LaidOut

variable {line : ℕ → List Char} {blank : List Char}

theorem exists_cons_of_laidOut (level : ℕ) (v : Value) :
    ∃ c cs, v.laidOut line blank level = c :: cs ∧ isSpace c = false ∧ c ≠ ']' ∧ c ≠ '}' := by
  rcases v with _ | b | n | s | (_ | ⟨v, vs⟩) | (_ | ⟨⟨k, v⟩, ms⟩)
  case array.cons | object.cons => exact ⟨_, _, rfl, by decide, by decide, by decide⟩
  all_goals exact exists_cons_of_render _

theorem items_of_laidOut {level fuel limit : ℕ} {v w : Value}
    (h : value fuel limit (v.laidOut line blank level ++ rest) = some (w, rest')) :
    items (fuel + 1) limit (v.laidOut line blank level ++ rest) =
      (itemsTail fuel limit rest').map fun r => (w :: r.1, r.2) := by
  have hne : (skipSpace (v.laidOut line blank level ++ rest)).head? ≠ some ']' := by
    obtain ⟨c, cs, hcs, hc, hclose, -⟩ := exists_cons_of_laidOut level v
    rw [hcs, cons_append, skipSpace_cons hc]
    simpa using hclose
  rw [items, if_neg hne, h]

theorem step_of_isSpace (h : isSpace c = true) (s : NumberState) : s.step c = none := by
  simp only [isSpace, Bool.or_eq_true, decide_eq_true_eq] at h
  rcases h with ((rfl | rfl) | rfl) | rfl <;> cases s <;> decide

/-- The text that a layout adds is white space. -/
structure Layout (line : ℕ → List Char) (blank : List Char) : Prop where
  line : ∀ level, ∀ c ∈ line level, isSpace c = true
  blank : ∀ c ∈ blank, isSpace c = true

variable (hspace : Layout line blank)

include hspace

theorem stops_line (level : ℕ) (h : ∀ s : NumberState, s.step c = none) (cs : List Char) :
    Stops (line level ++ c :: cs) := by
  cases hcs : line level with
  | nil => exact stops_cons h cs
  | cons d ds => exact stops_cons (step_of_isSpace (hspace.line level d (by simp [hcs]))) _

/-- The tail of a list of items starts with a comma or a bracket. -/
theorem stops_itemsTail (level : ℕ) (vs : List Value) (rest : List Char) :
    Stops (laidOut.itemsTail line blank level vs ++ rest) := by
  cases vs with
  | nil =>
    rw [laidOut.itemsTail, append_assoc]
    exact stops_line hspace level (fun s => by cases s <;> decide) _
  | cons v vs => exact stops_cons (fun s => by cases s <;> decide) _

theorem stops_membersTail (level : ℕ) (ms : List (String × Value)) (rest : List Char) :
    Stops (laidOut.membersTail line blank level ms ++ rest) := by
  rcases ms with _ | ⟨⟨k, v⟩, ms⟩
  · rw [laidOut.membersTail, append_assoc]
    exact stops_line hspace level (fun s => by cases s <;> decide) _
  · exact stops_cons (fun s => by cases s <;> decide) _

mutual

theorem value_laidOut : ∀ (v : Value) (level fuel limit : ℕ) (rest : List Char),
    v.fuel ≤ fuel → v.depth ≤ limit → Stops rest →
    value fuel limit (v.laidOut line blank level ++ rest) = some (v, rest)
  | .null, _, fuel, limit, _, hfuel, _, _ | .bool true, _, fuel, limit, _, hfuel, _, _
  | .bool false, _, fuel, limit, _, hfuel, _, _ => by
      obtain ⟨fuel, rfl⟩ := exists_fuel (Value.fuel_pos _) hfuel
      exact value_cons (by decide) fuel limit _
  | .number n, _, fuel, limit, rest, hfuel, _, hrest => by
      obtain ⟨fuel, rfl⟩ := exists_fuel (Value.fuel_pos _) hfuel
      exact value_number n hrest
  | .string s, _, fuel, limit, rest, hfuel, _, _ => by
      obtain ⟨fuel, rfl⟩ := exists_fuel (Value.fuel_pos _) hfuel
      change value _ _ (quote s ++ rest) = _
      rw [quote_append, value_cons (by decide), if_pos rfl, stringBody_quote]
      simp
  | .array [], _, fuel, limit, rest, hfuel, hdepth, _ => by
      obtain ⟨fuel, rfl⟩ := exists_fuel (Value.fuel_pos _) hfuel
      obtain ⟨limit, rfl⟩ : ∃ n, limit = n + 1 := exists_fuel (succ_pos _) hdepth
      simp only [Value.fuel, Value.fuel.itemsFuel] at hfuel
      obtain ⟨fuel, rfl⟩ : ∃ n, fuel = n + 1 := exists_fuel one_pos (by omega)
      refine (value_cons (by decide) _ _ _).trans ?_
      simp [items, skipSpace_cons (show isSpace ']' = false by decide)]
  | .array (v :: vs), level, fuel, limit, rest, hfuel, hdepth, _ => by
      obtain ⟨fuel, rfl⟩ := exists_fuel (Value.fuel_pos _) hfuel
      obtain ⟨limit, rfl⟩ : ∃ n, limit = n + 1 := exists_fuel (succ_pos _) hdepth
      simp only [Value.fuel, Value.fuel.itemsFuel] at hfuel
      simp only [Value.depth, Value.depth.depths] at hdepth
      obtain ⟨fuel, rfl⟩ : ∃ n, fuel = n + 1 := exists_fuel one_pos (by omega)
      have hv := value_laidOut v (level + 1) fuel limit _ (by omega) (by omega)
        (stops_itemsTail hspace level vs rest)
      have hvs := itemsTail_laidOut vs level fuel limit rest (by omega) (by omega)
      simp only [Value.laidOut, cons_append, append_assoc]
      rw [value_cons (by decide)]
      simp [items_space (hspace.line _), items_of_laidOut hv, hvs]
  | .object [], _, fuel, limit, rest, hfuel, hdepth, _ => by
      obtain ⟨fuel, rfl⟩ := exists_fuel (Value.fuel_pos _) hfuel
      obtain ⟨limit, rfl⟩ : ∃ n, limit = n + 1 := exists_fuel (succ_pos _) hdepth
      simp only [Value.fuel, Value.fuel.membersFuel] at hfuel
      obtain ⟨fuel, rfl⟩ : ∃ n, fuel = n + 1 := exists_fuel one_pos (by omega)
      refine (value_cons (by decide) _ _ _).trans ?_
      simp [members, skipSpace_cons (show isSpace '}' = false by decide)]
  | .object ((k, v) :: ms), level, fuel, limit, rest, hfuel, hdepth, _ => by
      obtain ⟨fuel, rfl⟩ := exists_fuel (Value.fuel_pos _) hfuel
      obtain ⟨limit, rfl⟩ : ∃ n, limit = n + 1 := exists_fuel (succ_pos _) hdepth
      simp only [Value.fuel, Value.fuel.membersFuel] at hfuel
      simp only [Value.depth, Value.depth.memberDepths] at hdepth
      obtain ⟨fuel, rfl⟩ : ∃ n, fuel = n + 1 + 1 := ⟨fuel - 2, by have := v.fuel_pos; omega⟩
      have hv := value_laidOut v (level + 1) fuel limit _ (by omega) (by omega)
        (stops_membersTail hspace level ms rest)
      have hms := membersTail_laidOut ms level (fuel + 1) limit rest (by omega) (by omega)
      simp only [Value.laidOut, cons_append, append_assoc]
      rw [value_cons (by decide)]
      simp [members_space (hspace.line _), members_of_quote, member_of_quote, value_space hspace.blank, hv, hms]

theorem itemsTail_laidOut : ∀ (vs : List Value) (level fuel limit : ℕ) (rest : List Char),
    Value.fuel.itemsFuel vs ≤ fuel → Value.depth.depths vs ≤ limit →
    itemsTail fuel limit (Value.laidOut.itemsTail line blank level vs ++ rest) = some (vs, rest)
  | [], level, fuel, limit, rest, hfuel, _ => by
      obtain ⟨fuel, rfl⟩ := exists_fuel (itemsFuel_pos _) hfuel
      rw [Value.laidOut.itemsTail, append_assoc, itemsTail_space (hspace.line level),
        cons_append, itemsTail, skipSpace_cons (by decide)]
      simp
  | v :: vs, level, fuel, limit, rest, hfuel, hdepth => by
      obtain ⟨fuel, rfl⟩ := exists_fuel (itemsFuel_pos _) hfuel
      simp only [Value.fuel.itemsFuel] at hfuel
      simp only [Value.depth.depths] at hdepth
      have hv := value_laidOut v (level + 1) fuel limit _ (by omega) (by omega)
        (stops_itemsTail hspace level vs rest)
      have hvs := itemsTail_laidOut vs level fuel limit rest (by omega) (by omega)
      simp only [Value.laidOut.itemsTail, cons_append, append_assoc]
      rw [itemsTail, skipSpace_cons (by decide)]
      simp [value_space (hspace.line _), hv, hvs]

theorem membersTail_laidOut : ∀ (ms : List (String × Value)) (level fuel limit : ℕ)
    (rest : List Char), Value.fuel.membersFuel ms ≤ fuel → Value.depth.memberDepths ms ≤ limit →
    membersTail fuel limit (Value.laidOut.membersTail line blank level ms ++ rest) = some (ms, rest)
  | [], level, fuel, limit, rest, hfuel, _ => by
      obtain ⟨fuel, rfl⟩ := exists_fuel (membersFuel_pos _) hfuel
      rw [Value.laidOut.membersTail, append_assoc, membersTail_space (hspace.line level),
        cons_append, membersTail, skipSpace_cons (by decide)]
      simp
  | (k, v) :: ms, level, fuel, limit, rest, hfuel, hdepth => by
      obtain ⟨fuel, rfl⟩ := exists_fuel (membersFuel_pos _) hfuel
      simp only [Value.fuel.membersFuel] at hfuel
      simp only [Value.depth.memberDepths] at hdepth
      obtain ⟨fuel, rfl⟩ : ∃ n, fuel = n + 1 := exists_fuel v.fuel_pos (by omega)
      have hv := value_laidOut v (level + 1) fuel limit _ (by omega) (by omega)
        (stops_membersTail hspace level ms rest)
      have hms := membersTail_laidOut ms level (fuel + 1) limit rest (by omega) (by omega)
      simp only [Value.laidOut.membersTail, cons_append, append_assoc]
      rw [membersTail, skipSpace_cons (by decide)]
      simp [member_space (hspace.line _), member_of_quote, value_space hspace.blank, hv, hms]

end

omit hspace

mutual

theorem Value.fuel_le : ∀ (v : Value) (level : ℕ), v.fuel ≤ 2 * (v.laidOut line blank level).length
  | .null, _ | .bool true, _ | .bool false, _ | .array [], _ | .object [], _ => by
      simp [Value.fuel, Value.fuel.itemsFuel, Value.fuel.membersFuel, Value.laidOut, Value.render]
  | .number n, _ => by
      obtain ⟨c, cs, hcs, -⟩ := exists_cons_of_number n
      simp [Value.fuel, Value.laidOut, Value.render, hcs]
      omega
  | .string s, _ => by
      simp [Value.fuel, Value.laidOut, Value.render, quote]
      omega
  | .array (v :: vs), level => by
      have hv := Value.fuel_le v (level + 1)
      have hvs := itemsFuel_le vs level
      simp only [Value.fuel, Value.fuel.itemsFuel, Value.laidOut, length_cons, length_append]
      omega
  | .object ((k, v) :: ms), level => by
      have hv := Value.fuel_le v (level + 1)
      have hms := membersFuel_le ms level
      simp only [Value.fuel, Value.fuel.membersFuel, Value.laidOut, length_cons, length_append]
      omega

theorem itemsFuel_le : ∀ (vs : List Value) (level : ℕ),
    Value.fuel.itemsFuel vs ≤ 2 * (Value.laidOut.itemsTail line blank level vs).length
  | [], _ => by
      simp [Value.fuel.itemsFuel, Value.laidOut.itemsTail]
      omega
  | v :: vs, level => by
      have hv := Value.fuel_le v (level + 1)
      have hvs := itemsFuel_le vs level
      simp only [Value.fuel.itemsFuel, Value.laidOut.itemsTail, length_cons, length_append]
      omega

theorem membersFuel_le : ∀ (ms : List (String × Value)) (level : ℕ),
    Value.fuel.membersFuel ms ≤ 2 * (Value.laidOut.membersTail line blank level ms).length
  | [], _ => by
      simp [Value.fuel.membersFuel, Value.laidOut.membersTail]
      omega
  | (k, v) :: ms, level => by
      have hv := Value.fuel_le v (level + 1)
      have hms := membersFuel_le ms level
      simp only [Value.fuel.membersFuel, Value.laidOut.membersTail, length_cons, length_append]
      omega

end

include hspace

/-- However a value is laid out, it is read back. -/
theorem parse_laidOut (h : v.depth ≤ limit) :
    parse limit (String.ofList (v.laidOut line blank 0)) = some v := by
  have hstops : Stops [] := nofun
  have hread := value_laidOut hspace v 0 _ _ _
    (le_succ_of_le (@Value.fuel_le line blank v 0)) h hstops
  rw [append_nil] at hread
  rw [parse, String.toList_ofList, hread]
  rfl

end LaidOut

mutual

theorem laidOut_nil : ∀ (v : Value) (level : ℕ), v.laidOut (fun _ => []) [] level = v.render
  | .array (v :: vs), level => by
      simp [laidOut, render, laidOut_nil v, laidOut_itemsTail_nil vs]
  | .object ((k, v) :: ms), level => by
      simp [laidOut, render, laidOut_nil v, laidOut_membersTail_nil ms]
  | .null, _ | .bool _, _ | .number _, _ | .string _, _ | .array [], _ | .object [], _ => rfl

theorem laidOut_itemsTail_nil : ∀ (vs : List Value) (level : ℕ),
    laidOut.itemsTail (fun _ => []) [] level vs = render.itemsTail vs
  | [], _ => rfl
  | v :: vs, level => by
      simp [laidOut.itemsTail, render.itemsTail, laidOut_nil v,
        laidOut_itemsTail_nil vs]

theorem laidOut_membersTail_nil : ∀ (ms : List (String × Value)) (level : ℕ),
    laidOut.membersTail (fun _ => []) [] level ms = render.membersTail ms
  | [], _ => rfl
  | (k, v) :: ms, level => by
      simp [laidOut.membersTail, render.membersTail, laidOut_nil v,
        laidOut_membersTail_nil ms]

end

/-- **What is written is read back**, if it is not nested too deep. -/
theorem parse_toText (h : v.depth ≤ limit) : parse limit v.toText = some v := by
  rw [toText, ← laidOut_nil v 0]
  exact parse_laidOut ⟨by simp, by simp⟩ h

end Json
