/-
# JSON with line breaks

The text that `serde_json::to_string_pretty` writes: every item and every member stands on a line of
its own, indented by two blanks for each level.  The parser skips white space in front of whatever
it reads, so the text is read back like a compact one (`parse_toTextPretty`).
-/

import PeatNode.Lib.JsonParse

namespace Json

open Value

def newline (level : ℕ) : List Char := '\n' :: List.replicate (2 * level) ' '

/-- The text of a value with line breaks, at a level. -/
def Value.renderPretty : ℕ → Value → List Char
  | level, .array (v :: vs) =>
    '[' :: newline (level + 1) ++ v.renderPretty (level + 1) ++ itemsTail level vs
  | level, .object ((k, v) :: ms) =>
    '{' :: newline (level + 1) ++ quote k ++ ':' :: ' ' :: v.renderPretty (level + 1) ++
      membersTail level ms
  | _, v => v.render
where
  itemsTail (level : ℕ) : List Value → List Char
    | [] => newline level ++ [']']
    | v :: vs => ',' :: newline (level + 1) ++ v.renderPretty (level + 1) ++ itemsTail level vs
  membersTail (level : ℕ) : List (String × Value) → List Char
    | [] => newline level ++ ['}']
    | (k, v) :: ms =>
      ',' :: newline (level + 1) ++ quote k ++ ':' :: ' ' :: v.renderPretty (level + 1) ++
        membersTail level ms

/-- `serde_json::to_string_pretty`. -/
def Value.toTextPretty (v : Value) : String := String.ofList (v.renderPretty 0)

example : (object [("a", .null), ("b", .array [])]).toTextPretty =
    "\x7b\n  \"a\": null,\n  \"b\": []\n\x7d" := by decide +kernel

mutual

theorem laidOut_newline : ∀ (v : Value) (level : ℕ),
    v.laidOut newline [' '] level = v.renderPretty level
  | .array (v :: vs), level => by
      simp [laidOut, renderPretty, laidOut_newline v, laidOut_itemsTail_newline vs]
  | .object ((k, v) :: ms), level => by
      simp [laidOut, renderPretty, laidOut_newline v, laidOut_membersTail_newline ms]
  | .null, _ | .bool _, _ | .number _, _ | .string _, _ | .array [], _ | .object [], _ => rfl

theorem laidOut_itemsTail_newline : ∀ (vs : List Value) (level : ℕ),
    laidOut.itemsTail newline [' '] level vs = renderPretty.itemsTail level vs
  | [], _ => rfl
  | v :: vs, level => by
      simp [laidOut.itemsTail, renderPretty.itemsTail, laidOut_newline v,
        laidOut_itemsTail_newline vs]

theorem laidOut_membersTail_newline : ∀ (ms : List (String × Value)) (level : ℕ),
    laidOut.membersTail newline [' '] level ms = renderPretty.membersTail level ms
  | [], _ => rfl
  | (k, v) :: ms, level => by
      simp [laidOut.membersTail, renderPretty.membersTail, laidOut_newline v,
        laidOut_membersTail_newline ms]

end

/-- **What is written with line breaks is read back**, if it is not nested too deep. -/
theorem parse_toTextPretty (h : v.depth ≤ limit) : parse limit v.toTextPretty = some v := by
  have hspace : ∀ level, ∀ c ∈ newline level, isSpace c = true := by
    intro level c hc
    rcases List.mem_cons.1 hc with rfl | hc
    · rfl
    · rw [List.eq_of_mem_replicate hc]
      rfl
  rw [toTextPretty, ← laidOut_newline v 0]
  exact parse_laidOut ⟨hspace, by simp [isSpace]⟩ h

end Json
