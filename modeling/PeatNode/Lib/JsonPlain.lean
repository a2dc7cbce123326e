/-
# What a JSON text is made of

A text that the parser reads has no control characters but white space: outside
of strings nothing else is skipped, and a string that holds one unescaped is
refused.  `Reads` says this of the piece of text that a reader has taken;
`plain_of_parse` is the result for a whole text, with the depth of its value.
-/

import PeatNode.Lib.JsonParse

namespace Json

open List Option

/-- Plain characters only were read. -/
def Reads (cs rest : List Char) : Prop := ∃ read, cs = read ++ rest ∧ ∀ c ∈ read, Plain c

namespace Reads

variable {cs cs' rest : List Char}

theorem refl (cs : List Char) : Reads cs cs := ⟨[], rfl, nofun⟩

theorem trans (h : Reads cs cs') (h' : Reads cs' rest) : Reads cs rest := by
  obtain ⟨read, rfl, hread⟩ := h
  obtain ⟨read', rfl, hread'⟩ := h'
  refine ⟨read ++ read', by rw [append_assoc], fun c hc => ?_⟩
  rcases mem_append.1 hc with hc | hc
  · exact hread c hc
  · exact hread' c hc

theorem cons {c : Char} (hc : Plain c) (h : Reads cs rest) : Reads (c :: cs) rest := by
  obtain ⟨read, rfl, hread⟩ := h
  refine ⟨c :: read, rfl, fun d hd => ?_⟩
  rcases mem_cons.1 hd with rfl | hd
  · exact hc
  · exact hread d hd

/-- A character above the control characters is read. -/
theorem char {c : Char} (hc : 32 ≤ c.toNat) (h : Reads cs rest) : Reads (c :: cs) rest :=
  h.cons (.inl hc)

end Reads

/-- What a reader makes of its result does not change what is left. -/
theorem exists_of_map {f : α × List Char → β × List Char} {r : Option (α × List Char)} {b : β}
    (h : r.map f = some (b, rest)) (hf : ∀ r, (f r).2 = r.2) : ∃ a, r = some (a, rest) := by
  obtain ⟨⟨a, rest'⟩, hr, heq⟩ := map_eq_some_iff.1 h
  obtain rfl : rest = rest' := by
    have hrest := hf (a, rest')
    rwa [heq] at hrest
  exact ⟨a, hr⟩

theorem reads_skipSpace (cs : List Char) : Reads cs (skipSpace cs) := by
  induction cs with
  | nil => exact .refl []
  | cons c cs ih =>
    cases hc : isSpace c with
    | false =>
      rw [skipSpace_cons hc]
      exact .refl _
    | true =>
      have hskip : skipSpace (c :: cs) = skipSpace cs := by simp [skipSpace, hc]
      have hplain : Plain c := by
        simp only [isSpace, Bool.or_eq_true, decide_eq_true_eq] at hc
        rcases hc with ((rfl | rfl) | rfl) | rfl <;> decide
      rw [hskip]
      exact ih.cons hplain

variable {c : Char}

theorem plain_of_hexValue (h : hexValue c = some n) : 32 ≤ c.toNat := by
  unfold hexValue at h
  split_ifs at h with h₁ h₂ h₃
  · exact Nat.le_trans (by decide) h₁.1
  · exact Nat.le_trans (by decide) h₂.1
  · exact Nat.le_trans (by decide) h₃.1

theorem plain_of_codeUnit (h : codeUnit x y z w = some n) :
    32 ≤ x.toNat ∧ 32 ≤ y.toNat ∧ 32 ≤ z.toNat ∧ 32 ≤ w.toNat := by
  simp only [codeUnit, bind_eq_bind, bind_eq_some_iff] at h
  obtain ⟨a, ha, b, hb, c, hc, d, hd, -⟩ := h
  exact ⟨plain_of_hexValue ha, plain_of_hexValue hb, plain_of_hexValue hc, plain_of_hexValue hd⟩

theorem plain_of_shortEscape (h : shortEscape c = some d) : 32 ≤ c.toNat := by
  unfold shortEscape at h
  split_ifs at h with h₁ h₂ h₃ h₄ h₅ h₆
  · rcases h₁ with rfl | rfl | rfl <;> decide
  all_goals subst_vars; decide

variable {cs rest : List Char}

theorem reads_unicodeEscape (h : unicodeEscape cs = some (c, rest)) : Reads cs rest := by
  unfold unicodeEscape at h
  split at h
  · split at h
    · simp at h
    · rename_i n hn
      obtain ⟨hx, hy, hz, hw⟩ := plain_of_codeUnit hn
      refine .char hx (.char hy (.char hz (.char hw ?_)))
      split_ifs at h
      · obtain ⟨-, rfl⟩ := Prod.mk.inj (Option.some.inj h)
        exact .refl _
      · split at h
        · split at h
          · simp at h
          · rename_i m hm
            obtain ⟨hx, hy, hz, hw⟩ := plain_of_codeUnit hm
            split_ifs at h
            obtain ⟨-, rfl⟩ := Prod.mk.inj (Option.some.inj h)
            exact .char (by decide) (.char (by decide)
              (.char hx (.char hy (.char hz (.char hw (.refl _))))))
        · simp at h
  · simp at h

theorem reads_stringChar (h : stringChar cs = some (c, rest)) : Reads cs rest := by
  unfold stringChar at h
  split at h
  · simp at h
  · split_ifs at h with hslash hctrl
    · subst hslash
      refine .char (by decide) ?_
      split at h
      · simp at h
      · split_ifs at h with hu
        · subst hu
          exact .char (by decide) (reads_unicodeEscape h)
        · obtain ⟨d, hd, heq⟩ := map_eq_some_iff.1 h
          obtain ⟨-, rfl⟩ := Prod.mk.inj heq
          exact .char (plain_of_shortEscape hd) (.refl _)
    · obtain ⟨-, rfl⟩ := Prod.mk.inj (Option.some.inj h)
      exact .char (Nat.not_lt.1 hctrl) (.refl _)

theorem reads_tail {cs : List Char} (hc : Plain c) (h : cs.head? = some c) : Reads cs cs.tail := by
  obtain ⟨rest, rfl⟩ := head?_eq_some_iff.1 h
  exact .cons hc (.refl _)

theorem reads_stringBody {fuel : ℕ} {cs s rest : List Char}
    (h : stringBody fuel cs = some (s, rest)) : Reads cs rest := by
  induction fuel generalizing cs s with
  | zero => simp [stringBody] at h
  | succ fuel ih =>
    rw [stringBody] at h
    split_ifs at h with hquote
    · obtain ⟨-, rfl⟩ := Prod.mk.inj (Option.some.inj h)
      exact reads_tail (by decide) hquote
    · split at h
      · simp at h
      · rename_i c cs' hc
        obtain ⟨s, hs⟩ := exists_of_map h fun _ => rfl
        exact (reads_stringChar hc).trans (ih hs)

theorem reads_word {w cs rest : List Char} (hw : ∀ c ∈ w, 32 ≤ c.toNat)
    (h : word w cs = some rest) : Reads cs rest := by
  unfold word at h
  split_ifs at h with hp
  cases h
  obtain ⟨rest, rfl⟩ := isPrefixOf_iff_prefix.1 hp
  exact ⟨w, by rw [drop_left], fun c hc => .inl (hw c hc)⟩

theorem plain_of_isDigit (h : c.isDigit = true) : 32 ≤ c.toNat := by
  simp only [Char.isDigit, Bool.and_eq_true, decide_eq_true_eq] at h
  exact Nat.le_trans (by decide) h.1

theorem plain_of_step {s s' : NumberState} (h : s.step c = some s') : 32 ≤ c.toNat := by
  by_cases hd : c.isDigit = true
  · exact plain_of_isDigit hd
  · -- without a digit only a sign, a point or an exponent is left
    have hcases : c = '-' ∨ c = '0' ∨ c = '.' ∨ c = 'e' ∨ c = 'E' ∨ c = '+' := by
      unfold NumberState.step at h
      split at h <;> split_ifs at h <;> tauto
    rcases hcases with rfl | rfl | rfl | rfl | rfl | rfl <;> decide

theorem reads_scanNumber (h : scanNumber s cs = some (text, rest)) : Reads cs rest := by
  induction cs generalizing s text with
  | nil => grind [scanNumber, Reads.refl]
  | cons c cs ih =>
    grind [scanNumber, plain_of_step, Reads.char, Reads.refl, map_eq_some_iff]

theorem reads_number {v : Value} (h : number cs = some (v, rest)) :
    Reads cs rest ∧ v.depth = 0 := by
  grind [number, reads_scanNumber, Value.depth]

/-- Every reader only reads plain characters, and what it gives is not too deep. -/
structure ReadsPlain (fuel : ℕ) : Prop where
  value : ∀ {limit cs v rest}, value fuel limit cs = some (v, rest) →
    Reads cs rest ∧ v.depth ≤ limit
  items : ∀ {limit cs vs rest}, items fuel limit cs = some (vs, rest) →
    Reads cs rest ∧ Value.depth.depths vs ≤ limit
  itemsTail : ∀ {limit cs vs rest}, itemsTail fuel limit cs = some (vs, rest) →
    Reads cs rest ∧ Value.depth.depths vs ≤ limit
  member : ∀ {limit cs m rest}, member fuel limit cs = some (m, rest) →
    Reads cs rest ∧ m.2.depth ≤ limit
  members : ∀ {limit cs ms rest}, members fuel limit cs = some (ms, rest) →
    Reads cs rest ∧ Value.depth.memberDepths ms ≤ limit
  membersTail : ∀ {limit cs ms rest}, membersTail fuel limit cs = some (ms, rest) →
    Reads cs rest ∧ Value.depth.memberDepths ms ≤ limit

theorem plain_literal : ∀ c ∈ ['"', '[', ']', '{', '}', ',', ':', 'n', 't', 'f'], Plain c := by
  simp [Plain]

theorem readsPlain (fuel : ℕ) : ReadsPlain fuel := by
  induction fuel with
  | zero => constructor <;> simp [value, items, itemsTail, member, members, membersTail]
  | succ fuel ih =>
    obtain ⟨hvalue, hitems, hitemsTail, hmember, hmembers, hmembersTail⟩ := ih
    have hlit := plain_literal
    simp only [forall_mem_cons] at hlit
    constructor <;> intro limit cs v rest h <;> have hs := reads_skipSpace cs
    · have hnull := fun cs rest => @reads_word ['u', 'l', 'l'] cs rest (by simp)
      have htrue := fun cs rest => @reads_word ['r', 'u', 'e'] cs rest (by simp)
      have hfalse := fun cs rest => @reads_word ['a', 'l', 's', 'e'] cs rest (by simp)
      grind [value, Value.depth, map_eq_some_iff, Reads.trans, Reads.cons,
        reads_stringBody, reads_number]
    · grind [items, Value.depth.depths, map_eq_some_iff, Reads.trans, reads_tail]
    · grind [itemsTail, Value.depth.depths, map_eq_some_iff, Reads.trans, Reads.cons,
        Reads.refl]
    · unfold member at h
      split at h
      · split at h
        · cases h
        · split at h
          · next rest₁ hs₁ _ key rest₂ hkey _ rest₃ hs₂ =>
            obtain ⟨r, hr, heq⟩ := map_eq_some_iff.1 h
            cases heq
            have hs' := reads_skipSpace rest₂
            rw [hs₁] at hs
            rw [hs₂] at hs'
            have hv := hvalue hr
            exact ⟨hs.trans (.char (by decide) ((reads_stringBody hkey).trans
              (hs'.trans (.char (by decide) hv.1)))), hv.2⟩
          · cases h
      · cases h
    · grind [members, Value.depth.memberDepths, map_eq_some_iff, Reads.trans, reads_tail]
    · grind [membersTail, Value.depth.memberDepths, map_eq_some_iff, Reads.trans,
        Reads.cons, Reads.refl]

/-- **A text that is read is plain**, and its value is not too deep. -/
theorem plain_of_parse (h : parse limit text = some v) :
    (∀ c ∈ text.toList, Plain c) ∧ v.depth ≤ limit := by
  unfold parse at h
  split at h
  · simp at h
  · rename_i v' rest hv
    split_ifs at h with hend
    have hrest := reads_skipSpace rest
    rw [hend] at hrest
    obtain ⟨hreads, hdepth⟩ := (readsPlain _).value hv
    obtain ⟨read, hread, hplain⟩ := hreads.trans hrest
    rw [append_nil] at hread
    rw [hread]
    exact ⟨hplain, Option.some.inj h ▸ hdepth⟩

end Json
