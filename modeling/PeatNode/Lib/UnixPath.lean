/-
# Paths as Unix and the standard library read them

A path is a string of bytes.  `components` is `Path::components`: repeated separators and inner `.`
are skipped, a leading `/` or `.` is kept.  `join`, `parent` and `fileName` work on the bytes, and
each has its rule in terms of components (`components_join`, `components_parent`).

`Inside root p`: `p` is `root` followed by components that never climb above it.
-/

import Mathlib.Data.List.DropRight
import Mathlib.Data.List.Infix
import PeatNode.Lib.Lists

namespace UnixPath

open List

abbrev Path := List UInt8

def sep : UInt8 := 47

def dot : UInt8 := 46

inductive Component
  | rootDir
  | curDir
  | parentDir
  | normal (name : List UInt8)
deriving DecidableEq

def isAbsolute (p : Path) : Bool := p.head? = some sep

/-- An empty piece and `.` name nothing. -/
def ofPiece (piece : List UInt8) : Option Component :=
  if piece = [] ∨ piece = [dot] then none
  else if piece = [dot, dot] then some .parentDir
  else some (.normal piece)

/-- What follows the lead. -/
def body (p : Path) : List Component := (p.splitOn sep).filterMap ofPiece

/-- The root, or a leading `.`. -/
def lead (p : Path) : List Component :=
  if isAbsolute p then [.rootDir]
  else if (p.splitOn sep).head? = some [dot] then [.curDir]
  else []

def components (p : Path) : List Component := lead p ++ body p

def join (p q : Path) : Path :=
  if isAbsolute q then q
  else if p = [] ∨ p.getLast? = some sep then p ++ q
  else p ++ sep :: q

def fileName (p : Path) : Option (List UInt8) :=
  match (components p).getLast? with
  | some (.normal name) => some name
  | _ => none

/-- Without last pieces that name nothing. -/
def trimRight (pieces : List (List UInt8)) : List (List UInt8) :=
  pieces.rdropWhile fun piece => (ofPiece piece).isNone

/-- The root or a leading `.`. -/
def leadBytes (p : Path) : Path :=
  if isAbsolute p then [sep] else if (p.splitOn sep).head? = some [dot] then [dot] else []

/-- `Path::parent`: the bytes before the last component without the separators and `.` at their
end, but with the root or the leading `.`. -/
def parent (p : Path) : Option Path :=
  if trimRight (p.splitOn sep) = [] then
    if lead p = [.curDir] then some [] else none
  else if trimRight (trimRight (p.splitOn sep)).dropLast = [] then some (leadBytes p)
  else some ([sep].intercalate (trimRight (trimRight (p.splitOn sep)).dropLast))

/-! ### Pieces -/

variable {p : Path}

theorem splitOn_append_of_notMem (ht : sep ∉ t) (p : Path) :
    ∃ before name, (p ++ t).splitOn sep = before ++ [name ++ t] := by
  induction p with
  | nil => exact ⟨[], [], by simp [splitOn_eq_singleton ht]⟩
  | cons b p ih =>
    obtain ⟨before, name, hsplit⟩ := ih
    rw [cons_append, splitOn_cons_eq_if_modifyHead, hsplit]
    split
    · exact ⟨[] :: before, name, by simp⟩
    · cases before with
      | nil => exact ⟨[], b :: name, by simp⟩
      | cons first before => exact ⟨(b :: first) :: before, name, by simp⟩

theorem ofPiece_eq_normal (h : 3 ≤ piece.length) : ofPiece piece = some (.normal piece) := by
  unfold ofPiece
  rw [if_neg, if_neg]
  · rintro rfl
    simp at h
  · rintro (rfl | rfl) <;> simp at h

/-- A name that goes on for at least three bytes is the last component. -/
theorem body_append_of_notMem (ht : sep ∉ t) (hlen : 3 ≤ t.length) (p : Path) :
    ∃ before name, body (p ++ t) = before ++ [.normal (name ++ t)] := by
  obtain ⟨before, name, hsplit⟩ := splitOn_append_of_notMem ht p
  have hname : ofPiece (name ++ t) = some (.normal (name ++ t)) :=
    ofPiece_eq_normal (by rw [length_append]; omega)
  exact ⟨before.filterMap ofPiece, name, by simp [body, hsplit, hname]⟩

variable {name : List UInt8}

/-- A name is a path of one component. -/
theorem components_of_name (hname : sep ∉ name) (hpiece : ofPiece name = some (.normal name)) :
    isAbsolute name = false ∧ lead name = [] ∧ body name = [.normal name] := by
  have hsplit := splitOn_eq_singleton hname
  have habs : isAbsolute name = false := by
    cases name with
    | nil => rfl
    | cons b name =>
      have hb : ¬ b = sep := fun hb => hname (hb ▸ mem_cons_self)
      simp [isAbsolute, hb]
  have hdot : ¬ name = [dot] := by
    rintro rfl
    simp [ofPiece] at hpiece
  exact ⟨habs, by simp [lead, habs, hsplit, hdot], by simp [body, hsplit, hpiece]⟩

theorem eq_of_ofPiece_eq_normal (h : ofPiece piece = some (.normal name)) : piece = name := by
  unfold ofPiece at h
  split_ifs at h
  · simp at h
  · exact Component.normal.inj (Option.some.inj h)

/-- The plain components of a path are names. -/
theorem name_of_mem_body (h : .normal name ∈ body p) :
    sep ∉ name ∧ ofPiece name = some (.normal name) := by
  obtain ⟨piece, hmem, hpiece⟩ := mem_filterMap.1 h
  obtain rfl := eq_of_ofPiece_eq_normal hpiece
  exact ⟨notMem_of_mem_splitOn hmem, hpiece⟩

theorem mem_body_of_mem_components (h : .normal name ∈ components p) : .normal name ∈ body p := by
  rcases mem_append.1 h with h | h
  · unfold lead at h
    split_ifs at h <;> simp at h
  · exact h

/-- A path of plain components has neither a root nor a leading `.`. -/
theorem body_eq_of_normals {names : List (List UInt8)}
    (h : components p = names.map .normal) : isAbsolute p = false ∧ body p = names.map .normal := by
  have hlead : lead p = [] := by
    rw [eq_nil_iff_forall_not_mem]
    intro c hc
    have hnormal : c ∈ names.map .normal := h ▸ mem_append_left (body p) hc
    obtain ⟨name, -, rfl⟩ := mem_map.1 hnormal
    unfold lead at hc
    split_ifs at hc <;> simp at hc
  refine ⟨?_, by rwa [components, hlead, nil_append] at h⟩
  by_contra habs
  rw [lead, if_pos (by simpa using habs)] at hlead
  simp at hlead

/-! ### Joining -/

theorem body_append_sep (p q : Path) : body (p ++ sep :: q) = body p ++ body q := by
  rw [body, splitOn_append_cons_self, filterMap_append]
  rfl

theorem lead_append_sep (hp : p ≠ []) (q : Path) : lead (p ++ sep :: q) = lead p := by
  have habs : isAbsolute (p ++ sep :: q) = isAbsolute p := by
    cases p with
    | nil => exact absurd rfl hp
    | cons b p => rfl
  have hhead : ((p ++ sep :: q).splitOn sep).head? = (p.splitOn sep).head? := by
    rw [splitOn_append_cons_self]
    exact head?_append_of_ne_nil _ (splitOn_ne_nil sep p)
  rw [lead, lead, habs, hhead]

/-- **Joining a relative path appends its components**; the leading `.` of it
counts only where there is nothing to join to. -/
theorem components_join (hq : isAbsolute q = false) :
    components (join p q) = components p ++ (if p = [] then lead q else []) ++ body q := by
  unfold join
  rw [hq]
  by_cases hp : p = []
  · subst hp
    rfl
  · rw [if_neg hp, append_nil]
    by_cases hlast : p.getLast? = some sep
    · obtain ⟨p', rfl⟩ := getLast?_eq_some_iff.1 hlast
      have hbody : body (p' ++ [sep]) = body p' := by
        rw [body_append_sep]
        exact append_nil _
      have hlead : lead (p' ++ sep :: q) = lead (p' ++ [sep]) := by
        cases p' with
        | nil => rfl
        | cons b p' =>
          rw [lead_append_sep (cons_ne_nil b p'), lead_append_sep (cons_ne_nil b p')]
      simp only [Bool.false_eq_true, if_false, hlast, or_true, if_true, append_assoc,
        singleton_append]
      rw [components, components, hlead, hbody, body_append_sep, append_assoc]
    · simp only [Bool.false_eq_true, if_false, hp, hlast, or_self]
      rw [components, components, lead_append_sep hp, body_append_sep, append_assoc]

/-! ### Parents -/

theorem filterMap_trimRight (pieces : List (List UInt8)) :
    (trimRight pieces).filterMap ofPiece = pieces.filterMap ofPiece := by
  induction pieces using reverseRecOn with
  | nil => rfl
  | append_singleton pieces piece ih =>
    cases hpiece : ofPiece piece with
    | none =>
      rw [trimRight, rdropWhile_concat_pos _ _ _ (by simp [hpiece]), ← trimRight, ih]
      simp [hpiece]
    | some c => rw [trimRight, rdropWhile_concat_neg _ _ _ (by simp [hpiece])]

/-- What is left ends with a component. -/
theorem trimRight_eq_append (h : trimRight pieces ≠ []) :
    ∃ before last c, trimRight pieces = before ++ [last] ∧ ofPiece last = some c := by
  have hlast := rdropWhile_last_not (fun piece => (ofPiece piece).isNone) pieces h
  rw [Bool.not_eq_true, Option.isNone_eq_false_iff, Option.isSome_iff_exists] at hlast
  obtain ⟨c, hc⟩ := hlast
  exact ⟨_, _, c, (dropLast_append_getLast h).symm, hc⟩

theorem isAbsolute_iff : isAbsolute p = true ↔ ∃ more, p.splitOn sep = [] :: more ∧ more ≠ [] := by
  cases p with
  | nil => simp [isAbsolute]
  | cons b p =>
    rw [splitOn_cons_eq_if_modifyHead]
    by_cases hb : b = sep
    · simp [isAbsolute, hb]
    · obtain ⟨first, rest, hsplit⟩ := exists_cons_of_ne_nil (splitOn_ne_nil sep p)
      simp [isAbsolute, hb, hsplit]

theorem components_leadBytes (p : Path) : components (leadBytes p) = lead p := by
  unfold leadBytes lead
  split_ifs
  all_goals decide +kernel

theorem components_intercalate (hstart : pieces <+: p.splitOn sep)
    (hends : ∃ before last c, pieces = before ++ [last] ∧ ofPiece last = some c) :
    components ([sep].intercalate pieces) = lead p ++ pieces.filterMap ofPiece := by
  obtain ⟨before, last, c, hpieces, hlast⟩ := hends
  have hne : pieces ≠ [] := by simp [hpieces]
  have hsplit : ([sep].intercalate pieces).splitOn sep = pieces :=
    splitOn_intercalate sep (fun piece h => notMem_of_mem_splitOn (hstart.subset h)) hne
  obtain ⟨first, more, hcons⟩ := exists_cons_of_ne_nil hne
  obtain ⟨rest, hrest⟩ := hstart
  have habs : isAbsolute ([sep].intercalate pieces) = isAbsolute p := by
    rw [Bool.eq_iff_iff, isAbsolute_iff, isAbsolute_iff, hsplit, ← hrest, hcons]
    constructor
    · rintro ⟨more', h, hmore'⟩
      obtain ⟨rfl, rfl⟩ := cons.inj h
      exact ⟨more ++ rest, rfl, by simp [hmore']⟩
    · rintro ⟨more', h, -⟩
      obtain ⟨rfl, -⟩ := cons.inj h
      refine ⟨more, rfl, ?_⟩
      rintro rfl
      -- the only piece would be empty, and name a component
      rw [hcons] at hpieces
      have hempty : last = [] := by
        have := congrArg getLast? hpieces
        simpa using this.symm
      rw [hempty] at hlast
      simp [ofPiece] at hlast
  have hhead : pieces.head? = (p.splitOn sep).head? := by
    rw [← hrest]
    exact (head?_append_of_ne_nil _ hne).symm
  rw [components, body, lead, lead, habs, hsplit, hhead]

/-- **The parent drops the last component.** -/
theorem components_parent (hp : body p ≠ []) :
    ∃ p', parent p = some p' ∧ components p' = (components p).dropLast := by
  have hkept : trimRight (p.splitOn sep) ≠ [] := by
    intro h
    have hnil := filterMap_trimRight (p.splitOn sep)
    rw [h] at hnil
    exact hp hnil.symm
  obtain ⟨before, last, c, hsplit, hlast⟩ := trimRight_eq_append hkept
  have hdrop : (components p).dropLast = lead p ++ before.filterMap ofPiece := by
    rw [components, body, ← filterMap_trimRight, hsplit]
    simp [hlast, ← append_assoc]
  unfold parent
  rw [if_neg hkept, hsplit, dropLast_concat, hdrop, ← filterMap_trimRight before]
  by_cases hrest : trimRight before = []
  · rw [if_pos hrest, hrest]
    exact ⟨_, rfl, by rw [components_leadBytes]; simp⟩
  · rw [if_neg hrest]
    refine ⟨_, rfl, components_intercalate ?_ (trimRight_eq_append hrest)⟩
    calc trimRight before <+: before := rdropWhile_prefix _ _
      _ <+: before ++ [last] := prefix_append _ _
      _ = trimRight (p.splitOn sep) := hsplit.symm
      _ <+: p.splitOn sep := rdropWhile_prefix _ _

theorem fileName_eq_some (h : components p = before ++ [.normal name]) :
    fileName p = some name := by
  rw [fileName, h]
  simp

/-! ### Inside -/

/-- The components never climb above the start. -/
def stays : ℕ → List Component → Bool
  | _, [] => true
  | depth, .normal _ :: cs => stays (depth + 1) cs
  | depth, .curDir :: cs => stays depth cs
  | 0, .parentDir :: _ => false
  | depth + 1, .parentDir :: cs => stays depth cs
  | _, .rootDir :: _ => false

theorem stays_normals {names : List (List UInt8)} (depth : ℕ) :
    stays depth (names.map .normal) = true := by
  induction names generalizing depth with
  | nil => rfl
  | cons name names ih => exact ih (depth + 1)

theorem stays_concat_normal (cs : List Component) (name : List UInt8) (depth : ℕ) :
    stays depth (cs ++ [.normal name]) = stays depth cs := by
  induction cs generalizing depth with
  | nil => rfl
  | cons c cs ih =>
    cases c with
    | rootDir => rfl
    | curDir => exact ih depth
    | normal _ => exact ih (depth + 1)
    | parentDir =>
      cases depth with
      | zero => rfl
      | succ depth => exact ih depth

theorem stays_lead_append (hp : isAbsolute p = false) (cs : List Component) (depth : ℕ) :
    stays depth (lead p ++ cs) = stays depth cs := by
  unfold lead
  rw [hp]
  simp only [Bool.false_eq_true, if_false]
  split_ifs <;> rfl

/-- `p` lies lexically inside `root`. -/
def Inside (root p : Path) : Prop :=
  ∃ rest, components p = components root ++ rest ∧ stays 0 rest = true

/-- Inside `root`, not `root` itself. -/
def Below (root p : Path) : Prop :=
  ∃ rest, rest ≠ [] ∧ components p = components root ++ rest ∧ stays 0 rest = true

instance (root p : Path) : Decidable (Inside root p) :=
  decidable_of_iff (components root <+: components p ∧
    stays 0 ((components p).drop (components root).length) = true) <| by
    constructor
    · rintro ⟨⟨rest, hrest⟩, hstays⟩
      rw [← hrest, drop_left] at hstays
      exact ⟨rest, hrest.symm, hstays⟩
    · rintro ⟨rest, hrest, hstays⟩
      rw [hrest]
      exact ⟨prefix_append _ _, by rwa [drop_left]⟩

end UnixPath
