/-
# Files with names

A directory gives paths to files, and a file can be written by who has it open whatever path it
has now.  `create` empties the file that is there, `rename` takes the place of another one.
-/

import Mathlib.Logic.Function.Basic
import Mathlib.Tactic.Common

/-- No file has two paths; `next` is the number of the next file. -/
structure Disk (P : Type*) where
  dir : P → Option ℕ
  data : ℕ → List UInt8
  next : ℕ
  inj {p q : P} {file : ℕ} : dir p = some file → dir q = some file → p = q
  below {p : P} {file : ℕ} : dir p = some file → file < next

namespace Disk

open Function

attribute [grind →] inj below

variable {P : Type*} {d d' : Disk P} {p q : P} {file : ℕ}

def read (d : Disk P) (p : P) : Option (List UInt8) := (d.dir p).map d.data

def writeAt (d : Disk P) (file offset : ℕ) (bytes : List UInt8) : Disk P :=
  let old := d.data file
  { d with
    data := Function.update d.data file (old.take offset ++
      List.replicate (offset - old.length) 0 ++ bytes ++ old.drop (offset + bytes.length)) }

/-- The two have the same file under the path. -/
structure Agree (d d' : Disk P) (p : P) : Prop where
  dir : d'.dir p = d.dir p
  data : ∀ file, d.dir p = some file → d'.data file = d.data file

theorem Agree.refl : Agree d d p := ⟨rfl, fun _ _ => rfl⟩

theorem Agree.read (h : Agree d d' p) : d'.read p = d.read p := by
  cases hdir : d.dir p with
  | none => simp [Disk.read, h.dir, hdir]
  | some file => simp [Disk.read, h.dir, hdir, h.data file hdir]

theorem agree_writeAt (hp : d.dir p = some file) (h : q ≠ p) :
    Agree d (d.writeAt file offset bytes) q := by
  refine ⟨rfl, fun file' hq => update_of_ne ?_ _ _⟩
  rintro rfl
  exact h (d.inj hq hp)

theorem data_writeAt (h : (d.data file).length = offset) :
    (d.writeAt file offset bytes).data file = d.data file ++ bytes := by
  simp [writeAt, ← h]

variable [DecidableEq P]

/-- Open for writing, create, truncate. -/
def create (d : Disk P) (p : P) : Disk P :=
  match h : d.dir p with
  | some file => { d with data := Function.update d.data file [] }
  | none =>
    { dir := Function.update d.dir p (some d.next)
      data := Function.update d.data d.next []
      next := d.next + 1
      inj := by grind [Function.update_apply]
      below := by grind [Function.update_apply] }

def remove (d : Disk P) (p : P) : Disk P where
  dir := Function.update d.dir p none
  data := d.data
  next := d.next
  inj := by grind [Function.update_apply]
  below := by grind [Function.update_apply]

def rename (d : Disk P) (p q : P) : Option (Disk P) :=
  match h : d.dir p with
  | some file => some
    { dir := Function.update (Function.update d.dir p none) q (some file)
      data := d.data
      next := d.next
      inj := by grind [Function.update_apply]
      below := by grind [Function.update_apply] }
  | none => none

theorem create_self (d : Disk P) (p : P) :
    ∃ file, (d.create p).dir p = some file ∧ (d.create p).data file = [] := by
  unfold create
  split
  · exact ⟨_, ‹_›, by simp⟩
  · exact ⟨d.next, by simp, by simp⟩

theorem agree_create (h : q ≠ p) : Agree d (d.create p) q := by
  unfold create
  split <;> constructor <;> grind [update_apply]

theorem agree_remove (h : q ≠ p) : Agree d (d.remove p) q :=
  ⟨update_of_ne h _ _, fun _ _ => rfl⟩

theorem rename_spec (h : d.rename p q = some d') :
    d'.read q = d.read p ∧ ∀ r, r ≠ p → r ≠ q → Agree d d' r := by
  unfold rename at h
  split at h <;> cases h
  refine ⟨by simp [read, *], fun r hp hq => ⟨?_, fun _ _ => rfl⟩⟩
  simp [update_of_ne, hp, hq]

end Disk
