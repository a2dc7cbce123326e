/-
# A file and what a crash leaves of it

A file is the bytes a reader sees together with the initial part of them that
the last successful `sync_all` has made durable.  A crash may leave anything
that starts with the durable part: whatever was written after the last sync may
be there in full, in part, damaged or not at all.
-/

import Mathlib.Data.List.Infix

namespace DurableFile

/-- The bytes a reader sees, and the initial part of them that survives. -/
structure File where
  content : List UInt8
  synced : List UInt8
  synced_isPrefix : synced <+: content
deriving DecidableEq

namespace File

/-- The file as it is found on the disk. -/
def ofDisk (bytes : List UInt8) : File := ⟨bytes, bytes, List.prefix_rfl⟩

/-- `write_all` at the end of the file. -/
def append (f : File) (bytes : List UInt8) : File :=
  ⟨f.content ++ bytes, f.synced, f.synced_isPrefix.trans (List.prefix_append _ _)⟩

/-- A successful `sync_all`. -/
def sync (f : File) : File := ofDisk f.content

/-- Only the part kept stays durable. -/
def setLen (f : File) (n : ℕ) : File :=
  ⟨f.content.take n, f.synced.take n, f.synced_isPrefix.take n⟩

@[simp] theorem content_ofDisk (bytes : List UInt8) : (ofDisk bytes).content = bytes := rfl

@[simp] theorem content_append (f : File) (bytes : List UInt8) :
    (f.append bytes).content = f.content ++ bytes := rfl

@[simp] theorem content_sync (f : File) : f.sync.content = f.content := rfl

@[simp] theorem content_setLen (f : File) (n : ℕ) : (f.setLen n).content = f.content.take n := rfl

@[simp] theorem synced_setLen (f : File) (n : ℕ) : (f.setLen n).synced = f.synced.take n := rfl

end File

end DurableFile
