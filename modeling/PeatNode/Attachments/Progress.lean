/-
# Bytes of a distribution

`get_attachment_distribution` and the watcher add up what the nodes have of a file, but take the
size of the file from the first of them.  So the bytes transferred stay within the total exactly
while the nodes together have no more than one file (`transferred_within_iff`): two nodes that
have it are at twice its size.
-/

import PeatNode.Attachments.Agreement

namespace PeatNode.Attachments

open NodeTransferStatus

namespace TransferReport

/-- No node has more than the size of the file. -/
def Sized (r : TransferReport) (size : UInt64) : Prop :=
  ∀ n ∈ r.nodeStatuses, n.progressBytes ≤ n.totalBytes ∧ n.totalBytes = size
deriving Decidable

/-- What the nodes have together. -/
def received (r : TransferReport) : ℕ := (r.nodeStatuses.map fun n => n.progressBytes.toNat).sum

/-- No more than the total, without overflow. -/
def Within (r : TransferReport) (bytesTransferred bytesTotal : UInt64) : Prop :=
  bytesTransferred ≤ bytesTotal ∧ bytesTransferred.toNat = r.received

theorem toNat_sum (l : List UInt64) : l.sum.toNat = (l.map UInt64.toNat).sum % 2 ^ 64 := by
  induction l with
  | nil => rfl
  | cons a l ih => simp [UInt64.toNat_add, ih]

theorem within_iff {r : TransferReport} (h : r.Sized size) (otherwise : UInt64) :
    r.Within (r.nodeStatuses.map progressBytes).sum
        ((r.nodeStatuses.head?.map totalBytes).getD otherwise) ↔
      r.received ≤ size.toNat := by
  have hlt := size.toNat_lt
  have hsum : (r.nodeStatuses.map progressBytes).sum.toNat =
      r.received % 2 ^ 64 := by
    rw [toNat_sum, List.map_map]
    rfl
  rw [Within, UInt64.le_iff_toNat_le, hsum]
  cases hnodes : r.nodeStatuses with
  | nil => simp [received, hnodes]
  | cons n rest =>
    have htotal : n.totalBytes = size := (h n (by simp [hnodes])).2
    rw [List.head?_cons, Option.map_some, Option.getD_some, htotal]
    omega

end TransferReport

/-- **Transferred within the total**, in the answer to a query and in the frames of the watcher,
exactly if the nodes together have no more than the size of the file. -/
theorem transferred_within_iff {r : TransferReport} {size : UInt64} (h : r.Sized size) :
    (∀ bundle handle, r.Within (distributionResponse bundle handle r).bytesTransferred
        (distributionResponse bundle handle r).bytesTotal ↔ r.received ≤ size.toNat) ∧
      (∀ w : Watcher, r.Within (w.frameOf r).bytesTransferred (w.frameOf r).bytesTotal ↔
        r.received ≤ size.toNat) ∧
      ∀ (w : Watcher) status error,
        (w.frame status error).bytesTransferred ≤ (w.frame status error).bytesTotal :=
  ⟨fun _ _ => TransferReport.within_iff h _, fun _ => TransferReport.within_iff h 0,
    fun _ _ _ => UInt64.le_refl 0⟩

def reportOf (size : UInt64) (progress : List UInt64) : TransferReport :=
  ⟨progress.length, progress.map fun n => ⟨"peer", .transferring, n, size, none⟩, false⟩

def receiving : Watcher := ⟨0, "dist", "hash", none, .receiving⟩

/-- Two nodes that have a part each. -/
theorem transferred_parts :
    (reportOf 10 [4, 6]).Within (receiving.frameOf (reportOf 10 [4, 6])).bytesTransferred
      (receiving.frameOf (reportOf 10 [4, 6])).bytesTotal :=
  ((transferred_within_iff (show (reportOf 10 [4, 6]).Sized 10 by decide)).2.1 receiving).2
    (by decide)

/-- **Two nodes have the file**: twenty bytes of ten; and of a file of `2^63` bytes the sum
overflows to nothing. -/
theorem transferred_twice :
    (reportOf 10 [10, 10]).Sized 10 ∧
      (receiving.frameOf (reportOf 10 [10, 10])).bytesTransferred = 20 ∧
      (receiving.frameOf (reportOf 10 [10, 10])).bytesTotal = 10 ∧
      (reportOf 9223372036854775808 [9223372036854775808, 9223372036854775808]).Sized
        9223372036854775808 ∧
      (receiving.frameOf (reportOf 9223372036854775808
        [9223372036854775808, 9223372036854775808])).bytesTransferred = 0 := by
  decide +kernel

end PeatNode.Attachments
