/-
# Waiting for one distribution

`peat attach watch --dist-id` (`run_watch` and `InboxSink` of
`crates/peat-cli/src/cli/attach.rs`).  The receive watcher calls `deliver` if the file of a
distribution is not there, and `deliver` notifies the command that waits for the distribution.  A
file that is there already concludes the distribution without a notification.
-/

import PeatNode.Attachments.Deliveries
import PeatNode.Lib.Notify

namespace PeatNode.Cli

open UnixPath Attachments
open Ledger (asBytes)

structure InboxSink extends FilesystemInboxSink where
  distId : String

structure Watch where
  files : List Component → Option FileStat
  notify : Notify
  woken : Bool
  concluded : Bool
  delivered : Bool

inductive WatchLabel
  | handle (doc : DistributionDocument) (failed : Option (List Component → Option FileStat))
  | poll

namespace Watch

def start (files : List Component → Option FileStat) : Watch := ⟨files, .new, false, false, false⟩

/-- `deliver` that returns `Ok`. -/
def deliver (sink : InboxSink) (s : Watch) (doc : DistributionDocument) : Watch :=
  let paths := sink.deliveryPaths doc
  { s with
    files := Function.update (Function.update s.files (components paths.tmp) none)
      (components paths.target) (some ⟨true, doc.blobSize⟩)
    notify := if doc.distributionId = sink.distId then s.notify.notifyOne else s.notify
    concluded := s.concluded || doc.distributionId = sink.distId
    delivered := s.delivered || doc.distributionId = sink.distId }

def alreadyDelivered (sink : InboxSink) (s : Watch) (doc : DistributionDocument) : Bool :=
  sink.toFilesystemInboxSink.alreadyDelivered (fun p => s.files (components p)) doc

def step (sink : InboxSink) (s : Watch) : WatchLabel → Option Watch
  | .handle doc failed =>
    if s.alreadyDelivered sink doc then
      some { s with concluded := s.concluded || doc.distributionId = sink.distId }
    else
      match failed with
      | none => some (s.deliver sink doc)
      | some files => some { s with files }
  | .poll => some { s with woken := s.woken || s.notify.poll.1, notify := s.notify.poll.2 }

/-- Woken, or will be at its next look. -/
def Permitted (s : Watch) : Prop := s.woken = true ∨ s.notify.poll.1 = true

/-- Not found before `deliver` has returned `Ok`. -/
def Announced (sink : InboxSink) (s : Watch) : WatchLabel → Prop
  | .handle doc _ =>
    doc.distributionId = sink.distId → s.alreadyDelivered sink doc → s.delivered = true
  | .poll => True

variable {sink : InboxSink} {s t : Watch} {label : WatchLabel}

/-- **The command has its permit exactly if a `deliver` of the distribution has returned.** -/
theorem permitted_step (h : s.Permitted ↔ s.delivered = true) (hstep : s.step sink label = some t) :
    t.Permitted ↔ t.delivered = true := by
  cases label with
  | poll =>
    cases hstep
    rw [← h, Permitted, Permitted]
    cases hpoll : s.notify.poll.1 with
    | false => simp [Notify.poll_poll hpoll]
    | true => simp
  | handle doc failed =>
    simp only [step] at hstep
    split_ifs at hstep
    · cases hstep
      exact h
    · cases failed with
      | some files =>
        cases hstep
        exact h
      | none =>
        cases hstep
        by_cases hid : doc.distributionId = sink.distId
        · simp [deliver, Permitted, hid, Notify.poll_notifyOne]
        · simpa [deliver, Permitted, hid] using h

theorem exists_step (sink : InboxSink) (s : Watch) (label : WatchLabel) :
    ∃ t, s.step sink label = some t := by
  cases label with
  | poll => exact ⟨_, rfl⟩
  | handle doc failed =>
    simp only [step]
    split_ifs
    · exact ⟨_, rfl⟩
    · cases failed <;> exact ⟨_, rfl⟩

/-- **The wait ends.** Throughout a run the command has its permit if its distribution is
concluded, exactly when the file is never found before a `deliver` of it has returned `Ok`. -/
theorem watch_wakes_iff (sink : InboxSink) (files : List Component → Option FileStat)
    (labels : List WatchLabel) :
    Lts.Always (step sink) (fun s => s.concluded → s.Permitted) (start files) labels ↔
      Lts.Along (step sink) (Announced sink) (start files) labels := by
  obtain ⟨_, hrun⟩ := Lts.exists_exec (exists_step sink) (start files) labels
  refine Lts.always_iff_along
    (fun s => (s.Permitted ↔ s.delivered = true) ∧ (s.concluded → s.delivered = true)) _ ?_ ?_
    (fun s h hconcluded => h.1.2 (h.2 hconcluded))
    ⟨by simp [start, Permitted, Notify.new, Notify.poll], by simp [start]⟩ hrun
  · rintro s label t ⟨htold, h⟩ hok hstep
    refine ⟨permitted_step htold hstep, fun hconcluded => ?_⟩
    cases label with
    | poll =>
      cases hstep
      exact h hconcluded
    | handle doc failed =>
      simp only [step] at hstep
      split_ifs at hstep with hthere
      · cases hstep
        rcases (Bool.or_eq_true_iff.1 hconcluded) with hbefore | hid
        · exact h hbefore
        · exact hok (by simpa using hid) hthere
      · cases failed with
        | some files =>
          cases hstep
          exact h hconcluded
        | none =>
          cases hstep
          exact Bool.or_eq_true_iff.2 ((Bool.or_eq_true_iff.1 hconcluded).imp_left h)
  · rintro s label t ⟨htold, -⟩ hok hstep hend
    cases label with
    | poll => exact hok trivial
    | handle doc failed =>
      simp only [Announced, Classical.not_imp] at hok
      obtain ⟨hid, hthere, hnot⟩ := hok
      simp only [step, hthere, if_true] at hstep
      cases hstep
      exact hnot (htold.1 (hend (by simp [hid])))

/-- **A file of an earlier run**: the watcher finds it, and the command waits on. -/
theorem watch_waits_on :
    let sink : InboxSink := ⟨inbox, "d"⟩
    let doc : DistributionDocument := ⟨"d", some "x", 0⟩
    ∃ s ∈ Lts.exec (step sink)
        (start (Function.update (fun _ => none) (components (sink.alreadyDeliveredPath doc))
          (some ⟨true, 0⟩))) [.poll, .handle doc none, .poll],
      s.concluded ∧ s.woken = false ∧ s.notify.poll.1 = false := by
  decide +kernel

end Watch

end PeatNode.Cli
