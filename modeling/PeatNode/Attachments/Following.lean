/-
# A watcher and the distribution it follows

The watcher asks for the status of its distribution and then subscribes to its reports; the
receiver gives those that are sent from then on.  Of the status only the number of targets is looked
at, so a distribution whose last report comes before the subscription leaves its watcher in `recv`,
and nothing else does (`never_misses_iff`).
-/

import PeatNode.Attachments.Watcher
import PeatNode.Lib.Broadcast

namespace PeatNode.Attachments

open Broadcast.Channel (recv oldest send recv_of_length_le)

/-- A watcher, the channel of its distribution, whether that has ended, and where the receiver is. -/
structure Following where
  watching : Watching
  channel : Broadcast.Channel TransferReport
  ended : Bool
  next : ℕ

inductive FollowingLabel
  | publish (report : TransferReport) (last : Bool)
  | close
  | watching (label : WatchingLabel)

namespace Following

def start (watching : Watching) (capacity : ℕ) : Following := ⟨watching, .new capacity, false, 0⟩

/-- Where a step of the watcher leaves the receiver, if the channel has what it receives. -/
def position (s : Following) : WatchingLabel → Option ℕ
  | .own (.subscribe (.ok ())) => some s.channel.sent.length
  | .own (.recv event) =>
    match event, s.channel.recv s.next with
    | .report report, (.message report', next) => if report = report' then some next else none
    | .lagged, (.lagged _, next) | .closed, (.closed, next) => some next
    | _, _ => none
  | .own _ | .other _ => some s.next

/-- What `status` answers is left open. -/
def step (s : Following) : FollowingLabel → Option Following
  | .publish report last =>
    if s.ended = false ∧ s.channel.closed = false ∧ (last = true → report.isComplete = true) then
      some { s with channel := s.channel.send report, ended := last }
    else none
  | .close => some { s with channel := { s.channel with closed := true } }
  | .watching label => do
    let next ← s.position label
    let watching ← s.watching.step label
    return { s with watching := watching, next := next }

/-- The distribution has completed, and its watcher waits for a report. -/
def Missed (s : Following) : Prop :=
  s.ended = true ∧ s.watching.watcher.pc = .receiving ∧ (s.channel.recv s.next).1 = .wait

/-- The watcher does not subscribe behind the last report. -/
def InTime (s : Following) : FollowingLabel → Prop
  | .watching (.own (.subscribe (.ok ()))) => s.ended = true → s.channel.closed = true
  | _ => True

/-- The watcher has subscribed, and a report that it applies is not the last one. -/
def InLoop (w : Watcher) : Prop :=
  w.pc = .receiving ∨ ∃ report call, w.pc = .applying report call false

theorem inLoop_of_step {w w' : Watching} {label : WatchingLabel} (h : w.step label = some w')
    (hloop : InLoop w'.watcher) :
    label = .own (.subscribe (.ok ())) ∨ InLoop w.watcher ∧
      ∀ report, label = .own (.recv (.report report)) → report.isComplete = false := by
  unfold Watching.step Watcher.advance at h
  grind [InLoop, Watcher.goto, Watcher.settle, Option.map_eq_some_iff]

/-- A watcher in its loop has the last report before it. -/
structure Informed (s : Following) : Prop where
  capacity : 0 < s.channel.capacity
  behind : s.next ≤ s.channel.sent.length
  complete : s.ended = true → ∃ report ∈ s.channel.sent.getLast?, report.isComplete = true
  ahead : InLoop s.watching.watcher → s.ended = true → s.channel.closed = false →
    s.next < s.channel.sent.length

variable {s s' : Following} {label : FollowingLabel} {next capacity : ℕ}

theorem position_le {label : WatchingLabel} (hbehind : s.next ≤ s.channel.sent.length)
    (h : s.position label = some next) : next ≤ s.channel.sent.length := by
  unfold position at h
  grind [recv, oldest]

/-- What a watcher receives and goes on from is not the last report. -/
theorem Informed.position_lt (hs : s.Informed) (hended : s.ended = true) {label : WatchingLabel}
    (hlt : s.next < s.channel.sent.length) (hsub : label ≠ .own (.subscribe (.ok ())))
    (hmore : ∀ report, label = .own (.recv (.report report)) → report.isComplete = false)
    (h : s.position label = some next) : next < s.channel.sent.length := by
  have hcapacity := hs.capacity
  obtain ⟨last, hlast, hcomplete⟩ := hs.complete hended
  rw [Option.mem_def, List.getLast?_eq_getElem?] at hlast
  unfold position at h
  grind [recv, oldest]

theorem Informed.step (hs : s.Informed) (hok : s.InTime label) (h : s.step label = some s') :
    s'.Informed := by
  cases label with
  | publish report last =>
    simp only [Following.step] at h
    split_ifs at h with hpublish
    cases h
    have hlength : s.next < (s.channel.send report).sent.length := by
      simpa [send] using Nat.lt_succ_of_le hs.behind
    exact ⟨hs.capacity, hlength.le, fun hlast => ⟨report, by simp [send], hpublish.2.2 hlast⟩,
      fun _ _ _ => hlength⟩
  | close =>
    cases h
    exact ⟨hs.capacity, hs.behind, hs.complete, by simp⟩
  | watching label =>
    simp only [Following.step, Option.bind_eq_bind, Option.bind_eq_some_iff] at h
    obtain ⟨next, hnext, w, hw, h⟩ := h
    cases h
    have hle := position_le hs.behind hnext
    refine ⟨hs.capacity, hle, hs.complete, fun hloop hended hclosed => ?_⟩
    by_cases hsub : label = .own (.subscribe (.ok ()))
    · subst hsub
      cases hclosed.symm.trans (hok hended)
    · obtain ⟨hin, hmore⟩ := (inLoop_of_step hw hloop).resolve_left hsub
      exact hs.position_lt hended (hs.ahead hin hended hclosed) hsub hmore hnext

theorem Informed.not_missed (hs : s.Informed) : ¬ s.Missed := by
  rintro ⟨hended, hpc, hwait⟩
  have hahead := hs.ahead (.inl hpc) hended
  grind [recv]

/-- A watcher that subscribes behind the last report misses it. -/
theorem missed_of_late (hlate : ¬ s.InTime label) (h : s.step label = some s') : s'.Missed := by
  unfold InTime at hlate
  split at hlate
  · obtain ⟨hended, hclosed⟩ := Classical.not_imp.1 hlate
    simp only [Following.step, Option.bind_eq_bind, Option.bind_eq_some_iff] at h
    obtain ⟨_, ⟨⟩, w, hw, ⟨⟩⟩ := h
    have hwait := recv_of_length_le le_rfl (Bool.eq_false_iff.2 hclosed)
    refine ⟨hended, ?_, congrArg Prod.fst hwait⟩
    unfold Watching.step Watcher.advance at hw
    grind [Watcher.goto]
  · exact absurd trivial hlate

/-- **A watcher misses the completion** of its distribution exactly if it subscribes when the last
report has been sent, and the channel is still open. -/
theorem never_misses_iff {w : Watching} (hcapacity : 0 < capacity)
    (hrun : Lts.exec step (start w capacity) labels = some s) :
    Lts.Always step (fun s => ¬ s.Missed) (start w capacity) labels ↔
      Lts.Along step InTime (start w capacity) labels := by
  refine Lts.always_iff_along Informed _ (fun _ _ _ hs hok h => hs.step hok h)
    (fun _ _ _ _ hlate h hno => hno (missed_of_late hlate h)) (fun _ hs => hs.not_missed) ?_ hrun
  exact ⟨hcapacity, Nat.zero_le _, by simp [start], by simp [start]⟩

/-- The only target has not started. -/
def waiting : TransferReport := ⟨1, [⟨"a", .pending, 0, 8, none⟩], false⟩

/-- The last report falls between the status and the subscription. -/
def gap : List FollowingLabel :=
  [.watching (.own (.status (.ok waiting))), .publish Watching.early true,
    .watching (.own (.subscribe (.ok ())))]

/-- **The completion is missed**, and the slot stays pending. -/
theorem gap_missed : ∃ s ∈ Lts.exec step (start Watching.undiscovered 16) gap,
    s.Missed ∧ s.watching.slotState = some .pending :=
  ⟨_, rfl, ⟨rfl, rfl, rfl⟩, rfl⟩

/-- The last report is received if it is sent behind the subscription. -/
theorem in_time_never_missed :
    Lts.Always step (fun s => ¬ s.Missed) (start Watching.undiscovered 16)
      [.watching (.own (.status (.ok waiting))), .watching (.own (.subscribe (.ok ()))),
        .publish Watching.early true] := by
  refine (never_misses_iff (by decide) rfl).2 ⟨trivial, ?_⟩
  rintro _ ⟨⟩
  refine ⟨by rintro ⟨⟩, ?_⟩
  rintro _ ⟨⟩
  exact ⟨trivial, fun _ _ => trivial⟩

end Following

end PeatNode.Attachments
