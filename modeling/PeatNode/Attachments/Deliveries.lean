/-
# Deliveries into one inbox

`deliver` of `src/attachments/inbox.rs` step by step, any number of calls at once, over a disk
whose files can be written after they were renamed.  Every step can fail.  `locate` says which
file a path names, as two paths may name one.  `published` is not in the source: the bytes of the
last successful delivery to a file, or what the inbox held.

All deliveries to one target share a staging file beside it.  If none has the staging file of
another for its target and no two that share one overlap, every target holds what was published
there (`published_kept`). The gate looks at the length only; it is right if all that is delivered
to the file in that length is its blob (`alreadyDelivered_right`).
-/

import PeatNode.Attachments.Inbox
import PeatNode.Lib.Disk
import PeatNode.Lib.Lists
import PeatNode.Lib.Lts

namespace PeatNode.Attachments

open UnixPath List
open Ledger (asBytes)

/-- The files of the inbox by their paths. -/
abbrev Files := Disk (List Component)

structure FileStat where
  isFile : Bool
  len : ℕ
deriving DecidableEq

def FilesystemInboxSink.alreadyDelivered (sink : FilesystemInboxSink)
    (metadata : Path → Option FileStat) (doc : DistributionDocument) : Bool :=
  match metadata (sink.alreadyDeliveredPath doc) with
  | some md => md.isFile && md.len = doc.blobSize
  | none => false

inductive DeliverPhase
  | arrived
  | copying (file offset : ℕ)
  | measured (written : ℕ)
  | delivered
  | failed
deriving DecidableEq

/-- From the opening of the staging file to the rename. -/
def DeliverPhase.isWorking : DeliverPhase → Bool
  | .copying _ _ | .measured _ => true
  | .arrived | .delivered | .failed => false

/-- A call of `deliver` with the blob that it copies. -/
structure Delivery where
  target : List Component
  tmp : List Component
  blobSize : ℕ
  blob : List UInt8
  phase : DeliverPhase

/-- The steps of a call; one that fails before it opens the staging file does nothing. -/
inductive DeliverAction
  | openTmp
  | write (count : ℕ)
  | metadata
  | publish
  | fail
deriving DecidableEq

/-- The next phase, the disk, and whether it publishes. -/
def Delivery.advance (c : Delivery) (d : Files) :
    DeliverAction → Option (DeliverPhase × Files × Bool)
  | .openTmp =>
    if c.phase = .arrived then
      let d := d.create c.tmp
      (d.dir c.tmp).map fun file => (.copying file 0, d, false)
    else none
  | .write count =>
    match c.phase with
    | .copying file offset =>
      let bytes := (c.blob.drop offset).take count
      some (.copying file (offset + bytes.length), d.writeAt file offset bytes, false)
    | _ => none
  | .metadata =>
    match c.phase with
    | .copying _ offset =>
      if c.blob.length ≤ offset then
        match d.read c.tmp with
        | some bytes => some (.measured bytes.length, d, false)
        | none => some (.failed, d, false)
      else none
    | _ => none
  | .publish =>
    match c.phase with
    | .measured written =>
      if written = c.blobSize then
        match d.rename c.tmp c.target with
        | some d => some (.delivered, d, true)
        | none => some (.failed, d, false)
      else some (.failed, d.remove c.tmp, false)
    | _ => none
  | .fail => if c.phase.isWorking then some (.failed, d, false) else none

structure Inbox where
  disk : Files
  calls : List Delivery
  published : List Component → Option (List UInt8)

inductive InboxLabel
  | deliver (doc : DistributionDocument) (blob : List UInt8)
  | advance (i : ℕ) (action : DeliverAction)

namespace Inbox

def start (disk : Files) : Inbox := ⟨disk, [], disk.read⟩

variable (locate : Path → List Component) (sink : FilesystemInboxSink)

/-- The call, under the name or one made from the id. -/
def call (doc : DistributionDocument) (blob : List UInt8) : Delivery :=
  let paths := sink.deliveryPaths doc
  ⟨locate paths.target, locate paths.tmp, doc.blobSize, blob, .arrived⟩

def step (s : Inbox) : InboxLabel → Option Inbox
  | .deliver doc blob => some { s with calls := s.calls ++ [call locate sink doc blob] }
  | .advance i action => do
    let c ← s.calls[i]?
    let (phase, disk, published) ← c.advance s.disk action
    some
      { disk
        calls := s.calls.set i { c with phase }
        published :=
          if published then Function.update s.published c.target (some c.blob) else s.published }

/-- What is at the staging path of a call at work. -/
def Staged (d : Files) (c : Delivery) : Prop :=
  match c.phase with
  | .copying file offset =>
    d.dir c.tmp = some file ∧ (d.data file).length = offset ∧ d.data file <+: c.blob
  | .measured _ => d.read c.tmp = some c.blob
  | .arrived | .delivered | .failed => True

/-- No other call at work has the staging path. -/
def Alone (s : Inbox) (i : ℕ) (c : Delivery) : Prop :=
  ∀ c' ∈ s.calls.eraseIdx i, c'.phase.isWorking → c'.tmp ≠ c.tmp
deriving Decidable

theorem alone_iff {s : Inbox} :
    s.Alone i c ↔
    ∀ (j : ℕ) c', s.calls[j]? = some c' → c'.phase.isWorking → c'.tmp = c.tmp → j = i := by
  grind [Alone, mem_eraseIdx_iff_getElem?]

structure Sound (s : Inbox) : Prop where
  apart : s.calls.map (·.tmp) |>.Disjoint (s.calls.map (·.target))
  kept : ∀ p ∉ s.calls.map (·.tmp), s.disk.read p = s.published p
  staged : ∀ (i : ℕ) c, s.calls[i]? = some c → Staged s.disk c
  alone : ∀ (i : ℕ) c, s.calls[i]? = some c → c.phase.isWorking → s.Alone i c

variable {locate sink} {s t : Inbox} {i : ℕ} {c : Delivery}

theorem Staged.agree (h : Staged d c) (hagree : c.phase.isWorking → d.Agree d' c.tmp) :
    Staged d' c := by
  unfold Staged at *
  split at h
  · next hphase =>
    have hagree := hagree (by rw [hphase]; rfl)
    rw [hagree.dir, hagree.data _ h.1]
    exact h
  · next hphase => rwa [(hagree (by rw [hphase]; rfl)).read]
  · trivial
  · trivial
  · trivial

theorem Sound.set (h : s.Sound) (hc : s.calls[i]? = some c) (halone : s.Alone i c) {disk : Files}
    {published : List Component → Option (List UInt8)}
    (hagree : ∀ p, p ≠ c.tmp → p ≠ c.target → s.disk.Agree disk p)
    (hpublished : ∀ p, p ≠ c.target → published p = s.published p)
    (htarget : disk.read c.target = published c.target) (hstaged : Staged disk { c with phase }) :
    Sound ⟨disk, s.calls.set i { c with phase }, published⟩ := by
  rw [alone_iff] at halone
  have hmem : c ∈ s.calls := mem_of_getElem? hc
  have htmp : ∀ {c'}, c' ∈ s.calls → c'.tmp ≠ c.target := fun hc' heq =>
    h.apart (mem_map_of_mem hc') (heq ▸ mem_map_of_mem hmem)
  have htmps : (s.calls.set i { c with phase }).map (·.tmp) = s.calls.map (·.tmp) :=
    map_set_of_eq hc rfl
  have htargets : (s.calls.set i { c with phase }).map (·.target) = s.calls.map (·.target) :=
    map_set_of_eq hc rfl
  constructor
  · rw [htmps, htargets]
    exact h.apart
  · intro p hp
    rw [htmps] at hp
    by_cases hpath : p = c.target
    · exact hpath ▸ htarget
    · have hne : p ≠ c.tmp := fun heq => hp (heq ▸ mem_map_of_mem hmem)
      exact (hagree p hne hpath).read.trans ((h.kept p hp).trans (hpublished p hpath).symm)
  · intro j c' hc'
    rcases getElem?_set_cases hc' with ⟨-, rfl⟩ | ⟨hne, hc'⟩
    · exact hstaged
    · exact (h.staged j c' hc').agree fun hw =>
        hagree _ (fun heq => hne (halone j c' hc' hw heq)) (htmp (mem_of_getElem? hc'))
  · intro j c' hc' hw
    refine alone_iff.2 fun k c'' hc'' hw' heq => ?_
    rcases getElem?_set_cases hc' with ⟨rfl, rfl⟩ | ⟨-, hj⟩ <;>
      rcases getElem?_set_cases hc'' with ⟨rfl, rfl⟩ | ⟨-, hk⟩
    · rfl
    · exact halone k c'' hk hw' heq
    · exact (halone j c' hj hw heq.symm).symm
    · exact alone_iff.1 (h.alone j c' hj hw) k c'' hk hw' heq

/-- A step that publishes nothing and touches only the staging path. -/
theorem Sound.work (h : s.Sound) (hc : s.calls[i]? = some c) (halone : s.Alone i c) {disk : Files}
    (hagree : ∀ p, p ≠ c.tmp → s.disk.Agree disk p) (hstaged : Staged disk { c with phase }) :
    Sound ⟨disk, s.calls.set i { c with phase }, s.published⟩ := by
  have htarget : c.target ∉ s.calls.map (·.tmp) := fun hp =>
    h.apart hp (mem_map_of_mem (mem_of_getElem? hc))
  refine h.set hc halone (fun p hp _ => hagree p hp) (fun _ _ => rfl) ?_ hstaged
  rw [← h.kept _ htarget]
  refine (hagree _ fun heq => htarget ?_).read
  rw [heq]
  exact mem_map_of_mem (mem_of_getElem? hc)

/-- A call that has not begun touches nothing. -/
theorem Sound.concat (h : s.Sound) (hphase : c.phase = .arrived)
    (hapart : ∀ p ∈ c.tmp :: s.calls.map (·.tmp), p ∉ c.target :: s.calls.map (·.target)) :
    Sound { s with calls := s.calls ++ [c] } := by
  have hold : ∀ {j : ℕ} {c' : Delivery}, (s.calls ++ [c])[j]? = some c' →
      s.calls[j]? = some c' ∨ c'.phase = .arrived := by grind
  have hworking : ∀ {j : ℕ} {c' : Delivery}, (s.calls ++ [c])[j]? = some c' →
      c'.phase.isWorking → s.calls[j]? = some c' := fun hj hw => (hold hj).resolve_right
    fun harrived => by simp [harrived, DeliverPhase.isWorking] at hw
  constructor
  · intro p hp hp'
    exact hapart p (by simpa [or_comm, eq_comm] using hp) (by simpa [or_comm, eq_comm] using hp')
  · exact fun p hp => h.kept p fun hmem => hp (by simp_all)
  · intro j c' hj
    rcases hold hj with hj | harrived
    · exact h.staged j c' hj
    · simp [Staged, harrived]
  · intro j c' hj hw
    refine alone_iff.2 fun k c'' hk hw' => ?_
    exact alone_iff.1 (h.alone j c' (hworking hj hw) hw) k c'' (hworking hk hw') hw'

/-- No other delivery has its target for the staging path or its staging path for the target, nor,
when it opens the staging file, works there. -/
def Undisturbed (locate : Path → List Component) (sink : FilesystemInboxSink) (s : Inbox) :
    InboxLabel → Prop
  | .deliver doc _ =>
    ∀ p ∈ locate (sink.deliveryPaths doc).tmp :: s.calls.map (·.tmp),
      p ∉ locate (sink.deliveryPaths doc).target :: s.calls.map (·.target)
  | .advance i action => action = .openTmp → ∀ c ∈ s.calls[i]?, s.Alone i c

instance (s : Inbox) : DecidablePred (Undisturbed locate sink s) := fun label => by
  cases label <;> unfold Undisturbed <;> infer_instance

theorem isWorking_of_advance {d : Files} {action : DeliverAction}
    {next : DeliverPhase × Files × Bool} (hne : action ≠ .openTmp)
    (h : c.advance d action = some next) : c.phase.isWorking := by
  cases action <;> cases hphase : c.phase <;> simp_all [Delivery.advance, DeliverPhase.isWorking]

theorem Sound.step {label : InboxLabel} (h : s.Sound) (hok : s.Undisturbed locate sink label)
    (hstep : s.step locate sink label = some t) : t.Sound := by
  cases label with
  | deliver doc blob =>
    cases hstep
    exact h.concat rfl hok
  | advance i action =>
    obtain ⟨c, hc, hstep⟩ := Option.bind_eq_some_iff.1 hstep
    obtain ⟨⟨phase, disk, published⟩, hadvance, hstep⟩ := Option.bind_eq_some_iff.1 hstep
    cases hstep
    have halone : s.Alone i c := by
      by_cases hopen : action = .openTmp
      · exact hok hopen c hc
      · exact h.alone i c hc (isWorking_of_advance hopen hadvance)
    have hstaged := h.staged i c hc
    cases action with
    | openTmp =>
      simp only [Delivery.advance, Option.ite_none_right_eq_some] at hadvance
      obtain ⟨file, hfile, heq⟩ := Option.map_eq_some_iff.1 hadvance.2
      cases heq
      obtain ⟨file', hfile', hempty⟩ := s.disk.create_self c.tmp
      cases hfile.symm.trans hfile'
      exact h.work hc halone (fun _ hp => Disk.agree_create hp) ⟨hfile, by simp [hempty]⟩
    | write count =>
      simp only [Delivery.advance] at hadvance
      split at hadvance
      · next file offset hphase =>
        simp only [Staged, hphase] at hstaged
        obtain ⟨hfile, rfl, rest, hrest⟩ := hstaged
        cases hadvance
        refine h.work hc halone (fun _ hp => Disk.agree_writeAt hfile hp) ⟨hfile, ?_⟩
        rw [Disk.data_writeAt rfl, ← hrest, drop_left]
        exact ⟨by simp, (prefix_append_right_inj _).2 ( take_prefix _ _)⟩
      · cases hadvance
    | metadata =>
      simp only [Delivery.advance] at hadvance
      split at hadvance
      · next file offset hphase =>
        simp only [Staged, hphase] at hstaged
        obtain ⟨hfile, rfl, hbegins⟩ := hstaged
        split_ifs at hadvance with hlen
        have hblob : s.disk.read c.tmp = some c.blob := by
          simp [Disk.read, hfile, hbegins.eq_of_length_le hlen]
        rw [hblob] at hadvance
        cases hadvance
        exact h.work hc halone (fun _ _ => .refl) hblob
      · cases hadvance
    | publish =>
      simp only [Delivery.advance] at hadvance
      split at hadvance
      · next written hphase =>
        simp only [Staged, hphase] at hstaged
        split_ifs at hadvance
        · split at hadvance
          · next d hrename =>
            cases hadvance
            obtain ⟨hread, hagree⟩ := Disk.rename_spec hrename
            exact h.set hc halone hagree (fun _ hp => Function.update_of_ne hp _ _)
              (by simp [hread, hstaged]) trivial
          · cases hadvance
            exact h.work hc halone (fun _ _ => .refl) trivial
        · cases hadvance
          exact h.work hc halone (fun _ hp => Disk.agree_remove hp) trivial
      · cases hadvance
    | fail =>
      simp only [Delivery.advance, Option.ite_none_right_eq_some] at hadvance
      cases hadvance.2
      exact h.work hc halone (fun _ _ => .refl) trivial

theorem sound_start (disk : Files) : (start disk).Sound :=
  ⟨by simp [start], fun _ _ => rfl, by simp [start], by simp [start]⟩

def delivered (labels : List InboxLabel) : List (DistributionDocument × List UInt8) :=
  labels.filterMap fun
    | .deliver doc blob => some (doc, blob)
    | .advance _ _ => none

/-- The calls are those of the delivered documents, and what is published is what one of them had,
or was there. -/
structure Traced (locate : Path → List Component) (sink : FilesystemInboxSink) (disk : Files)
    (given : List (DistributionDocument × List UInt8)) (s : Inbox) : Prop where
  calls : ∀ c ∈ s.calls, ∃ d ∈ given, c.target = locate (sink.deliveryPaths d.1).target ∧
    c.tmp = locate (sink.deliveryPaths d.1).tmp ∧ c.blob = d.2
  published : ∀ p bytes, s.published p = some bytes →
    disk.read p = some bytes ∨ (p, bytes) ∈ s.calls.map fun c => (c.target, c.blob)

theorem Traced.step {label : InboxLabel} {disk : Files} (h : s.Traced locate sink disk given)
    (hgiven : delivered [label] ⊆ given) (hstep : s.step locate sink label = some t) :
    t.Traced locate sink disk given := by
  cases label with
  | deliver doc blob =>
    cases hstep
    refine ⟨forall_mem_concat h.calls ⟨(doc, blob), hgiven mem_cons_self, rfl, rfl, rfl⟩,
      fun p bytes hp => (h.published p bytes hp).imp_right ?_⟩
    rw [map_append]
    exact mem_append_left _
  | advance i action =>
    obtain ⟨c, hc, hstep⟩ := Option.bind_eq_some_iff.1 hstep
    obtain ⟨⟨phase, disk', published⟩, -, hstep⟩ := Option.bind_eq_some_iff.1 hstep
    cases hstep
    have hmem := mem_of_getElem? hc
    have hcalls : (s.calls.set i { c with phase }).map (fun c => (c.target, c.blob)) =
        s.calls.map fun c => (c.target, c.blob) := map_set_of_eq hc rfl
    refine ⟨forall_mem_set h.calls (h.calls c hmem), fun p bytes hp => ?_⟩
    simp only [hcalls] at hp ⊢
    split_ifs at hp
    · by_cases htarget : p = c.target
      · subst htarget
        rw [Function.update_self, Option.some.injEq] at hp
        exact .inr (mem_map.2 ⟨c, hmem, by rw [hp]⟩)
      · rw [Function.update_of_ne htarget] at hp
        exact h.published p bytes hp
    · exact h.published p bytes hp

def metadata (locate : Path → List Component) (s : Inbox) (p : Path) : Option FileStat :=
  (s.disk.read (locate p)).map fun bytes => ⟨true, bytes.length⟩

section Run

variable {disk : Files} {labels : List InboxLabel}
  (hok : Lts.Along (step locate sink) (Undisturbed locate sink) (start disk) labels)
  (hrun : Lts.exec (step locate sink) (start disk) labels = some s)
include hrun

theorem traced_of_exec : s.Traced locate sink disk (delivered labels) := by
  refine Lts.exec_invariant _ (fun _ _ _ h hlabel hstep => h.step hlabel hstep)
    ⟨by simp [start], fun p bytes hp => .inl hp⟩
    (Lts.along_of_forall (P := fun label => delivered [label] ⊆ delivered labels) ?_ _) hrun
  exact fun label hlabel => (singleton_sublist.2 hlabel).filterMap _ |>.subset

include hok

theorem sound_of_exec : s.Sound :=
  Lts.exec_invariant Sound (fun _ _ _ h hok hstep => h.step hok hstep) (sound_start disk) hok hrun

/-- **Deliveries that do not meet do not disturb each other**: every target holds the bytes of its
last successful delivery. -/
theorem published_kept : ∀ c ∈ s.calls, s.disk.read c.target = s.published c.target :=
  have h := sound_of_exec hok hrun
  fun _ hc => h.kept _ fun hp => h.apart hp (mem_map_of_mem hc)

/-- **When the gate is right.** If the file of a document is no staging file, and all that is
delivered to it in the length of the blob, or was there, is the blob, a document that passes for
delivered has its blob in the inbox. -/
theorem alreadyDelivered_right (doc : DistributionDocument) (blob : List UInt8)
    (hsize : blob.length = doc.blobSize)
    (hnames : ∀ d ∈ delivered labels,
      locate (sink.deliveryPaths d.1).tmp ≠ locate (sink.deliveryPaths doc).target)
    (hcontents : ∀ d ∈ delivered labels,
      locate (sink.deliveryPaths d.1).target = locate (sink.deliveryPaths doc).target →
        d.2.length = blob.length → d.2 = blob)
    (hbefore : ∀ bytes, disk.read (locate (sink.deliveryPaths doc).target) = some bytes →
      bytes.length = blob.length → bytes = blob)
    (hgate : sink.alreadyDelivered (s.metadata locate) doc) :
    s.disk.read (locate (sink.deliveryPaths doc).target) = some blob := by
  have htraced := traced_of_exec hrun
  have htmp : locate (sink.deliveryPaths doc).target ∉ s.calls.map (·.tmp) := by
    intro hmem
    obtain ⟨c, hc, heq⟩ := mem_map.1 hmem
    obtain ⟨d, hd, -, htmp, -⟩ := htraced.calls c hc
    exact hnames d hd (htmp.symm.trans heq)
  have hkept := (sound_of_exec hok hrun).kept _ htmp
  have hpath : sink.alreadyDeliveredPath doc = (sink.deliveryPaths doc).target := rfl
  rw [FilesystemInboxSink.alreadyDelivered, metadata, hpath] at hgate
  cases hfile : s.disk.read (locate (sink.deliveryPaths doc).target) with
  | none => simp [hfile] at hgate
  | some bytes =>
    have hlen : bytes.length = blob.length := by
      rw [hfile] at hgate
      rw [hsize]
      simpa using hgate
    rw [hfile] at hkept
    rcases htraced.published _ bytes hkept.symm with hold | hpublished
    · rw [hbefore bytes hold hlen]
    · obtain ⟨c, hc, heq⟩ := mem_map.1 hpublished
      obtain ⟨htarget, rfl⟩ := Prod.mk.inj heq
      obtain ⟨d, hd, hplace, -, hblob⟩ := htraced.calls c hc
      rw [hblob] at hlen ⊢
      rw [hcontents d hd (hplace.symm.trans htarget) hlen]

end Run

def copies (i : ℕ) : List InboxLabel := [.openTmp, .write 9, .metadata].map (.advance i)

def emptyInbox : Inbox := start ⟨fun _ => none, fun _ => [], 0, by simp, by simp⟩

/-- A delivery of one byte. -/
def delivers (i : ℕ) (name : String) (byte : UInt8) : List InboxLabel :=
  .deliver ⟨"id", some name, 1⟩ [byte] :: copies i ++ [.advance i .publish]

def targetOf (name : String) : List Component :=
  components (inbox.deliveryPaths ⟨"id", some name, 1⟩).target

theorem published_in_turn :
    ∃ s ∈ Lts.exec (step components inbox) emptyInbox (delivers 0 "a" 1 ++ delivers 1 "b" 2),
      s.published (targetOf "a") = some [1] ∧
        ∀ c ∈ s.calls, s.disk.read c.target = s.published c.target :=
  Lts.exists_mem_and (by decide +kernel) fun _ hrun _ => published_kept (by decide +kernel) hrun

/-- **Deliveries disturb each other.** A file named like a staging file is gone after the next
delivery; of two deliveries to one path, one renames what the other has just emptied. -/
theorem deliveries_disturbed :
    (∃ s ∈ Lts.exec (step components inbox) emptyInbox (delivers 0 ".a.partial" 1 ++ delivers 1 "a" 2),
      s.published (targetOf ".a.partial") = some [1] ∧
        s.disk.read (targetOf ".a.partial") = none) ∧
    ∃ s ∈ Lts.exec (step components inbox) emptyInbox
        (.deliver ⟨"id", some "a", 1⟩ [1] :: .deliver ⟨"other", some "a", 1⟩ [2] :: copies 0 ++
          [.advance 1 .openTmp, .advance 0 .publish]),
      s.published (targetOf "a") = some [1] ∧ s.disk.read (targetOf "a") = some [] := by
  decide +kernel

/-- Of two documents the second has no name. -/
def deliversNameless : List InboxLabel :=
  delivers 0 "a" 1 ++ .deliver ⟨"id", none, 1⟩ [2] :: copies 1 ++ [.advance 1 .publish]

theorem alreadyDelivered_nameless :
    ∃ s ∈ Lts.exec (step components inbox) emptyInbox deliversNameless,
      inbox.alreadyDelivered (s.metadata components) ⟨"id", none, 1⟩ ∧
        s.disk.read (components (asBytes "/var/inbox/id.bin")) = some [2] :=
  Lts.exists_mem_and (by decide +kernel) fun _ hrun hgate =>
    alreadyDelivered_right (by decide +kernel) hrun ⟨"id", none, 1⟩ [2] rfl (by decide +kernel)
      (by decide +kernel) (by simp [Disk.read]) hgate

/-- **A new version of the same length is taken for delivered.** -/
theorem alreadyDelivered_wrong : ∃ s ∈ Lts.exec (step components inbox) emptyInbox (delivers 0 "a" 1),
    inbox.alreadyDelivered (s.metadata components) ⟨"other", some "a", [2].length⟩ ∧
      s.disk.read (targetOf "a") ≠ some [2] := by
  decide +kernel

end Inbox

end PeatNode.Attachments
