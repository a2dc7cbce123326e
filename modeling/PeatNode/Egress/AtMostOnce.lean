/-
# At most one publication

A digest that the journal has granted is in exactly one place: on its way to the publisher
(`Process.grants`) or in the log of publications.  The journal grants only a digest it does not
know, so a digest is granted once over all lifetimes if the reservation is found again after a
restart (`Sound.step`).  A record appended behind a torn one is acknowledged, and the next recovery
cuts it off (`tornRun_publishes_twice`).
-/

import PeatNode.Egress.Grants
import PeatNode.Ledger.Durable

namespace PeatNode.Egress

open Bridge DurableFile Ledger Multiset Process Option

def Machine.process : Machine → Option Process
  | .down _ => none
  | .up p => some p

def Label.isServe : Label → Bool
  | .act (.serve _ _) => true
  | _ => false

/-- The invariant of a running process, with the log of publications. -/
structure UpSound (published : List Offer) (p : Process) : Prop where
  linked : p.worker.journal.Linked
  fits : Fits p.worker.journal
  nodup : (digests published + p.grants).Nodup
  durable : ∀ d ∈ digests published + p.grants, DurablyReserved p.worker.journal.file d
  known : ∀ d ∈ digests published + p.grants, d ∈ p.worker.journal.index

structure DownSound (published : List Offer) (dir : LedgerDir) : Prop where
  nodup : (digests published).Nodup
  durable : ∀ d ∈ digests published, DurableIn dir d

namespace UpSound

variable {published : List Offer} {p p' : Process}

theorem durableIn (h : UpSound published p) (hd : d ∈ digests published + p.grants) :
    DurableIn p.worker.journal.dir d :=
  ⟨_, h.linked.2, h.durable d hd⟩

theorem of_le (h : UpSound published p) (hj : Advances p.worker.journal p'.worker.journal)
    (hle : p'.grants ≤ p.grants) : UpSound published p' := by
  have hsub : digests published + p'.grants ≤ digests published + p.grants := by
    gcongr
  exact ⟨hj.linked, hj.fits, nodup_of_le hsub h.nodup,
    fun d hd => (h.durable d (mem_of_le hsub hd)).mono hj.synced,
    fun d hd => hj.index.mem (h.known d (mem_of_le hsub hd))⟩

theorem of_grant (h : UpSound published p) (hj : Advances p.worker.journal p'.worker.journal)
    (hgrants : p'.grants = {d} + p.grants) (hnew : d ∉ p.worker.journal.index)
    (hdurable : DurablyReserved p'.worker.journal.file d) (hknown : d ∈ p'.worker.journal.index) :
    UpSound published p' := by
  have hall : digests published + p'.grants = d ::ₘ (digests published + p.grants) := by
    rw [hgrants, ← singleton_add]
    abel
  refine ⟨hj.linked, hj.fits, ?_, ?_, ?_⟩
  · rw [hall, nodup_cons]
    exact ⟨fun hd => hnew (h.known d hd), h.nodup⟩
  · intro d' hd'
    rw [hall] at hd'
    rcases mem_cons.1 hd' with rfl | hd'
    · exact hdurable
    · exact (h.durable d' hd').mono hj.synced
  · intro d' hd'
    rw [hall] at hd'
    rcases mem_cons.1 hd' with rfl | hd'
    · exact hknown
    · exact hj.index.mem (h.known d' hd')

/-- **One step inside a process.** Only the worker may grant a digest, provided it appends in
step. -/
theorem step (h : UpSound published p) (hs : p.step k parse a = some p')
    (hok : (Label.act a).isServe = true → ∀ command ∈ p.commands.head?,
      Admits p.worker.journal command.digest command.state → InChunks p.worker.journal.file) :
    UpSound published p' := by
  by_cases ha : (Label.act a).isServe = true
  · cases a with
    | serve io receiver =>
      obtain ⟨command, rest, hcommands, hj, hgrants⟩ := serve_cases hs
      have hadv := recordInner_advances h.linked h.fits command.digest command.state io
      rw [← hj] at hadv
      rcases hgrants with hle | ⟨hstate, hgrants, hans⟩
      · exact h.of_le hadv hle
      · have hstep := hok rfl command (by rw [hcommands]; rfl)
        rw [hstate] at hans hstep hj
        obtain ⟨hnew, hknown, hdurable⟩ := durable_of_recordInner h.linked h.fits hans hstep
        rw [← hj] at hknown hdurable
        exact h.of_grant hadv hgrants hnew hdurable hknown
    | _ => cases ha
  · have hquiet := quiet_step hs fun io receiver h => ha (by rw [h]; rfl)
    refine h.of_le ?_ hquiet.grants_le
    rw [hquiet.journal_eq]
    exact .refl h.linked h.fits

end UpSound

/-- A crash keeps what is durable. -/
theorem durableIn_crashDir (h : crashDir dir bytes = some dir') (hd : DurableIn dir d) :
    DurableIn dir' d := by
  obtain ⟨f, hactive, hd⟩ := hd
  unfold crashDir at h
  rw [hactive] at h
  simp only at h
  split_ifs at h with hp
  cases h
  exact ⟨_, rfl, hd⟩

variable {published : List Offer}

/-- What a crash leaves of a running process. -/
theorem UpSound.crash (h : UpSound published p)
    (hdir : crashDir p.worker.journal.dir bytes = some dir) : DownSound published dir := by
  have hle : digests published ≤ digests published + p.grants := le_add_right _ _
  exact ⟨nodup_of_le hle h.nodup,
    fun d hd => durableIn_crashDir hdir (h.durableIn (mem_of_le hle hd))⟩

theorem UpSound.publish (h : UpSound published p) (ho : p.egress = .received o) :
    UpSound (published ++ [o]) { p with egress := .publishing o } := by
  have hsame : digests (published ++ [o]) + ({ p with egress := .publishing o } : Process).grants =
      digests published + p.grants := by
    simp only [grants, ho, digests_append, digests_cons, digests_nil, EgressPc.grant]
    abel
  exact ⟨h.linked, h.fits, hsame ▸ h.nodup, hsame ▸ h.durable, hsame ▸ h.known⟩

theorem Process.grants_start (k : EgressClassifier) (j : Journal) : (start k j).grants = 0 := rfl

/-- A process that opens the journal knows every published digest. -/
theorem DownSound.openJournal_ok (h : DownSound published dir) (k : EgressClassifier)
    (hopen : (openJournal .delivery fault dir).2 = .ok j) : UpSound published (.start k j) := by
  have hj := (faithful_of_openJournal hopen).1
  have hsame : digests published + (start k j).grants = digests published := by
    rw [grants_start, add_zero]
  refine ⟨hj.linked, hj.fits, by rw [hsame]; exact h.nodup, ?_, ?_⟩ <;> rw [hsame] <;> intro d hd
  · obtain ⟨⟨f, hactive, hd⟩, hok⟩ := durable_openJournal .delivery fault (h.durable d hd)
    rw [← (hok j hopen).1, hj.linked.2, some.injEq] at hactive
    exact hactive ▸ hd
  · exact ((durable_openJournal .delivery fault (h.durable d hd)).2 j hopen).2

namespace System

variable {k : EgressClassifier} {parse : String → Option BridgeEnvelope} {s s' : System}

/-- **On its way or published once, durably reserved, and known.** -/
def Sound (s : System) : Prop :=
  match s.machine with
  | .down dir => DownSound s.published dir
  | .up p => UpSound s.published p

/-- Only whole records are appended to. -/
def InStep (s : System) (l : Label) : Prop :=
  l.isServe = true → ∀ p ∈ s.machine.process, ∀ command ∈ p.commands.head?,
    Admits p.worker.journal command.digest command.state → InChunks p.worker.journal.file
deriving Decidable

theorem sound_start (dir : LedgerDir) : Sound (start dir) := by
  refine ⟨by simp [start], fun d hd => ?_⟩
  simp [start] at hd

/-- **One step of the system.** -/
theorem Sound.step (hs : Sound s) (hok : InStep s l) (h : step k parse s l = some s') :
    Sound s' := by
  obtain ⟨machine, published⟩ := s
  cases machine with
  | down dir =>
    have hs : DownSound published dir := hs
    cases l with
    | openJournal fault =>
      simp only [step] at h
      split at h
      · rename_i dir' j hopen
        cases h
        exact hs.openJournal_ok k (by rw [hopen])
      · rename_i dir' e hopen
        cases h
        refine ⟨hs.nodup, fun d hd => ?_⟩
        have hdir := (durable_openJournal .delivery fault (hs.durable d hd)).1
        rw [hopen] at hdir
        exact hdir
    | crash bytes =>
      obtain ⟨dir', hdir, rfl⟩ := map_eq_some_iff.1 h
      exact ⟨hs.nodup, fun d hd => durableIn_crashDir hdir (hs.durable d hd)⟩
    | publish | act a => cases h
  | up p =>
    have hs : UpSound published p := hs
    cases l with
    | openJournal fault => cases h
    | crash bytes =>
      obtain ⟨dir', hdir, rfl⟩ := map_eq_some_iff.1 h
      exact hs.crash hdir
    | publish =>
      simp only [step] at h
      split at h
      · rename_i o ho
        cases h
        exact hs.publish ho
      · simp at h
    | act a =>
      obtain ⟨p', hp', rfl⟩ := map_eq_some_iff.1 h
      exact hs.step hp' fun ha => hok ha p rfl

def publications (s : System) (collection docId : String) : ℕ :=
  s.published.countP fun o => decide (o.collection = collection ∧ o.docId = docId)

theorem publications_le_one (h : (digests s.published).Nodup) (collection docId : String) :
    s.publications collection docId ≤ 1 := by
  have hcount := nodup_iff_count_le_one.1 h (documentDigest collection docId)
  refine le_trans ?_ hcount
  rw [digests, coe_count, List.count, List.countP_map]
  refine List.countP_mono_left fun o _ ho => ?_
  obtain ⟨rfl, rfl⟩ := of_decide_eq_true ho
  simp [o.digest_eq]

/-- Nothing is published twice or unreserved. -/
def AtMostOnce (s : System) : Prop :=
  (∀ collection docId, s.publications collection docId ≤ 1) ∧
  (∀ o ∈ s.published, DurableIn s.dir (documentDigest o.collection o.docId)) ∧
  ∀ p o, s.machine = .up p → p.egress = .received o →
    DurableIn s.dir (documentDigest o.collection o.docId)

theorem mem_digests (h : o ∈ offers) : documentDigest o.collection o.docId ∈ digests offers := by
  rw [← o.digest_eq]
  exact mem_coe.2 (List.mem_map.2 ⟨o, h, rfl⟩)

theorem Sound.atMostOnce (h : Sound s) : AtMostOnce s := by
  obtain ⟨machine, published⟩ := s
  cases machine with
  | down dir =>
    have h : DownSound published dir := h
    exact ⟨publications_le_one h.nodup, fun o ho => h.durable _ (mem_digests ho), fun p o hp => by cases hp⟩
  | up p =>
    have h : UpSound published p := h
    have hle : digests published ≤ digests published + p.grants := le_add_right _ _
    refine ⟨publications_le_one (nodup_of_le hle h.nodup),
      fun o ho => h.durableIn (mem_of_le hle (mem_digests ho)), ?_⟩
    rintro p' o hp ho
    obtain rfl := Machine.up.inj hp
    refine h.durableIn (mem_add.2 (.inr (mem_add.2 (.inr ?_))))
    rw [ho, ← o.digest_eq]
    exact mem_singleton_self _

end System

/-- **At most one publication.** In every run over any number of crashes, failures and restarts
with every record appended in step, no document is published twice, and a durable reservation
precedes every publication. -/
theorem publish_at_most_once {k : EgressClassifier} {parse : String → Option BridgeEnvelope}
    {dir : LedgerDir} {labels : List Label} {s : System}
    (hstep : Lts.Along (System.step k parse) System.InStep (.start dir) labels)
    (hrun : Lts.exec (System.step k parse) (.start dir) labels = some s) : s.AtMostOnce := by
  have hsound : s.Sound := Lts.exec_invariant System.Sound (fun s l s' hs hok h => hs.step hok h)
    (System.sound_start dir) hstep hrun
  exact hsound.atMostOnce

/-! ### Two runs

The bridge maps the collection `frames`; every body is the envelope of a remote
node. -/

def framesClassifier : EgressClassifier := ⟨[⟨"vision", "frames"⟩], "local"⟩

def framesParse (text : String) : Option BridgeEnvelope :=
  some ⟨bridgeEnvelopeKind, bridgeEnvelopeVersion, "vision", "remote", text⟩

def framesEvent (docId : String) : BridgeChangeEvent := ⟨"frames", docId, "peer", "0"⟩

def framesOffer (docId : String) : Offer :=
  ⟨"frames", docId, ⟨documentDigest "frames" docId, "vision", "0", 0⟩, rfl⟩

def readyStatus : BridgeStatus :=
  (BridgeStatus.new ["vision"]).setConnected.markAllSubscriptionsEstablished

def requestSteps (docId : String) : List Label :=
  [.act (.deliver (framesEvent docId)),
    .act (.checkReadiness ⟨framesOffer docId, .classified⟩),
    .act (.checkHealth ⟨framesOffer docId, .admitted⟩),
    .act (.send ⟨framesOffer docId, .cleared⟩)]

/-- A command served, and its offer published. -/
def publishSteps (docId : String) (ticket : ℕ) : List Label :=
  [.act (.serve .clean (.call ⟨framesOffer docId, .waiting ticket⟩)),
    .act (.resume ⟨framesOffer docId, .answered (.ok true)⟩), .act .receive, .publish]

def deliveryRun : List Label :=
  [.openJournal .none, .act (.setStatus readyStatus)] ++ requestSteps "0" ++ publishSteps "0" 0

theorem deliveryRun_at_most_once :
    ∃ s ∈ Lts.exec (System.step framesClassifier framesParse) (.start ⟨none, none⟩) deliveryRun,
      s.publications "frames" "0" = 1 ∧ s.AtMostOnce :=
  Lts.exists_mem_and (by decide +kernel) fun _ hs _ => publish_at_most_once (by decide +kernel) hs

/-- 79 bytes of one record, and a whole one. -/
def tornBytes : List UInt8 :=
  header .delivery ++ (encodeRecord 1 .reserved (documentDigest "frames" "185")).take 79 ++
    encodeRecord 2 .reserved (documentDigest "frames" "0")

/-- Two calls are queued. The write of the first record fails after 79 of its 80 bytes; the second
is acknowledged and published. After a crash a new process opens the journal and is offered the
second document again. -/
def tornRun : List Label :=
  [.openJournal .none, .act (.setStatus readyStatus)] ++ requestSteps "185" ++ requestSteps "0" ++
    [.act (.serve ⟨.write 79, none⟩ (.call ⟨framesOffer "185", .waiting 0⟩))] ++ publishSteps "0" 1 ++
    [.crash tornBytes, .openJournal .none, .act (.setStatus readyStatus)] ++
    requestSteps "0" ++ publishSteps "0" 0

/-- **Published twice.** The last byte of the first record is 0, and so is the first byte of the
second, which completes it; the rest of the second is torn, and recovery cuts it off. -/
theorem tornRun_publishes_twice :
    ∃ s ∈ Lts.exec (System.step framesClassifier framesParse) (.start ⟨none, none⟩) tornRun,
      s.publications "frames" "0" = 2 := by
  decide +kernel

end PeatNode.Egress
