/-
# Crashes in the middle of a write

A journal from the creation of its file on: it is opened, it records, and at any point a crash cuts
the one write in flight: the header of a new file, a record, or the `set_len` of a recovery.
`CrashRun` has the index before and after that write.

The next `Journal::open` finds one of the two, with everything that was acknowledged
(`CrashRun.Survives`), exactly if no header was cut inside and no whole `Completed` record for an
unknown digest came into the file (`crash_survives_iff`).
-/

import PeatNode.Ledger.Worker

namespace PeatNode.Ledger

open DurableFile List

/-- The file between two processes, or the journal of the running one. -/
inductive Machine
  | down (bytes : List UInt8)
  | up (journal : Journal)
deriving DecidableEq

def Machine.file : Machine → Option (List UInt8)
  | .down bytes => some bytes
  | .up _ => none

theorem Machine.file_isSome {m : Machine} : m.file.isSome = true ↔ ∃ bytes, m = .down bytes := by
  cases m <;> simp [Machine.file]

structure CrashRun where
  machine : Machine
  before : Index
  after : Index
  acked : List (LedgerDigest × RecordState)
deriving DecidableEq

inductive CrashLabel
  | openJournal
  | crashInOpen (cut : ℕ)
  | record (digest : LedgerDigest) (state : RecordState)
  | crashInRecord (digest : LedgerDigest) (state : RecordState) (cut : ℕ)
deriving DecidableEq

/-- What a crash leaves of a file being opened: some of the header of a new one, or a torn rest
that `set_len` has cut further. -/
def openCut (kind : JournalKind) (bytes : List UInt8) (cut : ℕ) : List UInt8 :=
  if bytes = [] then (header kind).take cut
  else match recover kind bytes with
    | .ok r => bytes.take (max (headerLen + r.records * recordLen) cut)
    | .error _ => bytes

namespace CrashRun

/-- The machine before the file exists. -/
def start : CrashRun := ⟨.down [], ∅, ∅, []⟩

/-- Successful calls only; failures are crashes. -/
def step (kind : JournalKind) (s : CrashRun) : CrashLabel → Option CrashRun
  | .openJournal => match s.machine with
    | .down bytes => match (Ledger.openJournal kind .none ⟨some (.ofDisk bytes), none⟩).2 with
      | .ok j => some { s with machine := .up j }
      | .error _ => none
    | .up _ => none
  | .crashInOpen cut => match s.machine with
    | .down bytes => some { s with machine := .down (openCut kind bytes cut) }
    | .up _ => none
  | .record digest state => match s.machine with
    | .down _ => none
    | .up j => match recordInner j digest state .clean with
      | (j', .ok inserted) => some { s with
          machine := .up j'
          acked := if inserted then (digest, state) :: s.acked else s.acked }
      | (_, .error _) => none
  | .crashInRecord digest state cut => match s.machine with
    | .down _ => none
    | .up j =>
      if Admits j digest state ∧ j.records < maxRecords then
        some { s with
          machine := .down (j.file.content ++ (encodeRecord (j.sequence + 1) state digest).take cut)
          before := j.index
          after := j.index.insert digest state }
      else none

/-- No cut in a header, no `Completed` without a reservation. -/
def CutsClean (s : CrashRun) : CrashLabel → Prop
  | .openJournal => True
  | .crashInOpen cut => s.machine = .down [] → cut = 0 ∨ headerLen ≤ cut
  | .record digest state => ∀ j, s.machine = .up j → ¬(digest ∉ j.index ∧ state = .completed)
  | .crashInRecord digest state cut => ∀ j, s.machine = .up j → recordLen ≤ cut →
      ¬(digest ∉ j.index ∧ state = .completed)

/-- The next `Journal::open` succeeds, with the index before or after the write that was cut and
all that was acknowledged. -/
def Survives (kind : JournalKind) (s : CrashRun) (bytes : List UInt8) : Prop :=
  ∃ j, (Ledger.openJournal kind .none ⟨some (.ofDisk bytes), none⟩).2 = .ok j ∧
    (j.index = s.before ∨ j.index = s.after) ∧ j.index.Holds s.acked

/-! ### The two outcomes -/

/-- Empty, or a journal of one of the indices and a torn rest. -/
def Intact (kind : JournalKind) (s : CrashRun) (bytes : List UInt8) : Prop :=
  bytes = [] ∧ s.before = ∅ ∧ Index.Holds ∅ s.acked ∨
    ∃ n base rest index, bytes = base ++ rest ∧ RecoversTo kind base n index ∧
      rest.length < recordLen ∧ (rest ≠ [] → n < maxRecords) ∧
      (index = s.before ∨ index = s.after) ∧ index.Holds s.acked

def Good (kind : JournalKind) (s : CrashRun) : Prop :=
  match s.machine with
  | .down bytes => Intact kind s bytes
  | .up j => Faithful j ∧ j.kind = kind ∧ j.index.Holds s.acked

def Bad (kind : JournalKind) (s : CrashRun) : Prop :=
  match s.machine with
  | .down bytes => bytes ≠ [] ∧ ∃ e, recover kind bytes = .error e
  | .up j => Spoiled j ∧ j.kind = kind

variable {kind : JournalKind} {s s' : CrashRun} {bytes : List UInt8}

theorem good_start (kind : JournalKind) : Good kind start := .inl ⟨rfl, rfl, Index.holds_nil _⟩

theorem Intact.survives (h : Intact kind s bytes) : Survives kind s bytes := by
  rcases h with ⟨rfl, hb, hacked⟩ | ⟨n, base, rest, index, hbytes, hrec, hrest, hn, hindex, hacked⟩
  · exact ⟨freshJournal kind, congrArg Prod.snd (openJournal_of_empty rfl), .inl hb.symm, hacked⟩
  · have hactive : (⟨some (.ofDisk bytes), none⟩ : LedgerDir).active = some (.ofDisk bytes) := rfl
    obtain ⟨f', -, hopen⟩ := openJournal_of_recoversTo hactive hbytes hrec hrest hn
    exact ⟨_, congrArg Prod.snd hopen, hindex, hacked⟩

theorem not_survives_of_error (hne : bytes ≠ []) (h : recover kind bytes = .error e) :
    ¬ Survives kind s bytes := by
  rintro ⟨j, hopen, -⟩
  have hactive : (⟨some (.ofDisk bytes), none⟩ : LedgerDir).active = some (.ofDisk bytes) := rfl
  obtain ⟨e', he'⟩ := openJournal_of_error hactive hne h .none
  rw [he'] at hopen
  cases hopen

variable {a : CrashLabel}

theorem step_cases (h : step kind s a = some s') :
    (∃ bytes j, a = .openJournal ∧ s.machine = .down bytes ∧
      (openJournal kind .none ⟨some (.ofDisk bytes), none⟩).2 = .ok j ∧
      s' = { s with machine := .up j }) ∨
    (∃ bytes cut, a = .crashInOpen cut ∧ s.machine = .down bytes ∧
      s' = { s with machine := .down (openCut kind bytes cut) }) ∨
    (∃ j digest state inserted, a = .record digest state ∧ s.machine = .up j ∧
      (recordInner j digest state .clean).2 = .ok inserted ∧
      s' = { s with
        machine := .up (recordInner j digest state .clean).1
        acked := if inserted then (digest, state) :: s.acked else s.acked }) ∨
    ∃ j digest state cut, a = .crashInRecord digest state cut ∧ s.machine = .up j ∧
      Admits j digest state ∧
      s' = { s with
        machine := .down (j.file.content ++ (encodeRecord (j.sequence + 1) state digest).take cut)
        before := j.index
        after := j.index.insert digest state } := by
  cases hm : s.machine with
  | down bytes | up j => cases a <;> grind [step]

variable {cut : ℕ}

/-- A crash while an intact file is opened leaves an intact file, unless it cuts the header
inside. -/
theorem Intact.openCut (h : Intact kind s bytes)
    (hcut : bytes = [] → cut = 0 ∨ headerLen ≤ cut) : Intact kind s (openCut kind bytes cut) := by
  rcases h with ⟨rfl, hb, hacked⟩ | ⟨n, base, rest, index, hbytes, hrec, hrest, hn, hindex, hacked⟩
  · rw [Ledger.openCut, if_pos rfl]
    rcases hcut rfl with rfl | hle
    · exact .inl ⟨rfl, hb, hacked⟩
    · have hall := take_of_length_le ((length_header kind).le.trans hle)
      rw [hall]
      exact .inr ⟨0, header kind, [], ∅, (append_nil _).symm, recoversTo_header kind, by decide,
        fun hne => absurd rfl hne, .inl hb.symm, hacked⟩
  · have hlen := hrec.length_eq
    have hheader : headerLen = 32 := rfl
    have hne : bytes ≠ [] := by
      intro h0
      rw [hbytes, append_eq_nil_iff] at h0
      rw [h0.1, length_nil] at hlen
      omega
    have hrecover : recover kind bytes = .ok ⟨n, n, index⟩ := by
      rw [hbytes]
      exact hrec.recover_append_short hrest
    rw [Ledger.openCut, if_neg hne, hrecover]
    refine .inr ⟨n, base, rest.take (max (headerLen + n * recordLen) cut - base.length), index, ?_, hrec,
      ?_, fun hr => hn fun h0 => hr (by rw [h0, take_nil]), hindex, hacked⟩
    · show bytes.take (max (headerLen + n * recordLen) cut) = _
      rw [hbytes, take_append, take_of_length_le]
      rw [hlen]
      exact le_max_left _ _
    · rw [length_take]
      omega

/-- A crash while a file that recovery rejects is being opened changes nothing. -/
theorem openCut_of_error (hne : bytes ≠ []) (h : recover kind bytes = .error e) (cut : ℕ) :
    openCut kind bytes cut = bytes := by
  rw [openCut, if_neg hne, h]

/-- A crash in a record of a faithful journal leaves an intact file, unless it leaves a whole
`Completed` record for an unknown digest. -/
theorem intact_of_crashInRecord (hj : Faithful j) (ha : Admits j digest state)
    (hacked : j.index.Holds s.acked)
    (hcut : recordLen ≤ cut → ¬(digest ∉ j.index ∧ state = .completed)) :
    Intact j.kind { s with before := j.index, after := j.index.insert digest state }
      (j.file.content ++ (encodeRecord (j.sequence + 1) state digest).take cut) := by
  have hlen := length_encodeRecord (j.sequence + 1) state digest
  by_cases hle : recordLen ≤ cut
  · have happ := hj.recovers.append ((ha.accepts_iff hj.fits).2 (hcut hle))
    rw [← hj.sequence_eq] at happ
    rw [take_of_length_le (hlen.le.trans hle)]
    exact .inr ⟨_, _, [], _, (append_nil _).symm, happ, by decide, fun hne => absurd rfl hne,
      .inr rfl, hacked.mono (Index.below_insert ha.2.1)⟩
  · refine .inr ⟨_, _, _, _, rfl, hj.recovers, ?_, fun _ => hj.fits.records_lt ha, .inl rfl, hacked⟩
    rw [length_take]
    omega

theorem Good.step (hs : Good kind s) (hok : CutsClean s a)
    (h : step kind s a = some s') : Good kind s' := by
  rcases step_cases h with ⟨bytes, j, rfl, hm, hopen, rfl⟩ | ⟨bytes, cut, rfl, hm, rfl⟩ |
    ⟨j, digest, state, inserted, rfl, hm, hans, rfl⟩ | ⟨j, digest, state, cut, rfl, hm, ha, rfl⟩
  · rw [Good, hm] at hs
    obtain ⟨hj, hkind, -⟩ := faithful_of_openJournal hopen
    obtain ⟨j', hopen', -, hacked⟩ := hs.survives
    cases hopen.symm.trans hopen'
    exact ⟨hj, hkind, hacked⟩
  · rw [Good, hm] at hs
    exact hs.openCut fun h0 => hok (by rw [hm, h0])
  · rw [Good, hm] at hs
    obtain ⟨hj, hkind, hacked⟩ := hs
    by_cases ha : Admits j digest state
    · have hj' := hj.recordInner ha (hok j hm)
      refine ⟨hj', (kind_recordInner _ _ _ _).trans hkind, ?_⟩
      have hclean := recordInner_clean hj.fits hj.sequence_lt ha
      have hinserted : inserted = true := by
        rw [hclean] at hans
        exact (Except.ok.inj hans).symm
      rw [hinserted, if_pos rfl, hclean]
      exact (hacked.mono (Index.below_insert ha.2.1)).cons_insert
    · obtain ⟨hsame, hno⟩ := recordInner_of_not_admits ha .clean
      have hinserted : inserted = false := by
        cases inserted with
        | false => rfl
        | true => exact absurd hans hno
      rw [hinserted]
      show Faithful (recordInner j digest state .clean).1 ∧ _ ∧ _
      rw [hsame]
      exact ⟨hj, hkind, hacked⟩
  · rw [Good, hm] at hs
    obtain ⟨hj, rfl, hacked⟩ := hs
    exact intact_of_crashInRecord hj ha hacked (hok j hm)

theorem rejected_of_openCut_nil (hpos : cut ≠ 0) (hlt : cut < headerLen) :
    openCut kind [] cut ≠ [] ∧ ∃ e, recover kind (openCut kind [] cut) = .error e := by
  have hlen : ((header kind).take cut).length = cut := by
    rw [length_take, length_header]
    omega
  rw [openCut, if_pos rfl]
  refine ⟨fun hnil => ?_, .corrupt, ?_⟩
  · rw [hnil, length_nil] at hlen
    omega
  · rw [recover, headerOk_of_length_lt (by omega)]
    rfl

/-- A whole `Completed` record for a digest that is not in the index is rejected. -/
theorem rejected_of_crashInRecord (hj : Faithful j) (ha : Admits j digest state)
    (hc : digest ∉ j.index ∧ state = .completed) (hle : recordLen ≤ cut) :
    j.file.content ++ (encodeRecord (j.sequence + 1) state digest).take cut ≠ [] ∧
      ∃ e, recover j.kind
        (j.file.content ++ (encodeRecord (j.sequence + 1) state digest).take cut) = .error e := by
  have hlen := length_encodeRecord (j.sequence + 1) state digest
  have hnot : ¬ Accepts j.kind j.index state digest :=
    fun hacc => (ha.accepts_iff hj.fits).1 hacc hc
  have hrej := recover_append_of_not_accepts hj.recovers hnot []
  rw [append_nil, ← hj.sequence_eq] at hrej
  rw [take_of_length_le (hlen.le.trans hle)]
  refine ⟨fun hnil => ?_, hrej⟩
  rw [(append_eq_nil_iff.1 hnil).2] at hlen
  cases hlen

theorem Good.bad_step (hs : Good kind s) (hok : ¬ CutsClean s a)
    (h : CrashRun.step kind s a = some s') : Bad kind s' := by
  rcases step_cases h with ⟨bytes, j, rfl, hm, hopen, rfl⟩ | ⟨bytes, cut, rfl, hm, rfl⟩ |
    ⟨j, digest, state, inserted, rfl, hm, hans, rfl⟩ | ⟨j, digest, state, cut, rfl, hm, ha, rfl⟩
  · exact absurd trivial hok
  · simp only [CutsClean, Classical.not_imp, not_or, Nat.not_le] at hok
    obtain ⟨h0, hpos, hlt⟩ := hok
    rw [hm, Machine.down.injEq] at h0
    subst h0
    exact rejected_of_openCut_nil hpos hlt
  · simp only [CutsClean, not_forall, not_not] at hok
    obtain ⟨j₁, hm₁, hc⟩ := hok
    rw [hm, Machine.up.injEq] at hm₁
    subst hm₁
    rw [Good, hm] at hs
    have ha : Admits j digest state := by
      by_contra ha
      exact hc.1 (mem_of_recordInner_ok ha hans)
    exact ⟨hs.1.spoiled_recordInner ha hc, (kind_recordInner _ _ _ _).trans hs.2.1⟩
  · simp only [CutsClean, not_forall, not_not] at hok
    obtain ⟨j₁, hm₁, hle, hc⟩ := hok
    rw [hm, Machine.up.injEq] at hm₁
    subst hm₁
    rw [Good, hm] at hs
    obtain ⟨hj, rfl, -⟩ := hs
    exact rejected_of_crashInRecord hj ha hc hle

theorem Bad.step (hs : Bad kind s) (h : step kind s a = some s') : Bad kind s' := by
  rcases step_cases h with ⟨bytes, j, rfl, hm, hopen, rfl⟩ | ⟨bytes, cut, rfl, hm, rfl⟩ |
    ⟨j, digest, state, inserted, rfl, hm, -, rfl⟩ | ⟨j, digest, state, cut, rfl, hm, -, rfl⟩ <;>
    rw [Bad, hm] at hs
  · obtain ⟨hne, e, he⟩ := hs
    have hactive : (⟨some (.ofDisk bytes), none⟩ : LedgerDir).active = some (.ofDisk bytes) := rfl
    obtain ⟨e', he'⟩ := openJournal_of_error hactive hne he .none
    rw [he'] at hopen
    cases hopen
  · obtain ⟨hne, e, he⟩ := hs
    show openCut kind bytes cut ≠ [] ∧ _
    rw [openCut_of_error hne he]
    exact ⟨hne, e, he⟩
  · exact ⟨hs.1.recordInner digest state, (kind_recordInner _ _ _ _).trans hs.2⟩
  · obtain ⟨hj, rfl⟩ := hs
    obtain ⟨n, base, rest, hf, hlen, herr⟩ := hj.rejected
    have hheader : headerLen = 32 := rfl
    show j.file.content ++ _ ≠ [] ∧ ∃ e, recover j.kind (j.file.content ++ _) = .error e
    rw [hf, append_assoc]
    refine ⟨fun hnil => ?_, recover_append_of_error hlen herr _⟩
    rw [(append_eq_nil_iff.1 hnil).1, length_nil] at hlen
    omega

end CrashRun

/-- **When a crash is harmless.** Along any number of crashes, from the creation of the file on:
what the last one leaves opens with the index before or after the write it cut, and with all that
was acknowledged, exactly if no header was cut inside and no whole `Completed` record was written
for an unknown digest. -/
theorem crash_survives_iff {kind : JournalKind} {labels : List CrashLabel} {s : CrashRun}
    {bytes : List UInt8} (hrun : Lts.exec (CrashRun.step kind) .start labels = some s)
    (hdown : s.machine = .down bytes) :
    s.Survives kind bytes ↔ Lts.Along (CrashRun.step kind) CrashRun.CutsClean .start labels := by
  refine Lts.exec_dichotomy_iff (CrashRun.Good kind) (CrashRun.Bad kind)
    (fun s a s' hs ha h => hs.step ha h) (fun s a s' hs ha h => hs.bad_step ha h)
    (fun s a s' hs h => hs.step h) (CrashRun.good_start kind) hrun ?_ ?_
  · intro hend
    rw [CrashRun.Good, hdown] at hend
    exact hend.survives
  · intro hend
    rw [CrashRun.Bad, hdown] at hend
    obtain ⟨hne, e, he⟩ := hend
    exact CrashRun.not_survives_of_error hne he

def recordCut : List CrashLabel :=
  [.openJournal, .record (documentDigest "frames" "1") .reserved,
    .crashInRecord (documentDigest "frames" "1") .completed 40, .crashInOpen 100]

theorem recordCut_survives :
    ∃ s bytes, Lts.exec (CrashRun.step .delivery) .start recordCut = some s ∧
      s.machine = .down bytes ∧ s.Survives .delivery bytes := by
  have hdown : (Lts.exec (CrashRun.step .delivery) .start recordCut).map (fun s => s.machine.file.isSome) =
      some true := by decide +kernel
  obtain ⟨s, hs, hfile⟩ := Option.map_eq_some_iff.1 hdown
  obtain ⟨bytes, hb⟩ := Machine.file_isSome.1 hfile
  refine ⟨s, bytes, hs, hb, (crash_survives_iff hs hb).2 ⟨trivial, fun s₁ _ => ⟨?_, fun s₂ _ => ⟨?_,
    fun s₃ _ => ⟨?_, fun _ _ => trivial⟩⟩⟩⟩⟩
  · exact fun j _ hc => absurd hc.2 (by decide)
  · exact fun j _ hle => absurd hle (by decide)
  · exact fun _ => .inr (by decide)

/-- **A header cut inside.**  The first five bytes of the header of a new file
are neither nothing nor a journal. -/
theorem headerCut_not_survives :
    ∃ s bytes, Lts.exec (CrashRun.step .delivery) .start [.crashInOpen 5] = some s ∧
      s.machine = .down bytes ∧ ¬ s.Survives .delivery bytes :=
  ⟨_, _, rfl, rfl, CrashRun.not_survives_of_error (by decide) (e := .corrupt) rfl⟩

end PeatNode.Ledger
