/-
# Concurrent installations of the bridge ledger

`install_bridge_ledger` of `src/node.rs` reads under a lock whether a ledger is installed, releases
the lock, opens both journals on a blocking thread (`BridgeLedger::open` of
`src/nats_bridge/ledger.rs`), and takes the lock again to install them without a second look.

Two calls that both look before either installs open two workers for each journal, both return
`Ok`, and the first set is overwritten (`overlapping_installs`). `Solo` is the invariant of a run
in which a call that finds none installed is alone between its look and its installation
(`installed_once`). A call that is alone throughout does what `LocalWrites` takes as one step
(`exec_install`); `Reached` is the invariant of its steps.
-/

import PeatNode.Lib.Lists
import PeatNode.Node.LocalWrites

namespace PeatNode.Node

open Ledger List Option

structure BridgeLedgerHealth where
  exclusionHealthy : Bool
  deliveryHealthy : Bool
deriving DecidableEq

/-- A journal's worker: which journal it has open, and its health. -/
structure JournalWorker where
  kind : JournalKind
  healthy : Bool
deriving DecidableEq

/-- `InstalledBridgeLedger`; workers are named by the order of their spawns. -/
structure InstalledBridgeLedger where
  collections : Finset String
  exclusion : Option ℕ
  delivery : Option ℕ
deriving DecidableEq

/-- What the calls share: the directory entries of both journals, all workers ever spawned, the
installed ledger, and how often one was installed. -/
structure BridgeLedgers where
  exclusionDir : LedgerDir
  deliveryDir : LedgerDir
  workers : List JournalWorker
  installed : Option InstalledBridgeLedger
  installations : ℕ
deriving DecidableEq

inductive InstallPc
  | called
  | opening
  | openingDelivery (exclusion : ℕ)
  | opened (exclusion delivery : Option ℕ)
  | installing (exclusion delivery : Option ℕ) (health : BridgeLedgerHealth)
  | returned (result : Except LedgerError BridgeLedgerHealth)
deriving DecidableEq

/-- The next step of a call, with what its input and output do. -/
inductive InstallMove
  | check
  | joinFails
  | openExclusion (started : Bool) (fault : OpenFault)
  | openDelivery (started : Bool) (fault : OpenFault)
  | readHealth
  | install
deriving DecidableEq

/-- `Worker::spawn`: the disk, and whether it has a worker. -/
def spawnWorker (kind : JournalKind) (started : Bool) (fault : OpenFault) (dir : LedgerDir) :
    LedgerDir × Bool :=
  if started then
    let (dir, opened) := openJournal kind fault dir
    (dir, opened.isOk)
  else (dir, false)

namespace BridgeLedgers

/-- `is_some_and(is_healthy)`. -/
def healthy (n : BridgeLedgers) (worker : Option ℕ) : Bool :=
  worker.any fun id => n.workers[id]?.any JournalWorker.healthy

def health (n : BridgeLedgers) (exclusion delivery : Option ℕ) : BridgeLedgerHealth :=
  ⟨n.healthy exclusion, n.healthy delivery⟩

/-- `install_bridge_ledger`, one step at a time. -/
def advance (n : BridgeLedgers) (collections : Finset String) :
    InstallPc → InstallMove → Option (BridgeLedgers × InstallPc)
  | .called, .check =>
    match n.installed with
    | some i =>
      if i.collections ≠ collections then some (n, .returned (.error .corrupt))
      else some (n, .returned (.ok (n.health i.exclusion i.delivery)))
    | none => some (n, .opening)
  | .opening, .joinFails => some (n, .returned (.error .unavailable))
  | .opening, .openExclusion started fault =>
    match spawnWorker .exclusion started fault n.exclusionDir with
    | (dir, true) =>
      some ({ n with exclusionDir := dir, workers := n.workers ++ [⟨.exclusion, true⟩] },
        .openingDelivery n.workers.length)
    | (dir, false) => some ({ n with exclusionDir := dir }, .opened none none)
  | .openingDelivery exclusion, .openDelivery started fault =>
    match spawnWorker .delivery started fault n.deliveryDir with
    | (dir, true) =>
      some ({ n with deliveryDir := dir, workers := n.workers ++ [⟨.delivery, true⟩] },
        .opened (some exclusion) (some n.workers.length))
    | (dir, false) => some ({ n with deliveryDir := dir }, .opened (some exclusion) none)
  | .opened exclusion delivery, .readHealth =>
    some (n, .installing exclusion delivery (n.health exclusion delivery))
  | .installing exclusion delivery health, .install =>
    some ({ n with
      installed := some ⟨collections, exclusion, delivery⟩
      installations := n.installations + 1 }, .returned (.ok health))
  | _, _ => none

def spawned (n : BridgeLedgers) (kind : JournalKind) : ℕ :=
  n.workers.countP fun w => decide (w.kind = kind)

theorem spawned_concat {n n' : BridgeLedgers} (h : n'.workers = n.workers ++ [w])
    (kind : JournalKind) : n'.spawned kind = n.spawned kind + if w.kind = kind then 1 else 0 := by
  simp [spawned, h, countP_append, countP_singleton]

end BridgeLedgers

/-! ### Any number of calls -/

structure InstallCall where
  collections : Finset String
  pc : InstallPc
deriving DecidableEq

/-- The node's ledgers and the calls, in the order of their arrival. -/
structure LedgerInstaller where
  ledgers : BridgeLedgers
  calls : List InstallCall
deriving DecidableEq

inductive InstallLabel
  | call (collections : List String)
  | advance (i : ℕ) (move : InstallMove)
  | fail (worker : ℕ)
  | write (kind : JournalKind) (dir : LedgerDir)
deriving DecidableEq

namespace LedgerInstaller

def start (exclusionDir deliveryDir : LedgerDir) : LedgerInstaller where
  ledgers := ⟨exclusionDir, deliveryDir, [], none, 0⟩
  calls := []

def step (s : LedgerInstaller) : InstallLabel → Option LedgerInstaller
  | .call collections => some { s with calls := s.calls ++ [⟨collections.toFinset, .called⟩] }
  | .advance i move =>
    match s.calls[i]? with
    | none => none
    | some call =>
      (s.ledgers.advance call.collections call.pc move).map fun r =>
        ⟨r.1, s.calls.set i { call with pc := r.2 }⟩
  | .fail worker =>
    some { s with
      ledgers.workers := s.ledgers.workers.modify worker fun w => { w with healthy := false } }
  | .write .exclusion dir => some { s with ledgers.exclusionDir := dir }
  | .write .delivery dir => some { s with ledgers.deliveryDir := dir }

/-- At most one installation, with at most one worker for each journal; a call that returned `Ok`
was given the installed collections, one that was given others an error. -/
structure InstalledOnce (s : LedgerInstaller) : Prop where
  installations : s.ledgers.installations ≤ 1
  workers : ∀ kind, s.ledgers.spawned kind ≤ 1
  accepted : ∀ call ∈ s.calls, ∀ health, call.pc = .returned (.ok health) →
    ∃ i ∈ s.ledgers.installed, i.collections = call.collections
  rejected : ∀ call ∈ s.calls, ∀ result, call.pc = .returned result →
    ∀ i ∈ s.ledgers.installed, i.collections ≠ call.collections → ∃ error, result = .error error

/-! ### What is under way -/

end LedgerInstaller

/-- It found nothing and has installed nothing. -/
def InstallPc.passing : InstallPc → ℕ
  | .called | .returned _ => 0
  | .opening | .openingDelivery _ | .opened _ _ | .installing _ _ _ => 1

/-- Workers it may still spawn. -/
def InstallPc.due : InstallPc → JournalKind → ℕ
  | .opening, _ | .openingDelivery _, .delivery => 1
  | _, _ => 0

/-- One step of a call, with all it does to what the calls share. -/
inductive BridgeLedgers.Turn (n : BridgeLedgers) (collections : Finset String) :
    InstallPc → InstallMove → BridgeLedgers → InstallPc → Prop
  | found {i : InstalledBridgeLedger} {result : Except LedgerError BridgeLedgerHealth}
      (installed : n.installed = some i)
      (accepted : ∀ health, result = .ok health → i.collections = collections) :
      Turn n collections .called .check n (.returned result)
  | notFound (installed : n.installed = none) : Turn n collections .called .check n .opening
  | joinFails :
      Turn n collections .opening .joinFails n (.returned (.error .unavailable))
  | spawned (kind : JournalKind) {pc pc' : InstallPc} {move : InstallMove} {n' : BridgeLedgers}
      (workers : n'.workers = n.workers ++ [⟨kind, true⟩]) (installed : n'.installed = n.installed)
      (installations : n'.installations = n.installations)
      (passing : pc.passing = 1 ∧ pc'.passing = 1)
      (due : ∀ k, pc'.due k + (if kind = k then 1 else 0) = pc.due k) :
      Turn n collections pc move n' pc'
  | passed {pc pc' : InstallPc} {move : InstallMove} {n' : BridgeLedgers}
      (workers : n'.workers = n.workers) (installed : n'.installed = n.installed)
      (installations : n'.installations = n.installations)
      (passing : pc.passing = 1 ∧ pc'.passing = 1) (due : ∀ k, pc'.due k ≤ pc.due k) :
      Turn n collections pc move n' pc'
  | install {exclusion delivery : Option ℕ} {health : BridgeLedgerHealth} :
      Turn n collections (.installing exclusion delivery health) .install
        { n with
          installed := some ⟨collections, exclusion, delivery⟩
          installations := n.installations + 1 } (.returned (.ok health))

theorem BridgeLedgers.Turn.of_advance (h : n.advance collections pc move = some (n', pc')) :
    Turn n collections pc move n' pc' := by
  unfold BridgeLedgers.advance at h
  split at h
  case h_3 =>
    split at h <;> cases h
    · exact .spawned .exclusion rfl rfl rfl ⟨rfl, rfl⟩ (by rintro (_ | _) <;> rfl)
    · exact .passed rfl rfl rfl ⟨rfl, rfl⟩ fun _ => Nat.zero_le _
  case h_4 =>
    split at h <;> cases h
    · exact .spawned .delivery rfl rfl rfl ⟨rfl, rfl⟩ (by rintro (_ | _) <;> rfl)
    · exact .passed rfl rfl rfl ⟨rfl, rfl⟩ fun _ => Nat.zero_le _
  case h_5 =>
    cases h
    exact .passed rfl rfl rfl ⟨rfl, rfl⟩ fun _ => le_rfl
  all_goals grind [Turn]

namespace LedgerInstaller

def passing (s : LedgerInstaller) : ℕ := (s.calls.map fun c => c.pc.passing).sum

def due (s : LedgerInstaller) (kind : JournalKind) : ℕ := (s.calls.map fun c => c.pc.due kind).sum

/-- No other call is between look and installation. -/
def Alone (s : LedgerInstaller) : InstallLabel → Prop
  | .advance _ .check => s.ledgers.installed = none →
      ∀ call ∈ s.calls, call.pc.passing = 0
  | _ => True

instance decidableAlone (s : LedgerInstaller) (l : InstallLabel) : Decidable (s.Alone l) := by
  unfold Alone
  split <;> infer_instance

/-- One installation, done or under way, and for each journal no more workers, spawned or due,
than that. -/
structure Solo (s : LedgerInstaller) : Prop where
  one : s.passing + s.ledgers.installations ≤ 1
  installed : s.ledgers.installed = none ↔ s.ledgers.installations = 0
  workers : ∀ kind, s.ledgers.spawned kind + s.due kind ≤ s.passing + s.ledgers.installations
  accepted : ∀ call ∈ s.calls, ∀ health, call.pc = .returned (.ok health) →
    ∃ i ∈ s.ledgers.installed, i.collections = call.collections

theorem solo_start (exclusionDir deliveryDir : LedgerDir) :
    Solo (start exclusionDir deliveryDir) where
  one := Nat.zero_le 1
  installed := iff_of_true rfl rfl
  workers := fun _ => le_rfl
  accepted := nofun

namespace Solo

variable {s s' : LedgerInstaller}

theorem installedOnce (h : Solo s) : s.InstalledOnce where
  installations := (Nat.le_add_left _ _).trans h.one
  workers := fun kind => (Nat.le_add_right _ _).trans ((h.workers kind).trans h.one)
  accepted := h.accepted
  rejected := by
    intro call hcall result hpc i hi hne
    cases result with
    | error error => exact ⟨error, rfl⟩
    | ok health =>
      obtain ⟨i', hi', heq⟩ := h.accepted call hcall health hpc
      cases hi.symm.trans hi'
      exact absurd heq hne

theorem of_eq (h : Solo s) (hcalls : s'.calls = s.calls)
    (hspawned : ∀ kind, s'.ledgers.spawned kind = s.ledgers.spawned kind)
    (hinstalled : s'.ledgers.installed = s.ledgers.installed)
    (hinstallations : s'.ledgers.installations = s.ledgers.installations) : Solo s' := by
  have hpassing : s'.passing = s.passing := by rw [passing, passing, hcalls]
  refine ⟨?_, ?_, fun kind => ?_, ?_⟩
  · rw [hpassing, hinstallations]
    exact h.one
  · rw [hinstalled, hinstallations]
    exact h.installed
  · rw [hpassing, hinstallations, hspawned, due, hcalls]
    exact h.workers kind
  · rw [hinstalled, hcalls]
    exact h.accepted

variable {n' : BridgeLedgers} {collections : Finset String} {pc pc' : InstallPc}

theorem sums (hcall : s.calls[i]? = some ⟨collections, pc⟩) (n' : BridgeLedgers) (pc' : InstallPc) :
    passing ⟨n', s.calls.set i ⟨collections, pc'⟩⟩ + pc.passing = s.passing + pc'.passing ∧
      ∀ kind, due ⟨n', s.calls.set i ⟨collections, pc'⟩⟩ kind + pc.due kind =
        s.due kind + pc'.due kind :=
  ⟨sum_map_set hcall (fun c => c.pc.passing) _,
    fun kind => sum_map_set hcall (fun c => c.pc.due kind) _⟩

/-- A call that installs nothing: it must not come between another's look and its installation,
and spawns a worker only where one is due. -/
theorem move (h : Solo s) (hcall : s.calls[i]? = some ⟨collections, pc⟩)
    (hinstalled : n'.installed = s.ledgers.installed)
    (hinstallations : n'.installations = s.ledgers.installations)
    (hone : s.passing + s.ledgers.installations + pc'.passing ≤ 1 + pc.passing)
    (hworkers : ∀ kind, n'.spawned kind + pc'.due kind + pc.passing ≤
      s.ledgers.spawned kind + pc.due kind + pc'.passing)
    (hnew : ∀ health, pc' = .returned (.ok health) →
      ∃ i ∈ s.ledgers.installed, i.collections = collections) :
    Solo ⟨n', s.calls.set i ⟨collections, pc'⟩⟩ := by
  obtain ⟨hpassing, hdue⟩ := sums hcall n' pc'
  refine ⟨?_, ?_, fun kind => ?_, ?_⟩
  all_goals simp only [hinstalled, hinstallations]
  · omega
  · exact h.installed
  · have hk := hdue kind
    have hold := h.workers kind
    have hw := hworkers kind
    omega
  · exact forall_mem_set h.accepted hnew

/-- The installation: it is the first, and no call has returned `Ok` before. -/
theorem install (h : Solo s)
    (hcall : s.calls[i]? = some ⟨collections, .installing exclusion delivery health⟩)
    (hn : n' = { s.ledgers with
      installed := some ⟨collections, exclusion, delivery⟩
      installations := s.ledgers.installations + 1 }) :
    Solo ⟨n', s.calls.set i ⟨collections, .returned (.ok health)⟩⟩ := by
  obtain ⟨hpassing, hdue⟩ := sums hcall n' (.returned (.ok health))
  simp only [InstallPc.passing, InstallPc.due, Nat.add_zero] at hpassing hdue
  have hone := h.one
  have hnone : s.ledgers.installed = none := h.installed.2 (by omega)
  have hinstallations : n'.installations = s.ledgers.installations + 1 := by rw [hn]
  refine ⟨by simp only; omega, by simp [hn], fun kind => ?_, ?_⟩
  · have hk := h.workers kind
    have hspawned : n'.spawned kind = s.ledgers.spawned kind := by rw [hn]; rfl
    rw [hdue]
    simp only
    omega
  · refine forall_mem_set (fun c hc health' hpc' => ?_) fun _ _ => by simp [hn]
    obtain ⟨i, hi, -⟩ := h.accepted c hc health' hpc'
    simp [hnone] at hi

theorem advance (h : Solo s) (hok : s.Alone (.advance i m))
    (hcall : s.calls[i]? = some ⟨collections, pc⟩)
    (hturn : BridgeLedgers.Turn s.ledgers collections pc m n' pc') :
    Solo ⟨n', s.calls.set i ⟨collections, pc'⟩⟩ := by
  have hone := h.one
  cases hturn with
  | found installed accepted =>
    refine h.move hcall rfl rfl hone (fun _ => le_rfl) fun health hres => ?_
    exact ⟨_, installed, accepted health (InstallPc.returned.inj hres)⟩
  | notFound installed =>
    have hzero : s.passing = 0 := by
      refine sum_eq_zero fun k hk => ?_
      obtain ⟨c, hc, rfl⟩ := mem_map.1 hk
      exact hok installed c hc
    refine h.move hcall rfl rfl ?_ (fun _ => le_rfl) nofun
    rw [hzero, h.installed.1 installed]
    exact le_rfl
  | joinFails =>
    exact h.move hcall rfl rfl (hone.trans (Nat.le_add_right 1 _)) (fun _ => le_rfl) nofun
  | spawned kind workers installed installations passing due =>
    refine h.move hcall installed installations ?_ (fun k => ?_) ?_
    · rw [passing.1, passing.2]
      exact Nat.add_le_add_right hone 1
    · have hdue := due k
      rw [BridgeLedgers.spawned_concat workers, passing.1, passing.2]
      dsimp only
      omega
    · rintro health rfl
      cases passing.2
  | passed workers installed installations passing due =>
    refine h.move hcall installed installations ?_ (fun k => ?_) ?_
    · rw [passing.1, passing.2]
      exact Nat.add_le_add_right hone 1
    · have hdue := due k
      rw [passing.1, passing.2, BridgeLedgers.spawned, BridgeLedgers.spawned, workers]
      omega
    · rintro health rfl
      cases passing.2
  | install => exact h.install hcall rfl

/-- **Every step keeps the invariant**, as long as calls that find nothing installed are
alone. -/
theorem step (h : Solo s) (hok : s.Alone l) (hs : LedgerInstaller.step s l = some s') :
    Solo s' := by
  cases l with
  | call collections =>
    cases hs
    have hpassing : passing { s with calls := s.calls ++ [⟨collections.toFinset, .called⟩] } =
        s.passing := by
      simp [passing, InstallPc.passing]
    have hdue : ∀ kind, due { s with calls := s.calls ++ [⟨collections.toFinset, .called⟩] } kind =
        s.due kind := by
      simp [due, InstallPc.due]
    refine ⟨?_, h.installed, fun kind => ?_, fun c hc health hpc => ?_⟩
    · rw [hpassing]
      exact h.one
    · rw [hpassing, hdue]
      exact h.workers kind
    · rcases mem_append.1 hc with hmem | hnew
      · exact h.accepted c hmem health hpc
      · simp [mem_singleton.1 hnew] at hpc
  | advance i m =>
    simp only [LedgerInstaller.step] at hs
    split at hs
    · cases hs
    · rename_i call hcall
      obtain ⟨⟨n', pc'⟩, hadvance, rfl⟩ := map_eq_some_iff.1 hs
      exact h.advance hok hcall (.of_advance hadvance)
  | fail worker =>
    cases hs
    refine h.of_eq rfl (fun kind => ?_) rfl rfl
    unfold BridgeLedgers.spawned
    apply countP_modify_of_eq
    exact fun _ => rfl
  | write kind dir =>
    cases kind <;> cases hs
    all_goals exact h.of_eq rfl (fun _ => rfl) rfl rfl

end Solo

/-! ### A call that is alone -/

/-- Both journals are opened. -/
def installSteps (i : ℕ) (fault deliveryFault : OpenFault) : List InstallLabel :=
  [.advance i (.openExclusion true fault), .advance i (.openDelivery true deliveryFault),
    .advance i .readHealth, .advance i .install]

/-- What is shared before the first call. -/
def uninstalled (n : SidecarNode) (deliveryDir : LedgerDir) : BridgeLedgers :=
  ⟨n.dir, deliveryDir, [], none, 0⟩

/-- A lone call without a ledger. -/
def onlyCall (n : SidecarNode) (deliveryDir : LedgerDir) (collections : List String) :
    LedgerInstaller :=
  ⟨uninstalled n deliveryDir, [⟨collections.toFinset, .called⟩]⟩

/-- The call has returned `Ok` and left what `n'` has: the files of the exclusion journal, the
collections, and a worker for each journal open in `n'`; the delivery journal is touched only once
the exclusion journal was opened. -/
structure Leaves (deliveryFault : OpenFault) (deliveryDir : LedgerDir) (n' : SidecarNode)
    (s : LedgerInstaller) : Prop where
  files : s.ledgers.exclusionDir = n'.dir
  deliveryFiles : s.ledgers.deliveryDir =
    if n'.worker.isSome then (spawnWorker .delivery true deliveryFault deliveryDir).1
    else deliveryDir
  installed : ∃ i ∈ s.ledgers.installed, ∃ i' ∈ n'.installed,
    i.collections = i'.collections.toFinset ∧
    i.exclusion = (if i'.exclusion.isSome then some 0 else none) ∧
    i.delivery = (if i'.delivery then some 1 else none) ∧
    s.ledgers.workers = (if i'.exclusion.isSome then [⟨.exclusion, true⟩] else []) ++
      (if i'.delivery then [⟨.delivery, true⟩] else []) ∧
    s.calls.map InstallCall.pc = [.returned (.ok ⟨i'.exclusion.isSome, i'.delivery⟩)]

/-- `SidecarNode.install` with these faults succeeds, and the call leaves the same. -/
def Installs (n : SidecarNode) (collections : List String) (deliveryDir : LedgerDir)
    (fault deliveryFault : OpenFault) (s : LedgerInstaller) : Prop :=
  ∃ n' ∈ n.install collections fault (spawnWorker .delivery true deliveryFault deliveryDir).2,
    Leaves deliveryFault deliveryDir n' s

/-- A thread that does not start leaves what a directory leaves that cannot be prepared. -/
theorem exists_spawnWorker (kind : JournalKind) (started : Bool) (fault : OpenFault)
    (dir : LedgerDir) :
    ∃ fault', spawnWorker kind started fault dir = spawnWorker kind true fault' dir := by
  cases started with
  | true => exact ⟨fault, rfl⟩
  | false => exact ⟨.prepare, rfl⟩

/-- What `BridgeLedger::open` leaves, with its workers. -/
def openLedger (n : BridgeLedgers) (fault deliveryFault : OpenFault) :
    BridgeLedgers × Option ℕ × Option ℕ :=
  match spawnWorker .exclusion true fault n.exclusionDir with
  | (dir, false) => ({ n with exclusionDir := dir }, none, none)
  | (dir, true) =>
    match spawnWorker .delivery true deliveryFault n.deliveryDir with
    | (dir', worker) =>
      ({ n with
        exclusionDir := dir
        deliveryDir := dir'
        workers := n.workers ++ ⟨.exclusion, true⟩ ::
          if worker then [⟨.delivery, true⟩] else [] },
        some n.workers.length, if worker then some (n.workers.length + 1) else none)

/-- How far a lone call is. -/
def Reached (n n' : BridgeLedgers) (collections : Finset String) : InstallPc → Prop
  | .called | .opening => n' = n
  | .returned (.error error) => n' = n ∧ error = .unavailable
  | .openingDelivery exclusion => ∃ fault dir,
      spawnWorker .exclusion true fault n.exclusionDir = (dir, true) ∧
      n' = { n with exclusionDir := dir, workers := n.workers ++ [⟨.exclusion, true⟩] } ∧
      exclusion = n.workers.length
  | .opened exclusion delivery => ∃ fault deliveryFault,
      openLedger n fault deliveryFault = (n', exclusion, delivery)
  | .installing exclusion delivery health => ∃ fault deliveryFault,
      openLedger n fault deliveryFault = (n', exclusion, delivery) ∧
      health = n'.health exclusion delivery
  | .returned (.ok health) => ∃ fault deliveryFault opened exclusion delivery,
      openLedger n fault deliveryFault = (opened, exclusion, delivery) ∧
      health = opened.health exclusion delivery ∧
      n' = { opened with
        installed := some ⟨collections, exclusion, delivery⟩
        installations := opened.installations + 1 }

theorem Reached.advance (hnone : n.installed = none) (h : Reached n n₁ collections pc)
    (hstep : n₁.advance collections pc move = some (n₂, pc')) :
    Reached n n₂ collections pc' := by
  unfold BridgeLedgers.advance at hstep
  split at hstep
  case h_1 =>
    cases h
    rw [hnone] at hstep
    cases hstep
    rfl
  case h_2 =>
    cases hstep
    exact ⟨h, rfl⟩
  case h_3 started fault =>
    cases h
    obtain ⟨fault', heq⟩ := exists_spawnWorker .exclusion started fault n.exclusionDir
    rw [heq] at hstep
    split at hstep <;> rename_i dir hspawn <;> cases hstep
    · exact ⟨fault', dir, hspawn, rfl, rfl⟩
    · refine ⟨fault', .none, ?_⟩
      rw [openLedger, hspawn]
  case h_4 exclusion started deliveryFault =>
    obtain ⟨fault, dir, hexclusion, rfl, rfl⟩ := h
    obtain ⟨deliveryFault', heq⟩ := exists_spawnWorker .delivery started deliveryFault n.deliveryDir
    rw [heq] at hstep
    split at hstep <;> rename_i dir' hspawn <;> cases hstep
    all_goals
      refine ⟨fault, deliveryFault', ?_⟩
      simp [openLedger, hexclusion, hspawn]
  case h_5 =>
    cases hstep
    obtain ⟨fault, deliveryFault, hopen⟩ := h
    exact ⟨fault, deliveryFault, hopen, rfl⟩
  case h_6 =>
    cases hstep
    obtain ⟨fault, deliveryFault, hopen, hhealth⟩ := h
    exact ⟨fault, deliveryFault, n₁, _, _, hopen, hhealth, rfl⟩
  case h_7 => cases hstep

/-- A step of the only call is a step of `install_bridge_ledger`. -/
theorem step_only (hstep : step ⟨n, [⟨collections, pc⟩]⟩ (.advance 0 move) = some s) :
    ∃ n' pc', n.advance collections pc move = some (n', pc') ∧ s = ⟨n', [⟨collections, pc'⟩]⟩ := by
  obtain ⟨⟨n', pc'⟩, hadvance, rfl⟩ := map_eq_some_iff.1 hstep
  exact ⟨n', pc', hadvance, rfl⟩

theorem reached_of_exec {n : BridgeLedgers} {moves : List InstallMove} (hnone : n.installed = none)
    (hrun : Lts.exec step ⟨n, [⟨collections, .called⟩]⟩ (moves.map (.advance 0)) = some s) :
    ∃ n' pc, s = ⟨n', [⟨collections, pc⟩]⟩ ∧ Reached n n' collections pc := by
  refine Lts.exec_invariant
    (fun s => ∃ n' pc, s = ⟨n', [⟨collections, pc⟩]⟩ ∧ Reached n n' collections pc)
    (fun t a t' ht hown hs => ?_) ⟨n, .called, rfl, rfl⟩
    (Lts.along_of_forall (P := fun a => ∃ move, a = .advance 0 move) (by simp) _) hrun
  obtain ⟨n₁, pc, rfl, h⟩ := ht
  obtain ⟨move, rfl⟩ := hown
  obtain ⟨n₂, pc', hadvance, rfl⟩ := step_only hs
  exact ⟨n₂, pc', rfl, h.advance hnone hadvance⟩

theorem exists_exec_openLedger {n : BridgeLedgers} (hnone : n.installed = none)
    (hopen : openLedger n fault deliveryFault = (n', exclusion, delivery)) :
    ∃ moves : List InstallMove,
      Lts.exec step ⟨n, [⟨collections, .called⟩]⟩ (moves.map (.advance 0)) =
        some ⟨{ n' with
            installed := some ⟨collections, exclusion, delivery⟩
            installations := n'.installations + 1 },
          [⟨collections, .returned (.ok (n'.health exclusion delivery))⟩]⟩ := by
  rcases hexclusion : spawnWorker .exclusion true fault n.exclusionDir with ⟨dir, worker⟩
  rcases hdelivery : spawnWorker .delivery true deliveryFault n.deliveryDir with ⟨dir', worker'⟩
  cases worker with
  | false =>
    -- the delivery journal is not opened
    refine ⟨[.check, .openExclusion true fault, .readHealth, .install], ?_⟩
    simp only [openLedger, hexclusion, Prod.mk.injEq] at hopen
    obtain ⟨rfl, rfl, rfl⟩ := hopen
    simp [step, BridgeLedgers.advance, hnone, hexclusion]
  | true =>
    refine ⟨[.check, .openExclusion true fault, .openDelivery true deliveryFault, .readHealth,
      .install], ?_⟩
    simp only [openLedger, hexclusion, hdelivery, Prod.mk.injEq] at hopen
    obtain ⟨rfl, rfl, rfl⟩ := hopen
    cases worker' <;> simp [step, BridgeLedgers.advance, hnone, hexclusion, hdelivery]

/-- What the call leaves when it has opened the journals is what the one step leaves. -/
theorem leaves_of_openLedger (hnone : n.installed = none)
    (hvalid : collections.all validCollection = true)
    (hopen : openLedger (uninstalled n deliveryDir) fault deliveryFault =
      (opened, exclusion, delivery)) :
    Installs n collections deliveryDir fault deliveryFault
      ⟨{ opened with
          installed := some ⟨collections.toFinset, exclusion, delivery⟩
          installations := opened.installations + 1 },
        [⟨collections.toFinset, .returned (.ok (opened.health exclusion delivery))⟩]⟩ := by
  rcases hjournal : openJournal .exclusion fault n.dir with ⟨dir, journal⟩
  have hspawn : spawnWorker .exclusion true fault n.dir = (dir, journal.isOk) := by
    rw [spawnWorker, if_pos rfl, hjournal]
  rw [Installs, SidecarNode.install, if_pos ⟨hnone, hvalid⟩, hjournal]
  rw [openLedger, uninstalled, hspawn] at hopen
  rcases hdelivery : spawnWorker .delivery true deliveryFault deliveryDir with ⟨dir', worker⟩
  cases journal with
  | error e =>
    cases hopen
    exact ⟨_, rfl, rfl, rfl, _, rfl, _, rfl, rfl, rfl, rfl, rfl, rfl⟩
  | ok journal =>
    simp only [hdelivery] at hopen
    cases hopen
    cases worker with
    | false | true =>
      exact ⟨_, rfl, rfl, by rw [hdelivery]; rfl, _, rfl, _, rfl, rfl, rfl, rfl, rfl, rfl⟩

/-- **A call that is alone does what `SidecarNode.install` takes as one step.** On a node without
a ledger its own steps lead to what the one step leaves, wherever the opening of the journals
fails; and if they lead to `Ok` at all, they lead there. -/
theorem exec_install (n : SidecarNode) (collections : List String) (deliveryDir : LedgerDir)
    (hnone : n.installed = none) (hvalid : collections.all validCollection = true) :
    (∀ fault deliveryFault, ∃ moves : List InstallMove, ∃ s,
      Lts.exec step (onlyCall n deliveryDir collections) (moves.map (.advance 0)) = some s ∧
      Installs n collections deliveryDir fault deliveryFault s) ∧
    ∀ (moves : List InstallMove) s health,
      Lts.exec step (onlyCall n deliveryDir collections) (moves.map (.advance 0)) = some s →
      s.calls.map InstallCall.pc = [.returned (.ok health)] →
      ∃ fault deliveryFault, Installs n collections deliveryDir fault deliveryFault s := by
  constructor
  · intro fault deliveryFault
    rcases hopen : openLedger (uninstalled n deliveryDir) fault deliveryFault with
      ⟨opened, exclusion, delivery⟩
    obtain ⟨moves, hrun⟩ := exists_exec_openLedger rfl hopen
    exact ⟨moves, _, hrun, leaves_of_openLedger hnone hvalid hopen⟩
  · intro moves s health hrun hcalls
    obtain ⟨n', pc, rfl, h⟩ := reached_of_exec rfl hrun
    obtain rfl : pc = .returned (.ok health) := by simpa using hcalls
    obtain ⟨fault, deliveryFault, opened, exclusion, delivery, hopen, rfl, rfl⟩ := h
    exact ⟨fault, deliveryFault, leaves_of_openLedger hnone hvalid hopen⟩

/-- A node that starts with no files, and whose delivery worker does not start. -/
theorem exec_install_fresh :
    ∃ s ∈ Lts.exec step (onlyCall (.start ⟨none, none⟩ ∅) ⟨none, none⟩ ["frames"])
        ([.check, .openExclusion true .none, .openDelivery false .none, .readHealth,
          .install].map (.advance 0)),
      s.calls.map InstallCall.pc = [.returned (.ok ⟨true, false⟩)] ∧
      ∃ fault deliveryFault, Installs (.start ⟨none, none⟩ ∅) ["frames"] ⟨none, none⟩
        fault deliveryFault s :=
  Lts.exists_mem_and (by decide +kernel) fun s hrun hcalls =>
    (exec_install (.start ⟨none, none⟩ ∅) ["frames"] ⟨none, none⟩ rfl (by decide +kernel)).2 _ s _ hrun
      hcalls

/-! ### Any calls -/

/-- **The bridge ledger is installed once**, in every run of any number of calls with any
collections in which a call that finds none installed is alone between its look and its
installation. -/
theorem installed_once (exclusionDir deliveryDir : LedgerDir) (labels : List InstallLabel)
    (s : LedgerInstaller) (hok : Lts.Along step Alone (start exclusionDir deliveryDir) labels)
    (hrun : Lts.exec step (start exclusionDir deliveryDir) labels = some s) : s.InstalledOnce :=
  (Lts.exec_invariant Solo (fun _ _ _ h hok hs => h.step hok hs)
    (solo_start exclusionDir deliveryDir) hok hrun).installedOnce

/-- A first call, and two that come while it opens the journals and look when it has installed
them: one with its collections, one with others. -/
def lateChecks : List InstallLabel :=
  [.call ["frames"], .advance 0 .check, .call ["frames", "frames"], .call ["other"]] ++
    installSteps 0 .none .none ++ [.advance 1 .check, .advance 2 .check]

theorem installed_once_lateChecks :
    ∃ s ∈ Lts.exec step (start ⟨none, none⟩ ⟨none, none⟩) lateChecks,
      s.calls.map InstallCall.pc = [.returned (.ok ⟨true, true⟩), .returned (.ok ⟨true, true⟩),
        .returned (.error .corrupt)] ∧ s.InstalledOnce :=
  Lts.exists_mem_and (by decide +kernel) fun s hrun _ =>
    installed_once ⟨none, none⟩ ⟨none, none⟩ lateChecks s (by decide +kernel) hrun

/-- Both look before either installs. -/
def overlappingSteps : List InstallLabel :=
  [.call ["frames"], .call ["other"], .advance 0 .check, .advance 1 .check] ++
    installSteps 0 .none .none ++ installSteps 1 .none .none

instance (n : BridgeLedgers) (k : ℕ) : Decidable (∀ kind, n.spawned kind = k) :=
  decidable_of_iff (n.spawned .exclusion = k ∧ n.spawned .delivery = k)
    ⟨fun h kind => by cases kind <;> simp [h], fun h => ⟨h _, h _⟩⟩

/-- **Two calls install two ledgers**: each journal has two workers, both calls returned `Ok`, and
the collections of the first are not the installed ones. -/
theorem overlapping_installs :
    ∃ s ∈ Lts.exec step (start ⟨none, none⟩ ⟨none, none⟩) overlappingSteps,
      s.ledgers.installations = 2 ∧ (∀ kind, s.ledgers.spawned kind = 2) ∧
        s.calls = [⟨{"frames"}, .returned (.ok ⟨true, true⟩)⟩,
          ⟨{"other"}, .returned (.ok ⟨true, true⟩)⟩] ∧
        s.ledgers.installed = some ⟨{"other"}, some 2, some 3⟩ := by
  decide +kernel

end LedgerInstaller

end PeatNode.Node
