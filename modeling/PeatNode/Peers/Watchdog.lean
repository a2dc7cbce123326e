/-
# Reconnecting and disconnecting peers

The reconnect watchdog, `connect_peer` and `disconnect_peer` of `src/node.rs` over the registry of
peers, the connections of the sync transport and the peers of the blob store, one step between two
awaits or two locks at a time.

In every round the watchdog copies the registered peers that are not connected and dials them in
turn. `disconnect_peer` takes the peer out of the registry before it closes the connection; a copy
made before is not affected.
-/

import Mathlib.Data.Finset.Erase
import Mathlib.Data.Finset.Insert
import Mathlib.Data.List.AList
import PeatNode.Lib.Lts
import PeatNode.Peers.Dial

namespace PeatNode.Peers

open List Option AList Lts

/-- Where `dial_and_attach` is: before the connection, before `start_sync_connection` or before
`add_peer`. -/
inductive DialPhase
  | dialling
  | connected
  | attached
deriving DecidableEq

structure Attempt (P : Type) where
  peer : P
  registration : PeerRegistration
  phase : DialPhase
deriving DecidableEq

/-- The registry, in whatever order it lists its peers. -/
abbrev Registry (P : Type) := AList fun _ : P => PeerRegistration

/-- A peer and its registration, copied from the registry. -/
abbrev Copied (P : Type) := Sigma fun _ : P => PeerRegistration

/-- Where the watchdog is, with the time of its round and the peers still to dial. -/
inductive Watchdog (P : Type)
  | waiting
  | looked (live : Finset P) (now : ℕ)
  | round (now : ℕ) (dead : List (Copied P))
  | dialling (now : ℕ) (attempt : Attempt P) (dead : List (Copied P))
  | settling (now : ℕ) (peer : P) (succeeded : Bool) (dead : List (Copied P))
deriving DecidableEq

/-- Being dialled or still to dial. -/
def Watchdog.pending {P : Type} : Watchdog P → List P
  | .waiting | .looked _ _ => []
  | .round _ dead | .settling _ _ _ dead => dead.map (·.1)
  | .dialling _ attempt dead => attempt.peer :: dead.map (·.1)

/-- The node's peers, the `connect_peer` calls that dial or have still to register, and the
`disconnect_peer` calls that have removed their peer or closed its connection. -/
structure PeerSystem (P : Type) where
  registered : Registry P
  transport : Finset P
  blobPeers : Finset P
  watchdog : Watchdog P
  connecting : List (Attempt P)
  registering : List (Copied P)
  removed : List P
  closed : List P

def PeerRegistration.afterDial (registration : PeerRegistration) (now : ℕ) (succeeded : Bool) :
    PeerRegistration :=
  if succeeded then { registration with backoff := reconnectBackoffMin, nextAttempt := now }
  else
    let backoff := min (registration.backoff * 2) reconnectBackoffMax
    { registration with backoff, nextAttempt := now + backoff }

namespace PeerSystem

variable {P : Type} [DecidableEq P]

def start : PeerSystem P := ⟨∅, ∅, ∅, .waiting, [], [], [], []⟩

/-- The steps of the node and of the network around it. -/
inductive Label (P : Type)
  | look (now : ℕ)
  | copy (dead : List (Copied P))
  | next
  | dialled (net : Net)
  | startSync
  | addPeer
  | settle
  | connect (peer : P) (addresses : List String) (relayUrl : String) (now : ℕ)
  | callDialled (call : Attempt P) (net : Net)
  | callStartSync (call : Attempt P)
  | callAddPeer (call : Attempt P)
  | register (e : Copied P)
  | disconnect (peer : P)
  | close (peer : P)
  | disconnected (peer : P)
  | lost (peer : P)
  | accepted (peer : P)

/-- Not connected, and the time has come. -/
def due (registered : Registry P) (live : Finset P) (now : ℕ) : List (Copied P) :=
  registered.entries.filter fun e => e.1 ∉ live ∧ e.2.nextAttempt ≤ now

/-- `get_mut`, if it is registered. -/
def updated (registered : Registry P) (peer : P) (now : ℕ) (succeeded : Bool) : Registry P :=
  match registered.lookup peer with
  | none => registered
  | some registration =>
    registered.insert peer (registration.afterDial now succeeded)

def stepWatchdog (s : PeerSystem P) : Label P → Option (PeerSystem P)
  | .look now =>
    match s.watchdog with
    | .waiting => some { s with watchdog := .looked s.transport now }
    | _ => none
  | .copy dead =>
    match s.watchdog with
    | .looked live now =>
      if dead.Perm (due s.registered live now) then
        some { s with watchdog := .round now dead }
      else none
    | _ => none
  | .next =>
    match s.watchdog with
    | .round _ [] => some { s with watchdog := .waiting }
    | .round now (⟨peer, registration⟩ :: dead) =>
      some { s with watchdog := .dialling now ⟨peer, registration, .dialling⟩ dead }
    | _ => none
  | .dialled net =>
    match s.watchdog with
    | .dialling now ⟨peer, registration, .dialling⟩ dead =>
      match dialAndAttach net registration with
      | .ok () =>
        some { s with watchdog := .dialling now ⟨peer, registration, .connected⟩ dead }
      | .error _ => some { s with watchdog := .settling now peer false dead }
    | _ => none
  | .startSync =>
    match s.watchdog with
    | .dialling now ⟨peer, registration, .connected⟩ dead =>
      some { s with
        transport := insert peer s.transport
        watchdog := .dialling now ⟨peer, registration, .attached⟩ dead }
    | _ => none
  | .addPeer =>
    match s.watchdog with
    | .dialling now ⟨peer, _, .attached⟩ dead =>
      some { s with
        blobPeers := insert peer s.blobPeers
        watchdog := .settling now peer true dead }
    | _ => none
  | .settle =>
    match s.watchdog with
    | .settling now peer succeeded dead =>
      some { s with
        registered := updated s.registered peer now succeeded
        watchdog := .round now dead }
    | _ => none
  | _ => none

def stepCall (s : PeerSystem P) : Label P → Option (PeerSystem P)
  | .connect peer addresses relayUrl now =>
    if addresses.any (· ≠ "") ∨ relayUrl ≠ "" then
      some { s with
        connecting :=
          ⟨peer, ⟨addresses, relayUrl, now, reconnectBackoffMin⟩, .dialling⟩ :: s.connecting }
    else none
  | .callDialled call net =>
    if call ∈ s.connecting ∧ call.phase = .dialling then
      match dialAndAttach net call.registration with
      | .ok () =>
        some { s with
          connecting := { call with phase := .connected } :: s.connecting.erase call }
      | .error _ => some { s with connecting := s.connecting.erase call }
    else none
  | .callStartSync call =>
    if call ∈ s.connecting ∧ call.phase = .connected then
      some { s with
        transport := insert call.peer s.transport
        connecting := { call with phase := .attached } :: s.connecting.erase call }
    else none
  | .callAddPeer call =>
    if call ∈ s.connecting ∧ call.phase = .attached then
      some { s with
        blobPeers := insert call.peer s.blobPeers
        connecting := s.connecting.erase call
        registering := ⟨call.peer, call.registration⟩ :: s.registering }
    else none
  | .register e =>
    if e ∈ s.registering then
      some { s with
        registered := s.registered.insert e.1 e.2
        registering := s.registering.erase e }
    else none
  | _ => none

def stepDisconnect (s : PeerSystem P) : Label P → Option (PeerSystem P)
  | .disconnect peer =>
    some { s with registered := s.registered.erase peer, removed := peer :: s.removed }
  | .close peer =>
    if peer ∈ s.removed then
      some { s with
        transport := s.transport.erase peer
        removed := s.removed.erase peer
        closed := peer :: s.closed }
    else none
  | .disconnected peer =>
    if peer ∈ s.closed then some { s with closed := s.closed.erase peer } else none
  | _ => none

def step (s : PeerSystem P) (label : Label P) : Option (PeerSystem P) :=
  match label with
  | .look _ | .copy _ | .next | .dialled _ | .startSync | .addPeer | .settle => s.stepWatchdog label
  | .connect _ _ _ _ | .callDialled _ _ | .callStartSync _ | .callAddPeer _ | .register _ =>
    s.stepCall label
  | .disconnect _ | .close _ | .disconnected _ => s.stepDisconnect label
  | .lost peer => some { s with transport := s.transport.erase peer }
  | .accepted peer => some { s with transport := insert peer s.transport }

/-! ### What a step can do -/

inductive Turn (s : PeerSystem P) : Label P → PeerSystem P → Prop
  | look (hw : s.watchdog = .waiting) :
      Turn s (.look now) { s with watchdog := .looked s.transport now }
  | copy (hw : s.watchdog = .looked live now)
      (hdue : dead.Perm (due s.registered live now)) :
      Turn s (.copy dead) { s with watchdog := .round now dead }
  | roundDone (hw : s.watchdog = .round now []) :
      Turn s .next { s with watchdog := .waiting }
  | next (hw : s.watchdog = .round now (e :: dead)) :
      Turn s .next { s with watchdog := .dialling now ⟨e.1, e.2, .dialling⟩ dead }
  | connected {net : Net} {now : ℕ} {peer : P} {registration : PeerRegistration}
      {dead : List (Copied P)} (hw : s.watchdog = .dialling now ⟨peer, registration, .dialling⟩ dead)
      (hnet : dialAndAttach net registration = .ok ()) :
      Turn s (.dialled net) { s with watchdog := .dialling now ⟨peer, registration, .connected⟩ dead }
  | failed {net : Net} {now : ℕ} {peer : P} {registration : PeerRegistration}
      {dead : List (Copied P)} (hw : s.watchdog = .dialling now ⟨peer, registration, .dialling⟩ dead) :
      Turn s (.dialled net) { s with watchdog := .settling now peer false dead }
  | startSync (hw : s.watchdog = .dialling now ⟨peer, registration, .connected⟩ dead) :
      Turn s .startSync { s with
        transport := insert peer s.transport
        watchdog := .dialling now ⟨peer, registration, .attached⟩ dead }
  | addPeer (hw : s.watchdog = .dialling now ⟨peer, registration, .attached⟩ dead) :
      Turn s .addPeer { s with
        blobPeers := insert peer s.blobPeers
        watchdog := .settling now peer true dead }
  | settle (hw : s.watchdog = .settling now peer succeeded dead) :
      Turn s .settle { s with
        registered := updated s.registered peer now succeeded
        watchdog := .round now dead }
  | connect :
      Turn s (.connect peer addresses relayUrl now) { s with
        connecting :=
          ⟨peer, ⟨addresses, relayUrl, now, reconnectBackoffMin⟩, .dialling⟩ :: s.connecting }
  | callConnected (hcall : call ∈ s.connecting) :
      Turn s (.callDialled call net) { s with
        connecting := { call with phase := .connected } :: s.connecting.erase call }
  | callFailed :
      Turn s (.callDialled call net) { s with connecting := s.connecting.erase call }
  | callStartSync (hcall : call ∈ s.connecting) :
      Turn s (.callStartSync call) { s with
        transport := insert call.peer s.transport
        connecting := { call with phase := .attached } :: s.connecting.erase call }
  | callAddPeer (hcall : call ∈ s.connecting) :
      Turn s (.callAddPeer call) { s with
        blobPeers := insert call.peer s.blobPeers
        connecting := s.connecting.erase call
        registering := ⟨call.peer, call.registration⟩ :: s.registering }
  | register (he : e ∈ s.registering) :
      Turn s (.register e) { s with
        registered := s.registered.insert e.1 e.2
        registering := s.registering.erase e }
  | disconnect :
      Turn s (.disconnect peer)
        { s with registered := s.registered.erase peer, removed := peer :: s.removed }
  | close :
      Turn s (.close peer) { s with
        transport := s.transport.erase peer
        removed := s.removed.erase peer
        closed := peer :: s.closed }
  | disconnected : Turn s (.disconnected peer) { s with closed := s.closed.erase peer }
  | lost : Turn s (.lost peer) { s with transport := s.transport.erase peer }
  | accepted : Turn s (.accepted peer) { s with transport := insert peer s.transport }

variable {s s' : PeerSystem P} {p : P} {label : Label P}

theorem Turn.of_stepWatchdog (h : s.stepWatchdog label = some s') : Turn s label s' := by
  cases label with
  | look | copy | dialled | startSync | addPeer | settle => grind [Turn, stepWatchdog]
  | next =>
    rw [stepWatchdog] at h
    split at h
    · cases h
      exact .roundDone ‹_›
    · cases h
      exact .next ‹_›
    · cases h
  | _ => simp [stepWatchdog] at h

theorem Turn.of_stepCall (h : s.stepCall label = some s') : Turn s label s' := by
  cases label with
  | connect | callDialled | callStartSync | callAddPeer | register => grind [Turn, stepCall]
  | _ => simp [stepCall] at h

theorem Turn.of_stepDisconnect (h : s.stepDisconnect label = some s') : Turn s label s' := by
  cases label with
  | disconnect peer =>
    cases h
    exact .disconnect
  | close peer =>
    rw [stepDisconnect, ite_none_right_eq_some] at h
    obtain rfl := some.inj h.2
    exact .close
  | disconnected peer =>
    rw [stepDisconnect, ite_none_right_eq_some] at h
    obtain rfl := some.inj h.2
    exact .disconnected
  | _ => simp [stepDisconnect] at h

theorem Turn.of_step (h : step s label = some s') : Turn s label s' := by
  cases label with
  | look | copy | next | dialled | startSync | addPeer | settle => exact .of_stepWatchdog h
  | connect | callDialled | callStartSync | callAddPeer | register => exact .of_stepCall h
  | disconnect | close | disconnected => exact .of_stepDisconnect h
  | lost peer =>
    cases h
    exact .lost
  | accepted peer =>
    cases h
    exact .accepted

/-! ### When nothing leads to a peer -/

/-- A call to `connect_peer` for it. -/
def Label.Connects (p : P) : Label P → Prop
  | .connect peer _ _ _ => peer = p
  | _ => False

/-- It is registered or added to the blob store. -/
def Attaches (p : P) (s : PeerSystem P) : Label P → Prop
  | .startSync | .addPeer =>
    ∃ now attempt dead, s.watchdog = .dialling now attempt dead ∧ attempt.peer = p
  | _ => False

/-- The peer is not registered, and no call connects to it. -/
structure Forgotten (p : P) (s : PeerSystem P) : Prop where
  notRegistered : p ∉ s.registered
  notConnecting : ∀ call ∈ s.connecting, call.peer ≠ p
  notRegistering : ∀ e ∈ s.registering, e.1 ≠ p

/-- Nothing leads to the peer: it is forgotten, also by the watchdog. -/
structure Clear (p : P) (s : PeerSystem P) : Prop extends Forgotten p s where
  notPending : p ∉ s.watchdog.pending

omit [DecidableEq P] in
theorem Clear.not_attaches (h : Clear p s) : ¬ Attaches p s label := by
  cases label with
  | startSync | addPeer =>
    rintro ⟨now, attempt, dead, hw, rfl⟩
    exact h.notPending (by simp [hw, Watchdog.pending])
  | _ => exact id

theorem mem_updated {registered : Registry P} :
    p ∈ updated registered peer now succeeded ↔ p ∈ registered := by
  unfold updated
  cases hlookup : registered.lookup peer with
  | none => rfl
  | some registration =>
    rw [mem_insert]
    constructor
    · rintro (rfl | hmem)
      · exact lookup_isSome.1 (by simp [hlookup])
      · exact hmem
    · exact .inr

/-- What is due is registered. -/
theorem mem_of_mem_due {registered : Registry P} (h : e ∈ due registered live now) :
    e.1 ∈ registered :=
  mem_keys_of_mem (mem_of_mem_filter h)

theorem forall_peer_cons_erase {calls : List (Attempt P)} (h : ∀ call ∈ calls, call.peer ≠ p)
    (hcall : call ∈ calls) (phase : DialPhase) :
    ∀ c ∈ ({ call with phase } : Attempt P) :: calls.erase call, c.peer ≠ p := by
  intro c hc
  rcases mem_cons.1 hc with rfl | hc
  · exact h call hcall
  · exact h c (mem_of_mem_erase hc)

/-- Only a call to `connect_peer` brings a forgotten peer back. -/
theorem Forgotten.step (hf : Forgotten p s) (hlabel : ¬ label.Connects p)
    (h : step s label = some s') : Forgotten p s' := by
  obtain ⟨hreg, hconn, hring⟩ := hf
  have herase : ∀ call : Attempt P, ∀ c ∈ s.connecting.erase call, c.peer ≠ p := fun call c hc =>
    hconn c (mem_of_mem_erase hc)
  cases Turn.of_step h with
  | settle hw => exact ⟨fun hmem => hreg (mem_updated.1 hmem), hconn, hring⟩
  | connect =>
    refine ⟨hreg, fun c hc => ?_, hring⟩
    rcases mem_cons.1 hc with rfl | hc
    · exact hlabel
    · exact hconn c hc
  | callConnected hcall | callStartSync hcall =>
    exact ⟨hreg, forall_peer_cons_erase hconn hcall _, hring⟩
  | callFailed => exact ⟨hreg, herase _, hring⟩
  | @callAddPeer call hcall =>
    refine ⟨hreg, herase _, fun e he => ?_⟩
    rcases mem_cons.1 he with rfl | he
    · exact hconn call hcall
    · exact hring e he
  | @register e he =>
    refine ⟨fun hmem => ?_, hconn, fun e' he' => hring e' (mem_of_mem_erase he')⟩
    rcases (mem_insert _).1 hmem with rfl | hmem
    · exact hring e he rfl
    · exact hreg hmem
  | disconnect => exact ⟨fun hmem => hreg (mem_erase.1 hmem).2, hconn, hring⟩
  | _ => exact ⟨hreg, hconn, hring⟩

theorem mem_pending_of_step (h : step s label = some s') (hp : p ∈ s'.watchdog.pending) :
    p ∈ s.watchdog.pending ∨ p ∈ s.registered := by
  cases Turn.of_step h with
  | look hw | roundDone hw => simp [Watchdog.pending] at hp
  | copy hw hdue =>
    obtain ⟨e, he, rfl⟩ := mem_map.1 hp
    exact .inr (mem_of_mem_due (hdue.subset he))
  | next hw | connected hw hnet | startSync hw | settle hw =>
    rw [hw]
    exact .inl hp
  | failed hw | addPeer hw =>
    rw [hw]
    exact .inl (mem_cons_of_mem _ hp)
  | _ => exact .inl hp

theorem Clear.step (hc : Clear p s) (hlabel : ¬ label.Connects p) (h : step s label = some s') :
    Clear p s' := by
  refine ⟨hc.toForgotten.step hlabel h, fun hp => ?_⟩
  rcases mem_pending_of_step h hp with hp | hp
  · exact hc.notPending hp
  · exact hc.notRegistered hp

/-- What every step keeps that starts no `connect_peer` for the peer, every run of such steps
keeps. -/
theorem exec_of_not_connects (Inv : PeerSystem P → Prop)
    (hstep : ∀ s label s', Inv s → ¬ label.Connects p → step s label = some s' → Inv s')
    (hlabels : ∀ label ∈ labels, ¬ label.Connects p) (hs : Inv s)
    (hrun : exec step s labels = some s') : Inv s' :=
  exec_invariant Inv hstep hs (along_of_forall hlabels s) hrun

/-! ### A copy that the watchdog has -/

/-- The watchdog attaches it without `connect_peer`. -/
def CanAttach (p : P) (s : PeerSystem P) : Prop :=
  ∃ labels s', (∀ label ∈ labels, ¬ Label.Connects p label) ∧
    Lts.exec step s labels = some s' ∧ ∃ label s'', step s' label = some s'' ∧ Attaches p s' label

theorem CanAttach.of_step (h : step s label = some s') (hlabel : ¬ label.Connects p)
    (hc : CanAttach p s') : CanAttach p s := by
  obtain ⟨labels, t, hlabels, hrun, hend⟩ := hc
  refine ⟨label :: labels, t, fun l hl => ?_, exec_cons_eq_some.2 ⟨s', h, hrun⟩, hend⟩
  rcases mem_cons.1 hl with rfl | hl
  · exact hlabel
  · exact hlabels l hl

theorem CanAttach.of_attaches (h : step s label = some s') (ha : Attaches p s label) :
    CanAttach p s :=
  ⟨[], s, by simp, rfl, label, s', h, ha⟩

section

variable {now : ℕ} {peer : P} {registration : PeerRegistration} {dead : List (Copied P)}

theorem step_connected (hw : s.watchdog = .dialling now ⟨peer, registration, .dialling⟩ dead) :
    step s (.dialled (.always (.ok ()))) =
      some { s with watchdog := .dialling now ⟨peer, registration, .connected⟩ dead } := by
  simp only [step, stepWatchdog, hw, dialAndAttach_always_ok]

theorem step_failed (hw : s.watchdog = .dialling now ⟨peer, registration, .dialling⟩ dead)
    (e : ConnectError) :
    step s (.dialled (.always (.error e))) =
      some { s with watchdog := .settling now peer false dead } := by
  simp only [step, stepWatchdog, hw, dialAndAttach_always_error]

theorem step_startSync (hw : s.watchdog = .dialling now ⟨peer, registration, .connected⟩ dead) :
    step s .startSync = some { s with
      transport := insert peer s.transport
      watchdog := .dialling now ⟨peer, registration, .attached⟩ dead } := by
  simp only [step, stepWatchdog, hw]

theorem step_addPeer (hw : s.watchdog = .dialling now ⟨peer, registration, .attached⟩ dead) :
    step s .addPeer = some { s with
      blobPeers := insert peer s.blobPeers
      watchdog := .settling now peer true dead } := by
  simp only [step, stepWatchdog, hw]

theorem step_settle (hw : s.watchdog = .settling now peer succeeded dead) :
    step s .settle = some { s with
      registered := updated s.registered peer now succeeded
      watchdog := .round now dead } := by
  simp only [step, stepWatchdog, hw]

theorem step_next (hw : s.watchdog = .round now (⟨peer, registration⟩ :: dead)) : step s .next =
      some { s with watchdog := .dialling now ⟨peer, registration, .dialling⟩ dead } := by
  simp only [step, stepWatchdog, hw]

theorem canAttach_of_dialling (hw : s.watchdog = .dialling now ⟨p, registration, phase⟩ dead) :
    CanAttach p s := by
  cases phase with
  | dialling =>
    refine .of_step (step_connected hw) id ?_
    exact .of_attaches (step_startSync rfl) ⟨now, _, dead, rfl, rfl⟩
  | connected => exact .of_attaches (step_startSync hw) ⟨now, _, dead, hw, rfl⟩
  | attached => exact .of_attaches (step_addPeer hw) ⟨now, _, dead, hw, rfl⟩

/-- The watchdog comes to every peer of its round: the dials before it may fail. -/
theorem canAttach_of_round (hw : s.watchdog = .round now dead) (hp : p ∈ dead.map (·.1)) :
    CanAttach p s := by
  induction dead generalizing s with
  | nil => simp at hp
  | cons e dead ih =>
    refine .of_step (step_next hw) id ?_
    rcases mem_cons.1 hp with rfl | hp
    · exact canAttach_of_dialling rfl
    · refine .of_step (step_failed rfl ⟨false, ""⟩) id ?_
      exact .of_step (step_settle rfl) id (ih rfl hp)

theorem canAttach_of_settling (hw : s.watchdog = .settling now peer succeeded dead)
    (hp : p ∈ dead.map (·.1)) : CanAttach p s :=
  .of_step (step_settle hw) id (canAttach_of_round rfl hp)

end

/-- **The watchdog can attach every peer that it has a copy of.** -/
theorem canAttach_of_pending (hp : p ∈ s.watchdog.pending) : CanAttach p s := by
  cases hw : s.watchdog with
  | waiting | looked live now => simp [hw, Watchdog.pending] at hp
  | round now dead =>
    rw [hw] at hp
    exact canAttach_of_round hw hp
  | settling now peer succeeded dead =>
    rw [hw] at hp
    exact canAttach_of_settling hw hp
  | dialling now attempt dead =>
    rw [hw] at hp
    obtain ⟨peer, registration, phase⟩ := attempt
    rcases mem_cons.1 hp with rfl | hrest
    · exact canAttach_of_dialling hw
    · -- the attempt before it comes to an end first
      cases phase with
      | dialling =>
        exact .of_step (step_failed hw ⟨false, ""⟩) id (canAttach_of_settling rfl hrest)
      | connected =>
        refine .of_step (step_startSync hw) id ?_
        exact .of_step (step_addPeer rfl) id (canAttach_of_settling rfl hrest)
      | attached => exact .of_step (step_addPeer hw) id (canAttach_of_settling rfl hrest)

/-! ### Disconnecting -/

/-- The disconnection lasts: until a call connects to the peer, it stays out of the registry and
the watchdog does not attach it. -/
def Sticks (p : P) (s : PeerSystem P) : Prop :=
  ∀ labels s', (∀ label ∈ labels, ¬ Label.Connects p label) → Lts.exec step s labels = some s' →
    p ∉ s'.registered ∧ ∀ label s'', step s' label = some s'' → ¬ Attaches p s' label

/-- **A disconnection lasts exactly if the watchdog has no copy of the peer** when
`disconnect_peer` returns. -/
theorem disconnect_sticks_iff {t : PeerSystem P} {during : List (Label P)}
    (hcalls : (∀ call ∈ t.connecting, call.peer ≠ p) ∧ ∀ e ∈ t.registering, e.1 ≠ p)
    (hduring : ∀ label ∈ during, ¬ label.Connects p)
    (hrun : Lts.exec step t (.disconnect p :: during ++ [.disconnected p]) = some s) :
    Sticks p s ↔ p ∉ s.watchdog.pending := by
  have hforgotten : Forgotten p s := by
    obtain ⟨u, hu, hrun⟩ := exec_cons_eq_some.1 hrun
    cases hu
    have hremoved : Forgotten p
        { t with registered := t.registered.erase p, removed := p :: t.removed } :=
      ⟨fun hmem => (mem_erase.1 hmem).1 rfl, hcalls.1, hcalls.2⟩
    exact exec_of_not_connects (Forgotten p) (fun _ _ _ hf hl h => hf.step hl h)
      (forall_mem_append.2 ⟨hduring, forall_mem_singleton.2 id⟩) hremoved hrun
  constructor
  · intro hsticks hp
    obtain ⟨labels, s', hlabels, hexec, label, s'', hstep, hattach⟩ := canAttach_of_pending hp
    exact (hsticks labels s' hlabels hexec).2 label s'' hstep hattach
  · intro hp labels s' hlabels hexec
    have hclear : Clear p s' :=
      exec_of_not_connects (Clear p) (fun _ _ _ hc hl h => hc.step hl h) hlabels
        ⟨hforgotten, hp⟩ hexec
    exact ⟨hclear.notRegistered, fun label s'' _ => hclear.not_attaches⟩

/-! ### Runs -/

/-- Registered, then lost. -/
def lostPeer : List (Label ℕ) :=
  let registration : PeerRegistration := ⟨["10.0.0.2:51071"], "", 0, reconnectBackoffMin⟩
  [.connect 1 ["10.0.0.2:51071"] "" 0, .callDialled ⟨1, registration, .dialling⟩ (.always (.ok ())),
    .callStartSync ⟨1, registration, .connected⟩, .callAddPeer ⟨1, registration, .attached⟩,
    .register ⟨1, registration⟩, .lost 1]

/-- The watchdog looks who is connected, but copies the registry only after the removal. -/
theorem disconnect_between_rounds_sticks :
    ∃ t s : PeerSystem ℕ, Lts.exec step start lostPeer = some t ∧
      Lts.exec step t [.disconnect 1, .look 5, .close 1, .disconnected 1] = some s ∧
      Sticks 1 s := by
  have hend : ∃ t ∈ exec step start lostPeer, t.connecting = [] ∧ t.registering = [] ∧
      ∃ s ∈ exec step t (.disconnect 1 :: [.look 5, .close 1] ++ [.disconnected 1]),
        1 ∉ s.watchdog.pending := by
    decide +kernel
  obtain ⟨t, ht, hcalls, hring, s, hs, hp⟩ := hend
  have hduring : ∀ label ∈ ([.look 5, .close 1] : List (Label ℕ)), ¬ label.Connects 1 := by
    simp [Label.Connects]
  exact ⟨t, s, ht, hs, (disconnect_sticks_iff (by simp [hcalls, hring]) hduring hs).2 hp⟩

/-- The watchdog dials the peer when it is disconnected, and attaches it after
`disconnect_peer` has returned. -/
theorem disconnected_peer_attached : ∃ t ∈ Lts.exec step start (lostPeer ++ [.look 5,
        .copy [⟨1, ⟨["10.0.0.2:51071"], "", 0, reconnectBackoffMin⟩⟩], .next]),
      t.connecting = [] ∧ t.registering = [] ∧
      ∃ s ∈ Lts.exec step t [.disconnect 1, .close 1, .disconnected 1], 1 ∉ s.transport ∧
        ∃ s' ∈ Lts.exec step s [.dialled (.always (.ok ())), .startSync, .addPeer, .settle],
          1 ∈ s'.transport ∧ 1 ∈ s'.blobPeers ∧ 1 ∉ s'.registered := by
  decide +kernel

end PeerSystem

end PeatNode.Peers
