/-
# Peers found by mDNS

`mdns_watcher` of `src/node.rs` and of `crates/peat-cli/src/join.rs`: a peer that announces itself
is dialled at its addresses until one connects, unless it is connected already, announces another
formation or is in `auth_failed`.  A dial whose error looks permanent puts its peer there, and
nothing takes it out again (`listed_iff`).

The watcher is generic in the dial (`Watcher`), and keeps the dials it made beside its own state.
-/

import Mathlib.Data.Finset.Insert
import Mathlib.Data.Nat.Digits.Defs
import PeatNode.Lib.Lts
import PeatNode.Peers.Dial

namespace PeatNode.Peers

open Option

structure PeerInfo where
  nodeId : String
  addresses : List String
  metadata : String → Option String

inductive DiscoveryEvent
  | peerFound (peer : PeerInfo)
  | peerUpdated (peer : PeerInfo)
  | peerLost (nodeId : String)

/-- The peer that an event announces. -/
def DiscoveryEvent.peer? : DiscoveryEvent → Option PeerInfo
  | .peerFound peer | .peerUpdated peer => some peer
  | .peerLost _ => none

/-- `str::parse::<u16>`. -/
def parseU16 (text : String) : Option ℕ :=
  let digits := if text.toList.head? = some '+' then text.toList.tail else text.toList
  if digits ≠ [] ∧ digits.all Char.isDigit then
    let n := Nat.ofDigits 10 (digits.map fun c => c.toNat - '0'.toNat).reverse
    if n < 2 ^ 16 then some n else none
  else none

/-- The addresses, or else the announced port on this host. -/
def mdnsPeerAddresses (peer : PeerInfo) : List String :=
  if peer.addresses ≠ [] then peer.addresses
  else
    match (peer.metadata "port").bind parseU16 with
    | some port => ["127.0.0.1:" ++ toString port]
    | none => []

/-- How it dials an address of a peer, and what its errors say; a dial that gives nothing is
skipped. -/
structure Watcher (ε E : Type) where
  ourId : String
  formationId : String
  dial : ε → String → String → Option (Except E Unit)
  text : E → String
  rejected : E → Bool

/-- The peers not dialled any more, and the dials of each round, the latest first. -/
structure Watch (E : Type) where
  authFailed : Finset String
  dialled : List (String × List (Except E Unit))

/-- Of the last round that dialled. -/
def Watch.lastDials {E : Type} (s : Watch E) (nodeId : String) : Option (List (Except E Unit)) :=
  (s.dialled.find? (·.1 = nodeId)).map (·.2)

/-- An event, who is connected then, and how the network answers. -/
structure Round (ε : Type) where
  event : DiscoveryEvent
  connected : List String
  net : ℕ → ε

namespace Watcher

variable {ε E : Type} (w : Watcher ε E)

/-- The peer announces no other formation. -/
def SameFormation (peer : PeerInfo) : Prop :=
  ∀ fid, peer.metadata "formation_id" = some fid → fid = w.formationId

instance (peer : PeerInfo) : Decidable (w.SameFormation peer) :=
  match h : peer.metadata "formation_id" with
  | none => .isTrue fun fid hfid => by simp [h] at hfid
  | some fid => decidable_of_iff (fid = w.formationId) (by simp [SameFormation, h])

/-- The peer to dial, past the four `continue`s. -/
def targets (s : Watch E) (r : Round ε) : Option PeerInfo :=
  match r.event.peer? with
  | none => none
  | some peer =>
    if peer.nodeId = w.ourId ∨ peer.nodeId ∈ s.authFailed then none
    else if ¬ w.SameFormation peer then none
    else if peer.nodeId ∈ r.connected then none
    else some peer

/-- Up to the first that connects. -/
def dialAddresses (nodeId : String) : (ℕ → ε) → List String → List (Except E Unit)
  | _, [] => []
  | net, addr :: addrs =>
    match w.dial (net 0) nodeId addr with
    | none => dialAddresses nodeId (fun i => net (i + 1)) addrs
    | some (.ok ()) => [.ok ()]
    | some (.error e) => .error e :: dialAddresses nodeId (fun i => net (i + 1)) addrs

def results (r : Round ε) (peer : PeerInfo) : List (Except E Unit) :=
  w.dialAddresses peer.nodeId r.net (mdnsPeerAddresses peer)

/-- It failed with a permanent error. -/
def looksPermanent : Except E Unit → Bool
  | .ok () => false
  | .error e => Permanent (w.text e)

def handle (s : Watch E) (r : Round ε) : Watch E :=
  match w.targets s r with
  | none => s
  | some peer => {
      authFailed :=
        if (w.results r peer).any w.looksPermanent then insert peer.nodeId s.authFailed
        else s.authFailed
      dialled := (peer.nodeId, w.results r peer) :: s.dialled }

def step (s : Watch E) (r : Round ε) : Option (Watch E) := some (w.handle s r)

def start : Watch E := ⟨∅, []⟩

/-! ### What a round does -/

variable {w} {s s' : Watch E} {r : Round ε} {peer : PeerInfo}

theorem targets_eq_some_iff : w.targets s r = some peer ↔
    r.event.peer? = some peer ∧ peer.nodeId ≠ w.ourId ∧ peer.nodeId ∉ s.authFailed ∧
      w.SameFormation peer ∧ peer.nodeId ∉ r.connected := by
  unfold targets
  cases hevent : r.event.peer? with
  | none => simp
  | some p =>
    rw [some.injEq]
    by_cases hskip : p.nodeId = w.ourId ∨ p.nodeId ∈ s.authFailed
    · simp only [if_pos hskip, reduceCtorEq, false_iff]
      rintro ⟨rfl, hne, hnot, -⟩
      exact hskip.elim hne hnot
    by_cases hform : w.SameFormation p
    · by_cases hconn : p.nodeId ∈ r.connected
      · simp only [if_neg hskip, hform, not_true_eq_false, if_false, if_pos hconn, reduceCtorEq,
          false_iff]
        rintro ⟨rfl, -, -, -, hnot⟩
        exact hnot hconn
      · simp only [if_neg hskip, hform, not_true_eq_false, if_false, if_neg hconn,
          some.injEq]
        constructor
        · rintro rfl
          exact ⟨rfl, (not_or.1 hskip).1, (not_or.1 hskip).2, hform, hconn⟩
        · rintro ⟨hpeer, -⟩
          exact hpeer
    · simp only [if_neg hskip, hform, not_false_eq_true, if_true, reduceCtorEq, false_iff]
      rintro ⟨rfl, -, -, hsame, -⟩
      exact hform hsame

theorem handle_of_targets (h : w.targets s r = some peer) : w.handle s r =
      ⟨if (w.results r peer).any w.looksPermanent then insert peer.nodeId s.authFailed
        else s.authFailed, (peer.nodeId, w.results r peer) :: s.dialled⟩ := by
  rw [handle, h]

theorem handle_of_none (h : w.targets s r = none) : w.handle s r = s := by
  rw [handle, h]

theorem lastDials_handle_of_ne (h : w.targets s r = some peer) (hne : peer.nodeId ≠ nodeId) :
    (w.handle s r).lastDials nodeId = s.lastDials nodeId := by
  simp [handle_of_targets h, Watch.lastDials, hne]

theorem lastDials_handle (h : w.targets s r = some peer) :
    (w.handle s r).lastDials peer.nodeId = some (w.results r peer) := by
  simp [handle_of_targets h, Watch.lastDials]

/-- **Who is on the list after a round**: who was, and the peer of the round if the error of
one of its dials looks permanent. -/
theorem listed_iff (h : w.targets s r = some peer) :
    nodeId ∈ (w.handle s r).authFailed ↔
      nodeId ∈ s.authFailed ∨
        nodeId = peer.nodeId ∧ ∃ e, .error e ∈ w.results r peer ∧ Permanent (w.text e) := by
  have hany : (w.results r peer).any w.looksPermanent = true ↔
      ∃ e, .error e ∈ w.results r peer ∧ Permanent (w.text e) := by
    rw [List.any_eq_true]
    constructor
    · rintro ⟨result, hmem, hlooks⟩
      cases result with
      | ok => simp [looksPermanent] at hlooks
      | error e => exact ⟨e, hmem, by simpa [looksPermanent] using hlooks⟩
    · rintro ⟨e, hmem, hperm⟩
      exact ⟨.error e, hmem, by simpa [looksPermanent] using hperm⟩
  rw [handle_of_targets h, ← hany]
  by_cases hlooks : (w.results r peer).any w.looksPermanent = true
  · rw [if_pos hlooks, Finset.mem_insert]
    simp [hlooks, or_comm]
  · rw [if_neg hlooks]
    simp [hlooks]

/-! ### When the list says the truth -/

variable (w)

/-- One connected, or no handshake refused. -/
def Harmless (results : List (Except E Unit)) : Prop :=
  .ok () ∈ results ∨ ∀ e, .error e ∈ results → w.rejected e = false

/-- Only peers that the handshake refused are listed, and a peer whose last dials are harmless is
dialled at its next event. -/
structure Justified (s : Watch E) : Prop where
  only : ∀ nodeId ∈ s.authFailed, ∃ results, (nodeId, results) ∈ s.dialled ∧
    ∃ e, .error e ∈ results ∧ w.rejected e = true
  again : ∀ (r : Round ε) (peer : PeerInfo) (results : List (Except E Unit)),
    r.event.peer? = some peer → s.lastDials peer.nodeId = some results → w.Harmless results →
    peer.nodeId ≠ w.ourId → w.SameFormation peer → peer.nodeId ∉ r.connected →
    w.targets s r = some peer

/-- If a dial of the round fails with an error blamed on the peer, the handshake refused a dial of
the round and none connected. -/
def Fair (Blamed : E → Prop) (s : Watch E) (r : Round ε) : Prop :=
  ∀ peer, w.targets s r = some peer → (∃ e, .error e ∈ w.results r peer ∧ Blamed e) →
    (∃ e, .error e ∈ w.results r peer ∧ w.rejected e = true) ∧ .ok () ∉ w.results r peer

/-- The last dials speak against the peer. -/
def Grounded (s : Watch E) : Prop :=
  ∀ nodeId ∈ s.authFailed, ∃ results, s.lastDials nodeId = some results ∧ ¬ w.Harmless results

variable {w}

theorem not_harmless_iff {results : List (Except E Unit)} :
    ¬ w.Harmless results ↔
      (∃ e, .error e ∈ results ∧ w.rejected e = true) ∧ .ok () ∉ results := by
  simp [Harmless, and_comm]

theorem Grounded.justified (h : w.Grounded s) : w.Justified s := by
  constructor
  · intro nodeId hmem
    obtain ⟨results, hlast, hharm⟩ := h nodeId hmem
    rw [Watch.lastDials, map_eq_some_iff] at hlast
    obtain ⟨⟨p, results⟩, hfind, rfl⟩ := hlast
    have hp : p = nodeId := by simpa using List.find?_some hfind
    subst hp
    exact ⟨results, List.mem_of_find?_eq_some hfind, (not_harmless_iff.1 hharm).1⟩
  · intro r peer results hevent hlast hharm hne hsame hconn
    refine targets_eq_some_iff.2 ⟨hevent, hne, fun hmem => ?_, hsame, hconn⟩
    obtain ⟨results', hlast', hharm'⟩ := h _ hmem
    rw [hlast, some.injEq] at hlast'
    exact hharm' (hlast' ▸ hharm)

theorem Grounded.handle (h : w.Grounded s) (hfair : w.Fair (fun e => Permanent (w.text e)) s r) :
    w.Grounded (w.handle s r) := by
  cases htarget : w.targets s r with
  | none =>
    rw [handle_of_none htarget]
    exact h
  | some peer =>
    intro nodeId hmem
    rcases (listed_iff htarget).1 hmem with hold | ⟨rfl, hperm⟩
    · -- who was on the list before is not dialled, so its last dials are the old ones
      have hne : peer.nodeId ≠ nodeId := by
        rintro rfl
        exact (targets_eq_some_iff.1 htarget).2.2.1 hold
      rw [lastDials_handle_of_ne htarget hne]
      exact h nodeId hold
    · exact ⟨_, lastDials_handle htarget, not_harmless_iff.2 (hfair peer htarget hperm)⟩

/-- A round against the rule puts a peer on the list that is to be dialled again. -/
theorem not_justified_of_not_fair (hfair : ¬ w.Fair (fun e => Permanent (w.text e)) s r) :
    ¬ w.Justified (w.handle s r) := by
  intro hjust
  unfold Fair at hfair
  push Not at hfair
  obtain ⟨peer, htarget, hperm, hbad⟩ := hfair
  have hharm : w.Harmless (w.results r peer) := by
    by_contra hno
    obtain ⟨⟨e, hmem, hrej⟩, hok⟩ := not_harmless_iff.1 hno
    exact hok (hbad ⟨e, hmem, hrej⟩)
  have hlisted : peer.nodeId ∈ (w.handle s r).authFailed :=
    (listed_iff htarget).2 (.inr ⟨rfl, hperm⟩)
  obtain ⟨-, hne, -, hsame, hconn⟩ := targets_eq_some_iff.1 htarget
  have hagain := hjust.again ⟨.peerFound peer, [], r.net⟩ peer _ rfl (lastDials_handle htarget)
    hharm hne hsame (by simp)
  exact (targets_eq_some_iff.1 hagain).2.2.1 hlisted

theorem exec_step (rounds : List (Round ε)) (s : Watch E) : ∃ s', Lts.exec w.step s rounds = some s' :=
  Lts.exists_exec (fun s r => ⟨w.handle s r, rfl⟩) s rounds

/-- The list says the truth throughout a run exactly if every round meets the rule. -/
theorem justified_iff (rounds : List (Round ε)) : Lts.Always w.step w.Justified start rounds ↔
      Lts.Along w.step (w.Fair fun e => Permanent (w.text e)) start rounds := by
  have hstep : ∀ s r s', w.Grounded s → w.Fair (fun e => Permanent (w.text e)) s r →
      w.step s r = some s' → w.Grounded s' := by
    intro s r s' hs hfair h
    cases h
    exact hs.handle hfair
  have hbreak : ∀ s r s', w.Grounded s → ¬ w.Fair (fun e => Permanent (w.text e)) s r →
      w.step s r = some s' → ¬ w.Justified s' := by
    intro s r s' _ hfair h
    cases h
    exact not_justified_of_not_fair hfair
  have hstart : w.Grounded start := by
    intro nodeId hmem
    simp [start] at hmem
  obtain ⟨s', hrun⟩ := exec_step (w := w) rounds start
  exact Lts.always_iff_along w.Grounded w.Justified hstep hbreak (fun _ hs => hs.justified) hstart hrun

end Watcher

/-! ### The two watchers -/

/-- An unreadable endpoint id is skipped. -/
def nodeWatcher (ourId formationId : String) (parseId : String → Option String) :
    Watcher Net DialError where
  ourId
  formationId
  dial net peerId addr :=
    (parseId peerId).map fun _ => dialAndAttach net ⟨[addr], "", 0, reconnectBackoffMin⟩
  text := DialError.text
  rejected := DialError.rejected

def cliWatcher (ourId formationId : String) (parseId : String → Except String String)
    (timeout : String) : Watcher CliNet CliDialError where
  ourId
  formationId
  dial net peerId addr := some (connectPeer parseId timeout net (peerId ++ "@" ++ addr))
  text := CliDialError.text
  rejected := CliDialError.rejected

/-- **When only mismatches put a peer on the list**, for the node and the command line tool: in
every state of a run the list holds only peers that the handshake refused and leaves out those
whose last dials are harmless, exactly if in every round with a dial blamed on the peer the
handshake refused a dial and none connected. -/
theorem only_mismatches_listed_iff (ourId formationId : String) :
    (∀ (parseId : String → Option String) (rounds : List (Round Net)),
      let w := nodeWatcher ourId formationId parseId
      Lts.Always w.step w.Justified Watcher.start rounds ↔
        Lts.Along w.step (w.Fair DialError.Blamed) Watcher.start rounds) ∧
    ∀ (parseId : String → Except String String) (timeout : String) (rounds : List (Round CliNet)),
      let w := cliWatcher ourId formationId parseId timeout
      Lts.Always w.step w.Justified Watcher.start rounds ↔
        Lts.Along w.step (w.Fair CliDialError.Blamed) Watcher.start rounds := by
  have hnode : DialError.Blamed = fun e => Permanent e.text :=
    funext fun e => propext e.permanent_iff.symm
  have hcli : CliDialError.Blamed = fun e => Permanent e.text :=
    funext fun e => propext e.permanent_iff.symm
  constructor
  · intro parseId rounds w
    rw [hnode]
    exact Watcher.justified_iff rounds
  · intro parseId timeout rounds w
    rw [hcli]
    exact Watcher.justified_iff rounds

/-! ### Runs -/

def twoAddresses : PeerInfo where
  nodeId := "b"
  addresses := ["10.0.0.2:51071", "10.0.0.3:51071"]
  metadata name := if name = "formation_id" then some "alpha" else none

def noRoute : ConnectError := ⟨false, "no route to host"⟩

def refused : ConnectError := ⟨true, "formation auth failed (code 1)"⟩

/-- Every attempt gets the same answer. -/
def CliNet.always (answer : Except (Option ConnectError) Unit) : CliNet where
  lookupHost addr := .ok [addr]
  connect _ := answer

def nodeA : Watcher Net DialError := nodeWatcher "a" "alpha" some

def cliA : Watcher CliNet CliDialError := cliWatcher "a" "alpha" .ok "30s"

def refusedRound : Round Net := ⟨.peerFound twoAddresses, [], fun _ => .always (.error refused)⟩

def unreachableRound : Round Net :=
  ⟨.peerFound twoAddresses, [], fun _ => .always (.error noRoute)⟩

def secondConnects : Round Net :=
  ⟨.peerFound twoAddresses, [], fun i => .always (if i = 0 then .error noRoute else .ok ())⟩

def cliUnreachable : Round CliNet :=
  ⟨.peerFound twoAddresses, [], fun _ => .always (.error (some noRoute))⟩

theorem refused_peer_justified :
    Lts.Always nodeA.step nodeA.Justified Watcher.start [refusedRound] ∧
      "b" ∈ (nodeA.handle Watcher.start refusedRound).authFailed := by
  have hfair : Lts.Along nodeA.step (nodeA.Fair DialError.Blamed) Watcher.start [refusedRound] := by
    refine ⟨fun peer htarget _ => ?_, fun _ _ => trivial⟩
    obtain rfl : twoAddresses = peer := some.inj (Watcher.targets_eq_some_iff.1 htarget).1
    exact ⟨⟨.connect [refused, refused] refused, .head _, rfl⟩, by decide +kernel⟩
  exact ⟨((only_mismatches_listed_iff "a" "alpha").1 some [refusedRound]).2 hfair, by decide +kernel⟩

/-- A peer of the same formation that cannot be reached is listed and not dialled again, by both
watchers; so is one that its second address connects to. -/
theorem reachable_peer_listed : ((nodeA.handle Watcher.start unreachableRound).dialled =
        [("b", [.error (.connect [noRoute, noRoute] noRoute),
          .error (.connect [noRoute, noRoute] noRoute)])] ∧
      "b" ∈ (nodeA.handle Watcher.start unreachableRound).authFailed ∧
      nodeA.targets (nodeA.handle Watcher.start unreachableRound) unreachableRound = none) ∧
    ((nodeA.handle Watcher.start secondConnects).dialled =
        [("b", [.error (.connect [noRoute, noRoute] noRoute), .ok ()])] ∧
      "b" ∈ (nodeA.handle Watcher.start secondConnects).authFailed ∧
      nodeA.targets (nodeA.handle Watcher.start secondConnects) secondConnects = none) ∧
    "b" ∈ (cliA.handle Watcher.start cliUnreachable).authFailed ∧
      cliA.targets (cliA.handle Watcher.start cliUnreachable) cliUnreachable = none := by
  have hnone : ∀ {o : Option PeerInfo}, o.isNone = true → o = none := isNone_iff_eq_none.1
  refine ⟨⟨rfl, ?_, hnone ?_⟩, ⟨rfl, ?_, hnone ?_⟩, ?_, hnone ?_⟩ <;> decide +kernel

end PeatNode.Peers
