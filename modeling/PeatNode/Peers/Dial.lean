/-
# Dialling a peer

`dial_and_attach` of `src/node.rs` and `connect_peer` of `crates/peat-cli/src/join.rs`: resolve the
addresses, connect with up to three attempts and report the error of the last one.  What the network
answers is an input (`Net`, `CliNet`).

The mDNS watchers look for words in the text of the error (`Permanent`), and that of a connection
that failed three times starts with one (`permanent_connect`).
-/

import Mathlib.Data.List.DropRight
import Mathlib.Data.List.Infix
import Mathlib.Data.String.Basic

namespace PeatNode.Peers

/-- How to reach a peer and when to try again; times are in seconds. -/
structure PeerRegistration where
  addresses : List String
  relayUrl : String
  nextAttempt : ℕ
  backoff : ℕ
deriving DecidableEq

/-- In seconds. -/
def reconnectBackoffMin : ℕ := 5

def reconnectBackoffMax : ℕ := 120

/-- An error of `connect_and_authenticate`. -/
structure ConnectError where
  rejected : Bool
  text : String
deriving DecidableEq

def connectRetryAttempts : ℕ := 3

/-- The errors of the earlier attempts and the last. -/
def connectLoop {E : Type*} (answer : ℕ → Except E Unit) : ℕ → List E → Except (List E × E) Unit
  | 0, earlier =>
    match answer (earlier.length + 1) with
    | .ok () => .ok ()
    | .error e => .error (earlier, e)
  | left + 1, earlier =>
    match answer (earlier.length + 1) with
    | .ok () => .ok ()
    | .error e => connectLoop answer left (earlier ++ [e])

/-! ### The node -/

/-- What the network answers to a dial of the node. -/
structure Net where
  lookupHost : String → Except String (List String)
  parseRelay : String → Except String Unit
  connect : ℕ → Except ConnectError Unit

inductive DialError
  | resolve (addr error : String)
  | noAddresses (addr : String)
  | invalidRelay (url error : String)
  | connect (earlier : List ConnectError) (last : ConnectError)
deriving DecidableEq

namespace DialError

def text : DialError → String
  | .resolve addr error => "resolve `" ++ addr ++ "`: " ++ error
  | .noAddresses addr => "no addresses resolved for `" ++ addr ++ "`"
  | .invalidRelay url error => "invalid relay URL `" ++ url ++ "`: " ++ error
  | .connect earlier last =>
    "connect_and_authenticate failed after " ++ toString (earlier.length + 1) ++ " attempts: " ++
      last.text

/-- Refused by the formation handshake. -/
def rejected : DialError → Bool
  | .resolve _ _ | .noAddresses _ | .invalidRelay _ _ => false
  | .connect earlier last => (last :: earlier).any (·.rejected)

end DialError

/-- What is not empty resolves. -/
def resolveAddresses (net : Net) : List String → Except DialError Unit
  | [] => .ok ()
  | addr :: addrs =>
    if addr = "" then resolveAddresses net addrs
    else
      match net.lookupHost addr with
      | .error e => .error (.resolve addr e)
      | .ok resolved =>
        if resolved = [] then .error (.noAddresses addr) else resolveAddresses net addrs

def checkRelay (net : Net) (url : String) : Except DialError Unit :=
  if url = "" then .ok () else (net.parseRelay url).mapError (.invalidRelay url)

/-- Up to the attachment. -/
def dialAndAttach (net : Net) (registration : PeerRegistration) : Except DialError Unit :=
  match resolveAddresses net registration.addresses with
  | .error e => .error e
  | .ok () =>
    match checkRelay net registration.relayUrl with
    | .error e => .error e
    | .ok () =>
      (connectLoop net.connect (connectRetryAttempts - 1) []).mapError fun e =>
        .connect e.1 e.2

theorem connectLoop_eq_error_iff :
    connectLoop answer (connectRetryAttempts - 1) [] = .error (earlier, last) ↔
      ∃ first second, earlier = [first, second] ∧ answer 1 = .error first ∧
        answer 2 = .error second ∧ answer 3 = .error last := by
  simp only [connectRetryAttempts, connectLoop]
  cases answer 1 with
  | ok => simp
  | error first =>
    cases h₂ : answer 2 with
    | ok => simp [h₂]
    | error second =>
      cases h₃ : answer 3 with
      | ok => simp [h₂, h₃]
      | error third => simp [h₂, h₃, eq_comm]

variable {earlier : List ConnectError} {last : ConnectError}

theorem resolveAddresses_ne_connect :
    resolveAddresses net addrs ≠ .error (.connect earlier last) := by
  induction addrs with
  | nil => simp [resolveAddresses]
  | cons addr addrs ih =>
    unfold resolveAddresses
    by_cases haddr : addr = ""
    · rwa [if_pos haddr]
    · rw [if_neg haddr]
      cases net.lookupHost addr with
      | error e => simp
      | ok resolved =>
        by_cases hnone : resolved = []
        · simp [hnone]
        · simpa [hnone] using ih

theorem checkRelay_ne_connect : checkRelay net url ≠ .error (.connect earlier last) := by
  unfold checkRelay
  by_cases hurl : url = ""
  · simp [hurl]
  · cases net.parseRelay url <;> simp [hurl, Except.mapError]

/-- **A dial fails to connect** exactly if the addresses and the relay are fine and three attempts
fail; the error keeps them. -/
theorem dialAndAttach_eq_connect_iff :
    dialAndAttach net registration = .error (.connect earlier last) ↔
      resolveAddresses net registration.addresses = .ok () ∧
        checkRelay net registration.relayUrl = .ok () ∧
        ∃ first second, earlier = [first, second] ∧ net.connect 1 = .error first ∧
          net.connect 2 = .error second ∧ net.connect 3 = .error last := by
  rw [← connectLoop_eq_error_iff, dialAndAttach]
  cases haddrs : resolveAddresses net registration.addresses with
  | error e =>
    simp only [reduceCtorEq, false_and, iff_false]
    rw [← haddrs]
    exact resolveAddresses_ne_connect
  | ok =>
    cases hrelay : checkRelay net registration.relayUrl with
    | error e =>
      simp only [reduceCtorEq, false_and, and_false, iff_false]
      rw [← hrelay]
      exact checkRelay_ne_connect
    | ok =>
      cases hloop : connectLoop net.connect (connectRetryAttempts - 1) [] with
      | ok => simp [Except.mapError]
      | error e => simp [Except.mapError, Prod.ext_iff]

/-- Every attempt gets the same answer. -/
def Net.always (answer : Except ConnectError Unit) : Net where
  lookupHost addr := .ok [addr]
  parseRelay _ := .ok ()
  connect _ := answer

theorem resolveAddresses_always (answer : Except ConnectError Unit) (addrs : List String) :
    resolveAddresses (.always answer) addrs = .ok () := by
  induction addrs with
  | nil => rfl
  | cons addr addrs ih => simpa [resolveAddresses, Net.always] using ih

theorem checkRelay_always (answer : Except ConnectError Unit) (url : String) :
    checkRelay (.always answer) url = .ok () := by
  simp [checkRelay, Net.always, Except.mapError]

theorem dialAndAttach_always_ok (registration : PeerRegistration) :
    dialAndAttach (.always (.ok ())) registration = .ok () := by
  have hloop : connectLoop (Net.always (.ok ())).connect (connectRetryAttempts - 1) [] = .ok () := rfl
  rw [dialAndAttach, resolveAddresses_always, checkRelay_always, hloop]
  rfl

theorem dialAndAttach_always_error (e : ConnectError) (registration : PeerRegistration) :
    dialAndAttach (.always (.error e)) registration = .error (.connect [e, e] e) := by
  exact dialAndAttach_eq_connect_iff.2
    ⟨resolveAddresses_always _ _, checkRelay_always _ _, e, e, rfl, rfl, rfl, rfl⟩

/-! ### The command line tool -/

/-- What the network answers to the command line tool; an attempt without an error has timed out. -/
structure CliNet where
  lookupHost : String → Except String (List String)
  connect : ℕ → Except (Option ConnectError) Unit

inductive CliDialError
  | noSeparator (spec : String)
  | peerId (id error : String)
  | resolve (addr peer error : String)
  | noIpv4 (addr : String)
  | connect (peer : String) (earlier : List (Option ConnectError)) (last : ConnectError)
  | timedOut (peer timeout : String) (earlier : List (Option ConnectError))
deriving DecidableEq

namespace CliDialError

/-- The `Display` of the `CliError`. -/
def text : CliDialError → String
  | .noSeparator spec =>
    "malformed request: peer spec `" ++ spec ++ "`: expected `endpoint_id@host:port` form"
  | .peerId id error => "malformed request: peer id `" ++ id ++ "`: " ++ error
  | .resolve addr peer error => "resolve `" ++ addr ++ "` for peer `" ++ peer ++ "`: " ++ error
  | .noIpv4 addr =>
    "no IPv4 addresses resolved for `" ++ addr ++ "` (got only IPv6 candidates?)"
  | .connect peer earlier last =>
    "connect/auth to `" ++ peer ++ "` failed after " ++ toString (earlier.length + 1) ++
      " attempts: " ++ last.text
  | .timedOut peer timeout earlier =>
    "connect to `" ++ peer ++ "` timed out after " ++ timeout ++ " (attempt " ++
      toString (earlier.length + 1) ++ ")"

def rejected : CliDialError → Bool
  | .noSeparator _ | .peerId _ _ | .resolve _ _ _ | .noIpv4 _ => false
  | .connect _ earlier last => (some last :: earlier).any fun e => e.any (·.rejected)
  | .timedOut _ _ earlier => earlier.any fun e => e.any (·.rejected)

end CliDialError

def splitOnce (c : Char) (s : String) : Option (String × String) :=
  match s.toList.span (· ≠ c) with
  | (_, []) => none
  | (before, _ :: after) => some (String.ofList before, String.ofList after)

/-- The text is split at the first `c`. -/
theorem splitOnce_eq_some {c : Char} {s before after : String} :
    splitOnce c s = some (before, after) ↔
      s.toList = before.toList ++ c :: after.toList ∧ c ∉ before.toList := by
  unfold splitOnce
  rw [List.span_eq_takeWhile_dropWhile]
  constructor
  · intro hsplit
    cases hdrop : s.toList.dropWhile (· ≠ c) with
    | nil =>
      rw [hdrop] at hsplit
      cases hsplit
    | cons d rest =>
      rw [hdrop] at hsplit
      cases hsplit
      have hne : s.toList.dropWhile (· ≠ c) ≠ [] := by rw [hdrop]; exact List.cons_ne_nil _ _
      have hhead := List.head_dropWhile_not (fun d : Char => decide (d ≠ c)) hne
      obtain rfl : d = c := by
        simpa only [hdrop, List.head_cons, decide_eq_false_iff_not, not_not] using hhead
      simp only [String.toList_ofList]
      refine ⟨by rw [← hdrop, List.takeWhile_append_dropWhile], fun hmem => ?_⟩
      simpa using List.mem_takeWhile_imp hmem
  · rintro ⟨hs, hbefore⟩
    have hall : ∀ d ∈ before.toList, decide (d ≠ c) = true := by
      intro d hd
      have hne : d ≠ c := fun heq => hbefore (heq ▸ hd)
      exact decide_eq_true hne
    rw [hs, List.takeWhile_append_of_pos hall, List.dropWhile_append_of_pos hall]
    simp

/-- `parseId` reads an endpoint id. -/
def parsePeerSpec (parseId : String → Except String String) (spec : String) :
    Except CliDialError (String × String) :=
  match splitOnce '@' spec with
  | none => .error (.noSeparator spec)
  | some (id, addr) =>
    match parseId id with
    | .error e => .error (.peerId id e)
    | .ok peer => .ok (peer, addr)

/-- Version 6 is written in brackets. -/
def isIpv4 (socket : String) : Bool := socket.toList.head? ≠ some '['

/-- `connect_peer` of the command line tool. -/
def connectPeer (parseId : String → Except String String) (timeout : String) (net : CliNet)
    (spec : String) : Except CliDialError Unit :=
  match parsePeerSpec parseId spec with
  | .error e => .error e
  | .ok (peer, addr) =>
    match net.lookupHost addr with
    | .error e => .error (.resolve addr peer e)
    | .ok resolved =>
      if resolved.any isIpv4 then
        (connectLoop net.connect (connectRetryAttempts - 1) []).mapError fun e =>
          match e.2 with
          | some last => .connect peer e.1 last
          | none => .timedOut peer timeout e.1
      else .error (.noIpv4 addr)

/-! ### What the text of an error says -/

def Contains (word text : String) : Prop := word.toList <:+: text.toList
deriving Decidable

/-- Taken for another formation key. -/
def Permanent (text : String) : Prop :=
  Contains "formation" text ∨ Contains "mismatch" text ∨ Contains "auth" text
deriving Decidable

theorem Contains.append (h : Contains word text) (rest : String) :
    Contains word (text ++ rest) := by
  rw [Contains, String.toList_append]
  exact h.trans (List.prefix_append _ _).isInfix

theorem Permanent.append (h : Permanent text) (rest : String) : Permanent (text ++ rest) := by
  rcases h with h | h | h
  · exact .inl (h.append rest)
  · exact .inr (.inl (h.append rest))
  · exact .inr (.inr (h.append rest))

/-- A connection of the node that failed three times always looks permanent. -/
theorem permanent_connect (earlier : List ConnectError) (last : ConnectError) :
    Permanent (DialError.connect earlier last).text := by
  have hname : Permanent "connect_and_authenticate failed after " := by decide
  exact ((hname.append _).append _).append _

theorem permanent_cliConnect (peer : String) (earlier : List (Option ConnectError))
    (last : ConnectError) : Permanent (CliDialError.connect peer earlier last).text := by
  have hname : Permanent "connect/auth to `" := by decide
  exact ((((hname.append _).append _).append _).append _).append _

/-- The error puts the peer on the list, whoever is to blame: the connection failed, or a text
from elsewhere has the words. -/
def DialError.Blamed : DialError → Prop
  | .connect _ _ => True
  | e => Permanent e.text

theorem DialError.permanent_iff (e : DialError) : Permanent e.text ↔ e.Blamed := by
  cases e with
  | connect earlier last => exact iff_true_intro (permanent_connect earlier last)
  | resolve | noAddresses | invalidRelay => rfl

/-- As for the node; a last attempt that timed out is blamed only where the texts of the id and of
the timeout have the words. -/
def CliDialError.Blamed : CliDialError → Prop
  | .connect _ _ _ => True
  | e => Permanent e.text

theorem CliDialError.permanent_iff (e : CliDialError) : Permanent e.text ↔ e.Blamed := by
  cases e with
  | connect peer earlier last => exact iff_true_intro (permanent_cliConnect peer earlier last)
  | noSeparator | peerId | resolve | noIpv4 | timedOut => rfl

end PeatNode.Peers
