/-
# The identity of a node

A node derives its key from the formation's shared key and its name, and its peers derive its
endpoint id in the same way, by `derive_iroh_secret_seed` of `src/identity.rs` for peers with
fixed addresses and by `resolve_k8s_identity` of `src/node.rs` for pods.  Only the first one trims
the shared key; `identities_agree_iff` says on which keys the two agree.

HKDF, the curve and the text of an endpoint id are parameters.
-/

import PeatNode.Bridge.Config

namespace PeatNode.Identity

open Base64

open Bridge (trim isWhitespace)

/-- What becomes of a secret: the seed of a name (`derive_iroh_node_key`), its endpoint id, and
that as text. -/
structure Derivation (Seed EndpointId : Type) where
  seed : List UInt8 → String → Seed
  endpoint : Seed → EndpointId
  text : EndpointId → String

variable {Seed EndpointId : Type} [DecidableEq EndpointId] (d : Derivation Seed EndpointId)

def deriveIrohSecretSeed (sharedKey nodeId : String) : Except String (Option Seed) :=
  if trim sharedKey = "" then .ok none
  else match Base64.decode (trim sharedKey).toList with
    | some secret => .ok (some (d.seed secret nodeId))
    | none => .error "PEAT_NODE_SHARED_KEY is not valid base64"

def deriveEndpointId (sharedKey nodeId : String) : Except String String :=
  match deriveIrohSecretSeed d sharedKey nodeId with
  | .ok (some seed) => .ok (d.text (d.endpoint seed))
  | .ok none =>
    .error "a non-empty PEAT_NODE_SHARED_KEY is required to derive a deterministic identity"
  | .error e => .error e

inductive K8sIdentity (Seed : Type)
  | derived (seed : Seed)
  | missingPodName
  | emptySharedKey
  | invalidSharedKey
deriving DecidableEq

def resolveK8sIdentity (podName : Option String) (sharedKey : String) : K8sIdentity Seed :=
  match podName with
  | none => .missingPodName
  | some podName =>
    if podName = "" then .missingPodName
    else if sharedKey = "" then .emptySharedKey
    else match Base64.decode sharedKey.toList with
      | some secret => .derived (d.seed secret podName)
      | none => .invalidSharedKey

/-- Of `SidecarNode::new`; `none` is its panic. -/
def sharedKeyBytes (sharedKey : String) : Option (List UInt8) :=
  if sharedKey = "" then some [] else Base64.decode sharedKey.toList

/-- The fields of a discovered peer that are looked at. -/
structure Peer where
  nodeId : String
  addresses : List String

inductive K8sDialDecision (EndpointId : Type)
  | skipSelf
  | skipNoAddresses
  | skipAlreadyConnected
  | dial (id : EndpointId)

def k8sDialDecision (peer : Peer) (ourPodName : Option String) (sharedKeyBytes : List UInt8)
    (connected : List EndpointId) : K8sDialDecision EndpointId :=
  if ourPodName = some peer.nodeId then .skipSelf
  else if peer.addresses.isEmpty then .skipNoAddresses
  else
    let peerId := d.endpoint (d.seed sharedKeyBytes peer.nodeId)
    if peerId ∈ connected then .skipAlreadyConnected else .dial peerId

/-! ### Keys and white space -/

theorem forall_of_decode {P : Char → Prop} (hsextet : ∀ c n, sextet c = some n → P c)
    (hpad : P '=') (h : decode cs = some secret) : ∀ c ∈ cs, P c := by
  induction cs using decode.induct generalizing secret with
  | case1 => simp
  | _ => grind [decode, Option.map_eq_some_iff]

theorem isWhitespace_of_sextet (h : sextet c = some n) : isWhitespace c = false := by
  have hrange : 43 ≤ c.toNat ∧ c.toNat ≤ 122 := by
    unfold sextet at h
    split_ifs at h with hupper hlower hdigit hplus hslash
    · exact ⟨le_trans (by decide) hupper.1, le_trans hupper.2 (by decide)⟩
    · exact ⟨le_trans (by decide) hlower.1, le_trans hlower.2 (by decide)⟩
    · exact ⟨le_trans (by decide) hdigit.1, le_trans hdigit.2 (by decide)⟩
    · exact hplus ▸ by decide
    · exact hslash ▸ by decide
  simp only [isWhitespace, Bool.or_eq_false_iff, Bool.and_eq_false_iff, beq_eq_false_iff_ne,
    decide_eq_false_iff_not]
  omega

theorem trim_of_decode (h : decode key.toList = some secret) : trim key = key := by
  have hnone : ∀ c ∈ key.toList, ¬ isWhitespace c = true := fun c hc => by
    simpa using forall_of_decode (fun _ _ => isWhitespace_of_sextet) (by decide) h c hc
  have hleft : key.toList.dropWhile isWhitespace = key.toList := by
    cases hkey : key.toList with
    | nil => rfl
    | cons c cs => exact List.dropWhile_cons_of_neg (hnone c (by simp [hkey]))
  have hright : key.toList.rdropWhile isWhitespace = key.toList :=
    List.rdropWhile_eq_self_iff.2 fun hne => hnone _ (List.getLast_mem hne)
  rw [trim, hleft, hright, String.ofList_toList]

/-! ### The two front doors -/

def Agree (sharedKey name : String) : Prop :=
  (∀ seed, deriveIrohSecretSeed d sharedKey name = .ok (some seed) ↔
      resolveK8sIdentity d (some name) sharedKey = .derived seed) ∧
    (deriveIrohSecretSeed d sharedKey name = .ok none ↔
      resolveK8sIdentity d (some name) sharedKey = .emptySharedKey) ∧
    ((∃ e, deriveIrohSecretSeed d sharedKey name = .error e) ↔
      resolveK8sIdentity d (some name) sharedKey = .invalidSharedKey)

/-- **One identity per key and name**, exactly if the key has no white space around it, or is no
Base64 even without. What a pod dials with is then the id printed for the peer, exactly if the key
is not empty. -/
theorem identities_agree_iff (sharedKey : String) {name : String} (hname : name ≠ "") :
    (Agree d sharedKey name ↔ trim sharedKey = sharedKey ∨
        trim sharedKey ≠ "" ∧ Base64.decode (trim sharedKey).toList = none) ∧
      ∀ peer ourPodName connected secret id, sharedKeyBytes sharedKey = some secret →
        k8sDialDecision d peer ourPodName secret connected = .dial id →
        (deriveEndpointId d sharedKey peer.nodeId = .ok (d.text id) ↔ sharedKey ≠ "") := by
  constructor
  · by_cases htrim : trim sharedKey = sharedKey
    · refine iff_of_true ?_ (.inl htrim)
      by_cases hempty : sharedKey = ""
      · subst hempty
        simp [Agree, deriveIrohSecretSeed, resolveK8sIdentity, htrim, hname]
      · cases hdecode : decode sharedKey.toList <;>
          simp [Agree, deriveIrohSecretSeed, resolveK8sIdentity, htrim, hempty, hname, hdecode]
    · -- the pod does not get past the decoder
      have hdecode : decode sharedKey.toList = none := by
        by_contra hsome
        obtain ⟨secret, hsecret⟩ := Option.ne_none_iff_exists'.1 hsome
        exact htrim (trim_of_decode hsecret)
      have hempty : sharedKey ≠ "" := by
        rintro rfl
        exact htrim (by decide)
      rw [or_iff_right htrim]
      by_cases hnothing : trim sharedKey = ""
      · simp [Agree, deriveIrohSecretSeed, resolveK8sIdentity, hnothing, hempty, hname, hdecode]
      · cases htrimmed : decode (trim sharedKey).toList <;>
          simp [Agree, deriveIrohSecretSeed, resolveK8sIdentity, hnothing, hempty, hname, hdecode,
            htrimmed]
  · intro peer ourPodName connected secret id hsecret hdial
    have hid : d.endpoint (d.seed secret peer.nodeId) = id := by
      simp only [k8sDialDecision] at hdial
      split_ifs at hdial
      exact K8sDialDecision.dial.inj hdial
    by_cases hempty : sharedKey = ""
    · have hnothing : trim "" = "" := by decide
      simp [hempty, deriveEndpointId, deriveIrohSecretSeed, hnothing]
    · rw [sharedKeyBytes, if_neg hempty] at hsecret
      simp [deriveEndpointId, deriveIrohSecretSeed, trim_of_decode hsecret, hempty, hsecret, hid]

/-- The secret is the seed and the id. -/
def plain : Derivation (List UInt8) (List UInt8) := ⟨fun secret _ => secret, id, fun _ => ""⟩

theorem identities_agree_plain : Agree plain "KioqKg==" "node-a" :=
  (identities_agree_iff plain "KioqKg==" (by decide)).1.2 (.inl (by decide))

/-- **A key from a mounted file** ends in a line feed: with fixed peers it is a key, to a pod
none; and a key of blanks is empty to the one and invalid to the other. -/
theorem mounted_key_disagrees :
    deriveIrohSecretSeed plain "KioqKg==\n" "node-a" = .ok (some [42, 42, 42, 42]) ∧
      resolveK8sIdentity plain (some "node-a") "KioqKg==\n" = .invalidSharedKey ∧
      deriveIrohSecretSeed plain "  " "node-a" = .ok none ∧
      resolveK8sIdentity plain (some "node-a") "  " = .invalidSharedKey := by
  decide +kernel

end PeatNode.Identity
