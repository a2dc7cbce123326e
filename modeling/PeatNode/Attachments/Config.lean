/-
# The directories that requests may read

`AttachmentConfig::from_raw` of `src/attachments/config.rs` reads the `name=path` entries of
`--attachment-root` when the node starts.  The node knows a root exactly by the entry with its
name, and reads only below the directory that the entry was resolved to (`configured_reads`).
-/

import PeatNode.Attachments.SendAttachments
import PeatNode.Peers.Dial

namespace PeatNode.Attachments

open UnixPath List
open Ledger (asBytes)
open Peers (splitOnce)

inductive ConfigError
  | rootMissingSeparator (spec : String)
  | rootInvalidName (name : String)
  | rootDuplicateName (name : String)
  | rootCanonicalise (name : String) (path : Path) (source : String)
  | rootNotDirectory (name : String) (path : Path)
  | inboxBadPath (path : Path) (source : String)
  | inboxNotDirectory (path resolved : Path)

/-- What the file system answers at a moment of the start. -/
structure StartupFiles where
  canonicalize : Path → Except String Path
  isDir : Path → Bool
  missing : Path → Bool
  createDirAll : Path → Except String Unit

def isValidRootName (name : String) : Bool :=
  name ≠ "" ∧ name.toList.all fun c => c.isAlphanum || c = '_' || c = '-'

variable (fs : StartupFiles)

def parseRootSpec (spec : String) : Except ConfigError (String × Path) :=
  match splitOnce '=' spec with
  | none => .error (.rootMissingSeparator spec)
  | some (name, rawPath) =>
    if isValidRootName name then
      match fs.canonicalize (asBytes rawPath) with
      | .error source => .error (.rootCanonicalise name (asBytes rawPath) source)
      | .ok canonical =>
        if fs.isDir canonical then .ok (name, canonical)
        else .error (.rootNotDirectory name canonical)
    else .error (.rootInvalidName name)

/-- `created` is what `create_dir_all` leaves. -/
def canonicaliseOrCreateInbox (created : StartupFiles) (rawPath : Path) :
    Except ConfigError Path := do
  if fs.missing rawPath then (fs.createDirAll rawPath).mapError (.inboxBadPath rawPath)
  let canonical ← (created.canonicalize rawPath).mapError (.inboxBadPath rawPath)
  if created.isDir canonical then .ok canonical else .error (.inboxNotDirectory rawPath canonical)

/-- A turn of the loop of `from_raw`. -/
def addRoot (roots : List (String × Path)) (spec : String) :
    Except ConfigError (List (String × Path)) :=
  if spec = "" then .ok roots
  else do
    let root ← parseRootSpec fs spec
    if (roots.lookup root.1).isSome then .error (.rootDuplicateName root.1)
    else .ok (root :: roots)

/-- The limits are taken over as they are. -/
def fromRaw (created : StartupFiles) (rawRoots : List String) (inboxPath : Option Path)
    (limits : AttachmentConfig) : Except ConfigError (AttachmentConfig × Option Path) := do
  let roots ← rawRoots.foldlM (addRoot fs) []
  let inbox ← inboxPath.mapM (canonicaliseOrCreateInbox fs created)
  return ({ limits with roots }, inbox)

/-- The entry gives the name to the directory. -/
def Configures (spec name : String) (root : Path) : Prop :=
  isValidRootName name ∧ fs.isDir root ∧
    ∃ path, splitOnce '=' spec = some (name, path) ∧ fs.canonicalize (asBytes path) = .ok root

variable {fs} {spec name : String} {root : Path}

theorem parseRootSpec_eq_ok_iff :
    parseRootSpec fs spec = .ok (name, root) ↔ Configures fs spec name root := by
  unfold parseRootSpec Configures
  constructor
  · intro h
    split at h
    · cases h
    · next name' path hsplit =>
      split_ifs at h with hvalid
      split at h
      · cases h
      · next canonical hcanonical =>
        split_ifs at h with hdir
        cases h
        exact ⟨hvalid, hdir, path, hsplit, hcanonical⟩
  · rintro ⟨hvalid, hdir, path, hsplit, hcanonical⟩
    simp [hsplit, hvalid, hcanonical, hdir]

theorem lookup_addRoots {roots roots' : List (String × Path)} {specs : List String}
    (h : specs.foldlM (addRoot fs) roots = .ok roots') :
    roots'.lookup name = some root ↔
      roots.lookup name = some root ∨ ∃ spec ∈ specs, Configures fs spec name root := by
  induction specs generalizing roots with
  | nil =>
    cases h
    simp
  | cons spec specs ih =>
    rw [foldlM_cons] at h
    obtain ⟨roots₁, hadd, h⟩ := bind_eq_ok.1 h
    rw [ih h, exists_mem_cons_iff, ← or_assoc]
    refine or_congr_left ?_
    unfold addRoot at hadd
    split_ifs at hadd with hempty
    · cases hadd
      have hnone : ¬ Configures fs "" name root := by
        rintro ⟨-, -, path, hsplit, -⟩
        cases hsplit
      rw [hempty, or_iff_left hnone]
    · obtain ⟨⟨name', root'⟩, hparse, hadd⟩ := bind_eq_ok.1 hadd
      split_ifs at hadd with hknown
      cases hadd
      rw [← parseRootSpec_eq_ok_iff, hparse, lookup_cons]
      by_cases hname : name = name'
      · subst hname
        simp [Option.not_isSome_iff_eq_none.1 hknown]
      · simp [Ne.symm hname, beq_eq_false_iff_ne.2 hname]

/-- **What a request reads was configured.** A root is known exactly by the entry with its name,
and every file of an accepted request, whatever the file system is by then, lies below the
directory that this entry was resolved to at the start. -/
theorem configured_reads {created : StartupFiles} {rawRoots : List String}
    {inboxPath inbox : Option Path} {limits cfg : AttachmentConfig}
    (hcfg : fromRaw fs created rawRoots inboxPath limits = .ok (cfg, inbox)) :
    (∀ name root, cfg.lookupRoot name = some root ↔
      ∃ spec ∈ rawRoots, Configures fs spec name root) ∧
    ∀ platform now req v, validateRequest platform cfg now req = .ok v → ∀ file ∈ v.files,
      ∃ spec ∈ rawRoots, ∃ root, Configures fs spec file.rootName root ∧
        components root <+: components file.absolutePath := by
  obtain ⟨roots, hroots, h⟩ := bind_eq_ok.1 hcfg
  obtain ⟨inbox', -, h⟩ := bind_eq_ok.1 h
  cases h
  have hlookup : ∀ name root, roots.lookup name = some root ↔
      ∃ spec ∈ rawRoots, Configures fs spec name root := by
    intro name root
    rw [lookup_addRoots hroots]
    simp
  have hpassed : ∀ now f file, Passed { limits with roots } now f file →
      ∃ spec ∈ rawRoots, ∃ root, Configures fs spec file.rootName root ∧
        components root <+: components file.absolutePath := by
    intro now f file hfile
    obtain ⟨root, hroot, -, hinside, -⟩ := hfile.located
    obtain ⟨spec, hspec, hconfigures⟩ := (hlookup f.rootName root).1 hroot
    have hname : file.rootName = f.rootName := congrArg WireIdentity.rootName hfile.wire
    exact ⟨spec, hspec, root, hname ▸ hconfigures, hinside⟩
  refine ⟨hlookup, fun platform now req v hv file hfile => ?_⟩
  obtain ⟨-, -, -, -, hall⟩ := validateRequest_spec hv
  obtain ⟨i, rfl⟩ := mem_iff_get.1 hfile
  exact hpassed now _ _ (hall.get (i.2.trans_eq hall.length_eq.symm) i.2)

def allDirectories : StartupFiles := ⟨.ok, fun _ => true, fun _ => false, fun _ => .ok ()⟩

/-- An empty entry and one that names a directory. -/
theorem configured_outbox :
    ∃ spec ∈ ["", "outbox=/"], Configures allDirectories spec "outbox" [sep] := by
  have hcfg : fromRaw allDirectories allDirectories ["", "outbox=/"] none plainConfig =
      .ok (plainConfig, none) := by rfl
  exact ((configured_reads hcfg).1 "outbox" [sep]).1 rfl

end PeatNode.Attachments
