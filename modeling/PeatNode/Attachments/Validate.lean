/-
# Checking a request

`validate_request` of `src/attachments/validate.rs`: the rules that need no bytes
of a file.  The file system is what `canonicalize` and `metadata` answer at the
moment of the request, so the same request may pass today and fail tomorrow.
-/

import PeatNode.Lib.UnixPath
import PeatNode.Node.StoreCipher

namespace PeatNode.Attachments

open UnixPath
open Ledger (asBytes)

inductive ErrorCode
  | invalidArgument
  | resourceExhausted
  | failedPrecondition
  | alreadyExists
  | notFound
  | unimplemented
  | internal
deriving DecidableEq

structure ConnectError where
  code : ErrorCode
  message : String
deriving DecidableEq

/-! ### Requests and configuration -/

structure FileSpec where
  rootName : String
  relativePath : String
  sizeBytes : UInt64
  sha256 : List UInt8
  contentType : Option String
  displayName : Option String
deriving DecidableEq

inductive ScopeSpec
  | allNodes
  | nodeList (nodeIds : List String)
  | formation
  | capable
deriving DecidableEq

inductive AttachmentPriority
  | unspecified
  | bulk
  | low
  | routine
  | priority
  | critical
deriving DecidableEq

inductive AttachmentPriorityCli
  | bulk
  | low
  | routine
  | priority
  | critical
deriving DecidableEq

structure SendAttachmentsRequest where
  files : List FileSpec
  scope : Option (Option ScopeSpec)
  priority : Option AttachmentPriority
  bundleId : Option String
deriving DecidableEq

structure AttachmentConfig where
  roots : List (String × Path)
  maxFileBytes : UInt64
  maxBundleBytes : UInt64
  maxFilesPerBundle : ℕ
  maxNodeListLen : ℕ
  maxConcurrentDistributions : ℕ
  queueWhenFull : Bool
  defaultPriority : AttachmentPriorityCli
  handleRetentionSecs : ℕ
  maxKnownBundles : ℕ
deriving DecidableEq

def AttachmentConfig.hasRoots (cfg : AttachmentConfig) : Bool := !cfg.roots.isEmpty

def AttachmentConfig.lookupRoot (cfg : AttachmentConfig) (name : String) : Option Path :=
  cfg.roots.lookup name

structure Metadata where
  isFile : Bool
  len : UInt64
deriving DecidableEq

/-- What the file system answers at one moment. -/
structure FileSystem where
  canonicalize : Path → Except String Path
  metadata : Path → Except String Metadata

/-- The library functions: how a path and a time are shown, and the content address of a blob. -/
structure Platform where
  display : Path → String
  debugTime : ℤ → String
  contentHash : List UInt8 → String

/-! ### What passes -/

inductive ValidatedScope
  | allNodes
  | nodeList (nodeIds : List String)
deriving DecidableEq

/-- The 32 raw bytes of a SHA-256. -/
abbrev Digest := { bytes : List UInt8 // bytes.length = 32 }

structure ValidatedFile where
  fileIndex : ℕ
  absolutePath : Path
  rootName : String
  relativePath : String
  sizeBytes : UInt64
  sha256 : Digest
  contentType : Option String
  displayName : Option String
deriving DecidableEq

structure ValidatedBundle where
  files : List ValidatedFile
  scope : ValidatedScope
  bundleId : Option String
deriving DecidableEq

/-! ### The rules -/

section Rules

variable (platform : Platform) (cfg : AttachmentConfig) (fs : FileSystem)

def validateScope (scope : Option (Option ScopeSpec)) : Except ConnectError ValidatedScope :=
  match scope with
  | none => .error ⟨.invalidArgument,
      "scope: required (no silent fallback to AllNodes — a caller bug that drops scope must not fan a bundle out to every reachable peer)"⟩
  | some none => .error ⟨.invalidArgument,
      "scope: oneof variant required — got DistributionScopeSpec with unset variant"⟩
  | some (some .allNodes) => .ok .allNodes
  | some (some (.nodeList nodeIds)) =>
    if nodeIds.isEmpty then
      .error ⟨.invalidArgument, "scope.node_list.node_ids: must contain at least one entry"⟩
    else if cfg.maxNodeListLen < nodeIds.length then
      .error ⟨.resourceExhausted, "scope.node_list.node_ids: " ++ toString nodeIds.length ++
        " entries exceeds max_node_list_len=" ++ toString cfg.maxNodeListLen⟩
    else .ok (.nodeList nodeIds)
  | some (some .formation) => .error ⟨.failedPrecondition,
      "scope.formation: formation resolution is not implemented in v1 — back FormationScope with a live formation-membership lookup before re-enabling"⟩
  | some (some .capable) => .error ⟨.failedPrecondition,
      "scope.capable: capability vocabulary is deferred to a follow-on ADR — CapableScope is a reserved-but-rejected v1 variant"⟩

def fieldPath (index : ℕ) (suffix : String) : String :=
  "files[" ++ toString index ++ "]." ++ suffix

/-- Rule 4: no component may leave the root. -/
def checkComponents (index : ℕ) : List Component → Except ConnectError Unit
  | [] => .ok ()
  | .parentDir :: _ => .error ⟨.invalidArgument,
      fieldPath index "relative_path" ++ ": must not contain `..` path component"⟩
  | .rootDir :: _ => .error ⟨.invalidArgument,
      fieldPath index "relative_path" ++ ": must be a plain relative path inside the root"⟩
  | .curDir :: comps | .normal _ :: comps => checkComponents index comps

/-- Rules 5 to 8, on the joined path. -/
def resolveFile (index : ℕ) (f : FileSpec) (root : Path) : Except ConnectError Path :=
  let joined := join root (asBytes f.relativePath)
  match fs.canonicalize joined with
  | .error e => .error ⟨.invalidArgument, fieldPath index "relative_path" ++ ": cannot resolve `" ++
      platform.display joined ++ "`: " ++ e⟩
  | .ok canonical =>
    if ¬ components root <+: components canonical then
      .error ⟨.invalidArgument, fieldPath index "relative_path" ++ ": resolved path `" ++
        platform.display canonical ++ "` escapes root `" ++ platform.display root ++ "` (symlink escape)"⟩
    else match fs.metadata canonical with
      | .error e => .error ⟨.invalidArgument, fieldPath index "relative_path" ++
          ": stat failed for `" ++ platform.display canonical ++ "`: " ++ e⟩
      | .ok metadata =>
        if ¬ metadata.isFile then
          .error ⟨.invalidArgument, fieldPath index "relative_path" ++ ": `" ++
            platform.display canonical ++ "` is not a regular file"⟩
        else if metadata.len ≠ f.sizeBytes then
          .error ⟨.invalidArgument, fieldPath index "size_bytes" ++ ": on-disk size " ++
            toString metadata.len ++ " ≠ declared size_bytes " ++ toString f.sizeBytes⟩
        else if cfg.maxFileBytes < f.sizeBytes then
          .error ⟨.resourceExhausted, fieldPath index "size_bytes" ++ ": " ++
            toString f.sizeBytes ++ " bytes exceeds max_file_bytes=" ++
            toString cfg.maxFileBytes⟩
        else .ok canonical

def validateFile (index : ℕ) (f : FileSpec) : Except ConnectError ValidatedFile :=
  if hlen : f.sha256.length = 32 then
    match cfg.lookupRoot f.rootName with
    | none => .error ⟨.invalidArgument, fieldPath index "root_name" ++ ": unknown root `" ++
        f.rootName ++ "` — not in --attachment-root allowlist"⟩
    | some root =>
      if f.relativePath = "" then
        .error ⟨.invalidArgument, fieldPath index "relative_path" ++ ": must not be empty"⟩
      else if isAbsolute (asBytes f.relativePath) then
        .error ⟨.invalidArgument, fieldPath index "relative_path" ++
          ": must not start with `/` (paths are relative to the root)"⟩
      else do
        checkComponents index (components (asBytes f.relativePath))
        let canonical ← resolveFile platform cfg fs index f root
        return {
          fileIndex := index
          absolutePath := canonical
          rootName := f.rootName
          relativePath := f.relativePath
          sizeBytes := f.sizeBytes
          sha256 := ⟨f.sha256, hlen⟩
          contentType := f.contentType
          displayName := f.displayName }
  else
    .error ⟨.invalidArgument, fieldPath index "sha256" ++
      ": sha256 must be exactly 32 raw bytes (NOT hex-encoded), got " ++
      toString f.sha256.length ++ " bytes"⟩

/-- From `index` on, to the first failure. -/
def validateFiles : ℕ → List FileSpec → Except ConnectError (List ValidatedFile)
  | _, [] => .ok []
  | index, f :: rest => do
      let file ← validateFile platform cfg fs index f
      let files ← validateFiles (index + 1) rest
      return file :: files

/-- The sum of the sizes, unless it overflows. -/
def aggregateSize (files : List FileSpec) : Option UInt64 :=
  files.foldlM (fun total f =>
    if total.toNat + f.sizeBytes.toNat < UInt64.size then some (total + f.sizeBytes) else none) 0

def validateRequest (req : SendAttachmentsRequest) : Except ConnectError ValidatedBundle :=
  if req.files.isEmpty then
    .error ⟨.invalidArgument, "files: bundle must contain at least one file"⟩
  else if cfg.maxFilesPerBundle < req.files.length then
    .error ⟨.resourceExhausted, "files: bundle has " ++ toString req.files.length ++
      " entries, exceeds max_files_per_bundle=" ++ toString cfg.maxFilesPerBundle⟩
  else match aggregateSize req.files with
    | none => .error ⟨.resourceExhausted, "files: aggregate size_bytes overflows u64"⟩
    | some total =>
      if cfg.maxBundleBytes < total then
        .error ⟨.resourceExhausted, "files: aggregate size " ++ toString total ++
          " exceeds max_bundle_bytes=" ++ toString cfg.maxBundleBytes⟩
      else do
        let scope ← validateScope cfg req.scope
        let files ← validateFiles platform cfg fs 0 req.files
        return ⟨files, scope, req.bundleId⟩

end Rules

/-! ### What passes is what was asked -/

/-- What makes two files the same file, as a request carries it. -/
structure WireIdentity where
  rootName : String
  relativePath : String
  sizeBytes : UInt64
  sha256 : List UInt8
deriving DecidableEq

def FileSpec.wire (f : FileSpec) : WireIdentity :=
  ⟨f.rootName, f.relativePath, f.sizeBytes, f.sha256⟩

def ValidatedFile.wire (file : ValidatedFile) : WireIdentity :=
  ⟨file.rootName, file.relativePath, file.sizeBytes, file.sha256.1⟩

theorem bind_eq_ok {x : Except ε α} {k : α → Except ε β} {b : β} :
    x >>= k = .ok b ↔ ∃ a, x = .ok a ∧ k a = .ok b := by
  cases x with
  | error e | ok a => simp [bind, Except.bind]

variable {platform : Platform} {cfg : AttachmentConfig} {fs : FileSystem}

/-- A file that passes is the requested one, a regular file of the declared size below its root
(the root itself only if that is no directory). -/
structure Passed (cfg : AttachmentConfig) (fs : FileSystem) (f : FileSpec) (file : ValidatedFile) :
    Prop where
  wire : file.wire = f.wire
  located : ∃ root, cfg.lookupRoot f.rootName = some root ∧
    fs.canonicalize (join root (asBytes f.relativePath)) = .ok file.absolutePath ∧
    components root <+: components file.absolutePath ∧
    (file.absolutePath = root → fs.metadata root = .ok ⟨true, file.sizeBytes⟩)
  regular : fs.metadata file.absolutePath = .ok ⟨true, file.sizeBytes⟩
  small : file.sizeBytes ≤ cfg.maxFileBytes

theorem validateFile_spec {index : ℕ} {f : FileSpec} {file : ValidatedFile}
    (h : validateFile platform cfg fs index f = .ok file) :
    file.fileIndex = index ∧ Passed cfg fs f file := by
  unfold validateFile at h
  split at h
  · split at h
    · nomatch h
    · next root hroot =>
      split_ifs at h
      obtain ⟨-, -, h⟩ := bind_eq_ok.1 h
      obtain ⟨canonical, hresolve, h⟩ := bind_eq_ok.1 h
      cases h
      unfold resolveFile at hresolve
      grind [Passed, Metadata, ValidatedFile.wire, FileSpec.wire]
  · nomatch h

theorem validateFiles_spec {index : ℕ} {specs : List FileSpec} {files : List ValidatedFile}
    (h : validateFiles platform cfg fs index specs = .ok files) :
    files.map ValidatedFile.fileIndex = List.range' index files.length ∧
      List.Forall₂ (Passed cfg fs) specs files := by
  induction specs generalizing index files with
  | nil =>
    cases h
    exact ⟨rfl, .nil⟩
  | cons f rest ih =>
    obtain ⟨file, hfile, h⟩ := bind_eq_ok.1 h
    obtain ⟨tail, htail, h⟩ := bind_eq_ok.1 h
    cases h
    obtain ⟨hindex, hpassed⟩ := validateFile_spec hfile
    obtain ⟨hindices, hrest⟩ := ih htail
    exact ⟨by rw [List.map_cons, hindex, hindices, List.length_cons, List.range'_succ],
      .cons hpassed hrest⟩

variable {req : SendAttachmentsRequest} {v : ValidatedBundle}

/-- A bundle that passes came through every rule. -/
theorem validateRequest_spec (h : validateRequest platform cfg fs req = .ok v) :
    req.files ≠ [] ∧ req.files.length ≤ cfg.maxFilesPerBundle ∧
      (∃ total, aggregateSize req.files = some total ∧ total ≤ cfg.maxBundleBytes) ∧
      v.files.map ValidatedFile.fileIndex = List.range v.files.length ∧
      List.Forall₂ (Passed cfg fs) req.files v.files := by
  unfold validateRequest at h
  split_ifs at h with hempty hmany
  split at h
  · nomatch h
  · next total htotal =>
    split_ifs at h with hlarge
    obtain ⟨scope, -, h⟩ := bind_eq_ok.1 h
    obtain ⟨files, hfiles, h⟩ := bind_eq_ok.1 h
    cases h
    obtain ⟨hindices, hpassed⟩ := validateFiles_spec hfiles
    rw [← List.range_eq_range'] at hindices
    exact ⟨by simpa using hempty, Nat.not_lt.1 hmany, ⟨total, htotal, UInt64.not_lt.1 hlarge⟩,
      hindices, hpassed⟩

/-- **What passes is the requested list**, whatever the file system said. -/
theorem validateRequest_wire (h : validateRequest platform cfg fs req = .ok v) :
    v.files.map ValidatedFile.wire = req.files.map FileSpec.wire := by
  obtain ⟨-, -, -, -, hpassed⟩ := validateRequest_spec h
  generalize req.files = specs, v.files = files at hpassed ⊢
  induction hpassed with
  | nil => rfl
  | cons hfile _ ih => rw [List.map_cons, List.map_cons, hfile.wire, ih]

theorem validateRequest_ne_nil (h : validateRequest platform cfg fs req = .ok v) :
    v.files ≠ [] := by
  obtain ⟨hne, -, -, -, hpassed⟩ := validateRequest_spec h
  rintro hnil
  rw [hnil] at hpassed
  exact hne (List.forall₂_nil_right_iff.1 hpassed)

/-- Without a root nothing passes. -/
theorem hasRoots_of_validateRequest (h : validateRequest platform cfg fs req = .ok v) :
    cfg.hasRoots = true := by
  obtain ⟨hne, -, -, -, hpassed⟩ := validateRequest_spec h
  generalize req.files = specs, v.files = files at hne hpassed
  cases hpassed with
  | nil => exact absurd rfl hne
  | cons hfile _ =>
    obtain ⟨root, hroot, -⟩ := hfile.located
    cases hroots : cfg.roots with
    | nil => simp [AttachmentConfig.lookupRoot, hroots] at hroot
    | cons r rs => simp [AttachmentConfig.hasRoots, hroots]

end PeatNode.Attachments
