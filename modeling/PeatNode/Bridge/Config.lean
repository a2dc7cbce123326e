/-
# The bridge configuration

`src/nats_bridge/config.rs`: the URL of the broker and the mappings `subject=collection` become a
validated configuration, or a list of issues.  `parse_mappings` reports a duplicate only of an
entry it has kept; the list is empty exactly if every entry is valid and no subject or collection
occurs twice (`parseFrom_iff`), and then the mappings are the entries in order
(`fromRaw_eq_enabled_iff`).

The URL parser and `Subject::validated` are parameters (`ClientLibrary`).
-/

import Mathlib.Data.List.DropRight
import PeatNode.Bridge.Deliverable
import PeatNode.Peers.Dial

namespace PeatNode.Bridge

open Egress Node List
open Peers (splitOnce)

/-! ### Issues -/

inductive BridgeConfigIssueKind
  | missingUrl
  | unsupportedUrlScheme
  | invalidUrl
  | missingUrlHost
  | urlPathNotAllowed
  | urlQueryNotAllowed
  | urlFragmentNotAllowed
  | invalidMappingDelimiter
  | emptySubject
  | emptyCollection
  | subjectContainsWhitespace
  | collectionContainsWhitespace
  | invalidSubject
  | subjectContainsWildcard
  | reservedSubject
  | invalidCollection
  | collectionTooLong
  | reservedCollection
  | duplicateSubject (originalIndex : ℕ)
  | duplicateCollection (originalIndex : ℕ)
deriving DecidableEq

/-- `BridgeConfigIssue`.  Mappings are counted from one. -/
structure BridgeConfigIssue where
  mappingIndex : Option ℕ
  kind : BridgeConfigIssueKind
deriving DecidableEq

/-! ### The endpoint -/

/-- What `parse_endpoint` reads of a `ServerAddr` and its URL. -/
structure ServerAddr where
  host : String
  hostStr : Option String
  path : String
  query : Option String
  fragment : Option String
  port : Option ℕ
  username : String
  password : Option String
deriving DecidableEq

/-- `ServerAddr::from_str` and `Subject::validated`. -/
structure ClientLibrary where
  parseServerAddr : String → Option ServerAddr
  validated : String → Bool

inductive EndpointScheme
  | nats
  | tls
deriving DecidableEq

def defaultNatsPort : ℕ := 4222

structure SanitizedEndpoint where
  scheme : EndpointScheme
  host : String
  port : ℕ
  authenticated : Bool
deriving DecidableEq

/-- The scheme a URL starts with. -/
def schemeOf (raw : String) : Option EndpointScheme :=
  if "nats://".toList.isPrefixOf raw.toList then some .nats
  else if "tls://".toList.isPrefixOf raw.toList then some .tls
  else none

def parseEndpoint (lib : ClientLibrary) (raw : String) :
    Except BridgeConfigIssueKind (ServerAddr × SanitizedEndpoint) :=
  match schemeOf raw with
  | none => .error .unsupportedUrlScheme
  | some scheme =>
    match lib.parseServerAddr raw with
    | none => .error .invalidUrl
    | some addr =>
      if addr.hostStr = none ∨ addr.host = "" then .error .missingUrlHost
      else if addr.path ≠ "" ∧ addr.path ≠ "/" then .error .urlPathNotAllowed
      else if addr.query ≠ none then .error .urlQueryNotAllowed
      else if addr.fragment ≠ none then .error .urlFragmentNotAllowed
      else .ok (addr, ⟨scheme, addr.host, addr.port.getD defaultNatsPort,
        addr.username ≠ "" ∨ addr.password ≠ none⟩)

/-! ### The mappings -/

/-- `char::is_whitespace`: the property `White_Space`. -/
def isWhitespace (c : Char) : Bool :=
  (9 ≤ c.toNat && c.toNat ≤ 13) || c.toNat == 0x20 || c.toNat == 0x85 || c.toNat == 0xa0 ||
    c.toNat == 0x1680 || (0x2000 ≤ c.toNat && c.toNat ≤ 0x200a) || c.toNat == 0x2028 ||
    c.toNat == 0x2029 || c.toNat == 0x202f || c.toNat == 0x205f || c.toNat == 0x3000

def trim (s : String) : String :=
  String.ofList ((s.toList.dropWhile isWhitespace).rdropWhile isWhitespace)

/-- `subject.split('.').next()`. -/
def firstToken (subject : String) : String := String.ofList (subject.toList.takeWhile (· ≠ '.'))

/-- A first token of the broker or the bridge. -/
def isReservedToken (token : String) : Bool :=
  token.toList.head? = some '$' || token = "_INBOX" || token = "_PEAT"

def subjectIssue (lib : ClientLibrary) (subject : String) : Option BridgeConfigIssueKind :=
  if subject = "" then some .emptySubject
  else if subject.toList.any isWhitespace then some .subjectContainsWhitespace
  else if lib.validated subject = false then some .invalidSubject
  else if subject.toList.any (fun c => c = '*' || c = '>') then some .subjectContainsWildcard
  else if isReservedToken (firstToken subject) then some .reservedSubject
  else none

def irohDistributionCollection : String := "file_distributions"

def collectionIssue (collection : String) : Option BridgeConfigIssueKind :=
  if collection = "" then some .emptyCollection
  else if collection.toList.any isWhitespace then some .collectionContainsWhitespace
  else if maxBridgeIdentityBytes < collection.utf8ByteSize then some .collectionTooLong
  else if validCollection collection = false then some .invalidCollection
  else if collection = irohDistributionCollection then some .reservedCollection
  else none

/-- The variables of `parse_mappings`. -/
structure MappingParser where
  mappings : List SubjectMapping
  subjects : List (String × ℕ)
  collections : List (String × ℕ)
  issues : List BridgeConfigIssue
deriving DecidableEq

namespace MappingParser

def report (p : MappingParser) (index : ℕ) (kinds : List BridgeConfigIssueKind) : MappingParser :=
  { p with issues := p.issues ++ kinds.map fun kind => ⟨some index, kind⟩ }

/-- In the order of the source; duplicates only among valid names. -/
def entryIssues (lib : ClientLibrary) (p : MappingParser) (subject collection : String) :
    List BridgeConfigIssueKind :=
  (subjectIssue lib subject).toList ++ (collectionIssue collection).toList ++
    (if subjectIssue lib subject = none then
      ((p.subjects.lookup subject).map .duplicateSubject).toList else []) ++
    (if collectionIssue collection = none then
      ((p.collections.lookup collection).map .duplicateCollection).toList else [])

/-- One turn of the loop of `parse_mappings`. -/
def parseEntry (lib : ClientLibrary) (p : MappingParser) (index : ℕ) (raw : String) :
    MappingParser :=
  if raw.toList.count '=' ≠ 1 then p.report index [.invalidMappingDelimiter]
  else
    match splitOnce '=' raw with
    | none => p
    | some (subject, collection) =>
      match p.entryIssues lib (trim subject) (trim collection) with
      | [] =>
        { p with
          mappings := p.mappings ++ [⟨trim subject, trim collection⟩]
          subjects := (trim subject, index) :: p.subjects
          collections := (trim collection, index) :: p.collections }
      | issues => p.report index issues

def parseFrom (lib : ClientLibrary) : MappingParser → ℕ → List String → MappingParser
  | p, _, [] => p
  | p, index, raw :: raws => parseFrom lib (p.parseEntry lib index raw) (index + 1) raws

end MappingParser

/-- `parse_mappings`, which adds to the issues so far. -/
def parseMappings (lib : ClientLibrary) (rawMappings : List String)
    (issues : List BridgeConfigIssue) : MappingParser :=
  MappingParser.parseFrom lib ⟨[], [], [], issues⟩ 1 rawMappings

/-! ### The configuration -/

structure EnabledBridgeConfig where
  serverAddr : ServerAddr
  endpoint : SanitizedEndpoint
  mappings : List SubjectMapping
deriving DecidableEq

inductive BridgeConfig
  | disabled
  | enabled (config : EnabledBridgeConfig)
deriving DecidableEq

/-- The endpoint, and the issues of its URL. -/
def parseUrl (lib : ClientLibrary) (natsUrl : Option String) (rawMappings : List String) :
    Option (ServerAddr × SanitizedEndpoint) × List BridgeConfigIssue :=
  match natsUrl with
  | some raw =>
    match parseEndpoint lib raw with
    | .ok endpoint => (some endpoint, [])
    | .error kind => (none, [⟨none, kind⟩])
  | none => (none, if rawMappings = [] then [] else [⟨none, .missingUrl⟩])

/-- `BridgeConfig::from_raw`. Its `expect`, the last line, cannot fail: mappings without an
endpoint have an issue. -/
def fromRaw (lib : ClientLibrary) (natsUrl : Option String) (rawMappings : List String) :
    Except (List BridgeConfigIssue) BridgeConfig :=
  let (endpoint, urlIssues) := parseUrl lib natsUrl rawMappings
  let parser := parseMappings lib rawMappings urlIssues
  if parser.issues ≠ [] then .error parser.issues
  else if rawMappings = [] then .ok .disabled
  else
    match endpoint with
    | some (serverAddr, endpoint) => .ok (.enabled ⟨serverAddr, endpoint, parser.mappings⟩)
    | none => .error []

/-! ### What is accepted -/

structure ValidUrl (lib : ClientLibrary) (raw : String) (scheme : EndpointScheme)
    (addr : ServerAddr) : Prop where
  scheme : schemeOf raw = some scheme
  parsed : lib.parseServerAddr raw = some addr
  host : addr.hostStr ≠ none ∧ addr.host ≠ ""
  path : addr.path = "" ∨ addr.path = "/"
  query : addr.query = none
  fragment : addr.fragment = none

def sanitized (scheme : EndpointScheme) (addr : ServerAddr) : SanitizedEndpoint :=
  ⟨scheme, addr.host, addr.port.getD defaultNatsPort, addr.username ≠ "" ∨ addr.password ≠ none⟩

variable {lib : ClientLibrary} {raw : String}

theorem parseEndpoint_eq_ok_iff :
    parseEndpoint lib raw = .ok (addr, endpoint) ↔
      ∃ scheme, ValidUrl lib raw scheme addr ∧ endpoint = sanitized scheme addr := by
  constructor
  · intro h
    unfold parseEndpoint at h
    split at h
    · cases h
    · rename_i scheme hscheme
      split at h
      · cases h
      · rename_i addr' hparse
        split_ifs at h with hhost hpath hquery hfragment
        cases h
        refine ⟨scheme, ⟨hscheme, hparse, not_or.1 hhost, ?_, not_not.1 hquery,
          not_not.1 hfragment⟩, rfl⟩
        tauto
  · rintro ⟨scheme, h, rfl⟩
    have hpath : ¬ (addr.path ≠ "" ∧ addr.path ≠ "/") := by
      have := h.path
      tauto
    simp only [parseEndpoint, h.scheme, h.parsed]
    rw [if_neg (not_or.2 h.host), if_neg hpath, if_neg (not_not.2 h.query),
      if_neg (not_not.2 h.fragment), sanitized]

structure ValidSubject (lib : ClientLibrary) (subject : String) : Prop where
  nonempty : subject ≠ ""
  solid : ∀ c ∈ subject.toList, isWhitespace c = false
  validated : lib.validated subject = true
  literal : ∀ c ∈ subject.toList, c ≠ '*' ∧ c ≠ '>'
  unreserved : isReservedToken (firstToken subject) = false

structure ValidCollection (collection : String) : Prop where
  nonempty : collection ≠ ""
  solid : ∀ c ∈ collection.toList, isWhitespace c = false
  short : collection.utf8ByteSize ≤ maxBridgeIdentityBytes
  valid : validCollection collection = true
  unreserved : collection ≠ irohDistributionCollection

/-- **An entry valid by itself** and its mapping: exactly one `=`, around it a subject and a
collection, trimmed. -/
structure Entry (lib : ClientLibrary) (raw : String) (m : SubjectMapping) : Prop where
  split : ∃ subject collection, raw.toList = subject ++ '=' :: collection ∧ '=' ∉ subject ∧
    '=' ∉ collection ∧ m.subject = trim (String.ofList subject) ∧
    m.collection = trim (String.ofList collection)
  subject : ValidSubject lib m.subject
  collection : ValidCollection m.collection

theorem subjectIssue_eq_none_iff : subjectIssue lib subject = none ↔ ValidSubject lib subject := by
  constructor
  · intro h
    unfold subjectIssue at h
    split_ifs at h with h₁ h₂ h₃ h₄ h₅
    refine ⟨h₁, ?_, by simpa using h₃, ?_, by simpa using h₅⟩
    · simpa using h₂
    · simpa [not_or] using h₄
  · rintro ⟨h₁, h₂, h₃, h₄, h₅⟩
    have hsolid : subject.toList.any isWhitespace = false := by simpa using h₂
    have hliteral : subject.toList.any (fun c => c = '*' || c = '>') = false := by
      simpa [not_or] using h₄
    simp [subjectIssue, h₁, hsolid, h₃, hliteral, h₅]

theorem collectionIssue_eq_none_iff :
    collectionIssue collection = none ↔ ValidCollection collection := by
  constructor
  · intro h
    unfold collectionIssue at h
    split_ifs at h with h₁ h₂ h₃ h₄ h₅
    exact ⟨h₁, by simpa using h₂, Nat.not_lt.1 h₃, by simpa using h₄, h₅⟩
  · rintro ⟨h₁, h₂, h₃, h₄, h₅⟩
    have hsolid : collection.toList.any isWhitespace = false := by simpa using h₂
    simp [collectionIssue, h₁, hsolid, Nat.not_lt.2 h₃, h₄, h₅]

theorem splitOnce_iff :
    raw.toList.count '=' = 1 ∧ splitOnce '=' raw = some (subject, collection) ↔
      raw.toList = subject.toList ++ '=' :: collection.toList ∧ '=' ∉ subject.toList ∧
        '=' ∉ collection.toList := by
  rw [Peers.splitOnce_eq_some]
  constructor
  · rintro ⟨hcount, hraw, hbefore⟩
    rw [hraw, count_append, count_cons_self, count_eq_zero.2 hbefore] at hcount
    exact ⟨hraw, hbefore, count_eq_zero.1 (by omega)⟩
  · rintro ⟨hraw, hbefore, hafter⟩
    refine ⟨?_, hraw, hbefore⟩
    rw [hraw]
    simp [count_append, count_eq_zero.2 hbefore, count_eq_zero.2 hafter]

theorem splitOnce_ne_none (h : raw.toList.count '=' = 1) : splitOnce '=' raw ≠ none := by
  intro hnone
  unfold splitOnce at hnone
  rw [span_eq_takeWhile_dropWhile] at hnone
  split at hnone
  · rename_i hspan
    obtain ⟨-, hdrop⟩ := Prod.mk.inj hspan
    have hmem : '=' ∈ raw.toList := count_pos_iff.1 (by omega)
    simpa using dropWhile_eq_nil_iff.1 hdrop '=' hmem
  · cases hnone

theorem entry_iff :
    Entry lib raw m ↔ raw.toList.count '=' = 1 ∧ ∃ subject collection,
      splitOnce '=' raw = some (subject, collection) ∧ m = ⟨trim subject, trim collection⟩ ∧
        ValidSubject lib m.subject ∧ ValidCollection m.collection := by
  constructor
  · rintro ⟨⟨subject, collection, hraw, hs, hc, hm₁, hm₂⟩, hsubject, hcollection⟩
    obtain ⟨hcount, hsplit⟩ : raw.toList.count '=' = 1 ∧
        splitOnce '=' raw = some (String.ofList subject, String.ofList collection) :=
      splitOnce_iff.2 (by simpa using ⟨hraw, hs, hc⟩)
    refine ⟨hcount, _, _, hsplit, ?_, hsubject, hcollection⟩
    rw [← hm₁, ← hm₂]
  · rintro ⟨hcount, subject, collection, hsplit, rfl, hsubject, hcollection⟩
    obtain ⟨hraw, hs, hc⟩ := splitOnce_iff.1 ⟨hcount, hsplit⟩
    exact ⟨⟨_, _, hraw, hs, hc, by simp, by simp⟩, hsubject, hcollection⟩

/-- An entry stands for one mapping. -/
theorem Entry.unique (h : Entry lib raw m) (h' : Entry lib raw m') : m = m' := by
  obtain ⟨-, subject, collection, hsplit, hm, -⟩ := entry_iff.1 h
  obtain ⟨-, subject', collection', hsplit', hm', -⟩ := entry_iff.1 h'
  cases hsplit.symm.trans hsplit'
  rw [hm, hm']

namespace MappingParser

variable {lib : ClientLibrary} {p : MappingParser}

/-- The two tables hold the mappings that were kept, no name twice. -/
structure Indexed (p : MappingParser) : Prop where
  subjects : ∀ s, p.subjects.lookup s = none ↔ s ∉ p.mappings.map (·.subject)
  collections : ∀ c, p.collections.lookup c = none ↔ c ∉ p.mappings.map (·.collection)
  distinctSubjects : (p.mappings.map (·.subject)).Nodup
  distinctCollections : (p.mappings.map (·.collection)).Nodup

/-- Neither its subject nor its collection was kept. -/
def Fresh (p : MappingParser) (m : SubjectMapping) : Prop :=
  m.subject ∉ p.mappings.map (·.subject) ∧ m.collection ∉ p.mappings.map (·.collection)

variable {m : SubjectMapping}

theorem entryIssues_eq_nil_iff (h : p.Indexed) : p.entryIssues lib m.subject m.collection = [] ↔
      ValidSubject lib m.subject ∧ ValidCollection m.collection ∧ p.Fresh m := by
  rw [← subjectIssue_eq_none_iff, ← collectionIssue_eq_none_iff, Fresh, ← h.subjects,
    ← h.collections]
  unfold entryIssues
  cases hs : subjectIssue lib m.subject with
  | some kind => simp
  | none =>
    cases hc : collectionIssue m.collection with
    | some kind | none => simp

/-- A valid entry with new names is kept. -/
theorem parseEntry_of_entry (h : p.Indexed) (hentry : Entry lib raw m) (hfresh : p.Fresh m)
    (index : ℕ) :
    p.parseEntry lib index raw = { p with
        mappings := p.mappings ++ [m]
        subjects := (m.subject, index) :: p.subjects
        collections := (m.collection, index) :: p.collections } := by
  obtain ⟨hcount, subject, collection, hsplit, rfl, hsubject, hcollection⟩ := entry_iff.1 hentry
  have hissues := (entryIssues_eq_nil_iff h).2 ⟨hsubject, hcollection, hfresh⟩
  unfold parseEntry
  rw [if_neg (not_not.2 hcount), hsplit]
  simp only [hissues]

/-- Any other entry is reported. -/
theorem issues_parseEntry (h : p.Indexed) (hno : ¬ ∃ m, Entry lib raw m ∧ p.Fresh m) (index : ℕ) :
    (p.parseEntry lib index raw).issues ≠ [] := by
  unfold parseEntry
  split_ifs with hcount
  · simp [report]
  · rw [not_not] at hcount
    cases hsplit : splitOnce '=' raw with
    | none => exact absurd hsplit (splitOnce_ne_none hcount)
    | some pair =>
      obtain ⟨subject, collection⟩ := pair
      dsimp only
      split
      · rename_i hissues
        obtain ⟨hs, hc, hfresh⟩ :=
          (entryIssues_eq_nil_iff (m := ⟨trim subject, trim collection⟩) h).1 hissues
        exact absurd ⟨_, entry_iff.2 ⟨hcount, subject, collection, hsplit, rfl, hs, hc⟩, hfresh⟩ hno
      · rename_i hissues
        simpa [report] using fun _ => hissues

theorem lookup_insert (h : ∀ s, table.lookup s = none ↔ s ∉ names) (name : String) (index : ℕ)
    (s : String) : ((name, index) :: table).lookup s = none ↔ s ∉ names ++ [name] := by
  by_cases hs : s = name
  · subst hs
    simp
  · have hbeq : (s == name) = false := beq_false_of_ne hs
    rw [lookup_cons, hbeq, mem_append, mem_singleton, not_or, ← h]
    exact (and_iff_left hs).symm

theorem Indexed.kept (h : p.Indexed) (hfresh : p.Fresh m) (index : ℕ) :
    Indexed { p with
      mappings := p.mappings ++ [m]
      subjects := (m.subject, index) :: p.subjects
      collections := (m.collection, index) :: p.collections } where
  subjects s := by
    rw [map_append]
    exact lookup_insert h.subjects m.subject index s
  collections c := by
    rw [map_append]
    exact lookup_insert h.collections m.collection index c
  distinctSubjects := by
    rw [map_append, map_singleton, ← concat_eq_append]
    exact h.distinctSubjects.concat hfresh.1
  distinctCollections := by
    rw [map_append, map_singleton, ← concat_eq_append]
    exact h.distinctCollections.concat hfresh.2

theorem issues_prefix_parseEntry (index : ℕ) (raw : String) :
    p.issues <+: (p.parseEntry lib index raw).issues := by
  unfold parseEntry
  split_ifs
  · exact prefix_append _ _
  · split
    · exact prefix_rfl
    · split
      · exact prefix_rfl
      · exact prefix_append _ _

theorem issues_prefix_parseFrom (index : ℕ) (raws : List String) :
    p.issues <+: (parseFrom lib p index raws).issues := by
  induction raws generalizing p index with
  | nil => exact prefix_rfl
  | cons raw raws ih => exact (issues_prefix_parseEntry index raw).trans (ih (index + 1))

/-- **The entries that are kept.** -/
theorem parseFrom_iff (h : p.Indexed) {mappings : List SubjectMapping} :
    (parseFrom lib p index raws).issues = [] ∧ (parseFrom lib p index raws).mappings = mappings ↔
      p.issues = [] ∧ ∃ ms, mappings = p.mappings ++ ms ∧ Forall₂ (Entry lib) raws ms ∧
        (mappings.map (·.subject)).Nodup ∧ (mappings.map (·.collection)).Nodup := by
  induction raws generalizing p index with
  | nil =>
    constructor
    · rintro ⟨hissues, rfl⟩
      exact ⟨hissues, [], (append_nil _).symm, .nil, h.distinctSubjects, h.distinctCollections⟩
    · rintro ⟨hissues, ms, rfl, hms, -⟩
      rw [forall₂_nil_left_iff.1 hms]
      exact ⟨hissues, (append_nil _).symm⟩
  | cons raw raws ih =>
    rw [parseFrom]
    by_cases hentry : ∃ m, Entry lib raw m ∧ p.Fresh m
    · obtain ⟨m, hm, hfresh⟩ := hentry
      rw [parseEntry_of_entry h hm hfresh, ih (h.kept hfresh index)]
      refine and_congr_right fun _ => ?_
      constructor
      · rintro ⟨ms, rfl, hms, hdistinct⟩
        exact ⟨m :: ms, append_assoc _ _ _, .cons hm hms, hdistinct⟩
      · rintro ⟨ms, rfl, hms, hdistinct⟩
        obtain ⟨m', ms', hm', hms', rfl⟩ := forall₂_cons_left_iff.1 hms
        rw [hm'.unique hm] at hdistinct ⊢
        exact ⟨ms', append_cons _ _ _, hms', hdistinct⟩
    · constructor
      · rintro ⟨hissues, -⟩
        have hsome := issues_parseEntry h hentry index
        have hle : (p.parseEntry lib index raw).issues <+:
            (parseFrom lib (p.parseEntry lib index raw) (index + 1) raws).issues :=
          issues_prefix_parseFrom (index + 1) raws
        rw [hissues, prefix_nil] at hle
        exact absurd hle hsome
      · rintro ⟨-, ms, rfl, hms, hsubjects, hcollections⟩
        obtain ⟨m, ms', hm, -, rfl⟩ := forall₂_cons_left_iff.1 hms
        refine absurd ⟨m, hm, ?_, ?_⟩ hentry
        · rw [map_append, map_cons] at hsubjects
          exact (nodup_middle.1 hsubjects).notMem ∘ mem_append_left _
        · rw [map_append, map_cons] at hcollections
          exact (nodup_middle.1 hcollections).notMem ∘ mem_append_left _

end MappingParser

/-! ### The accepted configurations -/

variable {lib : ClientLibrary} {natsUrl : Option String} {rawMappings : List String}

variable {issues : List BridgeConfigIssue}

theorem parseMappings_iff {mappings : List SubjectMapping} :
    (parseMappings lib rawMappings issues).issues = [] ∧
        (parseMappings lib rawMappings issues).mappings = mappings ↔
      issues = [] ∧ Forall₂ (Entry lib) rawMappings mappings ∧
        (mappings.map (·.subject)).Nodup ∧ (mappings.map (·.collection)).Nodup := by
  have hstart : MappingParser.Indexed ⟨[], [], [], issues⟩ :=
    ⟨by simp, by simp, nodup_nil, nodup_nil⟩
  unfold parseMappings
  rw [MappingParser.parseFrom_iff hstart]
  simp

theorem parseUrl_iff :
    parseUrl lib natsUrl rawMappings = (some endpoint, []) ↔
      ∃ raw, natsUrl = some raw ∧ parseEndpoint lib raw = .ok endpoint := by
  cases natsUrl with
  | none => simp [parseUrl]
  | some raw => cases hendpoint : parseEndpoint lib raw <;> simp [parseUrl, hendpoint]

/-- **The configurations that enable the bridge.** -/
theorem fromRaw_eq_enabled_iff :
    fromRaw lib natsUrl rawMappings = .ok (.enabled config) ↔
      (∃ raw scheme, natsUrl = some raw ∧ ValidUrl lib raw scheme config.serverAddr ∧
        config.endpoint = sanitized scheme config.serverAddr) ∧
      rawMappings ≠ [] ∧ Forall₂ (Entry lib) rawMappings config.mappings ∧
      (config.mappings.map (·.subject)).Nodup ∧ (config.mappings.map (·.collection)).Nodup := by
  have hurl : (∃ raw scheme, natsUrl = some raw ∧ ValidUrl lib raw scheme config.serverAddr ∧
      config.endpoint = sanitized scheme config.serverAddr) ↔
      parseUrl lib natsUrl rawMappings = (some (config.serverAddr, config.endpoint), []) := by
    simp only [parseUrl_iff, parseEndpoint_eq_ok_iff, exists_and_left]
  rw [hurl]
  constructor
  · intro h
    cases hparse : parseUrl lib natsUrl rawMappings with
    | mk endpoint urlIssues =>
      simp only [fromRaw, hparse] at h
      split_ifs at h with hissues hempty
      · cases h
      · split at h
        · rename_i serverAddr endpoint'
          obtain rfl := BridgeConfig.enabled.inj (Except.ok.inj h)
          obtain ⟨rfl, hmappings⟩ := parseMappings_iff.1 ⟨not_not.1 hissues, rfl⟩
          exact ⟨rfl, hempty, hmappings⟩
        · cases h
  · rintro ⟨hparse, hempty, hmappings⟩
    obtain ⟨hissues, heq⟩ := parseMappings_iff.2 ⟨rfl, hmappings⟩
    simp only [fromRaw, hparse]
    rw [if_neg (not_not.2 hissues), if_neg hempty, heq]

end PeatNode.Bridge
