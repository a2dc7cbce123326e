/-
# The inbox and the paths it writes

`FilesystemInboxSink` of `src/attachments/inbox.rs`.  A remote peer chooses the name and the id of
a distribution.  `inbox_relpath` lets only plain components of the name through; without a usable
name the file is called after the id, unchecked. `inbox_contained_iff` says when all paths the
sink touches lie inside the inbox.
-/

import PeatNode.Lib.UnixPath
import PeatNode.Node.StoreCipher

namespace PeatNode.Attachments

open UnixPath List
open Ledger (asBytes)
open Node (fromUtf8)

/-- The fields of a `DistributionDocument` that the sink reads. -/
structure DistributionDocument where
  distributionId : String
  name : Option String
  blobSize : ℕ
deriving DecidableEq

structure FilesystemInboxSink where
  inboxRoot : Path
deriving DecidableEq

/-- The loop of `inbox_relpath`; only plain components stay. -/
def pushSafe (safe : Path) : List Component → Option Path
  | [] => some safe
  | .normal c :: comps => pushSafe (join safe c) comps
  | .curDir :: comps => pushSafe safe comps
  | .parentDir :: _ | .rootDir :: _ => none

def inboxRelpath (name : Option String) : Option Path :=
  match name with
  | none => none
  | some raw =>
    if raw = "" then none
    else match pushSafe [] (components (asBytes raw)) with
      | none => none
      | some safe => if safe = [] then none else some safe

namespace DistributionDocument

/-- The id with `.bin` behind it. -/
def fallback (doc : DistributionDocument) : Path := asBytes (doc.distributionId ++ ".bin")

def rel (doc : DistributionDocument) : Path := (inboxRelpath doc.name).getD doc.fallback

end DistributionDocument

namespace FilesystemInboxSink

/-- The path that `already_delivered` looks at. -/
def alreadyDeliveredPath (sink : FilesystemInboxSink) (doc : DistributionDocument) : Path :=
  join sink.inboxRoot doc.rel

/-- What `deliver` works on: the file, its directory, and the staging file that it renames. -/
structure DeliveryPaths where
  target : Path
  parent : Path
  tmp : Path
deriving DecidableEq

def deliveryPaths (sink : FilesystemInboxSink) (doc : DistributionDocument) : DeliveryPaths :=
  let target := join sink.inboxRoot doc.rel
  let parent := (UnixPath.parent target).getD sink.inboxRoot
  let fname := ((fileName target).bind fromUtf8).getD "blob"
  ⟨target, parent, join parent (asBytes ("." ++ fname ++ ".partial"))⟩

end FilesystemInboxSink

/-! ### The sanitiser -/

theorem asBytes_append (s t : String) : asBytes (s ++ t) = asBytes s ++ asBytes t := by
  simp [asBytes]

theorem pushSafe_spec
    (hnames : ∀ name, .normal name ∈ comps → sep ∉ name ∧ ofPiece name = some (.normal name))
    (h : pushSafe safe comps = some rel) :
    ∃ names : List (List UInt8), components rel = components safe ++ names.map .normal ∧
      (names = [] → rel = safe) := by
  induction comps generalizing safe with
  | nil =>
    cases h
    exact ⟨[], by simp, fun _ => rfl⟩
  | cons c comps ih =>
    have hrest : ∀ name, .normal name ∈ comps → sep ∉ name ∧ ofPiece name = some (.normal name) :=
      fun name hmem => hnames name (mem_cons_of_mem c hmem)
    cases c with
    | rootDir | parentDir => simp [pushSafe] at h
    | curDir => exact ih hrest h
    | normal name =>
      obtain ⟨names, hcomponents, -⟩ := ih hrest h
      obtain ⟨hsep, hpiece⟩ := hnames name mem_cons_self
      obtain ⟨habs, hlead, hbody⟩ := components_of_name hsep hpiece
      refine ⟨name :: names, ?_, by simp⟩
      rw [hcomponents, components_join habs, hlead, hbody]
      simp

/-- **What the sanitiser lets through is made of plain components.** -/
theorem inboxRelpath_spec (h : inboxRelpath name = some rel) :
    ∃ names : List (List UInt8), names ≠ [] ∧ components rel = names.map .normal := by
  unfold inboxRelpath at h
  split at h
  · simp at h
  · split_ifs at h
    split at h
    · simp at h
    · rename_i raw _ safe hsafe
      split_ifs at h with hempty
      cases h
      obtain ⟨names, hcomponents, hnil⟩ :=
        pushSafe_spec (fun name hmem => name_of_mem_body (mem_body_of_mem_components hmem)) hsafe
      exact ⟨names, fun hn => hempty (hnil hn), hcomponents⟩

/-! ### The paths -/

theorem body_ne_nil (h : components p = before ++ [.normal name]) : body p ≠ [] := by
  have hmem : .normal name ∈ components p := by simp [h]
  exact ne_nil_of_mem (mem_body_of_mem_components hmem)

theorem components_fallback (doc : DistributionDocument) :
    ∃ before name, body doc.fallback = before ++ [.normal name] := by
  have hbin : sep ∉ asBytes ".bin" ∧ 3 ≤ (asBytes ".bin").length := by decide +kernel
  obtain ⟨before, name, h⟩ := body_append_of_notMem hbin.1 hbin.2 (asBytes doc.distributionId)
  rw [DistributionDocument.fallback, asBytes_append]
  exact ⟨before, _, h⟩

namespace FilesystemInboxSink

variable (sink : FilesystemInboxSink) (doc : DistributionDocument)

variable {name : List UInt8}

/-- The staging file has a name of its own. -/
theorem components_tmpName (hname : sep ∉ name) :
    ∃ tmp, isAbsolute tmp = false ∧ lead tmp = [] ∧ body tmp = [.normal tmp] ∧
      asBytes ("." ++ (fromUtf8 name).getD "blob" ++ ".partial") = tmp := by
  have hfname : sep ∉ asBytes ((fromUtf8 name).getD "blob") := by
    cases hs : fromUtf8 name with
    | none => decide +kernel
    | some s =>
      rw [Option.getD_some, Node.asBytes_of_fromUtf8 hs]
      exact hname
  have hends : sep ∉ asBytes "." ∧ sep ∉ asBytes ".partial" ∧ 3 ≤ (asBytes ".partial").length := by
    decide +kernel
  have hsep : sep ∉ asBytes ("." ++ (fromUtf8 name).getD "blob" ++ ".partial") := by
    simp [asBytes_append, hfname, hends.1, hends.2.1]
  have hlen : 3 ≤ (asBytes ("." ++ (fromUtf8 name).getD "blob" ++ ".partial")).length := by
    simp only [asBytes_append, length_append]
    omega
  obtain ⟨habs, hlead, hbody⟩ := components_of_name hsep (ofPiece_eq_normal hlen)
  exact ⟨_, habs, hlead, hbody, rfl⟩

variable {before : List Component}

theorem components_deliveryPaths
    (h : components (sink.deliveryPaths doc).target = before ++ [.normal name]) :
    components (sink.deliveryPaths doc).parent = before ∧
      ∃ tmp, components (sink.deliveryPaths doc).tmp = before ++ [.normal tmp] := by
  obtain ⟨p', hp', hcomponents⟩ := components_parent (body_ne_nil h)
  rw [h, dropLast_concat] at hcomponents
  have hparent : (sink.deliveryPaths doc).parent = p' := by
    simp only [deliveryPaths] at hp' ⊢
    rw [hp']
    rfl
  refine ⟨by rw [hparent, hcomponents], ?_⟩
  have hname : sep ∉ name :=
    (name_of_mem_body (mem_body_of_mem_components (p := (sink.deliveryPaths doc).target) (by simp [h]))).1
  obtain ⟨tmp, habs, hlead, hbody, htmp⟩ := components_tmpName hname
  have hpath : (sink.deliveryPaths doc).tmp = join p' tmp := by
    have hfile := fileName_eq_some h
    simp only [deliveryPaths] at hfile hp' ⊢
    rw [hfile, hp', Option.bind_some, htmp]
    rfl
  exact ⟨tmp, by rw [hpath, components_join habs, hlead, hbody, hcomponents]; simp⟩

/-- The sink stays inside the inbox. -/
def Contained : Prop :=
  Inside sink.inboxRoot (sink.deliveryPaths doc).target ∧
  Inside sink.inboxRoot (sink.deliveryPaths doc).tmp ∧
  Inside sink.inboxRoot (sink.deliveryPaths doc).parent ∧
  Inside sink.inboxRoot (sink.alreadyDeliveredPath doc)
deriving Decidable

/-- The name is usable, or the file name made from the id stays in the inbox: it is relative and
never climbs above its start, or absolute and below the inbox. -/
def Safe : Prop :=
  (inboxRelpath doc.name).isSome ∨
    if isAbsolute doc.fallback then Below sink.inboxRoot doc.fallback
    else stays 0 (components doc.fallback) = true

theorem contained_iff_inside_parent
    (h : components (sink.deliveryPaths doc).target = before ++ [.normal name]) :
    sink.Contained doc ↔ ∃ rest, before = components sink.inboxRoot ++ rest ∧ stays 0 rest = true := by
  obtain ⟨hparent, tmp, htmp⟩ := sink.components_deliveryPaths doc h
  constructor
  · rintro ⟨-, -, hin, -⟩
    rw [Inside, hparent] at hin
    exact hin
  · rintro ⟨rest, rfl, hstays⟩
    have htarget : Inside sink.inboxRoot (sink.deliveryPaths doc).target :=
      ⟨rest ++ [.normal name], by rw [h, append_assoc], by rwa [stays_concat_normal]⟩
    exact ⟨htarget, ⟨rest ++ [.normal tmp], by rw [htmp, append_assoc], by rwa [stays_concat_normal]⟩,
      ⟨rest, hparent, hstays⟩, htarget⟩

theorem contained_iff_of_relative (habs : isAbsolute doc.rel = false)
    (hbody : body doc.rel = before ++ [.normal name]) :
    sink.Contained doc ↔ stays 0 before = true := by
  have htarget : components (sink.deliveryPaths doc).target =
      components sink.inboxRoot ++ ((if sink.inboxRoot = [] then lead doc.rel else []) ++ before) ++
        [.normal name] := by
    simp only [deliveryPaths]
    rw [components_join habs, hbody]
    simp only [append_assoc]
  have hstays : stays 0 ((if sink.inboxRoot = [] then lead doc.rel else []) ++ before) = stays 0 before := by
    split_ifs
    · exact stays_lead_append habs _ _
    · rfl
  rw [sink.contained_iff_inside_parent doc htarget]
  constructor
  · rintro ⟨rest, hrest, h⟩
    rw [← append_cancel_left hrest, hstays] at h
    exact h
  · exact fun h => ⟨_, rfl, hstays.trans h⟩

/-- A usable name stays in the inbox. -/
theorem contained_of_isSome (h : (inboxRelpath doc.name).isSome) : sink.Contained doc := by
  obtain ⟨rel, hrel⟩ := Option.isSome_iff_exists.1 h
  obtain ⟨names, hne, hnames⟩ := inboxRelpath_spec hrel
  obtain ⟨habs, hbody⟩ := body_eq_of_normals hnames
  have hdoc : doc.rel = rel := by rw [DistributionDocument.rel, hrel]; rfl
  rw [← dropLast_append_getLast hne, map_append] at hbody
  rw [← hdoc] at habs hbody
  exact (sink.contained_iff_of_relative doc habs hbody).2 (stays_normals 0)

/-- **Containment in the inbox.** All paths that the sink touches lie inside the inbox exactly
when the name is usable or the id is harmless. -/
theorem inbox_contained_iff : sink.Contained doc ↔ sink.Safe doc := by
  by_cases hname : (inboxRelpath doc.name).isSome
  · exact iff_of_true (sink.contained_of_isSome doc hname) (.inl hname)
  · have hrel : doc.rel = doc.fallback := by
      rw [Option.not_isSome_iff_eq_none] at hname
      rw [DistributionDocument.rel, hname]
      rfl
    obtain ⟨before, name, hbody⟩ := components_fallback doc
    rw [Safe, or_iff_right hname]
    by_cases habs : isAbsolute doc.fallback = true
    · -- an absolute path replaces the inbox root
      have hfallback : components doc.fallback = (lead doc.fallback ++ before) ++ [.normal name] := by
        rw [components, hbody, append_assoc]
      have htarget : components (sink.deliveryPaths doc).target =
          (lead doc.fallback ++ before) ++ [.normal name] := by
        rw [← hfallback]
        simp only [deliveryPaths, hrel, join, habs, if_true]
      rw [if_pos habs, sink.contained_iff_inside_parent doc htarget]
      constructor
      · rintro ⟨rest, hrest, hstays⟩
        refine ⟨rest ++ [.normal name], by simp, ?_, by rwa [stays_concat_normal]⟩
        rw [hfallback, hrest, append_assoc]
      · rintro ⟨rest, hne, hrest, hstays⟩
        obtain ⟨rest', last, rfl⟩ : ∃ rest' last, rest = rest' ++ [last] :=
          ⟨_, _, (dropLast_append_getLast hne).symm⟩
        rw [hfallback, ← append_assoc] at hrest
        obtain ⟨hbefore, hlast⟩ := append_inj' hrest rfl
        obtain rfl := singleton_inj.1 hlast
        rw [stays_concat_normal] at hstays
        exact ⟨rest', hbefore, hstays⟩
    · rw [if_neg habs, sink.contained_iff_of_relative doc (by rw [hrel]; simpa using habs)
        (by rw [hrel]; exact hbody), components, stays_lead_append (by simpa using habs), hbody,
        stays_concat_normal]

end FilesystemInboxSink

/-! ### An escape -/

def climbing : DistributionDocument := ⟨"../../etc/cron.d/job", none, 5⟩

/-- An absolute id and a name that is rejected. -/
def absolute : DistributionDocument := ⟨"/etc/cron.d/job", some "../job", 5⟩

def inbox : FilesystemInboxSink := ⟨asBytes "/var/inbox"⟩

theorem distributionId_escapes :
    (inbox.deliveryPaths climbing).target = asBytes "/var/inbox/../../etc/cron.d/job.bin" ∧
      ¬ Inside inbox.inboxRoot (inbox.deliveryPaths climbing).target ∧
      (inbox.deliveryPaths absolute).target = asBytes "/etc/cron.d/job.bin" ∧
      (inbox.deliveryPaths absolute).tmp = asBytes "/etc/cron.d/.job.bin.partial" ∧
      ¬ inbox.Contained climbing ∧ ¬ inbox.Contained absolute := by
  decide +kernel

end PeatNode.Attachments
