/-
# The table over its operations

The table of bundles under any sequence of its operations.  Every operation is made of three
moves, a record changed in place, one dropped and one added, and each keeps the index in step with
the resident bundles (`Represents`), if no two share a distribution.
-/

import Mathlib.Data.List.MinMax
import PeatNode.Attachments.Registry

namespace PeatNode.Attachments

open List Option AList

/-- An operation; `check_resubmit` is a `probe` and, if undecided, a `recheck`. -/
inductive RegistryCall
  | probe (bundleId : String) (identity : BundleIdentity)
  | recheck (bundleId : String) (identity : BundleIdentity) (now : SystemTime)
  | insert (rec : BundleRecord) (victim : String)
  | get (bundleId : String) (now : SystemTime)
  | updateStatus (bundleId : String) (status : BundleStatus) (now : SystemTime)
  | evictExpired (now : SystemTime)

namespace Registry

def step (maxKnownBundles handleRetentionSecs : ℕ) (r : Registry) : RegistryCall → Option Registry
  | .probe _ _ => some r
  | .recheck bundleId identity now => some (r.recheck bundleId identity now).2
  | .insert rec victim => r.insert maxKnownBundles rec victim
  | .get bundleId now => some (r.get bundleId now).2
  | .updateStatus bundleId status now => some (r.updateStatus bundleId status now)
  | .evictExpired now => some (r.evictExpired handleRetentionSecs now)

/-- What is inserted shares no distribution. -/
def Unique (r : Registry) (call : RegistryCall) : Prop :=
  ∀ rec victim, call = .insert rec victim → r.Clear rec

variable {maxKnownBundles handleRetentionSecs : ℕ} {r r' : Registry} {rec : BundleRecord}
  {id : String} {call : RegistryCall}

/-! ### The two maps -/

/-- The index has distributions of resident bundles only. -/
def Backed (r : Registry) : Prop :=
  ∀ distributionId bundleId, r.distributionIndex.lookup distributionId = some bundleId →
    ∃ rec, r.bundles.lookup bundleId = some rec ∧
      ∃ h ∈ rec.handles, h.distributionId = distributionId

structure Represents (maxKnownBundles : ℕ) (r : Registry) : Prop where
  keyed : r.Keyed
  distinct : r.Distinct
  indexed : r.Indexed
  backed : r.Backed
  bounded : 0 < maxKnownBundles → r.values.length ≤ maxKnownBundles

theorem represents_empty (maxKnownBundles : ℕ) : empty.Represents maxKnownBundles where
  keyed id rec h := by cases h
  distinct id rec h := by cases h
  indexed id rec h := by cases h
  backed d b h := by cases h
  bounded _ := Nat.zero_le _

theorem length_values (r : Registry) : r.values.length = r.bundles.keys.length := by
  simp [values, AList.keys, List.keys]

theorem length_values_le (h : ∀ id, id ∈ r'.bundles → id ∈ r.bundles) :
    r'.values.length ≤ r.values.length := by
  rw [length_values, length_values]
  exact (subperm_of_subset r'.bundles.keys_nodup h).length_le

/-- The distributions of the changed record are those it had. -/
theorem Represents.modify (hr : r.Represents maxKnownBundles) (bundleId : String)
    (h : ∀ rec, (change rec).handles = rec.handles ∧ (change rec).bundleId = rec.bundleId) :
    (r.modify bundleId change).Represents maxKnownBundles := by
  have hkept : ∀ id rec', (r.modify bundleId change).bundles.lookup id = some rec' →
      ∃ rec, r.bundles.lookup id = some rec ∧ rec'.handles = rec.handles ∧
        rec'.bundleId = rec.bundleId := by
    intro id rec' hrec'
    rw [lookup_modify] at hrec'
    split_ifs at hrec'
    · obtain ⟨rec, hrec, rfl⟩ := map_eq_some_iff.1 hrec'
      exact ⟨rec, hrec, h rec⟩
    · exact ⟨rec', hrec', rfl, rfl⟩
  refine ⟨fun id rec' hrec' => ?_, fun id rec' hrec' other rec'' hrec'' => ?_,
    indexed_modify hr.indexed bundleId fun rec => (h rec).1, fun d b hd => ?_,
    fun hmax => (length_values_le fun id => mem_of_mem_modify).trans (hr.bounded hmax)⟩
  · obtain ⟨rec, hrec, -, hid⟩ := hkept id rec' hrec'
    rw [hid, hr.keyed id rec hrec]
  · obtain ⟨rec, hrec, hhandles, hid⟩ := hkept id rec' hrec'
    obtain ⟨rec₂, hrec₂, hhandles₂, -⟩ := hkept other rec'' hrec''
    rw [hhandles, hhandles₂, hid]
    exact hr.distinct id rec hrec other rec₂ hrec₂
  · rw [distributionIndex_modify] at hd
    obtain ⟨rec, hrec, handle, hhandle, rfl⟩ := hr.backed d b hd
    rw [lookup_modify, hrec]
    split_ifs
    · exact ⟨change rec, rfl, handle, (h rec).1 ▸ hhandle, rfl⟩
    · exact ⟨rec, rfl, handle, hhandle, rfl⟩

theorem lookup_of_lookup_foldl_erase {handles : List AttachmentHandleRecord}
    {index : AList fun _ : String => String}
    (h : (handles.foldl (fun index h => index.erase h.distributionId) index).lookup distributionId =
      some bundleId) :
    index.lookup distributionId = some bundleId ∧
      ∀ handle ∈ handles, handle.distributionId ≠ distributionId := by
  induction handles generalizing index with
  | nil => exact ⟨h, by simp⟩
  | cons handle rest ih =>
    obtain ⟨hold, hrest⟩ := ih h
    have hne : handle.distributionId ≠ distributionId := by
      rintro rfl
      simp [lookup_erase] at hold
    rw [lookup_erase_ne hne.symm] at hold
    exact ⟨hold, forall_mem_cons.2 ⟨hne, hrest⟩⟩

/-- It is the record of its id, if any. -/
def Owns (r : Registry) (rec : BundleRecord) : Prop :=
  r.Clear rec ∧ ∀ rec', r.bundles.lookup rec.bundleId = some rec' → rec' = rec

theorem Represents.owns (hr : r.Represents maxKnownBundles) (h : r.bundles.lookup id = some rec) :
    r.Owns rec := by
  refine ⟨hr.distinct id rec h, fun rec' hrec' => ?_⟩
  rw [hr.keyed id rec h, h] at hrec'
  exact (some.inj hrec').symm

theorem Represents.dropRecord (hr : r.Represents maxKnownBundles) (h : r.Owns rec) :
    (r.dropRecord rec).Represents maxKnownBundles := by
  have hsub : ∀ id rec', (r.dropRecord rec).bundles.lookup id = some rec' →
      r.bundles.lookup id = some rec' := fun id rec' h => (lookup_of_lookup_dropRecord h).2
  refine ⟨fun id rec' h => hr.keyed id rec' (hsub id rec' h),
    fun id rec' h => (hr.distinct id rec' (hsub id rec' h)).mono hsub,
    indexed_dropRecord hr.indexed h.1, fun d b hd => ?_,
    fun hmax => (length_values_le fun id => mem_of_mem_dropRecord).trans (hr.bounded hmax)⟩
  obtain ⟨hold, hother⟩ := lookup_of_lookup_foldl_erase hd
  obtain ⟨rec', hrec', handle, hhandle, rfl⟩ := hr.backed d b hold
  have hb : b ≠ rec.bundleId := by
    rintro rfl
    exact hother handle (h.2 rec' hrec' ▸ hhandle) rfl
  exact ⟨rec', by rw [lookup_dropRecord, if_neg hb, hrec'], handle, hhandle, rfl⟩

theorem Represents.foldl_dropRecord {dropped : List BundleRecord}
    (hr : r.Represents maxKnownBundles) (h : ∀ rec ∈ dropped, r.Owns rec) :
    (dropped.foldl Registry.dropRecord r).Represents maxKnownBundles := by
  induction dropped generalizing r with
  | nil => exact hr
  | cons rec rest ih =>
    refine ih (hr.dropRecord (h rec mem_cons_self)) fun other hother => ?_
    obtain ⟨hclear, hown⟩ := h other (mem_cons_of_mem _ hother)
    exact ⟨hclear.mono fun id rec' h => (lookup_of_lookup_dropRecord h).2,
      fun rec' hrec' => hown rec' (lookup_of_lookup_dropRecord hrec').2⟩

theorem Represents.add (hr : r.Represents maxKnownBundles)
    (hnew : r.bundles.lookup rec.bundleId = none) (hclear : r.Clear rec)
    (hroom : 0 < maxKnownBundles → r.values.length < maxKnownBundles) :
    (r.add rec).Represents maxKnownBundles := by
  -- the records of the table, or the new one
  have hcases : ∀ id rec', (r.add rec).bundles.lookup id = some rec' →
      id = rec.bundleId ∧ rec' = rec ∨ id ≠ rec.bundleId ∧ r.bundles.lookup id = some rec' := by
    intro id rec' hrec'
    by_cases hid : id = rec.bundleId
    · rw [hid] at hrec'
      exact .inl ⟨hid, (some.inj ((AList.lookup_insert _).symm.trans hrec')).symm⟩
    · exact .inr ⟨hid, (AList.lookup_insert_ne hid).symm.trans hrec'⟩
  have hclear' : (r.add rec).Clear rec := fun id rec' hrec' hid =>
    hclear id rec' ((hcases id rec' hrec').resolve_left fun h => hid h.1).2 hid
  refine ⟨fun id rec' hrec' => ?_, fun id rec' hrec' other rec'' hrec'' hother h hh h' hh' => ?_,
    indexed_add hr.indexed hclear', fun d b hd => ?_, fun hmax => ?_⟩
  · rcases hcases id rec' hrec' with ⟨rfl, rfl⟩ | ⟨-, hold⟩
    · rfl
    · exact hr.keyed id rec' hold
  · rcases hcases id rec' hrec' with ⟨rfl, rfl⟩ | ⟨hid, hold⟩
    · exact hclear' other rec'' hrec'' hother h hh h' hh'
    · rcases hcases other rec'' hrec'' with ⟨rfl, rfl⟩ | ⟨-, hold'⟩
      · exact (hclear id rec' hold hid h' hh' h hh).symm
      · exact hr.distinct id rec' hold other rec'' hold' hother h hh h' hh'
  · by_cases hmine : ∃ handle ∈ rec.handles, handle.distributionId = d
    · cases (lookup_add_index (.inr hmine)).symm.trans hd
      exact ⟨rec, AList.lookup_insert _, hmine⟩
    · have hold := hd
      simp only [Registry.add] at hold
      rw [lookup_foldl_insert_ne fun handle hhandle h => hmine ⟨handle, hhandle, h⟩] at hold
      obtain ⟨rec', hrec', hhandle⟩ := hr.backed d b hold
      have hb : b ≠ rec.bundleId := by
        rintro rfl
        rw [hnew] at hrec'
        cases hrec'
      exact ⟨rec', (AList.lookup_insert_ne hb).trans hrec', hhandle⟩
  · have hsub : (r.add rec).bundles.keys ⊆ rec.bundleId :: r.bundles.keys := fun id hid =>
      mem_cons.2 ((AList.mem_insert _).1 hid)
    have hle := (subperm_of_subset (r.add rec).bundles.keys_nodup hsub).length_le
    rw [length_cons, ← length_values, ← length_values] at hle
    have hlt := hroom hmax
    omega

theorem Represents.removePrior (hr : r.Represents maxKnownBundles) (bundleId : String) :
    (r.removePrior bundleId).Represents maxKnownBundles := by
  cases hlookup : r.bundles.lookup bundleId with
  | none => rwa [Registry.removePrior, hlookup]
  | some prior =>
    rw [removePrior_eq_dropRecord hr.keyed hlookup]
    exact hr.dropRecord (hr.owns hlookup)

/-- A dropped bundle makes room for one. -/
theorem length_dropRecord_lt (hr : r.Keyed) (h : r.bundles.lookup id = some rec) :
    (r.dropRecord rec).values.length < r.values.length := by
  have hmem : id ∈ r.bundles := lookup_isSome.1 (by rw [h]; rfl)
  have hnodup : (id :: (r.dropRecord rec).bundles.keys).Nodup :=
    nodup_cons.2 ⟨fun hid => (mem_erase.1 hid).1 (hr id rec h).symm,
      (r.dropRecord rec).bundles.keys_nodup⟩
  have hsub : id :: (r.dropRecord rec).bundles.keys ⊆ r.bundles.keys :=
    cons_subset.2 ⟨hmem, fun other => mem_of_mem_dropRecord⟩
  rw [length_values, length_values]
  exact (subperm_of_subset hnodup hsub).length_le

theorem Represents.insert (hr : r.Represents maxKnownBundles) (hclear : r.Clear rec)
    (h : r.insert maxKnownBundles rec victim = some r') : r'.Represents maxKnownBundles := by
  obtain ⟨roomy, hroomy, rfl⟩ := map_eq_some_iff.1 h
  have hprior := hr.removePrior rec.bundleId
  have hgone : (r.removePrior rec.bundleId).bundles.lookup rec.bundleId = none := by
    rw [lookup_removePrior, if_pos rfl]
  have hclear' : (r.removePrior rec.bundleId).Clear rec := hclear.mono fun id rec' hrec' => by
    rw [lookup_removePrior] at hrec'
    split_ifs at hrec'
    exact hrec'
  rcases makeRoom_cases hroomy with ⟨hroom, rfl⟩ | ⟨⟨hmax, -⟩, old, hold, -, rfl⟩
  · exact hprior.add hgone hclear' fun hmax => by omega
  · have hlt := length_dropRecord_lt hprior.keyed hold
    have hbound := hprior.bounded hmax
    refine (hprior.dropRecord (hprior.owns hold)).add ?_ ?_ fun _ => by omega
    · rw [lookup_dropRecord, hgone, ite_self]
    · exact hclear'.mono fun id rec' h => (lookup_of_lookup_dropRecord h).2

theorem Represents.step (hr : r.Represents maxKnownBundles) (hok : r.Unique call)
    (h : r.step maxKnownBundles handleRetentionSecs call = some r') :
    r'.Represents maxKnownBundles := by
  cases call with
  | probe => exact Option.some.inj h ▸ hr
  | recheck bundleId identity now =>
    cases h
    unfold recheck
    split
    · exact hr
    · next existing hexisting =>
      split_ifs
      · exact hr.dropRecord (hr.owns hexisting)
      · exact hr.modify bundleId fun rec => ⟨rfl, rfl⟩
      · exact hr
  | insert rec victim => exact hr.insert (hok rec victim rfl) h
  | get | updateStatus =>
    cases h
    exact hr.modify _ fun rec => ⟨rfl, rfl⟩
  | evictExpired now =>
    cases h
    unfold evictExpired
    split_ifs
    · exact hr
    · refine hr.foldl_dropRecord fun rec hrec => ?_
      obtain ⟨id, hid⟩ := mem_values.1 (mem_filter.1 hrec).1
      exact hr.owns hid

/-! ### What leaves the table -/

/-- An insert drops at most one bundle, among the oldest. -/
def MakesRoom (maxKnownBundles : ℕ) (r : Registry) (rec : BundleRecord) (victim : String)
    (r' : Registry) : Prop :=
  let others := r.removePrior rec.bundleId
  if 0 < maxKnownBundles ∧ maxKnownBundles ≤ others.values.length then
    (∃ old, others.bundles.lookup victim = some old ∧
      ∀ other ∈ others.values, old.lastTouchedAt ≤ other.lastTouchedAt) ∧
    ∀ id ≠ rec.bundleId, r'.bundles.lookup id = if id = victim then none else r.bundles.lookup id
  else ∀ id ≠ rec.bundleId, r'.bundles.lookup id = r.bundles.lookup id

theorem makesRoom_of_insert (hr : r.Keyed) (h : r.insert maxKnownBundles rec victim = some r') :
    r.MakesRoom maxKnownBundles rec victim r' := by
  have hothers := fun id (hid : id ≠ rec.bundleId) => lookup_insert hr h hid
  obtain ⟨roomy, hroomy, -⟩ := map_eq_some_iff.1 h
  unfold MakesRoom
  rcases makeRoom_cases hroomy with ⟨hroom, -⟩ | ⟨hfull, old, hold, hleast, -⟩
  · simp only [if_neg hroom]
    intro id hid
    rw [hothers id hid, dropped, if_neg hroom, if_neg (by simpa using hid)]
  · simp only [if_pos hfull]
    refine ⟨⟨old, hold, hleast⟩, fun id hid => ?_⟩
    rw [hothers id hid, dropped, if_pos hfull]
    simp [hid]

/-- There is always a bundle that can go. -/
theorem exists_insert (maxKnownBundles : ℕ) (r : Registry) (rec : BundleRecord) :
    ∃ victim r', r.insert maxKnownBundles rec victim = some r' := by
  suffices hroom : ∃ victim roomy,
      (r.removePrior rec.bundleId).makeRoom maxKnownBundles victim = some roomy by
    obtain ⟨victim, roomy, hroomy⟩ := hroom
    exact ⟨victim, roomy.add rec, by rw [insert, hroomy, map_some]⟩
  generalize r.removePrior rec.bundleId = others
  unfold makeRoom
  split_ifs with hfull
  · have hne : others.values ≠ [] := fun hnil => by simp [hnil] at hfull; omega
    obtain ⟨old, hold⟩ : ∃ old, others.values.argmin BundleRecord.lastTouchedAt = some old := by
      rw [← isSome_iff_exists, ← ne_none_iff_isSome, Ne, argmin_eq_none]
      exact hne
    obtain ⟨victim, hvictim⟩ := mem_values.1 (argmin_mem hold)
    refine ⟨victim, others.dropRecord old, ?_⟩
    simp only [evictLru, hvictim]
    exact if_pos fun other hother => le_of_mem_argmin hother hold
  · exact ⟨"", others, rfl⟩

/-- Ended, and last touched before the cutoff. -/
def Expired (handleRetentionSecs : ℕ) (now : SystemTime) (rec : BundleRecord) : Prop :=
  handleRetentionSecs ≠ 0 ∧ rec.status.isTerminal = true ∧
    rec.lastTouchedAt < now - handleRetentionSecs * 1000000000

theorem lookup_evictExpired (hr : r.Keyed) (now : SystemTime) (id : String) (rec : BundleRecord) :
    (r.evictExpired handleRetentionSecs now).bundles.lookup id = some rec ↔
      r.bundles.lookup id = some rec ∧ ¬ Expired handleRetentionSecs now rec := by
  unfold evictExpired Expired
  split_ifs with hzero
  · simp [hzero]
  · rw [lookup_foldl_dropRecord]
    constructor
    · intro h
      split_ifs at h with hdropped
      refine ⟨h, fun hexpired => hdropped ⟨rec, ?_, hr id rec h⟩⟩
      simpa [mem_values] using ⟨⟨id, h⟩, hexpired.2⟩
    · rintro ⟨h, hfresh⟩
      rw [if_neg, h]
      rintro ⟨other, hother, rfl⟩
      obtain ⟨hvalue, hexpired⟩ := mem_filter.1 hother
      obtain ⟨id, hid⟩ := mem_values.1 hvalue
      rw [hr id other hid, hid, some.injEq] at h
      subst h
      exact hfresh ⟨hzero, by simpa using hexpired⟩

theorem recheck_of_conflict (h : (r.recheck id identity now).1 = .conflict createdAt) :
    (r.recheck id identity now).2 = r := by
  unfold recheck at h ⊢
  split at h
  · rfl
  · split_ifs at h ⊢
    rfl

/-- **The table and its index.** In every state that the operations lead to, if no two
bundles share a distribution, the index has exactly the distributions of the resident
bundles, within the limit. An insert is always possible and drops another bundle only
from a full table, one of the oldest; the sweep drops exactly what has expired; a
conflict changes nothing. -/
theorem registry_represents (maxKnownBundles handleRetentionSecs : ℕ) (calls : List RegistryCall)
    (r : Registry)
    (hunique : Lts.Along (step maxKnownBundles handleRetentionSecs) Unique empty calls)
    (h : Lts.exec (step maxKnownBundles handleRetentionSecs) empty calls = some r) :
    (∀ distributionId bundleId, r.distributionIndex.lookup distributionId = some bundleId ↔
        ∃ rec, r.bundles.lookup bundleId = some rec ∧
          ∃ h ∈ rec.handles, h.distributionId = distributionId) ∧
      (0 < maxKnownBundles → r.values.length ≤ maxKnownBundles) ∧
      (∀ rec, (∃ victim r', r.insert maxKnownBundles rec victim = some r') ∧
        ∀ victim r', r.insert maxKnownBundles rec victim = some r' →
          r.MakesRoom maxKnownBundles rec victim r') ∧
      (∀ now id rec, (r.evictExpired handleRetentionSecs now).bundles.lookup id = some rec ↔
        r.bundles.lookup id = some rec ∧ ¬ Expired handleRetentionSecs now rec) ∧
      ∀ id identity now createdAt, (r.recheck id identity now).1 = .conflict createdAt →
        (r.recheck id identity now).2 = r := by
  have hr : r.Represents maxKnownBundles :=
    Lts.exec_invariant (Represents maxKnownBundles) (fun _ _ _ hr hok h => hr.step hok h)
      (represents_empty _) hunique h
  refine ⟨fun d b => ⟨hr.backed d b, ?_⟩, hr.bounded, fun rec => ⟨exists_insert _ r rec,
    fun victim r' hinsert => makesRoom_of_insert hr.keyed hinsert⟩,
    fun now id rec => lookup_evictExpired hr.keyed now id rec,
    fun id identity now createdAt => recheck_of_conflict⟩
  rintro ⟨rec, hrec, handle, hhandle, rfl⟩
  exact hr.indexed b rec hrec handle hhandle

def oneHandle (bundleId distributionId : String) (now : SystemTime) : BundleRecord :=
  .new bundleId ⟨[]⟩ [⟨0, "", ⟨distributionId, "", .allNodes, .normal⟩, none, none⟩] now

/-- The third bundle takes the place of the first. -/
def threeBundles : List RegistryCall :=
  [.insert (oneHandle "a" "first" 1) "", .insert (oneHandle "b" "second" 2) "",
    .insert (oneHandle "c" "third" 3) "a"]

instance decidableClear (r : Registry) (rec : BundleRecord) : Decidable (r.Clear rec) :=
  decidable_of_iff (∀ e ∈ r.bundles.entries, e.1 ≠ rec.bundleId →
      ∀ h ∈ rec.handles, ∀ h' ∈ e.2.handles, h.distributionId ≠ h'.distributionId)
    ⟨fun h id rec' hid => h ⟨id, rec'⟩ (mem_lookup_iff.1 hid),
      fun h e he => h e.1 e.2 (mem_lookup_iff.2 he)⟩

instance decidableUnique (r : Registry) : (call : RegistryCall) → Decidable (r.Unique call)
  | .insert rec victim => decidable_of_iff (r.Clear rec)
      ⟨fun h _ _ hcall => RegistryCall.insert.inj hcall |>.1 ▸ h, fun h => h rec victim rfl⟩
  | .probe _ _ | .recheck _ _ _ | .get _ _ | .updateStatus _ _ _ | .evictExpired _ => .isTrue nofun

theorem registry_represents_three :
    ∃ r ∈ Lts.exec (step 2 0) empty threeBundles,
      (r.values.map (·.bundleId) = ["c", "b"] ∧ r.distributionIndex.lookup "first" = none ∧
        r.distributionIndex.lookup "third" = some "c") ∧ r.values.length ≤ 2 ∧
      ∃ rec, r.bundles.lookup "c" = some rec ∧ ∃ h ∈ rec.handles, h.distributionId = "third" := by
  refine Lts.exists_mem_and (by decide +kernel) fun r hrun ⟨_, _, hthird⟩ => ?_
  obtain ⟨hindex, hbound, -⟩ := registry_represents 2 0 threeBundles r (by decide +kernel) hrun
  exact ⟨hbound Nat.two_pos, (hindex "third" "c").1 hthird⟩

end Registry
end PeatNode.Attachments
