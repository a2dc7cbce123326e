/-
# Rate limited diagnostics

`EgressDiagnostics`, `NodeChangeDiagnostics` and `IngressDiagnostics::record_oversized` log at most
one line per interval and count the rest.  Each bucket works in the same way
(`RateLimit.Bucket.record`); the tables differ.

* Egress has a bank of 17 buckets for what belongs to no route and one for each route.
* The node has two banks of 8, one for each path, and counts beside them.
* Ingress has a bucket for each configured subject, and does not count others.

Times are in milliseconds.
-/

import PeatNode.Bridge.Lifecycle
import PeatNode.Egress.System
import PeatNode.Ingress.Processor
import PeatNode.Lib.RateLimit

namespace PeatNode

open List

open Bridge (u64Max)
open RateLimit

/-! ### A table of buckets -/

/-- The body of `record_at`: `none` if the index is out of range, else the new table and the count
that is reported. -/
def recordIn (interval : ℕ) (buckets : List Bucket) (index now : ℕ) :
    Option (List Bucket × Option ℕ) :=
  (buckets[index]?).map fun b =>
    let r := b.record u64Max interval now
    (buckets.set index r.1, r.2)

section Table

variable {interval index now : ℕ} {buckets buckets' : List Bucket} {reported : Option ℕ}

theorem recordIn_eq_some (h : recordIn interval buckets index now = some (buckets', reported)) :
    ∃ b, buckets[index]? = some b ∧ buckets' = buckets.set index (b.record u64Max interval now).1 ∧
      reported = (b.record u64Max interval now).2 := by
  obtain ⟨b, hb, hr⟩ := Option.map_eq_some_iff.1 h
  cases hr
  exact ⟨b, hb, rfl, rfl⟩

theorem recordIn_isSome (interval now : ℕ) (h : index < buckets.length) :
    ∃ r, recordIn interval buckets index now = some r := by
  rw [recordIn, getElem?_eq_getElem h, Option.map_some]
  exact ⟨_, rfl⟩

theorem length_recordIn (h : recordIn interval buckets index now = some (buckets', reported)) :
    buckets'.length = buckets.length := by
  obtain ⟨b, -, rfl, -⟩ := recordIn_eq_some h
  exact length_set

theorem isSome_recordIn (h : recordIn interval buckets index now = some (buckets', reported))
    (k : ℕ) : buckets'[k]?.isSome = buckets[k]?.isSome := by
  have hsome : ∀ l : List Bucket, l[k]?.isSome = decide (k < l.length) := by
    intro l
    by_cases hk : k < l.length <;> simp [hk]
  rw [hsome, hsome, length_recordIn h]

/-- The table is the family of buckets of a limiter. -/
theorem limiterOf_recordIn (h : recordIn interval buckets index now = some (buckets', reported)) :
    (⟨fun i => buckets'[i]?.getD .empty,
        emissions ++ (reported.map fun n => ⟨index, now, n⟩).toList⟩ : Limiter ℕ) =
      Limiter.record u64Max interval ⟨fun i => buckets[i]?.getD .empty, emissions⟩ (index, now) := by
  obtain ⟨b, hb, rfl, rfl⟩ := recordIn_eq_some h
  have hget : buckets[index]?.getD .empty = b := by rw [hb, Option.getD_some]
  have hlt := (List.getElem?_eq_some_iff.1 hb).1
  unfold Limiter.record
  dsimp only
  rw [hget]
  congr 1
  funext i
  by_cases hi : i = index
  · subst hi
    rw [Function.update_self, getElem?_set_self hlt, Option.getD_some]
  · rw [Function.update_of_ne hi, getElem?_set_ne (Ne.symm hi)]

end Table

/-! ### Egress -/

namespace Egress

def egressDiagnosticInterval : ℕ := 60000

def egressDiagnosticClassifications : ℕ := 17

structure EgressAction where
  kind : EgressActionKind
  routeIndex : Option ℕ
  payloadBytes : Option ℕ
  suppressedCount : ℕ
deriving DecidableEq

def diagnosticClassification : EgressActionKind → ℕ
  | .skipped .malformedEnvelope => 0
  | .skipped .unsupportedKind => 1
  | .skipped .unsupportedVersion => 2
  | .skipped .unmappedCollection => 3
  | .skipped .routeMismatch => 4
  | .skipped .returnedLocal => 5
  | .skipped .oversizedPayload => 6
  | .skipped .duplicate => 7
  | .lost .eventLagged => 8
  | .lost .queueFull => 9
  | .lost .queueClosed => 10
  | .lost .unavailable => 11
  | .lost .publishFailed => 12
  | .lost .maxPayloadExceeded => 13
  | .lost .flushFailed => 14
  | .lost .ledgerUnavailable => 15
  | .published => 16

/-- `EgressDiagnostics`, with what it has emitted and when. -/
structure EgressDiagnostics where
  buckets : List Bucket
  routeCount : ℕ
  emitted : List (EgressAction × ℕ)

namespace EgressDiagnostics

/-- The size of a bucket, and the largest allocation. -/
def bucketBytes : ℕ := 24
def isizeMax : ℕ := 2 ^ 63 - 1

/-- `usize` has 64 bits; too large a table panics. -/
def withEmitter (routeCount : ℕ) : Option EgressDiagnostics :=
  let bucketCount := min (min (routeCount + 1) u64Max * egressDiagnosticClassifications) u64Max
  if bucketCount * bucketBytes ≤ isizeMax then
    some ⟨List.replicate bucketCount .empty, routeCount, []⟩
  else none

/-- The bank of an action's route, or the first one. -/
def routeBank (routeCount : ℕ) (routeIndex : Option ℕ) : ℕ :=
  match routeIndex.filter (· < routeCount) with
  | some index => index + 1
  | none => 0

def bucketIndex (routeCount : ℕ) (action : EgressAction) : ℕ :=
  routeBank routeCount action.routeIndex * egressDiagnosticClassifications +
    diagnosticClassification action.kind

/-- `record_at`; `none` is a panic. -/
def recordAt (d : EgressDiagnostics) (call : EgressAction × ℕ) : Option EgressDiagnostics :=
  (recordIn egressDiagnosticInterval d.buckets (bucketIndex d.routeCount call.1) call.2).map
    fun r =>
      { d with
        buckets := r.1
        emitted := d.emitted ++
          (r.2.map fun n => ({ call.1 with suppressedCount := n }, call.2)).toList }

def event (routeCount : ℕ) (call : EgressAction × ℕ) : Option (ℕ × ℕ) :=
  some (bucketIndex routeCount call.1, call.2)

def bucket (d : EgressDiagnostics) (index : ℕ) : Option Bucket := d.buckets[index]?

def emissions (d : EgressDiagnostics) : List (Emission ℕ) :=
  d.emitted.map fun e => ⟨bucketIndex d.routeCount e.1, e.2, e.1.suppressedCount⟩

theorem diagnosticClassification_lt (kind : EgressActionKind) :
    diagnosticClassification kind < egressDiagnosticClassifications := by
  cases kind with
  | skipped kind | lost kind => cases kind <;> decide
  | published => decide

theorem diagnosticClassification_injective : Function.Injective diagnosticClassification := by
  intro kind kind' h
  cases kind with
  | skipped kind | lost kind =>
    cases kind <;> rcases kind' with ⟨_ | _⟩ | ⟨_ | _⟩ | _ <;> first | rfl | cases h
  | published => rcases kind' with ⟨_ | _⟩ | ⟨_ | _⟩ | _ <;> first | rfl | cases h

theorem routeBank_le (routeCount : ℕ) (routeIndex : Option ℕ) :
    routeBank routeCount routeIndex ≤ routeCount := by
  unfold routeBank
  split
  · rename_i index hindex
    have hlt := (Option.filter_eq_some_iff.1 hindex).2
    simpa using hlt
  · exact Nat.zero_le _

/-- **Every action has a bucket**, whatever its route index. -/
theorem bucketIndex_lt (routeCount : ℕ) (action : EgressAction) :
    bucketIndex routeCount action < (routeCount + 1) * egressDiagnosticClassifications := by
  have hbank := routeBank_le routeCount action.routeIndex
  have hkind := diagnosticClassification_lt action.kind
  unfold bucketIndex
  simp only [egressDiagnosticClassifications] at hkind ⊢
  omega

variable {routeCount : ℕ}

/-- **Two actions share a bucket only if they have the same kind and the same
route.** -/
theorem bucketIndex_eq_iff :
    bucketIndex routeCount a = bucketIndex routeCount b ↔ a.kind = b.kind ∧
        a.routeIndex.filter (· < routeCount) = b.routeIndex.filter (· < routeCount) := by
  have hbank : routeBank routeCount a.routeIndex = routeBank routeCount b.routeIndex ↔
      a.routeIndex.filter (· < routeCount) = b.routeIndex.filter (· < routeCount) := by
    unfold routeBank
    cases a.routeIndex.filter (· < routeCount) <;> cases b.routeIndex.filter (· < routeCount) <;>
      simp
  have ha := diagnosticClassification_lt a.kind
  have hb := diagnosticClassification_lt b.kind
  rw [← hbank, ← diagnosticClassification_injective.eq_iff]
  unfold bucketIndex
  simp only [egressDiagnosticClassifications] at ha hb ⊢
  omega

theorem eq_of_withEmitter {d : EgressDiagnostics} (h : withEmitter routeCount = some d) :
    d = ⟨List.replicate ((routeCount + 1) * egressDiagnosticClassifications) .empty, routeCount, []⟩ := by
  unfold withEmitter at h
  dsimp only at h
  split_ifs at h with hfits
  cases h
  have hcount : min (min (routeCount + 1) u64Max * egressDiagnosticClassifications) u64Max =
      (routeCount + 1) * egressDiagnosticClassifications := by
    simp only [bucketBytes, isizeMax, u64Max, UInt64.size, egressDiagnosticClassifications] at hfits ⊢
    omega
  rw [hcount]

/-- The table of a limiter with so many routes. -/
def Sized (routeCount : ℕ) (d : EgressDiagnostics) : Prop :=
  d.routeCount = routeCount ∧
    d.buckets.length = (routeCount + 1) * egressDiagnosticClassifications

theorem implements (routeCount : ℕ) :
    Implements u64Max egressDiagnosticInterval recordAt (event routeCount) bucket emissions
      (Sized routeCount) where
  total d c hd := by
    obtain ⟨rfl, hlength⟩ := hd
    obtain ⟨r, hr⟩ := recordIn_isSome egressDiagnosticInterval c.2
      (hlength.symm ▸ bucketIndex_lt d.routeCount c.1)
    exact ⟨_, by rw [recordAt, hr, Option.map_some]⟩
  kept d c d' hd h := by
    obtain ⟨⟨buckets', reported⟩, hr, rfl⟩ := Option.map_eq_some_iff.1 h
    exact ⟨hd.1, (length_recordIn hr).trans hd.2⟩
  keys d c d' k hd h := by
    obtain ⟨⟨buckets', reported⟩, hr, rfl⟩ := Option.map_eq_some_iff.1 h
    exact isSome_recordIn hr k
  follows d c d' hd h := by
    obtain ⟨rfl, -⟩ := hd
    obtain ⟨⟨buckets', reported⟩, hr, rfl⟩ := Option.map_eq_some_iff.1 h
    rw [event, Option.elim_some]
    refine Eq.trans ?_ (limiterOf_recordIn hr)
    cases reported <;> simp [limiterOf, emissions, bucket, bucketIndex]

theorem limiterOf_start (h : withEmitter routeCount = some d) :
    limiterOf bucket emissions d = .start := by
  obtain rfl := eq_of_withEmitter h
  unfold limiterOf Limiter.start
  congr 1
  funext i
  rw [bucket, getElem?_replicate]
  split_ifs <;> rfl

end EgressDiagnostics
end Egress

/-! ### The node -/

namespace Node

def nodeChangeWarningInterval : ℕ := 60000

def nodeChangeRejectKinds : ℕ := 8

inductive NodeChangePath
  | publicObserver
  | bridgeRemote
deriving DecidableEq

def NodeChangeRejectKind.index : NodeChangeRejectKind → ℕ
  | .invalidKey => 0
  | .identityTooLarge => 1
  | .storeRead => 2
  | .encodedTooLarge => 3
  | .structuralLimit => 4
  | .decrypt => 5
  | .conversion => 6
  | .eventTooLarge => 7

structure NodeChangeCall where
  path : NodeChangePath
  kind : NodeChangeRejectKind
  now : ℕ
deriving DecidableEq

structure NodeChangeWarning where
  path : NodeChangePath
  kind : NodeChangeRejectKind
  suppressed : ℕ
  now : ℕ
deriving DecidableEq

/-- `NodeChangeDiagnostics`, with what it has emitted and when. -/
structure NodeChangeDiagnostics where
  counters : List ℕ
  warnings : List Bucket
  emitted : List NodeChangeWarning

namespace NodeChangeDiagnostics

def withEmitter : NodeChangeDiagnostics where
  counters := List.replicate (2 * nodeChangeRejectKinds) 0
  warnings := List.replicate (2 * nodeChangeRejectKinds) .empty
  emitted := []

def index (path : NodeChangePath) (kind : NodeChangeRejectKind) : ℕ :=
  (match path with
    | .publicObserver => 0
    | .bridgeRemote => nodeChangeRejectKinds) + kind.index

/-- `none` is a panic; the counter wraps around. -/
def recordAt (d : NodeChangeDiagnostics) (call : NodeChangeCall) : Option NodeChangeDiagnostics :=
  match d.counters[index call.path call.kind]? with
  | none => none
  | some count =>
    (recordIn nodeChangeWarningInterval d.warnings (index call.path call.kind) call.now).map
      fun r =>
        { counters := d.counters.set (index call.path call.kind) ((count + 1) % (u64Max + 1))
          warnings := r.1
          emitted := d.emitted ++
            (r.2.map fun n => ⟨call.path, call.kind, n, call.now⟩).toList }

def event (call : NodeChangeCall) : Option (ℕ × ℕ) := some (index call.path call.kind, call.now)

def bucket (d : NodeChangeDiagnostics) (i : ℕ) : Option Bucket := d.warnings[i]?

def emissions (d : NodeChangeDiagnostics) : List (Emission ℕ) :=
  d.emitted.map fun w => ⟨index w.path w.kind, w.now, w.suppressed⟩

theorem index_lt (path : NodeChangePath) (kind : NodeChangeRejectKind) :
    index path kind < 2 * nodeChangeRejectKinds := by
  cases path <;> cases kind <;> decide

/-- **Two rejections share a bucket only if they have the same path and kind.** -/
theorem index_eq_iff : index path kind = index path' kind' ↔ path = path' ∧ kind = kind' := by
  cases path <;> cases path' <;> cases kind <;> cases kind' <;> decide

def Sized (d : NodeChangeDiagnostics) : Prop :=
  d.counters.length = 2 * nodeChangeRejectKinds ∧ d.warnings.length = 2 * nodeChangeRejectKinds

theorem recordAt_eq_some {d d' : NodeChangeDiagnostics} (h : d.recordAt call = some d') :
    ∃ count warnings reported, d.counters[index call.path call.kind]? = some count ∧
      recordIn nodeChangeWarningInterval d.warnings (index call.path call.kind) call.now =
        some (warnings, reported) ∧
      d' = ⟨d.counters.set (index call.path call.kind) ((count + 1) % (u64Max + 1)), warnings,
        d.emitted ++ (reported.map fun n => ⟨call.path, call.kind, n, call.now⟩).toList⟩ := by
  unfold recordAt at h
  split at h
  · cases h
  · rename_i count hcount
    obtain ⟨⟨warnings, reported⟩, hr, rfl⟩ := Option.map_eq_some_iff.1 h
    exact ⟨count, warnings, reported, hcount, hr, rfl⟩

theorem implements :
    Implements u64Max nodeChangeWarningInterval recordAt event bucket emissions Sized where
  total d c hd := by
    have hlt := index_lt c.path c.kind
    obtain ⟨r, hr⟩ := recordIn_isSome nodeChangeWarningInterval c.now (hd.2.symm ▸ hlt)
    rw [recordAt, getElem?_eq_getElem (hd.1.symm ▸ hlt), hr]
    exact ⟨_, rfl⟩
  kept d c d' hd h := by
    obtain ⟨count, warnings, reported, -, hr, rfl⟩ := recordAt_eq_some h
    exact ⟨length_set.trans hd.1, (length_recordIn hr).trans hd.2⟩
  keys d c d' k hd h := by
    obtain ⟨count, warnings, reported, -, hr, rfl⟩ := recordAt_eq_some h
    exact isSome_recordIn hr k
  follows d c d' hd h := by
    obtain ⟨count, warnings, reported, -, hr, rfl⟩ := recordAt_eq_some h
    rw [event, Option.elim_some]
    refine Eq.trans ?_ (limiterOf_recordIn hr)
    cases reported <;> simp [limiterOf, emissions, bucket]

theorem limiterOf_start : limiterOf bucket emissions withEmitter = .start := by
  unfold limiterOf Limiter.start
  congr 1
  funext i
  rw [bucket, withEmitter, getElem?_replicate]
  split_ifs <;> rfl

end NodeChangeDiagnostics
end Node

/-! ### Ingress -/

namespace Ingress

def oversizedWarningInterval : ℕ := 60000

structure OversizedCall where
  subject : String
  collection : String
  payloadBytes : ℕ
  now : ℕ
deriving DecidableEq

/-- `IngressDiagnostics`, with what it has emitted and when. Each configured subject has an entry. -/
structure IngressDiagnostics where
  warnings : List (String × Bucket)
  emitted : List (IngressAction × ℕ)

namespace IngressDiagnostics

def withEmitter (subjects : List String) : IngressDiagnostics :=
  ⟨subjects.map fun subject => (subject, .empty), []⟩

def oversizedAction (call : OversizedCall) (suppressedCount : ℕ) : IngressAction :=
  ⟨.oversizedPayload, some call.subject, some call.collection, some call.payloadBytes, none, none,
    none, some suppressedCount, .oversizedPayload⟩

def recordOversizedAt (d : IngressDiagnostics) (call : OversizedCall) : IngressDiagnostics :=
  match d.warnings.lookup call.subject with
  | none => d
  | some b =>
    let r := b.record u64Max oversizedWarningInterval call.now
    { warnings := d.warnings.map fun e => if e.1 = call.subject then (e.1, r.1) else e
      emitted := d.emitted ++ (r.2.map fun n => (oversizedAction call n, call.now)).toList }

def event (subjects : List String) (call : OversizedCall) : Option (String × ℕ) :=
  if call.subject ∈ subjects then some (call.subject, call.now) else none

def bucket (d : IngressDiagnostics) (subject : String) : Option Bucket := d.warnings.lookup subject

def emissions (d : IngressDiagnostics) : List (Emission String) :=
  d.emitted.map fun e => ⟨e.1.subject.getD "", e.2, e.1.suppressedCount.getD 0⟩

/-- The map has the configured subjects. -/
def Seeded (subjects : List String) (d : IngressDiagnostics) : Prop :=
  d.warnings.map Prod.fst = subjects

theorem lookup_eq_none_iff {warnings : List (String × Bucket)} :
    warnings.lookup subject = none ↔ subject ∉ warnings.map Prod.fst := by
  rw [List.lookup_eq_none_iff]
  simp only [List.mem_map, not_exists, not_and, bne_iff_ne]
  exact forall₂_congr fun _ _ => ⟨Ne.symm, Ne.symm⟩

theorem lookup_update (warnings : List (String × Bucket)) (subject : String) (b : Bucket)
    (k : String) :
    (warnings.map fun e => if e.1 = subject then (e.1, b) else e).lookup k =
      if k = subject then (warnings.lookup k).map fun _ => b else warnings.lookup k := by
  induction warnings with
  | nil => simp
  | cons e warnings ih =>
    obtain ⟨key, old⟩ := e
    by_cases hkey : key = subject
    · subst hkey
      by_cases hk : k = key
      · subst hk
        simp
      · have hbeq : (k == key) = false := beq_false_of_ne hk
        simp only [map_cons, if_true, lookup_cons, hbeq, ih, if_neg hk]
    · by_cases hk : k = key
      · subst hk
        simp [hkey]
      · have hbeq : (k == key) = false := beq_false_of_ne hk
        simp only [map_cons, if_neg hkey, lookup_cons, hbeq, ih]

theorem recordOversizedAt_of_some {d : IngressDiagnostics}
    (h : d.warnings.lookup call.subject = some b) :
    d.recordOversizedAt call = ⟨d.warnings.map fun e => if e.1 = call.subject then
          (e.1, (b.record u64Max oversizedWarningInterval call.now).1) else e,
        d.emitted ++ ((b.record u64Max oversizedWarningInterval call.now).2.map
          fun n => (oversizedAction call n, call.now)).toList⟩ := by
  rw [recordOversizedAt, h]

theorem implements (subjects : List String) :
    Implements u64Max oversizedWarningInterval (fun d c => some (recordOversizedAt d c))
      (event subjects) bucket emissions (Seeded subjects) where
  total d c _ := ⟨_, rfl⟩
  kept d c d' hd h := by
    cases h
    cases hb : d.warnings.lookup c.subject with
    | none =>
      rw [recordOversizedAt, hb]
      exact hd
    | some b =>
      rw [recordOversizedAt_of_some hb, Seeded, map_map, ← hd]
      refine map_congr_left fun e _ => ?_
      rw [Function.comp_apply]
      split_ifs <;> rfl
  keys d c d' k hd h := by
    cases h
    cases hb : d.warnings.lookup c.subject with
    | none => rw [recordOversizedAt, hb]
    | some b =>
      rw [recordOversizedAt_of_some hb, bucket, bucket, lookup_update]
      split_ifs <;> simp
  follows d c d' hd h := by
    cases h
    cases hb : d.warnings.lookup c.subject with
    | none =>
      have hnew : c.subject ∉ subjects := hd ▸ lookup_eq_none_iff.1 hb
      rw [recordOversizedAt, hb, event, if_neg hnew, Option.elim_none]
    | some b =>
      have hold : c.subject ∈ subjects := by
        by_contra hno
        rw [← hd] at hno
        simp [lookup_eq_none_iff.2 hno] at hb
      have hbucket : (limiterOf bucket emissions d).bucket c.subject = b := by
        simp [limiterOf, bucket, hb]
      rw [event, if_pos hold, Option.elim_some, Limiter.record]
      dsimp only
      rw [hbucket, recordOversizedAt_of_some hb]
      unfold limiterOf
      congr 1
      · funext k
        rw [bucket, lookup_update, Function.update_apply]
        split_ifs with hk
        · rw [hk, hb, Option.map_some, Option.getD_some]
        · rfl
      · cases (b.record u64Max oversizedWarningInterval c.now).2 <;>
          simp [emissions, oversizedAction]

theorem limiterOf_start (subjects : List String) :
    limiterOf bucket emissions (withEmitter subjects) = .start := by
  unfold limiterOf Limiter.start
  congr 1
  funext k
  rw [bucket, withEmitter]
  induction subjects with
  | nil => rfl
  | cons subject subjects ih =>
    rw [map_cons, lookup_cons]
    split
    · rfl
    · exact ih

end IngressDiagnostics
end Ingress

/-! ### No count is lost -/

namespace Bridge

open Egress Node Ingress

/-- **No diagnostic is lost**: in each of the three, over all runs of fewer than `2^64` calls at
any times, a bucket accounts for exactly the calls that belong to it, and every call finds its
bucket. -/
theorem diagnostics_lose_no_count :
    (∀ routeCount d₀, EgressDiagnostics.withEmitter routeCount = some d₀ →
      Counts u64Max egressDiagnosticInterval EgressDiagnostics.recordAt
        (EgressDiagnostics.event routeCount) EgressDiagnostics.bucket
        EgressDiagnostics.emissions d₀ ∧
      (∀ action, EgressDiagnostics.bucketIndex routeCount action < d₀.buckets.length) ∧
      ∀ a b : EgressAction,
        EgressDiagnostics.bucketIndex routeCount a = EgressDiagnostics.bucketIndex routeCount b ↔
          a.kind = b.kind ∧
            a.routeIndex.filter (· < routeCount) = b.routeIndex.filter (· < routeCount)) ∧
    (Counts u64Max nodeChangeWarningInterval NodeChangeDiagnostics.recordAt
        NodeChangeDiagnostics.event NodeChangeDiagnostics.bucket NodeChangeDiagnostics.emissions
        NodeChangeDiagnostics.withEmitter ∧
      (∀ path kind, NodeChangeDiagnostics.index path kind <
        NodeChangeDiagnostics.withEmitter.warnings.length) ∧
      ∀ path kind path' kind',
        NodeChangeDiagnostics.index path kind = NodeChangeDiagnostics.index path' kind' ↔
          path = path' ∧ kind = kind') ∧
    ∀ subjects, Counts u64Max oversizedWarningInterval
      (fun d c => some (IngressDiagnostics.recordOversizedAt d c))
      (IngressDiagnostics.event subjects) IngressDiagnostics.bucket IngressDiagnostics.emissions
      (IngressDiagnostics.withEmitter subjects) := by
  refine ⟨?_, ⟨?_, ?_, fun _ _ _ _ => NodeChangeDiagnostics.index_eq_iff⟩, ?_⟩
  · intro routeCount d₀ h
    have hsized : EgressDiagnostics.Sized routeCount d₀ := by
      obtain rfl := EgressDiagnostics.eq_of_withEmitter h
      exact ⟨rfl, length_replicate⟩
    refine ⟨(EgressDiagnostics.implements routeCount).counts hsized
      (EgressDiagnostics.limiterOf_start h), ?_, fun _ _ => EgressDiagnostics.bucketIndex_eq_iff⟩
    rw [hsized.2]
    exact EgressDiagnostics.bucketIndex_lt routeCount
  · exact NodeChangeDiagnostics.implements.counts ⟨length_replicate, length_replicate⟩
      NodeChangeDiagnostics.limiterOf_start
  · intro path kind
    exact (NodeChangeDiagnostics.index_lt path kind).trans_eq length_replicate.symm
  · intro subjects
    refine (IngressDiagnostics.implements subjects).counts ?_
      (IngressDiagnostics.limiterOf_start subjects)
    simp [IngressDiagnostics.Seeded, IngressDiagnostics.withEmitter, Function.comp_def]

/-- Three losses on one route: one is emitted, one held back and reported with the third. -/
theorem diagnostics_lose_no_count_queueFull : ∃ d₀ d, EgressDiagnostics.withEmitter 1 = some d₀ ∧
    Lts.exec EgressDiagnostics.recordAt d₀
      [(⟨.lost .queueFull, some 0, none, 0⟩, 5), (⟨.lost .queueFull, some 0, none, 0⟩, 60004),
        (⟨.lost .queueFull, some 0, none, 0⟩, 60005)] = some d ∧
    d.bucket 26 = some ⟨some 120005, 0⟩ ∧
    Accounted egressDiagnosticInterval 3 (d.emissions.filter (·.key = 26)) 0 :=
  ⟨_, _, rfl, rfl, rfl, (diagnostics_lose_no_count.1 1 _ rfl).1.accounted
    [(⟨.lost .queueFull, some 0, none, 0⟩, 5), (⟨.lost .queueFull, some 0, none, 0⟩, 60004),
      (⟨.lost .queueFull, some 0, none, 0⟩, 60005)] _ (by decide) rfl 26 _ rfl⟩

end Bridge
end PeatNode
