/-
# Runs of a deterministic labelled system

A system is a partial function `step : σ → α → Option σ`: the label carries every choice of the
environment and of the scheduler, and `none` means that the step is not enabled.  `exec` runs a list
of labels, `Along` asks a condition of every step of a run, and `exec_invariant` is the induction
over a run that every safety result of a system goes through.
-/

import Mathlib.Data.List.Basic

namespace Lts

open List Option

variable {σ α : Type*} {step : σ → α → Option σ} {ok : σ → α → Prop}

/-- `none` if a label is not enabled. -/
def exec (step : σ → α → Option σ) (s : σ) (labels : List α) : Option σ := labels.foldlM step s

@[simp] theorem exec_nil (s : σ) : exec step s [] = some s := rfl

@[simp] theorem exec_cons (s : σ) (a : α) (as : List α) :
    exec step s (a :: as) = (step s a).bind fun s' => exec step s' as := rfl

theorem exec_append (s : σ) (as bs : List α) :
    exec step s (as ++ bs) = (exec step s as).bind fun s' => exec step s' bs := by
  simp only [exec, foldlM_append]
  rfl

theorem exec_concat (hrun : exec step s as = some t) (h : step t a = some u) :
    exec step s (as ++ [a]) = some u := by
  rw [exec_append, hrun, bind_some, exec_cons, h, bind_some, exec_nil]

variable {s s' : σ}

theorem exec_cons_eq_some :
    exec step s (a :: as) = some s' ↔ ∃ t, step s a = some t ∧ exec step t as = some s' := by
  rw [exec_cons, bind_eq_some_iff]

/-- Where every step is enabled, every list of labels is a run. -/
theorem exists_exec (h : ∀ s a, ∃ t, step s a = some t) (s : σ) (as : List α) :
    ∃ t, exec step s as = some t := by
  induction as generalizing s with
  | nil => exact ⟨s, rfl⟩
  | cons a as ih =>
    obtain ⟨t, ht⟩ := h s a
    obtain ⟨u, hu⟩ := ih t
    exact ⟨u, exec_cons_eq_some.2 ⟨t, ht, hu⟩⟩

/-- What is decided of the end of a run, and what follows for it. -/
theorem exists_mem_and {o : Option σ} {P Q : σ → Prop} (h : ∃ s ∈ o, P s)
    (hQ : ∀ s, o = some s → P s → Q s) : ∃ s ∈ o, P s ∧ Q s := by
  obtain ⟨s, hs, hP⟩ := h
  exact ⟨s, hs, hP, hQ s hs hP⟩

/-- The same for a run and what is found or done at its end. -/
theorem exists_mem_mem_and {τ : Type*} {o : Option σ} {o' : σ → Option τ} {P Q : σ → τ → Prop}
    (h : ∃ s ∈ o, ∃ t ∈ o' s, P s t) (hQ : ∀ s t, o = some s → o' s = some t → P s t → Q s t) :
    ∃ s ∈ o, ∃ t ∈ o' s, P s t ∧ Q s t := by
  obtain ⟨s, hs, t, ht, hP⟩ := h
  exact ⟨s, hs, t, ht, hP, hQ s t hs ht hP⟩

/-- Every step meets `ok` where it starts. -/
def Along (step : σ → α → Option σ) (ok : σ → α → Prop) : σ → List α → Prop
  | _, [] => True
  | s, a :: as => ok s a ∧ ∀ s', step s a = some s' → Along step ok s' as

theorem along_cons_of_none (h : step s a = none) : Along step ok s (a :: as) ↔ ok s a := by
  constructor
  · intro hal
    exact hal.1
  · intro ha
    refine ⟨ha, fun s' hs' => ?_⟩
    rw [h] at hs'
    simp at hs'

theorem along_cons_of_some (h : step s a = some t) :
    Along step ok s (a :: as) ↔ ok s a ∧ Along step ok t as := by
  constructor
  · rintro ⟨ha, hnext⟩
    exact ⟨ha, hnext t h⟩
  · rintro ⟨ha, hal⟩
    refine ⟨ha, fun s' hs' => ?_⟩
    rw [h, some.injEq] at hs'
    exact hs' ▸ hal

/-- A condition that can be tested can be tested along a run. -/
instance decidableAlong [∀ s a, Decidable (ok s a)] :
    (s : σ) → (as : List α) → Decidable (Along step ok s as)
  | _, [] => .isTrue trivial
  | s, a :: as =>
    match h : step s a with
    | none => decidable_of_iff _ (along_cons_of_none h).symm
    | some t =>
      have := decidableAlong t as
      decidable_of_iff _ (along_cons_of_some h).symm

/-- **Invariant rule.**  What every step under `ok` preserves, every run under
`ok` preserves. -/
theorem exec_invariant (Inv : σ → Prop)
    (hstep : ∀ s a s', Inv s → ok s a → step s a = some s' → Inv s') (hs : Inv s)
    (hok : Along step ok s as) (hrun : exec step s as = some s') : Inv s' := by
  induction as generalizing s with
  | nil =>
    rw [exec_nil, some.injEq] at hrun
    exact hrun ▸ hs
  | cons a as ih =>
    obtain ⟨t, hst, hrun⟩ := exec_cons_eq_some.1 hrun
    exact ih (hstep s a t hs hok.1 hst) (hok.2 t hst) hrun

/-- A condition that every label meets is met along every run. -/
theorem along_of_forall {P : α → Prop} (h : ∀ a ∈ as, P a) (s : σ) :
    Along step (fun _ a => P a) s as := by
  induction as generalizing s with
  | nil => exact trivial
  | cons a as ih =>
    exact ⟨h a mem_cons_self, fun s' _ => ih (fun b hb => h b (mem_cons_of_mem a hb)) s'⟩

/-- A condition that is only met under a hypothesis, step by step. -/
theorem along_imp {p : Prop} (h : p → Along step ok s as) :
    Along step (fun s a => p → ok s a) s as := by
  induction as generalizing s with
  | nil => exact trivial
  | cons a as ih => exact ⟨fun hp => (h hp).1, fun s' hs' => ih fun hp => (h hp).2 s' hs'⟩

/-- Conditions that agree wherever an invariant holds agree along a run. -/
theorem along_congr (Inv : σ → Prop) (hstep : ∀ s a s', Inv s → step s a = some s' → Inv s')
    (hiff : ∀ s a, Inv s → (P s a ↔ Q s a)) (hs : Inv s) (as : List α) :
    Along step P s as ↔ Along step Q s as := by
  induction as generalizing s with
  | nil => exact Iff.rfl
  | cons a as ih =>
    simp only [Along, hiff s a hs]
    refine and_congr_right fun _ => forall_congr' fun s' => forall_congr' fun h => ?_
    exact ih (hstep s a s' hs h)

/-- A condition that an invariant implies is met along every run. -/
theorem along_of_invariant (Inv : σ → Prop)
    (hstep : ∀ s a s', Inv s → step s a = some s' → Inv s') (hok : ∀ s a, Inv s → ok s a)
    (hs : Inv s) (as : List α) : Along step ok s as := by
  rw [along_congr (Q := fun _ _ => True) Inv hstep (fun s a hs => iff_true_intro (hok s a hs)) hs]
  exact along_of_forall (P := fun _ => True) (fun _ _ => trivial) s

/-- What every step preserves, every run preserves. -/
theorem exec_preserves (Inv : σ → Prop) (hstep : ∀ s a s', Inv s → step s a = some s' → Inv s')
    (hs : Inv s) (hrun : exec step s as = some s') : Inv s' :=
  exec_invariant Inv (fun s a s' hs _ h => hstep s a s' hs h) hs
    (along_of_forall (P := fun _ => True) (fun _ _ => trivial) s) hrun

/-- **Dichotomy rule.** If a good state stays good under `ok` and turns bad otherwise, and a bad
state stays bad, the end of a run `within` a condition says whether `ok` was met all along. -/
theorem exec_dichotomy_within (within : σ → α → Prop) (Good Bad : σ → Prop)
    (hgood : ∀ s a s', Good s → within s a → ok s a → step s a = some s' → Good s')
    (hbad : ∀ s a s', Good s → within s a → ¬ ok s a → step s a = some s' → Bad s')
    (hstay : ∀ s a s', Bad s → within s a → step s a = some s' → Bad s') (hs : Good s)
    (hwithin : Along step within s as) (hrun : exec step s as = some s') :
    Along step ok s as ∧ Good s' ∨ ¬ Along step ok s as ∧ Bad s' := by
  induction as generalizing s with
  | nil =>
    rw [exec_nil, some.injEq] at hrun
    exact .inl ⟨trivial, hrun ▸ hs⟩
  | cons a as ih =>
    obtain ⟨t, hst, hrun⟩ := exec_cons_eq_some.1 hrun
    have hhead : within s a := hwithin.1
    have htail : Along step within t as := hwithin.2 t hst
    by_cases ha : ok s a
    · rcases ih (hgood s a t hs hhead ha hst) htail hrun with ⟨hal, hg⟩ | ⟨hal, hb⟩
      · refine .inl ⟨⟨ha, fun u hu => ?_⟩, hg⟩
        rw [hst, some.injEq] at hu
        exact hu ▸ hal
      · exact .inr ⟨fun h => hal (h.2 t hst), hb⟩
    · refine .inr ⟨fun h => ha h.1, ?_⟩
      exact exec_invariant Bad hstay (hbad s a t hs hhead ha hst) htail hrun

theorem exec_dichotomy (Good Bad : σ → Prop)
    (hgood : ∀ s a s', Good s → ok s a → step s a = some s' → Good s')
    (hbad : ∀ s a s', Good s → ¬ ok s a → step s a = some s' → Bad s')
    (hstay : ∀ s a s', Bad s → step s a = some s' → Bad s') (hs : Good s)
    (hrun : exec step s as = some s') :
    Along step ok s as ∧ Good s' ∨ ¬ Along step ok s as ∧ Bad s' :=
  exec_dichotomy_within (fun _ _ => True) Good Bad (fun s a s' h _ => hgood s a s' h)
    (fun s a s' h _ => hbad s a s' h) (fun s a s' h _ => hstay s a s' h) hs
    (along_of_forall (P := fun _ => True) (fun _ _ => trivial) s) hrun

/-- What good ends have and bad ends lack holds at the end exactly when `ok` was
met all along. -/
theorem exec_dichotomy_iff (Good Bad : σ → Prop)
    (hgood : ∀ s a s', Good s → ok s a → step s a = some s' → Good s')
    (hbad : ∀ s a s', Good s → ¬ ok s a → step s a = some s' → Bad s')
    (hstay : ∀ s a s', Bad s → step s a = some s' → Bad s') (hs : Good s)
    (hrun : exec step s as = some s') (hP : Good s' → P) (hnot : Bad s' → ¬ P) :
    P ↔ Along step ok s as := by
  rcases exec_dichotomy Good Bad hgood hbad hstay hs hrun with ⟨hal, hend⟩ | ⟨hal, hend⟩
  · exact iff_of_true (hP hend) hal
  · exact iff_of_false (hnot hend) hal

/-- `P` in every state visited. -/
def Always (step : σ → α → Option σ) (P : σ → Prop) : σ → List α → Prop
  | s, [] => P s
  | s, a :: as => P s ∧ ∀ s', step s a = some s' → Always step P s' as

theorem Always.head (h : Always step P s as) : P s := by
  cases as with
  | nil => exact h
  | cons a as => exact h.1

/-- **Exactness rule.** If `ok` keeps an invariant that implies `P`, and a step against `ok`
breaks `P` at once, then a run `within` a condition keeps `P` throughout exactly when every step
of it meets `ok`. -/
theorem always_iff_along_within (within : σ → α → Prop) (Inv P : σ → Prop)
    (hstep : ∀ s a s', Inv s → within s a → ok s a → step s a = some s' → Inv s')
    (hbreak : ∀ s a s', Inv s → ¬ ok s a → step s a = some s' → ¬ P s') (hP : ∀ s, Inv s → P s)
    (hs : Inv s) (hwithin : Along step within s as) (hrun : exec step s as = some s') :
    Always step P s as ↔ Along step ok s as := by
  induction as generalizing s with
  | nil => exact ⟨fun _ => trivial, fun _ => hP s hs⟩
  | cons a as ih =>
    obtain ⟨t, hst, hrun⟩ := exec_cons_eq_some.1 hrun
    have hnext : (∀ u, step s a = some u → Always step P u as) ↔ Always step P t as := by
      simp [hst]
    have htail : Along step within t as := hwithin.2 t hst
    rw [along_cons_of_some hst, Always, hnext]
    constructor
    · rintro ⟨-, halw⟩
      have ha : ok s a := by
        by_contra ha
        exact hbreak s a t hs ha hst halw.head
      exact ⟨ha, (ih (hstep s a t hs hwithin.1 ha hst) htail hrun).1 halw⟩
    · rintro ⟨ha, hal⟩
      exact ⟨hP s hs, (ih (hstep s a t hs hwithin.1 ha hst) htail hrun).2 hal⟩

theorem always_iff_along (Inv P : σ → Prop)
    (hstep : ∀ s a s', Inv s → ok s a → step s a = some s' → Inv s')
    (hbreak : ∀ s a s', Inv s → ¬ ok s a → step s a = some s' → ¬ P s') (hP : ∀ s, Inv s → P s)
    (hs : Inv s) (hrun : exec step s as = some s') : Always step P s as ↔ Along step ok s as :=
  always_iff_along_within (fun _ _ => True) Inv P (fun s a s' h _ => hstep s a s' h) hbreak hP hs
    (along_of_forall (P := fun _ => True) (fun _ _ => trivial) s) hrun

/-- `next` sees each step with both states. -/
def history {γ : Type*} (step : σ → α → Option σ) (next : σ → α → σ → γ → γ) : σ → γ → List α → γ
  | _, g, [] => g
  | s, g, a :: as =>
    match step s a with
    | some s' => history step next s' (next s a s' g) as
    | none => g

theorem history_append {γ : Type*} {next : σ → α → σ → γ → γ} {g : γ} {as : List α}
    (h : exec step s as = some s') (bs : List α) :
    history step next s g (as ++ bs) = history step next s' (history step next s g as) bs := by
  induction as generalizing s g with
  | nil =>
    rw [exec_nil, some.injEq] at h
    rw [h]
    rfl
  | cons a as ih =>
    obtain ⟨t, hst, hrun⟩ := exec_cons_eq_some.1 h
    simp only [cons_append, history, hst]
    exact ih hrun

/-- **History rule.**  What every step under `ok` keeps of the state and the
history, every run under `ok` keeps. -/
theorem exec_history_along {γ : Type*} {next : σ → α → σ → γ → γ} (Inv : σ → γ → Prop)
    (hstep : ∀ s a s' g, Inv s g → ok s a → step s a = some s' → Inv s' (next s a s' g))
    {g : γ} {as : List α} (hs : Inv s g) (hok : Along step ok s as)
    (hrun : exec step s as = some s') : Inv s' (history step next s g as) := by
  induction as generalizing s g with
  | nil =>
    rw [exec_nil, some.injEq] at hrun
    exact hrun ▸ hs
  | cons a as ih =>
    obtain ⟨t, hst, hrun⟩ := exec_cons_eq_some.1 hrun
    have hnext : history step next s g (a :: as) = history step next t (next s a t g) as := by
      simp only [history, hst]
    rw [hnext]
    exact ih (hstep s a t g hs hok.1 hst) (hok.2 t hst) hrun

/-- What every step keeps of the state and the history, every run keeps. -/
theorem exec_history {γ : Type*} {next : σ → α → σ → γ → γ} (Inv : σ → γ → Prop)
    (hstep : ∀ s a s' g, Inv s g → step s a = some s' → Inv s' (next s a s' g)) {g : γ}
    {as : List α} (hs : Inv s g) (hrun : exec step s as = some s') :
    Inv s' (history step next s g as) :=
  exec_history_along Inv (fun s a s' g hs _ h => hstep s a s' g hs h) hs
    (along_of_forall (P := fun _ => True) (fun _ _ => trivial) s) hrun

/-- A history that stays clean exactly under `ok` tells at the end whether every step
met `ok`. -/
theorem history_clean_iff {γ : Type*} {next : σ → α → σ → γ → γ} (Clean : γ → Prop)
    (hnext : ∀ s a s' g, step s a = some s' → (Clean (next s a s' g) ↔ Clean g ∧ ok s a))
    {g : γ} {as : List α} (hrun : exec step s as = some s') :
    Clean (history step next s g as) ↔ Clean g ∧ Along step ok s as := by
  induction as generalizing s g with
  | nil => simp [history, Along]
  | cons a as ih =>
    obtain ⟨t, hst, hrun⟩ := exec_cons_eq_some.1 hrun
    have hhistory : history step next s g (a :: as) = history step next t (next s a t g) as := by
      simp only [history, hst]
    rw [hhistory, ih hrun, hnext s a t g hst, along_cons_of_some hst, and_assoc]

/-- **Simulation rule.** If every visible step of one system is a step of the other in the view
`f`, and every other step keeps the view, then the visible part of every run is a run of the other
system. -/
theorem exec_filterMap (f : σ → τ) (visible : α → Option β)
    (hvisible : ∀ s a s' b, step s a = some s' → visible a = some b → step' (f s) b = some (f s'))
    (hhidden : ∀ s a s', step s a = some s' → visible a = none → f s' = f s)
    (hrun : exec step s as = some s') : exec step' (f s) (as.filterMap visible) = some (f s') := by
  induction as generalizing s with
  | nil =>
    rw [exec_nil, some.injEq] at hrun
    rw [hrun]
    rfl
  | cons a as ih =>
    obtain ⟨t, hst, hrun⟩ := exec_cons_eq_some.1 hrun
    cases hv : visible a with
    | none =>
      rw [filterMap_cons_none hv, ← hhidden s a t hst hv]
      exact ih hrun
    | some b =>
      rw [filterMap_cons_some hv]
      exact exec_cons_eq_some.2 ⟨f t, hvisible s a t b hst hv, ih hrun⟩

end Lts
