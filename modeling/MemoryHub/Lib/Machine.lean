import Mathlib.Data.List.Infix
import Mathlib.Logic.Function.Basic
import Mathlib.Tactic.Common

/-!
# Guarded machines

A machine is a partial step function: `step s a` is the state after the action
`a`, and `none` when `a` is not enabled in `s`.  All choice a system leaves open
(which party moves, what a clock or a generator returns, which fault strikes)
is part of the action, so one executable function serves replay and proof.

Main results:

- Theorem `run_history`: induction along a run, relating the actions taken so
  far to the state they lead to.
- Theorem `run_invariant_of_stepsMeet`: an invariant that steps of one kind keep
  holds at the end of every run made of such steps.
- Theorem `throughout_iff_stepsMeet`: when a step keeps the invariant exactly
  if it meets a condition, the invariant holds throughout a run exactly if every
  step of the run meets it.
- Theorem `since_snoc`: the one-step law of "happened, and not undone since".
- Theorem `LastActed.act`: whoever acts at a place is the last to have acted there.
-/

namespace Machine

variable {σ α β : Type*}

/-! ## Runs -/

/-- Take the actions in order; `none` as soon as one is not enabled. -/
def run (step : σ → α → Option σ) : σ → List α → Option σ
  | s, [] => some s
  | s, a :: as => (step s a).bind fun t => run step t as

/-- `s` is the end of some run from `s₀`. -/
def Reachable (step : σ → α → Option σ) (s₀ s : σ) : Prop :=
  ∃ as, run step s₀ as = some s

/-- Every step the run takes meets the condition `P` on its source state and
action. -/
def StepsMeet (step : σ → α → Option σ) (P : σ → α → Prop) : σ → List α → Prop
  | _, [] => True
  | s, a :: as => ∀ t, step s a = some t → P s a ∧ StepsMeet step P t as

/-- Some step the run takes meets the condition `P` on its source state and action. -/
def SomeStepMeets (step : σ → α → Option σ) (P : σ → α → Prop) (s : σ) (as : List α) : Prop :=
  ∃ pre a post t, as = pre ++ a :: post ∧ run step s pre = some t ∧ P t a

/-- `I` holds in every state the run visits, the first and the last included. -/
def Throughout (step : σ → α → Option σ) (I : σ → Prop) : σ → List α → Prop
  | s, [] => I s
  | s, a :: as => I s ∧ ∀ t, step s a = some t → Throughout step I t as

variable {step : σ → α → Option σ}

@[simp]
theorem run_nil (s : σ) : run step s [] = some s :=
  rfl

/-- A run that starts with `a` takes `a` and runs on from there. -/
theorem run_cons_eq_some {s u : σ} {a : α} {as : List α} :
    run step s (a :: as) = some u ↔ ∃ t, step s a = some t ∧ run step t as = some u := by
  simp [run, Option.bind_eq_some_iff]

/-- Running two action lists in sequence is running their concatenation. -/
theorem run_append_eq_some {s u : σ} {as bs : List α} :
    run step s (as ++ bs) = some u ↔
      ∃ t, run step s as = some t ∧ run step t bs = some u := by
  induction as generalizing s with
  | nil => simp
  | cons a as ih =>
      rw [List.cons_append, run_cons_eq_some]
      constructor
      · rintro ⟨r, hr, hrun⟩
        obtain ⟨t, ht, hu⟩ := ih.mp hrun
        exact ⟨t, run_cons_eq_some.mpr ⟨r, hr, ht⟩, hu⟩
      · rintro ⟨t, ht, hu⟩
        obtain ⟨r, hr, hrt⟩ := run_cons_eq_some.mp ht
        exact ⟨r, hr, ih.mpr ⟨t, hrt, hu⟩⟩

/-- A run that ends with `a` runs up to it and takes it. -/
theorem run_snoc_eq_some {s u : σ} {a : α} {as : List α} :
    run step s (as ++ [a]) = some u ↔ ∃ t, run step s as = some t ∧ step t a = some u := by
  simp [run_append_eq_some, run_cons_eq_some]

/-- A step of a longer run that meets `P` is one of the run before, or the last one. -/
theorem someStepMeets_snoc {P : σ → α → Prop} {s t : σ} {a : α} {as : List α}
    (hrun : run step s as = some t) :
    SomeStepMeets step P s (as ++ [a]) ↔ SomeStepMeets step P s as ∨ P t a := by
  constructor
  · rintro ⟨pre, b, post, u, heq, hu, hb⟩
    rcases List.eq_nil_or_concat post with rfl | ⟨post, c, rfl⟩
    · have hlast := List.append_inj' heq rfl
      rcases hlast with ⟨rfl, hab⟩
      cases hab
      rw [hrun, Option.some.injEq] at hu
      exact Or.inr (hu ▸ hb)
    · have hsplit : as ++ [a] = (pre ++ b :: post) ++ [c] := by simpa using heq
      rcases List.append_inj' hsplit rfl with ⟨rfl, -⟩
      exact Or.inl ⟨pre, b, post, u, rfl, hu, hb⟩
  · rintro (⟨pre, b, post, u, rfl, hu, hb⟩ | ha)
    · exact ⟨pre, b, post ++ [a], u, by simp, hu, hb⟩
    · exact ⟨as, a, [], t, rfl, hrun, ha⟩

/-- Induction along a run: `P` relates the actions taken so far to the state. -/
theorem run_history {s₀ : σ} {P : List α → σ → Prop} (hinit : P [] s₀)
    (hstep : ∀ as a s t, run step s₀ as = some s → P as s → step s a = some t →
      P (as ++ [a]) t)
    {as : List α} {s : σ} (hrun : run step s₀ as = some s) : P as s := by
  induction as using List.reverseRecOn generalizing s with
  | nil =>
      cases hrun
      exact hinit
  | append_singleton as a ih =>
      obtain ⟨t, ht, hs⟩ := run_snoc_eq_some.mp hrun
      exact hstep as a t s ht (ih ht) hs

/-- What holds at the start and survives every step holds at the end of a run. -/
theorem run_invariant {I : σ → Prop}
    (hstep : ∀ s a t, I s → step s a = some t → I t)
    {s t : σ} {as : List α} (hs : I s) (hrun : run step s as = some t) : I t :=
  run_history (P := fun _ s => I s) hs (fun _ a s t _ hI h => hstep s a t hI h) hrun

/-- What survives every step that meets `P` survives a run of such steps. -/
theorem run_invariant_of_stepsMeet {I : σ → Prop} {P : σ → α → Prop}
    (hstep : ∀ s a t, I s → P s a → step s a = some t → I t) :
    ∀ {as : List α} {s t : σ}, I s → StepsMeet step P s as →
      run step s as = some t → I t
  | [], s, t, hs, _, hrun => by
      cases hrun
      exact hs
  | a :: as, s, t, hs, hmeet, hrun => by
      obtain ⟨r, hr, hrt⟩ := run_cons_eq_some.mp hrun
      obtain ⟨hP, hrest⟩ := hmeet r hr
      exact run_invariant_of_stepsMeet hstep (hstep s a r hs hP hr) hrest hrt

/-- If steps meeting `P` keep an invariant under which every step meets `Q`, a run
of steps meeting `P` is a run of steps meeting `Q`. -/
theorem StepsMeet.of_invariant {I : σ → Prop} {P Q : σ → α → Prop}
    (hkeep : ∀ s a t, I s → P s a → step s a = some t → I t)
    (hmeet : ∀ s a t, I s → step s a = some t → Q s a) {as : List α} {s : σ} (hs : I s)
    (h : StepsMeet step P s as) : StepsMeet step Q s as := by
  induction as generalizing s with
  | nil => trivial
  | cons a as ih =>
      intro t ht
      rcases h t ht with ⟨hP, hrest⟩
      exact ⟨hmeet s a t hs ht, ih (hkeep s a t hs hP ht) hrest⟩

/-- Conditions that agree under an invariant are met by the same runs. -/
theorem stepsMeet_congr {I : σ → Prop} {P Q : σ → α → Prop}
    (hkeep : ∀ s a t, I s → step s a = some t → I t) (hiff : ∀ s a, I s → (P s a ↔ Q s a))
    {as : List α} {s : σ} (hs : I s) : StepsMeet step P s as ↔ StepsMeet step Q s as := by
  induction as generalizing s with
  | nil => exact Iff.rfl
  | cons a as ih =>
      simp only [StepsMeet]
      refine forall₂_congr fun t ht => ?_
      rw [hiff s a hs, ih (hkeep s a t hs ht)]

/-- Whether all steps of a run meet a decidable condition is decidable. -/
instance StepsMeet.decidable (P : σ → α → Prop) [∀ s a, Decidable (P s a)] :
    ∀ s as, Decidable (StepsMeet step P s as)
  | _, [] => isTrue trivial
  | s, a :: as =>
      match h : step s a with
      | none => isTrue fun t ht => by simp [h] at ht
      | some t =>
          have := StepsMeet.decidable P t as
          decidable_of_iff (P s a ∧ StepsMeet step P t as) (by
            simp only [StepsMeet, h, Option.some.injEq, forall_eq'])

/-! ## Invariants over a whole run -/

/-- Holding throughout a run is holding after each prefix of its actions. -/
theorem throughout_iff {I : σ → Prop} {as : List α} {s : σ} :
    Throughout step I s as ↔ ∀ pre, pre <+: as → ∀ t, run step s pre = some t → I t := by
  induction as generalizing s with
  | nil =>
      constructor
      · intro h pre hpre t ht
        rw [List.prefix_nil] at hpre
        subst hpre
        cases ht
        exact h
      · intro h
        exact h [] (List.prefix_refl []) s rfl
  | cons a as ih =>
      constructor
      · rintro ⟨hs, hrest⟩ pre hpre t ht
        cases pre with
        | nil =>
            cases ht
            exact hs
        | cons b pre =>
            obtain ⟨rfl, htail⟩ := List.cons_prefix_cons.mp hpre
            obtain ⟨r, hr, hrt⟩ := run_cons_eq_some.mp ht
            exact ih.mp (hrest r hr) pre htail t hrt
      · intro h
        refine ⟨h [] List.nil_prefix s rfl, ?_⟩
        intro r hr
        refine ih.mpr fun pre hpre t ht => ?_
        exact h (a :: pre) (List.cons_prefix_cons.mpr ⟨rfl, hpre⟩) t
          (run_cons_eq_some.mpr ⟨r, hr, ht⟩)

/-- What survives every step that meets `P` holds throughout a run of such steps, and
so does what it implies. -/
theorem throughout_of_stepsMeet {I Q : σ → Prop} {P : σ → α → Prop}
    (hkeep : ∀ s a t, I s → P s a → step s a = some t → I t) (himp : ∀ s, I s → Q s)
    {as : List α} {s : σ} (hs : I s) (h : StepsMeet step P s as) : Throughout step Q s as := by
  induction as generalizing s with
  | nil => exact himp s hs
  | cons a as ih =>
      refine ⟨himp s hs, ?_⟩
      intro t ht
      rcases h t ht with ⟨hP, hrest⟩
      exact ih (hkeep s a t hs hP ht) hrest

/-- If, under an invariant `J` of all steps, a step keeps `I` exactly when it
meets `P`, then `I` holds throughout a run exactly when all its steps meet `P`. -/
theorem throughout_iff_stepsMeet {I J : σ → Prop} {P : σ → α → Prop}
    (hJ : ∀ s a t, J s → step s a = some t → J t)
    (hexact : ∀ s a t, J s → I s → step s a = some t → (I t ↔ P s a))
    {as : List α} {s : σ} (hs : I s) (hJs : J s) :
    Throughout step I s as ↔ StepsMeet step P s as := by
  induction as generalizing s with
  | nil => simp [Throughout, StepsMeet, hs]
  | cons a as ih =>
      simp only [Throughout, StepsMeet, hs, true_and]
      refine forall₂_congr fun t ht => ?_
      have hJt : J t := hJ s a t hJs ht
      constructor
      · intro h
        have hIt : I t := throughout_iff.mp h [] List.nil_prefix t rfl
        exact ⟨(hexact s a t hJs hs ht).mp hIt, (ih hIt hJt).mp h⟩
      · rintro ⟨hP, hmeet⟩
        exact (ih ((hexact s a t hJs hs ht).mpr hP) hJt).mpr hmeet

/-- If every step that fails `P` leaves a mark that all steps keep, a run that ends without
the mark meets `P` in every step. -/
theorem stepsMeet_of_unmarked {J marked : σ → Prop} {P : σ → α → Prop}
    (hJ : ∀ s a t, J s → step s a = some t → J t)
    (hkeep : ∀ s a t, J s → step s a = some t → marked s → marked t)
    (hmark : ∀ s a t, J s → step s a = some t → ¬ P s a → marked t) {as : List α} {s t : σ}
    (hs : J s) (hrun : run step s as = some t) (hend : ¬ marked t) : StepsMeet step P s as := by
  induction as generalizing s with
  | nil => trivial
  | cons a as ih =>
      obtain ⟨r, hr, hrt⟩ := run_cons_eq_some.mp hrun
      have hJr : J r := hJ s a r hs hr
      intro r' hr'
      rw [hr, Option.some.injEq] at hr'
      subst hr'
      refine ⟨?_, ih hJr hrt⟩
      by_contra hP
      have hclash : J t ∧ marked t :=
        run_invariant (I := fun s => J s ∧ marked s)
          (fun s a t h hst => ⟨hJ s a t h.1 hst, hkeep s a t h.1 hst h.2⟩)
          ⟨hJr, hmark s a r hs hr hP⟩ hrt
      exact hend hclash.2

/-! ## Histories -/

/-- Some entry of the history satisfies `born` and no later one satisfies
`killed`. -/
def Since (born killed : β → Prop) (history : List β) : Prop :=
  ∃ pre e post, history = pre ++ e :: post ∧ born e ∧ ∀ x ∈ post, ¬ killed x

@[simp]
theorem since_nil (born killed : β → Prop) : ¬ Since born killed [] := by
  rintro ⟨pre, e, post, h, -⟩
  simp at h

/-- One more entry either is the birth itself or leaves an earlier one alive. -/
theorem since_snoc {born killed : β → Prop} {history : List β} {e : β} :
    Since born killed (history ++ [e]) ↔
      born e ∨ (Since born killed history ∧ ¬ killed e) := by
  constructor
  · rintro ⟨pre, b, post, heq, hb, hpost⟩
    rcases List.eq_nil_or_concat post with rfl | ⟨post, x, rfl⟩
    · have hlast : e = b := by
        have := congrArg List.getLast? heq
        simpa using this
      exact Or.inl (hlast ▸ hb)
    · have hsplit : history ++ [e] = (pre ++ b :: post) ++ [x] := by simpa using heq
      obtain ⟨hhist, hex⟩ := List.append_inj' hsplit rfl
      have hex : e = x := by simpa using hex
      subst hex
      refine Or.inr ⟨⟨pre, b, post, hhist, hb, ?_⟩, hpost e (by simp)⟩
      exact fun y hy => hpost y (by simp [hy])
  · rintro (hb | ⟨⟨pre, b, post, rfl, hb, hpost⟩, hk⟩)
    · exact ⟨history, e, [], rfl, hb, by simp⟩
    · refine ⟨pre, b, post ++ [e], by simp, hb, ?_⟩
      intro x hx
      rcases List.mem_append.mp hx with hx | hx
      · exact hpost x hx
      · rw [List.mem_singleton.mp hx]
        exact hk

/-! ## Who acted last -/

section

variable {ι κ : Type*} {place : ι → Option κ} {acted acted' : ι → Prop} {last : κ → Option ι}

/-- For each place `last` names someone who has acted there, if anyone has. -/
structure LastActed (place : ι → Option κ) (acted : ι → Prop) (last : κ → Option ι) : Prop where
  sound : ∀ k i, last k = some i → place i = some k ∧ acted i
  complete : ∀ k i, place i = some k → acted i → last k ≠ none

theorem LastActed.congr (h : LastActed place acted last) (hacted : ∀ i, acted' i ↔ acted i) :
    LastActed place acted' last where
  sound := by
    intro k i hi
    rw [hacted]
    exact h.sound k i hi
  complete := by
    intro k i hplace hi
    exact h.complete k i hplace ((hacted i).mp hi)

variable [DecidableEq κ]

/-- Whoever acts at a place is the last to have acted there. -/
theorem LastActed.act (h : LastActed place acted last) {i : ι} {k : κ} (hplace : place i = some k)
    (hacted : ∀ j, acted' j ↔ j = i ∨ acted j) :
    LastActed place acted' (Function.update last k (some i)) where
  sound := by
    intro k' j hj
    by_cases hk : k' = k
    · rw [hk, Function.update_self] at hj
      cases hj
      exact ⟨hk ▸ hplace, (hacted i).mpr (Or.inl rfl)⟩
    · rw [Function.update_of_ne hk] at hj
      rcases h.sound k' j hj with ⟨hj', hbefore⟩
      exact ⟨hj', (hacted j).mpr (Or.inr hbefore)⟩
  complete := by
    intro k' j hj hdone
    by_cases hk : k' = k
    · rw [hk, Function.update_self]
      simp
    · rw [Function.update_of_ne hk]
      rcases (hacted j).mp hdone with heq | hbefore
      · rw [heq, hplace] at hj
        exact absurd (Option.some.inj hj).symm hk
      · exact h.complete k' j hj hbefore

/-- What places hold after the last to act there has left something, when before they held
what was there at the start or had been left by the last. -/
theorem update_eq_elim {start holds : κ → α} {leaves : ι → α} {k' : κ}
    (h : holds k' = (last k').elim (start k') leaves) (k : κ) (i : ι) :
    Function.update holds k (leaves i) k' =
      (Function.update last k (some i) k').elim (start k') leaves := by
  by_cases hk : k' = k
  · rw [hk, Function.update_self, Function.update_self, Option.elim_some]
  · rw [Function.update_of_ne hk, Function.update_of_ne hk]
    exact h

end

end Machine
