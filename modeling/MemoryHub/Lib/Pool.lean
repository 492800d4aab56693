import MemoryHub.Lib.Machine
import MemoryHub.Lib.Prog

/-!
# Pools of programs

Programs run side by side in one environment.  A step lets one of them make its next
call; a schedule is the list of whose turn it was.  Programs are separated from others when
the calls of the others change nothing they see, and their own depend on nothing else.

Main results:

- Theorem `run_keeps`: what every call keeps, every schedule keeps.
- Theorem `run_seen`: a program goes on as it does when its responses are given in the states of
  its turns.
- Theorem `run_purged`: taking the turns of the other programs out of a schedule leaves
  separated programs, and what they see, as they were.
-/

/-- Programs over the calls `C`, one for each index, and their environment. -/
structure Pool (ι C : Type) (R : C → Type) (α σ : Type) where
  env : σ
  prog : ι → Prog C R α

namespace Pool

open Prog Machine

variable {ι C : Type} {R : C → Type} {α σ : Type}

/-- What program `i` has returned. -/
def result (p : Pool ι C R α σ) (i : ι) : Option α :=
  match p.prog i with
  | .pure a => some a
  | .call _ _ => none

/-- What a program has returned is what it is to return. -/
theorem result_meets {ok : ∀ c, R c → Prop} {P : C → Prop} {Q : α → Prop}
    {p : Pool ι C R α σ} {i : ι} (hprog : Meets ok P Q (p.prog i)) {a : α}
    (h : p.result i = some a) : Q a := by
  unfold result at h
  cases hi : p.prog i with
  | pure b =>
      rw [hi] at hprog h
      exact Option.some.inj h ▸ hprog
  | call c k => simp [hi] at h

variable [DecidableEq ι]

/-- Program `i` makes its next call; `none` when it has returned. -/
def step (handle : (c : C) → σ → R c × σ) (p : Pool ι C R α σ) (i : ι) :
    Option (Pool ι C R α σ) :=
  match p.prog i with
  | .pure _ => none
  | .call c k =>
      some ⟨(handle c p.env).2, Function.update p.prog i (k (handle c p.env).1)⟩

variable {handle : (c : C) → σ → R c × σ}

theorem step_eq_some {p q : Pool ι C R α σ} {i : ι} (h : step handle p i = some q) :
    ∃ c k, p.prog i = .call c k ∧ q.env = (handle c p.env).2 ∧
      q.prog = Function.update p.prog i (k (handle c p.env).1) := by
  unfold step at h
  cases hprog : p.prog i with
  | pure a => simp [hprog] at h
  | call c k =>
      simp only [hprog, Option.some.injEq] at h
      rw [← h]
      exact ⟨c, k, rfl, rfl, rfl⟩

/-- Whoever has the turn makes its next call. -/
theorem step_of_call {p : Pool ι C R α σ} {i : ι} {c : C} {k : R c → Prog C R α}
    (h : p.prog i = .call c k) :
    step handle p i =
      some ⟨(handle c p.env).2, Function.update p.prog i (k (handle c p.env).1)⟩ := by
  rw [step, h]

/-! ## Invariants -/

section

variable {ok : ∀ c, R c → Prop} {P : ι → C → Prop} {Q : ι → α → Prop} {I : σ → Prop}

/-- What every call of the programs keeps, a step keeps, and each program still meets what
it met. -/
theorem step_meets (hcall : ∀ i c s, P i c → I s → ok c (handle c s).1 ∧ I (handle c s).2)
    {p q : Pool ι C R α σ} {i : ι} (hinv : I p.env)
    (hprog : ∀ j, Meets ok (P j) (Q j) (p.prog j)) (hstep : step handle p i = some q) :
    I q.env ∧ ∀ j, Meets ok (P j) (Q j) (q.prog j) := by
  rcases step_eq_some hstep with ⟨c, k, hturn, henv, hnext⟩
  have hmeets := hprog i
  rw [hturn] at hmeets
  rcases hmeets with ⟨hP, hrest⟩
  rcases hcall i c p.env hP hinv with ⟨hok, hinv'⟩
  refine ⟨by rw [henv]; exact hinv', ?_⟩
  intro j
  rw [hnext]
  by_cases hj : j = i
  · rw [hj, Function.update_self]
    exact hrest _ hok
  · rw [Function.update_of_ne hj]
    exact hprog j

end

/-- What every call keeps, every schedule of any programs keeps. -/
theorem run_keeps {I : σ → Prop} (hcall : ∀ c s, I s → I (handle c s).2)
    {p q : Pool ι C R α σ} {turns : List ι} (hinv : I p.env)
    (hrun : run (step handle) p turns = some q) : I q.env := by
  refine run_invariant (I := fun p : Pool ι C R α σ => I p.env) ?_ hinv hrun
  intro p i q h hstep
  rcases step_eq_some hstep with ⟨c, k, -, henv, -⟩
  rw [henv]
  exact hcall c p.env h

/-- Where the states of the environment at the turns of a program are among some, it goes on as it
does when all its responses are given in these. -/
theorem run_seen {seen : σ → Prop} {P : C → Prop} {Q : α → Prop} {i : ι}
    {p q : Pool ι C R α σ} {turns : List ι}
    (hseen : ∀ before rest r, turns = before ++ i :: rest →
      run (step handle) p before = some r → seen r.env)
    (hprog : Meets (fun c r => ∃ s, seen s ∧ r = (handle c s).1) P Q (p.prog i))
    (hrun : run (step handle) p turns = some q) :
    Meets (fun c r => ∃ s, seen s ∧ r = (handle c s).1) P Q (q.prog i) := by
  induction turns generalizing p with
  | nil =>
      cases hrun
      exact hprog
  | cons j turns ih =>
      obtain ⟨r, hstep, hrest⟩ := run_cons_eq_some.mp hrun
      refine ih ?_ ?_ hrest
      · intro before rest t hturns ht
        exact hseen (j :: before) rest t (by rw [hturns]; rfl)
          (run_cons_eq_some.mpr ⟨r, hstep, ht⟩)
      · rcases step_eq_some hstep with ⟨c, k, hturn, -, hnext⟩
        rw [hnext]
        by_cases hij : i = j
        · subst hij
          rw [Function.update_self]
          rw [hturn] at hprog
          exact hprog.2 _ ⟨p.env, hseen [] turns p rfl rfl, rfl⟩
        · rw [Function.update_of_ne hij]
          exact hprog

/-- The environment is in this state at a turn of the program. -/
def AtTurn (handle : (c : C) → σ → R c × σ) (p : Pool ι C R α σ) (turns : List ι) (i : ι) (s : σ) :
    Prop :=
  ∃ before rest q, turns = before ++ i :: rest ∧ run (step handle) p before = some q ∧ q.env = s

/-! ## Separated programs -/

/-- Some calls do not meet others: `alike s t` says that `s` and `t` are the same to the
calls in `own`; the calls in `other` do not change that, and the calls in `own` depend on
nothing else. -/
structure Separated (handle : (c : C) → σ → R c × σ) (own other : C → Prop) (inv : σ → Prop)
    (alike : σ → σ → Prop) : Prop where
  keeps : ∀ c s, own c ∨ other c → inv s → inv (handle c s).2
  spares : ∀ c s t, other c → inv s → alike s t → alike (handle c s).2 t
  same : ∀ c s t, own c → inv s → inv t → alike s t →
    (handle c s).1 = (handle c t).1 ∧ alike (handle c s).2 (handle c t).2

variable {own other : C → Prop} {inv : σ → Prop} {alike : σ → σ → Prop}

/-- The turns of the other programs can be taken out of a schedule: mine come as far, with
the same responses, and end in an environment that is the same to them. -/
theorem run_purged (hsep : Separated handle own other inv alike) (mine : ι → Bool)
    {p p' q : Pool ι C R α σ} {turns : List ι}
    (hprog : ∀ i, Meets (fun _ _ => True) (fun c => if mine i then own c else other c)
      (fun _ => True) (p.prog i))
    (hp : inv p.env) (hq : inv q.env) (halike : alike p.env q.env)
    (hsame : ∀ i, mine i = true → p.prog i = q.prog i)
    (hrun : run (step handle) p turns = some p') :
    ∃ q', run (step handle) q (turns.filter mine) = some q' ∧
      alike p'.env q'.env ∧ ∀ i, mine i = true → p'.prog i = q'.prog i := by
  induction turns generalizing p q with
  | nil =>
      cases hrun
      exact ⟨q, rfl, halike, hsame⟩
  | cons i turns ih =>
      obtain ⟨r, hstep, hrest⟩ := run_cons_eq_some.mp hrun
      rcases step_eq_some hstep with ⟨c, k, hturn, henv, hnext⟩
      have hcall : if mine i then own c else other c := by
        have hmeets := hprog i
        rw [hturn] at hmeets
        exact hmeets.1
      have hprog' := (step_meets (I := fun _ => True)
        (fun _ _ _ _ _ => ⟨trivial, trivial⟩) trivial hprog hstep).2
      cases hi : mine i with
      | true =>
          -- The same turn is taken on the other side, with the same response.
          rw [hi, if_pos rfl] at hcall
          have hturn' : q.prog i = .call c k := by
            rw [← hsame i hi, hturn]
          rcases hsep.same c p.env q.env hcall hp hq halike with ⟨hreply, hafter⟩
          have hsame' : ∀ j, mine j = true →
              r.prog j = Function.update q.prog i (k (handle c q.env).1) j := by
            intro j hj
            rw [hnext, hreply]
            by_cases hji : j = i
            · rw [hji, Function.update_self, Function.update_self]
            · rw [Function.update_of_ne hji, Function.update_of_ne hji]
              exact hsame j hj
          have hr : inv r.env := henv ▸ hsep.keeps c p.env (Or.inl hcall) hp
          rw [← henv] at hafter
          rcases ih (q := ⟨(handle c q.env).2, Function.update q.prog i (k (handle c q.env).1)⟩)
            hprog' hr (hsep.keeps c q.env (Or.inl hcall) hq) hafter hsame' hrest with
            ⟨q', hrun', hend⟩
          refine ⟨q', ?_, hend⟩
          rw [List.filter_cons_of_pos hi]
          exact run_cons_eq_some.mpr ⟨_, step_of_call hturn', hrun'⟩
      | false =>
          rw [hi, if_neg (by decide)] at hcall
          have hr : inv r.env := henv ▸ hsep.keeps c p.env (Or.inr hcall) hp
          have hafter : alike r.env q.env := henv ▸ hsep.spares c p.env _ hcall hp halike
          have hsame' : ∀ j, mine j = true → r.prog j = q.prog j := by
            intro j hj
            have hji : j ≠ i := by
              rintro rfl
              rw [hi] at hj
              contradiction
            rw [hnext, Function.update_of_ne hji]
            exact hsame j hj
          rw [List.filter_cons_of_neg (by simp [hi])]
          exact ih hprog' hr hq hafter hsame' hrest

end Pool
