import Mathlib.Tactic.Common

/-!
# Programs that make calls

A program returns a value, or makes a call to its environment and goes on from the
response.  Between two calls the environment may change, so a program can be run as one
party of a system that takes steps of its own.

Main results:

- Theorem `exec_run_bind_ok`: a program that succeeds, taken apart.
- Theorem `Meets.bind`, `MeetsOk.bind`: what a program calls and returns, from its parts.
- Theorem `Meets.exec_keeps`, `Meets.exec_related`: what running such a program keeps, and that
  it returns the same in environments that are alike for its calls.
- Theorem `Meets.mem_trace`: what the calls of a run are.
- Theorem `exec_lift`, `Meets.lift`: a program in a larger environment.
- Theorem `MustCall.bind`, `Meets.mustCall_bind`: a call that is sure to be made stays so
  in a longer program.
-/

/-- A program over the calls `C`, whose responses are the `R c`. -/
inductive Prog (C : Type) (R : C → Type) (α : Type) where
  | pure (a : α)
  | call (c : C) (k : R c → Prog C R α)

namespace Prog

variable {C : Type} {R : C → Type} {α β ε : Type}

/-- Run on with `f` when the first program returns. -/
protected def bind : Prog C R α → (α → Prog C R β) → Prog C R β
  | .pure a, f => f a
  | .call c k, f => .call c fun r => (k r).bind f

instance : Monad (Prog C R) where
  pure := .pure
  bind := Prog.bind

/-- Make one call and return its response. -/
def perform (c : C) : Prog C R (R c) :=
  .call c .pure

/-! ## Running in an environment -/

section

variable {σ : Type}

/-- Run the program in an environment with a state that answers every call. -/
def exec (handle : (c : C) → σ → R c × σ) : Prog C R α → σ → α × σ
  | .pure a, s => (a, s)
  | .call c k, s => exec handle (k (handle c s).1) (handle c s).2

variable {handle : (c : C) → σ → R c × σ}

@[simp]
theorem exec_pure (a : α) (s : σ) : exec handle (Pure.pure a) s = (a, s) :=
  rfl

@[simp]
theorem exec_perform (c : C) (s : σ) : exec handle (perform c) s = handle c s :=
  rfl

/-- The second part runs on from where the first one ends. -/
@[simp]
theorem exec_bind (p : Prog C R α) (f : α → Prog C R β) (s : σ) :
    exec handle (p >>= f) s = exec handle (f (exec handle p s).1) (exec handle p s).2 := by
  induction p generalizing s with
  | pure a => rfl
  | call c k ih => exact ih (handle c s).1 (handle c s).2

end

/-! ## Programs within larger environments -/

section

variable {C' : Type} {R' : C' → Type}

/-- A program over some of the calls of a larger environment. -/
def lift (f : C → C') : Prog C (fun c => R' (f c)) α → Prog C' R' α
  | .pure a => .pure a
  | .call c k => .call (f c) fun r => lift f (k r)

variable {σ τ : Type} {f : C → C'} {handle : (c : C) → σ → R' (f c) × σ}
  {handle' : (c : C') → τ → R' c × τ} {get : τ → σ} {put : σ → τ → τ}

/-- In a larger environment that answers these calls with a part of its state, the program runs
on that part. -/
theorem exec_lift (hcall : ∀ c t, handle' (f c) t =
      ((handle c (get t)).1, put (handle c (get t)).2 t))
    (hget : ∀ s t, get (put s t) = s) (hput : ∀ s s' t, put s (put s' t) = put s t)
    (hsame : ∀ t, put (get t) t = t) (p : Prog C (fun c => R' (f c)) α) (t : τ) :
    exec handle' (lift f p) t =
      ((exec handle p (get t)).1, put (exec handle p (get t)).2 t) := by
  induction p generalizing t with
  | pure a => rw [lift, exec, exec, hsame]
  | call c k ih => rw [lift, exec, exec, ih, hcall, hget, hput]

end

/-! ## What is said during a run -/

section

variable {σ : Type}

/-- The calls made in a run, with their responses. -/
def trace (handle : (c : C) → σ → R c × σ) : Prog C R α → σ → List (Σ c, R c)
  | .pure _, _ => []
  | .call c k, s =>
      ⟨c, (handle c s).1⟩ :: trace handle (k (handle c s).1) (handle c s).2

variable {handle : (c : C) → σ → R c × σ}

@[simp]
theorem trace_perform (c : C) (s : σ) :
    trace handle (perform c) s = [⟨c, (handle c s).1⟩] :=
  rfl

/-- The second part's calls come after the first's. -/
theorem trace_bind (p : Prog C R α) (f : α → Prog C R β) (s : σ) :
    trace handle (p >>= f) s =
      trace handle p s ++ trace handle (f (exec handle p s).1) (exec handle p s).2 := by
  induction p generalizing s with
  | pure a => rfl
  | call c k ih => exact congrArg (List.cons _) (ih (handle c s).1 (handle c s).2)

/-- A program that may fail ends where its first part fails. -/
theorem exec_run_bind (x : ExceptT ε (Prog C R) α) (f : α → ExceptT ε (Prog C R) β) (s : σ) :
    exec handle (x >>= f).run s =
      match exec handle x.run s with
      | (.error e, u) => (.error e, u)
      | (.ok a, u) => exec handle (f a).run u := by
  rw [ExceptT.run_bind, exec_bind]
  rcases exec handle x.run s with ⟨result, u⟩
  cases result with
  | error e => rfl
  | ok a => rfl

/-- A program that succeeds has succeeded in both its parts. -/
theorem exec_run_bind_ok {x : ExceptT ε (Prog C R) α} {f : α → ExceptT ε (Prog C R) β} {b : β}
    {s t : σ} (h : exec handle (x >>= f).run s = (.ok b, t)) :
    ∃ a u, exec handle x.run s = (.ok a, u) ∧ exec handle (f a).run u = (.ok b, t) ∧
      trace handle (x >>= f).run s = trace handle x.run s ++ trace handle (f a).run u := by
  rw [ExceptT.run_bind, exec_bind] at h
  rw [ExceptT.run_bind, trace_bind]
  rcases hx : exec handle x.run s with ⟨result, u⟩
  rw [hx] at h
  cases result with
  | error e => exact absurd (congrArg Prod.fst h) (by simp)
  | ok a => exact ⟨a, u, rfl, h, rfl⟩

end

/-! ## Calls made and values returned -/

/-- Under responses that meet `ok`, every call meets `P` and every returned value
meets `Q`. -/
def Meets (ok : ∀ c, R c → Prop) (P : C → Prop) (Q : α → Prop) : Prog C R α → Prop
  | .pure a => Q a
  | .call c k => P c ∧ ∀ r, ok c r → Meets ok P Q (k r)

variable {ok : ∀ c, R c → Prop} {P : C → Prop} {Q : α → Prop} {Q' : β → Prop}

theorem meets_pure {a : α} (h : Q a) : Meets ok P Q (Pure.pure a : Prog C R α) :=
  h

theorem meets_perform {c : C} {Q : R c → Prop} (hcall : P c) (h : ∀ r, ok c r → Q r) :
    Meets ok P Q (perform c) :=
  ⟨hcall, h⟩

/-- Every program meets what asks for nothing. -/
theorem meets_true (p : Prog C R α) : Meets ok (fun _ => True) (fun _ => True) p := by
  induction p with
  | pure a => trivial
  | call c k ih =>
      refine ⟨trivial, ?_⟩
      intro r _
      exact ih r

/-- What a program meets is met by its parts in turn. -/
theorem Meets.bind {p : Prog C R α} {f : α → Prog C R β} (hp : Meets ok P Q p)
    (hf : ∀ a, Q a → Meets ok P Q' (f a)) : Meets ok P Q' (p >>= f) := by
  induction p with
  | pure a => exact hf a hp
  | call c k ih =>
      rcases hp with ⟨hcall, hrest⟩
      refine ⟨hcall, ?_⟩
      intro r hr
      exact ih r (hrest r hr)

/-- What a program meets in two ways. -/
theorem Meets.and {P' : C → Prop} {Q' : α → Prop} {p : Prog C R α} (h : Meets ok P Q p)
    (h' : Meets ok P' Q' p) : Meets ok (fun c => P c ∧ P' c) (fun a => Q a ∧ Q' a) p := by
  induction p with
  | pure a => exact ⟨h, h'⟩
  | call c k ih =>
      refine ⟨⟨h.1, h'.1⟩, ?_⟩
      intro r hr
      exact ih r (h.2 r hr) (h'.2 r hr)

/-- What a program meets may be weakened. -/
theorem Meets.mono {ok' : ∀ c, R c → Prop} {P' : C → Prop} {p : Prog C R α} {Q' : α → Prop}
    (h : Meets ok P Q p) (hok : ∀ c r, ok' c r → ok c r) (hP : ∀ c, P c → P' c)
    (hQ : ∀ a, Q a → Q' a) : Meets ok' P' Q' p := by
  induction p with
  | pure a => exact hQ a h
  | call c k ih =>
      rcases h with ⟨hcall, hrest⟩
      refine ⟨hP c hcall, ?_⟩
      intro r hr
      exact ih r (hrest r (hok c r hr))

/-- What a program meets, it meets in a larger environment. -/
theorem Meets.lift {C' : Type} {R' : C' → Type} {f : C → C'} {ok : ∀ c, R' (f c) → Prop}
    {ok' : ∀ c, R' c → Prop} {P' : C' → Prop} {p : Prog C (fun c => R' (f c)) α}
    (h : Meets ok P Q p) (hok : ∀ c r, ok' (f c) r → ok c r) (hP : ∀ c, P c → P' (f c)) :
    Meets ok' P' Q (Prog.lift f p) := by
  induction p with
  | pure a => exact h
  | call c k ih =>
      rcases h with ⟨hcall, hrest⟩
      refine ⟨hP c hcall, ?_⟩
      intro r hr
      exact ih r (hrest r (hok c r hr))

/-! ## Runs of programs that meet something -/

section

variable {σ τ : Type} {handle : (c : C) → σ → R c × σ} {handle' : (c : C) → τ → R c × τ}

/-- What the calls keep, running the program keeps, and it returns what it should. -/
theorem Meets.exec_keeps {I : σ → Prop} {p : Prog C R α} (hp : Meets ok P Q p)
    (hcall : ∀ c s, P c → I s → ok c (handle c s).1 ∧ I (handle c s).2) {s : σ} (hs : I s) :
    Q (exec handle p s).1 ∧ I (exec handle p s).2 := by
  induction p generalizing s with
  | pure a => exact ⟨hp, hs⟩
  | call c k ih =>
      rcases hp with ⟨hP, hrest⟩
      rcases hcall c s hP hs with ⟨hok, hI⟩
      exact ih _ (hrest _ hok) hI

/-- The calls made in a run of the program are those it is known to make. -/
theorem Meets.mem_trace {p : Prog C R α} (hp : Meets ok P Q p)
    (hok : ∀ c s, ok c (handle c s).1) {s : σ} {e : Σ c, R c} (he : e ∈ trace handle p s) :
    P e.1 := by
  induction p generalizing s with
  | pure a => exact absurd he List.not_mem_nil
  | call c k ih =>
      rcases hp with ⟨hP, hrest⟩
      rcases List.mem_cons.mp he with rfl | hlater
      · exact hP
      · exact ih _ (hrest _ (hok c s)) hlater

/-- In environments that answer the calls alike and stay related, a program returns the same. -/
theorem Meets.exec_related {rel : σ → τ → Prop} {p : Prog C R α} (hp : Meets ok P Q p)
    (hcall : ∀ c s t, P c → rel s t → ok c (handle c s).1 ∧
      (handle c s).1 = (handle' c t).1 ∧ rel (handle c s).2 (handle' c t).2)
    {s : σ} {t : τ} (hrel : rel s t) :
    (exec handle p s).1 = (exec handle' p t).1 ∧
      rel (exec handle p s).2 (exec handle' p t).2 := by
  induction p generalizing s t with
  | pure a => exact ⟨rfl, hrel⟩
  | call c k ih =>
      rcases hp with ⟨hP, hrest⟩
      rcases hcall c s t hP hrel with ⟨hok, hsame, hafter⟩
      have hnext := ih _ (hrest _ hok) hafter
      rw [hsame] at hnext
      have hstep : exec handle (.call c k) s = exec handle (k (handle' c t).1) (handle c s).2 := by
        rw [← hsame]
        rfl
      rw [hstep]
      exact hnext

end

/-! ## Weakest preconditions -/

section

variable {σ : Type}

/-- Run from `s`, the program returns a value and ends in a state that meet `Q`. -/
def wp (handle : (c : C) → σ → R c × σ) (p : Prog C R α) (Q : α → σ → Prop) (s : σ) : Prop :=
  Q (exec handle p s).1 (exec handle p s).2

variable {handle : (c : C) → σ → R c × σ} {s : σ}

theorem wp_mono {p : Prog C R α} {Q Q' : α → σ → Prop} (h : wp handle p Q s)
    (hQ : ∀ a t, Q a t → Q' a t) : wp handle p Q' s :=
  hQ _ _ h

theorem wp_bind {p : Prog C R α} {f : α → Prog C R β} {Q : β → σ → Prop} :
    wp handle (p >>= f) Q s ↔ wp handle p (fun a => wp handle (f a) Q) s := by
  rw [wp, exec_bind]
  rfl

/-- The second part of a program that may fail is run if the first has succeeded. -/
theorem wp_run_bind {x : ExceptT ε (Prog C R) α} {f : α → ExceptT ε (Prog C R) β}
    {Q : Except ε β → σ → Prop} (hok : wp handle x.run (fun result t =>
      (∀ a, result = .ok a → wp handle (f a).run Q t) ∧
        ∀ e, result = .error e → Q (.error e) t) s) :
    wp handle (x >>= f).run Q s := by
  rw [ExceptT.run_bind, wp_bind]
  apply wp_mono hok
  rintro result t ⟨hnext, hfail⟩
  cases result with
  | error e => exact hfail e rfl
  | ok a => exact hnext a rfl

theorem wp_run_lift {p : Prog C R α} {Q : Except ε α → σ → Prop}
    (h : wp handle p (fun a => Q (.ok a)) s) :
    wp handle (ExceptT.lift p : ExceptT ε (Prog C R) α).run Q s := by
  rw [ExceptT.run_lift]
  exact wp_bind.mpr h

/-- A first part that cannot fail. -/
theorem wp_run_lift_bind {p : Prog C R α} {f : α → ExceptT ε (Prog C R) β}
    {Q : Except ε β → σ → Prop} (h : wp handle p (fun a => wp handle (f a).run Q) s) :
    wp handle ((ExceptT.lift p : ExceptT ε (Prog C R) α) >>= f).run Q s := by
  apply wp_run_bind
  apply wp_run_lift
  apply wp_mono h
  intro a t hnext
  refine ⟨?_, fun e he => absurd he (by simp)⟩
  intro b hb
  rw [← Except.ok.inj hb]
  exact hnext

/-- What the calls of a program keep holds where it ends. -/
theorem Meets.wp {ok : ∀ c, R c → Prop} {P : C → Prop} {Q : α → Prop} {I : σ → Prop}
    {p : Prog C R α} (hp : Meets ok P Q p)
    (hcall : ∀ c s, P c → I s → ok c (handle c s).1 ∧ I (handle c s).2) (hs : I s) :
    Prog.wp handle p (fun a t => Q a ∧ I t) s :=
  hp.exec_keeps hcall hs

end

/-! ## Calls that are sure to be made -/

/-- As long as responses meet `ok`, the program makes the call `c` before it returns. -/
def MustCall (ok : ∀ c, R c → Prop) (c : C) : Prog C R α → Prop
  | .pure _ => False
  | .call d k => d = c ∨ ∀ r, ok d r → MustCall ok c (k r)

variable {c : C}

theorem mustCall_perform : MustCall ok c (perform c : Prog C R (R c)) :=
  Or.inl rfl

/-- A call of the first part. -/
theorem MustCall.bind {p : Prog C R α} (hp : MustCall ok c p) (f : α → Prog C R β) :
    MustCall ok c (p >>= f) := by
  induction p with
  | pure a => exact absurd hp id
  | call d k ih =>
      rcases hp with hcall | hrest
      · exact Or.inl hcall
      · apply Or.inr
        intro r hr
        exact ih r (hrest r hr)

/-- A call of the second part, whatever the first returns. -/
theorem Meets.mustCall_bind {p : Prog C R α} {f : α → Prog C R β} (hp : Meets ok P Q p)
    (hf : ∀ a, Q a → MustCall ok c (f a)) : MustCall ok c (p >>= f) := by
  induction p with
  | pure a => exact hf a hp
  | call d k ih =>
      apply Or.inr
      intro r hr
      exact ih r (hp.2 r hr)

/-! ## Programs that may fail -/

/-- Under responses that meet `ok`, every call meets `P` and every value meets `Q` unless
the program fails. -/
def MeetsOk (ok : ∀ c, R c → Prop) (P : C → Prop) (Q : α → Prop)
    (x : ExceptT ε (Prog C R) α) : Prop :=
  Meets ok P (fun result => ∀ a, result = .ok a → Q a) x.run

theorem meetsOk_pure {a : α} (h : Q a) : MeetsOk ok P Q (Pure.pure a : ExceptT ε (Prog C R) α) := by
  intro b hb
  cases hb
  exact h

theorem MeetsOk.bind {x : ExceptT ε (Prog C R) α} {f : α → ExceptT ε (Prog C R) β}
    (hx : MeetsOk ok P Q x) (hf : ∀ a, Q a → MeetsOk ok P Q' (f a)) :
    MeetsOk ok P Q' (x >>= f) := by
  unfold MeetsOk
  rw [ExceptT.run_bind]
  apply Meets.bind hx
  intro result hresult
  cases result with
  | error e =>
      intro b hb
      contradiction
  | ok a => exact hf a (hresult a rfl)

/-- A program that may fail goes on from success, and fails with its first part. -/
theorem Meets.run_bind {x : ExceptT ε (Prog C R) α} {f : α → ExceptT ε (Prog C R) β}
    {Q : Except ε α → Prop} {Q' : Except ε β → Prop} (hx : Meets ok P Q x.run)
    (hok : ∀ a, Q (.ok a) → Meets ok P Q' (f a).run) (herror : ∀ e, Q (.error e) → Q' (.error e)) :
    Meets ok P Q' (x >>= f).run := by
  rw [ExceptT.run_bind]
  apply Meets.bind hx
  intro result hresult
  cases result with
  | error e => exact herror e hresult
  | ok a => exact hok a hresult

/-- A program that cannot fail, used in one that may. -/
theorem meetsOk_lift {p : Prog C R α} (hp : Meets ok P Q p) :
    MeetsOk ok P Q (ExceptT.lift p : ExceptT ε (Prog C R) α) := by
  unfold MeetsOk
  rw [ExceptT.run_lift]
  apply Meets.bind hp
  intro a ha b hb
  cases hb
  exact ha

/-- A call of the first part, whether or not it fails. -/
theorem MustCall.run_bind {x : ExceptT ε (Prog C R) α} (hx : MustCall ok c x.run)
    (f : α → ExceptT ε (Prog C R) β) : MustCall ok c (x >>= f).run := by
  rw [ExceptT.run_bind]
  exact hx.bind _

end Prog
