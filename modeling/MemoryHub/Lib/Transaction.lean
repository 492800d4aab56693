import Mathlib.Data.List.Basic
import Mathlib.Tactic.Common

/-!
# Interrupted transactions

A connection to a database applies commands one after the other.  A command outside a
transaction takes effect at once; inside one it works on a copy that a commit puts in
place.  Where a command fails or the process dies, the commands after it are not reached
and an open transaction is lost.

Main results:

- Theorem `applyAll_simulates`: scripts simulate each other if their updates do.
- Theorem `execute_updates`: inside a transaction nothing is stored.
- Theorem `execute_atomically`: an interrupted transaction stores nothing, and one that
  ends stores all of its updates.
-/

namespace Transaction

variable {σ ε ι : Type*}

/-! ## Connections -/

/-- What keeps a command from taking effect: it fails, or the process dies before it. -/
inductive Mishap (ε : Type*) where
  | fails (e : ε)
  | dies
deriving DecidableEq

/-- What is stored, and what the open transaction has made of it. -/
structure Connection (σ : Type*) where
  stored : σ
  working : Option σ

inductive Command (σ ε : Type*) where
  | beginTx
  | update (f : σ → Except ε σ)
  | commitTx

/-- One command on a connection. -/
def Connection.apply (c : Connection σ) : Command σ ε → Except ε (Connection σ)
  | .beginTx => .ok { c with working := some c.stored }
  | .update f =>
      match c.working with
      | some w =>
          match f w with
          | .ok w' => .ok { c with working := some w' }
          | .error e => .error e
      | none =>
          match f c.stored with
          | .ok s => .ok { c with stored := s }
          | .error e => .error e
  | .commitTx => .ok ⟨c.working.getD c.stored, none⟩

/-- How the execution of commands ends. -/
inductive Progress (σ ε : Type*) where
  | ended (c : Connection σ)
  | stopped (why : Mishap ε) (stored : σ)

/-- Apply labelled commands in order, until one meets a mishap. -/
def execute (mishap : ι → Option (Mishap ε)) :
    Connection σ → List (ι × Command σ ε) → Progress σ ε
  | c, [] => .ended c
  | c, (label, command) :: rest =>
      match mishap label with
      | some why => .stopped why c.stored
      | none =>
          match c.apply command with
          | .ok c' => execute mishap c' rest
          | .error e => .stopped (.fails e) c.stored

/-- Labelled updates as commands. -/
def updates (script : List (ι × (σ → Except ε σ))) : List (ι × Command σ ε) :=
  script.map fun u => (u.1, .update u.2)

/-- The updates of a script, one after the other. -/
def applyAll (s : σ) (script : List (ι × (σ → Except ε σ))) : Except ε σ :=
  script.foldlM (fun s u => u.2 s) s

/-- A transaction of the updates. -/
def atomically (start stop : ι) (script : List (ι × (σ → Except ε σ))) :
    List (ι × Command σ ε) :=
  (start, .beginTx) :: updates script ++ [(stop, .commitTx)]

/-! ## Scripts -/

theorem applyAll_append (s : σ) (first rest : List (ι × (σ → Except ε σ))) :
    applyAll s (first ++ rest) = (applyAll s first).bind fun t => applyAll t rest :=
  List.foldlM_append

/-- Scripts whose updates simulate each other from related states do so as a whole. -/
theorem applyAll_simulates {R : σ → σ → Prop} {script : List (ι × (σ → Except ε σ))}
    (hupdate : ∀ u ∈ script, ∀ s t s', R s t → u.2 s = .ok s' → ∃ t', u.2 t = .ok t' ∧ R s' t')
    {s t s' : σ} (hst : R s t) (h : applyAll s script = .ok s') :
    ∃ t', applyAll t script = .ok t' ∧ R s' t' := by
  induction script generalizing s t with
  | nil =>
      cases h
      exact ⟨t, rfl, hst⟩
  | cons u script ih =>
      simp only [applyAll, List.foldlM_cons] at h ⊢
      cases hu : u.2 s with
      | error e =>
          rw [hu] at h
          contradiction
      | ok s₁ =>
          rw [hu] at h
          rcases hupdate u List.mem_cons_self s t s₁ hst hu with ⟨t₁, ht, hst₁⟩
          rw [ht]
          exact ih (fun v hv => hupdate v (List.mem_cons_of_mem _ hv)) hst₁ h

/-- What every update of a script keeps the script keeps. -/
theorem applyAll_invariant {I : σ → Prop} {script : List (ι × (σ → Except ε σ))}
    (hupdate : ∀ u ∈ script, ∀ s s', I s → u.2 s = .ok s' → I s')
    {s s' : σ} (hs : I s) (h : applyAll s script = .ok s') : I s' := by
  have hkeep : ∀ u ∈ script, ∀ s t s', (I s ∧ s = t) → u.2 s = .ok s' →
      ∃ t', u.2 t = .ok t' ∧ I s' ∧ s' = t' := by
    rintro u hu s t s' ⟨hs, rfl⟩ h
    exact ⟨s', h, hupdate u hu s s' hs h, rfl⟩
  rcases applyAll_simulates hkeep ⟨hs, rfl⟩ h with ⟨t', -, hs', -⟩
  exact hs'

/-! ## What is stored -/

variable {mishap : ι → Option (Mishap ε)}

theorem execute_cons {c : Connection σ} {label : ι} {command : Command σ ε}
    {rest : List (ι × Command σ ε)} (h : mishap label = none) {c' : Connection σ}
    (happly : c.apply command = .ok c') :
    execute mishap c ((label, command) :: rest) = execute mishap c' rest := by
  simp only [execute, h, happly]

/-- Executing two lists of commands in sequence is executing their concatenation. -/
theorem execute_append (c : Connection σ) (first rest : List (ι × Command σ ε)) :
    execute mishap c (first ++ rest) =
      match execute mishap c first with
      | .ended c' => execute mishap c' rest
      | .stopped why stored => .stopped why stored := by
  induction first generalizing c with
  | nil => rfl
  | cons command first ih =>
      simp only [List.cons_append, execute]
      cases mishap command.1 with
      | some why => rfl
      | none =>
          cases c.apply command.2 with
          | ok c' => exact ih c'
          | error e => rfl

/-- Updates inside a transaction store nothing: they end with the result of all of them
as the working copy, or stop. -/
theorem execute_updates (script : List (ι × (σ → Except ε σ))) (s w : σ) :
    (∃ w', applyAll w script = .ok w' ∧
        execute mishap ⟨s, some w⟩ (updates script) = .ended ⟨s, some w'⟩) ∨
      ∃ why, execute mishap ⟨s, some w⟩ (updates script) = .stopped why s := by
  induction script generalizing w with
  | nil => exact Or.inl ⟨w, rfl, rfl⟩
  | cons u script ih =>
      cases hmishap : mishap u.1 with
      | some why =>
          refine Or.inr ⟨why, ?_⟩
          simp only [updates, List.map_cons, execute, hmishap]
      | none =>
          cases hu : u.2 w with
          | error e =>
              refine Or.inr ⟨.fails e, ?_⟩
              simp only [updates, List.map_cons, execute, hmishap, Connection.apply, hu]
          | ok w₁ =>
              have hfirst : execute mishap ⟨s, some w⟩ (updates (u :: script)) =
                  execute mishap ⟨s, some w₁⟩ (updates script) :=
                execute_cons hmishap (by simp only [Connection.apply, hu])
              rw [hfirst]
              rcases ih w₁ with ⟨w', hall, hended⟩ | hstopped
              · refine Or.inl ⟨w', ?_, hended⟩
                simp only [applyAll, List.foldlM_cons, hu]
                exact hall
              · exact Or.inr hstopped

/-- A transaction is all or nothing: it stores the result of all its updates, or it stops
and what was stored stays. -/
theorem execute_atomically (start stop : ι) (script : List (ι × (σ → Except ε σ))) (s : σ) :
    (∃ s', applyAll s script = .ok s' ∧
        execute mishap ⟨s, none⟩ (atomically start stop script) = .ended ⟨s', none⟩) ∨
      ∃ why, execute mishap ⟨s, none⟩ (atomically start stop script) = .stopped why s := by
  cases hstart : mishap start with
  | some why =>
      refine Or.inr ⟨why, ?_⟩
      simp only [atomically, List.cons_append, execute, hstart]
  | none =>
      have hbegin : execute mishap ⟨s, none⟩ (atomically start stop script) =
          execute mishap ⟨s, some s⟩ (updates script ++ [(stop, .commitTx)]) :=
        execute_cons hstart rfl
      rw [hbegin, execute_append]
      rcases execute_updates script s s with ⟨s', hall, hended⟩ | ⟨why, hstopped⟩
      · rw [hended]
        cases hstop : mishap stop with
        | some why =>
            refine Or.inr ⟨why, ?_⟩
            simp only [execute, hstop]
        | none =>
            refine Or.inl ⟨s', hall, ?_⟩
            exact execute_cons hstop rfl
      · rw [hstopped]
        exact Or.inr ⟨why, rfl⟩

/-- Without mishaps a transaction ends exactly if its updates succeed. -/
theorem execute_atomically_quiet {start stop : ι} {script : List (ι × (σ → Except ε σ))}
    (hstart : mishap start = none) (hstop : mishap stop = none)
    (hscript : ∀ u ∈ script, mishap u.1 = none) (s : σ) :
    execute mishap ⟨s, none⟩ (atomically start stop script) =
      match applyAll s script with
      | .ok s' => .ended ⟨s', none⟩
      | .error e => .stopped (.fails e) s := by
  have hbegin : execute mishap ⟨s, none⟩ (atomically start stop script) =
      execute mishap ⟨s, some s⟩ (updates script ++ [(stop, .commitTx)]) :=
    execute_cons hstart rfl
  have hupdates : ∀ w, execute mishap ⟨s, some w⟩ (updates script ++ [(stop, .commitTx)]) =
      match applyAll w script with
      | .ok s' => .ended ⟨s', none⟩
      | .error e => .stopped (.fails e) s := by
    clear hbegin
    induction script with
    | nil =>
        intro w
        exact execute_cons hstop rfl
    | cons u script ih =>
        intro w
        have hu := hscript u List.mem_cons_self
        simp only [updates, List.map_cons, List.cons_append, execute, hu, Connection.apply,
          applyAll, List.foldlM_cons]
        cases u.2 w with
        | error e => rfl
        | ok w₁ => exact ih (fun v hv => hscript v (List.mem_cons_of_mem _ hv)) w₁
  rw [hbegin, hupdates]

end Transaction
