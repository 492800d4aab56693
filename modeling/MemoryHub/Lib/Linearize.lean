import MemoryHub.Lib.Pool

/-!
# Linearizable programs

An object has operations, each of which is applied at once.  A program acts on the object
when each of its calls does nothing to the object, or applies an operation or has no effect at all;
it acts once when it does so with one operation at most.  Side by side, such programs are
linearizable: each operation is applied at a turn of its program, the object is at any time what
the operations up to then have made of it, and every value returned fits the operations of its
program.

Main results:

- Theorem `OneShot.bind`, `OneShot.of_meets`, `OneShot.lift`: programs that act once, from
  their parts.
- Theorem `OneShot.acts`, `Acts.bind`: programs that act again and again.
- Theorem `run_linearized`: every schedule of programs that act is linearizable.
-/

namespace Pool

open Prog Machine

/-- An object: what an operation returns and leaves. -/
abbrev Object (A Op V : Type) : Type :=
  Op → A → V × A

namespace Object

variable {ι A Op V : Type} (apply : Object A Op V)

/-- What the operations applied at some turns leave, one after another. -/
def after (a : A) : List (ι × Option Op) → A
  | [] => a
  | (_, none) :: rest => after a rest
  | (_, some op) :: rest => after (apply op a).2 rest

theorem after_append (a : A) (turns rest : List (ι × Option Op)) :
    after apply a (turns ++ rest) = after apply (after apply a turns) rest := by
  induction turns generalizing a with
  | nil => rfl
  | cons turn turns ih =>
      rcases turn with ⟨i, _ | op⟩
      · exact ih a
      · exact ih (apply op a).2

variable [DecidableEq ι]

/-- The operations of `i`, and what they return. -/
def trail (i : ι) (a : A) : List (ι × Option Op) → List (Op × V)
  | [] => []
  | (_, none) :: rest => trail i a rest
  | (j, some op) :: rest =>
      if j = i then (op, (apply op a).1) :: trail i (apply op a).2 rest
      else trail i (apply op a).2 rest

variable {apply}

theorem trail_append (i : ι) (a : A) (turns rest : List (ι × Option Op)) :
    trail apply i a (turns ++ rest) =
      trail apply i a turns ++ trail apply i (after apply a turns) rest := by
  induction turns generalizing a with
  | nil => rfl
  | cons turn turns ih =>
      rcases turn with ⟨j, _ | op⟩
      · exact ih a
      · rw [List.cons_append, trail, trail, after]
        split
        · rw [List.cons_append, ih]
        · exact ih _

/-- A turn at which nothing is applied. -/
theorem trail_snoc_none (i j : ι) (a : A) (turns : List (ι × Option Op)) :
    trail apply i a (turns ++ [(j, none)]) = trail apply i a turns := by
  rw [trail_append, trail, trail, List.append_nil]

/-- Operations of others. -/
theorem trail_snoc_of_ne {i j : ι} (h : j ≠ i) (a : A) (turns : List (ι × Option Op)) (op : Op) :
    trail apply i a (turns ++ [(j, some op)]) = trail apply i a turns := by
  rw [trail_append, trail, if_neg h, trail, List.append_nil]

theorem trail_snoc_self (i : ι) (a : A) (turns : List (ι × Option Op)) (op : Op) :
    trail apply i a (turns ++ [(i, some op)]) =
      trail apply i a turns ++ [(op, (apply op (after apply a turns)).1)] := by
  rw [trail_append, trail, if_pos rfl, trail]

omit [DecidableEq ι] in
/-- What the operations keep. -/
theorem after_keeps {P : A → Prop} {turns : List (ι × Option Op)}
    (h : ∀ i op, (i, some op) ∈ turns → ∀ a, P a → P (apply op a).2) {a : A} (ha : P a) :
    P (after apply a turns) := by
  induction turns generalizing a with
  | nil => exact ha
  | cons turn turns ih =>
      have hrest : ∀ i op, (i, some op) ∈ turns → ∀ a, P a → P (apply op a).2 :=
        fun i op hmem => h i op (List.mem_cons_of_mem _ hmem)
      rcases turn with ⟨i, _ | op⟩
      · exact ih hrest ha
      · exact ih hrest (h i op List.mem_cons_self a ha)

/-- An operation of `i` applied at some turn is in its trail. -/
theorem mem_trail {i : ι} {op : Op} {turns : List (ι × Option Op)} (h : (i, some op) ∈ turns)
    (a : A) : ∃ value, (op, value) ∈ trail apply i a turns := by
  induction turns generalizing a with
  | nil => exact absurd h List.not_mem_nil
  | cons turn turns ih =>
      rcases List.mem_cons.mp h with rfl | hlater
      · exact ⟨_, by rw [trail, if_pos rfl]; exact List.mem_cons_self⟩
      · rcases turn with ⟨j, _ | op'⟩
        · exact ih hlater a
        · rcases ih hlater (apply op' a).2 with ⟨value, hmem⟩
          refine ⟨value, ?_⟩
          rw [trail]
          split
          · exact List.mem_cons_of_mem _ hmem
          · exact hmem

/-- An operation of `i` was applied at one of its turns. -/
theorem exists_turn_of_trail {i : ι} {a : A} {turns : List (ι × Option Op)}
    {before later : List (Op × V)} {e : Op × V}
    (h : trail apply i a turns = before ++ e :: later) :
    ∃ pre post, turns = pre ++ (i, some e.1) :: post ∧ trail apply i a pre = before ∧
      e.2 = (apply e.1 (after apply a pre)).1 ∧
        trail apply i (apply e.1 (after apply a pre)).2 post = later := by
  induction turns generalizing a before with
  | nil => exact absurd h (by simp [trail])
  | cons turn turns ih =>
      rcases turn with ⟨j, _ | op⟩
      · rcases ih h with ⟨pre, post, rfl, hrest⟩
        exact ⟨(j, none) :: pre, post, rfl, hrest⟩
      · rw [trail] at h
        split at h <;> rename_i hj
        · subst hj
          cases before with
          | nil =>
              rcases List.cons.inj h with ⟨rfl, hlater⟩
              exact ⟨[], turns, rfl, rfl, rfl, hlater⟩
          | cons e' before =>
              rcases List.cons.inj h with ⟨rfl, hrest⟩
              rcases ih hrest with ⟨pre, post, rfl, hbefore, hvalue, hlater⟩
              refine ⟨(j, some op) :: pre, post, rfl, ?_, hvalue, hlater⟩
              rw [trail, if_pos rfl, hbefore]
        · rcases ih h with ⟨pre, post, rfl, hbefore, hvalue, hlater⟩
          refine ⟨(j, some op) :: pre, post, rfl, ?_, hvalue, hlater⟩
          rw [trail, if_neg hj, hbefore]

end Object

/-! ## Acting once -/

section

variable {ι C : Type} {R : C → Type} {α β σ A Op V : Type}

/-- What an environment keeps, and the object it holds. -/
structure Holds (σ A : Type) where
  inv : σ → Prop
  object : σ → A

/-- The same, held in a part of a larger state. -/
def Holds.within {τ : Type} (held : Holds σ A) (get : τ → σ) : Holds τ A where
  inv t := held.inv (get t)
  object t := held.object (get t)

variable (handle : (c : C) → σ → R c × σ) (held : Holds σ A) (apply : Object A Op V)

/-- The call leaves the object as it is. -/
def Silent (c : C) : Prop :=
  ∀ s, held.inv s → held.inv (handle c s).2 ∧ held.object (handle c s).2 = held.object s

/-- All calls of the program leave the object as it is. -/
def Quiet (fits : α → Prop) (p : Prog C R α) : Prop :=
  Meets (fun _ _ => True) (Silent handle held) fits p

/-- The call applies the operation, or has no effect; the program that goes on from it is
quiet, and returns what fits. -/
def ActsAs (fits : Option (Op × V) → α → Prop) (op : Op) (c : C) (k : R c → Prog C R α) :
    Prop :=
  ∀ s, held.inv s → held.inv (handle c s).2 ∧
    ((held.object (handle c s).2 = held.object s ∧
        Quiet handle held (fits none) (k (handle c s).1)) ∨
      (held.object (handle c s).2 = (apply op (held.object s)).2 ∧
        Quiet handle held (fits (some (op, (apply op (held.object s)).1))) (k (handle c s).1)))

/-- Under responses that meet `ok`, the program acts at most once, with an operation of its own,
and returns what fits the operation and its outcome. -/
def OneShot (ok : ∀ c, R c → Prop) (own : Op → Prop) (fits : Option (Op × V) → α → Prop) :
    Prog C R α → Prop
  | .pure a => fits none a
  | .call c k =>
      (Silent handle held c ∧ ∀ r, ok c r → OneShot ok own fits (k r)) ∨
        ∃ op, own op ∧ ActsAs handle held apply fits op c k

variable {handle held apply} {ok : ∀ c, R c → Prop} {own : Op → Prop}
  {fits : Option (Op × V) → α → Prop} {fits' : Option (Op × V) → β → Prop}

/-- A quiet program acts at most once. -/
theorem OneShot.of_meets {p : Prog C R α} (h : Meets ok (Silent handle held) (fits none) p) :
    OneShot handle held apply ok own fits p := by
  induction p with
  | pure a => exact h
  | call c k ih =>
      rcases h with ⟨hsilent, hrest⟩
      refine Or.inl ⟨hsilent, ?_⟩
      intro r hr
      exact ih r (hrest r hr)

/-- A program that acts at most once, after a quiet one. -/
theorem OneShot.after_meets {Q : α → Prop} {p : Prog C R α} {f : α → Prog C R β}
    (hp : Meets ok (Silent handle held) Q p)
    (hf : ∀ a, Q a → OneShot handle held apply ok own fits' (f a)) :
    OneShot handle held apply ok own fits' (p >>= f) := by
  induction p with
  | pure a => exact hf a hp
  | call c k ih =>
      rcases hp with ⟨hsilent, hrest⟩
      refine Or.inl ⟨hsilent, ?_⟩
      intro r hr
      exact ih r (hrest r hr)

/-- A program that acts at most once, before a quiet one. -/
theorem OneShot.bind {p : Prog C R α} {f : α → Prog C R β}
    (hp : OneShot handle held apply ok own fits p)
    (hf : ∀ outcome a, fits outcome a → Quiet handle held (fits' outcome) (f a)) :
    OneShot handle held apply ok own fits' (p >>= f) := by
  induction p with
  | pure a =>
      exact OneShot.of_meets
        ((hf none a hp).mono (fun _ _ _ => trivial) (fun _ h => h) fun _ h => h)
  | call c k ih =>
      rcases hp with ⟨hsilent, hrest⟩ | ⟨op, hown, hact⟩
      · refine Or.inl ⟨hsilent, ?_⟩
        intro r hr
        exact ih r (hrest r hr)
      · refine Or.inr ⟨op, hown, ?_⟩
        intro s hs
        rcases hact s hs with ⟨hinv, ⟨hobject, hquiet⟩ | ⟨hobject, hquiet⟩⟩
        · exact ⟨hinv, Or.inl ⟨hobject, hquiet.bind (hf none)⟩⟩
        · exact ⟨hinv, Or.inr ⟨hobject, hquiet.bind (hf _)⟩⟩

/-- What holds of a program that acts at most once may be weakened. -/
theorem OneShot.mono {ok' : ∀ c, R c → Prop} {own' : Op → Prop}
    {fits' : Option (Op × V) → α → Prop} {p : Prog C R α}
    (h : OneShot handle held apply ok own fits p) (hok : ∀ c r, ok' c r → ok c r)
    (hown : ∀ op, own op → own' op) (hfits : ∀ done a, fits done a → fits' done a) :
    OneShot handle held apply ok' own' fits' p := by
  have hquiet : ∀ done {q : Prog C R α}, Quiet handle held (fits done) q →
      Quiet handle held (fits' done) q :=
    fun done _ hq => hq.mono (fun _ _ h => h) (fun _ h => h) (hfits done)
  induction p with
  | pure a => exact hfits none a h
  | call c k ih =>
      rcases h with ⟨hsilent, hrest⟩ | ⟨op, hop, hact⟩
      · refine Or.inl ⟨hsilent, ?_⟩
        intro r hr
        exact ih r (hrest r (hok c r hr))
      · refine Or.inr ⟨op, hown op hop, ?_⟩
        intro s hs
        rcases hact s hs with ⟨hinv, ⟨hobject, hq⟩ | ⟨hobject, hq⟩⟩
        · exact ⟨hinv, Or.inl ⟨hobject, hquiet none hq⟩⟩
        · exact ⟨hinv, Or.inr ⟨hobject, hquiet _ hq⟩⟩

/-- A program that acts at most once, and returns only what meets `Q`. -/
theorem OneShot.and_meets {p : Prog C R α} {Q : α → Prop}
    (h : OneShot handle held apply ok own fits p)
    (hQ : Meets (fun _ _ => True) (fun _ => True) Q p) :
    OneShot handle held apply ok own (fun done a => fits done a ∧ Q a) p := by
  have hquiet : ∀ done {q : Prog C R α}, Quiet handle held (fits done) q →
      Meets (fun _ _ => True) (fun _ => True) Q q →
        Quiet handle held (fun a => fits done a ∧ Q a) q :=
    fun _ _ hq hQ => (hq.and hQ).mono (fun _ _ h => h) (fun _ h => h.1) fun _ h => h
  induction p with
  | pure a => exact ⟨h, hQ⟩
  | call c k ih =>
      rcases h with ⟨hsilent, hrest⟩ | ⟨op, hown, hact⟩
      · refine Or.inl ⟨hsilent, ?_⟩
        intro r hr
        exact ih r (hrest r hr) (hQ.2 r trivial)
      · refine Or.inr ⟨op, hown, ?_⟩
        intro s hs
        rcases hact s hs with ⟨hinv, ⟨hobject, hq⟩ | ⟨hobject, hq⟩⟩
        · exact ⟨hinv, Or.inl ⟨hobject, hquiet none hq (hQ.2 _ trivial)⟩⟩
        · exact ⟨hinv, Or.inr ⟨hobject, hquiet _ hq (hQ.2 _ trivial)⟩⟩

section

variable {ε : Type}

/-- A program that may fail, after a quiet one that may. -/
theorem OneShot.run_after_meets {x : ExceptT ε (Prog C R) α} {f : α → ExceptT ε (Prog C R) β}
    {Q : Except ε α → Prop} {fits' : Option (Op × V) → Except ε β → Prop}
    (hx : Meets ok (Silent handle held) Q x.run)
    (hok : ∀ a, Q (.ok a) → OneShot handle held apply ok own fits' (f a).run)
    (herror : ∀ e, Q (.error e) → fits' none (.error e)) :
    OneShot handle held apply ok own fits' (x >>= f).run := by
  rw [ExceptT.run_bind]
  refine OneShot.after_meets hx ?_
  intro result hresult
  cases result with
  | error e => exact herror e hresult
  | ok a => exact hok a hresult

/-- A program that may fail, before a quiet one that may. -/
theorem OneShot.run_bind {x : ExceptT ε (Prog C R) α} {f : α → ExceptT ε (Prog C R) β}
    {fits : Option (Op × V) → Except ε α → Prop} {fits' : Option (Op × V) → Except ε β → Prop}
    (hx : OneShot handle held apply ok own fits x.run)
    (hok : ∀ done a, fits done (.ok a) → Quiet handle held (fits' done) (f a).run)
    (herror : ∀ done e, fits done (.error e) → fits' done (.error e)) :
    OneShot handle held apply ok own fits' (x >>= f).run := by
  rw [ExceptT.run_bind]
  refine hx.bind ?_
  intro done result hresult
  cases result with
  | error e => exact herror done e hresult
  | ok a => exact hok done a hresult

end

/-- An error of another kind. -/
theorem OneShot.mapError {ε ε' : Type} {Q : Option (Op × V) → α → Prop}
    {p : Prog C R (Except ε α)}
    (h : OneShot handle held apply ok own (fun done result => ∀ a, result = .ok a → Q done a) p)
    (f : ε → ε') : OneShot handle held apply ok own
      (fun done result => ∀ a, result = .ok a → Q done a) (do
        let result ← p
        Pure.pure (result.mapError f)) := by
  refine h.bind ?_
  intro done result hresult a ha
  cases result with
  | ok b =>
      cases ha
      exact hresult a rfl
  | error e => cases ha

/-- One call that applies an operation or has no effect. -/
theorem OneShot.perform {c : C} {op : Op} {fits : Option (Op × V) → R c → Prop} (hown : own op)
    (hact : ∀ s, held.inv s → held.inv (handle c s).2 ∧
      ((held.object (handle c s).2 = held.object s ∧ fits none (handle c s).1) ∨
        (held.object (handle c s).2 = (apply op (held.object s)).2 ∧
          fits (some (op, (apply op (held.object s)).1)) (handle c s).1))) :
    OneShot handle held apply ok own fits (Prog.perform c) :=
  Or.inr ⟨op, hown, hact⟩

/-! ## Larger environments -/

section

variable {C' : Type} {R' : C' → Type} {τ : Type} (f : C → C')
  {handle : (c : C) → σ → R' (f c) × σ} {handle' : (c : C') → τ → R' c × τ} {get : τ → σ}

theorem Silent.lift (hcall : ∀ c t, get (handle' (f c) t).2 = (handle c (get t)).2) {c : C}
    (h : Silent handle held c) :
    Silent handle' (held.within get) (f c) := by
  intro t ht
  simp only [Holds.within] at ht ⊢
  rw [hcall]
  exact h (get t) ht

/-- In a larger environment that answers the calls with a part of its state, the program acts as
it does on that part. -/
theorem OneShot.lift (get : τ → σ) {ok : ∀ c, R' (f c) → Prop} {ok' : ∀ c, R' c → Prop}
    (hanswer : ∀ c t, (handle' (f c) t).1 = (handle c (get t)).1)
    (hcall : ∀ c t, get (handle' (f c) t).2 = (handle c (get t)).2)
    (hok : ∀ c r, ok' (f c) r → ok c r) {p : Prog C (fun c => R' (f c)) α}
    (h : OneShot handle held apply ok own fits p) :
    OneShot handle' (held.within get) apply ok' own fits (Prog.lift f p) := by
  induction p with
  | pure a => exact h
  | call c k ih =>
      rcases h with ⟨hsilent, hrest⟩ | ⟨op, hown, hact⟩
      · refine Or.inl ⟨hsilent.lift f hcall, ?_⟩
        intro r hr
        exact ih r (hrest r (hok c r hr))
      · refine Or.inr ⟨op, hown, ?_⟩
        intro t ht
        simp only [Holds.within] at ht ⊢
        rw [hcall, hanswer]
        have hquiet : ∀ {fits : α → Prop} {r}, Quiet handle held fits (k r) →
            Quiet handle' (held.within get) fits (Prog.lift f (k r)) :=
          fun hk => Meets.lift hk (fun _ _ _ => trivial) fun _ hc => hc.lift f hcall
        rcases hact (get t) ht with ⟨hinv, ⟨hobject, hk⟩ | ⟨hobject, hk⟩⟩
        · exact ⟨hinv, Or.inl ⟨hobject, hquiet hk⟩⟩
        · exact ⟨hinv, Or.inr ⟨hobject, hquiet hk⟩⟩

end

/-! ## Acting in turn -/

section

variable (handle held apply) (ok : ∀ c, R c → Prop) (may : List (Op × V) → Op → Prop)
  (fits : List (Op × V) → α → Prop)

/-- Having done `done`, the program acts on, with operations it may do then, and returns what fits
all it has done. -/
def Acts : List (Op × V) → Prog C R α → Prop
  | done, .pure a => fits done a
  | done, .call c k =>
      (Silent handle held c ∧ ∀ r, ok c r → Acts done (k r)) ∨
        ∃ op, may done op ∧ ∀ s, held.inv s → held.inv (handle c s).2 ∧
          ((held.object (handle c s).2 = held.object s ∧ Acts done (k (handle c s).1)) ∨
            (held.object (handle c s).2 = (apply op (held.object s)).2 ∧
              Acts (done ++ [(op, (apply op (held.object s)).1)]) (k (handle c s).1)))

/-- An operation of its own, and the first. -/
def Once (own : Op → Prop) (done : List (Op × V)) (op : Op) : Prop :=
  done = [] ∧ own op

end

variable {may : List (Op × V) → Op → Prop} {since : List (Op × V) → α → Prop}
  {since' : List (Op × V) → β → Prop} {done : List (Op × V)}

/-- Of a quiet program nothing more is done. -/
theorem Acts.of_quiet {p : Prog C R α} (h : Quiet handle held (since done) p) :
    Acts handle held apply ok may since done p := by
  induction p with
  | pure a => exact h
  | call c k ih =>
      refine Or.inl ⟨h.1, ?_⟩
      intro r _
      exact ih r (h.2 r trivial)

/-- A program that acts once does at most one thing more. -/
theorem OneShot.acts {p : Prog C R α} (h : OneShot handle held apply ok own fits p)
    (hmay : ∀ op, own op → may done op) (hnone : ∀ a, fits none a → since done a)
    (hsome : ∀ e a, own e.1 → fits (some e) a → since (done ++ [e]) a) :
    Acts handle held apply ok may since done p := by
  induction p with
  | pure a => exact hnone a h
  | call c k ih =>
      rcases h with ⟨hsilent, hrest⟩ | ⟨op, hown, hact⟩
      · refine Or.inl ⟨hsilent, ?_⟩
        intro r hr
        exact ih r (hrest r hr)
      · refine Or.inr ⟨op, hmay op hown, ?_⟩
        intro s hs
        rcases hact s hs with ⟨hinv, ⟨hobject, hquiet⟩ | ⟨hobject, hquiet⟩⟩
        · exact ⟨hinv, Or.inl ⟨hobject, Acts.of_quiet (hquiet.mono (fun _ _ h => h)
            (fun _ h => h) hnone)⟩⟩
        · exact ⟨hinv, Or.inr ⟨hobject, Acts.of_quiet (hquiet.mono (fun _ _ h => h)
            (fun _ h => h) fun a => hsome _ a hown)⟩⟩

/-- Two programs that act, one after the other. -/
theorem Acts.bind {p : Prog C R α} {f : α → Prog C R β}
    (hp : Acts handle held apply ok may since done p)
    (hf : ∀ done a, since done a → Acts handle held apply ok may since' done (f a)) :
    Acts handle held apply ok may since' done (p >>= f) := by
  induction p generalizing done with
  | pure a => exact hf done a hp
  | call c k ih =>
      rcases hp with ⟨hsilent, hrest⟩ | ⟨op, hmay, hact⟩
      · refine Or.inl ⟨hsilent, ?_⟩
        intro r hr
        exact ih r (hrest r hr)
      · refine Or.inr ⟨op, hmay, ?_⟩
        intro s hs
        rcases hact s hs with ⟨hinv, ⟨hobject, hnext⟩ | ⟨hobject, hnext⟩⟩
        · exact ⟨hinv, Or.inl ⟨hobject, ih _ hnext⟩⟩
        · exact ⟨hinv, Or.inr ⟨hobject, ih _ hnext⟩⟩

/-- Fewer responses may come, and what fits all that has been done may be weakened. -/
theorem Acts.mono {ok' : ∀ c, R c → Prop} {since' : List (Op × V) → α → Prop} {p : Prog C R α}
    (h : Acts handle held apply ok may since done p) (hok : ∀ c r, ok' c r → ok c r)
    (hsince : ∀ done a, since done a → since' done a) :
    Acts handle held apply ok' may since' done p := by
  induction p generalizing done with
  | pure a => exact hsince done a h
  | call c k ih =>
      rcases h with ⟨hsilent, hrest⟩ | ⟨op, hmay, hact⟩
      · refine Or.inl ⟨hsilent, ?_⟩
        intro r hr
        exact ih r (hrest r (hok c r hr))
      · refine Or.inr ⟨op, hmay, ?_⟩
        intro s hs
        rcases hact s hs with ⟨hinv, ⟨hobject, hnext⟩ | ⟨hobject, hnext⟩⟩
        · exact ⟨hinv, Or.inl ⟨hobject, ih _ hnext⟩⟩
        · exact ⟨hinv, Or.inr ⟨hobject, ih _ hnext⟩⟩

/-- A program that acts once, after something has been done. -/
theorem OneShot.acts_after {p : Prog C R α} (h : OneShot handle held apply ok own fits p)
    {may : Op → Prop} (hmay : ∀ op, own op → may op) (done : List (Op × V)) :
    Acts handle held apply ok (fun _ => may) (fun all a => ∃ d : Option (Op × V),
      all = done ++ d.toList ∧ (∀ e, d = some e → own e.1) ∧ fits d a) done p := by
  refine h.acts hmay ?_ ?_
  · intro a ha
    exact ⟨none, (List.append_nil done).symm, fun _ h => (by cases h), ha⟩
  · intro e a he ha
    refine ⟨some e, rfl, ?_, ha⟩
    intro e' he'
    cases he'
    exact he

/-! ## One after the other -/

section

variable {U B : Type}

/-- Units of work that act once each, one after the other: what they return, and all that has been
done. -/
inductive InTurn (own : U → Op → Prop) (fits : U → Option (Op × V) → B → Prop) :
    List U → List B → List (Op × V) → Prop where
  | nil : InTurn own fits [] [] []
  | cons {u : U} {b : B} {d : Option (Op × V)} {us : List U} {bs : List B} {later : List (Op × V)}
      (howned : ∀ e, d = some e → own u e.1) (hfits : fits u d b)
      (hrest : InTurn own fits us bs later) :
      InTurn own fits (u :: us) (b :: bs) (d.toList ++ later)

variable {own : U → Op → Prop} {fits : U → Option (Op × V) → B → Prop} {us : List U}
  {bs : List B} {done : List (Op × V)}

theorem InTurn.length_eq (h : InTurn own fits us bs done) : bs.length = us.length := by
  induction h with
  | nil => rfl
  | cons _ _ _ ih => exact congrArg Nat.succ ih

/-- What has been done is what one of them does. -/
theorem InTurn.owned (h : InTurn own fits us bs done) : ∀ e ∈ done, ∃ u ∈ us, own u e.1 := by
  induction h with
  | nil => exact fun _ he => absurd he List.not_mem_nil
  | cons howned _ _ ih =>
      intro e he
      rcases List.mem_append.mp he with hfirst | hlater
      · exact ⟨_, List.mem_cons_self, howned e (Option.mem_toList.mp hfirst)⟩
      · rcases ih e hlater with ⟨u, hu, hown⟩
        exact ⟨u, List.mem_cons_of_mem _ hu, hown⟩

/-- One of them, with what comes before it and after it. -/
theorem InTurn.split {before : List U} {u : U} {after : List U}
    (h : InTurn own fits (before ++ u :: after) bs done) :
    ∃ bsBefore b bsAfter doneBefore d doneAfter,
      bs = bsBefore ++ b :: bsAfter ∧ done = doneBefore ++ (Option.toList d ++ doneAfter) ∧
        InTurn own fits before bsBefore doneBefore ∧ (∀ e, d = some e → own u e.1) ∧
          fits u d b ∧ InTurn own fits after bsAfter doneAfter := by
  induction before generalizing bs done with
  | nil =>
      cases h with
      | cons howned hfits hrest => exact ⟨[], _, _, [], _, _, rfl, rfl, .nil, howned, hfits, hrest⟩
  | cons v before ih =>
      cases h with
      | cons howned hfits hrest =>
          rcases ih hrest with ⟨bsBefore, b, bsAfter, doneBefore, d, doneAfter, rfl, rfl, hbefore,
            hd, hb, hafter⟩
          refine ⟨_ :: bsBefore, b, bsAfter, _ ++ doneBefore, d, doneAfter, rfl, ?_,
            .cons howned hfits hbefore, hd, hb, hafter⟩
          rw [List.append_assoc]

end

/-! ## Schedules -/

variable [DecidableEq ι]

/-- `acts` says at which turns of a run from `p₀` to `p` which operations were applied: each is one
its program may do after those it has done; at any time the object is what the operations up
to then leave, and what has been returned fits those of its program. -/
structure Linearized (handle : (c : C) → σ → R c × σ) (held : Holds σ A) (apply : Object A Op V)
    (may : ι → List (Op × V) → Op → Prop) (fits : ι → List (Op × V) → α → Prop)
    (p₀ : Pool ι C R α σ) (turns : List ι) (p : Pool ι C R α σ) (acts : List (ι × Option Op)) :
    Prop where
  schedule : acts.map Prod.fst = turns
  allowed : ∀ before i op rest, acts = before ++ (i, some op) :: rest →
    may i (Object.trail apply i (held.object p₀.env) before) op
  object : ∀ before rest q, turns = before ++ rest → run (step handle) p₀ before = some q →
    held.object q.env = Object.after apply (held.object p₀.env) (acts.take before.length)
  fits : ∀ i value, p.result i = some value →
    fits i (Object.trail apply i (held.object p₀.env) acts) value

/-- Whatever is applied, its program may do at some point. -/
theorem Linearized.may_of_mem {held : Holds σ A} {may : ι → List (Op × V) → Op → Prop}
    {fits : ι → List (Op × V) → α → Prop} {p₀ p : Pool ι C R α σ} {turns : List ι}
    {acts : List (ι × Option Op)} (h : Linearized handle held apply may fits p₀ turns p acts)
    {i : ι} {op : Op} (hmem : (i, some op) ∈ acts) : ∃ done, may i done op := by
  rcases List.append_of_mem hmem with ⟨before, rest, hsplit⟩
  exact ⟨_, h.allowed before i op rest hsplit⟩

/-- At the end, the object is what all of it leaves. -/
theorem Linearized.object_end {held : Holds σ A} {may : ι → List (Op × V) → Op → Prop}
    {fits : ι → List (Op × V) → α → Prop} {p₀ p : Pool ι C R α σ} {turns : List ι}
    {acts : List (ι × Option Op)} (h : Linearized handle held apply may fits p₀ turns p acts)
    (hrun : run (step handle) p₀ turns = some p) :
    held.object p.env = Object.after apply (held.object p₀.env) acts := by
  have hend := h.object turns [] p (List.append_nil turns).symm hrun
  rwa [← h.schedule, List.length_map, List.take_length] at hend

/-- The same on the way, where each program acts on. -/
structure Explained (handle : (c : C) → σ → R c × σ) (held : Holds σ A) (apply : Object A Op V)
    (may : ι → List (Op × V) → Op → Prop) (fits : ι → List (Op × V) → α → Prop)
    (seen : ι → σ → Prop) (a : A) (turns : List ι) (p : Pool ι C R α σ)
    (acts : List (ι × Option Op)) : Prop where
  inv : held.inv p.env
  schedule : acts.map Prod.fst = turns
  allowed : ∀ before i op rest, acts = before ++ (i, some op) :: rest →
    may i (Object.trail apply i a before) op
  object : held.object p.env = Object.after apply a acts
  progs : ∀ i, Acts handle held apply (fun c r => ∃ s, seen i s ∧ r = (handle c s).1) (may i)
    (fits i) (Object.trail apply i a acts) (p.prog i)

variable {may : ι → List (Op × V) → Op → Prop} {fits : ι → List (Op × V) → α → Prop}
  {seen : ι → σ → Prop} {turns : List ι} {a : A} {p q : Pool ι C R α σ}
  {acts : List (ι × Option Op)} {i : ι} {c : C} {k : R c → Prog C R α}

/-- A turn at which nothing is applied. -/
theorem Explained.unchanged (h : Explained handle held apply may fits seen a turns p acts)
    (hinv : held.inv (handle c p.env).2)
    (hobject : held.object (handle c p.env).2 = held.object p.env)
    (hi : Acts handle held apply (fun c r => ∃ s, seen i s ∧ r = (handle c s).1) (may i) (fits i)
      (Object.trail apply i a acts) (k (handle c p.env).1)) :
    Explained handle held apply may fits seen a (turns ++ [i])
      ⟨(handle c p.env).2, Function.update p.prog i (k (handle c p.env).1)⟩
        (acts ++ [(i, none)]) := by
  refine ⟨hinv, ?_, ?_, ?_, ?_⟩
  · rw [List.map_append, h.schedule]
    rfl
  · intro before j op rest hsplit
    rcases rest.eq_nil_or_concat with rfl | ⟨rest, last, rfl⟩
    · cases (List.append_inj' hsplit rfl).2
    · rw [List.concat_eq_append, ← List.cons_append, ← List.append_assoc] at hsplit
      exact h.allowed before j op rest (List.append_inj' hsplit rfl).1
  · rw [Object.after_append, ← h.object]
    exact hobject
  · intro j
    rw [Object.trail_snoc_none]
    by_cases hj : j = i
    · subst hj
      simp only [Function.update_self]
      exact hi
    · simp only [Function.update_of_ne hj]
      exact h.progs j

/-- A turn at which an operation is applied. -/
theorem Explained.acted (h : Explained handle held apply may fits seen a turns p acts)
    (hinv : held.inv (handle c p.env).2) {op : Op}
    (hmay : may i (Object.trail apply i a acts) op)
    (hobject : held.object (handle c p.env).2 = (apply op (held.object p.env)).2)
    (hi : Acts handle held apply (fun c r => ∃ s, seen i s ∧ r = (handle c s).1) (may i) (fits i)
      (Object.trail apply i a acts ++ [(op, (apply op (held.object p.env)).1)])
        (k (handle c p.env).1)) :
    Explained handle held apply may fits seen a (turns ++ [i])
      ⟨(handle c p.env).2, Function.update p.prog i (k (handle c p.env).1)⟩
        (acts ++ [(i, some op)]) := by
  refine ⟨hinv, ?_, ?_, ?_, ?_⟩
  · rw [List.map_append, h.schedule]
    rfl
  · intro before j op' rest hsplit
    rcases rest.eq_nil_or_concat with rfl | ⟨rest, last, rfl⟩
    · rcases List.append_inj' hsplit rfl with ⟨rfl, hlast⟩
      cases hlast
      exact hmay
    · rw [List.concat_eq_append, ← List.cons_append, ← List.append_assoc] at hsplit
      exact h.allowed before j op' rest (List.append_inj' hsplit rfl).1
  · rw [Object.after_append, ← h.object]
    exact hobject
  · intro j
    by_cases hj : j = i
    · subst hj
      rw [Object.trail_snoc_self, ← h.object]
      simp only [Function.update_self]
      exact hi
    · rw [Object.trail_snoc_of_ne (Ne.symm hj)]
      simp only [Function.update_of_ne hj]
      exact h.progs j

/-- What one turn does. -/
theorem Explained.step (h : Explained handle held apply may fits seen a turns p acts)
    (hseen : seen i p.env) (hstep : Pool.step handle p i = some q) :
    ∃ op, Explained handle held apply may fits seen a (turns ++ [i]) q (acts ++ [(i, op)]) := by
  rcases step_eq_some hstep with ⟨c, k, hturn, -, -⟩
  rw [step_of_call hturn, Option.some.injEq] at hstep
  rw [← hstep]
  have hi := h.progs i
  rw [hturn] at hi
  rcases hi with ⟨hsilent, hrest⟩ | ⟨op, hmay, hact⟩
  · rcases hsilent p.env h.inv with ⟨hinv, hobject⟩
    exact ⟨none, h.unchanged hinv hobject (hrest _ ⟨p.env, hseen, rfl⟩)⟩
  · rcases hact p.env h.inv with ⟨hinv, ⟨hobject, hnext⟩ | ⟨hobject, hnext⟩⟩
    · exact ⟨none, h.unchanged hinv hobject hnext⟩
    · exact ⟨some op, h.acted hinv hmay hobject hnext⟩

/-- Every schedule of programs that act is linearizable. -/
theorem run_linearized (hinv : held.inv p.env)
    (hprog : ∀ i, Acts handle held apply
      (fun c r => ∃ s, AtTurn handle p turns i s ∧ r = (handle c s).1) (may i) (fits i) []
        (p.prog i))
    (hrun : run (step handle) p turns = some q) :
    ∃ acts, Linearized handle held apply may fits p turns q acts := by
  have hexplained : (∃ rest, turns = turns ++ rest) → ∃ acts,
      Explained handle held apply may fits (AtTurn handle p turns) (held.object p.env) turns q
          acts ∧
        ∀ before rest r, turns = before ++ rest → run (step handle) p before = some r →
          held.object r.env =
            Object.after apply (held.object p.env) (acts.take before.length) := by
    refine run_history (P := fun upTo r => (∃ rest, turns = upTo ++ rest) → ∃ acts,
      Explained handle held apply may fits (AtTurn handle p turns) (held.object p.env) upTo r
          acts ∧
        ∀ before rest r, upTo = before ++ rest → run (step handle) p before = some r →
          held.object r.env =
            Object.after apply (held.object p.env) (acts.take before.length)) ?_ ?_ hrun
    · intro _
      refine ⟨[], ⟨hinv, rfl, fun _ _ _ _ h => absurd h (by simp), rfl, hprog⟩, ?_⟩
      intro before rest r hsplit hr
      rw [(List.nil_eq_append_iff.mp hsplit).1] at hr ⊢
      cases hr
      rfl
    · rintro upTo i r t hupTo hr hstep ⟨rest, hrest⟩
      rw [List.append_assoc, List.singleton_append] at hrest
      rcases hr ⟨_, hrest⟩ with ⟨acts, hacts, hprefix⟩
      rcases hacts.step ⟨upTo, rest, r, hrest, hupTo, rfl⟩ hstep with ⟨op, hnext⟩
      have hlen : acts.length = upTo.length := by
        rw [← hacts.schedule, List.length_map]
      refine ⟨acts ++ [(i, op)], hnext, ?_⟩
      intro before later r' hsplit hr'
      rcases later.eq_nil_or_concat with rfl | ⟨later, last, rfl⟩
      · rw [List.append_nil] at hsplit
        subst hsplit
        have hrt : run (Pool.step handle) p (upTo ++ [i]) = some t :=
          run_snoc_eq_some.mpr ⟨r, hupTo, hstep⟩
        rw [hrt, Option.some.injEq] at hr'
        rw [← hr', List.take_of_length_le (by simp [hlen])]
        exact hnext.object
      · rw [List.concat_eq_append, ← List.append_assoc] at hsplit
        have hupTo' := (List.append_inj' hsplit rfl).1
        rw [List.take_append_of_le_length (by rw [hlen, hupTo']; simp)]
        exact hprefix before later r' hupTo' hr'
  rcases hexplained ⟨[], (List.append_nil _).symm⟩ with ⟨acts, hacts, hobject⟩
  refine ⟨acts, hacts.schedule, hacts.allowed, hobject, ?_⟩
  intro i value hvalue
  have hi := hacts.progs i
  unfold result at hvalue
  cases hprogi : q.prog i with
  | pure b =>
      rw [hprogi] at hvalue hi
      exact Option.some.inj hvalue ▸ hi
  | call c k => simp [hprogi] at hvalue

end

end Pool
