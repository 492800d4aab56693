import MemoryHub.Lib.Prog

/-!
# Programs over the calls of other programs

The calls of a program can be carried out by programs over other calls.

Main results:

- Theorem `bind_assoc`: programs are a monad that meets its laws.
- Theorem `interpret_bind`: part by part.
- Theorem `Meets.interpret`: what the result calls and returns.
-/

namespace Prog

variable {C C' : Type} {R : C → Type} {R' : C' → Type} {α β : Type}

/-- Carry out each call by a program. -/
def interpret (f : (c : C) → Prog C' R' (R c)) : Prog C R α → Prog C' R' α
  | .pure a => .pure a
  | .call c k => f c >>= fun r => interpret f (k r)

variable {f : (c : C) → Prog C' R' (R c)}

@[simp]
theorem interpret_pure (a : α) : interpret f (Pure.pure a) = Pure.pure a :=
  rfl

theorem map_id (p : Prog C R α) : id <$> p = p := by
  induction p with
  | pure a => rfl
  | call c k ih => exact congrArg (Prog.call c) (funext ih)

theorem bind_assoc (p : Prog C R α) {γ : Type} (g : α → Prog C R β) (h : β → Prog C R γ) :
    p >>= g >>= h = p >>= fun a => g a >>= h := by
  induction p with
  | pure a => rfl
  | call c k ih => exact congrArg (Prog.call c) (funext ih)

instance : LawfulMonad (Prog C R) :=
  LawfulMonad.mk' _ map_id (fun _ _ => rfl) fun p g h => bind_assoc p g h

@[simp]
theorem interpret_perform (c : C) : interpret f (perform c) = f c :=
  bind_pure (f c)

@[simp]
theorem interpret_bind (p : Prog C R α) (g : α → Prog C R β) :
    interpret f (p >>= g) = interpret f p >>= fun a => interpret f (g a) := by
  induction p with
  | pure a => rfl
  | call c k ih =>
      change f c >>= (fun r => interpret f (k r >>= g)) = _
      rw [funext ih]
      exact (bind_assoc (f c) _ _).symm

variable {ok : ∀ c, R c → Prop} {ok' : ∀ c, R' c → Prop} {P : C → Prop} {P' : C' → Prop}
  {Q : α → Prop}

/-- What a program meets, given what carries out its calls. -/
theorem Meets.interpret {p : Prog C R α} (hp : Meets ok P Q p)
    (hf : ∀ c, P c → Meets ok' P' (ok c) (f c)) : Meets ok' P' Q (interpret f p) := by
  induction p with
  | pure a => exact hp
  | call c k ih => exact (hf c hp.1).bind fun r hr => ih r (hp.2 r hr)

end Prog
