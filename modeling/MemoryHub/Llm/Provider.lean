import MemoryHub.Lib.Prog
import MemoryHub.Memory.Error
import Mathlib.Algebra.Order.Ring.Nat

/-!
# Calls to a provider

A call to a provider is made again, after a pause, while it fails with an error that may pass.

Main results:

- Theorem `retry_meets`: retrying makes no other calls than the call that is retried and
  the pauses.
- Theorem `exec_retryCounted`: the counter of the attempts does not overflow.
- Theorem `retry_first_decisive`: which attempt is the last one, and what is returned.
- Theorem `retry_attempts`: what is seen of the attempts, where each is seen once.
-/

namespace MemoryHub
namespace Llm

open Prog

/-- A provider's response to a chat completion call. -/
structure ChatResponse where
  model : String
  content : String
deriving DecidableEq, Repr

/-- The milliseconds of a pause before the jitter, which takes off up to one half. -/
def baseMs (attempt : Nat) : Nat :=
  match attempt with
  | 1 => 250
  | 2 => 500
  | _ => 1000

section

variable {C : Type} {R : C → Type} {α : Type}

/-- The loop of `retry`, after `attempt` attempts. -/
def retryFrom (maxAttempts : Nat) (f : Prog C R (Except LlmError α))
    (sleep : Nat → Prog C R Unit) (attempt : Nat) : Prog C R (Except LlmError α) := do
  let attempt := attempt + 1
  match ← f with
  | .ok v => return .ok v
  | .error (.transient msg) =>
      if attempt < maxAttempts then
        sleep (baseMs attempt)
        retryFrom maxAttempts f sleep attempt
      else return .error (.transient msg)
  | .error e => return .error e
termination_by maxAttempts - attempt

/-- `retry`: at least one attempt, and at most `maxAttempts` ones. -/
def retry (maxAttempts : UInt32) (f : Prog C R (Except LlmError α))
    (sleep : Nat → Prog C R Unit) : Prog C R (Except LlmError α) :=
  retryFrom (max maxAttempts.toNat 1) f sleep 0

variable {ok : ∀ c, R c → Prop} {P : C → Prop} {f : Prog C R (Except LlmError α)}
  {sleep : Nat → Prog C R Unit}

theorem retryFrom_meets (hf : Meets ok P (fun _ => True) f)
    (hsleep : ∀ ms, Meets ok P (fun _ => True) (sleep ms)) (maxAttempts attempt : Nat) :
    Meets ok P (fun _ => True) (retryFrom maxAttempts f sleep attempt) := by
  -- By the attempts that are left.
  induction hleft : maxAttempts - attempt using Nat.strong_induction_on generalizing attempt with
  | _ left ih =>
      rw [retryFrom]
      apply Meets.bind hf
      intro result _
      split
      · exact meets_pure trivial
      · split
        · rename_i hlt
          apply Meets.bind (hsleep _)
          intro _ _
          exact ih _ (by omega) (attempt + 1) rfl
        · exact meets_pure trivial
      · exact meets_pure trivial

/-- Retrying makes the calls that are retried and those of the pauses. -/
theorem retry_meets (hf : Meets ok P (fun _ => True) f)
    (hsleep : ∀ ms, Meets ok P (fun _ => True) (sleep ms)) (maxAttempts : UInt32) :
    Meets ok P (fun _ => True) (retry maxAttempts f sleep) :=
  retryFrom_meets hf hsleep _ 0

/-! ## The counter -/

theorem toNat_succ {n : UInt32} (hroom : n.toNat + 1 < 2 ^ 32) :
    (n + 1).toNat = n.toNat + 1 :=
  (UInt32.toNat_add n 1).trans (Nat.mod_eq_of_lt hroom)

/-- `retry` after `attempt` attempts, with its counter in a `u32`; `none` if it overflows. -/
def retryCountedFrom (maxAttempts : UInt32) (f : Prog C R (Except LlmError α))
    (sleep : Nat → Prog C R Unit) (attempt : UInt32) :
    Prog C R (Option (Except LlmError α)) := do
  if _hroom : attempt.toNat + 1 < 2 ^ 32 then
    match ← f with
    | .ok v => return some (.ok v)
    | .error (.transient msg) =>
        if hless : attempt + 1 < maxAttempts then
          sleep (baseMs (attempt + 1).toNat)
          retryCountedFrom maxAttempts f sleep (attempt + 1)
        else return some (.error (.transient msg))
    | .error e => return some (.error e)
  else return none
termination_by maxAttempts.toNat - attempt.toNat
decreasing_by
  rw [UInt32.lt_iff_toNat_lt, toNat_succ _hroom] at hless
  rw [toNat_succ _hroom]
  omega

/-- `retry` with its counter in a `u32`. -/
def retryCounted (maxAttempts : UInt32) (f : Prog C R (Except LlmError α))
    (sleep : Nat → Prog C R Unit) : Prog C R (Option (Except LlmError α)) :=
  retryCountedFrom (max maxAttempts 1) f sleep 0

section

variable {σ : Type} (handle : (c : C) → σ → R c × σ)

/-- Below the limit the counter has room. -/
theorem exec_retryCountedFrom (f : Prog C R (Except LlmError α)) (sleep : Nat → Prog C R Unit)
    {maxAttempts attempt : UInt32} (hless : attempt < maxAttempts) (s : σ) :
    exec handle (retryCountedFrom maxAttempts f sleep attempt) s =
      (some (exec handle (retryFrom maxAttempts.toNat f sleep attempt.toNat) s).1,
        (exec handle (retryFrom maxAttempts.toNat f sleep attempt.toNat) s).2) := by
  -- By the attempts that are left.
  induction hleft : maxAttempts.toNat - attempt.toNat using Nat.strong_induction_on
    generalizing attempt s with
  | _ left ih =>
      have hlimit := maxAttempts.toNat_lt
      have hbelow := UInt32.lt_iff_toNat_lt.mp hless
      have hroom : attempt.toNat + 1 < 2 ^ 32 := by omega
      have hnext := toNat_succ hroom
      rw [retryCountedFrom, retryFrom, dif_pos hroom]
      simp only [exec_bind]
      rcases exec handle f s with ⟨result, t⟩
      cases result with
      | ok v => rfl
      | error e =>
          cases e with
          | transient msg =>
              by_cases hmore : attempt + 1 < maxAttempts
              · have hmore' : attempt.toNat + 1 < maxAttempts.toNat := by
                  rw [← hnext]
                  exact UInt32.lt_iff_toNat_lt.mp hmore
                have hrest := ih _ (by omega) hmore (exec handle (sleep
                  (baseMs (attempt.toNat + 1))) t).2 rfl
                simp only [dif_pos hmore, if_pos hmore', exec_bind, hnext] at hrest ⊢
                exact hrest
              · have hmore' : ¬ attempt.toNat + 1 < maxAttempts.toNat := by
                  rw [← hnext]
                  exact fun h => hmore (UInt32.lt_iff_toNat_lt.mpr h)
                simp only [dif_neg hmore, if_neg hmore']
                rfl
          | provider message => rfl
          | loadTemplate source => rfl
          | sendError => rfl
          | recvError => rfl

/-- The counter of `retry` does not overflow. -/
theorem exec_retryCounted (maxAttempts : UInt32) (f : Prog C R (Except LlmError α))
    (sleep : Nat → Prog C R Unit) (s : σ) :
    exec handle (retryCounted maxAttempts f sleep) s =
      (some (exec handle (retry maxAttempts f sleep) s).1,
        (exec handle (retry maxAttempts f sleep) s).2) := by
  have hone : (1 : UInt32).toNat = 1 := rfl
  have hzero : (0 : UInt32).toNat = 0 := rfl
  have hmax : (max maxAttempts 1).toNat = max maxAttempts.toNat 1 := by
    change (if maxAttempts ≤ 1 then 1 else maxAttempts).toNat = _
    split <;> rename_i hle <;> rw [UInt32.le_iff_toNat_le, hone] at hle
    · rw [hone, Nat.max_eq_right hle]
    · rw [Nat.max_eq_left (Nat.le_of_not_le hle)]
  have hpos : (0 : UInt32) < max maxAttempts 1 := by
    rw [UInt32.lt_iff_toNat_lt, hmax, hzero]
    exact Nat.lt_of_lt_of_le Nat.one_pos (Nat.le_max_right _ _)
  rw [retryCounted, exec_retryCountedFrom handle f sleep hpos, hmax, hzero, retry]

end

end

/-! ## The last attempt -/

/-- What a retried call does: an attempt, and the pauses between attempts. -/
inductive RetryCall where
  | attempt
  | sleep (baseMs : Nat)
deriving DecidableEq

/-- What they answer. -/
@[reducible]
def RetryCall.Response (α : Type) : RetryCall → Type
  | .attempt => Except LlmError α
  | .sleep _ => Unit

variable {α : Type}

/-- Attempts come to the outcomes of a sequence that starts with `outcome 1`; the state is the
number of attempts made. -/
def inTurn (outcome : Nat → Except LlmError α) : (c : RetryCall) → Nat → c.Response α × Nat
  | .attempt, made => (outcome (made + 1), made + 1)
  | .sleep _, made => ((), made)

/-- An outcome after which another attempt is worth while. -/
def isTransient : Except LlmError α → Bool
  | .error (.transient _) => true
  | _ => false

/-- The first outcome of the sequence that is not a transient error is the one in place `k`. -/
def IsFirstDecisive (outcome : Nat → Except LlmError α) (k : Nat) : Prop :=
  1 ≤ k ∧ isTransient (outcome k) = false ∧
    ∀ i, 1 ≤ i → i < k → isTransient (outcome i) = true

/-- The loop ends with the attempt that is not to be repeated, or the last one allowed, and
returns its outcome. -/
theorem exec_retryFrom (outcome : Nat → Except LlmError α) (maxAttempts attempt : Nat) :
    ∃ n, exec (inTurn outcome) (retryFrom maxAttempts (perform RetryCall.attempt)
        (fun ms => perform (RetryCall.sleep ms)) attempt) attempt = (outcome n, n) ∧
      attempt < n ∧ n ≤ max maxAttempts (attempt + 1) ∧
      (∀ i, attempt < i → i < n → isTransient (outcome i) = true) ∧
      (isTransient (outcome n) = true → maxAttempts ≤ n) := by
  -- By the attempts that are left.
  induction hleft : maxAttempts - attempt using Nat.strong_induction_on generalizing attempt with
  | _ left ih =>
      have hstop : ∀ r : Except LlmError α, outcome (attempt + 1) = r →
          (isTransient r = true → maxAttempts ≤ attempt + 1) →
          ∃ n, (r, attempt + 1) = (outcome n, n) ∧ attempt < n ∧
            n ≤ max maxAttempts (attempt + 1) ∧
            (∀ i, attempt < i → i < n → isTransient (outcome i) = true) ∧
            (isTransient (outcome n) = true → maxAttempts ≤ n) := by
        rintro r rfl hlast
        exact ⟨attempt + 1, rfl, Nat.lt_succ_self _, Nat.le_max_right _ _,
          fun i hfrom hto => absurd hfrom (by omega), hlast⟩
      rw [retryFrom, exec_bind, exec_perform, inTurn]
      cases hresult : outcome (attempt + 1) with
      | ok v => exact hstop _ hresult (by simp [isTransient])
      | error e =>
          cases e with
          | transient msg =>
              by_cases hmore : attempt + 1 < maxAttempts
              · simp only [if_pos hmore, exec_bind, exec_perform, inTurn]
                rcases ih _ (by omega) (attempt + 1) rfl with ⟨n, hexec, hfrom, hto, hpassed, hlast⟩
                refine ⟨n, hexec, by omega, by omega, ?_, hlast⟩
                intro i hi hin
                rcases Nat.lt_or_ge (attempt + 1) i with hlater | hfirst
                · exact hpassed i hlater hin
                · have hi : i = attempt + 1 := by omega
                  rw [hi, hresult]
                  rfl
              · simp only [if_neg hmore]
                exact hstop _ hresult fun _ => Nat.le_of_not_lt hmore
          | provider message => exact hstop _ hresult (by simp [isTransient])
          | loadTemplate source => exact hstop _ hresult (by simp [isTransient])
          | sendError => exact hstop _ hresult (by simp [isTransient])
          | recvError => exact hstop _ hresult (by simp [isTransient])

/-- Whatever the attempts come to, `retry` makes as many as there are up to the first outcome that
is no transient error, but no more than it is allowed and at least one, and returns the outcome
of the last; its counter does not overflow. -/
theorem retry_first_decisive (maxAttempts : UInt32) (outcome : Nat → Except LlmError α) :
    ∃ n, exec (inTurn outcome) (retryCounted maxAttempts (perform RetryCall.attempt)
          (fun ms => perform (RetryCall.sleep ms))) 0 = (some (outcome n), n) ∧
      exec (inTurn outcome) (retry maxAttempts (perform RetryCall.attempt)
          (fun ms => perform (RetryCall.sleep ms))) 0 = (outcome n, n) ∧
      (∀ k, IsFirstDecisive outcome k → k ≤ max 1 maxAttempts.toNat → n = k) ∧
      ((∀ k, IsFirstDecisive outcome k → max 1 maxAttempts.toNat < k) →
        n = max 1 maxAttempts.toNat) := by
  rcases exec_retryFrom outcome (max maxAttempts.toNat 1) 0 with
    ⟨n, hexec, hpos, hle, hpassed, hlast⟩
  have hretry : exec (inTurn outcome) (retry maxAttempts (perform RetryCall.attempt)
      (fun ms => perform (RetryCall.sleep ms))) 0 = (outcome n, n) := hexec
  refine ⟨n, by rw [exec_retryCounted, hretry], hretry, ?_, ?_⟩
  · rintro k ⟨hk, hdecisive, hbefore⟩ hlimit
    rcases Nat.lt_trichotomy n k with hlt | heq | hgt
    · -- The loop would have ended with a transient outcome below the limit.
      have hlimit' := hlast (hbefore n hpos hlt)
      omega
    · exact heq
    · rw [hpassed k hk hgt] at hdecisive
      contradiction
  · intro hnone
    by_contra hne
    have hdecisive : isTransient (outcome n) = false := by
      by_contra hpasses
      have hlimit := hlast (by simpa using hpasses)
      omega
    have hfirst := hnone n ⟨hpos, hdecisive, hpassed⟩
    omega

/-! ## Attempts that are seen -/

section

variable {C : Type} {R : C → Type} {α β σ : Type}

/-- What was seen of attempts that came to a result: one thing of each, at most so many; all but
the last came to transient errors, and so did the last only if no more were allowed. -/
def Attempts (limit : Nat) (made : β → Prop) (outcome : β → Except LlmError α) (seen : List β)
    (result : Except LlmError α) : Prop :=
  ∃ failed last, seen = failed ++ [last] ∧ result = outcome last ∧ (∀ b ∈ seen, made b) ∧
    (∀ b ∈ failed, isTransient (outcome b) = true) ∧ seen.length ≤ limit ∧
    (isTransient result = true → seen.length = limit)

variable {made : β → Prop} {outcome : β → Except LlmError α}

/-- An attempt that is the last one. -/
theorem attempts_last {limit : Nat} {b : β} (hmade : made b) (hpos : 1 ≤ limit)
    (hlast : isTransient (outcome b) = true → limit = 1) :
    Attempts limit made outcome [b] (outcome b) := by
  refine ⟨[], b, rfl, rfl, ?_, by simp, hpos, fun h => (hlast h).symm⟩
  intro b' hb'
  rw [List.mem_singleton.mp hb']
  exact hmade

/-- An attempt that is repeated. -/
theorem Attempts.cons {limit : Nat} {b : β} {seen : List β} {result : Except LlmError α}
    (h : Attempts limit made outcome seen result) (hmade : made b)
    (hfailed : isTransient (outcome b) = true) :
    Attempts (limit + 1) made outcome (b :: seen) result := by
  rcases h with ⟨failed, last, hseen, hresult, hmades, hfails, hlimit, hlast⟩
  refine ⟨b :: failed, last, by rw [hseen, List.cons_append], hresult, ?_, ?_,
    Nat.succ_le_succ hlimit, fun htransient => congrArg Nat.succ (hlast htransient)⟩
  · intro b' hb'
    rcases List.mem_cons.mp hb' with rfl | hb'
    · exact hmade
    · exact hmades b' hb'
  · intro b' hb'
    rcases List.mem_cons.mp hb' with rfl | hb'
    · exact hfailed
    · exact hfails b' hb'

variable {handle : (c : C) → σ → R c × σ} {see : (Σ c, R c) → Option β}
  {f : Prog C R (Except LlmError α)} {sleep : Nat → Prog C R Unit}

theorem retryFrom_attempts
    (hf : ∀ s, ∃ b, (trace handle f s).filterMap see = [b] ∧ made b ∧
      (exec handle f s).1 = outcome b)
    (hsleep : ∀ ms s, (trace handle (sleep ms) s).filterMap see = []) (maxAttempts attempt : Nat)
    (s : σ) :
    Attempts (max (maxAttempts - attempt) 1) made outcome
      ((trace handle (retryFrom maxAttempts f sleep attempt) s).filterMap see)
      (exec handle (retryFrom maxAttempts f sleep attempt) s).1 := by
  -- By the attempts that are left.
  induction hleft : maxAttempts - attempt using Nat.strong_induction_on generalizing attempt s with
  | _ left ih =>
      rcases hf s with ⟨b, hseen, hmade, hresult⟩
      rw [retryFrom, trace_bind, exec_bind, List.filterMap_append, hseen, hresult]
      have hstop : ∀ r, outcome b = r → (isTransient r = true → maxAttempts ≤ attempt + 1) →
          Attempts (max left 1) made outcome ([b] ++ []) r := by
        rintro r rfl hlast
        refine attempts_last hmade (Nat.le_max_right _ _) fun h => ?_
        have hlimit := hlast h
        omega
      cases houtcome : outcome b with
      | ok v => exact hstop _ houtcome (by simp [isTransient])
      | error e =>
          cases e with
          | transient msg =>
              by_cases hmore : attempt + 1 < maxAttempts
              · simp only [if_pos hmore, exec_bind, trace_bind, List.filterMap_append, hsleep,
                  List.nil_append]
                have hrest := ih _ (by omega) (attempt + 1)
                  (exec handle (sleep (baseMs (attempt + 1))) (exec handle f s).2).2 rfl
                have hlimit : max left 1 = max (maxAttempts - (attempt + 1)) 1 + 1 := by omega
                rw [hlimit]
                exact hrest.cons hmade (by rw [houtcome]; rfl)
              · simp only [if_neg hmore]
                exact hstop _ houtcome fun _ => Nat.le_of_not_lt hmore
          | provider message => exact hstop _ houtcome (by simp [isTransient])
          | loadTemplate source => exact hstop _ houtcome (by simp [isTransient])
          | sendError => exact hstop _ houtcome (by simp [isTransient])
          | recvError => exact hstop _ houtcome (by simp [isTransient])

/-- Where each attempt is seen once and no pause is, `retry` is seen as attempts. -/
theorem retry_attempts
    (hf : ∀ s, ∃ b, (trace handle f s).filterMap see = [b] ∧ made b ∧
      (exec handle f s).1 = outcome b)
    (hsleep : ∀ ms s, (trace handle (sleep ms) s).filterMap see = []) (maxAttempts : UInt32)
    (s : σ) :
    Attempts (max maxAttempts.toNat 1) made outcome
      ((trace handle (retry maxAttempts f sleep) s).filterMap see)
      (exec handle (retry maxAttempts f sleep) s).1 := by
  have hattempts := retryFrom_attempts hf hsleep (max maxAttempts.toNat 1) 0 s
  rwa [Nat.sub_zero, max_eq_left (Nat.le_max_right _ 1)] at hattempts

end

end Llm
end MemoryHub
