import MemoryHub.Memory.Error
import MemoryHub.Memory.Message

/-!
# The embedder

Embedding responses are checked before they are trusted: one vector for each text,
none empty, all of one dimension, every component finite.

Main results:

- Theorem `length_of_embed`: an accepted response has one vector for
  each text.
- Theorem `len_of_embed`: with a pinned dimension, each of them has it.
- Theorem `sound_of_embed`: none is empty, all are finite, and of one dimension.
-/

namespace MemoryHub
namespace Llm

open Memory (Embedding)

/-- A provider's embedding response. -/
structure EmbedResult where
  model : String
  embeddings : List Embedding
deriving DecidableEq, Repr

/-- `f32::is_finite` on a bit pattern: the exponent bits are not all ones. -/
def isFinite (bits : UInt32) : Bool :=
  (bits >>> 23) &&& 0xff != 0xff

/-- The check of one vector. -/
def validateEmbedding (dim : Option Nat) (i : Nat) (e : Embedding) : Except LlmError Unit :=
  if e.values = [] then
    .error (.provider ("provider returned an empty embedding for input " ++ Nat.repr i))
  else
    match dim.filter fun expected => e.len ≠ expected with
    | some expected =>
        .error (.provider ("embedding dimension mismatch for input " ++ Nat.repr i ++
          ": expected " ++ Nat.repr expected ++ " but got " ++ Nat.repr e.len))
    | none =>
        match e.values.findIdx? fun x => !isFinite x with
        | some j =>
            .error (.provider ("provider returned a non-finite embedding component at input " ++
              Nat.repr i ++ " index " ++ Nat.repr j))
        | none => .ok ()

/-- The checks of all vectors, in order. -/
def validateEach (dim : Option Nat) : List (Embedding × Nat) → Except LlmError Unit
  | [] => .ok ()
  | (e, i) :: rest =>
      match validateEmbedding dim i e with
      | .error err => .error err
      | .ok () => validateEach dim rest

/-- Validates a provider's response; the dimension to enforce is the pinned one, or
else that of the first vector. -/
def validateEmbeddings (texts : List String) (result : EmbedResult)
    (expectedDim : Option Nat) : Except LlmError Unit :=
  if result.embeddings.length ≠ texts.length then
    .error (.provider ("embedding count mismatch: requested " ++ Nat.repr texts.length ++
      " texts but provider returned " ++ Nat.repr result.embeddings.length))
  else
    validateEach (expectedDim <|> result.embeddings.head?.map Embedding.len)
      result.embeddings.zipIdx

/-- `Handler<Embed>`, given what the retried provider call came to. -/
def embed (texts : List String) (expectedDim : Option Nat)
    (response : Except LlmError EmbedResult) : Except LlmError EmbedResult :=
  match response with
  | .error e => .error e
  | .ok result =>
      match validateEmbeddings texts result expectedDim with
      | .error e => .error e
      | .ok () => .ok result

/-- What is accepted is the response. -/
theorem response_of_embed {texts : List String} {expectedDim : Option Nat}
    {response : Except LlmError EmbedResult} {result : EmbedResult}
    (h : embed texts expectedDim response = .ok result) : response = .ok result := by
  unfold embed at h
  cases response with
  | error e => simp at h
  | ok r =>
      simp only at h
      split at h
      · contradiction
      · exact h

/-- An accepted response has one vector for each text. -/
theorem length_of_embed {texts : List String} {expectedDim : Option Nat}
    {response : Except LlmError EmbedResult} {result : EmbedResult}
    (h : embed texts expectedDim response = .ok result) :
    result.embeddings.length = texts.length := by
  unfold embed at h
  cases response with
  | error e => simp at h
  | ok r =>
      simp only at h
      by_cases hlen : r.embeddings.length = texts.length
      · split at h
        · contradiction
        · cases h
          exact hlen
      · simp [validateEmbeddings, hlen] at h

/-- The checks pass only if every vector has the dimension enforced. -/
theorem len_of_validateEach {dim : Nat} {entries : List (Embedding × Nat)}
    (h : validateEach (some dim) entries = .ok ()) : ∀ e ∈ entries, e.1.len = dim := by
  induction entries with
  | nil =>
      intro e he
      simp at he
  | cons entry entries ih =>
      rcases entry with ⟨e, i⟩
      unfold validateEach at h
      cases hfirst : validateEmbedding (some dim) i e with
      | error err => simp [hfirst] at h
      | ok _ =>
          simp only [hfirst] at h
          have hlen : e.len = dim := by
            by_contra hne
            unfold validateEmbedding at hfirst
            split at hfirst
            · contradiction
            · simp [Option.filter, hne] at hfirst
          intro e' he'
          rcases List.mem_cons.mp he' with rfl | hrest
          · exact hlen
          · exact ih h e' hrest

/-- With a pinned dimension, every vector of an accepted response has it. -/
theorem len_of_embed {texts : List String} {dim : Nat} {response : Except LlmError EmbedResult}
    {result : EmbedResult} (h : embed texts (some dim) response = .ok result) :
    ∀ e ∈ result.embeddings, e.len = dim := by
  have hvalid : validateEmbeddings texts result (some dim) = .ok () := by
    rw [response_of_embed h] at h
    simp only [embed] at h
    split at h <;> rename_i hchecked
    · contradiction
    · exact hchecked
  unfold validateEmbeddings at hvalid
  split at hvalid
  · contradiction
  · intro e he
    rcases List.getElem_of_mem he with ⟨i, hi, rfl⟩
    refine len_of_validateEach hvalid (result.embeddings[i], i) ?_
    rw [List.mem_zipIdx_iff_getElem?]
    simp

/-! ## What is accepted -/

/-- A vector that the checks let pass. -/
def Sound (dim : Option Nat) (e : Embedding) : Prop :=
  e.values ≠ [] ∧ (∀ x ∈ e.values, isFinite x = true) ∧ ∀ d, dim = some d → e.len = d

theorem sound_of_validateEmbedding {dim : Option Nat} {i : Nat} {e : Embedding}
    (h : validateEmbedding dim i e = .ok ()) : Sound dim e := by
  unfold validateEmbedding at h
  split at h <;> rename_i hempty
  · contradiction
  · split at h <;> rename_i hdim
    · contradiction
    · split at h <;> rename_i hfinite
      · contradiction
      · refine ⟨hempty, ?_, ?_⟩
        · intro x hx
          have hpass := List.findIdx?_eq_none_iff.mp hfinite x hx
          simpa using hpass
        · rintro d rfl
          by_contra hne
          simp [Option.filter, hne] at hdim

theorem sound_of_validateEach {dim : Option Nat} {entries : List (Embedding × Nat)}
    (h : validateEach dim entries = .ok ()) : ∀ entry ∈ entries, Sound dim entry.1 := by
  induction entries with
  | nil =>
      intro entry hentry
      exact absurd hentry List.not_mem_nil
  | cons first entries ih =>
      unfold validateEach at h
      cases hfirst : validateEmbedding dim first.2 first.1 with
      | error err => simp [hfirst] at h
      | ok _ =>
          simp only [hfirst] at h
          intro entry hentry
          rcases List.mem_cons.mp hentry with rfl | hrest
          · exact sound_of_validateEmbedding hfirst
          · exact ih h entry hrest

/-- The vectors of an accepted response are not empty, finite, and of one dimension, the pinned
one if there is one. -/
theorem sound_of_embed {texts : List String} {expectedDim : Option Nat}
    {response : Except LlmError EmbedResult} {result : EmbedResult}
    (h : embed texts expectedDim response = .ok result) :
    ∀ e ∈ result.embeddings,
      Sound (expectedDim <|> result.embeddings.head?.map Embedding.len) e := by
  have hvalid : validateEmbeddings texts result expectedDim = .ok () := by
    rw [response_of_embed h] at h
    simp only [embed] at h
    split at h <;> rename_i hchecked
    · contradiction
    · exact hchecked
  unfold validateEmbeddings at hvalid
  split at hvalid
  · contradiction
  · intro e he
    rcases List.getElem_of_mem he with ⟨i, hi, rfl⟩
    refine sound_of_validateEach hvalid (result.embeddings[i], i) ?_
    rw [List.mem_zipIdx_iff_getElem?]
    simp

end Llm
end MemoryHub
