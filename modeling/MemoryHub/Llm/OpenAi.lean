import MemoryHub.Lib.SortByKey
import MemoryHub.Llm.Embedder

/-!
# The OpenAI provider

An embeddings response lists vectors in any order, each with the position of its text.  The
provider checks that there are as many as texts and sorts them by that position; positions
that occur twice, or not at all, are not looked for.

Main results:

- Theorem `aligned_iff`: every vector of an accepted response ends up at the position it is
  labelled with exactly if the labels are the positions, each of them once.
- Theorem `embed_unlabelled`: the vectors of a response without labels keep their order.
-/

namespace MemoryHub
namespace Llm

open Memory (Embedding)
open SortByKey

/-! ## Responses -/

/-- An item of an embeddings response as it is sent, perhaps without an index. -/
structure EmbedItem where
  index : Option UInt64
  embedding : Embedding
deriving DecidableEq, Repr

/-- An embeddings response as it is sent. -/
structure EmbedBody where
  model : String
  data : List EmbedItem
deriving DecidableEq, Repr

/-- An item once read. -/
structure EmbedResponseData where
  index : UInt64
  embedding : Embedding
deriving DecidableEq, Repr

/-- A response once read. -/
structure EmbedResponse where
  model : String
  data : List EmbedResponseData
deriving DecidableEq, Repr

/-- `#[serde(default)]`: a missing index is zero. -/
def EmbedItem.read (item : EmbedItem) : EmbedResponseData :=
  ⟨item.index.getD 0, item.embedding⟩

/-- `resp.json()`. -/
def EmbedBody.json (body : EmbedBody) : EmbedResponse :=
  ⟨body.model, body.data.map EmbedItem.read⟩

/-- `EmbeddingProvider::embed` for `OpenAiProvider`, given what the request came to. -/
def OpenAiProvider.embed (texts : List String) (response : Except LlmError EmbedBody) :
    Except LlmError EmbedResult :=
  match response with
  | .error e => .error e
  | .ok body =>
      let parsed := body.json
      if parsed.data.length ≠ texts.length then
        .error (.provider ("embedding count mismatch: requested " ++ Nat.repr texts.length ++
          " texts but provider returned " ++ Nat.repr parsed.data.length))
      else
        let data := sortByKey (fun d => d.index.toNat) parsed.data
        .ok ⟨parsed.model, data.map fun d => d.embedding⟩

/-- The embedder with this provider, given what the last request came to. -/
def embedViaOpenAi (texts : List String) (expectedDim : Option Nat)
    (response : Except LlmError EmbedBody) : Except LlmError EmbedResult :=
  embed texts expectedDim (OpenAiProvider.embed texts response)

/-- What is accepted are as many vectors as texts, in the order of their indices. -/
theorem embedViaOpenAi_eq_ok {texts : List String} {expectedDim : Option Nat} {body : EmbedBody}
    {result : EmbedResult} (h : embedViaOpenAi texts expectedDim (.ok body) = .ok result) :
    body.data.length = texts.length ∧ result.embeddings =
      (sortByKey (fun d => d.index.toNat) (body.data.map EmbedItem.read)).map
        fun d => d.embedding := by
  have hresponse := response_of_embed h
  simp only [OpenAiProvider.embed] at hresponse
  split at hresponse <;> rename_i hcount
  · contradiction
  · cases hresponse
    rw [EmbedBody.json, List.length_map, ne_eq, not_not] at hcount
    exact ⟨hcount, rfl⟩

/-! ## Labels -/

/-- The items labelled with a position. -/
def labelled (items : List EmbedItem) (i : Nat) : List EmbedItem :=
  items.filter fun item => item.index.map UInt64.toNat = some i

/-- The vector at each position is that of the one item labelled with it. -/
def Aligned (items : List EmbedItem) (embeddings : List Embedding) : Prop :=
  ∀ i e, embeddings[i]? = some e → (labelled items i).map EmbedItem.embedding = [e]

/-- The labels are the positions, each of them once. -/
def LabelsPositions (items : List EmbedItem) : Prop :=
  (items.map fun item => item.index.map UInt64.toNat).Perm
    ((List.range items.length).map some)

instance (items : List EmbedItem) : Decidable (LabelsPositions items) :=
  inferInstanceAs (Decidable (List.Perm _ _))

theorem index_read {item : EmbedItem} (h : item.index ≠ none) (i : Nat) :
    item.index.map UInt64.toNat = some i ↔ item.read.index.toNat = i := by
  rcases Option.ne_none_iff_exists'.mp h with ⟨index, hindex⟩
  simp [EmbedItem.read, hindex]

/-- With a label on each item, the items labelled with a position are those read with it. -/
theorem filter_read {items : List EmbedItem} (h : ∀ item ∈ items, item.index ≠ none) (i : Nat) :
    ((items.map EmbedItem.read).filter fun d => d.index.toNat = i).map
        (fun d => d.embedding) = (labelled items i).map EmbedItem.embedding := by
  rw [List.filter_map, List.map_map, labelled]
  have hsame : items.filter ((fun d => decide (d.index.toNat = i)) ∘ EmbedItem.read) =
      items.filter fun item => item.index.map UInt64.toNat = some i := by
    apply List.filter_congr
    intro item hitem
    rw [Function.comp_apply, decide_eq_decide]
    exact (index_read (h item hitem) i).symm
  rw [hsame]
  rfl

theorem labelsPositions_iff {items : List EmbedItem} (h : ∀ item ∈ items, item.index ≠ none) :
    LabelsPositions items ↔
      ((items.map EmbedItem.read).map fun d => d.index.toNat).Perm
        (List.range items.length) := by
  have hlabels : (items.map fun item => item.index.map UInt64.toNat) =
      ((items.map EmbedItem.read).map fun d => d.index.toNat).map some := by
    rw [List.map_map, List.map_map]
    apply List.map_congr_left
    intro item hitem
    exact (index_read (h item hitem) _).mpr rfl
  rw [LabelsPositions, hlabels, List.map_perm_map_iff (Option.some_injective _)]

/-- An accepted response is aligned exactly if its labels are the positions. -/
theorem aligned_iff {texts : List String} {expectedDim : Option Nat} {body : EmbedBody}
    {result : EmbedResult} (hlabels : ∀ item ∈ body.data, item.index ≠ none)
    (h : embedViaOpenAi texts expectedDim (.ok body) = .ok result) :
    Aligned body.data result.embeddings ↔ LabelsPositions body.data := by
  rcases embedViaOpenAi_eq_ok h with ⟨-, hresult⟩
  rw [labelsPositions_iff hlabels]
  constructor
  · intro haligned
    have hlength : ((body.data.map EmbedItem.read).map fun d => d.index.toNat).length =
        body.data.length := by rw [List.length_map, List.length_map]
    rw [← hlength]
    apply perm_range_of_forall_mem
    intro i hi
    -- Some item is labelled with the position, or there would be no vector for it.
    have hplace : i < result.embeddings.length := by
      rw [hresult, List.length_map, (sortByKey_perm _ _).length_eq, List.length_map]
      omega
    have hone := haligned i _ (List.getElem?_eq_getElem hplace)
    rw [← filter_read hlabels] at hone
    rcases List.map_eq_singleton_iff.mp hone with ⟨d, hfilter, -⟩
    have hd : d ∈ (body.data.map EmbedItem.read).filter fun d => d.index.toNat = i :=
      hfilter ▸ List.mem_singleton.mpr rfl
    rw [List.mem_filter, decide_eq_true_eq] at hd
    exact List.mem_map.mpr ⟨d, hd⟩
  · intro hperm i e he
    rw [hresult, List.getElem?_map, Option.map_eq_some_iff] at he
    rcases he with ⟨d, hd, rfl⟩
    rw [← filter_read hlabels, filter_key_of_sortByKey hperm hd, List.map_singleton]

/-- The vectors `[1.0]` and `[2.0]`, with the labels given. -/
def EmbedBody.sample (first second : UInt64) : EmbedBody :=
  ⟨"m", [⟨some first, ⟨[0x3f800000], Memory.Embedding.one_length_lt⟩⟩,
    ⟨some second, ⟨[0x40000000], by decide⟩⟩]⟩

/-- Two vectors sent the other way round. -/
theorem aligned_iff_reordered :
    Aligned (EmbedBody.sample 1 0).data
      [⟨[0x40000000], by decide⟩, ⟨[0x3f800000], by decide⟩] := by
  have haccepted : embedViaOpenAi ["a", "b"] none (.ok (.sample 1 0)) =
      .ok ⟨"m", [⟨[0x40000000], by decide⟩, ⟨[0x3f800000], by decide⟩]⟩ := by
    simp only [embedViaOpenAi, OpenAiProvider.embed, sortByKey_eq_insertionSort]
    decide +kernel
  exact (aligned_iff (by decide) haccepted).mpr (by decide)

/-- With the first label twice, the second text gets a vector labelled as the first one's. -/
theorem repeated_label_misaligned : ∃ result,
    (∀ item ∈ (EmbedBody.sample 0 0).data, item.index ≠ none) ∧
      embedViaOpenAi ["a", "b"] none (.ok (.sample 0 0)) = .ok result ∧
      ¬ Aligned (EmbedBody.sample 0 0).data result.embeddings := by
  have haccepted : embedViaOpenAi ["a", "b"] none (.ok (.sample 0 0)) =
      .ok ⟨"m", [⟨[0x3f800000], by decide⟩, ⟨[0x40000000], by decide⟩]⟩ := by
    simp only [embedViaOpenAi, OpenAiProvider.embed, sortByKey_eq_insertionSort]
    decide +kernel
  refine ⟨_, by decide, haccepted, ?_⟩
  intro haligned
  have hsecond := haligned 1 _ rfl
  exact absurd hsecond (by decide)

/-- The vectors of a response without labels keep their order. -/
theorem embed_unlabelled {texts : List String} {expectedDim : Option Nat} {body : EmbedBody}
    {result : EmbedResult} (hlabels : ∀ item ∈ body.data, item.index = none)
    (h : embedViaOpenAi texts expectedDim (.ok body) = .ok result) :
    result.embeddings = body.data.map EmbedItem.embedding := by
  rcases embedViaOpenAi_eq_ok h with ⟨-, hresult⟩
  have hzero : ∀ d ∈ body.data.map EmbedItem.read, d.index.toNat = 0 := by
    intro d hd
    rcases List.mem_map.mp hd with ⟨item, hitem, rfl⟩
    rw [EmbedItem.read, hlabels item hitem]
    rfl
  rw [hresult, sortByKey_of_const hzero, List.map_map]
  rfl

end Llm
end MemoryHub
