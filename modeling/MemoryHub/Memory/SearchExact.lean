import MemoryHub.Memory.SearchRanking
import Mathlib.Data.Set.Finite.Lemmas
import Mathlib.Order.Bounds.Basic
import Mathlib.Tactic.Linarith

/-!
# Exact distances

With exact numbers a chunk's best score is that of its smallest distance, and the nearest chunks
have the best scores.

Main results:

- Theorem `bestScore_eq_some_iff`: the best score is that of the smallest distance.
- Theorem `exists_found_doSearch`: a search returns the nearest of the chunks found.
- Theorem `Knn.exact_nearestK`: a vector table that computes every distance.
-/

namespace MemoryHub
namespace Memory

open Collections TopK

/-! ## Smallest distances -/

/-- The distances at which the rows have a chunk. -/
def foundAt (rows : List (KnnHit ℚ × ChunkRow)) (c : ChunkRow) : Set ℚ :=
  {d | ∃ row ∈ rows, row.2 = c ∧ row.1.distance = some d}

theorem foundAt_snoc_of_ne {rows : List (KnnHit ℚ × ChunkRow)} {row : KnnHit ℚ × ChunkRow}
    {c : ChunkRow} (h : row.2 ≠ c ∨ row.1.distance = none) :
    foundAt (rows ++ [row]) c = foundAt rows c := by
  ext d
  constructor
  · rintro ⟨row', hrow', hc, hd⟩
    rcases List.mem_append.mp hrow' with hold | hnew
    · exact ⟨row', hold, hc, hd⟩
    · rw [List.mem_singleton.mp hnew] at hc hd
      rcases h with hne | hnone
      · exact absurd hc hne
      · rw [hnone] at hd
        contradiction
  · rintro ⟨row', hrow', hc, hd⟩
    exact ⟨row', List.mem_append_left _ hrow', hc, hd⟩

theorem foundAt_snoc {rows : List (KnnHit ℚ × ChunkRow)} {row : KnnHit ℚ × ChunkRow} {x : ℚ}
    (h : row.1.distance = some x) :
    foundAt (rows ++ [row]) row.2 = insert x (foundAt rows row.2) := by
  ext d
  constructor
  · rintro ⟨row', hrow', hc, hd⟩
    rcases List.mem_append.mp hrow' with hold | hnew
    · exact Or.inr ⟨row', hold, hc, hd⟩
    · rw [List.mem_singleton.mp hnew, h, Option.some_inj] at hd
      exact Or.inl hd.symm
  · rintro (rfl | ⟨row', hrow', hc, hd⟩)
    · exact ⟨row, List.mem_append_right _ (List.mem_singleton_self row), rfl, h⟩
    · exact ⟨row', List.mem_append_left _ hrow', hc, hd⟩

/-- A chunk that is found has a smallest distance. -/
theorem exists_isLeast_foundAt {rows : List (KnnHit ℚ × ChunkRow)} {c : ChunkRow} {d : ℚ}
    (h : d ∈ foundAt rows c) : ∃ least, IsLeast (foundAt rows c) least := by
  have hfinite : (foundAt rows c).Finite := by
    refine (List.finite_toSet (rows.filterMap fun row => row.1.distance)).subset ?_
    rintro x ⟨row, hrow, -, hx⟩
    exact List.mem_filterMap.mpr ⟨row, hrow, hx⟩
  rcases Set.exists_min_image _ id hfinite ⟨d, h⟩ with ⟨least, hmem, hmin⟩
  exact ⟨least, hmem, fun x hx => hmin x hx⟩

/-- The score of a distance. -/
theorem score_exact (distance : ℚ) : Scoring.score distance = 1 - distance / 2 :=
  rfl

/-- One more row gives its chunk the smaller of two distances. -/
theorem betterOf_score {least x : ℚ} :
    betterOf (some (Scoring.score least)) (Scoring.score x) = Scoring.score (min least x) := by
  have hatLeast : Scoring.atLeast (Scoring.score least) (Scoring.score x) = decide (least ≤ x) := by
    rw [Bool.eq_iff_iff, decide_eq_true_eq]
    refine (decide_eq_true_iff (p := Scoring.score least ≥ Scoring.score x)).trans ?_
    rw [score_exact, score_exact]
    constructor
    · intro h
      linarith
    · intro h
      linarith
  unfold betterOf
  simp only [hatLeast]
  by_cases hle : least ≤ x
  · simp [hle]
  · simp [hle, min_eq_right (le_of_not_ge hle)]

/-- The best score is that of the smallest distance. -/
theorem bestScore_eq_some_iff {rows : List (KnnHit ℚ × ChunkRow)} {c : ChunkRow} {s : ℚ} :
    bestScore rows c = some s ↔ ∃ d, IsLeast (foundAt rows c) d ∧ s = Scoring.score d := by
  induction rows using List.reverseRecOn generalizing s with
  | nil =>
      refine iff_of_false (by simp [bestScore, scoresOf]) ?_
      rintro ⟨d, ⟨⟨row, hrow, -⟩, -⟩, -⟩
      exact List.not_mem_nil hrow
  | append_singleton rows row ih =>
      by_cases hother : row.2 ≠ c ∨ row.1.distance = none
      · rw [bestScore_snoc_of_ne hother, foundAt_snoc_of_ne hother, ih]
      · rw [not_or, not_not] at hother
        rcases hother with ⟨rfl, hdistance⟩
        rcases Option.ne_none_iff_exists'.mp hdistance with ⟨x, hx⟩
        rw [bestScore_snoc hx, foundAt_snoc hx, Option.some_inj]
        cases hbest : bestScore rows row.2 with
        | none =>
            have hempty : foundAt rows row.2 = ∅ := by
              by_contra hne
              rcases Set.nonempty_iff_ne_empty.mpr hne with ⟨y, hy⟩
              rcases exists_isLeast_foundAt hy with ⟨least, hleast⟩
              rw [ih.mpr ⟨least, hleast, rfl⟩] at hbest
              contradiction
            rw [hempty, insert_empty_eq]
            constructor
            · rintro rfl
              exact ⟨x, isLeast_singleton, rfl⟩
            · rintro ⟨d, hd, rfl⟩
              rw [hd.unique isLeast_singleton]
              rfl
        | some best =>
            rcases ih.mp hbest with ⟨least, hleast, rfl⟩
            rw [betterOf_score, min_comm]
            have hmin : IsLeast (insert x (foundAt rows row.2)) (min x least) := hleast.insert x
            constructor
            · rintro rfl
              exact ⟨_, hmin, rfl⟩
            · rintro ⟨d, hd, rfl⟩
              rw [hd.unique hmin]

/-! ## The chunks found -/

/-- A chunk found, with its smallest distance. -/
abbrev Found :=
  ChunkRow × ℚ

/-- The result of a chunk found. -/
def Found.result (f : Found) : SearchResult ℚ :=
  f.1.result (Scoring.score f.2)

/-- Nearer chunks come first. -/
def nearer (f g : Found) : Bool :=
  f.2 ≤ g.2

theorem nearer_preorder : TotalPreorder nearer where
  trans := by
    intro f g h hfg hgh
    simp only [nearer, decide_eq_true_eq] at hfg hgh ⊢
    exact hfg.trans hgh
  total := by
    intro f g
    simp only [nearer, Bool.or_eq_true, decide_eq_true_eq]
    exact le_total f.2 g.2

/-- A result is better exactly if its chunk is nearer. -/
theorem betterScore_result (f g : Found) : betterScore f.result g.result = nearer f g := by
  rw [Bool.eq_iff_iff, nearer, decide_eq_true_eq]
  refine (decide_eq_true_iff (p := g.result.score ≤ f.result.score)).trans ?_
  simp only [Found.result, ChunkRow.result, score_exact]
  constructor
  · intro h
    linarith
  · intro h
    linarith

/-- The chunks that were found, each once, with their smallest distances. -/
structure FoundList (db : IndexDb) (rows : List (KnnHit ℚ × ChunkRow)) (found : List Found) :
    Prop where
  nodup : (found.map Prod.fst).Nodup
  mem_iff : ∀ c d, (c, d) ∈ found ↔ c ∈ db.chunks.rows ∧ IsLeast (foundAt rows c) d

/-- A chunk with its best score is a chunk with its smallest distance. -/
def Scored.found (f : Scored ℚ) : Found :=
  (f.1, 2 * (1 - f.2))

theorem Scored.result_found (f : Scored ℚ) : f.found.result = f.result := by
  simp only [Found.result, Scored.found, Scored.result, score_exact]
  congr 1
  linarith

theorem ScoredList.foundList {db : IndexDb} {rows : List (KnnHit ℚ × ChunkRow)}
    {scored : List (Scored ℚ)} (h : ScoredList db rows scored) :
    FoundList db rows (scored.map Scored.found) where
  nodup := by
    rw [List.map_map]
    exact h.nodup
  mem_iff := by
    intro c d
    constructor
    · intro hmem
      rcases List.mem_map.mp hmem with ⟨⟨c', s⟩, hs, heq⟩
      rcases (h.mem_iff c' s).mp hs with ⟨hc, hbest⟩
      rcases bestScore_eq_some_iff.mp hbest with ⟨least, hleast, rfl⟩
      simp only [Scored.found, Prod.mk.injEq, score_exact] at heq
      rcases heq with ⟨rfl, hd⟩
      have hsame : d = least := by linarith
      rw [hsame]
      exact ⟨hc, hleast⟩
    · rintro ⟨hc, hleast⟩
      refine List.mem_map.mpr ⟨(c, Scoring.score d),
        (h.mem_iff _ _).mpr ⟨hc, bestScore_eq_some_iff.mpr ⟨d, hleast, rfl⟩⟩, ?_⟩
      refine Prod.ext rfl ?_
      simp only [Scored.found, score_exact]
      linarith

/-- Sorting the results sorts the chunks found by distance. -/
theorem top_map_result (limit : Nat) (found : List Found) :
    top betterScore limit (found.map Found.result) =
      (top nearer limit found).map Found.result := by
  have hsort : (found.mergeSort nearer).map Found.result =
      (found.map Found.result).mergeSort betterScore :=
    List.map_mergeSort fun f _ g _ => (betterScore_result f g).symm
  rw [top, top, List.map_take, hsort]

/-- A search returns the nearest of the chunks found. -/
theorem exists_found_doSearch {db : IndexDb} {knn : Knn ℚ} {msg : IndexSearch}
    (order : IterationOrder (Σ _ : String, SearchResult ℚ)) {vec : VecTable}
    (hvec : db.chunksVec = some vec) {rows : List (KnnHit ℚ × ChunkRow)}
    (hrows : queryRows db knn msg msg.embeddings = .ok rows) :
    ∃ found, FoundList db rows found ∧
      doSearch db knn order msg = .ok ((top nearer msg.limit found).map Found.result) := by
  rcases exists_scored_doSearch order hvec hrows with ⟨scored, hscored, -, hsearch⟩
  refine ⟨_, hscored.foundList, ?_⟩
  have hresults : scored.map Scored.result = (scored.map Scored.found).map Found.result := by
    rw [List.map_map]
    exact List.map_congr_left fun f _ => f.result_found.symm
  rw [hsearch, hresults, top_map_result]

/-! ## Exact answers -/

/-- The answer is `k` nearest rows of the table, all of them if there are fewer: every
distance is defined, and no row left out is nearer than a hit. -/
structure NearestK (dist : List UInt8 → List UInt8 → ℚ) (rows : List VecRow)
    (query : List UInt8) (k : Nat) (hits : List (KnnHit ℚ)) : Prop where
  mem : ∀ hit ∈ hits, ∃ v ∈ rows, v.chunkId = hit.chunkId ∧
    hit.distance = some (dist query v.embedding)
  length : hits.length = min k rows.length
  nearest : ∀ v ∈ rows, v.chunkId ∉ hits.map KnnHit.chunkId →
    ∀ hit ∈ hits, ∀ d, hit.distance = some d → d ≤ dist query v.embedding

/-- Hits with smaller distances come first. -/
def closer (a b : KnnHit ℚ) : Bool :=
  distanceLe a.distance b.distance

theorem closer_preorder : TotalPreorder closer where
  trans := by
    intro a b c
    unfold closer distanceLe
    cases a.distance <;> cases b.distance <;> cases c.distance <;> simp [Scoring.distanceLe]
    exact fun hab hbc => hab.trans hbc
  total := by
    intro a b
    unfold closer distanceLe
    cases a.distance <;> cases b.distance <;> simp [Scoring.distanceLe, le_total]

/-- The hit of a row. -/
def VecRow.hit (dist : List UInt8 → List UInt8 → ℚ) (query : List UInt8) (v : VecRow) : KnnHit ℚ :=
  ⟨v.chunkId, some (dist query v.embedding)⟩

/-- A vector table that computes every distance and answers with the nearest rows. -/
def Knn.exact (dist : List UInt8 → List UInt8 → ℚ) : Knn ℚ where
  nearest rows query k :=
    if (rows.map VecRow.chunkId).Nodup then
      .ok (top closer k.toNat (rows.map (VecRow.hit dist query)))
    else .error (.failure "UNIQUE constraint failed on chunks_vec primary key")
  mem := by
    intro rows query k hits h hit hhit
    split at h
    · cases h
      rcases List.mem_map.mp (mem_of_mem_top hhit) with ⟨v, hv, rfl⟩
      exact List.mem_map_of_mem hv
    · contradiction
  nodup := by
    intro rows query k hits h
    split at h <;> rename_i hnodup
    · cases h
      have hsort : ((rows.map (VecRow.hit dist query)).mergeSort closer).Perm
          (rows.map (VecRow.hit dist query)) := List.mergeSort_perm _ _
      have hids : ((rows.map (VecRow.hit dist query)).map KnnHit.chunkId).Nodup := by
        rw [List.map_map]
        exact hnodup
      exact ((hsort.map _).nodup_iff.mpr hids).sublist ((List.take_sublist _ _).map _)
    · contradiction
  length_le := by
    intro rows query k hits h
    split at h
    · cases h
      rw [length_top]
      omega
    · contradiction

/-- Its answers are exact. -/
theorem Knn.exact_nearestK (dist : List UInt8 → List UInt8 → ℚ) {rows : List VecRow}
    (hrows : (rows.map VecRow.chunkId).Nodup) (query : List UInt8) (k : Nat) :
    ∃ hits, (Knn.exact dist).nearest rows query k = .ok hits ∧
      NearestK dist rows query k hits := by
  refine ⟨_, if_pos hrows, ?_, ?_, ?_⟩
  · intro hit hhit
    rcases List.mem_map.mp (mem_of_mem_top hhit) with ⟨v, hv, rfl⟩
    exact ⟨v, hv, rfl, rfl⟩
  · rw [length_top, List.length_map, Int.toNat_natCast]
  · intro v hv hout hit hhit d hd
    have hcut : v.hit dist query ∉ top closer (k : Int).toNat
        (rows.map (VecRow.hit dist query)) :=
      fun hmem => hout (List.mem_map_of_mem (f := KnnHit.chunkId) hmem)
    have hle := le_of_notMem_top closer_preorder hhit (List.mem_map_of_mem hv) hcut
    rw [closer, hd] at hle
    simpa [VecRow.hit, distanceLe, Scoring.distanceLe] using hle

/-- The cosine distance of one-component vectors, which point the same way or away from
each other. -/
def signDistance (query stored : List UInt8) : ℚ :=
  if query = stored then 0 else 2

/-- The rows of a query are ordered by the distances of their hits. -/
theorem rowOrder_preorder : TotalPreorder fun a b : KnnHit ℚ × ChunkRow =>
    distanceLe a.1.distance b.1.distance where
  trans a b c := closer_preorder.trans a.1 b.1 c.1
  total a b := closer_preorder.total a.1 b.1

end Memory
end MemoryHub
