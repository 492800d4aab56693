import MemoryHub.Memory.IndexImage
import MemoryHub.Memory.Search
import Mathlib.Data.List.Perm.Basic
import Mathlib.Data.Set.Card

/-!
# Ranking

What a search returns, in terms of the rows its queries give: each chunk counts with the best
score that any of its rows has, and the chunks of the best scores are returned.

Main results:

- Theorem `keepsBest_foldl`: the map of best results holds each chunk that was found, with its
  best score.
- Theorem `exists_scored_doSearch`: a search returns the best of the chunks found.
- Theorem `order_irrelevant_iff`: when the order in which the map is iterated makes no difference.
- Theorem `order_matters`: two notes with the same text.
-/

namespace MemoryHub
namespace Memory

open Collections TopK

section Rows

variable {δ : Type} [Scoring δ]

/-! ## The rows of the queries -/

/-- The rows of the queries of all embeddings. -/
def queryRows (db : IndexDb) (knn : Knn δ) (msg : IndexSearch) :
    List Embedding → Except Sqlite.Error (List (KnnHit δ × ChunkRow))
  | [] => .ok []
  | e :: es =>
      match knn.nearest db.vecRows (vecToBlob e.values) (asI64 (UInt64.ofNat (fetchK msg))) with
      | .error err => .error err
      | .ok hits =>
          match queryRows db knn msg es with
          | .error err => .error err
          | .ok rest => .ok (searchRows db (pathPattern msg) msg.rawOnly hits ++ rest)

/-- The loop over the embeddings goes through the rows of all their queries. -/
theorem foldlM_searchOne (db : IndexDb) (knn : Knn δ) (msg : IndexSearch) (es : List Embedding)
    (best : BestResults δ) : es.foldlM (searchOne db knn msg) best =
      (queryRows db knn msg es).map fun rows => rows.foldl keepBest best := by
  induction es generalizing best with
  | nil => rfl
  | cons e es ih =>
      rw [List.foldlM_cons, queryRows, searchOne]
      cases knn.nearest db.vecRows (vecToBlob e.values)
          (asI64 (UInt64.ofNat (fetchK msg))) with
      | error err => rfl
      | ok hits =>
          simp only [bind, Except.bind, ih]
          cases queryRows db knn msg es with
          | error err => rfl
          | ok rest => simp [Except.map, List.foldl_append]

/-- The rows that come from stored chunks. -/
def Joined {δ : Type} (db : IndexDb) (row : KnnHit δ × ChunkRow) : Prop :=
  row.2 ∈ db.chunks.rows ∧ row.2.id = row.1.chunkId

/-- A row of the queries is a hit of one of them, joined with its chunk. -/
theorem mem_queryRows {db : IndexDb} {knn : Knn δ} {msg : IndexSearch} {es : List Embedding}
    {rows : List (KnnHit δ × ChunkRow)} (h : queryRows db knn msg es = .ok rows)
    {row : KnnHit δ × ChunkRow} :
    row ∈ rows ↔ ∃ e ∈ es, ∃ hits, knn.nearest db.vecRows (vecToBlob e.values)
      (asI64 (UInt64.ofNat (fetchK msg))) = .ok hits ∧
        row ∈ searchRows db (pathPattern msg) msg.rawOnly hits := by
  induction es generalizing rows with
  | nil =>
      cases h
      simp
  | cons e es ih =>
      rw [queryRows] at h
      cases hnearest : knn.nearest db.vecRows (vecToBlob e.values)
          (asI64 (UInt64.ofNat (fetchK msg))) with
      | error err => simp [hnearest] at h
      | ok hits =>
          cases hrest : queryRows db knn msg es with
          | error err => simp [hnearest, hrest] at h
          | ok rest =>
              simp only [hnearest, hrest, Except.ok.injEq] at h
              rw [← h, List.mem_append, ih hrest, List.exists_mem_cons_iff, hnearest]
              simp

theorem joined_of_mem_queryRows {db : IndexDb} {knn : Knn δ} {msg : IndexSearch}
    {es : List Embedding} {rows : List (KnnHit δ × ChunkRow)}
    (h : queryRows db knn msg es = .ok rows) : ∀ row ∈ rows, Joined db row := by
  intro row hrow
  rcases (mem_queryRows h).mp hrow with ⟨e, -, hits, -, hmem⟩
  rcases mem_searchRows.mp hmem with ⟨-, hchunk, hid, -⟩
  exact ⟨hchunk, hid⟩

/-! ## The best results -/

/-- The result of a chunk with a score. -/
def ChunkRow.result {δ : Type} (c : ChunkRow) (score : δ) : SearchResult δ :=
  ⟨c.path, c.startLine, c.endLine, score, c.text⟩

/-- The scores that the rows give a chunk. -/
def scoresOf (rows : List (KnnHit δ × ChunkRow)) (c : ChunkRow) : List δ :=
  (rows.filter fun row => row.2 = c).filterMap fun row => row.1.distance.map Scoring.score

/-- A score, unless there is another one that is at least as good. -/
def betterOf (best : Option δ) (score : δ) : δ :=
  match best with
  | some existing => if Scoring.atLeast existing score then existing else score
  | none => score

/-- The best of the scores that the rows give a chunk. -/
def bestScore (rows : List (KnnHit δ × ChunkRow)) (c : ChunkRow) : Option δ :=
  (scoresOf rows c).foldl (fun best score => some (betterOf best score)) none

/-- Rows of other chunks, and rows without a distance, give a chunk no score. -/
theorem bestScore_snoc_of_ne {rows : List (KnnHit δ × ChunkRow)} {row : KnnHit δ × ChunkRow}
    {c : ChunkRow} (h : row.2 ≠ c ∨ row.1.distance = none) :
    bestScore (rows ++ [row]) c = bestScore rows c := by
  have hscores : scoresOf (rows ++ [row]) c = scoresOf rows c := by
    rw [scoresOf, scoresOf, List.filter_append, List.filterMap_append]
    rcases h with hne | hnone
    · simp [hne]
    · by_cases hc : row.2 = c
      · simp [hc, hnone]
      · simp [hc]
  rw [bestScore, bestScore, hscores]

theorem bestScore_snoc {rows : List (KnnHit δ × ChunkRow)} {row : KnnHit δ × ChunkRow} {x : δ}
    (h : row.1.distance = some x) : bestScore (rows ++ [row]) row.2 =
      some (betterOf (bestScore rows row.2) (Scoring.score x)) := by
  have hscores : scoresOf (rows ++ [row]) row.2 = scoresOf rows row.2 ++ [Scoring.score x] := by
    rw [scoresOf, scoresOf, List.filter_append, List.filterMap_append]
    simp [h]
  rw [bestScore, hscores, List.foldl_append]
  rfl

/-- The map holds each chunk that was found, with its best score. -/
structure KeepsBest (db : IndexDb) (rows : List (KnnHit δ × ChunkRow)) (best : BestResults δ) :
    Prop where
  kept : ∀ c ∈ db.chunks.rows, best.lookup c.id = (bestScore rows c).map c.result
  found : ∀ id ∈ best, ∃ c ∈ db.chunks.rows, c.id = id

/-- A row with a distance is kept unless its chunk has a result that is at least as good. -/
theorem keepBest_of_distance {best : BestResults δ} {row : KnnHit δ × ChunkRow} {x : δ}
    (hx : row.1.distance = some x) : keepBest best row =
      match best.lookup row.1.chunkId with
      | some existing =>
          if Scoring.atLeast existing.score (Scoring.score x) then best
          else best.insert row.1.chunkId (row.2.result (Scoring.score x))
      | none => best.insert row.1.chunkId (row.2.result (Scoring.score x)) := by
  unfold keepBest
  rw [hx]
  rfl

/-- What a row leaves for its chunk: the better of its score and the one kept so far. -/
theorem lookup_keepBest {db : IndexDb} {rows : List (KnnHit δ × ChunkRow)} {best : BestResults δ}
    (h : KeepsBest db rows best) {row : KnnHit δ × ChunkRow} (hrow : Joined db row) {x : δ}
    (hx : row.1.distance = some x) : (keepBest best row).lookup row.2.id =
      some (row.2.result (betterOf (bestScore rows row.2) (Scoring.score x))) := by
  have hkept := h.kept row.2 hrow.1
  rw [keepBest_of_distance hx, ← hrow.2]
  cases hbest : bestScore rows row.2 with
  | none =>
      rw [hbest, Option.map_none] at hkept
      simp only [hkept]
      exact AList.lookup_insert _
  | some existing =>
      rw [hbest, Option.map_some] at hkept
      simp only [hkept, betterOf, ChunkRow.result]
      split
      · exact hkept
      · exact AList.lookup_insert _

/-- A row leaves the other chunks alone. -/
theorem lookup_keepBest_of_ne {best : BestResults δ} {row : KnnHit δ × ChunkRow} {id : String}
    (h : id ≠ row.1.chunkId) : (keepBest best row).lookup id = best.lookup id := by
  unfold keepBest
  cases row.1.distance with
  | none => rfl
  | some distance =>
      simp only
      split
      · split
        · rfl
        · exact AList.lookup_insert_ne h
      · exact AList.lookup_insert_ne h

theorem KeepsBest.snoc {db : IndexDb} {rows : List (KnnHit δ × ChunkRow)} {best : BestResults δ}
    (h : KeepsBest db rows best) {row : KnnHit δ × ChunkRow} (hrow : Joined db row) :
    KeepsBest db (rows ++ [row]) (keepBest best row) := by
  cases hx : row.1.distance with
  | none =>
      have hsame : keepBest best row = best := by
        unfold keepBest
        rw [hx]
      rw [hsame]
      refine ⟨fun c hc => ?_, h.found⟩
      rw [bestScore_snoc_of_ne (Or.inr hx)]
      exact h.kept c hc
  | some x =>
      constructor
      · intro c hc
        by_cases hsame : c = row.2
        · subst hsame
          rw [lookup_keepBest h hrow hx, bestScore_snoc hx, Option.map_some]
        · have hid : c.id ≠ row.1.chunkId := by
            intro hid
            exact hsame (Sqlite.eq_of_key_eq db.chunks.nodup hc hrow.1 (hid.trans hrow.2.symm))
          rw [lookup_keepBest_of_ne hid, bestScore_snoc_of_ne (Or.inl (Ne.symm hsame))]
          exact h.kept c hc
      · intro id hid
        by_cases hsame : id = row.1.chunkId
        · exact ⟨row.2, hrow.1, hrow.2.trans hsame.symm⟩
        · rw [← AList.lookup_isSome, lookup_keepBest_of_ne hsame, AList.lookup_isSome] at hid
          exact h.found id hid

/-- The fold over the rows keeps each chunk's best score. -/
theorem keepsBest_foldl {db : IndexDb} {rows : List (KnnHit δ × ChunkRow)}
    (hrows : ∀ row ∈ rows, Joined db row) : KeepsBest db rows (rows.foldl keepBest ∅) := by
  induction rows using List.reverseRecOn with
  | nil => exact ⟨fun c _ => rfl, fun id hid => absurd hid (AList.notMem_empty id)⟩
  | append_singleton rows row ih =>
      rw [List.foldl_append, List.foldl_cons, List.foldl_nil]
      exact (ih fun r hr => hrows r (List.mem_append_left _ hr)).snoc
        (hrows row (List.mem_append_right _ (List.mem_singleton_self row)))

/-! ## The chunks found -/

/-- A chunk with its best score. -/
abbrev Scored (δ : Type) :=
  ChunkRow × δ

/-- The result of a chunk found. -/
def Scored.result {δ : Type} (f : Scored δ) : SearchResult δ :=
  f.1.result f.2

/-- What the map holds for a chunk found. -/
def Scored.entry {δ : Type} (f : Scored δ) : Σ _ : String, SearchResult δ :=
  ⟨f.1.id, f.result⟩

/-- Better results come first. -/
def betterScore (r s : SearchResult δ) : Bool :=
  Scoring.totalLe s.score r.score

theorem betterScore_preorder : TotalPreorder (betterScore (δ := δ)) where
  trans r s t hrs hst := Scoring.totalLe_preorder.trans t.score s.score r.score hst hrs
  total r s := Scoring.totalLe_preorder.total s.score r.score

/-- The chunks that were found, each once, with their best scores. -/
structure ScoredList (db : IndexDb) (rows : List (KnnHit δ × ChunkRow))
    (found : List (Scored δ)) : Prop where
  nodup : (found.map Prod.fst).Nodup
  mem_iff : ∀ c s, (c, s) ∈ found ↔ c ∈ db.chunks.rows ∧ bestScore rows c = some s

/-- An entry of the map is that of a chunk found. -/
theorem KeepsBest.exists_entry {db : IndexDb} {rows : List (KnnHit δ × ChunkRow)}
    {best : BestResults δ} (h : KeepsBest db rows best) {entry : Σ _ : String, SearchResult δ}
    (hentry : entry ∈ best.entries) : ∃ f : Scored δ,
      (f.1 ∈ db.chunks.rows ∧ bestScore rows f.1 = some f.2) ∧ f.entry = entry := by
  rcases entry with ⟨id, r⟩
  have hlookup := AList.mem_lookup_iff.mpr hentry
  rcases h.found id (AList.lookup_isSome.mp (by simp [Option.mem_def.mp hlookup])) with
    ⟨c, hc, rfl⟩
  rw [h.kept c hc] at hlookup
  rcases Option.map_eq_some_iff.mp hlookup with ⟨s, hs, rfl⟩
  exact ⟨(c, s), ⟨hc, hs⟩, rfl⟩

/-- The entries of the map, in any order, are the chunks found. -/
theorem KeepsBest.exists_scored {db : IndexDb} {rows : List (KnnHit δ × ChunkRow)}
    {best : BestResults δ} (h : KeepsBest db rows best)
    {entries : List (Σ _ : String, SearchResult δ)} (hperm : entries.Perm best.entries) :
    ∃ found, entries = found.map Scored.entry ∧ ScoredList db rows found := by
  rcases exists_map_of_forall fun entry hmem => h.exists_entry (hperm.subset hmem) with
    ⟨found, hmap, hfound⟩
  have hids : (entries.map Sigma.fst).Nodup :=
    (hperm.map Sigma.fst).nodup_iff.mpr best.nodupKeys
  refine ⟨found, hmap.symm, ?_, ?_⟩
  · -- Different entries have different ids, so they are of different chunks.
    refine List.Nodup.of_map ChunkRow.id ?_
    rw [← hmap, List.map_map] at hids
    rw [List.map_map]
    exact hids
  · intro c s
    refine ⟨fun hmem => hfound (c, s) hmem, ?_⟩
    rintro ⟨hc, hs⟩
    have hkept : ⟨c.id, c.result s⟩ ∈ entries := by
      refine hperm.symm.subset (AList.mem_lookup_iff.mp ?_)
      rw [h.kept c hc, hs]
      rfl
    rw [← hmap] at hkept
    rcases List.mem_map.mp hkept with ⟨⟨c', s'⟩, hmem, heq⟩
    rcases hfound _ hmem with ⟨hc', hs'⟩
    have hsame := Sqlite.eq_of_key_eq db.chunks.nodup hc' hc (congrArg Sigma.fst heq)
    subst hsame
    rw [hs, Option.some_inj] at hs'
    rw [hs']
    exact hmem

/-- A search returns the best of the chunks found. -/
theorem exists_scored_doSearch {db : IndexDb} {knn : Knn δ} {msg : IndexSearch}
    (order : IterationOrder (Σ _ : String, SearchResult δ)) {vec : VecTable}
    (hvec : db.chunksVec = some vec) {rows : List (KnnHit δ × ChunkRow)}
    (hrows : queryRows db knn msg msg.embeddings = .ok rows) :
    ∃ found, ScoredList db rows found ∧
      (order.arrange (rows.foldl keepBest ∅).entries).map Sigma.snd = found.map Scored.result ∧
      doSearch db knn order msg = .ok (top betterScore msg.limit (found.map Scored.result)) := by
  have hkeeps := keepsBest_foldl (joined_of_mem_queryRows hrows)
  rcases hkeeps.exists_scored (order.perm _) with ⟨found, hfound, hlist⟩
  have hresults : (order.arrange (rows.foldl keepBest ∅).entries).map Sigma.snd =
      found.map Scored.result := by
    rw [hfound, List.map_map]
    rfl
  refine ⟨found, hlist, hresults, ?_⟩
  simp only [doSearch, hvec, foldlM_searchOne, hrows, Except.map, hresults]
  rfl

/-- Nothing is found without the vector table. -/
theorem queryRows_of_no_vec {db : IndexDb} {knn : Knn δ} {msg : IndexSearch}
    (hvec : db.chunksVec = none) {es : List Embedding} {rows : List (KnnHit δ × ChunkRow)}
    (h : queryRows db knn msg es = .ok rows) : rows = [] := by
  rw [List.eq_nil_iff_forall_not_mem]
  intro row hrow
  rcases (mem_queryRows h).mp hrow with ⟨e, -, hits, hnearest, hmem⟩
  have hhit := knn.mem _ _ _ _ hnearest _ (mem_searchRows.mp hmem).1
  simp [IndexDb.vecRows, hvec] at hhit

/-- Only stored chunks are found. -/
theorem ScoredList.mem_iff_of_joined {db : IndexDb} {rows : List (KnnHit δ × ChunkRow)}
    {found : List (Scored δ)} (h : ScoredList db rows found) (hrows : ∀ row ∈ rows, Joined db row)
    {c : ChunkRow} {s : δ} : (c, s) ∈ found ↔ bestScore rows c = some s := by
  rw [h.mem_iff]
  refine ⟨And.right, fun hs => ⟨?_, hs⟩⟩
  by_contra hnot
  have hscores : scoresOf rows c = [] := by
    rw [scoresOf, List.filter_eq_nil_iff.mpr, List.filterMap_nil]
    intro row hrow
    simp only [decide_eq_true_eq]
    rintro rfl
    exact hnot (hrows row hrow).1
  rw [bestScore, hscores] at hs
  contradiction

theorem rank_eq_insertionSort (limit : Nat) (results : List (SearchResult δ)) :
    rank limit results = (results.insertionSort fun r s => betterScore r s = true).take limit := by
  rw [← mergeSort_eq_insertionSort betterScore_preorder]
  rfl

end Rows

/-! ## The order of the map -/

/-- `total_cmp` tells different numbers apart. -/
theorem totalKey_inj {x y : Float32} (h : totalKey x = totalKey y) : x = y := by
  have hx : x.toBits.toNat < 2 ^ 32 := x.toBits.toNat_lt
  have hy : y.toBits.toNat < 2 ^ 32 := y.toBits.toNat_lt
  have hbits : x.toBits = y.toBits := by
    unfold totalKey at h
    apply UInt32.toNat_inj.mp
    split at h <;> split at h <;> omega
  rcases x with ⟨⟨bits, hvalid⟩⟩
  rcases y with ⟨⟨bits', hvalid'⟩⟩
  cases hbits
  rfl

/-- How many chunks have a better best score than this. -/
noncomputable def betterCount (rows : List (KnnHit Float32 × ChunkRow)) (score : Float32) : Nat :=
  {c | ∃ s, totalKey score < totalKey s ∧ bestScore rows c = some s}.ncard

/-- Chunks of the same best score have the same path, lines and text wherever fewer than `limit`
have a better one. -/
def TiesHarmless (rows : List (KnnHit Float32 × ChunkRow)) (limit : Nat) : Prop :=
  ∀ c c' s, bestScore rows c = some s → bestScore rows c' = some s →
    betterCount rows s < limit → c.result s = c'.result s

section Order

variable {db : IndexDb} {rows : List (KnnHit Float32 × ChunkRow)}
  {found : List (Scored Float32)}

theorem betterScore_eq_false_iff {r s : SearchResult Float32} :
    betterScore r s = false ↔ totalKey r.score < totalKey s.score := by
  rw [← not_le, ← Bool.not_eq_true]
  exact not_congr decide_eq_true_iff

/-- The chunks with better results than a chunk found are those of better scores. -/
theorem better_eq_betterCount (h : ScoredList db rows found) (hrows : ∀ row ∈ rows, Joined db row)
    (f : Scored Float32) :
    better betterScore f.result (found.map Scored.result) = betterCount rows f.2 := by
  have hcount : better betterScore f.result (found.map Scored.result) =
      ((found.filter fun g => decide (totalKey f.2 < totalKey g.2)).map Prod.fst).length := by
    rw [better, List.countP_map, List.countP_eq_length_filter, List.length_map]
    congr 1
    refine List.filter_congr fun g _ => ?_
    rw [Function.comp_apply, Bool.eq_iff_iff, Bool.not_eq_true', betterScore_eq_false_iff,
      decide_eq_true_eq]
    rfl
  have hset : {c | ∃ s, totalKey f.2 < totalKey s ∧ bestScore rows c = some s} =
      ↑((found.filter fun g => decide (totalKey f.2 < totalKey g.2)).map Prod.fst).toFinset := by
    ext c
    rw [List.coe_toFinset, Set.mem_ofPred_eq, Set.mem_ofPred_eq, List.mem_map]
    constructor
    · rintro ⟨s, hlt, hs⟩
      exact ⟨(c, s), List.mem_filter.mpr ⟨(h.mem_iff_of_joined hrows).mpr hs, by simpa using hlt⟩,
        rfl⟩
    · rintro ⟨⟨c', s⟩, hmem, rfl⟩
      rcases List.mem_filter.mp hmem with ⟨hfound, hlt⟩
      exact ⟨s, by simpa using hlt, (h.mem_iff_of_joined hrows).mp hfound⟩
  rw [hcount, betterCount, hset, Set.ncard_coe_finset, List.toFinset_card_of_nodup]
  exact h.nodup.sublist (List.filter_sublist.map _)

/-- Ties among the chunks found are ties among their results. -/
theorem tiesAlike_iff (h : ScoredList db rows found) (hrows : ∀ row ∈ rows, Joined db row)
    (limit : Nat) :
    TiesAlike betterScore limit (found.map Scored.result) ↔ TiesHarmless rows limit := by
  constructor
  · intro hties c c' s hc hc' hcount
    have hf := List.mem_map_of_mem (f := Scored.result) ((h.mem_iff_of_joined hrows).mpr hc)
    have hf' := List.mem_map_of_mem (f := Scored.result) ((h.mem_iff_of_joined hrows).mpr hc')
    refine hties _ hf _ hf' ?_ ?_ ?_
    · exact betterScore_preorder.refl (c.result s)
    · exact betterScore_preorder.refl (c.result s)
    · rw [better_eq_betterCount h hrows]
      exact hcount
  · intro hties r hr r' hr' hle hge hcount
    rcases List.mem_map.mp hr with ⟨⟨c, s⟩, hf, rfl⟩
    rcases List.mem_map.mp hr' with ⟨⟨c', s'⟩, hf', rfl⟩
    have hsame : s = s' :=
      totalKey_inj (le_antisymm (of_decide_eq_true hge) (of_decide_eq_true hle))
    subst hsame
    rw [better_eq_betterCount h hrows] at hcount
    exact hties c c' s ((h.mem_iff_of_joined hrows).mp hf) ((h.mem_iff_of_joined hrows).mp hf')
      hcount

end Order

/-- A search returns the same list for every order in which the map can be iterated exactly
if ties do not matter. -/
theorem order_irrelevant_iff (db : IndexDb) (knn : Knn Float32) (msg : IndexSearch) :
    (∀ order order' : IterationOrder (Σ _ : String, SearchResult Float32),
      doSearch db knn order msg = doSearch db knn order' msg) ↔
      ∀ rows, queryRows db knn msg msg.embeddings = .ok rows → TiesHarmless rows msg.limit := by
  cases hvec : db.chunksVec with
  | none =>
      constructor
      · intro _ rows hrows c c' s hc
        rw [queryRows_of_no_vec hvec hrows] at hc
        contradiction
      · intro _ order order'
        simp only [doSearch, hvec]
  | some vec =>
      cases hquery : queryRows db knn msg msg.embeddings with
      | error e =>
          simp [doSearch, hvec, foldlM_searchOne, hquery, Except.map]
      | ok rows =>
          have hjoined := joined_of_mem_queryRows hquery
          have hsearch : ∀ order : IterationOrder (Σ _ : String, SearchResult Float32),
              doSearch db knn order msg = .ok (top betterScore msg.limit
                ((order.arrange (rows.foldl keepBest ∅).entries).map Sigma.snd)) := by
            intro order
            simp only [doSearch, hvec, foldlM_searchOne, hquery, Except.map]
            rfl
          rcases exists_scored_doSearch (.stored _) hvec hquery with ⟨found, hfound, hstored, -⟩
          have hresults : (rows.foldl keepBest ∅).entries.map Sigma.snd =
              found.map Scored.result := hstored
          simp only [hsearch, Except.ok.injEq, forall_eq', ← tiesAlike_iff hfound hjoined,
            ← top_eq_iff betterScore_preorder, ← hresults]
          constructor
          · intro hsame ys zs hys hzs
            rcases exists_perm_map hys with ⟨entries, hentries, rfl⟩
            rcases exists_perm_map hzs with ⟨entries', hentries', rfl⟩
            rcases IterationOrder.exists_arrange hentries with ⟨order, horder⟩
            rcases IterationOrder.exists_arrange hentries' with ⟨order', horder'⟩
            have hboth := hsame order order'
            rw [horder, horder'] at hboth
            exact hboth
          · intro hsame order order'
            exact hsame _ _ ((order.perm _).map _) ((order'.perm _).map _)

/-- Different distances can have the same score. -/
example : Scoring.score (0.25 : Float32) = Scoring.score (0.25000003 : Float32) := by
  decide +kernel

/-- A vector table in which all rows are equally far. -/
def Knn.alike (distance : Float32) : Knn Float32 where
  nearest rows _ k :=
    if (rows.map VecRow.chunkId).Nodup then
      .ok ((rows.take k.toNat).map fun v => ⟨v.chunkId, some distance⟩)
    else .error (.failure "UNIQUE constraint failed on chunks_vec primary key")
  mem := by
    intro rows query k hits h hit hhit
    split at h
    · cases h
      rcases List.mem_map.mp hhit with ⟨v, hv, rfl⟩
      exact List.mem_map_of_mem (List.mem_of_mem_take hv)
    · contradiction
  nodup := by
    intro rows query k hits h
    split at h <;> rename_i hnodup
    · cases h
      rw [List.map_map]
      exact hnodup.sublist ((List.take_sublist _ _).map _)
    · contradiction
  length_le := by
    intro rows query k hits h
    split at h
    · cases h
      rw [List.length_map, List.length_take]
      omega
    · contradiction

/-- The same note of two agents of a user. -/
def sharedNotes : IndexDb :=
  let chunk : Chunk := ⟨"buy milk", 1, 1, ⟨[0x3f800000], Embedding.one_length_lt⟩⟩
  let note : Uuid → IndexInsert := fun agent =>
    ⟨rawPath "alice" agent "_default" "a.md", "raw", 8, "m", [chunk]⟩
  (handleInsert (handleInsert .fresh (note .nil) 1 none).2 (note .ones) 2 none).2

/-- A search of the user for one result. -/
def oneOfBoth : IndexSearch :=
  ⟨[⟨[0x3f800000], Embedding.one_length_lt⟩], "alice", .nil, .user, false, 1⟩

/-- Which of two notes with the same text is found depends on the order of the map. -/
theorem order_matters :
    ¬ ∀ (db : IndexDb) (knn : Knn Float32) (msg : IndexSearch)
        (order order' : IterationOrder (Σ _ : String, SearchResult Float32)),
      doSearch db knn order msg = doSearch db knn order' msg := by
  intro h
  have hsame := h sharedNotes (Knn.alike 0) oneOfBoth (.stored _) (.reversed _)
  have hsorted : ∀ rows : List (KnnHit Float32 × ChunkRow),
      (rows.map fun row => row.1.distance) = [some 0, some 0] →
        rows.mergeSort (fun a b => distanceLe a.1.distance b.1.distance) = rows := by
    intro rows hrows
    apply List.mergeSort_of_pairwise
    rw [← List.pairwise_map (f := fun row : KnnHit Float32 × ChunkRow => row.1.distance)
      (R := fun x y => distanceLe x y = true), hrows]
    decide +kernel
  have hrows : queryRows sharedNotes (Knn.alike 0) oneOfBoth oneOfBoth.embeddings =
      .ok (sharedNotes.chunks.rows.map fun c => (⟨c.id, some 0⟩, c)) := by
    have hhits : (Knn.alike 0).nearest sharedNotes.vecRows (vecToBlob [0x3f800000])
        (asI64 (UInt64.ofNat (fetchK oneOfBoth))) =
          .ok (sharedNotes.chunks.rows.map fun c => ⟨c.id, some 0⟩) := by
      decide +kernel
    simp only [queryRows, oneOfBoth] at hhits ⊢
    simp only [hhits, searchRows]
    rw [hsorted]
    · decide +kernel
    · decide +kernel
  revert hsame
  simp only [doSearch, foldlM_searchOne, hrows, Except.map, rank_eq_insertionSort]
  decide +kernel

end Memory
end MemoryHub
