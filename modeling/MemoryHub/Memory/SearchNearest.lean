import MemoryHub.Memory.SearchExact

/-!
# Nearest chunks

The vector table cuts its answers to the `k` nearest rows before the scope and the source
are looked at.  Where `k` covers the chunks that the filter takes out, a search still
returns the nearest of the chunks that pass it.

Main results:

- Theorem `limit_le_countP`: a passing chunk that is cut from an answer leaves `limit`
  passing chunks that are no farther in it.
- Theorem `doSearch_topMatches`: a search returns the nearest passing chunks.
- Theorem `search_fills_iff`: a search over all scopes is filled only if its answers happen
  to hold enough passing chunks.
- Theorem `raw_starved`: a search for raw files that finds nothing beside a raw chunk.
-/

namespace MemoryHub
namespace Memory

open Collections Machine TopK

/-! ## Passing chunks -/

/-- The chunk passes the scope and the source filter of a search. -/
def IndexDb.passes (db : IndexDb) (msg : IndexSearch) (c : ChunkRow) : Bool :=
  Like.like c.path (pathPattern msg) '\\' &&
    db.files.rows.any fun f => f.path = c.path && (!msg.rawOnly || f.source = "raw")

/-- The chunks that pass. -/
def IndexDb.matching (db : IndexDb) (msg : IndexSearch) : List ChunkRow :=
  db.chunks.rows.filter (db.passes msg)

/-- The chunks that fail. -/
def IndexDb.failing (db : IndexDb) (msg : IndexSearch) : List ChunkRow :=
  db.chunks.rows.filter fun c => !db.passes msg c

/-- The distances of the query embeddings to the vector of a chunk. -/
def distancesTo (dist : List UInt8 → List UInt8 → ℚ) (db : IndexDb) (msg : IndexSearch)
    (c : ChunkRow) : Set ℚ :=
  {d | ∃ e ∈ msg.embeddings, ∃ v ∈ db.vecRows, v.chunkId = c.id ∧
    d = dist (vecToBlob e.values) v.embedding}

/-- The vector table answers each query of a search with `fetchK` nearest rows. -/
def AnswersNearest (dist : List UInt8 → List UInt8 → ℚ) (db : IndexDb) (knn : Knn ℚ)
    (msg : IndexSearch) : Prop :=
  ∀ e ∈ msg.embeddings, ∃ hits,
    knn.nearest db.vecRows (vecToBlob e.values) (asI64 (UInt64.ofNat (fetchK msg))) = .ok hits ∧
      NearestK dist db.vecRows (vecToBlob e.values) (fetchK msg) hits

/-- The chunk is in the answer to some query embedding. -/
def InAnswer (db : IndexDb) (knn : Knn ℚ) (msg : IndexSearch) (c : ChunkRow) : Prop :=
  ∃ e ∈ msg.embeddings, ∃ hits, knn.nearest db.vecRows (vecToBlob e.values)
    (asI64 (UInt64.ofNat (fetchK msg))) = .ok hits ∧ c.id ∈ hits.map KnnHit.chunkId

theorem passes_iff {db : IndexDb} {msg : IndexSearch} {c : ChunkRow} :
    db.passes msg c = true ↔ Like.like c.path (pathPattern msg) '\\' = true ∧
      ∃ f ∈ db.files.rows, f.path = c.path ∧ (msg.rawOnly = true → f.source = "raw") := by
  have hsource : ∀ f : FileRow, (!msg.rawOnly || f.source = "raw") = true ↔
      (msg.rawOnly = true → f.source = "raw") := by
    intro f
    cases msg.rawOnly <;> simp
  simp only [IndexDb.passes, Bool.and_eq_true, List.any_eq_true, decide_eq_true_eq, hsource]

theorem mem_matching {db : IndexDb} {msg : IndexSearch} {c : ChunkRow} :
    c ∈ db.matching msg ↔ c ∈ db.chunks.rows ∧ db.passes msg c = true :=
  List.mem_filter

theorem nodup_matching (db : IndexDb) (msg : IndexSearch) : (db.matching msg).Nodup :=
  (List.Nodup.of_map _ db.chunks.nodup).sublist List.filter_sublist

/-- The vectors are keyed by their chunks. -/
theorem IndexDb.nodup_vecRows (db : IndexDb) : (db.vecRows.map VecRow.chunkId).Nodup := by
  unfold vecRows
  split
  · rename_i vec _
    exact vec.table.nodup
  · exact List.nodup_nil

section Answers

variable {db : IndexDb} {knn : Knn ℚ} {msg : IndexSearch} {dist : List UInt8 → List UInt8 → ℚ}

/-- A vector table that answers is asked about every embedding. -/
theorem AnswersNearest.exists_queryRows (h : AnswersNearest dist db knn msg) :
    ∃ rows, queryRows db knn msg msg.embeddings = .ok rows := by
  have hall : ∀ es : List Embedding, (∀ e ∈ es, e ∈ msg.embeddings) →
      ∃ rows, queryRows db knn msg es = .ok rows := by
    intro es
    induction es with
    | nil => exact fun _ => ⟨[], rfl⟩
    | cons e es ih =>
        intro hes
        rcases h e (hes e List.mem_cons_self) with ⟨hits, hnearest, -⟩
        rcases ih fun e' he' => hes e' (List.mem_cons_of_mem e he') with ⟨rows, hrows⟩
        exact ⟨_, by rw [queryRows, hnearest, hrows]⟩
  exact hall msg.embeddings fun _ he => he

/-- The rows have a chunk at its distances to the embeddings in whose answers it is. -/
theorem AnswersNearest.mem_foundAt (h : AnswersNearest dist db knn msg)
    {rows : List (KnnHit ℚ × ChunkRow)} (hrows : queryRows db knn msg msg.embeddings = .ok rows)
    {c : ChunkRow} {d : ℚ} : d ∈ foundAt rows c ↔ c ∈ db.matching msg ∧
      ∃ e ∈ msg.embeddings, ∃ hits, knn.nearest db.vecRows (vecToBlob e.values)
        (asI64 (UInt64.ofNat (fetchK msg))) = .ok hits ∧ c.id ∈ hits.map KnnHit.chunkId ∧
        ∃ v ∈ db.vecRows, v.chunkId = c.id ∧ d = dist (vecToBlob e.values) v.embedding := by
  constructor
  · rintro ⟨row, hrow, rfl, hd⟩
    rcases (mem_queryRows hrows).mp hrow with ⟨e, he, hits, hnearest, hmem⟩
    rcases mem_searchRows.mp hmem with ⟨hhit, hc, hid, hlike, hfile⟩
    rcases h e he with ⟨hits', hnearest', hexact⟩
    rw [hnearest, Except.ok.injEq] at hnearest'
    subst hnearest'
    rcases hexact.mem row.1 hhit with ⟨v, hv, hvid, hdist⟩
    rw [hd, Option.some_inj] at hdist
    refine ⟨mem_matching.mpr ⟨hc, passes_iff.mpr ⟨hlike, hfile⟩⟩, e, he, hits, hnearest, ?_,
      v, hv, hvid.trans hid.symm, hdist⟩
    rw [hid]
    exact List.mem_map_of_mem hhit
  · rintro ⟨hc, e, he, hits, hnearest, hid, v, hv, hvid, rfl⟩
    rcases mem_matching.mp hc with ⟨hchunk, hpass⟩
    rcases passes_iff.mp hpass with ⟨hlike, hfile⟩
    rcases List.mem_map.mp hid with ⟨hit, hhit, hhitid⟩
    rcases h e he with ⟨hits', hnearest', hexact⟩
    rw [hnearest, Except.ok.injEq] at hnearest'
    subst hnearest'
    rcases hexact.mem hit hhit with ⟨v', hv', hvid', hdist⟩
    have hsame : v' = v :=
      Sqlite.eq_of_key_eq db.nodup_vecRows hv' hv (hvid'.trans (hhitid.trans hvid.symm))
    subst hsame
    refine ⟨(hit, c), (mem_queryRows hrows).mpr ⟨e, he, hits, hnearest, ?_⟩, rfl, hdist⟩
    exact mem_searchRows.mpr ⟨hhit, hchunk, hhitid.symm, hlike, hfile⟩

theorem AnswersNearest.foundAt_subset (h : AnswersNearest dist db knn msg)
    {rows : List (KnnHit ℚ × ChunkRow)} (hrows : queryRows db knn msg msg.embeddings = .ok rows)
    (c : ChunkRow) : foundAt rows c ⊆ distancesTo dist db msg c := by
  intro d hd
  rcases (h.mem_foundAt hrows).mp hd with ⟨-, e, he, -, -, -, v, hv, hid, rfl⟩
  exact ⟨e, he, v, hv, hid, rfl⟩

/-! ## What is cut from an answer -/

/-- An answer that lacks a row is full. -/
theorem NearestK.length_eq {rows : List VecRow} {query : List UInt8} {k : Nat}
    {hits : List (KnnHit ℚ)} (h : NearestK dist rows query k hits)
    (hnodup : (hits.map KnnHit.chunkId).Nodup) {v : VecRow} (hv : v ∈ rows)
    (hout : v.chunkId ∉ hits.map KnnHit.chunkId) : hits.length = k := by
  have hsub : hits.map KnnHit.chunkId ⊆ (rows.map VecRow.chunkId).erase v.chunkId := by
    intro id hid
    rcases List.mem_map.mp hid with ⟨hit, hhit, rfl⟩
    rcases h.mem hit hhit with ⟨w, hw, hwid, -⟩
    have hne : hit.chunkId ≠ v.chunkId := fun heq => hout (heq ▸ hid)
    exact (List.mem_erase_of_ne hne).mpr (hwid ▸ List.mem_map_of_mem hw)
  have hlength := (hnodup.subperm hsub).length_le
  rw [List.length_map, List.length_erase_of_mem (List.mem_map_of_mem hv),
    List.length_map] at hlength
  have hpos : 0 < rows.length := List.length_pos_of_mem hv
  have hmin := h.length
  omega

variable {m : String → Option Entry}

/-- Every chunk has its vector. -/
theorem Image.exists_vector (himage : Image m db) {c : ChunkRow} (hc : c ∈ db.chunks.rows) :
    ∃ v ∈ db.vecRows, v.chunkId = c.id := by
  have hid : c.id ∈ db.vecRows.map VecRow.chunkId := by
    rw [himage.vecIds]
    exact List.mem_map_of_mem hc
  simpa using hid

/-- An answer that is full holds all but the failing chunks' share of passing ones. -/
theorem le_length_filter_passes (msg : IndexSearch) (himage : Image m db) {hits : List (KnnHit ℚ)}
    (hnodup : (hits.map KnnHit.chunkId).Nodup)
    (hmem : ∀ hit ∈ hits, hit.chunkId ∈ db.vecRows.map VecRow.chunkId) :
    hits.length ≤ (db.failing msg).length +
      ((db.matching msg).filter fun c => c.id ∈ hits.map KnnHit.chunkId).length := by
  have hperm : ((db.chunks.rows.filter fun c => c.id ∈ hits.map KnnHit.chunkId).map
      ChunkRow.id).Perm (hits.map KnnHit.chunkId) := by
    rw [List.perm_ext_iff_of_nodup (Sqlite.nodup_key_filter db.chunks.nodup _) hnodup]
    intro id
    constructor
    · intro hid
      rcases List.mem_map.mp hid with ⟨c, hc, rfl⟩
      simpa using (List.mem_filter.mp hc).2
    · intro hid
      rcases List.mem_map.mp hid with ⟨hit, hhit, rfl⟩
      have hchunk := hmem hit hhit
      rw [himage.vecIds] at hchunk
      rcases List.mem_map.mp hchunk with ⟨c, hc, hcid⟩
      rw [← hcid] at hid ⊢
      exact List.mem_map_of_mem (List.mem_filter.mpr ⟨hc, by simpa using hid⟩)
  have hnear := hperm.length_eq
  rw [List.length_map, List.length_map] at hnear
  have hsplit := List.length_eq_length_filter_add (db.passes msg)
    (l := db.chunks.rows.filter fun c => c.id ∈ hits.map KnnHit.chunkId)
  rw [List.filter_comm] at hsplit
  have hfail : ((db.chunks.rows.filter fun c => c.id ∈ hits.map KnnHit.chunkId).filter
      fun c => !db.passes msg c).length ≤ (db.failing msg).length := by
    rw [List.filter_comm]
    exact (List.filter_sublist).length_le
  rw [IndexDb.matching]
  omega

/-- A chunk whose row is cut from an answer leaves `limit` chunks found that are no
farther, if the answer covers the failing chunks. -/
theorem limit_le_countP (himage : Image m db) (h : AnswersNearest dist db knn msg)
    {rows : List (KnnHit ℚ × ChunkRow)} (hrows : queryRows db knn msg msg.embeddings = .ok rows)
    {found : List Found} (hfound : FoundList db rows found)
    (hfew : (db.failing msg).length + msg.limit ≤ fetchK msg) {e : Embedding}
    (he : e ∈ msg.embeddings) {hits : List (KnnHit ℚ)}
    (hnearest : knn.nearest db.vecRows (vecToBlob e.values)
      (asI64 (UInt64.ofNat (fetchK msg))) = .ok hits) {v : VecRow} (hv : v ∈ db.vecRows)
    (hout : v.chunkId ∉ hits.map KnnHit.chunkId) :
    msg.limit ≤ found.countP fun f => f.2 ≤ dist (vecToBlob e.values) v.embedding := by
  rcases h e he with ⟨hits', hnearest', hexact⟩
  rw [hnearest, Except.ok.injEq] at hnearest'
  subst hnearest'
  have hnodup := knn.nodup _ _ _ _ hnearest
  have hfull := hexact.length_eq hnodup hv hout
  have hpass := le_length_filter_passes msg himage hnodup (knn.mem _ _ _ _ hnearest)
  have hsub : ((db.matching msg).filter fun c => c.id ∈ hits.map KnnHit.chunkId) ⊆
      (found.filter fun f => f.2 ≤ dist (vecToBlob e.values) v.embedding).map Prod.fst := by
    intro c hc
    rcases List.mem_filter.mp hc with ⟨hmatch, hid⟩
    have hid : c.id ∈ hits.map KnnHit.chunkId := by simpa using hid
    rcases List.mem_map.mp hid with ⟨hit, hhit, hhitid⟩
    rcases hexact.mem hit hhit with ⟨w, hw, hwid, hdist⟩
    have hd : dist (vecToBlob e.values) w.embedding ∈ foundAt rows c :=
      (h.mem_foundAt hrows).mpr
        ⟨hmatch, e, he, hits, hnearest, hid, w, hw, hwid.trans hhitid, rfl⟩
    rcases exists_isLeast_foundAt hd with ⟨least, hleast⟩
    have hmem : (c, least) ∈ found :=
      (hfound.mem_iff c least).mpr ⟨(mem_matching.mp hmatch).1, hleast⟩
    have hle : least ≤ dist (vecToBlob e.values) v.embedding :=
      (hleast.2 hd).trans (hexact.nearest v hv hout hit hhit _ hdist)
    exact List.mem_map.mpr ⟨(c, least), List.mem_filter.mpr ⟨hmem, by simpa using hle⟩, rfl⟩
  have hcount := (((nodup_matching db msg).sublist List.filter_sublist).subperm hsub).length_le
  rw [List.length_map] at hcount
  rw [List.countP_eq_length_filter]
  omega

/-- A passing chunk is found at its smallest distance, or `limit` chunks found are no
farther than that. -/
theorem mem_found_or_limit_le (himage : Image m db) (h : AnswersNearest dist db knn msg)
    {rows : List (KnnHit ℚ × ChunkRow)} (hrows : queryRows db knn msg msg.embeddings = .ok rows)
    {found : List Found} (hfound : FoundList db rows found)
    (hfew : (db.failing msg).length + msg.limit ≤ fetchK msg) {c : ChunkRow}
    (hc : c ∈ db.matching msg) {d : ℚ} (hd : IsLeast (distancesTo dist db msg c) d) :
    (c, d) ∈ found ∨ msg.limit ≤ found.countP fun f => f.2 ≤ d := by
  rcases hd.1 with ⟨e, he, v, hv, hid, rfl⟩
  rcases h e he with ⟨hits, hnearest, -⟩
  by_cases hin : c.id ∈ hits.map KnnHit.chunkId
  · refine Or.inl ((hfound.mem_iff _ _).mpr ⟨(mem_matching.mp hc).1, ?_, ?_⟩)
    · exact (h.mem_foundAt hrows).mpr ⟨hc, e, he, hits, hnearest, hin, v, hv, hid, rfl⟩
    · exact fun x hx => hd.2 (h.foundAt_subset hrows c hx)
  · exact Or.inr (limit_le_countP himage h hrows hfound hfew he hnearest hv (hid ▸ hin))

/-- A chunk has a smallest distance to the query embeddings. -/
theorem exists_isLeast_distancesTo (dist : List UInt8 → List UInt8 → ℚ) (himage : Image m db)
    (hne : msg.embeddings ≠ []) {c : ChunkRow} (hc : c ∈ db.chunks.rows) :
    ∃ d, IsLeast (distancesTo dist db msg c) d := by
  rcases himage.exists_vector hc with ⟨v, hv, hid⟩
  rcases List.exists_mem_of_ne_nil _ hne with ⟨e, he⟩
  have hfinite : (distancesTo dist db msg c).Finite := by
    refine (List.finite_toSet (msg.embeddings.flatMap fun e => db.vecRows.map fun v =>
      dist (vecToBlob e.values) v.embedding)).subset ?_
    rintro x ⟨e, he, v, hv, -, rfl⟩
    exact List.mem_flatMap.mpr ⟨e, he, List.mem_map_of_mem hv⟩
  rcases Set.exists_min_image _ id hfinite ⟨_, e, he, v, hv, hid, rfl⟩ with ⟨d, hmem, hmin⟩
  exact ⟨d, hmem, fun x hx => hmin x hx⟩

/-! ## The nearest passing chunks -/

/-- The chunks returned are `limit` nearest of those that pass, all of them if there are
fewer, each with its smallest distance to the query embeddings. -/
structure TopMatches (dist : List UInt8 → List UInt8 → ℚ) (db : IndexDb) (msg : IndexSearch)
    (returned : List Found) : Prop where
  nodup : (returned.map Prod.fst).Nodup
  matching : ∀ f ∈ returned, f.1 ∈ db.matching msg
  least : ∀ f ∈ returned, IsLeast (distancesTo dist db msg f.1) f.2
  length : returned.length = min msg.limit (db.matching msg).length
  sorted : (returned.map Found.result).Pairwise fun r s => s.score ≤ r.score
  nearest : ∀ c ∈ db.matching msg, c ∉ returned.map Prod.fst →
    ∀ d, IsLeast (distancesTo dist db msg c) d → ∀ f ∈ returned, f.2 ≤ d

theorem FoundList.subset_matching (h : AnswersNearest dist db knn msg)
    {rows : List (KnnHit ℚ × ChunkRow)} (hrows : queryRows db knn msg msg.embeddings = .ok rows)
    {found : List Found} (hfound : FoundList db rows found) :
    ∀ f ∈ found, f.1 ∈ db.matching msg :=
  fun f hf => ((h.mem_foundAt hrows).mp ((hfound.mem_iff f.1 f.2).mp hf).2.1).1

/-- Cut to the limit, as many chunks are found as pass. -/
theorem length_top_found (himage : Image m db) (hne : msg.embeddings ≠ [])
    (h : AnswersNearest dist db knn msg) {rows : List (KnnHit ℚ × ChunkRow)}
    (hrows : queryRows db knn msg msg.embeddings = .ok rows) {found : List Found}
    (hfound : FoundList db rows found)
    (hfew : (db.failing msg).length + msg.limit ≤ fetchK msg) :
    (top nearer msg.limit found).length = min msg.limit (db.matching msg).length := by
  have hsub : found.map Prod.fst ⊆ db.matching msg := by
    intro c hc
    rcases List.mem_map.mp hc with ⟨f, hf, rfl⟩
    exact hfound.subset_matching h hrows f hf
  have hle := (hfound.nodup.subperm hsub).length_le
  rw [List.length_map] at hle
  rw [length_top]
  by_cases hall : db.matching msg ⊆ found.map Prod.fst
  · have hge := ((nodup_matching db msg).subperm hall).length_le
    rw [List.length_map] at hge
    omega
  · -- A passing chunk that was not found leaves `limit` that were.
    rw [List.subset_def] at hall
    push Not at hall
    rcases hall with ⟨c, hc, hout⟩
    rcases exists_isLeast_distancesTo dist himage hne (mem_matching.mp hc).1 with
      ⟨d, hd⟩
    rcases mem_found_or_limit_le himage h hrows hfound hfew hc hd with hmem | hcount
    · exact absurd (List.mem_map_of_mem hmem) hout
    · have hlength := hcount.trans List.countP_le_length
      omega

/-- Cut to the limit, the chunks found are the nearest that pass. -/
theorem topMatches_top (himage : Image m db) (hne : msg.embeddings ≠ [])
    (h : AnswersNearest dist db knn msg) {rows : List (KnnHit ℚ × ChunkRow)}
    (hrows : queryRows db knn msg msg.embeddings = .ok rows) {found : List Found}
    (hfound : FoundList db rows found)
    (hfew : (db.failing msg).length + msg.limit ≤ fetchK msg) :
    TopMatches dist db msg (top nearer msg.limit found) := by
  have hmatching := hfound.subset_matching h hrows
  -- All that is returned is within the distance of a passing chunk that was cut.
  have hwithin : ∀ d, msg.limit ≤ found.countP (fun f => f.2 ≤ d) →
      ∀ f ∈ top nearer msg.limit found, f.2 ≤ d := by
    intro d hcount f hf
    have hp := forall_mem_top nearer_preorder (p := fun f : Found => f.2 ≤ d) ?_ hcount f hf
    · simpa using hp
    · intro f g hfg hg
      simp only [nearer, decide_eq_true_eq] at hfg hg ⊢
      exact hfg.trans hg
  refine ⟨?_, ?_, ?_, ?_, ?_, ?_⟩
  · have hperm : ((found.mergeSort nearer).map Prod.fst).Perm (found.map Prod.fst) :=
      (List.mergeSort_perm _ _).map _
    exact (hperm.nodup_iff.mpr hfound.nodup).sublist ((List.take_sublist _ _).map _)
  · exact fun f hf => hmatching f (mem_of_mem_top hf)
  · -- A score could be stale only if `limit` chunks were nearer than it.
    intro f hf
    have hkept := (hfound.mem_iff f.1 f.2).mp (mem_of_mem_top hf)
    rcases exists_isLeast_distancesTo dist himage hne hkept.1 with ⟨d, hd⟩
    have hle : d ≤ f.2 := hd.2 (h.foundAt_subset hrows f.1 hkept.2.1)
    rcases mem_found_or_limit_le himage h hrows hfound hfew
      (hmatching f (mem_of_mem_top hf)) hd with hmem | hcount
    · rw [hkept.2.unique ((hfound.mem_iff _ _).mp hmem).2]
      exact hd
    · rw [le_antisymm (hwithin d hcount f hf) hle]
      exact hd
  · exact length_top_found himage hne h hrows hfound hfew
  · rw [List.pairwise_map]
    refine (pairwise_top nearer_preorder msg.limit found).imp ?_
    intro f g hfg
    rw [← betterScore_result] at hfg
    exact of_decide_eq_true hfg
  · intro c hc hout d hd f hf
    rcases mem_found_or_limit_le himage h hrows hfound hfew hc hd with hmem | hcount
    · have hcut : (c, d) ∉ top nearer msg.limit found :=
        fun hkept => hout (List.mem_map_of_mem (f := Prod.fst) hkept)
      simpa [nearer] using le_of_notMem_top nearer_preorder hf hmem hcut
    · exact hwithin d hcount f hf

/-- Without vectors there are no chunks. -/
theorem Image.rows_eq_nil (himage : Image m db) (hvec : db.vecRows = []) :
    db.chunks.rows = [] := by
  have hids := himage.vecIds
  rw [hvec, List.map_nil, eq_comm, List.map_eq_nil_iff] at hids
  exact hids

/-- A search returns the nearest passing chunks, where the answers cover the failing ones. -/
theorem exists_topMatches (himage : Image m db) (hne : msg.embeddings ≠ [])
    (h : AnswersNearest dist db knn msg)
    (hfew : (db.failing msg).length + msg.limit ≤ fetchK msg)
    (order : IterationOrder (Σ _ : String, SearchResult ℚ)) :
    ∃ returned, doSearch db knn order msg = .ok (returned.map Found.result) ∧
      TopMatches dist db msg returned := by
  rcases h.exists_queryRows with ⟨rows, hrows⟩
  cases hvec : db.chunksVec with
  | none =>
      have hempty : db.chunks.rows = [] := himage.rows_eq_nil (by simp [IndexDb.vecRows, hvec])
      refine ⟨[], by simp only [doSearch, hvec, List.map_nil], ?_⟩
      constructor <;> simp [IndexDb.matching, hempty]
  | some vec =>
      rcases exists_found_doSearch order hvec hrows with ⟨found, hfound, hsearch⟩
      exact ⟨_, hsearch, topMatches_top himage hne h hrows hfound hfew⟩

/-! ## Starved searches -/

/-- What is found is what passes and is in an answer. -/
theorem mem_map_found (h : AnswersNearest dist db knn msg) {rows : List (KnnHit ℚ × ChunkRow)}
    (hrows : queryRows db knn msg msg.embeddings = .ok rows) {found : List Found}
    (hfound : FoundList db rows found) {c : ChunkRow} :
    c ∈ found.map Prod.fst ↔ c ∈ db.matching msg ∧ InAnswer db knn msg c := by
  constructor
  · intro hc
    rcases List.mem_map.mp hc with ⟨⟨c', d⟩, hf, rfl⟩
    rcases (h.mem_foundAt hrows).mp ((hfound.mem_iff c' d).mp hf).2.1 with
      ⟨hmatch, e, he, hits, hnearest, hid, -⟩
    exact ⟨hmatch, e, he, hits, hnearest, hid⟩
  · rintro ⟨hmatch, e, he, hits, hnearest, hid⟩
    rcases h e he with ⟨hits', hnearest', hexact⟩
    rw [hnearest, Except.ok.injEq] at hnearest'
    subst hnearest'
    rcases List.mem_map.mp hid with ⟨hit, hhit, hhitid⟩
    rcases hexact.mem hit hhit with ⟨v, hv, hvid, -⟩
    have hd := (h.mem_foundAt hrows).mpr
      ⟨hmatch, e, he, hits, hnearest, hid, v, hv, hvid.trans hhitid, rfl⟩
    rcases exists_isLeast_foundAt hd with ⟨least, hleast⟩
    exact List.mem_map_of_mem (f := Prod.fst)
      ((hfound.mem_iff c least).mpr ⟨(mem_matching.mp hmatch).1, hleast⟩)

/-- How many passing chunks the answers hold. -/
noncomputable def answeredCount (db : IndexDb) (knn : Knn ℚ) (msg : IndexSearch) : Nat :=
  {c | c ∈ db.matching msg ∧ InAnswer db knn msg c}.ncard

theorem length_found_eq (h : AnswersNearest dist db knn msg) {rows : List (KnnHit ℚ × ChunkRow)}
    (hrows : queryRows db knn msg msg.embeddings = .ok rows) {found : List Found}
    (hfound : FoundList db rows found) : found.length = answeredCount db knn msg := by
  have hset : {c | c ∈ db.matching msg ∧ InAnswer db knn msg c} =
      ↑(found.map Prod.fst).toFinset := by
    ext c
    rw [List.coe_toFinset, Set.mem_ofPred_eq, Set.mem_ofPred_eq]
    exact (mem_map_found h hrows hfound).symm
  rw [answeredCount, hset, Set.ncard_coe_finset, List.toFinset_card_of_nodup hfound.nodup,
    List.length_map]

/-- The answers hold at most the passing chunks, and all of them exactly if every one is in
an answer. -/
theorem answeredCount_le (db : IndexDb) (knn : Knn ℚ) (msg : IndexSearch) :
    answeredCount db knn msg ≤ (db.matching msg).length ∧
      ((∀ c ∈ db.matching msg, InAnswer db knn msg c) ↔
        answeredCount db knn msg = (db.matching msg).length) := by
  have hall : (({c | c ∈ db.matching msg} : Set ChunkRow)).ncard = (db.matching msg).length := by
    rw [← List.coe_toFinset, Set.ncard_coe_finset,
      List.toFinset_card_of_nodup (nodup_matching db msg)]
  have hfinite : ({c | c ∈ db.matching msg} : Set ChunkRow).Finite := List.finite_toSet _
  have hsub : {c | c ∈ db.matching msg ∧ InAnswer db knn msg c} ⊆
      ({c | c ∈ db.matching msg} : Set ChunkRow) := fun c hc => hc.1
  refine ⟨hall ▸ Set.ncard_le_ncard hsub hfinite, ?_, ?_⟩
  · intro hanswer
    rw [answeredCount, ← hall]
    congr 1
    ext c
    exact ⟨fun hc => hc.1, fun hc => ⟨hc, hanswer c hc⟩⟩
  · intro hcount c hc
    have hsame := Set.eq_of_subset_of_ncard_le hsub (by rw [hall]; exact hcount.ge) hfinite
    have hc' : c ∈ ({c | c ∈ db.matching msg} : Set ChunkRow) := hc
    rw [← hsame] at hc'
    exact hc'.2

/-- A search asks for enough where its scope is not `All`. -/
theorem fetchK_covers (himage : Image m db) (hne : msg.embeddings ≠ [])
    (h : AnswersNearest dist db knn msg) (hfew : (db.failing msg).length ≤ 9 * msg.limit)
    (hscope : msg.scope ≠ .all) :
    (db.failing msg).length + msg.limit ≤ fetchK msg ∨ db.chunks.rows = [] := by
  have hfetch : fetchK msg = min (msg.limit * scopeOverfetch) (2 ^ 64 - 1) := by
    unfold fetchK
    cases hs : msg.scope with
    | all => exact absurd hs hscope
    | user => rfl
    | agent => rfl
  by_cases hsat : msg.limit * scopeOverfetch ≤ 2 ^ 64 - 1
  · left
    rw [hfetch, min_eq_left hsat, scopeOverfetch]
    omega
  · -- The product saturates, and the cast makes it negative.
    right
    rw [min_eq_right (le_of_not_ge hsat)] at hfetch
    rcases List.exists_mem_of_ne_nil _ hne with ⟨e, he⟩
    rcases h e he with ⟨hits, hnearest, hexact⟩
    have hle := knn.length_le _ _ _ _ hnearest
    have hneg : asI64 (UInt64.ofNat (fetchK msg)) = -1 := by
      rw [hfetch]
      decide
    have hlength := hexact.length
    rw [hneg] at hle
    rw [hfetch] at hlength
    have hnone : db.vecRows.length = 0 := by omega
    exact himage.rows_eq_nil (List.length_eq_zero_iff.mp hnone)

end Answers

/-! ## Searches of reachable indexes -/

section Reachable

variable {actions : List IndexAction} {s : IndexState}

/-- On every index that inserts and deletes build, a search returns the nearest passing
chunks, each once, scored by its smallest distance and best first, if its answers cover the
failing ones. -/
theorem doSearch_topMatches (hrun : run IndexState.step .start actions = some s)
    {dist : List UInt8 → List UInt8 → ℚ} {knn : Knn ℚ} {msg : IndexSearch}
    (hne : msg.embeddings ≠ []) (hknn : AnswersNearest dist s.db knn msg)
    (hfew : (s.db.failing msg).length + msg.limit ≤ fetchK msg)
    (order : IterationOrder (Σ _ : String, SearchResult ℚ)) :
    ∃ returned, doSearch s.db knn order msg = .ok (returned.map Found.result) ∧
      TopMatches dist s.db msg returned :=
  exists_topMatches (image_of_run hrun) hne hknn hfew order

/-- A vector table that computes every distance answers every search it can be asked. -/
theorem answersNearest_exact (dist : List UInt8 → List UInt8 → ℚ) (db : IndexDb)
    {msg : IndexSearch} (hk : fetchK msg < 2 ^ 63) :
    AnswersNearest dist db (Knn.exact dist) msg := by
  have hcast : asI64 (UInt64.ofNat (fetchK msg)) = (fetchK msg : Int) := by
    have hnat : (UInt64.ofNat (fetchK msg)).toNat = fetchK msg :=
      UInt64.toNat_ofNat_of_lt' (hk.trans (by decide))
    rw [asI64, hnat, if_pos hk]
  intro e _
  rw [hcast]
  exact Knn.exact_nearestK dist db.nodup_vecRows _ _

/-- A summary, and a note that points the other way. -/
def noteBesideSummary : List IndexAction :=
  let chunk : UInt32 → Chunk := fun x => ⟨"x", 1, 1, ⟨[x], by simp⟩⟩
  [.insert ⟨"alice/_synthesized/20260101.md", "synthesized", 1, "m", [chunk 0x3f800000]⟩ 1 none,
    .insert ⟨rawPath "alice" .nil "_default" "a.md", "raw", 1, "m", [chunk 0xbf800000]⟩ 2 none]

/-- A search for one raw chunk. -/
def rawSearch (scope : SearchScope) : IndexSearch :=
  ⟨[⟨[0x3f800000], Embedding.one_length_lt⟩], "alice", .nil, scope, true, 1⟩

theorem doSearch_topMatches_note : ∃ s, run IndexState.step .start noteBesideSummary = some s ∧
    ∃ returned, doSearch s.db (Knn.exact signDistance) (.stored _) (rawSearch .user) =
        .ok (returned.map Found.result) ∧
      TopMatches signDistance s.db (rawSearch .user) returned ∧ returned.length = 1 := by
  cases hrun : run IndexState.step .start noteBesideSummary with
  | none => exact absurd hrun (Option.isSome_iff_ne_none.mp rfl)
  | some s =>
      have hfailing : (s.db.failing (rawSearch .user)).length = 1 ∧
          (s.db.matching (rawSearch .user)).length = 1 := by
        cases hrun
        decide +kernel
      have hne : (rawSearch .user).embeddings ≠ [] := by decide
      rcases doSearch_topMatches hrun hne
        (answersNearest_exact signDistance s.db (by decide)) (by rw [hfailing.1]; decide)
        (.stored _) with ⟨returned, hsearch, htop⟩
      exact ⟨s, rfl, returned, hsearch, htop, by rw [htop.length, hfailing.2]; rfl⟩

/-- A search with at most nine times its limit of failing chunks is filled exactly if its
scope is not `All`, or the answers hold every passing chunk, or they hold `limit`. -/
theorem search_fills_iff (hrun : run IndexState.step .start actions = some s)
    {dist : List UInt8 → List UInt8 → ℚ} {knn : Knn ℚ} {msg : IndexSearch}
    (hne : msg.embeddings ≠ []) (hknn : AnswersNearest dist s.db knn msg)
    (hfew : (s.db.failing msg).length ≤ 9 * msg.limit)
    (order : IterationOrder (Σ _ : String, SearchResult ℚ)) :
    (∃ results, doSearch s.db knn order msg = .ok results ∧
        results.length = min msg.limit (s.db.matching msg).length) ↔
      msg.scope ≠ .all ∨ (∀ c ∈ s.db.matching msg, InAnswer s.db knn msg c) ∨
        msg.limit ≤ answeredCount s.db knn msg := by
  have himage := image_of_run hrun
  rcases answeredCount_le s.db knn msg with ⟨hle, hall⟩
  have hlength : ∃ results, doSearch s.db knn order msg = .ok results ∧
      results.length = min msg.limit (answeredCount s.db knn msg) := by
    rcases hknn.exists_queryRows with ⟨rows, hrows⟩
    cases hvec : s.db.chunksVec with
    | none =>
        have hempty : s.db.chunks.rows = [] :=
          himage.rows_eq_nil (by simp [IndexDb.vecRows, hvec])
        have hnone : (s.db.matching msg).length = 0 := by simp [IndexDb.matching, hempty]
        refine ⟨[], by simp only [doSearch, hvec], ?_⟩
        rw [List.length_nil]
        omega
    | some vec =>
        rcases exists_found_doSearch order hvec hrows with ⟨found, hfound, hsearch⟩
        refine ⟨_, hsearch, ?_⟩
        rw [List.length_map, length_top, length_found_eq hknn hrows hfound]
  have hscope : msg.scope ≠ .all →
      min msg.limit (answeredCount s.db knn msg) = min msg.limit (s.db.matching msg).length := by
    intro hne'
    rcases fetchK_covers himage hne hknn hfew hne' with hcovers | hempty
    · rcases exists_topMatches himage hne hknn hcovers order with ⟨returned, hsearch, htop⟩
      rcases hlength with ⟨results, hsearch', hcount⟩
      rw [hsearch, Except.ok.injEq] at hsearch'
      rw [← hcount, ← hsearch', List.length_map, htop.length]
    · have hnone : (s.db.matching msg).length = 0 := by simp [IndexDb.matching, hempty]
      omega
  rcases hlength with ⟨results, hsearch, hcount⟩
  rw [hall]
  constructor
  · rintro ⟨results', hsearch', hfull⟩
    rw [hsearch, Except.ok.injEq] at hsearch'
    subst hsearch'
    right
    omega
  · intro hcond
    refine ⟨results, hsearch, ?_⟩
    rcases hcond with hne' | heq | hlimit
    · exact hcount.trans (hscope hne')
    · rw [hcount, heq]
    · omega

theorem search_fills_iff_note : ∃ s, run IndexState.step .start noteBesideSummary = some s ∧
    ((∃ results, doSearch s.db (Knn.exact signDistance) (.stored _) (rawSearch .all) =
        .ok results ∧ results.length = min 1 (s.db.matching (rawSearch .all)).length) ↔
      (rawSearch .all).scope ≠ .all ∨
        (∀ c ∈ s.db.matching (rawSearch .all),
          InAnswer s.db (Knn.exact signDistance) (rawSearch .all) c) ∨
        1 ≤ answeredCount s.db (Knn.exact signDistance) (rawSearch .all)) := by
  cases hrun : run IndexState.step .start noteBesideSummary with
  | none => exact absurd hrun (Option.isSome_iff_ne_none.mp rfl)
  | some s =>
      have hfailing : (s.db.failing (rawSearch .all)).length = 1 := by
        cases hrun
        decide +kernel
      exact ⟨s, rfl, search_fills_iff hrun (by decide)
        (answersNearest_exact signDistance s.db (by decide)) (by rw [hfailing]; decide)
        (.stored _)⟩

/-- The nearest chunk is a summary, so a search for one raw chunk over all scopes finds
nothing, though a raw chunk is stored. -/
theorem raw_starved : ∃ s, run IndexState.step .start noteBesideSummary = some s ∧
    AnswersNearest signDistance s.db (Knn.exact signDistance) (rawSearch .all) ∧
    (s.db.failing (rawSearch .all)).length ≤ 9 * (rawSearch .all).limit ∧
    (s.db.matching (rawSearch .all)).length = 1 ∧
    doSearch s.db (Knn.exact signDistance) (.stored _) (rawSearch .all) = .ok [] := by
  cases hrun : run IndexState.step .start noteBesideSummary with
  | none => exact absurd hrun (Option.isSome_iff_ne_none.mp rfl)
  | some s =>
      refine ⟨s, rfl, answersNearest_exact signDistance s.db (by decide), ?_⟩
      cases hrun
      refine ⟨by decide +kernel, by decide +kernel, ?_⟩
      simp only [doSearch, foldlM_searchOne, queryRows, rawSearch, Knn.exact, top, searchRows,
        mergeSort_eq_insertionSort closer_preorder, mergeSort_eq_insertionSort rowOrder_preorder,
        rank_eq_insertionSort]
      decide +kernel

end Reachable

end Memory
end MemoryHub
