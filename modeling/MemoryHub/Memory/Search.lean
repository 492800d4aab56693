import MemoryHub.Lib.Collections
import MemoryHub.Lib.Like
import MemoryHub.Lib.TopK
import MemoryHub.Memory.Indexer
import MemoryHub.Memory.Path
import Mathlib.Algebra.Order.Ring.Rat

/-!
# Search

A search asks the vector table for the nearest chunks of each query embedding, joins
them with their rows, keeps those in scope, and ranks the best hit of each chunk.  The
scope is a `LIKE` pattern made from the caller's name.  Distances and scores are `f32`, or any
other numbers that a search can compute with; what the vector table answers and the order in
which a hash map is iterated are arguments.

Main results:

- Definition `Scoring`: what a search does with distances and scores, for `f32` and for exact
  numbers.
- Theorem `like_likeEscape_iff`: escaping leaves no wildcard in a text.
- Theorem `like_pathPattern`: the pattern of a scope matches the paths that begin with
  the scope's prefix up to ASCII case.
- Theorem `inScopeUpToCase_user_iff`: a path in a user's scope up to case belongs to a user
  whose name is the same up to case.
- Theorem `mem_doSearch`: every result is a chunk in scope up to case.
- Theorem `search_exact_iff`: results are in scope exactly if no searchable chunk is in
  scope only up to case.
- Theorem `search_leaks`: a user whose name differs only in case.
-/

namespace MemoryHub
namespace Memory

open Collections

/-! ## Distances and scores -/

/-- Numbers that serve as distances and scores, with what a search does with them. -/
class Scoring (δ : Type) where
  /-- `1.0 - distance / 2.0`. -/
  score : δ → δ
  /-- `existing.score >= result.score`. -/
  atLeast : δ → δ → Bool
  /-- `a.total_cmp(&b) != Ordering::Greater`. -/
  totalLe : δ → δ → Bool
  /-- The order of `ORDER BY`. -/
  distanceLe : δ → δ → Bool
  totalLe_preorder : TopK.TotalPreorder totalLe

/-- The number by which `f32::total_cmp` compares: the bits as a sign and a magnitude. -/
def totalKey (x : Float32) : Int :=
  if x.toBits.toNat < 2 ^ 31 then x.toBits.toNat else 2 ^ 31 - 1 - x.toBits.toNat

/-- The numbers of the program. -/
instance : Scoring Float32 where
  score distance := 1.0 - distance / 2.0
  atLeast existing new := decide (existing ≥ new)
  totalLe a b := decide (totalKey a ≤ totalKey b)
  distanceLe a b := decide (a ≤ b)
  totalLe_preorder := by
    constructor
    · intro a b c hab hbc
      rw [decide_eq_true_eq] at hab hbc ⊢
      exact hab.trans hbc
    · intro a b
      rw [Bool.or_eq_true, decide_eq_true_eq, decide_eq_true_eq]
      exact le_total _ _

/-- Exact numbers. -/
instance : Scoring ℚ where
  score distance := 1 - distance / 2
  atLeast existing new := decide (existing ≥ new)
  totalLe a b := decide (a ≤ b)
  distanceLe a b := decide (a ≤ b)
  totalLe_preorder := by
    constructor
    · intro a b c hab hbc
      rw [decide_eq_true_eq] at hab hbc ⊢
      exact hab.trans hbc
    · intro a b
      rw [Bool.or_eq_true, decide_eq_true_eq, decide_eq_true_eq]
      exact le_total _ _

/-! ## The vector table's answers -/

/-- One answer of the vector table; a degenerate vector has no distance. -/
structure KnnHit (δ : Type) where
  chunkId : String
  distance : Option δ
deriving DecidableEq, Repr

/-- How the vector table answers: rows of the table, none twice, at most `k`. -/
structure Knn (δ : Type) where
  nearest : List VecRow → List UInt8 → Int → Except Sqlite.Error (List (KnnHit δ))
  mem : ∀ rows query k hits, nearest rows query k = .ok hits →
    ∀ hit ∈ hits, hit.chunkId ∈ rows.map VecRow.chunkId
  nodup : ∀ rows query k hits, nearest rows query k = .ok hits →
    (hits.map KnnHit.chunkId).Nodup
  length_le : ∀ rows query k hits, nearest rows query k = .ok hits → (hits.length : Int) ≤ max k 0

/-! ## Searching -/

/-- `s.replace(c, by)`. -/
def replaceChar (c : Char) (replacement s : List Char) : List Char :=
  s.flatMap fun d => if d = c then replacement else [d]

/-- Escapes the `LIKE` wildcards. -/
def likeEscape (s : String) : String :=
  String.ofList (replaceChar '_' ['\\', '_'] (replaceChar '%' ['\\', '%']
    (replaceChar '\\' ['\\', '\\'] s.toList)))

/-- The `LIKE` pattern of a scope. -/
def pathPattern (msg : IndexSearch) : String :=
  match msg.scope with
  | .all => "%"
  | .user => likeEscape msg.username ++ "/%"
  | .agent => likeEscape msg.username ++ "/" ++ msg.agentId.hyphenated ++ "/%"

/-- How many extra candidates a scoped search pulls for each requested result. -/
def scopeOverfetch : Nat :=
  10

/-- How many candidates are asked for; the multiplication saturates. -/
def fetchK (msg : IndexSearch) : Nat :=
  match msg.scope with
  | .all => msg.limit
  | .user | .agent => min (msg.limit * scopeOverfetch) (2 ^ 64 - 1)

section

variable {δ : Type} [Scoring δ]

/-- `ORDER BY distance ASC`: rows without a distance come first. -/
def distanceLe : Option δ → Option δ → Bool
  | none, _ => true
  | some _, none => false
  | some x, some y => Scoring.distanceLe x y

/-- The rows of the query: hits joined with `chunks` and `files`, filtered and ordered. -/
def searchRows (db : IndexDb) (pattern : String) (rawOnly : Bool) (hits : List (KnnHit δ)) :
    List (KnnHit δ × ChunkRow) :=
  let rows := hits.flatMap fun hit =>
    (db.chunks.rows.filter fun c => c.id = hit.chunkId && Like.like c.path pattern '\\').flatMap
      fun c => (db.files.rows.filter fun f => f.path = c.path && (!rawOnly || f.source = "raw")).map
        fun _ => (hit, c)
  rows.mergeSort fun a b => distanceLe a.1.distance b.1.distance

/-- The best result of each chunk. -/
abbrev BestResults (δ : Type) :=
  AList fun _ : String => SearchResult δ

/-- Keep a row if it has a distance and beats what its chunk has so far. -/
def keepBest (best : BestResults δ) (row : KnnHit δ × ChunkRow) : BestResults δ :=
  match row.1.distance with
  | none => best
  | some distance =>
      let result : SearchResult δ :=
        ⟨row.2.path, row.2.startLine, row.2.endLine, Scoring.score distance, row.2.text⟩
      match best.lookup row.1.chunkId with
      | some existing =>
          if Scoring.atLeast existing.score result.score then best
          else best.insert row.1.chunkId result
      | none => best.insert row.1.chunkId result

/-- The query of one embedding. -/
def searchOne (db : IndexDb) (knn : Knn δ) (msg : IndexSearch) (best : BestResults δ)
    (e : Embedding) : Except Sqlite.Error (BestResults δ) :=
  match knn.nearest db.vecRows (vecToBlob e.values) (asI64 (UInt64.ofNat (fetchK msg))) with
  | .error err => .error err
  | .ok hits => .ok ((searchRows db (pathPattern msg) msg.rawOnly hits).foldl keepBest best)

/-- Sort by score, best first, and cut to the limit. -/
def rank (limit : Nat) (results : List (SearchResult δ)) : List (SearchResult δ) :=
  (results.mergeSort fun a b => Scoring.totalLe b.score a.score).take limit

/-- `do_search`; the vector table is seen where there is one. -/
def doSearch (db : IndexDb) (knn : Knn δ)
    (order : IterationOrder (Σ _ : String, SearchResult δ)) (msg : IndexSearch) :
    Except IndexError (List (SearchResult δ)) :=
  match db.chunksVec with
  | none => .ok []
  | some _ =>
      match msg.embeddings.foldlM (searchOne db knn msg) ∅ with
      | .error e => .error (.sqlite e)
      | .ok best => .ok (rank msg.limit ((order.arrange best.entries).map Sigma.snd))

end

/-! ## Scopes -/

/-- What every path of a scope begins with. -/
def scopePrefix (scope : SearchScope) (username : String) (agentId : Uuid) : List Char :=
  match scope with
  | .all => []
  | .user => username.toList ++ ['/']
  | .agent => username.toList ++ '/' :: (agentId.hyphenated.toList ++ ['/'])

/-- The path begins with exactly the scope's prefix. -/
def InScope (scope : SearchScope) (username : String) (agentId : Uuid) (path : String) : Prop :=
  scopePrefix scope username agentId <+: path.toList

instance (scope : SearchScope) (username : String) (agentId : Uuid) (path : String) :
    Decidable (InScope scope username agentId path) :=
  inferInstanceAs (Decidable (_ <+: _))

/-- The path begins with the scope's prefix when ASCII letters are compared without
case. -/
def InScopeUpToCase (scope : SearchScope) (username : String) (agentId : Uuid)
    (path : String) : Prop :=
  (path.toList.take (scopePrefix scope username agentId).length).map Char.toLower =
    (scopePrefix scope username agentId).map Char.toLower

/-- The three replacements escape each character on its own. -/
theorem toList_likeEscape (s : String) :
    (likeEscape s).toList = s.toList.flatMap (Like.escapeChar '\\') := by
  have hchar : ∀ c : Char, replaceChar '_' ['\\', '_'] (replaceChar '%' ['\\', '%']
      (if c = '\\' then ['\\', '\\'] else [c])) = Like.escapeChar '\\' c := by
    intro c
    by_cases hback : c = '\\'
    · subst hback
      decide
    · by_cases hseq : c = '%'
      · subst hseq
        decide
      · by_cases hone : c = '_'
        · subst hone
          decide
        · simp [replaceChar, Like.escapeChar, hback, hseq, hone]
  rw [likeEscape, String.toList_ofList]
  induction s.toList with
  | nil => rfl
  | cons c cs ih =>
      rw [List.flatMap_cons, ← ih, ← hchar c]
      simp [replaceChar]

/-- An escaped text followed by `/%` matches what begins with the text and a slash, up to ASCII
case. -/
theorem like_likeEscape_iff (s t : String) :
    Like.like t (likeEscape s ++ "/%") '\\' = true ↔
      (t.toList.take (s.length + 1)).map Char.toLower = (s ++ "/").toList.map Char.toLower := by
  have hslash : Like.escapeChar '\\' '/' = ['/'] := by decide
  have hlength : (s ++ "/").toList.length = s.length + 1 := by
    rw [String.toList_append, List.length_append, String.length_toList]
    rfl
  rw [← hlength]
  refine Like.like_escape_prefix (by decide) ?_ t
  simp [toList_likeEscape, String.toList_append, hslash]

/-- The pattern of a scope matches the paths in scope up to case. -/
theorem like_pathPattern (msg : IndexSearch) (path : String) :
    Like.like path (pathPattern msg) '\\' = true ↔
      InScopeUpToCase msg.scope msg.username msg.agentId path := by
  refine Like.like_escape_prefix (by decide) ?_ path
  have hslash : Like.escapeChar '\\' '/' = ['/'] := by decide
  have hagent : msg.agentId.hyphenated.toList.flatMap (Like.escapeChar '\\') =
      msg.agentId.hyphenated.toList := by
    apply Like.flatMap_escapeChar_of_plain
    intro c hc
    refine ⟨?_, ?_, ?_⟩ <;> intro heq <;> rw [heq] at hc
    · exact Uuid.notMem_hyphenated (by decide) (by decide) hc
    · exact Uuid.notMem_hyphenated (by decide) (by decide) hc
    · exact Uuid.notMem_hyphenated (by decide) (by decide) hc
  unfold pathPattern scopePrefix
  cases msg.scope with
  | all => simp
  | user => simp [toList_likeEscape, String.toList_append, hslash]
  | agent => simp [toList_likeEscape, String.toList_append, hslash, hagent]

/-- Lower-casing makes no slash. -/
theorem toLower_eq_slash {c : Char} : c.toLower = '/' ↔ c = '/' := by
  have hslash : '/'.toNat = 47 := rfl
  rw [← Char.toNat_inj, ← Char.toNat_inj, RustStr.toNat_toLower, hslash]
  split <;> omega

/-- A path is in a user's scope up to case exactly if its first segment is the user's name
up to case. -/
theorem inScopeUpToCase_user_iff {username v rest : String} {agentId : Uuid}
    (huser : '/' ∉ username.toList) (hv : '/' ∉ v.toList) :
    InScopeUpToCase .user username agentId (v ++ "/" ++ rest) ↔
      v.toList.map Char.toLower = username.toList.map Char.toLower := by
  have hlower : ∀ s : String, '/' ∉ s.toList → '/' ∉ s.toList.map Char.toLower := by
    intro s hs hmem
    rcases List.mem_map.mp hmem with ⟨c, hc, hslash⟩
    exact hs (toLower_eq_slash.mp hslash ▸ hc)
  have hslash : "/".toList = ['/'] := by decide
  have hfirst : ∀ xs ys : List Char, '/' ∉ xs →
      (xs ++ '/' :: ys).takeWhile (· ≠ '/') = xs := by
    intro xs ys hxs
    rw [List.takeWhile_append_of_pos (by grind)]
    simp
  have hlength : (username.toList ++ ['/']).length =
      (username.toList.map Char.toLower ++ ['/']).length := by simp
  unfold InScopeUpToCase scopePrefix
  rw [String.toList_append, String.toList_append, hslash, List.map_take, List.map_append,
    List.map_append, List.map_append, List.append_assoc, hlength]
  simp only [List.map_cons, List.map_nil, List.singleton_append,
    show Char.toLower '/' = '/' by decide]
  constructor
  · intro htake
    have hsplit := List.take_append_drop
      (username.toList.map Char.toLower ++ ['/']).length
      (v.toList.map Char.toLower ++ '/' :: rest.toList.map Char.toLower)
    rw [htake, List.append_assoc, List.singleton_append] at hsplit
    rw [← hfirst _ (rest.toList.map Char.toLower) (hlower v hv), ← hsplit,
      hfirst _ _ (hlower username huser)]
  · intro hsame
    rw [hsame, List.length_append, List.take_length_add_append]
    rfl

/-! ## What is found -/

/-- A chunk a search can find: it has a vector and a file, a raw one if asked for. -/
def Searchable (db : IndexDb) (rawOnly : Bool) (c : ChunkRow) : Prop :=
  c ∈ db.chunks.rows ∧ c.id ∈ db.vecRows.map VecRow.chunkId ∧
    ∃ f ∈ db.files.rows, f.path = c.path ∧ (rawOnly = true → f.source = "raw")

section

variable {δ : Type} [Scoring δ]

theorem mem_searchRows {db : IndexDb} {pattern : String} {rawOnly : Bool} {hits : List (KnnHit δ)}
    {row : KnnHit δ × ChunkRow} :
    row ∈ searchRows db pattern rawOnly hits ↔
      row.1 ∈ hits ∧ row.2 ∈ db.chunks.rows ∧ row.2.id = row.1.chunkId ∧
        Like.like row.2.path pattern '\\' = true ∧
          ∃ f ∈ db.files.rows, f.path = row.2.path ∧ (rawOnly = true → f.source = "raw") := by
  rcases row with ⟨hit, c⟩
  have hsource : ∀ f : FileRow,
      (!rawOnly || f.source = "raw") = true ↔ (rawOnly = true → f.source = "raw") := by
    intro f
    cases rawOnly <;> simp
  simp only [searchRows, List.mem_mergeSort, List.mem_flatMap, List.mem_filter, List.mem_map,
    Bool.and_eq_true, decide_eq_true_eq, Prod.mk.injEq, hsource]
  constructor
  · intro h
    rcases h with ⟨hit', hhit, c', ⟨hc, hid, hlike⟩, f, ⟨hf, hpath, hraw⟩, rfl, rfl⟩
    exact ⟨hhit, hc, hid, hlike, f, hf, hpath, hraw⟩
  · intro h
    rcases h with ⟨hhit, hc, hid, hlike, f, hf, hpath, hraw⟩
    exact ⟨hit, hhit, c, ⟨hc, hid, hlike⟩, f, ⟨hf, hpath, hraw⟩, rfl, rfl⟩

/-- Every result kept so far is the result of one of some rows. -/
def From (rows : KnnHit δ × ChunkRow → Prop) (best : BestResults δ) : Prop :=
  ∀ entry ∈ best.entries, ∃ row, rows row ∧ entry.2.path = row.2.path

theorem From.keepBest {rows : KnnHit δ × ChunkRow → Prop} {best : BestResults δ}
    (hbest : From rows best) {row : KnnHit δ × ChunkRow} (hrow : rows row) :
    From rows (keepBest best row) := by
  have hinsert : ∀ result : SearchResult δ, result.path = row.2.path →
      From rows (best.insert row.1.chunkId result) := by
    intro result hpath entry hentry
    rw [AList.entries_insert, List.mem_cons] at hentry
    rcases hentry with heq | hmem
    · exact ⟨row, hrow, by rw [heq]; exact hpath⟩
    · exact hbest entry (List.kerase_sublist _ _ |>.subset hmem)
  unfold Memory.keepBest
  cases row.1.distance with
  | none => exact hbest
  | some distance =>
      simp only
      split
      · split
        · exact hbest
        · exact hinsert _ rfl
      · exact hinsert _ rfl

theorem From.foldl {rows : KnnHit δ × ChunkRow → Prop} {more : List (KnnHit δ × ChunkRow)}
    (hmore : ∀ row ∈ more, rows row) {best : BestResults δ} (hbest : From rows best) :
    From rows (more.foldl Memory.keepBest best) := by
  induction more generalizing best with
  | nil => exact hbest
  | cons row more ih =>
      exact ih (fun r hr => hmore r (List.mem_cons_of_mem row hr))
        (hbest.keepBest (hmore row List.mem_cons_self))

/-- The queries of all embeddings add rows that match. -/
theorem From.searchAll {db : IndexDb} {knn : Knn δ} {msg : IndexSearch}
    {rows : KnnHit δ × ChunkRow → Prop}
    (hrows : ∀ e ∈ msg.embeddings, ∀ hits,
      knn.nearest db.vecRows (vecToBlob e.values) (asI64 (UInt64.ofNat (fetchK msg))) = .ok hits →
        ∀ row ∈ searchRows db (pathPattern msg) msg.rawOnly hits, rows row)
    {es : List Embedding} (hes : ∀ e ∈ es, e ∈ msg.embeddings) {best best' : BestResults δ}
    (hbest : From rows best) (h : es.foldlM (searchOne db knn msg) best = .ok best') :
    From rows best' := by
  induction es generalizing best with
  | nil =>
      cases h
      exact hbest
  | cons e es ih =>
      rw [List.foldlM_cons] at h
      cases hone : searchOne db knn msg best e with
      | error err => simp [hone, bind, Except.bind] at h
      | ok best₁ =>
          simp only [hone, bind, Except.bind] at h
          refine ih (fun e' he' => hes e' (List.mem_cons_of_mem e he')) ?_ h
          unfold searchOne at hone
          split at hone <;> rename_i hnearest
          · contradiction
          · cases hone
            exact hbest.foldl (hrows e (hes e List.mem_cons_self) _ hnearest)

/-- Every result is a searchable chunk that matches the scope's pattern. -/
theorem mem_doSearch {db : IndexDb} {knn : Knn δ}
    {order : IterationOrder (Σ _ : String, SearchResult δ)} {msg : IndexSearch}
    {results : List (SearchResult δ)} (h : doSearch db knn order msg = .ok results)
    {r : SearchResult δ} (hr : r ∈ results) :
    ∃ c, Searchable db msg.rawOnly c ∧ c.path = r.path ∧
      InScopeUpToCase msg.scope msg.username msg.agentId c.path ∧
      ∃ e ∈ msg.embeddings, ∃ hits, knn.nearest db.vecRows (vecToBlob e.values)
        (asI64 (UInt64.ofNat (fetchK msg))) = .ok hits ∧ c.id ∈ hits.map KnnHit.chunkId := by
  unfold doSearch at h
  cases hvec : db.chunksVec with
  | none =>
      rw [hvec] at h
      cases h
      simp at hr
  | some vec =>
      simp only [hvec] at h
      cases hall : msg.embeddings.foldlM (searchOne db knn msg) ∅ with
      | error e => simp [hall] at h
      | ok best =>
          simp only [hall] at h
          cases h
          have hfrom : From (fun row => ∃ e ∈ msg.embeddings, ∃ hits,
              knn.nearest db.vecRows (vecToBlob e.values)
                (asI64 (UInt64.ofNat (fetchK msg))) = .ok hits ∧
              row ∈ searchRows db (pathPattern msg) msg.rawOnly hits) best := by
            refine From.searchAll ?_ (fun _ he => he) ?_ hall
            · intro e he hits hnearest row hrow
              exact ⟨e, he, hits, hnearest, hrow⟩
            · intro entry hentry
              simp at hentry
          have hmem : r ∈ (order.arrange best.entries).map Sigma.snd :=
            List.mem_mergeSort.mp (List.mem_of_mem_take hr)
          rcases List.mem_map.mp hmem with ⟨entry, hentry, rfl⟩
          rcases hfrom entry ((order.perm _).mem_iff.mp hentry) with
            ⟨row, ⟨e, he, hits, hnearest, hrow⟩, hpath⟩
          rcases mem_searchRows.mp hrow with ⟨hhit, hc, hid, hlike, hfile⟩
          refine ⟨row.2, ⟨hc, ?_, hfile⟩, hpath.symm, (like_pathPattern msg _).mp hlike,
            e, he, hits, hnearest, ?_⟩
          · rw [hid]
            exact knn.mem _ _ _ _ hnearest row.1 hhit
          · rw [hid]
            exact List.mem_map_of_mem hhit

/-! ## What must be found -/

/-- A vector table that finds one vector, if it is there. -/
def Knn.only (id : String) (distance : δ) : Knn δ where
  nearest rows _ k :=
    if id ∈ rows.map VecRow.chunkId ∧ 1 ≤ k then .ok [⟨id, some distance⟩] else .ok []
  mem := by
    intro rows query k hits h hit hhit
    split at h <;> rename_i hid
    · cases h
      rw [List.mem_singleton.mp hhit]
      exact hid.1
    · cases h
      simp at hhit
  nodup := by
    intro rows query k hits h
    split at h
    · cases h
      simp
    · cases h
      simp
  length_le := by
    intro rows query k hits h
    split at h <;> rename_i hid
    · cases h
      simp only [List.length_singleton]
      omega
    · cases h
      simp

theorem mem_keepBest {best : BestResults δ} {row : KnnHit δ × ChunkRow} {id : String}
    (h : id ∈ best ∨ (row.1.chunkId = id ∧ row.1.distance ≠ none)) : id ∈ keepBest best row := by
  unfold keepBest
  cases hdistance : row.1.distance with
  | none =>
      rcases h with hbest | ⟨-, hne⟩
      · exact hbest
      · exact absurd hdistance hne
  | some distance =>
      simp only
      split <;> rename_i hlookup
      · split
        · rcases h with hbest | ⟨rfl, -⟩
          · exact hbest
          · exact AList.lookup_isSome.mp (by simp [hlookup])
        · rcases h with hbest | ⟨rfl, -⟩
          · exact (AList.mem_insert best).mpr (Or.inr hbest)
          · exact (AList.mem_insert best).mpr (Or.inl rfl)
      · rcases h with hbest | ⟨rfl, -⟩
        · exact (AList.mem_insert best).mpr (Or.inr hbest)
        · exact (AList.mem_insert best).mpr (Or.inl rfl)

/-- A row with a distance leaves a result for its chunk. -/
theorem mem_foldl_keepBest {rows : List (KnnHit δ × ChunkRow)} {best : BestResults δ} {id : String}
    (h : id ∈ best ∨ ∃ row ∈ rows, row.1.chunkId = id ∧ row.1.distance ≠ none) :
    id ∈ rows.foldl keepBest best := by
  induction rows generalizing best with
  | nil =>
      rcases h with hbest | ⟨row, hrow, -⟩
      · exact hbest
      · simp at hrow
  | cons row rows ih =>
      rw [List.foldl_cons]
      rcases h with hbest | ⟨row', hrow', hid⟩
      · exact ih (Or.inl (mem_keepBest (Or.inl hbest)))
      · rcases List.mem_cons.mp hrow' with rfl | hrest
        · exact ih (Or.inl (mem_keepBest (Or.inr hid)))
        · exact ih (Or.inr ⟨row', hrest, hid⟩)

/-- A search can find any searchable chunk that matches its scope's pattern. -/
theorem exists_doSearch {db : IndexDb} {c : ChunkRow} {scope : SearchScope} {username : String}
    {agentId : Uuid} {rawOnly : Bool} (hc : Searchable db rawOnly c)
    (hscope : InScopeUpToCase scope username agentId c.path) (e : Embedding)
    (distance : δ) :
    ∃ results, doSearch db (Knn.only c.id distance) (.stored _)
        ⟨[e], username, agentId, scope, rawOnly, 1⟩ = .ok results ∧
      ∃ r ∈ results, r.path = c.path := by
  have hvec : ∃ vec, db.chunksVec = some vec := by
    cases hv : db.chunksVec with
    | none => simp [Searchable, IndexDb.vecRows, hv] at hc
    | some vec => exact ⟨vec, rfl⟩
  rcases hvec with ⟨vec, hvec⟩
  have hk : (1 : Int) ≤ asI64 (UInt64.ofNat
      (fetchK ⟨[e], username, agentId, scope, rawOnly, 1⟩)) := by
    have hfetch : fetchK ⟨[e], username, agentId, scope, rawOnly, 1⟩ = 1 ∨
        fetchK ⟨[e], username, agentId, scope, rawOnly, 1⟩ = 10 := by
      cases scope <;> simp [fetchK, scopeOverfetch]
    rcases hfetch with hone | hten
    · rw [hone]
      decide
    · rw [hten]
      decide
  have hnearest : ∀ query, (Knn.only c.id distance).nearest db.vecRows query (asI64 (UInt64.ofNat
      (fetchK ⟨[e], username, agentId, scope, rawOnly, 1⟩))) = .ok [⟨c.id, some distance⟩] := by
    intro query
    exact if_pos ⟨hc.2.1, hk⟩
  have hrow : (⟨c.id, some distance⟩, c) ∈ searchRows db
      (pathPattern ⟨[e], username, agentId, scope, rawOnly, 1⟩) rawOnly [⟨c.id, some distance⟩] :=
    mem_searchRows.mpr ⟨List.mem_singleton_self _, hc.1, rfl,
      (like_pathPattern _ c.path).mpr hscope, hc.2.2⟩
  rcases hbest : (searchRows db (pathPattern ⟨[e], username, agentId, scope, rawOnly, 1⟩) rawOnly
    [⟨c.id, some distance⟩]).foldl keepBest ∅ with ⟨entries, hnodup⟩
  have hmem : c.id ∈ (⟨entries, hnodup⟩ : BestResults δ) := by
    rw [← hbest]
    exact mem_foldl_keepBest (Or.inr ⟨_, hrow, rfl, by simp⟩)
  have hsearch : doSearch db (Knn.only c.id distance) (.stored _)
      ⟨[e], username, agentId, scope, rawOnly, 1⟩ =
        .ok (rank 1 (entries.map Sigma.snd)) := by
    simp [doSearch, hvec, searchOne, hnearest, hbest, bind, Except.bind, pure, Except.pure,
      IterationOrder.stored]
  have hlength : (rank 1 (entries.map Sigma.snd)).length = 1 := by
    have hpos : 0 < entries.length := by
      cases entries with
      | nil => simp [AList.mem_mk] at hmem
      | cons entry entries => simp
    rw [rank, List.length_take, List.length_mergeSort, List.length_map]
    omega
  rcases List.length_eq_one_iff.mp hlength with ⟨r, hr⟩
  refine ⟨_, hsearch, r, by rw [hr]; exact List.mem_singleton_self r, ?_⟩
  rcases mem_doSearch hsearch (by rw [hr]; exact List.mem_singleton_self r) with
    ⟨c', hc', hpath, -, e', -, hits, hhits, hid⟩
  rw [hnearest] at hhits
  cases hhits
  have hsame : c' = c := by
    apply Sqlite.eq_of_key_eq db.chunks.nodup hc'.1 hc.1
    simpa using hid
  rw [← hpath, hsame]

end

/-! ## Exactness -/

/-- For every answer of the vector table, every iteration order, all query embeddings
and every limit the results are in scope, and from raw files if asked for, exactly if
no searchable chunk is in scope only up to case. -/
theorem search_exact_iff (db : IndexDb) (username : String) (agentId : Uuid)
    (scope : SearchScope) (rawOnly : Bool) :
    (∀ (knn : Knn Float32) (order : IterationOrder (Σ _ : String, SearchResult Float32))
        (embeddings : List Embedding) (limit : Nat) (results : List (SearchResult Float32)),
      doSearch db knn order ⟨embeddings, username, agentId, scope, rawOnly, limit⟩ = .ok results →
        ∀ r ∈ results, InScope scope username agentId r.path ∧
          (rawOnly = true → ∃ f ∈ db.files.rows, f.path = r.path ∧ f.source = "raw")) ↔
      ∀ c, Searchable db rawOnly c → InScopeUpToCase scope username agentId c.path →
        InScope scope username agentId c.path := by
  constructor
  · intro hexact c hc hscope
    rcases exists_doSearch hc hscope ⟨[], by decide⟩ (0 : Float32) with
      ⟨results, hsearch, r, hr, hpath⟩
    have hr' := (hexact _ _ _ _ results hsearch r hr).1
    rw [hpath] at hr'
    exact hr'
  · intro hcase knn order embeddings limit results hsearch r hr
    rcases mem_doSearch hsearch hr with ⟨c, hc, hpath, hscope, -⟩
    refine ⟨?_, ?_⟩
    · rw [← hpath]
      exact hcase c hc hscope
    · intro hraw
      rcases hc.2.2 with ⟨f, hf, hfpath, hsource⟩
      exact ⟨f, hf, hfpath.trans hpath, hsource hraw⟩

/-- The note of one user, in an index of its own. -/
def otherCaseNote : IndexInsert :=
  ⟨rawPath "Alice" .nil "_default" "a.md", "raw", 1, "m",
    [⟨"x", 1, 1, ⟨[0x3f800000], Embedding.one_length_lt⟩⟩]⟩

/-- A search in the scope of `alice` finds the note of `Alice`. -/
theorem search_leaks :
    Http.validateUsername "alice" = .ok () ∧ Http.validateUsername "Alice" = .ok () ∧
      doSearch (handleInsert .fresh otherCaseNote 0 none).2
          (Knn.only (chunkId otherCaseNote.path 0) (0 : Float32)) (.stored _)
          ⟨[⟨[0x3f800000], Embedding.one_length_lt⟩], "alice", .nil, .user, false, 20⟩ =
        .ok [⟨otherCaseNote.path, 1, 1, 1, "x"⟩] ∧
      ¬ InScope .user "alice" .nil otherCaseNote.path := by
  refine ⟨by decide, by decide, ?_, by decide +kernel⟩
  decide +kernel

end Memory
end MemoryHub
