import MemoryHub.Memory.IndexImage

/-!
# The index refines its map

The tables are the image of the map in every run.  The one thing a message can spoil is the
recorded dimension: an insert that cannot read it takes it for missing, and records its own
before the vector table refuses its vectors.

Main results:

- Theorem `handleInsert_recorded_iff`: when an insert leaves the vectors of the recorded
  dimension.
- Theorem `index_refines_map_iff`: the tables refine the map throughout a run exactly if no
  insert records another dimension than that of the vectors without having read it.
- Theorem `dimension_overwritten`: an insert that is refused, after which the index takes no
  vectors any more.
-/

namespace MemoryHub
namespace Memory

open Machine IndexDb

/-! ## The recorded dimension -/

/-- Every vector is of the dimension recorded in `meta`. -/
def IndexDb.Recorded (db : IndexDb) : Prop :=
  ∀ v ∈ db.vecRows, ∃ dim, db.storedDim = some (Nat.repr dim) ∧ v.embedding.length = 4 * dim

/-- An insert under this fault records its dimension, if it has chunks, without having read the
recorded one. -/
def recordsUnread (fault : Option IndexFault) : Bool :=
  unread fault && match afterDim fault with
    | some (.createVecTable _) | some (.writeDim _) => false
    | _ => true

/-- An insert that records its dimension unread is of the dimension of all vectors. -/
def IndexAction.Spares (db : IndexDb) : IndexAction → Prop
  | .insert msg _ fault => recordsUnread fault = true → ∀ first ∈ msg.chunks.head?,
      ∀ v ∈ db.vecRows, v.embedding.length = 4 * first.embedding.len
  | _ => True

instance (db : IndexDb) (action : IndexAction) : Decidable (action.Spares db) :=
  match action with
  | .insert msg now fault =>
      match h : msg.chunks with
      | [] => isTrue (by simp [IndexAction.Spares, h])
      | first :: _ =>
          decidable_of_iff (recordsUnread fault = true →
            ∀ v ∈ db.vecRows, v.embedding.length = 4 * first.embedding.len)
            (by simp [IndexAction.Spares, h])
  | .delete _ _ | .reopen _ => isTrue trivial

section

variable {m : String → Option Entry} {db db' : IndexDb}

/-- Fewer vectors beside the same record. -/
theorem IndexDb.Recorded.of_subset (h : db.Recorded) (hrows : db'.vecRows ⊆ db.vecRows)
    (hstored : db'.storedDim = db.storedDim) : db'.Recorded := by
  intro v hv
  rw [hstored]
  exact h v (hrows hv)

/-- With a dimension on record, the vectors have to be of that one. -/
theorem recorded_iff (dim : Nat) (hstored : db.storedDim = some (Nat.repr dim)) :
    db.Recorded ↔ ∀ v ∈ db.vecRows, v.embedding.length = 4 * dim := by
  unfold Recorded
  simp only [hstored, Option.some.injEq, Decimal.repr_inj, exists_eq_left']

/-- An insert is ready for its rows only with its own dimension on record.  Before that it is
the recorded one, or there are no vectors, or the insert records it unread. -/
theorem doEnsureVecReady_recorded (himage : Image m db) (hrecorded : db.Recorded) (dim : Nat)
    (fault : Option IndexFault) :
    (doEnsureVecReady db dim fault).2.vecRows = db.vecRows ∧
      (((doEnsureVecReady db dim fault).1 ≠ .ok () ∧ recordsUnread fault = false ∧
          (doEnsureVecReady db dim fault).2.storedDim = db.storedDim) ∨
        ((doEnsureVecReady db dim fault).1 = .ok () ∧
          (doEnsureVecReady db dim fault).2.storedDim = some (Nat.repr dim) ∧
          (recordsUnread fault = false → ∀ v ∈ db.vecRows, v.embedding.length = 4 * dim))) := by
  have hrows := vecRows_createVecTable db dim
  have hkeep := storedDim_createVecTable db dim
  unfold doEnsureVecReady
  cases hread : readDim db fault with
  | some s =>
      have hstored := storedDim_of_readDim hread
      have hknown : recordsUnread fault = false := by
        unfold readDim at hread
        split at hread <;> rename_i hunread
        · contradiction
        · simp [recordsUnread, hunread]
      rcases himage.recorded s hstored with ⟨d, hd, rfl⟩
      simp only [Decimal.parseBelow_repr hd]
      by_cases heq : d = dim
      · subst heq
        simp only [ne_eq, not_true_eq_false, if_false]
        split
        · exact ⟨rfl, Or.inl ⟨by simp, hknown, rfl⟩⟩
        · exact ⟨hrows, Or.inr ⟨rfl, hkeep.trans hstored,
            fun _ => (recorded_iff _ hstored).mp hrecorded⟩⟩
      · rw [if_pos heq]
        exact ⟨rfl, Or.inl ⟨by simp, hknown, rfl⟩⟩
  | none =>
      have hempty : unread fault = false → ∀ v ∈ db.vecRows, v.embedding.length = 4 * dim := by
        intro hunread v hv
        rcases hrecorded v hv with ⟨d, hstored, -⟩
        rw [readDim, hunread, hstored] at hread
        contradiction
      simp only
      split <;> rename_i hfault
      · exact ⟨rfl, Or.inl ⟨by simp, by simp [recordsUnread, hfault], rfl⟩⟩
      · exact ⟨hrows, Or.inl ⟨by simp, by simp [recordsUnread, hfault], hkeep⟩⟩
      · rename_i hwrite
        refine ⟨hrows, Or.inr ⟨rfl, storedDim_writeDim _ _, fun hknown => hempty ?_⟩⟩
        unfold recordsUnread at hknown
        cases hunread : unread fault with
        | false => rfl
        | true =>
            rw [hunread, Bool.true_and] at hknown
            split at hknown <;> rename_i hafter
            · exact absurd hafter (hwrite _)
            · exact absurd hafter (hfault _)
            · contradiction

/-- A transaction that is rolled back leaves the tables as they were. -/
theorem insertTransaction_recorded (himage : Image m db) {msg : IndexInsert} {first : Chunk}
    (hfirst : first ∈ msg.chunks) (now : Int) (fault : Option IndexFault)
    (hready : ∃ d, db.vecDim = some d)
    (hstored : db.storedDim = some (Nat.repr first.embedding.len)) :
    (transaction db (doInsert db msg now) fault).2.Recorded ↔
      ∀ v ∈ db.vecRows, v.embedding.length = 4 * first.embedding.len := by
  rcases insertTransaction_image himage now (fun _ => hready) fault with
    ⟨db', hok, hinserted⟩ | ⟨message, herr⟩
  · have hdim := hinserted.fits first hfirst
    rw [hok, recorded_iff _ (hinserted.storedDim.trans hstored)]
    refine iff_of_true ?_ ?_
    · intro v hv
      rcases hinserted.image.dims v hv with ⟨d, hd, hlength⟩
      rw [hinserted.vecDim, hdim, Option.some.injEq] at hd
      rw [hlength, hd]
    · intro v hv
      rcases himage.dims v hv with ⟨d, hd, hlength⟩
      rw [hdim, Option.some.injEq] at hd
      rw [hlength, hd]
  · rw [herr]
    exact recorded_iff _ hstored

/-- An insert leaves the vectors of the recorded dimension exactly if it does not record another
one unread. -/
theorem handleInsert_recorded_iff (himage : Image m db) (hrecorded : db.Recorded)
    (msg : IndexInsert) (now : Int) (fault : Option IndexFault) :
    (handleInsert db msg now fault).2.Recorded ↔ (IndexAction.insert msg now fault).Spares db := by
  unfold handleInsert
  split
  · exact iff_of_true hrecorded fun hunread => by simp [recordsUnread, unread] at hunread
  · cases hchunks : msg.chunks with
    | nil =>
        have hspares : (IndexAction.insert msg now fault).Spares db := by
          simp [IndexAction.Spares, hchunks]
        rcases insertTransaction_image himage now (fun hne => absurd hchunks hne)
          (afterDim fault) with ⟨db', hok, hinserted⟩ | ⟨message, herr⟩
        · simp only [hok]
          exact iff_of_true (hrecorded.of_subset (hinserted.rows hchunks) hinserted.storedDim)
            hspares
        · simp only [herr]
          exact iff_of_true hrecorded hspares
    | cons first rest =>
        have hspares : (IndexAction.insert msg now fault).Spares db ↔
            (recordsUnread fault = true →
              ∀ v ∈ db.vecRows, v.embedding.length = 4 * first.embedding.len) := by
          simp [IndexAction.Spares, hchunks]
        rw [hspares]
        have hready := doEnsureVecReady_recorded himage hrecorded first.embedding.len fault
        rcases doEnsureVecReady_image himage first.embedding.length_lt fault with
          ⟨result, db₁, hensure, himage₁, -, hgood⟩
        have hensure' : doEnsureVecReady db first.embedding.len fault = (result, db₁) := hensure
        rw [hensure'] at hready
        rcases hready with ⟨hrows, ⟨hbad, hknown, hkeep⟩ | ⟨rfl, hstored, hknown⟩⟩
        · cases result with
          | ok _ => exact absurd rfl hbad
          | error e =>
              simp only [hensure']
              refine iff_of_true (hrecorded.of_subset (fun v hv => hrows ▸ hv) hkeep) ?_
              intro hunread
              rw [hknown] at hunread
              contradiction
        · simp only [hensure']
          rw [insertTransaction_recorded himage₁ (by rw [hchunks]; exact List.mem_cons_self) now _
            (hgood rfl).1 hstored, hrows]
          refine ⟨fun h _ => h, fun h => ?_⟩
          cases hunread : recordsUnread fault with
          | true => exact h hunread
          | false => exact hknown hunread

theorem handleDelete_recorded (himage : Image m db) (hrecorded : db.Recorded) (path : String)
    (fault : Option IndexFault) : (handleDelete db path fault).2.Recorded := by
  unfold handleDelete
  split
  · exact hrecorded
  · rcases clear_image himage path with ⟨db', hfold, -, -, hstored⟩
    have hdelete : doDelete db path = .ok ((db'.deleteChunks path).deleteFile path) := by
      unfold doDelete
      rw [hfold]
      rfl
    rcases transaction_of_ok db hdelete fault with hcommit | ⟨_, hfail⟩
    · rw [hcommit]
      exact hrecorded.of_subset (vecRows_clear_subset himage hfold) hstored
    · rw [hfail]
      exact hrecorded

theorem reopen_recorded (hrecorded : db.Recorded) (fault : Option IndexFault) :
    (reopen db fault).2.Recorded := by
  unfold reopen
  split
  · exact hrecorded
  · split
    · exact hrecorded
    · split
      · exact hrecorded
      · rename_i dim _ _ _
        exact hrecorded.of_subset (fun v hv => vecRows_createVecTable db dim ▸ hv)
          (storedDim_createVecTable db dim)

/-- Any action leaves the vectors of the recorded dimension exactly if it does not record another
one unread. -/
theorem handle_recorded_iff (himage : Image m db) (hrecorded : db.Recorded)
    (action : IndexAction) : (db.handle action).2.Recorded ↔ action.Spares db := by
  cases action with
  | insert msg now fault => exact handleInsert_recorded_iff himage hrecorded msg now fault
  | delete path fault =>
      exact iff_of_true (handleDelete_recorded himage hrecorded path fault) trivial
  | reopen fault => exact iff_of_true (reopen_recorded hrecorded fault) trivial

end

/-! ## Runs -/

/-- The size an insert reports; the other actions report none. -/
def IndexAction.size : IndexAction → Nat
  | .insert msg _ _ => msg.size.toNat
  | _ => 0

/-- The sizes in the map are sizes of inserts. -/
theorem mapped_size_lt {actions : List IndexAction} {s : IndexState}
    (hrun : run IndexState.step .start actions = some s)
    (hsize : ∀ action ∈ actions, action.size < 2 ^ 63) :
    ∀ path e, s.mapped path = some e → e.size.toNat < 2 ^ 63 := by
  revert hsize
  refine run_history (P := fun actions s => (∀ action ∈ actions, action.size < 2 ^ 63) →
    ∀ path e, s.mapped path = some e → e.size.toNat < 2 ^ 63) ?_ ?_ hrun
  · intro _ path e hm
    simp [IndexState.start] at hm
  · intro actions action s t _ ih hstep hsize path e hm
    have hold := ih (fun a ha => hsize a (List.mem_append_left _ ha)) path
    have hnew : action.size < 2 ^ 63 := hsize action (by simp)
    have ht : t.mapped = s.mapped ∨ t.mapped = action.effect s.mapped := by
      unfold IndexState.step at hstep
      split at hstep
      · cases hstep
        exact Or.inr rfl
      · cases hstep
        exact Or.inl rfl
    rcases ht with heq | heq
    · exact hold e (heq ▸ hm)
    · rw [heq] at hm
      cases action with
      | insert msg now fault =>
          by_cases hp : path = msg.path
          · simp only [IndexAction.effect, hp, Function.update_self, Option.some.injEq] at hm
            rw [← hm]
            exact hnew
          · simp only [IndexAction.effect, Function.update_of_ne hp] at hm
            exact hold e hm
      | delete p fault =>
          by_cases hp : path = p
          · simp [IndexAction.effect, hp] at hm
          · simp only [IndexAction.effect, Function.update_of_ne hp] at hm
            exact hold e hm
      | reopen fault => exact hold e hm

/-- The tables are the image of the map, with the sizes as they were sent and the vectors of the
recorded dimension, and no message fails on a used key or a missing table. -/
structure IndexState.Refines (s : IndexState) : Prop where
  image : Image s.mapped s.db
  sizes : ∀ path, (s.db.files.rows.filter fun r => r.path = path).map
      (fun r => (r.source, r.size)) =
    ((s.mapped path).map fun e => (e.source, (e.size.toNat : Int))).toList
  recorded : s.db.Recorded
  sound : ∀ action e, (s.db.handle action).1 = .error e → e.isStructural = false

/-- Only the recorded dimension can be wrong. -/
theorem refines_iff {actions : List IndexAction} {s : IndexState}
    (hrun : run IndexState.step .start actions = some s)
    (hsize : ∀ action ∈ actions, action.size < 2 ^ 63) : s.Refines ↔ s.db.Recorded := by
  have himage := image_of_run hrun
  have hmapped := mapped_size_lt hrun hsize
  refine ⟨IndexState.Refines.recorded, fun hrecorded => ⟨himage, ?_, hrecorded, ?_⟩⟩
  · intro path
    rw [himage.files path]
    cases hm : s.mapped path with
    | none => rfl
    | some e =>
        have hlt := hmapped path e hm
        have hi64 : asI64 e.size = e.size.toNat := if_pos hlt
        simp [hi64]
  · intro action e herr
    rcases handle_image himage action with ⟨hok, -⟩ | ⟨e', herr', -, hns⟩
    · rw [hok] at herr
      contradiction
    · rw [herr'] at herr
      cases herr
      exact hns

/-- An action keeps the vectors of the recorded dimension exactly if it spares it. -/
theorem step_recorded_iff {s t : IndexState} {action : IndexAction} (himage : Image s.mapped s.db)
    (hrecorded : s.db.Recorded) (h : s.step action = some t) :
    t.db.Recorded ↔ action.Spares s.db := by
  rw [← handle_recorded_iff himage hrecorded action]
  unfold IndexState.step at h
  rcases hr : s.db.handle action with ⟨result, db⟩
  rw [hr] at h
  cases result with
  | ok _ =>
      cases h
      exact Iff.rfl
  | error e =>
      cases h
      exact Iff.rfl

/-- In every run of messages and reopenings, failing or not, the tables refine the map that the
successful messages have built throughout exactly if no insert that cannot read the recorded
dimension records another one than that of the vectors. -/
theorem index_refines_map_iff {actions : List IndexAction}
    (hsize : ∀ action ∈ actions, action.size < 2 ^ 63) :
    Throughout IndexState.step IndexState.Refines .start actions ↔
      StepsMeet IndexState.step (fun s action => action.Spares s.db) .start actions := by
  have hrecorded : Throughout IndexState.step IndexState.Refines .start actions ↔
      Throughout IndexState.step (fun s => s.db.Recorded) .start actions := by
    rw [throughout_iff, throughout_iff]
    refine forall₂_congr fun pre hpre => forall₂_congr fun t hrun => ?_
    exact refines_iff hrun fun action hmem => hsize action (hpre.subset hmem)
  rw [hrecorded]
  refine throughout_iff_stepsMeet (J := fun s => Image s.mapped s.db) ?_ ?_ ?_ image_fresh
  · exact fun s action t himage hstep => image_step himage hstep
  · exact fun s action t himage hrec hstep => step_recorded_iff himage hrec hstep
  · intro v hv
    simp [IndexState.start, fresh, vecRows] at hv

/-- A one-component chunk, and a two-component one. -/
def oneChunk : Chunk :=
  ⟨"one", 1, 1, ⟨[0x3f800000], Embedding.one_length_lt⟩⟩

def twoChunk : Chunk :=
  ⟨"two", 1, 1, ⟨[0x3f800000, 0], by decide⟩⟩

/-- Two inserts, a replacement that the dimension check refuses, an insert that cannot read the
dimension, a deletion and a reopening. -/
def sampleActions : List IndexAction :=
  [.insert ⟨"u/a/p/x#1", "raw", 3, "m", [oneChunk, oneChunk]⟩ 1 none,
    .insert ⟨"u/a/p/x", "raw", 3, "m", [oneChunk]⟩ 2 none,
    .insert ⟨"u/a/p/x", "raw", 3, "m", [twoChunk]⟩ 3 none,
    .insert ⟨"u/a/p/y", "raw", 3, "m", [oneChunk]⟩ 4 (some .selectDim),
    .delete "u/a/p/x#1" none, .reopen none]

theorem index_refines_map_sample :
    Throughout IndexState.step IndexState.Refines .start sampleActions :=
  (index_refines_map_iff (by decide)).mpr (by decide +kernel)

/-- An insert, another one of two components that cannot read the recorded dimension, and a third
of one component again. -/
def overwritingActions : List IndexAction :=
  [.insert ⟨"u/a/p/x", "raw", 3, "m", [oneChunk]⟩ 1 none,
    .insert ⟨"u/a/p/y", "raw", 3, "m", [twoChunk]⟩ 2 (some .selectDim)]

/-- The second insert is refused, but its dimension is on record: the stored vector is of another
one, and no insert of either is accepted from then on. -/
theorem dimension_overwritten : ∃ s, run IndexState.step .start overwritingActions = some s ∧
    ¬ s.Refines ∧ s.db.vecDim = some 1 ∧ s.db.storedDim = some "2" ∧
    (handleInsert s.db ⟨"u/a/p/z", "raw", 3, "m", [oneChunk]⟩ 3 none).1 ≠ .ok () ∧
    (handleInsert s.db ⟨"u/a/p/z", "raw", 3, "m", [twoChunk]⟩ 3 none).1 ≠ .ok () := by
  refine ⟨_, rfl, ?_, by decide +kernel, by decide +kernel, by decide +kernel, by decide +kernel⟩
  intro hrefines
  have hlengths := (recorded_iff 2 (by decide +kernel)).mp hrefines.recorded
  revert hlengths
  decide +kernel

end Memory
end MemoryHub
