import MemoryHub.Memory.Storage

/-!
# Stored files

What a path leads to is decided by every directory on its way, so creating a directory can
make a file readable at a path that goes through it and back: where `b` is not there,
`b/../f` leads nowhere, although `f` may be a file.

Main results:

- Theorem `storedFile_eq_some`: what file a path leads to.
- Theorem `storedFiles_kept_iff`: when a failed write leaves the files of all paths as they are.
-/

namespace MemoryHub
namespace Memory

open UnixPath FileSystem

/-- The file that a path leads to: its text, or nothing where that is not UTF-8. -/
def storedFile (fs : Fs) (path : String) : Option (Option String) :=
  match fs.locate (pieces path) with
  | .ok (.entry name loc) =>
      match fs.node (name :: loc) with
      | some (.file text) => some text
      | _ => none
  | _ => none

/-- A path that leads to a file leads to the one at its location. -/
theorem storedFile_eq_some {fs : Fs} {path : String} {text : Option String} :
    storedFile fs path = some text ↔
      LeadsTo fs path ∧ fs.node (location path) = some (.file text) := by
  unfold storedFile LeadsTo location
  cases hlocate : fs.locate (pieces path) with
  | error e => simp
  | ok target =>
      cases target with
      | dir loc => simp
      | entry name loc =>
          rw [← (Fs.locate_eq_entry hlocate).2.2.2.1]
          simp only [Except.ok.injEq, Fs.Target.entry.injEq, exists_and_left, exists_eq', and_true,
            true_and]
          cases fs.node (name :: loc) with
          | none => simp
          | some n => cases n <;> simp

/-- The files of a tree are those of a tree that resolves the path alike. -/
theorem storedFile_congr {fs fs' : Fs} {path path' : String}
    (hlocate : fs'.locate (pieces path') = fs.locate (pieces path)) (hnode : fs'.node = fs.node) :
    storedFile fs' path' = storedFile fs path := by
  rw [storedFile, storedFile, hlocate, hnode]

/-- The names in a location that a path leads to can be written in a path. -/
theorem isSegment_of_leadsTo {fs : Fs} {path : String} (h : LeadsTo fs path) :
    ∀ p ∈ location path, IsSegment p := by
  rcases h with ⟨name, loc, hlocate⟩
  intro p hp
  rcases Fs.mem_lexical hp with hnil | ⟨hmem, hname⟩
  · exact absurd hnil List.not_mem_nil
  · have hnul := (Fs.locate_eq_entry hlocate).1
    simp only [Fs.hasNul, List.any_eq_false, List.contains_eq_mem, decide_eq_true_eq] at hnul
    exact ⟨hname, slash_notMem_of_mem_pieces hmem, hnul p hmem⟩

/-- A file at a location of such names is what some path leads to. -/
theorem exists_path_of_file {fs : Fs} {l : Loc} (hsegments : ∀ p ∈ l, IsSegment p)
    {text : Option String} (h : fs.node l = some (.file text)) :
    ∃ path, storedFile fs path = some text := by
  cases l with
  | nil =>
      rw [fs.root_dir] at h
      cases h
  | cons name loc =>
      rcases exists_pieces_eq (loc.reverse ++ [name]) (by simp) (by
        intro p hp
        refine (hsegments p ?_).2.1
        simpa [or_comm] using hp) with ⟨path, hpath⟩
      refine ⟨path, ?_⟩
      have hnul : Fs.hasNul (loc.reverse ++ [name]) = false := by
        simp only [Fs.hasNul, List.any_eq_false, List.contains_eq_mem, decide_eq_true_eq]
        intro p hp
        refine (hsegments p ?_).2.2
        simpa [or_comm] using hp
      have hdir : fs.node loc = some .dir := fs.parent_dir name loc (by simp [h])
      have hlocate : fs.locate (pieces path) = .ok (.entry name loc) := by
        rw [hpath]
        have hnames : ∀ p ∈ loc.reverse, IsName p :=
          fun p hp => (hsegments p (List.mem_cons_of_mem _ (List.mem_reverse.mp hp))).1
        have hentry := Fs.locate_in_dir hnames (hsegments name List.mem_cons_self).1 hnul
          (by rwa [List.reverse_reverse])
        rwa [List.reverse_reverse] at hentry
      rw [storedFile, hlocate]
      simp only [h]

/-! ## Failed writes -/

section

variable {fs fs' : Fs} {path content : String} {fault : Option StorageFault} {e : StorageError}

/-- What creating the folder adds is a directory, under names that can be written in a path. -/
theorem exists_new_folder (h : withFolder fs path fault ≠ fs) :
    ∃ l, (∀ p ∈ l, IsSegment p) ∧ fs.node l = none ∧
      (withFolder fs path fault).node l = some .dir := by
  have hchanged : ∃ l, (withFolder fs path fault).node l ≠ fs.node l := by
    by_contra hsame
    exact h (Fs.eq_of_node fun l => not_not.mp (not_exists.mp hsame l))
  rcases hchanged with ⟨l, hl⟩
  have hnew := (withFolder_extends fs path fault l).resolve_left hl
  refine ⟨l, ?_, hnew.1, hnew.2⟩
  intro p hp
  have hparent : ∀ q ∈ parent (pieces path), '/' ∉ q.toList := fun q hq =>
    slash_notMem_of_mem_pieces (parent_subset _ hq)
  have hmade : ∃ ps : List String, (∀ q ∈ ps, '/' ∉ q.toList) ∧
      (fs.createDirAll ps).2.node l ≠ fs.node l := by
    unfold withFolder createFolder at hl
    split at hl
    · exact ⟨_, fun q hq => hparent q (List.mem_of_mem_take hq), hl⟩
    · exact ⟨_, hparent, hl⟩
  rcases hmade with ⟨ps, hslash, hdiff⟩
  have hnul := Fs.hasNul_of_createDirAll hdiff
  rcases Fs.exists_prefix_of_createDirAll hdiff with ⟨pre, hpre, -, rfl⟩
  rcases Fs.mem_lexical hp with hnil | ⟨hmem, hname⟩
  · exact absurd hnil List.not_mem_nil
  · have hps := hpre.subset hmem
    simp only [Fs.hasNul, List.any_eq_false, List.contains_eq_mem, decide_eq_true_eq] at hnul
    exact ⟨hname, hslash p hps, hnul p hps⟩

/-- A new directory gives every file a path that led nowhere before. -/
theorem exists_detour {l : Loc} (hsegments : ∀ p ∈ l, IsSegment p) (hnone : fs.node l = none)
    (hdir : fs'.node l = some .dir) (path : String) :
    ∃ path', storedFile fs path' = none ∧ storedFile fs' path' = storedFile fs' path := by
  have hnames : ∀ p ∈ l, IsName p := fun p hp => (hsegments p hp).1
  have hnul : Fs.hasNul l = false := by
    simp only [Fs.hasNul, List.any_eq_false, List.contains_eq_mem, decide_eq_true_eq]
    exact fun p hp => (hsegments p hp).2.2
  rcases exists_pieces_eq (Fs.detour l ++ pieces path) (by simp [pieces_ne_nil]) (by
    intro p hp
    simp only [Fs.detour, List.mem_append, List.mem_reverse, List.mem_replicate] at hp
    rcases hp with (hp | ⟨-, rfl⟩) | hp
    · exact (hsegments p hp).2.1
    · decide
    · exact slash_notMem_of_mem_pieces hp) with ⟨path', hpath'⟩
  refine ⟨path', ?_, ?_⟩
  · have hstuck := Fs.locate_detour_of_none hnames hnone (pieces_ne_nil path)
    rw [storedFile, hpath']
    split
    · rename_i hlocate
      exact absurd hlocate (hstuck _)
    · rfl
  · refine storedFile_congr ?_ rfl
    rw [hpath', Fs.locate_detour hnames hnul hdir (pieces_ne_nil path)]

/-- The temporary file of a write that fills it is what some path leads to. -/
theorem exists_tempPath (h : OpensTemp fs path fault) :
    ∃ temp, location temp = tempLocation path ∧ LeadsTo (withFolder fs path fault) temp := by
  rcases h with ⟨-, -, name, loc, hlocate⟩
  have hne : tempPath path ≠ [] := by
    rcases (Fs.locate_eq_entry hlocate).2.2.2.2 with ⟨qs, hqs⟩
    simp [hqs]
  have hslash : ∀ p ∈ tempPath path, '/' ∉ p.toList :=
    slash_notMem_of_mem_withExtension (fun _ => slash_notMem_of_mem_pieces) (by decide)
  rcases exists_pieces_eq _ hne hslash with ⟨temp, htemp⟩
  refine ⟨temp, by rw [location, htemp, tempLocation], name, loc, by rw [htemp]; exact hlocate⟩

/-- A failed storage write leaves the files of all paths as they are exactly if it makes no folder,
or there is no file to be reached through it, and it fills no temporary file, or fills it with
what it holds. -/
theorem storedFiles_kept_iff (h : storageWrite fs path content fault = (.error e, fs')) :
    (∀ q, storedFile fs' q = storedFile fs q) ↔
      (withFolder fs path fault = fs ∨ ∀ q, storedFile fs q = none) ∧
        (FillsTemp fs path fault → fs.node (tempLocation path) =
          some (.file (tempLeft content fault))) := by
  have hkeep : Fs.KeepsDirs (withFolder fs path fault) fs' := by
    rcases storageWrite_error_cases h with ⟨-, rfl⟩ | ⟨hfills, hupdate⟩
    · exact fun _ hl => hl
    · exact Fs.keepsDirs_of_update hfills.2 hupdate
  constructor
  · intro hsame
    constructor
    · by_contra hmakes
      rw [not_or, not_forall] at hmakes
      rcases hmakes with ⟨hfolder, q, hq⟩
      rcases exists_new_folder hfolder with ⟨l, hsegments, hnone, hdir⟩
      rcases exists_detour hsegments hnone (hkeep l hdir) q with ⟨q', hbefore, hafter⟩
      exact hq (by rw [← hsame q, ← hafter, hsame q', hbefore])
    · intro hfills
      rcases storageWrite_error_cases h with ⟨hempty, -⟩ | ⟨-, hupdate⟩
      · exact absurd hfills hempty
      · rcases exists_tempPath hfills.1 with ⟨temp, hloc, hleads⟩
        have hread : storedFile fs' temp = some (tempLeft content fault) := by
          refine storedFile_eq_some.mpr ⟨hleads.mono hkeep, ?_⟩
          rw [hloc, hupdate, Function.update_self]
        rw [hsame temp, storedFile_eq_some, hloc] at hread
        exact hread.2
  · rintro ⟨hfolder, htemp⟩
    rcases storageWrite_error_cases h with ⟨-, rfl⟩ | ⟨hfills, hupdate⟩
    · rcases hfolder with hfolder | hnothing
      · intro q
        rw [hfolder]
      · intro q
        rw [hnothing q, Option.eq_none_iff_forall_ne_some]
        intro text hq
        rcases storedFile_eq_some.mp hq with ⟨hleads, hnode⟩
        rw [(withFolder_extends fs path fault).file_iff] at hnode
        rcases exists_path_of_file (isSegment_of_leadsTo hleads) hnode with ⟨q', hq'⟩
        simp [hnothing q'] at hq'
    · have hheld := htemp hfills
      rcases hfolder with hfolder | hnothing
      · have hnode : ∀ l, fs'.node l = fs.node l := by
          intro l
          rw [hupdate, hfolder]
          by_cases hl : l = tempLocation path
          · rw [hl, Function.update_self, hheld]
          · rw [Function.update_of_ne hl]
        intro q
        rw [Fs.eq_of_node hnode]
      · rcases exists_tempPath hfills.1 with ⟨temp, hloc, hleads⟩
        rcases exists_path_of_file (hloc ▸ isSegment_of_leadsTo hleads) hheld with ⟨q', hq'⟩
        simp [hnothing q'] at hq'

end

end Memory
end MemoryHub
