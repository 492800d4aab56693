import MemoryHub.Memory.RawLocation

/-!
# Replacing a file

A storage write fills a temporary file and renames it over the target, so that a reader sees
the old content or the new one wherever the write stops.  The temporary name is the target's
name with another extension; for a file of that extension it is the target itself.

Main results:

- Theorem `storageRead_of_withFolder`: creating the folder does not change what is read.
- Theorem `replaced_whole_iff`: when a write that stops anywhere leaves the old content or the
  new one.
- Theorem `half_replaced`: a file whose temporary name is its own, half written.
-/

namespace MemoryHub
namespace Memory

open UnixPath FileSystem

/-- The file name of the temporary file. -/
def tempName (name : String) : String :=
  fileStem name ++ "." ++ "tmp"

/-! ## What is read -/

/-- A read tells the entries on the path apart. -/
theorem storageRead_eq_iff {fs fs' : Fs} {path : String} :
    storageRead fs' path = storageRead fs path ↔
      fs'.readToString (pieces path) = fs.readToString (pieces path) := by
  constructor
  · intro h
    unfold storageRead at h
    cases hnew : fs'.readToString (pieces path) with
    | ok content =>
        cases hold : fs.readToString (pieces path) with
        | ok content' => simpa [hnew, hold] using h
        | error e => cases e <;> simp [hnew, hold] at h
    | error e =>
        cases hold : fs.readToString (pieces path) with
        | ok content => cases e <;> simp [hnew, hold] at h
        | error e' => cases e <;> cases e' <;> simp_all
  · intro h
    rw [storageRead, storageRead, h]

theorem storageRead_eq_ok_some {fs : Fs} {path content : String} :
    storageRead fs path = .ok (some content) ↔ fs.readToString (pieces path) = .ok content := by
  unfold storageRead
  split <;> simp_all

/-- What reading gives tells entries apart. -/
theorem readEntry_inj {n n' : Option Node} : Fs.readEntry n = Fs.readEntry n' ↔ n = n' := by
  constructor
  · intro h
    rcases n with _ | (_ | (_ | text)) <;> rcases n' with _ | (_ | (_ | text')) <;>
      simp_all [Fs.readEntry]
  · intro h
    rw [h]

/-- Where its folder is there, reading a path gives its entry. -/
theorem readToString_of_leadsTo {fs : Fs} {path : String} (hleads : LeadsTo fs path) :
    fs.readToString (pieces path) = Fs.readEntry (fs.node (location path)) := by
  rcases hleads with ⟨name, loc, hlocate⟩
  have hlex := (Fs.locate_eq_entry hlocate).2.2.2.1
  rw [Fs.readToString, hlocate, location, ← hlex]
  rfl

/-! ## Ordinary raw paths -/

/-- A raw path whose segments are all names. -/
structure IsOrdinaryPath (username agentId project filename path : String) : Prop
    extends IsRawPieces username agentId project filename path where
  project_name : IsName project
  filename_name : IsName filename

section Ordinary

variable {username agentId project filename path : String}

namespace IsOrdinaryPath

theorem of_getRawPath {agentId : Uuid} {project : Option String}
    (huser : Http.validateUsername username = .ok ())
    (h : getRawPath username agentId project filename = .ok path)
    (hordinary : OrdinarySegments project filename) :
    ∃ p, IsOrdinaryPath username agentId.hyphenated p (flattenFilename filename) path := by
  rcases isRawPieces_of_getRawPath huser h with ⟨p, hp, -, hpieces⟩
  rcases (ordinarySegments_iff hp filename).mp hordinary with ⟨hproject, hfile⟩
  exact ⟨p, hpieces, hproject, hfile⟩

variable (h : IsOrdinaryPath username agentId project filename path)

include h

theorem folder_names : ∀ p ∈ [username, agentId, project], IsName p := by
  simp [h.username_name, h.agentId_name, h.project_name]

theorem location_eq : location path = [filename, project, agentId, username] :=
  h.toIsRawPieces.location_eq h.project_name h.filename_name

theorem tempPath_eq : tempPath path = [username, agentId, project, tempName filename] := by
  have hsnoc : pieces path = [username, agentId, project] ++ [filename] := h.pieces_eq
  rw [tempPath, hsnoc, withExtension_snoc h.filename_name]
  rfl

theorem tempLocation_eq : tempLocation path = [tempName filename, project, agentId, username] := by
  have hnames : ∀ p ∈ [username, agentId, project, tempName filename], IsName p := by
    simp [h.username_name, h.agentId_name, h.project_name, tempName, isName_tempName]
  rw [tempLocation, h.tempPath_eq]
  exact Fs.lexical_names hnames []

/-- Making the folder leaves the entry of the file. -/
theorem node_withFolder (fs : Fs) (fault : Option StorageFault) :
    (withFolder fs path fault).node (location path) = fs.node (location path) := by
  apply node_withFolder_of_length
  have hlen := h.parent_prefix.length_le
  rw [h.location_eq]
  simp only [List.length_cons, List.length_nil] at hlen ⊢
  omega

/-- Making the folder does not change what is read. -/
theorem storageRead_withFolder (fs : Fs) (fault : Option StorageFault) :
    storageRead (withFolder fs path fault) path = storageRead fs path := by
  have hnode := h.node_withFolder fs fault
  rw [h.location_eq] at hnode
  rw [storageRead_eq_iff, h.pieces_eq]
  exact Fs.readToString_of_extends_names (withFolder_extends fs path fault) h.folder_names
    h.filename_name hnode

/-- Changing another entry four levels deep does not change what is read. -/
theorem storageRead_of_update {fs fs' : Fs} {l : Loc} {n : Option Node} (hlen : l.length = 4)
    (hne : l ≠ location path) (hupdate : fs'.node = Function.update fs.node l n) :
    storageRead fs' path = storageRead fs path := by
  rw [h.location_eq] at hne
  rw [storageRead_eq_iff, h.pieces_eq]
  refine Fs.readToString_congr h.folder_names h.filename_name ?_
  intro k hk
  have hother : k ≠ l := by
    intro heq
    have hfull := List.IsSuffix.eq_of_length hk (by simp [heq, hlen])
    exact hne (heq ▸ hfull)
  rw [hupdate, Function.update_of_ne hother]

end IsOrdinaryPath

/-! ## Stopping anywhere -/

/-- A write that succeeds has filled its temporary file with the whole content. -/
theorem tempLeft_of_ok {fs fs' : Fs} {content : String} {fault : Option StorageFault}
    (h : storageWrite fs path content fault = (.ok (), fs')) :
    tempLeft content fault = some content := by
  unfold tempLeft
  split
  · -- A write that stops in between fails.
    unfold storageWrite writeTemp at h
    simp only [] at h
    split at h
    · simp at h
    · split at h <;> rename_i hwrite
      · simp at h
      · split at hwrite <;> simp at hwrite
  · rfl

/-- A temporary file that is the file itself is read as it has been left. -/
theorem replaced_self_iff (h : IsOrdinaryPath username agentId project filename path)
    (hname : tempName filename = filename) {fs fs' : Fs} {content : String}
    {fault : Option StorageFault} (hfills : FillsTemp fs path fault)
    (hupdate : fs'.node = Function.update (withFolder fs path fault).node (tempLocation path)
      (some (.file (tempLeft content fault)))) :
    (storageRead fs' path = storageRead fs path ∨ storageRead fs' path = .ok (some content)) ↔
      tempLeft content fault = some content ∨
        fs.node (location path) = some (.file (tempLeft content fault)) := by
  have hloc : tempLocation path = location path := by
    rw [h.tempLocation_eq, h.location_eq, hname]
  have htemp : tempPath path = pieces path := by
    rw [h.tempPath_eq, h.pieces_eq, hname]
  have hleads : LeadsTo (withFolder fs path fault) path := by
    have hopen := hfills.1.2.2
    rwa [htemp] at hopen
  have hleads' : LeadsTo fs' path :=
    hleads.mono (Fs.keepsDirs_of_update hfills.2 hupdate)
  rw [hloc] at hupdate
  -- Both trees give the entry, and the entry is the temporary file.
  have hafter : fs'.readToString (pieces path) =
      Fs.readEntry (some (.file (tempLeft content fault))) := by
    rw [readToString_of_leadsTo hleads', hupdate, Function.update_self]
  have hbefore : (withFolder fs path fault).readToString (pieces path) =
      Fs.readEntry (fs.node (location path)) := by
    rw [readToString_of_leadsTo hleads, h.node_withFolder]
  have hsame : storageRead fs' path = storageRead fs path ↔
      fs.node (location path) = some (.file (tempLeft content fault)) := by
    rw [← h.storageRead_withFolder fs fault, storageRead_eq_iff, hafter, hbefore,
      readEntry_inj, eq_comm]
  have hnew : storageRead fs' path = .ok (some content) ↔
      tempLeft content fault = some content := by
    rw [storageRead_eq_ok_some, hafter]
    cases tempLeft content fault <;> simp [Fs.readEntry]
  rw [hsame, hnew, or_comm]

/-- Whatever a write of an ordinary raw path stops at, what is read afterwards is what was
read before or the new content, exactly if the temporary file is another file, or is not
filled, or is left with the whole new content or with what the file held before.  A call that
fails leaves the same tree as a death right before it. -/
theorem replaced_whole_iff {agentId : Uuid} {project : Option String}
    (huser : Http.validateUsername username = .ok ())
    (hpath : getRawPath username agentId project filename = .ok path)
    (hordinary : OrdinarySegments project filename) {fs fs' : Fs} {content : String}
    {fault : Option StorageFault} {r : Except StorageError Unit}
    (h : storageWrite fs path content fault = (r, fs')) :
    (storageRead fs' path = storageRead fs path ∨ storageRead fs' path = .ok (some content)) ↔
      tempName (flattenFilename filename) ≠ flattenFilename filename ∨
        ¬ FillsTemp fs path fault ∨ tempLeft content fault = some content ∨
          fs.node (location path) = some (.file (tempLeft content fault)) := by
  rcases IsOrdinaryPath.of_getRawPath huser hpath hordinary with ⟨p, hraw⟩
  cases r with
  | ok _ =>
      constructor
      · intro _
        exact Or.inr (Or.inr (Or.inl (tempLeft_of_ok h)))
      · intro _
        exact Or.inr (storageRead_of_content (content_of_write h))
  | error e =>
      rcases storageWrite_error_cases h with ⟨hempty, rfl⟩ | ⟨hfills, hupdate⟩
      · constructor
        · intro _
          exact Or.inr (Or.inl hempty)
        · intro _
          exact Or.inl (hraw.storageRead_withFolder fs fault)
      · by_cases hname : tempName (flattenFilename filename) = flattenFilename filename
        · rw [replaced_self_iff hraw hname hfills hupdate]
          constructor
          · intro hwhole
            exact Or.inr (Or.inr hwhole)
          · rintro (hother | hempty | hwhole)
            · exact absurd hname hother
            · exact absurd hfills hempty
            · exact hwhole
        · constructor
          · intro _
            exact Or.inl hname
          · intro _
            left
            rw [← hraw.storageRead_withFolder fs fault]
            refine hraw.storageRead_of_update ?_ ?_ hupdate
            · rw [hraw.tempLocation_eq]
              rfl
            · rw [hraw.tempLocation_eq, hraw.location_eq]
              simpa using hname

end Ordinary

/-- A file of alice, with an old content. -/
def heldFile (filename : String) : Fs :=
  (storageWrite Fs.empty (rawPath "alice" .nil "_default" filename) "old" none).2

/-- The disk is full after one byte of the new content. -/
def fullDisk : Option StorageFault :=
  some (.writeTemp (some "n") (.other "ENOSPC"))

theorem replaced_whole_iff_note : ∃ r fs',
    storageWrite (heldFile "a.md") (rawPath "alice" .nil "_default" "a.md") "new" fullDisk =
        (r, fs') ∧
      (storageRead fs' (rawPath "alice" .nil "_default" "a.md") =
          storageRead (heldFile "a.md") (rawPath "alice" .nil "_default" "a.md") ∨
        storageRead fs' (rawPath "alice" .nil "_default" "a.md") = .ok (some "new")) := by
  have huser : Http.validateUsername "alice" = .ok () := by decide
  have hordinary : OrdinarySegments none "a.md" := by simp [OrdinarySegments]
  have hname : tempName (flattenFilename "a.md") ≠ flattenFilename "a.md" := by decide
  have hpath : getRawPath "alice" .nil none "a.md" = .ok (rawPath "alice" .nil "_default" "a.md") :=
    rfl
  rcases hwrite : storageWrite (heldFile "a.md") (rawPath "alice" .nil "_default" "a.md") "new"
    fullDisk with ⟨r, fs'⟩
  exact ⟨r, fs', rfl, (replaced_whole_iff huser hpath hordinary hwrite).mpr (Or.inl hname)⟩

/-- The temporary name of `a.tmp` is `a.tmp`: a write that stops half way leaves half the new
content in the file, and the old one is lost. -/
theorem half_replaced :
    getRawPath "alice" .nil none "a.tmp" = .ok (rawPath "alice" .nil "_default" "a.tmp") ∧
      OrdinarySegments none "a.tmp" ∧
      storageRead (heldFile "a.tmp") (rawPath "alice" .nil "_default" "a.tmp") =
        .ok (some "old") ∧
      storageRead (storageWrite (heldFile "a.tmp") (rawPath "alice" .nil "_default" "a.tmp") "new"
        fullDisk).2 (rawPath "alice" .nil "_default" "a.tmp") = .ok (some "n") := by
  refine ⟨rfl, by simp [OrdinarySegments], by decide +kernel, by decide +kernel⟩

end Memory
end MemoryHub
