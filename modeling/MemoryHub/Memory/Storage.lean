import MemoryHub.Memory.Path

/-!
# Storage

The storage actor writes a file under a temporary name beside its target and renames
it.  Its root directory is the root of the file tree, so a relative path is resolved
by its pieces.

Main results:

- Theorem `storageWrite_cases`: a write, successful or not, touches the files at its
  target and at its temporary name only; after success the target holds the content
  and the temporary name is gone.
- Theorem `storageDelete_cases`: a delete touches the file at its target only.
- Theorem `content_of_write`, `content_kept_of_write`, `content_kept_of_delete`: what the
  calls do to the content of a path.
- Theorem `storageContent_eq_some`: what a path holds is the file at its location, if
  the path leads there.
-/

namespace MemoryHub
namespace Memory

open UnixPath FileSystem

/-! ## Handlers -/

/-- A system call that fails although the tree would let it succeed.  Directories may
have been created up to some piece, and the temporary file may have been left with
any bytes. -/
inductive StorageFault where
  | createDirs (created : Nat) (e : IoError)
  | openTemp (e : IoError)
  | writeTemp (left : Option String) (e : IoError)
  | rename (e : IoError)
  | remove (e : IoError)
deriving DecidableEq, Repr

/-- `fs::create_dir_all(parent)`. -/
def createFolder (fs : Fs) (folder : List String) (fault : Option StorageFault) :
    Except IoError Unit × Fs :=
  match fault with
  | some (.createDirs created e) => (.error e, (fs.createDirAll (folder.take created)).2)
  | _ => fs.createDirAll folder

/-- `fs::write(&tmp_path, &msg.content)`. -/
def writeTemp (fs : Fs) (tmp : List String) (content : String) (fault : Option StorageFault) :
    Except IoError Unit × Fs :=
  match fault with
  | some (.openTemp e) => (.error e, fs)
  | some (.writeTemp left e) =>
      match fs.write tmp left with
      | .ok fs' => (.error e, fs')
      | .error e' => (.error e', fs)
  | _ =>
      match fs.write tmp (some content) with
      | .ok fs' => (.ok (), fs')
      | .error e => (.error e, fs)

/-- `fs::rename(&tmp_path, &path)`. -/
def renameTemp (fs : Fs) (tmp target : List String) (fault : Option StorageFault) :
    Except IoError Unit × Fs :=
  match fault with
  | some (.rename e) => (.error e, fs)
  | _ =>
      match fs.rename tmp target with
      | .ok fs' => (.ok (), fs')
      | .error e => (.error e, fs)

/-- `path.with_extension("tmp")`. -/
def tempPath (path : String) : List String :=
  withExtension (pieces path) "tmp"

/-- `Handler<StorageWrite>`. -/
def storageWrite (fs : Fs) (path content : String) (fault : Option StorageFault) :
    Except StorageError Unit × Fs :=
  match createFolder fs (parent (pieces path)) fault with
  | (.error e, fs₁) => (.error ⟨pieces path, e⟩, fs₁)
  | (.ok (), fs₁) =>
      match writeTemp fs₁ (tempPath path) content fault with
      | (.error e, fs₂) => (.error ⟨tempPath path, e⟩, fs₂)
      | (.ok (), fs₂) =>
          match renameTemp fs₂ (tempPath path) (pieces path) fault with
          | (.error e, fs₃) => (.error ⟨pieces path, e⟩, fs₃)
          | (.ok (), fs₃) => (.ok (), fs₃)

/-- `Handler<StorageRead>`. -/
def storageRead (fs : Fs) (path : String) : Except StorageError (Option String) :=
  match fs.readToString (pieces path) with
  | .ok content => .ok (some content)
  | .error .notFound => .ok none
  | .error e => .error ⟨pieces path, e⟩

/-- `Handler<StorageDelete>`. -/
def storageDelete (fs : Fs) (path : String) (fault : Option StorageFault) :
    Except StorageError Unit × Fs :=
  match fault with
  | some (.remove e) => (.error ⟨pieces path, e⟩, fs)
  | _ =>
      match fs.unlink (pieces path) with
      | .ok fs' => (.ok (), fs')
      | .error .notFound => (.ok (), fs)
      | .error e => (.error ⟨pieces path, e⟩, fs)

/-! ## Locations -/

/-- The location a path names. -/
def location (path : String) : Loc :=
  Fs.lexical [] (pieces path)

/-- The location of a path's temporary name. -/
def tempLocation (path : String) : Loc :=
  Fs.lexical [] (tempPath path)

/-- The directories on the way to the path's last piece exist. -/
def LeadsTo (fs : Fs) (path : String) : Prop :=
  ∃ name loc, fs.locate (pieces path) = .ok (.entry name loc)

/-- What a read of the path returns; nothing if it fails. -/
def storageContent (fs : Fs) (path : String) : Option String :=
  match storageRead fs path with
  | .ok content => content
  | .error _ => none

theorem LeadsTo.mono {fs fs' : Fs} (hkeep : fs.KeepsDirs fs') {path : String}
    (h : LeadsTo fs path) : LeadsTo fs' path := by
  rcases h with ⟨name, loc, hloc⟩
  exact ⟨name, loc, Fs.locate_mono hkeep hloc⟩

/-- A path holds the file at its location, if it leads there. -/
theorem storageContent_eq_some {fs : Fs} {path content : String} :
    storageContent fs path = some content ↔
      LeadsTo fs path ∧ fs.node (location path) = some (.file (some content)) := by
  unfold storageContent storageRead
  rw [LeadsTo, location, ← Fs.readToString_eq_ok]
  cases fs.readToString (pieces path) with
  | ok text => simp
  | error e => cases e <;> simp

/-- A path that holds a content is read. -/
theorem storageRead_of_content {fs : Fs} {path content : String}
    (h : storageContent fs path = some content) : storageRead fs path = .ok (some content) := by
  unfold storageContent at h
  split at h <;> rename_i hread
  · rw [hread, h]
  · contradiction

/-- Reading an entry that is a text, or is not there. -/
theorem storageRead_of_entry {fs : Fs} {path : String} {content : Option String}
    (h : fs.readToString (pieces path) =
      Fs.readEntry (content.map fun text => .file (some text))) :
    storageRead fs path = .ok content := by
  rw [storageRead, h]
  cases content with
  | none => rfl
  | some text => rfl

/-- An empty tree holds nothing. -/
theorem storageContent_empty (path : String) : storageContent Fs.empty path = none := by
  apply Option.eq_none_iff_forall_ne_some.mpr
  intro c hc
  have hnode := (storageContent_eq_some.mp hc).2
  simp only [Fs.empty] at hnode
  split at hnode <;> simp at hnode

/-! ## Writing -/

theorem createFolder_extends (fs : Fs) (folder : List String) (fault : Option StorageFault) :
    Fs.Extends fs (createFolder fs folder fault).2 := by
  unfold createFolder
  split
  · exact Fs.createDirAll_extends fs _
  · exact Fs.createDirAll_extends fs folder

/-- What is left in a temporary file that has been opened. -/
def tempLeft (content : String) : Option StorageFault → Option String
  | some (.writeTemp left _) => left
  | _ => some content

/-- A temporary file can be opened: no call fails, and its name leads to no directory. -/
def Opens (fs : Fs) (tmp : List String) (fault : Option StorageFault) : Prop :=
  (∀ e, fault ≠ some (.openTemp e)) ∧ (∃ name loc, fs.locate tmp = .ok (.entry name loc)) ∧
    fs.node (Fs.lexical [] tmp) ≠ some .dir

/-- Writing the temporary file changes nothing, or leaves a file there. -/
theorem writeTemp_cases {fs fs' : Fs} {tmp : List String} {content : String}
    {fault : Option StorageFault} {r : Except IoError Unit}
    (h : writeTemp fs tmp content fault = (r, fs')) :
    (¬ Opens fs tmp fault ∧ (∃ e, r = .error e) ∧ fs' = fs) ∨
      (Opens fs tmp fault ∧ (r = .ok () → tempLeft content fault = some content) ∧
        fs'.node = Function.update fs.node (Fs.lexical [] tmp)
          (some (.file (tempLeft content fault)))) := by
  -- A write that fails has not been opened.
  have hclosed : ∀ {text : Option String} {e : IoError}, fs.write tmp text = .error e →
      ¬ Opens fs tmp fault := by
    rintro text e hwrite ⟨-, ⟨name, loc, hlocate⟩, hfile⟩
    rcases Fs.exists_write hlocate hfile text with ⟨fs₁, hok⟩
    rw [hwrite] at hok
    contradiction
  unfold writeTemp at h
  split at h
  · cases h
    exact Or.inl ⟨fun hopens => hopens.1 _ rfl, ⟨_, rfl⟩, rfl⟩
  · split at h <;> rename_i hwrite
    · cases h
      rcases Fs.write_eq_ok hwrite with ⟨hloc, hnode, hupdate⟩
      exact Or.inr ⟨⟨by simp, hloc, hnode⟩, by simp, hupdate⟩
    · cases h
      exact Or.inl ⟨hclosed hwrite, ⟨_, rfl⟩, rfl⟩
  · rename_i hopen hleft
    have htext : tempLeft content fault = some content := by
      unfold tempLeft
      split
      · exact absurd rfl (hleft _ _)
      · rfl
    split at h <;> rename_i hwrite
    · cases h
      rcases Fs.write_eq_ok hwrite with ⟨hloc, hnode, hupdate⟩
      exact Or.inr ⟨⟨hopen, hloc, hnode⟩, fun _ => htext, by rw [htext]; exact hupdate⟩
    · cases h
      exact Or.inl ⟨hclosed hwrite, ⟨_, rfl⟩, rfl⟩

/-- Renaming the temporary file fails and changes nothing, or moves the file. -/
theorem renameTemp_cases {fs fs' : Fs} {tmp target : List String}
    {fault : Option StorageFault} {r : Except IoError Unit}
    (h : renameTemp fs tmp target fault = (r, fs')) :
    ((∃ e, r = .error e) ∧ fs' = fs) ∨ (r = .ok () ∧ fs.rename tmp target = .ok fs') := by
  unfold renameTemp at h
  split at h
  · cases h
    exact Or.inl ⟨⟨_, rfl⟩, rfl⟩
  · split at h <;> rename_i hrename
    · cases h
      exact Or.inr ⟨rfl, hrename⟩
    · cases h
      exact Or.inl ⟨⟨_, rfl⟩, rfl⟩

/-- The tree after the first step of a write: the folder has been created. -/
def withFolder (fs : Fs) (path : String) (fault : Option StorageFault) : Fs :=
  (createFolder fs (parent (pieces path)) fault).2

theorem withFolder_extends (fs : Fs) (path : String) (fault : Option StorageFault) :
    Fs.Extends fs (withFolder fs path fault) :=
  createFolder_extends fs _ fault

/-- What creating the folder changes is reached by a part of its path. -/
theorem exists_prefix_of_withFolder {fs : Fs} {path : String} {fault : Option StorageFault}
    {l : Loc} (h : (withFolder fs path fault).node l ≠ fs.node l) :
    ∃ pre, pre <+: parent (pieces path) ∧ pre ≠ [] ∧ l = Fs.lexical [] pre := by
  unfold withFolder createFolder at h
  split at h
  · rcases Fs.exists_prefix_of_createDirAll h with ⟨pre, hpre, hne, hl⟩
    exact ⟨pre, hpre.trans (List.take_prefix _ _), hne, hl⟩
  · exact Fs.exists_prefix_of_createDirAll h

/-- Creating the folder leaves the entries that lie deeper than the folder. -/
theorem node_withFolder_of_length {fs : Fs} {path : String} {fault : Option StorageFault} {l : Loc}
    (hl : (parent (pieces path)).length < l.length) :
    (withFolder fs path fault).node l = fs.node l := by
  by_contra hne
  rcases exists_prefix_of_withFolder hne with ⟨pre, hpre, -, rfl⟩
  have hdepth := Fs.length_lexical_le [] pre
  have hlen := hpre.length_le
  simp only [List.length_nil] at hdepth
  omega

/-- A write gets as far as its temporary file. -/
def OpensTemp (fs : Fs) (path : String) (fault : Option StorageFault) : Prop :=
  (createFolder fs (parent (pieces path)) fault).1 = .ok () ∧
    (∀ e, fault ≠ some (.openTemp e)) ∧
      ∃ name loc, (withFolder fs path fault).locate (tempPath path) = .ok (.entry name loc)

/-- Writing the temporary file and renaming it puts the content at the target. -/
theorem written_of_rename {fs₁ fs₂ fs₃ : Fs} {path content : String} {left : Option String}
    (hnode : fs₁.node (tempLocation path) ≠ some .dir)
    (hupdate : fs₂.node =
      Function.update fs₁.node (tempLocation path) (some (.file left)))
    (hleft : left = some content)
    (hrename : fs₂.rename (tempPath path) (pieces path) = .ok fs₃) :
    LeadsTo fs₃ path ∧ fs₁.node (location path) ≠ some .dir ∧
      ∀ l, fs₃.node l =
        if l = location path then some (.file (some content))
        else if l = tempLocation path then none
        else fs₁.node l := by
  rcases Fs.rename_eq_ok hrename with ⟨⟨name, loc, hloc⟩, text, htext, htarget, hnodes⟩
  change fs₂.node (tempLocation path) = _ at htext
  change fs₂.node (location path) ≠ _ at htarget
  change ∀ l, fs₃.node l = if l = location path then _ else if l = tempLocation path then _ else _
    at hnodes
  have htextEq : text = some content := by
    rw [hupdate, Function.update_self, hleft] at htext
    simpa using htext.symm
  refine ⟨⟨name, loc, Fs.locate_mono ?_ hloc⟩, ?_, ?_⟩
  · intro l hl
    have hne : l ≠ location path := by
      intro heq
      exact htarget (heq ▸ hl)
    have hnt : l ≠ tempLocation path := by
      intro heq
      rw [heq, htext] at hl
      simp at hl
    rw [hnodes l, if_neg hne, if_neg hnt, hl]
  · intro hdir
    by_cases hsame : location path = tempLocation path
    · exact hnode (hsame ▸ hdir)
    · rw [hupdate, Function.update_of_ne hsame] at htarget
      exact htarget hdir
  · intro l
    rw [hnodes l, htextEq, hupdate]
    by_cases htl : l = tempLocation path
    · rw [if_pos htl, if_pos htl]
    · rw [if_neg htl, if_neg htl, Function.update_of_ne htl]

/-- What a write can do: a failed one leaves the folder and perhaps a temporary file;
a successful one puts the content at the target and leaves no temporary file. -/
theorem storageWrite_cases {fs fs' : Fs} {path content : String} {fault : Option StorageFault}
    {r : Except StorageError Unit} (h : storageWrite fs path content fault = (r, fs')) :
    ((∃ e, r = .error e) ∧
        (fs' = withFolder fs path fault ∨
          (OpensTemp fs path fault ∧
            (withFolder fs path fault).node (tempLocation path) ≠ some .dir ∧ ∃ left,
              fs'.node = Function.update (withFolder fs path fault).node (tempLocation path)
                (some (.file left))))) ∨
      (r = .ok () ∧ OpensTemp fs path fault ∧ LeadsTo fs' path ∧
        (withFolder fs path fault).node (tempLocation path) ≠ some .dir ∧
        (withFolder fs path fault).node (location path) ≠ some .dir ∧
        ∀ l, fs'.node l =
          if l = location path then some (.file (some content))
          else if l = tempLocation path then none
          else (withFolder fs path fault).node l) := by
  unfold storageWrite at h
  unfold OpensTemp withFolder
  rcases hfolder : createFolder fs (parent (pieces path)) fault with ⟨r₁, fs₁⟩
  rw [hfolder] at h
  cases r₁ with
  | error e =>
      cases h
      exact Or.inl ⟨⟨_, rfl⟩, Or.inl rfl⟩
  | ok _ =>
      rcases htemp : writeTemp fs₁ (tempPath path) content fault with ⟨r₂, fs₂⟩
      simp only [htemp] at h
      cases r₂ with
      | error e =>
          cases h
          rcases writeTemp_cases htemp with ⟨-, -, heq⟩ | ⟨⟨hopen, hloc, hnode⟩, -, hupdate⟩
          · exact Or.inl ⟨⟨_, rfl⟩, Or.inl heq⟩
          · exact Or.inl ⟨⟨_, rfl⟩, Or.inr ⟨⟨rfl, hopen, hloc⟩, hnode, _, hupdate⟩⟩
      | ok _ =>
          rcases writeTemp_cases htemp with
            ⟨-, ⟨e, he⟩, -⟩ | ⟨⟨hopen, hloc, hnode⟩, hleft, hupdate⟩
          · contradiction
          · rcases hrename : renameTemp fs₂ (tempPath path) (pieces path) fault with ⟨r₃, fs₃⟩
            simp only [hrename] at h
            cases r₃ with
            | error e =>
                cases h
                rcases renameTemp_cases hrename with ⟨-, heq⟩ | ⟨hr, -⟩
                · exact Or.inl ⟨⟨_, rfl⟩, Or.inr ⟨⟨rfl, hopen, hloc⟩, hnode, _, heq ▸ hupdate⟩⟩
                · contradiction
            | ok _ =>
                cases h
                rcases renameTemp_cases hrename with ⟨⟨e, he⟩, -⟩ | ⟨-, hok⟩
                · contradiction
                · rcases written_of_rename hnode hupdate (hleft rfl) hok with
                    ⟨hleads, htarget, hnodes⟩
                  exact Or.inr ⟨rfl, ⟨rfl, hopen, hloc⟩, hleads, hnode, htarget, hnodes⟩

/-- A write fills its temporary file, with its content or a part of it. -/
def FillsTemp (fs : Fs) (path : String) (fault : Option StorageFault) : Prop :=
  OpensTemp fs path fault ∧ (withFolder fs path fault).node (tempLocation path) ≠ some .dir

/-- What a failed write leaves: the folder, and the temporary file if it got that far. -/
theorem storageWrite_error_cases {fs fs' : Fs} {path content : String}
    {fault : Option StorageFault} {e : StorageError}
    (h : storageWrite fs path content fault = (.error e, fs')) :
    (¬ FillsTemp fs path fault ∧ fs' = withFolder fs path fault) ∨
      (FillsTemp fs path fault ∧ fs'.node = Function.update (withFolder fs path fault).node
        (tempLocation path) (some (.file (tempLeft content fault)))) := by
  unfold storageWrite at h
  unfold FillsTemp OpensTemp withFolder
  rcases hfolder : createFolder fs (parent (pieces path)) fault with ⟨r₁, fs₁⟩
  rw [hfolder] at h
  cases r₁ with
  | error e₁ =>
      cases h
      exact Or.inl ⟨by simp, rfl⟩
  | ok _ =>
      rcases htemp : writeTemp fs₁ (tempPath path) content fault with ⟨r₂, fs₂⟩
      simp only [htemp] at h
      rcases writeTemp_cases htemp with
        ⟨hclosed, ⟨e₂, rfl⟩, rfl⟩ | ⟨⟨hopen, hloc, hnode⟩, -, hupdate⟩
      · cases h
        refine Or.inl ⟨?_, rfl⟩
        rintro ⟨⟨-, hopen, hloc⟩, hnode⟩
        exact hclosed ⟨hopen, hloc, hnode⟩
      · -- Renaming can only fail without effect.
        have hsame : fs' = fs₂ := by
          cases r₂ with
          | error e₂ =>
              cases h
              rfl
          | ok _ =>
              rcases hrename : renameTemp fs₂ (tempPath path) (pieces path) fault with ⟨r₃, fs₃⟩
              simp only [hrename] at h
              rcases renameTemp_cases hrename with ⟨⟨e₃, rfl⟩, rfl⟩ | ⟨rfl, -⟩
              · cases h
                rfl
              · simp at h
        rw [hsame]
        exact Or.inr ⟨⟨⟨rfl, hopen, hloc⟩, hnode⟩, hupdate⟩

/-- A write keeps all directories. -/
theorem storageWrite_keepsDirs {fs fs' : Fs} {path content : String}
    {fault : Option StorageFault} {r : Except StorageError Unit}
    (h : storageWrite fs path content fault = (r, fs')) : Fs.KeepsDirs fs fs' := by
  have hfolder : Fs.KeepsDirs fs (withFolder fs path fault) :=
    (withFolder_extends fs path fault).keepsDirs
  rcases storageWrite_cases h with
    ⟨-, heq | ⟨-, hnode, left, hupdate⟩⟩ | ⟨-, -, -, htemp, htarget, hnodes⟩
  · rw [heq]
    exact hfolder
  · exact hfolder.trans (Fs.keepsDirs_of_update hnode hupdate)
  · apply hfolder.trans
    intro l hl
    rw [hnodes l, if_neg (by rintro rfl; exact htarget hl), if_neg (by rintro rfl; exact htemp hl),
      hl]

/-- A successful write leaves its content at the path. -/
theorem content_of_write {fs fs' : Fs} {path content : String} {fault : Option StorageFault}
    (h : storageWrite fs path content fault = (.ok (), fs')) :
    storageContent fs' path = some content := by
  rcases storageWrite_cases h with ⟨⟨e, he⟩, -⟩ | ⟨-, -, hleads, -, -, hnodes⟩
  · contradiction
  · exact storageContent_eq_some.mpr ⟨hleads, by rw [hnodes, if_pos rfl]⟩

/-- A write keeps the content of every other location, unless that is its temporary
name. -/
theorem content_kept_of_write {fs fs' : Fs} {path content : String}
    {fault : Option StorageFault} {r : Except StorageError Unit}
    (h : storageWrite fs path content fault = (r, fs')) {other c : String}
    (hcontent : storageContent fs other = some c)
    (htarget : r = .ok () → location other = location path → c = content)
    (htemp : OpensTemp fs path fault → location other = tempLocation path →
      r = .ok () ∧ location path = tempLocation path) :
    storageContent fs' other = some c := by
  rcases storageContent_eq_some.mp hcontent with ⟨hleads, hnode⟩
  refine storageContent_eq_some.mpr ⟨hleads.mono (storageWrite_keepsDirs h), ?_⟩
  have hfolder : (withFolder fs path fault).node (location other) = some (.file (some c)) :=
    (withFolder_extends fs path fault).file_iff.mpr hnode
  rcases storageWrite_cases h with
    ⟨⟨e, he⟩, heq | ⟨hopens, -, left, hupdate⟩⟩ | ⟨hok, hopens, -, -, -, hnodes⟩
  · rw [heq, hfolder]
  · have hloc : location other ≠ tempLocation path := by
      intro heq
      rw [(htemp hopens heq).1] at he
      contradiction
    rw [hupdate, Function.update_of_ne hloc, hfolder]
  · rw [hnodes]
    by_cases hloc : location other = location path
    · rw [if_pos hloc, htarget hok hloc]
    · have hloc' : location other ≠ tempLocation path := by
        intro heq
        exact hloc (heq.trans (htemp hopens heq).2.symm)
      rw [if_neg hloc, if_neg hloc', hfolder]

/-! ## Deleting -/

/-- What a delete can do: nothing, or take the file at its target away.  It is
successful without effect when nothing is found. -/
theorem storageDelete_cases {fs fs' : Fs} {path : String} {fault : Option StorageFault}
    {r : Except StorageError Unit} (h : storageDelete fs path fault = (r, fs')) :
    ((∃ e, r = .error e) ∧ fs' = fs) ∨
      (r = .ok () ∧ fs' = fs ∧ storageRead fs path = .ok none) ∨
      (r = .ok () ∧ (∀ e, fault ≠ some (.remove e)) ∧ LeadsTo fs path ∧
        (∃ text, fs.node (location path) = some (.file text)) ∧
          fs'.node = Function.update fs.node (location path) none) := by
  unfold storageDelete at h
  split at h
  · cases h
    exact Or.inl ⟨⟨_, rfl⟩, rfl⟩
  · rename_i hremove
    cases hunlink : fs.unlink (pieces path) with
    | ok fs₁ =>
        simp only [hunlink] at h
        cases h
        rcases Fs.unlink_eq_ok hunlink with ⟨hleads, hnode, hupdate⟩
        exact Or.inr (Or.inr ⟨rfl, hremove, hleads, hnode, hupdate⟩)
    | error e =>
        cases e with
        | notFound =>
            simp only [hunlink] at h
            cases h
            refine Or.inr (Or.inl ⟨rfl, rfl, ?_⟩)
            have hread : fs.readToString (pieces path) = .error .notFound :=
              Fs.readToString_of_unlink_notFound hunlink
            rw [storageRead, hread]
        | notADirectory | isADirectory | alreadyExists | invalidInput | invalidData | other _ =>
            simp only [hunlink] at h
            cases h
            exact Or.inl ⟨⟨_, rfl⟩, rfl⟩

/-- A delete keeps the content of every other location. -/
theorem content_kept_of_delete {fs fs' : Fs} {path : String} {fault : Option StorageFault}
    {r : Except StorageError Unit} (h : storageDelete fs path fault = (r, fs'))
    {other c : String} (hcontent : storageContent fs other = some c)
    (hloc : (∀ e, fault ≠ some (.remove e)) → LeadsTo fs path →
      location other ≠ location path) : storageContent fs' other = some c := by
  rcases storageDelete_cases h with
    ⟨-, rfl⟩ | ⟨-, rfl, -⟩ | ⟨-, hremove, hleads, ⟨text, htext⟩, hupdate⟩
  · exact hcontent
  · exact hcontent
  · rcases storageContent_eq_some.mp hcontent with ⟨hother, hnode⟩
    have hkeep : Fs.KeepsDirs fs fs' := Fs.keepsDirs_of_update (by simp [htext]) hupdate
    refine storageContent_eq_some.mpr ⟨hother.mono hkeep, ?_⟩
    rw [hupdate, Function.update_of_ne (hloc hremove hleads), hnode]

/-- A successful delete leaves nothing at the path. -/
theorem content_of_deleted {fs fs' : Fs} {path : String} {fault : Option StorageFault}
    (h : storageDelete fs path fault = (.ok (), fs')) : storageContent fs' path = none := by
  rcases storageDelete_cases h with ⟨⟨e, he⟩, -⟩ | ⟨-, rfl, hread⟩ | ⟨-, -, -, -, hupdate⟩
  · contradiction
  · rw [storageContent, hread]
  · apply Option.eq_none_iff_forall_ne_some.mpr
    intro c hc
    have hnode := (storageContent_eq_some.mp hc).2
    rw [hupdate, Function.update_self] at hnode
    contradiction

end Memory
end MemoryHub
