import MemoryHub.Memory.CycleIsolation
import MemoryHub.Memory.StoreMap

/-!
# The disk in the file tree

To a cycle, storage is a map from paths to contents.  The storage actor keeps it as a tree of
directories and files, writes a summary under a temporary name first, and may leave that
name behind.  Here the tree is shown to represent the map, and to go on doing so throughout
a cycle.

Main results:

- Theorem `storageRead_represents`, `storageWrite_represents`: reading and writing in the tree is
  reading and writing in the map.
- Theorem `storageWrite_succeeds`: without faults, the write of a summary succeeds.
- Theorem `latestName_represents`: whatever else a folder of the tree holds, scanning it finds
  a latest summary of the map.
- Theorem `cycle_tracks`: a tree in which the writes of a cycle are performed represents the disk
  throughout.
-/

namespace MemoryHub
namespace Memory

open UnixPath FileSystem

/-! ## Stored files -/

/-- A file of the store: a raw one, or a summary. -/
inductive StoredFile where
  | raw (key : Key)
  | summary (target : SynthesisTarget) (name : String)

namespace StoredFile

/-- The path by which the actors name the file. -/
def path : StoredFile → String
  | .raw key => key.path
  | .summary target name => summaryPath target name

/-- Where the file's folder lies. -/
def folder : StoredFile → Loc
  | .raw key => [key.project, key.agentId.hyphenated, key.username]
  | .summary target _ => folderNames target

def name : StoredFile → String
  | .raw key => key.filename
  | .summary _ name => name

/-- Where the file lies. -/
def place (f : StoredFile) : Loc :=
  f.name :: f.folder

/-- Where the file lies under its temporary name. -/
def tempPlace (f : StoredFile) : Loc :=
  (fileStem f.name ++ "." ++ "tmp") :: f.folder

/-- A file that requests without dots name, or a cycle writes. -/
def Valid : StoredFile → Prop
  | .raw key => Http.validateUsername key.username = .ok () ∧ key.Ordinary ∧
      key.project ≠ "_synthesized"
  | .summary target name => IsTarget target ∧ IsSummaryName name

variable {f g : StoredFile}

theorem Valid.isSegment_folder (h : f.Valid) : ∀ p ∈ f.folder, IsSegment p := by
  cases f with
  | raw key =>
      rcases h with ⟨-, hkey, -⟩
      simp [folder, hkey.1, hkey.2.1, agentId_segment key.agentId]
  | summary target name => exact isSegment_of_mem_folderNames h.1

theorem Valid.isSegment_name (h : f.Valid) : IsSegment f.name := by
  cases f with
  | raw key => exact h.2.1.2.2
  | summary target name => exact h.2.isSegment

/-- The path's pieces are the names on the way to the file. -/
theorem Valid.pieces_path (h : f.Valid) : pieces f.path = f.folder.reverse ++ [f.name] := by
  cases f with
  | raw key => exact Key.pieces_path h.2.1
  | summary target name =>
      rw [path, summaryPath, pieces_append_slash, pieces_synthesisFolder h.1,
        pieces_eq_singleton h.2.no_slash]
      rfl

theorem Valid.isName_folder (h : f.Valid) : ∀ p ∈ f.folder.reverse, IsName p :=
  fun p hp => (h.isSegment_folder p (List.mem_reverse.mp hp)).1

theorem Valid.hasNul_eq (h : f.Valid) {name : String} (hname : IsSegment name) :
    Fs.hasNul (f.folder.reverse ++ [name]) = false := by
  simp only [Fs.hasNul, List.any_append, List.any_reverse, List.any_cons, List.any_nil,
    Bool.or_false, Bool.or_eq_false_iff, List.any_eq_false, List.contains_eq_mem,
    decide_eq_true_eq, decide_eq_false_iff_not]
  exact ⟨fun p hp => (h.isSegment_folder p hp).2.2, hname.2.2⟩

/-- A name in the file's folder is at its place there. -/
theorem Valid.lexical_eq (h : f.Valid) {name : String} (hname : IsName name) :
    Fs.lexical [] (f.folder.reverse ++ [name]) = name :: f.folder := by
  rw [Fs.lexical_append, Fs.lexical_names h.isName_folder, Fs.lexical_cons_name hname]
  simp [Fs.lexical]

theorem Valid.location_path (h : f.Valid) : location f.path = f.place := by
  rw [location, h.pieces_path, h.lexical_eq h.isSegment_name.1, place]

theorem Valid.tempPath_eq (h : f.Valid) :
    tempPath f.path = f.folder.reverse ++ [fileStem f.name ++ "." ++ "tmp"] := by
  rw [tempPath, h.pieces_path, withExtension_snoc h.isSegment_name.1]

theorem Valid.tempLocation_path (h : f.Valid) : tempLocation f.path = f.tempPlace := by
  rw [tempLocation, h.tempPath_eq, h.lexical_eq (isSegment_tempName h.isSegment_name).1, tempPlace]

/-- The folder of a raw file is no target's. -/
theorem folder_raw_ne {key : Key} (hkey : (raw key).Valid) (target : SynthesisTarget) :
    (raw key).folder ≠ folderNames target := by
  intro h
  cases target with
  | agent username agentId => exact hkey.2.2 (List.cons.inj h).1
  | user username => exact absurd (congrArg List.length h) (by simp [folder, folderNames])
  | global => exact absurd (congrArg List.length h) (by simp [folder, folderNames])

theorem Valid.parent_eq (h : f.Valid) : parent (pieces f.path) = f.folder.reverse := by
  rw [h.pieces_path, parent_snoc h.isSegment_name.1]

/-- Files at one place are the same. -/
theorem Valid.place_inj (hf : f.Valid) (hg : g.Valid) (h : f.place = g.place) : f = g := by
  rcases List.cons.inj h with ⟨hname, hfolder⟩
  cases f with
  | raw key =>
      cases g with
      | raw key' => rw [Key.loc_inj.mp h]
      | summary target name => exact absurd hfolder (folder_raw_ne hf target)
  | summary target name =>
      cases g with
      | raw key => exact absurd hfolder.symm (folder_raw_ne hg target)
      | summary target' name' =>
          rw [folderNames_inj.mp hfolder]
          exact congrArg (summary target') hname

theorem Valid.path_inj (hf : f.Valid) (hg : g.Valid) (h : f.path = g.path) : f = g := by
  apply hf.place_inj hg
  rw [← hf.location_path, ← hg.location_path, h]

/-- The temporary name of a summary is no file's. -/
theorem Valid.tempPlace_ne {target : SynthesisTarget} {name : String} (hg : g.Valid) :
    (summary target name).tempPlace ≠ g.place := by
  intro h
  rcases List.cons.inj h with ⟨hname, hfolder⟩
  cases g with
  | raw key => exact folder_raw_ne hg target hfolder.symm
  | summary target' name' =>
      rcases hg.2.extension with ⟨stem, hstem⟩
      have hends := congrArg (fun s : String => s.toList.getLast?) (hname.trans hstem)
      simp [String.toList_append] at hends

end StoredFile

/-! ## Places of files -/

/-- Files lie on the fourth level, and directly in the folders of summaries. -/
def FilePlace (l : Loc) : Prop :=
  4 ≤ l.length ∨ l.tail.head? = some "_synthesized"

namespace StoredFile

variable {f : StoredFile}

/-- No folder on the way to a file has a folder of summaries above it. -/
theorem Valid.reserved_notMem (h : f.Valid) :
    f.folder.length ≤ 3 ∧ "_synthesized" ∉ f.folder.tail := by
  have hagent : ∀ id : Uuid, "_synthesized" ≠ id.hyphenated := by
    intro id heq
    have hlen := id.length_hyphenated
    rw [← heq] at hlen
    exact absurd hlen (by decide)
  have huser : ∀ username, Http.validateUsername username = .ok () →
      "_synthesized" ≠ username := by
    intro username hvalid
    exact ((Http.validateUsername_eq_ok_iff username).mp hvalid).2.1.symm
  cases f with
  | raw key => simp [folder, hagent, huser _ h.1]
  | summary target name =>
      cases target with
      | agent username agentId =>
          rcases h.1 with ⟨hvalid, id, rfl⟩
          simp [folder, folderNames, hagent, huser _ hvalid]
      | user username => simp [folder, folderNames, huser _ h.1]
      | global => simp [folder, folderNames]

/-- Folders on the way to a file are no places of files. -/
theorem Valid.not_filePlace (h : f.Valid) {l : Loc} (hl : l <:+ f.folder) : ¬ FilePlace l := by
  rcases h.reserved_notMem with ⟨hlen, hreserved⟩
  rintro (hdeep | hhead)
  · have := hl.length_le
    omega
  · apply hreserved
    have hmem : "_synthesized" ∈ l.tail := List.mem_of_head? hhead
    rw [List.suffix_iff_eq_drop.mp hl, List.tail_drop, ← List.drop_tail] at hmem
    exact List.mem_of_mem_drop hmem

/-- What lies in the folder of a file is at a place of files. -/
theorem filePlace_cons_folder (f : StoredFile) (name : String) : FilePlace (name :: f.folder) := by
  cases f with
  | raw key => exact Or.inl (Nat.le_refl 4)
  | summary target _ =>
      right
      cases target <;> rfl

theorem filePlace_place (f : StoredFile) : FilePlace f.place :=
  filePlace_cons_folder f _

theorem filePlace_tempPlace (f : StoredFile) : FilePlace f.tempPlace :=
  filePlace_cons_folder f _

end StoredFile

/-! ## Representation relation -/

/-- The tree represents the disk: its files lie at places of files, and those of the store
hold what the disk has for their paths. -/
structure Represents (fs : Fs) (d : Disk) : Prop where
  folders : ∀ l, ¬ FilePlace l → ∀ text, fs.node l ≠ some (.file text)
  files : ∀ l, FilePlace l → fs.node l ≠ some .dir
  contents : ∀ f : StoredFile, f.Valid →
    fs.node f.place = (d.lookup f.path).map fun content => .file (some content)

/-- The empty tree represents the empty disk. -/
theorem represents_empty : Represents Fs.empty ∅ := by
  constructor
  · intro l _ text
    simp only [Fs.empty]
    split <;> simp
  · intro l hl
    simp only [Fs.empty]
    split <;> rename_i hnil
    · rw [hnil] at hl
      simp [FilePlace] at hl
    · simp
  · intro f _
    simp [Fs.empty, StoredFile.place]

section

variable {fs fs' : Fs} {d : Disk} {f : StoredFile}

theorem Represents.noFileAbove (h : Represents fs d) (hf : f.Valid) : fs.NoFileAbove f.folder :=
  fun l hl => h.folders l (hf.not_filePlace hl)

/-- Reading a file of the store returns what the disk has for its path. -/
theorem storageRead_represents (h : Represents fs d) (hf : f.Valid) :
    storageRead fs f.path = .ok (d.lookup f.path) := by
  have hfolders := h.noFileAbove hf
  rw [← List.reverse_reverse f.folder] at hfolders
  have hread := Fs.readToString_names hf.isName_folder hf.isSegment_name.1
    (hf.hasNul_eq hf.isSegment_name) hfolders
  rw [List.reverse_reverse] at hread
  apply storageRead_of_entry
  rw [hf.pieces_path, hread, ← h.contents f hf, StoredFile.place]

/-! ## Writing -/

/-- Creating the folder of a file leaves what the tree represents. -/
theorem Represents.withFolder (h : Represents fs d) (hf : f.Valid)
    (fault : Option StorageFault) : Represents (withFolder fs f.path fault) d := by
  have hsame : ∀ l, FilePlace l → (Memory.withFolder fs f.path fault).node l = fs.node l := by
    intro l hl
    by_contra hne
    rcases exists_prefix_of_withFolder hne with ⟨pre, hpre, -, rfl⟩
    rw [hf.parent_eq] at hpre
    rw [Fs.lexical_names fun p hp => hf.isName_folder p (hpre.subset hp), List.append_nil] at hl
    apply hf.not_filePlace _ hl
    rw [← List.reverse_reverse f.folder]
    exact List.reverse_suffix.mpr hpre
  constructor
  · intro l hl text
    rw [Ne, (withFolder_extends fs f.path fault).file_iff]
    exact h.folders l hl text
  · intro l hl
    rw [hsame l hl]
    exact h.files l hl
  · intro g hg
    rw [hsame g.place g.filePlace_place]
    exact h.contents g hg

variable {target : SynthesisTarget} {name : String}

/-- A file under the temporary name of a summary is not represented. -/
theorem Represents.update_temp (h : Represents fs d) {left : Option String}
    (hnode : fs'.node = Function.update fs.node (StoredFile.summary target name).tempPlace
      (some (.file left))) : Represents fs' d := by
  constructor
  · intro l hl text
    have hne : l ≠ (StoredFile.summary target name).tempPlace := by
      rintro rfl
      exact hl (StoredFile.filePlace_tempPlace _)
    rw [hnode, Function.update_of_ne hne]
    exact h.folders l hl text
  · intro l hl
    rw [hnode, Function.update_apply]
    split
    · simp
    · exact h.files l hl
  · intro g hg
    rw [hnode, Function.update_of_ne hg.tempPlace_ne.symm]
    exact h.contents g hg

/-- The tree with a new text for a summary, and without its temporary file, represents the disk
with that text. -/
theorem Represents.insert (h : Represents fs d) {content : String}
    (hvalid : (StoredFile.summary target name).Valid)
    (hnodes : ∀ l, fs'.node l =
      if l = (StoredFile.summary target name).place then some (.file (some content))
      else if l = (StoredFile.summary target name).tempPlace then none else fs.node l) :
    Represents fs' (d.insert (summaryPath target name) content) := by
  constructor
  · intro l hl text
    have hplace : l ≠ (StoredFile.summary target name).place := by
      rintro rfl
      exact hl (StoredFile.filePlace_place _)
    have htemp : l ≠ (StoredFile.summary target name).tempPlace := by
      rintro rfl
      exact hl (StoredFile.filePlace_tempPlace _)
    rw [hnodes, if_neg hplace, if_neg htemp]
    exact h.folders l hl text
  · intro l hl
    rw [hnodes]
    split
    · simp
    · split
      · simp
      · exact h.files l hl
  · intro g hg
    rw [hnodes]
    by_cases hsame : g = .summary target name
    · have hlookup : AList.lookup (StoredFile.summary target name).path
          (d.insert (summaryPath target name) content) = some content := AList.lookup_insert d
      rw [hsame, if_pos rfl, hlookup]
      rfl
    · have hplace : g.place ≠ (StoredFile.summary target name).place :=
        fun heq => hsame (hg.place_inj hvalid heq)
      have hpath : g.path ≠ summaryPath target name :=
        fun heq => hsame (hg.path_inj hvalid heq)
      rw [if_neg hplace, if_neg hg.tempPlace_ne.symm, AList.lookup_insert_ne hpath]
      exact h.contents g hg

/-- Writing a summary in the tree is writing it on the disk; a write that fails changes nothing
there. -/
theorem storageWrite_represents (h : Represents fs d)
    (hvalid : (StoredFile.summary target name).Valid) {content : String}
    {fault : Option StorageFault} {r : Except StorageError Unit}
    (hwrite : storageWrite fs (summaryPath target name) content fault = (r, fs')) :
    Represents fs'
      (CycleScript.effect d r.isOk (.storageWrite (summaryPath target name) content)) := by
  have hfolder := h.withFolder hvalid fault
  have hplace := hvalid.location_path
  have htemp := hvalid.tempLocation_path
  change location (summaryPath target name) = _ at hplace
  change tempLocation (summaryPath target name) = _ at htemp
  rcases storageWrite_cases hwrite with
    ⟨⟨e, rfl⟩, rfl | ⟨-, -, left, hupdate⟩⟩ | ⟨rfl, -, -, -, -, hnodes⟩
  · exact hfolder
  · rw [htemp] at hupdate
    exact hfolder.update_temp hupdate
  · rw [hplace, htemp] at hnodes
    exact hfolder.insert hvalid hnodes

/-- Without faults, the folder of a file is created. -/
theorem createFolder_succeeds (h : Represents fs d) (hf : f.Valid) :
    createFolder fs (parent (pieces f.path)) none = (.ok (), withFolder fs f.path none) ∧
      (withFolder fs f.path none).node f.folder = some .dir := by
  have hnul := hf.hasNul_eq hf.isSegment_name
  rw [Fs.hasNul, List.any_append, Bool.or_eq_false_iff] at hnul
  have hfolders : fs.NoFileAbove (f.folder.reverse.reverse ++ []) := by
    rw [List.reverse_reverse, List.append_nil]
    exact h.noFileAbove hf
  have hcreate := Fs.createDirs_names hf.isName_folder fs.root_dir hfolders
  rw [List.reverse_reverse, List.append_nil] at hcreate
  have hsame : createFolder fs (parent (pieces f.path)) none =
      Fs.createDirs fs [] f.folder.reverse := by
    change fs.createDirAll (parent (pieces f.path)) = _
    rw [hf.parent_eq, Fs.createDirAll, Fs.hasNul, hnul.1]
    rfl
  rw [withFolder, hsame]
  exact ⟨Prod.ext hcreate.1 rfl, hcreate.2⟩

/-- Without faults, the write of a file succeeds. -/
theorem storageWrite_succeeds (h : Represents fs d) (hf : f.Valid) (content : String) :
    ∃ fs', storageWrite fs f.path content none = (.ok (), fs') := by
  rcases createFolder_succeeds h hf with ⟨hcreate, hdir⟩
  have hfolder := h.withFolder hf none
  have htempName := isSegment_tempName hf.isSegment_name
  rw [← List.reverse_reverse f.folder] at hdir
  rcases Fs.write_in_dir hf.isName_folder htempName.1 (hf.hasNul_eq htempName) hdir
    (by rw [List.reverse_reverse]; exact hfolder.files _ f.filePlace_tempPlace) (some content)
    with ⟨fs₂, hwrite⟩
  have hnode₂ := (Fs.write_eq_ok hwrite).2.2
  rw [hf.lexical_eq htempName.1] at hnode₂
  have hdir₂ : fs₂.node f.folder.reverse.reverse = some .dir :=
    Fs.write_keepsDirs hwrite _ hdir
  have htemp₂ : fs₂.node ((fileStem f.name ++ "." ++ "tmp") :: f.folder.reverse.reverse) =
      some (.file (some content)) := by
    rw [hnode₂, List.reverse_reverse, Function.update_self]
  have hplace₂ : fs₂.node (f.name :: f.folder.reverse.reverse) ≠ some .dir := by
    rw [hnode₂, List.reverse_reverse, Function.update_apply]
    split
    · simp
    · exact hfolder.files _ f.filePlace_place
  rcases Fs.rename_in_dir hf.isName_folder htempName.1 hf.isSegment_name.1
    (hf.hasNul_eq htempName) (hf.hasNul_eq hf.isSegment_name) hdir₂ htemp₂ hplace₂ with
    ⟨fs₃, hrename⟩
  refine ⟨fs₃, ?_⟩
  unfold storageWrite
  rw [hcreate]
  simp only [writeTemp, renameTemp, hf.tempPath_eq, hwrite, hf.pieces_path, hrename]

/-! ## Listing -/

/-- Among the names in a folder of the tree, those of summaries are the ones the disk has. -/
theorem mem_namesIn_represents (h : Represents fs d) (htarget : IsTarget target)
    (hname : IsSummaryName name) :
    name ∈ d.namesIn (synthesisFolder target) ↔ fs.node (name :: folderNames target) ≠ none := by
  have hnode : fs.node (name :: folderNames target) =
      (d.lookup (summaryPath target name)).map fun content => .file (some content) :=
    h.contents (.summary target name) ⟨htarget, hname⟩
  rw [Disk.mem_namesIn, hnode, Ne, Option.map_eq_none_iff, AList.lookup_eq_none, not_not]
  exact and_iff_right hname.no_slash

/-- Whatever else lies in a folder of the tree, a scan of it finds what a scan of the disk in some
order finds. -/
theorem latestName_represents (h : Represents fs d) (htarget : IsTarget target)
    {names : List String} (hnodup : names.Nodup)
    (hnames : ∀ name, name ∈ names ↔ fs.node (name :: folderNames target) ≠ none) :
    ∃ listed, List.Perm listed (d.namesIn (synthesisFolder target)) ∧
      latestName (names.map some) = latestName (listed.map some) := by
  have hperm : List.Perm (names.filter fun name => (parseFilename name).isSome)
      ((d.namesIn (synthesisFolder target)).filter fun name => (parseFilename name).isSome) := by
    rw [List.perm_ext_iff_of_nodup (hnodup.filter _) ((d.nodup_namesIn _).filter _)]
    intro name
    simp only [List.mem_filter, and_congr_left_iff]
    intro hparses
    rcases Option.isSome_iff_exists.mp hparses with ⟨key, hkey⟩
    rw [hnames, mem_namesIn_represents h htarget (isSummaryName_of_parseFilename hkey)]
  have hothers : ((d.namesIn (synthesisFolder target)).filter fun name =>
      !(parseFilename name).isSome).filter (fun name => (parseFilename name).isSome) = [] := by
    rw [List.filter_eq_nil_iff]
    intro name hname
    simpa using (List.mem_filter.mp hname).2
  refine ⟨_, (hperm.append_right _).trans (List.filter_append_perm _ _), ?_⟩
  rw [latestName_filter names, latestName_filter (_ ++ _), List.filter_append, hothers,
    List.append_nil, List.filter_filter]
  simp only [Bool.and_self]

end

/-! ## Cycles -/

/-- What a call of a cycle does to the tree.  A write that stores nothing has failed, or has not
come to the storage actor. -/
def Performs (fs : Fs) (e : CycleEvent) (fs' : Fs) : Prop :=
  match e.call with
  | .storageWrite path content =>
      (e.stored = false ∧ fs' = fs) ∨
        ∃ fault r, storageWrite fs path content fault = (r, fs') ∧ r.isOk = e.stored
  | _ => fs' = fs

/-- The tree after the calls of a cycle. -/
def Performed : Fs → List CycleEvent → Fs → Prop
  | fs, [], fs' => fs' = fs
  | fs, e :: events, fs' => ∃ fs₁, Performs fs e fs₁ ∧ Performed fs₁ events fs'

/-- A read of a stored file that is answered in the event is answered so from the tree. -/
def AnswersRead (fs : Fs) : CycleEvent → Prop
  | ⟨.storageRead path, .ok content, _, _⟩ =>
      ∀ f : StoredFile, f.Valid → f.path = path → storageRead fs path = .ok content
  | _ => True

/-- The calls can be performed in the tree, and performing them keeps it with the disk: the tree
represents the disk before each call, answers reads as the cycle does, and represents the disk
in the end. -/
structure Tracks (fs : Fs) (s : CycleState) : Prop where
  performable : ∃ fs', Performed fs s.events fs'
  now : ∀ fs', Performed fs s.events fs' → Represents fs' s.disk
  before : ∀ pre e post, s.events = pre ++ e :: post → ∀ fs', Performed fs pre fs' →
    Represents fs' e.disk ∧ AnswersRead fs' e

theorem performed_snoc {fs fs' : Fs} {events : List CycleEvent} {e : CycleEvent} :
    Performed fs (events ++ [e]) fs' ↔ ∃ fs₁, Performed fs events fs₁ ∧ Performs fs₁ e fs' := by
  induction events generalizing fs with
  | nil => simp [Performed]
  | cons first events ih =>
      simp only [List.cons_append, Performed, ih]
      constructor
      · rintro ⟨fs₁, hfirst, fs₂, hrest, he⟩
        exact ⟨fs₂, ⟨fs₁, hfirst, hrest⟩, he⟩
      · rintro ⟨fs₂, ⟨fs₁, hfirst, hrest⟩, he⟩
        exact ⟨fs₁, hfirst, fs₂, hrest, he⟩

/-- A call that serves a target can be performed: a write that stores something without faults. -/
theorem exists_performs {fs : Fs} {d : Disk} {target : SynthesisTarget} (htarget : IsTarget target)
    (h : Represents fs d) {e : CycleEvent}
    (hserves : Synthesizer.Serves (fun _ => True) target e.call) : ∃ fs', Performs fs e fs' := by
  rcases e with ⟨call, response, before, stored⟩
  cases call with
  | storageWrite path content =>
      rcases hserves.2 path content rfl with ⟨name, hname, rfl⟩
      cases stored with
      | false => exact ⟨fs, Or.inl ⟨rfl, rfl⟩⟩
      | true =>
          have hvalid : (StoredFile.summary target name).Valid := ⟨htarget, hname⟩
          rcases storageWrite_succeeds h hvalid content with ⟨fs', hwrite⟩
          exact ⟨fs', Or.inr ⟨none, .ok (), hwrite, rfl⟩⟩
  | storageRead path => exact ⟨fs, rfl⟩
  | embed texts => exact ⟨fs, rfl⟩
  | synthesize asked prior sources => exact ⟨fs, rfl⟩
  | indexInsert msg => exact ⟨fs, rfl⟩
  | readDir folder => exact ⟨fs, rfl⟩
  | fileSize path => exact ⟨fs, rfl⟩
  | today => exact ⟨fs, rfl⟩

/-- Performing a call that serves a target is its effect on the disk. -/
theorem performs_represents {fs fs' : Fs} {d : Disk} {target : SynthesisTarget}
    (htarget : IsTarget target) (h : Represents fs d) {e : CycleEvent}
    (hserves : Synthesizer.Serves (fun _ => True) target e.call) (hperforms : Performs fs e fs') :
    Represents fs' (CycleScript.effect d e.stored e.call) := by
  rcases e with ⟨call, response, before, stored⟩
  cases call with
  | storageWrite path content =>
      rcases hserves.2 path content rfl with ⟨name, hname, rfl⟩
      rcases hperforms with ⟨hstored, rfl⟩ | ⟨fault, r, hwrite, hstored⟩
      · change stored = false at hstored
        rw [hstored]
        exact h
      · change r.isOk = stored at hstored
        rw [← hstored]
        exact storageWrite_represents h ⟨htarget, hname⟩ hwrite
  | storageRead path => exact hperforms ▸ h
  | embed texts => exact hperforms ▸ h
  | synthesize asked prior sources => exact hperforms ▸ h
  | indexInsert msg => exact hperforms ▸ h
  | readDir folder => exact hperforms ▸ h
  | fileSize path => exact hperforms ▸ h
  | today => exact hperforms ▸ h

/-- One call keeps the tree with the disk. -/
theorem handle_tracks {script : CycleScript} {fs : Fs} {target : SynthesisTarget}
    {c : SynthesizerCall} {s : CycleState} (htarget : IsTarget target)
    (hserves : Synthesizer.Serves (fun _ => True) target c) (h : Tracks fs s) :
    Tracks fs (script.handle c s).2 := by
  constructor
  · rcases h.performable with ⟨fs₁, hbefore⟩
    rcases exists_performs htarget (h.now fs₁ hbefore)
      (e := ⟨c, (script.respond s c).1, s.disk, (script.respond s c).2⟩) hserves with ⟨fs', hlast⟩
    exact ⟨fs', performed_snoc.mpr ⟨fs₁, hbefore, hlast⟩⟩
  · intro fs' hperformed
    rcases performed_snoc.mp hperformed with ⟨fs₁, hbefore, hlast⟩
    exact performs_represents htarget (h.now fs₁ hbefore) hserves hlast
  · intro pre e post hsplit fs' hperformed
    change s.events ++ [_] = _ at hsplit
    rcases List.eq_nil_or_concat post with rfl | ⟨post, last, rfl⟩
    · -- The last event is that of the call.
      rcases List.append_inj' hsplit rfl with ⟨rfl, hlast⟩
      rw [← (List.cons.inj hlast).1]
      have hnow := h.now fs' hperformed
      refine ⟨hnow, ?_⟩
      cases c with
      | storageRead path =>
          unfold CycleScript.respond
          cases script.readFails s.events with
          | some e => trivial
          | none =>
              rintro f hf rfl
              exact storageRead_represents hnow hf
      | storageWrite path content => trivial
      | embed texts => trivial
      | synthesize asked prior sources => trivial
      | indexInsert msg => trivial
      | readDir folder => trivial
      | fileSize path => trivial
      | today => trivial
    · have hevents : s.events = pre ++ e :: post := by
        have hshape : pre ++ e :: (post ++ [last]) = (pre ++ e :: post) ++ [last] := by simp
        rw [List.concat_eq_append, hshape] at hsplit
        exact (List.append_inj' hsplit rfl).1
      exact h.before pre e post hevents fs' hperformed

/-- Throughout a cycle, a tree in which its writes are performed represents the disk. -/
theorem cycle_tracks (script : CycleScript) (config : Synthesizer.MemoryConfig)
    (orders : Synthesizer.CycleOrders) {changedFiles : List FileChanged}
    (hchanged : ∀ file ∈ changedFiles, IsNotified file) {fs : Fs} {d : Disk}
    (h : Represents fs d) :
    Tracks fs (script.exec (Synthesizer.process config orders changedFiles) ⟨d, []⟩).2 := by
  refine cycle_keeps hchanged (fun target c s htarget hserves hs =>
    handle_tracks htarget hserves hs) ?_
  constructor
  · exact ⟨fs, rfl⟩
  · rintro fs' rfl
    exact h
  · intro pre e post hsplit
    simp at hsplit

end Memory
end MemoryHub
