import MemoryHub.Memory.FileOp

/-!
# Where raw paths lead

A raw path is written as `username/agent_id/project/filename` and resolved by the operating
system, after the temporary name and the folder to create have been derived from it.  The
project and the file name may be dots, and the file name may be empty, so the path need not
lead where it reads.

Main results:

- Theorem `rawPath_keepsToProject_iff`: a raw path leads to a file of its own project folder,
  and into no synthesis folder, exactly if neither of its last two segments is empty or made of
  dots.
- Theorem `handlers_stayInside`: whatever the segments, no request touches a file outside of
  its user's folder.
-/

namespace MemoryHub
namespace Memory

open UnixPath FileSystem

/-! ## The segments of a raw path -/

/-- The location lies strictly inside the user's folder. -/
def StrictlyInside (username : String) (l : Loc) : Prop :=
  ∃ names, names ≠ [] ∧ l = names ++ [username]

/-- What is known of the pieces of a raw path: the user's and the agent's segments are
names, the others may be dots. -/
structure IsRawPieces (username agentId project filename : String) (path : String) : Prop where
  username_name : IsName username
  agentId_name : IsName agentId
  project_ne_empty : project ≠ ""
  pieces_eq : pieces path = [username, agentId, project, filename]

theorem isRawPieces_of_getRawPath {username filename path : String} {agentId : Uuid}
    {project : Option String} (huser : Http.validateUsername username = .ok ())
    (h : getRawPath username agentId project filename = .ok path) :
    ∃ p, resolveProject project = .ok p ∧ IsProject p ∧
      IsRawPieces username agentId.hyphenated p (flattenFilename filename) path := by
  rcases getRawPath_eq_rawPath h with ⟨p, hp, rfl⟩
  have hproject := isProject_of_resolveProject hp
  have huserSegment := username_segment huser
  refine ⟨p, hp, hproject, huserSegment.1, (agentId_segment agentId).1, hproject.ne_empty, ?_⟩
  exact pieces_rawPath huserSegment.2.1 hproject.no_slash
    (separator_notMem_flattenFilename filename (Or.inl rfl))

/-! ## The project folder -/

/-- Neither of the last two segments is empty or made of dots. -/
def OrdinarySegments (project : Option String) (filename : String) : Prop :=
  (∀ p, project = some p → RustStr.trim p ≠ "." ∧ RustStr.trim p ≠ "..") ∧
    filename ≠ "" ∧ filename ≠ "." ∧ filename ≠ ".."

/-- The path leads to a file of a project folder of the agent. -/
def StaysInProject (username : String) (agentId : Uuid) (path : String) : Prop :=
  ∃ folder file, IsName folder ∧ IsName file ∧ folder ≠ "_synthesized" ∧
    location path = [file, folder, agentId.hyphenated, username]

/-- Flattening leaves its mark, an underscore, on every name it changes. -/
theorem flattenFilename_eq_iff {name : String} (hname : '_' ∉ name.toList)
    (hclean : flattenFilename name = name) (filename : String) :
    flattenFilename filename = name ↔ filename = name := by
  constructor
  · intro h
    have hsame : flattenFilename filename = filename := by
      apply flattenFilename_eq_self
      intro c hc hmem
      apply hname
      rw [← h, flattenFilename, String.toList_ofList]
      exact List.mem_map.mpr ⟨c, hmem, if_pos hc⟩
    exact hsame.symm.trans h
  · rintro rfl
    exact hclean

theorem isName_flattenFilename {filename : String} :
    IsName (flattenFilename filename) ↔ filename ≠ "" ∧ filename ≠ "." ∧ filename ≠ ".." := by
  have hempty : flattenFilename filename = "" ↔ filename = "" :=
    flattenFilename_eq_iff (by decide) (by decide) filename
  have hdot : flattenFilename filename = "." ↔ filename = "." :=
    flattenFilename_eq_iff (by decide) (by decide) filename
  have hdots : flattenFilename filename = ".." ↔ filename = ".." :=
    flattenFilename_eq_iff (by decide) (by decide) filename
  rw [IsName, Ne, hempty, Ne, hdot, Ne, hdots]

theorem isName_resolveProject {project : Option String} {p : String}
    (h : resolveProject project = .ok p) :
    IsName p ↔ ∀ q, project = some q → RustStr.trim q ≠ "." ∧ RustStr.trim q ≠ ".." := by
  have hdefault : IsName defaultProject := by decide
  cases project with
  | none =>
      cases h
      simp [hdefault]
  | some q =>
      rcases resolveProject_some_eq_ok.mp h with ⟨-, rfl⟩
      split <;> rename_i hempty
      · simp [hdefault, hempty]
      · constructor
        · rintro hname r hr
          rw [← Option.some.inj hr]
          exact hname.2
        · intro hdots
          exact ⟨hempty, hdots q rfl⟩

theorem ordinarySegments_iff {project : Option String} {p : String}
    (h : resolveProject project = .ok p) (filename : String) :
    OrdinarySegments project filename ↔ IsName p ∧ IsName (flattenFilename filename) := by
  rw [OrdinarySegments, isName_resolveProject h, isName_flattenFilename]

/-- A path whose segments are all names leads where it reads. -/
theorem IsRawPieces.location_eq {username agentId project filename path : String}
    (h : IsRawPieces username agentId project filename path) (hproject : IsName project)
    (hfile : IsName filename) : location path = [filename, project, agentId, username] := by
  have hnames : ∀ p ∈ [username, agentId, project, filename], IsName p := by
    simp [h.username_name, h.agentId_name, hproject, hfile]
  rw [location, h.pieces_eq]
  exact Fs.lexical_names hnames []

/-- A path that leads four levels down has only names. -/
theorem IsRawPieces.names_of_length {username agentId project filename path : String}
    (h : IsRawPieces username agentId project filename path)
    (hlen : 4 ≤ (location path).length) : IsName project ∧ IsName filename := by
  rw [location, h.pieces_eq] at hlen
  have hnames : ∀ p ∈ [username, agentId, project, filename], IsName p := by
    intro p hp
    by_contra hname
    have hlt := @Fs.length_lexical_lt [] _ p hp hname
    simp only [List.length_cons, List.length_nil] at hlt
    omega
  exact ⟨hnames project (by simp), hnames filename (by simp)⟩

/-- A raw path leads to a file of a project folder exactly if its last two segments are
ordinary. -/
theorem staysInProject_iff {username filename path : String} {agentId : Uuid}
    {project : Option String} (huser : Http.validateUsername username = .ok ())
    (h : getRawPath username agentId project filename = .ok path) :
    StaysInProject username agentId path ↔ OrdinarySegments project filename := by
  rcases isRawPieces_of_getRawPath huser h with ⟨p, hp, hproject, hpieces⟩
  rw [ordinarySegments_iff hp]
  constructor
  · rintro ⟨folder, file, -, -, -, hloc⟩
    exact hpieces.names_of_length (by simp [hloc])
  · rintro ⟨hname, hfile⟩
    exact ⟨p, _, hname, hfile, hproject.ne_synthesized, hpieces.location_eq hname hfile⟩

/-- A target of the store: its user has a valid name and its agent an id. -/
def IsTarget : SynthesisTarget → Prop
  | .agent username agentId =>
      Http.validateUsername username = .ok () ∧ ∃ id : Uuid, agentId = id.hyphenated
  | .user username => Http.validateUsername username = .ok ()
  | .global => True

/-- Where the folder of a target lies. -/
def folderNames : SynthesisTarget → Loc
  | .agent username agentId => ["_synthesized", agentId, username]
  | .user username => ["_synthesized", username]
  | .global => ["_synthesized"]

theorem folderNames_inj {target target' : SynthesisTarget} :
    folderNames target = folderNames target' ↔ target = target' := by
  cases target <;> cases target' <;> simp [folderNames, and_comm]

/-- The folders of a target have ordinary names. -/
theorem isSegment_of_mem_folderNames {target : SynthesisTarget} (htarget : IsTarget target) :
    ∀ p ∈ folderNames target, IsSegment p := by
  have hreserved : IsSegment "_synthesized" := by decide
  cases target with
  | agent username agentId =>
      rcases htarget with ⟨huser, id, rfl⟩
      simp [folderNames, hreserved, agentId_segment id, username_segment huser]
  | user username => simp [folderNames, hreserved, username_segment htarget]
  | global => simp [folderNames, hreserved]

theorem pieces_synthesisFolder {target : SynthesisTarget} (htarget : IsTarget target) :
    pieces (synthesisFolder target) = (folderNames target).reverse := by
  have hreserved : pieces "_synthesized" = ["_synthesized"] := pieces_eq_singleton (by decide)
  cases target with
  | agent username agentId =>
      rcases htarget with ⟨huser, id, rfl⟩
      rw [synthesisFolder, pieces_cons_slash (username_segment huser).2.1,
        pieces_cons_slash (agentId_segment id).2.1, hreserved]
      rfl
  | user username =>
      rw [synthesisFolder, pieces_cons_slash (username_segment htarget).2.1, hreserved]
      rfl
  | global => exact hreserved

theorem location_synthesisFolder {target : SynthesisTarget} (htarget : IsTarget target) :
    location (synthesisFolder target) = folderNames target := by
  have hnames : ∀ p ∈ (folderNames target).reverse, IsName p := by
    intro p hp
    exact (isSegment_of_mem_folderNames htarget p (List.mem_reverse.mp hp)).1
  rw [location, pieces_synthesisFolder htarget, Fs.lexical_names hnames, List.reverse_reverse,
    List.append_nil]

/-- A file of a project folder lies in no synthesis folder. -/
theorem StaysInProject.not_in_synthesisFolder {username path : String} {agentId : Uuid}
    (huser : Http.validateUsername username = .ok ())
    (h : StaysInProject username agentId path) {target : SynthesisTarget}
    (htarget : IsTarget target) : ¬ location (synthesisFolder target) <:+ location path := by
  rcases h with ⟨folder, file, -, -, hfolder, hloc⟩
  have hagent : agentId.hyphenated ≠ "_synthesized" := by
    intro heq
    have hlen := agentId.length_hyphenated
    rw [heq] at hlen
    exact absurd hlen (by decide)
  have husername : username ≠ "_synthesized" :=
    ((Http.validateUsername_eq_ok_iff username).mp huser).2.1
  rw [location_synthesisFolder htarget, hloc]
  intro hinside
  -- The folder would have to be the end of the location that is as long.
  have hend : ∀ l, l <:+ [file, folder, agentId.hyphenated, username] →
      l.length = (folderNames target).length → l = folderNames target := by
    intro l hl hlen
    exact (List.suffix_of_suffix_length_le hl hinside (Nat.le_of_eq hlen)).eq_of_length hlen
  cases target with
  | agent v b =>
      have heq := hend [folder, agentId.hyphenated, username] ⟨[file], rfl⟩ rfl
      exact hfolder (List.cons.inj heq).1
  | user v =>
      have heq := hend [agentId.hyphenated, username] ⟨[file, folder], rfl⟩ rfl
      exact hagent (List.cons.inj heq).1
  | global =>
      have heq := hend [username] ⟨[file, folder, agentId.hyphenated], rfl⟩ rfl
      exact husername (List.cons.inj heq).1

/-- What a raw path that keeps to its project promises: it leads to a file of a project
folder, and into no synthesis folder. -/
structure KeepsToProject (username : String) (agentId : Uuid) (path : String) : Prop where
  stays : StaysInProject username agentId path
  apart : ∀ target, IsTarget target → ¬ location (synthesisFolder target) <:+ location path

/-- A raw path keeps to its project exactly if its last two segments are ordinary.  Then no
request of another user or agent, whatever its segments, names the same file. -/
theorem rawPath_keepsToProject_iff {username filename path : String} {agentId : Uuid}
    {project : Option String} (huser : Http.validateUsername username = .ok ())
    (h : getRawPath username agentId project filename = .ok path) :
    (KeepsToProject username agentId path ↔ OrdinarySegments project filename) ∧
      (OrdinarySegments project filename → ∀ v b project' filename' path',
        Http.validateUsername v = .ok () → getRawPath v b project' filename' = .ok path' →
          location path' = location path → v = username ∧ b = agentId) := by
  have hiff := staysInProject_iff huser h
  constructor
  · constructor
    · intro hkeeps
      exact hiff.mp hkeeps.stays
    · intro hordinary
      have hstays := hiff.mpr hordinary
      exact ⟨hstays, fun target htarget => hstays.not_in_synthesisFolder huser htarget⟩
  · intro hordinary v b project' filename' path' hv h' hsame
    rcases hiff.mpr hordinary with ⟨folder, file, -, -, -, hloc⟩
    rcases isRawPieces_of_getRawPath hv h' with ⟨p', hp', -, hpieces⟩
    -- The other path leads four levels down as well, so its segments are ordinary too.
    have hnames := hpieces.names_of_length (by simp [hsame, hloc])
    have hother := hpieces.location_eq hnames.1 hnames.2
    rw [hsame, hloc] at hother
    simp only [List.cons.injEq, and_true] at hother
    exact ⟨hother.2.2.2.symm, (Uuid.hyphenated_inj.mp hother.2.2.1).symm⟩

/-- An ordinary request, which no other agent's request can name the file of. -/
theorem notes_keepToProject :
    KeepsToProject "alice" .nil (rawPath "alice" .nil "notes" "a_b.md") ∧
      ∀ v b project' filename' path', Http.validateUsername v = .ok () →
        getRawPath v b project' filename' = .ok path' →
          location path' = location (rawPath "alice" .nil "notes" "a_b.md") →
            v = "alice" ∧ b = .nil := by
  have hordinary : OrdinarySegments (some "notes") "a/b.md" := by
    refine ⟨?_, by decide, by decide, by decide⟩
    intro p hp
    rw [← Option.some.inj hp]
    decide
  have hiff := @rawPath_keepsToProject_iff "alice" "a/b.md"
    (rawPath "alice" .nil "notes" "a_b.md") .nil (some "notes") (by decide +kernel)
    (by decide +kernel)
  exact ⟨hiff.1.mpr hordinary, hiff.2 hordinary⟩

/-- With dots for its project, a raw path can name the synthesis folder of the user. -/
theorem dots_reach_synthesisFolder :
    ¬ ∀ username agentId project filename path, Http.validateUsername username = .ok () →
      getRawPath username agentId project filename = .ok path →
        KeepsToProject username agentId path := by
  intro h
  have huser : Http.validateUsername "alice" = .ok () := by
    decide +kernel
  have hkeeps := h "alice" .nil (some "..") "_synthesized"
    (rawPath "alice" .nil ".." "_synthesized") huser (by decide +kernel)
  apply hkeeps.apart (.user "alice") huser
  decide +kernel

/-! ## The user's folder -/

/-- The tree changes strictly inside the user's folder only, apart from the creation of that
folder itself. -/
def ChangesInside (username : String) (fs fs' : Fs) : Prop :=
  ∀ l, fs'.node l ≠ fs.node l → StrictlyInside username l ∨
    (l = [username] ∧ fs.node l = none ∧ fs'.node l = some .dir)

/-- The folders on a raw path lie in the user's folder: at most one of them climbs, and the
agent's folder lies below. -/
theorem IsRawPieces.prefix_inside {username agentId project filename path : String}
    (h : IsRawPieces username agentId project filename path) {pre : List String}
    (hpre : pre <+: [username, agentId, project]) (hne : pre ≠ []) :
    ∃ names, Fs.lexical [] pre = names ++ [username] := by
  have hroot : ∀ rest, Fs.lexical [] (username :: rest) = Fs.lexical [username] rest :=
    Fs.lexical_cons_name h.username_name []
  have hagent : ∀ rest, Fs.lexical [username] (agentId :: rest) =
      Fs.lexical [agentId, username] rest := Fs.lexical_cons_name h.agentId_name [username]
  rcases List.prefix_cons_iff.mp hpre with rfl | ⟨pre₁, rfl, hpre₁⟩
  · contradiction
  · rw [hroot]
    rcases List.prefix_cons_iff.mp hpre₁ with rfl | ⟨pre₂, rfl, hpre₂⟩
    · exact ⟨[], rfl⟩
    · rw [hagent]
      rcases List.prefix_cons_iff.mp hpre₂ with rfl | ⟨pre₃, rfl, hpre₃⟩
      · exact ⟨[agentId], rfl⟩
      · rw [List.prefix_nil.mp hpre₃]
        simp only [Fs.lexical]
        split
        · exact ⟨[agentId], rfl⟩
        · split
          · exact ⟨[], rfl⟩
          · exact ⟨[project, agentId], rfl⟩

theorem IsRawPieces.dropLast_eq {username agentId project filename path : String}
    (h : IsRawPieces username agentId project filename path) :
    (pieces path).dropLast = [username, agentId, project] := by
  rw [h.pieces_eq]
  rfl

/-- A path that leads to an entry of a folder on a raw path leads into the user's folder. -/
theorem IsRawPieces.entry_inside {username agentId project filename path : String}
    (h : IsRawPieces username agentId project filename path) {fs : Fs} {ps : List String}
    {name : String} {loc : Loc} (hps : ps.dropLast <+: [username, agentId, project])
    (hne : ps.dropLast ≠ []) (hloc : fs.locate ps = .ok (.entry name loc)) :
    StrictlyInside username (Fs.lexical [] ps) := by
  rcases Fs.locate_eq_entry hloc with ⟨-, hname, -, -, qs, rfl⟩
  rw [List.dropLast_concat] at hps hne
  rcases h.prefix_inside hps hne with ⟨names, hnames⟩
  refine ⟨name :: names, by simp, ?_⟩
  rw [Fs.lexical_append, hnames, Fs.lexical_cons_name hname]
  rfl

/-- The target of a raw path lies in the user's folder, if the path leads anywhere. -/
theorem IsRawPieces.target_inside {username agentId project filename path : String}
    (h : IsRawPieces username agentId project filename path) {fs : Fs} (hleads : LeadsTo fs path) :
    StrictlyInside username (location path) := by
  rcases hleads with ⟨name, loc, hloc⟩
  refine h.entry_inside ?_ ?_ hloc
  · rw [h.dropLast_eq]
  · rw [h.dropLast_eq]
    simp

theorem IsRawPieces.parent_prefix {username agentId project filename path : String}
    (h : IsRawPieces username agentId project filename path) :
    parent (pieces path) <+: [username, agentId, project] := by
  rw [← h.dropLast_eq]
  exact UnixPath.parent_prefix _

/-- The temporary name of a raw path lies in the user's folder, whichever of the segments the
extension replaces. -/
theorem IsRawPieces.temp_inside {username agentId project filename path : String}
    (h : IsRawPieces username agentId project filename path) {fs : Fs} {name : String} {loc : Loc}
    (hloc : fs.locate (tempPath path) = .ok (.entry name loc)) :
    StrictlyInside username (tempLocation path) := by
  have hparent : parent (pieces path) ≠ [] := by
    have hkeep := prefix_parent h.agentId_name [username] [project, filename]
    rw [h.pieces_eq]
    intro hnil
    have hlen := hkeep.length_le
    simp only [List.cons_append, List.nil_append] at hlen
    rw [hnil] at hlen
    simp at hlen
  unfold tempLocation
  unfold tempPath withExtension at hloc ⊢
  cases hfile : fileName (pieces path) with
  | none =>
      rw [hfile] at hloc
      exact h.target_inside ⟨name, loc, hloc⟩
  | some file =>
      rw [hfile] at hloc
      refine h.entry_inside ?_ ?_ hloc
      · rw [List.dropLast_concat]
        exact h.parent_prefix
      · rw [List.dropLast_concat]
        exact hparent

/-- Creating the folder of a raw path changes the user's folder only. -/
theorem IsRawPieces.withFolder_inside {username agentId project filename path : String}
    (h : IsRawPieces username agentId project filename path) (fs : Fs)
    (fault : Option StorageFault) : ChangesInside username fs (withFolder fs path fault) := by
  intro l hl
  rcases exists_prefix_of_withFolder hl with ⟨pre, hpre, hnil, rfl⟩
  rcases h.prefix_inside (hpre.trans h.parent_prefix) hnil with ⟨names, hnames⟩
  rw [hnames] at hl ⊢
  rcases withFolder_extends fs path fault (names ++ [username]) with hsame | ⟨hnone, hdir⟩
  · exact absurd hsame hl
  · cases names with
    | nil => exact Or.inr ⟨rfl, hnone, hdir⟩
    | cons name names => exact Or.inl ⟨name :: names, by simp, rfl⟩

/-- Changing what lies in the user's folder as well still only changes that folder. -/
theorem ChangesInside.update {username : String} {fs fs₁ fs₂ : Fs}
    (h : ChangesInside username fs fs₁)
    (hsame : ∀ l, ¬ StrictlyInside username l → fs₂.node l = fs₁.node l) :
    ChangesInside username fs fs₂ := by
  intro l hl
  by_cases hinside : StrictlyInside username l
  · exact Or.inl hinside
  · rw [hsame l hinside] at hl ⊢
    exact h l hl

/-- A write to a raw path changes the user's folder only. -/
theorem IsRawPieces.storageWrite_inside {username agentId project filename path : String}
    (h : IsRawPieces username agentId project filename path) {fs fs' : Fs} {content : String}
    {fault : Option StorageFault} {r : Except StorageError Unit}
    (hwrite : storageWrite fs path content fault = (r, fs')) : ChangesInside username fs fs' := by
  have hfolder := h.withFolder_inside fs fault
  rcases storageWrite_cases hwrite with
    ⟨-, heq | ⟨⟨-, -, name, loc, htemp⟩, -, left, hupdate⟩⟩ |
      ⟨-, ⟨-, -, name, loc, htemp⟩, hleads, -, -, hnodes⟩
  · rw [heq]
    exact hfolder
  · apply hfolder.update
    intro l hl
    rw [hupdate, Function.update_of_ne]
    rintro rfl
    exact hl (h.temp_inside htemp)
  · apply hfolder.update
    intro l hl
    rw [hnodes l, if_neg, if_neg]
    · rintro rfl
      exact hl (h.temp_inside htemp)
    · rintro rfl
      exact hl (h.target_inside hleads)

/-- A delete of a raw path changes the user's folder only. -/
theorem IsRawPieces.storageDelete_inside {username agentId project filename path : String}
    (h : IsRawPieces username agentId project filename path) {fs fs' : Fs}
    {fault : Option StorageFault} {r : Except StorageError Unit}
    (hdelete : storageDelete fs path fault = (r, fs')) {l : Loc}
    (hl : fs'.node l ≠ fs.node l) : StrictlyInside username l := by
  rcases storageDelete_cases hdelete with ⟨-, rfl⟩ | ⟨-, rfl, -⟩ | ⟨-, -, hleads, -, hupdate⟩
  · contradiction
  · contradiction
  · by_cases hloc : l = location path
    · rw [hloc]
      exact h.target_inside hleads
    · rw [hupdate, Function.update_of_ne hloc] at hl
      contradiction

/-- The steps of storage on a path keep to the user's folder: the target and the temporary
name, wherever the path leads, and the folders a write creates. -/
structure StorageInside (username path : String) : Prop where
  target : ∀ fs, LeadsTo fs path → StrictlyInside username (location path)
  temp : ∀ (fs : Fs) name loc, fs.locate (tempPath path) = .ok (.entry name loc) →
    StrictlyInside username (tempLocation path)
  folders : ∀ fs fault, ChangesInside username fs (withFolder fs path fault)

/-! ## Requests -/

namespace FileOp

/-- A write changes the tree as storage does. -/
theorem write_fs (op : FileOp) (w : World) (msg : FileOpWrite) (s : WriteScript) :
    (op.write w msg s).2.fs = w.fs ∨
      ∃ path r, getRawPath msg.username msg.agentId msg.project msg.filename = .ok path ∧
        storageWrite w.fs path msg.content s.storageFault = (r, (op.write w msg s).2.fs) := by
  rcases hwrite : op.write w msg s with ⟨o, w'⟩
  rcases write_cases hwrite with
    ⟨rfl, -⟩ | ⟨path, insert, r, w₁, hpath, -, -, hsend, hrest⟩
  · exact Or.inl rfl
  · have hw₁ : w₁.fs = w.fs := by
      have hfs := w.sendInsert_fs s.index insert msg.content s.now s.indexFault
      rwa [hsend] at hfs
    rcases hrest with ⟨rfl, -⟩ | ⟨-, -, r₂, w₂, hstore, hrest⟩
    · exact Or.inl hw₁
    · have hw' : w'.fs = w₂.fs := by
        rcases hrest with ⟨rfl, -⟩ | ⟨-, -, -, -, rfl⟩
        · rfl
        · exact World.sendDelete_fs w₂ s.undo path s.undoFault
      rcases World.sendStorageWrite_cases hstore with
        ⟨-, rfl, -⟩ | ⟨-, -, -, result, hresult, -⟩
      · exact Or.inl (hw'.trans hw₁)
      · rw [hw₁] at hresult
        rw [hw']
        exact Or.inr ⟨path, result, hpath, hresult⟩

/-- A delete changes the tree as storage does. -/
theorem delete_fs (w : World) (msg : FileOpDelete) (s : DeleteScript) :
    (delete w msg s).2.fs = w.fs ∨
      ∃ path r, getRawPath msg.username msg.agentId msg.project msg.filename = .ok path ∧
        storageDelete w.fs path s.storageFault = (r, (delete w msg s).2.fs) := by
  rcases hdelete : delete w msg s with ⟨o, w'⟩
  rcases delete_cases hdelete with ⟨rfl, -⟩ | ⟨path, r, w₁, hpath, hsend, hrest⟩
  · exact Or.inl rfl
  · have hw₁ : w₁.fs = w.fs := by
      have hfs := w.sendDelete_fs s.index path s.indexFault
      rwa [hsend] at hfs
    rcases hrest with ⟨rfl, -⟩ | ⟨-, -, r₂, hstore, -⟩
    · exact Or.inl hw₁
    · rcases World.sendStorageDelete_cases hstore with
        ⟨-, rfl, -⟩ | ⟨-, -, -, result, hresult, -⟩
      · exact Or.inl hw₁
      · rw [hw₁] at hresult
        exact Or.inr ⟨path, result, hpath, hresult⟩

/-- A read returns what the file its path leads to holds. -/
theorem read_eq_some {w : World} {msg : FileOpRead} {content : String}
    (h : read w msg = .ok (some content)) :
    ∃ path, getRawPath msg.username msg.agentId msg.project msg.filename = .ok path ∧
      LeadsTo w.fs path ∧ w.fs.node (location path) = some (.file (some content)) := by
  unfold read at h
  cases hpath : getRawPath msg.username msg.agentId msg.project msg.filename with
  | error e =>
      rw [hpath] at h
      exact absurd h (by simp)
  | ok path =>
      simp only [hpath] at h
      cases hread : storageRead w.fs path with
      | error e =>
          rw [hread] at h
          exact absurd h (by simp [propagate])
      | ok result =>
          simp only [hread, propagate, Except.ok.injEq] at h
          have hcontent : storageContent w.fs path = some content := by
            rw [storageContent, hread, h]
          exact ⟨path, rfl, storageContent_eq_some.mp hcontent⟩

end FileOp

/-- Requests of a user touch files strictly inside that user's folder only, whatever the
project and the file name: reads return, and writes and deletes change, nothing else, except
that a write may create the user's folder itself; and every step of storage keeps to that
folder, the temporary file included. -/
theorem handlers_stayInside {username : String}
    (huser : Http.validateUsername username = .ok ()) (op : FileOp) (w : World) :
    (∀ msg : FileOpRead, msg.username = username → ∀ content,
        FileOp.read w msg = .ok (some content) → ∃ path,
          getRawPath msg.username msg.agentId msg.project msg.filename = .ok path ∧
          StrictlyInside username (location path) ∧
          w.fs.node (location path) = some (.file (some content))) ∧
      (∀ (msg : FileOpWrite) (s : WriteScript), msg.username = username →
        ChangesInside username w.fs (op.write w msg s).2.fs) ∧
      (∀ (msg : FileOpDelete) (s : DeleteScript), msg.username = username → ∀ l,
        (FileOp.delete w msg s).2.fs.node l ≠ w.fs.node l → StrictlyInside username l) ∧
      (∀ agentId project filename path, getRawPath username agentId project filename = .ok path →
        StorageInside username path) := by
  refine ⟨?_, ?_, ?_, ?_⟩
  · rintro msg rfl content hread
    rcases FileOp.read_eq_some hread with ⟨path, hpath, hleads, hnode⟩
    rcases isRawPieces_of_getRawPath huser hpath with ⟨p, -, -, hpieces⟩
    exact ⟨path, hpath, hpieces.target_inside hleads, hnode⟩
  · rintro msg s rfl
    rcases op.write_fs w msg s with hsame | ⟨path, r, hpath, hwrite⟩
    · intro l hl
      exact absurd (by rw [hsame]) hl
    · rcases isRawPieces_of_getRawPath huser hpath with ⟨p, -, -, hpieces⟩
      exact hpieces.storageWrite_inside hwrite
  · rintro msg s rfl l hl
    rcases FileOp.delete_fs w msg s with hsame | ⟨path, r, hpath, hdelete⟩
    · exact absurd (by rw [hsame]) hl
    · rcases isRawPieces_of_getRawPath huser hpath with ⟨p, -, -, hpieces⟩
      exact hpieces.storageDelete_inside hdelete hl
  · intro agentId project filename path hpath
    rcases isRawPieces_of_getRawPath huser hpath with ⟨p, -, -, hpieces⟩
    exact ⟨fun _ => hpieces.target_inside, fun _ _ _ => hpieces.temp_inside,
      hpieces.withFolder_inside⟩

/-- A first write, with dots for its project. -/
def dottedWrite : FileOpWrite :=
  ⟨"alice", .nil, some "..", "a.md", "x"⟩

theorem dottedWrite_inside :
    ChangesInside "alice" World.fresh.fs
      (FileOp.withDefaults.write World.fresh dottedWrite WriteScript.sample).2.fs :=
  (handlers_stayInside (by decide +kernel) FileOp.withDefaults World.fresh).2.1 dottedWrite
    WriteScript.sample rfl

/-- The user's own folder, which a first write creates, does not lie strictly inside it. -/
theorem own_folder_created :
    ¬ ∀ (op : FileOp) (w : World) (msg : FileOpWrite) (s : WriteScript),
      Http.validateUsername msg.username = .ok () → ∀ l,
        (op.write w msg s).2.fs.node l ≠ w.fs.node l → StrictlyInside msg.username l := by
  intro h
  have hcreated : (FileOp.withDefaults.write World.fresh dottedWrite WriteScript.sample).2.fs.node
      ["alice"] ≠ World.fresh.fs.node ["alice"] := by
    decide +kernel
  rcases h _ _ dottedWrite _ (by decide +kernel) _ hcreated with ⟨names, hne, heq⟩
  have hlen := congrArg List.length heq
  rw [List.length_append, List.length_singleton, List.length_singleton] at hlen
  exact hne (List.length_eq_zero_iff.mp (by omega))

end Memory
end MemoryHub
