import MemoryHub.Http.Auth
import MemoryHub.Lib.Decimal
import MemoryHub.Lib.UnixPath
import MemoryHub.Lib.Uuid
import MemoryHub.Memory.Error

/-!
# Paths of memory files

Raw layout: `username/agent_id/project/filename`, with every separator in the file
name flattened to `_`.  Summaries lie in the `_synthesized` folder of an
agent, of a user, or of the whole store.

Main results:

- Theorem `pieces_rawPath`: a raw path has four pieces, the key it was made of.
- Theorem `resolveProject_some_eq_ok`: which projects of callers are accepted, and as what.
- Theorem `rawPath_ne_summary`: no raw path lies in a synthesis folder.
-/

namespace MemoryHub
namespace Memory

open UnixPath

/-! ## Deriving paths -/

/-- Project bucket used when the caller omits the project. -/
def defaultProject : String :=
  "_default"

/-- Segment names a caller may not use as a project. -/
def reservedProjects : List String :=
  ["_synthesized", defaultProject]

/-- Validate and resolve a caller-supplied project into its path segment. -/
def resolveProject (project : Option String) : Except MemoryError String :=
  match project.map RustStr.trim with
  | none => .ok defaultProject
  | some p =>
      if p = "" then .ok defaultProject
      else if p.toList.contains '/' || p.toList.contains '\\' then
        .error (.invalidProject ("project must be a single path segment, got " ++ p))
      else if reservedProjects.contains p then
        .error (.invalidProject ("project name " ++ p ++ " is reserved"))
      else .ok p

/-- `filename.replace(['/', '\\'], "_")`. -/
def flattenFilename (filename : String) : String :=
  String.ofList (filename.toList.map fun c => if c = '/' ∨ c = '\\' then '_' else c)

/-- `format!("\x7b\x7d/\x7b\x7d/\x7b\x7d/\x7b\x7d", ..)`. -/
def rawPath (username : String) (agentId : Uuid) (project filename : String) : String :=
  username ++ "/" ++ (agentId.hyphenated ++ "/" ++ (project ++ "/" ++ filename))

/-- The storage path of a raw memory file. -/
def getRawPath (username : String) (agentId : Uuid) (project : Option String)
    (filename : String) : Except MemoryError String :=
  match resolveProject project with
  | .error e => .error e
  | .ok project => .ok (rawPath username agentId project (flattenFilename filename))

/-- Which synthesis a request targets; the agent id is in its text form. -/
inductive SynthesisTarget where
  | agent (username agentId : String)
  | user (username : String)
  | global
deriving DecidableEq, Repr

/-- The folder where synthesized files for a target live. -/
def synthesisFolder : SynthesisTarget → String
  | .agent username agentId => username ++ "/" ++ (agentId ++ "/" ++ "_synthesized")
  | .user username => username ++ "/" ++ "_synthesized"
  | .global => "_synthesized"

/-! ## Projects of callers -/

/-- A project a caller may name: trimmed, it is one segment that is not reserved. -/
def IsCallerProject (project : String) : Prop :=
  '/' ∉ (RustStr.trim project).toList ∧ '\\' ∉ (RustStr.trim project).toList ∧
    RustStr.trim project ∉ reservedProjects

instance (project : String) : Decidable (IsCallerProject project) :=
  inferInstanceAs (Decidable ('/' ∉ (RustStr.trim project).toList ∧
    '\\' ∉ (RustStr.trim project).toList ∧ RustStr.trim project ∉ reservedProjects))

/-- What a caller's project is resolved to. -/
theorem resolveProject_some_eq_ok {project p : String} :
    resolveProject (some project) = .ok p ↔ IsCallerProject project ∧
      (if RustStr.trim project = "" then defaultProject else RustStr.trim project) = p := by
  simp only [resolveProject, Option.map_some, IsCallerProject]
  generalize RustStr.trim project = name
  have hreserved : reservedProjects.contains name = true ↔ name ∈ reservedProjects := by
    rw [List.contains_eq_mem, decide_eq_true_eq]
  have hsep : (name.toList.contains '/' || name.toList.contains '\\') = true ↔
      '/' ∈ name.toList ∨ '\\' ∈ name.toList := by
    rw [Bool.or_eq_true, List.contains_eq_mem, List.contains_eq_mem, decide_eq_true_eq,
      decide_eq_true_eq]
  by_cases hempty : name = ""
  · subst hempty
    rw [if_pos rfl, if_pos rfl, Except.ok.injEq]
    exact (and_iff_right (by decide)).symm
  · rw [if_neg hempty, if_neg hempty]
    split <;> rename_i h
    · rw [hsep] at h
      exact iff_of_false (by simp) fun hname => h.elim hname.1.1 hname.1.2.1
    · rw [hsep, not_or] at h
      split <;> rename_i h'
      · rw [hreserved] at h'
        exact iff_of_false (by simp) fun hname => hname.1.2.2 h'
      · rw [hreserved] at h'
        rw [Except.ok.injEq, and_iff_right ⟨h.1, h.2, h'⟩]

/-! ## Segments -/

/-- A resolved project: one segment without separators and not reserved for
summaries. -/
structure IsProject (project : String) : Prop where
  ne_empty : project ≠ ""
  no_slash : '/' ∉ project.toList
  no_backslash : '\\' ∉ project.toList
  ne_synthesized : project ≠ "_synthesized"

theorem isProject_of_resolveProject {project : Option String} {p : String}
    (h : resolveProject project = .ok p) : IsProject p := by
  have hdefault : IsProject defaultProject :=
    ⟨by decide, by decide, by decide, by decide⟩
  cases project with
  | none =>
      cases h
      exact hdefault
  | some q =>
      rcases resolveProject_some_eq_ok.mp h with ⟨⟨hslash, hbackslash, hreserved⟩, rfl⟩
      split <;> rename_i hempty
      · exact hdefault
      · refine ⟨hempty, hslash, hbackslash, ?_⟩
        intro heq
        exact hreserved (by rw [heq]; decide)

/-- A flattened file name has no separator left. -/
theorem separator_notMem_flattenFilename (filename : String) {c : Char}
    (hc : c = '/' ∨ c = '\\') : c ∉ (flattenFilename filename).toList := by
  rw [flattenFilename, String.toList_ofList]
  intro hmem
  rcases List.mem_map.mp hmem with ⟨d, -, hd⟩
  split at hd <;> rename_i hsep
  · rw [← hd] at hc
    exact absurd hc (by decide)
  · exact hsep (hd ▸ hc)

/-- A file name without separators is left as it is. -/
theorem flattenFilename_eq_self {filename : String}
    (h : ∀ c, c = '/' ∨ c = '\\' → c ∉ filename.toList) : flattenFilename filename = filename := by
  have hmap : filename.toList.map (fun c => if c = '/' ∨ c = '\\' then '_' else c) =
      filename.toList := by
    refine (List.map_congr_left ?_).trans (List.map_id _)
    intro c hc
    exact if_neg fun hsep => h c hsep hc
  rw [flattenFilename, hmap, String.ofList_toList]

/-- A valid username is one ordinary segment. -/
theorem username_segment {username : String} (h : Http.validateUsername username = .ok ()) :
    IsSegment username := by
  rcases (Http.validateUsername_eq_ok_iff username).mp h with ⟨hne, -, hchars⟩
  have hnot : ∀ c : Char, Http.usernameChar c = false → c ∉ username.toList := by
    intro c hc hmem
    rw [hchars c hmem] at hc
    contradiction
  refine ⟨⟨hne, ?_, ?_⟩, hnot '/' (by decide), hnot '\x00' (by decide)⟩
  · intro heq
    exact hnot '.' (by decide) (by rw [heq]; decide)
  · intro heq
    exact hnot '.' (by decide) (by rw [heq]; decide)

/-- The text of an agent id is one ordinary segment. -/
theorem agentId_segment (u : Uuid) : IsSegment u.hyphenated := by
  have hlen := u.length_hyphenated
  exact ⟨isName_of_length (by omega), Uuid.notMem_hyphenated (by decide) (by decide),
    Uuid.notMem_hyphenated (by decide) (by decide)⟩

/-! ## Raw paths -/

/-- A raw path has four pieces: the segments of its key. -/
theorem pieces_rawPath {username project filename : String} {agentId : Uuid}
    (huser : '/' ∉ username.toList) (hproject : '/' ∉ project.toList)
    (hfile : '/' ∉ filename.toList) :
    pieces (rawPath username agentId project filename) =
      [username, agentId.hyphenated, project, filename] := by
  rw [rawPath, pieces_cons_slash huser, pieces_cons_slash (agentId_segment agentId).2.1,
    pieces_cons_slash hproject, pieces_eq_singleton hfile]

/-- The paths of raw memory files. -/
def IsRawPath (path : String) : Prop :=
  ∃ username agentId project filename, Http.validateUsername username = .ok () ∧
    getRawPath username agentId project filename = .ok path

theorem getRawPath_of_resolveProject (username : String) (agentId : Uuid) (filename : String)
    {project : Option String} {p : String} (h : resolveProject project = .ok p) :
    getRawPath username agentId project filename =
      .ok (rawPath username agentId p (flattenFilename filename)) := by
  rw [getRawPath, h]

/-- What `get_raw_path` returns, from the resolved project. -/
theorem getRawPath_eq_rawPath {username filename path : String} {agentId : Uuid}
    {project : Option String} (h : getRawPath username agentId project filename = .ok path) :
    ∃ p, resolveProject project = .ok p ∧
      path = rawPath username agentId p (flattenFilename filename) := by
  cases hp : resolveProject project with
  | error e => simp [getRawPath, hp] at h
  | ok p =>
      rw [getRawPath_of_resolveProject username agentId filename hp, Except.ok.injEq] at h
      exact ⟨p, rfl, h.symm⟩

/-- What `get_raw_path` returns is made of segments. -/
theorem getRawPath_eq_ok {username filename path : String} {agentId : Uuid}
    {project : Option String} (h : getRawPath username agentId project filename = .ok path) :
    ∃ p, IsProject p ∧ path = rawPath username agentId p (flattenFilename filename) := by
  rcases getRawPath_eq_rawPath h with ⟨p, hp, hpath⟩
  exact ⟨p, isProject_of_resolveProject hp, hpath⟩

/-- What a raw path is made of. -/
theorem IsRawPath.exists_segments {path : String} (h : IsRawPath path) :
    ∃ username agentId project filename, Http.validateUsername username = .ok () ∧
      IsProject project ∧ '/' ∉ filename.toList ∧
        path = rawPath username agentId project filename := by
  rcases h with ⟨username, agentId, project, filename, huser, hpath⟩
  rcases getRawPath_eq_ok hpath with ⟨p, hp, heq⟩
  exact ⟨username, agentId, p, flattenFilename filename, huser, hp,
    separator_notMem_flattenFilename filename (Or.inl rfl), heq⟩

/-- No raw path lies directly in a synthesis folder: its project is not reserved. -/
theorem rawPath_ne_summary {username project filename name : String} {agentId : Uuid}
    (hproject : IsProject project) (hfile : '/' ∉ filename.toList) (hname : '/' ∉ name.toList)
    (target : SynthesisTarget) :
    rawPath username agentId project filename ≠ synthesisFolder target ++ "/" ++ name := by
  have hslash : "/".toList = ['/'] := by decide
  have hreserved : '/' ∉ "_synthesized".toList := by decide
  intro heq
  have hlist := congrArg String.toList heq
  simp only [rawPath, String.toList_append, hslash, List.append_assoc,
    List.singleton_append] at hlist
  -- The last segments agree, and so do the folders before them.
  have hfolders : (username.toList ++ '/' :: agentId.hyphenated.toList) ++
      '/' :: project.toList = (synthesisFolder target).toList := by
    refine (Decimal.append_sep_inj hfile hname ?_).1
    simpa only [List.append_assoc, List.cons_append] using hlist
  have hreserve : ∀ base : List Char,
      (synthesisFolder target).toList ≠ base ++ '/' :: "_synthesized".toList := by
    intro base hbase
    have hsame := (Decimal.append_sep_inj hproject.no_slash hreserved
      (hfolders.trans hbase)).2
    exact hproject.ne_synthesized (String.toList_inj.mp hsame)
  cases target with
  | agent u a =>
      apply hreserve (u.toList ++ '/' :: a.toList)
      simp only [synthesisFolder, String.toList_append, hslash, List.append_assoc,
        List.cons_append, List.nil_append]
  | user u =>
      apply hreserve u.toList
      simp only [synthesisFolder, String.toList_append, hslash, List.append_assoc,
        List.cons_append, List.nil_append]
  | global =>
      simp only [synthesisFolder] at hfolders
      rw [← hfolders] at hreserved
      simp at hreserved

/-- What `get_raw_path` can return, for any user. -/
def IsRawKey (path : String) : Prop :=
  ∃ username agentId project filename, getRawPath username agentId project filename = .ok path

/-- A raw key does not lie directly in a synthesis folder. -/
theorem IsRawKey.ne_summary {path name : String} (h : IsRawKey path) (hname : '/' ∉ name.toList)
    (target : SynthesisTarget) : path ≠ synthesisFolder target ++ "/" ++ name := by
  rcases h with ⟨username, agentId, project, filename, hpath⟩
  rcases getRawPath_eq_ok hpath with ⟨p, hp, rfl⟩
  exact rawPath_ne_summary hp (separator_notMem_flattenFilename filename (Or.inl rfl)) hname target

end Memory
end MemoryHub
