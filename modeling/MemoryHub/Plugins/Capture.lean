import MemoryHub.Lib.PurePath
import MemoryHub.Memory.KeySpace

/-!
# Captured memory files

The hook of the Claude Code plugin takes the memory files that a batch of tool calls has
touched from the batch's payload, and has them uploaded.  The folder of the project, the first
name below the projects directory, becomes the project of the item, and the names after it the
file name; the server makes the raw path of these two.

Main results:

- Theorem `collectItems_total`: collecting never raises.
- Theorem `collectItems_nodup`: a file is collected once.
- Theorem `capturedFiles_apart`: when two collected files have raw paths of their own.
-/

namespace MemoryHub
namespace Plugins

open PurePath

/-! ## The hook -/

/-- What a tool was called with. -/
structure ToolInput where
  filePath : Option String

/-- A call of a tool. -/
structure ToolCall where
  toolName : Option String
  toolInput : Option ToolInput

/-- What the hook is given about a batch of calls. -/
structure Payload where
  toolCalls : Option (List ToolCall)

/-- What is uploaded: the file, and where the server is to keep it. -/
structure Item where
  project : String
  filename : String
  path : String
deriving DecidableEq

/-- The tools that write files. -/
def writeTools : List String :=
  ["Write", "Edit", "MultiEdit"]

section

variable (home : PurePosixPath)

/-- The directory of the projects. -/
def projectsDir : PurePosixPath :=
  (home.child ".claude" (by decide)).child "projects" (by decide)

/-- The path is that of a memory file. -/
def isMemoryPath (path : PurePosixPath) : Bool :=
  match path.relativeTo (projectsDir home) with
  | none => false
  | some rel =>
      3 ≤ rel.parts.length && rel.parts[1]? == some "memory" && path.suffix == ".md"

/-- The item of a file; there is none where the source raises an error, outside of the projects
directory and for the directory itself. -/
def toItem (path : PurePosixPath) : Option Item :=
  match path.relativeTo (projectsDir home) with
  | none => none
  | some ⟨_, [], _⟩ => none
  | some ⟨_, project :: rest, hnames⟩ =>
      some {
        project := project
        filename := (PurePosixPath.ofNames rest fun name hname =>
          hnames name (List.mem_cons_of_mem project hname)).str
        path := path.str }

/-- The items of the calls, but for the paths seen before. -/
def collectFrom : List ToolCall → List PurePosixPath → Option (List Item)
  | [], _ => some []
  | call :: calls, seen =>
      if !call.toolName.any writeTools.contains then collectFrom calls seen
      else
        let fp := (call.toolInput.bind ToolInput.filePath).getD ""
        if fp = "" then collectFrom calls seen
        else
          let path := PurePosixPath.parse fp
          if seen.contains path || !isMemoryPath home path then collectFrom calls seen
          else do
            let item ← toItem home path
            let items ← collectFrom calls (path :: seen)
            return item :: items

/-- The items to upload. -/
def collectItems (payload : Payload) : Option (List Item) :=
  collectFrom home (payload.toolCalls.getD []) []

end

/-! ## What an item is made of -/

/-- The item is that of a memory file. -/
structure IsItemOf (home path : PurePosixPath) (item : Item) : Prop where
  exists_names : ∃ rel rest, path.relativeTo (projectsDir home) = some rel ∧
    rel.names = item.project :: rest ∧ rest ≠ [] ∧ item.filename = String.intercalate "/" rest
  path_eq : item.path = path.str

variable {home path path' : PurePosixPath} {item item' : Item}

/-- A memory path has an item. -/
theorem exists_toItem (h : isMemoryPath home path = true) :
    ∃ item, toItem home path = some item ∧ IsItemOf home path item := by
  unfold isMemoryPath at h
  cases hrel : path.relativeTo (projectsDir home) with
  | none => simp [hrel] at h
  | some rel =>
      have hroot : rel.root = .none := (PurePosixPath.relativeTo_eq_some.mp hrel).2.1
      simp only [hrel, PurePosixPath.parts, if_pos hroot, Bool.and_eq_true,
        decide_eq_true_eq] at h
      have hlen : 3 ≤ rel.names.length := h.1.1
      rcases rel with ⟨root, names, hnames⟩
      cases names with
      | nil => simp at hlen
      | cons project rest =>
          have hrest : rest ≠ [] := by
            rintro rfl
            simp at hlen
          refine ⟨_, by rw [toItem, hrel], ⟨⟨_, rest, hrel, rfl, hrest, ?_⟩, rfl⟩⟩
          exact PurePosixPath.str_ofNames hrest

theorem IsItemOf.root_eq (h : IsItemOf home path item) : path.root = home.root := by
  rcases h.exists_names with ⟨rel, -, hrel, -⟩
  exact (PurePosixPath.relativeTo_eq_some.mp hrel).1

theorem IsItemOf.names_ne_nil (h : IsItemOf home path item) : path.names ≠ [] := by
  rcases h.exists_names with ⟨rel, rest, hrel, hnames, -⟩
  rw [(PurePosixPath.relativeTo_eq_some.mp hrel).2.2, hnames]
  simp

/-- Items of different files have different paths. -/
theorem IsItemOf.eq_of_path (h : IsItemOf home path item) (h' : IsItemOf home path' item')
    (heq : item.path = item'.path) : path = path' := by
  have hroot : path.root = path'.root := by rw [h.root_eq, h'.root_eq]
  apply PurePosixPath.eq_of_str hroot h.names_ne_nil h'.names_ne_nil
  rw [← h.path_eq, ← h'.path_eq, heq]

/-- Splitting the path into a project and a file name loses nothing. -/
theorem IsItemOf.eq_of_names (h : IsItemOf home path item) (h' : IsItemOf home path' item')
    (hproject : item.project = item'.project) (hfilename : item.filename = item'.filename) :
    path = path' := by
  rcases h.exists_names with ⟨rel, rest, hrel, hnames, hne, hfile⟩
  rcases h'.exists_names with ⟨rel', rest', hrel', hnames', hne', hfile'⟩
  have hclean : ∀ name ∈ rest, '/' ∉ name.toList := by
    intro name hname
    exact (rel.names_ok name (by rw [hnames]; exact List.mem_cons_of_mem _ hname)).2
  have hclean' : ∀ name ∈ rest', '/' ∉ name.toList := by
    intro name hname
    exact (rel'.names_ok name (by rw [hnames']; exact List.mem_cons_of_mem _ hname)).2
  have hrest : rest = rest' := by
    rw [← PurePosixPath.pieces_intercalate hne hclean, ← hfile, hfilename, hfile',
      PurePosixPath.pieces_intercalate hne' hclean']
  apply PurePosixPath.eq_of_relativeTo hrel hrel'
  rw [hnames, hnames', hproject, hrest]

/-! ## Collecting -/

/-- A call is passed over, or the file it touched is collected; then it was not seen before, and
later calls pass over it. -/
theorem collectFrom_cons (home : PurePosixPath) (call : ToolCall) (calls : List ToolCall)
    (seen : List PurePosixPath) :
    collectFrom home (call :: calls) seen = collectFrom home calls seen ∨
      ∃ path item, path ∉ seen ∧ IsItemOf home path item ∧
        collectFrom home (call :: calls) seen =
          (collectFrom home calls (path :: seen)).map (item :: ·) := by
  rw [collectFrom]
  split
  · exact Or.inl rfl
  · simp only
    split
    · exact Or.inl rfl
    · split <;> rename_i hpath
      · exact Or.inl rfl
      · simp only [Bool.or_eq_true, Bool.not_eq_true', not_or, Bool.not_eq_false,
          List.contains_eq_mem, decide_eq_true_eq] at hpath
        rcases exists_toItem hpath.2 with ⟨item, htoItem, hitem⟩
        refine Or.inr ⟨_, item, hpath.1, hitem, ?_⟩
        rw [htoItem, Option.map_eq_bind]
        rfl

/-- Collecting never raises. -/
theorem collectFrom_total (home : PurePosixPath) (calls : List ToolCall)
    (seen : List PurePosixPath) : ∃ items, collectFrom home calls seen = some items := by
  induction calls generalizing seen with
  | nil => exact ⟨[], rfl⟩
  | cons call calls ih =>
      rcases collectFrom_cons home call calls seen with hskip | ⟨path, item, -, -, htake⟩
      · rw [hskip]
        exact ih seen
      · rcases ih (path :: seen) with ⟨items, hitems⟩
        exact ⟨item :: items, by rw [htake, hitems, Option.map_some]⟩

/-- Collected files were not seen before, and each is collected once. -/
theorem collectFrom_items {calls : List ToolCall} {seen : List PurePosixPath} {items : List Item}
    (h : collectFrom home calls seen = some items) :
    (∀ item ∈ items, ∃ path, path ∉ seen ∧ IsItemOf home path item) ∧
      (items.map Item.path).Nodup := by
  induction calls generalizing seen items with
  | nil =>
      cases h
      simp
  | cons call calls ih =>
      rcases collectFrom_cons home call calls seen with hskip | ⟨path, item, hseen, hitem, htake⟩
      · rw [hskip] at h
        exact ih h
      · rw [htake] at h
        rcases Option.map_eq_some_iff.mp h with ⟨rest, hrest, rfl⟩
        rcases ih hrest with ⟨hold, hnodup⟩
        constructor
        · intro item' hmem
          rcases List.mem_cons.mp hmem with rfl | hmem
          · exact ⟨path, hseen, hitem⟩
          · rcases hold item' hmem with ⟨path', hnew, hitem'⟩
            exact ⟨path', fun hp => hnew (List.mem_cons_of_mem _ hp), hitem'⟩
        · rw [List.map_cons, List.nodup_cons]
          refine ⟨?_, hnodup⟩
          intro hmem
          rcases List.mem_map.mp hmem with ⟨item', hmem', hpath⟩
          rcases hold item' hmem' with ⟨path', hnew, hitem'⟩
          rw [hitem'.eq_of_path hitem hpath] at hnew
          exact hnew List.mem_cons_self

theorem collectItems_total (home : PurePosixPath) (payload : Payload) :
    ∃ items, collectItems home payload = some items :=
  collectFrom_total home _ []

/-- A file is collected once. -/
theorem collectItems_nodup {payload : Payload} {items : List Item}
    (h : collectItems home payload = some items) : (items.map Item.path).Nodup :=
  (collectFrom_items h).2

/-! ## The server's paths -/

/-- Collected files differ in their project or their file name.  The server gives both a raw path,
and not the same one, exactly if it accepts their projects, and trimming the projects and
flattening the file names does not make them the same. -/
theorem capturedFiles_apart (home : PurePosixPath) (payload : Payload) :
    ∃ items, collectItems home payload = some items ∧
      ∀ i ∈ items, ∀ j ∈ items, i.path ≠ j.path →
        (i.project ≠ j.project ∨ i.filename ≠ j.filename) ∧
        ∀ (username : String) (agentId : Uuid),
          ((∃ r s, Memory.getRawPath username agentId (some i.project) i.filename = .ok r ∧
              Memory.getRawPath username agentId (some j.project) j.filename = .ok s ∧ r ≠ s) ↔
            Memory.IsCallerProject i.project ∧ Memory.IsCallerProject j.project ∧
              ¬ (RustStr.trim i.project = RustStr.trim j.project ∧
                Memory.SameUpToJoints i.filename j.filename)) := by
  rcases collectItems_total home payload with ⟨items, hitems⟩
  refine ⟨items, hitems, ?_⟩
  intro i hi j hj hne
  rcases (collectFrom_items hitems).1 i hi with ⟨path, -, hpath⟩
  rcases (collectFrom_items hitems).1 j hj with ⟨path', -, hpath'⟩
  constructor
  · rw [← not_and_or]
    rintro ⟨hproject, hfilename⟩
    apply hne
    rw [hpath.path_eq, hpath'.path_eq, hpath.eq_of_names hpath' hproject hfilename]
  · intro username agentId
    exact Memory.getRawPath_apart_iff username agentId _ _ _ _

/-- The payload of a batch that wrote two files. -/
def Payload.ofWrites (first second : String) : Payload :=
  ⟨some [⟨some "Write", some ⟨some first⟩⟩, ⟨some "Write", some ⟨some second⟩⟩]⟩

/-- Two notes of a project. -/
theorem capturedFiles_apart_notes :
    ∃ r s, Memory.getRawPath "alice" .nil (some "-home-alice") "memory/a.md" = .ok r ∧
      Memory.getRawPath "alice" .nil (some "-home-alice") "memory/b.md" = .ok s ∧ r ≠ s := by
  rcases capturedFiles_apart (.parse "/home/alice") (.ofWrites
    "/home/alice/.claude/projects/-home-alice/memory/a.md"
    "/home/alice/.claude/projects/-home-alice/memory/b.md") with ⟨items, hitems, hapart⟩
  have hcollected : collectItems (.parse "/home/alice") (.ofWrites
      "/home/alice/.claude/projects/-home-alice/memory/a.md"
      "/home/alice/.claude/projects/-home-alice/memory/b.md") = some [
      ⟨"-home-alice", "memory/a.md", "/home/alice/.claude/projects/-home-alice/memory/a.md"⟩,
      ⟨"-home-alice", "memory/b.md", "/home/alice/.claude/projects/-home-alice/memory/b.md"⟩] := by
    decide +kernel
  obtain rfl := Option.some.inj (hitems.symm.trans hcollected)
  have hproject : Memory.IsCallerProject "-home-alice" := by decide +kernel
  refine ((hapart _ List.mem_cons_self _ (List.mem_cons_of_mem _ List.mem_cons_self)
    (by decide)).2 "alice" .nil).mpr ⟨hproject, hproject, ?_⟩
  rw [← Memory.flattenFilename_inj_iff]
  decide +kernel

/-- A note in a folder and a note beside it are given one raw path. -/
theorem nested_note_overwritten :
    ∃ i j r, collectItems (.parse "/home/alice") (.ofWrites
        "/home/alice/.claude/projects/-home-alice/memory/notes/a.md"
        "/home/alice/.claude/projects/-home-alice/memory/notes_a.md") = some [i, j] ∧
      i.path ≠ j.path ∧
      Memory.getRawPath "alice" .nil (some i.project) i.filename = .ok r ∧
      Memory.getRawPath "alice" .nil (some j.project) j.filename = .ok r := by
  refine ⟨⟨"-home-alice", "memory/notes/a.md",
    "/home/alice/.claude/projects/-home-alice/memory/notes/a.md"⟩, ⟨"-home-alice",
    "memory/notes_a.md", "/home/alice/.claude/projects/-home-alice/memory/notes_a.md"⟩,
    Memory.rawPath "alice" .nil "-home-alice" "memory_notes_a.md", ?_, ?_, ?_, ?_⟩
  · decide +kernel
  · decide
  · decide +kernel
  · decide +kernel

end Plugins
end MemoryHub
