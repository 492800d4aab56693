import MemoryHub.Lib.UnixPath
import Mathlib.Logic.Function.Basic

/-!
# A file tree

A tree of directories and regular files, with the system calls the program makes.
A location is the list of names from an entry up to the root, so the parent of
`name :: loc` is `loc`; that every parent is a directory is a field of `Fs`.  Paths
are resolved piece by piece, so that `..` needs the directory before it to exist.
There are no links, no permissions and no limits; where those would make a call
fail, a caller injects the failure.

Main results:

- Theorem `walk_eq_ok`: a walk that succeeds ends at the lexical location.
- Theorem `createDirAll_extends`: creating directories only adds directories.
- Theorem `locate_mono`: what could be resolved still can be when directories are kept.
- Theorem `readToString_eq_ok`, `write_eq_ok`, `rename_eq_ok`, `unlink_eq_ok`: what each
  call does, at lexical locations.
- Theorem `readToString_names`, `createDirs_names`, `write_in_dir`, `rename_in_dir`: with
  ordinary names and nothing in the way, the calls succeed.
- Theorem `readToString_of_write`, `readToString_of_write_ne`: what a write leaves to read.
- Theorem `readToString_congr`, `readToString_of_extends_names`: changes that reading a path
  of names does not see.
-/

namespace FileSystem

open UnixPath

/-- Names from an entry up to the root. -/
abbrev Loc := List String

/-- A directory, or a regular file with its text; `none` when its bytes are not
valid UTF-8. -/
inductive Node where
  | dir
  | file (text : Option String)
deriving DecidableEq, Repr

/-- The kinds of errors the calls return. -/
inductive IoError where
  | notFound
  | notADirectory
  | isADirectory
  | alreadyExists
  | invalidInput
  | invalidData
  | other (message : String)
deriving DecidableEq, Repr

/-- A file tree: every entry stands in a directory. -/
structure Fs where
  node : Loc → Option Node
  root_dir : node [] = some .dir
  parent_dir : ∀ name loc, node (name :: loc) ≠ none → node loc = some .dir

namespace Fs

/-! ## Entries -/

/-- The tree with an empty root directory. -/
def empty : Fs where
  node loc := if loc = [] then some .dir else none
  root_dir := rfl
  parent_dir := by
    intro name loc h
    simp at h

/-- Add a directory where there is no entry. -/
def putDir (fs : Fs) (name : String) (loc : Loc) : Fs :=
  if h : fs.node loc = some .dir ∧ fs.node (name :: loc) = none then
    { node := Function.update fs.node (name :: loc) (some .dir)
      root_dir := by simpa using fs.root_dir
      parent_dir := by
        intro n l hl
        by_cases heq : l = name :: loc
        · simp [heq]
        · rw [Function.update_of_ne heq]
          by_cases hnl : n :: l = name :: loc
          · rw [(List.cons.inj hnl).2]
            exact h.1
          · rw [Function.update_of_ne hnl] at hl
            exact fs.parent_dir n l hl }
  else fs

/-- Put a file where there is no directory. -/
def putFile (fs : Fs) (name : String) (loc : Loc) (text : Option String) : Fs :=
  if h : fs.node loc = some .dir ∧ fs.node (name :: loc) ≠ some .dir then
    { node := Function.update fs.node (name :: loc) (some (.file text))
      root_dir := by simpa using fs.root_dir
      parent_dir := by
        intro n l hl
        by_cases hnl : n :: l = name :: loc
        · rw [(List.cons.inj hnl).2, Function.update_of_ne (by simp)]
          exact h.1
        · rw [Function.update_of_ne hnl] at hl
          have hdir := fs.parent_dir n l hl
          have hne : l ≠ name :: loc := by
            intro heq
            exact h.2 (heq ▸ hdir)
          rw [Function.update_of_ne hne]
          exact hdir }
  else fs

/-- Take a file away. -/
def removeFile (fs : Fs) (name : String) (loc : Loc) : Fs :=
  if h : fs.node (name :: loc) ≠ some .dir then
    { node := Function.update fs.node (name :: loc) none
      root_dir := by simpa using fs.root_dir
      parent_dir := by
        intro n l hl
        by_cases hnl : n :: l = name :: loc
        · simp [hnl] at hl
        · rw [Function.update_of_ne hnl] at hl
          have hdir := fs.parent_dir n l hl
          have hne : l ≠ name :: loc := by
            intro heq
            exact h (heq ▸ hdir)
          rw [Function.update_of_ne hne]
          exact hdir }
  else fs

theorem node_putDir {fs : Fs} {name : String} {loc : Loc} (hdir : fs.node loc = some .dir)
    (hnone : fs.node (name :: loc) = none) :
    (fs.putDir name loc).node = Function.update fs.node (name :: loc) (some .dir) := by
  rw [putDir, dif_pos ⟨hdir, hnone⟩]

theorem node_putFile {fs : Fs} {name : String} {loc : Loc} (hdir : fs.node loc = some .dir)
    (hfile : fs.node (name :: loc) ≠ some .dir) (text : Option String) :
    (fs.putFile name loc text).node =
      Function.update fs.node (name :: loc) (some (.file text)) := by
  rw [putFile, dif_pos ⟨hdir, hfile⟩]

theorem node_removeFile {fs : Fs} {name : String} {loc : Loc}
    (hfile : fs.node (name :: loc) ≠ some .dir) :
    (fs.removeFile name loc).node = Function.update fs.node (name :: loc) none := by
  rw [removeFile, dif_pos hfile]

/-! ## Walking -/

/-- Follow one piece of a path from a directory to a directory. -/
def enter (fs : Fs) (loc : Loc) (p : String) : Except IoError Loc :=
  if isSkipped p then .ok loc
  else if p = ".." then .ok loc.tail
  else
    match fs.node (p :: loc) with
    | some .dir => .ok (p :: loc)
    | some (.file _) => .error .notADirectory
    | none => .error .notFound

/-- Follow the pieces of a path from a directory to a directory. -/
def walk (fs : Fs) (loc : Loc) (ps : List String) : Except IoError Loc :=
  ps.foldlM fs.enter loc

/-- Where the pieces of a path lead if every directory on the way exists. -/
def lexical (loc : Loc) : List String → Loc
  | [] => loc
  | p :: ps =>
      if isSkipped p then lexical loc ps
      else if p = ".." then lexical loc.tail ps
      else lexical (p :: loc) ps

theorem walk_cons_eq_ok {fs : Fs} {loc l : Loc} {p : String} {ps : List String} :
    fs.walk loc (p :: ps) = .ok l ↔
      ∃ loc', fs.enter loc p = .ok loc' ∧ fs.walk loc' ps = .ok l := by
  unfold walk
  rw [List.foldlM_cons]
  cases fs.enter loc p with
  | error e => simp [bind, Except.bind]
  | ok loc' => simp [bind, Except.bind]

/-- A step from a directory leads to a directory, the lexical one. -/
theorem enter_eq_ok {fs : Fs} {loc loc' : Loc} {p : String} (hdir : fs.node loc = some .dir)
    (h : fs.enter loc p = .ok loc') : fs.node loc' = some .dir ∧ loc' = lexical loc [p] := by
  unfold enter at h
  simp only [lexical]
  split at h <;> rename_i hskip
  · cases h
    exact ⟨hdir, by simp [hskip]⟩
  · split at h <;> rename_i hdots
    · cases h
      refine ⟨?_, by simp [hdots, isSkipped]⟩
      cases loc with
      | nil => exact fs.root_dir
      | cons name loc => exact fs.parent_dir name loc (by simp [hdir])
    · split at h <;> rename_i hnode
      · cases h
        exact ⟨hnode, by simp [hskip, hdots]⟩
      · contradiction
      · contradiction

theorem lexical_cons (loc : Loc) (p : String) (ps : List String) :
    lexical loc (p :: ps) = lexical (lexical loc [p]) ps := by
  simp only [lexical]
  split
  · rfl
  · split <;> rfl

theorem lexical_append (loc : Loc) (ps qs : List String) :
    lexical loc (ps ++ qs) = lexical (lexical loc ps) qs := by
  induction ps generalizing loc with
  | nil => rfl
  | cons p ps ih => rw [List.cons_append, lexical_cons, ih, ← lexical_cons]

/-- A name leads one level down. -/
theorem lexical_cons_name {p : String} (h : IsName p) (loc : Loc) (ps : List String) :
    lexical loc (p :: ps) = lexical (p :: loc) ps := by
  simp [lexical, h.isSkipped, h.2.2]

/-- Names lead down, one level each. -/
theorem lexical_names {ps : List String} (h : ∀ p ∈ ps, IsName p) (loc : Loc) :
    lexical loc ps = ps.reverse ++ loc := by
  induction ps generalizing loc with
  | nil => rfl
  | cons p ps ih =>
      rw [lexical_cons_name (h p List.mem_cons_self),
        ih fun q hq => h q (List.mem_cons_of_mem p hq), List.reverse_cons, List.append_assoc,
        List.singleton_append]

/-- Each piece leads at most one level down. -/
theorem length_lexical_le (loc : Loc) (ps : List String) :
    (lexical loc ps).length ≤ loc.length + ps.length := by
  induction ps generalizing loc with
  | nil => exact Nat.le_refl _
  | cons p ps ih =>
      simp only [lexical, List.length_cons]
      split
      · have := ih loc
        omega
      · split
        · have := ih loc.tail
          rw [List.length_tail] at this
          omega
        · have := ih (p :: loc)
          rw [List.length_cons] at this
          omega

/-- A piece that is no name leads no level down. -/
theorem length_lexical_lt {loc : Loc} {ps : List String} {p : String} (hp : p ∈ ps)
    (hname : ¬ IsName p) : (lexical loc ps).length < loc.length + ps.length := by
  induction ps generalizing loc with
  | nil => simp at hp
  | cons q ps ih =>
      simp only [lexical, List.length_cons]
      split <;> rename_i hskip
      · have := length_lexical_le loc ps
        omega
      · split <;> rename_i hdots
        · have := length_lexical_le loc.tail ps
          rw [List.length_tail] at this
          omega
        · have hq : IsName q := by
            simp only [isSkipped, Bool.or_eq_true, beq_iff_eq, not_or] at hskip
            exact ⟨hskip.1, hskip.2, hdots⟩
          rcases List.mem_cons.mp hp with heq | hmem
          · exact absurd (heq ▸ hq) hname
          · have := @ih (q :: loc) hmem
            rw [List.length_cons] at this
            omega

/-- A walk that succeeds ends at the lexical location, which is a directory. -/
theorem walk_eq_ok {fs : Fs} {loc l : Loc} {ps : List String} (hdir : fs.node loc = some .dir)
    (h : fs.walk loc ps = .ok l) : fs.node l = some .dir ∧ l = lexical loc ps := by
  induction ps generalizing loc with
  | nil =>
      cases h
      exact ⟨hdir, rfl⟩
  | cons p ps ih =>
      rcases walk_cons_eq_ok.mp h with ⟨loc', henter, hwalk⟩
      rcases enter_eq_ok hdir henter with ⟨hdir', hloc'⟩
      rcases ih hdir' hwalk with ⟨hl, hlex⟩
      rw [lexical_cons, ← hloc']
      exact ⟨hl, hlex⟩

/-! ## Growing trees -/

/-- `fs'` is `fs` with more directories. -/
def Extends (fs fs' : Fs) : Prop :=
  ∀ l, fs'.node l = fs.node l ∨ (fs.node l = none ∧ fs'.node l = some .dir)

/-- Directories of `fs` are directories of `fs'`. -/
def KeepsDirs (fs fs' : Fs) : Prop :=
  ∀ l, fs.node l = some .dir → fs'.node l = some .dir

theorem Extends.refl (fs : Fs) : Extends fs fs :=
  fun _ => Or.inl rfl

theorem Extends.trans {fs₁ fs₂ fs₃ : Fs} (h₁ : Extends fs₁ fs₂) (h₂ : Extends fs₂ fs₃) :
    Extends fs₁ fs₃ := by
  intro l
  rcases h₂ l with heq | ⟨hnone, hdir⟩
  · rcases h₁ l with heq₁ | ⟨hnone₁, hdir₁⟩
    · exact Or.inl (heq.trans heq₁)
    · exact Or.inr ⟨hnone₁, heq.trans hdir₁⟩
  · rcases h₁ l with heq₁ | ⟨-, hdir₁⟩
    · exact Or.inr ⟨heq₁ ▸ hnone, hdir⟩
    · rw [hdir₁] at hnone
      contradiction

/-- `fs'` is `fs` with more directories, except at some locations. -/
def ExtendsOutside (touched : Loc → Prop) (fs fs' : Fs) : Prop :=
  ∀ l, ¬ touched l → fs'.node l = fs.node l ∨ (fs.node l = none ∧ fs'.node l = some .dir)

theorem Extends.outside {fs fs' : Fs} (h : Extends fs fs') (touched : Loc → Prop) :
    ExtendsOutside touched fs fs' :=
  fun l _ => h l

/-- Changing one of the excepted locations afterwards is allowed. -/
theorem ExtendsOutside.update {touched : Loc → Prop} {fs₁ fs₂ fs₃ : Fs}
    (h : ExtendsOutside touched fs₁ fs₂) (hsame : ∀ l, ¬ touched l → fs₃.node l = fs₂.node l) :
    ExtendsOutside touched fs₁ fs₃ := by
  intro l hl
  rw [hsame l hl]
  exact h l hl

theorem Extends.node_eq {fs fs' : Fs} (h : Extends fs fs') {l : Loc} (hl : fs.node l ≠ none) :
    fs'.node l = fs.node l := by
  rcases h l with heq | ⟨hnone, -⟩
  · exact heq
  · exact absurd hnone hl

/-- A tree with more directories has the same files. -/
theorem Extends.file_iff {fs fs' : Fs} (h : Extends fs fs') {l : Loc} {text : Option String} :
    fs'.node l = some (.file text) ↔ fs.node l = some (.file text) := by
  rcases h l with heq | ⟨hnone, hdir⟩
  · rw [heq]
  · simp [hnone, hdir]

theorem Extends.keepsDirs {fs fs' : Fs} (h : Extends fs fs') : KeepsDirs fs fs' := by
  intro l hl
  rw [h.node_eq (by simp [hl]), hl]

theorem KeepsDirs.trans {fs₁ fs₂ fs₃ : Fs} (h₁ : KeepsDirs fs₁ fs₂) (h₂ : KeepsDirs fs₂ fs₃) :
    KeepsDirs fs₁ fs₃ :=
  fun l hl => h₂ l (h₁ l hl)

/-- Adding a directory where there was no entry extends the tree. -/
theorem putDir_extends {fs : Fs} {name : String} {loc : Loc} (hdir : fs.node loc = some .dir)
    (hnone : fs.node (name :: loc) = none) : Extends fs (fs.putDir name loc) := by
  intro l
  rw [node_putDir hdir hnone]
  by_cases hl : l = name :: loc
  · exact Or.inr ⟨hl ▸ hnone, by simp [hl]⟩
  · exact Or.inl (by simp [hl])

/-- What could be walked still can be when directories are kept. -/
theorem walk_mono {fs fs' : Fs} (hkeep : KeepsDirs fs fs') {loc l : Loc} {ps : List String}
    (h : fs.walk loc ps = .ok l) : fs'.walk loc ps = .ok l := by
  induction ps generalizing loc with
  | nil => exact h
  | cons p ps ih =>
      rcases walk_cons_eq_ok.mp h with ⟨loc', henter, hwalk⟩
      refine walk_cons_eq_ok.mpr ⟨loc', ?_, ih hwalk⟩
      unfold enter at henter ⊢
      split at henter <;> rename_i hskip
      · rw [if_pos hskip]
        exact henter
      · split at henter <;> rename_i hdots
        · rw [if_neg hskip, if_pos hdots]
          exact henter
        · split at henter <;> rename_i hnode
          · rw [if_neg hskip, if_neg hdots, hkeep _ hnode]
            exact henter
          · contradiction
          · contradiction

/-! ## System calls -/

/-- Whether a path holds the character no name may hold. -/
def hasNul (ps : List String) : Bool :=
  ps.any fun p => p.toList.contains '\x00'

/-- What a path leads to: a directory, or a name in a directory. -/
inductive Target where
  | dir (loc : Loc)
  | entry (name : String) (loc : Loc)
deriving DecidableEq, Repr

/-- Resolve a path up to its last piece. -/
def locate (fs : Fs) (ps : List String) : Except IoError Target :=
  if hasNul ps then .error .invalidInput
  else
    match ps.getLast? with
    | none => .ok (.dir [])
    | some last =>
        match fs.walk [] ps.dropLast with
        | .error e => .error e
        | .ok loc =>
            if isSkipped last then .ok (.dir loc)
            else if last = ".." then .ok (.dir loc.tail)
            else .ok (.entry last loc)

/-- `fs::read_to_string`. -/
def readToString (fs : Fs) (ps : List String) : Except IoError String :=
  match fs.locate ps with
  | .error e => .error e
  | .ok (.dir _) => .error .isADirectory
  | .ok (.entry name loc) =>
      match fs.node (name :: loc) with
      | none => .error .notFound
      | some .dir => .error .isADirectory
      | some (.file none) => .error .invalidData
      | some (.file (some text)) => .ok text

/-- `fs::write`: create the file, or replace what it holds. -/
def write (fs : Fs) (ps : List String) (text : Option String) : Except IoError Fs :=
  match fs.locate ps with
  | .error e => .error e
  | .ok (.dir _) => .error .isADirectory
  | .ok (.entry name loc) =>
      if fs.node (name :: loc) = some .dir then .error .isADirectory
      else .ok (fs.putFile name loc text)

/-- `fs::rename` of a regular file; renaming a file to itself changes nothing. -/
def rename (fs : Fs) (old new : List String) : Except IoError Fs :=
  match fs.locate old, fs.locate new with
  | .error e, _ => .error e
  | .ok _, .error e => .error e
  | .ok (.dir _), _ => .error .isADirectory
  | .ok (.entry _ _), .ok (.dir _) => .error .notADirectory
  | .ok (.entry name loc), .ok (.entry name' loc') =>
      match fs.node (name :: loc) with
      | none => .error .notFound
      | some .dir => .error .isADirectory
      | some (.file text) =>
          if fs.node (name' :: loc') = some .dir then .error .isADirectory
          else if name' :: loc' = name :: loc then .ok fs
          else .ok ((fs.removeFile name loc).putFile name' loc' text)

/-- `fs::remove_file`. -/
def unlink (fs : Fs) (ps : List String) : Except IoError Fs :=
  match fs.locate ps with
  | .error e => .error e
  | .ok (.dir _) => .error .isADirectory
  | .ok (.entry name loc) =>
      match fs.node (name :: loc) with
      | none => .error .notFound
      | some .dir => .error .isADirectory
      | some (.file _) => .ok (fs.removeFile name loc)

/-- `fs::create_dir_all` from a directory on: enter what is there and create what is
not.  What was created before a failure stays. -/
def createDirs (fs : Fs) (loc : Loc) : List String → Except IoError Unit × Fs
  | [] => (.ok (), fs)
  | p :: ps =>
      if isSkipped p then createDirs fs loc ps
      else if p = ".." then createDirs fs loc.tail ps
      else
        match fs.node (p :: loc) with
        | some .dir => createDirs fs (p :: loc) ps
        | some (.file _) => (.error (if ps = [] then .alreadyExists else .notADirectory), fs)
        | none => createDirs (fs.putDir p loc) (p :: loc) ps

/-- `fs::create_dir_all`. -/
def createDirAll (fs : Fs) (ps : List String) : Except IoError Unit × Fs :=
  if hasNul ps then (.error .invalidInput, fs) else createDirs fs [] ps

/-! ## Creating directories -/

/-- Creating directories only adds directories. -/
theorem createDirs_extends {fs : Fs} {loc : Loc} (hdir : fs.node loc = some .dir)
    (ps : List String) : Extends fs (createDirs fs loc ps).2 := by
  induction ps generalizing fs loc with
  | nil => exact Extends.refl fs
  | cons p ps ih =>
      unfold createDirs
      split
      · exact ih hdir
      · split
        · apply ih
          cases loc with
          | nil => exact hdir
          | cons name loc => exact fs.parent_dir name loc (by simp [hdir])
        · split <;> rename_i hnode
          · exact ih hnode
          · exact Extends.refl fs
          · have hput : (fs.putDir p loc).node (p :: loc) = some .dir := by
              rw [node_putDir hdir hnode, Function.update_self]
            exact (putDir_extends hdir hnode).trans (ih hput)

/-- What changes is reached by a part of the path. -/
theorem exists_prefix_of_createDirs {fs : Fs} {loc : Loc} {ps : List String} {l : Loc}
    (h : (createDirs fs loc ps).2.node l ≠ fs.node l) :
    ∃ pre, pre <+: ps ∧ pre ≠ [] ∧ l = lexical loc pre := by
  induction ps generalizing fs loc with
  | nil => exact absurd rfl h
  | cons p ps ih =>
      unfold createDirs at h
      -- What changes on the way from the first piece on.
      have hrest : ∀ {fs' : Fs} {loc' : Loc}, lexical loc [p] = loc' →
          (createDirs fs' loc' ps).2.node l ≠ fs'.node l →
            ∃ pre, pre <+: p :: ps ∧ pre ≠ [] ∧ l = lexical loc pre := by
        intro fs' loc' hloc' hne
        rcases ih hne with ⟨pre, hpre, -, hl⟩
        refine ⟨p :: pre, List.cons_prefix_cons.mpr ⟨rfl, hpre⟩, by simp, ?_⟩
        rw [lexical_cons, hloc', hl]
      split at h <;> rename_i hskip
      · exact hrest (by simp [lexical, hskip]) h
      · split at h <;> rename_i hdots
        · exact hrest (by simp [lexical, hdots, isSkipped]) h
        · have hloc' : lexical loc [p] = p :: loc := by simp [lexical, hskip, hdots]
          split at h <;> rename_i hnode
          · exact hrest hloc' h
          · exact absurd rfl h
          · by_cases hput : (fs.putDir p loc).node l = fs.node l
            · exact hrest hloc' (hput ▸ h)
            · have hl : l = p :: loc := by
                unfold putDir at hput
                split at hput
                · by_contra hne
                  exact hput (Function.update_of_ne hne _ _)
                · exact absurd rfl hput
              exact ⟨[p], by simp, by simp, hl.trans hloc'.symm⟩

theorem exists_prefix_of_createDirAll {fs : Fs} {ps : List String} {l : Loc}
    (h : (fs.createDirAll ps).2.node l ≠ fs.node l) :
    ∃ pre, pre <+: ps ∧ pre ≠ [] ∧ l = lexical [] pre := by
  unfold createDirAll at h
  split at h
  · exact absurd rfl h
  · exact exists_prefix_of_createDirs h

/-- A path with a character that no name may hold makes no directories. -/
theorem hasNul_of_createDirAll {fs : Fs} {ps : List String} {l : Loc}
    (h : (fs.createDirAll ps).2.node l ≠ fs.node l) : hasNul ps = false := by
  unfold createDirAll at h
  split at h <;> rename_i hnul
  · exact absurd rfl h
  · exact Bool.eq_false_iff.mpr hnul

theorem createDirAll_extends (fs : Fs) (ps : List String) :
    Extends fs (fs.createDirAll ps).2 := by
  unfold createDirAll
  split
  · exact Extends.refl fs
  · exact createDirs_extends fs.root_dir ps

/-! ## Ordinary names -/

/-- Nothing lies below what is not there. -/
theorem node_append_eq_none {fs : Fs} {loc : Loc} (h : fs.node loc = none) (names : List String) :
    fs.node (names ++ loc) = none := by
  induction names with
  | nil => exact h
  | cons name names ih =>
      by_contra hne
      have hdir := fs.parent_dir name (names ++ loc) hne
      rw [ih] at hdir
      contradiction

/-- No file stands between the root and the location. -/
def NoFileAbove (fs : Fs) (loc : Loc) : Prop :=
  ∀ l, l <:+ loc → ∀ text, fs.node l ≠ some (.file text)

/-- Where no file is in the way, following names leads to a directory or finds
nothing there. -/
theorem walk_names {fs : Fs} {loc : Loc} {ps : List String} (hnames : ∀ p ∈ ps, IsName p)
    (hfolders : fs.NoFileAbove (ps.reverse ++ loc)) :
    fs.walk loc ps = .ok (ps.reverse ++ loc) ∨
      (fs.walk loc ps = .error .notFound ∧ fs.node (ps.reverse ++ loc) = none) := by
  induction ps generalizing loc with
  | nil => exact Or.inl rfl
  | cons p ps ih =>
      have hp : IsName p := hnames p List.mem_cons_self
      have hwalk : fs.walk loc (p :: ps) = (fs.enter loc p).bind fun l => fs.walk l ps := rfl
      have hreverse : (p :: ps).reverse ++ loc = ps.reverse ++ p :: loc := by simp
      rw [hreverse] at hfolders ⊢
      rw [hwalk, enter, if_neg (by simp [hp.isSkipped]), if_neg hp.2.2]
      cases hnode : fs.node (p :: loc) with
      | none => exact Or.inr ⟨rfl, node_append_eq_none hnode _⟩
      | some n =>
          cases n with
          | dir => exact ih (fun q hq => hnames q (List.mem_cons_of_mem p hq)) hfolders
          | file text => exact absurd hnode (hfolders _ (List.suffix_append _ _) text)

/-- A path of names leads to its last one, unless the folder is not there. -/
theorem locate_names {fs : Fs} {ps : List String} {name : String} (hnames : ∀ p ∈ ps, IsName p)
    (hname : IsName name) (hnul : hasNul (ps ++ [name]) = false)
    (hfolders : fs.NoFileAbove ps.reverse) :
    fs.locate (ps ++ [name]) = .ok (.entry name ps.reverse) ∨
      (fs.locate (ps ++ [name]) = .error .notFound ∧ fs.node ps.reverse = none) := by
  have hwalk := @walk_names fs [] ps hnames (by rwa [List.append_nil])
  rw [List.append_nil] at hwalk
  rw [locate, hnul, if_neg (by simp), List.getLast?_concat, List.dropLast_concat]
  rcases hwalk with hwalk | ⟨hwalk, hnone⟩
  · left
    simp [hwalk, hname.isSkipped, hname.2.2]
  · right
    exact ⟨by simp [hwalk], hnone⟩

/-- What reading an entry gives. -/
def readEntry : Option Node → Except IoError String
  | none => .error .notFound
  | some .dir => .error .isADirectory
  | some (.file none) => .error .invalidData
  | some (.file (some text)) => .ok text

/-- Reading a path of names reads the entry where it leads. -/
theorem readToString_names {fs : Fs} {ps : List String} {name : String}
    (hnames : ∀ p ∈ ps, IsName p) (hname : IsName name) (hnul : hasNul (ps ++ [name]) = false)
    (hfolders : fs.NoFileAbove ps.reverse) :
    fs.readToString (ps ++ [name]) = readEntry (fs.node (name :: ps.reverse)) := by
  unfold readToString
  rcases locate_names hnames hname hnul hfolders with hlocate | ⟨hlocate, hnone⟩
  · rw [hlocate]
    unfold readEntry
    rfl
  · have hentry : fs.node (name :: ps.reverse) = none := node_append_eq_none hnone [name]
    rw [hlocate, hentry]
    rfl

/-- Creating the directories of a path of names succeeds where no file is in the way. -/
theorem createDirs_names {fs : Fs} {loc : Loc} {ps : List String} (hnames : ∀ p ∈ ps, IsName p)
    (hdir : fs.node loc = some .dir) (hfolders : fs.NoFileAbove (ps.reverse ++ loc)) :
    (createDirs fs loc ps).1 = .ok () ∧
      (createDirs fs loc ps).2.node (ps.reverse ++ loc) = some .dir := by
  induction ps generalizing fs loc with
  | nil => exact ⟨rfl, hdir⟩
  | cons p ps ih =>
      have hp : IsName p := hnames p List.mem_cons_self
      have hrest : ∀ q ∈ ps, IsName q := fun q hq => hnames q (List.mem_cons_of_mem p hq)
      have hreverse : (p :: ps).reverse ++ loc = ps.reverse ++ p :: loc := by simp
      rw [hreverse] at hfolders ⊢
      rw [createDirs, if_neg (by simp [hp.isSkipped]), if_neg hp.2.2]
      cases hnode : fs.node (p :: loc) with
      | none =>
          have hput := putDir_extends hdir hnode
          refine ih hrest (by rw [node_putDir hdir hnode, Function.update_self]) ?_
          intro l hl text
          rcases hput l with heq | ⟨-, hnew⟩
          · rw [heq]
            exact hfolders l hl text
          · rw [hnew]
            simp
      | some n =>
          cases n with
          | dir => exact ih hrest hnode hfolders
          | file text => exact absurd hnode (hfolders _ (List.suffix_append _ _) text)

/-- What stands above a directory is a directory. -/
theorem node_of_suffix {fs : Fs} {loc l : Loc} (hdir : fs.node loc = some .dir) (hl : l <:+ loc) :
    fs.node l = some .dir := by
  induction loc with
  | nil => rwa [List.suffix_nil.mp hl]
  | cons name loc ih =>
      rcases List.suffix_cons_iff.mp hl with rfl | hl
      · exact hdir
      · exact ih (fs.parent_dir name loc (by simp [hdir])) hl

/-- In a directory, a path of names leads to its last one. -/
theorem locate_in_dir {fs : Fs} {ps : List String} {name : String} (hnames : ∀ p ∈ ps, IsName p)
    (hname : IsName name) (hnul : hasNul (ps ++ [name]) = false)
    (hdir : fs.node ps.reverse = some .dir) :
    fs.locate (ps ++ [name]) = .ok (.entry name ps.reverse) := by
  have hfolders : fs.NoFileAbove ps.reverse := by
    intro l hl text
    simp [node_of_suffix hdir hl]
  rcases locate_names hnames hname hnul hfolders with hlocate | ⟨-, hnone⟩
  · exact hlocate
  · rw [hdir] at hnone
    contradiction

/-- A file can be written in a directory. -/
theorem write_in_dir {fs : Fs} {ps : List String} {name : String} (hnames : ∀ p ∈ ps, IsName p)
    (hname : IsName name) (hnul : hasNul (ps ++ [name]) = false)
    (hdir : fs.node ps.reverse = some .dir) (hfile : fs.node (name :: ps.reverse) ≠ some .dir)
    (text : Option String) : ∃ fs', fs.write (ps ++ [name]) text = .ok fs' := by
  rw [write, locate_in_dir hnames hname hnul hdir]
  exact ⟨_, if_neg hfile⟩

/-- A file can be renamed within its directory. -/
theorem rename_in_dir {fs : Fs} {ps : List String} {name name' : String}
    (hnames : ∀ p ∈ ps, IsName p) (hname : IsName name) (hname' : IsName name')
    (hnul : hasNul (ps ++ [name]) = false) (hnul' : hasNul (ps ++ [name']) = false)
    (hdir : fs.node ps.reverse = some .dir) {text : Option String}
    (hfile : fs.node (name :: ps.reverse) = some (.file text))
    (hfile' : fs.node (name' :: ps.reverse) ≠ some .dir) :
    ∃ fs', fs.rename (ps ++ [name]) (ps ++ [name']) = .ok fs' := by
  rw [rename, locate_in_dir hnames hname hnul hdir, locate_in_dir hnames hname' hnul' hdir]
  simp only [hfile, if_neg hfile']
  split
  · exact ⟨_, rfl⟩
  · exact ⟨_, rfl⟩

/-! ## Detours -/

/-- Trees with the same entries are the same. -/
theorem eq_of_node {fs fs' : Fs} (h : ∀ l, fs.node l = fs'.node l) : fs = fs' := by
  cases fs
  cases fs'
  congr
  exact funext h

/-- The names in a lexical location are those of the path. -/
theorem mem_lexical {loc : Loc} {ps : List String} {p : String} (h : p ∈ lexical loc ps) :
    p ∈ loc ∨ (p ∈ ps ∧ IsName p) := by
  induction ps generalizing loc with
  | nil => exact Or.inl h
  | cons q ps ih =>
      have hlater : p ∈ ps ∧ IsName p → p ∈ q :: ps ∧ IsName p :=
        fun h => ⟨List.mem_cons_of_mem q h.1, h.2⟩
      rw [lexical] at h
      split at h <;> rename_i hskip
      · exact (ih h).imp_right hlater
      · split at h <;> rename_i hdots
        · exact (ih h).imp List.mem_of_mem_tail hlater
        · rcases ih h with hloc | hps
          · rcases List.mem_cons.mp hloc with rfl | hloc
            · simp only [isSkipped, Bool.or_eq_true, beq_iff_eq, not_or] at hskip
              exact Or.inr ⟨List.mem_cons_self, hskip.1, hskip.2, hdots⟩
            · exact Or.inl hloc
          · exact Or.inr (hlater hps)

/-- Dots lead up. -/
theorem walk_dots (fs : Fs) (loc : Loc) (n : Nat) :
    fs.walk loc (List.replicate n "..") = .ok (loc.drop n) := by
  induction n generalizing loc with
  | zero => rfl
  | succ n ih =>
      rw [List.replicate_succ, ← List.drop_tail]
      exact ih loc.tail

/-- The way down to a location, and up again. -/
def detour (loc : Loc) : List String :=
  loc.reverse ++ List.replicate loc.length ".."

/-- A detour to a directory leads back to the root. -/
theorem walk_detour {fs : Fs} {loc : Loc} (hnames : ∀ p ∈ loc, IsName p)
    (hdir : fs.node loc = some .dir) : fs.walk [] (detour loc) = .ok [] := by
  have hfolders : fs.NoFileAbove loc := by
    intro l hl text
    simp [node_of_suffix hdir hl]
  have hdown : fs.walk [] loc.reverse = .ok loc := by
    have hwalk := @walk_names fs [] loc.reverse (by simpa using hnames) (by simpa using hfolders)
    rw [List.reverse_reverse, List.append_nil, hdir] at hwalk
    exact hwalk.resolve_right fun h => by simpa using h.2
  have hback : fs.walk loc (List.replicate loc.length "..") = .ok [] := by
    rw [walk_dots, List.drop_length]
  unfold walk at hdown hback ⊢
  rw [detour, List.foldlM_append, hdown]
  exact hback

/-- A path with a detour to a directory leads where the path does. -/
theorem locate_detour {fs : Fs} {loc : Loc} (hnames : ∀ p ∈ loc, IsName p)
    (hnul : hasNul loc = false) (hdir : fs.node loc = some .dir) {ps : List String}
    (hne : ps ≠ []) : fs.locate (detour loc ++ ps) = fs.locate ps := by
  have hnul' : hasNul (detour loc ++ ps) = hasNul ps := by
    have hdots :
        (List.replicate loc.length "..").any (fun p => p.toList.contains '\x00') = false := by
      rw [List.any_replicate]
      split
      · rfl
      · decide
    rw [hasNul] at hnul
    rw [hasNul, detour, List.any_append, List.any_append, List.any_reverse, hnul, hdots,
      Bool.false_or, Bool.false_or, hasNul]
  have hlast : (detour loc ++ ps).getLast? = ps.getLast? := List.getLast?_append_of_ne_nil _ hne
  have hwalk : fs.walk [] (detour loc ++ ps.dropLast) = fs.walk [] ps.dropLast := by
    have hround := walk_detour hnames hdir
    unfold walk at hround ⊢
    rw [List.foldlM_append, hround]
    rfl
  rw [locate, locate, hnul', hlast, List.dropLast_append_of_ne_nil hne, hwalk]

/-- A path with a detour to what is not there leads nowhere. -/
theorem locate_detour_of_none {fs : Fs} {loc : Loc} (hnames : ∀ p ∈ loc, IsName p)
    (hnone : fs.node loc = none) {ps : List String} (hne : ps ≠ []) (t : Target) :
    fs.locate (detour loc ++ ps) ≠ .ok t := by
  intro h
  have hdown : ∃ l, fs.walk [] loc.reverse = .ok l := by
    unfold locate at h
    split at h
    · contradiction
    · rw [List.getLast?_append_of_ne_nil _ hne, List.dropLast_append_of_ne_nil hne] at h
      cases hdown : fs.walk [] loc.reverse with
      | ok l => exact ⟨l, rfl⟩
      | error e =>
          have hwalk : fs.walk [] (detour loc ++ ps.dropLast) = .error e := by
            unfold walk at hdown ⊢
            rw [detour, List.append_assoc, List.foldlM_append, hdown]
            rfl
          cases hlast : ps.getLast? with
          | none => exact absurd (List.getLast?_eq_none_iff.mp hlast) hne
          | some last => simp [hlast, hwalk] at h
  rcases hdown with ⟨l, hdown⟩
  rcases walk_eq_ok fs.root_dir hdown with ⟨hdir, hlex⟩
  rw [lexical_names (by simpa using hnames), List.reverse_reverse, List.append_nil] at hlex
  rw [hlex, hnone] at hdir
  contradiction

/-! ## What the calls do -/

/-- A path that leads to an entry leads to its lexical location. -/
theorem locate_eq_entry {fs : Fs} {ps : List String} {name : String} {loc : Loc}
    (h : fs.locate ps = .ok (.entry name loc)) :
    hasNul ps = false ∧ IsName name ∧ fs.node loc = some .dir ∧ name :: loc = lexical [] ps ∧
      ∃ qs, ps = qs ++ [name] := by
  unfold locate at h
  split at h <;> rename_i hnul
  · contradiction
  · cases hlast : ps.getLast? with
    | none => simp [hlast] at h
    | some last =>
        cases hwalk : fs.walk [] ps.dropLast with
        | error e => simp [hlast, hwalk] at h
        | ok dirLoc =>
            simp only [hlast, hwalk] at h
            split at h <;> rename_i hskip
            · simp at h
            · split at h <;> rename_i hdots
              · simp at h
              · simp only [Except.ok.injEq, Target.entry.injEq] at h
                rcases h with ⟨rfl, rfl⟩
                have hps : ps.dropLast ++ [last] = ps := List.dropLast_append_getLast? last hlast
                rcases walk_eq_ok fs.root_dir hwalk with ⟨hdir, hlex⟩
                have hname : IsName last := by
                  simp only [isSkipped, Bool.or_eq_true, beq_iff_eq, not_or] at hskip
                  exact ⟨hskip.1, hskip.2, hdots⟩
                refine ⟨by simpa using hnul, hname, hdir, ?_, ps.dropLast, hps.symm⟩
                rw [← hps, lexical_append, ← hlex]
                simp [lexical, hskip, hdots]

/-- What could be resolved still can be when directories are kept. -/
theorem locate_mono {fs fs' : Fs} (hkeep : KeepsDirs fs fs') {ps : List String} {t : Target}
    (h : fs.locate ps = .ok t) : fs'.locate ps = .ok t := by
  unfold locate at h ⊢
  split at h <;> rename_i hnul
  · contradiction
  · rw [if_neg hnul]
    cases hlast : ps.getLast? with
    | none =>
        rw [hlast] at h
        exact h
    | some last =>
        simp only [hlast] at h ⊢
        cases hwalk : fs.walk [] ps.dropLast with
        | error e => simp [hwalk] at h
        | ok loc =>
            rw [hwalk] at h
            rw [walk_mono hkeep hwalk]
            exact h

/-- A read returns the text of the file at the lexical location. -/
theorem readToString_eq_ok {fs : Fs} {ps : List String} {text : String} :
    fs.readToString ps = .ok text ↔
      (∃ name loc, fs.locate ps = .ok (.entry name loc)) ∧
        fs.node (lexical [] ps) = some (.file (some text)) := by
  unfold readToString
  cases hloc : fs.locate ps with
  | error e => simp
  | ok t =>
      cases t with
      | dir loc => simp
      | entry name loc =>
          rw [← (locate_eq_entry hloc).2.2.2.1]
          simp only [Except.ok.injEq, Target.entry.injEq, exists_and_left, exists_eq', and_true,
            true_and]
          split <;> simp_all

/-- A successful write puts a file at the lexical location. -/
theorem write_eq_ok {fs fs' : Fs} {ps : List String} {text : Option String}
    (h : fs.write ps text = .ok fs') :
    (∃ name loc, fs.locate ps = .ok (.entry name loc)) ∧
      fs.node (lexical [] ps) ≠ some .dir ∧
      fs'.node = Function.update fs.node (lexical [] ps) (some (.file text)) := by
  unfold write at h
  cases hloc : fs.locate ps with
  | error e => simp [hloc] at h
  | ok t =>
      cases t with
      | dir loc => simp [hloc] at h
      | entry name loc =>
          rcases locate_eq_entry hloc with ⟨-, -, hdir, hlex, -⟩
          simp only [hloc] at h
          split at h <;> rename_i hnode
          · contradiction
          · cases h
            rw [← hlex]
            exact ⟨⟨name, loc, rfl⟩, hnode, node_putFile hdir hnode text⟩

/-- A path that leads to no directory can be written. -/
theorem exists_write {fs : Fs} {ps : List String} {name : String} {loc : Loc}
    (hlocate : fs.locate ps = .ok (.entry name loc)) (hfile : fs.node (lexical [] ps) ≠ some .dir)
    (text : Option String) : ∃ fs', fs.write ps text = .ok fs' := by
  rw [← (locate_eq_entry hlocate).2.2.2.1] at hfile
  rw [write, hlocate]
  exact ⟨_, if_neg hfile⟩

/-- A successful unlink takes the file at the lexical location away. -/
theorem unlink_eq_ok {fs fs' : Fs} {ps : List String} (h : fs.unlink ps = .ok fs') :
    (∃ name loc, fs.locate ps = .ok (.entry name loc)) ∧
      (∃ text, fs.node (lexical [] ps) = some (.file text)) ∧
      fs'.node = Function.update fs.node (lexical [] ps) none := by
  unfold unlink at h
  cases hloc : fs.locate ps with
  | error e => simp [hloc] at h
  | ok t =>
      cases t with
      | dir loc => simp [hloc] at h
      | entry name loc =>
          rcases locate_eq_entry hloc with ⟨-, -, -, hlex, -⟩
          simp only [hloc] at h
          split at h <;> rename_i hnode
          · contradiction
          · contradiction
          · cases h
            rw [← hlex]
            exact ⟨⟨name, loc, rfl⟩, ⟨_, hnode⟩, node_removeFile (by simp [hnode])⟩

/-- Where nothing is found to unlink, nothing is found to read. -/
theorem readToString_of_unlink_notFound {fs : Fs} {ps : List String}
    (h : fs.unlink ps = .error .notFound) : fs.readToString ps = .error .notFound := by
  unfold unlink at h
  unfold readToString
  cases hloc : fs.locate ps with
  | error e =>
      simp only [hloc, Except.error.injEq] at h ⊢
      exact h
  | ok t =>
      cases t with
      | dir loc => simp [hloc] at h
      | entry name loc =>
          simp only [hloc] at h ⊢
          split at h <;> rename_i hnode
          · rw [hnode]
          · simp at h
          · simp at h

/-- A successful rename moves the file from one lexical location to the other. -/
theorem rename_eq_ok {fs fs' : Fs} {old new : List String} (h : fs.rename old new = .ok fs') :
    (∃ name loc, fs.locate new = .ok (.entry name loc)) ∧
      ∃ text, fs.node (lexical [] old) = some (.file text) ∧
        fs.node (lexical [] new) ≠ some .dir ∧
        ∀ l, fs'.node l =
          if l = lexical [] new then some (.file text)
          else if l = lexical [] old then none
          else fs.node l := by
  unfold rename at h
  cases hold : fs.locate old with
  | error e => simp [hold] at h
  | ok told =>
      cases hnew : fs.locate new with
      | error e => simp [hold, hnew] at h
      | ok tnew =>
          cases told with
          | dir loc => simp [hold, hnew] at h
          | entry name loc =>
              cases tnew with
              | dir loc' => simp [hold, hnew] at h
              | entry name' loc' =>
                  rcases locate_eq_entry hold with ⟨-, -, -, hlex, -⟩
                  rcases locate_eq_entry hnew with ⟨-, -, hdir', hlex', -⟩
                  simp only [hold, hnew] at h
                  rw [← hlex, ← hlex']
                  refine ⟨⟨name', loc', rfl⟩, ?_⟩
                  split at h <;> rename_i hnode
                  · contradiction
                  · contradiction
                  · rename_i text
                    split at h <;> rename_i hnodir
                    · contradiction
                    · refine ⟨text, hnode, hnodir, ?_⟩
                      intro l
                      split at h <;> rename_i hsame
                      · cases h
                        by_cases hl : l = name :: loc
                        · rw [hsame, hl, if_pos rfl, hnode]
                        · rw [hsame, if_neg hl, if_neg hl]
                      · cases h
                        have hfile : fs.node (name :: loc) ≠ some .dir := by simp [hnode]
                        have hne : loc' ≠ name :: loc := by
                          intro heq
                          exact hfile (heq ▸ hdir')
                        have hremoved := node_removeFile hfile
                        have hdir₁ : (fs.removeFile name loc).node loc' = some .dir := by
                          rw [hremoved, Function.update_of_ne hne]
                          exact hdir'
                        have hfile₁ : (fs.removeFile name loc).node (name' :: loc') ≠
                            some .dir := by
                          rw [hremoved, Function.update_of_ne hsame]
                          exact hnodir
                        rw [node_putFile hdir₁ hfile₁, Function.update_apply, hremoved,
                          Function.update_apply]

/-- Changing what is not a directory keeps the directories. -/
theorem keepsDirs_of_update {fs fs' : Fs} {l : Loc} {n : Option Node}
    (hl : fs.node l ≠ some .dir) (h : fs'.node = Function.update fs.node l n) :
    KeepsDirs fs fs' := by
  intro k hk
  have hne : k ≠ l := by
    intro heq
    exact hl (heq ▸ hk)
  rw [h, Function.update_of_ne hne, hk]

/-! ## Reading after a call -/

/-- A write keeps the directories. -/
theorem write_keepsDirs {fs fs' : Fs} {ps : List String} {text : Option String}
    (h : fs.write ps text = .ok fs') : KeepsDirs fs fs' := by
  rcases write_eq_ok h with ⟨-, hdir, hnode⟩
  exact keepsDirs_of_update hdir hnode

/-- A text that could be read still can be where directories are kept and its file is. -/
theorem readToString_mono {fs fs' : Fs} (hkeep : KeepsDirs fs fs') {ps : List String}
    (hnode : fs'.node (lexical [] ps) = fs.node (lexical [] ps)) {text : String}
    (h : fs.readToString ps = .ok text) : fs'.readToString ps = .ok text := by
  rw [readToString_eq_ok] at h ⊢
  rcases h with ⟨⟨name, loc, hlocate⟩, htext⟩
  exact ⟨⟨name, loc, locate_mono hkeep hlocate⟩, by rw [hnode, htext]⟩

/-- Creating directories leaves what can be read. -/
theorem readToString_of_extends {fs fs' : Fs} (h : Extends fs fs') {ps : List String}
    {text : String} (hread : fs.readToString ps = .ok text) :
    fs'.readToString ps = .ok text := by
  have hnode := (readToString_eq_ok.mp hread).2
  exact readToString_mono h.keepsDirs (h.node_eq (by rw [hnode]; simp)) hread

/-- Walking names looks only at what is on the way. -/
theorem walk_congr {fs fs' : Fs} {loc : Loc} {ps : List String} (hnames : ∀ p ∈ ps, IsName p)
    (hsame : ∀ l, l <:+ ps.reverse ++ loc → fs'.node l = fs.node l) :
    fs'.walk loc ps = fs.walk loc ps := by
  induction ps generalizing loc with
  | nil => rfl
  | cons p ps ih =>
      have hp : IsName p := hnames p List.mem_cons_self
      have hreverse : (p :: ps).reverse ++ loc = ps.reverse ++ p :: loc := by simp
      rw [hreverse] at hsame
      have henter : fs'.enter loc p = fs.enter loc p := by
        rw [enter, enter, hsame _ (List.suffix_append _ _)]
      have hwalk : ∀ t : Fs, t.walk loc (p :: ps) = (t.enter loc p).bind fun l => t.walk l ps :=
        fun _ => rfl
      rw [hwalk, hwalk, henter]
      cases hl : fs.enter loc p with
      | error e => rfl
      | ok l =>
          have heq : l = p :: loc := by
            rw [enter, if_neg (by simp [hp.isSkipped]), if_neg hp.2.2] at hl
            split at hl <;> simp_all
          rw [heq]
          exact ih (fun q hq => hnames q (List.mem_cons_of_mem p hq)) hsame

/-- Reading a path of names looks only at what is on the way. -/
theorem readToString_congr {fs fs' : Fs} {ps : List String} {name : String}
    (hnames : ∀ p ∈ ps, IsName p) (hname : IsName name)
    (hsame : ∀ l, l <:+ name :: ps.reverse → fs'.node l = fs.node l) :
    fs'.readToString (ps ++ [name]) = fs.readToString (ps ++ [name]) := by
  have hwalk : fs'.walk [] ps = fs.walk [] ps := by
    refine walk_congr hnames ?_
    intro l hl
    rw [List.append_nil] at hl
    exact hsame l (hl.trans (List.suffix_cons _ _))
  have hlocate : fs'.locate (ps ++ [name]) = fs.locate (ps ++ [name]) := by
    rw [locate, locate, List.getLast?_concat, List.dropLast_concat, hwalk]
  rw [readToString, readToString, hlocate]
  cases hl : fs.locate (ps ++ [name]) with
  | error e => rfl
  | ok t =>
      cases t with
      | dir loc => rfl
      | entry last loc =>
          have hlex := (locate_eq_entry hl).2.2.2.1
          rw [lexical_append, lexical_names hnames, lexical_cons_name hname,
            List.append_nil] at hlex
          have hentry : last :: loc = name :: ps.reverse := hlex
          simp only [hentry, hsame _ (List.suffix_refl _)]

/-- In a tree with more directories names lead as before, or further than where they found
nothing. -/
theorem walk_of_extends {fs fs' : Fs} (h : Extends fs fs') {loc : Loc} {ps : List String}
    (hnames : ∀ p ∈ ps, IsName p) (hdir : fs.node loc = some .dir) :
    fs'.walk loc ps = fs.walk loc ps ∨
      (fs.walk loc ps = .error .notFound ∧ fs.node (ps.reverse ++ loc) = none ∧
        (fs'.walk loc ps = .ok (ps.reverse ++ loc) ∨ fs'.walk loc ps = .error .notFound)) := by
  induction ps generalizing loc with
  | nil => exact Or.inl rfl
  | cons p ps ih =>
      have hp : IsName p := hnames p List.mem_cons_self
      have hrest : ∀ q ∈ ps, IsName q := fun q hq => hnames q (List.mem_cons_of_mem p hq)
      have hreverse : (p :: ps).reverse ++ loc = ps.reverse ++ p :: loc := by simp
      have hwalk : ∀ t : Fs, t.walk loc (p :: ps) = (t.enter loc p).bind fun l => t.walk l ps :=
        fun _ => rfl
      have henter : ∀ t : Fs, t.enter loc p =
          match t.node (p :: loc) with
          | some .dir => .ok (p :: loc)
          | some (.file _) => .error .notADirectory
          | none => .error .notFound := by
        intro t
        rw [enter, if_neg (by simp [hp.isSkipped]), if_neg hp.2.2]
      rw [hreverse]
      cases hnode : fs.node (p :: loc) with
      | none =>
          -- Below, there is nothing but new directories.
          have hnone : fs.node (ps.reverse ++ p :: loc) = none := node_append_eq_none hnode _
          have hlost : fs.walk loc (p :: ps) = .error .notFound := by
            rw [hwalk, henter, hnode]
            rfl
          have hfolders : fs'.NoFileAbove ((p :: ps).reverse ++ loc) := by
            intro l hl text htext
            rcases h l with heq | ⟨-, hnew⟩
            · rw [heq] at htext
              rw [hreverse] at hl
              rcases List.suffix_or_suffix_of_suffix hl (List.suffix_append _ (p :: loc)) with
                hin | ⟨t, rfl⟩
              · rcases List.suffix_cons_iff.mp hin with rfl | hin
                · rw [hnode] at htext
                  contradiction
                · simp [node_of_suffix hdir hin] at htext
              · rw [node_append_eq_none hnode] at htext
                contradiction
            · rw [hnew] at htext
              simp at htext
          have hfound := walk_names hnames hfolders
          rw [hreverse] at hfound
          refine Or.inr ⟨hlost, hnone, ?_⟩
          rcases hfound with hok | ⟨hmissing, -⟩
          · exact Or.inl hok
          · exact Or.inr hmissing
      | some n =>
          have hnode' : fs'.node (p :: loc) = some n := by
            rw [h.node_eq (by simp [hnode]), hnode]
          cases n with
          | file text =>
              refine Or.inl ?_
              rw [hwalk, hwalk, henter, henter, hnode, hnode']
              rfl
          | dir =>
              have hgo : ∀ t : Fs, t.node (p :: loc) = some .dir →
                  t.walk loc (p :: ps) = t.walk (p :: loc) ps := by
                intro t ht
                rw [hwalk, henter, ht]
                rfl
              rw [hgo fs hnode, hgo fs' hnode']
              exact ih hrest hnode

/-- More directories change nothing about reading a path of names whose entry they leave. -/
theorem readToString_of_extends_names {fs fs' : Fs} (h : Extends fs fs') {ps : List String}
    {name : String} (hnames : ∀ p ∈ ps, IsName p) (hname : IsName name)
    (hentry : fs'.node (name :: ps.reverse) = fs.node (name :: ps.reverse)) :
    fs'.readToString (ps ++ [name]) = fs.readToString (ps ++ [name]) := by
  by_cases hnul : hasNul (ps ++ [name]) = true
  · simp [readToString, locate, hnul]
  · have hread : ∀ t : Fs, t.readToString (ps ++ [name]) =
        match t.walk [] ps with
        | .error e => .error e
        | .ok loc => readEntry (t.node (name :: loc)) := by
      intro t
      rw [readToString, locate, if_neg hnul, List.getLast?_concat, List.dropLast_concat]
      cases t.walk [] ps with
      | error e => rfl
      | ok loc =>
          simp only [hname.isSkipped, hname.2.2, Bool.false_eq_true, if_false]
          rfl
    rw [hread, hread]
    have hwalk := walk_of_extends h hnames fs.root_dir
    rw [List.append_nil] at hwalk
    rcases hwalk with heq | ⟨hlost, hnone, hwalk⟩
    · rw [heq]
      cases hloc : fs.walk [] ps with
      | error e => rfl
      | ok loc =>
          have hlex := (walk_eq_ok fs.root_dir hloc).2
          rw [lexical_names hnames, List.append_nil] at hlex
          simp only [hlex, hentry]
    · have hgone : fs.node (name :: ps.reverse) = none := node_append_eq_none hnone [name]
      rw [hlost]
      rcases hwalk with hfound | hmissing
      · simp only [hfound, hentry, hgone, readEntry]
      · rw [hmissing]

/-- A write leaves what can be read elsewhere. -/
theorem readToString_of_write_ne {fs fs' : Fs} {ps qs : List String} {text : Option String}
    (hwrite : fs.write ps text = .ok fs') (hne : lexical [] qs ≠ lexical [] ps) {content : String}
    (hread : fs.readToString qs = .ok content) : fs'.readToString qs = .ok content := by
  have hnode := (write_eq_ok hwrite).2.2
  exact readToString_mono (write_keepsDirs hwrite) (by rw [hnode, Function.update_of_ne hne]) hread

/-- What was written is read back. -/
theorem readToString_of_write {fs fs' : Fs} {ps : List String} {text : String}
    (h : fs.write ps (some text) = .ok fs') : fs'.readToString ps = .ok text := by
  rcases write_eq_ok h with ⟨⟨name, loc, hlocate⟩, -, hnode⟩
  rw [readToString_eq_ok, hnode, Function.update_self]
  exact ⟨⟨name, loc, locate_mono (write_keepsDirs h) hlocate⟩, rfl⟩

end Fs

end FileSystem
