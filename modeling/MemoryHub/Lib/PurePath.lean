import MemoryHub.Lib.RustStr
import MemoryHub.Lib.UnixPath

/-!
# Pure paths

Python's `pathlib.PurePosixPath`: a path that is read into a root and names, without asking the
file system.  Empty names and single dots are left out when a path is read; two dots stay.

Main results:

- Theorem `relativeTo_eq_some`: a path relative to another one is what follows its names.
- Theorem `eq_of_str`: paths with one root have different texts.
-/

namespace PurePath

open UnixPath

/-! ## Paths -/

/-- What a path starts with; POSIX leaves the meaning of two slashes open. -/
inductive Root where
  | none
  | slash
  | twoSlashes
deriving DecidableEq

/-- The text of a root. -/
def Root.str : Root → String
  | .none => ""
  | .slash => "/"
  | .twoSlashes => "//"

/-- A name in a path: neither skipped when a path is read nor with a slash in it. -/
def IsPathName (name : String) : Prop :=
  isSkipped name = false ∧ '/' ∉ name.toList

instance (name : String) : Decidable (IsPathName name) :=
  inferInstanceAs (Decidable (isSkipped name = false ∧ '/' ∉ name.toList))

/-- `PurePosixPath`. -/
@[ext]
structure PurePosixPath where
  root : Root
  names : List String
  names_ok : ∀ name ∈ names, IsPathName name
deriving DecidableEq

/-- `posixpath.splitroot`: exactly two slashes at the start are a root of their own. -/
def splitRoot (text : String) : Root :=
  match text.toList with
  | '/' :: '/' :: '/' :: _ => .slash
  | '/' :: '/' :: _ => .twoSlashes
  | '/' :: _ => .slash
  | _ => .none

namespace PurePosixPath

/-- The path that a text is read into. -/
def parse (text : String) : PurePosixPath where
  root := splitRoot text
  names := (pieces text).filter fun piece => !isSkipped piece
  names_ok := by
    intro name hname
    rcases List.mem_filter.mp hname with ⟨hpiece, hkept⟩
    exact ⟨by simpa using hkept, slash_notMem_of_mem_pieces hpiece⟩

/-- `path / name`. -/
def child (path : PurePosixPath) (name : String) (h : IsPathName name) : PurePosixPath where
  root := path.root
  names := path.names ++ [name]
  names_ok := by
    intro other hother
    rcases List.mem_append.mp hother with hother | hother
    · exact path.names_ok other hother
    · rw [List.mem_singleton.mp hother]
      exact h

/-- `Path(*names)`: the relative path made of some names. -/
def ofNames (names : List String) (h : ∀ name ∈ names, IsPathName name) : PurePosixPath where
  root := .none
  names := names
  names_ok := h

/-- `path.parts`: the root, if there is one, and the names. -/
def parts (path : PurePosixPath) : List String :=
  if path.root = .none then path.names else path.root.str :: path.names

/-- `str(path)`. -/
def str (path : PurePosixPath) : String :=
  if path.root = .none ∧ path.names = [] then "."
  else path.root.str ++ String.intercalate "/" path.names

/-- `path.suffix`: the last name from its last dot on, if there is something before the dot and
something after it. -/
def suffix (path : PurePosixPath) : String :=
  let backwards := (path.names.getLast?.getD "").toList.reverse
  let extension := (backwards.takeWhile (· ≠ '.')).reverse
  match backwards.dropWhile (· ≠ '.') with
  | _ :: _ :: _ => if extension = [] then "" else String.ofList ('.' :: extension)
  | _ => ""

/-- `path.relative_to(base)`; it fails unless the path starts with all of the base. -/
def relativeTo (path base : PurePosixPath) : Option PurePosixPath :=
  if path.root = base.root ∧ base.names <+: path.names then
    some (ofNames (path.names.drop base.names.length) fun name hname =>
      path.names_ok name (List.mem_of_mem_drop hname))
  else none

/-! ## Relative paths -/

/-- A path relative to another one is what follows its names. -/
theorem relativeTo_eq_some {path base rel : PurePosixPath} :
    path.relativeTo base = some rel ↔
      path.root = base.root ∧ rel.root = .none ∧ path.names = base.names ++ rel.names := by
  unfold relativeTo
  split <;> rename_i h
  · rcases h with ⟨hroot, rest, hnames⟩
    have hdrop : path.names.drop base.names.length = rest := by rw [← hnames, List.drop_left]
    rw [Option.some_inj, PurePosixPath.ext_iff]
    simp only [ofNames, hdrop]
    rw [← hnames, List.append_cancel_left_eq]
    exact ⟨fun hrel => ⟨hroot, hrel.1.symm, hrel.2⟩, fun hrel => ⟨hrel.2.1.symm, hrel.2.2⟩⟩
  · simp only [reduceCtorEq, false_iff]
    rintro ⟨hroot, -, hnames⟩
    exact h ⟨hroot, rel.names, hnames.symm⟩

/-- A path is told by its names relative to a base. -/
theorem eq_of_relativeTo {path path' base rel rel' : PurePosixPath}
    (h : path.relativeTo base = some rel) (h' : path'.relativeTo base = some rel')
    (hnames : rel.names = rel'.names) : path = path' := by
  rcases relativeTo_eq_some.mp h with ⟨hroot, -, hsplit⟩
  rcases relativeTo_eq_some.mp h' with ⟨hroot', -, hsplit'⟩
  apply PurePosixPath.ext
  · rw [hroot, hroot']
  · rw [hsplit, hsplit', hnames]

/-! ## Texts -/

/-- The pieces of joined names are the names. -/
theorem pieces_intercalate {names : List String} (hne : names ≠ [])
    (h : ∀ name ∈ names, '/' ∉ name.toList) :
    pieces (String.intercalate "/" names) = names :=
  RustStr.map_splitOn_intercalate (by decide) hne h

theorem str_eq {path : PurePosixPath} (hne : path.names ≠ []) :
    path.str = path.root.str ++ String.intercalate "/" path.names :=
  if_neg fun h => hne h.2

theorem str_ofNames {names : List String} {h : ∀ name ∈ names, IsPathName name}
    (hne : names ≠ []) : (ofNames names h).str = String.intercalate "/" names := by
  rw [str_eq hne]
  exact String.empty_append

/-- Paths with one root have different texts. -/
theorem eq_of_str {path path' : PurePosixPath} (hroot : path.root = path'.root)
    (hne : path.names ≠ []) (hne' : path'.names ≠ []) (h : path.str = path'.str) :
    path = path' := by
  rw [str_eq hne, str_eq hne', hroot, String.append_right_inj] at h
  have hnames : path.names = path'.names := by
    rw [← pieces_intercalate hne fun name hname => (path.names_ok name hname).2, h,
      pieces_intercalate hne' fun name hname => (path'.names_ok name hname).2]
  exact PurePosixPath.ext hroot hnames

end PurePosixPath

end PurePath
