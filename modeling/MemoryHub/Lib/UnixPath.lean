import MemoryHub.Lib.RustStr
import Mathlib.Data.List.DropRight
import Mathlib.Tactic.Common

/-!
# Unix paths

A path is text; what the operating system sees are the pieces between its slashes.
The methods of `std::path::Path` that the program calls are given on these pieces.

Main results:

- Theorem `pieces_append_slash`: the pieces before a slash and those after it.
- Theorem `exists_pieces_eq`: names without slashes are the pieces of a path.
- Theorem `withExtension_snoc`: changing the extension of an ordinary file name.
-/

namespace UnixPath

/-! ## Pieces -/

/-- The pieces of a path between its slashes. -/
def pieces (path : String) : List String :=
  (path.toList.splitOn '/').map String.ofList

/-- The pieces before a slash come before those after it. -/
theorem pieces_append_slash (s t : String) : pieces (s ++ "/" ++ t) = pieces s ++ pieces t := by
  have hlist : (s ++ "/" ++ t).toList = s.toList ++ '/' :: t.toList := by
    simp [String.toList_append]
  rw [pieces, hlist, List.splitOn_append_cons_self, List.map_append, pieces, pieces]

/-- A name without a slash is its only piece. -/
theorem pieces_eq_singleton {s : String} (h : '/' ∉ s.toList) : pieces s = [s] := by
  rw [pieces, List.splitOn_eq_singleton h, List.map_singleton, String.ofList_toList]

/-- A name without a slash, followed by a slash, is the first piece. -/
theorem pieces_cons_slash {s : String} (h : '/' ∉ s.toList) (rest : String) :
    pieces (s ++ "/" ++ rest) = s :: pieces rest := by
  rw [pieces_append_slash, pieces_eq_singleton h, List.singleton_append]

/-- A piece of a path has no slash. -/
theorem slash_notMem_of_mem_pieces {path piece : String} (h : piece ∈ pieces path) :
    '/' ∉ piece.toList := by
  rcases List.mem_map.mp h with ⟨cs, hcs, rfl⟩
  rw [String.toList_ofList]
  exact RustStr.notMem_of_mem_splitOn hcs

theorem pieces_ne_nil (path : String) : pieces path ≠ [] := by
  rw [pieces, Ne, List.map_eq_nil_iff]
  exact List.splitOn_ne_nil _ _

/-- Names without slashes are the pieces of a path. -/
theorem exists_pieces_eq (ps : List String) (hne : ps ≠ []) (h : ∀ p ∈ ps, '/' ∉ p.toList) :
    ∃ path, pieces path = ps := by
  induction ps with
  | nil => exact absurd rfl hne
  | cons p ps ih =>
      have hp := h p List.mem_cons_self
      cases ps with
      | nil => exact ⟨p, pieces_eq_singleton hp⟩
      | cons q qs =>
          rcases ih (by simp) fun r hr => h r (List.mem_cons_of_mem p hr) with ⟨path, hpath⟩
          exact ⟨p ++ "/" ++ path, by rw [pieces_cons_slash hp, hpath]⟩

/-- A piece that leads nowhere: an empty one, or a dot. -/
def isSkipped (p : String) : Bool :=
  p == "" || p == "."

/-- A name an entry of a directory can have: not empty and not one of the dots. -/
def IsName (p : String) : Prop :=
  p ≠ "" ∧ p ≠ "." ∧ p ≠ ".."

instance (p : String) : Decidable (IsName p) :=
  inferInstanceAs (Decidable (p ≠ "" ∧ p ≠ "." ∧ p ≠ ".."))

/-- A name that is a whole segment of a path: no slash, and no character the
operating system refuses. -/
def IsSegment (p : String) : Prop :=
  IsName p ∧ '/' ∉ p.toList ∧ '\x00' ∉ p.toList

instance (p : String) : Decidable (IsSegment p) :=
  inferInstanceAs (Decidable (IsName p ∧ '/' ∉ p.toList ∧ '\x00' ∉ p.toList))

theorem IsName.isSkipped {p : String} (h : IsName p) : isSkipped p = false := by
  simp [UnixPath.isSkipped, h.1, h.2.1]

/-- The dots are shorter than three characters. -/
theorem isName_of_length {p : String} (h : 3 ≤ p.toList.length) : IsName p := by
  have hne : ∀ s : String, s.toList.length < 3 → p ≠ s := by
    rintro s hs rfl
    omega
  exact ⟨hne "" (by decide), hne "." (by decide), hne ".." (by decide)⟩

/-! ## Path methods -/

/-- `Path::components` ignores trailing slashes and dots. -/
def trimEnd (ps : List String) : List String :=
  ps.rdropWhile isSkipped

/-- `Path::parent`. -/
def parent (ps : List String) : List String :=
  (trimEnd ps).dropLast

/-- `Path::file_name`: the last component, if it is a name. -/
def fileName (ps : List String) : Option String :=
  match (trimEnd ps).getLast? with
  | some name => if name = ".." then none else some name
  | none => none

/-- `Path::file_stem` of a file name: what stands before the last dot, unless that
is nothing. -/
def fileStem (name : String) : String :=
  match name.toList.reverse.dropWhile (· ≠ '.') with
  | _ :: c :: before => String.ofList (c :: before).reverse
  | _ => name

/-- `Path::with_extension`. -/
def withExtension (ps : List String) (extension : String) : List String :=
  match fileName ps with
  | some name => parent ps ++ [fileStem name ++ "." ++ extension]
  | none => ps

/-- The parent has no pieces of its own. -/
theorem parent_prefix (ps : List String) : parent ps <+: ps.dropLast := by
  have htrim : trimEnd ps <+: ps := List.rdropWhile_prefix isSkipped ps
  have hlen := htrim.length_le
  apply List.prefix_of_prefix_length_le ((List.dropLast_prefix _).trans htrim)
    (List.dropLast_prefix ps)
  rw [List.length_dropLast, List.length_dropLast]
  omega

theorem parent_subset (ps : List String) : parent ps ⊆ ps := by
  have hpre := parent_prefix ps
  exact (hpre.trans (List.dropLast_prefix ps)).subset

/-! ## Ordinary file names -/

/-- Trimming stops at a name. -/
theorem prefix_trimEnd {name : String} (h : IsName name) (ps rest : List String) :
    ps ++ [name] <+: trimEnd (ps ++ [name] ++ rest) := by
  induction rest using List.reverseRecOn with
  | nil =>
      have htrim : trimEnd (ps ++ [name] ++ []) = ps ++ [name] := by
        rw [List.append_nil, trimEnd, List.rdropWhile_concat_neg _ _ _ (by simp [h.isSkipped])]
      exact ⟨[], (List.append_nil _).trans htrim.symm⟩
  | append_singleton rest p ih =>
      rw [← List.append_assoc, trimEnd, List.rdropWhile_concat]
      split
      · exact ih
      · rw [List.append_assoc]
        exact List.prefix_append _ _

/-- The parent keeps what stands before a name. -/
theorem prefix_parent {name : String} (h : IsName name) (ps rest : List String) :
    ps <+: parent (ps ++ [name] ++ rest) := by
  have htrim := prefix_trimEnd h ps rest
  have hlen := htrim.length_le
  rw [List.length_append, List.length_singleton] at hlen
  apply List.prefix_of_prefix_length_le ((List.prefix_append ps [name]).trans htrim)
    (List.dropLast_prefix _)
  rw [List.length_dropLast]
  omega

theorem trimEnd_snoc {ps : List String} {name : String} (h : IsName name) :
    trimEnd (ps ++ [name]) = ps ++ [name] := by
  rw [trimEnd, List.rdropWhile_concat_neg _ _ _ (by simp [h.isSkipped])]

theorem parent_snoc {ps : List String} {name : String} (h : IsName name) :
    parent (ps ++ [name]) = ps := by
  rw [parent, trimEnd_snoc h, List.dropLast_concat]

theorem fileName_snoc {ps : List String} {name : String} (h : IsName name) :
    fileName (ps ++ [name]) = some name := by
  rw [fileName, trimEnd_snoc h, List.getLast?_concat]
  simp [h.2.2]

theorem withExtension_snoc {ps : List String} {name : String} (h : IsName name)
    (extension : String) :
    withExtension (ps ++ [name]) extension = ps ++ [fileStem name ++ "." ++ extension] := by
  rw [withExtension, fileName_snoc h, parent_snoc h]

/-- The stem has no characters of its own. -/
theorem mem_of_mem_fileStem {name : String} {c : Char} (h : c ∈ (fileStem name).toList) :
    c ∈ name.toList := by
  unfold fileStem at h
  split at h <;> rename_i heq
  · rw [String.toList_ofList, List.mem_reverse] at h
    have hsub : c ∈ name.toList.reverse.dropWhile (· ≠ '.') := by
      rw [heq]
      exact List.mem_cons_of_mem _ h
    exact List.mem_reverse.mp ((List.dropWhile_sublist _).subset hsub)
  · exact h

/-- The characters of a name with another extension are those of the name and the extension. -/
theorem notMem_fileStem_append {name extension : String} {c : Char} (hname : c ∉ name.toList)
    (hext : c ∉ ("." ++ extension).toList) :
    c ∉ (fileStem name ++ "." ++ extension).toList := by
  intro hc
  rw [String.append_assoc, String.toList_append, List.mem_append] at hc
  rcases hc with hstem | hend
  · exact hname (mem_of_mem_fileStem hstem)
  · exact hext hend

/-- Changing the extension puts no slash into a piece. -/
theorem slash_notMem_of_mem_withExtension {ps : List String} (h : ∀ p ∈ ps, '/' ∉ p.toList)
    {extension : String} (hext : '/' ∉ ("." ++ extension).toList) :
    ∀ p ∈ withExtension ps extension, '/' ∉ p.toList := by
  intro p hp
  unfold withExtension at hp
  have hsub := parent_subset ps
  cases hname : fileName ps with
  | none =>
      rw [hname] at hp
      exact h p hp
  | some name =>
      simp only [hname] at hp
      rcases List.mem_append.mp hp with hp | hp
      · exact h p (hsub hp)
      · have hmem : name ∈ ps := by
          unfold fileName at hname
          split at hname
          · rename_i last hlast
            split at hname
            · contradiction
            · cases hname
              exact (List.rdropWhile_prefix isSkipped ps).subset (List.mem_of_getLast? hlast)
          · contradiction
        rw [List.mem_singleton.mp hp]
        exact notMem_fileStem_append (h name hmem) hext

/-- A temporary name is neither empty nor made of dots. -/
theorem isName_tempName (name : String) : IsName (fileStem name ++ "." ++ "tmp") := by
  apply isName_of_length
  have htmp : ("." ++ "tmp").toList.length = 4 := by decide
  rw [String.append_assoc, String.toList_append, List.length_append]
  omega

/-- A temporary name is a segment beside the name. -/
theorem isSegment_tempName {name : String} (h : IsSegment name) :
    IsSegment (fileStem name ++ "." ++ "tmp") :=
  ⟨isName_tempName name, notMem_fileStem_append h.2.1 (by decide),
    notMem_fileStem_append h.2.2 (by decide)⟩

end UnixPath
