import MemoryHub.Lib.Region
import MemoryHub.Memory.RawLocation

/-!
# What a user's requests see

The storage calls of a user's requests go through nothing but the root and that user's
folder.  So they return the same, and leave the same behind, in all trees that hold the same
there; and what they change is out of every other user's sight.

Main results:

- Theorem `keepsTo_rawPath`: a raw path, its folder and its temporary name keep to the
  region of its user.
- Theorem `storageWrite_agree`, `storageRead_agree`, `storageDelete_agree`: storage on such a
  path, in trees that agree on the region.
- Theorem `storageWrite_spares`, `storageDelete_spares`: storage on the path of another user.
-/

namespace MemoryHub
namespace Memory

open UnixPath FileSystem Fs

/-! ## The region of a user -/

/-- The root and the user's folder, with everything in it. -/
def InRegion (username : String) (l : Loc) : Prop :=
  l = [] ∨ ∃ names, l = names ++ [username]

/-- Nothing of the region of one user lies strictly inside the folder of another. -/
theorem not_inRegion_of_inside {u v : String} {l : Loc} (h : StrictlyInside v l) (hne : v ≠ u) :
    ¬ InRegion u l := by
  rcases h with ⟨names, -, rfl⟩
  rintro (hnil | ⟨names', heq⟩)
  · simp at hnil
  · exact hne (List.append_inj_right' heq rfl |> List.singleton_inj.mp)

/-- One more piece leads from the user's folder into the region. -/
theorem inRegion_lexical {username : String} (names : Loc) (p : String) :
    InRegion username (lexical (names ++ [username]) [p]) := by
  simp only [lexical]
  split
  · exact Or.inr ⟨names, rfl⟩
  · split
    · cases names with
      | nil => exact Or.inl rfl
      | cons name names => exact Or.inr ⟨names, rfl⟩
    · exact Or.inr ⟨p :: names, rfl⟩

section

variable {username agentId project filename path : String}

/-- The folders of a raw path, and one more piece behind any of them, keep to the region. -/
theorem IsRawPieces.keepsTo (h : IsRawPieces username agentId project filename path)
    {ps : List String} (hps : ps.dropLast <+: [username, agentId, project])
    (hne : ps.dropLast ≠ []) : KeepsTo (InRegion username) [] ps := by
  intro pre hpre
  by_cases hnil : pre = []
  · rw [hnil]
    exact Or.inl rfl
  by_cases hall : pre = ps
  · -- The whole path: a folder in the region, and one more piece.
    have hsplit : ps.dropLast ++ [ps.getLast (hall ▸ hnil)] = ps := List.dropLast_append_getLast _
    rcases h.prefix_inside hps hne with ⟨names, hnames⟩
    rw [hall, ← hsplit, lexical_append, hnames]
    exact inRegion_lexical names _
  · have hshort : pre <+: ps.dropLast := by
      apply List.prefix_of_prefix_length_le hpre (List.dropLast_prefix ps)
      rw [List.length_dropLast]
      have hlen := hpre.length_le
      have hlt : pre.length ≠ ps.length := fun heq => hall (hpre.eq_of_length heq)
      omega
    exact Or.inr (h.prefix_inside (hshort.trans hps) hnil)

/-- A raw path keeps to the region. -/
theorem IsRawPieces.keepsTo_pieces (h : IsRawPieces username agentId project filename path) :
    KeepsTo (InRegion username) [] (pieces path) := by
  apply h.keepsTo
  · rw [h.dropLast_eq]
  · rw [h.dropLast_eq]
    simp

/-- The folder a write creates keeps to the region. -/
theorem IsRawPieces.keepsTo_parent (h : IsRawPieces username agentId project filename path) :
    KeepsTo (InRegion username) [] (parent (pieces path)) :=
  h.keepsTo_pieces.of_prefix ((UnixPath.parent_prefix _).trans (List.dropLast_prefix _))

/-- The temporary name keeps to the region. -/
theorem IsRawPieces.keepsTo_temp (h : IsRawPieces username agentId project filename path) :
    KeepsTo (InRegion username) [] (tempPath path) := by
  unfold tempPath withExtension
  split
  · apply h.keepsTo
    · rw [List.dropLast_concat]
      exact h.parent_prefix
    · have hkeep := prefix_parent h.agentId_name [username] [project, filename]
      rw [List.dropLast_concat, h.pieces_eq]
      intro hnil
      have hlen := hkeep.length_le
      simp only [List.cons_append, List.nil_append] at hlen
      rw [hnil] at hlen
      simp at hlen
  · exact h.keepsTo_pieces

end

/-- What the storage calls on a path go through lies in the region. -/
structure StorageKeepsTo (region : Loc → Prop) (path : String) : Prop where
  target : KeepsTo region [] (pieces path)
  folder : KeepsTo region [] (parent (pieces path))
  temp : KeepsTo region [] (tempPath path)

/-- A raw path, its folder and its temporary name keep to the region of its user. -/
theorem keepsTo_rawPath {username filename path : String} {agentId : Uuid}
    {project : Option String} (huser : Http.validateUsername username = .ok ())
    (h : getRawPath username agentId project filename = .ok path) :
    StorageKeepsTo (InRegion username) path := by
  rcases isRawPieces_of_getRawPath huser h with ⟨p, -, -, hpieces⟩
  exact ⟨hpieces.keepsTo_pieces, hpieces.keepsTo_parent, hpieces.keepsTo_temp⟩

/-! ## Storage in trees that agree -/

section

variable {region : Loc → Prop} {fs fs' : Fs}

/-- A call returns the same result and leaves trees that agree. -/
def SameStep (region : Loc → Prop) {α : Type} (r r' : α × Fs) : Prop :=
  r.1 = r'.1 ∧ AgreeOn region r.2 r'.2

theorem createFolder_agree (hagree : AgreeOn region fs fs') {folder : List String}
    (h : KeepsTo region [] folder) (fault : Option StorageFault) :
    SameStep region (createFolder fs folder fault) (createFolder fs' folder fault) := by
  unfold createFolder
  split
  · exact ⟨rfl, (createDirAll_agree hagree (h.of_prefix (List.take_prefix _ _))).2⟩
  · exact createDirAll_agree hagree h

theorem writeTemp_agree (hagree : AgreeOn region fs fs') {tmp : List String}
    (h : KeepsTo region [] tmp) (content : String) (fault : Option StorageFault) :
    SameStep region (writeTemp fs tmp content fault) (writeTemp fs' tmp content fault) := by
  unfold writeTemp
  split
  · exact ⟨rfl, hagree⟩
  · rename_i left e
    rcases (write_agree hagree h left).cases with ⟨gs, gs', hr, hr', hgs⟩ | ⟨e', hr, hr'⟩
    · rw [hr, hr']
      exact ⟨rfl, hgs⟩
    · rw [hr, hr']
      exact ⟨rfl, hagree⟩
  · rcases (write_agree hagree h (some content)).cases with ⟨gs, gs', hr, hr', hgs⟩ | ⟨e, hr, hr'⟩
    · rw [hr, hr']
      exact ⟨rfl, hgs⟩
    · rw [hr, hr']
      exact ⟨rfl, hagree⟩

theorem renameTemp_agree (hagree : AgreeOn region fs fs') {tmp target : List String}
    (htmp : KeepsTo region [] tmp) (htarget : KeepsTo region [] target)
    (fault : Option StorageFault) :
    SameStep region (renameTemp fs tmp target fault) (renameTemp fs' tmp target fault) := by
  unfold renameTemp
  split
  · exact ⟨rfl, hagree⟩
  · rcases (rename_agree hagree htmp htarget).cases with ⟨gs, gs', hr, hr', hgs⟩ | ⟨e, hr, hr'⟩
    · rw [hr, hr']
      exact ⟨rfl, hgs⟩
    · rw [hr, hr']
      exact ⟨rfl, hagree⟩

/-- A read returns the same. -/
theorem storageRead_agree (hagree : AgreeOn region fs fs') {path : String}
    (h : StorageKeepsTo region path) : storageRead fs path = storageRead fs' path := by
  unfold storageRead
  rw [readToString_agree hagree h.target]

/-- A write does the same. -/
theorem storageWrite_agree (hagree : AgreeOn region fs fs') {path : String}
    (h : StorageKeepsTo region path) (content : String) (fault : Option StorageFault) :
    SameStep region (storageWrite fs path content fault) (storageWrite fs' path content fault) := by
  unfold storageWrite
  rcases hfolder : createFolder fs (parent (pieces path)) fault with ⟨r₁, fs₁⟩
  rcases hfolder' : createFolder fs' (parent (pieces path)) fault with ⟨r₁', fs₁'⟩
  have h₁ := createFolder_agree hagree h.folder fault
  rw [hfolder, hfolder'] at h₁
  rcases h₁ with ⟨hr₁, hagree₁⟩
  dsimp only at hr₁ hagree₁
  subst hr₁
  cases r₁ with
  | error e => exact ⟨rfl, hagree₁⟩
  | ok _ =>
      simp only
      rcases hwrite : writeTemp fs₁ (tempPath path) content fault with ⟨r₂, fs₂⟩
      rcases hwrite' : writeTemp fs₁' (tempPath path) content fault with ⟨r₂', fs₂'⟩
      have h₂ := writeTemp_agree hagree₁ h.temp content fault
      rw [hwrite, hwrite'] at h₂
      rcases h₂ with ⟨hr₂, hagree₂⟩
      dsimp only at hr₂ hagree₂
      subst hr₂
      cases r₂ with
      | error e => exact ⟨rfl, hagree₂⟩
      | ok _ =>
          simp only
          rcases hrename : renameTemp fs₂ (tempPath path) (pieces path) fault with ⟨r₃, fs₃⟩
          rcases hrename' : renameTemp fs₂' (tempPath path) (pieces path) fault with ⟨r₃', fs₃'⟩
          have h₃ := renameTemp_agree hagree₂ h.temp h.target fault
          rw [hrename, hrename'] at h₃
          rcases h₃ with ⟨hr₃, hagree₃⟩
          dsimp only at hr₃ hagree₃
          subst hr₃
          cases r₃ with
          | error e => exact ⟨rfl, hagree₃⟩
          | ok _ => exact ⟨rfl, hagree₃⟩

/-- A delete does the same. -/
theorem storageDelete_agree (hagree : AgreeOn region fs fs') {path : String}
    (h : StorageKeepsTo region path) (fault : Option StorageFault) :
    SameStep region (storageDelete fs path fault) (storageDelete fs' path fault) := by
  unfold storageDelete
  split
  · exact ⟨rfl, hagree⟩
  · rcases (unlink_agree hagree h.target).cases with ⟨gs, gs', hr, hr', hgs⟩ | ⟨e, hr, hr'⟩
    · rw [hr, hr']
      exact ⟨rfl, hgs⟩
    · rw [hr, hr']
      cases e <;> exact ⟨rfl, hagree⟩

end

/-! ## Storage for another user -/

section

variable {u v filename path : String} {agentId : Uuid} {project : Option String} {fs fs' : Fs}

/-- What changes inside one user's folder is out of another's region. -/
theorem agreeOn_of_changesInside (h : ChangesInside v fs fs') (hne : v ≠ u) :
    AgreeOn (InRegion u) fs' fs := by
  intro l hl
  by_contra hchanged
  rcases h l hchanged with hinside | ⟨rfl, -, -⟩
  · exact not_inRegion_of_inside hinside hne hl
  · rcases hl with hnil | ⟨names, heq⟩
    · simp at hnil
    · have hlast : ([] : Loc) ++ [v] = names ++ [u] := heq
      exact hne (List.append_inj_right' hlast rfl |> List.singleton_inj.mp)

/-- A write for one user leaves the region of another. -/
theorem storageWrite_spares (huser : Http.validateUsername v = .ok ())
    (h : getRawPath v agentId project filename = .ok path) (hne : v ≠ u) (content : String)
    (fault : Option StorageFault) :
    AgreeOn (InRegion u) (storageWrite fs path content fault).2 fs := by
  rcases isRawPieces_of_getRawPath huser h with ⟨p, -, -, hpieces⟩
  exact agreeOn_of_changesInside (hpieces.storageWrite_inside rfl) hne

/-- A delete for one user leaves the region of another. -/
theorem storageDelete_spares (huser : Http.validateUsername v = .ok ())
    (h : getRawPath v agentId project filename = .ok path) (hne : v ≠ u)
    (fault : Option StorageFault) :
    AgreeOn (InRegion u) (storageDelete fs path fault).2 fs := by
  rcases isRawPieces_of_getRawPath huser h with ⟨p, -, -, hpieces⟩
  apply agreeOn_of_changesInside ?_ hne
  intro l hl
  exact Or.inl (hpieces.storageDelete_inside rfl hl)

end

end Memory
end MemoryHub
