import MemoryHub.Lib.FileSystem

/-!
# Regions of a file tree

A path keeps to a region if whatever it goes through lies there.  A call on such a path
sees nothing outside of the region: in trees that agree on the region it returns the same,
and it leaves trees that agree there again.

Main results:

- Theorem `locate_agree`: such a path leads to the same in both trees.
- Theorem `readToString_agree`, `write_agree`, `rename_agree`, `unlink_agree`,
  `createDirAll_agree`: what each call does in both.
-/

namespace FileSystem
namespace Fs

open UnixPath

/-- The trees hold the same in the region. -/
def AgreeOn (region : Loc → Prop) (fs fs' : Fs) : Prop :=
  ∀ l, region l → fs.node l = fs'.node l

/-- Every part of the path leads into the region. -/
def KeepsTo (region : Loc → Prop) (loc : Loc) (ps : List String) : Prop :=
  ∀ pre, pre <+: ps → region (lexical loc pre)

/-- Both calls fail with the same error, or leave trees that agree on the region. -/
def SameOutcome (region : Loc → Prop) : Except IoError Fs → Except IoError Fs → Prop
  | .ok fs, .ok fs' => AgreeOn region fs fs'
  | .error e, .error e' => e = e'
  | _, _ => False

section

variable {region : Loc → Prop} {fs fs' : Fs}

/-- Two calls with one outcome succeed together, or fail together. -/
theorem SameOutcome.cases {r r' : Except IoError Fs} (h : SameOutcome region r r') :
    (∃ gs gs', r = .ok gs ∧ r' = .ok gs' ∧ AgreeOn region gs gs') ∨
      ∃ e, r = .error e ∧ r' = .error e := by
  cases r with
  | ok gs =>
      cases r' with
      | ok gs' => exact Or.inl ⟨gs, gs', rfl, rfl, h⟩
      | error e => exact absurd h id
  | error e =>
      cases r' with
      | ok gs' => exact absurd h id
      | error e' =>
          have herr : e = e' := h
          exact Or.inr ⟨e, rfl, by rw [herr]⟩

theorem KeepsTo.start {loc : Loc} {ps : List String} (h : KeepsTo region loc ps) : region loc :=
  h [] List.nil_prefix

/-- The rest of the path keeps to the region from where its first piece leads. -/
theorem KeepsTo.rest {loc : Loc} {p : String} {ps : List String}
    (h : KeepsTo region loc (p :: ps)) : KeepsTo region (lexical loc [p]) ps := by
  intro pre hpre
  rw [← lexical_cons]
  exact h (p :: pre) (List.cons_prefix_cons.mpr ⟨rfl, hpre⟩)

theorem KeepsTo.of_prefix {loc : Loc} {ps qs : List String} (h : KeepsTo region loc qs)
    (hps : ps <+: qs) : KeepsTo region loc ps :=
  fun pre hpre => h pre (hpre.trans hps)

/-- The rest of the path after a piece that names nothing. -/
theorem KeepsTo.rest_skipped {loc : Loc} {p : String} {ps : List String}
    (h : KeepsTo region loc (p :: ps)) (hp : isSkipped p = true) : KeepsTo region loc ps := by
  have hrest := h.rest
  rwa [lexical, if_pos hp, lexical] at hrest

/-- The rest of the path after a piece that climbs. -/
theorem KeepsTo.rest_up {loc : Loc} {ps : List String}
    (h : KeepsTo region loc (".." :: ps)) : KeepsTo region loc.tail ps := by
  have hrest := h.rest
  rwa [lexical, if_neg (by decide), if_pos rfl, lexical] at hrest

/-- The rest of the path after a name. -/
theorem KeepsTo.rest_name {loc : Loc} {p : String} {ps : List String}
    (h : KeepsTo region loc (p :: ps)) (hskip : ¬ isSkipped p = true) (hdots : p ≠ "..") :
    KeepsTo region (p :: loc) ps := by
  have hrest := h.rest
  rwa [lexical, if_neg hskip, if_neg hdots, lexical] at hrest

/-! ## Walking -/

/-- The pieces of the path are followed alike. -/
theorem walk_agree (hagree : AgreeOn region fs fs') {loc : Loc} {ps : List String}
    (hdir : fs.node loc = some .dir) (h : KeepsTo region loc ps) :
    fs.walk loc ps = fs'.walk loc ps := by
  induction ps generalizing loc with
  | nil => rfl
  | cons p ps ih =>
      have henter : fs.enter loc p = fs'.enter loc p := by
        unfold enter
        split
        · rfl
        · rename_i hskip
          split
          · rfl
          · rename_i hdots
            rw [hagree (p :: loc) (h.rest_name hskip hdots).start]
      have hwalk : ∀ t : Fs, t.walk loc (p :: ps) = (t.enter loc p).bind fun l => t.walk l ps :=
        fun _ => rfl
      rw [hwalk, hwalk, ← henter]
      cases hloc : fs.enter loc p with
      | error e => rfl
      | ok loc' =>
          rcases enter_eq_ok hdir hloc with ⟨hdir', rfl⟩
          exact ih hdir' h.rest

/-- The path leads to the same. -/
theorem locate_agree (hagree : AgreeOn region fs fs') {ps : List String}
    (h : KeepsTo region [] ps) : fs.locate ps = fs'.locate ps := by
  unfold locate
  rw [walk_agree hagree fs.root_dir (h.of_prefix (List.dropLast_prefix ps))]

/-- What the path leads to lies in the region, and so does its directory. -/
theorem region_of_locate {ps : List String} (h : KeepsTo region [] ps) {name : String} {loc : Loc}
    (hloc : fs.locate ps = .ok (.entry name loc)) :
    region (name :: loc) ∧ region loc ∧ fs.node loc = some .dir := by
  rcases locate_eq_entry hloc with ⟨-, hname, hdir, hlex, qs, rfl⟩
  refine ⟨hlex ▸ h _ (List.prefix_refl _), ?_, hdir⟩
  have hqs := h qs (List.prefix_append qs [name])
  rw [lexical_append, lexical_cons_name hname, lexical] at hlex
  rw [(List.cons.inj hlex).2]
  exact hqs

/-! ## Changing an entry -/

/-- Changing the same entry in the same way. -/
theorem agreeOn_update (hagree : AgreeOn region fs fs') {gs gs' : Fs} {l : Loc} {n : Option Node}
    (h : gs.node = Function.update fs.node l n) (h' : gs'.node = Function.update fs'.node l n) :
    AgreeOn region gs gs' := by
  intro k hk
  rw [h, h', Function.update_apply, Function.update_apply]
  split
  · rfl
  · exact hagree k hk

theorem putDir_agree (hagree : AgreeOn region fs fs') {name : String} {loc : Loc}
    (hloc : region loc) (hentry : region (name :: loc)) :
    AgreeOn region (fs.putDir name loc) (fs'.putDir name loc) := by
  have hsame : fs.node loc = fs'.node loc := hagree loc hloc
  have hsame' : fs.node (name :: loc) = fs'.node (name :: loc) := hagree _ hentry
  by_cases hput : fs.node loc = some .dir ∧ fs.node (name :: loc) = none
  · exact agreeOn_update hagree (node_putDir hput.1 hput.2)
      (node_putDir (hsame ▸ hput.1) (hsame' ▸ hput.2))
  · rw [putDir, dif_neg hput, putDir, dif_neg (by rwa [← hsame, ← hsame'])]
    exact hagree

theorem putFile_agree (hagree : AgreeOn region fs fs') {name : String} {loc : Loc}
    (hloc : region loc) (hentry : region (name :: loc)) (text : Option String) :
    AgreeOn region (fs.putFile name loc text) (fs'.putFile name loc text) := by
  have hsame : fs.node loc = fs'.node loc := hagree loc hloc
  have hsame' : fs.node (name :: loc) = fs'.node (name :: loc) := hagree _ hentry
  by_cases hput : fs.node loc = some .dir ∧ fs.node (name :: loc) ≠ some .dir
  · exact agreeOn_update hagree (node_putFile hput.1 hput.2 text)
      (node_putFile (hsame ▸ hput.1) (hsame' ▸ hput.2) text)
  · rw [putFile, dif_neg hput, putFile, dif_neg (by rwa [← hsame, ← hsame'])]
    exact hagree

theorem removeFile_agree (hagree : AgreeOn region fs fs') {name : String} {loc : Loc}
    (hentry : region (name :: loc)) :
    AgreeOn region (fs.removeFile name loc) (fs'.removeFile name loc) := by
  have hsame : fs.node (name :: loc) = fs'.node (name :: loc) := hagree _ hentry
  by_cases hfile : fs.node (name :: loc) = some .dir
  · rw [removeFile, dif_neg (not_not.mpr hfile), removeFile,
      dif_neg (not_not.mpr (hsame ▸ hfile))]
    exact hagree
  · exact agreeOn_update hagree (node_removeFile hfile) (node_removeFile (hsame ▸ hfile))

/-! ## System calls -/

/-- A read returns the same. -/
theorem readToString_agree (hagree : AgreeOn region fs fs') {ps : List String}
    (h : KeepsTo region [] ps) : fs.readToString ps = fs'.readToString ps := by
  unfold readToString
  rw [← locate_agree hagree h]
  cases hloc : fs.locate ps with
  | error e => rfl
  | ok t =>
      cases t with
      | dir loc => rfl
      | entry name loc =>
          simp only
          rw [hagree _ (region_of_locate h hloc).1]

/-- A write does the same. -/
theorem write_agree (hagree : AgreeOn region fs fs') {ps : List String}
    (h : KeepsTo region [] ps) (text : Option String) :
    SameOutcome region (fs.write ps text) (fs'.write ps text) := by
  unfold write
  rw [← locate_agree hagree h]
  cases hloc : fs.locate ps with
  | error e => exact rfl
  | ok t =>
      cases t with
      | dir loc => exact rfl
      | entry name loc =>
          rcases region_of_locate h hloc with ⟨hentry, hdir, -⟩
          simp only
          rw [← hagree _ hentry]
          split
          · exact rfl
          · exact putFile_agree hagree hdir hentry text

/-- A rename does the same. -/
theorem rename_agree (hagree : AgreeOn region fs fs') {old new : List String}
    (hold : KeepsTo region [] old) (hnew : KeepsTo region [] new) :
    SameOutcome region (fs.rename old new) (fs'.rename old new) := by
  unfold rename
  rw [← locate_agree hagree hold, ← locate_agree hagree hnew]
  cases hloc : fs.locate old with
  | error e => exact rfl
  | ok t =>
      cases hloc' : fs.locate new with
      | error e => exact rfl
      | ok t' =>
          cases t with
          | dir loc => exact rfl
          | entry name loc =>
              cases t' with
              | dir loc' => exact rfl
              | entry name' loc' =>
                  rcases region_of_locate hold hloc with ⟨hentry, -, -⟩
                  rcases region_of_locate hnew hloc' with ⟨hentry', hdir', -⟩
                  simp only
                  rw [← hagree _ hentry, ← hagree _ hentry']
                  split
                  · exact rfl
                  · exact rfl
                  · split
                    · exact rfl
                    · split
                      · exact hagree
                      · exact putFile_agree (removeFile_agree hagree hentry) hdir' hentry' _

/-- An unlink does the same. -/
theorem unlink_agree (hagree : AgreeOn region fs fs') {ps : List String}
    (h : KeepsTo region [] ps) : SameOutcome region (fs.unlink ps) (fs'.unlink ps) := by
  unfold unlink
  rw [← locate_agree hagree h]
  cases hloc : fs.locate ps with
  | error e => exact rfl
  | ok t =>
      cases t with
      | dir loc => exact rfl
      | entry name loc =>
          have hentry := (region_of_locate h hloc).1
          simp only
          rw [← hagree _ hentry]
          split
          · exact rfl
          · exact rfl
          · exact removeFile_agree hagree hentry

/-- Creating directories does the same. -/
theorem createDirs_agree (hagree : AgreeOn region fs fs') {loc : Loc} {ps : List String}
    (h : KeepsTo region loc ps) :
    (createDirs fs loc ps).1 = (createDirs fs' loc ps).1 ∧
      AgreeOn region (createDirs fs loc ps).2 (createDirs fs' loc ps).2 := by
  induction ps generalizing fs fs' loc with
  | nil => exact ⟨rfl, hagree⟩
  | cons p ps ih =>
      unfold createDirs
      split
      · rename_i hskip
        exact ih hagree (h.rest_skipped hskip)
      · rename_i hskip
        split
        · rename_i hdots
          rw [hdots] at h
          exact ih hagree h.rest_up
        · rename_i hdots
          have hrest := h.rest_name hskip hdots
          rw [← hagree _ hrest.start]
          split
          · exact ih hagree hrest
          · exact ⟨rfl, hagree⟩
          · exact ih (putDir_agree hagree h.start hrest.start) hrest

theorem createDirAll_agree (hagree : AgreeOn region fs fs') {ps : List String}
    (h : KeepsTo region [] ps) :
    (fs.createDirAll ps).1 = (fs'.createDirAll ps).1 ∧
      AgreeOn region (fs.createDirAll ps).2 (fs'.createDirAll ps).2 := by
  unfold createDirAll
  split
  · exact ⟨rfl, hagree⟩
  · exact createDirs_agree hagree h

end

end Fs
end FileSystem
