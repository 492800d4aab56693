import MemoryHub.Memory.RawLocation
import Mathlib.Data.Set.Function

/-!
# The key space

The index and the storage of all users share one space of keys, texts made of segments with
slashes between them.  A key is that of a raw file, or that of a summary; which one it is, and
what it was made of, can be read from the text.

Main results:

- Theorem `path_injOn`: well-formed keys with the same text are the same.
- Theorem `keys_partitioned`: raw keys, synthesis folders and what lies in them are told apart.
- Theorem `getRawPath_apart_iff`: when two files of one agent have raw paths of their own.
-/

namespace MemoryHub
namespace Memory

open UnixPath

/-! ## Keys -/

/-- What a key is made of. -/
inductive StoreKey where
  | raw (username : String) (agentId : Uuid) (project filename : String)
  | summary (target : SynthesisTarget) (name : String)
deriving DecidableEq

namespace StoreKey

/-- The text of the key. -/
def path : StoreKey → String
  | .raw username agentId project filename => rawPath username agentId project filename
  | .summary target name => synthesisFolder target ++ "/" ++ name

/-- The segments of the key. -/
def segments : StoreKey → List String
  | .raw username agentId project filename => [username, agentId.hyphenated, project, filename]
  | .summary target name => (folderNames target).reverse ++ [name]

/-- The key is made as the program makes keys: of a valid user's name, a resolved project, and
a name without slashes. -/
def WellFormed : StoreKey → Prop
  | .raw username _ project filename =>
      Http.validateUsername username = .ok () ∧ IsProject project ∧ '/' ∉ filename.toList
  | .summary target name => IsTarget target ∧ '/' ∉ name.toList

variable {k k' : StoreKey}

/-- The text falls into the key's segments. -/
theorem pieces_path (h : k.WellFormed) : pieces k.path = k.segments := by
  cases k with
  | raw username agentId project filename =>
      rcases h with ⟨huser, hproject, hfile⟩
      exact pieces_rawPath (username_segment huser).2.1 hproject.no_slash hfile
  | summary target name =>
      rcases h with ⟨htarget, hname⟩
      rw [path, pieces_append_slash, pieces_synthesisFolder htarget, pieces_eq_singleton hname]
      rfl

/-- Where a summary has its last folder, a raw key has its project. -/
theorem segments_raw_ne {username project filename : String} {agentId : Uuid}
    (hproject : IsProject project) (target : SynthesisTarget) (name : String) :
    (raw username agentId project filename).segments ≠ (summary target name).segments := by
  intro h
  cases target with
  | agent user agent =>
      simp only [segments, folderNames, List.reverse_cons, List.reverse_nil, List.nil_append,
        List.cons_append, List.cons.injEq] at h
      exact hproject.ne_synthesized h.2.2.1
  | user user => exact absurd (congrArg List.length h) (by simp [segments, folderNames])
  | global => exact absurd (congrArg List.length h) (by simp [segments, folderNames])

/-- The segments tell what the key was made of. -/
theorem segments_inj (h : k.WellFormed) (h' : k'.WellFormed) (heq : k.segments = k'.segments) :
    k = k' := by
  cases k with
  | raw username agentId project filename =>
      cases k' with
      | raw username' agentId' project' filename' =>
          simp only [segments, List.cons.injEq, and_true] at heq
          rcases heq with ⟨rfl, hagent, rfl, rfl⟩
          rw [Uuid.hyphenated_inj.mp hagent]
      | summary target name => exact absurd heq (segments_raw_ne h.2.1 target name)
  | summary target name =>
      cases k' with
      | raw username agentId project filename =>
          exact absurd heq.symm (segments_raw_ne h'.2.1 target name)
      | summary target' name' =>
          rcases List.append_inj' heq rfl with ⟨hfolder, hname⟩
          rw [folderNames_inj.mp (List.reverse_injective hfolder), (List.cons.inj hname).1]

/-- Well-formed keys with the same text are the same. -/
theorem path_injOn : Set.InjOn path {k | k.WellFormed} := by
  intro k h k' h' heq
  apply segments_inj h h'
  rw [← pieces_path h, ← pieces_path h', heq]

end StoreKey

/-! ## Paths the program derives -/

/-- A raw path is the text of a key with the resolved project and the flattened name. -/
theorem getRawPath_key {username filename path : String} {agentId : Uuid}
    {project : Option String} (huser : Http.validateUsername username = .ok ())
    (h : getRawPath username agentId project filename = .ok path) :
    ∃ p, resolveProject project = .ok p ∧
      (StoreKey.raw username agentId p (flattenFilename filename)).WellFormed ∧
      path = (StoreKey.raw username agentId p (flattenFilename filename)).path := by
  rcases getRawPath_eq_rawPath h with ⟨p, hp, rfl⟩
  exact ⟨p, hp, ⟨huser, isProject_of_resolveProject hp,
    separator_notMem_flattenFilename filename (Or.inl rfl)⟩, rfl⟩

/-- Raw paths are equal exactly if all four parts of their keys are. -/
theorem getRawPath_eq_iff {u v f g r s : String} {a b : Uuid} {p q : Option String}
    (hu : Http.validateUsername u = .ok ()) (hv : Http.validateUsername v = .ok ())
    (hr : getRawPath u a p f = .ok r) (hs : getRawPath v b q g = .ok s) :
    r = s ↔ u = v ∧ a = b ∧ resolveProject p = resolveProject q ∧
      flattenFilename f = flattenFilename g := by
  rcases getRawPath_key hu hr with ⟨p', hp, hrkey, rfl⟩
  rcases getRawPath_key hv hs with ⟨q', hq, hskey, rfl⟩
  rw [StoreKey.path_injOn.eq_iff hrkey hskey, StoreKey.raw.injEq, hp, hq, Except.ok.injEq]

/-- Targets with the same folder are the same. -/
theorem synthesisFolder_inj {target target' : SynthesisTarget} (h : IsTarget target)
    (h' : IsTarget target') (heq : synthesisFolder target = synthesisFolder target') :
    target = target' := by
  have hname : '/' ∉ "_".toList := by decide
  have hkey : (StoreKey.summary target "_").WellFormed := ⟨h, hname⟩
  have hkey' : (StoreKey.summary target' "_").WellFormed := ⟨h', hname⟩
  have hpath : (StoreKey.summary target "_").path = (StoreKey.summary target' "_").path := by
    rw [StoreKey.path, StoreKey.path, heq]
  have hsame := StoreKey.path_injOn hkey hkey' hpath
  rw [StoreKey.summary.injEq] at hsame
  exact hsame.1

/-- The key space is partitioned: raw paths tell what they were made of, targets have folders of
their own, and no raw path lies in one of these. -/
theorem keys_partitioned :
    (∀ (u v : String) (a b : Uuid) (p q : Option String) (f g r s : String),
        Http.validateUsername u = .ok () → Http.validateUsername v = .ok () →
        getRawPath u a p f = .ok r → getRawPath v b q g = .ok s →
        (r = s ↔ u = v ∧ a = b ∧ resolveProject p = resolveProject q ∧
          flattenFilename f = flattenFilename g)) ∧
      (∀ target target', IsTarget target → IsTarget target' → target ≠ target' →
        synthesisFolder target ≠ synthesisFolder target') ∧
      ∀ (u : String) (a : Uuid) (p : Option String) (f r : String) (target : SynthesisTarget)
        (name : String), Http.validateUsername u = .ok () → getRawPath u a p f = .ok r →
        IsTarget target → '/' ∉ name.toList → r ≠ synthesisFolder target ++ "/" ++ name := by
  refine ⟨?_, ?_, ?_⟩
  · intro u v a b p q f g r s hu hv hr hs
    exact getRawPath_eq_iff hu hv hr hs
  · intro target target' h h' hne heq
    exact hne (synthesisFolder_inj h h' heq)
  · intro u a p f r target name hu hr htarget hname heq
    rcases getRawPath_key hu hr with ⟨p', -, hkey, rfl⟩
    have hsummary : (StoreKey.summary target name).WellFormed := ⟨htarget, hname⟩
    have hpath : (StoreKey.raw u a p' (flattenFilename f)).path =
        (StoreKey.summary target name).path := heq
    have hsame := StoreKey.path_injOn hkey hsummary hpath
    contradiction

/-- One user's file in two projects, an agent's folder and its user's, and a file of the agent's
project beside the agent's summaries. -/
theorem keys_partitioned_alice :
    rawPath "alice" .nil "_default" "a.md" ≠ rawPath "alice" .nil "notes" "a.md" ∧
      synthesisFolder (.agent "alice" (Uuid.nil).hyphenated) ≠ synthesisFolder (.user "alice") ∧
      rawPath "alice" .nil "_default" "a.md" ≠
        synthesisFolder (.agent "alice" (Uuid.nil).hyphenated) ++ "/" ++ "a.md" := by
  have halice : Http.validateUsername "alice" = .ok () := by decide +kernel
  have hdefault : getRawPath "alice" .nil none "a.md" =
      .ok (rawPath "alice" .nil "_default" "a.md") := by decide +kernel
  have hnotes : getRawPath "alice" .nil (some "notes") "a.md" =
      .ok (rawPath "alice" .nil "notes" "a.md") := by decide +kernel
  have hagent : IsTarget (.agent "alice" (Uuid.nil).hyphenated) := ⟨halice, .nil, rfl⟩
  refine ⟨?_, ?_, ?_⟩
  · rw [Ne, keys_partitioned.1 _ _ _ _ _ _ _ _ _ _ halice halice hdefault hnotes]
    rintro ⟨-, -, hproject, -⟩
    revert hproject
    decide +kernel
  · exact keys_partitioned.2.1 _ _ hagent halice (by decide)
  · exact keys_partitioned.2.2 _ _ _ _ _ _ _ halice hdefault hagent (by decide)

/-! ## Keys of one agent -/

/-- Accepted projects are resolved to the same one exactly if they are the same when trimmed:
the default one cannot be named. -/
theorem resolveProject_eq_iff {p q : String} (hp : IsCallerProject p) (hq : IsCallerProject q) :
    resolveProject (some p) = resolveProject (some q) ↔ RustStr.trim p = RustStr.trim q := by
  rw [resolveProject_some_eq_ok.mpr ⟨hp, rfl⟩, resolveProject_some_eq_ok.mpr ⟨hq, rfl⟩,
    Except.ok.injEq]
  have hdefault : ∀ {r : String}, IsCallerProject r → RustStr.trim r ≠ defaultProject := by
    intro r hr heq
    exact hr.2.2 (by rw [heq]; decide)
  split <;> rename_i hp' <;> split <;> rename_i hq'
  · simp only [hp', hq']
  · rw [hp']
    exact iff_of_false (hdefault hq).symm (Ne.symm hq')
  · rw [hq']
    exact iff_of_false (hdefault hp) hp'
  · exact Iff.rfl

/-- The characters that cannot be told apart when a file name is flattened. -/
def IsJoint (c : Char) : Prop :=
  c = '/' ∨ c = '\\' ∨ c = '_'

instance (c : Char) : Decidable (IsJoint c) :=
  inferInstanceAs (Decidable (c = '/' ∨ c = '\\' ∨ c = '_'))

/-- The same file names but for separators and underscores, each in the place of another. -/
def SameUpToJoints (f g : String) : Prop :=
  List.Forall₂ (fun c d => c = d ∨ IsJoint c ∧ IsJoint d) f.toList g.toList

/-- File names are flattened to the same exactly if they are the same up to joints. -/
theorem flattenFilename_inj_iff {f g : String} :
    flattenFilename f = flattenFilename g ↔ SameUpToJoints f g := by
  have hchar : ∀ c d : Char, (if c = '/' ∨ c = '\\' then '_' else c) =
      (if d = '/' ∨ d = '\\' then '_' else d) ↔ c = d ∨ IsJoint c ∧ IsJoint d := by
    intro c d
    unfold IsJoint
    split_ifs <;> grind
  rw [flattenFilename, flattenFilename, ← String.toList_inj, String.toList_ofList,
    String.toList_ofList, ← List.forall₂_eq_eq_eq, List.forall₂_map_left_iff,
    List.forall₂_map_right_iff, SameUpToJoints]
  simp only [hchar]

/-- Raw paths of one agent are equal exactly if their projects and their names are. -/
theorem getRawPath_eq_iff_of_agent {username : String} {agentId : Uuid} {p q : Option String}
    {f g r s : String} (hr : getRawPath username agentId p f = .ok r)
    (hs : getRawPath username agentId q g = .ok s) :
    r = s ↔ resolveProject p = resolveProject q ∧ flattenFilename f = flattenFilename g := by
  rcases getRawPath_eq_rawPath hr with ⟨p', hp, rfl⟩
  rcases getRawPath_eq_rawPath hs with ⟨q', hq, rfl⟩
  have hpieces {project : Option String} {name filename : String}
      (h : resolveProject project = .ok name) :
      pieces (name ++ "/" ++ flattenFilename filename) = [name, flattenFilename filename] := by
    rw [pieces_cons_slash (isProject_of_resolveProject h).no_slash,
      pieces_eq_singleton (separator_notMem_flattenFilename filename (Or.inl rfl))]
  rw [hp, hq, Except.ok.injEq, rawPath, rawPath, String.append_right_inj,
    String.append_right_inj]
  constructor
  · intro heq
    have hsame := congrArg pieces heq
    rw [hpieces hp, hpieces hq] at hsame
    simpa using hsame
  · rintro ⟨rfl, hfile⟩
    rw [hfile]

/-- The raw paths of two files of an agent are both there and different exactly if both projects
are accepted, and trimming and flattening do not make the files the same. -/
theorem getRawPath_apart_iff (username : String) (agentId : Uuid) (p q f g : String) :
    (∃ r s, getRawPath username agentId (some p) f = .ok r ∧
        getRawPath username agentId (some q) g = .ok s ∧ r ≠ s) ↔
      IsCallerProject p ∧ IsCallerProject q ∧
        ¬ (RustStr.trim p = RustStr.trim q ∧ SameUpToJoints f g) := by
  constructor
  · rintro ⟨r, s, hr, hs, hne⟩
    rcases getRawPath_eq_rawPath hr with ⟨p', hp, -⟩
    rcases getRawPath_eq_rawPath hs with ⟨q', hq, -⟩
    have hp' := (resolveProject_some_eq_ok.mp hp).1
    have hq' := (resolveProject_some_eq_ok.mp hq).1
    rw [Ne, getRawPath_eq_iff_of_agent hr hs, resolveProject_eq_iff hp' hq',
      flattenFilename_inj_iff] at hne
    exact ⟨hp', hq', hne⟩
  · rintro ⟨hp, hq, hapart⟩
    have hr := getRawPath_of_resolveProject username agentId f
      (resolveProject_some_eq_ok.mpr ⟨hp, rfl⟩)
    have hs := getRawPath_of_resolveProject username agentId g
      (resolveProject_some_eq_ok.mpr ⟨hq, rfl⟩)
    refine ⟨_, _, hr, hs, ?_⟩
    rw [Ne, getRawPath_eq_iff_of_agent hr hs, resolveProject_eq_iff hp hq,
      flattenFilename_inj_iff]
    exact hapart

end Memory
end MemoryHub
