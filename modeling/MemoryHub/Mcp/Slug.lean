import MemoryHub.Lib.Decimal
import MemoryHub.Mcp.Identity

/-!
# Slugs

A client may call itself anything.  Its slug is a normal form of that name, fit to be the name of
a file: it has only some characters, it is its own slug, and names that read the same have
the same one.

Main results:

- Theorem `slugWith_eq`: however letters beyond ASCII are lower-cased, the slug is the same.
- Theorem `slug_slug`: a slug is its own slug.
- Theorem `slug_eq_of_sameName`: case and white space around a name make no difference.
- Theorem `slug_safe`: all of this, and the one file that a client's id is read from and kept in.
-/

namespace MemoryHub
namespace Mcp

open ListTrim Prog UnixPath

/-! ## The loop -/

/-- Characters that a slug keeps are put out as they come. -/
theorem foldl_slugStep_of_slug {raw : List Char} (h : ∀ c ∈ raw, isSlugChar c = true)
    (st : List Char × Bool) : (raw.foldl slugStep st).1 = st.1 ++ raw := by
  induction raw generalizing st with
  | nil => rw [List.foldl_nil, List.append_nil]
  | cons ch raw ih =>
      rw [List.foldl_cons, ih fun c hc => h c (List.mem_cons_of_mem _ hc), slugStep,
        if_pos (h ch List.mem_cons_self), List.append_assoc, List.singleton_append]

/-- A run of characters that a slug does not keep puts out at most one dash. -/
theorem foldl_slugStep_of_run {raw : List Char} (hne : raw ≠ [])
    (h : ∀ c ∈ raw, isSlugChar c = false) (st : List Char × Bool) :
    raw.foldl slugStep st = if st.2 then st else (st.1 ++ ['-'], true) := by
  induction raw generalizing st with
  | nil => contradiction
  | cons ch raw ih =>
      have hch : slugStep st ch = if st.2 then st else (st.1 ++ ['-'], true) := by
        rw [slugStep, if_neg (by simp [h ch List.mem_cons_self])]
      rw [List.foldl_cons, hch]
      cases raw with
      | nil => rfl
      | cons ch' raw =>
          rw [ih (List.cons_ne_nil _ _) fun c hc => h c (List.mem_cons_of_mem _ hc)]
          split <;> simp_all

/-! ## Lower-casing -/

/-- What the lower-casing of a character can be: that of the model, or some characters that a
slug does not keep where the model has such, too. -/
def LowersTo (c : Char) (piece : List Char) : Prop :=
  piece = lowercaseChar c ∨ (piece ≠ [] ∧ (∀ d ∈ piece, isSlugChar d = false) ∧
    ∀ d ∈ lowercaseChar c, isSlugChar d = false)

theorem lowercaseChar_ne_nil (c : Char) : lowercaseChar c ≠ [] := by
  unfold lowercaseChar
  split
  · simp
  · split <;> simp

/-- The loop makes no difference between such lower-casings. -/
theorem foldl_slugStep_lowersTo {cs : List Char} {pieces : List (List Char)}
    (h : List.Forall₂ LowersTo cs pieces) (st : List Char × Bool) :
    pieces.flatten.foldl slugStep st = (cs.flatMap lowercaseChar).foldl slugStep st := by
  induction h generalizing st with
  | nil => rfl
  | @cons c piece cs pieces hpiece _ ih =>
      rw [List.flatten_cons, List.flatMap_cons, List.foldl_append, List.foldl_append, ih]
      congr 1
      rcases hpiece with rfl | ⟨hne, hrun, hrun'⟩
      · rfl
      · rw [foldl_slugStep_of_run hne hrun, foldl_slugStep_of_run (lowercaseChar_ne_nil c) hrun']

/-- `slug` with another way to lower-case. -/
def slugWith (lower : List Char → List Char) (name : Option String) : String :=
  let raw := lower (RustStr.trim (name.getD "")).toList
  let out := (raw.foldl slugStep ([], false)).1
  let trimmed := (out.dropWhile (· == '-')).rdropWhile (· == '-')
  if trimmed = [] then "default" else String.ofList trimmed

/-- However letters beyond ASCII are lower-cased, the slug is the same. -/
theorem slugWith_eq {lower : List Char → List Char}
    (h : ∀ cs, ∃ pieces, List.Forall₂ LowersTo cs pieces ∧ lower cs = pieces.flatten)
    (name : Option String) : slugWith lower name = slug name := by
  rcases h (RustStr.trim (name.getD "")).toList with ⟨pieces, hpieces, hlower⟩
  rw [slugWith, slug, hlower, foldl_slugStep_lowersTo hpieces]

/-! ## Normal forms -/

/-- The characters of a slug: `a` to `z`, `0` to `9`, `-` and `_`. -/
def isNormalChar (c : Char) : Bool :=
  c.isLower || c.isDigit || c == '-' || c == '_'

theorem isNormalChar_iff {c : Char} : isNormalChar c = true ↔
    (97 ≤ c.toNat ∧ c.toNat ≤ 122) ∨ (48 ≤ c.toNat ∧ c.toNat ≤ 57) ∨ c.toNat = 45 ∨
      c.toNat = 95 := by
  have hdash : c = '-' ↔ c.toNat = 45 := Char.toNat_inj.symm
  have hline : c = '_' ↔ c.toNat = 95 := Char.toNat_inj.symm
  rw [isNormalChar, Bool.or_eq_true, Bool.or_eq_true, Bool.or_eq_true, RustStr.isLower_iff,
    Decimal.isDigit_iff, beq_iff_eq, beq_iff_eq, hdash, hline, or_assoc, or_assoc]

/-- A slug keeps capitals, too, if it is given any. -/
theorem isSlugChar_iff {c : Char} : isSlugChar c = true ↔
    (65 ≤ c.toNat ∧ c.toNat ≤ 90) ∨ isNormalChar c = true := by
  have halpha : c.isAlphanum = (c.isUpper || c.isLower || c.isDigit) := rfl
  rw [isSlugChar, halpha, isNormalChar, ← RustStr.isUpper_iff]
  simp only [Bool.or_eq_true, or_assoc]

/-- No lower-casing makes a capital. -/
theorem isNormalChar_of_mem_lowercaseChar {c d : Char} (h : d ∈ lowercaseChar c)
    (hd : isSlugChar d = true) : isNormalChar d = true := by
  unfold lowercaseChar at h
  split at h
  · rw [List.mem_singleton.mp h]
    decide
  · split at h
    · simp only [List.mem_cons, List.not_mem_nil, or_false] at h
      rcases h with rfl | rfl
      · decide
      · exact absurd hd (by decide)
    · rcases isSlugChar_iff.mp hd with hupper | hnormal
      · rw [List.mem_singleton.mp h, RustStr.toNat_toLower] at hupper
        split at hupper <;> omega
      · exact hnormal

/-- The characters of a slug are not lower-cased further. -/
theorem lowercaseChar_of_normal {c : Char} (h : isNormalChar c = true) : lowercaseChar c = [c] := by
  have hbounds := isNormalChar_iff.mp h
  have hkelvin : c ≠ '\u212A' := by
    rintro rfl
    exact absurd h (by decide)
  have hdotted : c ≠ '\u0130' := by
    rintro rfl
    exact absurd h (by decide)
  have hlower : c.toLower = c := by
    rw [← Char.toNat_inj, RustStr.toNat_toLower]
    split <;> omega
  rw [lowercaseChar, if_neg hkelvin, if_neg hdotted, hlower]

theorem isWhitespace_of_normal {c : Char} (h : isNormalChar c = true) :
    RustStr.isWhitespace c = false := by
  have hbounds := isNormalChar_iff.mp h
  rw [Bool.eq_false_iff]
  simp only [RustStr.isWhitespace, ne_eq, Bool.or_eq_true, Bool.and_eq_true, decide_eq_true_eq,
    beq_iff_eq]
  omega

/-- A slug has only normal characters. -/
theorem isNormalChar_of_mem_slug {name : Option String} {c : Char} (h : c ∈ (slug name).toList) :
    isNormalChar c = true := by
  unfold slug at h
  dsimp only at h
  split at h
  · have hall : "default".toList.all isNormalChar = true := by decide
    exact List.all_eq_true.mp hall c h
  · rw [String.toList_ofList] at h
    have hmem := (List.dropWhile_sublist _).mem ((List.rdropWhile_prefix _ _).sublist.mem h)
    refine forall_mem_foldl_slugStep (P := fun c => isNormalChar c = true) (by decide) ?_
      (by simp) c hmem
    intro d hd hslug
    rcases List.mem_flatMap.mp hd with ⟨b, -, hb⟩
    exact isNormalChar_of_mem_lowercaseChar hb hslug

/-- A slug has no dash at its ends. -/
theorem trimWhile_slug (name : Option String) :
    trimWhile (· == '-') (slug name).toList = (slug name).toList := by
  unfold slug
  dsimp only
  split
  · decide
  · rw [String.toList_ofList]
    exact trimWhile_trimWhile _

/-- Normal characters without dashes at the ends are their own slug. -/
theorem slug_of_normal {s : String} (hne : s ≠ "")
    (hchars : ∀ c ∈ s.toList, isNormalChar c = true)
    (hends : trimWhile (· == '-') s.toList = s.toList) : slug (some s) = s := by
  have htrim : RustStr.trim s = s :=
    RustStr.trim_eq_self fun c hc => isWhitespace_of_normal (hchars c hc)
  have hlower : s.toList.flatMap lowercaseChar = s.toList :=
    (List.flatMap_congr fun c hc => lowercaseChar_of_normal (hchars c hc)).trans
      (List.flatMap_singleton' _)
  have hout : (s.toList.foldl slugStep ([], false)).1 = s.toList :=
    foldl_slugStep_of_slug (fun c hc => isSlugChar_iff.mpr (Or.inr (hchars c hc))) _
  have hends' : (s.toList.dropWhile (· == '-')).rdropWhile (· == '-') = s.toList := hends
  have hnil : s.toList ≠ [] := fun h => hne (String.toList_eq_nil_iff.mp h)
  simp only [slug, Option.getD_some, htrim, hlower, hout, hends', if_neg hnil, String.ofList_toList]

/-- A slug is its own slug. -/
theorem slug_slug (name : Option String) : slug (some (slug name)) = slug name :=
  slug_of_normal (slug_ne_empty name) (fun _ => isNormalChar_of_mem_slug) (trimWhile_slug name)

/-! ## Names that read the same -/

/-- The names differ in white space around them and the case of ASCII letters only. -/
def SameName (x y : String) : Prop :=
  ∃ front core back front' core' back' : List Char,
    (∀ c ∈ front ++ back ++ front' ++ back', RustStr.isWhitespace c = true) ∧
      x.toList = front ++ core ++ back ∧ y.toList = front' ++ core' ++ back' ∧
      core.map Char.toLower = core'.map Char.toLower

theorem lowercaseChar_toLower (c : Char) : lowercaseChar c.toLower = lowercaseChar c := by
  have hsame : ∀ d : Char, 90 + 32 < d.toNat → (c.toLower = d ↔ c = d) := by
    intro d hd
    rw [← Char.toNat_inj, ← Char.toNat_inj, RustStr.toNat_toLower]
    split <;> omega
  rw [lowercaseChar, lowercaseChar, RustStr.toLower_toLower]
  simp only [hsame '\u212A' (by decide), hsame '\u0130' (by decide)]

/-- Case and white space around a name make no difference. -/
theorem slug_eq_of_sameName {x y : String} (h : SameName x y) : slug (some x) = slug (some y) := by
  rcases h with ⟨front, core, back, front', core', back', hspace, hx, hy, hcore⟩
  have hspace' : ∀ c, c ∈ front ∨ c ∈ back ∨ c ∈ front' ∨ c ∈ back' →
      RustStr.isWhitespace c = true := by
    intro c hc
    apply hspace
    simp only [List.mem_append]
    tauto
  -- What the loop is given depends on the name's middle up to case.
  have hmiddle : ∀ {z : String} {before middle after : List Char},
      z.toList = before ++ middle ++ after → (∀ c ∈ before, RustStr.isWhitespace c = true) →
      (∀ c ∈ after, RustStr.isWhitespace c = true) →
      (RustStr.trim z).toList.flatMap lowercaseChar =
        (trimWhile RustStr.isWhitespace (middle.map Char.toLower)).flatMap lowercaseChar := by
    intro z before middle after hz hbefore hafter
    rw [RustStr.toList_trim, hz, trimWhile_surrounded hbefore hafter,
      ← map_trimWhile RustStr.isWhitespace_toLower, List.flatMap_map]
    exact List.flatMap_congr fun c _ => (lowercaseChar_toLower c).symm
  have hraw : (RustStr.trim x).toList.flatMap lowercaseChar =
      (RustStr.trim y).toList.flatMap lowercaseChar := by
    rw [hmiddle hx (fun c hc => hspace' c (by simp [hc])) fun c hc => hspace' c (by simp [hc]),
      hmiddle hy (fun c hc => hspace' c (by simp [hc])) fun c hc => hspace' c (by simp [hc]),
      hcore]
  simp only [slug, Option.getD_some, hraw]

/-! ## The file of a client -/

/-- The file that a call reads or writes. -/
def IdCall.file? : IdCall → Option (List String)
  | .readToString path => some path
  | .newV4 => none
  | .createDirAll _ => none
  | .write path _ => some path

/-- Resolving an id reads and writes the client's id file and no other. -/
theorem resolveAgentId_file (parse : String → Option Uuid) (agentId : Option Uuid)
    (clientName : Option String) (baseDir : List String) :
    MeetsOk (fun _ _ => True)
      (fun c => ∀ path, c.file? = some path → path = idPath baseDir clientName)
      (fun _ => True) (resolveAgentId parse agentId clientName baseDir) := by
  have hfile : ∀ path, some (idPath baseDir clientName) = some path →
      path = idPath baseDir clientName := fun path h => (Option.some.inj h).symm
  have hnone : ∀ path, (none : Option (List String)) = some path →
      path = idPath baseDir clientName := fun path h => absurd h (by simp)
  have hdir : MeetsOk (fun _ _ => True) (fun c => ∀ path, c.file? = some path →
      path = idPath baseDir clientName) (fun _ => True) (createDirAll (agentsDir baseDir)) := by
    refine meets_perform (c := IdCall.createDirAll (agentsDir baseDir)) hnone ?_
    intro _ _ _ _
    trivial
  have hwrite (text : String) : MeetsOk (fun _ _ => True) (fun c => ∀ path, c.file? = some path →
      path = idPath baseDir clientName) (fun _ => True)
      (write (idPath baseDir clientName) text) := by
    refine meets_perform (c := IdCall.write (idPath baseDir clientName) text) hfile ?_
    intro _ _ _ _
    trivial
  cases agentId with
  | some id => exact meetsOk_pure trivial
  | none =>
      apply MeetsOk.bind (meetsOk_lift (meets_perform hfile fun _ _ => trivial))
      intro existing _
      split
      · exact meetsOk_pure trivial
      · apply MeetsOk.bind (meetsOk_lift (meets_perform hnone fun _ _ => trivial))
        intro id _
        apply MeetsOk.bind hdir
        intro _ _
        apply MeetsOk.bind (hwrite id.hyphenated)
        intro _ _
        exact meetsOk_pure trivial

/-- A slug is a safe normal form: not empty, of a few plain characters, so that the id file is
a direct child of its directory; its own slug; and the same for names that read the same. -/
theorem slug_safe :
    (∀ name, slug name ≠ "" ∧ ∀ c ∈ (slug name).toList, isNormalChar c = true) ∧
      (∀ (parse : String → Option Uuid) (agentId : Option Uuid) (clientName : Option String)
        (baseDir : List String) (σ : Type) (handle : (c : IdCall) → σ → c.Response × σ) (s : σ),
        ∀ e ∈ trace handle (resolveAgentId parse agentId clientName baseDir).run s,
          ∀ path, e.1.file? = some path →
            ∃ child, IsSegment child ∧ path = agentsDir baseDir ++ [child]) ∧
      (∀ name, slug (some (slug name)) = slug name) ∧
      ∀ x y, SameName x y → slug (some x) = slug (some y) := by
  refine ⟨fun name => ⟨slug_ne_empty name, fun _ => isNormalChar_of_mem_slug⟩, ?_, slug_slug,
    fun _ _ => slug_eq_of_sameName⟩
  intro parse agentId clientName baseDir σ handle s e he path hpath
  have hmeets := resolveAgentId_file parse agentId clientName baseDir
  have hidPath := Meets.mem_trace hmeets (fun _ _ => trivial) he path hpath
  exact ⟨slug clientName, isSegment_slug clientName, hidPath⟩

/-- A name written in two ways. -/
theorem slug_safe_claude : slug (some " Claude Code\n") = slug (some "claude code") := by
  apply slug_safe.2.2.2
  exact ⟨[' '], "Claude Code".toList, ['\n'], [], "claude code".toList, [],
    List.all_eq_true.mp (by decide), by decide, by decide, by decide⟩

end Mcp
end MemoryHub
