import MemoryHub.Lib.FileSystem
import MemoryHub.Lib.Machine
import MemoryHub.Lib.Prog
import MemoryHub.Lib.RustStr
import MemoryHub.Lib.Uuid

/-!
# The agent id of a client

Each client is identified by a UUID that the server and the command line tool read from a
file named after the client, or generate and write there.  They are separate processes, so
the file steps of their calls come in any order.

Main results:

- Theorem `isSegment_slug`: the file's name is one piece of a path.
- Theorem `one_id_iff`: when exactly all calls for a client return one id, the one in the file.
-/

namespace MemoryHub
namespace Mcp

open FileSystem Prog UnixPath

/-! ## The name of the file -/

/-- `char::to_lowercase`, as far as ASCII letters come of it. -/
def lowercaseChar (c : Char) : List Char :=
  if c = '\u212A' then ['k']
  else if c = '\u0130' then ['i', '\u0307']
  else [c.toLower]

/-- The characters a slug keeps. -/
def isSlugChar (c : Char) : Bool :=
  c.isAlphanum || c == '-' || c == '_'

/-- One turn of the loop: the output, and whether it ends with a dash put for a run. -/
def slugStep (st : List Char × Bool) (ch : Char) : List Char × Bool :=
  if isSlugChar ch then (st.1 ++ [ch], false)
  else if st.2 then st
  else (st.1 ++ ['-'], true)

/-- `slug`. -/
def slug (name : Option String) : String :=
  let raw := (RustStr.trim (name.getD "")).toList.flatMap lowercaseChar
  let out := (raw.foldl slugStep ([], false)).1
  let trimmed := (out.dropWhile (· == '-')).rdropWhile (· == '-')
  if trimmed = [] then "default" else String.ofList trimmed

/-- The loop puts out dashes, and characters it is given that a slug keeps. -/
theorem forall_mem_foldl_slugStep {P : Char → Prop} (hdash : P '-') {raw : List Char}
    (hraw : ∀ c ∈ raw, isSlugChar c = true → P c) {st : List Char × Bool} (hst : ∀ c ∈ st.1, P c) :
    ∀ c ∈ (raw.foldl slugStep st).1, P c := by
  induction raw generalizing st with
  | nil => exact hst
  | cons ch raw ih =>
      apply ih fun c hc => hraw c (List.mem_cons_of_mem _ hc)
      intro c hc
      unfold slugStep at hc
      split at hc
      · rename_i hch
        rcases List.mem_append.mp hc with hold | hlast
        · exact hst c hold
        · rw [List.mem_singleton.mp hlast]
          exact hraw ch List.mem_cons_self hch
      · split at hc
        · exact hst c hc
        · rcases List.mem_append.mp hc with hold | hlast
          · exact hst c hold
          · rw [List.mem_singleton.mp hlast]
            exact hdash

/-- A slug is made of letters, digits, dashes and underscores. -/
theorem isSlugChar_of_mem_slug {name : Option String} {c : Char} (h : c ∈ (slug name).toList) :
    isSlugChar c = true := by
  unfold slug at h
  dsimp only at h
  split at h
  · have hall : "default".toList.all isSlugChar = true := by decide
    exact List.all_eq_true.mp hall c h
  · rw [String.toList_ofList] at h
    have hmem := (List.dropWhile_sublist _).mem ((List.rdropWhile_prefix _ _).sublist.mem h)
    exact forall_mem_foldl_slugStep (P := fun c => isSlugChar c = true) (by decide)
      (fun _ _ hslug => hslug) (by simp) c hmem

theorem slug_ne_empty (name : Option String) : slug name ≠ "" := by
  unfold slug
  dsimp only
  split
  · decide
  · rename_i hne
    intro h
    apply hne
    simpa using congrArg String.toList h

/-- A slug is one piece of a path. -/
theorem isSegment_slug (name : Option String) : IsSegment (slug name) := by
  have hnot : ∀ c, isSlugChar c = false → c ∉ (slug name).toList := by
    intro c hc hmem
    rw [isSlugChar_of_mem_slug hmem] at hc
    contradiction
  have hdot := hnot '.' (by decide)
  refine ⟨⟨slug_ne_empty name, ?_, ?_⟩, hnot '/' (by decide), hnot '\x00' (by decide)⟩
  · intro h
    rw [h] at hdot
    exact hdot (by decide)
  · intro h
    rw [h] at hdot
    exact hdot (by decide)

/-! ## Reading or creating the id -/

/-- What `resolve_agent_id` asks of the file system and the generator. -/
inductive IdCall where
  | readToString (path : List String)
  | newV4
  | createDirAll (dir : List String)
  | write (path : List String) (text : String)
deriving DecidableEq

/-- What they answer. -/
@[reducible]
def IdCall.Response : IdCall → Type
  | .readToString _ => Except IoError String
  | .newV4 => Uuid
  | .createDirAll _ => Except IoError Unit
  | .write _ _ => Except IoError Unit

/-- The directory of the id files. -/
def agentsDir (baseDir : List String) : List String :=
  baseDir ++ ["agents"]

/-- A client's id file. -/
def idPath (baseDir : List String) (clientName : Option String) : List String :=
  agentsDir baseDir ++ [slug clientName]

/-- A function that makes these calls and may fail. -/
abbrev Resolve :=
  ExceptT IoError (Prog IdCall IdCall.Response)

/-- `fs::read_to_string`, whose failure is looked at. -/
def readToString (path : List String) : Resolve (Except IoError String) :=
  ExceptT.lift (perform (IdCall.readToString path))

/-- `Uuid::new_v4`. -/
def newV4 : Resolve Uuid :=
  ExceptT.lift (perform IdCall.newV4)

/-- `fs::create_dir_all`. -/
def createDirAll (dir : List String) : Resolve Unit :=
  ExceptT.mk (perform (IdCall.createDirAll dir))

/-- `fs::write`. -/
def write (path : List String) (text : String) : Resolve Unit :=
  ExceptT.mk (perform (IdCall.write path text))

section

variable (parse : String → Option Uuid)

/-- The id in what reading a file returned. -/
def storedId : Except IoError String → Option Uuid
  | .ok existing => parse (RustStr.trim existing)
  | .error _ => none

/-- `resolve_agent_id`. -/
def resolveAgentId (agentId : Option Uuid) (clientName : Option String)
    (baseDir : List String) : Resolve Uuid :=
  match agentId with
  | some id => return id
  | none => do
      let dir := agentsDir baseDir
      let path := idPath baseDir clientName
      let existing ← readToString path
      match storedId parse existing with
      | some id => return id
      | none =>
          let id ← newV4
          createDirAll dir
          write path id.hyphenated
          return id

/-! ## Calls whose steps interleave -/

/-- A client's call, and what is left of it. -/
structure Resolving where
  clientName : Option String
  rest : Prog IdCall IdCall.Response (Except IoError Uuid)

/-- The files, the calls made, and the ids in use, none of which the generator gives again. -/
structure Identities where
  fs : Fs
  calls : Nat → Option Resolving
  inUse : List Uuid

/-- A process calls `resolve_agent_id`, or a call takes a step; a generator that is asked gives
`newId`. -/
inductive IdStep where
  | call (p : Nat) (clientName : Option String)
  | act (p : Nat) (newId : Uuid)
deriving DecidableEq

namespace Identities

/-- No call has been made yet. -/
def start (fs : Fs) (inUse : List Uuid) : Identities :=
  ⟨fs, fun _ => none, inUse⟩

/-- A call is left with `rest`. -/
def put (s : Identities) (p : Nat) (clientName : Option String)
    (rest : Prog IdCall IdCall.Response (Except IoError Uuid)) : Identities :=
  { s with calls := Function.update s.calls p (some ⟨clientName, rest⟩) }

/-- The answer to what a call asks; `none` if a directory or a file cannot be written. -/
def respond (s : Identities) (newId : Uuid) : (c : IdCall) → Option (c.Response × Identities)
  | .readToString path => some (s.fs.readToString path, s)
  | .newV4 =>
      if newId ∈ s.inUse then none else some (newId, { s with inUse := newId :: s.inUse })
  | .createDirAll dir =>
      match s.fs.createDirAll dir with
      | (.ok (), fs) => some (.ok (), { s with fs := fs })
      | (.error _, _) => none
  | .write path text =>
      match s.fs.write path (some text) with
      | .ok fs => some (.ok (), { s with fs := fs })
      | .error _ => none

/-- One step; `none` if it cannot happen. -/
def step (baseDir : List String) (s : Identities) : IdStep → Option Identities
  | .call p clientName =>
      match s.calls p with
      | some _ => none
      | none => some (s.put p clientName (resolveAgentId parse none clientName baseDir).run)
  | .act p newId =>
      match s.calls p with
      | some ⟨clientName, .call c k⟩ =>
          (s.respond newId c).map fun (response, s) => s.put p clientName (k response)
      | _ => none

end Identities

/-! ## The stages of a call -/

/-- How far a call has got: it is to read the file; it has found no id there; it has generated
one; the directory is there; it has returned. -/
inductive Stage where
  | reading
  | missing
  | generated (id : Uuid)
  | dirMade (id : Uuid)
  | returned (id : Uuid)
deriving DecidableEq

namespace Stage

/-- What is left of the call. -/
def rest (baseDir : List String) (clientName : Option String) : Stage → Resolve Uuid
  | .reading => resolveAgentId parse none clientName baseDir
  | .missing => do
      let id ← newV4
      createDirAll (agentsDir baseDir)
      write (idPath baseDir clientName) id.hyphenated
      return id
  | .generated id => do
      createDirAll (agentsDir baseDir)
      write (idPath baseDir clientName) id.hyphenated
      return id
  | .dirMade id => do
      write (idPath baseDir clientName) id.hyphenated
      return id
  | .returned id => return id

/-- The id the call has got. -/
def id? : Stage → Option Uuid
  | .reading => none
  | .missing => none
  | .generated id => some id
  | .dirMade id => some id
  | .returned id => some id

/-- The call has found no id and has not stored one yet. -/
def Creating : Stage → Prop
  | .reading => False
  | .missing => True
  | .generated _ => True
  | .dirMade _ => True
  | .returned _ => False

variable {parse} {baseDir : List String} {clientName : Option String}

theorem rest_reading : (rest parse baseDir clientName .reading).run =
    .call (.readToString (idPath baseDir clientName)) fun existing =>
      (rest parse baseDir clientName
        ((storedId parse existing).elim .missing .returned)).run := by
  have hk : ∀ existing, (match storedId parse existing with
      | some id => (pure id : Resolve Uuid)
      | none => rest parse baseDir clientName .missing).run =
        (rest parse baseDir clientName
          ((storedId parse existing).elim .missing .returned)).run := by
    intro existing
    cases storedId parse existing with
    | none => rfl
    | some id => rfl
  exact congrArg (Prog.call _) (funext hk)

theorem rest_missing : (rest parse baseDir clientName .missing).run =
    .call .newV4 fun id => (rest parse baseDir clientName (.generated id)).run :=
  rfl

theorem rest_generated (id : Uuid) : ∃ k, (rest parse baseDir clientName (.generated id)).run =
    .call (.createDirAll (agentsDir baseDir)) k ∧
      k (.ok ()) = (rest parse baseDir clientName (.dirMade id)).run :=
  ⟨_, rfl, rfl⟩

theorem rest_dirMade (id : Uuid) : ∃ k, (rest parse baseDir clientName (.dirMade id)).run =
    .call (.write (idPath baseDir clientName) id.hyphenated) k ∧
      k (.ok ()) = (rest parse baseDir clientName (.returned id)).run :=
  ⟨_, rfl, rfl⟩

theorem rest_returned (id : Uuid) :
    (rest parse baseDir clientName (.returned id)).run = .pure (.ok id) :=
  rfl

/-- How many calls are left when no file is found and all else succeeds. -/
def callsLeft (rest : Prog IdCall IdCall.Response (Except IoError Uuid)) :
    Except IoError Uuid × Nat :=
  rest.exec (fun c n => (match c with
    | .readToString _ => .error .notFound
    | .newV4 => .nil
    | .createDirAll _ => .ok ()
    | .write _ _ => .ok (), n + 1)) 0

/-- What is left of a call tells its stage. -/
theorem rest_inj {st st' : Stage}
    (h : (rest parse baseDir clientName st).run = (rest parse baseDir clientName st').run) :
    st = st' := by
  have hleft : ∀ st : Stage, callsLeft (rest parse baseDir clientName st).run = match st with
      | .reading => (.ok .nil, 4)
      | .missing => (.ok .nil, 3)
      | .generated id => (.ok id, 2)
      | .dirMade id => (.ok id, 1)
      | .returned id => (.ok id, 0) := by
    intro st
    cases st <;> rfl
  have heq := congrArg callsLeft h
  rw [hleft, hleft] at heq
  cases st <;> cases st' <;> simp_all

end Stage

/-- A step of a call from one stage to the next, and the files after it. -/
inductive Acts (parse : String → Option Uuid) (baseDir : List String) (fs : Fs) (newId : Uuid)
    (clientName : Option String) : Stage → Stage → Fs → Prop
  | found (id : Uuid)
      (hread : storedId parse (fs.readToString (idPath baseDir clientName)) = some id) :
      Acts parse baseDir fs newId clientName .reading (.returned id) fs
  | missing (hread : storedId parse (fs.readToString (idPath baseDir clientName)) = none) :
      Acts parse baseDir fs newId clientName .reading .missing fs
  | generate : Acts parse baseDir fs newId clientName .missing (.generated newId) fs
  | createDir (id : Uuid) (fs' : Fs)
      (hdir : fs.createDirAll (agentsDir baseDir) = (.ok (), fs')) :
      Acts parse baseDir fs newId clientName (.generated id) (.dirMade id) fs'
  | write (id : Uuid) (fs' : Fs)
      (hwrite : fs.write (idPath baseDir clientName) (some id.hyphenated) = .ok fs') :
      Acts parse baseDir fs newId clientName (.dirMade id) (.returned id) fs'

namespace Identities

variable {parse} {baseDir : List String} {s t : Identities} {p q : Nat}
  {clientName clientName' : Option String} {st st' : Stage}

/-- The call is at this stage. -/
def AtStage (parse : String → Option Uuid) (baseDir : List String) (s : Identities) (p : Nat)
    (clientName : Option String) (st : Stage) : Prop :=
  s.calls p = some ⟨clientName, (st.rest parse baseDir clientName).run⟩

/-- Every call is at some stage. -/
def Staged (parse : String → Option Uuid) (baseDir : List String) (s : Identities) : Prop :=
  ∀ p r, s.calls p = some r → ∃ st, AtStage parse baseDir s p r.clientName st

theorem AtStage.unique (h : AtStage parse baseDir s p clientName st)
    (h' : AtStage parse baseDir s p clientName' st') : clientName' = clientName ∧ st' = st := by
  unfold AtStage at h h'
  rw [h, Option.some.injEq, Resolving.mk.injEq] at h'
  rcases h' with ⟨hname, hrest⟩
  subst hname
  exact ⟨rfl, (Stage.rest_inj hrest).symm⟩

/-- After a call has moved on, it is at its new stage and the others are where they were. -/
theorem atStage_put {next : Stage} {fs : Fs} {inUse : List Uuid} :
    AtStage parse baseDir
        (put ⟨fs, s.calls, inUse⟩ p clientName (next.rest parse baseDir clientName).run)
        q clientName' st' ↔
      (q = p ∧ clientName' = clientName ∧ st' = next) ∨
        (q ≠ p ∧ AtStage parse baseDir s q clientName' st') := by
  by_cases hq : q = p
  · subst hq
    have hat : AtStage parse baseDir
        (put ⟨fs, s.calls, inUse⟩ q clientName (next.rest parse baseDir clientName).run)
        q clientName next := by
      simp [AtStage, put]
    constructor
    · intro h
      exact Or.inl ⟨rfl, hat.unique h⟩
    · rintro (⟨-, rfl, rfl⟩ | ⟨hne, -⟩)
      · exact hat
      · exact absurd rfl hne
  · simp [AtStage, put, hq]

/-- A step makes a new call, or takes one call from its stage to the next. -/
theorem step_cases (hs : Staged parse baseDir s) {a : IdStep}
    (h : step parse baseDir s a = some t) :
    (∃ p clientName, a = .call p clientName ∧ s.calls p = none ∧
        t = put s p clientName (Stage.rest parse baseDir clientName .reading).run) ∨
      ∃ p newId clientName st st' fs inUse, a = .act p newId ∧
        AtStage parse baseDir s p clientName st ∧
        Acts parse baseDir s.fs newId clientName st st' fs ∧
        (st ≠ .missing ∧ inUse = s.inUse ∨
          st = .missing ∧ newId ∉ s.inUse ∧ inUse = newId :: s.inUse) ∧
        t = put ⟨fs, s.calls, inUse⟩ p clientName (st'.rest parse baseDir clientName).run := by
  cases a with
  | call p clientName =>
      simp only [step] at h
      cases hcall : s.calls p with
      | some r => simp [hcall] at h
      | none =>
          simp only [hcall, Option.some.injEq] at h
          exact Or.inl ⟨p, clientName, rfl, hcall, h.symm⟩
  | act p newId =>
      right
      cases hcall : s.calls p with
      | none => simp [step, hcall] at h
      | some r =>
          rcases hs p r hcall with ⟨st, hst⟩
          have hat := hst
          unfold AtStage at hst
          cases st with
          | reading =>
              rw [Stage.rest_reading] at hst
              simp only [step, hst, respond, Option.map_some, Option.some.injEq] at h
              refine ⟨p, newId, r.clientName, .reading, _, s.fs, s.inUse, rfl, hat, ?_,
                Or.inl ⟨by simp, rfl⟩, h.symm⟩
              cases hread : storedId parse (s.fs.readToString (idPath baseDir r.clientName)) with
              | none => exact .missing hread
              | some id => exact .found id hread
          | missing =>
              rw [Stage.rest_missing] at hst
              simp only [step, hst, respond] at h
              split at h
              · contradiction
              · rename_i hnew
                simp only [Option.map_some, Option.some.injEq] at h
                exact ⟨p, newId, r.clientName, .missing, .generated newId, s.fs,
                  newId :: s.inUse, rfl, hat, .generate, Or.inr ⟨rfl, hnew, rfl⟩, h.symm⟩
          | generated id =>
              rcases @Stage.rest_generated parse baseDir r.clientName id with ⟨k, hk, hok⟩
              rw [hk] at hst
              simp only [step, hst, respond] at h
              split at h
              · rename_i fs hdir
                simp only [Option.map_some, Option.some.injEq, hok] at h
                exact ⟨p, newId, r.clientName, .generated id, .dirMade id, fs, s.inUse, rfl, hat,
                  .createDir id fs hdir, Or.inl ⟨by simp, rfl⟩, h.symm⟩
              · simp at h
          | dirMade id =>
              rcases @Stage.rest_dirMade parse baseDir r.clientName id with ⟨k, hk, hok⟩
              rw [hk] at hst
              simp only [step, hst, respond] at h
              split at h
              · rename_i fs hwrite
                simp only [Option.map_some, Option.some.injEq, hok] at h
                exact ⟨p, newId, r.clientName, .dirMade id, .returned id, fs, s.inUse, rfl, hat,
                  .write id fs hwrite, Or.inl ⟨by simp, rfl⟩, h.symm⟩
              · simp at h
          | returned id =>
              rw [Stage.rest_returned] at hst
              simp [step, hst] at h

theorem staged_put (hs : Staged parse baseDir s) {next : Stage} {fs : Fs} {inUse : List Uuid} :
    Staged parse baseDir
      (put ⟨fs, s.calls, inUse⟩ p clientName (next.rest parse baseDir clientName).run) := by
  intro q r hcall
  by_cases hq : q = p
  · refine ⟨next, atStage_put.mpr (Or.inl ⟨hq, ?_, rfl⟩)⟩
    simp only [put, hq, Function.update_self, Option.some.injEq] at hcall
    rw [← hcall]
  · simp only [put, Function.update_of_ne hq] at hcall
    rcases hs q r hcall with ⟨st, hst⟩
    exact ⟨st, atStage_put.mpr (Or.inr ⟨hq, hst⟩)⟩

theorem staged_step (hs : Staged parse baseDir s) {a : IdStep}
    (h : step parse baseDir s a = some t) : Staged parse baseDir t := by
  rcases step_cases hs h with
    ⟨p, clientName, -, -, rfl⟩ | ⟨p, newId, clientName, st, st', fs, inUse, -, -, -, -, rfl⟩
  · exact staged_put hs
  · exact staged_put hs

/-! ## The files -/

/-- A client's id file is found at the slug of its name. -/
theorem lexical_idPath :
    Fs.lexical [] (idPath baseDir clientName) =
      slug clientName :: "agents" :: Fs.lexical [] baseDir := by
  have hagents : IsName "agents" := by decide
  rw [idPath, agentsDir, Fs.lexical_append, Fs.lexical_append, Fs.lexical_cons_name hagents,
    Fs.lexical_cons_name (isSegment_slug clientName).1]
  rfl

/-- The text of an id holds no white space. -/
theorem trim_hyphenated (id : Uuid) : RustStr.trim id.hyphenated = id.hyphenated := by
  apply RustStr.trim_eq_self
  intro c hc
  rcases Uuid.mem_hyphenated hc with ⟨n, hn, rfl⟩ | rfl
  · have hall : ∀ n < 16, RustStr.isWhitespace (Nat.digitChar n) = false := by decide
    exact hall n hn
  · decide

theorem storedId_eq_some {read : Except IoError String} {id : Uuid} :
    storedId parse read = some id ↔
      ∃ text, read = .ok text ∧ parse (RustStr.trim text) = some id := by
  cases read with
  | error e => simp [storedId]
  | ok text => simp [storedId]

/-- The id a write has stored is read back. -/
theorem storedId_of_write (hparse : ∀ u : Uuid, parse u.hyphenated = some u) {fs fs' : Fs}
    {id : Uuid} (hwrite : fs.write (idPath baseDir clientName) (some id.hyphenated) = .ok fs') :
    storedId parse (fs'.readToString (idPath baseDir clientName)) = some id := by
  rw [Fs.readToString_of_write hwrite, storedId, trim_hyphenated, hparse]

/-- A step of a call leaves the ids stored for the clients whose file it does not write. -/
theorem storedId_of_acts {fs fs' : Fs} {newId id : Uuid}
    (h : Acts parse baseDir fs newId clientName st st' fs')
    (hother : st.Creating → slug clientName' ≠ slug clientName)
    (hread : storedId parse (fs.readToString (idPath baseDir clientName')) = some id) :
    storedId parse (fs'.readToString (idPath baseDir clientName')) = some id := by
  rcases storedId_eq_some.mp hread with ⟨text, htext, hid⟩
  cases h with
  | found _ _ => exact hread
  | missing _ => exact hread
  | generate => exact hread
  | createDir made fs' hdir =>
      have hextends : Fs.Extends fs fs' := by
        have hall := Fs.createDirAll_extends fs (agentsDir baseDir)
        rwa [hdir] at hall
      exact storedId_eq_some.mpr ⟨text, Fs.readToString_of_extends hextends htext, hid⟩
  | write written fs' hwrite =>
      have hne : Fs.lexical [] (idPath baseDir clientName') ≠
          Fs.lexical [] (idPath baseDir clientName) := by
        rw [lexical_idPath, lexical_idPath]
        intro heq
        exact hother trivial (List.cons.inj heq).1
      exact storedId_eq_some.mpr ⟨text, Fs.readToString_of_write_ne hwrite hne htext, hid⟩

/-- Some file holds the id. -/
def FileHolds (parse : String → Option Uuid) (fs : Fs) (id : Uuid) : Prop :=
  ∃ loc text, fs.node loc = some (.file (some text)) ∧ parse (RustStr.trim text) = some id

theorem fileHolds_of_storedId {fs : Fs} {path : List String} {id : Uuid}
    (h : storedId parse (fs.readToString path) = some id) : FileHolds parse fs id := by
  rcases storedId_eq_some.mp h with ⟨text, htext, hid⟩
  exact ⟨_, text, (Fs.readToString_eq_ok.mp htext).2, hid⟩

/-- The ids files hold after a step of a call are those they held and the one it has written. -/
theorem fileHolds_of_acts (hparse : ∀ u : Uuid, parse u.hyphenated = some u) {fs fs' : Fs}
    {newId id : Uuid} (h : Acts parse baseDir fs newId clientName st st' fs')
    (hid : FileHolds parse fs' id) : FileHolds parse fs id ∨ st = .dirMade id := by
  rcases hid with ⟨loc, text, hnode, hid⟩
  cases h with
  | found _ _ => exact Or.inl ⟨loc, text, hnode, hid⟩
  | missing _ => exact Or.inl ⟨loc, text, hnode, hid⟩
  | generate => exact Or.inl ⟨loc, text, hnode, hid⟩
  | createDir made fs' hdir =>
      have hextends : Fs.Extends fs fs' := by
        have hall := Fs.createDirAll_extends fs (agentsDir baseDir)
        rwa [hdir] at hall
      rcases hextends loc with hsame | ⟨-, hnew⟩
      · exact Or.inl ⟨loc, text, hsame ▸ hnode, hid⟩
      · rw [hnew] at hnode
        simp at hnode
  | write written fs' hwrite =>
      rw [(Fs.write_eq_ok hwrite).2.2] at hnode
      by_cases hloc : loc = Fs.lexical [] (idPath baseDir clientName)
      · rw [hloc, Function.update_self, Option.some.injEq, Node.file.injEq,
          Option.some.injEq] at hnode
        rw [← hnode, trim_hyphenated, hparse, Option.some.injEq] at hid
        exact Or.inr (by rw [hid])
      · rw [Function.update_of_ne hloc] at hnode
        exact Or.inl ⟨loc, text, hnode, hid⟩

/-- A call has the id it had, or the one it has read, or the one it was given. -/
theorem id_of_acts {fs fs' : Fs} {newId id : Uuid}
    (h : Acts parse baseDir fs newId clientName st st' fs') (hid : st'.id? = some id) :
    st.id? = some id ∨ (st = .reading ∧ FileHolds parse fs id) ∨ (st = .missing ∧ id = newId) := by
  cases h with
  | found read hread =>
      cases hid
      exact Or.inr (Or.inl ⟨rfl, fileHolds_of_storedId hread⟩)
  | missing _ => contradiction
  | generate =>
      cases hid
      exact Or.inr (Or.inr ⟨rfl, rfl⟩)
  | createDir _ _ _ => exact Or.inl hid
  | write _ _ _ => exact Or.inl hid

/-! ## One id -/

/-- The call has returned the id. -/
def Returned (s : Identities) (p : Nat) (clientName : Option String) (id : Uuid) : Prop :=
  s.calls p = some ⟨clientName, .pure (.ok id)⟩

/-- Every call has returned an id. -/
def AllDone (s : Identities) : Prop :=
  ∀ p r, s.calls p = some r → ∃ id, r.rest = .pure (.ok id)

/-- What a call has returned is the id in its client's file, and what every other call for the
client has returned. -/
def OneId (parse : String → Option Uuid) (baseDir : List String) (s : Identities) : Prop :=
  ∀ p clientName id, Returned s p clientName id →
    storedId parse (s.fs.readToString (idPath baseDir clientName)) = some id ∧
      ∀ q clientName' id', Returned s q clientName' id' → slug clientName' = slug clientName →
        id' = id

/-- When a call reads its client's file, no call for the client has found no id there and not
stored one yet. -/
def ReadsAlone (parse : String → Option Uuid) (baseDir : List String) (s : Identities) :
    IdStep → Prop
  | .call _ _ => True
  | .act p _ => ∀ clientName, AtStage parse baseDir s p clientName .reading →
      ∀ q clientName' st, AtStage parse baseDir s q clientName' st →
        slug clientName' = slug clientName → ¬ st.Creating

/-- A returned id is the stored one, and while a call has found no id and not stored one, the
other calls for its client are yet to read. -/
structure Serial (parse : String → Option Uuid) (baseDir : List String) (s : Identities) :
    Prop where
  staged : Staged parse baseDir s
  stored : ∀ p clientName id, AtStage parse baseDir s p clientName (.returned id) →
    storedId parse (s.fs.readToString (idPath baseDir clientName)) = some id
  alone : ∀ p clientName st, AtStage parse baseDir s p clientName st → st.Creating →
    ∀ q clientName' st', AtStage parse baseDir s q clientName' st' →
      slug clientName' = slug clientName → q = p ∨ st' = .reading

theorem start_serial (fs : Fs) (inUse : List Uuid) : Serial parse baseDir (start fs inUse) := by
  refine ⟨?_, ?_, ?_⟩
  · intro p r hcall
    contradiction
  · intro p clientName id hat
    contradiction
  · intro p clientName st hat
    contradiction

theorem idPath_congr (h : slug clientName' = slug clientName) :
    idPath baseDir clientName' = idPath baseDir clientName := by
  rw [idPath, idPath, h]

/-- Under the invariant there is one id. -/
theorem Serial.oneId (hs : Serial parse baseDir s) : OneId parse baseDir s := by
  intro p clientName id hreturned
  have hstored := hs.stored p clientName id hreturned
  refine ⟨hstored, ?_⟩
  intro q clientName' id' hreturned' hslug
  have hstored' := hs.stored q clientName' id' hreturned'
  rw [idPath_congr hslug, hstored] at hstored'
  exact (Option.some.inj hstored').symm

theorem serial_step (hparse : ∀ u : Uuid, parse u.hyphenated = some u)
    (hs : Serial parse baseDir s) {a : IdStep} (halone : ReadsAlone parse baseDir s a)
    (h : step parse baseDir s a = some t) : Serial parse baseDir t := by
  have hstaged := staged_step hs.staged h
  rcases step_cases hs.staged h with
    ⟨p, clientName, -, -, rfl⟩ | ⟨p, newId, clientName, st, st', fs, inUse, rfl, hat, hacts, -, rfl⟩
  · refine ⟨hstaged, ?_, ?_⟩
    · intro q clientName' id hq
      rcases atStage_put.mp hq with ⟨-, -, hst⟩ | ⟨-, hold⟩
      · contradiction
      · exact hs.stored q clientName' id hold
    · intro q clientName' st hq hcreating r clientName'' st' hr hslug
      rcases atStage_put.mp hq with ⟨-, -, rfl⟩ | ⟨-, hold⟩
      · exact absurd hcreating id
      · rcases atStage_put.mp hr with ⟨-, -, hst⟩ | ⟨-, hold'⟩
        · exact Or.inr hst
        · exact hs.alone q clientName' st hold hcreating r clientName'' st' hold' hslug
  · refine ⟨hstaged, ?_, ?_⟩
    · intro q clientName' id hq
      rcases atStage_put.mp hq with ⟨-, rfl, hst⟩ | ⟨hne, hold⟩
      · -- The call that has just returned has read the id or written it.
        cases hacts with
        | found read hread =>
            cases hst
            exact hread
        | missing _ => contradiction
        | generate => contradiction
        | createDir _ _ _ => contradiction
        | write written fs hwrite =>
            cases hst
            exact storedId_of_write hparse hwrite
      · apply storedId_of_acts hacts _ (hs.stored q clientName' id hold)
        intro hcreating hslug
        rcases hs.alone p clientName st hat hcreating q clientName' _ hold hslug with heq | hst
        · exact hne heq
        · exact absurd hst (by simp)
    · intro q clientName' stq hq hcreating r clientName'' str hr hslug
      rcases atStage_put.mp hq with ⟨rfl, rfl, rfl⟩ | ⟨hne, hold⟩
      · rcases atStage_put.mp hr with ⟨hrq, -, -⟩ | ⟨hne, hold⟩
        · exact Or.inl hrq
        · by_cases hbefore : st.Creating
          · exact hs.alone q clientName' st hat hbefore r clientName'' str hold hslug
          · -- The call has just found no id: nobody has returned, or is creating one.
            cases hacts with
            | found _ _ => exact absurd hcreating id
            | missing hread =>
                cases str with
                | reading => exact Or.inr rfl
                | returned id =>
                    have hstored := hs.stored r clientName'' id hold
                    rw [idPath_congr hslug, hread] at hstored
                    exact absurd hstored (by simp)
                | missing =>
                    exact absurd trivial (halone clientName' hat r clientName'' _ hold hslug)
                | generated id =>
                    exact absurd trivial (halone clientName' hat r clientName'' _ hold hslug)
                | dirMade id =>
                    exact absurd trivial (halone clientName' hat r clientName'' _ hold hslug)
            | generate => exact absurd trivial hbefore
            | createDir _ _ _ => exact absurd trivial hbefore
            | write _ _ _ => exact absurd trivial hbefore
      · rcases atStage_put.mp hr with ⟨rfl, rfl, rfl⟩ | ⟨-, hold'⟩
        · rcases hs.alone q clientName' stq hold hcreating r clientName'' st hat hslug with
            heq | hreading
          · exact absurd heq.symm hne
          · subst hreading
            exact absurd hcreating (halone clientName'' hat q clientName' stq hold hslug.symm)
        · exact hs.alone q clientName' stq hold hcreating r clientName'' str hold' hslug

/-! ## Calls that get different ids -/

/-- Ids that files or calls hold are in use, and an id that has not been stored yet is one
call's alone. -/
structure Distinct (parse : String → Option Uuid) (baseDir : List String) (s : Identities) :
    Prop where
  staged : Staged parse baseDir s
  files : ∀ id, FileHolds parse s.fs id → id ∈ s.inUse
  calls : ∀ p clientName st id, AtStage parse baseDir s p clientName st → st.id? = some id →
    id ∈ s.inUse
  unshared : ∀ p clientName st id, AtStage parse baseDir s p clientName st → st.Creating →
    st.id? = some id → ¬ FileHolds parse s.fs id ∧
      ∀ q clientName' st', AtStage parse baseDir s q clientName' st' → st'.id? = some id → q = p

/-- A new call has no id. -/
theorem distinct_call (hs : Distinct parse baseDir s) {clientName : Option String}
    (hstaged : Staged parse baseDir
      (put s p clientName (Stage.rest parse baseDir clientName .reading).run)) :
    Distinct parse baseDir
      (put s p clientName (Stage.rest parse baseDir clientName .reading).run) := by
  refine ⟨hstaged, hs.files, ?_, ?_⟩
  · intro q clientName' stq id hq hid
    rcases atStage_put.mp hq with ⟨-, -, rfl⟩ | ⟨-, hold⟩
    · exact absurd hid (by simp [Stage.id?])
    · exact hs.calls q clientName' stq id hold hid
  · intro q clientName' stq id hq hcreating hid
    rcases atStage_put.mp hq with ⟨-, -, rfl⟩ | ⟨-, hold⟩
    · exact absurd hid (by simp [Stage.id?])
    · rcases hs.unshared q clientName' stq id hold hcreating hid with ⟨hfile, hcalls⟩
      refine ⟨hfile, ?_⟩
      intro r clientName'' str hr hidr
      rcases atStage_put.mp hr with ⟨-, -, rfl⟩ | ⟨-, hold'⟩
      · exact absurd hidr (by simp [Stage.id?])
      · exact hcalls r clientName'' str hold' hidr

section

variable {clientName : Option String} {st st' : Stage} {fs : Fs} {newId id : Uuid}

/-- The id with which a call goes on creating is new, or was the call's alone before. -/
theorem unshared_of_acts (hs : Distinct parse baseDir s)
    (hat : AtStage parse baseDir s p clientName st)
    (hacts : Acts parse baseDir s.fs newId clientName st st' fs)
    (hnew : st = .missing → newId ∉ s.inUse) (hcreating : st'.Creating) (hid : st'.id? = some id) :
    st ≠ .dirMade id ∧ ¬ FileHolds parse s.fs id ∧ ∀ q clientName' stq,
      AtStage parse baseDir s q clientName' stq → stq.id? = some id → q = p := by
  have hbefore : (st = .missing ∧ id = newId) ∨ st = .generated id := by
    cases hacts with
    | found _ _ => exact hcreating.elim
    | missing _ => simp [Stage.id?] at hid
    | generate => exact Or.inl ⟨rfl, (Option.some.inj hid).symm⟩
    | createDir made fs hdir =>
        rw [Option.some.inj hid]
        exact Or.inr rfl
    | write _ _ _ => exact hcreating.elim
  rcases hbefore with ⟨hst, rfl⟩ | rfl
  · refine ⟨by simp [hst], fun hfile => hnew hst (hs.files _ hfile), ?_⟩
    intro q clientName' stq hq hidq
    exact absurd (hs.calls q clientName' stq _ hq hidq) (hnew hst)
  · exact ⟨by simp, hs.unshared p clientName _ id hat trivial rfl⟩

/-- The next stage of a call: no other call creates the id it writes, reads or is given. -/
theorem unshared_act (hparse : ∀ u : Uuid, parse u.hyphenated = some u)
    (hs : Distinct parse baseDir s) (hat : AtStage parse baseDir s p clientName st)
    (hacts : Acts parse baseDir s.fs newId clientName st st' fs)
    (hnew : st = .missing → newId ∉ s.inUse) {inUse : List Uuid} {stq : Stage}
    {clientName' : Option String} (hq : AtStage parse baseDir
      (put ⟨fs, s.calls, inUse⟩ p clientName (st'.rest parse baseDir clientName).run)
        q clientName' stq) (hcreating : stq.Creating) (hid : stq.id? = some id) :
    ¬ FileHolds parse fs id ∧ ∀ r clientName'' str, AtStage parse baseDir
      (put ⟨fs, s.calls, inUse⟩ p clientName (st'.rest parse baseDir clientName).run)
        r clientName'' str → str.id? = some id → r = q := by
  rcases atStage_put.mp hq with ⟨rfl, rfl, rfl⟩ | ⟨hne, hold⟩
  · rcases unshared_of_acts hs hat hacts hnew hcreating hid with ⟨hnotDir, hfile, hcalls⟩
    refine ⟨?_, ?_⟩
    · intro hfile'
      rcases fileHolds_of_acts hparse hacts hfile' with hbefore | hst
      · exact hfile hbefore
      · exact hnotDir hst
    · intro r clientName'' str hr hidr
      rcases atStage_put.mp hr with ⟨hrq, -, -⟩ | ⟨-, hold'⟩
      · exact hrq
      · exact hcalls r clientName'' str hold' hidr
  · rcases hs.unshared q clientName' stq id hold hcreating hid with ⟨hfile, hcalls⟩
    refine ⟨?_, ?_⟩
    · intro hfile'
      rcases fileHolds_of_acts hparse hacts hfile' with hbefore | rfl
      · exact hfile hbefore
      · exact hne (hcalls p clientName _ hat rfl).symm
    · intro r clientName'' str hr hidr
      rcases atStage_put.mp hr with ⟨rfl, rfl, rfl⟩ | ⟨-, hold'⟩
      · rcases id_of_acts hacts hidr with hbefore | ⟨-, hread⟩ | ⟨hst, rfl⟩
        · exact hcalls r clientName'' st hat hbefore
        · exact absurd hread hfile
        · exact absurd (hs.calls q clientName' stq _ hold hid) (hnew hst)
      · exact hcalls r clientName'' str hold' hidr

end

theorem distinct_step (hparse : ∀ u : Uuid, parse u.hyphenated = some u)
    (hs : Distinct parse baseDir s) {a : IdStep} (h : step parse baseDir s a = some t) :
    Distinct parse baseDir t := by
  have hstaged := staged_step hs.staged h
  rcases step_cases hs.staged h with
    ⟨p, clientName, -, -, rfl⟩ |
      ⟨p, newId, clientName, st, st', fs, inUse, rfl, hat, hacts, hinUse, rfl⟩
  · exact distinct_call hs hstaged
  · have hmono : ∀ id, id ∈ s.inUse → id ∈ inUse := by
      intro id hmem
      rcases hinUse with ⟨-, rfl⟩ | ⟨-, -, rfl⟩
      · exact hmem
      · exact List.mem_cons_of_mem newId hmem
    have hnew : st = .missing → newId ∉ s.inUse ∧ newId ∈ inUse := by
      intro hst
      rcases hinUse with ⟨hne, -⟩ | ⟨-, hnotin, rfl⟩
      · exact absurd hst hne
      · exact ⟨hnotin, List.mem_cons_self⟩
    refine ⟨hstaged, ?_, ?_, ?_⟩
    · intro id hid
      rcases fileHolds_of_acts hparse hacts hid with hold | rfl
      · exact hmono id (hs.files id hold)
      · exact hmono id (hs.calls p clientName _ id hat rfl)
    · intro q clientName' stq id hq hid
      rcases atStage_put.mp hq with ⟨rfl, rfl, rfl⟩ | ⟨-, hold⟩
      · rcases id_of_acts hacts hid with hold | ⟨-, hread⟩ | ⟨hst, rfl⟩
        · exact hmono id (hs.calls q clientName' st id hat hold)
        · exact hmono id (hs.files id hread)
        · exact (hnew hst).2
      · exact hmono id (hs.calls q clientName' stq id hold hid)
    · intro q clientName' stq id hq hcreating hid
      exact unshared_act hparse hs hat hacts (fun hst => (hnew hst).1) hq hcreating hid

/-- Two calls for one client have both gone beyond reading, and have no id in common. -/
def Apart (parse : String → Option Uuid) (baseDir : List String) (s : Identities) : Prop :=
  ∃ p q clientName clientName' st st', slug clientName' = slug clientName ∧ p ≠ q ∧
    AtStage parse baseDir s p clientName st ∧ AtStage parse baseDir s q clientName' st' ∧
    st ≠ .reading ∧ st' ≠ .reading ∧ ∀ id, st.id? = some id → st'.id? ≠ some id

/-- A call beyond reading stays so, and keeps its id or is given a new one. -/
theorem atStage_step (hs : Staged parse baseDir s) {a : IdStep}
    (h : step parse baseDir s a = some t) (hat : AtStage parse baseDir s p clientName st)
    (hst : st ≠ .reading) :
    ∃ st', AtStage parse baseDir t p clientName st' ∧ st' ≠ .reading ∧
      ∀ id, st'.id? = some id → st.id? = some id ∨ (a = .act p id ∧ id ∉ s.inUse) := by
  rcases step_cases hs h with
    ⟨q, clientName', -, hnone, rfl⟩ |
      ⟨q, newId, clientName', stq, stq', fs, inUse, rfl, hatq, hacts, hinUse, rfl⟩
  · have hne : p ≠ q := by
      rintro rfl
      rw [AtStage, hnone] at hat
      contradiction
    exact ⟨st, atStage_put.mpr (Or.inr ⟨hne, hat⟩), hst, fun id hid => Or.inl hid⟩
  · by_cases hp : p = q
    · subst hp
      rcases hatq.unique hat with ⟨rfl, rfl⟩
      refine ⟨stq', atStage_put.mpr (Or.inl ⟨rfl, rfl, rfl⟩), ?_, ?_⟩
      · rintro rfl
        cases hacts
      · intro id hid
        rcases id_of_acts hacts hid with hold | ⟨hreading, -⟩ | ⟨hmissing, rfl⟩
        · exact Or.inl hold
        · exact absurd hreading hst
        · rcases hinUse with ⟨hne, -⟩ | ⟨-, hnotin, -⟩
          · exact absurd hmissing hne
          · exact Or.inr ⟨rfl, hnotin⟩
    · exact ⟨st, atStage_put.mpr (Or.inr ⟨hp, hat⟩), hst, fun id hid => Or.inl hid⟩

/-- Calls that are apart stay apart. -/
theorem apart_step (hs : Distinct parse baseDir s) {a : IdStep}
    (h : step parse baseDir s a = some t) (hapart : Apart parse baseDir s) :
    Apart parse baseDir t := by
  rcases hapart with
    ⟨p, q, clientName, clientName', st, st', hslug, hne, hp, hq, hst, hst', hids⟩
  rcases atStage_step hs.staged h hp hst with ⟨next, hnext, hreading, hid⟩
  rcases atStage_step hs.staged h hq hst' with ⟨next', hnext', hreading', hid'⟩
  refine ⟨p, q, clientName, clientName', next, next', hslug, hne, hnext, hnext', hreading,
    hreading', ?_⟩
  intro id hidp hidq
  rcases hid id hidp with hold | ⟨hact, hnew⟩
  · rcases hid' id hidq with hold' | ⟨-, hnew⟩
    · exact hids id hold hold'
    · exact hnew (hs.calls p clientName st id hp hold)
  · rcases hid' id hidq with hold' | ⟨hact', -⟩
    · exact hnew (hs.calls q clientName' st' id hq hold')
    · rw [hact] at hact'
      exact hne (IdStep.act.inj hact').1

/-- A call that reads its client's file while another is creating an id is apart from it. -/
theorem apart_of_not_readsAlone (hs : Distinct parse baseDir s) {a : IdStep}
    (h : step parse baseDir s a = some t) (hnot : ¬ ReadsAlone parse baseDir s a) :
    Apart parse baseDir t := by
  rcases step_cases hs.staged h with
    ⟨p, clientName, rfl, -, -⟩ |
      ⟨p, newId, clientName, st, st', fs, inUse, rfl, hat, hacts, -, rfl⟩
  · exact absurd trivial hnot
  · simp only [ReadsAlone, not_forall, not_not] at hnot
    rcases hnot with ⟨clientName', hreading, q, clientName'', stq, hq, hslug, hcreating⟩
    rcases hat.unique hreading with ⟨rfl, rfl⟩
    have hne : q ≠ p := by
      rintro rfl
      rcases hat.unique hq with ⟨-, rfl⟩
      exact hcreating
    refine ⟨p, q, clientName', clientName'', st', stq, hslug, hne.symm,
      atStage_put.mpr (Or.inl ⟨rfl, rfl, rfl⟩), atStage_put.mpr (Or.inr ⟨hne, hq⟩), ?_, ?_, ?_⟩
    · rintro rfl
      cases hacts
    · rintro rfl
      exact hcreating
    · intro id hid hidq
      rcases id_of_acts hacts hid with hold | ⟨-, hread⟩ | ⟨hmissing, -⟩
      · simp [Stage.id?] at hold
      · exact (hs.unshared q clientName'' stq id hq hcreating hidq).1 hread
      · simp at hmissing

/-- Once all calls have returned and there is one id, none are apart. -/
theorem not_apart (hdone : AllDone s) (hone : OneId parse baseDir s) :
    ¬ Apart parse baseDir s := by
  rintro ⟨p, q, clientName, clientName', st, st', hslug, -, hp, hq, -, -, hids⟩
  rcases hdone p _ hp with ⟨id, hrest⟩
  rcases hdone q _ hq with ⟨id', hrest'⟩
  have hp' : AtStage parse baseDir s p clientName (.returned id) := by
    dsimp only at hrest
    rw [AtStage, hp, hrest, Stage.rest_returned]
  have hq' : AtStage parse baseDir s q clientName' (.returned id') := by
    dsimp only at hrest'
    rw [AtStage, hq, hrest', Stage.rest_returned]
  rcases hp.unique hp' with ⟨-, rfl⟩
  rcases hq.unique hq' with ⟨-, rfl⟩
  have hsame := (hone p clientName id hp').2 q clientName' id' hq' hslug
  exact hids id rfl (by rw [hsame]; rfl)

theorem start_distinct {fs : Fs} {inUse : List Uuid}
    (hinUse : ∀ id, FileHolds parse fs id → id ∈ inUse) :
    Distinct parse baseDir (start fs inUse) := by
  refine ⟨?_, hinUse, ?_, ?_⟩
  · intro p r hcall
    contradiction
  · intro p clientName st id hat
    contradiction
  · intro p clientName st id hat
    contradiction

/-- If no call reads its client's file while another is creating an id for the client, then all
along whatever calls have returned for a client is the one id in its file.  Once all calls have
returned, there is one id for each client exactly if no call has read so.  The text of an id is
parsed back, and the generator gives no id that is in use. -/
theorem one_id_iff (hparse : ∀ u : Uuid, parse u.hyphenated = some u) {fs : Fs}
    {inUse : List Uuid} (hinUse : ∀ id, FileHolds parse fs id → id ∈ inUse) {as : List IdStep}
    (hrun : Machine.run (step parse baseDir) (start fs inUse) as = some s) :
    (Machine.StepsMeet (step parse baseDir) (ReadsAlone parse baseDir) (start fs inUse) as →
        Machine.Throughout (step parse baseDir) (OneId parse baseDir) (start fs inUse) as) ∧
      (AllDone s → (OneId parse baseDir s ↔
        Machine.StepsMeet (step parse baseDir) (ReadsAlone parse baseDir) (start fs inUse)
          as)) := by
  have hserial : Machine.StepsMeet (step parse baseDir) (ReadsAlone parse baseDir)
      (start fs inUse) as →
        Machine.Throughout (step parse baseDir) (OneId parse baseDir) (start fs inUse) as :=
    Machine.throughout_of_stepsMeet (fun _ _ _ hs halone h => serial_step hparse hs halone h)
      (fun _ hs => hs.oneId) (start_serial fs inUse)
  refine ⟨hserial, ?_⟩
  intro hdone
  constructor
  · intro hone
    exact Machine.stepsMeet_of_unmarked (fun _ _ _ hs h => distinct_step hparse hs h)
      (fun _ _ _ hs h => apart_step hs h) (fun _ _ _ hs h => apart_of_not_readsAlone hs h)
      (start_distinct hinUse) hrun (not_apart hdone hone)
  · intro hmeet
    exact Machine.throughout_iff.mp (hserial hmeet) as (List.prefix_refl as) s hrun

/-! ## Two runs -/

/-- A call that has not been made is not there. -/
theorem calls_eq_none {fs : Fs} {inUse : List Uuid} {as : List IdStep}
    (hrun : Machine.run (step parse baseDir) (start fs inUse) as = some s)
    (hnot : ∀ clientName, .call p clientName ∉ as) : s.calls p = none := by
  have hboth : Staged parse baseDir s ∧
      ((∀ clientName, IdStep.call p clientName ∉ as) → s.calls p = none) := by
    refine Machine.run_history (P := fun as s => Staged parse baseDir s ∧
      ((∀ clientName, IdStep.call p clientName ∉ as) → s.calls p = none)) ?_ ?_ hrun
    · exact ⟨(start_serial fs inUse).staged, fun _ => rfl⟩
    · rintro as a s t - ⟨hs, hnone⟩ h
      refine ⟨staged_step hs h, ?_⟩
      intro hnot
      have hbefore := hnone fun clientName hmem => hnot clientName (List.mem_append_left _ hmem)
      rcases step_cases hs h with
        ⟨q, clientName, rfl, -, rfl⟩ |
          ⟨q, newId, clientName, st, st', fs, inUse, -, hat, -, -, rfl⟩
      · have hne : p ≠ q := by
          rintro rfl
          exact hnot clientName (by simp)
        simp [put, Function.update_of_ne hne, hbefore]
      · have hne : p ≠ q := by
          rintro rfl
          rw [AtStage, hbefore] at hat
          contradiction
        simp [put, Function.update_of_ne hne, hbefore]
  exact hboth.2 hnot

/-- The client and the id of a call that has returned. -/
def outcome (s : Identities) (p : Nat) : Option (Option String × Uuid) :=
  match s.calls p with
  | some ⟨clientName, .pure (.ok id)⟩ => some (clientName, id)
  | _ => none

theorem returned_of_outcome {id : Uuid} (h : outcome s p = some (clientName, id)) :
    Returned s p clientName id := by
  unfold outcome at h
  split at h
  · rename_i name id' hcall
    simp only [Option.some.injEq, Prod.mk.injEq] at h
    rw [Returned, hcall, h.1, h.2]
  · contradiction

/-- All calls have returned the one id that is stored for each client. -/
theorem oneId_of_calls {id : Uuid}
    (h : ∀ p r, s.calls p = some r → r.rest = .pure (.ok id) ∧
      storedId parse (s.fs.readToString (idPath baseDir r.clientName)) = some id) :
    AllDone s ∧ OneId parse baseDir s := by
  have hid : ∀ p clientName id', Returned s p clientName id' → id' = id := by
    intro p clientName id' hreturned
    exact Except.ok.inj (Prog.pure.inj (h p _ hreturned).1)
  refine ⟨fun p r hcall => ⟨id, (h p r hcall).1⟩, ?_⟩
  intro p clientName id' hreturned
  rw [hid p clientName id' hreturned]
  exact ⟨(h p _ hreturned).2, fun q clientName' id' h' _ => hid q clientName' id' h'⟩

/-- Two calls of a client one after the other. -/
def callsInTurn : List IdStep :=
  [.call 0 (some "Claude Code"), .act 0 .nil, .act 0 .nil, .act 0 .nil, .act 0 .nil,
    .call 1 (some "claude-code"), .act 1 .nil]

/-- The second call returns what the first has stored. -/
theorem calls_in_turn_one_id :
    ∃ s, Machine.run (step Uuid.ofHyphenated ["config"]) (start .empty []) callsInTurn = some s ∧
      Returned s 0 (some "Claude Code") .nil ∧ Returned s 1 (some "claude-code") .nil ∧
      Machine.StepsMeet (step Uuid.ofHyphenated ["config"])
        (ReadsAlone Uuid.ofHyphenated ["config"]) (start .empty []) callsInTurn := by
  have hend : (Machine.run (step Uuid.ofHyphenated ["config"]) (start .empty []) callsInTurn).map
      (fun s => (outcome s 0, outcome s 1,
        storedId Uuid.ofHyphenated (s.fs.readToString (idPath ["config"] (some "claude-code"))))) =
      some (some (some "Claude Code", .nil), some (some "claude-code", .nil), some .nil) := by
    decide +kernel
  rcases Option.map_eq_some_iff.mp hend with ⟨s, hrun, hs⟩
  simp only [Prod.mk.injEq] at hs
  rcases hs with ⟨hfirst, hsecond, hstored⟩
  have hreturned := returned_of_outcome hfirst
  have hreturned' := returned_of_outcome hsecond
  have hpath : idPath ["config"] (some "Claude Code") = idPath ["config"] (some "claude-code") := by
    decide +kernel
  have hcalls : ∀ p r, s.calls p = some r → r.rest = .pure (.ok .nil) ∧
      storedId Uuid.ofHyphenated (s.fs.readToString (idPath ["config"] r.clientName)) =
        some .nil := by
    intro p r hcall
    by_cases hp : p = 0
    · rw [hp, hreturned, Option.some.injEq] at hcall
      rw [← hcall]
      exact ⟨rfl, by rw [hpath, hstored]⟩
    · by_cases hp' : p = 1
      · rw [hp', hreturned', Option.some.injEq] at hcall
        rw [← hcall]
        exact ⟨rfl, hstored⟩
      · have hnone : s.calls p = none := by
          apply calls_eq_none hrun
          simp [callsInTurn, hp, hp']
        rw [hnone] at hcall
        exact absurd hcall (by simp)
  rcases oneId_of_calls hcalls with ⟨hdone, hone⟩
  have hinUse : ∀ id, FileHolds Uuid.ofHyphenated .empty id → id ∈ [] := by
    rintro id ⟨loc, text, hnode, -⟩
    simp only [Fs.empty] at hnode
    split at hnode
    · simp at hnode
    · exact absurd hnode (by simp)
  have hiff := (one_id_iff Uuid.ofHyphenated_hyphenated hinUse hrun).2 hdone
  exact ⟨s, hrun, hreturned, hreturned', hiff.mp hone⟩

/-- The UUID whose bytes are all one. -/
def ones : Uuid :=
  .ones

/-- Two calls of a client that both read before one writes. -/
def callsAtOnce : List IdStep :=
  [.call 0 (some "Claude Code"), .call 1 (some "claude-code"), .act 0 .nil, .act 1 ones,
    .act 0 .nil, .act 1 ones, .act 0 .nil, .act 1 ones, .act 0 .nil, .act 1 ones]

/-- Each call returns an id of its own, though the names have the same slug. -/
theorem calls_at_once_two_ids :
    ∃ s, Machine.run (step Uuid.ofHyphenated ["config"]) (start .empty []) callsAtOnce = some s ∧
      slug (some "claude-code") = slug (some "Claude Code") ∧
      Returned s 0 (some "Claude Code") .nil ∧ Returned s 1 (some "claude-code") ones ∧
      ¬ OneId Uuid.ofHyphenated ["config"] s := by
  have hslug : slug (some "claude-code") = slug (some "Claude Code") := by decide +kernel
  have hend : (Machine.run (step Uuid.ofHyphenated ["config"]) (start .empty []) callsAtOnce).map
      (fun s => (outcome s 0, outcome s 1)) =
      some (some (some "Claude Code", .nil), some (some "claude-code", ones)) := by
    decide +kernel
  rcases Option.map_eq_some_iff.mp hend with ⟨s, hrun, hs⟩
  simp only [Prod.mk.injEq] at hs
  rcases hs with ⟨hfirst, hsecond⟩
  have hreturned := returned_of_outcome hfirst
  have hreturned' := returned_of_outcome hsecond
  refine ⟨s, hrun, hslug, hreturned, hreturned', ?_⟩
  intro hone
  have hsame := (hone 0 _ _ hreturned).2 1 _ _ hreturned' hslug
  exact absurd hsame (by decide)

end Identities

end


end Mcp
end MemoryHub
