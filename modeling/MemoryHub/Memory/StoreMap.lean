import MemoryHub.Lib.Machine
import MemoryHub.Memory.FileOp

/-!
# The store as a map

What the file operations are for: a map from keys to contents.  Storage keeps it as a
tree four levels deep, with a temporary file beside the one it writes, and the
temporary name of one key can be another key.

Main results:

- Theorem `storageRead_path`: in a tree of that shape, reading the path of an ordinary
  key returns the text at its location, or nothing.
- Theorem `write_of_ok`, `delete_of_ok`: a successful request is a successful storage
  call on the path of its key.
- Theorem `reads_throughout_iff`: in a run of successful requests every read returns
  what the map holds exactly if no write's temporary name is another stored key.
- Theorem `temp_key_lost`: a run in which one is.
-/

namespace MemoryHub
namespace Memory

open UnixPath FileSystem

/-! ## Keys -/

/-- A memory file's key: the segments of its path. -/
structure Key where
  username : String
  agentId : Uuid
  project : String
  filename : String
deriving DecidableEq, Repr

namespace Key

/-- The key a request names. -/
def resolve (username : String) (agentId : Uuid) (project : Option String)
    (filename : String) : Except MemoryError Key :=
  match resolveProject project with
  | .error e => .error e
  | .ok project => .ok ⟨username, agentId, project, flattenFilename filename⟩

/-- Every part of the key is an ordinary path segment. -/
def Ordinary (k : Key) : Prop :=
  IsSegment k.username ∧ IsSegment k.project ∧ IsSegment k.filename

instance (k : Key) : Decidable k.Ordinary :=
  inferInstanceAs (Decidable (_ ∧ _ ∧ _))

/-- The storage path of the key. -/
def path (k : Key) : String :=
  rawPath k.username k.agentId k.project k.filename

/-- Where the key's file lies. -/
def loc (k : Key) : Loc :=
  [k.filename, k.project, k.agentId.hyphenated, k.username]

/-- The key whose file is the temporary file of `k`. -/
def temp (k : Key) : Key :=
  { k with filename := fileStem k.filename ++ "." ++ "tmp" }

theorem getRawPath_of_resolve {username filename : String} {agentId : Uuid}
    {project : Option String} {k : Key}
    (h : resolve username agentId project filename = .ok k) :
    getRawPath username agentId project filename = .ok k.path := by
  unfold resolve at h
  cases hp : resolveProject project with
  | error e => simp [hp] at h
  | ok p =>
      simp only [hp, Except.ok.injEq] at h
      rw [← h]
      exact getRawPath_of_resolveProject username agentId filename hp

/-- The pieces of the key's path. -/
def pieces (k : Key) : List String :=
  [k.username, k.agentId.hyphenated, k.project, k.filename]

theorem pieces_path {k : Key} (h : k.Ordinary) : UnixPath.pieces k.path = k.pieces :=
  pieces_rawPath h.1.2.1 h.2.1.2.1 h.2.2.2.1

theorem isName_of_mem_pieces {k : Key} (h : k.Ordinary) : ∀ p ∈ k.pieces, IsName p := by
  have hagent := agentId_segment k.agentId
  simp [pieces, h.1.1, hagent.1, h.2.1.1, h.2.2.1]

theorem location_path {k : Key} (h : k.Ordinary) : location k.path = k.loc := by
  rw [location, pieces_path h]
  exact Fs.lexical_names (isName_of_mem_pieces h) []

/-- A temporary name is an ordinary file name. -/
theorem ordinary_temp {k : Key} (h : k.Ordinary) : k.temp.Ordinary :=
  ⟨h.1, h.2.1, isSegment_tempName h.2.2⟩

theorem tempLocation_path {k : Key} (h : k.Ordinary) : tempLocation k.path = k.temp.loc := by
  have hsnoc : UnixPath.pieces k.path =
      [k.username, k.agentId.hyphenated, k.project] ++ [k.filename] :=
    pieces_path h
  rw [tempLocation, tempPath, hsnoc, withExtension_snoc h.2.2.1]
  exact Fs.lexical_names (isName_of_mem_pieces (ordinary_temp h)) []

/-- Keys with one location are equal. -/
theorem loc_inj {k k' : Key} : k.loc = k'.loc ↔ k = k' := by
  constructor
  · intro h
    simp only [loc, List.cons.injEq, and_true] at h
    rcases h with ⟨hfile, hproject, hagent, huser⟩
    cases k
    cases k'
    simp_all [Uuid.hyphenated_inj]
  · intro h
    rw [h]

/-- A raw path with the location of a key is the path of that key: one that goes
through dots names a location on a higher level. -/
theorem path_of_location {k : Key} {other : String} (hraw : IsRawPath other)
    (h : location other = k.loc) : other = k.path := by
  rcases hraw.exists_segments with ⟨u, a, p, f, huser, hproject, hfile, rfl⟩
  rw [location, pieces_rawPath (username_segment huser).2.1 hproject.no_slash hfile] at h
  have hnames : ∀ q ∈ [u, a.hyphenated, p, f], IsName q := by
    intro q hq
    by_contra hname
    have hlen := @Fs.length_lexical_lt [] _ _ hq hname
    rw [h] at hlen
    simp [loc] at hlen
  rw [Fs.lexical_names hnames] at h
  simp only [loc, List.reverse_cons, List.reverse_nil, List.nil_append, List.cons_append,
    List.append_nil, List.cons.injEq, and_true, Uuid.hyphenated_inj] at h
  rcases h with ⟨rfl, rfl, rfl, rfl⟩
  rfl

/-- No folder on the first three levels is where a key's file lies. -/
theorem ne_loc {l : Loc} (hl : l.length ≤ 3) (k : Key) : l ≠ k.loc := by
  intro heq
  have hlen : k.loc.length = 4 := rfl
  rw [heq] at hl
  omega

/-- A read can name the temporary key of any key a request names. -/
theorem resolve_temp {username filename : String} {agentId : Uuid} {project : Option String}
    {k : Key} (h : resolve username agentId project filename = .ok k) :
    resolve username agentId project k.temp.filename = .ok k.temp := by
  unfold resolve at h ⊢
  cases hp : resolveProject project with
  | error e => simp [hp] at h
  | ok p =>
      simp only [hp, Except.ok.injEq] at h ⊢
      have hflat : flattenFilename k.temp.filename = k.temp.filename := by
        apply flattenFilename_eq_self
        intro c hc
        refine notMem_fileStem_append ?_ ?_
        · rw [← h]
          exact separator_notMem_flattenFilename filename hc
        · rcases hc with hslash | hback
          · rw [hslash]
            decide
          · rw [hback]
            decide
      rw [hflat, temp, ← h]

end Key

/-! ## Trees four levels deep -/

/-- Folders on the first three levels, readable files on the fourth. -/
structure Layered (fs : Fs) : Prop where
  folders : ∀ l, l.length ≤ 3 → ∀ text, fs.node l ≠ some (.file text)
  files : ∀ l, 4 ≤ l.length → ∀ n, fs.node l = some n → ∃ text, n = .file (some text)

/-- The text of the file at a location. -/
def textAt (fs : Fs) (l : Loc) : Option String :=
  match fs.node l with
  | some (.file text) => text
  | _ => none

theorem layered_empty : Layered Fs.empty := by
  constructor
  · intro l _ text
    simp only [Fs.empty]
    split <;> simp
  · intro l hl n hn
    simp only [Fs.empty] at hn
    split at hn <;> rename_i hnil
    · rw [hnil] at hl
      exact absurd hl (by decide)
    · contradiction

/-- Reading the path of an ordinary key succeeds, with the text at its location. -/
theorem storageRead_path {fs : Fs} (hfs : Layered fs) {k : Key} (hk : k.Ordinary) :
    storageRead fs k.path = .ok (textAt fs k.loc) := by
  have hagent := agentId_segment k.agentId
  have hnames : ∀ p ∈ [k.username, k.agentId.hyphenated, k.project], IsName p := by
    simp [hk.1.1, hagent.1, hk.2.1.1]
  have hnul : Fs.hasNul ([k.username, k.agentId.hyphenated, k.project] ++ [k.filename]) =
      false := by
    simp [Fs.hasNul, hk.1.2.2, hk.2.1.2.2, hk.2.2.2.2, hagent.2.2]
  have hfolders : fs.NoFileAbove [k.username, k.agentId.hyphenated, k.project].reverse :=
    fun l hl => hfs.folders l (hl.length_le : l.length ≤ 3)
  have hread := Fs.readToString_names hnames hk.2.2.1 hnul hfolders
  have hentry : fs.node k.loc = (textAt fs k.loc).map fun text => .file (some text) := by
    unfold textAt
    cases hnode : fs.node k.loc with
    | none => rfl
    | some n =>
        rcases hfs.files k.loc (Nat.le_refl 4) n hnode with ⟨text, rfl⟩
        rfl
  apply storageRead_of_entry
  rw [Key.pieces_path hk, ← hentry]
  exact hread

/-! ## Effects of the storage calls -/

/-- The folder of a key's file has three names, so making it changes only the first
three levels. -/
theorem node_withFolder {fs : Fs} {k : Key} (hk : k.Ordinary) (fault : Option StorageFault)
    {l : Loc} (hl : 4 ≤ l.length) : (withFolder fs k.path fault).node l = fs.node l := by
  have hparent : parent (UnixPath.pieces k.path) =
      [k.username, k.agentId.hyphenated, k.project] := by
    rw [Key.pieces_path hk]
    exact (parent_snoc hk.2.2.1 : parent ([k.username, k.agentId.hyphenated, k.project] ++ _) = _)
  apply node_withFolder_of_length
  rw [hparent]
  exact hl

theorem layered_withFolder {fs : Fs} (hfs : Layered fs) {k : Key} (hk : k.Ordinary)
    (fault : Option StorageFault) : Layered (withFolder fs k.path fault) := by
  constructor
  · intro l hl text
    rw [Ne, (withFolder_extends fs k.path fault).file_iff]
    exact hfs.folders l hl text
  · intro l hl n hn
    rw [node_withFolder hk fault hl] at hn
    exact hfs.files l hl n hn

/-- A successful write puts the content at its key and takes away what was at the
temporary key. -/
theorem write_layered {fs fs' : Fs} (hfs : Layered fs) {k : Key} (hk : k.Ordinary)
    {content : String} {fault : Option StorageFault}
    (h : storageWrite fs k.path content fault = (.ok (), fs')) :
    Layered fs' ∧ ∀ k' : Key, textAt fs' k'.loc =
      if k' = k then some content else if k' = k.temp then none else textAt fs k'.loc := by
  rcases storageWrite_cases h with ⟨⟨e, he⟩, -⟩ | ⟨-, -, -, -, -, hnodes⟩
  · contradiction
  · rw [Key.location_path hk, Key.tempLocation_path hk] at hnodes
    have hfolder := layered_withFolder hfs hk fault
    refine ⟨⟨?_, ?_⟩, ?_⟩
    · intro l hl text
      rw [hnodes l, if_neg (Key.ne_loc hl k), if_neg (Key.ne_loc hl k.temp)]
      exact hfolder.folders l hl text
    · intro l hl n hn
      rw [hnodes l] at hn
      split at hn
      · cases hn
        exact ⟨content, rfl⟩
      · split at hn
        · contradiction
        · exact hfolder.files l hl n hn
    · intro k'
      unfold textAt
      rw [hnodes k'.loc]
      by_cases hkey : k' = k
      · simp [hkey]
      · rw [if_neg (mt Key.loc_inj.mp hkey), if_neg hkey]
        by_cases htemp : k' = k.temp
        · simp [htemp]
        · rw [if_neg (mt Key.loc_inj.mp htemp), if_neg htemp,
            node_withFolder hk fault (by simp [Key.loc])]

/-- A successful delete takes away what was at its key. -/
theorem delete_layered {fs fs' : Fs} (hfs : Layered fs) {k : Key} (hk : k.Ordinary)
    {fault : Option StorageFault} (h : storageDelete fs k.path fault = (.ok (), fs')) :
    Layered fs' ∧ ∀ k' : Key, textAt fs' k'.loc =
      if k' = k then none else textAt fs k'.loc := by
  rcases storageDelete_cases h with ⟨⟨e, he⟩, -⟩ | ⟨-, rfl, hread⟩ | ⟨-, -, -, -, hnode⟩
  · contradiction
  · refine ⟨hfs, ?_⟩
    intro k'
    rw [storageRead_path hfs hk] at hread
    split <;> rename_i hkey
    · rw [hkey]
      exact Except.ok.inj hread
    · rfl
  · rw [Key.location_path hk] at hnode
    refine ⟨⟨?_, ?_⟩, ?_⟩
    · intro l hl text
      rw [hnode, Function.update_of_ne (Key.ne_loc hl k)]
      exact hfs.folders l hl text
    · intro l hl n hn
      rw [hnode, Function.update_apply] at hn
      split at hn
      · contradiction
      · exact hfs.files l hl n hn
    · intro k'
      unfold textAt
      rw [hnode, Function.update_apply]
      by_cases hkey : k' = k
      · simp [hkey]
      · rw [if_neg (mt Key.loc_inj.mp hkey), if_neg hkey]

/-! ## Runs of successful requests -/

/-- A request that changes the store, with what happens to its messages. -/
inductive StoreRequest where
  | write (msg : FileOpWrite) (script : WriteScript)
  | delete (msg : FileOpDelete) (script : DeleteScript)

/-- The actors' state, and the map it stands for. -/
structure StoreMap where
  world : World
  stored : Key → Option String

/-- The reply is a success. -/
def Outcome.isOk : Outcome → Bool
  | .replied (.ok ()) _ => true
  | _ => false

theorem Outcome.isOk_iff (o : Outcome) : o.isOk = true ↔ ∃ n, o = .replied (.ok ()) n := by
  cases o with
  | crashed => simp [isOk]
  | replied r n => cases r <;> simp [isOk]

namespace StoreMap

/-- No files, and nothing stored. -/
def start (db : IndexDb) (built : String → Option String) : StoreMap :=
  ⟨⟨.empty, db, built⟩, fun _ => none⟩

/-- One request to an ordinary key that succeeds. -/
def step (op : FileOp) (s : StoreMap) : StoreRequest → Option StoreMap
  | .write msg script =>
      match Key.resolve msg.username msg.agentId msg.project msg.filename with
      | .error _ => none
      | .ok k =>
          match op.write s.world msg script with
          | (outcome, w) =>
              if k.Ordinary ∧ outcome.isOk = true then
                some ⟨w, Function.update s.stored k (some msg.content)⟩
              else none
  | .delete msg script =>
      match Key.resolve msg.username msg.agentId msg.project msg.filename with
      | .error _ => none
      | .ok k =>
          match FileOp.delete s.world msg script with
          | (outcome, w) =>
              if k.Ordinary ∧ outcome.isOk = true then
                some ⟨w, Function.update s.stored k none⟩
              else none

/-- Every read of an ordinary key returns what the map holds. -/
def ReadsBack (s : StoreMap) : Prop :=
  ∀ (msg : FileOpRead) (k : Key),
    Key.resolve msg.username msg.agentId msg.project msg.filename = .ok k → k.Ordinary →
      FileOp.read s.world msg = .ok (s.stored k)

/-- A write's temporary name is the name itself, or no stored key. -/
def TempFree (s : StoreMap) : StoreRequest → Prop
  | .write msg _ =>
      ∀ k, Key.resolve msg.username msg.agentId msg.project msg.filename = .ok k →
        k.temp = k ∨ s.stored k.temp = none
  | .delete _ _ => True

end StoreMap

/-- A successful write is a successful storage call on the path of its key. -/
theorem write_of_ok {op : FileOp} {w w' : World} {msg : FileOpWrite} {script : WriteScript}
    {outcome : Outcome} {k : Key} (h : op.write w msg script = (outcome, w'))
    (hok : outcome.isOk = true)
    (hkey : Key.resolve msg.username msg.agentId msg.project msg.filename = .ok k) :
    storageWrite w.fs k.path msg.content script.storageFault = (.ok (), w'.fs) := by
  rcases outcome.isOk_iff.mp hok with ⟨n, hn⟩
  have hpath := Key.getRawPath_of_resolve hkey
  rcases FileOp.write_cases h with ⟨-, hfail⟩ | ⟨path, insert, r, w₁, hpath', -, -, hinsert, hrest⟩
  · exact absurd hn (hfail n)
  · have hsame : k.path = path := Except.ok.inj (hpath.symm.trans hpath')
    have hfs : w₁.fs = w.fs := by
      have := w.sendInsert_fs script.index insert msg.content script.now script.indexFault
      rwa [hinsert] at this
    rcases hrest with ⟨-, hfail, -⟩ | ⟨-, -, r₂, w₂, hstore, ⟨hw, hr₂, -⟩ | ⟨e, -, -, ho, -⟩⟩
    · exact absurd hn (hfail n)
    · rw [hr₂ n hn] at hstore
      rcases World.sendStorageWrite_cases hstore with ⟨-, -, e, he⟩ | ⟨-, -, -, result, hcall, hr⟩
      · contradiction
      · have hresult : result = .ok () := by
          cases hd : script.storage <;> simp [hd, Delivery.receive] at hr
          exact hr.symm
        rw [hsame, hw, ← hfs, hcall, hresult]
    · rw [ho] at hn
      simp at hn

/-- A successful delete is a successful storage call on the path of its key. -/
theorem delete_of_ok {w w' : World} {msg : FileOpDelete} {script : DeleteScript}
    {outcome : Outcome} {k : Key} (h : FileOp.delete w msg script = (outcome, w'))
    (hok : outcome.isOk = true)
    (hkey : Key.resolve msg.username msg.agentId msg.project msg.filename = .ok k) :
    storageDelete w.fs k.path script.storageFault = (.ok (), w'.fs) := by
  rcases outcome.isOk_iff.mp hok with ⟨n, hn⟩
  have hpath := Key.getRawPath_of_resolve hkey
  rcases FileOp.delete_cases h with ⟨-, hfail⟩ | ⟨path, r, w₁, hpath', hdelete, hrest⟩
  · exact absurd hn (hfail n)
  · have hsame : k.path = path := Except.ok.inj (hpath.symm.trans hpath')
    have hfs : w₁.fs = w.fs := by
      have := w.sendDelete_fs script.index path script.indexFault
      rwa [hdelete] at this
    rcases hrest with ⟨-, hfail⟩ | ⟨-, -, r₂, hstore, hr₂⟩
    · exact absurd hn (hfail n)
    · rcases World.sendStorageDelete_cases hstore with ⟨-, -, hr⟩ | ⟨-, -, -, result, hcall, hr⟩
      · exact absurd (hr₂ n hn) hr
      · rw [hsame, ← hfs, hcall, hr (hr₂ n hn)]

namespace StoreMap

theorem read_of_resolve {w : World} (hfs : Layered w.fs) (msg : FileOpRead) {k : Key}
    (hkey : Key.resolve msg.username msg.agentId msg.project msg.filename = .ok k)
    (hk : k.Ordinary) : FileOp.read w msg = .ok (textAt w.fs k.loc) := by
  rw [FileOp.read, Key.getRawPath_of_resolve hkey]
  simp only [storageRead_path hfs hk, propagate]

/-- What one step does to the map and to the files at the keys. -/
theorem step_cases {op : FileOp} {s t : StoreMap} {r : StoreRequest}
    (hfs : Layered s.world.fs) (h : step op s r = some t) :
    Layered t.world.fs ∧
      ((∃ msg script k, r = .write msg script ∧
          Key.resolve msg.username msg.agentId msg.project msg.filename = .ok k ∧ k.Ordinary ∧
          t.stored = Function.update s.stored k (some msg.content) ∧
          ∀ k' : Key, textAt t.world.fs k'.loc =
            if k' = k then some msg.content
            else if k' = k.temp then none else textAt s.world.fs k'.loc) ∨
        (∃ msg script k, r = .delete msg script ∧
          t.stored = Function.update s.stored k none ∧
          ∀ k' : Key, textAt t.world.fs k'.loc =
            if k' = k then none else textAt s.world.fs k'.loc)) := by
  cases r with
  | write msg script =>
      unfold step at h
      cases hkey : Key.resolve msg.username msg.agentId msg.project msg.filename with
      | error e => simp [hkey] at h
      | ok k =>
          rcases hwrite : op.write s.world msg script with ⟨outcome, w⟩
          simp only [hkey, hwrite] at h
          split at h <;> rename_i hok
          · cases h
            have hcall := write_of_ok hwrite hok.2 hkey
            rcases write_layered hfs hok.1 hcall with ⟨hlayered, htext⟩
            exact ⟨hlayered, Or.inl ⟨msg, script, k, rfl, hkey, hok.1, rfl, htext⟩⟩
          · contradiction
  | delete msg script =>
      unfold step at h
      cases hkey : Key.resolve msg.username msg.agentId msg.project msg.filename with
      | error e => simp [hkey] at h
      | ok k =>
          rcases hdelete : FileOp.delete s.world msg script with ⟨outcome, w⟩
          simp only [hkey, hdelete] at h
          split at h <;> rename_i hok
          · cases h
            have hcall := delete_of_ok hdelete hok.2 hkey
            rcases delete_layered hfs hok.1 hcall with ⟨hlayered, htext⟩
            exact ⟨hlayered, Or.inr ⟨msg, script, k, rfl, rfl, htext⟩⟩
          · contradiction

/-- One step keeps the reads right exactly if its temporary name is free. -/
theorem readsBack_step_iff {op : FileOp} {s t : StoreMap} {r : StoreRequest}
    (hfs : Layered s.world.fs) (hreads : ReadsBack s) (h : step op s r = some t) :
    ReadsBack t ↔ TempFree s r := by
  have htextOf : ∀ (msg : FileOpRead) k,
      Key.resolve msg.username msg.agentId msg.project msg.filename = .ok k → k.Ordinary →
        textAt s.world.fs k.loc = s.stored k := by
    intro msg k hkey hk
    have hread := hreads msg k hkey hk
    rw [read_of_resolve hfs msg hkey hk] at hread
    exact Except.ok.inj hread
  rcases step_cases hfs h with ⟨hfs', ⟨msg, script, k, rfl, hkey, hk, hstored, htext⟩ |
    ⟨msg, script, k, rfl, hstored, htext⟩⟩
  · constructor
    · intro hreads' k₀ hkey₀
      have hsame : k₀ = k := Except.ok.inj (hkey₀.symm.trans hkey)
      rw [hsame]
      by_cases htemp : k.temp = k
      · exact Or.inl htemp
      · right
        have htempKey := Key.resolve_temp hkey
        have hread := hreads' ⟨msg.username, msg.agentId, msg.project, k.temp.filename⟩ k.temp
          htempKey (Key.ordinary_temp hk)
        rw [read_of_resolve hfs' _ htempKey (Key.ordinary_temp hk), htext, if_neg htemp,
          if_pos rfl, hstored, Function.update_of_ne htemp] at hread
        exact (Except.ok.inj hread).symm
    · intro hfree msg' k' hkey' hk'
      rw [read_of_resolve hfs' msg' hkey' hk', htext k', hstored]
      by_cases hsame : k' = k
      · simp [hsame]
      · rw [if_neg hsame, Function.update_of_ne hsame]
        by_cases htemp : k' = k.temp
        · rw [if_pos htemp, htemp]
          rcases hfree k hkey with heq | hnone
          · exact absurd (htemp.trans heq) hsame
          · rw [hnone]
        · rw [if_neg htemp, htextOf msg' k' hkey' hk']
  · refine iff_of_true ?_ trivial
    intro msg' k' hkey' hk'
    rw [read_of_resolve hfs' msg' hkey' hk', htext k', hstored]
    by_cases hsame : k' = k
    · simp [hsame]
    · rw [if_neg hsame, Function.update_of_ne hsame, htextOf msg' k' hkey' hk']

/-- In a run of successful requests every read of an ordinary key returns what the map
holds, in every state, exactly if no write has a temporary name that is another stored
key. -/
theorem reads_throughout_iff (op : FileOp) (db : IndexDb) (built : String → Option String)
    (requests : List StoreRequest) :
    Machine.Throughout (step op) ReadsBack (start db built) requests ↔
      Machine.StepsMeet (step op) TempFree (start db built) requests := by
  have hstart : ReadsBack (start db built) := by
    intro msg k hkey hk
    have hfs : Layered (start db built).world.fs := layered_empty
    rw [read_of_resolve hfs msg hkey hk]
    simp [start, textAt, Fs.empty, Key.loc]
  refine Machine.throughout_iff_stepsMeet (J := fun s => Layered s.world.fs) ?_ ?_ hstart
    layered_empty
  · intro s r t hfs h
    exact (step_cases hfs h).1
  · intro s r t hfs hreads h
    exact readsBack_step_iff hfs hreads h

/-- Two files of one folder: the temporary name of the second is the first. -/
def tempClash : List StoreRequest :=
  [.write ⟨"alice", .nil, none, "a.tmp", "x"⟩ .sample,
    .write ⟨"alice", .nil, none, "a.md", "y"⟩ .sample]

/-- Writing `a.md` takes the stored `a.tmp` away. -/
theorem temp_key_lost :
    ¬ Machine.Throughout (step .withDefaults) ReadsBack (start .fresh fun _ => none) tempClash := by
  have hend : (Machine.run (step .withDefaults) (start .fresh fun _ => none) tempClash).map
      (fun s => (s.stored ⟨"alice", .nil, "_default", "a.tmp"⟩,
        FileOp.read s.world ⟨"alice", .nil, none, "a.tmp"⟩)) = some (some "x", .ok none) := by
    decide +kernel
  intro hthrough
  rcases Option.map_eq_some_iff.mp hend with ⟨s, hrun, hs⟩
  have hreads : ReadsBack s :=
    Machine.throughout_iff.mp hthrough tempClash (List.prefix_refl _) s hrun
  have hread := hreads ⟨"alice", .nil, none, "a.tmp"⟩ ⟨"alice", .nil, "_default", "a.tmp"⟩
    (by decide) (by decide)
  simp only [Prod.mk.injEq] at hs
  rw [hs.1, hs.2] at hread
  simp at hread

end StoreMap

end Memory
end MemoryHub
