import MemoryHub.Lib.Machine
import MemoryHub.Memory.FileOp

/-!
# File operations under faults

Requests run one at a time; any message may fail to be sent, handled or answered, any
statement or system call may fail, and the process may die and be started again.  A
write indexes first and stores last; a delete takes the entry away first.  Whether an
entry then stands for a file depends on whether the write that made it got as far as
its file, or as far as its undo.

Main results:

- Theorem `backed_write`, `backed_delete`: a request that meets its condition leaves
  every entry with the file it was built from.
- Theorem `entries_backed_throughout`: so does every run of such requests and restarts.
- Theorem `entry_without_file`: a write that dies between its two steps.
-/

namespace MemoryHub
namespace Memory

open FileSystem

/-! ## Actions -/

/-- A request with its script, or the process being started again. -/
inductive FaultyAction where
  | write (msg : FileOpWrite) (script : WriteScript)
  | delete (msg : FileOpDelete) (script : DeleteScript)
  | restart (fault : Option IndexFault)

/-- An undo that is sent succeeds. -/
def WriteScript.UndoSucceeds (script : WriteScript) : Prop :=
  script.undo = .unsent ∨ (script.undo.handled = true ∧ script.undoFault = none)

instance (script : WriteScript) : Decidable script.UndoSucceeds :=
  inferInstanceAs (Decidable (_ ∨ _))

namespace World

/-- The index is opened again; the files are what they were. -/
def restart (w : World) (fault : Option IndexFault) : World :=
  { w with db := (reopen w.db fault).2 }

/-- One request of a known user, with its undo succeeding if sent, or a restart. -/
def faultyStep (op : FileOp) (w : World) : FaultyAction → Option World
  | .write msg script =>
      if Http.validateUsername msg.username = .ok () ∧ script.UndoSucceeds then
        some (op.write w msg script).2
      else none
  | .delete msg script =>
      if Http.validateUsername msg.username = .ok () then
        some (FileOp.delete w msg script).2
      else none
  | .restart fault => some (w.restart fault)

/-! ## What should hold -/

/-- Every raw entry has its file, with the content the entry was built from. -/
def EntriesBacked (w : World) : Prop :=
  ∀ row ∈ w.db.files.rows, IsRawPath row.path →
    ∃ content, w.built row.path = some content ∧
      storageRead w.fs row.path = .ok (some content)

/-- The same, said of the record of contents. -/
def Backed (w : World) : Prop :=
  ∀ path, IsRawPath path → ∀ content, w.built path = some content →
    storageContent w.fs path = some content

theorem entriesBacked_of_backed {op : FileOp} {w : World} (hindexed : Indexed op w)
    (hbacked : Backed w) : EntriesBacked w := by
  rcases hindexed with ⟨m, himage, hmatches⟩
  intro row hrow hraw
  have hmatch := hmatches row.path hraw
  cases hm : m row.path with
  | none => exact absurd (List.mem_map_of_mem hrow) (himage.path_fresh hm)
  | some e =>
      cases hbuilt : w.built row.path with
      | none => simp [Matches, hm, hbuilt] at hmatch
      | some content =>
          refine ⟨content, rfl, ?_⟩
          have hcontent := hbacked row.path hraw content hbuilt
          unfold storageContent at hcontent
          split at hcontent <;> rename_i hread
          · rw [hread, hcontent]
          · contradiction

theorem fresh_backed : Backed fresh := by
  intro path _ content hbuilt
  contradiction

/-- A restart leaves files and entries as they were. -/
theorem restart_keeps {op : FileOp} {w : World} (hindexed : Indexed op w) (hbacked : Backed w)
    (fault : Option IndexFault) : Indexed op (w.restart fault) ∧ Backed (w.restart fault) := by
  rcases hindexed with ⟨m, himage, hmatches⟩
  refine ⟨⟨m, ?_, hmatches⟩, hbacked⟩
  rcases reopen_image himage fault with ⟨-, himage'⟩ | ⟨-, -, himage', -⟩
  · exact himage'
  · exact himage'

/-! ## Safe requests -/

/-- The index step of a write replaces the entry. -/
def Indexes (w : World) (insert : IndexInsert) (script : WriteScript) : Prop :=
  script.crash ≠ some .embedded ∧ script.index.handled = true ∧
    (handleInsert w.db insert script.now script.indexFault).1 = .ok ()

/-- After its index step a write gets as far as storage. -/
def ReachesStorage (script : WriteScript) : Prop :=
  script.index = .answered ∧ script.crash ≠ some .indexed ∧ script.storage.handled = true

/-- The storage step of a write succeeds. -/
def Stores (w : World) (path content : String) (fault : Option StorageFault) : Prop :=
  (storageWrite w.fs path content fault).1 = .ok ()

/-- The storage step of a write works on no file of another entry, neither as its
target (unless with the same content) nor as its temporary file. -/
def SparesOthers (w : World) (path content : String) (fault : Option StorageFault) : Prop :=
  ∀ other, IsRawPath other → other ≠ path → w.built other ≠ none →
    (w.Stores path content fault → location other = location path →
      w.built other = some content) ∧
    (OpensTemp w.fs path fault → location other = tempLocation path →
      w.Stores path content fault ∧ location path = tempLocation path)

/-- The write of an entry ends with the file in place, or with the entry undone; and it
works on no file of another entry. -/
def WriteSettles (w : World) (path content : String) (script : WriteScript) : Prop :=
  (ReachesStorage script → w.SparesOthers path content script.storageFault) ∧
    ((storageContent w.fs path = some content ∧
        (ReachesStorage script → OpensTemp w.fs path script.storageFault →
          location path ≠ tempLocation path)) ∨
      (ReachesStorage script ∧ w.Stores path content script.storageFault) ∨
      (ReachesStorage script ∧ script.storage = .answered ∧ script.crash ≠ some .stored ∧
        script.undo ≠ .unsent))

/-- A write is safe if it makes no entry, or settles the one it makes. -/
def WriteSafe (op : FileOp) (w : World) (msg : FileOpWrite) (script : WriteScript) : Prop :=
  ∀ path insert, getRawPath msg.username msg.agentId msg.project msg.filename = .ok path →
    op.buildInsert path msg.content script.embed script.response = .ok insert →
      Indexes w insert script → w.WriteSettles path msg.content script

/-- A delete is safe if the file it takes away, if any, is no file of another entry. -/
def DeleteSafe (w : World) (msg : FileOpDelete) (script : DeleteScript) : Prop :=
  ∀ path, getRawPath msg.username msg.agentId msg.project msg.filename = .ok path →
    script.index = .answered → (handleDelete w.db path script.indexFault).1 = .ok () →
      script.crash ≠ some .indexed → script.storage.handled = true →
        (∀ e, script.storageFault ≠ some (.remove e)) → LeadsTo w.fs path →
          ∀ other, IsRawPath other → other ≠ path → w.built other ≠ none →
            location other ≠ location path

/-- The condition on each action of a run. -/
def FaultSafe (op : FileOp) (w : World) : FaultyAction → Prop
  | .write msg script => WriteSafe op w msg script
  | .delete msg script => DeleteSafe w msg script
  | .restart _ => True

/-! ## What a safe request keeps -/

/-- A storage write that spares the others keeps their content. -/
theorem content_of_spared {w : World} {fs' : Fs} {path content : String}
    {fault : Option StorageFault} {result : Except StorageError Unit}
    (hwrite : storageWrite w.fs path content fault = (result, fs'))
    (hspares : w.SparesOthers path content fault) {other c : String} (hraw : IsRawPath other)
    (hne : other ≠ path) (hbuilt : w.built other = some c)
    (hcontent : storageContent w.fs other = some c) : storageContent fs' other = some c := by
  rcases hspares other hraw hne (by simp [hbuilt]) with ⟨htarget, htemp⟩
  have hstores : w.Stores path content fault ↔ result = .ok () := by rw [Stores, hwrite]
  refine content_kept_of_write hwrite hcontent ?_ ?_
  · intro hok hloc
    have hsame := htarget (hstores.mpr hok) hloc
    rw [hbuilt] at hsame
    exact Option.some.inj hsame
  · intro hopens hloc
    exact ⟨hstores.mp (htemp hopens hloc).1, (htemp hopens hloc).2⟩

/-- With the entry replaced, the files are right if the other entries' files are, and
this one has the new content. -/
theorem backed_of_update {w' : World} {built : String → Option String} {path content : String}
    (hbuilt : w'.built = Function.update built path (some content))
    (hothers : ∀ other, IsRawPath other → other ≠ path → ∀ c, built other = some c →
      storageContent w'.fs other = some c)
    (hself : storageContent w'.fs path = some content) : Backed w' := by
  intro other hraw c hc
  rw [hbuilt] at hc
  by_cases hother : other = path
  · rw [hother, Function.update_self] at hc
    rw [hother, hself, hc]
  · rw [Function.update_of_ne hother] at hc
    exact hothers other hraw hother c hc

/-- With the entry gone, the files are right if the other entries' files are. -/
theorem backed_of_removed {w' : World} {built : String → Option String} {path : String}
    (hbuilt : w'.built = Function.update built path none)
    (hothers : ∀ other, IsRawPath other → other ≠ path → ∀ c, built other = some c →
      storageContent w'.fs other = some c) : Backed w' := by
  intro other hraw c hc
  rw [hbuilt] at hc
  by_cases hother : other = path
  · rw [hother, Function.update_self] at hc
    contradiction
  · rw [Function.update_of_ne hother] at hc
    exact hothers other hraw hother c hc

/-- After a storage step the new content is in place, unless the step failed in a way that
gets the entry undone. -/
theorem content_after_store {w : World} {fs' : Fs} {path content : String}
    {script : WriteScript} {result : Except StorageError Unit}
    (hwrite : storageWrite w.fs path content script.storageFault = (result, fs'))
    (hreaches : ReachesStorage script) (hsettles : w.WriteSettles path content script)
    (hnot : ∀ e, result = .error e → ¬ (script.storage = .answered ∧
      script.crash ≠ some .stored ∧ script.undo ≠ .unsent)) :
    storageContent fs' path = some content := by
  cases result with
  | ok _ => exact content_of_write hwrite
  | error e =>
      rcases hsettles.2 with ⟨hcontent, htemp⟩ | ⟨-, hstores⟩ | ⟨-, hundone⟩
      · refine content_kept_of_write hwrite hcontent (fun _ _ => rfl) ?_
        intro hopens hloc
        exact absurd hloc (htemp hreaches hopens)
      · rw [Stores, hwrite] at hstores
        contradiction
      · exact absurd hundone (hnot e rfl)

/-- An undo that succeeds if sent takes the entry away, or leaves everything as it is. -/
theorem undo_cases {op : FileOp} {w : World} {script : WriteScript} (hindexed : Indexed op w)
    (hundo : script.UndoSucceeds) (path : String) :
    Indexed op (w.sendDelete script.undo path script.undoFault).2 ∧
      ((script.undo = .unsent ∧
          (w.sendDelete script.undo path script.undoFault).2.built = w.built) ∨
        (w.sendDelete script.undo path script.undoFault).2.built =
          Function.update w.built path none) := by
  have hkeeps : Indexed op (w.sendDelete script.undo path script.undoFault).2 :=
    (sendDelete_cases hindexed rfl).2.1
  refine ⟨hkeeps, ?_⟩
  rcases hundo with hunsent | ⟨hsent, hnofault⟩
  · left
    rw [hunsent]
    exact ⟨rfl, rfl⟩
  · right
    rw [hnofault]
    exact sendDelete_takes hindexed hsent

/-- A safe write leaves every entry with its file. -/
theorem backed_write {op : FileOp} {w : World} {msg : FileOpWrite} {script : WriteScript}
    (hindexed : Indexed op w) (hbacked : Backed w) (hundo : script.UndoSucceeds)
    (hsafe : WriteSafe op w msg script) :
    Indexed op (op.write w msg script).2 ∧ Backed (op.write w msg script).2 := by
  rcases hwrite : op.write w msg script with ⟨o, w'⟩
  change Indexed op w' ∧ Backed w'
  rcases FileOp.write_cases hwrite with
    ⟨rfl, -⟩ | ⟨path, insert, r, w₁, hpath, hbuild, hembedded, hsend, hrest⟩
  · exact ⟨hindexed, hbacked⟩
  · rcases FileOp.buildInsert_eq_ok hbuild with ⟨rfl, hfrom⟩
    rcases sendInsert_cases hindexed hfrom hsend with ⟨hfs₁, hindexed₁, hsame | htaken⟩
    · -- The index step fails, so the request ends there.
      rcases hrest with ⟨rfl, -, -⟩ | ⟨hr, -⟩
      · refine ⟨hindexed₁, ?_⟩
        intro other hraw c hc
        rw [hfs₁]
        rw [hsame.1] at hc
        exact hbacked other hraw c hc
      · exact absurd hr hsame.2
    · rcases htaken with ⟨hbuilt₁, hindex, hinserted, hanswered⟩
      have hsettles : w.WriteSettles insert.path msg.content script :=
        hsafe insert.path insert hpath hbuild ⟨hembedded, hindex, hinserted⟩
      -- Where storage is not reached the content must be there already.
      have hunreached : w₁.fs = w.fs → ¬ ReachesStorage script → Backed w₁ := by
        intro hfs hnot
        refine backed_of_update hbuilt₁ ?_ ?_
        · intro other hraw _ c hc
          rw [hfs]
          exact hbacked other hraw c hc
        · rw [hfs]
          rcases hsettles.2 with ⟨hcontent, -⟩ | ⟨hreaches, -⟩ | ⟨hreaches, -⟩
          · exact hcontent
          · exact absurd hreaches hnot
          · exact absurd hreaches hnot
      rcases hrest with ⟨rfl, -, hcrash⟩ | ⟨hr, hcrash, r₂, w₂, hstore, hend⟩
      · refine ⟨hindexed₁, hunreached hfs₁ ?_⟩
        intro hreaches
        exact hreaches.2.1 (hcrash (hanswered.mpr hreaches.1))
      · rcases World.sendStorageWrite_cases hstore with
          ⟨hunhandled, rfl, e, he⟩ | ⟨hhandled, hdb₂, hbuilt₂, result, hcall, hr₂⟩
        · rcases hend with ⟨rfl, -, -⟩ | ⟨e', he', -⟩
          · refine ⟨hindexed₁, hunreached hfs₁ ?_⟩
            intro hreaches
            rw [hreaches.2.2] at hunhandled
            contradiction
          · rw [he] at he'
            contradiction
        · have hreaches : ReachesStorage script := ⟨hanswered.mp hr, hcrash, hhandled⟩
          have hindexed₂ : Indexed op w₂ := indexed_of_eq hindexed₁ hdb₂ hbuilt₂
          rw [hfs₁] at hcall
          have hothers : ∀ other, IsRawPath other → other ≠ insert.path → ∀ c,
              w.built other = some c → storageContent w₂.fs other = some c := by
            intro other hraw hne c hc
            exact content_of_spared hcall (hsettles.1 hreaches) hraw hne hc
              (hbacked other hraw c hc)
          rcases hend with ⟨rfl, -, hstored⟩ | ⟨e, he, hstored, -, rfl⟩
          · refine ⟨hindexed₂, backed_of_update (hbuilt₂.trans hbuilt₁) hothers ?_⟩
            apply content_after_store hcall hreaches hsettles
            intro e he hundone
            refine hundone.2.1 (hstored e ?_)
            rw [hr₂, he, hundone.1]
            rfl
          · rcases undo_cases hindexed₂ hundo insert.path with ⟨hindexed₃, hkept | hgone⟩
            · refine ⟨hindexed₃, ?_⟩
              refine backed_of_update (hkept.2.trans (hbuilt₂.trans hbuilt₁)) ?_ ?_
              · rw [World.sendDelete_fs]
                exact hothers
              · rw [World.sendDelete_fs]
                apply content_after_store hcall hreaches hsettles
                intro e he hundone
                exact hundone.2.2 hkept.1
            · refine ⟨hindexed₃, backed_of_removed hgone ?_⟩
              rw [World.sendDelete_fs]
              intro other hraw hne c hc
              rw [hbuilt₂, hbuilt₁, Function.update_of_ne hne] at hc
              exact hothers other hraw hne c hc

/-- A safe delete leaves every other entry with its file. -/
theorem backed_delete {op : FileOp} {w : World} {msg : FileOpDelete} {script : DeleteScript}
    (hindexed : Indexed op w) (hbacked : Backed w) (hsafe : DeleteSafe w msg script) :
    Indexed op (FileOp.delete w msg script).2 ∧ Backed (FileOp.delete w msg script).2 := by
  rcases hdelete : FileOp.delete w msg script with ⟨o, w'⟩
  change Indexed op w' ∧ Backed w'
  rcases FileOp.delete_cases hdelete with ⟨rfl, -⟩ | ⟨path, r, w₁, hpath, hsend, hrest⟩
  · exact ⟨hindexed, hbacked⟩
  · rcases sendDelete_cases hindexed hsend with ⟨hfs₁, hindexed₁, hsame | hgone⟩
    · -- The index step fails, so the request ends there.
      rcases hrest with ⟨rfl, -⟩ | ⟨hr, -⟩
      · refine ⟨hindexed₁, ?_⟩
        intro other hraw c hc
        rw [hfs₁]
        rw [hsame.1] at hc
        exact hbacked other hraw c hc
      · exact absurd hr hsame.2
    · rcases hgone with ⟨hbuilt₁, -, hdeleted, hanswered⟩
      have hgoneFrom : ∀ fs, fs = w.fs → ∀ other, IsRawPath other → other ≠ path → ∀ c,
          w.built other = some c → storageContent fs other = some c := by
        intro fs hfs other hraw _ c hc
        rw [hfs]
        exact hbacked other hraw c hc
      rcases hrest with ⟨rfl, -⟩ | ⟨hr, hcrash, r₂, hstore, -⟩
      · exact ⟨hindexed₁, backed_of_removed hbuilt₁ (hgoneFrom _ hfs₁)⟩
      · rcases World.sendStorageDelete_cases hstore with
          ⟨-, rfl, -⟩ | ⟨hhandled, hdb₂, hbuilt₂, result, hcall, -⟩
        · exact ⟨hindexed₁, backed_of_removed hbuilt₁ (hgoneFrom _ hfs₁)⟩
        · rw [hfs₁] at hcall
          refine ⟨indexed_of_eq hindexed₁ hdb₂ hbuilt₂,
            backed_of_removed (hbuilt₂.trans hbuilt₁) ?_⟩
          intro other hraw hne c hc
          apply content_kept_of_delete hcall (hbacked other hraw c hc)
          intro hremove hleads
          exact hsafe path hpath (hanswered.mp hr) hdeleted hcrash hhandled hremove hleads other
            hraw hne (by simp [hc])

/-! ## Runs -/

/-- In a run of safe requests and restarts every raw entry has its file, with the
content the entry was built from, whenever no request is running. -/
theorem entries_backed_throughout {op : FileOp} {actions : List FaultyAction}
    (hsafe : Machine.StepsMeet (faultyStep op) (FaultSafe op) fresh actions) :
    Machine.Throughout (faultyStep op) (fun w => Indexed op w ∧ EntriesBacked w) fresh
      actions := by
  refine Machine.throughout_of_stepsMeet (I := fun w => Indexed op w ∧ Backed w) ?_ ?_
    ⟨fresh_indexed op, fresh_backed⟩ hsafe
  · intro w action w' hinv hP hstep
    rcases hinv with ⟨hindexed, hbacked⟩
    cases action with
    | write msg script =>
        simp only [faultyStep] at hstep
        split at hstep <;> rename_i henabled
        · cases hstep
          exact backed_write hindexed hbacked henabled.2 hP
        · contradiction
    | delete msg script =>
        simp only [faultyStep] at hstep
        split at hstep
        · cases hstep
          exact backed_delete hindexed hbacked hP
        · contradiction
    | restart fault =>
        cases hstep
        exact restart_keeps hindexed hbacked fault
  · intro w hinv
    exact ⟨hinv.1, entriesBacked_of_backed hinv.1 hinv.2⟩

def sampleWrite : FileOpWrite :=
  ⟨"alice", .nil, none, "a.md", "x"⟩

def samplePath : String :=
  rawPath "alice" .nil "_default" "a.md"

/-- A write whose rename fails is undone; then the process is started again. -/
def undoneWrite : List FaultyAction :=
  [.write sampleWrite { WriteScript.sample with storageFault := some (.rename (.other "EIO")) },
    .restart none]

theorem entries_backed_after_undo :
    (Machine.run (faultyStep .withDefaults) fresh undoneWrite).isSome = true ∧
      Machine.Throughout (faultyStep .withDefaults)
        (fun w => Indexed .withDefaults w ∧ EntriesBacked w)
        fresh undoneWrite := by
  refine ⟨by decide +kernel, entries_backed_throughout ?_⟩
  intro w hw
  refine ⟨?_, fun _ _ => ⟨trivial, trivial⟩⟩
  intro path insert _ _ _
  have hreaches : ReachesStorage
      { WriteScript.sample with storageFault := some (.rename (.other "EIO")) } :=
    ⟨rfl, by decide, rfl⟩
  refine ⟨?_, Or.inr (Or.inr ⟨hreaches, rfl, by decide, by decide⟩)⟩
  intro _ other _ _ hbuilt
  exact absurd rfl hbuilt

/-- The process dies after the index step of a first write, and is started again. -/
def brokenWrite : List FaultyAction :=
  [.write sampleWrite { WriteScript.sample with crash := some .indexed }, .restart none]

/-- The entry of a write that dies between its two steps has no file. -/
theorem entry_without_file :
    ¬ Machine.Throughout (faultyStep .withDefaults) EntriesBacked fresh brokenWrite := by
  have hend : (Machine.run (faultyStep .withDefaults) fresh brokenWrite).map (fun w =>
      (w.db.files.rows.map FileRow.path, storageRead w.fs samplePath)) =
        some ([samplePath], .ok none) := by
    decide +kernel
  have hraw : IsRawPath samplePath :=
    ⟨"alice", .nil, none, "a.md", by decide, rfl⟩
  intro hthrough
  rcases Option.map_eq_some_iff.mp hend with ⟨w, hrun, hw⟩
  have hbacked : EntriesBacked w :=
    Machine.throughout_iff.mp hthrough brokenWrite (List.prefix_refl _) w hrun
  rw [Prod.mk.injEq] at hw
  have hmem : samplePath ∈ w.db.files.rows.map FileRow.path := by
    rw [hw.1]
    exact List.mem_singleton_self samplePath
  rcases List.mem_map.mp hmem with ⟨row, hrow, hpath⟩
  rcases hbacked row hrow (hpath ▸ hraw) with ⟨content, -, hread⟩
  rw [hpath, hw.2] at hread
  simp at hread

end World

end Memory
end MemoryHub
