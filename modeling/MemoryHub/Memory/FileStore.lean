import MemoryHub.Lib.Linearize
import MemoryHub.Memory.Manager
import MemoryHub.Memory.StoreMap

/-!
# File operations as operations of a map

Seen from outside, storage is a map from keys to contents: of all the messages of a file
operation, the one to storage reads or changes it, and whatever fails on the way, a change is
made whole or not at all.  Files with names like those of temporary files are left out of the
map.

Main results:

- Theorem `textAt_write`, `textAt_delete`, `textAt_read`: what storage does to the map.
- Theorem `prog_oneShot`: the actor of a file operation acts once.
-/

namespace MemoryHub
namespace Memory

open UnixPath FileSystem
open Pool (Silent OneShot Quiet ActsAs)
open Prog (Meets)

/-! ## The map -/

/-- An ordinary key whose file name does not end like that of a temporary file. -/
def Key.Plain (k : Key) : Prop :=
  k.Ordinary ∧ ¬ ".tmp".toList <:+ k.filename.toList

instance (k : Key) : Decidable k.Plain :=
  inferInstanceAs (Decidable (_ ∧ _))

/-- The keys of the map. -/
abbrev PlainKey : Type :=
  {k : Key // k.Plain}

namespace PlainKey

/-- The storage path of the key. -/
def path (k : PlainKey) : String :=
  k.1.path

theorem path_inj {k k' : PlainKey} : k.path = k'.path ↔ k = k' := by
  constructor
  · intro h
    apply Subtype.ext
    rw [← Key.loc_inj, ← Key.location_path k.2.1, ← Key.location_path k'.2.1]
    exact congrArg location h
  · intro h
    rw [h]

end PlainKey

/-- The contents of the files. -/
abbrev Files : Type :=
  PlainKey → Option String

/-- The files of a tree. -/
def filesOf (fs : Fs) : Files :=
  fun k => textAt fs k.1.loc

/-- What can be done to the map. -/
inductive FileAction where
  | write (k : PlainKey) (content : String)
  | read (k : PlainKey)
  | delete (k : PlainKey)

/-- What an operation of the map returns and leaves. -/
def FileAction.apply : Pool.Object Files FileAction (Option String)
  | .write k content, files => (none, Function.update files k (some content))
  | .read k, files => (files k, files)
  | .delete k, files => (none, Function.update files k none)

/-! ## Storage and the map -/

/-- A raw path has four pieces. -/
theorem IsRawPath.exists_pieces {path : String} (hraw : IsRawPath path) :
    ∃ u a p f, pieces path = [u, a, p] ++ [f] := by
  rcases hraw.exists_segments with ⟨u, a, p, f, huser, hproject, hfile, rfl⟩
  exact ⟨u, a.hyphenated, p, f,
    pieces_rawPath (username_segment huser).2.1 hproject.no_slash hfile⟩

/-- The temporary file of a raw path is no file of the map. -/
theorem ne_tempLocation {path : String} (hraw : IsRawPath path) (k : PlainKey) :
    k.1.loc ≠ tempLocation path := by
  rcases hraw.exists_pieces with ⟨u, a, p, f, hpieces⟩
  intro heq
  rw [tempLocation, tempPath, withExtension, hpieces] at heq
  have hlen : k.1.loc.length = 4 := rfl
  cases hname : fileName ([u, a, p] ++ [f]) with
  | none =>
      -- The last piece is no name, so the path ends above the fourth level.
      rw [hname] at heq
      simp only at heq
      have hnot : ¬ IsName f := by
        intro hf
        rw [fileName_snoc hf] at hname
        contradiction
      have hshort : (Fs.lexical [] ([u, a, p] ++ [f])).length < 0 + 4 :=
        Fs.length_lexical_lt (List.mem_append_right _ (List.mem_singleton.mpr rfl)) hnot
      rw [← heq, hlen] at hshort
      omega
  | some name =>
      rw [hname] at heq
      simp only at heq
      have htmp : ".tmp".toList <:+ (fileStem name ++ "." ++ "tmp").toList := by
        refine ⟨(fileStem name).toList, ?_⟩
        rw [String.toList_append, String.toList_append, List.append_assoc]
        rfl
      have hfile : IsName (fileStem name ++ "." ++ "tmp") :=
        isName_of_length (Nat.le_trans (by decide) htmp.length_le)
      rw [Fs.lexical_append, Fs.lexical_cons_name hfile] at heq
      have hhead : k.1.filename = fileStem name ++ "." ++ "tmp" := (List.cons.inj heq).1
      exact k.2.2 (hhead ▸ htmp)

/-- Making a folder changes none of the files. -/
theorem filesOf_withFolder {path : String} (hraw : IsRawPath path) (fs : Fs)
    (fault : Option StorageFault) : filesOf (withFolder fs path fault) = filesOf fs := by
  rcases hraw.exists_pieces with ⟨u, a, p, f, hpieces⟩
  have hdepth : (parent (pieces path)).length < 4 := by
    have hkeep : parent (pieces path) <+: (pieces path).dropLast := parent_prefix _
    have hlen := hkeep.length_le
    rw [hpieces, List.dropLast_concat] at hlen
    rw [hpieces]
    exact Nat.lt_succ_of_le hlen
  funext k
  have hlen : k.1.loc.length = 4 := rfl
  unfold filesOf textAt
  rw [node_withFolder_of_length (hlen ▸ hdepth)]

/-- A file of the map lies at a raw path only if the path is that of its key. -/
theorem loc_eq_location {path : String} (hraw : IsRawPath path) {k : PlainKey} :
    k.1.loc = location path ↔ path = k.path := by
  constructor
  · intro h
    exact Key.path_of_location hraw h.symm
  · rintro rfl
    exact (Key.location_path k.2.1).symm

/-- A write that succeeds changes the file at its path and no other; one that fails changes none,
though it may leave a folder or a temporary file. -/
theorem textAt_write {fs fs' : Fs} {path content : String} {fault : Option StorageFault}
    {r : Except StorageError Unit} (hraw : IsRawPath path)
    (h : storageWrite fs path content fault = (r, fs')) (k : PlainKey) :
    filesOf fs' k = if r = .ok () ∧ path = k.path then some content else filesOf fs k := by
  have hfolder := congrFun (filesOf_withFolder hraw fs fault) k
  rcases storageWrite_cases h with ⟨⟨e, rfl⟩, heq | ⟨-, -, left, hupdate⟩⟩ |
    ⟨rfl, -, -, -, -, hnodes⟩
  · rw [if_neg (by simp), heq, hfolder]
  · rw [if_neg (by simp), ← hfolder]
    unfold filesOf textAt
    rw [hupdate, Function.update_of_ne (ne_tempLocation hraw k)]
  · rw [← hfolder]
    unfold filesOf textAt
    rw [hnodes, if_neg (ne_tempLocation hraw k)]
    by_cases hpath : path = k.path
    · rw [if_pos ((loc_eq_location hraw).mpr hpath), if_pos ⟨rfl, hpath⟩]
    · rw [if_neg (mt (loc_eq_location hraw).mp hpath), if_neg (fun hboth => hpath hboth.2)]

/-- A read of a file of the map that succeeds returns what the map holds. -/
theorem textAt_read {fs : Fs} {k : PlainKey} {content : Option String}
    (h : storageRead fs k.path = .ok content) : filesOf fs k = content := by
  have hloc : location k.path = k.1.loc := Key.location_path k.2.1
  have hcontent : storageContent fs k.path = content := by
    rw [storageContent, h]
  cases content with
  | some text =>
      have hnode := (storageContent_eq_some.mp hcontent).2
      rw [hloc] at hnode
      unfold filesOf textAt
      rw [hnode]
  | none =>
      unfold filesOf textAt
      split <;> rename_i text hnode
      · -- A file stands in a folder, so its path leads there.
        cases text with
        | none => rfl
        | some text =>
            have hagent := agentId_segment k.1.agentId
            have hthere : fs.node k.1.loc ≠ none := by
              rw [hnode]
              simp
            have hfolder := fs.parent_dir k.1.filename _ hthere
            have hnames : ∀ p ∈ [k.1.username, k.1.agentId.hyphenated, k.1.project], IsName p := by
              simp [k.2.1.1.1, hagent.1, k.2.1.2.1.1]
            have hnul : Fs.hasNul ([k.1.username, k.1.agentId.hyphenated, k.1.project] ++
                [k.1.filename]) = false := by
              simp [Fs.hasNul, k.2.1.1.2.2, k.2.1.2.1.2.2, k.2.1.2.2.2.2, hagent.2.2]
            have hlocate := Fs.locate_in_dir hnames k.2.1.2.2.1 hnul hfolder
            rw [List.cons_append, List.cons_append, List.cons_append, List.nil_append,
              ← Key.pieces, ← Key.pieces_path k.2.1] at hlocate
            have hsome := storageContent_eq_some.mpr ⟨⟨_, _, hlocate⟩, hloc ▸ hnode⟩
            exact absurd (hcontent.symm.trans hsome) (by simp)
      · rfl

/-- A delete that succeeds leaves no file at its path and changes no other; one that fails changes
none. -/
theorem textAt_delete {fs fs' : Fs} {path : String} {fault : Option StorageFault}
    {r : Except StorageError Unit} (hraw : IsRawPath path)
    (h : storageDelete fs path fault = (r, fs')) (k : PlainKey) :
    filesOf fs' k = if r = .ok () ∧ path = k.path then none else filesOf fs k := by
  rcases storageDelete_cases h with ⟨⟨e, rfl⟩, rfl⟩ | ⟨rfl, rfl, hread⟩ | ⟨rfl, -, -, -, hupdate⟩
  · rw [if_neg (by simp)]
  · split <;> rename_i hpath
    · rcases hpath with ⟨-, rfl⟩
      exact textAt_read hread
    · rfl
  · unfold filesOf textAt
    rw [hupdate]
    by_cases hpath : path = k.path
    · rw [(loc_eq_location hraw).mpr hpath, Function.update_self, if_pos ⟨rfl, hpath⟩]
    · rw [Function.update_of_ne (mt (loc_eq_location hraw).mp hpath),
        if_neg (fun hboth => hpath hboth.2)]

/-- The files with one path written or taken away. -/
def setPath (files : Files) (path : String) (content : Option String) : Files :=
  fun k => if path = k.path then content else files k

theorem setPath_path (files : Files) (k : PlainKey) (content : Option String) :
    setPath files k.path content = Function.update files k content := by
  funext k'
  unfold setPath
  rw [Function.update_apply]
  by_cases hk : k' = k
  · rw [if_pos (PlainKey.path_inj.mpr hk.symm), if_pos hk]
  · rw [if_neg (fun hpath => hk (PlainKey.path_inj.mp hpath).symm), if_neg hk]

/-- The path of no key. -/
theorem setPath_of_ne {path : String} (h : ∀ k : PlainKey, path ≠ k.path) (files : Files)
    (content : Option String) : setPath files path content = files := by
  funext k
  exact if_neg (h k)

/-- A message to write changes nothing and is not answered with success, or is carried out, and
answered so unless the answer is lost. -/
theorem sendStorageWrite_files {w w' : World} {d : Delivery} {path content : String}
    {fault : Option StorageFault} {r : Except MemoryError (Except StorageError Unit)}
    (hraw : IsRawPath path) (h : w.sendStorageWrite d path content fault = (r, w')) :
    (filesOf w'.fs = filesOf w.fs ∧ r ≠ .ok (.ok ())) ∨
      (filesOf w'.fs = setPath (filesOf w.fs) path (some content) ∧
        (r = .ok (.ok ()) ∨ r = .error .recvError)) := by
  rcases World.sendStorageWrite_cases h with ⟨-, rfl, e, rfl⟩ | ⟨hd, -, -, result, hcall, hr⟩
  · exact Or.inl ⟨rfl, by simp⟩
  · have hfiles := textAt_write hraw hcall
    cases result with
    | error e =>
        refine Or.inl ⟨funext fun k => (hfiles k).trans (if_neg (by simp)), ?_⟩
        rw [hr]
        cases d <;> simp [Delivery.receive]
    | ok _ =>
        refine Or.inr ⟨funext fun k => (hfiles k).trans ?_, ?_⟩
        · simp only [true_and, setPath]
        · rw [hr]
          cases d with
          | unsent => cases hd
          | dropped => cases hd
          | unanswered => exact Or.inr rfl
          | answered => exact Or.inl rfl

/-- The same of a message to delete. -/
theorem sendStorageDelete_files {w w' : World} {d : Delivery} {path : String}
    {fault : Option StorageFault} {r : Except MemoryError Unit} (hraw : IsRawPath path)
    (h : w.sendStorageDelete d path fault = (r, w')) :
    (filesOf w'.fs = filesOf w.fs ∧ r ≠ .ok ()) ∨
      (filesOf w'.fs = setPath (filesOf w.fs) path none ∧
        (r = .ok () ∨ r = .error .recvError)) := by
  unfold World.sendStorageDelete at h
  rcases hcall : storageDelete w.fs path fault with ⟨result, fs⟩
  rw [hcall] at h
  have hfiles := textAt_delete hraw hcall
  split at h <;> rename_i hd
  · cases h
    cases result with
    | error e =>
        refine Or.inl ⟨funext fun k => (hfiles k).trans (if_neg (by simp)), ?_⟩
        intro hr
        cases (propagate_receive_eq_ok.mp hr).2
    | ok _ =>
        refine Or.inr ⟨funext fun k => (hfiles k).trans ?_, ?_⟩
        · simp only [true_and, setPath]
        · cases d with
          | unsent => exact absurd hd (by decide)
          | dropped => exact absurd hd (by decide)
          | unanswered => exact Or.inr rfl
          | answered => exact Or.inl rfl
  · cases h
    refine Or.inl ⟨rfl, ?_⟩
    intro hr
    exact hd (handled_of_propagate hr)

/-! ## Messages -/

/-- A message asks for an operation of the map. -/
inductive MemoryMessage.Asks : MemoryMessage → FileAction → Prop where
  | write {msg : FileOpWrite} {script : WriteScript} {k : PlainKey}
      (h : getRawPath msg.username msg.agentId msg.project msg.filename = .ok k.path) :
      Asks (.write msg script) (.write k msg.content)
  | read {msg : FileOpRead} {storage : Delivery} {k : PlainKey}
      (h : getRawPath msg.username msg.agentId msg.project msg.filename = .ok k.path) :
      Asks (.read msg storage) (.read k)
  | delete {msg : FileOpDelete} {script : DeleteScript} {k : PlainKey}
      (h : getRawPath msg.username msg.agentId msg.project msg.filename = .ok k.path) :
      Asks (.delete msg script) (.delete k)

/-- A reply is true of what has been done.  Success of a change, and what a read returns, say
that the operation was applied, and a refusal that it was not; any other failure leaves it
open. -/
def MemoryMessage.Fits (message : MemoryMessage) (done : Option (FileAction × Option String)) :
    MemoryReply → Prop
  | .changed (.ok ()) _ => (∃ op, message.Asks op) → done ≠ none
  | .changed (.error (.invalidProject _)) _ => done = none
  | .content (.ok content) => (∃ op, message.Asks op) → ∃ op, done = some (op, content)
  | .content (.error (.invalidProject _)) => done = none
  | .found _ => done = none
  | _ => True

/-- The files the actors hold. -/
def filesHeld : Pool.Holds World Files :=
  ⟨fun _ => True, fun w => filesOf w.fs⟩

section

variable {ok : ∀ c : ActorCall, c.Response → Prop} {op : FileOp}

/-- A message that leaves the tree as it is. -/
theorem silent_of_fs {c : ActorCall} (h : ∀ w, (World.answer c w).2.fs = w.fs) :
    Silent World.answer filesHeld c :=
  fun w _ => ⟨trivial, congrArg filesOf (h w)⟩

/-- The errors of a message and of its receiver. -/
theorem propagate_receive_eq_error {ε α : Type} {wrap : ε → MemoryError} {d : Delivery}
    {reply : Except ε α} {e : MemoryError} (h : propagate wrap (d.receive reply) = .error e) :
    e = .sendError ∨ e = .recvError ∨ ∃ e', e = wrap e' := by
  cases d with
  | unsent =>
      cases h
      exact Or.inl rfl
  | dropped =>
      cases h
      exact Or.inr (Or.inl rfl)
  | unanswered =>
      cases h
      exact Or.inr (Or.inl rfl)
  | answered =>
      cases reply with
      | ok a => cases h
      | error e' =>
          cases h
          exact Or.inr (Or.inr ⟨e', rfl⟩)

/-- Nothing applied is a true reply to whatever fails. -/
theorem MemoryMessage.fits_none (message : MemoryMessage) (e : MemoryError)
    (notified : Option FileChanged) : message.Fits none (.changed (.error e) notified) := by
  cases e <;> first | rfl | trivial

theorem MemoryMessage.fits_none_content (message : MemoryMessage) (e : MemoryError) :
    message.Fits none (.content (.error e)) := by
  cases e <;> first | rfl | trivial

/-- A write acts with the message to storage. -/
theorem writeProg_oneShot {msg : FileOpWrite} {script : WriteScript}
    (hvalid : Http.validateUsername msg.username = .ok ()) :
    OneShot World.answer filesHeld FileAction.apply ok (MemoryMessage.write msg script).Asks
      (fun done reply => (MemoryMessage.write msg script).Fits done (.changed reply.1 reply.2))
      (op.writeProg msg script) := by
  unfold FileOp.writeProg
  cases hpath : getRawPath msg.username msg.agentId msg.project msg.filename with
  | error e => exact MemoryMessage.fits_none _ e none
  | ok path =>
      simp only
      cases op.buildInsert path msg.content script.embed script.response with
      | error e => exact MemoryMessage.fits_none _ e none
      | ok insert =>
          have hraw : IsRawPath path := ⟨_, _, _, _, hvalid, hpath⟩
          refine Or.inl ⟨silent_of_fs fun w => w.sendInsert_fs .., ?_⟩
          intro r _
          cases r with
          | error e => exact MemoryMessage.fits_none _ e none
          | ok _ =>
              by_cases hplain : ∃ k : PlainKey, path = k.path
              · rcases hplain with ⟨k, rfl⟩
                refine Or.inr ⟨_, .write hpath, ?_⟩
                intro w _
                refine ⟨trivial, ?_⟩
                rcases hsend : World.answer (.storageWrite script.storage k.path msg.content
                  script.storageFault) w with ⟨r, w'⟩
                rcases sendStorageWrite_files hraw hsend with ⟨hfiles, hr⟩ | ⟨hfiles, rfl | rfl⟩
                · refine Or.inl ⟨hfiles, ?_⟩
                  cases r with
                  | error e => exact MemoryMessage.fits_none _ e none
                  | ok stored =>
                      cases stored with
                      | ok _ => exact absurd rfl hr
                      | error e =>
                          exact ⟨silent_of_fs fun w => w.sendDelete_fs .., fun _ _ => trivial⟩
                · exact Or.inr ⟨hfiles.trans (setPath_path _ k _), fun _ => by simp⟩
                · exact Or.inr ⟨hfiles.trans (setPath_path _ k _), trivial⟩
              · -- The path is that of no file of the map.
                have hne : ∀ k : PlainKey, path ≠ k.path := fun k hk => hplain ⟨k, hk⟩
                refine Or.inl ⟨?_, ?_⟩
                · intro w _
                  refine ⟨trivial, ?_⟩
                  rcases hsend : World.answer (.storageWrite script.storage path msg.content
                    script.storageFault) w with ⟨r, w'⟩
                  rcases sendStorageWrite_files hraw hsend with ⟨hfiles, -⟩ | ⟨hfiles, -⟩
                  · exact hfiles
                  · exact hfiles.trans (setPath_of_ne hne _ _)
                · intro r _
                  cases r with
                  | error e => exact MemoryMessage.fits_none _ e none
                  | ok stored =>
                      cases stored with
                      | error e =>
                          exact OneShot.of_meets
                            ⟨silent_of_fs fun w => w.sendDelete_fs .., fun _ _ => trivial⟩
                      | ok _ =>
                          rintro ⟨op', hasks⟩
                          cases hasks with
                          | write hk => exact absurd (Except.ok.inj (hpath.symm.trans hk)) (hne _)

/-- So does a delete. -/
theorem deleteProg_oneShot {msg : FileOpDelete} {script : DeleteScript}
    (hvalid : Http.validateUsername msg.username = .ok ()) :
    OneShot World.answer filesHeld FileAction.apply ok (MemoryMessage.delete msg script).Asks
      (fun done reply => (MemoryMessage.delete msg script).Fits done (.changed reply.1 reply.2))
      (FileOp.deleteProg msg script) := by
  unfold FileOp.deleteProg
  cases hpath : getRawPath msg.username msg.agentId msg.project msg.filename with
  | error e => exact MemoryMessage.fits_none _ e none
  | ok path =>
      have hraw : IsRawPath path := ⟨_, _, _, _, hvalid, hpath⟩
      refine Or.inl ⟨silent_of_fs fun w => w.sendDelete_fs .., ?_⟩
      intro r _
      cases r with
      | error e => exact MemoryMessage.fits_none _ e none
      | ok _ =>
          by_cases hplain : ∃ k : PlainKey, path = k.path
          · rcases hplain with ⟨k, rfl⟩
            refine Or.inr ⟨_, .delete hpath, ?_⟩
            intro w _
            refine ⟨trivial, ?_⟩
            rcases hsend : World.answer (.storageDelete script.storage k.path script.storageFault) w
              with ⟨r, w'⟩
            rcases sendStorageDelete_files hraw hsend with ⟨hfiles, hr⟩ | ⟨hfiles, rfl | rfl⟩
            · refine Or.inl ⟨hfiles, ?_⟩
              cases r with
              | error e => exact MemoryMessage.fits_none _ e none
              | ok _ => exact absurd rfl hr
            · exact Or.inr ⟨hfiles.trans (setPath_path _ k _), fun _ => by simp⟩
            · exact Or.inr ⟨hfiles.trans (setPath_path _ k _), trivial⟩
          · have hne : ∀ k : PlainKey, path ≠ k.path := fun k hk => hplain ⟨k, hk⟩
            refine Or.inl ⟨?_, ?_⟩
            · intro w _
              refine ⟨trivial, ?_⟩
              rcases hsend : World.answer (.storageDelete script.storage path script.storageFault) w
                with ⟨r, w'⟩
              rcases sendStorageDelete_files hraw hsend with ⟨hfiles, -⟩ | ⟨hfiles, -⟩
              · exact hfiles
              · exact hfiles.trans (setPath_of_ne hne _ _)
            · intro r _
              cases r with
              | error e => exact MemoryMessage.fits_none _ e none
              | ok _ =>
                  rintro ⟨op', hasks⟩
                  cases hasks with
                  | delete hk => exact absurd (Except.ok.inj (hpath.symm.trans hk)) (hne _)

/-- A read acts with its only message. -/
theorem readProg_oneShot {msg : FileOpRead} {storage : Delivery} :
    OneShot World.answer filesHeld FileAction.apply ok (MemoryMessage.read msg storage).Asks
      (fun done reply => (MemoryMessage.read msg storage).Fits done (.content reply))
      (FileOp.readProg msg storage) := by
  unfold FileOp.readProg
  cases hpath : getRawPath msg.username msg.agentId msg.project msg.filename with
  | error e => exact MemoryMessage.fits_none_content _ e
  | ok path =>
      by_cases hplain : ∃ k : PlainKey, path = k.path
      · rcases hplain with ⟨k, rfl⟩
        refine OneShot.perform (.read hpath) ?_
        intro w _
        refine ⟨trivial, Or.inr ⟨rfl, ?_⟩⟩
        cases hread : (World.answer (.storageRead storage k.path) w).1 with
        | error e =>
            rcases propagate_receive_eq_error hread with rfl | rfl | ⟨e', rfl⟩
            · exact trivial
            · exact trivial
            · exact trivial
        | ok content =>
            intro _
            have hstored := (propagate_receive_eq_ok.mp hread).2
            refine ⟨.read k, ?_⟩
            rw [← textAt_read hstored]
            rfl
      · refine Or.inl ⟨silent_of_fs fun _ => rfl, ?_⟩
        intro r _
        cases r with
        | error e => exact MemoryMessage.fits_none_content _ e
        | ok content =>
            rintro ⟨op', hasks⟩
            cases hasks with
            | read hk => exact absurd ⟨_, Except.ok.inj (hpath.symm.trans hk)⟩ hplain

/-- The actor of a message of a known user acts at most once, as the message asks, and its reply
is true. -/
theorem prog_oneShot (mm : MemoryManager) {message : MemoryMessage}
    (hvalid : Http.validateUsername message.username = .ok ()) :
    OneShot World.answer filesHeld FileAction.apply ok message.Asks message.Fits
      (message.prog mm) := by
  cases message with
  | write msg script => exact (writeProg_oneShot hvalid).bind fun _ _ h => h
  | read msg storage => exact readProg_oneShot.bind fun _ _ h => h
  | delete msg script => exact (deleteProg_oneShot hvalid).bind fun _ _ h => h
  | search msg script =>
      refine OneShot.of_meets ((mm.searchOp.prog_looksUp msg script).bind ?_ |>.mono
        (fun _ _ _ => trivial) ?_ fun _ h => h)
      · intro result _
        exact rfl
      · intro c hc
        exact silent_of_fs fun w => congrArg World.fs (hc.unchanged w)

end

end Memory
end MemoryHub
