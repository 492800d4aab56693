import MemoryHub.Memory.StoreMap

/-!
# Interleaved file operations

Several requests run at once.  Each does its index step, waits for the reply, and does
its storage step; index and storage handle one message at a time, and the steps of
different requests come in any order.  What the index holds for a path is left by the
last request to do its index step there, and what storage holds by the last to do its
storage step, and these need not be the same request.

Main results:

- Theorem `write_of_steps`, `delete_of_steps`: a request whose two steps follow each
  other is the handler.
- Theorem `agree_iff_lastStepsAlike`: once all requests have finished, index and storage
  agree exactly if on every path the last index step and the last storage step leave
  the same.
- Theorem `steps_cross`: a delete and a write of one file whose steps cross.
-/

namespace MemoryHub
namespace Memory

open FileSystem Llm

/-! ## Requests and their steps -/

/-- A request that changes the store. -/
inductive FileRequest where
  | write (msg : FileOpWrite)
  | delete (msg : FileOpDelete)
deriving DecidableEq, Repr

/-- The raw path of a known user. -/
def knownPath (username : String) (agentId : Uuid) (project : Option String)
    (filename : String) : Option String :=
  if Http.validateUsername username = .ok () then
    (getRawPath username agentId project filename).toOption
  else none

theorem knownPath_eq_some {username filename : String} {agentId : Uuid}
    {project : Option String} {path : String}
    (h : knownPath username agentId project filename = some path) :
    Http.validateUsername username = .ok () ∧
      getRawPath username agentId project filename = .ok path := by
  unfold knownPath at h
  split at h <;> rename_i hvalid
  · refine ⟨hvalid, ?_⟩
    cases hget : getRawPath username agentId project filename with
    | error e => simp [hget, Except.toOption] at h
    | ok p =>
        simp only [hget, Except.toOption, Option.some.injEq] at h
        rw [h]
  · contradiction

namespace FileRequest

/-- The path a request is about. -/
def path : FileRequest → Option String
  | .write msg => knownPath msg.username msg.agentId msg.project msg.filename
  | .delete msg => knownPath msg.username msg.agentId msg.project msg.filename

/-- What a request leaves at its path. -/
def leaves : FileRequest → Option String
  | .write msg => some msg.content
  | .delete _ => none

/-- The first step: send the index message and have it answered with success. -/
def indexStep (op : FileOp) (w : World) (response : Except LlmError EmbedResult) (now : Int)
    (r : FileRequest) : Option World :=
  match r.path with
  | none => none
  | some path =>
      match r with
      | .write msg =>
          match op.buildInsert path msg.content .answered response with
          | .error _ => none
          | .ok insert =>
              match w.sendInsert .answered insert msg.content now none with
              | (.ok (), w') => some w'
              | (.error _, _) => none
      | .delete _ =>
          match w.sendDelete .answered path none with
          | (.ok (), w') => some w'
          | (.error _, _) => none

/-- The second step: send the storage message and have it answered with success. -/
def storeStep (w : World) (r : FileRequest) : Option World :=
  match r.path with
  | none => none
  | some path =>
      match r with
      | .write msg =>
          match w.sendStorageWrite .answered path msg.content none with
          | (.ok (.ok ()), w') => some w'
          | _ => none
      | .delete _ =>
          match w.sendStorageDelete .answered path none with
          | (.ok (), w') => some w'
          | (.error _, _) => none

theorem isRawPath_of_path {r : FileRequest} {path : String} (h : r.path = some path) :
    IsRawPath path := by
  cases r with
  | write msg =>
      rcases knownPath_eq_some h with ⟨hvalid, hpath⟩
      exact ⟨msg.username, msg.agentId, msg.project, msg.filename, hvalid, hpath⟩
  | delete msg =>
      rcases knownPath_eq_some h with ⟨hvalid, hpath⟩
      exact ⟨msg.username, msg.agentId, msg.project, msg.filename, hvalid, hpath⟩

/-- An index step replaces what the index holds for the request's path. -/
theorem indexStep_eq_some {op : FileOp} {w w' : World} {response : Except LlmError EmbedResult}
    {now : Int} {r : FileRequest} (hindexed : Indexed op w)
    (h : r.indexStep op w response now = some w') :
    ∃ path, r.path = some path ∧ w'.fs = w.fs ∧ Indexed op w' ∧
      w'.built = Function.update w.built path r.leaves := by
  unfold indexStep at h
  cases hpath : r.path with
  | none => simp [hpath] at h
  | some path =>
      refine ⟨path, rfl, ?_⟩
      cases r with
      | write msg =>
          simp only [hpath] at h
          cases hbuild : op.buildInsert path msg.content .answered response with
          | error e => simp [hbuild] at h
          | ok insert =>
              rcases FileOp.buildInsert_eq_ok hbuild with ⟨rfl, hfrom⟩
              simp only [hbuild] at h
              split at h <;> rename_i hsend
              · cases h
                rcases sendInsert_cases hindexed hfrom hsend with
                  ⟨hfs, hindexed', ⟨-, hr⟩ | ⟨hbuilt, -⟩⟩
                · exact absurd rfl hr
                · exact ⟨hfs, hindexed', hbuilt⟩
              · exact absurd h (by simp)
      | delete msg =>
          simp only [hpath] at h
          split at h <;> rename_i hsend
          · cases h
            rcases sendDelete_cases hindexed hsend with ⟨hfs, hindexed', ⟨-, hr⟩ | ⟨hbuilt, -⟩⟩
            · exact absurd rfl hr
            · exact ⟨hfs, hindexed', hbuilt⟩
          · exact absurd h (by simp)

/-- A storage step of this request changes what no other path holds.  A write may
meet another path at its target (if that holds the same content already) and makes
its temporary file; its new folder must not make another path lead to a file. -/
def Spares (fs : Fs) : FileRequest → String → Prop
  | .write msg, path =>
      ∀ other, IsRawPath other → other ≠ path → LeadsTo (withFolder fs path none) other →
        (location other = location path → storageContent fs other = some msg.content) ∧
        (location other ≠ location path → ∀ text,
          fs.node (location other) = some (.file (some text)) →
            (LeadsTo fs other ↔ location other ≠ tempLocation path))
  | .delete _, path =>
      ∀ other, IsRawPath other → other ≠ path → storageContent fs other ≠ none →
        LeadsTo fs path → location other ≠ location path

/-- A write that spares another path leaves what it holds. -/
theorem content_eq_of_write {fs fs' : Fs} {msg : FileOpWrite} {path : String}
    (hwrite : storageWrite fs path msg.content none = (.ok (), fs'))
    (hspares : (FileRequest.write msg).Spares fs path) {other : String}
    (hraw : IsRawPath other) (hne : other ≠ path) :
    storageContent fs' other = storageContent fs other := by
  rcases storageWrite_cases hwrite with ⟨⟨e, he⟩, -⟩ | ⟨-, -, -, htemp, htarget, hnodes⟩
  · contradiction
  · have hfolder : Fs.Extends fs (withFolder fs path none) := withFolder_extends fs path none
    have hforth : Fs.KeepsDirs fs fs' := storageWrite_keepsDirs hwrite
    have hback : Fs.KeepsDirs fs' (withFolder fs path none) := by
      intro l hl
      rw [hnodes l] at hl
      split at hl
      · simp at hl
      · split at hl
        · exact absurd hl (by simp)
        · exact hl
    by_cases hleads : LeadsTo (withFolder fs path none) other
    · rcases hspares other hraw hne hleads with ⟨hsame, hother⟩
      by_cases hloc : location other = location path
      · have hcontent := hsame hloc
        have hleads' := (storageContent_eq_some.mp hcontent).1.mono hforth
        rw [hcontent]
        exact storageContent_eq_some.mpr ⟨hleads', by rw [hnodes, if_pos hloc]⟩
      · apply Option.ext
        intro c
        rw [storageContent_eq_some, storageContent_eq_some]
        constructor
        · intro hc
          rcases hc with ⟨-, hnode⟩
          rw [hnodes, if_neg hloc] at hnode
          split at hnode <;> rename_i htmp
          · exact absurd hnode (by simp)
          · have hbefore := hfolder.file_iff.mp hnode
            exact ⟨(hother hloc c hbefore).mpr htmp, hbefore⟩
        · intro hc
          rcases hc with ⟨hleads₀, hnode⟩
          have htmp := (hother hloc c hnode).mp hleads₀
          refine ⟨hleads₀.mono hforth, ?_⟩
          rw [hnodes, if_neg hloc, if_neg htmp, hfolder.file_iff.mpr hnode]
    · have hnone : ∀ fs₁ : Fs, Fs.KeepsDirs fs₁ (withFolder fs path none) →
          storageContent fs₁ other = none := by
        intro fs₁ hkeep
        apply Option.eq_none_iff_forall_ne_some.mpr
        intro c hc
        exact hleads ((storageContent_eq_some.mp hc).1.mono hkeep)
      rw [hnone fs' hback, hnone fs hfolder.keepsDirs]

/-- A delete that spares another path leaves what it holds. -/
theorem content_eq_of_delete {fs fs' : Fs} {msg : FileOpDelete} {path : String}
    (hdelete : storageDelete fs path none = (.ok (), fs'))
    (hspares : (FileRequest.delete msg).Spares fs path) {other : String}
    (hraw : IsRawPath other) (hne : other ≠ path) :
    storageContent fs' other = storageContent fs other := by
  cases hcontent : storageContent fs other with
  | some c =>
      apply content_kept_of_delete hdelete hcontent
      intro _ hleads
      exact hspares other hraw hne (by simp [hcontent]) hleads
  | none =>
      rcases storageDelete_cases hdelete with
        ⟨⟨e, he⟩, -⟩ | ⟨-, rfl, -⟩ | ⟨-, -, -, -, hupdate⟩
      · contradiction
      · exact hcontent
      · apply Option.eq_none_iff_forall_ne_some.mpr
        intro c hc
        rcases storageContent_eq_some.mp hc with ⟨hleads', hnode⟩
        have hloc : location other ≠ location path := by
          intro heq
          rw [hupdate, heq, Function.update_self] at hnode
          contradiction
        have hback : Fs.KeepsDirs fs' fs := by
          intro l hl
          rw [hupdate, Function.update_apply] at hl
          split at hl
          · exact absurd hl (by simp)
          · exact hl
        rw [hupdate, Function.update_of_ne hloc] at hnode
        have hbefore := storageContent_eq_some.mpr ⟨hleads'.mono hback, hnode⟩
        rw [hcontent] at hbefore
        contradiction

/-- A storage step replaces what storage holds at the request's path, and nothing else
if it spares the others. -/
theorem storeStep_eq_some {w w' : World} {r : FileRequest} {path : String}
    (hpath : r.path = some path) (hspares : r.Spares w.fs path) (h : r.storeStep w = some w') :
    w'.db = w.db ∧ w'.built = w.built ∧ ∀ other, IsRawPath other →
      storageContent w'.fs other =
        Function.update (storageContent w.fs) path r.leaves other := by
  unfold storeStep at h
  cases r with
  | write msg =>
      simp only [hpath] at h
      split at h <;> rename_i hsend
      · cases h
        rcases World.sendStorageWrite_cases hsend with
          ⟨-, -, e, he⟩ | ⟨-, hdb, hbuilt, result, hcall, hr⟩
        · contradiction
        · have hresult : result = .ok () := by simpa [Delivery.receive] using hr.symm
          rw [hresult] at hcall
          refine ⟨hdb, hbuilt, ?_⟩
          intro other hraw
          by_cases hother : other = path
          · rw [hother, Function.update_self]
            exact content_of_write hcall
          · rw [Function.update_of_ne hother]
            exact content_eq_of_write hcall hspares hraw hother
      · exact absurd h (by simp)
  | delete msg =>
      simp only [hpath] at h
      split at h <;> rename_i hsend
      · cases h
        rcases World.sendStorageDelete_cases hsend with
          ⟨-, -, hr⟩ | ⟨-, hdb, hbuilt, result, hcall, hr⟩
        · exact absurd rfl hr
        · rw [hr rfl] at hcall
          refine ⟨hdb, hbuilt, ?_⟩
          intro other hraw
          by_cases hother : other = path
          · rw [hother, Function.update_self]
            exact content_of_deleted hcall
          · rw [Function.update_of_ne hother]
            exact content_eq_of_delete hcall hspares hraw hother
      · exact absurd h (by simp)

end FileRequest

/-- A write whose two steps follow each other is the handler. -/
theorem write_of_steps {op : FileOp} {w w₁ w₂ : World} {msg : FileOpWrite}
    {response : Except LlmError EmbedResult} {now : Int} {path : String}
    (hpath : (FileRequest.write msg).path = some path)
    (hindex : (FileRequest.write msg).indexStep op w response now = some w₁)
    (hstore : (FileRequest.write msg).storeStep w₁ = some w₂) :
    op.write w msg (.answered response now) =
      (.replied (.ok ()) (some ⟨msg.username, msg.agentId, path⟩), w₂) := by
  have hraw := (knownPath_eq_some hpath).2
  simp only [FileRequest.indexStep, hpath] at hindex
  simp only [FileRequest.storeStep, hpath] at hstore
  cases hbuild : op.buildInsert path msg.content .answered response with
  | error e => simp [hbuild] at hindex
  | ok insert =>
      simp only [hbuild] at hindex
      split at hindex <;> rename_i hsend
      · cases hindex
        split at hstore <;> rename_i hwrite
        · cases hstore
          simp [FileOp.write, hraw, WriteScript.answered, hbuild, hsend, hwrite]
        · exact absurd hstore (by simp)
      · exact absurd hindex (by simp)

/-- A delete whose two steps follow each other is the handler. -/
theorem delete_of_steps {op : FileOp} {w w₁ w₂ : World} {msg : FileOpDelete}
    {response : Except LlmError EmbedResult} {now : Int} {path : String}
    (hpath : (FileRequest.delete msg).path = some path)
    (hindex : (FileRequest.delete msg).indexStep op w response now = some w₁)
    (hstore : (FileRequest.delete msg).storeStep w₁ = some w₂) :
    FileOp.delete w msg .answered =
      (.replied (.ok ()) (some ⟨msg.username, msg.agentId, path⟩), w₂) := by
  have hraw := (knownPath_eq_some hpath).2
  simp only [FileRequest.indexStep, hpath] at hindex
  simp only [FileRequest.storeStep, hpath] at hstore
  split at hindex <;> rename_i hsend
  · cases hindex
    split at hstore <;> rename_i hdelete
    · cases hstore
      simp [FileOp.delete, hraw, DeleteScript.answered, hsend, hdelete]
    · exact absurd hstore (by simp)
  · exact absurd hindex (by simp)

/-! ## Interleavings -/

/-- How far a request has got. -/
inductive Phase where
  | waiting
  | indexed
  | finished
deriving DecidableEq, Repr

/-- The actors' state while requests run.  Requests go by their number in the list;
who last did a step on a path is recorded. -/
structure Requests where
  world : World
  phase : Nat → Phase
  lastIndexed : String → Option Nat
  lastStored : String → Option Nat

/-- One request takes its next step. -/
inductive RequestMove where
  | index (i : Nat) (response : Except LlmError EmbedResult) (now : Int)
  | store (i : Nat)

namespace Requests

/-- All requests are still to come. -/
def start (w : World) : Requests :=
  ⟨w, fun _ => .waiting, fun _ => none, fun _ => none⟩

/-- What the `i`-th request leaves at its path. -/
def leaves (requests : List FileRequest) (i : Nat) : Option String :=
  (requests[i]?).bind FileRequest.leaves

/-- The path of the `i`-th request. -/
def pathOf (requests : List FileRequest) (i : Nat) : Option String :=
  (requests[i]?).bind FileRequest.path

/-- A step that succeeds, of a request whose turn it is. -/
def step (op : FileOp) (requests : List FileRequest) (s : Requests) :
    RequestMove → Option Requests
  | .index i response now =>
      match requests[i]? with
      | none => none
      | some r =>
          if s.phase i = .waiting then
            match r.path, r.indexStep op s.world response now with
            | some path, some w =>
                some { s with
                  world := w
                  phase := Function.update s.phase i .indexed
                  lastIndexed := Function.update s.lastIndexed path (some i) }
            | _, _ => none
          else none
  | .store i =>
      match requests[i]? with
      | none => none
      | some r =>
          if s.phase i = .indexed then
            match r.path, r.storeStep s.world with
            | some path, some w =>
                some { s with
                  world := w
                  phase := Function.update s.phase i .finished
                  lastStored := Function.update s.lastStored path (some i) }
            | _, _ => none
          else none

/-- All requests have finished. -/
def Finished (requests : List FileRequest) (s : Requests) : Prop :=
  ∀ i < requests.length, s.phase i = .finished

/-- The storage steps of the run change what no other path holds. -/
def MoveSpares (requests : List FileRequest) (s : Requests) : RequestMove → Prop
  | .index _ _ _ => True
  | .store i =>
      ∀ r path, requests[i]? = some r → r.path = some path → r.Spares s.world.fs path

/-! ## Agreement -/

/-- If storage holds a content at the path, the index has exactly one entry for it,
with the chunks of that content; otherwise it has none. -/
def AgreeAt (op : FileOp) (w : World) (path : String) : Prop :=
  match storageContent w.fs path with
  | some content =>
      (∃ row, (w.db.files.rows.filter fun r => r.path = path) = [row]) ∧
        ((w.db.chunks.rows.filter fun r => r.path = path).map fun r =>
          (⟨r.text, r.startLine, r.endLine⟩ : TextChunk)) =
          chunkText content op.chunkSize op.chunkOverlap
  | none =>
      (w.db.files.rows.filter fun r => r.path = path) = [] ∧
        (w.db.chunks.rows.filter fun r => r.path = path) = []

/-- Two contents the index cannot tell apart: both absent, or with the same chunks. -/
def Alike (op : FileOp) : Option String → Option String → Prop
  | some c, some d =>
      chunkText c op.chunkSize op.chunkOverlap = chunkText d op.chunkSize op.chunkOverlap
  | none, none => True
  | _, _ => False

/-- On every path the last index step and the last storage step leave the same. -/
def LastStepsAlike (op : FileOp) (requests : List FileRequest) (s : Requests) : Prop :=
  ∀ path i j, s.lastIndexed path = some i → s.lastStored path = some j →
    Alike op (leaves requests i) (leaves requests j)

theorem Alike.refl (op : FileOp) (c : Option String) : Alike op c c := by
  cases c with
  | none => trivial
  | some c => rfl

/-- An index built from the recorded contents agrees with storage exactly if record and
storage are alike. -/
theorem agreeAt_iff {op : FileOp} {w : World} (hindexed : Indexed op w) {path : String}
    (hraw : IsRawPath path) :
    AgreeAt op w path ↔ Alike op (w.built path) (storageContent w.fs path) := by
  rcases hindexed with ⟨m, himage, hmatches⟩
  have hmatch := hmatches path hraw
  unfold AgreeAt
  cases hm : m path with
  | none =>
      have hbuilt : w.built path = none := by
        cases hb : w.built path with
        | none => rfl
        | some c => simp [Matches, hm, hb] at hmatch
      have hfiles := himage.files path
      have hchunks := himage.chunks path
      rw [hm, Option.map_none, Option.toList_none, List.map_eq_nil_iff] at hfiles
      rw [hm, Option.map_none, Option.getD_none, List.map_eq_nil_iff] at hchunks
      rw [hbuilt]
      cases storageContent w.fs path with
      | none => simp [hfiles, hchunks, Alike]
      | some content => simp [hfiles, Alike]
  | some e =>
      cases hb : w.built path with
      | none => simp [Matches, hm, hb] at hmatch
      | some c =>
          have hfrom : FileOp.BuiltFrom op c e := by
            simpa [Matches, hm, hb] using hmatch
          rcases himage.file_eq hm with ⟨row, hrow, -⟩
          cases storageContent w.fs path with
          | none => simp [hrow, Alike]
          | some content =>
              simp only [hrow, (himage.textChunks_eq hm).trans hfrom.chunks, Alike]
              simp

/-! ## What a run keeps -/

variable {op : FileOp} {requests : List FileRequest} {w₀ : World}

/-- On raw paths the index holds what the last index step left, and storage what the
last storage step left, since a start in which the two were the same. -/
structure Tracked (op : FileOp) (requests : List FileRequest) (w₀ : World) (s : Requests) :
    Prop where
  indexed : Indexed op s.world
  entries : ∀ path, IsRawPath path → s.world.built path =
    (s.lastIndexed path).elim (storageContent w₀.fs path) (leaves requests)
  files : ∀ path, IsRawPath path → storageContent s.world.fs path =
    (s.lastStored path).elim (storageContent w₀.fs path) (leaves requests)
  lastIndexed : ∀ path i, s.lastIndexed path = some i →
    pathOf requests i = some path ∧ s.phase i ≠ .waiting
  lastStored : ∀ path j, s.lastStored path = some j →
    pathOf requests j = some path ∧ s.phase j = .finished
  of_indexed : ∀ path i, pathOf requests i = some path → s.phase i ≠ .waiting →
    s.lastIndexed path ≠ none
  of_finished : ∀ path i, pathOf requests i = some path → s.phase i = .finished →
    s.lastStored path ≠ none

theorem tracked_start (hindexed : Indexed op w₀)
    (hsame : ∀ path, IsRawPath path → w₀.built path = storageContent w₀.fs path) :
    Tracked op requests w₀ (start w₀) where
  indexed := hindexed
  entries := hsame
  files := fun _ _ => rfl
  lastIndexed := by simp [start]
  lastStored := by simp [start]
  of_indexed := by simp [start]
  of_finished := by simp [start]

/-- Everything a move can do. -/
theorem step_cases {s t : Requests} {move : RequestMove} (h : step op requests s move = some t) :
    (∃ i response now r path w, move = .index i response now ∧ requests[i]? = some r ∧
        s.phase i = .waiting ∧ r.path = some path ∧
        r.indexStep op s.world response now = some w ∧
        t = { s with
          world := w
          phase := Function.update s.phase i .indexed
          lastIndexed := Function.update s.lastIndexed path (some i) }) ∨
      (∃ i r path w, move = .store i ∧ requests[i]? = some r ∧ s.phase i = .indexed ∧
        r.path = some path ∧ r.storeStep s.world = some w ∧
        t = { s with
          world := w
          phase := Function.update s.phase i .finished
          lastStored := Function.update s.lastStored path (some i) }) := by
  cases move with
  | index i response now =>
      simp only [step] at h
      cases hreq : requests[i]? with
      | none => simp [hreq] at h
      | some r =>
          simp only [hreq] at h
          split at h <;> rename_i hphase
          · split at h <;> rename_i hpath hstep
            · cases h
              exact Or.inl ⟨i, response, now, r, _, _, rfl, hreq, hphase, hpath, hstep, rfl⟩
            · contradiction
          · contradiction
  | store i =>
      simp only [step] at h
      cases hreq : requests[i]? with
      | none => simp [hreq] at h
      | some r =>
          simp only [hreq] at h
          split at h <;> rename_i hphase
          · split at h <;> rename_i hpath hstep
            · cases h
              exact Or.inr ⟨i, r, _, _, rfl, hreq, hphase, hpath, hstep, rfl⟩
            · contradiction
          · contradiction

/-- Who was last, among those that have done their index step. -/
theorem Tracked.lastActed_index {s : Requests} (h : Tracked op requests w₀ s) :
    Machine.LastActed (pathOf requests) (fun i => s.phase i ≠ .waiting) s.lastIndexed :=
  ⟨h.lastIndexed, h.of_indexed⟩

/-- Who was last, among those that have done their storage step. -/
theorem Tracked.lastActed_store {s : Requests} (h : Tracked op requests w₀ s) :
    Machine.LastActed (pathOf requests) (fun i => s.phase i = .finished) s.lastStored :=
  ⟨h.lastStored, h.of_finished⟩

/-- An index step keeps the record right. -/
theorem tracked_index {s : Requests} (htracked : Tracked op requests w₀ s) {i : Nat}
    {r : FileRequest} {path : String} {w : World} {response : Except LlmError EmbedResult}
    {now : Int} (hreq : requests[i]? = some r) (hphase : s.phase i = .waiting)
    (hpath : r.path = some path) (hstep : r.indexStep op s.world response now = some w) :
    Tracked op requests w₀ { s with
      world := w
      phase := Function.update s.phase i .indexed
      lastIndexed := Function.update s.lastIndexed path (some i) } := by
  rcases FileRequest.indexStep_eq_some htracked.indexed hstep with
    ⟨path', hpath', hfs, hindexed, hbuilt⟩
  have hsame : path' = path := Option.some.inj (hpath'.symm.trans hpath)
  subst hsame
  have hpathOf : pathOf requests i = some path' := by simp [pathOf, hreq, hpath]
  have hleaves : r.leaves = leaves requests i := by simp [leaves, hreq]
  have hnowIndexed : ∀ j, Function.update s.phase i .indexed j ≠ .waiting ↔
      j = i ∨ s.phase j ≠ .waiting := by
    intro j
    by_cases hj : j = i
    · simp [hj]
    · simp [hj]
  have hstillFinished : ∀ j, Function.update s.phase i .indexed j = .finished ↔
      s.phase j = .finished := by
    intro j
    by_cases hj : j = i
    · simp [hj, hphase]
    · simp [Function.update_of_ne hj]
  have hlastIndexed := htracked.lastActed_index.act hpathOf hnowIndexed
  have hlastStored := htracked.lastActed_store.congr hstillFinished
  refine ⟨hindexed, ?_, ?_, hlastIndexed.sound, hlastStored.sound, hlastIndexed.complete,
    hlastStored.complete⟩
  · intro other hraw
    simp only [hbuilt, hleaves]
    exact Machine.update_eq_elim (htracked.entries other hraw) path' i
  · intro other hraw
    simp only [hfs]
    exact htracked.files other hraw

/-- A storage step that spares the others keeps the record right. -/
theorem tracked_store {s : Requests} (htracked : Tracked op requests w₀ s) {i : Nat}
    {r : FileRequest} {path : String} {w : World} (hreq : requests[i]? = some r)
    (hphase : s.phase i = .indexed) (hpath : r.path = some path)
    (hspares : r.Spares s.world.fs path) (hstep : r.storeStep s.world = some w) :
    Tracked op requests w₀ { s with
      world := w
      phase := Function.update s.phase i .finished
      lastStored := Function.update s.lastStored path (some i) } := by
  rcases FileRequest.storeStep_eq_some hpath hspares hstep with ⟨hdb, hbuilt, hcontent⟩
  have hpathOf : pathOf requests i = some path := by simp [pathOf, hreq, hpath]
  have hleaves : r.leaves = leaves requests i := by simp [leaves, hreq]
  have hstillIndexed : ∀ j, Function.update s.phase i .finished j ≠ .waiting ↔
      s.phase j ≠ .waiting := by
    intro j
    by_cases hj : j = i
    · simp [hj, hphase]
    · simp [Function.update_of_ne hj]
  have hnowFinished : ∀ j, Function.update s.phase i .finished j = .finished ↔
      j = i ∨ s.phase j = .finished := by
    intro j
    by_cases hj : j = i
    · simp [hj]
    · simp [hj]
  have hlastIndexed := htracked.lastActed_index.congr hstillIndexed
  have hlastStored := htracked.lastActed_store.act hpathOf hnowFinished
  refine ⟨indexed_of_eq htracked.indexed hdb hbuilt, ?_, ?_, hlastIndexed.sound,
    hlastStored.sound, hlastIndexed.complete, hlastStored.complete⟩
  · intro other hraw
    simp only [hbuilt]
    exact htracked.entries other hraw
  · intro other hraw
    simp only
    rw [hcontent other hraw, hleaves]
    exact Machine.update_eq_elim (htracked.files other hraw) path i

theorem tracked_step {s t : Requests} {move : RequestMove}
    (htracked : Tracked op requests w₀ s) (hspares : MoveSpares requests s move)
    (h : step op requests s move = some t) : Tracked op requests w₀ t := by
  rcases step_cases h with
    ⟨i, response, now, r, path, w, -, hreq, hphase, hpath, hstep, rfl⟩ |
    ⟨i, r, path, w, rfl, hreq, hphase, hpath, hstep, rfl⟩
  · exact tracked_index htracked hreq hphase hpath hstep
  · exact tracked_store htracked hreq hphase hpath (hspares r path hreq hpath) hstep

/-- Once all requests have finished, and if no storage step changed what another path
holds, index and storage agree on every raw path exactly if on every path the last
index step and the last storage step leave the same. -/
theorem agree_iff_lastStepsAlike {moves : List RequestMove} {s : Requests}
    (hindexed : Indexed op w₀)
    (hsame : ∀ path, IsRawPath path → w₀.built path = storageContent w₀.fs path)
    (hspares : Machine.StepsMeet (step op requests) (MoveSpares requests) (start w₀) moves)
    (hrun : Machine.run (step op requests) (start w₀) moves = some s)
    (hfinished : Finished requests s) :
    (∀ path, IsRawPath path → AgreeAt op s.world path) ↔ LastStepsAlike op requests s := by
  have htracked : Tracked op requests w₀ s :=
    Machine.run_invariant_of_stepsMeet (I := Tracked op requests w₀)
      (fun _ _ _ htracked hP h => tracked_step htracked hP h) (tracked_start hindexed hsame)
      hspares hrun
  have hdone : ∀ path i, pathOf requests i = some path → s.phase i = .finished := by
    intro path i hpath
    apply hfinished i
    by_contra hlen
    rw [pathOf, List.getElem?_eq_none (by omega)] at hpath
    contradiction
  constructor
  · intro hagree path i j hi hj
    have hraw : IsRawPath path := by
      have hpath := (htracked.lastIndexed path i hi).1
      rcases Option.bind_eq_some_iff.mp hpath with ⟨r, -, hr⟩
      exact FileRequest.isRawPath_of_path hr
    have halike := (agreeAt_iff htracked.indexed hraw).mp (hagree path hraw)
    rw [htracked.entries path hraw, htracked.files path hraw, hi, hj] at halike
    exact halike
  · intro halike path hraw
    rw [agreeAt_iff htracked.indexed hraw, htracked.entries path hraw, htracked.files path hraw]
    cases hi : s.lastIndexed path with
    | none =>
        have hj : s.lastStored path = none := by
          by_contra hne
          rcases Option.ne_none_iff_exists'.mp hne with ⟨j, hj⟩
          have hjpath := (htracked.lastStored path j hj).1
          exact htracked.of_indexed path j hjpath (by simp [hdone path j hjpath]) hi
        rw [hj]
        exact Alike.refl op _
    | some i =>
        have hipath := (htracked.lastIndexed path i hi).1
        have hne := htracked.of_finished path i hipath (hdone path i hipath)
        rcases Option.ne_none_iff_exists'.mp hne with ⟨j, hj⟩
        rw [hj]
        exact halike path i j hi hj

def sampleKey : Key :=
  ⟨"alice", .nil, "_default", "a.md"⟩

def sampleWrite (content : String) : FileRequest :=
  .write ⟨"alice", .nil, none, "a.md", content⟩

def sampleResponse : Except LlmError EmbedResult :=
  .ok ⟨"m", [⟨[0x3f800000], Embedding.one_length_lt⟩]⟩

/-- The first write into an empty store spares every other path. -/
theorem sampleWrite_spares (content : String) :
    (sampleWrite content).Spares Fs.empty sampleKey.path := by
  intro other hraw hne _
  refine ⟨?_, ?_⟩
  · intro hloc
    have hordinary : sampleKey.Ordinary := by decide
    rw [Key.location_path hordinary] at hloc
    exact absurd (Key.path_of_location hraw hloc) hne
  · intro _ text hnode
    simp only [Fs.empty] at hnode
    split at hnode <;> simp at hnode

/-- A delete and a write of one file. -/
def crossing : List FileRequest :=
  [.delete ⟨"alice", .nil, none, "a.md"⟩, sampleWrite "x"]

/-- Their steps interleave, each of the write's after the delete's. -/
def followingMoves : List RequestMove :=
  [.index 0 sampleResponse 0, .index 1 sampleResponse 0, .store 0, .store 1]

theorem fs_of_index {op : FileOp} {requests : List FileRequest} {s t : Requests} {i : Nat}
    {response : Except LlmError EmbedResult} {now : Int} (hindexed : Indexed op s.world)
    (h : step op requests s (.index i response now) = some t) :
    t.world.fs = s.world.fs ∧ Indexed op t.world := by
  rcases step_cases h with ⟨i, response, now, r, path, w, -, -, -, -, hstep, rfl⟩ |
    ⟨i, r, path, w, hmove, -⟩
  · rcases FileRequest.indexStep_eq_some hindexed hstep with ⟨-, -, hfs, hindexed', -⟩
    exact ⟨hfs, hindexed'⟩
  · exact absurd hmove (by simp)

/-- Deleting in an empty store leaves it so. -/
theorem fs_of_first_delete {s t : Requests} (hfs : s.world.fs = Fs.empty)
    (h : step .withDefaults crossing s (.store 0) = some t) : t.world.fs = Fs.empty := by
  rcases step_cases h with ⟨i, response, now, r, path, w, hmove, -⟩ |
    ⟨i, r, path, w, hmove, hreq, -, -, hstep, rfl⟩
  · exact absurd hmove (by simp)
  · cases hmove
    cases hreq
    have hpath : (FileRequest.delete ⟨"alice", .nil, none, "a.md"⟩).path =
        some sampleKey.path := by decide +kernel
    have hdelete : storageDelete Fs.empty sampleKey.path none = (.ok (), Fs.empty) := rfl
    simp only [FileRequest.storeStep, hpath, World.sendStorageDelete, Delivery.handled, hfs,
      hdelete, Delivery.receive, propagate, if_true, Option.some.injEq] at hstep
    rw [← hstep]

theorem followingMoves_spare :
    Machine.StepsMeet (step .withDefaults crossing) (MoveSpares crossing) (start .fresh)
      followingMoves := by
  intro t ht
  rcases fs_of_index (World.fresh_indexed .withDefaults) ht with ⟨hfs, hindexed⟩
  refine ⟨trivial, fun u hu => ?_⟩
  rcases fs_of_index hindexed hu with ⟨hfs', -⟩
  have hempty : u.world.fs = Fs.empty := hfs'.trans hfs
  refine ⟨trivial, fun v hv => ⟨?_, fun _ _ => ⟨?_, trivial⟩⟩⟩
  · intro r path hreq _
    have hr : r = .delete ⟨"alice", .nil, none, "a.md"⟩ := (Option.some.inj hreq).symm
    rw [hempty, hr]
    intro other _ _ hcontent
    exact absurd (storageContent_empty other) hcontent
  · intro r path hreq hpath
    have hr : r = sampleWrite "x" := (Option.some.inj hreq).symm
    have hsame : path = sampleKey.path := by
      rw [hr] at hpath
      exact Option.some.inj (hpath.symm.trans rfl)
    rw [fs_of_first_delete hempty hv, hr, hsame]
    exact sampleWrite_spares "x"

/-- The requests interleave, and in the end storage and index agree. -/
theorem agree_iff_lastStepsAlike_following :
    ∃ s, Machine.run (step .withDefaults crossing) (start .fresh) followingMoves = some s ∧
      ((∀ path, IsRawPath path → AgreeAt .withDefaults s.world path) ↔
        LastStepsAlike .withDefaults crossing s) := by
  have hend : (Machine.run (step .withDefaults crossing) (start .fresh) followingMoves).map
      (fun s => (s.phase 0, s.phase 1)) = some (.finished, .finished) := by
    decide +kernel
  rcases Option.map_eq_some_iff.mp hend with ⟨s, hrun, hphase⟩
  rcases Prod.mk.inj hphase with ⟨hfirst, hsecond⟩
  refine ⟨s, hrun, agree_iff_lastStepsAlike (World.fresh_indexed _) ?_ followingMoves_spare hrun ?_⟩
  · intro path _
    exact (storageContent_empty path).symm
  · intro i hi
    match i, hi with
    | 0, _ => exact hfirst
    | 1, _ => exact hsecond

/-- The steps of the two cross. -/
def crossingMoves : List RequestMove :=
  [.index 0 sampleResponse 0, .index 1 sampleResponse 0, .store 1, .store 0]

/-- The entry of the write stays and its file does not. -/
theorem steps_cross :
    ∃ s, Machine.run (step .withDefaults crossing) (start .fresh) crossingMoves = some s ∧
      Finished crossing s ∧
      ∃ path, IsRawPath path ∧ ¬ AgreeAt .withDefaults s.world path := by
  have hend : (Machine.run (step .withDefaults crossing) (start .fresh) crossingMoves).map
      (fun s => (s.phase 0, s.phase 1, storageContent s.world.fs sampleKey.path,
        s.world.db.files.rows.map FileRow.path)) =
        some (.finished, .finished, none, [sampleKey.path]) := by
    decide +kernel
  rcases Option.map_eq_some_iff.mp hend with ⟨s, hrun, hs⟩
  simp only [Prod.mk.injEq] at hs
  rcases hs with ⟨hfirst, hsecond, hcontent, hfiles⟩
  refine ⟨s, hrun, ?_, sampleKey.path, ⟨"alice", .nil, none, "a.md", by decide, rfl⟩, ?_⟩
  · intro i hi
    match i, hi with
    | 0, _ => exact hfirst
    | 1, _ => exact hsecond
  · unfold AgreeAt
    rw [hcontent]
    intro hagree
    have hmem : sampleKey.path ∈ s.world.db.files.rows.map FileRow.path := by
      rw [hfiles]
      exact List.mem_singleton_self _
    rcases List.mem_map.mp hmem with ⟨row, hrow, hpath⟩
    have hnone := List.filter_eq_nil_iff.mp hagree.1 row hrow
    simp [hpath] at hnone

end Requests

end Memory
end MemoryHub
