import MemoryHub.Lib.Machine
import MemoryHub.Memory.FileOpInterleaving
import MemoryHub.Memory.Synthesizer

/-!
# The synthesizer among file operations

Requests change storage and then notify the synthesizer, which takes one message at a
time from its mailbox; while a cycle runs, each of its calls is answered at some later
moment.  Storage is a map from paths to contents here, every notification and every tick
is delivered, and reads do not fail.

Main results:

- Theorem `store_refines`: the storage step on the map is that of the real storage.
- Theorem `tracked_step`: what one step keeps.
- Theorem `changes_pending`: a changed path whose content the synthesizer has not seen
  is still on its way.
- Theorem `seen_of_quiet`: when nothing is on its way, the synthesizer has seen every
  change.
-/

namespace MemoryHub
namespace Memory

open Collections Prog

/-! ## Notifications -/

namespace FileRequest

/-- The path a request is about, whoever its user is. -/
def storagePath : FileRequest → Option String
  | .write msg => (getRawPath msg.username msg.agentId msg.project msg.filename).toOption
  | .delete msg => (getRawPath msg.username msg.agentId msg.project msg.filename).toOption

/-- The notification a request sends after its storage step. -/
def notification (r : FileRequest) : Option FileChanged :=
  match r with
  | .write msg => r.storagePath.map fun path => ⟨msg.username, msg.agentId, path⟩
  | .delete msg => r.storagePath.map fun path => ⟨msg.username, msg.agentId, path⟩

theorem storagePath_of_notification {r : FileRequest} {file : FileChanged}
    (h : r.notification = some file) : r.storagePath = some file.path := by
  cases r with
  | write msg =>
      rcases Option.map_eq_some_iff.mp h with ⟨path, hpath, hfile⟩
      rw [hpath, ← hfile]
  | delete msg =>
      rcases Option.map_eq_some_iff.mp h with ⟨path, hpath, hfile⟩
      rw [hpath, ← hfile]

theorem toOption_eq_some {ε α : Type} {x : Except ε α} {a : α} (h : x.toOption = some a) :
    x = .ok a := by
  cases x with
  | error e => contradiction
  | ok b => exact congrArg Except.ok (Option.some.inj h)

theorem isRawKey_of_storagePath {r : FileRequest} {path : String}
    (h : r.storagePath = some path) : IsRawKey path := by
  cases r with
  | write msg =>
      exact ⟨msg.username, msg.agentId, msg.project, msg.filename, toOption_eq_some h⟩
  | delete msg =>
      exact ⟨msg.username, msg.agentId, msg.project, msg.filename, toOption_eq_some h⟩

/-- For a known user the path is the one a request's steps are about. -/
theorem storagePath_of_path {r : FileRequest} {path : String} (h : r.path = some path) :
    r.storagePath = some path := by
  cases r with
  | write msg => rw [storagePath, (knownPath_eq_some h).2, Except.toOption]
  | delete msg => rw [storagePath, (knownPath_eq_some h).2, Except.toOption]

end FileRequest

/-- A write that succeeds sends its notification. -/
theorem write_notifies {op : FileOp} {w w₁ w₂ : World} {msg : FileOpWrite}
    {response : Except LlmError Llm.EmbedResult} {now : Int} {path : String}
    (hpath : (FileRequest.write msg).path = some path)
    (hindex : (FileRequest.write msg).indexStep op w response now = some w₁)
    (hstore : (FileRequest.write msg).storeStep w₁ = some w₂) :
    op.write w msg (.answered response now) =
      (.replied (.ok ()) (FileRequest.write msg).notification, w₂) := by
  rw [write_of_steps hpath hindex hstore, FileRequest.notification,
    FileRequest.storagePath_of_path hpath, Option.map_some]

/-- A delete that succeeds sends its notification. -/
theorem delete_notifies {op : FileOp} {w w₁ w₂ : World} {msg : FileOpDelete}
    {response : Except LlmError Llm.EmbedResult} {now : Int} {path : String}
    (hpath : (FileRequest.delete msg).path = some path)
    (hindex : (FileRequest.delete msg).indexStep op w response now = some w₁)
    (hstore : (FileRequest.delete msg).storeStep w₁ = some w₂) :
    FileOp.delete w msg .answered =
      (.replied (.ok ()) (FileRequest.delete msg).notification, w₂) := by
  rw [delete_of_steps hpath hindex hstore, FileRequest.notification,
    FileRequest.storagePath_of_path hpath, Option.map_some]

/-! ## The system -/

/-- A message in the synthesizer's mailbox. -/
inductive SynthesizerMessage where
  | fileChanged (msg : FileChanged)
  | cooldownTick
deriving DecidableEq, Repr

/-- How far a request has got. -/
inductive NotifyPhase where
  | running
  | stored
  | notified
  | failed
deriving DecidableEq, Repr

/-- Storage, the requests, and the synthesizer with its mailbox, the timers that have not
fired, and what is left of a running cycle.  `lastRead` records what the synthesizer last
read for each path. -/
structure System where
  storage : String → Option String
  phase : Nat → NotifyPhase
  mailbox : List SynthesizerMessage
  sleeping : Nat
  synthesizer : Synthesizer
  cycle : Option (Synthesis Unit)
  lastRead : String → Option (Option String)

/-- One party takes a step.  A running cycle's call is answered by `answers`, except
that reads are answered by storage. -/
inductive SystemMove where
  | fail (i : Nat)
  | store (i : Nat)
  | notify (i : Nat)
  | wake
  | handle (orders : Synthesizer.CycleOrders)
  | answer (answers : ∀ c : SynthesizerCall, c.Response)
  | finish

namespace System

/-- All requests are still to come. -/
def start (storage : String → Option String) : System :=
  ⟨storage, fun _ => .running, [], 0, .new, none, fun _ => none⟩

/-- A request fails before it has changed storage. -/
def fail (s : System) (i : Nat) : System :=
  { s with phase := Function.update s.phase i .failed }

/-- A request's storage step. -/
def store (s : System) (i : Nat) (path : String) (content : Option String) : System :=
  { s with
    storage := Function.update s.storage path content
    phase := Function.update s.phase i .stored }

/-- A request sends its notification. -/
def notify (s : System) (i : Nat) (msg : FileChanged) : System :=
  { s with
    phase := Function.update s.phase i .notified
    mailbox := s.mailbox ++ [.fileChanged msg] }

/-- A timer fires. -/
def wake (s : System) : System :=
  { s with sleeping := s.sleeping - 1, mailbox := s.mailbox ++ [.cooldownTick] }

/-- The synthesizer handles a notification. -/
def handleFileChanged (s : System) (msg : FileChanged) (rest : List SynthesizerMessage) :
    System :=
  let result := s.synthesizer.handleFileChanged msg
  { s with
    mailbox := rest
    synthesizer := result.1
    sleeping := if result.2 then s.sleeping + 1 else s.sleeping }

/-- The synthesizer handles a tick and begins a cycle. -/
def handleCooldownTick (s : System) (config : Synthesizer.MemoryConfig)
    (orders : Synthesizer.CycleOrders) (rest : List SynthesizerMessage) : System :=
  let result := s.synthesizer.handleCooldownTick config orders
  { s with mailbox := rest, synthesizer := result.1, cycle := some result.2 }

/-- What a call of the cycle is answered with. -/
def response (s : System) (answers : ∀ c : SynthesizerCall, c.Response) :
    (c : SynthesizerCall) → c.Response
  | .storageRead path => .ok (s.storage path)
  | c => answers c

/-- What a call of the cycle does: a read is recorded, a write that succeeds is stored. -/
def called (s : System) (answers : ∀ c : SynthesizerCall, c.Response) :
    SynthesizerCall → System
  | .storageRead path =>
      { s with lastRead := Function.update s.lastRead path (some (s.storage path)) }
  | .storageWrite path content =>
      match answers (.storageWrite path content) with
      | .ok () => { s with storage := Function.update s.storage path (some content) }
      | .error _ => s
  | _ => s

/-- The step function. -/
def step (config : Synthesizer.MemoryConfig) (requests : List FileRequest) (s : System) :
    SystemMove → Option System
  | .fail i => if s.phase i = .running then some (s.fail i) else none
  | .store i =>
      match requests[i]? with
      | none => none
      | some r =>
          match r.storagePath with
          | none => none
          | some path => if s.phase i = .running then some (s.store i path r.leaves) else none
  | .notify i =>
      match (requests[i]?).bind FileRequest.notification with
      | none => none
      | some msg => if s.phase i = .stored then some (s.notify i msg) else none
  | .wake => if 0 < s.sleeping then some s.wake else none
  | .handle orders =>
      match s.cycle, s.mailbox with
      | none, .fileChanged msg :: rest => some (s.handleFileChanged msg rest)
      | none, .cooldownTick :: rest => some (s.handleCooldownTick config orders rest)
      | _, _ => none
  | .answer answers =>
      match s.cycle with
      | some (.call c k) =>
          some { s.called answers c with cycle := some (k (s.response answers c)) }
      | _ => none
  | .finish =>
      match s.cycle with
      | some (.pure ()) => some { s with cycle := none }
      | _ => none

/-- What a step can be. -/
inductive Stepped (config : Synthesizer.MemoryConfig) (requests : List FileRequest)
    (s : System) : System → Prop
  | fail (i : Nat) (hphase : s.phase i = .running) : Stepped config requests s (s.fail i)
  | store (i : Nat) (r : FileRequest) (path : String) (hreq : requests[i]? = some r)
      (hpath : r.storagePath = some path) (hphase : s.phase i = .running) :
      Stepped config requests s (s.store i path r.leaves)
  | notify (i : Nat) (r : FileRequest) (msg : FileChanged) (hreq : requests[i]? = some r)
      (hmsg : r.notification = some msg) (hphase : s.phase i = .stored) :
      Stepped config requests s (s.notify i msg)
  | wake (hsleeping : 0 < s.sleeping) : Stepped config requests s s.wake
  | handleFileChanged (msg : FileChanged) (rest : List SynthesizerMessage)
      (hidle : s.cycle = none) (hmailbox : s.mailbox = .fileChanged msg :: rest) :
      Stepped config requests s (s.handleFileChanged msg rest)
  | handleCooldownTick (orders : Synthesizer.CycleOrders) (rest : List SynthesizerMessage)
      (hidle : s.cycle = none) (hmailbox : s.mailbox = .cooldownTick :: rest) :
      Stepped config requests s (s.handleCooldownTick config orders rest)
  | answer (answers : ∀ c : SynthesizerCall, c.Response) (c : SynthesizerCall)
      (k : c.Response → Synthesis Unit) (hcycle : s.cycle = some (.call c k)) :
      Stepped config requests s
        { s.called answers c with cycle := some (k (s.response answers c)) }
  | finish (hcycle : s.cycle = some (.pure ())) :
      Stepped config requests s { s with cycle := none }

theorem stepped {config : Synthesizer.MemoryConfig} {requests : List FileRequest}
    {s t : System} {a : SystemMove} (h : step config requests s a = some t) :
    Stepped config requests s t := by
  cases a with
  | fail i =>
      simp only [step] at h
      split at h <;> rename_i hphase
      · cases h
        exact .fail i hphase
      · contradiction
  | store i =>
      simp only [step] at h
      cases hreq : requests[i]? with
      | none => simp [hreq] at h
      | some r =>
          cases hpath : r.storagePath with
          | none => simp [hreq, hpath] at h
          | some path =>
              simp only [hreq, hpath] at h
              split at h <;> rename_i hphase
              · cases h
                exact .store i r path hreq hpath hphase
              · contradiction
  | notify i =>
      simp only [step] at h
      cases hmsg : (requests[i]?).bind FileRequest.notification with
      | none => simp [hmsg] at h
      | some msg =>
          rcases Option.bind_eq_some_iff.mp hmsg with ⟨r, hreq, hnotification⟩
          simp only [hmsg] at h
          split at h <;> rename_i hphase
          · cases h
            exact .notify i r msg hreq hnotification hphase
          · contradiction
  | wake =>
      simp only [step] at h
      split at h <;> rename_i hsleeping
      · cases h
        exact .wake hsleeping
      · contradiction
  | handle orders =>
      simp only [step] at h
      split at h
      · rename_i hidle hmailbox
        cases h
        exact .handleFileChanged _ _ hidle hmailbox
      · rename_i hidle hmailbox
        cases h
        exact .handleCooldownTick orders _ hidle hmailbox
      · contradiction
  | answer answers =>
      simp only [step] at h
      split at h
      · rename_i c k hcycle
        cases h
        exact .answer answers c k hcycle
      · contradiction
  | finish =>
      simp only [step] at h
      split at h
      · rename_i hcycle
        cases h
        exact .finish hcycle
      · contradiction

/-! ## What is on its way -/

/-- The ticks that are still to be handled: timers that have not fired, and ticks in the
mailbox. -/
def outstanding (s : System) : Nat :=
  s.sleeping + s.mailbox.count .cooldownTick

/-- Some request has changed the path. -/
def Changed (requests : List FileRequest) (s : System) (path : String) : Prop :=
  ∃ i r, requests[i]? = some r ∧ r.storagePath = some path ∧
    (s.phase i = .stored ∨ s.phase i = .notified)

/-- The synthesizer has not read the path, or has last read something else than storage
now holds. -/
def Unseen (s : System) (path : String) : Prop :=
  s.lastRead path ≠ some (s.storage path)

/-- A change of the path is on its way to being read. -/
inductive Pending (requests : List FileRequest) (s : System) (path : String) : Prop
  | unsent (i : Nat) (r : FileRequest) (hreq : requests[i]? = some r)
      (hpath : r.storagePath = some path) (hphase : s.phase i = .stored)
  | mailed (msg : FileChanged) (hmsg : .fileChanged msg ∈ s.mailbox) (hpath : msg.path = path)
  | collected (file : FileChanged) (hfile : file ∈ s.synthesizer.changedFiles)
      (hpath : file.path = path) (htick : 0 < s.outstanding)
  | unread (cycle : Synthesis Unit) (hcycle : s.cycle = some cycle)
      (hread : Synthesizer.MustRead path cycle)

/-- What is on its way stays so while nothing of it is taken away. -/
theorem Pending.keep {requests : List FileRequest} {s t : System} {path : String}
    (h : Pending requests s path) (hphase : ∀ i, s.phase i = .stored → t.phase i = .stored)
    (hmailbox : ∀ msg, .fileChanged msg ∈ s.mailbox → .fileChanged msg ∈ t.mailbox)
    (hfiles : s.synthesizer.changedFiles ⊆ t.synthesizer.changedFiles)
    (hticks : s.outstanding = t.outstanding)
    (hcycle : ∀ cycle, s.cycle = some cycle → Synthesizer.MustRead path cycle →
      ∃ cycle', t.cycle = some cycle' ∧ Synthesizer.MustRead path cycle') :
    Pending requests t path := by
  cases h with
  | unsent i r hreq hpath hi => exact .unsent i r hreq hpath (hphase i hi)
  | mailed msg hmsg hpath => exact .mailed msg (hmailbox msg hmsg) hpath
  | collected file hfile hpath htick =>
      exact .collected file (hfiles hfile) hpath (hticks ▸ htick)
  | unread cycle hrunning hread =>
      rcases hcycle cycle hrunning hread with ⟨cycle', hrunning', hread'⟩
      exact .unread cycle' hrunning' hread'

/-- A request that moves on takes no other request's notification away. -/
theorem stored_of_update {phase : Nat → NotifyPhase} {i : Nat} (next : NotifyPhase)
    (hi : phase i ≠ .stored) {j : Nat} (hj : phase j = .stored) :
    Function.update phase i next j = .stored := by
  have hji : j ≠ i := by
    intro heq
    exact hi (heq ▸ hj)
  rw [Function.update_of_ne hji, hj]

/-- After one request has moved on, a change is its own or was there before. -/
theorem Changed.before {requests : List FileRequest} {s t : System} {i : Nat}
    {phase : NotifyPhase} {path : String} (hphase : t.phase = Function.update s.phase i phase)
    (h : Changed requests t path) :
    (∃ r, requests[i]? = some r ∧ r.storagePath = some path ∧
      (phase = .stored ∨ phase = .notified)) ∨ Changed requests s path := by
  rcases h with ⟨j, r, hreq, hpath, hj⟩
  rw [hphase] at hj
  by_cases hji : j = i
  · rw [hji, Function.update_self] at hj
    exact Or.inl ⟨r, hji ▸ hreq, hpath, hj⟩
  · rw [Function.update_of_ne hji] at hj
    exact Or.inr ⟨j, r, hreq, hpath, hj⟩

/-- What holds in every reachable state. -/
structure Tracked (requests : List FileRequest) (s : System) : Prop where
  ticks : s.outstanding = if s.synthesizer.timerArmed then 1 else 0
  spares : ∀ cycle, s.cycle = some cycle → Synthesizer.Spares (fun _ => True) cycle
  pending : ∀ path, Changed requests s path → Unseen s path → Pending requests s path

variable {config : Synthesizer.MemoryConfig} {requests : List FileRequest} {s t : System}

/-- The storage step on the map is that of the real storage, if that spares the other
paths. -/
theorem store_refines {w w' : World} {r : FileRequest} {path : String}
    (hpath : r.path = some path) (hspares : r.Spares w.fs path) (hstore : r.storeStep w = some w')
    (hmap : ∀ p, IsRawPath p → s.storage p = storageContent w.fs p) (i : Nat) :
    ∀ p, IsRawPath p → (s.store i path r.leaves).storage p = storageContent w'.fs p := by
  intro p hraw
  rw [(FileRequest.storeStep_eq_some hpath hspares hstore).2.2 p hraw]
  by_cases hp : p = path
  · simp [store, hp]
  · simp [store, Function.update_of_ne hp, hmap p hraw]

theorem tracked_start (storage : String → Option String) :
    Tracked requests (start storage) where
  ticks := rfl
  spares := by
    intro cycle hcycle
    simp [start] at hcycle
  pending := by
    intro path hchanged
    rcases hchanged with ⟨i, r, -, -, hphase⟩
    simp [start] at hphase

/-- A request that fails has changed nothing. -/
theorem tracked_fail (h : Tracked requests s) {i : Nat} (hphase : s.phase i = .running) :
    Tracked requests (s.fail i) where
  ticks := h.ticks
  spares := h.spares
  pending := by
    intro path hchanged hunseen
    have hbefore : Changed requests s path := by
      rcases hchanged.before rfl with ⟨r, -, -, hfailed⟩ | hbefore
      · simp at hfailed
      · exact hbefore
    refine (h.pending path hbefore hunseen).keep ?_ (fun _ => id) (fun _ => id) rfl
      (fun cycle hcycle hread => ⟨cycle, hcycle, hread⟩)
    intro j
    exact stored_of_update .failed (by simp [hphase])

/-- After its storage step a request has yet to send its notification. -/
theorem tracked_store (h : Tracked requests s) {i : Nat} {r : FileRequest} {path : String}
    (hreq : requests[i]? = some r) (hpath : r.storagePath = some path)
    (hphase : s.phase i = .running) (content : Option String) :
    Tracked requests (s.store i path content) where
  ticks := h.ticks
  spares := h.spares
  pending := by
    intro other hchanged hunseen
    by_cases hother : other = path
    · rw [hother]
      exact .unsent i r hreq hpath (by simp [store])
    · have hbefore : Changed requests s other := by
        rcases hchanged.before rfl with ⟨q, hq, hqpath, -⟩ | hbefore
        · cases hreq.symm.trans hq
          exact absurd (Option.some.inj (hqpath.symm.trans hpath)) hother
        · exact hbefore
      have hunseen' : Unseen s other := by
        unfold Unseen at hunseen
        simp only [store, Function.update_of_ne hother] at hunseen
        exact hunseen
      refine (h.pending other hbefore hunseen').keep ?_ (fun _ => id) (fun _ => id) rfl
        (fun cycle hcycle hread => ⟨cycle, hcycle, hread⟩)
      intro j
      exact stored_of_update .stored (by simp [hphase])

/-- A notification is no tick. -/
theorem outstanding_notify (i : Nat) (msg : FileChanged) :
    (s.notify i msg).outstanding = s.outstanding := by
  simp [outstanding, notify]

/-- A sent notification is in the mailbox. -/
theorem tracked_notify (h : Tracked requests s) {i : Nat} {r : FileRequest} {msg : FileChanged}
    (hreq : requests[i]? = some r) (hmsg : r.notification = some msg)
    (hphase : s.phase i = .stored) : Tracked requests (s.notify i msg) where
  ticks := (outstanding_notify i msg).trans h.ticks
  spares := h.spares
  pending := by
    intro path hchanged hunseen
    have hpath : r.storagePath = some msg.path := FileRequest.storagePath_of_notification hmsg
    have hbefore : Changed requests s path := by
      rcases hchanged.before rfl with ⟨q, hq, hqpath, -⟩ | hbefore
      · exact ⟨i, q, hq, hqpath, Or.inl hphase⟩
      · exact hbefore
    cases h.pending path hbefore hunseen with
    | unsent j q hj hq hphase' =>
        by_cases hji : j = i
        · rw [hji, hreq] at hj
          cases hj
          rw [hpath] at hq
          exact .mailed msg (by simp [notify]) (Option.some.inj hq)
        · exact .unsent j q hj hq ((Function.update_of_ne hji _ _).trans hphase')
    | mailed m hm hmpath => exact .mailed m (List.mem_append_left _ hm) hmpath
    | collected file hfile hfpath htick =>
        exact .collected file hfile hfpath (by rw [outstanding_notify]; exact htick)
    | unread cycle hcycle hread => exact .unread cycle hcycle hread

/-- A timer that fires becomes a tick in the mailbox. -/
theorem outstanding_wake (hsleeping : 0 < s.sleeping) : s.wake.outstanding = s.outstanding := by
  simp only [outstanding, wake, List.count_append, List.count_singleton_self]
  omega

theorem tracked_wake (h : Tracked requests s) (hsleeping : 0 < s.sleeping) :
    Tracked requests s.wake where
  ticks := (outstanding_wake hsleeping).trans h.ticks
  spares := h.spares
  pending := by
    intro path hchanged hunseen
    exact (h.pending path hchanged hunseen).keep (fun _ => id)
      (fun _ => List.mem_append_left _) (fun _ => id) (outstanding_wake hsleeping).symm
      (fun cycle hcycle hread => ⟨cycle, hcycle, hread⟩)

/-- A handled notification is among the changed files, and a timer is running. -/
theorem handleFileChanged_synthesizer (y : Synthesizer) (msg : FileChanged) :
    (y.handleFileChanged msg).1 = ⟨y.changedFiles.insert msg, true⟩ ∧
      (y.handleFileChanged msg).2 = !y.timerArmed := by
  rcases y with ⟨files, armed⟩
  cases armed with
  | false => exact ⟨rfl, rfl⟩
  | true => exact ⟨rfl, rfl⟩

theorem tracked_handleFileChanged (h : Tracked requests s) {msg : FileChanged}
    {rest : List SynthesizerMessage} (hmailbox : s.mailbox = .fileChanged msg :: rest) :
    Tracked requests (s.handleFileChanged msg rest) := by
  rcases handleFileChanged_synthesizer s.synthesizer msg with ⟨hsynthesizer, hspawned⟩
  have hcount : s.mailbox.count .cooldownTick = rest.count .cooldownTick := by
    rw [hmailbox]
    exact List.count_cons_of_ne (by simp)
  have hone : (s.handleFileChanged msg rest).outstanding = 1 := by
    have hticks := h.ticks
    simp only [outstanding, handleFileChanged, hspawned, hcount] at hticks ⊢
    cases harmed : s.synthesizer.timerArmed with
    | false =>
        simp only [harmed, Bool.false_eq_true, if_false] at hticks
        simp only [Bool.not_false, if_true]
        omega
    | true =>
        simp only [harmed, if_true] at hticks
        simp only [Bool.not_true, Bool.false_eq_true, if_false]
        exact hticks
  have hmem : ∀ m, .fileChanged m ∈ s.mailbox → m = msg ∨ .fileChanged m ∈ rest := by
    intro m hm
    rw [hmailbox] at hm
    rcases List.mem_cons.mp hm with hhead | htail
    · exact Or.inl (SynthesizerMessage.fileChanged.inj hhead)
    · exact Or.inr htail
  have hfiles : (s.handleFileChanged msg rest).synthesizer.changedFiles =
      s.synthesizer.changedFiles.insert msg := by
    rw [handleFileChanged, hsynthesizer]
  refine ⟨?_, h.spares, ?_⟩
  · rw [hone, handleFileChanged, hsynthesizer]
    rfl
  · intro path hchanged hunseen
    cases h.pending path hchanged hunseen with
    | unsent j q hj hq hphase => exact .unsent j q hj hq hphase
    | mailed m hm hmpath =>
        rcases hmem m hm with heq | hrest
        · refine .collected msg ?_ (heq ▸ hmpath) (by omega)
          rw [hfiles]
          exact List.mem_insert_self
        · exact .mailed m hrest hmpath
    | collected file hfile hfpath htick =>
        refine .collected file ?_ hfpath (by omega)
        rw [hfiles]
        exact List.mem_insert_of_mem hfile
    | unread cycle hcycle hread => exact .unread cycle hcycle hread

/-- A handled tick is the only one, and the cycle it begins reads every changed file. -/
theorem tracked_handleCooldownTick (h : Tracked requests s)
    (orders : Synthesizer.CycleOrders) {rest : List SynthesizerMessage}
    (hidle : s.cycle = none) (hmailbox : s.mailbox = .cooldownTick :: rest) :
    Tracked requests (s.handleCooldownTick config orders rest) := by
  have hcount : s.mailbox.count .cooldownTick = rest.count .cooldownTick + 1 := by
    rw [hmailbox]
    exact List.count_cons_self
  have hzero : (s.handleCooldownTick config orders rest).outstanding = 0 := by
    have hticks := h.ticks
    simp only [outstanding, handleCooldownTick, hcount] at hticks ⊢
    split at hticks
    · omega
    · omega
  refine ⟨hzero, ?_, ?_⟩
  · intro cycle hcycle
    cases hcycle
    exact Synthesizer.process_spares config orders _
  · intro path hchanged hunseen
    cases h.pending path hchanged hunseen with
    | unsent j q hj hq hphase => exact .unsent j q hj hq hphase
    | mailed m hm hmpath =>
        rw [hmailbox] at hm
        rcases List.mem_cons.mp hm with hhead | htail
        · contradiction
        · exact .mailed m htail hmpath
    | collected file hfile hfpath htick =>
        refine .unread _ rfl ?_
        rw [← hfpath]
        exact Synthesizer.process_mustRead config orders hfile
    | unread cycle hcycle hread =>
        rw [hidle] at hcycle
        contradiction

/-- A call of the cycle is about storage and what has been read only. -/
theorem called_frame (answers : ∀ c : SynthesizerCall, c.Response) (c : SynthesizerCall) :
    (s.called answers c).phase = s.phase ∧ (s.called answers c).mailbox = s.mailbox ∧
      (s.called answers c).sleeping = s.sleeping ∧
      (s.called answers c).synthesizer = s.synthesizer := by
  cases c with
  | storageWrite path content =>
      simp only [called]
      split
      · exact ⟨rfl, rfl, rfl, rfl⟩
      · exact ⟨rfl, rfl, rfl, rfl⟩
  | _ => exact ⟨rfl, rfl, rfl, rfl⟩

/-- Reads do not fail. -/
theorem response_readAnswered (answers : ∀ c : SynthesizerCall, c.Response)
    (c : SynthesizerCall) : c.ReadAnswered (s.response answers c) := by
  cases c with
  | storageRead path => exact ⟨s.storage path, rfl⟩
  | _ => trivial

/-- A raw path unseen after a call of the cycle was unseen before, and the call was no
read of it. -/
theorem unseen_of_called {answers : ∀ c : SynthesizerCall, c.Response} {c : SynthesizerCall}
    (hspares : Synthesizer.SparesRaw c) {path : String} (hraw : IsRawKey path)
    (h : Unseen (s.called answers c) path) : Unseen s path ∧ c ≠ .storageRead path := by
  cases c with
  | storageRead read =>
      by_cases hread : path = read
      · rw [hread] at h
        exact absurd (by simp [called]) h
      · refine ⟨?_, ?_⟩
        · unfold Unseen at h
          simp only [called, Function.update_of_ne hread] at h
          exact h
        · intro heq
          exact hread (SynthesizerCall.storageRead.inj heq).symm
  | storageWrite target content =>
      have hne : path ≠ target := by
        intro heq
        exact hspares (heq ▸ hraw)
      refine ⟨?_, by simp⟩
      unfold Unseen at h
      simp only [called] at h
      split at h
      · simp only [Function.update_of_ne hne] at h
        exact h
      · exact h
  | _ => exact ⟨h, by simp⟩

theorem isRawKey_of_changed {path : String} (h : Changed requests s path) : IsRawKey path := by
  rcases h with ⟨i, r, -, hpath, -⟩
  exact FileRequest.isRawKey_of_storagePath hpath

/-- What is left of a cycle after a call still reads what was to be read and has not been. -/
theorem tracked_answer (h : Tracked requests s) (answers : ∀ c : SynthesizerCall, c.Response)
    {c : SynthesizerCall} {k : c.Response → Synthesis Unit}
    (hcycle : s.cycle = some (.call c k)) :
    Tracked requests
      { s.called answers c with cycle := some (k (s.response answers c)) } := by
  rcases called_frame (s := s) answers c with ⟨hphase, hmailbox, hsleeping, hsynthesizer⟩
  have hok := response_readAnswered (s := s) answers c
  have houtstanding : (s.called answers c).outstanding = s.outstanding := by
    rw [outstanding, outstanding, hmailbox, hsleeping]
  rcases h.spares _ hcycle with ⟨hspares, hrest⟩
  refine ⟨?_, ?_, ?_⟩
  · have hticks := h.ticks
    rw [← houtstanding, ← hsynthesizer] at hticks
    exact hticks
  · intro cycle hleft
    cases hleft
    exact hrest _ hok
  · intro path hchanged hunseen
    have hbefore : Changed requests s path := by
      rcases hchanged with ⟨j, q, hj, hq, hjphase⟩
      exact ⟨j, q, hj, hq, hphase ▸ hjphase⟩
    rcases unseen_of_called hspares (isRawKey_of_changed hbefore) hunseen with ⟨hunseen', hne⟩
    refine (h.pending path hbefore hunseen').keep ?_ ?_ ?_ houtstanding.symm ?_
    · intro j hj
      exact hphase ▸ hj
    · intro msg hmsg
      exact hmailbox ▸ hmsg
    · rw [← hsynthesizer]
      exact fun _ => id
    · intro cycle hleft hread
      rw [hcycle] at hleft
      cases hleft
      rcases hread with hcall | hlater
      · exact absurd hcall hne
      · exact ⟨_, rfl, hlater _ hok⟩

/-- A finished cycle has read all it was to read. -/
theorem tracked_finish (h : Tracked requests s) (hcycle : s.cycle = some (.pure ())) :
    Tracked requests { s with cycle := none } := by
  refine ⟨h.ticks, ?_, ?_⟩
  · intro cycle hleft
    contradiction
  · intro path hchanged hunseen
    refine (h.pending path hchanged hunseen).keep (fun _ => id) (fun _ => id) (fun _ => id) rfl ?_
    intro cycle hleft hread
    rw [hcycle] at hleft
    cases hleft
    exact absurd hread id

/-- What one step keeps. -/
theorem tracked_step (h : Tracked requests s) {a : SystemMove}
    (hstep : step config requests s a = some t) : Tracked requests t := by
  cases stepped hstep with
  | fail i hphase => exact tracked_fail h hphase
  | store i r path hreq hpath hphase => exact tracked_store h hreq hpath hphase r.leaves
  | notify i r msg hreq hmsg hphase => exact tracked_notify h hreq hmsg hphase
  | wake hsleeping => exact tracked_wake h hsleeping
  | handleFileChanged msg rest hidle hmailbox => exact tracked_handleFileChanged h hmailbox
  | handleCooldownTick orders rest hidle hmailbox =>
      exact tracked_handleCooldownTick h orders hidle hmailbox
  | answer answers c k hcycle => exact tracked_answer h answers hcycle
  | finish hcycle => exact tracked_finish h hcycle

theorem tracked_of_reachable {storage : String → Option String}
    (hs : Machine.Reachable (step config requests) (start storage) s) : Tracked requests s := by
  rcases hs with ⟨moves, hrun⟩
  exact Machine.run_invariant (fun _ _ _ h hstep => tracked_step h hstep)
    (tracked_start storage) hrun

theorem Tracked.outstanding_le (h : Tracked requests s) : s.outstanding ≤ 1 := by
  rw [h.ticks]
  split <;> omega

/-- In every reachable state at most one tick is outstanding, and a changed path whose
content the synthesizer has not seen is on its way. -/
theorem changes_pending {storage : String → Option String}
    (hs : Machine.Reachable (step config requests) (start storage) s) :
    s.outstanding ≤ 1 ∧
      ∀ path, Changed requests s path → Unseen s path → Pending requests s path :=
  have htracked : Tracked requests s := tracked_of_reachable hs
  ⟨htracked.outstanding_le, htracked.pending⟩

/-- A write has been stored and notified, and the cycle that is to read it has begun. -/
def begunMoves : List SystemMove :=
  let orders : Synthesizer.CycleOrders := ⟨.stored _, .stored _, .stored _⟩
  [.store 0, .notify 0, .handle orders, .wake, .handle orders]

theorem changes_pending_begun :
    ∃ s, Machine.Reachable (step .withDefaults [Requests.sampleWrite "x"])
        (start fun _ => none) s ∧
      Changed [Requests.sampleWrite "x"] s Requests.sampleKey.path ∧
      Unseen s Requests.sampleKey.path ∧ s.outstanding ≤ 1 ∧
      ∀ path, Changed [Requests.sampleWrite "x"] s path → Unseen s path →
        Pending [Requests.sampleWrite "x"] s path := by
  have hend : (Machine.run (step .withDefaults [Requests.sampleWrite "x"])
      (start fun _ => none) begunMoves).map (fun s => (s.phase 0,
        s.lastRead Requests.sampleKey.path)) = some (.notified, none) := by
    decide +kernel
  rcases Option.map_eq_some_iff.mp hend with ⟨s, hrun, hs⟩
  simp only [Prod.mk.injEq] at hs
  rcases hs with ⟨hphase, hread⟩
  have hreachable : Machine.Reachable (step .withDefaults [Requests.sampleWrite "x"])
      (start fun _ => none) s := ⟨begunMoves, hrun⟩
  refine ⟨s, hreachable, ?_, ?_, changes_pending hreachable⟩
  · exact ⟨0, Requests.sampleWrite "x", rfl, by decide +kernel, Or.inr hphase⟩
  · rw [Unseen, hread]
    simp

/-- Nothing is on its way: no request has yet to notify, the mailbox is empty, no tick is
outstanding, and no cycle is running. -/
structure Quiet (requests : List FileRequest) (s : System) : Prop where
  sent : ∀ i, i < requests.length → s.phase i ≠ .stored
  mailbox : s.mailbox = []
  sleeping : s.sleeping = 0
  cycle : s.cycle = none

/-- When nothing is on its way, the synthesizer has seen every change. -/
theorem seen_of_quiet {storage : String → Option String}
    (hs : Machine.Reachable (step config requests) (start storage) s) (hquiet : Quiet requests s)
    {path : String} (hchanged : Changed requests s path) :
    s.lastRead path = some (s.storage path) := by
  by_contra hunseen
  cases (tracked_of_reachable hs).pending path hchanged hunseen with
  | unsent i r hreq hpath hphase =>
      have hi : i < requests.length := (List.getElem?_eq_some_iff.mp hreq).1
      exact hquiet.sent i hi hphase
  | mailed msg hmsg hpath =>
      rw [hquiet.mailbox] at hmsg
      contradiction
  | collected file hfile hpath htick =>
      rw [outstanding, hquiet.sleeping, hquiet.mailbox] at htick
      contradiction
  | unread cycle hcycle hread =>
      rw [hquiet.cycle] at hcycle
      contradiction

end System

end Memory
end MemoryHub
