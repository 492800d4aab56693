import MemoryHub.Lib.Machine
import MemoryHub.Memory.Message
import MemoryHub.Memory.Path

/-!
# The LLM service and its synthesis tasks

The service hands each synthesis request to the task of its target, which it starts when
there is none.  A task ends by itself when it has been idle for long enough; a watcher then
tells the service, which forgets the task.  The notice names the target only, and until it
is handled the service still hands requests to the ended task.

Main results:

- Theorem `one_task_per_target`: whatever the order of requests, ends and notices, each live
  task is the one its target maps to.
- Theorem `requests_answered_iff`: when exactly no request is lost to an idle end.
-/

namespace MemoryHub
namespace Llm

open Memory (SourceDoc SynthesisTarget)

/-! ## A task -/

/-- Synthesize `sources` into the target's running summary. -/
structure Synthesize where
  target : SynthesisTarget
  priorSummary : Option String
  sources : List SourceDoc
deriving DecidableEq

inductive Role where
  | system
  | user
  | assistant
deriving DecidableEq, Repr

structure ChatMessage where
  role : Role
  content : String
deriving DecidableEq, Repr

/-- `render_sources`. -/
def renderSources (sources : List SourceDoc) : String :=
  sources.foldl (fun out doc => out ++ ("## " ++ doc.name ++ "\n\n" ++ doc.content ++ "\n\n"))
    "New or changed documents to fold into the synthesis:\n\n"

/-- The configuration of the tasks. -/
structure LlmConfig where
  synthesisIdleTimeoutSecs : Nat
  synthesisContextMaxChars : Nat
deriving DecidableEq, Repr

/-- The state of a task; instants are in seconds. -/
structure SynthesisTask where
  history : List ChatMessage
  lastActivity : Nat
deriving DecidableEq, Repr

namespace SynthesisTask

/-- `SynthesisTask::new`. -/
def new (now : Nat) : SynthesisTask :=
  ⟨[], now⟩

/-- The turns a request adds: the prior summary to an empty history, then the sources. -/
def userTurns (task : SynthesisTask) (msg : Synthesize) : List ChatMessage :=
  (match task.history, msg.priorSummary with
    | [], some summary => [⟨.user, "Current summary so far:\n\n" ++ summary⟩]
    | _, _ => []) ++ [⟨.user, renderSources msg.sources⟩]

/-- `Handler<Synthesize>`, with what loading the template and the retried call to the provider
return, and the instants at which it starts and ends. -/
def handle (config : LlmConfig) (task : SynthesisTask) (msg : Synthesize)
    (template : Except LlmError String) (chat : List ChatMessage → Except LlmError String)
    (started finished : Nat) : Except LlmError String × SynthesisTask :=
  match template with
  | .error e => (.error e, { task with lastActivity := started })
  | .ok system =>
      let history := task.history ++ task.userTurns msg
      match chat (⟨.system, system⟩ :: history) with
      | .error e => (.error e, { task with lastActivity := started })
      | .ok reply =>
          let history := history ++ [⟨.assistant, reply⟩]
          let total := (history.map fun m => m.content.utf8ByteSize).sum
          (.ok reply,
            ⟨if config.synthesisContextMaxChars < total then [] else history, finished⟩)

/-- The check of the task's timer: it has been idle for long enough to terminate. -/
def isIdle (config : LlmConfig) (task : SynthesisTask) (now : Nat) : Bool :=
  config.synthesisIdleTimeoutSecs ≤ now - task.lastActivity

end SynthesisTask

/-! ## The service -/

/-- A request, told apart by its number. -/
structure Request where
  id : Nat
  msg : Synthesize
deriving DecidableEq

/-- Why a task has ended. -/
inductive EndCause where
  | idle
  | panic
deriving DecidableEq, Repr

/-- How a request ends: with the outcome of the task's handler, without a task since none
could be started, or with a failure to send to an ended task or to receive from it. -/
inductive Reply where
  | handled (outcome : Except LlmError String)
  | notStarted (e : LlmError)
  | sendError (cause : EndCause)
  | recvError (cause : EndCause)
deriving DecidableEq

/-- A task that is running, and the messages in its mailbox. -/
structure LiveTask where
  target : SynthesisTarget
  task : SynthesisTask
  mailbox : List Request

/-- The service's map, its tasks by address, the notices on their way, the requests handed to
an address but not sent yet, and the replies. -/
structure LlmService where
  tasks : SynthesisTarget → Option Nat
  live : Nat → Option LiveTask
  ended : Nat → Option EndCause
  nextAddress : Nat
  notices : List SynthesisTarget
  routed : List (Request × Nat)
  replies : List (Request × Reply)
  now : Nat

/-- What can happen. -/
inductive LlmStep where
  | synthesize (r : Request) (startError : Option LlmError)
  | send (r : Request) (address : Nat)
  | handle (address : Nat) (started : Nat) (template : Except LlmError String)
      (chat : List ChatMessage → Except LlmError String)
  | finish (address : Nat) (cause : EndCause)
  | terminated (target : SynthesisTarget)
  | pass (secs : Nat)

namespace LlmService

/-- `LlmService::new`. -/
def new : LlmService where
  tasks _ := none
  live _ := none
  ended _ := none
  nextAddress := 0
  notices := []
  routed := []
  replies := []
  now := 0

/-- `Handler<Synthesize>`: find the target's task or start one. -/
def handleSynthesize (s : LlmService) (r : Request) (startError : Option LlmError) : LlmService :=
  match s.tasks r.msg.target with
  | some address => { s with routed := s.routed ++ [(r, address)] }
  | none =>
      match startError with
      | some e => { s with replies := s.replies ++ [(r, .notStarted e)] }
      | none =>
          { s with
            tasks := Function.update s.tasks r.msg.target (some s.nextAddress)
            live := Function.update s.live s.nextAddress
              (some ⟨r.msg.target, .new s.now, []⟩)
            nextAddress := s.nextAddress + 1
            routed := s.routed ++ [(r, s.nextAddress)] }

/-- `task.send(msg)`: a live task takes the message into its mailbox, an ended one refuses. -/
def deliver (s : LlmService) (r : Request) (address : Nat) : LlmService :=
  match s.live address with
  | some t =>
      { s with
        live := Function.update s.live address (some { t with mailbox := t.mailbox ++ [r] }) }
  | none =>
      match s.ended address with
      | some cause => { s with replies := s.replies ++ [(r, .sendError cause)] }
      | none => s

/-- A task ends: what is left in its mailbox is dropped, and a notice is on its way. -/
def endTask (s : LlmService) (address : Nat) (t : LiveTask) (cause : EndCause) : LlmService :=
  { s with
    live := Function.update s.live address none
    ended := Function.update s.ended address (some cause)
    notices := s.notices ++ [t.target]
    replies := s.replies ++ t.mailbox.map fun r => (r, .recvError cause) }

/-- `Handler<SynthesisTaskTerminated>`. -/
def handleTerminated (s : LlmService) (target : SynthesisTarget) : LlmService :=
  { s with
    tasks := Function.update s.tasks target none
    notices := s.notices.erase target }

/-- One step; `none` if it cannot happen. -/
def step (config : LlmConfig) (s : LlmService) : LlmStep → Option LlmService
  | .synthesize r startError => some (s.handleSynthesize r startError)
  | .send r address =>
      if (r, address) ∈ s.routed then
        let s := { s with routed := s.routed.erase (r, address) }
        some (s.deliver r address)
      else none
  | .handle address started template chat =>
      match s.live address with
      | some t =>
          match t.mailbox with
          | r :: rest =>
              if t.task.lastActivity ≤ started ∧ started ≤ s.now then
                let (outcome, task) := t.task.handle config r.msg template chat started s.now
                some { s with
                  live := Function.update s.live address (some ⟨t.target, task, rest⟩)
                  replies := s.replies ++ [(r, .handled outcome)] }
              else none
          | [] => none
      | none => none
  | .finish address cause =>
      match s.live address with
      | some t =>
          if cause = .panic ∨ t.task.isIdle config s.now then some (s.endTask address t cause)
          else none
      | none => none
  | .terminated target => if target ∈ s.notices then some (s.handleTerminated target) else none
  | .pass secs => some { s with now := s.now + secs }

/-! ### What makes a step possible, and where it leads -/

theorem step_send_eq_some {config : LlmConfig} {s s' : LlmService} {r : Request} {address : Nat} :
    step config s (.send r address) = some s' ↔ (r, address) ∈ s.routed ∧
      { s with routed := s.routed.erase (r, address) }.deliver r address = s' := by
  simp [step]

theorem step_handle_eq_some {config : LlmConfig} {s s' : LlmService} {address started : Nat}
    {template : Except LlmError String} {chat : List ChatMessage → Except LlmError String} :
    step config s (.handle address started template chat) = some s' ↔
      ∃ t r rest, s.live address = some t ∧ t.mailbox = r :: rest ∧
        (t.task.lastActivity ≤ started ∧ started ≤ s.now) ∧
        { s with
          live := Function.update s.live address
            (some ⟨t.target, (t.task.handle config r.msg template chat started s.now).2, rest⟩)
          replies := s.replies ++
            [(r, .handled (t.task.handle config r.msg template chat started s.now).1)] } = s' := by
  cases hlive : s.live address with
  | none => simp [step, hlive]
  | some t =>
      cases hmail : t.mailbox with
      | nil => simp [step, hlive, hmail]
      | cons r rest => simp [step, hlive, hmail]

theorem step_finish_eq_some {config : LlmConfig} {s s' : LlmService} {address : Nat}
    {cause : EndCause} :
    step config s (.finish address cause) = some s' ↔ ∃ t, s.live address = some t ∧
      (cause = .panic ∨ t.task.isIdle config s.now) ∧ s.endTask address t cause = s' := by
  cases hlive : s.live address with
  | none => simp [step, hlive]
  | some t => simp [step, hlive]

theorem step_terminated_eq_some {config : LlmConfig} {s s' : LlmService}
    {target : SynthesisTarget} :
    step config s (.terminated target) = some s' ↔
      target ∈ s.notices ∧ s.handleTerminated target = s' := by
  simp [step]

/-! ## One task per target -/

/-- The target of a live task. -/
def liveTarget (s : LlmService) (address : Nat) : Option SynthesisTarget :=
  (s.live address).map LiveTask.target

theorem liveTarget_eq_some {s : LlmService} {address : Nat} {target : SynthesisTarget} :
    s.liveTarget address = some target ↔ ∃ t, s.live address = some t ∧ t.target = target := by
  rw [liveTarget, Option.map_eq_some_iff]

theorem map_target_update (live : Nat → Option LiveTask) (address : Nat) (t : Option LiveTask) :
    (fun a => (Function.update live address t a).map LiveTask.target) =
      Function.update (fun a => (live a).map LiveTask.target) address
        (t.map LiveTask.target) := by
  funext a
  by_cases ha : a = address
  · simp [ha]
  · simp [ha]

/-- What a step does to the map, the notices and the live tasks: nothing; start a task for a
target that has none in the map; end a task; or handle a notice. -/
theorem step_cases {config : LlmConfig} {s s' : LlmService} {a : LlmStep}
    (h : step config s a = some s') :
    (s'.tasks = s.tasks ∧ s'.notices = s.notices ∧ s'.nextAddress = s.nextAddress ∧
        s'.liveTarget = s.liveTarget) ∨
      (∃ target, s.tasks target = none ∧
        s'.tasks = Function.update s.tasks target (some s.nextAddress) ∧
        s'.notices = s.notices ∧ s'.nextAddress = s.nextAddress + 1 ∧
        s'.liveTarget = Function.update s.liveTarget s.nextAddress (some target)) ∨
      (∃ address target, s.liveTarget address = some target ∧ s'.tasks = s.tasks ∧
        s'.notices = s.notices ++ [target] ∧ s'.nextAddress = s.nextAddress ∧
        s'.liveTarget = Function.update s.liveTarget address none) ∨
      (∃ target, target ∈ s.notices ∧ a = .terminated target ∧
        s'.tasks = Function.update s.tasks target none ∧
        s'.notices = s.notices.erase target ∧ s'.nextAddress = s.nextAddress ∧
        s'.liveTarget = s.liveTarget) := by
  have hsame : ∀ {address : Nat} {t u : LiveTask}, s.live address = some t →
      u.target = t.target → (fun a => (Function.update s.live address (some u) a).map
        LiveTask.target) = s.liveTarget := by
    intro address t u ht hu
    rw [map_target_update]
    funext b
    by_cases hb : b = address
    · simp [hb, liveTarget, ht, hu]
    · simp [hb, liveTarget]
  cases a with
  | synthesize r startError =>
      cases h
      unfold handleSynthesize
      cases htask : s.tasks r.msg.target with
      | some address => exact Or.inl ⟨rfl, rfl, rfl, rfl⟩
      | none =>
          cases startError with
          | some e => exact Or.inl ⟨rfl, rfl, rfl, rfl⟩
          | none =>
              refine Or.inr (Or.inl ⟨r.msg.target, htask, rfl, rfl, rfl, ?_⟩)
              exact map_target_update s.live s.nextAddress _
  | send r address =>
      rcases step_send_eq_some.mp h with ⟨-, rfl⟩
      unfold deliver
      cases hlive : s.live address with
      | some t => exact Or.inl ⟨rfl, rfl, rfl, hsame hlive rfl⟩
      | none =>
          cases s.ended address with
          | some cause => exact Or.inl ⟨rfl, rfl, rfl, rfl⟩
          | none => exact Or.inl ⟨rfl, rfl, rfl, rfl⟩
  | handle address started template chat =>
      rcases step_handle_eq_some.mp h with ⟨t, r, rest, hlive, -, -, rfl⟩
      exact Or.inl ⟨rfl, rfl, rfl, hsame hlive rfl⟩
  | finish address cause =>
      rcases step_finish_eq_some.mp h with ⟨t, hlive, -, rfl⟩
      refine Or.inr (Or.inr (Or.inl ⟨address, t.target, ?_, rfl, rfl, rfl, ?_⟩))
      · exact liveTarget_eq_some.mpr ⟨t, hlive, rfl⟩
      · exact map_target_update s.live address none
  | terminated target =>
      rcases step_terminated_eq_some.mp h with ⟨hnotice, rfl⟩
      exact Or.inr (Or.inr (Or.inr ⟨target, hnotice, rfl, rfl, rfl, rfl, rfl⟩))
  | pass secs =>
      cases h
      exact Or.inl ⟨rfl, rfl, rfl, rfl⟩

/-- Each live task is the one its target maps to.  A target with a notice on its way has only
one, still has its entry in the map, and has no live task. -/
structure TasksMapped (s : LlmService) : Prop where
  fresh : ∀ address, s.nextAddress ≤ address → s.liveTarget address = none
  mapped : ∀ address target, s.liveTarget address = some target → s.tasks target = some address
  notices_nodup : s.notices.Nodup
  noticed_mapped : ∀ target ∈ s.notices, s.tasks target ≠ none
  noticed_dead : ∀ target ∈ s.notices, ∀ address, s.liveTarget address ≠ some target

theorem new_tasksMapped : TasksMapped new :=
  ⟨fun _ _ => rfl, by simp [liveTarget, new], List.nodup_nil, by simp [new], by simp [new]⟩

/-- The invariant speaks of the map, the notices and the live tasks only. -/
theorem TasksMapped.of_eq {s s' : LlmService} (hs : TasksMapped s) (htasks : s'.tasks = s.tasks)
    (hnotices : s'.notices = s.notices) (hnext : s'.nextAddress = s.nextAddress)
    (hlive : s'.liveTarget = s.liveTarget) : TasksMapped s' := by
  rcases hs with ⟨hfresh, hmapped, hnodup, hnoticed, hdead⟩
  constructor
  · rwa [hnext, hlive]
  · rwa [hlive, htasks]
  · rwa [hnotices]
  · rwa [hnotices, htasks]
  · rwa [hnotices, hlive]

/-- A task is started for a target that had none, so no notice is on its way for it. -/
theorem TasksMapped.started {s s' : LlmService} (hs : TasksMapped s) {target : SynthesisTarget}
    (hnone : s.tasks target = none)
    (htasks : s'.tasks = Function.update s.tasks target (some s.nextAddress))
    (hnotices : s'.notices = s.notices) (hnext : s'.nextAddress = s.nextAddress + 1)
    (hlive : s'.liveTarget = Function.update s.liveTarget s.nextAddress (some target)) :
    TasksMapped s' := by
  have hother : ∀ target' ∈ s.notices, target' ≠ target := by
    rintro target' hmem rfl
    exact hs.noticed_mapped target' hmem hnone
  constructor
  · intro address haddress
    rw [hnext] at haddress
    rw [hlive, Function.update_of_ne (by omega)]
    exact hs.fresh address (by omega)
  · intro address target' hlive'
    rw [hlive] at hlive'
    rw [htasks]
    by_cases haddress : address = s.nextAddress
    · rw [haddress, Function.update_self] at hlive'
      rw [← Option.some.inj hlive', Function.update_self, haddress]
    · rw [Function.update_of_ne haddress] at hlive'
      have hentry := hs.mapped address target' hlive'
      have hne : target' ≠ target := by
        rintro rfl
        rw [hnone] at hentry
        contradiction
      rw [Function.update_of_ne hne]
      exact hentry
  · rw [hnotices]
    exact hs.notices_nodup
  · intro target' hmem
    rw [hnotices] at hmem
    rw [htasks, Function.update_of_ne (hother target' hmem)]
    exact hs.noticed_mapped target' hmem
  · intro target' hmem address hlive'
    rw [hnotices] at hmem
    rw [hlive] at hlive'
    by_cases haddress : address = s.nextAddress
    · rw [haddress, Function.update_self] at hlive'
      exact hother target' hmem (Option.some.inj hlive').symm
    · rw [Function.update_of_ne haddress] at hlive'
      exact hs.noticed_dead target' hmem address hlive'

/-- A task that ends was live, so no notice is on its way for its target yet. -/
theorem TasksMapped.ended {s s' : LlmService} (hs : TasksMapped s) {address : Nat}
    {target : SynthesisTarget} (htarget : s.liveTarget address = some target)
    (htasks : s'.tasks = s.tasks) (hnotices : s'.notices = s.notices ++ [target])
    (hnext : s'.nextAddress = s.nextAddress)
    (hlive : s'.liveTarget = Function.update s.liveTarget address none) : TasksMapped s' := by
  have hnew : target ∉ s.notices := by
    intro hmem
    exact hs.noticed_dead target hmem address htarget
  have hlive_of : ∀ address' target', s'.liveTarget address' = some target' →
      address' ≠ address ∧ s.liveTarget address' = some target' := by
    intro address' target' hlive'
    rw [hlive] at hlive'
    by_cases haddress : address' = address
    · rw [haddress, Function.update_self] at hlive'
      contradiction
    · rw [Function.update_of_ne haddress] at hlive'
      exact ⟨haddress, hlive'⟩
  constructor
  · intro address' haddress
    rw [hnext] at haddress
    apply Option.eq_none_iff_forall_ne_some.mpr
    intro target' hlive'
    have hold := (hlive_of address' target' hlive').2
    rw [hs.fresh address' haddress] at hold
    contradiction
  · intro address' target' hlive'
    rw [htasks]
    exact hs.mapped address' target' (hlive_of address' target' hlive').2
  · rw [hnotices]
    exact hs.notices_nodup.append (List.nodup_singleton target) (by simpa using hnew)
  · intro target' hmem
    rw [htasks]
    rw [hnotices] at hmem
    rcases List.mem_append.mp hmem with hold | hlast
    · exact hs.noticed_mapped target' hold
    · rw [List.mem_singleton.mp hlast, hs.mapped address target htarget]
      simp
  · intro target' hmem address' hlive'
    rcases hlive_of address' target' hlive' with ⟨hne, hold⟩
    rw [hnotices] at hmem
    rcases List.mem_append.mp hmem with hbefore | hlast
    · exact hs.noticed_dead target' hbefore address' hold
    · -- Another live task of the same target would be the one in the map.
      rw [List.mem_singleton.mp hlast] at hold
      have hentry := hs.mapped address' target hold
      rw [hs.mapped address target htarget] at hentry
      exact hne (Option.some.inj hentry).symm

/-- A target with a notice on its way has no live task to forget, and no second notice. -/
theorem TasksMapped.forgotten {s s' : LlmService} (hs : TasksMapped s) {target : SynthesisTarget}
    (hnotice : target ∈ s.notices) (htasks : s'.tasks = Function.update s.tasks target none)
    (hnotices : s'.notices = s.notices.erase target) (hnext : s'.nextAddress = s.nextAddress)
    (hlive : s'.liveTarget = s.liveTarget) : TasksMapped s' := by
  have hremaining : ∀ target' ∈ s'.notices, target' ≠ target ∧ target' ∈ s.notices := by
    intro target' hmem
    rw [hnotices] at hmem
    exact hs.notices_nodup.mem_erase_iff.mp hmem
  constructor
  · rw [hnext, hlive]
    exact hs.fresh
  · intro address target' hlive'
    rw [hlive] at hlive'
    have hne : target' ≠ target := by
      rintro rfl
      exact hs.noticed_dead target' hnotice address hlive'
    rw [htasks, Function.update_of_ne hne]
    exact hs.mapped address target' hlive'
  · rw [hnotices]
    exact hs.notices_nodup.erase target
  · intro target' hmem
    rcases hremaining target' hmem with ⟨hne, hold⟩
    rw [htasks, Function.update_of_ne hne]
    exact hs.noticed_mapped target' hold
  · intro target' hmem
    rw [hlive]
    exact hs.noticed_dead target' (hremaining target' hmem).2

/-- Every step keeps each live task mapped. -/
theorem tasksMapped_step {config : LlmConfig} {s s' : LlmService} {a : LlmStep}
    (hs : TasksMapped s) (h : step config s a = some s') : TasksMapped s' := by
  rcases step_cases h with
    ⟨htasks, hnotices, hnext, hlive⟩ | ⟨target, hnone, htasks, hnotices, hnext, hlive⟩ |
      ⟨address, target, htarget, htasks, hnotices, hnext, hlive⟩ |
      ⟨target, hnotice, -, htasks, hnotices, hnext, hlive⟩
  · exact hs.of_eq htasks hnotices hnext hlive
  · exact hs.started hnone htasks hnotices hnext hlive
  · exact hs.ended htarget htasks hnotices hnext hlive
  · exact hs.forgotten hnotice htasks hnotices hnext hlive

/-- In every state reached by requests, ends of tasks and notices in any order, a target has at
most one live task, that task is the one the target maps to, and handling a notice removes the
map entry of no live task. -/
theorem one_task_per_target {config : LlmConfig} {as : List LlmStep} {s : LlmService}
    (hrun : Machine.run (step config) new as = some s) :
    (∀ a b t u, s.live a = some t → s.live b = some u → t.target = u.target → a = b) ∧
      (∀ a t, s.live a = some t → s.tasks t.target = some a) ∧
      (∀ target s', step config s (.terminated target) = some s' → ∀ a t, s'.live a = some t →
        s'.tasks t.target = some a) := by
  have hs : TasksMapped s :=
    Machine.run_invariant (fun _ _ _ => tasksMapped_step) new_tasksMapped hrun
  have hentry : ∀ a t, s.live a = some t → s.tasks t.target = some a :=
    fun a t ht => hs.mapped a t.target (liveTarget_eq_some.mpr ⟨t, ht, rfl⟩)
  refine ⟨?_, hentry, ?_⟩
  · intro a b t u ht hu htarget
    have ha := hentry a t ht
    rw [htarget, hentry b u hu] at ha
    exact (Option.some.inj ha).symm
  · intro target s' hstep a t ht
    have hs' := tasksMapped_step hs hstep
    exact hs'.mapped a t.target (liveTarget_eq_some.mpr ⟨t, ht, rfl⟩)

/-- A task is started, ends when idle, and is forgotten; the next request starts another. -/
def respawnRun : List LlmStep :=
  [.synthesize ⟨0, ⟨.global, none, []⟩⟩ none, .send ⟨0, ⟨.global, none, []⟩⟩ 0,
    .handle 0 0 (.ok "") fun _ => .ok "Summary.", .pass 60, .finish 0 .idle, .terminated .global,
    .synthesize ⟨1, ⟨.global, none, []⟩⟩ none]

/-- The second task is the one the target maps to, as every live task is. -/
theorem respawned_task_mapped :
    ∃ s, Machine.run (step ⟨60, 1000⟩) new respawnRun = some s ∧ s.tasks .global = some 1 ∧
      ∀ a t, s.live a = some t → s.tasks t.target = some a := by
  have hentry : (Machine.run (step ⟨60, 1000⟩) new respawnRun).map (fun s => s.tasks .global) =
      some (some 1) := by
    decide +kernel
  rcases Option.map_eq_some_iff.mp hentry with ⟨s, hrun, htask⟩
  exact ⟨s, hrun, htask, (one_task_per_target hrun).2.1⟩

/-! ## What becomes of a request -/

/-- The request has not reached its task yet, or is in the task's mailbox. -/
def Waiting (s : LlmService) (r : Request) : Prop :=
  (∃ address, (r, address) ∈ s.routed) ∨ ∃ address t, s.live address = some t ∧ r ∈ t.mailbox

/-- The request has been answered with `reply`. -/
def Answered (s : LlmService) (r : Request) (reply : Reply) : Prop :=
  (r, reply) ∈ s.replies

/-- The request is on its way to an answer, or has got one. -/
def Has (s : LlmService) (r : Request) : Prop :=
  s.Waiting r ∨ ∃ reply, s.Answered r reply

/-- The step gives the request this reply: no task could be started for it; the task it is
sent to has ended; it is the next in its task's mailbox, and this is what the handler returns
for it; or it is still in the mailbox of a task that ends. -/
def Gives (config : LlmConfig) (s : LlmService) (r : Request) (reply : Reply) : LlmStep → Prop
  | .synthesize submitted (some e) =>
      s.tasks submitted.msg.target = none ∧ r = submitted ∧ reply = .notStarted e
  | .send sent address => ∃ cause, s.live address = none ∧ s.ended address = some cause ∧
      r = sent ∧ reply = .sendError cause
  | .handle address started template chat => ∃ t rest, s.live address = some t ∧
      t.mailbox = r :: rest ∧
      reply = .handled (t.task.handle config r.msg template chat started s.now).1
  | .finish address cause => ∃ t, s.live address = some t ∧ r ∈ t.mailbox ∧
      reply = .recvError cause
  | _ => False

/-- A step of the run gave the request this reply. -/
def GivenIn (config : LlmConfig) (as : List LlmStep) (r : Request) (reply : Reply) : Prop :=
  Machine.SomeStepMeets (step config) (fun s a => s.Gives config r reply a) new as

end LlmService

/-- Due to a task that has ended because it was idle. -/
def Reply.LostToIdle : Reply → Prop
  | .sendError cause => cause = .idle
  | .recvError cause => cause = .idle
  | _ => False

namespace LlmService

/-- After the steps `as`, the request is on its way to an answer or has got one; every answer
it got was given to it in the run, by its task's handler if it is an outcome, and none is due
to a task that ended because it was idle. -/
def Served (config : LlmConfig) (as : List LlmStep) (s : LlmService) (r : Request) : Prop :=
  s.Has r ∧ ∀ reply, s.Answered r reply → GivenIn config as r reply ∧ ¬ reply.LostToIdle

/-- No request is sent to a task that has ended idle, and a task that ends idle has no
request in its mailbox. -/
def SparesRequests (s : LlmService) : LlmStep → Prop
  | .send _ address => s.ended address ≠ some .idle
  | .finish address .idle => ∀ t, s.live address = some t → t.mailbox = []
  | _ => True

/-- An address handed out is that of a live task or of one that has ended, and requests are
only sent to such. -/
structure Addressed (s : LlmService) : Prop where
  fresh : ∀ address, s.nextAddress ≤ address → s.live address = none ∧ s.ended address = none
  known : ∀ address, address < s.nextAddress → (s.live address = none ↔ s.ended address ≠ none)
  routed : ∀ p ∈ s.routed, p.2 < s.nextAddress
  mapped : ∀ target address, s.tasks target = some address → address < s.nextAddress

theorem new_addressed : Addressed new :=
  ⟨fun _ _ => ⟨rfl, rfl⟩, by simp [new], by simp [new], by simp [new]⟩

/-- A live task has an address that was handed out. -/
theorem Addressed.lt_of_live {s : LlmService} (hs : Addressed s) {address : Nat} {t : LiveTask}
    (ht : s.live address = some t) : address < s.nextAddress := by
  by_contra hge
  have hnone := (hs.fresh address (by omega)).1
  rw [ht] at hnone
  contradiction

/-- Changing the mailbox or the state of a live task keeps the addresses. -/
theorem Addressed.update_live {s : LlmService} (hs : Addressed s) {address : Nat} {t u : LiveTask}
    (ht : s.live address = some t) {replies : List (Request × Reply)}
    {routed : List (Request × Nat)} (hrouted : ∀ p ∈ routed, p ∈ s.routed) :
    Addressed { s with
      live := Function.update s.live address (some u), replies := replies, routed := routed } := by
  have hlt := hs.lt_of_live ht
  constructor
  · intro address' haddress
    dsimp only at haddress ⊢
    rw [Function.update_of_ne (by omega)]
    exact hs.fresh address' haddress
  · intro address' haddress
    dsimp only at haddress ⊢
    by_cases heq : address' = address
    · have hknown := hs.known address hlt
      rw [heq, Function.update_self]
      simp only [ht, reduceCtorEq, false_iff] at hknown ⊢
      exact hknown
    · rw [Function.update_of_ne heq]
      exact hs.known address' haddress
  · intro p hp
    exact hs.routed p (hrouted p hp)
  · exact hs.mapped

/-- Dropping requests and adding replies keeps the addresses. -/
theorem Addressed.of_routed {s : LlmService} (hs : Addressed s) {replies : List (Request × Reply)}
    {routed : List (Request × Nat)} (hrouted : ∀ p ∈ routed, p ∈ s.routed) :
    Addressed { s with replies := replies, routed := routed } :=
  ⟨hs.fresh, hs.known, fun p hp => hs.routed p (hrouted p hp), hs.mapped⟩

/-- A request is handed to the address its target maps to. -/
theorem Addressed.handedOut {s : LlmService} (hs : Addressed s) {r : Request} {address : Nat}
    (htask : s.tasks r.msg.target = some address) :
    Addressed { s with routed := s.routed ++ [(r, address)] } := by
  refine ⟨hs.fresh, hs.known, ?_, hs.mapped⟩
  intro p hp
  rcases List.mem_append.mp hp with hold | hlast
  · exact hs.routed p hold
  · rw [List.mem_singleton.mp hlast]
    exact hs.mapped _ _ htask

/-- A started task gets the next address, which its target maps to, and the request. -/
theorem Addressed.started {s : LlmService} (hs : Addressed s) (r : Request) (t : LiveTask) :
    Addressed { s with
      tasks := Function.update s.tasks r.msg.target (some s.nextAddress)
      live := Function.update s.live s.nextAddress (some t)
      nextAddress := s.nextAddress + 1
      routed := s.routed ++ [(r, s.nextAddress)] } := by
  constructor
  · intro address haddress
    dsimp only at haddress ⊢
    rw [Function.update_of_ne (by omega)]
    exact hs.fresh address (by omega)
  · intro address haddress
    dsimp only at haddress ⊢
    by_cases heq : address = s.nextAddress
    · rw [heq, Function.update_self, (hs.fresh _ le_rfl).2]
      simp
    · rw [Function.update_of_ne heq]
      exact hs.known address (by omega)
  · intro p hp
    dsimp only at hp ⊢
    rcases List.mem_append.mp hp with hold | hlast
    · have hlt := hs.routed p hold
      omega
    · rw [List.mem_singleton.mp hlast]
      omega
  · intro target address hentry
    dsimp only at hentry ⊢
    by_cases heq : target = r.msg.target
    · rw [heq, Function.update_self] at hentry
      have haddress := Option.some.inj hentry
      omega
    · rw [Function.update_of_ne heq] at hentry
      have hlt := hs.mapped target address hentry
      omega

/-- The address of a task that ends passes from the live ones to the ended ones. -/
theorem Addressed.endTask {s : LlmService} (hs : Addressed s) {address : Nat} {t : LiveTask}
    (ht : s.live address = some t) (cause : EndCause) : Addressed (s.endTask address t cause) := by
  have hlt := hs.lt_of_live ht
  refine ⟨?_, ?_, hs.routed, hs.mapped⟩
  · intro address' haddress
    dsimp only [LlmService.endTask] at haddress ⊢
    rw [Function.update_of_ne (by omega), Function.update_of_ne (by omega)]
    exact hs.fresh address' haddress
  · intro address' haddress
    dsimp only [LlmService.endTask] at haddress ⊢
    by_cases heq : address' = address
    · simp [heq]
    · rw [Function.update_of_ne heq, Function.update_of_ne heq]
      exact hs.known address' haddress

theorem Addressed.handleTerminated {s : LlmService} (hs : Addressed s)
    (target : SynthesisTarget) : Addressed (s.handleTerminated target) := by
  refine ⟨hs.fresh, hs.known, hs.routed, ?_⟩
  intro target' address hentry
  dsimp only [LlmService.handleTerminated] at hentry
  by_cases heq : target' = target
  · rw [heq, Function.update_self] at hentry
    contradiction
  · rw [Function.update_of_ne heq] at hentry
    exact hs.mapped target' address hentry

theorem addressed_step {config : LlmConfig} {s s' : LlmService} {a : LlmStep}
    (hs : Addressed s) (h : step config s a = some s') : Addressed s' := by
  cases a with
  | synthesize r startError =>
      cases h
      unfold handleSynthesize
      cases htask : s.tasks r.msg.target with
      | some address => exact hs.handedOut htask
      | none =>
          cases startError with
          | some e => exact hs.of_routed fun _ hp => hp
          | none => exact hs.started r _
  | send r address =>
      rcases step_send_eq_some.mp h with ⟨-, rfl⟩
      have herase : ∀ p ∈ s.routed.erase (r, address), p ∈ s.routed :=
        fun p hp => List.mem_of_mem_erase hp
      unfold deliver
      dsimp only
      split
      · rename_i t hlive
        exact hs.update_live hlive herase
      · split
        · exact hs.of_routed herase
        · exact hs.of_routed herase
  | handle address started template chat =>
      rcases step_handle_eq_some.mp h with ⟨t, r, rest, hlive, -, -, rfl⟩
      exact hs.update_live hlive fun _ hp => hp
  | finish address cause =>
      rcases step_finish_eq_some.mp h with ⟨t, hlive, -, rfl⟩
      exact hs.endTask hlive cause
  | terminated target =>
      rcases step_terminated_eq_some.mp h with ⟨-, rfl⟩
      exact hs.handleTerminated target
  | pass secs =>
      cases h
      exact ⟨hs.fresh, hs.known, hs.routed, hs.mapped⟩

/-- The request is in the mailbox of one of the tasks. -/
def InMailbox (live : Nat → Option LiveTask) (r : Request) : Prop :=
  ∃ address t, live address = some t ∧ r ∈ t.mailbox

/-- The request is in the mailbox of a task at another address. -/
def InOtherMailbox (live : Nat → Option LiveTask) (address : Nat) (r : Request) : Prop :=
  ∃ other, other ≠ address ∧ ∃ t, live other = some t ∧ r ∈ t.mailbox

theorem inMailbox_update {live : Nat → Option LiveTask} {address : Nat} {t : Option LiveTask}
    {r : Request} :
    InMailbox (Function.update live address t) r ↔
      (∃ u, t = some u ∧ r ∈ u.mailbox) ∨ InOtherMailbox live address r := by
  constructor
  · rintro ⟨other, u, hu, hr⟩
    by_cases heq : other = address
    · rw [heq, Function.update_self] at hu
      exact Or.inl ⟨u, hu, hr⟩
    · rw [Function.update_of_ne heq] at hu
      exact Or.inr ⟨other, heq, u, hu, hr⟩
  · rintro (⟨u, hu, hr⟩ | ⟨other, hne, u, hu, hr⟩)
    · exact ⟨address, u, by rw [Function.update_self, hu], hr⟩
    · exact ⟨other, u, by rw [Function.update_of_ne hne, hu], hr⟩

/-- The mailbox at one address, and the others. -/
theorem inMailbox_iff {live : Nat → Option LiveTask} (address : Nat) {r : Request} :
    InMailbox live r ↔
      (∃ u, live address = some u ∧ r ∈ u.mailbox) ∨ InOtherMailbox live address r := by
  rw [← inMailbox_update, Function.update_eq_self]

theorem has_iff {s : LlmService} {r : Request} :
    s.Has r ↔ r ∈ s.routed.map Prod.fst ∨ InMailbox s.live r ∨ r ∈ s.replies.map Prod.fst := by
  simp only [Has, Waiting, Answered, InMailbox, List.mem_map, Prod.exists, exists_and_right,
    exists_eq_right, or_assoc]

/-- A step loses no request, and the only one it adds is the one it submits. -/
theorem has_step {config : LlmConfig} {s s' : LlmService} {a : LlmStep} (hs : Addressed s)
    (h : step config s a = some s') (r : Request) :
    s'.Has r ↔ s.Has r ∨ ∃ startError, a = .synthesize r startError := by
  rw [has_iff, has_iff]
  cases a with
  | synthesize submitted startError =>
      have hsubmitted : (∃ e, LlmStep.synthesize submitted startError = .synthesize r e) ↔
          r = submitted := by
        simp [eq_comm]
      rw [hsubmitted]
      cases h
      unfold handleSynthesize
      cases htask : s.tasks submitted.msg.target with
      | some address =>
          simp only [List.map_append, List.mem_append, List.map_cons, List.map_nil,
            List.mem_singleton]
          tauto
      | none =>
          cases startError with
          | some e =>
              simp only [List.map_append, List.mem_append, List.map_cons, List.map_nil,
                List.mem_singleton]
              tauto
          | none =>
              rw [inMailbox_update, inMailbox_iff s.nextAddress, (hs.fresh _ le_rfl).1]
              simp only [List.map_append, List.mem_append, List.map_cons, List.map_nil,
                List.mem_singleton, Option.some.injEq, exists_eq_left', List.not_mem_nil,
                reduceCtorEq, false_and, exists_false, false_or]
              tauto
  | send sent address =>
      rcases step_send_eq_some.mp h with ⟨hrouted, rfl⟩
      have hmem : r ∈ s.routed.map Prod.fst ↔
          r = sent ∨ r ∈ (s.routed.erase (sent, address)).map Prod.fst := by
        rw [((List.perm_cons_erase hrouted).map Prod.fst).mem_iff, List.map_cons, List.mem_cons]
      rw [hmem]
      unfold deliver
      cases hlive : s.live address with
      | some t =>
          rw [inMailbox_update, inMailbox_iff address, hlive]
          simp only [Option.some.injEq, exists_eq_left', List.mem_append, List.mem_singleton,
            reduceCtorEq, exists_false, or_false]
          tauto
      | none =>
          have hended := (hs.known address (hs.routed _ hrouted)).mp hlive
          rcases Option.ne_none_iff_exists'.mp hended with ⟨cause, hcause⟩
          simp only [hcause, List.map_append, List.mem_append, List.map_cons, List.map_nil,
            List.mem_singleton, reduceCtorEq, exists_false, or_false]
          tauto
  | handle address started template chat =>
      rcases step_handle_eq_some.mp h with ⟨t, handled, rest, hlive, hmail, -, rfl⟩
      dsimp only
      rw [inMailbox_update, inMailbox_iff address, hlive]
      simp only [Option.some.injEq, exists_eq_left', hmail, List.mem_cons, List.map_append,
        List.mem_append, List.map_cons, List.map_nil, List.not_mem_nil, reduceCtorEq,
        exists_false, or_false]
      tauto
  | finish address cause =>
      rcases step_finish_eq_some.mp h with ⟨t, hlive, -, rfl⟩
      dsimp only [endTask]
      rw [inMailbox_update, inMailbox_iff address, hlive]
      simp only [Option.some.injEq, exists_eq_left', List.map_append, List.mem_append,
        List.map_map, Function.comp_def, List.map_id', reduceCtorEq, false_and, exists_false,
        false_or, or_false]
      tauto
  | terminated target =>
      rcases step_terminated_eq_some.mp h with ⟨-, rfl⟩
      simp [handleTerminated]
  | pass secs =>
      cases h
      simp

/-- The replies there were, and those a step adds. -/
theorem answered_append {s s' : LlmService} {replies : List (Request × Reply)}
    (h : s'.replies = s.replies ++ replies) (r : Request) (reply : Reply) :
    s'.Answered r reply ↔ s.Answered r reply ∨ (r, reply) ∈ replies := by
  rw [Answered, h, List.mem_append, Answered]

/-- A step answers what it gives a reply, and nothing else. -/
theorem answered_step {config : LlmConfig} {s s' : LlmService} {a : LlmStep}
    (h : step config s a = some s') (r : Request) (reply : Reply) :
    s'.Answered r reply ↔ s.Answered r reply ∨ s.Gives config r reply a := by
  cases a with
  | synthesize submitted startError =>
      cases h
      unfold handleSynthesize
      cases htask : s.tasks submitted.msg.target with
      | some address =>
          cases startError with
          | none => simp [Gives, Answered]
          | some e => simp [Gives, Answered, htask]
      | none =>
          cases startError with
          | none => simp [Gives, Answered]
          | some e =>
              rw [answered_append rfl]
              simp [Gives, htask]
  | send sent address =>
      rcases step_send_eq_some.mp h with ⟨-, rfl⟩
      unfold deliver
      cases hlive : s.live address with
      | some t => simp [Gives, Answered, hlive]
      | none =>
          cases hended : s.ended address with
          | none => simp [Gives, Answered, hended]
          | some cause =>
              rw [answered_append (s := s) rfl]
              simp [Gives, hlive, hended]
  | handle address started template chat =>
      rcases step_handle_eq_some.mp h with ⟨t, next, rest, hlive, hmail, -, rfl⟩
      rw [answered_append rfl, List.mem_singleton, Prod.mk.injEq]
      refine or_congr_right ⟨?_, ?_⟩
      · rintro ⟨rfl, rfl⟩
        exact ⟨t, rest, hlive, hmail, rfl⟩
      · rintro ⟨u, rest', hu, hrest, rfl⟩
        rw [hlive, Option.some.injEq] at hu
        subst hu
        rw [hmail, List.cons.injEq] at hrest
        rcases hrest with ⟨rfl, -⟩
        exact ⟨rfl, rfl⟩
  | finish address cause =>
      rcases step_finish_eq_some.mp h with ⟨t, hlive, -, rfl⟩
      rw [answered_append rfl]
      simp only [Gives, hlive, Option.some.injEq, exists_eq_left', List.mem_map, Prod.mk.injEq]
      refine or_congr_right ⟨?_, ?_⟩
      · rintro ⟨dropped, hmem, rfl, rfl⟩
        exact ⟨hmem, rfl⟩
      · rintro ⟨hmem, rfl⟩
        exact ⟨r, hmem, rfl, rfl⟩
  | terminated target =>
      rcases step_terminated_eq_some.mp h with ⟨-, rfl⟩
      simp [handleTerminated, Gives, Answered]
  | pass secs =>
      cases h
      simp [Gives, Answered]

/-- The answers of a run are the replies its steps gave. -/
theorem answered_run {config : LlmConfig} {as : List LlmStep} {s : LlmService}
    (hrun : Machine.run (step config) new as = some s) (r : Request) (reply : Reply) :
    s.Answered r reply ↔ GivenIn config as r reply := by
  refine Machine.run_history
    (P := fun as s => s.Answered r reply ↔ GivenIn config as r reply) ?_ ?_ hrun
  · simp [Answered, GivenIn, Machine.SomeStepMeets, new]
  · intro as a s t hprefix ih h
    rw [answered_step h, ih, GivenIn, GivenIn, Machine.someStepMeets_snoc hprefix]

/-- A step gives no reply due to an idle end exactly when it spares the requests. -/
theorem sparesRequests_iff {config : LlmConfig} {s s' : LlmService} {a : LlmStep}
    (hs : Addressed s) (h : step config s a = some s') :
    (∀ r reply, s.Gives config r reply a → ¬ reply.LostToIdle) ↔ s.SparesRequests a := by
  cases a with
  | synthesize submitted startError =>
      cases startError with
      | none => simp [Gives, SparesRequests]
      | some e =>
          refine iff_of_true ?_ trivial
          rintro r reply ⟨-, -, rfl⟩
          exact not_false
  | send sent address =>
      rcases step_send_eq_some.mp h with ⟨hrouted, -⟩
      have hdead := hs.known address (hs.routed _ hrouted)
      simp only [Gives, SparesRequests]
      constructor
      · intro hspared hidle
        have hlive : s.live address = none := hdead.mpr (by simp [hidle])
        exact hspared sent _ ⟨.idle, hlive, hidle, rfl, rfl⟩ rfl
      · rintro hspared r reply ⟨cause, -, hcause, -, rfl⟩ hlost
        rw [Reply.LostToIdle] at hlost
        exact hspared (hlost ▸ hcause)
  | handle address started template chat =>
      refine iff_of_true ?_ trivial
      rintro r reply ⟨t, rest, -, -, rfl⟩
      exact not_false
  | finish address cause =>
      cases cause with
      | idle =>
          simp only [Gives, SparesRequests, List.eq_nil_iff_forall_not_mem]
          constructor
          · intro hspared t hlive r hmem
            exact hspared r _ ⟨t, hlive, hmem, rfl⟩ rfl
          · rintro hspared r reply ⟨t, hlive, hmem, -⟩
            exact absurd hmem (hspared t hlive r)
      | panic =>
          refine iff_of_true ?_ trivial
          rintro r reply ⟨t, -, -, rfl⟩
          simp [Reply.LostToIdle]
  | terminated target => simp [Gives, SparesRequests]
  | pass secs => simp [Gives, SparesRequests]

/-- The service has a request exactly when the request has been submitted. -/
theorem has_run {config : LlmConfig} {as : List LlmStep} {s : LlmService}
    (hrun : Machine.run (step config) new as = some s) (r : Request) :
    s.Has r ↔ ∃ startError, .synthesize r startError ∈ as := by
  refine Machine.run_history
    (P := fun as s => s.Has r ↔ ∃ e, LlmStep.synthesize r e ∈ as) ?_ ?_ hrun
  · simp [Has, Waiting, Answered, new]
  · intro as a s t hprefix ih h
    have hs : Addressed s :=
      Machine.run_invariant (fun _ _ _ => addressed_step) new_addressed hprefix
    rw [has_step hs h, ih, ← exists_or]
    simp only [List.mem_append, List.mem_singleton, eq_comm]

/-- In every run, every request submitted is at each moment on its way to an answer or has got
one, which is what its task's handler returned for it unless no task could be started or a
panic ended the task, and none is due to an idle end, if and only if no step of the run sends
to a task that has ended idle or ends a task idle that has requests in its mailbox. -/
theorem requests_answered_iff (config : LlmConfig) (as : List LlmStep) :
    (∀ pre, pre <+: as → ∀ s, Machine.run (step config) new pre = some s →
        ∀ r startError, .synthesize r startError ∈ pre → s.Served config pre r) ↔
      Machine.StepsMeet (step config) SparesRequests new as := by
  rw [← Machine.throughout_iff_stepsMeet
    (I := fun s => ∀ r reply, s.Answered r reply → ¬ reply.LostToIdle) (J := Addressed)
    (fun _ _ _ => addressed_step) ?_ (by simp [Answered, new]) new_addressed,
    Machine.throughout_iff]
  · refine forall₂_congr fun pre _ => forall₂_congr fun s hrun => ?_
    constructor
    · intro h r reply hreply
      obtain ⟨e, hmem⟩ := (has_run hrun r).mp (Or.inr ⟨reply, hreply⟩)
      exact ((h r e hmem).2 reply hreply).2
    · intro h r e hmem
      refine ⟨(has_run hrun r).mpr ⟨e, hmem⟩, ?_⟩
      intro reply hreply
      exact ⟨(answered_run hrun r reply).mp hreply, h r reply hreply⟩
  · intro s a t hs hspared h
    simp only [answered_step h, or_imp, forall_and]
    rw [and_iff_right hspared, sparesRequests_iff hs h]

/-- A task ends when idle, and the next request is handled before the notice of its end. -/
def lateNoticeRun : List LlmStep :=
  [.synthesize ⟨0, ⟨.global, none, []⟩⟩ none, .send ⟨0, ⟨.global, none, []⟩⟩ 0,
    .handle 0 0 (.ok "") fun _ => .ok "Summary.", .pass 60, .finish 0 .idle,
    .synthesize ⟨1, ⟨.global, none, []⟩⟩ none, .send ⟨1, ⟨.global, none, []⟩⟩ 0]

/-- The second request fails to be sent to the task that has ended. -/
theorem request_lost_to_idle_end :
    ∃ s, Machine.run (step ⟨60, 1000⟩) new lateNoticeRun = some s ∧
      s.Answered ⟨1, ⟨.global, none, []⟩⟩ (.sendError .idle) ∧
      ¬ s.Served ⟨60, 1000⟩ lateNoticeRun ⟨1, ⟨.global, none, []⟩⟩ := by
  have hreplies : (Machine.run (step ⟨60, 1000⟩) new lateNoticeRun).map LlmService.replies =
      some [(⟨0, ⟨.global, none, []⟩⟩, .handled (.ok "Summary.")),
        (⟨1, ⟨.global, none, []⟩⟩, .sendError .idle)] := by
    decide +kernel
  rcases Option.map_eq_some_iff.mp hreplies with ⟨s, hrun, hs⟩
  have hlost : s.Answered ⟨1, ⟨.global, none, []⟩⟩ (.sendError .idle) := by
    rw [Answered, hs]
    simp
  refine ⟨s, hrun, hlost, ?_⟩
  intro hserved
  exact (hserved.2 _ hlost).2 rfl

end LlmService

end Llm
end MemoryHub
