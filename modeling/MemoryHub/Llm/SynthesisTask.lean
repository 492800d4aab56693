import MemoryHub.Lib.Machine
import MemoryHub.Llm.LlmService
import MemoryHub.Llm.Provider

/-!
# The history of a synthesis task

A task keeps the conversation it has had with the provider.  A request pushes its turns
before the call that may fail, and afterwards takes them back, or adds the reply; a history
that has grown too long is dropped, and the next request seeds it again from the summary so
far.  What the history stands for is a conversation: a seed, and exchanges of sources and
replies.

Main results:

- Theorem `exec_handleSynthesize`: the handler call by call is the handler of the service's
  model.
- Theorem `handle_refines`: in terms of conversations, a request extends, drops or keeps.
- Theorem `history_wellFormed`: after any requests the history is well formed and within its
  budget, a failed request leaves it as it was, and every call to the provider receives all
  of it.
-/

namespace MemoryHub
namespace Llm

open Machine
open Memory (SourceDoc)

/-! ## Prompt templates -/

/-- Which synthesis prompt a task uses. -/
inductive TemplateKind where
  | perAgent
  | perUser
  | global
deriving DecidableEq, Repr

namespace TemplateKind

def filename : TemplateKind → String
  | .perAgent => "per_agent.md"
  | .perUser => "per_user.md"
  | .global => "global.md"

/-- The templates compiled into the program. -/
def defaultContent : TemplateKind → String
  | .perAgent =>
      "You are a memory synthesizer for a single agent belonging to a user. You\n" ++
      "maintain a running, deduplicated summary of everything that matters about this\n" ++
      "agent's work, decisions, and knowledge across all of its projects.\n" ++
      "\n" ++
      "You will receive the current summary (if any) followed by new or changed source\n" ++
      "documents (raw memory files). Fold the new information into the summary: add\n" ++
      "what is new, update what changed, and drop nothing that still matters. Resolve\n" ++
      "contradictions in favor of the most recent document.\n" ++
      "\n" ++
      "Reply with the complete updated summary as Markdown, and nothing else.\n"
  | .perUser =>
      "You are a memory synthesizer for a single user. You maintain a running,\n" ++
      "deduplicated summary of everything that matters about this user's work,\n" ++
      "decisions, and knowledge.\n" ++
      "\n" ++
      "You will receive the current summary (if any) followed by new or changed\n" ++
      "source documents. Fold the new information into the summary: add what is\n" ++
      "new, update what changed, and drop nothing that still matters. Resolve\n" ++
      "contradictions in favor of the most recent document.\n" ++
      "\n" ++
      "Reply with the complete updated summary as Markdown, and nothing else.\n"
  | .global =>
      "You are a memory synthesizer for an organization. You maintain a running,\n" ++
      "cross-user summary that captures shared knowledge, overlapping work, and\n" ++
      "team-wide themes.\n" ++
      "\n" ++
      "You will receive the current global summary (if any) followed by updated\n" ++
      "per-user summaries. Fold them together: highlight what is common across\n" ++
      "users, surface connections between their work, and keep individual detail\n" ++
      "only where it matters organization-wide.\n" ++
      "\n" ++
      "Reply with the complete updated global summary as Markdown, and nothing else.\n"

end TemplateKind

/-! ## Calls of a task -/

/-- What a task asks of the disk, the provider and the clock.  Paths are given by their pieces. -/
inductive TaskCall where
  | isFile (path : List String)
  | readToString (path : List String)
  | chat (messages : List ChatMessage)
  | sleep (baseMs : Nat)
  | now

/-- What a call is answered with. -/
@[reducible]
def TaskCall.Response : TaskCall → Type
  | .isFile _ => Bool
  | .readToString _ => Except FileSystem.IoError String
  | .chat _ => Except LlmError ChatResponse
  | .sleep _ => Unit
  | .now => Nat

/-- A part of a handler. -/
abbrev TaskProg :=
  Prog TaskCall TaskCall.Response

/-- Make one call. -/
def TaskCall.ask (c : TaskCall) : TaskProg c.Response :=
  Prog.perform c

open TaskCall (ask)

/-- A task's own fields that do not change: its configuration, the name of its provider, and the
kind of its prompt. -/
structure TaskConfig extends LlmConfig where
  promptsDir : List String
  maxRetries : UInt32
  providerName : String
  kind : TemplateKind

/-- `fs::read_to_string(..).await.map_err(Into::into)`. -/
def readTemplate (path : List String) : TaskProg (Except LlmError String) := do
  match ← ask (.readToString path) with
  | .ok text => return .ok text
  | .error e => return .error (.loadTemplate e)

/-- The prompt template for a provider and a kind: its own, the common one, or the default. -/
def loadTemplate (promptsDir : List String) (providerName : String) (kind : TemplateKind) :
    TaskProg (Except LlmError String) := do
  let specific := promptsDir ++ [providerName, kind.filename]
  if ← ask (.isFile specific) then readTemplate specific
  else
    let defaultPath := promptsDir ++ [kind.filename]
    if ← ask (.isFile defaultPath) then readTemplate defaultPath
    else return .ok kind.defaultContent

namespace SynthesisTask

/-- `self.history.push(..)`. -/
def push (task : SynthesisTask) (role : Role) (content : String) : SynthesisTask :=
  { task with history := task.history ++ [⟨role, content⟩] }

/-- The retried call to the provider. -/
def chat (config : TaskConfig) (messages : List ChatMessage) :
    TaskProg (Except LlmError ChatResponse) :=
  retry config.maxRetries (ask (.chat messages)) fun ms => ask (.sleep ms)

/-- Reseed an empty history from the prior summary, and append the sources. -/
def pushTurns (task : SynthesisTask) (msg : Synthesize) : SynthesisTask :=
  let task :=
    match task.history.isEmpty, msg.priorSummary with
    | true, some summary => task.push .user ("Current summary so far:\n\n" ++ summary)
    | _, _ => task
  task.push .user (renderSources msg.sources)

/-- `Handler<Synthesize>`, from where the prompt has been loaded. -/
def converse (config : TaskConfig) (task : SynthesisTask) (msg : Synthesize) (system : String) :
    TaskProg (Except LlmError String × SynthesisTask) := do
  let restoreLen := task.history.length
  let task := task.pushTurns msg
  match ← chat config (⟨.system, system⟩ :: task.history) with
  | .error e => return (.error e, { task with history := task.history.take restoreLen })
  | .ok resp =>
      let task := task.push .assistant resp.content
      let finished ← ask .now
      let task := { task with lastActivity := finished }
      let total := (task.history.map fun m => m.content.utf8ByteSize).sum
      let task :=
        if config.synthesisContextMaxChars < total then { task with history := [] } else task
      return (.ok resp.content, task)

/-- `Handler<Synthesize>`. -/
def handleSynthesize (config : TaskConfig) (task : SynthesisTask) (msg : Synthesize) :
    TaskProg (Except LlmError String × SynthesisTask) := do
  let started ← ask .now
  let task := { task with lastActivity := started }
  match ← loadTemplate config.promptsDir config.providerName config.kind with
  | .error e => return (.error e, task)
  | .ok system => converse config task msg system

/-! ## One request -/

/-- The turn that seeds an empty history. -/
def seedTurns (history : List ChatMessage) (priorSummary : Option String) : List ChatMessage :=
  if history = [] then
    (priorSummary.map fun summary =>
      (⟨.user, "Current summary so far:\n\n" ++ summary⟩ : ChatMessage)).toList
  else []

theorem userTurns_eq (task : SynthesisTask) (msg : Synthesize) :
    task.userTurns msg =
      seedTurns task.history msg.priorSummary ++ [⟨.user, renderSources msg.sources⟩] := by
  rcases task with ⟨history, lastActivity⟩
  cases history with
  | nil => cases hprior : msg.priorSummary <;> simp [userTurns, seedTurns, hprior]
  | cons first rest => simp [userTurns, seedTurns]

theorem pushTurns_eq (task : SynthesisTask) (msg : Synthesize) :
    task.pushTurns msg = { task with history := task.history ++ task.userTurns msg } := by
  rcases task with ⟨history, lastActivity⟩
  cases history with
  | nil => cases hprior : msg.priorSummary <;> simp [pushTurns, push, userTurns, hprior]
  | cons first rest => simp [pushTurns, push, userTurns]

section

variable {σ : Type} (answer : (c : TaskCall) → σ → c.Response × σ) (config : TaskConfig)

/-- The prompt that a request loads. -/
def loadedPrompt (env : σ) : Except LlmError String :=
  (Prog.exec answer (loadTemplate config.promptsDir config.providerName config.kind)
    (answer .now env).2).1

/-- What follows the prompt is the rest of the handler of the service's model. -/
theorem exec_converse (task : SynthesisTask) (msg : Synthesize) (system : String) (env : σ) :
    ∃ reply finished, (Prog.exec answer (converse config task msg system) env).1 =
      task.handle config.toLlmConfig msg (.ok system) reply task.lastActivity finished := by
  rcases hchat : Prog.exec answer (chat config (⟨.system, system⟩ ::
    (task.history ++ task.userTurns msg))) env with ⟨result, env'⟩
  refine ⟨fun _ => result.map ChatResponse.content, (answer .now env').1, ?_⟩
  simp only [converse, pushTurns_eq, Prog.exec_bind, hchat]
  cases result with
  | error e =>
      simp only [Prog.exec_pure, handle, Except.map]
      rw [List.take_left' rfl]
  | ok resp =>
      simp only [Prog.exec_bind, ask, Prog.exec_perform, Prog.exec_pure, handle, Except.map, push]
      split <;> rename_i hbudget
      · exact congrArg (Prod.mk _) (if_pos hbudget)
      · exact congrArg (Prod.mk _) (if_neg hbudget)

/-- The handler call by call returns what the handler of the service's model does. -/
theorem exec_handleSynthesize (task : SynthesisTask) (msg : Synthesize) (env : σ) :
    ∃ reply started finished, (Prog.exec answer (handleSynthesize config task msg) env).1 =
      task.handle config.toLlmConfig msg (loadedPrompt answer config env) reply started
        finished := by
  simp only [handleSynthesize, Prog.exec_bind, ask, Prog.exec_perform, loadedPrompt]
  rcases Prog.exec answer (loadTemplate config.promptsDir config.providerName config.kind)
    (answer .now env).2 with ⟨template, env₁⟩
  cases template with
  | error e => exact ⟨fun _ => .error e, (answer .now env).1, 0, rfl⟩
  | ok system =>
      rcases exec_converse answer config { task with lastActivity := (answer .now env).1 } msg
        system env₁ with ⟨reply, finished, hconverse⟩
      exact ⟨reply, _, finished, hconverse⟩

/-! ## What the provider receives -/

/-- The call sends nothing to the provider but these messages. -/
def Sends (messages : List ChatMessage) (c : TaskCall) : Prop :=
  ∀ sent, c = .chat sent → sent = messages

/-- The call sends nothing to the provider. -/
def SendsNothing (c : TaskCall) : Prop :=
  ∀ sent, c ≠ .chat sent

theorem loadTemplate_sendsNothing (promptsDir : List String) (providerName : String)
    (kind : TemplateKind) :
    Prog.Meets (fun _ _ => True) SendsNothing (fun _ => True)
      (loadTemplate promptsDir providerName kind) := by
  have hread : ∀ path, Prog.Meets (fun _ _ => True) SendsNothing (fun _ => True)
      (readTemplate path) := by
    intro path
    refine ⟨by simp [SendsNothing], ?_⟩
    intro text _
    cases text <;> exact trivial
  refine ⟨by simp [SendsNothing], ?_⟩
  intro isFile _
  cases isFile with
  | true => exact hread _
  | false =>
      refine ⟨by simp [SendsNothing], ?_⟩
      intro isFile _
      cases isFile with
      | true => exact hread _
      | false => exact trivial

/-- Every attempt sends the same messages. -/
theorem chat_sends (messages : List ChatMessage) :
    Prog.Meets (fun _ _ => True) (Sends messages) (fun _ => True) (chat config messages) := by
  have hcall : Prog.Meets (fun _ _ => True) (Sends messages) (fun _ => True)
      (ask (.chat messages)) :=
    Prog.meets_perform (fun _ h => (TaskCall.chat.inj h).symm) fun _ _ => trivial
  have hsleep : ∀ ms, Prog.Meets (fun _ _ => True) (Sends messages) (fun _ => True)
      (ask (.sleep ms)) := by
    intro ms
    exact Prog.meets_perform (by simp [Sends]) fun _ _ => trivial
  exact retry_meets hcall hsleep config.maxRetries

/-- A request sends the prompt, the history and its own turns. -/
theorem converse_sends (task : SynthesisTask) (msg : Synthesize) (system : String) :
    Prog.Meets (fun _ _ => True)
      (Sends (⟨.system, system⟩ :: (task.history ++ task.userTurns msg))) (fun _ => True)
      (converse config task msg system) := by
  unfold converse
  rw [pushTurns_eq]
  apply Prog.Meets.bind (chat_sends config _)
  intro result _
  cases result with
  | error e => exact Prog.meets_pure trivial
  | ok resp => exact ⟨by simp [Sends], fun _ _ => trivial⟩

/-- What the provider receives during a request: the prompt that was loaded, the history, and the
turns of the request. -/
theorem sent_of_handleSynthesize {task : SynthesisTask} {msg : Synthesize} {env : σ}
    {messages : List ChatMessage} {response : Except LlmError ChatResponse}
    (h : ⟨.chat messages, response⟩ ∈
      Prog.trace answer (handleSynthesize config task msg) env) :
    ∃ system, loadedPrompt answer config env = .ok system ∧
      messages = ⟨.system, system⟩ :: (task.history ++ task.userTurns msg) := by
  have hload := loadTemplate_sendsNothing config.promptsDir config.providerName config.kind
  rw [handleSynthesize, Prog.trace_bind, List.mem_append] at h
  rcases h with hnow | h
  · simp [ask] at hnow
  · rw [Prog.trace_bind, List.mem_append] at h
    rcases h with hprompt | h
    · exact absurd rfl (hload.mem_trace (fun _ _ => trivial) hprompt messages)
    · change _ ∈ Prog.trace answer (match loadedPrompt answer config env with
        | .error e => _
        | .ok system => _) _ at h
      cases hprompt : loadedPrompt answer config env with
      | error e =>
          rw [hprompt] at h
          exact absurd h List.not_mem_nil
      | ok system =>
          rw [hprompt] at h
          refine ⟨system, rfl, ?_⟩
          have hsends := converse_sends config
            { task with lastActivity := (answer .now env).1 } msg system
          exact hsends.mem_trace (fun _ _ => trivial) h messages rfl

end

end SynthesisTask

/-! ## Conversations -/

/-- What a history stands for: the summary it was seeded with, and the exchanges of sources and
replies since.  There is no seed without an exchange. -/
structure Conversation where
  seed : Option String
  exchanges : List (List SourceDoc × String)
  seeded : exchanges = [] → seed = none

namespace Conversation

/-- Nothing has been said. -/
def empty : Conversation :=
  ⟨none, [], fun _ => rfl⟩

/-- The turns of an exchange. -/
def turns (exchange : List SourceDoc × String) : List ChatMessage :=
  [⟨.user, renderSources exchange.1⟩, ⟨.assistant, exchange.2⟩]

/-- The conversation in turns. -/
def messages (c : Conversation) : List ChatMessage :=
  (c.seed.map fun summary =>
    (⟨.user, "Current summary so far:\n\n" ++ summary⟩ : ChatMessage)).toList ++
      c.exchanges.flatMap turns

/-- One more exchange; the first one may come with a seed. -/
def extend (c : Conversation) (priorSummary : Option String) (sources : List SourceDoc)
    (reply : String) : Conversation where
  seed := if c.exchanges.isEmpty then priorSummary else c.seed
  exchanges := c.exchanges ++ [(sources, reply)]
  seeded := by simp

theorem messages_eq_nil_iff {c : Conversation} : c.messages = [] ↔ c.exchanges = [] := by
  constructor
  · intro h
    rcases List.append_eq_nil_iff.mp h with ⟨-, hturns⟩
    cases hexchanges : c.exchanges with
    | nil => rfl
    | cons first rest => simp [hexchanges, turns] at hturns
  · intro h
    simp [messages, h, c.seeded h]

/-- Extending a conversation adds the turns of the request and the reply. -/
theorem messages_extend (c : Conversation) (priorSummary : Option String)
    (sources : List SourceDoc) (reply : String) :
    (c.extend priorSummary sources reply).messages =
      c.messages ++ (SynthesisTask.seedTurns c.messages priorSummary ++
        [⟨.user, renderSources sources⟩]) ++ [⟨.assistant, reply⟩] := by
  by_cases hnew : c.exchanges = []
  · have hmessages : c.messages = [] := messages_eq_nil_iff.mpr hnew
    have hseed : (c.extend priorSummary sources reply).seed = priorSummary := by
      simp [extend, hnew]
    rw [hmessages, SynthesisTask.seedTurns, if_pos rfl, messages, hseed]
    simp [extend, hnew, turns]
  · have hmessages : c.messages ≠ [] := fun h => hnew (messages_eq_nil_iff.mp h)
    have hseed : (c.extend priorSummary sources reply).seed = c.seed := by
      simp [extend, hnew]
    rw [SynthesisTask.seedTurns, if_neg hmessages, messages, hseed]
    simp [messages, extend, turns]

end Conversation

/-- The bytes of the turns.  The texts lie in memory together, so the sum stays below the bound
of the machine's integers. -/
def contentLength (history : List ChatMessage) : Nat :=
  (history.map fun m => m.content.utf8ByteSize).sum

/-- Empty, or an optional turn of the user that seeds it, and then one or more pairs of a turn of
the user and one of the assistant. -/
def WellFormed (history : List ChatMessage) : Prop :=
  history = [] ∨ ∃ (seed : Option String) (pairs : List (String × String)), pairs ≠ [] ∧
    history = (seed.map fun text => (⟨.user, text⟩ : ChatMessage)).toList ++
      pairs.flatMap fun pair => [⟨.user, pair.1⟩, ⟨.assistant, pair.2⟩]

theorem Conversation.wellFormed_messages (c : Conversation) : WellFormed c.messages := by
  by_cases hnew : c.exchanges = []
  · exact Or.inl (Conversation.messages_eq_nil_iff.mpr hnew)
  · right
    refine ⟨c.seed.map ("Current summary so far:\n\n" ++ ·),
      c.exchanges.map fun exchange => (renderSources exchange.1, exchange.2), ?_, ?_⟩
    · simpa using hnew
    · rw [Conversation.messages, Option.map_map, List.flatMap_map]
      rfl

/-! ## Requests in turn -/

namespace SynthesisTask

variable {config : TaskConfig}

/-- In terms of conversations: a request that fails keeps the history; one that succeeds extends
the conversation, or drops it when it is over the budget. -/
theorem handle_refines {task task' : SynthesisTask} {c : Conversation}
    (hc : task.history = c.messages) {msg : Synthesize} {template : Except LlmError String}
    {chat : List ChatMessage → Except LlmError String} {started finished : Nat}
    {r : Except LlmError String}
    (h : task.handle config.toLlmConfig msg template chat started finished = (r, task')) :
    ((∃ e, r = .error e) ∧ task'.history = task.history) ∨
      ∃ reply, r = .ok reply ∧ task'.history =
        if config.synthesisContextMaxChars <
            contentLength (c.extend msg.priorSummary msg.sources reply).messages then []
        else (c.extend msg.priorSummary msg.sources reply).messages := by
  unfold handle at h
  cases template with
  | error e =>
      cases h
      exact Or.inl ⟨⟨e, rfl⟩, rfl⟩
  | ok system =>
      simp only at h
      split at h
      · cases h
        exact Or.inl ⟨⟨_, rfl⟩, rfl⟩
      · rename_i reply _
        cases h
        refine Or.inr ⟨reply, rfl, ?_⟩
        rw [Conversation.messages_extend, ← hc, userTurns_eq]
        rfl

/-- The history stands for a conversation within the budget. -/
def Kept (config : TaskConfig) (task : SynthesisTask) : Prop :=
  ∃ c : Conversation, task.history = c.messages ∧
    contentLength c.messages ≤ config.synthesisContextMaxChars

end SynthesisTask

/-- A request, and what its calls are answered: anything, given the calls before. -/
structure SynthesizeCall where
  msg : Synthesize
  respond : List (Σ c : TaskCall, c.Response) → (c : TaskCall) → c.Response

namespace SynthesizeCall

variable (config : TaskConfig) (task : SynthesisTask) (call : SynthesizeCall)

/-- Answer a call and note it down. -/
def answer (c : TaskCall) (events : List (Σ c : TaskCall, c.Response)) :
    c.Response × List (Σ c : TaskCall, c.Response) :=
  (call.respond events c, events ++ [⟨c, call.respond events c⟩])

/-- The request's outcome, and the task after it. -/
def exec : Except LlmError String × SynthesisTask :=
  (Prog.exec call.answer (task.handleSynthesize config call.msg) []).1

/-- The calls made for the request. -/
def events : List (Σ c : TaskCall, c.Response) :=
  Prog.trace call.answer (task.handleSynthesize config call.msg) []

/-- The prompt that the request loads. -/
def prompt : Except LlmError String :=
  SynthesisTask.loadedPrompt call.answer config []

end SynthesizeCall

namespace SynthesisTask

/-- The task handles one request. -/
def step (config : TaskConfig) (task : SynthesisTask) (call : SynthesizeCall) :
    Option SynthesisTask :=
  some (call.exec config task).2

/-- A request on a conversation. -/
theorem exec_refines (config : TaskConfig) {task : SynthesisTask} {c : Conversation}
    (hc : task.history = c.messages) (call : SynthesizeCall) :
    ((∃ e, (call.exec config task).1 = .error e) ∧
        (call.exec config task).2.history = task.history) ∨
      ∃ reply, (call.exec config task).1 = .ok reply ∧ (call.exec config task).2.history =
        if config.synthesisContextMaxChars <
            contentLength (c.extend call.msg.priorSummary call.msg.sources reply).messages then []
        else (c.extend call.msg.priorSummary call.msg.sources reply).messages := by
  rcases exec_handleSynthesize call.answer config task call.msg [] with
    ⟨reply, started, finished, hexec⟩
  exact handle_refines hc hexec.symm

variable {config : TaskConfig}

theorem kept_step {task task' : SynthesisTask} {call : SynthesizeCall} (hkept : Kept config task)
    (h : step config task call = some task') : Kept config task' := by
  rcases hkept with ⟨c, hc, hlen⟩
  rw [← Option.some.inj h]
  rcases exec_refines config hc call with ⟨-, hsame⟩ | ⟨reply, -, hhistory⟩
  · exact ⟨c, hsame.trans hc, hlen⟩
  · split at hhistory <;> rename_i hbudget
    · exact ⟨.empty, hhistory, Nat.zero_le _⟩
    · exact ⟨_, hhistory, Nat.le_of_not_lt hbudget⟩

/-- After any requests the history is well formed and within its budget; a further request that
fails leaves it as it was, and sends to the provider the prompt that was loaded, the history, a
seed if the history is empty and there is a prior summary, and the sources. -/
theorem history_wellFormed {now : Nat} {calls : List SynthesizeCall} {task : SynthesisTask}
    (hrun : run (step config) (.new now) calls = some task) :
    WellFormed task.history ∧ contentLength task.history ≤ config.synthesisContextMaxChars ∧
      ∀ call : SynthesizeCall,
        (∀ e, (call.exec config task).1 = .error e →
          (call.exec config task).2.history = task.history) ∧
        ∀ messages response, ⟨.chat messages, response⟩ ∈ call.events config task →
          ∃ system, call.prompt config = .ok system ∧
            messages = ⟨.system, system⟩ :: (task.history ++
              (seedTurns task.history call.msg.priorSummary ++
                [⟨.user, renderSources call.msg.sources⟩])) := by
  have hkept : Kept config task :=
    run_invariant (I := Kept config) (fun _ _ _ hkept h => kept_step hkept h)
      ⟨.empty, rfl, Nat.zero_le _⟩ hrun
  rcases hkept with ⟨c, hc, hlen⟩
  refine ⟨hc ▸ c.wellFormed_messages, hc ▸ hlen, ?_⟩
  intro call
  constructor
  · intro e herror
    rcases exec_refines config hc call with ⟨-, hsame⟩ | ⟨reply, hok, -⟩
    · exact hsame
    · rw [herror] at hok
      contradiction
  · intro messages response hsent
    rw [← userTurns_eq]
    exact sent_of_handleSynthesize call.answer config hsent

end SynthesisTask

/-- Templates on disk that cannot be read, or none, and a provider that answers. -/
def SynthesizeCall.sample (templates : Bool) : SynthesizeCall where
  msg := ⟨.global, some "Before.", [⟨"alice/_synthesized/2026-05-18-01.md", "Text."⟩]⟩
  respond := fun _ c =>
    match c with
    | .isFile _ => templates
    | .readToString _ => .error .invalidData
    | .chat _ => .ok ⟨"m", "Summary."⟩
    | .sleep _ => ()
    | .now => 0

/-- A request that succeeds, and one whose template cannot be read. -/
theorem unreadable_template_kept :
    ∃ config task, run (SynthesisTask.step config) (.new 0) [.sample false] = some task ∧
      WellFormed task.history ∧
      ((SynthesizeCall.sample true).exec config task).2.history = task.history := by
  have hrun : run (SynthesisTask.step ⟨⟨300, 200000⟩, ["prompts"], 3, "deepseek", .global⟩) (.new 0)
      [.sample false] = some _ := rfl
  exact ⟨_, _, hrun, (SynthesisTask.history_wellFormed hrun).1,
    ((SynthesisTask.history_wellFormed hrun).2.2 (.sample true)).1 _ rfl⟩

end Llm
end MemoryHub
