import MemoryHub.Llm.Api

/-!
# The dialogue with an endpoint

A synthesis task talks to the endpoint of its provider request by request, and the endpoint keeps
nothing: each request sent has to hold all that was said.  It goes on from the last one that was
answered with a reply, or starts afresh.

Main results:

- Theorem `handle_exchanges`: the exchanges of one call, and its outcome.
- Theorem `synthesize_attempts`: a call makes the same request until one is answered for good.
- Theorem `requests_continue`: over all calls of a task, what each request goes on from.
- Theorem `embed_attempts`: the vectors the embedder accepts are those of one response.
-/

namespace MemoryHub
namespace Llm

open Machine
open Memory (Embedding SourceDoc)
open ApiCall (ask)

/-! ## Exchanges -/

/-- A request to the endpoint, and what it came to. -/
structure ApiExchange where
  request : ApiRequest
  sent : Sent

/-- The exchange that an event is, if it is one. -/
def ApiExchange.ofEvent : (Σ c : ApiCall, c.Response) → Option ApiExchange
  | ⟨.send request, sent⟩ => some ⟨request, sent⟩
  | _ => none

section

variable {σ : Type} (answer : (c : ApiCall) → σ → c.Response × σ)

/-- The exchanges during a run. -/
def exchanges {α : Type} (p : ApiProg α) (env : σ) : List ApiExchange :=
  (Prog.trace answer p env).filterMap ApiExchange.ofEvent

variable {answer}

@[simp]
theorem exchanges_bind {α β : Type} (p : ApiProg α) (f : α → ApiProg β) (env : σ) :
    exchanges answer (p >>= f) env =
      exchanges answer p env ++ exchanges answer (f (Prog.exec answer p env).1)
        (Prog.exec answer p env).2 := by
  rw [exchanges, Prog.trace_bind, List.filterMap_append]
  rfl

@[simp]
theorem exchanges_pure {α : Type} (a : α) (env : σ) :
    exchanges answer (Pure.pure a) env = [] :=
  rfl

/-- The call is not one to the endpoint. -/
def ApiCall.IsLocal (c : ApiCall) : Prop :=
  ∀ request, c ≠ .send request

/-- A program that does not call the endpoint has no exchanges with it. -/
theorem exchanges_of_local {α : Type} {p : ApiProg α}
    (hp : Prog.Meets (fun _ _ => True) ApiCall.IsLocal (fun _ => True) p) (env : σ) :
    exchanges answer p env = [] := by
  refine List.filterMap_eq_nil_iff.mpr ?_
  rintro ⟨c, r⟩ he
  have hlocal := hp.mem_trace (fun _ _ => trivial) he
  cases c with
  | send request => exact absurd rfl (hlocal request)
  | isFile path => rfl
  | readToString path => rfl
  | sleep baseMs => rfl
  | now => rfl

end

/-! ## A task over an API -/

section

variable (fm : ApiFormats) (client : ChatClient)

/-- What carries out the calls of a task. -/
def TaskCall.overApi : (c : TaskCall) → ApiProg c.Response
  | .isFile path => ApiCall.ask (.isFile path)
  | .readToString path => ApiCall.ask (.readToString path)
  | .chat messages => client.chat fm messages
  | .sleep baseMs => ApiCall.ask (.sleep baseMs)
  | .now => ApiCall.ask .now

/-- `Handler<Synthesize>` of a task with this provider. -/
def SynthesisTask.handleOverApi (config : TaskConfig) (task : SynthesisTask) (msg : Synthesize) :
    ApiProg (Except LlmError String × SynthesisTask) :=
  Prog.interpret (TaskCall.overApi fm client) (task.handleSynthesize config msg)

end

section

variable {fm : ApiFormats} {client : ChatClient} {config : TaskConfig} {σ : Type}
  {answer : (c : ApiCall) → σ → c.Response × σ}

/-- Retrying is carried out attempt by attempt. -/
theorem interpret_retryFrom {C C' : Type} {R : C → Type} {R' : C' → Type} {α : Type}
    {f : (c : C) → Prog C' R' (R c)} {p : Prog C R (Except LlmError α)}
    {sleep : Nat → Prog C R Unit} (maxAttempts attempt : Nat) :
    Prog.interpret f (retryFrom maxAttempts p sleep attempt) =
      retryFrom maxAttempts (Prog.interpret f p) (fun ms => Prog.interpret f (sleep ms))
        attempt := by
  -- By the attempts that are left.
  induction hleft : maxAttempts - attempt using Nat.strong_induction_on generalizing attempt with
  | _ left ih =>
      conv_lhs => rw [retryFrom]
      conv_rhs => rw [retryFrom]
      rw [Prog.interpret_bind]
      refine congrArg _ (funext fun result => ?_)
      split
      · rfl
      · split
        · rename_i hless
          rw [Prog.interpret_bind]
          refine congrArg _ (funext fun _ => ?_)
          exact ih _ (by omega) (attempt + 1) rfl
        · rfl
      · rfl

/-- What is seen of one call to the provider. -/
theorem exchanges_chat (messages : List ChatMessage) (env : σ) :
    ∃ x : ApiExchange, exchanges answer (client.chat fm messages) env = [x] ∧
      x.request = client.request messages ∧
      (Prog.exec answer (client.chat fm messages) env).1 = readChat fm x.sent :=
  ⟨⟨_, (answer (.send (client.request messages)) env).1⟩, rfl, rfl, rfl⟩

variable (answer) in
/-- The retried call to the provider is seen as attempts with these messages. -/
theorem chat_attempts (messages : List ChatMessage) (env : σ) :
    Attempts (max config.maxRetries.toNat 1)
      (fun x : ApiExchange => x.request = client.request messages) (fun x => readChat fm x.sent)
      (exchanges answer (Prog.interpret (TaskCall.overApi fm client)
        (SynthesisTask.chat config messages)) env)
      (Prog.exec answer (Prog.interpret (TaskCall.overApi fm client)
        (SynthesisTask.chat config messages)) env).1 := by
  have hretry : Prog.interpret (TaskCall.overApi fm client) (SynthesisTask.chat config messages) =
      retry config.maxRetries (client.chat fm messages) fun ms => ask (.sleep ms) := by
    rw [SynthesisTask.chat, retry, interpret_retryFrom]
    simp only [TaskCall.ask, Prog.interpret_perform]
    rfl
  rw [hretry]
  exact retry_attempts (exchanges_chat messages) (fun _ _ => rfl) config.maxRetries env

/-- Loading the template is nothing to the endpoint. -/
theorem exchanges_loadTemplate (promptsDir : List String) (providerName : String)
    (kind : TemplateKind) (env : σ) :
    exchanges answer (Prog.interpret (TaskCall.overApi fm client)
      (loadTemplate promptsDir providerName kind)) env = [] := by
  refine exchanges_of_local (Prog.Meets.interpret
    (SynthesisTask.loadTemplate_sendsNothing promptsDir providerName kind) ?_) env
  intro c hc
  cases c with
  | chat messages => exact absurd rfl (hc messages)
  | isFile path => exact ⟨by simp [ApiCall.IsLocal], fun _ _ => trivial⟩
  | readToString path => exact ⟨by simp [ApiCall.IsLocal], fun _ _ => trivial⟩
  | sleep baseMs => exact ⟨by simp [ApiCall.IsLocal], fun _ _ => trivial⟩
  | now => exact ⟨by simp [ApiCall.IsLocal], fun _ _ => trivial⟩

/-! ## One call -/

section

variable (fm client config) (history turns : List ChatMessage)

/-- The exchange asks for a completion of the prompt, the history and the turns of the call. -/
def Asks (system : String) (x : ApiExchange) : Prop :=
  x.request = client.request (⟨.system, system⟩ :: (history ++ turns))

/-- Exchanges that are attempts at a completion, and what they came to. -/
def CallAttempts (system : String) (seen : List ApiExchange)
    (response : Except LlmError ChatResponse) : Prop :=
  Attempts (max config.maxRetries.toNat 1) (Asks client history turns system)
    (fun x => readChat fm x.sent) seen response

/-- What a call comes to: its exchanges, its outcome and the task after it. -/
inductive Handled : List ApiExchange → Except LlmError String × SynthesisTask → Prop where
  | refused {e : LlmError} {task : SynthesisTask} (hkept : task.history = history) :
      Handled [] (.error e, task)
  | failed {system : String} {seen : List ApiExchange} {e : LlmError} {task : SynthesisTask}
      (hattempts : CallAttempts fm client config history turns system seen (.error e))
      (hkept : task.history = history) : Handled seen (.error e, task)
  | answered {system : String} {seen : List ApiExchange} {reply : ChatResponse}
      {task : SynthesisTask}
      (hattempts : CallAttempts fm client config history turns system seen (.ok reply))
      (hnext : task.history = [] ∨
        task.history = history ++ turns ++ [⟨.assistant, reply.content⟩]) :
      Handled seen (.ok reply.content, task)

end

/-- The part of a call that follows the prompt. -/
theorem converse_exchanges (task : SynthesisTask) (msg : Synthesize) (system : String) (env : σ) :
    Handled fm client config task.history (task.userTurns msg)
      (exchanges answer (Prog.interpret (TaskCall.overApi fm client)
        (SynthesisTask.converse config task msg system)) env)
      (Prog.exec answer (Prog.interpret (TaskCall.overApi fm client)
        (SynthesisTask.converse config task msg system)) env).1 := by
  have hattempts : CallAttempts fm client config task.history (task.userTurns msg) system
      (exchanges answer (Prog.interpret (TaskCall.overApi fm client)
        (SynthesisTask.chat config _)) env) _ :=
    chat_attempts answer (⟨.system, system⟩ :: (task.history ++ task.userTurns msg)) env
  simp only [SynthesisTask.converse, SynthesisTask.pushTurns_eq, Prog.interpret_bind,
    exchanges_bind, Prog.exec_bind]
  revert hattempts
  generalize exchanges answer (Prog.interpret (TaskCall.overApi fm client)
    (SynthesisTask.chat config _)) env = seen
  rcases Prog.exec answer (Prog.interpret (TaskCall.overApi fm client)
    (SynthesisTask.chat config _)) env with ⟨response, env'⟩
  intro hattempts
  cases response with
  | error e =>
      simp only [Prog.interpret_pure, exchanges_pure, Prog.exec_pure, List.append_nil]
      exact .failed hattempts (List.take_left' rfl)
  | ok reply =>
      simp only [TaskCall.ask, Prog.interpret_bind, Prog.interpret_perform, exchanges_bind,
        Prog.exec_bind, Prog.interpret_pure, exchanges_pure, Prog.exec_pure, List.append_nil]
      change Handled fm client config task.history (task.userTurns msg) (seen ++ []) _
      rw [List.append_nil]
      refine .answered hattempts ?_
      split
      · exact Or.inl rfl
      · exact Or.inr rfl

variable (fm client config answer) in
/-- The exchanges of a call, and its outcome. -/
theorem handle_exchanges (task : SynthesisTask) (msg : Synthesize) (env : σ) :
    Handled fm client config task.history (task.userTurns msg)
      (exchanges answer (task.handleOverApi fm client config msg) env)
      (Prog.exec answer (task.handleOverApi fm client config msg) env).1 := by
  simp only [SynthesisTask.handleOverApi, SynthesisTask.handleSynthesize, TaskCall.ask,
    Prog.interpret_bind, Prog.interpret_perform, exchanges_bind, Prog.exec_bind,
    exchanges_loadTemplate]
  rcases Prog.exec answer (TaskCall.overApi fm client .now) env with ⟨started, env₁⟩
  rcases Prog.exec answer (Prog.interpret (TaskCall.overApi fm client)
    (loadTemplate config.promptsDir config.providerName config.kind)) env₁ with ⟨template, env₂⟩
  change Handled fm client config task.history (task.userTurns msg) ([] ++ ([] ++ _)) _
  rw [List.nil_append, List.nil_append]
  cases template with
  | error e => exact .refused rfl
  | ok system =>
      exact converse_exchanges { task with lastActivity := started } msg system env₂

variable (fm client config) in
/-- A call sends one request to the endpoint, again and again while it comes to no connection, no
answer in time or an overload, and not more often than allowed, and returns what the last sending
came to; or it ends before. -/
theorem synthesize_attempts (task : SynthesisTask) (msg : Synthesize) (env : σ) :
    (exchanges answer (task.handleOverApi fm client config msg) env = [] ∧
      ∃ e, (Prog.exec answer (task.handleOverApi fm client config msg) env).1.1 = .error e) ∨
    ∃ system failed last,
      exchanges answer (task.handleOverApi fm client config msg) env = failed ++ [last] ∧
      (∀ x ∈ failed ++ [last], readChatRequest x.request.body =
        some (client.chatModel, ⟨.system, system⟩ :: (task.history ++ task.userTurns msg))) ∧
      (∀ x ∈ failed, MayPass x.sent) ∧ failed.length < max config.maxRetries.toNat 1 ∧
      (MayPass last.sent → failed.length + 1 = max config.maxRetries.toNat 1) ∧
      (Prog.exec answer (task.handleOverApi fm client config msg) env).1.1 =
        (readChat fm last.sent).map ChatResponse.content := by
  have hhandled := handle_exchanges fm client config answer task msg env
  revert hhandled
  generalize exchanges answer (task.handleOverApi fm client config msg) env = seen
  generalize (Prog.exec answer (task.handleOverApi fm client config msg) env).1 = result
  intro hhandled
  have hattempts : ∀ {system response}, CallAttempts fm client config task.history
      (task.userTurns msg) system seen response → ∃ failed last, seen = failed ++ [last] ∧
        (∀ x ∈ failed ++ [last], readChatRequest x.request.body =
          some (client.chatModel, ⟨.system, system⟩ :: (task.history ++ task.userTurns msg))) ∧
        (∀ x ∈ failed, MayPass x.sent) ∧ failed.length < max config.maxRetries.toNat 1 ∧
        (MayPass last.sent → failed.length + 1 = max config.maxRetries.toNat 1) ∧
        response = readChat fm last.sent := by
    rintro system response ⟨failed, last, rfl, rfl, hasks, hfailed, hlimit, hlast⟩
    rw [List.length_append, List.length_singleton] at hlimit hlast
    refine ⟨failed, last, rfl, ?_, ?_, hlimit, ?_, rfl⟩
    · intro x hx
      rw [hasks x hx]
      exact readChatRequest_chatRequest _ _
    · intro x hx
      exact isTransient_readChat.mp (hfailed x hx)
    · intro hpass
      exact hlast (isTransient_readChat.mpr hpass)
  cases hhandled with
  | refused hkept => exact Or.inl ⟨rfl, _, rfl⟩
  | failed h hkept =>
      rcases hattempts h with ⟨failed, last, hseen, hasks, hfailed, hlimit, hlast, hresponse⟩
      exact Or.inr ⟨_, failed, last, hseen, hasks, hfailed, hlimit, hlast, by rw [← hresponse]; rfl⟩
  | answered h hnext =>
      rcases hattempts h with ⟨failed, last, hseen, hasks, hfailed, hlimit, hlast, hresponse⟩
      exact Or.inr ⟨_, failed, last, hseen, hasks, hfailed, hlimit, hlast, by rw [← hresponse]; rfl⟩

end

/-! ## All calls of a task -/

/-- A call, and what its own calls are answered: anything, given those before. -/
structure ApiSynthesize where
  msg : Synthesize
  respond : List (Σ c : ApiCall, c.Response) → (c : ApiCall) → c.Response

/-- Answer a call and note it down. -/
def ApiSynthesize.answer (call : ApiSynthesize) (c : ApiCall)
    (events : List (Σ c : ApiCall, c.Response)) :
    c.Response × List (Σ c : ApiCall, c.Response) :=
  (call.respond events c, events ++ [⟨c, call.respond events c⟩])

/-- A task, and its exchanges with the endpoint. -/
structure Dialogue where
  task : SynthesisTask
  exchanges : List ApiExchange

section

variable (fm : ApiFormats) (client : ChatClient) (config : TaskConfig)

/-- The task handles one call. -/
def Dialogue.step (d : Dialogue) (call : ApiSynthesize) : Option Dialogue :=
  some ⟨(Prog.exec call.answer (d.task.handleOverApi fm client config call.msg) []).1.2,
    d.exchanges ++ Llm.exchanges call.answer (d.task.handleOverApi fm client config call.msg) []⟩

/-- After these exchanges the history is what the last one that was answered with a reply was
about, with the reply; or nothing. -/
def Continues (seen : List ApiExchange) (history : List ChatMessage) : Prop :=
  history = [] ∨ ∃ before x failed system messages reply, seen = before ++ x :: failed ∧
    (∀ y ∈ failed, ∃ e, readChat fm y.sent = .error e) ∧
    x.request = client.request (⟨.system, system⟩ :: messages) ∧
    readChat fm x.sent = .ok reply ∧ history = messages ++ [⟨.assistant, reply.content⟩]

/-- The exchange asks about turns of a call that go on from the exchanges before it. -/
def GoesOn (before : List ApiExchange) (x : ApiExchange) : Prop :=
  ∃ system history priorSummary sources, Continues fm client before history ∧
    Asks client history (SynthesisTask.seedTurns history priorSummary ++
      [⟨.user, renderSources sources⟩]) system x

/-- The history continues the exchanges, and so does each of them those before it. -/
structure Dialogue.Coherent (d : Dialogue) : Prop where
  continues : Continues fm client d.exchanges d.task.history
  goesOn : ∀ before x after, d.exchanges = before ++ x :: after → GoesOn fm client before x

end

section

variable {fm : ApiFormats} {client : ChatClient} {config : TaskConfig}

/-- Exchanges that fail leave the history what it was. -/
theorem Continues.append_failed {seen failed : List ApiExchange} {history : List ChatMessage}
    (h : Continues fm client seen history)
    (hfailed : ∀ y ∈ failed, ∃ e, readChat fm y.sent = .error e) :
    Continues fm client (seen ++ failed) history := by
  rcases h with rfl | ⟨before, x, rest, system, messages, reply, rfl, hrest, hx, hreply, hhistory⟩
  · exact Or.inl rfl
  · refine Or.inr ⟨before, x, rest ++ failed, system, messages, reply, by simp, ?_, hx, hreply,
      hhistory⟩
    intro y hy
    rcases List.mem_append.mp hy with hy | hy
    · exact hrest y hy
    · exact hfailed y hy

theorem exists_error_of_isTransient {α : Type} {r : Except LlmError α}
    (h : isTransient r = true) : ∃ e, r = .error e := by
  cases r with
  | error e => exact ⟨e, rfl⟩
  | ok a => simp [isTransient] at h

/-- The attempts of a call go on from what was before them. -/
theorem goesOn_of_attempts {seen attempts : List ApiExchange} {history : List ChatMessage}
    {priorSummary : Option String} {sources : List SourceDoc} {system : String}
    {response : Except LlmError ChatResponse} (h : Continues fm client seen history)
    (hattempts : CallAttempts fm client config history (SynthesisTask.seedTurns history priorSummary
      ++ [⟨.user, renderSources sources⟩]) system attempts response)
    {before after : List ApiExchange} {x : ApiExchange}
    (hsplit : attempts = before ++ x :: after) : GoesOn fm client (seen ++ before) x := by
  rcases hattempts with ⟨failed, last, hattempts, -, hasks, hfailed, -, -⟩
  refine ⟨system, history, priorSummary, sources, h.append_failed ?_, hasks x (by simp [hsplit])⟩
  -- Whatever comes before an attempt is not the last one.
  have hearly : before <+: failed := by
    have hfront : failed ++ [last] = before ++ x :: after := hattempts.symm.trans hsplit
    rcases List.eq_nil_or_concat after with rfl | ⟨front, y, rfl⟩
    · rw [(List.append_inj' hfront rfl).1]
    · have hfront' : failed ++ [last] = (before ++ x :: front) ++ [y] := by simpa using hfront
      rw [(List.append_inj' hfront' rfl).1]
      exact List.prefix_append _ _
  intro y hy
  exact exists_error_of_isTransient (hfailed y (hearly.subset hy))

/-- Exchanges one by one over two lists. -/
theorem goesOn_append {seen attempts : List ApiExchange}
    (hseen : ∀ before x after, seen = before ++ x :: after → GoesOn fm client before x)
    (hattempts : ∀ before x after, attempts = before ++ x :: after →
      GoesOn fm client (seen ++ before) x) {before after : List ApiExchange} {x : ApiExchange}
    (hsplit : seen ++ attempts = before ++ x :: after) : GoesOn fm client before x := by
  rcases List.append_eq_append_iff.mp hsplit with ⟨front, rfl, hrest⟩ | ⟨rest, hfront, hrest⟩
  · exact hattempts front x after hrest
  · cases rest with
    | nil =>
        rw [List.append_nil] at hfront
        subst hfront
        have hgoes := hattempts [] x after hrest.symm
        rwa [List.append_nil] at hgoes
    | cons y rest =>
        rw [List.cons_append, List.cons.injEq] at hrest
        exact hseen before x rest (by rw [hfront, hrest.1])

theorem coherent_step {d d' : Dialogue} {call : ApiSynthesize} (hd : d.Coherent fm client)
    (h : Dialogue.step fm client config d call = some d') : d'.Coherent fm client := by
  rw [← Option.some.inj h]
  have hhandled := handle_exchanges fm client config call.answer d.task call.msg []
  rw [SynthesisTask.userTurns_eq] at hhandled
  revert hhandled
  generalize exchanges call.answer (d.task.handleOverApi fm client config call.msg) [] = seen
  generalize (Prog.exec call.answer (d.task.handleOverApi fm client config call.msg) []).1 = result
  intro hhandled
  cases hhandled with
  | refused hkept =>
      rw [List.append_nil]
      exact ⟨hkept ▸ hd.continues, hd.goesOn⟩
  | failed hattempts hkept =>
      refine ⟨?_, fun before x after => goesOn_append hd.goesOn fun before x after hsplit =>
        goesOn_of_attempts hd.continues hattempts hsplit⟩
      rw [hkept]
      rcases hattempts with ⟨failed, last, rfl, hlast, -, hfailed, -, -⟩
      refine hd.continues.append_failed ?_
      intro y hy
      rcases List.mem_append.mp hy with hy | hy
      · exact exists_error_of_isTransient (hfailed y hy)
      · rw [List.mem_singleton.mp hy]
        exact ⟨_, hlast.symm⟩
  | answered hattempts hnext =>
      refine ⟨?_, fun before x after => goesOn_append hd.goesOn fun before x after hsplit =>
        goesOn_of_attempts hd.continues hattempts hsplit⟩
      rcases hnext with hnil | hnext
      · exact Or.inl hnil
      · rcases hattempts with ⟨failed, last, rfl, hlast, hasks, -, -, -⟩
        refine Or.inr ⟨d.exchanges ++ failed, last, [], _, _, _, by simp, by simp,
          hasks last (by simp), hlast.symm, hnext⟩

/-- Whatever the endpoint answers, each request a task sends holds a prompt, a history and the
turns of one call; the history is empty, or it is the messages of the last request before
that was answered with a reply, and that reply. -/
theorem requests_continue {now : Nat} {calls : List ApiSynthesize} {d : Dialogue}
    (hrun : run (Dialogue.step fm client config) ⟨.new now, []⟩ calls = some d)
    {before after : List ApiExchange} {x : ApiExchange}
    (hsplit : d.exchanges = before ++ x :: after) :
    ∃ system history priorSummary sources,
      x.request.url = client.baseUrl ++ "/chat/completions" ∧ x.request.bearer = client.apiKey ∧
      readChatRequest x.request.body = some (client.chatModel, ⟨.system, system⟩ ::
        (history ++ (SynthesisTask.seedTurns history priorSummary ++
          [⟨.user, renderSources sources⟩]))) ∧
      (history = [] ∨ ∃ earlier y failed prompt messages reply, before = earlier ++ y :: failed ∧
        (∀ z ∈ failed, ∃ e, readChat fm z.sent = .error e) ∧
        readChatRequest y.request.body = some (client.chatModel, ⟨.system, prompt⟩ :: messages) ∧
        readChat fm y.sent = .ok reply ∧
        history = messages ++ [⟨.assistant, reply.content⟩]) := by
  have hstart : Dialogue.Coherent fm client ⟨.new now, []⟩ := by
    refine ⟨Or.inl rfl, ?_⟩
    intro before x after hnil
    simp at hnil
  have hend : d.Coherent fm client :=
    run_invariant (I := Dialogue.Coherent fm client) (fun _ _ _ hd h => coherent_step hd h) hstart
      hrun
  rcases hend.goesOn before x after hsplit with
    ⟨system, history, priorSummary, sources, hcontinues, hasks⟩
  refine ⟨system, history, priorSummary, sources, by rw [hasks]; rfl, by rw [hasks]; rfl,
    by rw [hasks]; exact readChatRequest_chatRequest _ _, ?_⟩
  refine hcontinues.imp_right ?_
  rintro ⟨earlier, y, failed, prompt, messages, reply, hbefore, hfailed, hy, hreply, hhistory⟩
  exact ⟨earlier, y, failed, prompt, messages, reply, hbefore, hfailed,
    by rw [hy]; exact readChatRequest_chatRequest _ _, hreply, hhistory⟩

/-- An endpoint that answers, and a disk without templates. -/
def ApiSynthesize.sample : ApiSynthesize where
  msg := ⟨.global, none, [⟨"alice/_synthesized/2026-05-18-01.md", "Text."⟩]⟩
  respond := fun _ c =>
    match c with
    | .isFile _ => false
    | .readToString _ => .error .notFound
    | .send _ => .ok ⟨200, [], .ok (.obj [("model", .str "m"), ("choices", .arr [.obj [
        ("message", .obj [("content", .str "Summary.")])]])])⟩
    | .sleep _ => ()
    | .now => 0

def sampleClient : ChatClient :=
  (DeepSeekProvider.mk "https://api.deepseek.com" "key" "deepseek-chat").client

def sampleConfig : TaskConfig :=
  ⟨⟨300, 200000⟩, ["prompts"], 3, "deepseek", .global⟩

/-- The second call goes on from the first. -/
theorem requests_continue_sample :
    ∃ d y x, run (Dialogue.step sampleFormats sampleClient sampleConfig) ⟨.new 0, []⟩
        [.sample, .sample] = some d ∧ d.exchanges = [y, x] ∧ d.task.history.length = 4 ∧
      ∃ system history priorSummary sources,
        x.request.url = "https://api.deepseek.com/chat/completions" ∧ x.request.bearer = "key" ∧
        readChatRequest x.request.body = some ("deepseek-chat", ⟨.system, system⟩ ::
          (history ++ (SynthesisTask.seedTurns history priorSummary ++
            [⟨.user, renderSources sources⟩]))) ∧
        (history = [] ∨ ∃ earlier z failed prompt messages reply, [y] = earlier ++ z :: failed ∧
          (∀ z ∈ failed, ∃ e, readChat sampleFormats z.sent = .error e) ∧
          readChatRequest z.request.body =
            some ("deepseek-chat", ⟨.system, prompt⟩ :: messages) ∧
          readChat sampleFormats z.sent = .ok reply ∧
          history = messages ++ [⟨.assistant, reply.content⟩]) := by
  rcases hrun : run (Dialogue.step sampleFormats sampleClient sampleConfig) ⟨.new 0, []⟩
    [.sample, .sample] with _ | d
  · exact absurd hrun (by simp [run, Dialogue.step])
  · have hlength : ∀ d', run (Dialogue.step sampleFormats sampleClient sampleConfig) ⟨.new 0, []⟩
        [.sample, .sample] = some d' → d'.exchanges.length = 2 ∧ d'.task.history.length = 4 := by
      intro d' hd'
      rw [← Option.some.inj hd']
      exact ⟨by decide +kernel, by decide +kernel⟩
    rcases List.length_eq_two.mp (hlength d hrun).1 with ⟨y, x, hsplit⟩
    have hsecond : d.exchanges = [y] ++ x :: [] := hsplit
    exact ⟨d, y, x, rfl, hsplit, (hlength d hrun).2, requests_continue hrun hsecond⟩

end

/-! ## The embedder over an API -/

section

variable {fm : ApiFormats} {p : OpenAiProvider} {maxRetries : UInt32} {expectedDim : Option Nat}
  {texts : List String} {σ : Type} {answer : (c : ApiCall) → σ → c.Response × σ}

variable (fm p maxRetries expectedDim texts answer) in
/-- The retried request for embeddings is seen as attempts with these texts. -/
theorem embed_attempts (env : σ) :
    ∃ response,
      Attempts (max maxRetries.toNat 1) (fun x : ApiExchange => x.request = p.request texts)
        (fun x => OpenAiProvider.embed texts (readEmbed fm x.sent))
        (exchanges answer (Embedder.handle fm p maxRetries expectedDim texts) env) response ∧
      (Prog.exec answer (Embedder.handle fm p maxRetries expectedDim texts) env).1 =
        embed texts expectedDim response := by
  have honce : ∀ env, ∃ x : ApiExchange,
      exchanges answer (p.sendEmbed fm texts) env = [x] ∧ x.request = p.request texts ∧
        (Prog.exec answer (p.sendEmbed fm texts) env).1 =
          OpenAiProvider.embed texts (readEmbed fm x.sent) := by
    intro env
    exact ⟨⟨_, (answer (.send (p.request texts)) env).1⟩, rfl, rfl, rfl⟩
  have hsleep : ∀ ms env, exchanges answer (ask (.sleep ms)) env = [] := fun _ _ => rfl
  have hretry := retry_attempts honce hsleep maxRetries env
  refine ⟨(Prog.exec answer (retry maxRetries (p.sendEmbed fm texts) fun ms => ask (.sleep ms))
    env).1, ?_, ?_⟩
  · rw [Embedder.handle, exchanges_bind, exchanges_pure, List.append_nil]
    exact hretry
  · rw [Embedder.handle, Prog.exec_bind]
    rfl

/-- The vectors the embedder accepts are those of one response to a request with exactly the
texts, put in the order of their labels; all requests sent before it were the same and may be
repeated, and each vector is not empty, finite, and of one dimension, the pinned one if there is
one. -/
theorem embed_accepted (env : σ) {result : EmbedResult}
    (h : (Prog.exec answer (Embedder.handle fm p maxRetries expectedDim texts) env).1 =
      .ok result) :
    ∃ failed last body,
      exchanges answer (Embedder.handle fm p maxRetries expectedDim texts) env =
        failed ++ [last] ∧
      (∀ x ∈ failed ++ [last],
        readEmbedRequest x.request.body = some (p.embeddingModel, texts)) ∧
      (∀ x ∈ failed, MayPass x.sent) ∧ failed.length < max maxRetries.toNat 1 ∧
      readEmbed fm last.sent = .ok body ∧ body.data.length = texts.length ∧
      result.embeddings = (SortByKey.sortByKey (fun d => d.index.toNat)
        (body.data.map EmbedItem.read)).map (fun d => d.embedding) ∧
      ∀ e ∈ result.embeddings,
        Sound (expectedDim <|> result.embeddings.head?.map Embedding.len) e := by
  rcases embed_attempts fm p maxRetries expectedDim texts answer env with
    ⟨_, ⟨failed, last, hseen, rfl, hmade, hfailed, hlimit, -⟩, hresult⟩
  rw [hresult] at h
  have hlast : OpenAiProvider.embed texts (readEmbed fm last.sent) = .ok result :=
    response_of_embed h
  cases hbody : readEmbed fm last.sent with
  | error e =>
      rw [hbody] at hlast
      exact absurd hlast (by simp [OpenAiProvider.embed])
  | ok body =>
      have hembed : embedViaOpenAi texts expectedDim (.ok body) = .ok result := by
        rw [embedViaOpenAi, ← hbody]
        exact h
      rcases embedViaOpenAi_eq_ok hembed with ⟨hcount, hvectors⟩
      rw [hseen] at hmade hlimit
      rw [List.length_append, List.length_singleton] at hlimit
      refine ⟨failed, last, body, hseen, ?_, ?_, hlimit, hbody, hcount, hvectors,
        sound_of_embed h⟩
      · intro x hx
        rw [hmade x hx]
        exact readEmbedRequest_embedRequest _ _ _
      · intro x hx
        exact isTransient_embed.mp (hfailed x hx)

/-- Two vectors sent the other way round. -/
def sampleVectors : Sent :=
  .ok ⟨200, [], .ok (.obj [("model", .str "m"), ("data", .arr [
    .obj [("index", .int 1), ("embedding", .arr [.num 2])],
    .obj [("index", .int 0), ("embedding", .arr [.num 1])]])])⟩

/-- An endpoint that sends them. -/
def sampleEndpoint (c : ApiCall) (env : Unit) : c.Response × Unit :=
  (match c with
    | .isFile _ => false
    | .readToString _ => .error .notFound
    | .send _ => sampleVectors
    | .sleep _ => ()
    | .now => 0, env)

def sampleOpenAi : OpenAiProvider :=
  ⟨"https://api.openai.com/v1", "key", "gpt", "text-embedding-3-small", some 1⟩

theorem embed_accepted_sample :
    ∃ (result : EmbedResult) (failed : List ApiExchange) (last : ApiExchange) (body : EmbedBody),
      exchanges sampleEndpoint (Embedder.handle sampleFormats sampleOpenAi 3 (some 1) ["a", "b"])
        () = failed ++ [last] ∧
      result.embeddings.map Embedding.values = [[0x3f800000], [0x40000000]] ∧
      readEmbed sampleFormats last.sent = .ok body ∧
      result.embeddings = (SortByKey.sortByKey (fun d => d.index.toNat)
        (body.data.map EmbedItem.read)).map (fun d => d.embedding) := by
  have hvectors : OpenAiProvider.embed ["a", "b"] (readEmbed sampleFormats sampleVectors) =
      .ok ⟨"m", [⟨[0x3f800000], by decide⟩, ⟨[0x40000000], by decide⟩]⟩ := by
    have hread : readEmbed sampleFormats sampleVectors = .ok ⟨"m", [
        ⟨some 1, ⟨[0x40000000], by decide⟩⟩, ⟨some 0, ⟨[0x3f800000], by decide⟩⟩]⟩ := by
      decide +kernel
    simp only [hread, OpenAiProvider.embed, SortByKey.sortByKey_eq_insertionSort]
    decide +kernel
  have hresult : (Prog.exec sampleEndpoint
      (Embedder.handle sampleFormats sampleOpenAi 3 (some 1) ["a", "b"]) ()).1 =
      .ok ⟨"m", [⟨[0x3f800000], by decide⟩, ⟨[0x40000000], by decide⟩]⟩ := by
    have hsend : Prog.exec sampleEndpoint (sampleOpenAi.sendEmbed sampleFormats ["a", "b"]) () =
        (_, ()) := congrArg (fun r => (r, ())) hvectors
    rw [Embedder.handle, retry, retryFrom, Prog.exec_bind, Prog.exec_bind, hsend]
    decide +kernel
  rcases embed_accepted () hresult with ⟨failed, last, body, hseen, -, -, -, hbody, -, hsorted, -⟩
  exact ⟨_, failed, last, body, hseen, rfl, hbody, hsorted⟩

end

end Llm
end MemoryHub
