import MemoryHub.Http.Provenance
import MemoryHub.Memory.FileStore

/-!
# The API is linearizable

Requests run side by side, and any call on the way may fail.  Still, to its clients the server is
a map from keys to contents: every request changes or reads it at one of its turns, if at all,
and every answer is right.  A request answered with an error of the server may or may not have
been carried out; all others say what has been done.

Main results:

- Theorem `serve_oneShot`: a request acts at most once on the files.
- Theorem `memories_linearizable`: every schedule of requests is linearizable.
-/

namespace MemoryHub
namespace Http

open Memory Machine
open Pool (Silent OneShot Quiet)
open Prog (Meets MeetsOk)

variable (sha256Hex : String → String)

/-! ## What is asked and what is answered -/

/-- The message of a memory route, for its caller. -/
def ProtectedRoute.message (username : String) : ProtectedRoute → Option MemoryMessage
  | .writeMemory req _ script =>
      some (.write ⟨username, req.agentId, req.project, req.filename, req.content⟩ script)
  | .readMemory req _ storage =>
      some (.read ⟨username, req.agentId, req.project, req.filename⟩ storage)
  | .deleteMemory req _ script =>
      some (.delete ⟨username, req.agentId, req.project, req.filename⟩ script)
  | .searchMemory req _ script =>
      some (.search ⟨username, req.agentId.getD .nil, req.query, req.scope, req.rawOnly⟩ script)
  | _ => none

/-- The route asks for an operation on the files of a user. -/
def ProtectedRoute.Asks (route : ProtectedRoute) (username : String) (op : FileAction) : Prop :=
  ∃ message, route.message username = some message ∧ message.Asks op

/-- The request asks for an operation, for the user its bearer is in one of some states. -/
def Request.Asks (r : Request) (seen : ServerState → Prop) (op : FileAction) : Prop :=
  ∃ route s username, r.route = .v1 route ∧ seen s ∧ r.CallerAt sha256Hex s username ∧
    route.Asks username op

/-- The request is about a file of the map, whoever makes it. -/
def Request.AboutFile (r : Request) : Prop :=
  ∃ route, r.route = .v1 route ∧
    ∀ username, validateUsername username = .ok () → ∃ op, route.Asks username op

/-- An answer is true of what has been done. -/
def Request.Fits (r : Request) (done : Option (FileAction × Option String)) :
    Except RouteError ApiReply → Prop
  | .ok .empty => r.AboutFile → done ≠ none
  | .ok (.content content) => r.AboutFile → ∃ op, done = some (op, some content)
  | .ok _ => True
  | .error (.http .notFound) => r.AboutFile → ∃ op, done = some (op, none)
  | .error e => e.intoResponse.status < 500 → done = none

/-- The files behind the server. -/
def serverFiles : Pool.Holds ServerState Files :=
  filesHeld.within ServerState.world

section

variable {sha256Hex} {mm : MemoryManager} {r : Request} {seen : ServerState → Prop}

/-- An error of the client says that nothing has been done. -/
theorem Request.fits_error_iff {done : Option (FileAction × Option String)} {e : RouteError}
    (hfound : e ≠ .http .notFound) :
    r.Fits done (.error e) ↔ (e.intoResponse.status < 500 → done = none) := by
  cases e with
  | http e =>
      cases e with
      | notFound => exact absurd rfl hfound
      | unauthorized => exact Iff.rfl
      | forbidden => exact Iff.rfl
      | conflict => exact Iff.rfl
      | badRequest message => exact Iff.rfl
      | internal message => exact Iff.rfl
  | memory source => exact Iff.rfl
  | unavailable => exact Iff.rfl

/-- Nothing done is true to every answer to a request about something else. -/
theorem Request.fits_none_of_not (h : ¬ r.AboutFile) (reply : Except RouteError ApiReply) :
    r.Fits none reply := by
  cases reply with
  | ok reply => cases reply <;> first | trivial | exact fun hfile => absurd hfile h
  | error e =>
      by_cases he : e = .http .notFound
      · rw [he]
        exact fun hfile => absurd hfile h
      · exact (Request.fits_error_iff he).mpr fun _ => rfl

/-! ## Calls that leave the files alone -/

theorem silent_verifyRoot (secret : String) :
    Silent (ServerState.answer sha256Hex) serverFiles (.verifyRoot secret) :=
  fun _ _ => ⟨trivial, rfl⟩

theorem silent_store (ev : AuthEvent) :
    Silent (ServerState.answer sha256Hex) serverFiles (.store ev) :=
  fun _ _ => ⟨trivial, rfl⟩

/-! ## The middleware -/

/-- The middleware's calls leave the files alone, and it finds no fault with what is asked. -/
def Passes {α : Type} (sha256Hex : String → String) (seen : ServerState → Prop) (x : RouteM α) :
    Prop :=
  Meets (GivenIn sha256Hex seen) (Silent (ServerState.answer sha256Hex) serverFiles)
    (fun result => result ≠ .error (.http .notFound)) x.run

theorem Passes.bind {α β : Type} {x : RouteM α} {f : α → RouteM β} (hx : Passes sha256Hex seen x)
    (hf : ∀ a, Passes sha256Hex seen (f a)) : Passes sha256Hex seen (x >>= f) := by
  refine Prog.Meets.run_bind hx (fun a _ => hf a) ?_
  intro e he heq
  cases heq
  exact he rfl

theorem passes_pure {α : Type} (a : α) : Passes sha256Hex seen (pure a : RouteM α) := by
  intro h
  cases h

/-- The middleware's questions are answered, or there is a database error. -/
theorem passes_store {ev : AuthEvent} (h : ∀ store : AuthStore, ∀ e,
    store.outcome sha256Hex ev = .error e → HttpError.ofAuthError e ≠ .notFound) :
    Passes sha256Hex seen (Router.store ev) := by
  refine ⟨silent_store ev, ?_⟩
  rintro reply ⟨s, -, rfl⟩
  change (s.auth.outcome sha256Hex ev).mapError _ ≠ _
  cases hout : s.auth.outcome sha256Hex ev with
  | ok reply =>
      intro heq
      cases heq
  | error e =>
      intro heq
      exact h s.auth e hout (RouteError.http.inj (Except.error.inj heq))

/-- A question fails for a database error only. -/
theorem passes_question {s : StoreScript} {call : AuthCall}
    (h : call = .hasAdmin ∨ ∃ secret, call = .resolveToken secret) :
    Passes sha256Hex seen (Router.store (s.event call)) := by
  refine passes_store ?_
  intro store e hout
  unfold AuthStore.outcome AuthStore.perform StoreScript.event at hout
  cases hfault : s.dbError with
  | some source =>
      simp only [hfault, Except.map, Except.error.injEq] at hout
      rw [← hout]
      exact fun heq => by cases heq
  | none =>
      rcases h with rfl | ⟨secret, rfl⟩
      · simp [hfault, Except.map] at hout
      · simp [hfault, Except.map] at hout

theorem passes_hasAdmin (s : StoreScript) : Passes sha256Hex seen (Router.hasAdmin s) := by
  refine Passes.bind (passes_question (Or.inl rfl)) ?_
  intro reply
  cases reply <;> exact passes_pure _

theorem passes_resolveToken (secret : String) (s : StoreScript) :
    Passes sha256Hex seen (Router.resolveToken secret s) := by
  refine Passes.bind (passes_question (Or.inr ⟨secret, rfl⟩)) ?_
  intro reply
  cases reply <;> exact passes_pure _

theorem passes_isRoot (secret : String) (s : StoreScript) :
    Passes sha256Hex seen (Router.isRoot secret s) := by
  have hverify : Passes sha256Hex seen (Router.verifyRoot secret) := by
    refine ⟨silent_verifyRoot secret, ?_⟩
    intro reply _ heq
    cases heq
  refine Passes.bind hverify ?_
  intro verified
  cases verified with
  | true => exact Passes.bind (passes_hasAdmin s) fun _ => passes_pure _
  | false => exact passes_pure _

theorem passes_authMiddleware (sha256Hex : String → String) (seen : ServerState → Prop)
    (r : Request) : Passes sha256Hex seen (Router.authMiddleware r) := by
  unfold Router.authMiddleware
  cases bearer r.authorization with
  | none => exact fun heq => by cases heq
  | some secret =>
      refine Passes.bind (passes_isRoot secret r.check) ?_
      intro root
      cases root with
      | true => exact passes_pure _
      | false =>
          refine Passes.bind (passes_resolveToken secret r.resolve) ?_
          intro found
          cases found with
          | none => exact fun heq => by cases heq
          | some principal => exact passes_pure _

/-! ## The handlers -/

/-- What the manager replies is true of what has been done. -/
def MemoryMessage.FitsDispatch (message : MemoryMessage)
    (done : Option (FileAction × Option String)) : Except MemoryError MemoryReply → Prop
  | .ok reply => message.Fits done reply
  | .error e => ∀ text, e = .invalidProject text → done = none

/-- The actor the manager starts acts as its message does. -/
theorem dispatch_oneShot {ok : ∀ c : ActorCall, c.Response → Prop} (d : Dispatch)
    (hvalid : validateUsername d.message.username = .ok ()) :
    OneShot World.answer filesHeld FileAction.apply ok d.message.Asks
      (MemoryMessage.FitsDispatch d.message) (d.prog mm) := by
  have hprog : OneShot World.answer filesHeld FileAction.apply ok d.message.Asks d.message.Fits
      (d.message.prog mm) := prog_oneShot mm hvalid
  unfold Dispatch.prog
  cases d.started with
  | error e => exact fun _ _ => rfl
  | ok _ =>
      cases d.delivery with
      | unsent => exact fun _ h => by cases h
      | dropped => exact fun _ h => by cases h
      | unanswered => exact hprog.bind fun _ _ _ _ h => by cases h
      | answered => exact hprog.bind fun _ _ h => h

/-- Of the errors behind the manager, only a refused project is the client's. -/
theorem eq_invalidProject_of_status {e : MemoryError}
    (h : (RouteError.memory e).intoResponse.status < 500) : ∃ text, e = .invalidProject text := by
  cases e with
  | invalidProject text => exact ⟨text, rfl⟩
  | _ => simp [RouteError.intoResponse] at h

/-- What a memory handler answers is true when the reply it got is. -/
theorem fits_answer {route : ProtectedRoute} (hroute : r.route = .v1 route)
    {message : MemoryMessage} (hmessage : route.message message.username = some message)
    (hvalid : validateUsername message.username = .ok ())
    {done : Option (FileAction × Option String)} {reply : MemoryReply}
    (h : message.Fits done reply) : r.Fits done (Router.answer reply) := by
  have hasks : r.AboutFile → ∃ op, message.Asks op := by
    rintro ⟨route', hroute', hall⟩
    rw [hroute, Route.v1.injEq] at hroute'
    subst hroute'
    rcases hall _ hvalid with ⟨op, message', hsome, hop⟩
    rw [hmessage, Option.some.injEq] at hsome
    subst hsome
    exact ⟨op, hop⟩
  cases reply with
  | changed result notified =>
      cases result with
      | ok _ => exact fun hfile => h (hasks hfile)
      | error e =>
          intro hstatus
          rcases eq_invalidProject_of_status hstatus with ⟨text, rfl⟩
          exact h
  | content result =>
      cases result with
      | ok content =>
          cases content with
          | some text => exact fun hfile => h (hasks hfile)
          | none => exact fun hfile => h (hasks hfile)
      | error e =>
          intro hstatus
          rcases eq_invalidProject_of_status hstatus with ⟨text, rfl⟩
          exact h
  | found result =>
      cases result with
      | ok results => exact trivial
      | error e => exact fun _ => h

/-- The same of what comes back from the manager. -/
def MemoryMessage.FitsSend (message : MemoryMessage)
    (done : Option (FileAction × Option String)) : Except RouteError MemoryReply → Prop
  | .ok reply => message.Fits done reply
  | .error e => e ≠ .http .notFound ∧ (e.intoResponse.status < 500 → done = none)

/-- What is sent for the caller acts as the request asks. -/
theorem send_oneShot {route : ProtectedRoute} (hroute : r.route = .v1 route)
    {message : MemoryMessage} (hmessage : route.message message.username = some message)
    (hvalid : validateUsername message.username = .ok ())
    (hcaller : ∃ s, seen s ∧ r.CallerAt sha256Hex s message.username) (hop : Hop) :
    OneShot (ServerState.answer sha256Hex) serverFiles FileAction.apply
      (GivenIn sha256Hex seen) (r.Asks sha256Hex seen) (MemoryMessage.FitsSend message)
        (Router.send mm hop message).run := by
  rcases hcaller with ⟨s, hs, hcaller⟩
  have hprog : OneShot (ServerState.answer sha256Hex) serverFiles FileAction.apply
      (GivenIn sha256Hex seen) (r.Asks sha256Hex seen) (MemoryMessage.FitsDispatch message)
      (Prog.lift ServerCall.actor
        ((⟨hop.started, hop.delivery, message⟩ : Dispatch).prog mm) :
          RouteProg (Except MemoryError MemoryReply)) := by
    have hdispatch : OneShot World.answer filesHeld FileAction.apply (fun _ _ => True)
        message.Asks (MemoryMessage.FitsDispatch message)
        ((⟨hop.started, hop.delivery, message⟩ : Dispatch).prog mm) :=
      dispatch_oneShot ⟨hop.started, hop.delivery, message⟩ hvalid
    have hlift : OneShot (ServerState.answer sha256Hex) serverFiles FileAction.apply
        (GivenIn sha256Hex seen) message.Asks (MemoryMessage.FitsDispatch message)
        (Prog.lift ServerCall.actor
          ((⟨hop.started, hop.delivery, message⟩ : Dispatch).prog mm) :
            RouteProg (Except MemoryError MemoryReply)) :=
      OneShot.lift ServerCall.actor ServerState.world (fun _ _ => rfl) (fun _ _ => rfl)
        (fun _ _ _ => trivial) hdispatch
    refine hlift.mono (fun _ _ h => h) ?_ fun _ _ h => h
    intro op hasks
    exact ⟨route, s, message.username, hroute, hs, hcaller, message, hmessage, hasks⟩
  unfold Router.send
  cases hop.manager with
  | unsent => exact ⟨by simp, fun _ => rfl⟩
  | dropped => exact ⟨by simp, fun _ => rfl⟩
  | unanswered =>
      -- The actor runs, but nobody hears of it.
      have hlift : OneShot (ServerState.answer sha256Hex) serverFiles FileAction.apply
          (GivenIn sha256Hex seen) (r.Asks sha256Hex seen) (fun _ result => ∃ a, result = .ok a)
          (ExceptT.lift (Prog.lift ServerCall.actor
            ((⟨hop.started, hop.delivery, message⟩ : Dispatch).prog mm) :
              RouteProg (Except MemoryError MemoryReply)) :
                RouteM (Except MemoryError MemoryReply)).run :=
        OneShot.bind hprog fun _ a _ => ⟨a, rfl⟩
      refine OneShot.run_bind hlift ?_ ?_
      · intro done _ _
        exact ⟨by simp, fun hlt => absurd hlt (by decide)⟩
      · rintro done e ⟨a, ha⟩
        cases ha
  | answered =>
      refine OneShot.bind hprog ?_
      intro done result hresult
      cases result with
      | ok reply => exact hresult
      | error e =>
          refine ⟨by simp, ?_⟩
          intro hstatus
          rcases eq_invalidProject_of_status hstatus with ⟨text, rfl⟩
          exact hresult text rfl

/-- A memory route acts as it asks. -/
theorem messageRoute_oneShot (hlogged : ∀ s, seen s → ∃ adminToken, Logged sha256Hex adminToken s)
    {principal : Principal} (hknown : Known sha256Hex r seen principal) {route : ProtectedRoute}
    (hroute : r.route = .v1 route) {message : String → MemoryMessage}
    (hmessage : ∀ username, (message username).username = username ∧
      route.message username = some (message username)) (hop : Hop) :
    OneShot (ServerState.answer sha256Hex) serverFiles FileAction.apply
      (GivenIn sha256Hex seen) (r.Asks sha256Hex seen) r.Fits
        (do
          let user ← Router.extract (authUser (some principal))
          Router.sendAndAnswer mm hop (message user.username) : RouteM ApiReply).run := by
  cases principal with
  | root => exact (Request.fits_error_iff (by simp)).mpr fun _ => rfl
  | user username role =>
      rcases callerAt_of_authUser hknown rfl with ⟨s, hs, hcaller⟩
      rcases hlogged s hs with ⟨adminToken, hlog⟩
      rcases hcaller with ⟨secret, role', hbearer, hresolve⟩
      have hvalid := hlog.validUsername hresolve
      rcases hmessage username with ⟨huser, hsome⟩
      rw [← huser] at hvalid hresolve
      have hcaller : ∃ s, seen s ∧ r.CallerAt sha256Hex s (message username).username :=
        ⟨s, hs, secret, role', hbearer, hresolve⟩
      have hsent : route.message (message username).username = some (message username) := by
        rw [huser]
        exact hsome
      change OneShot _ _ _ _ _ _ (Router.sendAndAnswer mm hop (message username)).run
      refine OneShot.run_bind (send_oneShot hroute hsent hvalid hcaller hop) ?_ ?_
      · intro done reply hreply
        exact fits_answer hroute hsent hvalid hreply
      · rintro done e ⟨hfound, hdone⟩
        exact (Request.fits_error_iff hfound).mpr hdone

/-- A route that sends no message is about no file. -/
theorem not_aboutFile {route : ProtectedRoute} (hroute : r.route = .v1 route)
    (hnone : ∀ username, route.message username = none) : ¬ r.AboutFile := by
  rintro ⟨route', hroute', hall⟩
  rw [hroute, Route.v1.injEq] at hroute'
  subst hroute'
  rcases hall "a" (by decide) with ⟨op, message, hsome, -⟩
  rw [hnone] at hsome
  cases hsome

/-- A quiet handler of such a route. -/
theorem quietRoute_oneShot {route : ProtectedRoute} (hroute : r.route = .v1 route)
    (hnone : ∀ username, route.message username = none) {x : RouteM ApiReply}
    (hx : Meets (GivenIn sha256Hex seen) (Silent (ServerState.answer sha256Hex) serverFiles)
      (fun _ => True) x.run) :
    OneShot (ServerState.answer sha256Hex) serverFiles FileAction.apply
      (GivenIn sha256Hex seen) (r.Asks sha256Hex seen) r.Fits x.run :=
  OneShot.of_meets (hx.mono (fun _ _ h => h) (fun _ h => h)
    fun reply _ => Request.fits_none_of_not (not_aboutFile hroute hnone) reply)

/-- An admin handler leaves the files alone. -/
theorem admin_silent (principal : Principal) (ev : AuthEvent) :
    Meets (GivenIn sha256Hex seen) (Silent (ServerState.answer sha256Hex) serverFiles)
      (fun _ => True)
      (do
        Router.extract (adminPrincipal (some principal))
        Router.admin ev : RouteM ApiReply).run := by
  cases hadmin : adminPrincipal (some principal) with
  | error e => exact trivial
  | ok _ =>
      refine ⟨silent_store ev, ?_⟩
      intro reply _
      cases reply with
      | error e => exact trivial
      | ok reply => exact trivial

theorem handle_oneShot (hlogged : ∀ s, seen s → ∃ adminToken, Logged sha256Hex adminToken s)
    {principal : Principal} (hknown : Known sha256Hex r seen principal) {route : ProtectedRoute}
    (hroute : r.route = .v1 route) :
    OneShot (ServerState.answer sha256Hex) serverFiles FileAction.apply
      (GivenIn sha256Hex seen) (r.Asks sha256Hex seen) r.Fits
        (Router.handle mm principal route).run := by
  cases route with
  | writeMemory req hop script =>
      exact messageRoute_oneShot hlogged hknown hroute (fun _ => ⟨rfl, rfl⟩) hop
  | readMemory req hop storage =>
      exact messageRoute_oneShot hlogged hknown hroute (fun _ => ⟨rfl, rfl⟩) hop
  | deleteMemory req hop script =>
      exact messageRoute_oneShot hlogged hknown hroute (fun _ => ⟨rfl, rfl⟩) hop
  | searchMemory req hop script =>
      exact messageRoute_oneShot hlogged hknown hroute (fun _ => ⟨rfl, rfl⟩) hop
  | getSummary req manager reply =>
      refine quietRoute_oneShot hroute (fun _ => rfl) ?_
      cases principal with
      | root => exact trivial
      | user username role =>
          change Meets _ _ _ (Router.getSummary ⟨username, role⟩ req manager reply).run
          unfold Router.getSummary
          cases manager with
          | unsent => exact trivial
          | dropped => exact trivial
          | unanswered => exact trivial
          | answered =>
              simp only
              split <;> exact trivial
  | me =>
      refine quietRoute_oneShot hroute (fun _ => rfl) ?_
      cases principal <;> exact trivial
  | change action draw dbError =>
      exact quietRoute_oneShot hroute (fun _ => rfl) (admin_silent principal _)
  | listUsers s => exact quietRoute_oneShot hroute (fun _ => rfl) (admin_silent principal _)
  | listTokens username s =>
      exact quietRoute_oneShot hroute (fun _ => rfl) (admin_silent principal _)

/-- A request acts at most once on the files, as it asks, and its answer is true. -/
theorem serve_oneShot (mm : MemoryManager)
    (hlogged : ∀ s, seen s → ∃ adminToken, Logged sha256Hex adminToken s) (r : Request) :
    OneShot (ServerState.answer sha256Hex) serverFiles FileAction.apply
      (GivenIn sha256Hex seen) (r.Asks sha256Hex seen) r.Fits (Router.serve mm r).run := by
  unfold Router.serve
  cases hroute : r.route with
  | health => exact trivial
  | v1 route =>
      have hknown : MeetsOk (GivenIn sha256Hex seen) (Permitted sha256Hex mm r seen)
          (Known sha256Hex r seen) (Router.authMiddleware r) := authMiddleware_meets
      have hauth := (passes_authMiddleware sha256Hex seen r).and hknown
      refine OneShot.run_after_meets (hauth.mono (fun _ _ h => h) (fun _ h => h.1) fun _ h => h)
        ?_ ?_
      · rintro principal ⟨-, hknown⟩
        exact handle_oneShot hlogged (hknown principal rfl) hroute
      · rintro e ⟨hfound, -⟩
        exact (Request.fits_error_iff fun heq => hfound (congrArg _ heq)).mpr fun _ => rfl

end

/-! ## Requests side by side -/

section

variable {sha256Hex} {adminToken : Option String} {ι : Type} [DecidableEq ι]
  {mm : MemoryManager} {s₀ : ServerState} {requests : ι → Request}

/-- Whatever the schedule and whatever fails, at some of its turns a request has done what it asks
for, once, so that at any time the files are what was done up to then, and every answer is
right. -/
theorem memories_linearizable (hs₀ : Logged sha256Hex adminToken s₀) {turns : List ι}
    {p : Pool ι ServerCall ServerCall.Response (Except RouteError ApiReply) ServerState}
    (hrun : run (Pool.step (ServerState.answer sha256Hex)) (Router.start mm s₀ requests) turns =
      some p) :
    ∃ acts, Pool.Linearized (ServerState.answer sha256Hex) serverFiles FileAction.apply
      (fun i => Pool.Once
        ((requests i).Asks sha256Hex (AtTurn sha256Hex mm s₀ requests turns i)))
      (fun i done => (requests i).Fits done.head?) (Router.start mm s₀ requests) turns p acts := by
  refine Pool.run_linearized trivial ?_ hrun
  intro i
  have hlogged : ∀ s, AtTurn sha256Hex mm s₀ requests turns i s →
      ∃ adminToken, Logged sha256Hex adminToken s := by
    rintro s ⟨before, rest, q, -, hq, rfl⟩
    exact ⟨adminToken, logged_of_run hs₀ hq⟩
  exact (serve_oneShot mm hlogged (requests i)).acts (fun op hop => ⟨rfl, hop⟩)
    (fun _ h => h) fun _ _ _ h => h

/-- Alice writes a note and reads it. -/
def sampleRequests : Bool → Request
  | true => sampleRequest
  | false => { sampleRequest with
      route := .v1 (.readMemory ⟨.nil, none, "a.md"⟩ .answered .answered) }

theorem memories_linearizable_sample :
    ∃ p, run (Pool.step (ServerState.answer sha256HexSample))
        (Router.start ⟨400, 80, none⟩ sampleState sampleRequests)
          [false, true, true, false, true, true, false] = some p ∧
      p.result false = some (.ok (.content "x")) ∧
      ∃ acts, Pool.Linearized (ServerState.answer sha256HexSample) serverFiles FileAction.apply
        (fun i => Pool.Once ((sampleRequests i).Asks sha256HexSample
          (AtTurn sha256HexSample ⟨400, 80, none⟩ sampleState sampleRequests
            [false, true, true, false, true, true, false] i)))
        (fun i done => (sampleRequests i).Fits done.head?)
        (Router.start ⟨400, 80, none⟩ sampleState sampleRequests)
        [false, true, true, false, true, true, false] p acts := by
  have hend : (run (Pool.step (ServerState.answer sha256HexSample))
      (Router.start ⟨400, 80, none⟩ sampleState sampleRequests)
        [false, true, true, false, true, true, false]).map (fun p => p.result false) =
      some (some (.ok (.content "x"))) := by
    decide +kernel
  rcases Option.map_eq_some_iff.mp hend with ⟨p, hp, hresult⟩
  have hlogged : Logged sha256HexSample (some "mh_root") sampleState := rfl
  exact ⟨p, hp, hresult, memories_linearizable hlogged hp⟩

end

end Http
end MemoryHub
