import MemoryHub.Http.Middleware
import MemoryHub.Http.TokenHistory
import MemoryHub.Memory.GetSummary
import MemoryHub.Memory.Manager

/-!
# The HTTP router

Every route but `health` runs behind the middleware, which asks the store who is calling.  The
handler then passes the caller's name on to the memory manager, or makes one call to the store.
A request is a program over these calls: between two of them, other requests have theirs
answered.

Main results:

- Theorem `exec_authMiddleware`: with nothing beside it, the middleware does what
  `authMiddleware` does.
-/

namespace MemoryHub
namespace Http

open Memory
open Prog (exec exec_bind exec_lift exec_run_bind perform)

/-! ## Errors -/

/-- `HttpError`: an error of the authentication layer, or one on the way to the manager and
back. -/
inductive RouteError where
  | http (e : HttpError)
  | memory (source : MemoryError)
  | unavailable
deriving DecidableEq

/-- The status and the body of an error. -/
structure ErrorResponse where
  status : Nat
  error : String
  message : Option String
deriving DecidableEq, Repr

/-- `IntoResponse for HttpError`. -/
def RouteError.intoResponse : RouteError → ErrorResponse
  | .http .notFound => ⟨404, "not_found", none⟩
  | .http .unauthorized => ⟨401, "unauthorized", none⟩
  | .http .forbidden => ⟨403, "forbidden", none⟩
  | .http .conflict => ⟨409, "conflict", none⟩
  | .http (.badRequest message) => ⟨400, "bad_request", some message⟩
  | .http (.internal message) => ⟨500, "internal", some message⟩
  | .memory (.invalidProject message) => ⟨400, "bad_request", some message⟩
  | .memory e => ⟨500, "internal", some e.display⟩
  | .unavailable => ⟨503, "unavailable", none⟩

/-! ## Requests -/

structure WriteRequest where
  agentId : Uuid
  project : Option String := none
  filename : String
  content : String
deriving DecidableEq, Repr

structure ReadRequest where
  agentId : Uuid
  project : Option String := none
  filename : String
deriving DecidableEq, Repr

structure DeleteRequest where
  agentId : Uuid
  project : Option String := none
  filename : String
deriving DecidableEq, Repr

structure SearchRequest where
  agentId : Option Uuid := none
  query : String
  scope : SearchScope := .all
  rawOnly : Bool := false
deriving DecidableEq, Repr

structure SummaryRequest where
  agentId : Option Uuid := none
  scope : SummaryScope
deriving DecidableEq, Repr

/-- What becomes of a message to the manager, and then of the actor it starts. -/
structure Hop where
  manager : Delivery
  started : Except MemoryError Unit
  delivery : Delivery

/-- Every message is answered. -/
def Hop.answered : Hop :=
  ⟨.answered, .ok (), .answered⟩

/-- The time a call to the store reads, and the database error it meets. -/
structure StoreScript where
  now : Int
  dbError : Option Sqlite.Error
deriving DecidableEq, Repr

/-- A call under a script. -/
def StoreScript.event (s : StoreScript) (call : AuthCall) : AuthEvent :=
  ⟨call, s.now, s.dbError⟩

/-- The routes behind the middleware. -/
inductive ProtectedRoute where
  | writeMemory (req : WriteRequest) (hop : Hop) (script : WriteScript)
  | readMemory (req : ReadRequest) (hop : Hop) (storage : Delivery)
  | deleteMemory (req : DeleteRequest) (hop : Hop) (script : DeleteScript)
  | searchMemory (req : SearchRequest) (hop : Hop) (script : SearchScript)
  | getSummary (req : SummaryRequest) (manager : Delivery)
      (reply : GetSummary → Except MemoryError (Option Summary))
  | me
  | change (action : AdminAction) (draw : Draw) (dbError : Option Sqlite.Error)
  | listUsers (store : StoreScript)
  | listTokens (username : String) (store : StoreScript)

inductive Route where
  | health
  | v1 (route : ProtectedRoute)

/-- A request, with the scripts of the middleware's two queries. -/
structure Request where
  authorization : Option String
  check : StoreScript
  resolve : StoreScript
  route : Route

/-- The body of a response. -/
inductive ApiReply where
  | health
  | empty
  | content (content : String)
  | results (results : List (SearchResult Float32))
  | summary (summary : Summary)
  | me (username role : String)
  | user (view : UserInfo)
  | users (views : List UserInfo)
  | token (id token : String)
  | tokens (views : List TokenInfo)
deriving DecidableEq, Repr

/-! ## The calls of a request -/

/-- A call to the store or to an actor. -/
inductive ServerCall where
  | verifyRoot (secret : String)
  | store (ev : AuthEvent)
  | actor (c : ActorCall)

def ServerCall.Response : ServerCall → Type
  | .verifyRoot _ => Bool
  | .store _ => Except AuthError AuthReply
  | .actor c => c.Response

/-- `HttpServerState`, with the actors behind it.  `calls` is no part of the program: it
records the calls made to the store. -/
structure ServerState where
  auth : AuthStore
  calls : List AuthEvent
  world : World

variable (sha256Hex : String → String)

/-- The store or an actor answers. -/
def ServerState.answer : (c : ServerCall) → ServerState → c.Response × ServerState
  | .verifyRoot secret, s => (s.auth.verifyRoot sha256Hex secret, s)
  | .store ev, s =>
      (s.auth.outcome sha256Hex ev,
        { s with auth := s.auth.after sha256Hex ev, calls := s.calls ++ [ev] })
  | .actor c, s => ((World.answer c s.world).1, { s with world := (World.answer c s.world).2 })

/-- A part of a request, call by call. -/
abbrev RouteProg (α : Type) : Type :=
  Prog ServerCall ServerCall.Response α

/-- A part of a request that may fail. -/
abbrev RouteM (α : Type) : Type :=
  ExceptT RouteError (Prog ServerCall ServerCall.Response) α

namespace Router

def verifyRoot (secret : String) : RouteM Bool :=
  ExceptT.lift (perform (ServerCall.verifyRoot secret) : RouteProg Bool)

/-- A call to the store, and `?`. -/
def store (ev : AuthEvent) : RouteM AuthReply :=
  ExceptT.mk (do
    let reply ← (perform (ServerCall.store ev) : RouteProg (Except AuthError AuthReply))
    pure (reply.mapError fun e => .http (.ofAuthError e)))

/-- Only this shape of reply answers the call. -/
def hasAdmin (s : StoreScript) : RouteM Bool := do
  match ← store (s.event .hasAdmin) with
  | .flag admin => pure admin
  | _ => pure false

/-- Only this shape of reply answers the call. -/
def resolveToken (secret : String) (s : StoreScript) : RouteM (Option Principal) := do
  match ← store (s.event (.resolveToken secret)) with
  | .principal principal => pure principal
  | _ => pure none

/-! ## The middleware -/

/-- The root token is honored only until an admin user exists. -/
def isRoot (secret : String) (s : StoreScript) : RouteM Bool := do
  if ← verifyRoot secret then
    let admin ← hasAdmin s
    pure !admin
  else pure false

/-- `auth_middleware`. -/
def authMiddleware (r : Request) : RouteM Principal :=
  match bearer r.authorization with
  | none => throw (.http .unauthorized)
  | some secret => do
      if ← isRoot secret r.check then pure .root
      else
        match ← resolveToken secret r.resolve with
        | none => throw (.http .unauthorized)
        | some principal => pure principal

/-- An extractor, and `?`. -/
def extract {α : Type} (result : Except HttpError α) : RouteM α :=
  ExceptT.mk (pure (result.mapError .http))

/-! ## The handlers of the memory routes -/

/-- Send a message to the manager and wait for the reply. -/
def send (mm : MemoryManager) (hop : Hop) (message : MemoryMessage) : RouteM MemoryReply :=
  let request : Dispatch := ⟨hop.started, hop.delivery, message⟩
  let prog : RouteProg (Except MemoryError MemoryReply) :=
    Prog.lift ServerCall.actor (request.prog mm)
  match hop.manager with
  | .unsent | .dropped => throw .unavailable
  | .unanswered => do
      let _ ← ExceptT.lift prog
      throw .unavailable
  | .answered =>
      ExceptT.mk (do
        let reply ← prog
        pure (reply.mapError .memory))

/-- What a memory handler makes of the reply. -/
def answer : MemoryReply → Except RouteError ApiReply
  | .changed (.ok ()) _ => .ok .empty
  | .changed (.error e) _ => .error (.memory e)
  | .content (.ok (some content)) => .ok (.content content)
  | .content (.ok none) => .error (.http .notFound)
  | .content (.error e) => .error (.memory e)
  | .found (.ok results) => .ok (.results results)
  | .found (.error e) => .error (.memory e)

/-- Send a message, and answer with what comes back. -/
def sendAndAnswer (mm : MemoryManager) (hop : Hop) (message : MemoryMessage) : RouteM ApiReply := do
  let reply ← send mm hop message
  ExceptT.mk (pure (answer reply))

def writeMemory (mm : MemoryManager) (user : AuthUser) (req : WriteRequest) (hop : Hop)
    (script : WriteScript) : RouteM ApiReply :=
  sendAndAnswer mm hop
    (.write ⟨user.username, req.agentId, req.project, req.filename, req.content⟩ script)

def readMemory (mm : MemoryManager) (user : AuthUser) (req : ReadRequest) (hop : Hop)
    (storage : Delivery) : RouteM ApiReply :=
  sendAndAnswer mm hop (.read ⟨user.username, req.agentId, req.project, req.filename⟩ storage)

def deleteMemory (mm : MemoryManager) (user : AuthUser) (req : DeleteRequest) (hop : Hop)
    (script : DeleteScript) : RouteM ApiReply :=
  sendAndAnswer mm hop (.delete ⟨user.username, req.agentId, req.project, req.filename⟩ script)

def searchMemory (mm : MemoryManager) (user : AuthUser) (req : SearchRequest) (hop : Hop)
    (script : SearchScript) : RouteM ApiReply :=
  sendAndAnswer mm hop
    (.search ⟨user.username, req.agentId.getD .nil, req.query, req.scope, req.rawOnly⟩ script)

/-- What the manager replies is an argument. -/
def getSummary (user : AuthUser) (req : SummaryRequest) (manager : Delivery)
    (reply : GetSummary → Except MemoryError (Option Summary)) : RouteM ApiReply :=
  match manager with
  | .unsent | .dropped | .unanswered => throw .unavailable
  | .answered =>
      match reply ⟨user.username, req.agentId, req.scope⟩ with
      | .ok (some summary) => pure (.summary summary)
      | .ok none => throw (.http .notFound)
      | .error e => throw (.memory e)

/-! ## The other handlers -/

def me (user : AuthUser) : RouteM ApiReply :=
  pure (.me user.username user.role)

/-- What an admin handler answers with; the last two shapes answer no call of theirs. -/
def adminAnswer : AuthReply → ApiReply
  | .user info => .user info
  | .users rows => .users rows
  | .token new => .token new.id new.secret
  | .tokens rows => .tokens rows
  | .done => .empty
  | .flag _ => .empty
  | .principal _ => .empty

/-- The one call of an admin handler. -/
def admin (ev : AuthEvent) : RouteM ApiReply := do
  let reply ← store ev
  pure (adminAnswer reply)

/-- The handler of a route, behind its extractor. -/
def handle (mm : MemoryManager) (principal : Principal) : ProtectedRoute → RouteM ApiReply
  | .writeMemory req hop script => do
      let user ← extract (authUser (some principal))
      writeMemory mm user req hop script
  | .readMemory req hop storage => do
      let user ← extract (authUser (some principal))
      readMemory mm user req hop storage
  | .deleteMemory req hop script => do
      let user ← extract (authUser (some principal))
      deleteMemory mm user req hop script
  | .searchMemory req hop script => do
      let user ← extract (authUser (some principal))
      searchMemory mm user req hop script
  | .getSummary req manager reply => do
      let user ← extract (authUser (some principal))
      getSummary user req manager reply
  | .me => do
      let user ← extract (authUser (some principal))
      me user
  | .change action draw dbError => do
      extract (adminPrincipal (some principal))
      admin ⟨action.call draw, draw.now, dbError⟩
  | .listUsers s => do
      extract (adminPrincipal (some principal))
      admin (s.event .listUsers)
  | .listTokens username s => do
      extract (adminPrincipal (some principal))
      admin (s.event (.listTokens username))

/-- A request, from its arrival to its response. -/
def serve (mm : MemoryManager) (r : Request) : RouteM ApiReply :=
  match r.route with
  | .health => pure .health
  | .v1 route => do
      let principal ← authMiddleware r
      handle mm principal route

/-! ## Requests served alone -/

section

variable (s : ServerState)

theorem exec_store (ev : AuthEvent) :
    exec (ServerState.answer sha256Hex) (store ev).run s =
      ((s.auth.outcome sha256Hex ev).mapError fun e => .http (.ofAuthError e),
        { s with auth := s.auth.after sha256Hex ev, calls := s.calls ++ [ev] }) :=
  rfl

/-- Asking for an admin is answered by the store, unless there is a database error. -/
theorem exec_hasAdmin (script : StoreScript) : ∃ calls,
    (exec (ServerState.answer sha256Hex) (hasAdmin script).run s).2 = { s with calls := calls } ∧
      (script.dbError = none →
        (exec (ServerState.answer sha256Hex) (hasAdmin script).run s).1 = .ok s.auth.hasAdmin) := by
  unfold hasAdmin
  rw [exec_run_bind, exec_store]
  unfold AuthStore.outcome AuthStore.after AuthStore.perform StoreScript.event
  cases script.dbError with
  | some e => exact ⟨_, rfl, fun h => absurd h (by simp)⟩
  | none => exact ⟨_, rfl, fun _ => rfl⟩

/-- So is asking for the owner of a token. -/
theorem exec_resolveToken (secret : String) (script : StoreScript) : ∃ calls,
    (exec (ServerState.answer sha256Hex) (resolveToken secret script).run s).2 =
        { s with calls := calls } ∧
      (script.dbError = none →
        (exec (ServerState.answer sha256Hex) (resolveToken secret script).run s).1 =
          .ok (s.auth.resolveToken sha256Hex secret script.now)) := by
  unfold resolveToken
  rw [exec_run_bind, exec_store]
  unfold AuthStore.outcome AuthStore.after AuthStore.perform StoreScript.event
  cases script.dbError with
  | some e => exact ⟨_, rfl, fun h => absurd h (by simp)⟩
  | none => exact ⟨_, rfl, fun _ => rfl⟩

/-- The root token is honored as the two answers say. -/
theorem exec_isRoot (secret : String) (script : StoreScript) : ∃ calls,
    (exec (ServerState.answer sha256Hex) (isRoot secret script).run s).2 =
        { s with calls := calls } ∧
      (script.dbError = none →
        (exec (ServerState.answer sha256Hex) (isRoot secret script).run s).1 =
          .ok (rootHonored sha256Hex s.auth secret)) := by
  have hverify : exec (ServerState.answer sha256Hex) (verifyRoot secret).run s =
      (.ok (s.auth.verifyRoot sha256Hex secret), s) := rfl
  unfold isRoot
  rw [exec_run_bind, hverify]
  unfold rootHonored
  cases hroot : s.auth.verifyRoot sha256Hex secret with
  | false => exact ⟨s.calls, rfl, fun _ => rfl⟩
  | true =>
      rcases exec_hasAdmin sha256Hex s script with ⟨calls, hsame, hadmin⟩
      simp only [if_true, Bool.true_and]
      rw [exec_run_bind]
      rcases hrun : exec (ServerState.answer sha256Hex) (hasAdmin script).run s with ⟨result, t⟩
      rw [hrun] at hsame hadmin
      cases result with
      | error e => exact ⟨calls, hsame, fun h => absurd (hadmin h) (by simp)⟩
      | ok admin =>
          refine ⟨calls, hsame, ?_⟩
          intro h
          rw [← Except.ok.inj (hadmin h)]
          rfl

/-- With nothing beside it, and no database error, the middleware does what `authMiddleware`
does; it changes nothing in any case. -/
theorem exec_authMiddleware (r : Request) : ∃ calls,
    (exec (ServerState.answer sha256Hex) (authMiddleware r).run s).2 = { s with calls := calls } ∧
      (r.check.dbError = none → r.resolve.dbError = none →
        (exec (ServerState.answer sha256Hex) (authMiddleware r).run s).1 =
          (Http.authMiddleware sha256Hex s.auth s.auth r.authorization r.resolve.now).mapError
            .http) := by
  unfold authMiddleware Http.authMiddleware
  cases bearer r.authorization with
  | none => exact ⟨s.calls, rfl, fun _ _ => rfl⟩
  | some secret =>
      rcases exec_isRoot sha256Hex s secret r.check with ⟨calls, hsame, hroot⟩
      simp only
      rw [exec_run_bind]
      rcases hrun : exec (ServerState.answer sha256Hex) (isRoot secret r.check).run s
        with ⟨result, t⟩
      rw [hrun] at hsame hroot
      cases hsame
      cases result with
      | error e => exact ⟨calls, rfl, fun h _ => absurd (hroot h) (by simp)⟩
      | ok root =>
          cases root with
          | true =>
              refine ⟨calls, rfl, ?_⟩
              intro h _
              rw [← Except.ok.inj (hroot h)]
              rfl
          | false =>
              rcases exec_resolveToken sha256Hex { s with calls := calls } secret
                r.resolve with ⟨later, hsame', hresolve⟩
              simp only [Bool.false_eq_true, if_false]
              rw [exec_run_bind]
              rcases hrun' : exec (ServerState.answer sha256Hex)
                (resolveToken secret r.resolve).run { s with calls := calls } with ⟨result, u⟩
              rw [hrun'] at hsame' hresolve
              cases hsame'
              cases result with
              | error e => exact ⟨later, rfl, fun _ h => absurd (hresolve h) (by simp)⟩
              | ok found =>
                  cases found with
                  | none =>
                      refine ⟨later, rfl, ?_⟩
                      intro h h'
                      rw [← Except.ok.inj (hroot h), ← Except.ok.inj (hresolve h')]
                      rfl
                  | some principal =>
                      refine ⟨later, rfl, ?_⟩
                      intro h h'
                      rw [← Except.ok.inj (hroot h), ← Except.ok.inj (hresolve h')]
                      rfl

end

end Router

end Http
end MemoryHub
