import MemoryHub.Http.Linearizable
import MemoryHub.Lib.Json

/-!
# Requests and responses on the wire

A body that reaches a handler has been read as a record, behind the middleware and the
extractors that come before it; what the handler returns is written as a JSON body with a status.
The text form of UUIDs is read by the parameter `parse`.

Main results:

- Theorem `respond_oneShot`, `respond_refused`: a post that is understood acts as its request,
  and one that is not does nothing.
-/

namespace MemoryHub
namespace Http

open Memory
open Pool (Silent OneShot Quiet)
open Prog (Meets MeetsOk meetsOk_pure meets_true)

/-! ## Bodies of requests -/

section

variable (parse : String → Option Uuid)

def asUuid (j : Json) : Option Uuid :=
  j.asStr.bind parse

/-- `rename_all = "lowercase"`. -/
def asSearchScope (j : Json) : Option SearchScope :=
  match j.asVariant with
  | some "all" => some .all
  | some "user" => some .user
  | some "agent" => some .agent
  | _ => none

/-- `rename_all = "lowercase"`. -/
def asSummaryScope (j : Json) : Option SummaryScope :=
  match j.asVariant with
  | some "user" => some .user
  | some "agent" => some .agent
  | some "global" => some .global
  | _ => none

def WriteRequest.ofJson (j : Json) : Option WriteRequest := do
  let member name := j.member ["agent_id", "project", "filename", "content"] name
  let agentId ← Json.required (asUuid parse) (member "agent_id")
  let project ← Json.optional Json.asStr (member "project")
  let filename ← Json.required Json.asStr (member "filename")
  let content ← Json.required Json.asStr (member "content")
  pure ⟨agentId, project, filename, content⟩

def ReadRequest.ofJson (j : Json) : Option ReadRequest := do
  let member name := j.member ["agent_id", "project", "filename"] name
  let agentId ← Json.required (asUuid parse) (member "agent_id")
  let project ← Json.optional Json.asStr (member "project")
  let filename ← Json.required Json.asStr (member "filename")
  pure ⟨agentId, project, filename⟩

def DeleteRequest.ofJson (j : Json) : Option DeleteRequest := do
  let member name := j.member ["agent_id", "project", "filename"] name
  let agentId ← Json.required (asUuid parse) (member "agent_id")
  let project ← Json.optional Json.asStr (member "project")
  let filename ← Json.required Json.asStr (member "filename")
  pure ⟨agentId, project, filename⟩

def SearchRequest.ofJson (j : Json) : Option SearchRequest := do
  let member name := j.member ["agent_id", "query", "scope", "raw_only"] name
  let agentId ← Json.optional (asUuid parse) (member "agent_id")
  let query ← Json.required Json.asStr (member "query")
  let scope ← Json.withDefault asSearchScope .all (member "scope")
  let rawOnly ← Json.withDefault Json.asBool false (member "raw_only")
  pure ⟨agentId, query, scope, rawOnly⟩

def SummaryRequest.ofJson (j : Json) : Option SummaryRequest := do
  let member name := j.member ["agent_id", "scope"] name
  let agentId ← Json.optional (asUuid parse) (member "agent_id")
  let scope ← Json.required asSummaryScope (member "scope")
  pure ⟨agentId, scope⟩

end

/-! ## Bodies of responses -/

/-- The number that the bits of a float stand for, if it is finite. -/
def float32Value (x : Float32) : Option ℚ :=
  let mantissa : Nat := x.toBits.toNat % 2 ^ 23
  let exponent : Nat := x.toBits.toNat / 2 ^ 23 % 2 ^ 8
  let sign : ℚ := if x.toBits.toNat < 2 ^ 31 then 1 else -1
  if exponent = 255 then none
  else if exponent = 0 then some (sign * mantissa / 2 ^ 149)
  else some (sign * (2 ^ 23 + mantissa) * 2 ^ exponent / 2 ^ 150)

/-- A float as a number, or null if it is not finite.  Of the decimals that are read as the float,
which one is printed is left open. -/
def float32Json (x : Float32) : Json :=
  .orNull ((float32Value x).map .num)

def searchResultJson (r : SearchResult Float32) : Json :=
  .obj [("path", .str r.path), ("start_line", .ofUInt32 r.startLine),
    ("end_line", .ofUInt32 r.endLine), ("score", float32Json r.score), ("snippet", .str r.snippet)]

/-- `UserView`. -/
def userViewJson (view : UserInfo) : Json :=
  .obj [("username", .str view.username), ("role", .str view.role),
    ("created_at", .int view.createdAt)]

/-- `TokenView`. -/
def tokenViewJson (view : TokenInfo) : Json :=
  .obj [("id", .str view.id), ("name", .orNull (view.name.map .str)),
    ("created_at", .int view.createdAt),
    ("expires_at", .orNull (view.expiresAt.map fun t => .int t))]

def ApiReply.toJson : ApiReply → Json
  | .health => .obj [("status", .str "ok")]
  | .empty => .obj []
  | .content text => .obj [("content", .str text)]
  | .results found => .obj [("results", .arr (found.map searchResultJson))]
  | .summary latest => .obj [("content", .str latest.content), ("path", .str latest.path)]
  | .me username role => .obj [("username", .str username), ("role", .str role)]
  | .user view => userViewJson view
  | .users views => .obj [("users", .arr (views.map userViewJson))]
  | .token id secret => .obj [("id", .str id), ("token", .str secret)]
  | .tokens views => .obj [("tokens", .arr (views.map tokenViewJson))]

/-- The body of a response. -/
inductive Body where
  | json (value : Json)
  | text (text : String)

structure HttpResponse where
  status : Nat
  body : Body

/-- `StatusCode::is_success`. -/
def HttpResponse.isSuccess (resp : HttpResponse) : Bool :=
  200 ≤ resp.status ∧ resp.status < 300

/-- What a handler returns, as a response. -/
def toResponse : Except RouteError ApiReply → HttpResponse
  | .ok reply => ⟨200, .json reply.toJson⟩
  | .error e => ⟨e.intoResponse.status, .json (.obj (("error", .str e.intoResponse.error) ::
      Json.field "message" (e.intoResponse.message.map .str)))⟩

/-! ## Posts to the memory routes -/

/-- A `POST` with a JSON body. -/
structure Post where
  path : String
  authorization : Option String
  body : Json

/-- What happens to a post at the server: whether its body is over the limit, and the text with
which a body is refused. -/
structure PostScript where
  check : StoreScript
  resolve : StoreScript
  hop : Hop
  write : WriteScript
  storage : Delivery
  delete : DeleteScript
  search : SearchScript
  manager : Delivery
  summary : GetSummary → Except MemoryError (Option Summary)
  overLimit : Bool
  rejection : String

/-- The body, unless it is over the limit. -/
def Post.read {α : Type} (p : Post) (s : PostScript) (ofJson : Json → Option α) : Option α :=
  if s.overLimit then none else ofJson p.body

/-- The route of a path, with what its body is read as; `none` where there is no route. -/
def Post.route (parse : String → Option Uuid) (p : Post) (s : PostScript) :
    Option (Option ProtectedRoute) :=
  if p.path = "/v1/memories/write" then
    some ((p.read s (WriteRequest.ofJson parse)).map fun req => .writeMemory req s.hop s.write)
  else if p.path = "/v1/memories/read" then
    some ((p.read s (ReadRequest.ofJson parse)).map fun req => .readMemory req s.hop s.storage)
  else if p.path = "/v1/memories/delete" then
    some ((p.read s (DeleteRequest.ofJson parse)).map fun req => .deleteMemory req s.hop s.delete)
  else if p.path = "/v1/memories/search" then
    some ((p.read s (SearchRequest.ofJson parse)).map fun req => .searchMemory req s.hop s.search)
  else if p.path = "/v1/memories/summary" then
    some ((p.read s (SummaryRequest.ofJson parse)).map fun req =>
      .getSummary req s.manager s.summary)
  else none

/-- A request with the post's credentials. -/
def Post.request (p : Post) (s : PostScript) (route : Route) : Request :=
  ⟨p.authorization, s.check, s.resolve, route⟩

/-- How the `Json` extractor refuses a body. -/
def PostScript.refusal (s : PostScript) : HttpResponse :=
  ⟨if s.overLimit then 413 else 422, .text s.rejection⟩

namespace Router

/-- The extractors that come before the body. -/
def beforeBody (r : Request) : RouteM AuthUser := do
  let principal ← authMiddleware r
  extract (authUser (some principal))

/-- The server's response to a post. -/
def respond (parse : String → Option Uuid) (mm : MemoryManager) (p : Post) (s : PostScript) :
    RouteProg HttpResponse :=
  match p.route parse s with
  | none => pure ⟨404, .text ""⟩
  | some none => do
      match ← (beforeBody (p.request s .health)).run with
      | .error e => pure (toResponse (.error e))
      | .ok _ => pure s.refusal
  | some (some route) => do
      let reply ← (serve mm (p.request s (.v1 route))).run
      pure (toResponse reply)

end Router

/-! ## What responses say -/

/-- The shape of a successful answer. -/
def ProtectedRoute.Answers : ProtectedRoute → ApiReply → Prop
  | .writeMemory .., reply => reply = .empty
  | .readMemory .., reply => ∃ text, reply = .content text
  | .deleteMemory .., reply => reply = .empty
  | .searchMemory .., reply => ∃ found, reply = .results found
  | .getSummary .., reply => ∃ latest, reply = .summary latest
  | _, _ => True

section

variable {sha256Hex : String → String} {mm : MemoryManager} {seen : ServerState → Prop}

/-- No error is a success. -/
theorem intoResponse_status (e : RouteError) : 400 ≤ e.intoResponse.status := by
  cases e with
  | http e => cases e <;> simp [RouteError.intoResponse]
  | memory e => cases e <;> simp [RouteError.intoResponse]
  | unavailable => decide

theorem intoResponse_status_eq_404 {e : RouteError} :
    e.intoResponse.status = 404 ↔ e = .http .notFound := by
  cases e with
  | http e => cases e <;> simp [RouteError.intoResponse]
  | memory e => cases e <;> simp [RouteError.intoResponse]
  | unavailable => simp [RouteError.intoResponse]

/-- A memory message is answered in the shape of its route. -/
theorem sendAndAnswer_shape {hop : Hop} {message : MemoryMessage} {P : ApiReply → Prop}
    (h : Meets (fun _ _ => True) (fun _ => True)
      (fun reply => ∀ answer, Router.answer reply = .ok answer → P answer) (message.prog mm)) :
    MeetsOk (fun _ _ => True) (fun _ => True) P (Router.sendAndAnswer mm hop message) := by
  refine MeetsOk.bind (send_meets h (fun _ _ _ => trivial) fun _ _ => trivial) ?_
  intro reply hreply answer hanswer
  exact hreply answer hanswer

/-- A change is answered with an empty object. -/
theorem answer_changed {result : Except MemoryError Unit} {notified : Option FileChanged}
    {answer : ApiReply} (h : Router.answer (.changed result notified) = .ok answer) :
    answer = .empty := by
  cases result with
  | ok _ =>
      cases h
      rfl
  | error e => cases h

theorem handle_shape (principal : Principal) (route : ProtectedRoute) :
    MeetsOk (fun _ _ => True) (fun _ => True) route.Answers (Router.handle mm principal route) := by
  cases route with
  | writeMemory req hop script =>
      refine MeetsOk.bind (extract_meets _) ?_
      intro user _
      refine sendAndAnswer_shape (Meets.bind (meets_true _) ?_)
      intro result _ answer hanswer
      exact answer_changed hanswer
  | readMemory req hop storage =>
      refine MeetsOk.bind (extract_meets _) ?_
      intro user _
      refine sendAndAnswer_shape (Meets.bind (meets_true _) ?_)
      intro result _ answer hanswer
      cases result with
      | ok content =>
          cases content with
          | some text =>
              cases hanswer
              exact ⟨text, rfl⟩
          | none => cases hanswer
      | error e => cases hanswer
  | deleteMemory req hop script =>
      refine MeetsOk.bind (extract_meets _) ?_
      intro user _
      refine sendAndAnswer_shape (Meets.bind (meets_true _) ?_)
      intro result _ answer hanswer
      exact answer_changed hanswer
  | searchMemory req hop script =>
      refine MeetsOk.bind (extract_meets _) ?_
      intro user _
      refine sendAndAnswer_shape (Meets.bind (meets_true _) ?_)
      intro result _ answer hanswer
      cases result with
      | ok found =>
          cases hanswer
          exact ⟨found, rfl⟩
      | error e => cases hanswer
  | getSummary req manager reply =>
      refine MeetsOk.bind (extract_meets _) ?_
      intro user _
      unfold Router.getSummary
      cases manager with
      | unsent => exact fun _ h => by cases h
      | dropped => exact fun _ h => by cases h
      | unanswered => exact fun _ h => by cases h
      | answered =>
          simp only
          split
          · rename_i latest _
            exact meetsOk_pure ⟨latest, rfl⟩
          · exact fun _ h => by cases h
          · exact fun _ h => by cases h
  | me => exact (meets_true _).mono (fun _ _ h => h) (fun _ h => h) fun _ _ _ _ => trivial
  | change action draw dbError =>
      exact (meets_true _).mono (fun _ _ h => h) (fun _ h => h) fun _ _ _ _ => trivial
  | listUsers s => exact (meets_true _).mono (fun _ _ h => h) (fun _ h => h) fun _ _ _ _ => trivial
  | listTokens username s =>
      exact (meets_true _).mono (fun _ _ h => h) (fun _ h => h) fun _ _ _ _ => trivial

/-- A post that is understood acts as its request, and the response is its answer. -/
theorem respond_oneShot (hlogged : ∀ s, seen s → ∃ adminToken, Logged sha256Hex adminToken s)
    {parse : String → Option Uuid} {p : Post} {s : PostScript} {route : ProtectedRoute}
    (hroute : p.route parse s = some (some route)) :
    OneShot (ServerState.answer sha256Hex) serverFiles FileAction.apply
      (GivenIn sha256Hex seen) ((p.request s (.v1 route)).Asks sha256Hex seen)
      (fun done response => ∃ reply, response = toResponse reply ∧
        (p.request s (.v1 route)).Fits done reply ∧
          ∀ answer, reply = .ok answer → route.Answers answer)
      (Router.respond parse mm p s) := by
  have hshape : MeetsOk (fun _ _ => True) (fun _ => True) route.Answers
      (Router.serve mm (p.request s (.v1 route))) :=
    MeetsOk.bind ((meets_true _).mono (fun _ _ h => h) (fun _ h => h) fun _ _ _ _ => trivial)
      fun principal _ => handle_shape principal route
  unfold Router.respond
  rw [hroute]
  refine ((serve_oneShot mm hlogged (p.request s (.v1 route))).and_meets hshape).bind ?_
  rintro done reply ⟨hfits, hanswers⟩
  exact ⟨reply, rfl, hfits, hanswers⟩

/-- A post that is not understood does nothing, and is not answered with success. -/
theorem respond_refused {parse : String → Option Uuid} {p : Post} {s : PostScript}
    (hroute : p.route parse s = some none) (own : FileAction → Prop) :
    OneShot (ServerState.answer sha256Hex) serverFiles FileAction.apply
      (GivenIn sha256Hex seen) own
      (fun done response => done = none ∧ 400 ≤ response.status ∧ response.status ≠ 404)
      (Router.respond parse mm p s) := by
  have hbefore : Passes sha256Hex seen (Router.beforeBody (p.request s .health)) := by
    refine Passes.bind (passes_authMiddleware sha256Hex seen _) ?_
    intro principal
    cases principal with
    | root => exact fun h => by cases h
    | user username role => exact passes_pure _
  unfold Router.respond
  rw [hroute]
  refine OneShot.of_meets (Meets.bind hbefore ?_)
  intro result hresult
  cases result with
  | error e =>
      refine ⟨rfl, intoResponse_status e, ?_⟩
      intro hstatus
      exact hresult (congrArg _ (intoResponse_status_eq_404.mp hstatus))
  | ok user =>
      refine ⟨rfl, ?_⟩
      change 400 ≤ ite _ _ _ ∧ ite _ _ _ ≠ 404
      split <;> decide

end

end Http
end MemoryHub
