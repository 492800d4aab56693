import MemoryHub.Http.Wire

/-!
# The HTTP client

A function of the client posts a JSON body and reads the response.  A post that is answered in
time is a part of the client's own program, from its arrival at the server to the response.  With
one that is not the client goes on at once, while the server may be at work on it all the same.

Main results:

- Theorem `ofJson_writeRequest`, `ofJson_readRequest`, `ofJson_searchRequest`: the server reads
  what the client means.
- Theorem `readResponse_toJson`, `searchResponse_toJson`: and the client what the server answers.
- Theorem `write_oneShot`, `read_oneShot`: what the client is told has been done.
-/

namespace MemoryHub
namespace Mcp

open Http Memory
open Pool (OneShot)
open Prog (Meets)

/-! ## Bodies -/

/-- `WriteRequest` of the client. -/
def writeRequest (agentId : Uuid) (project : Option String) (filename content : String) : Json :=
  .obj (("agent_id", .str agentId.hyphenated) :: (Json.field "project" (project.map .str) ++
    [("filename", .str filename), ("content", .str content)]))

/-- `ReadRequest` of the client. -/
def readRequest (agentId : Uuid) (project : Option String) (filename : String) : Json :=
  .obj (("agent_id", .str agentId.hyphenated) :: (Json.field "project" (project.map .str) ++
    [("filename", .str filename)]))

/-- `SearchRequest` of the client. -/
def searchRequest (agentId : Uuid) (scope : Option String) (rawOnly : Bool) (query : String) :
    Json :=
  .obj (("agent_id", .str agentId.hyphenated) :: (Json.field "scope" (scope.map .str) ++
    (Json.field "raw_only" (if rawOnly then some (.bool true) else none) ++
      [("query", .str query)])))

/-- `SummaryRequest` of the client. -/
def summaryRequest (agentId : Option Uuid) (scope : String) : Json :=
  .obj (Json.field "agent_id" (agentId.map fun id => .str id.hyphenated) ++
    [("scope", .str scope)])

/-- `ReadResponse`. -/
def readResponse (j : Json) : Option String :=
  Json.required Json.asStr (j.member ["content"] "content")

section

variable (f32 : ℚ → Float32)

/-- `SearchResult`. -/
def searchResult (j : Json) : Option (SearchResult Float32) := do
  let member name := j.member ["path", "start_line", "end_line", "score", "snippet"] name
  let path ← Json.required Json.asStr (member "path")
  let startLine ← Json.required Json.asUInt32 (member "start_line")
  let endLine ← Json.required Json.asUInt32 (member "end_line")
  let score ← Json.required (fun v => v.asNum.map f32) (member "score")
  let snippet ← Json.required Json.asStr (member "snippet")
  pure ⟨path, startLine, endLine, score, snippet⟩

/-- `SearchResponse`. -/
def searchResponse (j : Json) : Option (List (SearchResult Float32)) :=
  Json.required (Json.asList (searchResult f32)) (j.member ["results"] "results")

end

/-- `SummaryResponse`. -/
def summaryResponse (j : Json) : Option String :=
  Json.required Json.asStr (j.member ["content"] "content")

/-! ## Both ends agree -/

section

variable {parse : String → Option Uuid} (hparse : ∀ u : Uuid, parse u.hyphenated = some u)
include hparse

theorem ofJson_writeRequest (agentId : Uuid) (project : Option String) (filename content : String) :
    WriteRequest.ofJson parse (writeRequest agentId project filename content) =
      some ⟨agentId, project, filename, content⟩ := by
  cases project <;>
    simp [writeRequest, WriteRequest.ofJson, Json.field, Json.member, Json.entry, Json.ofNamed,
      Json.named, Json.required, Json.optional, Json.asStr, asUuid, hparse]

theorem ofJson_readRequest (agentId : Uuid) (project : Option String) (filename : String) :
    ReadRequest.ofJson parse (readRequest agentId project filename) =
      some ⟨agentId, project, filename⟩ := by
  cases project <;>
    simp [readRequest, ReadRequest.ofJson, Json.field, Json.member, Json.entry, Json.ofNamed,
      Json.named, Json.required, Json.optional, Json.asStr, asUuid, hparse]

/-- A scope that is left out is the whole store. -/
def scopeOf : Option String → Option SearchScope
  | none => some .all
  | some scope => asSearchScope (.str scope)

theorem ofJson_searchRequest (agentId : Uuid) (scope : Option String) (rawOnly : Bool)
    (query : String) :
    SearchRequest.ofJson parse (searchRequest agentId scope rawOnly query) =
      (scopeOf scope).map fun s => ⟨some agentId, query, s, rawOnly⟩ := by
  cases scope <;> cases rawOnly <;>
    simp [searchRequest, SearchRequest.ofJson, Json.field, Json.member, Json.entry, Json.ofNamed,
      Json.named, Json.required, Json.optional, Json.withDefault, Json.asStr, Json.asBool, asUuid,
      hparse, scopeOf, Option.map_eq_bind]

theorem ofJson_summaryRequest (agentId : Option Uuid) (scope : String) :
    SummaryRequest.ofJson parse (summaryRequest agentId scope) =
      (asSummaryScope (.str scope)).map fun s => ⟨agentId, s⟩ := by
  cases agentId <;>
    simp [summaryRequest, SummaryRequest.ofJson, Json.field, Json.member, Json.entry, Json.ofNamed,
      Json.named, Json.required, Json.optional, Json.asStr, asUuid, hparse, Option.map_eq_bind]

/-- The server takes a write for one. -/
theorem route_write (agentId : Uuid) (project : Option String) (filename content : String)
    (authorization : Option String) (s : PostScript) :
    (⟨"/v1/memories/write", authorization, writeRequest agentId project filename content⟩ :
      Post).route parse s =
      some (if s.overLimit then none else
        some (.writeMemory ⟨agentId, project, filename, content⟩ s.hop s.write)) := by
  unfold Post.route Post.read
  rw [if_pos rfl, ofJson_writeRequest hparse]
  cases s.overLimit <;> rfl

/-- And a read for a read. -/
theorem route_read (agentId : Uuid) (project : Option String) (filename : String)
    (authorization : Option String) (s : PostScript) :
    (⟨"/v1/memories/read", authorization, readRequest agentId project filename⟩ : Post).route
      parse s =
      some (if s.overLimit then none else
        some (.readMemory ⟨agentId, project, filename⟩ s.hop s.storage)) := by
  unfold Post.route Post.read
  rw [if_neg (by simp), if_pos rfl, ofJson_readRequest hparse]
  cases s.overLimit <;> rfl

/-- A search is one if its scope is. -/
theorem route_search (agentId : Uuid) (scope : Option String) (rawOnly : Bool) (query : String)
    (authorization : Option String) (s : PostScript) :
    (⟨"/v1/memories/search", authorization, searchRequest agentId scope rawOnly query⟩ : Post).route
      parse s =
      some (if s.overLimit then none else
        (scopeOf scope).map fun scope => .searchMemory ⟨some agentId, query, scope, rawOnly⟩ s.hop
          s.search) := by
  unfold Post.route Post.read
  rw [if_neg (by simp), if_neg (by simp), if_neg (by simp), if_pos rfl,
    ofJson_searchRequest hparse]
  cases s.overLimit <;> cases scopeOf scope <;> rfl

theorem route_summary (agentId : Option Uuid) (scope : String) (authorization : Option String)
    (s : PostScript) :
    (⟨"/v1/memories/summary", authorization, summaryRequest agentId scope⟩ : Post).route parse s =
      some (if s.overLimit then none else
        (asSummaryScope (.str scope)).map fun scope => .getSummary ⟨agentId, scope⟩ s.manager
          s.summary) := by
  unfold Post.route Post.read
  rw [if_neg (by simp), if_neg (by simp), if_neg (by simp), if_neg (by simp), if_pos rfl,
    ofJson_summaryRequest hparse]
  cases s.overLimit <;> cases asSummaryScope (.str scope) <;> rfl

end

theorem readResponse_toJson (text : String) :
    readResponse (ApiReply.content text).toJson = some text := by
  simp [readResponse, ApiReply.toJson, Json.member, Json.entry, Json.ofNamed, Json.named,
    Json.required, Json.asStr]

theorem summaryResponse_toJson (summary : Summary) :
    summaryResponse (ApiReply.summary summary).toJson = some summary.content := by
  rfl

section

variable {f32 : ℚ → Float32} {r : SearchResult Float32} {score : ℚ}

/-- A result with a finite score is read as it was written, if a number is read as the float it
stands for. -/
theorem searchResult_searchResultJson (hscore : float32Value r.score = some score)
    (hread : f32 score = r.score) : searchResult f32 (searchResultJson r) = some r := by
  have hwritten : float32Json r.score = .num score := by
    rw [float32Json, hscore]
    rfl
  have hmember : ∀ {names name v}, (name, v) ∈ [("path", Json.str r.path),
      ("start_line", .ofUInt32 r.startLine), ("end_line", .ofUInt32 r.endLine),
        ("score", float32Json r.score), ("snippet", .str r.snippet)] →
      (searchResultJson r).member names name = .found v :=
    fun h => Json.entry_of_mem (by simp) h
  have hpath : ∀ names, (searchResultJson r).member names "path" = .found (.str r.path) :=
    fun _ => hmember (by simp)
  have hstart : ∀ names,
      (searchResultJson r).member names "start_line" = .found (.ofUInt32 r.startLine) :=
    fun _ => hmember (by simp)
  have hend : ∀ names,
      (searchResultJson r).member names "end_line" = .found (.ofUInt32 r.endLine) :=
    fun _ => hmember (by simp)
  have hnum : ∀ names, (searchResultJson r).member names "score" = .found (.num score) :=
    fun _ => hwritten ▸ hmember (by simp)
  have hsnippet : ∀ names,
      (searchResultJson r).member names "snippet" = .found (.str r.snippet) :=
    fun _ => hmember (by simp)
  simp only [searchResult, hpath, hstart, hend, hnum, hsnippet, Json.required,
    Json.asUInt32_ofUInt32, Json.asStr, Json.asNum, Option.map_some, hread, Option.bind_eq_bind,
    Option.bind_some, Option.pure_def]

theorem searchResponse_toJson {results : List (SearchResult Float32)}
    (hscores : ∀ r ∈ results, ∃ score, float32Value r.score = some score ∧ f32 score = r.score) :
    searchResponse f32 (ApiReply.results results).toJson = some results := by
  have hread : Json.asList (searchResult f32) (.arr (results.map searchResultJson)) =
      some results := by
    refine Json.asList_map ?_
    intro r hr
    rcases hscores r hr with ⟨score, hscore, hread⟩
    exact searchResult_searchResultJson hscore hread
  exact hread

end

/-! ## The client -/

/-- `ClientError`. -/
inductive ClientError where
  | unauthorized
  | unreachable (baseUrl : String)
  | http (status : Nat) (body : String)
  | decode (text : String)
deriving DecidableEq

/-- `Display` of the error. -/
def ClientError.display : ClientError → String
  | .unauthorized => "authentication failed — check MEMORYHUB_TOKEN"
  | .unreachable baseUrl => "cannot reach MemoryHub at " ++ baseUrl
  | .http status body => "MemoryHub returned " ++ toString status ++ ": " ++ body
  | .decode text => "unexpected response from MemoryHub: " ++ text

/-- How texts and numbers are read and printed outside this repository. -/
structure Formats where
  parse : String → Option Uuid
  print : Json → String
  decodeError : Body → String
  f32 : ℚ → Float32
  score : Float32 → String

/-- `HttpClient`. -/
structure HttpClient where
  baseUrl : String
  token : String

/-- `HttpClient::new`. -/
def HttpClient.new (baseUrl token : String) : HttpClient where
  baseUrl := String.ofList (baseUrl.toList.rdropWhile fun c => c = '/')
  token := token

/-- What becomes of a post: an answer, or none, because the server's own time limit or the client's
is over.  What happens at the server is told of these too, unless the post never gets there. -/
inductive Exchange where
  | answered (s : PostScript)
  | overdue (atServer : PostScript)
  | unanswered (atServer : Option PostScript)

/-- What happens at the server to a post that is not answered. -/
def Exchange.late : Exchange → Option PostScript
  | .answered _ => none
  | .overdue atServer => some atServer
  | .unanswered atServer => atServer

/-- A part of a client's program that may fail. -/
abbrev ClientM (α : Type) : Type :=
  ExceptT ClientError (Prog ServerCall ServerCall.Response) α

namespace HttpClient

variable (fm : Formats) (mm : MemoryManager) (client : HttpClient) (x : Exchange)

/-- The response to a request, if there is one in time. -/
def send (p : Post) : RouteProg (Option HttpResponse) :=
  match x with
  | .answered s => do
      let resp ← Router.respond fm.parse mm p s
      pure (some resp)
  | .overdue _ => pure (some ⟨503, .text ""⟩)
  | .unanswered _ => pure none

def post (path : String) (body : Json) : ClientM HttpResponse := do
  match ← ExceptT.lift (send fm mm x ⟨path, some ("Bearer " ++ client.token), body⟩) with
  | none => throw (.unreachable client.baseUrl)
  | some resp => if resp.status = 401 then throw .unauthorized else pure resp

/-- The text of a body. -/
def text (body : Body) : String :=
  match body with
  | .json value => fm.print value
  | .text text => text

def ensureOk (resp : HttpResponse) : ClientM HttpResponse :=
  if resp.isSuccess then pure resp else throw (.http resp.status (text fm resp.body))

/-- `Response::json`. -/
def json {α : Type} (ofJson : Json → Option α) (resp : HttpResponse) : ClientM α :=
  match resp.body with
  | .json value =>
      match ofJson value with
      | some a => pure a
      | none => throw (.decode (fm.decodeError resp.body))
  | .text _ => throw (.decode (fm.decodeError resp.body))

def search (agentId : Uuid) (scope : Option String) (rawOnly : Bool) (query : String) :
    ClientM (List (SearchResult Float32)) := do
  let resp ← post fm mm client x "/v1/memories/search" (searchRequest agentId scope rawOnly query)
  let resp ← ensureOk fm resp
  json fm (searchResponse fm.f32) resp

def write (agentId : Uuid) (project : Option String) (filename content : String) :
    ClientM Unit := do
  let resp ← post fm mm client x "/v1/memories/write"
    (writeRequest agentId project filename content)
  let _ ← ensureOk fm resp
  pure ()

def read (agentId : Uuid) (project : Option String) (filename : String) :
    ClientM (Option String) := do
  let resp ← post fm mm client x "/v1/memories/read" (readRequest agentId project filename)
  if resp.status = 404 then pure none
  else
    let resp ← ensureOk fm resp
    let content ← json fm readResponse resp
    pure (some content)

def summary (agentId : Option Uuid) (scope : String) : ClientM (Option String) := do
  let resp ← post fm mm client x "/v1/memories/summary" (summaryRequest agentId scope)
  if resp.status = 404 then pure none
  else
    let resp ← ensureOk fm resp
    let content ← json fm summaryResponse resp
    pure (some content)

end HttpClient

/-! ## What the client is told -/

/-- The names are those of an ordinary file: both are segments of a path, and the file's is not
that of a temporary file. -/
def NamesFile (project : Option String) (filename : String) : Prop :=
  ∃ p, resolveProject project = .ok p ∧ UnixPath.IsSegment p ∧
    UnixPath.IsSegment (flattenFilename filename) ∧
      ¬ ".tmp".toList <:+ (flattenFilename filename).toList

/-- Whoever asks for it, it is a file of the map. -/
theorem NamesFile.exists_key {project : Option String} {filename : String}
    (h : NamesFile project filename) (agentId : Uuid) {username : String}
    (hvalid : validateUsername username = .ok ()) :
    ∃ k : PlainKey, getRawPath username agentId project filename = .ok k.path := by
  rcases h with ⟨p, hproject, hsegment, hfile, htmp⟩
  refine ⟨⟨⟨username, agentId, p, flattenFilename filename⟩,
    ⟨username_segment hvalid, hsegment, hfile⟩, htmp⟩, ?_⟩
  exact getRawPath_of_resolveProject username agentId filename hproject

/-- In one of some states, the client's token is the user's. -/
def HttpClient.CallerIn (sha256Hex : String → String) (seen : ServerState → Prop)
    (client : HttpClient) (username : String) : Prop :=
  ∃ s now secret role, seen s ∧ bearer (some ("Bearer " ++ client.token)) = some secret ∧
    s.auth.resolveToken sha256Hex secret now = some (.user username role)

/-- A client's error says that nothing has been done. -/
def ClientError.Refuses : ClientError → Prop
  | .unauthorized => True
  | .http status _ => status < 500 ∧ status ≠ 404
  | _ => False

/-- What a write that succeeds tells of its post, and of what has been done. -/
def SaveTrue (x : Exchange) (project : Option String) (filename : String)
    (done : Option (FileAction × Option String)) : Prop :=
  x.late = none ∧ (NamesFile project filename → done ≠ none)

/-- A refusal says so. -/
def RefusalTrue (done : Option (FileAction × Option String)) (resp : HttpResponse) : Prop :=
  resp.isSuccess = false → resp.status < 500 → resp.status ≠ 404 → done = none

section

variable {sha256Hex : String → String} {seen : ServerState → Prop} {fm : Formats}
  {mm : MemoryManager} {client : HttpClient} {x : Exchange} {own : FileAction → Prop}

/-- What is true of every response the server gives is true of what a post returns; one that fails
has had none, or has been refused. -/
theorem post_oneShot {path : String} {body : Json}
    {P : Option (FileAction × Option String) → HttpResponse → Prop}
    (hdue : P none ⟨503, .text ""⟩)
    (h : ∀ s, x = .answered s → OneShot (ServerState.answer sha256Hex) serverFiles FileAction.apply
      (GivenIn sha256Hex seen) own P
        (Router.respond fm.parse mm ⟨path, some ("Bearer " ++ client.token), body⟩ s))
    (hP : ∀ done resp, P done resp → RefusalTrue done resp) :
    OneShot (ServerState.answer sha256Hex) serverFiles FileAction.apply (GivenIn sha256Hex seen)
      own (fun done result => (∀ resp, result = .ok resp → P done resp) ∧
        ∀ e, result = .error e → e.Refuses → done = none)
      (client.post fm mm x path body).run := by
  have hsend : OneShot (ServerState.answer sha256Hex) serverFiles FileAction.apply
      (GivenIn sha256Hex seen) own (fun done resp? => ∀ resp, resp? = some resp → P done resp)
      (HttpClient.send fm mm x ⟨path, some ("Bearer " ++ client.token), body⟩) := by
    cases x with
    | answered s =>
        refine (h s rfl).bind ?_
        intro done resp hresp resp' heq
        cases heq
        exact hresp
    | overdue atServer =>
        intro resp hresp
        cases hresp
        exact hdue
    | unanswered atServer => exact fun _ h => by cases h
  have hlift : OneShot (ServerState.answer sha256Hex) serverFiles FileAction.apply
      (GivenIn sha256Hex seen) own (fun done result => ∃ resp?, result = .ok resp? ∧
        ∀ resp, resp? = some resp → P done resp)
      (ExceptT.lift (HttpClient.send fm mm x ⟨path, some ("Bearer " ++ client.token), body⟩) :
        ClientM (Option HttpResponse)).run :=
    hsend.bind fun _ resp? hresp => ⟨resp?, rfl, hresp⟩
  refine OneShot.run_bind hlift ?_ ?_
  · rintro done resp? ⟨resp?', heq, hresp⟩
    cases heq
    cases resp? with
    | none =>
        refine ⟨fun _ h => (by cases h), ?_⟩
        intro e he hrefuses
        cases he
        exact hrefuses.elim
    | some resp =>
        have htrue := hresp resp rfl
        by_cases hstatus : resp.status = 401
        · simp only [if_pos hstatus]
          refine ⟨fun _ h => (by cases h), ?_⟩
          intro _ _ _
          exact hP done resp htrue (by simp [HttpResponse.isSuccess, hstatus]) (by omega) (by omega)
        · simp only [if_neg hstatus]
          refine ⟨?_, fun _ h => by cases h⟩
          intro resp' heq
          cases heq
          exact htrue
  · rintro done e ⟨_, heq, -⟩
    cases heq

/-- What has come back with success is passed on; the rest is an error of the same status. -/
theorem ensureOk_cases (fm : Formats) (resp : HttpResponse) :
    (resp.isSuccess = true ∧ HttpClient.ensureOk fm resp = pure resp) ∨
      (resp.isSuccess = false ∧ ∃ body,
        HttpClient.ensureOk fm resp = throw (.http resp.status body)) := by
  unfold HttpClient.ensureOk
  cases hsuccess : resp.isSuccess with
  | true => exact Or.inl ⟨rfl, if_pos rfl⟩
  | false => exact Or.inr ⟨rfl, _, if_neg (by simp)⟩

theorem not_isSuccess {resp : HttpResponse} (h : 400 ≤ resp.status) : resp.isSuccess = false := by
  unfold HttpResponse.isSuccess
  simp only [decide_eq_false_iff_not]
  omega

/-- A successful response is that of a handler that has succeeded. -/
theorem isSuccess_toResponse {reply : Except RouteError ApiReply}
    (h : (toResponse reply).isSuccess = true) : ∃ answer, reply = .ok answer := by
  cases reply with
  | ok answer => exact ⟨answer, rfl⟩
  | error e =>
      have hfailed : (toResponse (.error e)).isSuccess = false :=
        not_isSuccess (intoResponse_status e)
      exact absurd h (by simp [hfailed])

/-- What is true of a request is true of the response to it. -/
theorem refusalTrue_toResponse {r : Request} {done : Option (FileAction × Option String)}
    {reply : Except RouteError ApiReply} (h : r.Fits done reply) :
    RefusalTrue done (toResponse reply) := by
  intro hfailed hserver hfound
  cases reply with
  | ok answer => exact absurd hfailed (by simp [toResponse, HttpResponse.isSuccess])
  | error e =>
      have hne : e ≠ .http .notFound := fun he => hfound (intoResponse_status_eq_404.mpr he)
      exact (Request.fits_error_iff hne).mp h hserver

variable {agentId : Uuid} {project : Option String} {filename content : String}

/-- What a write asks for. -/
def WriteAsks (sha256Hex : String → String) (seen : ServerState → Prop) (client : HttpClient)
    (agentId : Uuid) (project : Option String) (filename content : String) (op : FileAction) :
    Prop :=
  ∃ username k, client.CallerIn sha256Hex seen username ∧
    getRawPath username agentId project filename = .ok k.path ∧ op = .write k content

/-- What a read asks for. -/
def ReadAsks (sha256Hex : String → String) (seen : ServerState → Prop) (client : HttpClient)
    (agentId : Uuid) (project : Option String) (filename : String) (op : FileAction) : Prop :=
  ∃ username k, client.CallerIn sha256Hex seen username ∧
    getRawPath username agentId project filename = .ok k.path ∧ op = .read k

/-- A request of the client's asks for what its route asks for, for the client's user. -/
theorem asks_of_request {p : Post} {s : PostScript} {route : ProtectedRoute} {op : FileAction}
    (hauth : p.authorization = some ("Bearer " ++ client.token))
    (h : (p.request s (.v1 route)).Asks sha256Hex seen op) :
    ∃ username, client.CallerIn sha256Hex seen username ∧ route.Asks username op := by
  rcases h with ⟨route', state, username, hroute, hstate, ⟨secret, role, hbearer, hresolve⟩, hop⟩
  cases hroute
  refine ⟨username, ⟨state, _, secret, role, hstate, ?_, hresolve⟩, hop⟩
  rw [← hauth]
  exact hbearer

/-- The route of a body that is read unless it is over the limit. -/
theorem eq_of_unless {route route' : ProtectedRoute} {overLimit : Bool}
    (h : (if overLimit then none else some route) = some route') : route' = route := by
  cases overLimit with
  | true => cases h
  | false => exact (Option.some.inj h).symm

variable (hlogged : ∀ s, seen s → ∃ adminToken, Logged sha256Hex adminToken s)
include hlogged

/-- A post to a memory route acts as the route asks for the client's user, and the response is the
handler's answer, or a refusal. -/
theorem respond_memory {p : Post} {s : PostScript} {route? : Option ProtectedRoute}
    {P : Option (FileAction × Option String) → HttpResponse → Prop}
    (hauth : p.authorization = some ("Bearer " ++ client.token))
    (hroute : p.route fm.parse s = some route?)
    (hown : ∀ route, route? = some route → ∀ username op,
      client.CallerIn sha256Hex seen username → route.Asks username op → own op)
    (hanswer : ∀ route, route? = some route → ∀ done reply,
      (p.request s (.v1 route)).Fits done reply →
        (∀ answer, reply = .ok answer → route.Answers answer) → P done (toResponse reply))
    (hrefused : ∀ resp : HttpResponse, 400 ≤ resp.status → resp.status ≠ 404 → P none resp) :
    OneShot (ServerState.answer sha256Hex) serverFiles FileAction.apply (GivenIn sha256Hex seen)
      own P (Router.respond fm.parse mm p s) := by
  cases route? with
  | none =>
      refine (respond_refused hroute own).mono (fun _ _ h => h) (fun _ h => h) ?_
      rintro done resp ⟨rfl, hstatus, hfound⟩
      exact hrefused resp hstatus hfound
  | some route =>
      refine (respond_oneShot hlogged hroute).mono (fun _ _ h => h) ?_ ?_
      · intro op hop
        rcases asks_of_request hauth hop with ⟨username, hcaller, hasks⟩
        exact hown route rfl username op hcaller hasks
      · rintro done resp ⟨reply, rfl, hfits, hshape⟩
        exact hanswer route rfl done reply hfits hshape

variable (hparse : ∀ u : Uuid, fm.parse u.hyphenated = some u)
include hparse

/-- A write that succeeds has been answered and has written the file, and one that is refused has
not. -/
theorem write_oneShot :
    OneShot (ServerState.answer sha256Hex) serverFiles FileAction.apply (GivenIn sha256Hex seen)
      (WriteAsks sha256Hex seen client agentId project filename content)
      (fun done result => (result = .ok () → SaveTrue x project filename done) ∧
        ∀ e, result = .error e → e.Refuses → done = none)
      (client.write fm mm x agentId project filename content).run := by
  have hrespond : ∀ s, x = .answered s → OneShot (ServerState.answer sha256Hex) serverFiles
      FileAction.apply (GivenIn sha256Hex seen)
      (WriteAsks sha256Hex seen client agentId project filename content)
      (fun done resp => (resp.isSuccess = true → SaveTrue x project filename done) ∧
        RefusalTrue done resp)
      (Router.respond fm.parse mm ⟨"/v1/memories/write", some ("Bearer " ++ client.token),
        writeRequest agentId project filename content⟩ s) := by
    rintro s rfl
    refine respond_memory hlogged rfl (route_write hparse ..) ?_ ?_ ?_
    · rintro route hr username op hcaller ⟨message, hmessage, hasks⟩
      cases eq_of_unless hr
      cases hmessage
      cases hasks with
      | write hpath => exact ⟨username, _, hcaller, hpath, rfl⟩
    · intro route hr done reply hfits hshape
      cases eq_of_unless hr
      refine ⟨?_, refusalTrue_toResponse hfits⟩
      refine fun hsuccess => ⟨rfl, fun hfile => ?_⟩
      rcases isSuccess_toResponse hsuccess with ⟨answer, rfl⟩
      rw [hshape answer rfl] at hfits
      refine hfits ⟨_, rfl, ?_⟩
      intro username hvalid
      rcases hfile.exists_key agentId hvalid with ⟨k, hpath⟩
      exact ⟨_, _, rfl, .write hpath⟩
    · intro resp hstatus _
      exact ⟨fun hsuccess => absurd hsuccess (by simp [not_isSuccess hstatus]), fun _ _ _ => rfl⟩
  refine OneShot.run_bind (post_oneShot ⟨by simp [HttpResponse.isSuccess], fun _ _ _ => rfl⟩
    hrespond fun _ _ h => h.2) ?_ ?_
  · rintro done resp ⟨hok, -⟩
    rcases hok resp rfl with ⟨hwritten, hrefusal⟩
    rcases ensureOk_cases fm resp with ⟨hsuccess, hrun⟩ | ⟨hfailed, body, hrun⟩
    · rw [hrun]
      exact ⟨fun _ => hwritten hsuccess, fun _ h => by cases h⟩
    · rw [hrun]
      refine ⟨fun h => (by cases h), ?_⟩
      intro e he hrefuses
      cases he
      exact hrefusal hfailed hrefuses.1 hrefuses.2
  · rintro done e ⟨-, herror⟩
    exact ⟨fun h => (by cases h), fun e' he => herror e' (by cases he; rfl)⟩

/-- A read that succeeds returns what the file holds, or that there is none. -/
theorem read_oneShot :
    OneShot (ServerState.answer sha256Hex) serverFiles FileAction.apply (GivenIn sha256Hex seen)
      (ReadAsks sha256Hex seen client agentId project filename)
      (fun done result => ∀ content?, result = .ok content? →
        NamesFile project filename → ∃ op, done = some (op, content?))
      (client.read fm mm x agentId project filename).run := by
  have hrespond : ∀ s, x = .answered s → OneShot (ServerState.answer sha256Hex) serverFiles
      FileAction.apply (GivenIn sha256Hex seen)
      (ReadAsks sha256Hex seen client agentId project filename)
      (fun done resp => (resp.isSuccess = true → ∃ text,
          resp.body = .json (ApiReply.content text).toJson ∧
            (NamesFile project filename → ∃ op, done = some (op, some text))) ∧
        (resp.status = 404 → NamesFile project filename → ∃ op, done = some (op, none)) ∧
          RefusalTrue done resp)
      (Router.respond fm.parse mm ⟨"/v1/memories/read", some ("Bearer " ++ client.token),
        readRequest agentId project filename⟩ s) := by
    intro s _
    have habout : ∀ r : Request, r.route = .v1 (.readMemory ⟨agentId, project, filename⟩ s.hop
        s.storage) → NamesFile project filename → r.AboutFile := by
      intro r hr hfile
      refine ⟨_, hr, ?_⟩
      intro username hvalid
      rcases hfile.exists_key agentId hvalid with ⟨k, hpath⟩
      exact ⟨_, _, rfl, .read hpath⟩
    refine respond_memory hlogged rfl (route_read hparse ..) ?_ ?_ ?_
    · rintro route hr username op hcaller ⟨message, hmessage, hasks⟩
      cases eq_of_unless hr
      cases hmessage
      cases hasks with
      | read hpath => exact ⟨username, _, hcaller, hpath, rfl⟩
    · intro route hr done reply hfits hshape
      cases eq_of_unless hr
      refine ⟨?_, ?_, refusalTrue_toResponse hfits⟩
      · intro hsuccess
        rcases isSuccess_toResponse hsuccess with ⟨answer, rfl⟩
        rcases hshape answer rfl with ⟨text, rfl⟩
        exact ⟨text, rfl, fun hfile => hfits (habout _ rfl hfile)⟩
      · intro hstatus hfile
        cases reply with
        | ok answer => exact absurd hstatus (by simp [toResponse])
        | error e =>
            cases intoResponse_status_eq_404.mp hstatus
            exact hfits (habout _ rfl hfile)
    · intro resp hstatus hfound
      refine ⟨fun hsuccess => absurd hsuccess (by simp [not_isSuccess hstatus]), ?_,
        fun _ _ _ => rfl⟩
      exact fun h => absurd h hfound
  refine OneShot.run_bind (post_oneShot ?_ hrespond fun _ _ h => h.2.2) ?_ ?_
  · exact ⟨by simp [HttpResponse.isSuccess], by simp, fun _ _ _ => rfl⟩
  · rintro done resp ⟨hok, -⟩
    rcases hok resp rfl with ⟨hread, hmissing, -⟩
    by_cases hstatus : resp.status = 404
    · simp only [if_pos hstatus]
      intro content? heq hfile
      cases heq
      exact hmissing hstatus hfile
    · simp only [if_neg hstatus]
      rcases ensureOk_cases fm resp with ⟨hsuccess, hrun⟩ | ⟨hfailed, body, hrun⟩
      · rcases hread hsuccess with ⟨text, hbody, hdone⟩
        have hjson : HttpClient.json fm readResponse resp = pure text := by
          unfold HttpClient.json
          rw [hbody]
          simp only [readResponse_toJson]
        rw [hrun]
        change Pool.Quiet _ _ _ (do
          let content ← HttpClient.json fm readResponse resp
          pure (some content) : ClientM (Option String)).run
        rw [hjson]
        intro content? heq hfile
        cases heq
        exact hdone hfile
      · rw [hrun]
        intro content? heq
        cases heq
  · rintro done e ⟨-, herror⟩ content? heq
    cases heq

omit hparse in
/-- A post to a route that asks for nothing does nothing to the files. -/
theorem post_nothing {path : String} {body : Json} (hroute : ∀ s, ∃ route?,
    (⟨path, some ("Bearer " ++ client.token), body⟩ : Post).route fm.parse s = some route? ∧
      ∀ route, route? = some route → ∀ username op, ¬ route.Asks username op) :
    OneShot (ServerState.answer sha256Hex) serverFiles FileAction.apply (GivenIn sha256Hex seen)
      (fun _ => False) (fun _ _ => True) (client.post fm mm x path body).run := by
  have hrespond : ∀ s, x = .answered s → OneShot (ServerState.answer sha256Hex) serverFiles
      FileAction.apply (GivenIn sha256Hex seen) (fun _ => False) RefusalTrue
      (Router.respond fm.parse mm ⟨path, some ("Bearer " ++ client.token), body⟩ s) := by
    intro s _
    rcases hroute s with ⟨route?, hsome, hnone⟩
    refine respond_memory hlogged rfl hsome ?_ ?_ ?_
    · intro route hr username op _ hasks
      exact hnone route hr username op hasks
    · intro route _ done reply hfits _
      exact refusalTrue_toResponse hfits
    · intro resp _ _
      exact fun _ _ _ => rfl
  exact (post_oneShot (fun _ _ _ => rfl) hrespond fun _ _ h => h).mono (fun _ _ h => h)
    (fun _ h => h) fun _ _ _ => trivial

omit hlogged hparse in
theorem ensureOk_quiet (resp : HttpResponse) :
    Pool.Quiet (ServerState.answer sha256Hex) serverFiles (fun _ => True)
      (HttpClient.ensureOk fm resp).run := by
  unfold HttpClient.ensureOk
  split <;> exact trivial

omit hlogged hparse in
theorem json_quiet {α : Type} (ofJson : Json → Option α) (resp : HttpResponse) :
    Pool.Quiet (ServerState.answer sha256Hex) serverFiles (fun _ => True)
      (HttpClient.json fm ofJson resp).run := by
  unfold HttpClient.json
  split
  · split <;> exact trivial
  · exact trivial

/-- A search does nothing to the files. -/
theorem search_oneShot (scope : Option String) (rawOnly : Bool) (query : String) :
    OneShot (ServerState.answer sha256Hex) serverFiles FileAction.apply (GivenIn sha256Hex seen)
      (fun _ => False) (fun _ _ => True)
      (client.search fm mm x agentId scope rawOnly query).run := by
  refine OneShot.run_bind (post_nothing hlogged ?_) (fun _ resp _ => Meets.run_bind
    (ensureOk_quiet resp) (fun resp _ => json_quiet _ resp) fun _ _ => trivial) fun _ _ _ => trivial
  intro s
  refine ⟨_, route_search hparse .., ?_⟩
  rintro route hr username op ⟨message, hmessage, hasks⟩
  split at hr
  · cases hr
  · rcases Option.map_eq_some_iff.mp hr with ⟨scope, -, rfl⟩
    cases hmessage
    cases hasks

/-- Nor does asking for a summary. -/
theorem summary_oneShot (agentId : Option Uuid) (scope : String) :
    OneShot (ServerState.answer sha256Hex) serverFiles FileAction.apply (GivenIn sha256Hex seen)
      (fun _ => False) (fun _ _ => True) (client.summary fm mm x agentId scope).run := by
  refine OneShot.run_bind (post_nothing hlogged ?_) ?_ fun _ _ _ => trivial
  · intro s
    refine ⟨_, route_summary hparse .., ?_⟩
    rintro route hr username op ⟨message, hmessage, hasks⟩
    split at hr
    · cases hr
    · rcases Option.map_eq_some_iff.mp hr with ⟨scope, -, rfl⟩
      cases hmessage
  · intro _ resp _
    by_cases hstatus : resp.status = 404
    · simp only [if_pos hstatus]
      exact trivial
    · simp only [if_neg hstatus]
      exact Meets.run_bind (ensureOk_quiet resp) (fun resp _ => Meets.run_bind
        (json_quiet _ resp) (fun _ _ => trivial) fun _ _ => trivial) fun _ _ => trivial

end

end Mcp
end MemoryHub
