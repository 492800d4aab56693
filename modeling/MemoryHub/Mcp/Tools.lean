import MemoryHub.Mcp.Client

/-!
# Tools and uploads

The tools of the MCP server and the uploads of the command line are programs over the HTTP
client.  An agent's session is a list of tool calls, one after the other; an upload goes
through its items whatever becomes of each.

Main results:

- Theorem `callTool_oneShot`, `doUpload_oneShot`: what an agent is told has been done.
- Theorem `session_acts`, `uploadLoop_acts`: the same for a whole session, and for the items of an
  upload that are not reported as failures.
-/

namespace MemoryHub
namespace Mcp

open Http Memory
open Pool (OneShot)

/-! ## The tools -/

/-- `UploadError`. -/
inductive UploadError where
  | notAbsolute
  | io (text : String)
  | client (source : ClientError)
deriving DecidableEq

/-- `Display` of the error. -/
def UploadError.display : UploadError → String
  | .notAbsolute => "path must be absolute"
  | .io text => "cannot read " ++ text
  | .client source => source.display

/-- `Path::is_absolute`. -/
def isAbsolute (path : String) : Bool :=
  path.toList.head? = some '/'

section

variable (fm : Formats) (mm : MemoryManager) (client : HttpClient) (x : Exchange) (agentId : Uuid)

/-- Renders search hits as readable lines. -/
def formatSearch (results : List (SearchResult Float32)) : String :=
  if results.isEmpty then "No matching memories."
  else "\n\n".intercalate (results.map fun r =>
    r.path ++ " (score " ++ fm.score r.score ++ "):\n" ++ r.snippet)

def doSearch (scope : Option String) (rawOnly : Bool) (query : String) : ClientM String := do
  let results ← client.search fm mm x agentId scope rawOnly query
  pure (formatSearch fm results)

def doWrite (project : Option String) (filename content : String) : ClientM String := do
  client.write fm mm x agentId project filename content
  pure ("Saved memory '" ++ filename ++ "'.")

/-- The content of the file at the path, or the error, is an argument. -/
def doUpload (project : Option String) (filename path : String) (file : Except String String) :
    ExceptT UploadError (Prog ServerCall ServerCall.Response) String :=
  if ¬ isAbsolute path then throw .notAbsolute
  else
    match file with
    | .error e => throw (.io (path ++ ": " ++ e))
    | .ok content => do
        ExceptT.mk (do
          let result ← (client.write fm mm x agentId project filename content).run
          pure (result.mapError .client))
        pure ("Saved memory '" ++ filename ++ "'.")

def doRead (project : Option String) (filename : String) : ClientM String := do
  match ← client.read fm mm x agentId project filename with
  | some content => pure content
  | none => pure ("No memory named '" ++ filename ++ "'.")

end

/-- The arguments of a tool; for an upload, with what reading the file gives. -/
inductive ToolArgs where
  | search (query : String) (scope : Option String) (rawOnly : Bool)
  | write (project : Option String) (filename content : String)
  | upload (project : Option String) (filename path : String) (file : Except String String)
  | read (project : Option String) (filename : String)

/-- A tool call: what the agent's id is resolved to, the arguments, and what becomes of the
post. -/
structure ToolUse where
  agentId : Except String Uuid
  args : ToolArgs
  exchange : Exchange

/-- The text of a tool's result, or of an internal error. -/
abbrev ToolResult : Type :=
  Except String String

section

variable (fm : Formats) (mm : MemoryManager) (client : HttpClient)

/-- `search_memory`, `write_memory`, `upload_memory` and `read_memory`. -/
def callTool (use : ToolUse) : RouteProg ToolResult :=
  match use.agentId with
  | .error e => pure (.error ("could not resolve agent id: " ++ e))
  | .ok agentId =>
      match use.args with
      | .search query scope rawOnly => do
          let result ← (doSearch fm mm client use.exchange agentId scope rawOnly query).run
          pure (result.mapError ClientError.display)
      | .write project filename content => do
          let result ← (doWrite fm mm client use.exchange agentId project filename content).run
          pure (result.mapError ClientError.display)
      | .upload project filename path file => do
          let result ←
            (doUpload fm mm client use.exchange agentId project filename path file).run
          pure (result.mapError UploadError.display)
      | .read project filename => do
          let result ← (doRead fm mm client use.exchange agentId project filename).run
          pure (result.mapError ClientError.display)

/-- Tool calls, one after the other. -/
def session : List ToolUse → RouteProg (List ToolResult)
  | [] => pure []
  | use :: uses => do
      let result ← callTool fm mm client use
      let results ← session uses
      pure (result :: results)

/-! ## The command line -/

/-- `UploadItem`, with what reading its file gives and what becomes of its post. -/
structure UploadItem where
  project : Option String
  filename : String
  path : String
  file : Except String String
  exchange : Exchange

/-- The loop of `upload_items`, with the failures so far. -/
def uploadLoop (agentId : Uuid) :
    List UploadItem → List (String × String) → RouteProg (List (String × String))
  | [], failures => pure failures
  | item :: items, failures => do
      let result ← (doUpload fm mm client item.exchange agentId item.project item.filename
        item.path item.file).run
      match result with
      | .ok _ => uploadLoop agentId items failures
      | .error e => uploadLoop agentId items (failures ++ [(item.filename, e.display)])

def uploadItems (agentId : Uuid) (items : List UploadItem) :
    RouteProg (List (String × String)) :=
  uploadLoop fm mm client agentId items []

/-- What `recall` prints. -/
def recallSummary (x : Exchange) (agentId : Uuid) (scope : String) : RouteProg String := do
  match ← (client.summary fm mm x (some agentId) scope).run with
  | .ok (some text) => pure text
  | .ok none => pure ""
  | .error _ => pure ""

end

/-! ## What an agent is told -/

section

variable (sha256Hex : String → String) (seen : ServerState → Prop) (client : HttpClient)

/-- What a tool asks for. -/
def ToolArgs.Asks (agentId : Uuid) : ToolArgs → FileAction → Prop
  | .search .., _ => False
  | .write project filename content, op =>
      WriteAsks sha256Hex seen client agentId project filename content op
  | .upload project filename _ file, op => ∃ content, file = .ok content ∧
      WriteAsks sha256Hex seen client agentId project filename content op
  | .read project filename, op => ReadAsks sha256Hex seen client agentId project filename op

/-- The text of a tool's result is true of what has been done. -/
def ToolArgs.Tells (x : Exchange) (done : Option (FileAction × Option String)) :
    ToolArgs → String → Prop
  | .search .., _ => True
  | .write project filename _, _ => SaveTrue x project filename done
  | .upload project filename _ _, _ => SaveTrue x project filename done
  | .read project filename, text => NamesFile project filename → ∃ op content?,
      done = some (op, content?) ∧ text = content?.getD ("No memory named '" ++ filename ++ "'.")

def ToolUse.Asks (use : ToolUse) (op : FileAction) : Prop :=
  ∃ agentId, use.agentId = .ok agentId ∧ use.args.Asks sha256Hex seen client agentId op

/-- An internal error tells nothing. -/
def ToolUse.Tells (use : ToolUse) (done : Option (FileAction × Option String))
    (result : ToolResult) : Prop :=
  ∀ agentId text, use.agentId = .ok agentId → result = .ok text →
    use.args.Tells use.exchange done text

def UploadItem.Asks (agentId : Uuid) (item : UploadItem) (op : FileAction) : Prop :=
  ∃ content, item.file = .ok content ∧
    WriteAsks sha256Hex seen client agentId item.project item.filename content op

/-- An upload that succeeds has been carried out. -/
def UploadItem.Tells (item : UploadItem)
    (done : Option (FileAction × Option String)) (result : Except UploadError String) : Prop :=
  ∀ text, result = .ok text → SaveTrue item.exchange item.project item.filename done

/-- The failures among the results of some items. -/
def failuresOf : List UploadItem → List (Except UploadError String) → List (String × String)
  | item :: items, .error e :: results => (item.filename, e.display) :: failuresOf items results
  | _ :: items, .ok _ :: results => failuresOf items results
  | _, _ => []

end

section

variable {sha256Hex : String → String} {seen : ServerState → Prop} {fm : Formats}
  {mm : MemoryManager} {client : HttpClient} {x : Exchange} {agentId : Uuid}
  {project : Option String} {filename : String}
  (hlogged : ∀ s, seen s → ∃ adminToken, Logged sha256Hex adminToken s)
  (hparse : ∀ u : Uuid, fm.parse u.hyphenated = some u)
include hlogged hparse

theorem doWrite_oneShot {content : String} :
    OneShot (ServerState.answer sha256Hex) serverFiles FileAction.apply (GivenIn sha256Hex seen)
      (WriteAsks sha256Hex seen client agentId project filename content)
      (fun done result => ∀ text, result = .ok text → SaveTrue x project filename done)
      (doWrite fm mm client x agentId project filename content).run := by
  refine OneShot.run_bind (write_oneShot hlogged hparse) ?_ ?_
  · rintro done _ ⟨hwritten, -⟩ text _
    exact hwritten rfl
  · intro done e _ text heq
    cases heq

theorem doUpload_oneShot {path : String} {file : Except String String} :
    OneShot (ServerState.answer sha256Hex) serverFiles FileAction.apply (GivenIn sha256Hex seen)
      (fun op => ∃ content, file = .ok content ∧
        WriteAsks sha256Hex seen client agentId project filename content op)
      (fun done result => ∀ text, result = .ok text → SaveTrue x project filename done)
      (doUpload fm mm client x agentId project filename path file).run := by
  unfold doUpload
  split
  · exact fun text h => by cases h
  · cases file with
    | error e => exact fun text h => by cases h
    | ok content =>
        have hwrite : OneShot (ServerState.answer sha256Hex) serverFiles FileAction.apply
            (GivenIn sha256Hex seen)
            (WriteAsks sha256Hex seen client agentId project filename content)
            (fun done result => ∀ a, result = .ok a → SaveTrue x project filename done)
            (client.write fm mm x agentId project filename content).run :=
          (write_oneShot hlogged hparse).mono (fun _ _ h => h) (fun _ h => h) fun _ _ h _ => h.1
        have hsaved : OneShot (ServerState.answer sha256Hex) serverFiles FileAction.apply
            (GivenIn sha256Hex seen) (WriteAsks sha256Hex seen client agentId project filename
              content)
            (fun done result => ∀ text, result = .ok text → SaveTrue x project filename done)
            (do
              ExceptT.mk (do
                let result ← (client.write fm mm x agentId project filename content).run
                pure (result.mapError .client))
              pure ("Saved memory '" ++ filename ++ "'.") :
                ExceptT UploadError (Prog ServerCall ServerCall.Response) String).run := by
          refine OneShot.run_bind (hwrite.mapError UploadError.client) ?_ ?_
          · intro done _ hwritten text _
            exact hwritten () rfl
          · intro done e _ text heq
            cases heq
        exact hsaved.mono (fun _ _ h => h) (fun op hop => ⟨content, rfl, hop⟩) fun _ _ h => h

theorem doRead_oneShot :
    OneShot (ServerState.answer sha256Hex) serverFiles FileAction.apply (GivenIn sha256Hex seen)
      (ReadAsks sha256Hex seen client agentId project filename)
      (fun done result => ∀ text, result = .ok text → NamesFile project filename →
        ∃ op content?, done = some (op, content?) ∧
          text = content?.getD ("No memory named '" ++ filename ++ "'."))
      (doRead fm mm client x agentId project filename).run := by
  refine OneShot.run_bind (read_oneShot hlogged hparse) ?_ ?_
  · intro done content? hread
    cases content? with
    | some content =>
        intro text heq hfile
        cases heq
        rcases hread _ rfl hfile with ⟨op, hdone⟩
        exact ⟨op, some content, hdone, rfl⟩
    | none =>
        intro text heq hfile
        cases heq
        rcases hread _ rfl hfile with ⟨op, hdone⟩
        exact ⟨op, none, hdone, rfl⟩
  · intro done e _ text heq
    cases heq

variable (mm client) in
/-- A tool call acts once, as it asks, and its result is true. -/
theorem callTool_oneShot (use : ToolUse) :
    OneShot (ServerState.answer sha256Hex) serverFiles FileAction.apply (GivenIn sha256Hex seen)
      (use.Asks sha256Hex seen client) use.Tells (callTool fm mm client use) := by
  rcases use with ⟨agentId, args, x⟩
  unfold callTool
  cases agentId with
  | error e => exact fun agentId text h => by cases h
  | ok agentId =>
      have hasks : ∀ op, args.Asks sha256Hex seen client agentId op →
          (ToolUse.mk (.ok agentId) args x).Asks sha256Hex seen client op :=
        fun op hop => ⟨agentId, rfl, hop⟩
      have htells : ∀ done (result : ToolResult), (∀ text, result = .ok text →
          args.Tells x done text) → (ToolUse.mk (.ok agentId) args x).Tells done result := by
        intro done result h agentId' text hid htext
        cases hid
        exact h text htext
      cases args with
      | search query scope rawOnly =>
          have hsearch : OneShot (ServerState.answer sha256Hex) serverFiles FileAction.apply
              (GivenIn sha256Hex seen) (fun _ => False)
              (fun _ result => ∀ text : String, result = .ok text → True)
              (doSearch fm mm client x agentId scope rawOnly query).run :=
            OneShot.run_bind (search_oneShot hlogged hparse scope rawOnly query)
              (fun _ _ _ _ _ => trivial) fun _ _ _ _ _ => trivial
          exact (hsearch.mapError ClientError.display).mono (fun _ _ h => h)
            (fun _ hop => hop.elim) htells
      | write project filename content =>
          exact ((doWrite_oneShot hlogged hparse).mapError ClientError.display).mono
            (fun _ _ h => h) hasks htells
      | upload project filename path file =>
          exact ((doUpload_oneShot hlogged hparse).mapError UploadError.display).mono
            (fun _ _ h => h) hasks htells
      | read project filename =>
          exact ((doRead_oneShot hlogged hparse).mapError ClientError.display).mono
            (fun _ _ h => h) hasks htells

variable (mm client) in
/-- The tool calls of a session act one after the other. -/
theorem session_acts (may : FileAction → Prop) (uses : List ToolUse)
    (hmay : ∀ use ∈ uses, ∀ op, use.Asks sha256Hex seen client op → may op)
    (done : List (FileAction × Option String)) :
    Pool.Acts (ServerState.answer sha256Hex) serverFiles FileAction.apply (GivenIn sha256Hex seen)
      (fun _ => may) (fun all results => ∃ later, all = done ++ later ∧
        Pool.InTurn (ToolUse.Asks sha256Hex seen client) ToolUse.Tells uses results later) done
      (session fm mm client uses) := by
  induction uses generalizing done with
  | nil => exact ⟨[], (List.append_nil done).symm, .nil⟩
  | cons use uses ih =>
      have hfirst := (callTool_oneShot mm client hlogged hparse use).acts_after
        (hmay use List.mem_cons_self) done
      refine hfirst.bind ?_
      rintro _ result ⟨d, rfl, howned, htells⟩
      refine (ih (fun use huse => hmay use (List.mem_cons_of_mem _ huse)) _).bind ?_
      rintro _ results ⟨later, rfl, hrest⟩
      exact ⟨d.toList ++ later, List.append_assoc .., .cons howned htells hrest⟩

variable (mm client) in
/-- So do the items of an upload, whatever becomes of each. -/
theorem uploadLoop_acts (may : FileAction → Prop) (items : List UploadItem)
    (hmay : ∀ item ∈ items, ∀ op, item.Asks sha256Hex seen client agentId op → may op)
    (failures : List (String × String)) (done : List (FileAction × Option String)) :
    Pool.Acts (ServerState.answer sha256Hex) serverFiles FileAction.apply (GivenIn sha256Hex seen)
      (fun _ => may) (fun all failures' => ∃ later results, all = done ++ later ∧
        Pool.InTurn (UploadItem.Asks sha256Hex seen client agentId) UploadItem.Tells items
          results later ∧ failures' = failures ++ failuresOf items results) done
      (uploadLoop fm mm client agentId items failures) := by
  induction items generalizing failures done with
  | nil =>
      exact ⟨[], [], (List.append_nil done).symm, .nil, (List.append_nil failures).symm⟩
  | cons item items ih =>
      have hitem : OneShot (ServerState.answer sha256Hex) serverFiles FileAction.apply
          (GivenIn sha256Hex seen) (item.Asks sha256Hex seen client agentId)
          item.Tells (doUpload fm mm client item.exchange agentId item.project
            item.filename item.path item.file).run := doUpload_oneShot hlogged hparse
      refine (hitem.acts_after (hmay item List.mem_cons_self) done).bind ?_
      rintro _ result ⟨d, rfl, howned, htells⟩
      have hrest : ∀ item ∈ items, ∀ op, item.Asks sha256Hex seen client agentId op → may op :=
        fun item hitem => hmay item (List.mem_cons_of_mem _ hitem)
      cases result with
      | ok text =>
          refine (ih hrest failures _).mono (fun _ _ h => h) ?_
          rintro _ failures' ⟨later, results, rfl, hlater, rfl⟩
          exact ⟨d.toList ++ later, .ok text :: results, List.append_assoc ..,
            .cons howned htells hlater, rfl⟩
      | error e =>
          refine (ih hrest _ _).mono (fun _ _ h => h) ?_
          rintro _ failures' ⟨later, results, rfl, hlater, rfl⟩
          refine ⟨d.toList ++ later, .error e :: results, List.append_assoc ..,
            .cons howned htells hlater, ?_⟩
          rw [failuresOf, List.append_assoc, List.singleton_append]

end

end Mcp
end MemoryHub
