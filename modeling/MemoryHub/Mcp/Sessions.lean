import MemoryHub.Mcp.Tools

/-!
# Agents side by side

Agents' sessions, uploads and requests of any other kind run side by side on one server.  A post
of a client's that was not answered in time may still be carried out: the server goes on with it
on a thread of its own, whose turns come when they come, or never.

Main results:

- Theorem `party_acts`: every party acts as it asks, and what it is told is true.
- Theorem `thread_asks`: what the server goes on with asks for nothing but what its party does.
- Theorem `upload_stored`: an item of an upload that is not reported as a failure is stored, if
  nobody changes the file afterwards.
- Theorem `tools_read_back`: an agent reads back what it has saved, if nobody changes the file in
  between.
-/

namespace MemoryHub
namespace Mcp

open Http Memory Machine
open Pool (Linearized Object)

/-! ## The parties -/

/-- A client of the server. -/
inductive Party where
  | tools (client : HttpClient) (uses : List ToolUse)
  | upload (client : HttpClient) (agentId : Uuid) (items : List UploadItem)
  | summary (client : HttpClient) (x : Exchange) (agentId : Uuid) (scope : String)
  | request (r : Request)

/-- What a party is told. -/
inductive Outcome where
  | results (results : List ToolResult)
  | failures (failures : List (String × String))
  | text (text : String)
  | reply (reply : Except RouteError ApiReply)
deriving DecidableEq

section

variable (fm : Formats) (mm : MemoryManager)

def Party.prog : Party → RouteProg Outcome
  | .tools client uses => do
      let results ← session fm mm client uses
      pure (.results results)
  | .upload client agentId items => do
      let failures ← uploadItems fm mm client agentId items
      pure (.failures failures)
  | .summary client x agentId scope => do
      let text ← recallSummary fm mm client x agentId scope
      pure (.text text)
  | .request r => do
      let reply ← (Router.serve mm r).run
      pure (.reply reply)

end

/-- What the server goes on with for a party: each post that it has not answered in time, as a party
with nothing else to do. -/
def Party.late : Party → List Party
  | .tools client uses => uses.filterMap fun use => use.exchange.late.map fun s =>
      .tools client [{ use with exchange := .answered s }]
  | .upload client agentId items => items.filterMap fun item => item.exchange.late.map fun s =>
      .upload client agentId [{ item with exchange := .answered s }]
  | .summary client x agentId scope =>
      (x.late.map fun s => .summary client (.answered s) agentId scope).toList
  | .request _ => []

/-- The threads of some parties: of each its own, and those with which the server goes on. -/
abbrev Thread {ι : Type} (parties : ι → Party) : Type :=
  Σ i, Option (Fin (parties i).late.length)

def Thread.party {ι : Type} {parties : ι → Party} : Thread parties → Party
  | ⟨i, none⟩ => parties i
  | ⟨i, some n⟩ => (parties i).late.get n

/-- Threads none of which has made a call yet. -/
def start (fm : Formats) (mm : MemoryManager) {ι : Type} (s : ServerState)
    (parties : ι → Party) :
    Pool (Thread parties) ServerCall ServerCall.Response Outcome ServerState where
  env := s
  prog t := t.party.prog fm mm

section

variable (sha256Hex : String → String) (seen : ServerState → Prop)

/-- What a party asks for. -/
def Party.Asks : Party → FileAction → Prop
  | .tools client uses, op => ∃ use ∈ uses, use.Asks sha256Hex seen client op
  | .upload client agentId items, op => ∃ item ∈ items, item.Asks sha256Hex seen client agentId op
  | .summary .., _ => False
  | .request r, op => r.Asks sha256Hex seen op

/-- A request asks for one thing. -/
def Party.May : Party → List (FileAction × Option String) → FileAction → Prop
  | .request r, done, op => Pool.Once (r.Asks sha256Hex seen) done op
  | party, _, op => party.Asks sha256Hex seen op

/-- What a party is told is true of what it has done. -/
def Party.Told : Party → List (FileAction × Option String) → Outcome → Prop
  | .tools client uses, done, .results results =>
      Pool.InTurn (ToolUse.Asks sha256Hex seen client) ToolUse.Tells uses results done
  | .upload client agentId items, done, .failures failures => ∃ results,
      Pool.InTurn (UploadItem.Asks sha256Hex seen client agentId) UploadItem.Tells items
        results done ∧ failures = failuresOf items results
  | .summary .., _, .text _ => True
  | .request r, done, .reply reply => r.Fits done.head? reply
  | _, _, _ => False

end

section

variable {sha256Hex : String → String} {seen : ServerState → Prop} {fm : Formats}
  {mm : MemoryManager}

theorem Party.May.asks {party : Party} {done : List (FileAction × Option String)} {op : FileAction}
    (h : party.May sha256Hex seen done op) : party.Asks sha256Hex seen op := by
  cases party with
  | tools client uses => exact h
  | upload client agentId items => exact h
  | summary client x agentId scope => exact h
  | request r => exact h.2

/-- A party acts as it asks, and what it is told is true. -/
theorem party_acts (hlogged : ∀ s, seen s → ∃ adminToken, Logged sha256Hex adminToken s)
    (hparse : ∀ u : Uuid, fm.parse u.hyphenated = some u) (party : Party) :
    Pool.Acts (ServerState.answer sha256Hex) serverFiles FileAction.apply (GivenIn sha256Hex seen)
      (party.May sha256Hex seen) (party.Told sha256Hex seen) [] (party.prog fm mm) := by
  cases party with
  | tools client uses =>
      have hasks : ∀ use ∈ uses, ∀ op, use.Asks sha256Hex seen client op →
          (Party.tools client uses).Asks sha256Hex seen op :=
        fun use huse op hop => ⟨use, huse, hop⟩
      refine (session_acts mm client hlogged hparse _ uses hasks []).bind ?_
      rintro _ results ⟨later, rfl, hturn⟩
      exact hturn
  | upload client agentId items =>
      have hasks : ∀ item ∈ items, ∀ op, item.Asks sha256Hex seen client agentId op →
          (Party.upload client agentId items).Asks sha256Hex seen op :=
        fun item hitem op hop => ⟨item, hitem, hop⟩
      refine (uploadLoop_acts mm client hlogged hparse _ items hasks [] []).bind ?_
      rintro _ failures ⟨later, results, rfl, hturn, hfailures⟩
      exact ⟨results, hturn, hfailures⟩
  | summary client x agentId scope =>
      have hacts : Pool.Acts (ServerState.answer sha256Hex) serverFiles FileAction.apply
          (GivenIn sha256Hex seen) ((Party.summary client x agentId scope).May sha256Hex seen)
          (fun _ _ => True) [] (client.summary fm mm x (some agentId) scope).run :=
        (summary_oneShot hlogged hparse (some agentId) scope).acts (fun _ hop => hop)
          (fun _ _ => trivial) fun _ _ _ _ => trivial
      have hsummary : Pool.Acts (ServerState.answer sha256Hex) serverFiles FileAction.apply
          (GivenIn sha256Hex seen) ((Party.summary client x agentId scope).May sha256Hex seen)
          (fun _ _ => True) [] (recallSummary fm mm client x agentId scope) := by
        refine hacts.bind ?_
        intro done result _
        rcases result with e | _ | text <;> exact trivial
      refine hsummary.bind ?_
      intro done text _
      exact trivial
  | request r =>
      have hacts : Pool.Acts (ServerState.answer sha256Hex) serverFiles FileAction.apply
          (GivenIn sha256Hex seen) (Pool.Once (r.Asks sha256Hex seen))
          (fun done reply => r.Fits done.head? reply) [] (Router.serve mm r).run :=
        (serve_oneShot mm hlogged r).acts (fun op hop => ⟨rfl, hop⟩) (fun _ h => h)
          fun _ _ _ h => h
      refine hacts.bind ?_
      intro done reply hfits
      exact hfits

end

/-! ## What the server goes on with -/

section

variable {sha256Hex : String → String} {seen : ServerState → Prop}

/-- What the server goes on with for an agent is one of its tool calls without an answer. -/
theorem late_tools {client : HttpClient} {uses : List ToolUse} {party : Party}
    (hparty : party ∈ (Party.tools client uses).late) {op : FileAction}
    (h : party.Asks sha256Hex seen op) :
    ∃ use ∈ uses, use.exchange.late ≠ none ∧ use.Asks sha256Hex seen client op := by
  rcases List.mem_filterMap.mp hparty with ⟨use, huse, hlate⟩
  rcases Option.map_eq_some_iff.mp hlate with ⟨s, hs, rfl⟩
  rcases h with ⟨use', huse', hasks⟩
  cases List.mem_singleton.mp huse'
  exact ⟨use, huse, by simp [hs], hasks⟩

/-- And for an upload one of its items. -/
theorem late_upload {client : HttpClient} {agentId : Uuid} {items : List UploadItem}
    {party : Party} (hparty : party ∈ (Party.upload client agentId items).late) {op : FileAction}
    (h : party.Asks sha256Hex seen op) :
    ∃ item ∈ items, item.exchange.late ≠ none ∧ item.Asks sha256Hex seen client agentId op := by
  rcases List.mem_filterMap.mp hparty with ⟨item, hitem, hlate⟩
  rcases Option.map_eq_some_iff.mp hlate with ⟨s, hs, rfl⟩
  rcases h with ⟨item', hitem', hasks⟩
  cases List.mem_singleton.mp hitem'
  exact ⟨item, hitem, by simp [hs], hasks⟩

/-- What the server goes on with asks for nothing else. -/
theorem thread_asks {ι : Type} {parties : ι → Party} (t : Thread parties) {op : FileAction}
    (h : t.party.Asks sha256Hex seen op) : (parties t.1).Asks sha256Hex seen op := by
  rcases t with ⟨i, _ | n⟩
  · exact h
  · have hlate : (parties i).late.get n ∈ (parties i).late := List.get_mem ..
    change ((parties i).late.get n).Asks sha256Hex seen op at h
    generalize (parties i).late.get n = party at h hlate
    cases hi : parties i with
    | tools client uses =>
        rw [hi] at hlate
        rcases late_tools hlate h with ⟨use, huse, -, hasks⟩
        exact ⟨use, huse, hasks⟩
    | upload client agentId items =>
        rw [hi] at hlate
        rcases late_upload hlate h with ⟨item, hitem, -, hasks⟩
        exact ⟨item, hitem, hasks⟩
    | summary client x agentId scope =>
        rw [hi] at hlate
        rcases Option.map_eq_some_iff.mp (Option.mem_toList.mp hlate) with ⟨s, -, rfl⟩
        exact h
    | request r =>
        rw [hi] at hlate
        cases hlate

end

/-! ## Stored and read back -/

/-- The file that an operation changes. -/
def changed : FileAction → Option PlainKey
  | .write k _ => some k
  | .read _ => none
  | .delete k => some k

/-- The operation changes the file of these names. -/
def ChangesFile (username : String) (agentId : Uuid) (project : Option String) (filename : String)
    (op : FileAction) : Prop :=
  ∃ k, changed op = some k ∧ getRawPath username agentId project filename = .ok k.path

/-- What changes another file, or none, leaves a file as it is. -/
theorem apply_of_not_changed {k : PlainKey} {op : FileAction} (h : changed op ≠ some k)
    (files : Files) : (FileAction.apply op files).2 k = files k := by
  cases op with
  | write k' content =>
      exact Function.update_of_ne (fun heq => h (by rw [heq]; rfl)) _ _
  | read k' => rfl
  | delete k' => exact Function.update_of_ne (fun heq => h (by rw [heq]; rfl)) _ _

/-- A file that has been written holds what was written as long as nobody changes it. -/
theorem holds_after_write {ι : Type} {k : PlainKey} {content : String} {files : Files}
    {turns : List (ι × Option FileAction)}
    (h : ∀ i op, (i, some op) ∈ turns → changed op ≠ some k) :
    Object.after FileAction.apply (FileAction.apply (.write k content) files).2 turns k =
      some content := by
  refine Object.after_keeps (P := fun files : Files => files k = some content) ?_
    (Function.update_self ..)
  intro i op hmem files hfiles
  rw [apply_of_not_changed (h i op hmem)]
  exact hfiles

section

variable {sha256Hex : String → String} {adminToken : Option String} {fm : Formats}
  {mm : MemoryManager} {s₀ : ServerState} {ι : Type} [DecidableEq ι] {parties : ι → Party}
  {turns : List (Thread parties)}
  {p : Pool (Thread parties) ServerCall ServerCall.Response Outcome ServerState}

/-- The server's state at a turn of a party, on one of its threads. -/
abbrev PartyTurn (sha256Hex : String → String) (fm : Formats) (mm : MemoryManager)
    (s₀ : ServerState) (parties : ι → Party) (turns : List (Thread parties)) (i : ι)
    (s : ServerState) : Prop :=
  ∃ n, Pool.AtTurn (ServerState.answer sha256Hex) (start fm mm s₀ parties) turns ⟨i, n⟩ s

/-- The threads of parties side by side are linearizable. -/
theorem parties_linearized (hs₀ : Logged sha256Hex adminToken s₀)
    (hparse : ∀ u : Uuid, fm.parse u.hyphenated = some u)
    (hrun : run (Pool.step (ServerState.answer sha256Hex)) (start fm mm s₀ parties) turns =
      some p) :
    ∃ acts, Linearized (ServerState.answer sha256Hex) serverFiles FileAction.apply
      (fun t => t.party.May sha256Hex (PartyTurn sha256Hex fm mm s₀ parties turns t.1))
      (fun t => t.party.Told sha256Hex (PartyTurn sha256Hex fm mm s₀ parties turns t.1))
      (start fm mm s₀ parties) turns p acts := by
  refine Pool.run_linearized trivial ?_ hrun
  intro t
  refine (party_acts ?_ hparse t.party).mono ?_ fun _ _ h => h
  swap
  · rintro c r ⟨s, hs, hr⟩
    exact ⟨s, ⟨t.2, hs⟩, hr⟩
  rintro s ⟨n, before, rest, q, -, hq, rfl⟩
  have hkeeps : ∀ c s, Logged sha256Hex adminToken s →
      Logged sha256Hex adminToken (ServerState.answer sha256Hex c s).2 :=
    fun c s hs => hs.answer c
  exact ⟨adminToken, Pool.run_keeps hkeeps hs₀ hq⟩

/-- A file is changed in a part of a run only by what its party does there, by what the server goes
on with for the party, or by what others ask for. -/
theorem not_changed_of_others {acts : List (Thread parties × Option FileAction)}
    {fits : Thread parties → List (FileAction × Option String) → Outcome → Prop}
    (hacts : Linearized (ServerState.answer sha256Hex) serverFiles FileAction.apply
      (fun t => t.party.May sha256Hex (PartyTurn sha256Hex fm mm s₀ parties turns t.1))
      fits (start fm mm s₀ parties) turns p acts)
    {part : List (Thread parties × Option FileAction)} (hpart : ∀ turn ∈ part, turn ∈ acts) {i : ι}
    {a : Files} {own : List (FileAction × Option String)}
    (htrail : Object.trail FileAction.apply ⟨i, none⟩ a part = own) {k : PlainKey}
    (hown : ∀ e ∈ own, changed e.1 ≠ some k)
    (hlate : ∀ party ∈ (parties i).late, ∀ op, party.Asks sha256Hex
      (PartyTurn sha256Hex fm mm s₀ parties turns i) op → changed op ≠ some k)
    (hothers : ∀ j ≠ i, ∀ op, (parties j).Asks sha256Hex
      (PartyTurn sha256Hex fm mm s₀ parties turns j) op → changed op ≠ some k) :
    ∀ t op, (t, some op) ∈ part → changed op ≠ some k := by
  intro t op hmem
  rcases hacts.may_of_mem (hpart _ hmem) with ⟨done, hmay⟩
  by_cases hj : t.1 = i
  · subst hj
    rcases t with ⟨i, _ | n⟩
    · rcases Object.mem_trail hmem a with ⟨value, hvalue⟩
      exact hown _ (htrail ▸ hvalue)
    · exact hlate _ (List.get_mem ..) op hmay.asks
  · exact hothers t.1 hj op (thread_asks t hmay.asks)

/-- An item that is not among the failures has succeeded. -/
theorem isOk_of_not_failed {items : List UploadItem} {results : List (Except UploadError String)}
    {before later : List UploadItem} {item : UploadItem}
    {resultsBefore resultsLater : List (Except UploadError String)}
    {result : Except UploadError String} (hlen : resultsBefore.length = before.length)
    (hitems : items = before ++ item :: later)
    (hresults : results = resultsBefore ++ result :: resultsLater)
    (h : item.filename ∉ (failuresOf items results).map Prod.fst) : ∃ text, result = .ok text := by
  subst hitems hresults
  induction before generalizing resultsBefore with
  | nil =>
      rw [List.length_nil, List.length_eq_zero_iff] at hlen
      subst hlen
      cases result with
      | ok text => exact ⟨text, rfl⟩
      | error e => exact absurd List.mem_cons_self h
  | cons first before ih =>
      cases resultsBefore with
      | nil => cases hlen
      | cons r resultsBefore =>
          refine ih (Nat.succ.inj hlen) ?_
          intro hmem
          refine h ?_
          cases r with
          | ok text => exact hmem
          | error e => exact List.mem_cons_of_mem _ hmem

/-- In every interleaving with other parties, an item of an upload that is not reported as a failure
has been stored for the client's user, and is there at the end if no later item, no earlier item
whose post was not answered, and no other party asks for a change of the file. -/
theorem upload_stored (hs₀ : Logged sha256Hex adminToken s₀)
    (hparse : ∀ u : Uuid, fm.parse u.hyphenated = some u)
    (hrun : run (Pool.step (ServerState.answer sha256Hex)) (start fm mm s₀ parties) turns = some p)
    {i : ι} {client : HttpClient} {agentId : Uuid} {before later : List UploadItem}
    {item : UploadItem} (hparty : parties i = .upload client agentId (before ++ item :: later))
    {failures : List (String × String)} (hresult : p.result ⟨i, none⟩ = some (.failures failures))
    (hsaved : item.filename ∉ failures.map Prod.fst)
    (hfile : NamesFile item.project item.filename)
    (hlater : ∀ username, client.CallerIn sha256Hex
      (PartyTurn sha256Hex fm mm s₀ parties turns i) username → ∀ other ∈ later, ∀ op,
        other.Asks sha256Hex (PartyTurn sha256Hex fm mm s₀ parties turns i) client agentId op →
          ¬ ChangesFile username agentId item.project item.filename op)
    (hearlier : ∀ username, client.CallerIn sha256Hex
      (PartyTurn sha256Hex fm mm s₀ parties turns i) username → ∀ other ∈ before,
        other.exchange.late ≠ none → ∀ op,
          other.Asks sha256Hex (PartyTurn sha256Hex fm mm s₀ parties turns i) client agentId op →
            ¬ ChangesFile username agentId item.project item.filename op)
    (hothers : ∀ username, client.CallerIn sha256Hex
      (PartyTurn sha256Hex fm mm s₀ parties turns i) username → ∀ j ≠ i, ∀ op,
        (parties j).Asks sha256Hex (PartyTurn sha256Hex fm mm s₀ parties turns j) op →
          ¬ ChangesFile username agentId item.project item.filename op) :
    ∃ username k content,
      client.CallerIn sha256Hex (PartyTurn sha256Hex fm mm s₀ parties turns i) username ∧
        getRawPath username agentId item.project item.filename = .ok k.path ∧
          item.file = .ok content ∧ filesOf p.env.world.fs k = some content := by
  rcases parties_linearized hs₀ hparse hrun with ⟨acts, hacts⟩
  have htold := hacts.fits ⟨i, none⟩ _ hresult
  simp only [Thread.party, hparty] at htold
  rcases htold with ⟨results, hturn, rfl⟩
  rcases hturn.split with ⟨resultsBefore, result, resultsLater, doneBefore, d, doneLater, hresults,
    hdone, hbefore, howned, htells, hafter⟩
  rcases isOk_of_not_failed hbefore.length_eq rfl hresults hsaved with ⟨text, rfl⟩
  rcases htells text rfl with ⟨hanswered, hstored⟩
  rcases Option.ne_none_iff_exists'.mp (hstored hfile) with ⟨e, rfl⟩
  rcases howned e rfl with ⟨content, hcontent, username, k, hcaller, hpath, hwrite⟩
  refine ⟨username, k, content, hcaller, hpath, hcontent, ?_⟩
  change Object.trail _ _ _ _ = doneBefore ++ e :: doneLater at hdone
  rcases Object.exists_turn_of_trail hdone with ⟨pre, post, hacts', -, -, hpost⟩
  have hchanges : ∀ op, ¬ ChangesFile username agentId item.project item.filename op →
      changed op ≠ some k := fun op hop hk => hop ⟨k, hk, hpath⟩
  have hkept : ∀ t op, (t, some op) ∈ post → changed op ≠ some k := by
    refine not_changed_of_others hacts (fun turn hmem => ?_) hpost ?_ ?_ ?_
    · rw [hacts']
      exact List.mem_append_right _ (List.mem_cons_of_mem _ hmem)
    · intro e' he'
      rcases hafter.owned e' he' with ⟨other, hother, hasks⟩
      exact hchanges _ (hlater username hcaller other hother _ hasks)
    · -- The item itself has been answered, so the server goes on with another one.
      intro party hmem op hasks
      rw [hparty] at hmem
      rcases late_upload hmem hasks with ⟨other, hother, hlate, hasks⟩
      rcases List.mem_append.mp hother with hbefore | hother
      · exact hchanges _ (hearlier username hcaller other hbefore hlate _ hasks)
      · rcases List.mem_cons.mp hother with rfl | hlater'
        · exact absurd hanswered hlate
        · exact hchanges _ (hlater username hcaller other hlater' _ hasks)
    · intro j hj op hasks
      exact hchanges _ (hothers username hcaller j hj op hasks)
  have hend : filesOf p.env.world.fs = Object.after FileAction.apply
      (filesOf s₀.world.fs) acts := hacts.object_end hrun
  rw [hend, hacts', Object.after_append, Object.after, hwrite]
  exact holds_after_write hkept

/-- UUIDs in their hyphenated form, and no texts of others. -/
def Formats.sample : Formats where
  parse := Uuid.ofHyphenated
  print := fun _ => ""
  decodeError := fun _ => ""
  f32 := fun _ => 0
  score := fun _ => ""

/-- A post that is answered, and nothing fails. -/
def PostScript.sample : PostScript where
  check := ⟨3, none⟩
  resolve := ⟨3, none⟩
  hop := .answered
  write := .sample
  storage := .answered
  delete := .answered
  search := .sample
  manager := .answered
  summary := fun _ => .ok none
  overLimit := false
  rejection := ""

/-- Alice's client. -/
def sampleClient : HttpClient :=
  .new "http://x:8000/" "mh_first"

/-- A note on the agent's disk. -/
def sampleItem : UploadItem :=
  ⟨none, "a.md", "/home/a.md", .ok "x", .answered PostScript.sample⟩

/-- Another one, whose post the server does not answer in time. -/
def lateItem : UploadItem :=
  ⟨none, "b.md", "/home/b.md", .ok "y", .unanswered (some PostScript.sample)⟩

/-- Alice's agent uploads the notes, and she reads the first. -/
def sampleUpload : Bool → Party
  | true => .upload sampleClient .nil [lateItem, sampleItem]
  | false => .request { sampleRequest with
      route := .v1 (.readMemory ⟨.nil, none, "a.md"⟩ .answered .answered) }

/-- The server goes on with the late note during the upload, and after it. -/
def uploadTurns : List (Thread sampleUpload) :=
  [⟨false, none⟩, ⟨true, none⟩, ⟨true, some ⟨0, by decide⟩⟩, ⟨true, none⟩, ⟨false, none⟩,
    ⟨true, some ⟨0, by decide⟩⟩, ⟨true, none⟩, ⟨true, none⟩, ⟨true, some ⟨0, by decide⟩⟩,
    ⟨true, some ⟨0, by decide⟩⟩, ⟨false, none⟩]

/-- The notes are two files. -/
theorem samplePath_ne {username username' path : String}
    (h : getRawPath username .nil none "a.md" = .ok path) :
    getRawPath username' .nil none "b.md" ≠ .ok path := by
  intro h'
  have hpaths : rawPath username .nil "_default" "a.md" =
      rawPath username' .nil "_default" "b.md" := Except.ok.inj (h.trans h'.symm)
  have hends := congrArg (fun s : String => s.toList.reverse.take 4) hpaths
  simp [rawPath] at hends

/-- A request to read changes nothing. -/
theorem changed_of_read {r : Request} {req : ReadRequest} {hop : Hop} {storage : Delivery}
    (hr : r.route = .v1 (.readMemory req hop storage)) {seen : ServerState → Prop}
    {op : FileAction} (h : r.Asks sha256Hex seen op) : changed op = none := by
  rcases h with ⟨route, s, username, hroute, -, -, message, hmessage, hasks⟩
  rw [hr, Route.v1.injEq] at hroute
  subst hroute
  cases hmessage
  cases hasks with
  | read hpath => rfl

theorem upload_stored_sample :
    ∃ p, run (Pool.step (ServerState.answer sha256HexSample))
        (start Formats.sample ⟨400, 80, none⟩ sampleState sampleUpload) uploadTurns = some p ∧
      ∃ username k content,
        sampleClient.CallerIn sha256HexSample (PartyTurn sha256HexSample Formats.sample
          ⟨400, 80, none⟩ sampleState sampleUpload uploadTurns true) username ∧
          getRawPath username .nil none "a.md" = .ok k.path ∧
            (Except.ok "x" : Except String String) = .ok content ∧
              filesOf p.env.world.fs k = some content := by
  have hend : (run (Pool.step (ServerState.answer sha256HexSample))
      (start Formats.sample ⟨400, 80, none⟩ sampleState sampleUpload) uploadTurns).map
        (fun p => p.result ⟨true, none⟩) =
      some (some (.failures [("b.md", "cannot reach MemoryHub at http://x:8000")])) := by
    decide +kernel
  rcases Option.map_eq_some_iff.mp hend with ⟨p, hp, hresult⟩
  have hlogged : Logged sha256HexSample (some "mh_root") sampleState := rfl
  have hfile : NamesFile none "a.md" := ⟨"_default", by decide, by decide, by decide, by decide⟩
  have hparty : sampleUpload true =
    .upload sampleClient .nil ([lateItem] ++ sampleItem :: []) := rfl
  refine ⟨p, hp, upload_stored hlogged Uuid.ofHyphenated_hyphenated hp hparty hresult (by decide)
    hfile ?_ ?_ ?_⟩
  · intro _ _ other hother
    cases hother
  · rintro username - other hother - op ⟨content, -, username', k', -, hpath', rfl⟩ ⟨k, hk, hpath⟩
    cases List.mem_singleton.mp hother
    cases hk
    exact samplePath_ne hpath hpath'
  · rintro username - j hj op hasks ⟨k, hk, -⟩
    cases j with
    | true => exact hj rfl
    | false =>
        rw [changed_of_read rfl hasks] at hk
        cases hk

/-- The tool saves the content under these names. -/
def ToolArgs.Saves (project : Option String) (filename content : String) : ToolArgs → Prop
  | .write project' filename' content' =>
      project' = project ∧ filename' = filename ∧ content' = content
  | .upload project' filename' _ file =>
      project' = project ∧ filename' = filename ∧ file = .ok content
  | _ => False

/-- A tool that saves and says so has been answered, and has written the file. -/
theorem write_of_saves {seen : ServerState → Prop} {client : HttpClient} {use : ToolUse}
    {agentId : Uuid} (hid : use.agentId = .ok agentId) {project : Option String}
    {filename content text : String} (hsaves : use.args.Saves project filename content)
    (hfile : NamesFile project filename) {d : Option (FileAction × Option String)}
    (howned : ∀ e, d = some e → use.Asks sha256Hex seen client e.1)
    (htells : use.Tells d (.ok text)) :
    use.exchange.late = none ∧
      ∃ e, d = some e ∧ WriteAsks sha256Hex seen client agentId project filename content e.1 := by
  rcases use with ⟨agentId', args, x⟩
  cases hid
  have htext := htells agentId text rfl rfl
  cases args with
  | search query scope rawOnly => exact hsaves.elim
  | write project' filename' content' =>
      rcases hsaves with ⟨rfl, rfl, rfl⟩
      refine ⟨htext.1, ?_⟩
      rcases Option.ne_none_iff_exists'.mp (htext.2 hfile) with ⟨e, rfl⟩
      rcases howned e rfl with ⟨agentId', hid, hasks⟩
      cases hid
      exact ⟨e, rfl, hasks⟩
  | upload project' filename' path file =>
      rcases hsaves with ⟨rfl, rfl, rfl⟩
      refine ⟨htext.1, ?_⟩
      rcases Option.ne_none_iff_exists'.mp (htext.2 hfile) with ⟨e, rfl⟩
      rcases howned e rfl with ⟨agentId', hid, content', hcontent, hasks⟩
      cases hid
      cases hcontent
      exact ⟨e, rfl, hasks⟩
  | read project' filename' => exact hsaves.elim

/-- A tool that reads and returns a text has read the file. -/
theorem read_of_reads {seen : ServerState → Prop} {client : HttpClient} {use : ToolUse}
    {agentId : Uuid} (hid : use.agentId = .ok agentId) {project : Option String}
    {filename text : String} (hreads : use.args = .read project filename)
    (hfile : NamesFile project filename) {d : Option (FileAction × Option String)}
    (howned : ∀ e, d = some e → use.Asks sha256Hex seen client e.1)
    (htells : use.Tells d (.ok text)) :
    ∃ op content?, d = some (op, content?) ∧
      ReadAsks sha256Hex seen client agentId project filename op ∧
        text = content?.getD ("No memory named '" ++ filename ++ "'.") := by
  have htext := htells agentId text hid rfl
  rw [hreads] at htext
  rcases htext hfile with ⟨op, content?, rfl, rfl⟩
  rcases howned _ rfl with ⟨agentId', hid', hasks⟩
  rw [hid, Except.ok.injEq] at hid'
  rw [hreads, ← hid'] at hasks
  exact ⟨op, content?, rfl, hasks, rfl⟩

/-- A tool that reads asks for no change. -/
theorem changed_of_reads {seen : ServerState → Prop} {client : HttpClient} {use : ToolUse}
    {project : Option String} {filename : String} (hreads : use.args = .read project filename)
    {op : FileAction} (hasks : use.Asks sha256Hex seen client op) : changed op = none := by
  rcases hasks with ⟨agentId, -, hasks⟩
  rw [hreads] at hasks
  rcases hasks with ⟨_, _, -, -, rfl⟩
  rfl

/-- The result of one call among those of a session. -/
theorem eq_of_getElem? {results before after : List ToolResult} {b result : ToolResult} {n : Nat}
    (hsplit : results = before ++ b :: after) (hlen : before.length = n)
    (h : results[n]? = some result) : b = result := by
  subst hsplit hlen
  rw [List.getElem?_append_right (Nat.le_refl _), Nat.sub_self, List.getElem?_cons_zero] at h
  exact Option.some.inj h

/-- The result of another call, later in the session. -/
theorem eq_of_getElem?_later {results before between after : List ToolResult}
    {b b' result : ToolResult} {n m : Nat}
    (hsplit : results = before ++ b :: (between ++ b' :: after)) (hbefore : before.length = n)
    (hbetween : between.length = m) (h : results[n + (m + 1)]? = some result) : b' = result := by
  have hlater : results = (before ++ b :: between) ++ b' :: after := by
    rw [hsplit, List.append_assoc, List.cons_append]
  refine eq_of_getElem? hlater ?_ h
  rw [List.length_append, List.length_cons, hbefore, hbetween]

/-- In every interleaving with other parties, an agent that has saved a memory and reads it later in
the session reads what it saved, if no tool call in between, no tool call whose post was not
answered, and no other party asks for a change of the file, and the client's token is one user's
throughout. -/
theorem tools_read_back (hs₀ : Logged sha256Hex adminToken s₀)
    (hparse : ∀ u : Uuid, fm.parse u.hyphenated = some u)
    (hrun : run (Pool.step (ServerState.answer sha256Hex)) (start fm mm s₀ parties) turns = some p)
    {i : ι} {client : HttpClient} {before between later : List ToolUse} {saving reading : ToolUse}
    (hparty : parties i = .tools client (before ++ saving :: (between ++ reading :: later)))
    {results : List ToolResult} (hresult : p.result ⟨i, none⟩ = some (.results results))
    {agentId : Uuid}
    {project : Option String} {filename content saved text : String}
    (hsaving : saving.agentId = .ok agentId)
    (hsaves : saving.args.Saves project filename content)
    (hreading : reading.agentId = .ok agentId) (hreads : reading.args = .read project filename)
    (hsaved : results[before.length]? = some (.ok saved))
    (htext : results[before.length + (between.length + 1)]? = some (.ok text))
    (hfile : NamesFile project filename)
    (hone : ∀ username username',
      client.CallerIn sha256Hex (PartyTurn sha256Hex fm mm s₀ parties turns i) username →
      client.CallerIn sha256Hex (PartyTurn sha256Hex fm mm s₀ parties turns i) username' →
        username = username')
    (hbetween : ∀ username, client.CallerIn sha256Hex
      (PartyTurn sha256Hex fm mm s₀ parties turns i) username → ∀ use ∈ between, ∀ op,
        use.Asks sha256Hex (PartyTurn sha256Hex fm mm s₀ parties turns i) client op →
          ¬ ChangesFile username agentId project filename op)
    (hlate : ∀ username, client.CallerIn sha256Hex
      (PartyTurn sha256Hex fm mm s₀ parties turns i) username → ∀ use ∈ before ++ later,
        use.exchange.late ≠ none → ∀ op,
          use.Asks sha256Hex (PartyTurn sha256Hex fm mm s₀ parties turns i) client op →
            ¬ ChangesFile username agentId project filename op)
    (hothers : ∀ username, client.CallerIn sha256Hex
      (PartyTurn sha256Hex fm mm s₀ parties turns i) username → ∀ j ≠ i, ∀ op,
        (parties j).Asks sha256Hex (PartyTurn sha256Hex fm mm s₀ parties turns j) op →
          ¬ ChangesFile username agentId project filename op) :
    text = content := by
  rcases parties_linearized hs₀ hparse hrun with ⟨acts, hacts⟩
  have htold := hacts.fits ⟨i, none⟩ _ hresult
  simp only [Thread.party, hparty] at htold
  rcases Pool.InTurn.split htold with ⟨resultsBefore, b, resultsAfter, doneBefore, d, doneAfter,
    hresults, hdone, hbefore, howned, htells, hafter⟩
  rcases hafter.split with ⟨resultsBetween, b', resultsLater, doneBetween, d', doneLater,
    hresults', hdone', hturn, howned', htells', -⟩
  cases eq_of_getElem? hresults hbefore.length_eq hsaved
  rw [hresults'] at hresults
  cases eq_of_getElem?_later hresults hbefore.length_eq hturn.length_eq htext
  rcases write_of_saves hsaving hsaves hfile howned htells with
    ⟨hanswered, e, rfl, username, k, hcaller, hpath, hwrite⟩
  rcases read_of_reads hreading hreads hfile howned' htells' with
    ⟨_, content?, rfl, ⟨username', k', hcaller', hpath', rfl⟩, rfl⟩
  cases hone username username' hcaller hcaller'
  have hk : k' = k := PlainKey.path_inj.mp (Except.ok.inj (hpath'.symm.trans hpath))
  subst hk hdone'
  change Object.trail _ _ _ _ = doneBefore ++ e :: _ at hdone
  rcases Object.exists_turn_of_trail hdone with ⟨pre, post, hacts', -, -, hpost⟩
  rcases Object.exists_turn_of_trail hpost with ⟨mid, rest, hpost', hmid, hvalue, -⟩
  have hchanges : ∀ op, ¬ ChangesFile username agentId project filename op →
      changed op ≠ some k' := fun op hop hk => hop ⟨k', hk, hpath⟩
  have hkept : ∀ t op, (t, some op) ∈ mid → changed op ≠ some k' := by
    refine not_changed_of_others hacts (fun turn hmem => ?_) hmid ?_ ?_ ?_
    · rw [hacts', hpost']
      exact List.mem_append_right _ (List.mem_cons_of_mem _ (List.mem_append_left _ hmem))
    · intro e' he'
      rcases hturn.owned e' he' with ⟨use, huse, hasks⟩
      exact hchanges _ (hbetween username hcaller use huse _ hasks)
    · -- The save has been answered, and the read changes nothing.
      intro party hmem op hasks
      rw [hparty] at hmem
      rcases late_tools hmem hasks with ⟨use, huse, hlate', hasks⟩
      simp only [List.mem_append, List.mem_cons] at huse
      rcases huse with huse | rfl | huse | rfl | huse
      · exact hchanges _ (hlate username hcaller use (List.mem_append_left _ huse) hlate' _ hasks)
      · exact absurd hanswered hlate'
      · exact hchanges _ (hbetween username hcaller use huse _ hasks)
      · rw [changed_of_reads hreads hasks]
        exact (Option.some_ne_none k').symm
      · exact hchanges _ (hlate username hcaller use (List.mem_append_right _ huse) hlate' _ hasks)
    · intro j hj op hasks
      exact hchanges _ (hothers username hcaller j hj op hasks)
  have hfound : content? = some content := by
    refine hvalue.trans ?_
    rw [hwrite]
    exact holds_after_write hkept
  rw [hfound, Option.getD_some]

/-- The agent saves a note. -/
def sampleSave : ToolUse :=
  ⟨.ok .nil, .write none "a.md" "x", .answered PostScript.sample⟩

/-- Another one, whose post the server does not answer in time. -/
def lateSave : ToolUse :=
  ⟨.ok .nil, .write none "b.md" "y", .unanswered (some PostScript.sample)⟩

/-- And reads the first. -/
def sampleRead : ToolUse :=
  ⟨.ok .nil, .read none "a.md", .answered PostScript.sample⟩

/-- Alice's agent saves the notes and reads the first, while she reads it too. -/
def sampleSession : Bool → Party
  | true => .tools sampleClient [lateSave, sampleSave, sampleRead]
  | false => sampleUpload false

/-- The server goes on with the late note between the save and the read. -/
def sessionTurns : List (Thread sampleSession) :=
  [⟨false, none⟩, ⟨true, none⟩, ⟨true, some ⟨0, by decide⟩⟩, ⟨true, none⟩, ⟨false, none⟩,
    ⟨true, some ⟨0, by decide⟩⟩, ⟨true, none⟩, ⟨true, none⟩, ⟨true, some ⟨0, by decide⟩⟩,
    ⟨true, some ⟨0, by decide⟩⟩, ⟨false, none⟩, ⟨true, none⟩, ⟨true, none⟩, ⟨true, none⟩]

theorem tools_read_back_sample :
    ∃ p saved text, run (Pool.step (ServerState.answer sha256HexSample))
        (start Formats.sample ⟨400, 80, none⟩ sampleState sampleSession) sessionTurns = some p ∧
      p.result ⟨true, none⟩ = some (.results
        [.error "cannot reach MemoryHub at http://x:8000", .ok saved, .ok text]) ∧ text = "x" := by
  have hend : (run (Pool.step (ServerState.answer sha256HexSample))
      (start Formats.sample ⟨400, 80, none⟩ sampleState sampleSession) sessionTurns).map
        (fun p => p.result ⟨true, none⟩) =
      some (some (.results [.error "cannot reach MemoryHub at http://x:8000",
        .ok "Saved memory 'a.md'.", .ok "x"])) := by
    decide +kernel
  rcases Option.map_eq_some_iff.mp hend with ⟨p, hp, hresult⟩
  have hlogged : Logged sha256HexSample (some "mh_root") sampleState := rfl
  have hfile : NamesFile none "a.md" := ⟨"_default", by decide, by decide, by decide, by decide⟩
  -- Alice is the only user there is.
  have husers : ∀ n < 14, (run (Pool.step (ServerState.answer sha256HexSample))
      (start Formats.sample ⟨400, 80, none⟩ sampleState sampleSession) (sessionTurns.take n)).map
        (fun q => q.env.auth.db.users.map UserInfo.username) = some ["alice"] := by
    decide +kernel
  have halice : ∀ username, sampleClient.CallerIn sha256HexSample
      (PartyTurn sha256HexSample Formats.sample ⟨400, 80, none⟩ sampleState sampleSession
        sessionTurns true) username → username = "alice" := by
    rintro username ⟨s, now, secret, role, ⟨n, before, rest, q, hturns, hq, rfl⟩, -, hresolve⟩
    have hlen : before.length < 14 := by
      have htotal := congrArg List.length hturns
      simp only [sessionTurns, List.length_cons, List.length_nil, List.length_append] at htotal
      omega
    have hone := husers before.length hlen
    rw [hturns, List.take_left, hq, Option.map_some, Option.some.injEq] at hone
    rcases (AuthStore.resolveToken_eq_some_iff sha256HexSample).mp hresolve with
      ⟨t, -, u, hu, -, hname, -, heq⟩
    cases heq
    have hmem := List.mem_map_of_mem (f := UserInfo.username) hu
    rw [hone, List.mem_singleton] at hmem
    rw [← hname, hmem]
  have hparty : sampleSession true =
      .tools sampleClient ([lateSave] ++ sampleSave :: ([] ++ sampleRead :: [])) := rfl
  have hsaves : sampleSave.args.Saves none "a.md" "x" := ⟨rfl, rfl, rfl⟩
  refine ⟨p, _, "x", hp, hresult, tools_read_back hlogged Uuid.ofHyphenated_hyphenated hp hparty
    hresult rfl hsaves rfl rfl rfl rfl hfile ?_ ?_ ?_ ?_⟩
  · intro username username' h h'
    rw [halice username h, halice username' h']
  · intro _ _ use huse
    cases huse
  · rintro username - use huse - op ⟨agentId, hid, hasks⟩ ⟨k, hk, hpath⟩
    cases List.mem_singleton.mp huse
    cases hid
    rcases hasks with ⟨username', k', -, hpath', rfl⟩
    cases hk
    exact samplePath_ne hpath hpath'
  · rintro username - j hj op hasks ⟨k, hk, -⟩
    cases j with
    | true => exact hj rfl
    | false =>
        rw [changed_of_read rfl hasks] at hk
        cases hk

end

end Mcp
end MemoryHub
