import MemoryHub.Lib.Interpret
import MemoryHub.Lib.Json
import MemoryHub.Lib.Utf8
import MemoryHub.Llm.OpenAi
import MemoryHub.Llm.SynthesisTask

/-!
# Calls to a provider's API

A provider posts a JSON body to its endpoint and reads the response.  A response that is not a
success is an error with an excerpt of its body, which may pass if the status says so.

Main results:

- Theorem `readChatRequest_chatRequest`, `readEmbedRequest_embedRequest`: what an endpoint reads.
- Theorem `readBodyCapped_eq`: of the body of an error, its first bytes are read, however it
  arrives.
- Theorem `mapStatus_excerpt`: the excerpt is the longest prefix of at most 512 bytes.
- Theorem `isTransient_receive`: which exchanges may be repeated.
-/

namespace MemoryHub
namespace Llm

open Memory (Embedding)
open Utf8

/-! ## Requests and responses -/

/-- A `reqwest::Error`: its kind, as far as it is asked for, and its text. -/
structure ReqwestError where
  isTimeout : Bool
  isConnect : Bool
  text : String

/-- A `POST` with a bearer token and a JSON body. -/
structure ApiRequest where
  url : String
  bearer : String
  body : Json

/-- A response: the chunks of its body that arrive before the end or an error, and what reading
the body as JSON comes to. -/
structure ApiResponse where
  status : Nat
  chunks : List (List UInt8)
  json : Except ReqwestError Json

/-- What a request comes to. -/
abbrev Sent :=
  Except ReqwestError ApiResponse

/-- The text forms of statuses and of bodies that do not fit, and the `f32` nearest to a number. -/
structure ApiFormats where
  status : Nat → String
  decodeError : Json → String
  f32 : ℚ → UInt32

/-- `StatusCode::is_success`. -/
def ApiResponse.isSuccess (resp : ApiResponse) : Bool :=
  200 ≤ resp.status ∧ resp.status < 300

/-- `StatusCode::is_server_error`, or `StatusCode::TOO_MANY_REQUESTS`. -/
def ApiResponse.isOverload (resp : ApiResponse) : Bool :=
  (500 ≤ resp.status ∧ resp.status < 600) ∨ resp.status = 429

/-! ## Error bodies -/

/-- `MAX_ERROR_BODY_BYTES`. -/
def maxErrorBodyBytes : Nat :=
  8 * 1024

/-- The loop of `read_body_capped`, with what has been read. -/
def readChunks (maxBytes : Nat) (buf : List UInt8) : List (List UInt8) → List UInt8
  | [] => buf
  | chunk :: rest => if buf.length < maxBytes then readChunks maxBytes (buf ++ chunk) rest else buf

def readBodyCapped (chunks : List (List UInt8)) (maxBytes : Nat) : String :=
  fromUtf8Lossy ((readChunks maxBytes [] chunks).take maxBytes)

theorem take_readChunks (maxBytes : Nat) (buf : List UInt8) (chunks : List (List UInt8)) :
    (readChunks maxBytes buf chunks).take maxBytes = (buf ++ chunks.flatten).take maxBytes := by
  induction chunks generalizing buf with
  | nil => rw [readChunks, List.flatten_nil, List.append_nil]
  | cons chunk rest ih =>
      rw [readChunks]
      split <;> rename_i hroom
      · rw [ih, List.flatten_cons, List.append_assoc]
      · rw [List.take_append_of_le_length (Nat.le_of_not_lt hroom)]

/-- However the body arrives, its first bytes are read. -/
theorem readBodyCapped_eq (chunks : List (List UInt8)) (maxBytes : Nat) :
    readBodyCapped chunks maxBytes = fromUtf8Lossy (chunks.flatten.take maxBytes) := by
  rw [readBodyCapped, take_readChunks, List.nil_append]

/-! ## What a request comes to -/

section

variable (fm : ApiFormats)

/-- The excerpt of an error body. -/
def excerpt (resp : ApiResponse) : String :=
  prefixWithin (readBodyCapped resp.chunks maxErrorBodyBytes) 512

def mapStatus (resp : ApiResponse) : Except LlmError ApiResponse :=
  if resp.isSuccess then .ok resp
  else if resp.isOverload then .error (.transient (fm.status resp.status ++ ": " ++ excerpt resp))
  else .error (.provider (fm.status resp.status ++ ": " ++ excerpt resp))

def mapReqwest (e : ReqwestError) : LlmError :=
  if e.isTimeout || e.isConnect then .transient e.text else .provider e.text

/-- `Response::json`. -/
def ApiResponse.readJson {α : Type} (read : Json → Option α) (resp : ApiResponse) :
    Except ReqwestError α :=
  match resp.json with
  | .error e => .error e
  | .ok body =>
      match read body with
      | some a => .ok a
      | none => .error ⟨false, false, fm.decodeError body⟩

/-- `send()`, `map_status` and `json()`, one after the other. -/
def receive {α : Type} (read : Json → Option α) (sent : Sent) : Except LlmError α :=
  match sent with
  | .error e => .error (mapReqwest e)
  | .ok resp =>
      match mapStatus fm resp with
      | .error e => .error e
      | .ok resp =>
          match resp.readJson fm read with
          | .error e => .error (mapReqwest e)
          | .ok a => .ok a

/-! ## Chat completions -/

def roleStr : Role → String
  | .system => "system"
  | .user => "user"
  | .assistant => "assistant"

/-- `ChatRequestMessage`. -/
def chatRequestMessage (m : ChatMessage) : Json :=
  .obj [("role", .str (roleStr m.role)), ("content", .str m.content)]

/-- `ChatRequest`. -/
def chatRequest (model : String) (messages : List ChatMessage) : Json :=
  .obj [("model", .str model), ("messages", .arr (messages.map chatRequestMessage)),
    ("stream", .bool false)]

structure ChatChoiceMessage where
  content : String

structure ChatChoice where
  message : ChatChoiceMessage

structure ChatResponseRaw where
  model : String
  choices : List ChatChoice

def ChatChoiceMessage.ofJson (j : Json) : Option ChatChoiceMessage := do
  let member name := j.member ["content"] name
  let content ← Json.required Json.asStr (member "content")
  pure ⟨content⟩

def ChatChoice.ofJson (j : Json) : Option ChatChoice := do
  let member name := j.member ["message"] name
  let message ← Json.required ChatChoiceMessage.ofJson (member "message")
  pure ⟨message⟩

def ChatResponseRaw.ofJson (j : Json) : Option ChatResponseRaw := do
  let member name := j.member ["model", "choices"] name
  let model ← Json.required Json.asStr (member "model")
  let choices ← Json.required (Json.asList ChatChoice.ofJson) (member "choices")
  pure ⟨model, choices⟩

/-- The first choice of a response. -/
def firstChoice (parsed : ChatResponseRaw) : Except LlmError ChatResponse :=
  match parsed.choices with
  | choice :: _ => .ok ⟨parsed.model, choice.message.content⟩
  | [] => .error (.provider "chat response had no choices")

/-- What a request for a chat completion comes to. -/
def readChat (sent : Sent) : Except LlmError ChatResponse :=
  match receive fm ChatResponseRaw.ofJson sent with
  | .error e => .error e
  | .ok parsed => firstChoice parsed

/-! ## Embeddings -/

/-- `EmbedRequest`. -/
def embedRequest (model : String) (input : List String) (dimensions : Option Nat) : Json :=
  .obj ([("model", .str model), ("input", .arr (input.map .str))] ++
    Json.field "dimensions" (dimensions.map fun n : Nat => .int n))

/-- `EmbedResponseData` as it is sent. -/
def EmbedItem.ofJson (j : Json) : Option EmbedItem := do
  let member name := j.member ["index", "embedding"] name
  let index ← Json.withDefault (fun v => v.asUInt64.map some) none (member "index")
  let values ← Json.required (Json.asList fun v => v.asNum.map fm.f32) (member "embedding")
  if h : values.length < 2 ^ 64 then some ⟨index, ⟨values, h⟩⟩ else none

/-- `EmbedResponse` as it is sent. -/
def EmbedBody.ofJson (j : Json) : Option EmbedBody := do
  let member name := j.member ["model", "data"] name
  let model ← Json.required Json.asStr (member "model")
  let data ← Json.required (Json.asList (EmbedItem.ofJson fm)) (member "data")
  pure ⟨model, data⟩

/-- What a request for embeddings comes to. -/
def readEmbed (sent : Sent) : Except LlmError EmbedBody :=
  receive fm (EmbedBody.ofJson fm) sent

end

/-! ## Providers -/

/-- What tasks and the embedder ask of the disk, the network and the clock.  To `send` is to have
the HTTP client send one request; redirects it follows on the way to the response are its own. -/
inductive ApiCall where
  | isFile (path : List String)
  | readToString (path : List String)
  | send (request : ApiRequest)
  | sleep (baseMs : Nat)
  | now

/-- What a call is answered with. -/
@[reducible]
def ApiCall.Response : ApiCall → Type
  | .isFile _ => Bool
  | .readToString _ => Except FileSystem.IoError String
  | .send _ => Sent
  | .sleep _ => Unit
  | .now => Nat

abbrev ApiProg :=
  Prog ApiCall ApiCall.Response

/-- Make one call. -/
def ApiCall.ask (c : ApiCall) : ApiProg c.Response :=
  Prog.perform c

open ApiCall (ask)

/-- What a chat provider posts with. -/
structure ChatClient where
  name : String
  baseUrl : String
  apiKey : String
  chatModel : String

namespace ChatClient

variable (fm : ApiFormats) (client : ChatClient)

/-- The request for a completion. -/
def request (messages : List ChatMessage) : ApiRequest where
  url := client.baseUrl ++ "/chat/completions"
  bearer := client.apiKey
  body := chatRequest client.chatModel messages

/-- `Provider::chat`. -/
def chat (messages : List ChatMessage) : ApiProg (Except LlmError ChatResponse) := do
  let sent ← ask (.send (client.request messages))
  return readChat fm sent

end ChatClient

/-- `DeepSeekProvider`. -/
structure DeepSeekProvider where
  baseUrl : String
  apiKey : String
  chatModel : String

def DeepSeekProvider.client (p : DeepSeekProvider) : ChatClient :=
  ⟨"deepseek", p.baseUrl, p.apiKey, p.chatModel⟩

def DeepSeekProvider.chat (fm : ApiFormats) (p : DeepSeekProvider) (messages : List ChatMessage) :
    ApiProg (Except LlmError ChatResponse) :=
  p.client.chat fm messages

/-- `OpenAiProvider`. -/
structure OpenAiProvider where
  baseUrl : String
  apiKey : String
  chatModel : String
  embeddingModel : String
  embeddingDim : Option Nat

namespace OpenAiProvider

variable (fm : ApiFormats) (p : OpenAiProvider)

def client : ChatClient :=
  ⟨"openai", p.baseUrl, p.apiKey, p.chatModel⟩

def chat (messages : List ChatMessage) : ApiProg (Except LlmError ChatResponse) :=
  p.client.chat fm messages

/-- The request for the embeddings of texts. -/
def request (texts : List String) : ApiRequest where
  url := p.baseUrl ++ "/embeddings"
  bearer := p.apiKey
  body := embedRequest p.embeddingModel texts p.embeddingDim

/-- `EmbeddingProvider::embed`. -/
def sendEmbed (texts : List String) : ApiProg (Except LlmError EmbedResult) := do
  let sent ← ask (.send (p.request texts))
  return OpenAiProvider.embed texts (readEmbed fm sent)

end OpenAiProvider

/-- `Handler<Embed>` of the embedder. -/
def Embedder.handle (fm : ApiFormats) (p : OpenAiProvider) (maxRetries : UInt32)
    (expectedDim : Option Nat) (texts : List String) : ApiProg (Except LlmError EmbedResult) := do
  let response ← retry maxRetries (p.sendEmbed fm texts) fun ms => ask (.sleep ms)
  return embed texts expectedDim response

/-! ## What an endpoint reads -/

/-- The role that an endpoint takes a text for. -/
def asRole : Json → Option Role
  | .str "system" => some .system
  | .str "user" => some .user
  | .str "assistant" => some .assistant
  | _ => none

/-- A message as an endpoint reads it. -/
def readMessage (j : Json) : Option ChatMessage := do
  let role ← Json.required asRole (j.entry "role")
  let content ← Json.required Json.asStr (j.entry "content")
  pure ⟨role, content⟩

/-- A request for a completion as an endpoint reads it: the model, and the messages. -/
def readChatRequest (j : Json) : Option (String × List ChatMessage) := do
  let model ← Json.required Json.asStr (j.entry "model")
  let messages ← Json.required (Json.asList readMessage) (j.entry "messages")
  pure (model, messages)

/-- A request for embeddings as an endpoint reads it: the model, and the texts. -/
def readEmbedRequest (j : Json) : Option (String × List String) := do
  let model ← Json.required Json.asStr (j.entry "model")
  let input ← Json.required (Json.asList Json.asStr) (j.entry "input")
  pure (model, input)

theorem readMessage_chatRequestMessage (m : ChatMessage) :
    readMessage (chatRequestMessage m) = some m := by
  have hrole : (chatRequestMessage m).entry "role" = .found (.str (roleStr m.role)) :=
    Json.entry_of_mem (by simp) (by simp)
  have hcontent : (chatRequestMessage m).entry "content" = .found (.str m.content) :=
    Json.entry_of_mem (by simp) (by simp)
  have hread : asRole (.str (roleStr m.role)) = some m.role := by
    cases m.role <;> rfl
  simp only [readMessage, hrole, hcontent, Json.required, hread, Json.asStr, Option.bind_eq_bind,
    Option.bind_some]
  rfl

/-- An endpoint reads the messages. -/
theorem readChatRequest_chatRequest (model : String) (messages : List ChatMessage) :
    readChatRequest (chatRequest model messages) = some (model, messages) := by
  have hmodel : (chatRequest model messages).entry "model" = .found (.str model) :=
    Json.entry_of_mem (by simp) (by simp)
  have hmessages : (chatRequest model messages).entry "messages" =
      .found (.arr (messages.map chatRequestMessage)) :=
    Json.entry_of_mem (by simp) (by simp)
  simp only [readChatRequest, hmodel, hmessages, Json.required, Json.asStr,
    Json.asList_map fun m _ => readMessage_chatRequestMessage m, Option.bind_eq_bind,
    Option.bind_some]
  rfl

/-- An endpoint reads the texts. -/
theorem readEmbedRequest_embedRequest (model : String) (input : List String)
    (dimensions : Option Nat) :
    readEmbedRequest (embedRequest model input dimensions) = some (model, input) := by
  have hnames : (([("model", Json.str model), ("input", .arr (input.map .str))] ++
      Json.field "dimensions" (dimensions.map fun n : Nat => .int n)).map Prod.fst).Nodup := by
    cases dimensions <;> simp [Json.field]
  have hmodel : (embedRequest model input dimensions).entry "model" = .found (.str model) :=
    Json.entry_of_mem hnames (by simp)
  have hinput : (embedRequest model input dimensions).entry "input" =
      .found (.arr (input.map .str)) :=
    Json.entry_of_mem hnames (by simp)
  have htexts : Json.asList Json.asStr (.arr (input.map .str)) = some input :=
    Json.asList_map fun _ _ => rfl
  simp only [readEmbedRequest, hmodel, hinput, Json.required, Json.asStr, htexts,
    Option.bind_eq_bind, Option.bind_some]
  rfl

/-! ## Error excerpts -/

/-- A part of the body that is a text, and long enough or all of it, decides the excerpt. -/
theorem excerpt_isLongest {resp : ApiResponse} {text : String} {rest : List UInt8}
    (hbody : resp.chunks.flatten = encode text ++ rest)
    (hlong : rest = [] ∨ 512 ≤ text.utf8ByteSize) :
    IsLongestPrefix 512 text (excerpt resp) := by
  have hread := prefixWithin_isLongest text maxErrorBodyBytes
  rcases hread.isPrefix with ⟨more, htext⟩
  generalize hfront : prefixWithin text maxErrorBodyBytes = front at hread htext
  subst htext
  -- What is read is the front, and what the bytes after it decode to.
  have hkept : ∃ tail, readBodyCapped resp.chunks maxErrorBodyBytes = front ++ tail ∧
      (more = "" → rest = [] → tail = "") := by
    refine ⟨fromUtf8Lossy ((encode more ++ rest).take (maxErrorBodyBytes - front.utf8ByteSize)),
      ?_, ?_⟩
    · rw [readBodyCapped_eq, hbody, encode_append, List.append_assoc, List.take_append,
        List.take_of_length_le (by rw [length_encode]; exact hread.fits), length_encode,
        fromUtf8Lossy_encode_append]
    · rintro rfl rfl
      have hnothing : encode "" = [] := rfl
      rw [List.append_nil, hnothing, List.take_nil]
      exact fromUtf8Lossy_encode ""
  rcases hkept with ⟨tail, hkept, hend⟩
  have hexcerpt : IsLongestPrefix 512 (front ++ tail) (excerpt resp) := by
    rw [← hkept]
    exact prefixWithin_isLongest _ 512
  by_cases hall : more = ""
  · rcases hlong with hrest | hsize
    · rw [hall, ← hend hall hrest]
      exact hexcerpt
    · rw [hall, String.append_empty] at hsize
      exact hexcerpt.of_append hsize
  · have hroom := hread.lt_of_rest hall
    exact hexcerpt.of_append (by unfold maxErrorBodyBytes at hroom; omega)

/-- The error of a response that is not a success may pass if the status says that the endpoint is
at fault or overloaded; it names the status and, of a body that is a text for 512 bytes or all of
it, the longest prefix of at most 512 bytes, however the body arrives. -/
theorem mapStatus_excerpt (fm : ApiFormats) {resp : ApiResponse} (hfails : resp.isSuccess = false)
    {text : String} {rest : List UInt8} (hbody : resp.chunks.flatten = encode text ++ rest)
    (hlong : rest = [] ∨ 512 ≤ text.utf8ByteSize) :
    ∃ e, IsLongestPrefix 512 text e ∧ mapStatus fm resp =
      .error (if resp.isOverload then .transient (fm.status resp.status ++ ": " ++ e)
        else .provider (fm.status resp.status ++ ": " ++ e)) := by
  refine ⟨excerpt resp, excerpt_isLongest hbody hlong, ?_⟩
  rw [mapStatus, if_neg (by rw [hfails]; simp)]
  split <;> rfl

def sampleFormats : ApiFormats :=
  ⟨fun _ => "503 Service Unavailable", fun _ => "error decoding response body",
    fun value => if value = 1 then 0x3f800000 else 0x40000000⟩

/-- A body of 518 bytes, whose byte 512 is the first of two of one character. -/
def longBody : String :=
  String.ofList (List.replicate 511 'a') ++ "é busy"

/-- The body arrives in two chunks, and the character across the limit is in both. -/
theorem mapStatus_excerpt_sample :
    ∃ e, IsLongestPrefix 512 longBody e ∧
      mapStatus sampleFormats
          ⟨503, [(encode longBody).take 512, (encode longBody).drop 512], .ok .null⟩ =
        .error (.transient ("503 Service Unavailable: " ++ e)) := by
  have hbody : [(encode longBody).take 512, (encode longBody).drop 512].flatten =
      encode longBody ++ [] := by
    simp [List.take_append_drop]
  exact mapStatus_excerpt sampleFormats rfl hbody (Or.inl rfl)

/-! ## Exchanges that may be repeated -/

/-- No connection, no answer in time, or an answer that tells of overload. -/
def MayPass : Sent → Prop
  | .error e => e.isTimeout = true ∨ e.isConnect = true
  | .ok resp =>
      if resp.isSuccess then ∃ e, resp.json = .error e ∧ (e.isTimeout = true ∨ e.isConnect = true)
      else resp.isOverload = true

theorem isTransient_mapReqwest {α : Type} {e : ReqwestError} :
    isTransient (.error (mapReqwest e) : Except LlmError α) = true ↔
      e.isTimeout = true ∨ e.isConnect = true := by
  unfold mapReqwest
  rw [← Bool.or_eq_true]
  split <;> rename_i h
  · exact iff_of_true rfl h
  · exact iff_of_false (by simp [isTransient]) h

/-- What comes to a transient error. -/
theorem isTransient_receive {fm : ApiFormats} {α : Type} {read : Json → Option α} {sent : Sent} :
    isTransient (receive fm read sent) = true ↔ MayPass sent := by
  cases sent with
  | error e => exact isTransient_mapReqwest
  | ok resp =>
      by_cases hsuccess : resp.isSuccess = true
      · have hreceive : receive fm read (.ok resp) =
            match resp.readJson fm read with
            | .error e => .error (mapReqwest e)
            | .ok a => .ok a := by
          rw [receive, mapStatus, if_pos hsuccess]
        rw [hreceive, MayPass, if_pos hsuccess]
        cases hjson : resp.json with
        | error e =>
            simp only [ApiResponse.readJson, hjson, isTransient_mapReqwest, Except.error.injEq,
              exists_eq_left']
        | ok body =>
            simp only [ApiResponse.readJson, hjson]
            cases read body <;> simp [isTransient, mapReqwest]
      · rw [MayPass, if_neg hsuccess, receive, mapStatus, if_neg hsuccess]
        by_cases hoverload : resp.isOverload = true
        · rw [if_pos hoverload]
          exact iff_of_true rfl hoverload
        · rw [if_neg hoverload]
          exact iff_of_false (by simp [isTransient]) hoverload

theorem isTransient_error {α β : Type} {e : LlmError} :
    isTransient (.error e : Except LlmError α) = isTransient (.error e : Except LlmError β) := by
  cases e <;> rfl

theorem isTransient_readChat {fm : ApiFormats} {sent : Sent} :
    isTransient (readChat fm sent) = true ↔ MayPass sent := by
  rw [← @isTransient_receive fm _ ChatResponseRaw.ofJson, readChat]
  cases receive fm ChatResponseRaw.ofJson sent with
  | error e => exact Bool.coe_iff_coe.mpr isTransient_error
  | ok parsed =>
      refine iff_of_false ?_ (by simp [isTransient])
      simp only [firstChoice]
      cases parsed.choices <;> simp [isTransient]

theorem isTransient_embed {texts : List String} {fm : ApiFormats} {sent : Sent} :
    isTransient (OpenAiProvider.embed texts (readEmbed fm sent)) = true ↔ MayPass sent := by
  rw [← isTransient_receive, readEmbed]
  cases receive fm (EmbedBody.ofJson fm) sent with
  | error e => exact Bool.coe_iff_coe.mpr isTransient_error
  | ok body =>
      refine iff_of_false ?_ (by simp [isTransient])
      simp only [OpenAiProvider.embed]
      split <;> simp [isTransient]

end Llm
end MemoryHub
