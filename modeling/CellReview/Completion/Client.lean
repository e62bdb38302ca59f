import CellReview.Chat.Message
import CellReview.Json.Doc
import CellReview.Completion.Reply
import CellReview.Completion.Transport
import CellReview.Settings.Environment

/-!
# Asking for a completion

A conversation is sent once.  Whatever comes back becomes a reply or a failure in words
for the user.

A body that is no JSON is told about in the words of the library that reads it.  These are not
followed: `replyOf` has fixed words in their place, and what is proved of them is only that there
are some.

* `post?` — the request, if there is a key for it;
* `Failure.wording`, `statusWording` — the words for failures;
* `replyOf` — the reply in the body of a response;
* `complete` — a request from its messages to its answer.
-/

namespace CellReview.Completion

open Chat (ChatMessage)

/-! ## The request -/

/-- The body of a request. -/
def payload (s : LlmSettings) (messages : List ChatMessage) : Json :=
  Json.normal (.object
    [("model", .string s.model), ("messages", .array (messages.map ChatMessage.toJson)),
     ("temperature", .number (.single s.temperature)), ("max_tokens", .ofNat s.maxTokens),
     ("stream", .bool false)])

/-- The request for a conversation, if there is a key for it. -/
def post? (s : LlmSettings) (env : Environment) (messages : List ChatMessage) : Option Post :=
  (s.apiKey? env).map fun key => ⟨s.endpoint, some key, payload s messages, s.timeoutSeconds⟩

/-- The failure for want of a key. -/
def missingKey (s : LlmSettings) : TransportError :=
  ⟨s.apiKeyEnv ++ " not set and llm.api_key is empty"⟩

/-! ## Failures in words -/

/-- Whether a failure lies in finding the address of a name. -/
def Failure.isLookup (f : Failure) : Bool :=
  let source := Text.lower (f.source.getD "")
  ["dns", "resolve", "name or service not known", "no such host"].any (Text.contains source)

/-- A failure in words. -/
def Failure.wording (f : Failure) : String :=
  if f.timeout then
    "Request timed out. The completion API did not respond in time; consider raising " ++
      "llm.timeout_seconds."
  else if f.isLookup then
    "DNS resolution failed. Could not resolve the completion API hostname."
  else if f.connect then
    "Connection refused. Could not reach the completion API at the configured endpoint."
  else "Network error: " ++ f.text

/-- The message in an error object, or that object if it is a text. -/
def errorMessage? (body : Json) : Option String :=
  (body.get? "error").bind fun e => ((e.get? "message").or (some e)).bind Json.text?

/-- What the body of an unwelcome response says: its message, or its first characters. -/
def detail (body : String) : String :=
  match (Json.parse? body).bind errorMessage? with
  | some message => message
  | none => String.ofList (body.toList.take 200)

/-- An unwelcome status in words. -/
def statusWording (status : Nat) (body : String) : String :=
  if status = 401 then
    "Invalid or missing API key (HTTP 401). Set the API key environment variable or " ++
      "llm.api_key in settings."
  else if status = 429 then
    "Rate limited (HTTP 429). Try again shortly. Detail: " ++ detail body
  else if status = 500 ∨ status = 502 ∨ status = 503 then
    "Completion server error (HTTP " ++ natText status ++
      "). The service may be temporarily unavailable. Detail: " ++ detail body
  else "Completion API error (HTTP " ++ natText status ++ "): " ++ detail body

/-! ## The reply -/

/-- The first choice of a completion. -/
def firstChoice? (v : Json) : Option Json :=
  ((v.get? "choices").bind Json.items?).bind List.head?

/-- The reply in the body of a response.  `invalid JSON` stands for what the library that reads the
body says about the fault. -/
def replyOf (body : String) : Answer :=
  match Json.parse? body with
  | none => .error ⟨"unparseable completion payload: invalid JSON"⟩
  | some v =>
    match firstChoice? v with
    | none => .error ⟨"unexpected completion payload: missing choices[0]"⟩
    | some choice =>
      let reason := ((choice.get? "finish_reason").bind Json.text?).getD "stop"
      match ((choice.get? "message").bind (Json.get? · "content")).bind Json.text? with
      | none => .error ⟨"unexpected completion payload: missing message.content"⟩
      | some text => .ok ⟨text, reason⟩

/-- The answer that an exchange amounts to. -/
def answerOf : Exchange → Answer
  | .error f => .error ⟨f.wording⟩
  | .ok response =>
    match response.body with
    | .error f => .error ⟨f.wording⟩
    | .ok body =>
      if 200 ≤ response.status ∧ response.status ≤ 299 then replyOf body
      else .error ⟨statusWording response.status body⟩

/-- Send a conversation and take its answer.  Without a key nothing is sent. -/
def complete {τ : Type} [Transport τ] (transport : τ) (s : LlmSettings) (env : Environment)
    (messages : List ChatMessage) : τ × Answer :=
  match post? s env messages with
  | none => (transport, .error (missingKey s))
  | some p =>
    let (transport, exchange) := Transport.send transport p
    (transport, answerOf exchange)

end CellReview.Completion
