import HealingGateway.Effects

namespace HealingGateway.Schemas

open Programs Programs.Prog Numerals JsonText

inductive Role
  | system | user | assistant | tool | function
  deriving DecidableEq

namespace Role

def value : Role → String
  | system => "system"
  | user => "user"
  | assistant => "assistant"
  | tool => "tool"
  | function => "function"

def ofValue? (name : String) : Option Role :=
  [system, user, assistant, tool, function].find? (fun r ↦ r.value = name)

end Role

inductive Content
  | text (s : String)
  | parts (ps : List (List (String × Json)))

def Content.asJson : Content → Json
  | text s => .str s
  | parts ps => .arr (ps.map Json.obj)

def isNull : Json → Bool
  | .null => true
  | _ => false

/-- What a model with `extra="allow"` keeps besides its declared fields. -/
structure Extra (declared : List String) where
  members : List (String × Json) := []
  undeclared : ∀ m ∈ members, m.1 ∉ declared := by decide
  nodup : (members.map Prod.fst).Nodup := by decide

def Extra.none (declared : List String) : Extra declared :=
  ⟨[], List.forall_mem_nil _, List.nodup_nil⟩

def Extra.present {declared : List String} (extra : Extra declared) : List (String × Json) :=
  extra.members.filter (fun m ↦ !isNull m.2)

structure ChatMessage where
  role : Role
  content : Option Content := none
  extra : Extra ["role", "content"] := .none _

/-- `model_dump(exclude_none=True)`. -/
def ChatMessage.dumpPresent (m : ChatMessage) : Json :=
  .obj (("role", .str m.role.value) ::
    (m.content.toList.map (fun c ↦ ("content", c.asJson)) ++ m.extra.present))

structure ChatCompletionRequest where
  model : Option String := none
  messages : List ChatMessage
  messages_ne_nil : messages ≠ [] := by simp
  stream : Bool := false
  extra : Extra ["model", "messages", "stream"] := .none _

def ChatCompletionRequest.ofText (text : String) : ChatCompletionRequest where
  messages := [{ role := .user, content := some (.text text) }]

/-- Everything except the fields the gateway owns. -/
def ChatCompletionRequest.toProviderKwargs (r : ChatCompletionRequest) : List (String × Json) :=
  ("messages", .arr (r.messages.map ChatMessage.dumpPresent)) :: r.extra.present

structure Choice where
  index : ℤ
  message : ChatMessage
  finishReason : Option String

structure Usage where
  promptTokens : ℤ := 0
  completionTokens : ℤ := 0
  totalTokens : ℤ := 0

structure GatewayMeta where
  provider : String
  model : String
  requestClass : String
  requestId : String
  tenant : String
  feature : String
  latencyMs : Decimal
  costUsd : Decimal
  attempts : List Json := []

structure ChatCompletionResponse where
  id : String
  created : ℤ
  model : String
  choices : List Choice
  usage : Usage
  xGateway : GatewayMeta

section Dumps

def ChatMessage.asJson (m : ChatMessage) : Json :=
  .obj ([("role", .str m.role.value), ("content", (m.content.map Content.asJson).getD .null)] ++
    m.extra.members)

def Choice.asJson (c : Choice) : Json :=
  .obj [("index", .int c.index), ("message", c.message.asJson),
    ("finish_reason", optionalText c.finishReason)]

def Usage.asJson (u : Usage) : Json :=
  .obj [("prompt_tokens", .int u.promptTokens), ("completion_tokens", .int u.completionTokens),
    ("total_tokens", .int u.totalTokens)]

def GatewayMeta.asJson (m : GatewayMeta) : Json :=
  .obj [("provider", .str m.provider), ("model", .str m.model),
    ("request_class", .str m.requestClass), ("request_id", .str m.requestId),
    ("tenant", .str m.tenant), ("feature", .str m.feature), ("latency_ms", .float m.latencyMs),
    ("cost_usd", .float m.costUsd), ("attempts", .arr m.attempts)]

/-- `model_dump(mode="json")`. -/
def ChatCompletionResponse.asJson (r : ChatCompletionResponse) : Json :=
  .obj [("id", .str r.id), ("object", .str "chat.completion"), ("created", .int r.created),
    ("model", .str r.model), ("choices", .arr (r.choices.map Choice.asJson)),
    ("usage", r.usage.asJson), ("x_gateway", r.xGateway.asJson)]

end Dumps

section Validation

def validationError (field : String) : Exn :=
  .raised ["ValidationError", "ValueError", "Exception", "BaseException"] field

def validated {α : Type} (field : String) : Option α → Except Exn α
  | some a => .ok a
  | none => .error (validationError field)

/-- An `int` field takes what stands for a whole number. -/
def laxInt : Json → Option ℤ
  | .int n => some n
  | .bool b => some (if b then 1 else 0)
  | .float d => if d.toRat.den = 1 then some d.toRat.num else none
  | .str s => parseInt s
  | _ => none

def optional {α : Type} (read : Json → Option α) : Json → Option (Option α)
  | .null => some none
  | j => (read j).map some

def readContent : Json → Option Content
  | .str s => some (.text s)
  | .arr items => (items.mapM Json.obj?).map Content.parts
  | _ => none

def falsy : Json → Bool
  | .null => true
  | .bool b => !b
  | .int n => n = 0
  | .float d => d.mantissa = 0
  | .str s => s = ""
  | .arr items => items.isEmpty
  | .obj members => members.isEmpty

/-- `value or default`. -/
def orElse (value : Option Json) (default : Json) : Json :=
  match value with
  | some j => if falsy j then default else j
  | none => default

def choiceOf (i : ℕ) (c : Json) : Except Exn Choice :=
  match c.get? "message" with
  | none => .error (.attributeError "message")
  | some message => do
    let role ← validated "role"
      ((orElse (message.get? "role") (.str "assistant")).str?.bind Role.ofValue?)
    let content ← validated "content"
      (optional readContent ((message.get? "content").getD .null))
    let index ← validated "index" (laxInt ((c.get? "index").getD (.int i)))
    let finishReason ← validated "finish_reason"
      (optional Json.str? ((c.get? "finish_reason").getD .null))
    return { index, message := { role, content }, finishReason }

def choicesFrom : ℕ → List Json → Except Exn (List Choice)
  | _, [] => .ok []
  | i, c :: cs => do
    let choice ← choiceOf i c
    let choices ← choicesFrom (i + 1) cs
    return choice :: choices

def choicesOf (response : Option Json) : Except Exn (List Choice) :=
  match response.bind (·.get? "choices") with
  | none => .ok []
  | some (.arr cs) => choicesFrom 0 cs
  | some _ => .error (.typeError "choices")

end Validation

def presentOr (value : Option Json) (make : Gateway Json) : Gateway Json :=
  match value with
  | some j => if falsy j then make else return j
  | none => make

def newId : Gateway Json := do
  let u ← ask Cmd.uuid4
  return .str ("chatcmpl-" ++ u.hex)

def newCreated : Gateway Json := do
  let t : ℚ ← ask Cmd.time
  return .int (truncate t)

def gatewayMeta (result : ProviderResult) (metadata : RequestMetadata)
    (attempts : List ProviderCallLog) : GatewayMeta where
  provider := result.provider
  model := result.model
  requestClass := metadata.requestClass
  requestId := metadata.requestId
  tenant := metadata.tenant
  feature := metadata.feature
  latencyMs := roundTenth result.latencyMs
  costUsd := result.costUsd
  attempts := attempts.map ProviderCallLog.asDict

def build (id created model : Json) (choices : List Choice) (usage : Usage)
    (xGateway : GatewayMeta) : Except Exn ChatCompletionResponse := do
  let id ← validated "id" id.str?
  let created ← validated "created" (laxInt created)
  let model ← validated "model" model.str?
  return { id, created, model, choices, usage, xGateway }

def toOpenaiResponse (result : ProviderResult) (metadata : RequestMetadata)
    (attempts : List ProviderCallLog) : Gateway ChatCompletionResponse := do
  let response := result.response
  let choices ← ofExcept (choicesOf response)
  let id ← presentOr (response.bind (·.get? "id")) newId
  let created ← presentOr (response.bind (·.get? "created")) newCreated
  let model := orElse (response.bind (·.get? "model")) (.str result.model)
  let usage : Usage := ⟨result.promptTokens, result.completionTokens, result.totalTokens⟩
  ofExcept (build id created model choices usage (gatewayMeta result metadata attempts))

end HealingGateway.Schemas
