import HealingGateway.Completions
import HealingGateway.JobApi
import HealingGateway.JobRoundTrip

namespace HealingGateway.Schemas

open Programs Programs.Prog Numerals JsonText

def Plain (message : Json) : Prop :=
  ∀ name value, name ≠ "role" → name ≠ "content" → message.get? name = some value →
    isNull value = true

structure SameMessage (given out : Json) : Prop where
  role : out.get? "role" = some (orElse (given.get? "role") (.str "assistant"))
  content : out.get? "content" = some ((given.get? "content").getD .null)
  others : ∀ name value, name ≠ "role" → name ≠ "content" → given.get? name = some value →
    isNull value = false → out.get? name = some value

/-- A choice says all that the provider's choice at position `i` says. -/
structure SameChoice (i : ℕ) (given out : Json) : Prop where
  index : ∃ n, laxInt ((given.get? "index").getD (.int i)) = some n ∧
    out.get? "index" = some (.int n)
  finishReason : out.get? "finish_reason" = some ((given.get? "finish_reason").getD .null)
  message : ∃ m m', given.get? "message" = some m ∧ out.get? "message" = some m' ∧
    SameMessage m m'

def givenChoices (result : ProviderResult) : List Json :=
  match result.response.bind (·.get? "choices") with
  | some (.arr cs) => cs
  | _ => []

/-- A body says all that the provider's choices say, in their order, and its usage adds up. -/
structure Faithful (result : ProviderResult) (body : Json) : Prop where
  choices : ∃ out, body.get? "choices" = some (.arr out) ∧
    out.length = (givenChoices result).length ∧
    ∀ n c o, (givenChoices result)[n]? = some c → out[n]? = some o → SameChoice n c o
  usage : ∃ u, body.get? "usage" = some u ∧
    u.get? "prompt_tokens" = some (.int result.promptTokens) ∧
    u.get? "completion_tokens" = some (.int result.completionTokens) ∧
    u.get? "total_tokens" = some (.int (result.promptTokens + result.completionTokens))

def choiceFits (c : Json) : Bool :=
  (c.get? "message").any (fun m ↦
    ((orElse (m.get? "role") (.str "assistant")).str?.bind Role.ofValue?).isSome &&
      (optional readContent ((m.get? "content").getD .null)).isSome) &&
    (laxInt ((c.get? "index").getD (.int 0))).isSome &&
    (optional Json.str? ((c.get? "finish_reason").getD .null)).isSome

def responseFits (result : ProviderResult) : Bool :=
  (match result.response.bind (·.get? "choices") with
    | none => true
    | some (.arr cs) => cs.all choiceFits
    | some _ => false) &&
    presentable (result.response.bind (·.get? "id")) (fun j ↦ j.str?.isSome) &&
    presentable (result.response.bind (·.get? "created")) (fun j ↦ (laxInt j).isSome) &&
    (orElse (result.response.bind (·.get? "model")) (.str result.model)).str?.isSome

/-- What a provider returned fits, and no message in it carries more than a role and a content. -/
structure TextOnly (result : ProviderResult) : Prop where
  fits : responseFits result = true
  plain : ∀ c ∈ givenChoices result, ∀ m, c.get? "message" = some m → Plain m

section Choices

variable {i : ℕ} {c : Json} {cs : List Json}

theorem Role.value_of_ofValue? {name : String} {role : Role} (h : Role.ofValue? name = some role) :
    role.value = name := by
  simpa using List.find?_some h

theorem str?_eq_some {j : Json} {s : String} (h : j.str? = some s) : j = .str s := by
  cases j <;> cases h
  rfl

theorem map_obj_of_mapM {items : List Json} {ps : List (List (String × Json))}
    (h : items.mapM Json.obj? = some ps) : ps.map Json.obj = items := by
  induction items generalizing ps with
  | nil =>
    cases h
    rfl
  | cons item items ih =>
    rw [List.mapM_cons] at h
    obtain ⟨members, hitem, h⟩ := Option.bind_eq_some_iff.mp h
    obtain ⟨rest, hrest, h⟩ := Option.bind_eq_some_iff.mp h
    cases h
    rw [List.map_cons, ih hrest]
    cases item <;> cases hitem
    rfl

theorem readContent_asJson {j : Json} {content : Content} (h : readContent j = some content) :
    content.asJson = j := by
  cases j with
  | str s =>
    cases h
    rfl
  | arr items =>
    obtain ⟨ps, hps, rfl⟩ := Option.map_eq_some_iff.mp h
    exact congrArg Json.arr (map_obj_of_mapM hps)
  | null | bool | int | float | obj => cases h

theorem optional_dump {α : Type} {read : Json → Option α} {dump : α → Json} {j : Json} {a : Option α}
    (hread : ∀ j a, read j = some a → dump a = j) (h : optional read j = some a) :
    (a.map dump).getD .null = j := by
  unfold optional at h
  split at h
  · cases h
    rfl
  · obtain ⟨a, ha, rfl⟩ := Option.map_eq_some_iff.mp h
    exact hread _ _ ha

theorem optionalText_eq (text : Option String) :
    optionalText text = (text.map Json.str).getD .null := by
  cases text <;> rfl

theorem validated_eq_ok {α : Type} {field : String} {a? : Option α} {a : α} :
    validated field a? = .ok a ↔ a? = some a := by
  cases a? <;> simp [validated]

theorem isOk_choiceOf (i : ℕ) (c : Json) : (choiceOf i c).isOk = choiceFits c := by
  have hindex : (laxInt ((c.get? "index").getD (.int i))).isSome =
      (laxInt ((c.get? "index").getD (.int 0))).isSome := by
    cases c.get? "index" <;> rfl
  unfold choiceOf choiceFits
  rw [← hindex]
  cases c.get? "message" with
  | none => rfl
  | some m =>
    simp only [Option.any_some]
    cases (orElse (m.get? "role") (.str "assistant")).str?.bind Role.ofValue? with
    | none => rfl
    | some role =>
      cases optional readContent ((m.get? "content").getD .null) with
      | none => rfl
      | some content =>
        cases laxInt ((c.get? "index").getD (.int i)) with
        | none => rfl
        | some index => cases optional Json.str? ((c.get? "finish_reason").getD .null) <;> rfl

theorem isOk_choicesFrom (i : ℕ) (cs : List Json) : (choicesFrom i cs).isOk = cs.all choiceFits := by
  induction cs generalizing i with
  | nil => rfl
  | cons c cs ih =>
    rw [List.all_cons, ← ih (i + 1), ← isOk_choiceOf i c, choicesFrom]
    cases choiceOf i c with
    | error e => rfl
    | ok choice => cases choicesFrom (i + 1) cs <;> rfl

theorem renderable_eq (result : ProviderResult) : renderable result = responseFits result := by
  have hchoices : (choicesOf result.response).isOk =
      (match result.response.bind (·.get? "choices") with
        | none => true
        | some (.arr cs) => cs.all choiceFits
        | some _ => false) := by
    unfold choicesOf
    cases result.response.bind (·.get? "choices") with
    | none => rfl
    | some j =>
      cases j with
      | arr cs => exact isOk_choicesFrom 0 cs
      | null | bool | int | float | str | obj => rfl
  rw [renderable, responseFits, hchoices]

theorem choiceOf_eq_ok {choice : Choice} (h : choiceOf i c = .ok choice) :
    ∃ m, c.get? "message" = some m ∧
      (orElse (m.get? "role") (.str "assistant")).str?.bind Role.ofValue? = some choice.message.role ∧
      optional readContent ((m.get? "content").getD .null) = some choice.message.content ∧
      laxInt ((c.get? "index").getD (.int i)) = some choice.index ∧
      optional Json.str? ((c.get? "finish_reason").getD .null) = some choice.finishReason ∧
      choice.message.extra.members = [] := by
  unfold choiceOf at h
  cases hm : c.get? "message" with
  | none =>
    rw [hm] at h
    cases h
  | some m =>
    rw [hm] at h
    obtain ⟨role, hrole, h⟩ := bind_eq_ok.mp h
    obtain ⟨content, hcontent, h⟩ := bind_eq_ok.mp h
    obtain ⟨index, hindex, h⟩ := bind_eq_ok.mp h
    obtain ⟨finish, hfinish, h⟩ := bind_eq_ok.mp h
    cases h
    exact ⟨m, rfl, validated_eq_ok.mp hrole, validated_eq_ok.mp hcontent, validated_eq_ok.mp hindex,
      validated_eq_ok.mp hfinish, rfl⟩

theorem sameChoice_iff {choice : Choice} (h : choiceOf i c = .ok choice) :
    SameChoice i c choice.asJson ↔ ∀ m, c.get? "message" = some m → Plain m := by
  obtain ⟨m, hm, hrole, hcontent, hindex, hfinish, hextra⟩ := choiceOf_eq_ok h
  have hmessage : choice.asJson.get? "message" = some choice.message.asJson := rfl
  have hmembers : ∀ name, name ≠ "role" → name ≠ "content" →
      choice.message.asJson.get? name = none := by
    intro name hname hname'
    have hrole : (name == "role") = false := beq_false_of_ne hname
    have hcontent : (name == "content") = false := beq_false_of_ne hname'
    simp [ChatMessage.asJson, Json.get?, hextra, List.lookup_cons, hrole, hcontent]
  constructor
  · rintro ⟨-, -, m₁, m₂, hm₁, hm₂, hsame⟩ m' hm' name value hname hname' hvalue
    rw [hm₁] at hm'
    cases hm'
    rw [hmessage] at hm₂
    cases hm₂
    by_contra hnull
    have hout := hsame.others name value hname hname' hvalue (by simpa using hnull)
    rw [hmembers name hname hname'] at hout
    cases hout
  · intro hplain
    refine ⟨⟨_, hindex, rfl⟩, ?_, m, _, hm, hmessage, ?_, ?_, ?_⟩
    · have hdump : optionalText choice.finishReason = (c.get? "finish_reason").getD .null := by
        rw [optionalText_eq]
        exact optional_dump (fun _ _ hs ↦ (str?_eq_some hs).symm) hfinish
      rw [← hdump]
      rfl
    · obtain ⟨name, hname, hvalue⟩ := Option.bind_eq_some_iff.mp hrole
      rw [str?_eq_some hname, ← Role.value_of_ofValue? hvalue]
      rfl
    · rw [← optional_dump (fun _ _ hs ↦ readContent_asJson hs) hcontent]
      rfl
    · intro name value hname hname' hvalue hnull
      rw [hplain m hm name value hname hname' hvalue] at hnull
      cases hnull

theorem choicesFrom_eq_ok {out : List Choice} (h : choicesFrom i cs = .ok out) :
    out.length = cs.length ∧
      ∀ (n : ℕ) c o, cs[n]? = some c → out[n]? = some o → choiceOf (i + n) c = .ok o := by
  induction cs generalizing i out with
  | nil =>
    cases h
    exact ⟨rfl, fun n c o hc ↦ by cases hc⟩
  | cons c cs ih =>
    obtain ⟨choice, hchoice, h⟩ := bind_eq_ok.mp h
    obtain ⟨choices, hchoices, h⟩ := bind_eq_ok.mp h
    cases h
    obtain ⟨hlen, hall⟩ := ih hchoices
    refine ⟨congrArg Nat.succ hlen, fun n c' o hc' ho ↦ ?_⟩
    cases n with
    | zero =>
      cases hc'
      cases ho
      exact hchoice
    | succ n =>
      have hshift : i + (n + 1) = i + 1 + n := by omega
      rw [hshift]
      exact hall n c' o hc' ho

theorem choicesOf_eq_ok {result : ProviderResult} {out : List Choice}
    (h : choicesOf result.response = .ok out) : choicesFrom 0 (givenChoices result) = .ok out := by
  unfold choicesOf at h
  unfold givenChoices
  cases hj : result.response.bind (·.get? "choices") with
  | none =>
    rw [hj] at h
    exact h
  | some j =>
    rw [hj] at h
    cases j with
    | arr cs => exact h
    | null | bool | int | float | str | obj => cases h

end Choices

section Responses

variable {result : ProviderResult} {metadata : RequestMetadata} {attempts : List ProviderCallLog}
  {response : ChatCompletionResponse}

theorem returns_toOpenaiResponse (result : ProviderResult) (metadata : RequestMetadata)
    (attempts : List ProviderCallLog) :
    (toOpenaiResponse result metadata attempts).Returns (fun response ↦
      choicesOf result.response = .ok response.choices ∧
        response.usage = ⟨result.promptTokens, result.completionTokens, result.totalTokens⟩) := by
  refine Returns.bind (returns_ofExcept (fun choices h ↦ h)) (fun choices hchoices ↦ ?_)
  refine (returns_any _).bind (fun id _ ↦ (returns_any _).bind (fun created _ ↦ ?_))
  refine returns_ofExcept (fun response hresponse ↦ ?_)
  obtain ⟨_, -, hresponse⟩ := bind_eq_ok.mp hresponse
  obtain ⟨_, -, hresponse⟩ := bind_eq_ok.mp hresponse
  obtain ⟨_, -, hresponse⟩ := bind_eq_ok.mp hresponse
  cases hresponse
  exact ⟨hchoices, rfl⟩

theorem faithful_asJson_iff (hchoices : choicesOf result.response = .ok response.choices)
    (husage : response.usage = ⟨result.promptTokens, result.completionTokens, result.totalTokens⟩) :
    Faithful result response.asJson ↔
      ∀ c ∈ givenChoices result, ∀ m, c.get? "message" = some m → Plain m := by
  obtain ⟨hlen, hall⟩ := choicesFrom_eq_ok (choicesOf_eq_ok hchoices)
  simp only [Nat.zero_add] at hall
  constructor
  · rintro ⟨⟨out, hout, -, hsame⟩, -⟩ c hc
    obtain rfl : response.choices.map Choice.asJson = out := by
      have hget : response.asJson.get? "choices" =
          some (.arr (response.choices.map Choice.asJson)) := rfl
      rw [hget] at hout
      exact Json.arr.inj (Option.some.inj hout)
    obtain ⟨n, hn, hget⟩ := List.mem_iff_getElem.mp hc
    have hc' : (givenChoices result)[n]? = some c := by rw [List.getElem?_eq_getElem hn, hget]
    have ho := List.getElem?_eq_getElem (l := response.choices) (i := n) (by omega)
    refine (sameChoice_iff (hall n c _ hc' ho)).mp (hsame n c _ hc' ?_)
    rw [List.getElem?_map, ho]
    rfl
  · intro hplain
    refine ⟨⟨_, rfl, by rw [List.length_map, hlen], fun n c o hc ho ↦ ?_⟩, ?_⟩
    · rw [List.getElem?_map] at ho
      obtain ⟨choice, hchoice, rfl⟩ := Option.map_eq_some_iff.mp ho
      exact (sameChoice_iff (hall n c choice hc hchoice)).mpr (hplain c (List.mem_of_getElem? hc))
    · refine ⟨response.usage.asJson, rfl, ?_⟩
      rw [husage]
      exact ⟨rfl, rfl, rfl⟩

/-- Turning an answer into a response goes through and loses nothing exactly where the answer
is text only. -/
theorem toOpenaiResponse_faithful_iff (result : ProviderResult) (metadata : RequestMetadata)
    (attempts : List ProviderCallLog) {σ : Type} (h : Handler Cmd Reply σ) (s : σ) :
    (∃ response s', (toOpenaiResponse result metadata attempts).run h s = (.ok response, s') ∧
      Faithful result response.asJson) ↔ TextOnly result := by
  have hfits := isOk_toOpenaiResponse h result metadata attempts s
  rw [renderable_eq] at hfits
  constructor
  · rintro ⟨response, s', hrun, hfaithful⟩
    obtain ⟨hchoices, husage⟩ := (returns_toOpenaiResponse result metadata attempts).run hrun
    rw [hrun] at hfits
    exact ⟨hfits.symm, (faithful_asJson_iff hchoices husage).mp hfaithful⟩
  · intro htext
    rw [htext.fits] at hfits
    obtain ⟨response, s', hrun⟩ := exists_run_of_isOk h hfits
    obtain ⟨hchoices, husage⟩ := (returns_toOpenaiResponse result metadata attempts).run hrun
    exact ⟨response, s', hrun, (faithful_asJson_iff hchoices husage).mpr htext.plain⟩

theorem toOpenaiResponse_store {o : Outside} {db db' : Redis.Db}
    (hrun : (toOpenaiResponse result metadata attempts).run o.answers db = (.ok response, db')) :
    db' = db := by
  have hframe := (only_toOpenaiResponse result metadata attempts).run_frame (h := o.answers)
    (f := fun db ↦ db) (fun c db hc ↦ by cases c <;> first | rfl | cases hc) db
  rw [hrun] at hframe
  exact hframe

end Responses

end HealingGateway.Schemas

namespace HealingGateway.Main

open Programs Programs.Prog JsonText Schemas Router Queue

variable {routed : RouteOutcome} {result : ProviderResult}

theorem answer_served (r : ChatRequest) (hrouted : routed.result = some result)
    (hok : result.outcome.isOk = true) : answer r routed = (do
      let response ← toOpenaiResponse result r.metadata routed.attempts
      return (200, response.asJson)) := by
  simp only [answer, hrouted, hok, if_true]

theorem answer_faithful_iff (r : ChatRequest) (hrouted : routed.result = some result)
    (hok : result.outcome.isOk = true) {σ : Type} (h : Handler Cmd Reply σ) (s : σ) :
    (∃ body, ((answer r routed).run h s).1 = .ok (200, body) ∧ Faithful result body) ↔
      TextOnly result := by
  rw [← toOpenaiResponse_faithful_iff result r.metadata routed.attempts h s,
    answer_served r hrouted hok, run_bind]
  rcases (toOpenaiResponse result r.metadata routed.attempts).run h s with ⟨e | response, s'⟩
  · exact iff_of_false (by rintro ⟨_, ⟨⟩, -⟩) (by rintro ⟨_, _, ⟨⟩, -⟩)
  · constructor
    · rintro ⟨body, hbody, hfaithful⟩
      cases hbody
      exact ⟨response, s', rfl, hfaithful⟩
    · rintro ⟨_, _, ⟨⟩, hfaithful⟩
      exact ⟨_, rfl, hfaithful⟩

/-- What a worker makes of an answer is what the job's tenant then collects, and it says all
that the provider's choices say. -/
def CollectsFaithfully (config : GatewayConfig) (routed : RouteOutcome) (result : ProviderResult)
    (deadline : ℤ) (job : Job) (o : Outside) (db : Redis.Db) : Prop :=
  ∃ db', (Worker.conclude config job routed).run o.answers db = (.ok (), db') ∧
    ∀ (o' : Outside) (metadata : RequestMetadata), o'.now ≤ deadline →
      metadata.tenant = job.metadata.tenant →
      ∃ seen body, ((getJob job.id metadata).run o'.answers db').1 = .ok seen ∧
        seen.get? "response" = some body ∧ Faithful result body

theorem run_getJob {deadline : ℤ} {job : Job} {db : Redis.Db} {o : Outside}
    (h : Stored deadline job db) (ho : o.now ≤ deadline) (metadata : RequestMetadata)
    (htenant : metadata.tenant = job.metadata.tenant) :
    (getJob job.id metadata).run o.answers db = (.ok job.public, db) := by
  rw [getJob, run_bind_ok _ (h.run_get ho)]
  simp only [htenant, ne_eq, not_true_eq_false, if_false]
  rfl

theorem conclude_served (config : GatewayConfig) (job : Job) (hrouted : routed.result = some result)
    (hok : result.outcome.isOk = true) : Worker.conclude config job routed = (do
      let body ← toOpenaiResponse result job.metadata routed.attempts
      complete job body.asJson
      Worker.observeAge job .done) := by
  simp only [Worker.conclude, hrouted, hok, if_true]

section Queued

variable {config : GatewayConfig} {deadline : ℤ} {job : Job} {o : Outside} {db : Redis.Db}

theorem run_conclude (config : GatewayConfig) (hrouted : routed.result = some result)
    (hok : result.outcome.isOk = true)
    (hstored : Stored deadline job db) (ho : o.now ≤ deadline) {response : ChatCompletionResponse}
    {s' : Redis.Db} (hrun : (toOpenaiResponse result job.metadata routed.attempts).run o.answers db =
      (.ok response, s')) :
    ∃ db', (Worker.conclude config job routed).run o.answers db = (.ok (), db') ∧
      Stored deadline ((Ending.complete response.asJson).apply job o.now job) db' := by
  obtain rfl := toOpenaiResponse_store hrun
  obtain ⟨db₁, hcomplete, h₁⟩ := hstored.finish ho rfl (.complete response.asJson)
  refine ⟨db₁, ?_, h₁⟩
  rw [conclude_served config job hrouted hok, run_bind_ok _ hrun]
  exact run_bind_ok _ hcomplete

theorem collects_faithfully_iff (hrouted : routed.result = some result)
    (hok : result.outcome.isOk = true) (hstored : Stored deadline job db) (ho : o.now ≤ deadline) :
    CollectsFaithfully config routed result deadline job o db ↔ TextOnly result := by
  rw [← toOpenaiResponse_faithful_iff result job.metadata routed.attempts o.answers db]
  constructor
  · rintro ⟨db', hrun, hcollects⟩
    rcases hresponse : (toOpenaiResponse result job.metadata routed.attempts).run o.answers db with
      ⟨e | response, s'⟩
    · rw [conclude_served config job hrouted hok, run_bind_error _ hresponse] at hrun
      cases hrun
    · obtain ⟨db₁, hrun₁, h₁⟩ := run_conclude config hrouted hok hstored ho hresponse
      rw [hrun₁] at hrun
      cases hrun
      obtain ⟨seen, body, hseen, hbody, hfaithful⟩ := hcollects o job.metadata ho rfl
      have hget := run_getJob h₁ ho job.metadata rfl
      rw [Ending.apply_id] at hget
      rw [hget] at hseen
      cases hseen
      cases hbody
      exact ⟨response, s', rfl, hfaithful⟩
  · rintro ⟨response, s', hresponse, hfaithful⟩
    obtain ⟨db₁, hrun₁, h₁⟩ := run_conclude config hrouted hok hstored ho hresponse
    refine ⟨db₁, hrun₁, fun o' metadata ho' htenant ↦ ?_⟩
    have hget := run_getJob h₁ ho' metadata htenant
    rw [Ending.apply_id] at hget
    exact ⟨_, _, by rw [hget], rfl, hfaithful⟩

end Queued

/-- What a caller gets, and what the tenant of a queued job collects, says all that the
provider's choices say exactly where these are text only. -/
theorem translation_faithful_iff (hrouted : routed.result = some result)
    (hok : result.outcome.isOk = true) :
    (∀ (r : ChatRequest) {σ : Type} (h : Handler Cmd Reply σ) (s : σ),
      (∃ body, ((answer r routed).run h s).1 = .ok (200, body) ∧ Faithful result body) ↔
        TextOnly result) ∧
    ∀ (config : GatewayConfig) {deadline : ℤ} {job : Job} {o : Outside} {db : Redis.Db},
      Stored deadline job db → o.now ≤ deadline →
        (CollectsFaithfully config routed result deadline job o db ↔ TextOnly result) :=
  ⟨fun r _ h s ↦ answer_faithful_iff r hrouted hok h s,
    fun _ _ _ _ _ hstored ho ↦ collects_faithfully_iff hrouted hok hstored ho⟩

/-- An answer with these messages, each a choice of its own. -/
def answerOf (messages : List Json) : ProviderResult where
  provider := "groq"
  model := "groq/openai/gpt-oss-120b"
  outcome := .ok
  latencyMs := 100
  promptTokens := 3
  completionTokens := 4
  response := some (.obj [("choices", .arr (messages.map (fun m ↦
    .obj [("message", m), ("finish_reason", .str "stop")])))])

/-- A message that calls a tool and says nothing. -/
def toolMessage : Json :=
  .obj [("role", .str "assistant"), ("content", .null), ("tool_calls", .arr [
    .obj [("id", .str "call_1"), ("type", .str "function")]])]

def caller : ChatRequest where
  body := .ofText "hello"
  metadata := ⟨"acme", "chat", "r1", "interactive.chat"⟩

/-- The caller gets a 200, and no tool call. -/
theorem toolCalls_lost :
    ((answer caller ⟨some (answerOf [toolMessage]), []⟩).run (Outside.answers { now := 0 })
        (fun _ ↦ none)).1.isOk = true ∧
      ¬ ∃ body, ((answer caller ⟨some (answerOf [toolMessage]), []⟩).run
        (Outside.answers { now := 0 }) (fun _ ↦ none)).1 = .ok (200, body) ∧
          Faithful (answerOf [toolMessage]) body := by
  refine ⟨by decide +kernel, fun h ↦ ?_⟩
  have htext := (answer_faithful_iff caller rfl rfl _ _).mp h
  have hplain := htext.plain _ (List.mem_singleton_self _) toolMessage rfl "tool_calls" _ (by decide)
    (by decide) rfl
  cases hplain

def textMessage (text : String) : Json :=
  .obj [("role", .str "assistant"), ("content", .str text)]

theorem plain_textMessage (text : String) : Plain (textMessage text) := by
  intro name value hname hname' hvalue
  have hrole : (name == "role") = false := beq_false_of_ne hname
  have hcontent : (name == "content") = false := beq_false_of_ne hname'
  simp [textMessage, Json.get?, List.lookup_cons, hrole, hcontent] at hvalue

theorem textOnly_answerOf : TextOnly (answerOf [textMessage "one", textMessage "two"]) := by
  refine ⟨by decide +kernel, fun c hc m hm ↦ ?_⟩
  rcases List.mem_cons.mp hc with rfl | hc
  · cases hm
    exact plain_textMessage _
  · obtain rfl := List.mem_singleton.mp hc
    cases hm
    exact plain_textMessage _

theorem translation_faithful_iff_twoChoices :
    ∃ body, ((answer caller ⟨some (answerOf [textMessage "one", textMessage "two"]), []⟩).run
      (Outside.answers { now := 0 }) (fun _ ↦ none)).1 = .ok (200, body) ∧
        Faithful (answerOf [textMessage "one", textMessage "two"]) body :=
  ((translation_faithful_iff rfl rfl).1 caller _ _).mpr textOnly_answerOf

end HealingGateway.Main
