import HealingGateway.JobRecords
import HealingGateway.Outside
import HealingGateway.Providers
import HealingGateway.Schemas

namespace HealingGateway.Providers

open Programs Programs.Prog Numerals JsonText Schemas

def ownedNames : List String := ["model", "timeout", "api_key", "api_base"]

def sent (events : List (Event Cmd Reply)) : List (List (String × Json)) :=
  events.filterMap (fun e ↦
    match e.cmd with
    | .acompletion kwargs => some kwargs
    | _ => none)

/-- Whatever the world answers and whatever fault is injected, two payloads are sent to a
provider with the same owned arguments. -/
def SameOwned (env : Environ) (name : String) (p : ProviderConfig)
    (payload payload' : List (String × Json)) : Prop :=
  ∀ (σ : Type) (h h' : Handler Cmd Reply σ) (s s' : σ) (chaos chaos' : Option Chaos.ChaosSpec),
    ∀ kwargs ∈ sent ((callProvider env name p payload chaos).trace h s),
    ∀ kwargs' ∈ sent ((callProvider env name p payload' chaos').trace h' s'),
    ∀ n ∈ ownedNames, kwargs.lookup n = kwargs'.lookup n

/-- How a request's payload reaches a provider: on the synchronous path, or from the job it
was queued as. -/
inductive Carries (r : ChatCompletionRequest) : List (String × Json) → Prop
  | sync : Carries r r.toProviderKwargs
  | replayed {raw : List (String × String)} {job : Queue.Job} :
      Queue.Recorded r.toProviderKwargs raw → Queue.readJob raw = .ok job → Carries r job.payload

def given (r : ChatCompletionRequest) (name : String) : Option Json := r.extra.present.lookup name

variable {env : Environ} {name : String} {p : ProviderConfig}

theorem Carries.payload_eq {r : ChatCompletionRequest} {payload : List (String × Json)}
    (h : Carries r payload) : payload = r.toProviderKwargs := by
  cases h with
  | sync => rfl
  | replayed hrec hjob => exact hrec.payload_eq hjob

theorem eq_kwargs_of_sent {σ : Type} {h : Handler Cmd Reply σ} {s : σ}
    {payload k : List (String × Json)} {chaos : Option Chaos.ChaosSpec}
    (hk : k ∈ sent ((callProvider env name p payload chaos).trace h s)) :
    k = kwargs env p payload := by
  obtain ⟨e, he, hcmd⟩ := List.mem_filterMap.mp hk
  have honly : (callProvider env name p payload chaos).Only
      (fun c ↦ ∀ k, c = .acompletion k → k = kwargs env p payload) :=
    only_callProvider (by rintro c hc k rfl; cases hc) (by rintro k ⟨⟩; rfl) name chaos
  obtain ⟨g, cmd, reply⟩ := e
  have hallowed := honly.trace h s _ he
  cases cmd with
  | acompletion k' => exact Option.some.inj hcmd ▸ hallowed k' rfl
  | _ => cases hcmd

theorem kwargs_mem_sent {σ : Type} (h : Handler Cmd Reply σ) (s : σ)
    (payload : List (String × Json)) :
    kwargs env p payload ∈ sent ((callProvider env name p payload none).trace h s) := by
  obtain ⟨reply, reply', rest, htrace⟩ : ∃ reply reply' rest,
      (callProvider env name p payload none).trace h s =
        ⟨false, .perfCounter, reply⟩ :: ⟨true, .acompletion (kwargs env p payload), reply'⟩ ::
          rest := ⟨_, _, _, rfl⟩
  simp [htrace, sent]

section Kwargs

variable (payload : List (String × Json))

theorem ownKwargs_keys : ((ownKwargs env p).map Prod.fst).Nodup := by
  unfold ownKwargs
  cases (p.apiKey env).filter (· ≠ "") <;> cases (p.apiBase env).filter (· ≠ "") <;> simp

theorem lookup_model : (kwargs env p payload).lookup "model" = some (.str p.model) :=
  Dicts.lookup_merge_of_mem ownKwargs_keys (by simp [ownKwargs]) payload

theorem lookup_timeout : (kwargs env p payload).lookup "timeout" = some (.float p.timeoutS) :=
  Dicts.lookup_merge_of_mem ownKwargs_keys (by simp [ownKwargs]) payload

theorem lookup_apiKey : (kwargs env p payload).lookup "api_key" =
    if truthy (p.apiKey env) then (p.apiKey env).map Json.str else payload.lookup "api_key" := by
  cases hk : p.apiKey env with
  | none =>
    apply Dicts.lookup_merge_of_notMem
    simp [ownKwargs, hk]
  | some k =>
    by_cases he : k = ""
    · subst he
      apply Dicts.lookup_merge_of_notMem
      simp [ownKwargs, hk]
    · rw [if_pos (by simp [truthy, he])]
      exact Dicts.lookup_merge_of_mem ownKwargs_keys (by simp [ownKwargs, hk, he]) payload

theorem lookup_apiBase : (kwargs env p payload).lookup "api_base" =
    if truthy (p.apiBase env) then (p.apiBase env).map Json.str else payload.lookup "api_base" := by
  cases hb : p.apiBase env with
  | none =>
    apply Dicts.lookup_merge_of_notMem
    simp [ownKwargs, hb]
  | some b =>
    by_cases he : b = ""
    · subst he
      apply Dicts.lookup_merge_of_notMem
      simp [ownKwargs, hb]
    · rw [if_pos (by simp [truthy, he])]
      exact Dicts.lookup_merge_of_mem ownKwargs_keys (by simp [ownKwargs, hb, he]) payload

end Kwargs

theorem lookup_toProviderKwargs (r : ChatCompletionRequest) {n : String} (hn : n ≠ "messages") :
    r.toProviderKwargs.lookup n = given r n := by
  have hne : (n == "messages") = false := by simpa using hn
  simp [ChatCompletionRequest.toProviderKwargs, List.lookup_cons, hne, given]

/-- What two payloads are sent with, as a matter of the merged arguments alone. -/
theorem sameOwned_iff_kwargs {payload payload' : List (String × Json)} :
    SameOwned env name p payload payload' ↔
      ∀ n ∈ ownedNames, (kwargs env p payload).lookup n = (kwargs env p payload').lookup n := by
  constructor
  · intro h
    exact h Redis.Db (Outside.answers { now := 0 }) (Outside.answers { now := 0 })
      (fun _ ↦ none) (fun _ ↦ none) none none _ (kwargs_mem_sent _ _ _) _ (kwargs_mem_sent _ _ _)
  · intro h σ h₁ h₂ s₁ s₂ chaos chaos' k hk k' hk'
    rw [eq_kwargs_of_sent hk, eq_kwargs_of_sent hk']
    exact h

theorem lookup_if_eq_iff {c : Prop} [Decidable c] {own given given' : Option Json} :
    (if c then own else given) = (if c then own else given') ↔ c ∨ given = given' := by
  by_cases hc : c <;> simp [hc]

/-- The owned arguments of two requests agree exactly when each credential is the gateway's
own or the same in both bodies. -/
theorem sameOwned_iff (env : Environ) (name : String) (p : ProviderConfig)
    {r r' : ChatCompletionRequest} {payload payload' : List (String × Json)}
    (hr : Carries r payload) (hr' : Carries r' payload') :
    SameOwned env name p payload payload' ↔
      (truthy (p.apiKey env) ∨ given r "api_key" = given r' "api_key") ∧
        (truthy (p.apiBase env) ∨ given r "api_base" = given r' "api_base") := by
  rw [hr.payload_eq, hr'.payload_eq, sameOwned_iff_kwargs]
  simp only [ownedNames, List.forall_mem_cons, lookup_model, lookup_timeout, lookup_apiKey,
    lookup_apiBase, lookup_if_eq_iff, true_and, List.not_mem_nil, false_imp_iff, implies_true,
    and_true, lookup_toProviderKwargs _ (show "api_key" ≠ "messages" by decide),
    lookup_toProviderKwargs _ (show "api_base" ≠ "messages" by decide)]

def hello (extra : Extra ["model", "messages", "stream"]) : ChatCompletionRequest :=
  { ChatCompletionRequest.ofText "hi" with extra }

def groqKey : Environ := fun name ↦ if name = "GROQ_API_KEY" then some "gsk" else none

def groq : ProviderConfig where
  model := "groq/openai/gpt-oss-120b"
  apiKeyEnv := some "GROQ_API_KEY"
  latencyBudgetMs := ⟨50000, 0⟩

theorem sameOwned_iff_plain :
    SameOwned groqKey "groq" groq (hello {}).toProviderKwargs
      (hello { members := [("seed", .int 7)] }).toProviderKwargs :=
  (sameOwned_iff groqKey "groq" groq .sync .sync).mpr
    ⟨.inl (by decide), .inr (by simp [given, hello, Extra.present, isNull, List.lookup_cons])⟩

/-- The gateway's key is sent to a base the caller names. -/
theorem apiBase_not_sameOwned :
    GatewayConfig.shipped.providers.lookup "groq" = some groq ∧
      (kwargs groqKey groq (hello { members := [("api_base", .str "http://evil")] }
        ).toProviderKwargs).lookup "api_base" = some (.str "http://evil") ∧
      (kwargs groqKey groq (hello { members := [("api_base", .str "http://evil")] }
        ).toProviderKwargs).lookup "api_key" = some (.str "gsk") ∧
      ¬ SameOwned groqKey "groq" groq (hello {}).toProviderKwargs
        (hello { members := [("api_base", .str "http://evil")] }).toProviderKwargs := by
  refine ⟨rfl, rfl, rfl, fun h ↦ ?_⟩
  have hbase := sameOwned_iff_kwargs.mp h "api_base" (by decide)
  rw [lookup_apiBase, lookup_apiBase] at hbase
  cases hbase

end HealingGateway.Providers
