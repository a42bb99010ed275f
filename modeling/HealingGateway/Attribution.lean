import HealingGateway.Rounds

namespace HealingGateway.Service

open Programs Programs.Prog Queue

section Attribution

variable {env : Environ} {config : GatewayConfig} {encoders : Main.Encoders} {ι : Type} [DecidableEq ι]
  {tasks : ι → Task} {turns : List (ι × (Outside × Fate))}

/-- The completion a task asks for. -/
inductive Task.Asks (config : GatewayConfig) : Task → Main.ChatRequest → Prop
  | intro (schedule : Router.RaceSchedule) (body : Schemas.ChatCompletionRequest) (provider : Option String)
      (headers : Main.Headers) {m : RequestMetadata} (hm : headers.metadata config = .ok m) :
      Asks config (.request ⟨.chat schedule body provider, headers⟩)
        { body, metadata := m, idempotencyKey := headers.idempotencyKey, provider }

/-- A job is a request that some task asked for and the gateway deferred. -/
structure Deferred (config : GatewayConfig) (task : Task) (c : Main.ChatRequest) (x : Acceptance) : Prop where
  asks : task.Asks config c
  defers : Main.defers config c = .ok true
  metadata : x.metadata = c.metadata
  payload : x.payload = c.body.toProviderKwargs

theorem deferred_of_accepts {a : Deed ι} (ha : a ∈ deeds env config encoders tasks turns) {x : Acceptance}
    (hx : accepts a x) : ∃ c, Deferred config (tasks a.thread) c x := by
  obtain ⟨config', hcmd⟩ := hx
  have hissues := within_deeds env config encoders tasks turns a ha
  rw [hcmd] at hissues
  generalize hc : Redis.Command.pipeline (enqueueWrites config' x.id x.metadata x.payload x.now) = c at hissues
  cases hissues with
  | inward h => subst hc; cases h
  | store h =>
    cases h with
    | @acceptJob config'' id m payload h now =>
      have hrecord : x.record = (Acceptance.mk id m payload now).record := by
        simp only [enqueueWrites, Redis.Command.pipeline.injEq, List.cons.injEq, Redis.Write.hset.injEq] at hc
        exact hc.1.2
      obtain rfl := Acceptance.record_injective hrecord
      generalize htask : tasks a.thread = task at h
      cases task with
      | lifespan | worker => cases h
      | request q =>
        obtain ⟨route, headers⟩ := q
        cases route with
        | chat schedule body provider =>
          obtain ⟨hm, hpayload, hdefers⟩ := h
          exact ⟨_, .intro schedule body provider headers hm, hdefers, rfl, hpayload⟩
        | _ => cases h
    | noteCall => simp [enqueueWrites, Health.recordWrites] at hc
    | _ => cases hc

theorem accepted_of_read {before later : List (Deed ι)} {i : ι} {o : Outside × Fate} {g : Bool} {id : String}
    {raw : List (String × String)} {job : Job} (h : deeds env config encoders tasks turns =
      before ++ ⟨i, o, g, .redis (.hgetall (key id)), .ok raw⟩ :: later) (hjob : jobOf raw = .ok (some job)) :
    ∃ a ∈ before, ∃ x c, accepts a x ∧ x.id = id ∧ x.Became job ∧ Deferred config (tasks a.thread) c x := by
  obtain hnone | ⟨a, ha, x, hx, rfl, hfixed⟩ := traced_read h
  · have hid := (readJob_fixed (readJob_of_jobOf hjob)).1
    rw [hnone "id" (by decide)] at hid
    cases hid
  · have hall : a ∈ deeds env config encoders tasks turns := by simp [h, ha]
    obtain ⟨c, hc⟩ := deferred_of_accepts hall hx
    exact ⟨a, ha, x, c, hx, rfl, Acceptance.became hfixed hjob, hc⟩

theorem accepted_of_reads {before later : List (Deed ι)} {allowed : Seen → Cmd → Prop} {i : ι}
    {id : String} {job : Job} (h : deeds env config encoders tasks turns = before ++ later)
    (hreads : Reads ((remembering allowed).after [] (Pool.share i before)) id job) :
    ∃ a ∈ before, ∃ x c, accepts a x ∧ x.id = id ∧ x.Became job ∧ Deferred config (tasks a.thread) c x := by
  obtain ⟨raw, hmem, hjob⟩ := hreads
  obtain ⟨o, g, hdeed⟩ := Pool.mem_after_remembering hmem
  obtain ⟨before', between, rfl⟩ := List.append_of_mem hdeed
  rw [List.append_assoc, List.cons_append] at h
  obtain ⟨a, ha, haccepted⟩ := accepted_of_read h hjob
  exact ⟨a, List.mem_append_left _ ha, haccepted⟩

theorem provider_of_defers {c : Main.ChatRequest} (h : Main.defers config c = .ok true) : c.provider = none := by
  unfold Main.defers at h
  split at h
  · cases h
  · assumption

theorem resolveLadder_of_became {task : Task} {c : Main.ChatRequest} {x : Acceptance} {job : Job}
    (hc : Deferred config task c x) (hjob : x.Became job) {name : String}
    (hname : name ∈ Worker.ladder env config job) :
    Main.resolveLadder env config c.metadata.requestClass c.provider = .ok (Worker.ladder env config job) := by
  rw [Worker.ladder, hjob.metadata, hc.metadata] at hname ⊢
  rw [Main.resolveLadder, provider_of_defers hc.defers]
  cases hladder : config.ladderFor env c.metadata.requestClass with
  | nil => simp [hladder] at hname
  | cons => rfl

end Attribution

end HealingGateway.Service
