import HealingGateway.JobExclusivity
import HealingGateway.Keyspace

namespace HealingGateway.Service

open Programs Programs.Prog JsonText

def unwatched : Protocol Cmd Reply Unit where
  watch := fun _ _ _ _ ↦ ()

abbrev Traffic (ι : Type) := Pool ι Cmd Reply Exn (Option Main.Response) Unit Redis.Db

abbrev Deed (ι : Type) := Act ι (Outside × Fate) Cmd Reply

section Runs

variable (env : Environ) (config : GatewayConfig) (encoders : Main.Encoders) {ι : Type}
  (tasks : ι → Task)

def outset : Traffic ι :=
  ⟨fun i ↦ (tasks i).body env config encoders, fun _ ↦ (), fun _ ↦ none⟩

def meets (o : Outside × Fate) : Handler Cmd Reply Redis.Db := o.1.meets o.2

theorem within_outset (i : ι) :
    Within ((tasks i).warrant env config) ((outset env config encoders tasks).rest i) :=
  (tasks i).within_body env config encoders

variable [DecidableEq ι] (turns : List (ι × (Outside × Fate)))

/-- Tasks taking turns, one command at a time. -/
def after : Traffic ι := (outset env config encoders tasks).run unwatched meets turns

def deeds : List (Deed ι) := (outset env config encoders tasks).acts unwatched meets turns

theorem within_deeds :
    ∀ a ∈ deeds env config encoders tasks turns, Issues ((tasks a.thread).warrant env config) a.cmd :=
  Pool.only_acts (within_outset env config encoders tasks) turns

variable {env config encoders tasks turns}

/-- A deed is answered by what the turns before it have left. -/
theorem exists_after {before later : List (Deed ι)} {a : Deed ι}
    (h : deeds env config encoders tasks turns = before ++ a :: later) :
    ∃ turns₁ turns₂, turns = turns₁ ++ turns₂ ∧ deeds env config encoders tasks turns₁ = before ∧
      a.reply = (meets a.outside a.cmd (after env config encoders tasks turns₁).store).1 := by
  obtain ⟨turns₁, turn, turns₂, rfl, hbefore, -⟩ := Pool.exists_turn_of_acts h
  refine ⟨turns₁, turn :: turns₂, rfl, hbefore, ?_⟩
  rw [Pool.reply_of_acts h, ← hbefore, after, Pool.store_run_eq]

end Runs

section Stores

variable {env : Environ} {config : GatewayConfig} {encoders : Main.Encoders} {ι : Type} [DecidableEq ι]
  {tasks : ι → Task} {w : Warrant} {db : Redis.Db} {o : Outside × Fate}

theorem conforms_answers (h : Conforms db) {c : Cmd} (hc : Issues w c) (o : Outside) :
    Conforms (o.answers c db).2 := by
  cases hc with
  | store hstores => exact (h.exec hstores o.now).1
  | @inward c hc => cases c <;> first | exact h | cases hc
  | dispatch | observe | respond | count => exact h

theorem conforms_meets (h : Conforms db) {c : Cmd} (hc : Issues w c) (o : Outside × Fate) :
    Conforms (meets o c db).2 := by
  rcases o.1.meets_store o.2 c db with hs | hs
  · rwa [Service.meets, hs]
  · rw [Service.meets, hs]
    exact conforms_answers h hc o.1

theorem conforms_store (turns : List (ι × (Outside × Fate))) :
    Conforms (after env config encoders tasks turns).store :=
  Pool.store_run (within_outset env config encoders tasks) Conforms.empty
    (fun turn _ _ hc h ↦ conforms_meets h hc turn.2) turns

theorem Task.lasting (httl : 0 < config.queue.idempotencyTtlS) {task : Task} {key value : String}
    {nx : Bool} {ex : ℤ} (h : Stores (task.warrant env config) (.set key value nx ex)) : 0 < ex := by
  have hslot : ∀ {l}, (task.warrant env config).slots l ex → 0 < ex := by
    intro l hl
    cases task with
    | lifespan | worker => cases hl
    | request r =>
      obtain ⟨route, headers⟩ := r
      cases route <;> first | exact hl.elim | exact hl.1 ▸ httl
  have hfault : ∀ {spec}, (task.warrant env config).injects spec ex → 0 < ex := by
    intro spec hspec
    cases task with
    | lifespan | worker => cases hspec
    | request r =>
      obtain ⟨route, headers⟩ := r
      cases route with
      | chaosSet request => exact hspec.2.2.1 ▸ request.ttlS_bounds.1
      | _ => exact hspec.elim
  cases h with
  | inject hspec => exact hfault hspec
  | claimSlot hl => exact hslot hl
  | settleSlot hl => exact hslot hl

/-- Whatever tasks run, and however their commands interleave, fail or go unheard, nothing is ever
stored but what may be there, and no command the store answers is answered with an error. -/
theorem store_sound (httl : 0 < config.queue.idempotencyTtlS) (turns : List (ι × (Outside × Fate))) :
    Conforms (after env config encoders tasks turns).store ∧
      ∀ i o g c (r : Reply (.redis c)), (⟨i, o, g, .redis c, r⟩ : Deed ι) ∈
        deeds env config encoders tasks turns → o.2 = .answered → r.isOk = true := by
  refine ⟨conforms_store turns, ?_⟩
  rintro i ⟨o, fate⟩ g c r hmem ⟨⟩
  obtain ⟨before, later, hsplit⟩ := List.append_of_mem hmem
  obtain ⟨turns₁, turns₂, -, -, hreply⟩ := exists_after hsplit
  cases within_deeds env config encoders tasks turns _ hmem with
  | inward hinward => cases hinward
  | store hstores =>
    have hlasting : ∀ key value nx ex, c = .set key value nx ex → 0 < ex := by
      rintro key value nx ex rfl
      exact (tasks i).lasting httl hstores
    have hconforms : Conforms (after env config encoders tasks turns₁).store := conforms_store turns₁
    have hok := (hconforms.exec hstores o.now).2 hlasting
    simp only [meets, Outside.meets, Outside.answers] at hreply
    rw [hreply]
    cases hr : (Redis.exec o.now c (after env config encoders tasks turns₁).store).1 with
    | ok r => rfl
    | error e =>
      rw [hr] at hok
      cases hok

def callerHeaders (requestClass : String) : Main.Headers where
  xTenantId := some "acme"
  xFeature := some "support-bot"
  xRequestId := some "r-1"
  xRequestClass := some requestClass

def reply : Json :=
  .obj [("choices", .arr [.obj [("message", .obj [("role", .str "assistant"), ("content", .str "Hi.")])]])]

/-- Who acts in the examples: the API's process at its start, a worker, a caller. -/
inductive Party
  | api
  | worker
  | caller
  deriving DecidableEq

/-- The API's process and the worker's start, and a job is accepted. -/
def morning : Party → Task
  | .api => .lifespan
  | .worker => .worker [⟨0, [], 0⟩]
  | .caller => .request ⟨.chat ⟨0, [], 0⟩ (.ofText "hello") none, callerHeaders "batch.generate"⟩

def disconnected : Exn :=
  .raised ["ConnectionError", "RedisError", "Exception", "BaseException"] "Connection lost"

/-- The store hears a command and its answer is lost, and then it refuses another. -/
def morningTurns : List (Party × (Outside × Fate)) :=
  [(.api, { now := 0 }, .answered), (.caller, { now := 1 }, .answered),
    (.caller, { now := 2 }, .unheard disconnected), (.worker, { now := 3 }, .answered),
    (.worker, { now := 4 }, .refused disconnected), (.api, { now := 5 }, .answered)]

def morningDeeds : List (Deed Party) := deeds (fun _ ↦ none) .shipped {} morning morningTurns

def heard (a : Deed Party) : Bool :=
  match a.outside.2, a.cmd with
  | .answered, .redis _ => true
  | _, _ => false

theorem heard_morning : morningDeeds.any heard = true := by decide +kernel

theorem store_sound_morning :
    Conforms (after (fun _ ↦ none) .shipped {} morning morningTurns).store ∧
      ∃ i o g c, ∃ r : Reply (.redis c), (⟨i, o, g, .redis c, r⟩ : Deed Party) ∈ morningDeeds ∧
        o.2 = .answered ∧ r.isOk = true := by
  obtain ⟨hconforms, hanswers⟩ :=
    store_sound (show 0 < GatewayConfig.shipped.queue.idempotencyTtlS by decide) morningTurns
  refine ⟨hconforms, ?_⟩
  obtain ⟨⟨i, o, g, c, r⟩, hmem, hheard⟩ := List.any_eq_true.mp heard_morning
  unfold heard at hheard
  split at hheard
  · next hfate hcmd =>
    obtain rfl := hcmd
    exact ⟨i, o, g, _, r, hmem, hfate, hanswers i o g _ r hmem hfate⟩
  · cases hheard

end Stores

end HealingGateway.Service
