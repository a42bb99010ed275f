import HealingGateway.Availability

namespace HealingGateway.Service

open Programs Programs.Prog Collectors Metrics

variable {env : Environ} {config : GatewayConfig} {encoders : Main.Encoders} {ι : Type} [DecidableEq ι]
  {tasks : ι → Task} {turns : List (ι × (Outside × Fate))}

/-- The tenant on whose behalf a task calls providers. -/
def Task.tenant? (config : GatewayConfig) : Task → Option String
  | .request ⟨.chat .., headers⟩ =>
    match headers.metadata config with
    | .ok m => some m.tenant
    | .error _ => none
  | _ => none

/-- What a call that was served cost. -/
def charge (e : Event Cmd Reply) : ℚ :=
  match e.cmd with
  | .metric (.observe result _) => if result.outcome.isOk then result.costUsd.toRat else 0
  | _ => 0

theorem tenant_of_observes {task : Task} (h : task.process = .api) {m : RequestMetadata}
    (hm : (task.warrant env config).observes m) : task.tenant? config = some m.tenant := by
  cases task with
  | worker => cases h
  | lifespan => cases hm
  | request q =>
    obtain ⟨route, headers⟩ := q
    cases route with
    | chat schedule body provider =>
      have hmetadata : headers.metadata config = .ok m := hm
      rw [Task.tenant?, hmetadata]
    | _ => cases hm

def owed (config : GatewayConfig) (tenant : String) (task : Task) (e : Event Cmd Reply) : ℚ :=
  if task.tenant? config = some tenant then charge e else 0

theorem sum_owed (tenant : String) (task : Task) (events : List (Event Cmd Reply)) :
    (events.map (owed config tenant task)).sum =
      if task.tenant? config = some tenant then (events.map charge).sum else 0 := by
  by_cases htenant : task.tenant? config = some tenant
  · have howed : owed config tenant task = charge := funext (fun e ↦ if_pos htenant)
    rw [howed, if_pos htenant]
  · have howed : owed config tenant task = fun _ ↦ 0 := funext (fun e ↦ if_neg htenant)
    simp [howed, htenant]

theorem sum_filterMap {α β M : Type} [AddCommMonoid M] (f : α → Option β) (weight : β → M) (xs : List α) :
    ((xs.filterMap f).map weight).sum = (xs.map (fun x ↦ ((f x).map weight).getD 0)).sum := by
  induction xs with
  | nil => rfl
  | cons x xs ih =>
    rw [List.map_cons, List.sum_cons, ← ih, List.filterMap_cons]
    cases hx : f x <;> simp

theorem cost_of_deed (tenant : String) {a : Deed ι} (ha : a ∈ deeds env config encoders tasks turns) :
    ((((if (tasks a.thread).process = .api then update? a.cmd else none).bind call?).map
        (fun c ↦ if c.served && c.2.tenant == tenant then c.1.costUsd.toRat else 0)).getD 0) =
      owed config tenant (tasks a.thread) a.event := by
  have hissues := within_deeds env config encoders tasks turns a ha
  by_cases hprocess : (tasks a.thread).process = .api
  · obtain ⟨i, o, g, c, r⟩ := a
    rw [if_pos hprocess]
    cases hissues with
    | @observe result m h =>
      rw [owed, tenant_of_observes hprocess h]
      by_cases htenant : m.tenant = tenant <;> simp [htenant, update?, call?, charge, Call.served, Act.event]
    | @inward c h => cases c <;> first | (cases h; done) | simp [update?, owed, charge, Act.event]
    | @count m h => cases m <;> first | (cases h; done) | simp [update?, call?, owed, charge, Act.event]
    | store | respond | dispatch => simp [update?, call?, owed, charge, Act.event]
  · have hnone : (tasks a.thread).tenant? config = none := by
      cases htask : tasks a.thread with
      | worker => rfl
      | _ => exact absurd (by rw [htask]; rfl) hprocess
    simp [hprocess, owed, hnone]

theorem cost_of_tenant [Fintype ι] {reg : Registry}
    (h : registry (updates tasks .api (deeds env config encoders tasks turns)) = some reg) (tenant : String) :
    total (·.1 == tenant) id reg.cost =
      ∑ i with (tasks i).tenant? config = some tenant,
        ((Pool.share i (deeds env config encoders tasks turns)).map charge).sum := by
  have hdeeds : total (·.1 == tenant) id reg.cost =
      ((deeds env config encoders tasks turns).map (fun a ↦ owed config tenant (tasks a.thread) a.event)).sum := by
    rw [(reconciles_registry h).cost, ← sum_ite, calls, updates, List.filterMap_filterMap, sum_filterMap,
      List.map_congr_left (fun a ha ↦ cost_of_deed tenant ha)]
  rw [hdeeds, Pool.sum_acts (fun i ↦ owed config tenant (tasks i)), Finset.sum_filter]
  exact Finset.sum_congr rfl (fun i _ ↦ sum_owed tenant (tasks i) _)

/-- However the tasks of a process interleave, its collectors take in every recorded call once, agree
with one another, and bill every tenant of the API for the calls made for its requests. -/
theorem collectors_reconcile [Fintype ι] (process : Process)
    (hbillable : ∀ call ∈ calls (updates tasks process (deeds env config encoders tasks turns)), call.1.Billable) :
    ∃ reg, registry (updates tasks process (deeds env config encoders tasks turns)) = some reg ∧
      Reconciles (calls (updates tasks process (deeds env config encoders tasks turns))) reg ∧
      (process = .api → ∀ tenant, total (·.1 == tenant) id reg.cost =
        ∑ i with (tasks i).tenant? config = some tenant,
          ((Pool.share i (deeds env config encoders tasks turns)).map charge).sum) := by
  obtain ⟨reg, hreg⟩ := exists_registry hbillable
  refine ⟨reg, hreg, reconciles_registry hreg, ?_⟩
  rintro rfl tenant
  exact cost_of_tenant hreg tenant

def tuesday : Bool → Task
  | true => .request ⟨.chat ⟨0, [], 0⟩ (.ofText "hello") none, callerHeaders "interactive.chat"⟩
  | false => .request ⟨.chat ⟨0, [], 0⟩ (.ofText "hello") none,
      { callerHeaders "interactive.chat" with xTenantId := some "globex" }⟩

def tuesdayTurns : List (Bool × (Outside × Fate)) :=
  (List.range 80).map (fun n ↦ (n % 2 == 0, { now := n, completion := fun _ ↦ .ok reply }, .answered))

theorem collectors_reconcile_tuesday :
    ∃ reg, registry (updates tuesday .api (deeds (fun _ ↦ some "key") .shipped {} tuesday tuesdayTurns)) =
      some reg ∧ total (·.1 == "acme") id reg.cost =
        ((Pool.share true (deeds (fun _ ↦ some "key") .shipped {} tuesday tuesdayTurns)).map charge).sum := by
  have hbillable : ∀ call ∈ calls (updates tuesday .api
      (deeds (fun _ ↦ some "key") .shipped {} tuesday tuesdayTurns)), call.1.Billable := by decide +kernel
  obtain ⟨reg, hreg, -, hcost⟩ := collectors_reconcile .api hbillable
  refine ⟨reg, hreg, ?_⟩
  have hacme : Finset.univ.filter (fun i ↦ (tuesday i).tenant? .shipped = some "acme") = {true} := by
    decide +kernel
  rw [hcost rfl, hacme, Finset.sum_singleton]

end HealingGateway.Service
