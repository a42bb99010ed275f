import HealingGateway.Footprint
import HealingGateway.Library.Tallies
import HealingGateway.Rungs
import HealingGateway.Window
import Mathlib.Algebra.Order.Group.Multiset

namespace HealingGateway.Router

open Programs Programs.Prog Numerals JsonText

/-- A record of a call: in Prometheus, in a window, or with a circuit. The look at a circuit with which
the last one starts shows no outcome. -/
inductive Entry
  | observed (result : ProviderResult)
  | window (key : String) (reading : Health.Reading)
  | circuit (key : String)

/-- The record a command makes, if any. A circuit is also looked at to admit a call, but then
nothing swallows its failure. -/
def entryOf? : Bool → (c : Cmd) → Reply c → Option Entry
  | _, .metric (.observe result _), _ => some (.observed result)
  | true, .redis (.pipeline (.zadd key member _ :: _)), .ok _ =>
    (Health.readingOf? member).map (.window key)
  | true, .redis (.hgetall key), .ok _ => some (.circuit key)
  | _, _, _ => none

def works : (c : Cmd) → Reply c → Bool
  | .redis _, r => r.isOk
  | _, _ => true

def ledgers : Tariff Cmd Reply (Multiset Entry) where
  possible := fun c r ↦ works c r = true
  cost := fun guarded c r ↦ Multiset.ofList (entryOf? guarded c r).toList

def windowEntry (result : ProviderResult) : Entry :=
  .window (Health.key result.provider) (result.outcome, roundTenth result.latencyMs)

/-- A call recorded everywhere that needs to know, once. -/
def recorded (result : ProviderResult) : Multiset Entry :=
  {Entry.observed result} + {windowEntry result} + {Entry.circuit (Breaker.key result.provider)}

/-- A call of a provider on its way through the records. -/
def Underway (provider : String) (account : Multiset Entry) : Prop :=
  account = 0 ∨ ∃ result, result.provider = provider ∧
    (account = {Entry.observed result} ∨
      account = {Entry.observed result} + {windowEntry result} ∨ account = recorded result)

def Closes (account : Multiset Entry) (ended : Except Exn ProviderResult) : Prop :=
  ∀ result, ended = .ok result → account = recorded result

/-- The account of two calls that raced: the winner is recorded, and so is the loser unless it
was cancelled. -/
def Settled.Spent (first second : String) (settled : Settled) (account : Multiset Entry) : Prop :=
  ∃ left, account = recorded settled.result + left ∧
    match settled.loser with
    | none => Underway (if settled.wonByHedge then first else second) left
    | some ended => Closes left ended

def Raced.Spent (first second : String) : Raced → Multiset Entry → Prop
  | alone result, account => account = recorded result
  | settled _ result (some loser), account => account = recorded result + recorded loser
  | settled won result none, account =>
    ∃ left, account = recorded result + left ∧ Underway (if won then first else second) left

theorem entryOf_unrecorded {c : Cmd} (h : c.records = false) (guarded : Bool) (r : Reply c) :
    entryOf? guarded c r = none := by
  unfold entryOf?
  split
  all_goals first | rfl | cases h

section Attempts

variable {env : Environ} {config : GatewayConfig} {metadata : RequestMetadata}
  {payload : List (String × Json)} {ladder : List String} {keeps : Multiset Entry → Prop}
  {account : Multiset Entry}

theorem watch_unrecorded (keeps : Multiset Entry → Prop) {c : Cmd} (h : c.records = false)
    (guarded : Bool) (r : Reply c) :
    (ledgers.tallying keeps).watch account guarded c r = account := by
  simp [Tariff.tallying_watch, ledgers, entryOf_unrecorded h]

theorem unrecorded {α : Type} {p : Gateway α} (hp : p.Only (fun c ↦ c.records = false))
    (hkeeps : keeps account) :
    p.Obeys (ledgers.tallying keeps) account (fun account' _ ↦ account' = account) :=
  hp.obeys_unseen (fun _ hc ↦ ⟨hkeeps, fun guarded r ↦ watch_unrecorded keeps hc guarded r⟩)

theorem unrecorded_guarded {α : Type} {p : Gateway α} (hp : p.Only (fun c ↦ c.records = false))
    (hkeeps : keeps account) :
    p.Obeys (ledgers.tallying keeps).guarded account (fun account' _ ↦ account' = account) :=
  hp.obeys_unseen (fun _ hc ↦ ⟨hkeeps, fun _ r ↦ watch_unrecorded keeps hc true r⟩)

theorem records_nowOr {α : Type} {f : ℤ → Gateway α} {Q : Multiset Entry → Except Exn α → Prop}
    (hkeeps : keeps account)
    (hf : ∀ now, (f now).Obeys (ledgers.tallying keeps).guarded account Q) :
    (nowOr none >>= f).Obeys (ledgers.tallying keeps).guarded account Q := by
  refine ⟨hkeeps, fun t _ ↦ ?_⟩
  have hwatch : (ledgers.tallying keeps).guarded.watch account false .time t = account :=
    watch_unrecorded keeps rfl true t
  rw [hwatch]
  exact hf _

theorem records_healthRecord (provider : String) (outcome : Outcome) (latencyMs : ℚ)
    (hkeeps : keeps account) :
    (Health.record config provider outcome latencyMs none none).Obeys (ledgers.tallying keeps).guarded
      account (fun account' ended ↦
        ended = .ok () ∧
          account' = account + {Entry.window (Health.key provider) (outcome, roundTenth latencyMs)}) := by
  refine records_nowOr hkeeps (fun now ↦ ⟨hkeeps, fun uuid _ ↦ ?_⟩)
  have hwatch : (ledgers.tallying keeps).guarded.watch account false .uuid4 uuid = account :=
    watch_unrecorded keeps rfl true uuid
  rw [hwatch]
  refine obeys_redis.mpr ⟨hkeeps, fun r hr ↦ ?_⟩
  cases r with
  | ok u =>
    have hreading : Health.readingOf? (Health.memberText now uuid.token outcome latencyMs) =
        some (outcome, roundTenth latencyMs) := Health.readingOf?_text ⟨now, uuid, outcome, latencyMs⟩
    refine ⟨rfl, ?_⟩
    simp [Tariff.tallying_watch, Protocol.guarded, ledgers, entryOf?, Health.recordWrites, hreading]
  | error e => cases hr

theorem records_stateOf (provider : String) (now : ℤ) (hkeeps : keeps account)
    (hcircuit : keeps (account + {Entry.circuit (Breaker.key provider)})) :
    (Breaker.stateOf config provider (some now)).Obeys (ledgers.tallying keeps).guarded account
      (fun account' _ ↦ account' = account + {Entry.circuit (Breaker.key provider)}) := by
  have hlook : (redis (.hgetall (Breaker.key provider))).Obeys (ledgers.tallying keeps).guarded account
      (fun account' r ↦ r.isOk = true ∧
        account' = account + {Entry.circuit (Breaker.key provider)}) := by
    refine obeys_redis.mpr ⟨hkeeps, fun r hr ↦ ⟨hr, ?_⟩⟩
    cases r with
    | ok raw => rfl
    | error e => cases hr
  refine hlook.bind (fun account' raw h ↦ ?_) (fun account' e h ↦ ?_)
  · rw [h.2]
    refine unrecorded_guarded ?_ hcircuit
    refine Only.bind (only_ofExcept _) (fun stored ↦ ?_)
    refine Only.bind ((only_applyCooldown suits_walks.looks now stored).mono (fun _ hc ↦ hc.2))
      (fun circuit ↦ ?_)
    exact Only.bind ((unrecorded_circuit suits_walks.looks _).mono (fun _ hc ↦ hc.2)) (fun _ ↦ trivial)
  · cases h.1

theorem records_breakerRecord (provider : String) (outcome : Outcome) (hkeeps : keeps account)
    (hcircuit : keeps (account + {Entry.circuit (Breaker.key provider)})) :
    (Breaker.record config provider outcome none).Obeys (ledgers.tallying keeps).guarded account
      (fun account' _ ↦ account' = account + {Entry.circuit (Breaker.key provider)}) := by
  refine records_nowOr hkeeps (fun now ↦ ?_)
  refine Obeys.bind (records_stateOf provider now hkeeps hcircuit) ?_ (fun _ _ h ↦ h)
  intro account' circuit h
  rw [h]
  exact unrecorded_guarded ((only_fold suits_walks.looks outcome circuit now).mono (fun _ hc ↦ hc.2)) hcircuit

theorem records_observe (result : ProviderResult) :
    (observe config result metadata).Obeys (ledgers.tallying (Underway result.provider)) 0
      (fun account' ended ↦ ended = .ok () → account' = recorded result) := by
  have hobserved : Underway result.provider {Entry.observed result} := .inr ⟨result, rfl, .inl rfl⟩
  have hwindow : Underway result.provider ({Entry.observed result} + {windowEntry result}) :=
    .inr ⟨result, rfl, .inr (.inl rfl)⟩
  have hcircuit : Underway result.provider (recorded result) := .inr ⟨result, rfl, .inr (.inr rfl)⟩
  refine ⟨.inl rfl, fun _ _ ↦ ?_⟩
  have hwatch : (ledgers.tallying (Underway result.provider)).watch 0 false
      (.metric (.observe result metadata)) () = {Entry.observed result} := zero_add _
  rw [hwatch]
  have hcounted : (ofExcept (counted result) : Gateway Unit).Obeys
      (ledgers.tallying (Underway result.provider)) {Entry.observed result}
      (fun account' _ ↦ account' = {Entry.observed result}) := obeys_ofExcept.mpr rfl
  refine hcounted.bind (fun account' _ h ↦ ?_) (fun _ _ _ h ↦ by cases h)
  rw [h]
  refine obeys_tryExcept.mpr (obeys_guarded.mpr ?_)
  have hrecords : (do
      Health.record config result.provider result.outcome result.latencyMs none none
      Breaker.record config result.provider result.outcome none).Obeys
        (ledgers.tallying (Underway result.provider)).guarded {Entry.observed result}
        (fun account' _ ↦ account' = recorded result) := by
    refine (records_healthRecord _ _ _ hobserved).bind (fun account' _ h ↦ ?_) (fun _ _ h ↦ ?_)
    · rw [h.2]
      exact records_breakerRecord _ _ hwindow hcircuit
    · cases h.1
  apply hrecords.mono
  intro account' ended h
  cases ended with
  | ok _ => exact fun _ ↦ h
  | error e =>
    simp only
    split
    · exact fun _ ↦ h
    · exact fun _ ↦ h

/-- A call that ends with a result is recorded everywhere once, and until then it is on its way
through the records. -/
theorem records_attempt (provider : String) :
    (attempt env config metadata payload provider).Obeys (ledgers.tallying (Underway provider)) 0
      Closes := by
  have hstart : Underway provider 0 := .inl rfl
  refine Obeys.bind (unrecorded (only_orRaise _ _) hstart) (fun account p h ↦ ?_) (fun _ _ _ _ h ↦ by cases h)
  rw [h]
  have hget : (Chaos.get provider).Only (fun c ↦ c.records = false) := by
    refine Only.bind (only_redis ?_) (fun _ ↦ only_ofExcept _)
    rfl
  refine Obeys.bind (unrecorded hget hstart) (fun account chaos h ↦ ?_) (fun _ _ _ _ h ↦ by cases h)
  rw [h]
  have hcall : (Providers.callProvider env provider p payload chaos).Only (fun c ↦ c.records = false) :=
    Providers.only_callProvider (fun _ hc ↦ Cmd.records_of_inward hc) rfl provider chaos
  have hname : (Providers.callProvider env provider p payload chaos).Returns
      (fun result ↦ result.provider = provider) := returns_callProvider provider
  refine ((unrecorded hcall hstart).returns hname).bind (fun account result h ↦ ?_)
    (fun _ _ _ _ h ↦ by cases h)
  obtain rfl := h.2 result rfl
  rw [h.1]
  refine (records_observe result).bind (fun account' _ h result' hresult ↦ ?_) (fun _ _ _ _ h ↦ by cases h)
  cases hresult
  exact h rfl

end Attempts

section Races

variable {env : Environ} {config : GatewayConfig} {metadata : RequestMetadata}
  {payload : List (String × Json)} {schedule : RaceSchedule} {first second : String}
  {account account' : Multiset Entry}

theorem spent_landedTogether {primary hedge : Except Exn ProviderResult} (hprimary : Closes account primary)
    (hhedge : Closes account' hedge) :
    ∀ settled, landedTogether primary hedge = .ok settled →
      settled.Spent first second (account + account') := by
  intro settled h
  obtain ⟨result, rfl, h⟩ := bind_eq_ok.mp h
  split at h
  · cases h
    exact ⟨account', by rw [hprimary result rfl], hhedge⟩
  · obtain ⟨result', rfl, h⟩ := bind_eq_ok.mp h
    cases h
    exact ⟨account, by rw [hhedge result' rfl, add_comm], hprimary⟩

theorem spent_landedFirst (firstIsHedge : Bool) {ended : Except Exn ProviderResult}
    {other : Gateway ProviderResult} (hended : Closes account ended)
    (hother : other.Obeys (ledgers.tallying (Underway (if firstIsHedge then first else second))) account'
      Closes) (hrunning : other.ended? = none) :
    (landedFirst firstIsHedge ended other).Obeys (ledgers.tallying fun _ ↦ True) (account + account')
      (fun total r ↦ ∀ settled, r = .ok settled → settled.Spent first second total) := by
  cases ended with
  | error e =>
    intro settled h
    cases h
  | ok result =>
    simp only [landedFirst, ofExcept_ok, done_bind]
    split
    · intro settled h
      cases h
      exact ⟨account', by rw [hended result rfl], hother.kept hrunning⟩
    · refine (hother.share account).bind (fun total result' h ↦ ?_) (fun _ _ _ _ h ↦ by cases h)
      obtain ⟨account', rfl, hresult'⟩ := h
      intro settled h
      cases h
      split
      · refine ⟨account, by rw [hresult' result' rfl, add_comm], fun l hl ↦ ?_⟩
        cases hl
        exact hended result rfl
      · refine ⟨account', by rw [hended result rfl], fun l hl ↦ ?_⟩
        cases hl
        exact hresult' result' rfl

theorem spent_firstUsable {primary hedge : Gateway ProviderResult}
    (hprimary : primary.Obeys (ledgers.tallying (Underway first)) account Closes)
    (hhedge : hedge.Obeys (ledgers.tallying (Underway second)) account' Closes) :
    (firstUsable schedule primary hedge).Obeys (ledgers.tallying fun _ ↦ True) (account + account')
      (fun total r ↦ ∀ settled, r = .ok settled → settled.Spent first second total) := by
  refine (hprimary.race hhedge schedule.turns).bind (fun total landing h ↦ ?_) (fun _ _ _ _ h ↦ by cases h)
  obtain ⟨_, hlanding, hspent⟩ := h
  cases hlanding
  cases landing with
  | left ended other =>
    obtain ⟨m, m', rfl, hended, hother⟩ := hspent
    refine (hother.advance m schedule.afterFirst).bind (fun total rest h ↦ ?_) (fun _ _ _ _ h ↦ by cases h)
    obtain ⟨_, m'', hrest, rfl, hrest'⟩ := h
    cases hrest
    split
    · next ended' hended' =>
      exact obeys_ofExcept.mpr (spent_landedTogether hended (hrest'.ended hended'))
    · next hrunning => exact spent_landedFirst false hended hrest' hrunning
  | right ended other =>
    obtain ⟨m, m', rfl, hended, hother⟩ := hspent
    rw [add_comm]
    refine (hother.advance m' schedule.afterFirst).bind (fun total rest h ↦ ?_) (fun _ _ _ _ h ↦ by cases h)
    obtain ⟨_, m'', hrest, rfl, hrest'⟩ := h
    cases hrest
    split
    · next ended' hended' =>
      rw [add_comm]
      exact obeys_ofExcept.mpr (spent_landedTogether (hrest'.ended hended') hended)
    · next hrunning => exact spent_landedFirst true hended hrest' hrunning

theorem spent_settled {settled : Settled} {total : Multiset Entry}
    (h : settled.Spent first second total) {loser : Option ProviderResult}
    (hloser : loserResult settled.loser = .ok loser) :
    (Raced.settled settled.wonByHedge settled.result loser).Spent first second total := by
  obtain ⟨left, htotal, hleft⟩ := h
  cases hs : settled.loser with
  | none =>
    rw [hs] at hloser hleft
    cases hloser
    exact ⟨left, htotal, hleft⟩
  | some ended =>
    rw [hs] at hloser hleft
    cases ended with
    | error e => cases hloser
    | ok l =>
      cases hloser
      rw [Raced.Spent, htotal, hleft l rfl]

/-- Two calls that race share an account, and each is recorded in it as if it were alone. -/
theorem spent_race :
    (race env config metadata payload schedule first second).Obeys (ledgers.tallying fun _ ↦ True) 0
      (fun total ended ↦ ∀ raced, ended = .ok raced → raced.Spent first second total) := by
  have hattempt : (attempt env config metadata payload first).Obeys (ledgers.tallying (Underway first)) 0
      Closes := records_attempt first
  have hadvance := hattempt.advance 0 schedule.beforeHedge
  rw [add_zero] at hadvance
  refine hadvance.bind (fun total primary h ↦ ?_) (fun _ _ _ _ h ↦ by cases h)
  obtain ⟨_, account, hprimary, rfl, hobeys⟩ := h
  cases hprimary
  rw [zero_add]
  split
  · next ended hended =>
    cases ended with
    | error e =>
      intro raced h
      cases h
    | ok result =>
      intro raced h
      cases h
      exact hobeys.ended hended result rfl
  · refine Obeys.bind (unrecorded (only_ask rfl) trivial) (fun total _ h ↦ ?_) (fun _ _ _ _ h ↦ by cases h)
    rw [h, ← add_zero account]
    refine (spent_firstUsable hobeys (records_attempt second)).bind (fun total settled hspent ↦ ?_)
      (fun _ _ _ _ h ↦ by cases h)
    refine Obeys.bind (unrecorded (only_ask rfl) trivial) (fun total' _ h ↦ ?_) (fun _ _ _ _ h ↦ by cases h)
    rw [h]
    cases hloser : loserResult settled.loser with
    | error e =>
      intro raced h
      cases h
    | ok loser =>
      intro raced h
      cases h
      exact spent_settled (hspent settled rfl) hloser

end Races

section Units

variable {env : Environ} {config : GatewayConfig} {metadata : RequestMetadata}
  {payload : List (String × Json)} {ladder : List String} {schedule : RaceSchedule}

theorem spent_allows (provider : String) :
    (Breaker.allows config provider none).Obeys (ledgers.tallying fun _ ↦ True) 0
      (fun total _ ↦ total = 0) := by
  have hnow : (nowOr none).Only (fun c ↦ c.records = false) := by
    apply only_nowOr
    rfl
  have hlook : (redis (.hgetall (Breaker.key provider))).Obeys (ledgers.tallying fun _ ↦ True) 0
      (fun total _ ↦ total = 0) := by
    refine obeys_redis.mpr ⟨trivial, fun raw _ ↦ ?_⟩
    cases raw <;> rfl
  have hstate : (Breaker.stateOf config provider none).Obeys (ledgers.tallying fun _ ↦ True) 0
      (fun total _ ↦ total = 0) := by
    refine Obeys.bind (unrecorded hnow trivial) (fun total now h ↦ ?_) (fun _ _ h ↦ h)
    rw [h]
    refine hlook.bind (fun total raw h ↦ ?_) (fun _ _ h ↦ h)
    rw [h]
    refine unrecorded ?_ trivial
    refine Only.bind (only_ofExcept _) (fun stored ↦ ?_)
    refine Only.bind ((only_applyCooldown suits_walks.looks now stored).mono (fun _ hc ↦ hc.2)) (fun circuit ↦ ?_)
    exact Only.bind ((unrecorded_circuit suits_walks.looks _).mono (fun _ hc ↦ hc.2)) (fun _ ↦ trivial)
  refine hstate.bind (fun total circuit h ↦ ?_) (fun _ _ h ↦ h)
  rw [h]
  refine unrecorded ?_ trivial
  split
  · trivial
  · trivial
  · exact ⟨rfl, fun _ ↦ trivial⟩

def Owed : (m : Move) → Except Exn m.Answer → Multiset Entry → Prop
  | .attempt .., ended, account => Closes account ended
  | .race _ first _ second, ended, account => ∀ raced, ended = .ok raced → raced.Spent first second account
  | _, _, account => account = 0

theorem owed_unit {σ : Type} {h : Handler Cmd Reply σ} (m : Move) (s : σ)
    (hredis : ∀ e ∈ (unit env config metadata payload ladder schedule m).trace h s,
      works e.cmd e.reply = true) :
    Owed m ((unit env config metadata payload ladder schedule m).run h s).1
      (ledgers.total ((unit env config metadata payload ladder schedule m).trace h s)) := by
  have hrun : ∀ {α : Type} {p : Gateway α} {keeps : Multiset Entry → Prop}
      {Q : Multiset Entry → Except Exn α → Prop}, p.Obeys (ledgers.tallying keeps) 0 Q →
      (∀ e ∈ p.trace h s, works e.cmd e.reply = true) →
      Q (ledgers.total (p.trace h s)) (p.run h s).1 := by
    intro α p keeps Q hp hredis
    have hQ := hp.run_trace (fun e he _ ↦ hredis e he)
    rwa [Tariff.after_tallying, zero_add] at hQ
  cases m with
  | scan i provider => exact hrun (spent_allows provider) hredis
  | allows i provider => exact hrun (spent_allows provider) hredis
  | attempt i provider => exact hrun (records_attempt provider) hredis
  | race i first j second => exact hrun spent_race hredis
  | failover i provider result =>
    have hmetric : (countFailover provider ladder i metadata result).Only (fun c ↦ c.records = false) :=
      ⟨rfl, fun _ ↦ trivial⟩
    have hfailover : (countFailover provider ladder i metadata result).Obeys
        (ledgers.tallying fun _ ↦ True) 0 (fun account _ ↦ account = 0) := unrecorded hmetric trivial
    exact hrun hfailover hredis

end Units

end HealingGateway.Router
