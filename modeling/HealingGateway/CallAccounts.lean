import HealingGateway.Ledgers
import HealingGateway.TrailEntries

namespace HealingGateway.Router

open Programs Programs.Prog Numerals JsonText

def Fact.cancelled? : Fact → Option String
  | cancelled _ provider => some provider
  | _ => none

def cancelledCalls (facts : List Fact) : List String := facts.filterMap Fact.cancelled?

@[simp] theorem cancelledCalls_append (facts facts' : List Fact) :
    cancelledCalls (facts ++ facts') = cancelledCalls facts ++ cancelledCalls facts' :=
  List.filterMap_append

/-- The account of what a walk learnt: each answer is recorded everywhere once, and each
cancelled call got some of the way. -/
def Accounts (facts : List Fact) (account : Multiset Entry) : Prop :=
  ∃ lefts, List.Forall₂ Underway (cancelledCalls facts) lefts ∧
    account = ((results facts).map recorded).sum + lefts.sum

section Accounts

variable {facts facts' : List Fact} {account account' : Multiset Entry}

theorem Accounts.append (h : Accounts facts account) (h' : Accounts facts' account') :
    Accounts (facts ++ facts') (account + account') := by
  obtain ⟨lefts, hlefts, rfl⟩ := h
  obtain ⟨lefts', hlefts', rfl⟩ := h'
  refine ⟨lefts ++ lefts', ?_, ?_⟩
  · rw [cancelledCalls_append]
    exact List.rel_append hlefts hlefts'
  · rw [results_append, List.map_append, List.sum_append, List.sum_append, add_add_add_comm]

theorem accounts_unanswered {fact : Fact} (hresult : fact.result? = none)
    (hcancelled : fact.cancelled? = none) :
    Accounts [fact] 0 :=
  ⟨[], by simp [cancelledCalls, hcancelled], by simp [results, hresult]⟩

theorem accounts_answered (i : ℕ) (provider : String) (result : ProviderResult) :
    Accounts [.answered i provider result] (recorded result) := ⟨[], .nil, by simp⟩

theorem Raced.Spent.accounts {i j : ℕ} {first second : String} {raced : Raced}
    (h : raced.Spent first second account) : Accounts (raced.facts i first j second) account := by
  cases raced with
  | alone result =>
    obtain rfl := h
    exact ⟨[], .nil, by simp [Raced.facts]⟩
  | settled won result loser =>
    cases loser with
    | some l =>
      obtain rfl := h
      refine ⟨[], ?_, ?_⟩
      · cases won <;> exact .nil
      · cases won <;> simp [Raced.facts, loserFact]
    | none =>
      obtain ⟨left, rfl, hleft⟩ := h
      refine ⟨[left], ?_, ?_⟩
      · cases won <;> exact .cons hleft .nil
      · cases won <;> simp [Raced.facts, loserFact]

theorem Owed.accounts {m : Move} {a : m.Answer} (h : Owed m (.ok a) account) :
    Accounts (m.facts a) account := by
  cases m with
  | scan i provider | allows i provider =>
    obtain rfl := h
    exact accounts_unanswered rfl rfl
  | attempt i provider =>
    obtain rfl := h a rfl
    exact accounts_answered i provider a
  | race i first j second => exact (h a rfl).accounts
  | failover i provider result =>
    obtain rfl := h
    exact ⟨[], .nil, rfl⟩

theorem Owed.accounts_lost {m : Move} {e : Exn} (h : Owed m (.error e) account) :
    Accounts m.lost account ∨ ∃ i provider, .lost i provider ∈ m.lost := by
  cases m with
  | scan | allows | failover =>
    obtain rfl := h
    exact .inl ⟨[], .nil, rfl⟩
  | attempt i provider => exact .inr ⟨i, provider, List.mem_singleton.mpr rfl⟩
  | race i first j second => exact .inr ⟨i, first, List.mem_cons_self ..⟩

theorem subset_after (facts : List Fact) (events : List (Event Move (fun m ↦ Except Exn m.Answer))) :
    facts ⊆ journaling.after facts events := by
  induction events generalizing facts with
  | nil => exact List.Subset.refl _
  | cons e events ih =>
    refine List.Subset.trans ?_ (ih (journaling.watch facts e.guarded e.cmd e.reply))
    simp only [journaling]
    split
    all_goals exact List.subset_append_left _ _

/-- The account of a walk is what its steps owed. -/
theorem accounts_after {events : List (Event Move (fun m ↦ Except Exn m.Answer))}
    {costs : List (Multiset Entry)}
    (h : List.Forall₂ (fun e cost ↦ Owed e.cmd e.reply cost) events costs)
    (hlost : ∀ i provider, .lost i provider ∉ journaling.after facts events)
    (hfacts : Accounts facts account) : Accounts (journaling.after facts events) (account + costs.sum) := by
  induction h generalizing facts account with
  | nil => simpa [Protocol.after] using hfacts
  | @cons e cost events costs hcost h ih =>
    obtain ⟨guarded, m, reply⟩ := e
    rw [List.sum_cons, ← add_assoc]
    apply ih hlost
    cases reply with
    | ok a => exact hfacts.append hcost.accounts
    | error e =>
      rcases hcost.accounts_lost with haccounts | ⟨i, provider, hmem⟩
      · exact hfacts.append haccounts
      · exact absurd (subset_after _ events (List.mem_append_right _ hmem)) (hlost i provider)

end Accounts

section Routed

variable {ladder : List String} {hedged : Bool} {i j n : ℕ} {rest : List String} {first second : String}
  {facts : List Fact} {ended : Option ProviderResult} {routed : RouteOutcome}

def Fact.Kept : Fact → Prop
  | lost .. => False
  | _ => True

theorem Walked.kept (h : Walked i rest facts ended) :
    (∀ fact ∈ facts, fact.Kept) ∧ cancelledCalls facts = [] := by
  induction h with
  | out => exact ⟨by simp, rfl⟩
  | refused _ _ ih => exact ⟨List.forall_mem_cons.mpr ⟨trivial, ih.1⟩, ih.2⟩
  | served => exact ⟨by simp [Fact.Kept], rfl⟩
  | failed _ _ _ _ ih =>
    exact ⟨List.forall_mem_cons.mpr ⟨trivial, List.forall_mem_cons.mpr ⟨trivial, ih.1⟩⟩, ih.2⟩

theorem Scanned.kept {limit : ℕ} {admitted : List (ℕ × String)}
    (h : Scanned limit i rest facts admitted) :
    (∀ fact ∈ facts, fact.Kept) ∧ cancelledCalls facts = [] := by
  induction h with
  | enough | out => exact ⟨by simp, rfl⟩
  | passed _ ih | picked _ ih => exact ⟨List.forall_mem_cons.mpr ⟨trivial, ih.1⟩, ih.2⟩

theorem Landed.kept (h : Landed i first j second facts ended n) :
    (∀ fact ∈ facts, fact.Kept) ∧ (cancelledCalls facts).length ≤ 1 := by
  cases h with
  | alone | aloneFailed | primaryFailed | hedgeFailed => exact ⟨by simp [Fact.Kept], Nat.zero_le _⟩
  | @primary result loser | @hedge result loser =>
    cases loser with
    | none => exact ⟨by simp [Fact.Kept, loserFact], le_rfl⟩
    | some l => exact ⟨by simp [Fact.Kept, loserFact], Nat.zero_le _⟩

theorem Routed.kept (h : Routed ladder hedged facts routed) :
    (∀ fact ∈ facts, fact.Kept) ∧ (cancelledCalls facts).length ≤ 1 := by
  cases h with
  | plain h => exact ⟨h.kept.1, by simp [h.kept.2]⟩
  | few hscan _ h =>
    exact ⟨List.forall_mem_append.mpr ⟨hscan.kept.1, h.kept.1⟩, by simp [hscan.kept.2, h.kept.2]⟩
  | raced hscan hlanded =>
    refine ⟨List.forall_mem_append.mpr ⟨hscan.kept.1, hlanded.kept.1⟩, ?_⟩
    simpa [hscan.kept.2] using hlanded.kept.2
  | resumed hscan hlanded h =>
    refine ⟨List.forall_mem_append.mpr
      ⟨List.forall_mem_append.mpr ⟨hscan.kept.1, hlanded.kept.1⟩, h.kept.1⟩, ?_⟩
    simpa [hscan.kept.2, h.kept.2] using hlanded.kept.2

end Routed

theorem length_dispatches {facts : List Fact} (h : ∀ fact ∈ facts, fact.Kept) :
    (dispatches facts).length = (results facts).length + (cancelledCalls facts).length := by
  induction facts with
  | nil => rfl
  | cons fact facts ih =>
    obtain ⟨hfact, hfacts⟩ := List.forall_mem_cons.mp h
    have hlength := ih hfacts
    cases fact with
    | lost => cases hfact
    | cancelled i provider =>
      have hcalled : dispatches (.cancelled i provider :: facts) = i :: dispatches facts := rfl
      have hcancelled : cancelledCalls (.cancelled i provider :: facts) =
          provider :: cancelledCalls facts := rfl
      rw [hcalled, hcancelled, results_cancelled, List.length_cons, List.length_cons]
      omega
    | answered i provider result =>
      have hcancelled : cancelledCalls (.answered i provider result :: facts) = cancelledCalls facts := rfl
      rw [dispatches_answered, results_answered, hcancelled, List.length_cons, List.length_cons]
      omega
    | scanned | asked | raced => exact hlength

theorem filter_trailOf (facts : List Fact) :
    (trailOf facts).filter (fun a ↦ a.outcome ≠ skippedOutcome) = (results facts).map logged := by
  induction facts with
  | nil => rfl
  | cons fact facts ih =>
    cases fact with
    | answered i provider result =>
      have hvalue : (logged result).outcome ≠ skippedOutcome := value_ne_skippedOutcome _
      simp [hvalue, ← ih]
    | asked i provider admits reason =>
      cases admits with
      | true => simpa using ih
      | false => simpa [skipped] using ih
    | _ => simpa using ih

section Runs

variable {env : Environ} {config : GatewayConfig} {metadata : RequestMetadata}
  {payload : List (String × Json)} {ladder : List String} {schedule : RaceSchedule} {c : ClassConfig}
  {σ : Type} {h : Handler Cmd Reply σ} {s : σ}

end Runs

section Worlds

def slowPrimary : RaceSchedule := ⟨0, List.replicate 50 false, 0⟩

def answering : Handler Cmd Reply Redis.Db := Outside.answers { now := 0 }

@[simp] theorem card_recorded (result : ProviderResult) : (recorded result).card = 3 := rfl

/-- A hedge that answers when the first provider has been called and its call has not ended. -/
def overtakenPrimary : RaceSchedule := ⟨3, List.replicate 50 false, 0⟩

end Worlds

end HealingGateway.Router
