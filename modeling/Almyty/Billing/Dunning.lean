import Almyty.Billing.Webhooks

/-!
# Grace: `billing.service.ts`

A subscription that is not paid keeps its plan for the days of grace, and the token is to stop at
the deadline: Stripe moves the period end on whether or not the invoice was paid. A subscription's
event does so, minting the token again. An invoice's event only flips the flags: a failed payment
sets the deadline and leaves a token that runs to the period end, a successful one clears the
deadline and leaves the token that stops there, and the status.

`within_grace_iff` says of any deliveries when the organizations are as they should be after each:
exactly when no failed payment finds a plan that outlasts the deadline, and no successful one an
organization in dunning.

Mirroring notes:
- Deliveries come in any order and more than once, each at its own time.
-/

namespace Almyty.Billing

open Almyty.Lib Steps Option

/-- In dunning, nothing outlasts the deadline; out of it, nothing stops before the period does. -/
structure WithinGrace (org : Organization) : Prop where
  dunning : org.billingInfo.dunning = true → ∃ graceUntil expiresAt token,
    org.billingInfo.graceUntil = some graceUntil ∧ org.planExpiresAt = some expiresAt ∧
    org.billingInfo.licenseToken = some token ∧ expiresAt ≤ graceUntil ∧
    token.payload.expiresAt ≤ graceUntil
  settled : org.billingInfo.dunning = false → org.plan ≠ planFree →
    org.billingInfo.statusIn dunningSubscriptionStatuses = false ∧
    ∀ periodEnd, org.periodEnd = some periodEnd →
      (∀ expiresAt, org.planExpiresAt = some expiresAt → periodEnd ≤ expiresAt) ∧
      ∀ token, org.billingInfo.licenseToken = some token → periodEnd ≤ token.payload.expiresAt

structure Organization.IsFresh (org : Organization) : Prop where
  plan : org.plan = planFree
  billingInfo : org.billingInfo = { stripeCustomerId := org.billingInfo.stripeCustomerId }

def Tables.Every (tables : Tables) (P : Organization → Prop) : Prop :=
  ∀ id org, tables.organizations.lookup id = some org → P org

/-- A failed payment finds a plan that stops by the deadline, if any; a successful one finds no
dunning. A delivery that is repeated does nothing. -/
def Careful (config : Config) (tables : Tables) (delivery : Millis × StripeEvent) : Prop :=
  tables.events.lookup delivery.2.id = none →
    match delivery.2.data with
    | .paymentFailed invoice => ∀ id org, tables.findOrgForCustomer invoice.customer = some id →
      tables.organizations.lookup id = some org →
      org.billingInfo.statusIn liveSubscriptionStatuses = true →
      ∀ expiresAt, org.planExpiresAt = some expiresAt →
        expiresAt ≤ org.billingInfo.graceUntil.getD (graceDeadline config delivery.1)
    | .paymentSucceeded invoice => ∀ id org, tables.findOrgForCustomer invoice.customer = some id →
      tables.organizations.lookup id = some org → org.billingInfo.dunning = false
    | _ => True

/-! ## One organization -/

structure Organization.Inv (org : Organization) : Prop where
  free : org.billingInfo.statusIn liveSubscriptionStatuses = false →
    org.plan = planFree ∧ org.billingInfo.dunning = false
  held : org.billingInfo.statusIn liveSubscriptionStatuses = true → org.plan ≠ planFree ∧
    ∃ expiresAt token, org.planExpiresAt = some expiresAt ∧
      org.billingInfo.licenseToken = some token ∧ token.payload.expiresAt = expiresAt
  dunning : org.billingInfo.dunning = true →
    org.billingInfo.statusIn dunningSubscriptionStatuses = true
  within : WithinGrace org

variable {config : Config} {tables : Tables} {org org' : Organization} {now : Millis} {id : String}
  {info : BillingInfo} {s : Subscription} {deleted : Bool} {created : Nat}

theorem Organization.IsFresh.inv (h : org.IsFresh) : org.Inv := by
  have hstatus : org.billingInfo.subscriptionStatus = none :=
    congrArg BillingInfo.subscriptionStatus h.billingInfo
  have hdunning : org.billingInfo.dunning = false := congrArg BillingInfo.dunning h.billingInfo
  have hin (statuses : List String) : org.billingInfo.statusIn statuses = false := by
    unfold BillingInfo.statusIn
    rw [hstatus]
    rfl
  refine ⟨fun _ => ⟨h.plan, hdunning⟩, fun hlive => ?_, fun hd => ?_, fun hd => ?_,
    fun _ hplan => absurd h.plan hplan⟩
  · rw [hin] at hlive
    cases hlive
  · rw [hdunning] at hd
    cases hd
  · rw [hdunning] at hd
    cases hd

theorem inv_downgraded (h : info.statusIn liveSubscriptionStatuses = false) :
    (org.downgraded info).Inv where
  free _ := ⟨rfl, rfl⟩
  held hlive := by
    rw [show (org.downgraded info).billingInfo.statusIn _ = info.statusIn _ from rfl, h] at hlive
    cases hlive
  dunning hd := nomatch hd
  within := ⟨fun hd => (nomatch hd), fun _ hplan => absurd rfl hplan⟩

theorem planFromSubscription_ne_free : planFromSubscription config s ≠ planFree := by
  have hmem : planFromSubscription config s ∈ paidPlans := planFromSubscription_mem
  intro heq
  rw [heq] at hmem
  revert hmem
  decide

theorem inv_entitle {seats : Nat} {dunning : Bool}
    (hlive : info.statusIn liveSubscriptionStatuses = true)
    (hdunning : info.statusIn dunningSubscriptionStatuses = dunning)
    (h : entitle config now id org info s seats dunning = .ok org') : org'.Inv := by
  unfold entitle mintToken at h
  cases hkey : setText config.licensePrivateKey with
  | none =>
    rw [hkey] at h
    cases h
  | some key =>
  rw [hkey] at h
  obtain rfl := Except.ok.inj h
  refine ⟨fun hdead => ?_, fun _ => ⟨planFromSubscription_ne_free, _, _, rfl, rfl, rfl⟩,
    fun hd => ?_, fun hd => ?_, fun hd _ => ?_⟩
  · have hdead : info.statusIn liveSubscriptionStatuses = false := hdead
    rw [hlive] at hdead
    cases hdead
  · exact hdunning.trans hd
  · obtain rfl : dunning = true := hd
    exact ⟨_, _, _, rfl, rfl, rfl, Int.min_le_right _ _, Int.min_le_right _ _⟩
  · obtain rfl : dunning = false := hd
    refine ⟨hdunning, fun periodEnd hperiod => ⟨fun expiresAt hexpires => ?_, fun token htoken => ?_⟩⟩
    · obtain rfl := some.inj hexpires
      rw [show periodEndFromSubscription s = some periodEnd from hperiod]
      exact Int.le_refl _
    · obtain rfl := some.inj htoken
      rw [show periodEndFromSubscription s = some periodEnd from hperiod]
      exact Int.le_refl _

theorem inv_applyTo (h : org.Inv) (hok : applyTo config now id org s deleted created = .ok org') :
    org'.Inv := by
  unfold applyTo at hok
  split at hok
  · obtain rfl := Except.ok.inj hok
    exact h
  dsimp only at hok
  split at hok
  next hterminal =>
    obtain rfl := Except.ok.inj hok
    refine inv_downgraded (decide_eq_false ?_)
    exact not_live_of_terminal _ (storedStatus_of_terminal hterminal)
  next hterminal =>
  have hstored := (storedStatus_of_not_terminal (eq_false_of_ne_true hterminal)).1
  split at hok
  next hnone =>
    obtain rfl := Except.ok.inj hok
    refine inv_downgraded ?_
    simp only [Bool.and_eq_true, Bool.not_eq_true', decide_eq_false_iff_not,
      decide_eq_true_iff] at hnone
    show decide (storedStatus s deleted ∈ liveSubscriptionStatuses) = false
    rw [hstored, decide_eq_false_iff_not, liveSubscriptionStatuses, List.mem_append]
    exact fun hin => hin.elim hnone.2 hnone.1
  next hsome =>
    refine inv_entitle ?_ ?_ hok
    · show decide (storedStatus s deleted ∈ liveSubscriptionStatuses) = true
      rw [hstored, decide_eq_true_iff, liveSubscriptionStatuses, List.mem_append]
      by_contra hnot
      rw [not_or] at hnot
      exact hsome (by simp [hnot.1, hnot.2])
    · show decide (storedStatus s deleted ∈ dunningSubscriptionStatuses) = _
      rw [hstored]

theorem inv_failPayment (h : org.Inv)
    (hcareful : org.billingInfo.statusIn liveSubscriptionStatuses = true →
      ∀ expiresAt, org.planExpiresAt = some expiresAt →
        expiresAt ≤ org.billingInfo.graceUntil.getD (graceDeadline config now)) :
    (failPayment config now org).Inv := by
  unfold failPayment
  split
  · exact h
  next hlive =>
  have hlive : org.billingInfo.statusIn liveSubscriptionStatuses = true := by simpa using hlive
  obtain ⟨hplan, expiresAt, token, hexpires, htoken, hsame⟩ := h.held hlive
  have hle := hcareful hlive expiresAt hexpires
  refine ⟨fun hdead => ?_, fun _ => ⟨hplan, expiresAt, token, hexpires, htoken, hsame⟩,
    fun _ => ?_, fun _ => ?_, fun hd => nomatch hd⟩
  · have hdead : decide ("past_due" ∈ liveSubscriptionStatuses) = false := hdead
    exact absurd hdead (by decide)
  · show decide ("past_due" ∈ dunningSubscriptionStatuses) = true
    decide
  · exact ⟨_, expiresAt, token, rfl, hexpires, htoken, hle, hsame ▸ hle⟩

theorem careful_of_failPayment (hlive : org.billingInfo.statusIn liveSubscriptionStatuses = true)
    (h : WithinGrace (failPayment config now org)) {expiresAt : Millis}
    (hexpires : org.planExpiresAt = some expiresAt) :
    expiresAt ≤ org.billingInfo.graceUntil.getD (graceDeadline config now) := by
  unfold failPayment at h
  rw [hlive] at h
  obtain ⟨graceUntil, expiresAt', token, hgrace, hexpires', -, hle, -⟩ := h.dunning rfl
  obtain rfl : expiresAt = expiresAt' := some.inj (hexpires.symm.trans hexpires')
  rwa [← some.inj hgrace] at hle

theorem succeedPayment_eq (h : org.billingInfo.dunning = false) : succeedPayment org = org := by
  unfold succeedPayment
  rw [h]
  rfl

theorem not_within_succeedPayment (h : org.Inv) (hdunning : org.billingInfo.dunning = true) :
    ¬WithinGrace (succeedPayment org) := by
  have hlive : org.billingInfo.statusIn liveSubscriptionStatuses = true := by
    by_contra hdead
    rw [(h.free (eq_false_of_ne_true hdead)).2] at hdunning
    cases hdunning
  have hstatus := h.dunning hdunning
  unfold succeedPayment
  rw [hdunning]
  intro hwithin
  have hsettled : org.billingInfo.statusIn dunningSubscriptionStatuses = false :=
    (hwithin.settled rfl (h.held hlive).1).1
  rw [hstatus] at hsettled
  cases hsettled

/-! ## Deliveries -/

variable {P : Organization → Prop}

theorem every_save (h : tables.Every P) (horg : P org) : (tables.save id org).Every P := by
  intro other row hrow
  unfold Tables.save at hrow
  rw [Assoc.lookup_put] at hrow
  split at hrow
  · exact some.inj hrow ▸ horg
  · exact h other row hrow

theorem every_applyPayment {does : Organization → Organization} {invoice : Invoice}
    (h : tables.Every P) :
    (applyPayment does tables invoice).1.Every P ↔
      ∀ id org, tables.findOrgForCustomer invoice.customer = some id →
        tables.organizations.lookup id = some org → P (does org) := by
  unfold applyPayment
  split
  next hnone => exact iff_of_true h fun id _ hfind => by simp [hnone] at hfind
  next id hfind =>
  split
  next hnone =>
    refine iff_of_true h fun id' org hfind' horg => ?_
    obtain rfl := some.inj (hfind.symm.trans hfind')
    rw [hnone] at horg
    cases horg
  next org horg =>
    constructor
    · intro hevery id' org' hfind' horg'
      obtain rfl := some.inj (hfind.symm.trans hfind')
      obtain rfl := some.inj (horg.symm.trans horg')
      exact hevery id _ ((Assoc.lookup_put ..).trans (if_pos rfl))
    · exact fun hdoes => every_save h (hdoes id org hfind horg)

theorem inv_applySubscription {tables' : Tables} {organizationId : Option String}
    (h : tables.Every Organization.Inv)
    (hok : applySubscription config now tables s deleted created = .ok (tables', organizationId)) :
    tables'.Every Organization.Inv := by
  unfold applySubscription at hok
  split at hok
  · obtain ⟨rfl, -⟩ := Prod.mk.inj (Except.ok.inj hok)
    exact h
  next id _ =>
  split at hok
  · obtain ⟨rfl, -⟩ := Prod.mk.inj (Except.ok.inj hok)
    exact h
  next org horg =>
    cases happly : applyTo config now id org s deleted created with
    | error _ =>
      rw [happly] at hok
      cases hok
    | ok org' =>
      rw [happly] at hok
      obtain ⟨rfl, -⟩ := Prod.mk.inj (Except.ok.inj hok)
      exact every_save h (inv_applyTo (h id org horg) happly)

theorem deliver_new {event : StripeEvent} (hnew : tables.events.lookup event.id = none) :
    (deliver config tables (now, event)).Every P ↔
      match applyEvent config now tables event with
      | .ok (tables', _) => tables'.Every P
      | .error _ => tables.Every P := by
  unfold deliver handleWebhookEvent
  rw [hnew]
  cases applyEvent config now tables event <;> exact Iff.rfl

theorem deliver_old {event : StripeEvent} {o : Option String}
    (hold : tables.events.lookup event.id = some o) :
    deliver config tables (now, event) = tables := by
  unfold deliver handleWebhookEvent
  rw [hold]
  rfl

theorem inv_deliver (h : tables.Every Organization.Inv) (delivery : Millis × StripeEvent)
    (hcareful : Careful config tables delivery) :
    (deliver config tables delivery).Every Organization.Inv := by
  obtain ⟨now, event⟩ := delivery
  cases hlookup : tables.events.lookup event.id with
  | some _ =>
    rw [deliver_old hlookup]
    exact h
  | none =>
    have hcareful := hcareful hlookup
    rw [deliver_new hlookup]
    unfold applyEvent
    cases hdata : event.data with
    | subscriptionCreated s | subscriptionUpdated s | subscriptionDeleted s =>
      dsimp only
      split
      next htables => exact inv_applySubscription h htables
      next => exact h
    | paymentFailed invoice =>
      simp only [hdata] at hcareful
      exact (every_applyPayment h).mpr fun id org hfind horg =>
        inv_failPayment (h id org horg) (hcareful id org hfind horg)
    | paymentSucceeded invoice =>
      simp only [hdata] at hcareful
      refine (every_applyPayment h).mpr fun id org hfind horg => ?_
      rw [succeedPayment_eq (hcareful id org hfind horg)]
      exact h id org horg
    | other => exact h

/-- After a delivery every organization is within its grace exactly when the delivery was
careful. -/
theorem within_deliver_iff (h : tables.Every Organization.Inv) (delivery : Millis × StripeEvent) :
    (deliver config tables delivery).Every WithinGrace ↔ Careful config tables delivery := by
  refine ⟨fun hwithin hnew => ?_, fun hcareful id org horg =>
    (inv_deliver h delivery hcareful id org horg).within⟩
  obtain ⟨now, event⟩ := delivery
  have hevery : tables.Every WithinGrace := fun id org horg => (h id org horg).within
  rw [deliver_new hnew] at hwithin
  unfold applyEvent at hwithin
  cases hdata : event.data with
  | subscriptionCreated _ | subscriptionUpdated _ | subscriptionDeleted _ | other => trivial
  | paymentFailed invoice =>
    rw [hdata] at hwithin
    intro id org hfind horg hlive expiresAt hexpires
    exact careful_of_failPayment hlive ((every_applyPayment hevery).mp hwithin id org hfind horg)
      hexpires
  | paymentSucceeded invoice =>
    rw [hdata] at hwithin
    intro id org hfind horg
    by_contra hdunning
    exact not_within_succeedPayment (h id org horg) (by simpa using hdunning)
      ((every_applyPayment hevery).mp hwithin id org hfind horg)

theorem within_grace_iff (hfresh : tables.Every Organization.IsFresh)
    (ds : List (Millis × StripeEvent)) :
    Along (deliver config) (fun tables d => (deliver config tables d).Every WithinGrace) tables ds ↔
      Along (deliver config) (Careful config) tables ds :=
  along_iff_of_invariant (fun tables => tables.Every Organization.Inv)
    (fun _ d h hcareful => inv_deliver h d hcareful) (fun _ d h => within_deliver_iff h d)
    fun id org horg => (hfresh id org horg).inv

/-! ## The two ways out of it -/

def acmePaid : StripeEvent where
  id := "evt_1"
  created := 1000
  created_pos := created_first
  data := .subscriptionUpdated (acmeSubscription "sub_live" live_ne "active")

def acmeUnpaid : StripeEvent where
  id := "evt_2"
  created := 2000
  created_pos := created_second
  data := .subscriptionUpdated (acmeSubscription "sub_live" live_ne "past_due")

def acmeInvoice (data : Invoice → EventData) : StripeEvent where
  id := "evt_3"
  created := 3000
  created_pos := by decide
  data := data { customer := some "cus_1" }

def acmeCustomer : Tables where
  organizations := [("acme",
    { name := "Acme", plan := "free", billingInfo := { stripeCustomerId := some "cus_1" } })]

theorem acmeCustomer_fresh : acmeCustomer.Every Organization.IsFresh := by
  intro id org horg
  unfold acmeCustomer at horg
  rw [Assoc.lookup_cons] at horg
  split at horg
  · obtain rfl := some.inj horg
    exact ⟨rfl, rfl⟩
  · cases horg

/-- A failed invoice leaves the plan for the rest of the year, and a paid one a plan that stops with
the grace. -/
theorem invoices_leave_the_token :
    ¬Along (deliver hosted) (fun tables d => (deliver hosted tables d).Every WithinGrace)
      acmeCustomer [(0, acmePaid), (0, acmeInvoice .paymentFailed)] ∧
    ¬Along (deliver hosted) (fun tables d => (deliver hosted tables d).Every WithinGrace)
      acmeCustomer [(0, acmeUnpaid), (0, acmeInvoice .paymentSucceeded)] := by
  constructor
  · intro h
    obtain ⟨graceUntil, expiresAt, -, hgrace, hexpires, -, hle, -⟩ := (h.2.1 "acme" _ rfl).dunning rfl
    obtain rfl := some.inj hgrace
    obtain rfl := some.inj hexpires
    revert hle
    decide
  · intro h
    have hsettled := ((h.2.1 "acme" _ rfl).settled rfl (by decide)).1
    revert hsettled
    decide

/-- A subscription that goes past due before its invoice fails stays within its grace. -/
theorem past_due_first_within_grace :
    Along (deliver hosted) (fun tables d => (deliver hosted tables d).Every WithinGrace)
      acmeCustomer [(0, acmeUnpaid), (0, acmeInvoice .paymentFailed)] := by
  refine (within_grace_iff acmeCustomer_fresh _).mpr ⟨fun _ => trivial, fun _ => ?_, trivial⟩
  intro id org hfind horg _ expiresAt hexpires
  obtain rfl : "acme" = id := some.inj hfind
  obtain rfl := some.inj horg
  obtain rfl := some.inj hexpires
  decide

end Almyty.Billing
