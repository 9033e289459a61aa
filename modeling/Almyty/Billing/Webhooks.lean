import Almyty.Lib.Assoc
import Almyty.Lib.Steps

/-!
# Stripe's events on an organization: `billing.service.ts`

`handleWebhookEvent` applies one event to the organization it resolves to and remembers its id: a
subscription's event decides the plan and the license token, a failed invoice starts the grace of
dunning, a paid one ends it.

Mirroring notes:
- The organizations are the rows of one table, under their ids; a row's `billingInfo` is the JSON it
  holds, with a field that is not set as `none` (or false).
- `signLicense` is the payload under the key it was signed with.
- `periodEnd` is not a column: it keeps the period end the plan in force was given for.
- The database does not throw; `mintToken` does, without a private key.
-/

namespace Almyty.Billing

open Almyty.Lib

abbrev Millis := Int

/-! ## Constants -/

def planFree : String := "free"
def planPro : String := "pro"
def planBusiness : String := "business"
def planEnterprise : String := "enterprise"

def paidPlans : List String := [planPro, planBusiness, planEnterprise]

def activeSubscriptionStatuses : List String := ["active", "trialing"]

def dunningSubscriptionStatuses : List String := ["past_due", "unpaid"]

def terminalSubscriptionStatuses : List String := ["canceled", "incomplete_expired"]

def liveSubscriptionStatuses : List String :=
  activeSubscriptionStatuses ++ dunningSubscriptionStatuses

/-- `PLAN_ENTITLEMENTS`. -/
def planEntitlements : List (String × List String) := [
  (planFree, []),
  (planPro, []),
  (planBusiness, ["sso", "advanced_rbac", "approval_policy", "compliance_pack", "audit_export",
    "credentials_governance", "agent_identity", "hosted_shared_environments"]),
  (planEnterprise, ["sso", "advanced_rbac", "approval_policy", "compliance_pack", "audit_export",
    "byo_kms", "chargeback", "credentials_governance", "agent_identity",
    "hosted_shared_environments", "white_label"])]

/-! ## Stripe's objects -/

structure SubscriptionItem where
  priceId : Option String
  quantity : Option Nat
  currentPeriodEnd : Option Nat
  deriving DecidableEq

structure Subscription where
  id : String
  id_ne : id ≠ ""
  status : String
  customer : Option String
  metaOrganizationId : Option String
  metaPlan : Option String
  items : List SubscriptionItem
  currentPeriodEnd : Option Nat
  deriving DecidableEq

structure Invoice where
  customer : Option String
  deriving DecidableEq

inductive EventData
  | subscriptionCreated (subscription : Subscription)
  | subscriptionUpdated (subscription : Subscription)
  | subscriptionDeleted (subscription : Subscription)
  | paymentFailed (invoice : Invoice)
  | paymentSucceeded (invoice : Invoice)
  | other
  deriving DecidableEq

structure StripeEvent where
  id : String
  created : Nat
  created_pos : 0 < created
  data : EventData
  deriving DecidableEq

/-! ## The tables -/

structure LicensePayload where
  entitlements : List String
  seats : Nat
  expiresAt : Millis
  issuedTo : String
  issuedAt : Millis
  organizationId : String

structure LicenseToken where
  payload : LicensePayload
  privateKey : String

structure BillingInfo where
  stripeCustomerId : Option String := none
  stripeSubscriptionId : Option String := none
  subscriptionStatus : Option String := none
  subscriptionEventAt : Option Nat := none
  seats : Option Nat := none
  licenseToken : Option LicenseToken := none
  dunning : Bool := false
  graceUntil : Option Millis := none

structure Organization where
  name : String
  plan : String
  planExpiresAt : Option Millis := none
  billingInfo : BillingInfo := {}
  periodEnd : Option Millis := none

structure Tables where
  organizations : List (String × Organization)
  events : List (String × Option String) := []

structure Config where
  licensePrivateKey : Option String
  dunningGraceDays : Option Int := none
  priceBusiness : Option String := none
  priceBusinessAnnual : Option String := none
  pricePro : Option String := none
  priceProAnnual : Option String := none

inductive BillingError
  | badRequest (message : String)

def setText (text : Option String) : Option String := text.filter (· ≠ "")

section Service

variable (config : Config) (now : Millis)

/-! ## Reading a subscription -/

def planFromSubscription (subscription : Subscription) : String :=
  let priceId := setText (subscription.items.head?.bind (·.priceId))
  let businessPrices := [config.priceBusiness, config.priceBusinessAnnual].filterMap setText
  let proPrices := [config.pricePro, config.priceProAnnual].filterMap setText
  if priceId.any (· ∈ businessPrices) then planBusiness
  else if priceId.any (· ∈ proPrices) then planPro
  else ((setText subscription.metaPlan).filter (· ∈ paidPlans)).getD planPro

def seatsFromSubscription (subscription : Subscription) : Nat :=
  max 1 (((subscription.items.head?.bind (·.quantity)).filter (· ≠ 0)).getD 1)

def periodEndFromSubscription (subscription : Subscription) : Option Millis :=
  let seconds := subscription.currentPeriodEnd.or
    (subscription.items.head?.bind (·.currentPeriodEnd))
  (seconds.filter (· ≠ 0)).map fun s => (s : Millis) * 1000

/-- Days a subscription keeps its entitlements after a failed payment: seven unless set. -/
def graceDays : Int := (config.dunningGraceDays.filter (· ≠ 0)).getD 7

def graceDeadline : Millis := now + graceDays config * 24 * 60 * 60 * 1000

def isTerminal (subscription : Subscription) (deleted : Bool) : Bool :=
  deleted || subscription.status ∈ terminalSubscriptionStatuses

def storedStatus (subscription : Subscription) (deleted : Bool) : String :=
  if isTerminal subscription deleted && subscription.status ∉ terminalSubscriptionStatuses then
    "canceled"
  else subscription.status

def mintToken (plan : String) (seats : Nat) (expiresAt : Millis) (issuedTo organizationId : String) :
    Except BillingError LicenseToken :=
  match setText config.licensePrivateKey with
  | none => .error (.badRequest
      "Cannot mint entitlement token: ALMYTY_LICENSE_PRIVATE_KEY is unset")
  | some privateKey => .ok {
      payload := { entitlements := (planEntitlements.lookup plan).getD [], seats, expiresAt, issuedTo
                   issuedAt := now, organizationId }
      privateKey }

/-! ## A subscription's event -/

def BillingInfo.statusIn (info : BillingInfo) (statuses : List String) : Bool :=
  info.subscriptionStatus.any (· ∈ statuses)

def staleReason (info : BillingInfo) (subscription : Subscription) (deleted : Bool)
    (eventCreated : Nat) : Option String :=
  let lastAt := info.subscriptionEventAt.getD 0
  let sameSub := info.stripeSubscriptionId = some subscription.id
  let currentLive := (setText info.stripeSubscriptionId).isSome &&
    info.statusIn liveSubscriptionStatuses
  if eventCreated < lastAt then some "older than the last applied event"
  else if sameSub && !isTerminal subscription deleted &&
      info.statusIn terminalSubscriptionStatuses then some "subscription already ended"
  else if !sameSub && currentLive then
    some ("org is on live subscription " ++ info.stripeSubscriptionId.getD "")
  else none

/-- Free, with the token revoked. -/
def Organization.downgraded (org : Organization) (info : BillingInfo) : Organization :=
  { org with
    plan := planFree
    planExpiresAt := none
    billingInfo := { info with licenseToken := none, dunning := false, graceUntil := none }
    periodEnd := none }

/-- The plan a paid-up or in-grace subscription gives, with a token for it. -/
def entitle (organizationId : String) (org : Organization) (info : BillingInfo)
    (subscription : Subscription) (seats : Nat) (dunning : Bool) :
    Except BillingError Organization := do
  let plan := planFromSubscription config subscription
  let periodEnd := periodEndFromSubscription subscription
  let expiresAt := periodEnd.getD (graceDeadline config now)
  -- in dunning the token stops at the grace deadline, which the first failure sets
  let graceUntil := if dunning then some (info.graceUntil.getD (graceDeadline config now)) else none
  let expiresAt := (graceUntil.map (min expiresAt)).getD expiresAt
  let token ← mintToken config now plan seats expiresAt org.name organizationId
  pure { org with
    plan := plan
    planExpiresAt := some expiresAt
    billingInfo := { info with licenseToken := some token, dunning, graceUntil }
    periodEnd }

def applyTo (organizationId : String) (org : Organization) (subscription : Subscription)
    (deleted : Bool) (eventCreated : Nat) : Except BillingError Organization :=
  if (staleReason org.billingInfo subscription deleted eventCreated).isSome then .ok org
  else
    let info := { org.billingInfo with
      stripeSubscriptionId := some subscription.id
      subscriptionStatus := some (storedStatus subscription deleted)
      subscriptionEventAt := some (max (org.billingInfo.subscriptionEventAt.getD 0) eventCreated) }
    if isTerminal subscription deleted then .ok (org.downgraded info)
    else
      let seats := seatsFromSubscription subscription
      let info := { info with seats := some seats }
      let dunning := decide (subscription.status ∈ dunningSubscriptionStatuses)
      if !dunning && subscription.status ∉ activeSubscriptionStatuses then .ok (org.downgraded info)
      else entitle config now organizationId org info subscription seats dunning

/-! ## Organizations -/

def Tables.findOrgForCustomer (tables : Tables) (customerId : Option String) : Option String :=
  (setText customerId).bind fun cid =>
    (tables.organizations.find? fun e => e.2.billingInfo.stripeCustomerId = some cid).map (·.1)

def Tables.findOrgForSubscription (tables : Tables) (subscription : Subscription) : Option String :=
  ((setText subscription.metaOrganizationId).filter fun id =>
    (tables.organizations.lookup id).isSome).or (tables.findOrgForCustomer subscription.customer)

def Tables.save (tables : Tables) (id : String) (org : Organization) : Tables :=
  { tables with organizations := Assoc.put tables.organizations id org }

def applySubscription (tables : Tables) (subscription : Subscription) (deleted : Bool)
    (eventCreated : Nat) : Except BillingError (Tables × Option String) :=
  match tables.findOrgForSubscription subscription with
  | none => .ok (tables, none)
  | some id =>
    match tables.organizations.lookup id with
    | none => .ok (tables, none)
    | some org => do
      let org ← applyTo config now id org subscription deleted eventCreated
      pure (tables.save id org, some id)

def failPayment (org : Organization) : Organization :=
  if !org.billingInfo.statusIn liveSubscriptionStatuses then org
  else { org with billingInfo := { org.billingInfo with
    dunning := true
    graceUntil := some (org.billingInfo.graceUntil.getD (graceDeadline config now))
    subscriptionStatus := some "past_due" } }

/-- A paid invoice ends the dunning. -/
def succeedPayment (org : Organization) : Organization :=
  if !org.billingInfo.dunning then org
  else { org with billingInfo := { org.billingInfo with dunning := false, graceUntil := none } }

def applyPayment (does : Organization → Organization) (tables : Tables) (invoice : Invoice) :
    Tables × Option String :=
  match tables.findOrgForCustomer invoice.customer with
  | none => (tables, none)
  | some id =>
    match tables.organizations.lookup id with
    | none => (tables, none)
    | some org => (tables.save id (does org), some id)

def applyPaymentFailed : Tables → Invoice → Tables × Option String :=
  applyPayment (failPayment config now)

def applyPaymentSucceeded : Tables → Invoice → Tables × Option String :=
  applyPayment succeedPayment

structure WebhookResult where
  handled : Bool
  deduped : Bool
  ignored : Bool

def applyEvent (tables : Tables) (event : StripeEvent) :
    Except BillingError (Tables × Option String) :=
  match event.data with
  | .subscriptionCreated s | .subscriptionUpdated s =>
    applySubscription config now tables s false event.created
  | .subscriptionDeleted s => applySubscription config now tables s true event.created
  | .paymentFailed invoice => .ok (applyPaymentFailed config now tables invoice)
  | .paymentSucceeded invoice => .ok (applyPaymentSucceeded tables invoice)
  | .other => .ok (tables, none)

def handleWebhookEvent (tables : Tables) (event : StripeEvent) :
    Except BillingError (Tables × WebhookResult) :=
  if (tables.events.lookup event.id).isSome then
    .ok (tables, { handled := false, deduped := true, ignored := false })
  else do
    let (tables, organizationId) ← applyEvent config now tables event
    let ignored := decide (event.data = .other)
    pure ({ tables with events := tables.events ++ [(event.id, organizationId)] },
      { handled := !ignored, deduped := false, ignored })

end Service

def deliver (config : Config) (tables : Tables) (delivery : Millis × StripeEvent) : Tables :=
  match handleWebhookEvent config delivery.1 tables delivery.2 with
  | .ok (tables, _) => tables
  | .error _ => tables

/-! ## What is read of a subscription -/

variable {config : Config} {s : Subscription} {deleted : Bool}

theorem planFromSubscription_mem : planFromSubscription config s ∈ paidPlans := by
  unfold planFromSubscription
  dsimp only
  split
  · decide
  split
  · decide
  cases h : (setText s.metaPlan).filter (· ∈ paidPlans) with
  | none => decide
  | some plan =>
    have hplan := (Option.filter_eq_some_iff.mp h).2
    simpa using hplan

theorem storedStatus_of_terminal (h : isTerminal s deleted = true) :
    storedStatus s deleted ∈ terminalSubscriptionStatuses := by
  unfold storedStatus
  by_cases hstatus : s.status ∈ terminalSubscriptionStatuses
  · rw [if_neg (by simp [hstatus])]
    exact hstatus
  · rw [if_pos (by simp [hstatus, h])]
    decide

theorem storedStatus_of_not_terminal (h : isTerminal s deleted = false) :
    storedStatus s deleted = s.status ∧ s.status ∉ terminalSubscriptionStatuses := by
  unfold storedStatus
  rw [h, Bool.false_and, if_neg Bool.false_ne_true]
  rw [isTerminal, Bool.or_eq_false_iff, decide_eq_false_iff_not] at h
  exact ⟨rfl, h.2⟩

theorem not_live_of_terminal :
    ∀ status ∈ terminalSubscriptionStatuses, status ∉ liveSubscriptionStatuses := by decide

/-! ## An organization to try it on -/

/-- The vendor's deployment. -/
def hosted : Config where
  licensePrivateKey := some "ed25519"

def acmeSubscription (id : String) (hid : id ≠ "") (status : String) : Subscription where
  id := id
  id_ne := hid
  status := status
  customer := some "cus_1"
  metaOrganizationId := some "acme"
  metaPlan := some "business"
  items := []
  currentPeriodEnd := some 2000000000

theorem live_ne : "sub_live" ≠ "" := by decide

theorem created_first : 0 < 1000 := by decide

theorem created_second : 0 < 2000 := by decide

/-- Nothing has happened yet. -/
def acmeTables : Tables where
  organizations := [("acme", { name := "Acme", plan := "free" })]

end Almyty.Billing
