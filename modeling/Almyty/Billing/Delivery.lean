import Almyty.Billing.Webhooks
import Almyty.Lib.StickyRegister

/-!
# The order Stripe delivers in

Stripe delivers at least once and in no order, and an organization can have more than one
subscription. The row keeps one subscription and one time, and three guards drop what is late or of
another subscription: it is a register that stays with a live owner, the subscriptions being the
owners. So what the organization is left with is what the last event taken gives, and the order
decides which that is: a canceled second subscription delivered first sets the time, and an older
event of the live one is dropped for being older.

`follows_subscriptions_iff` says for which events every order leaves the same, and a paid plan
whenever a subscription's latest event is live.

Mirroring notes:
- An event's id is its own, and its time too; a subscription that has ended is not heard of
  otherwise later (`EventsOf`).
-/

namespace Almyty.Billing

open Almyty.Lib Steps StickyRegister List

/-! ## What an event says of its subscription -/

def StripeEvent.subscription? (event : StripeEvent) : Option (Subscription × Bool) :=
  match event.data with
  | .subscriptionCreated s | .subscriptionUpdated s => some (s, false)
  | .subscriptionDeleted s => some (s, true)
  | .paymentFailed _ | .paymentSucceeded _ | .other => none

def StripeEvent.subscriptionId (event : StripeEvent) : Option String :=
  event.subscription?.map (·.1.id)

def StripeEvent.terminal (event : StripeEvent) : Bool :=
  event.subscription?.any fun s => isTerminal s.1 s.2

def StripeEvent.live (event : StripeEvent) : Bool :=
  event.subscription?.any fun s =>
    !isTerminal s.1 s.2 && s.1.status ∈ liveSubscriptionStatuses

structure Standing where
  plan : String
  subscriptionStatus : Option String
  dunning : Bool
  hasLicenseToken : Bool
  deriving DecidableEq

def Organization.standing (org : Organization) : Standing where
  plan := org.plan
  subscriptionStatus := org.billingInfo.subscriptionStatus
  dunning := org.billingInfo.dunning
  hasLicenseToken := org.billingInfo.licenseToken.isSome

def StripeEvent.gives (config : Config) (event : StripeEvent) : Option Standing :=
  event.subscription?.map fun s =>
    if event.live then
      { plan := planFromSubscription config s.1, subscriptionStatus := some (storedStatus s.1 s.2)
        dunning := s.1.status ∈ dunningSubscriptionStatuses, hasLicenseToken := true }
    else
      { plan := planFree, subscriptionStatus := some (storedStatus s.1 s.2), dunning := false
        hasLicenseToken := false }

/-- The event does not throw: it is not live, or there is a key to sign a token with. -/
def Config.mints (config : Config) (event : StripeEvent) : Bool :=
  (setText config.licensePrivateKey).isSome || !event.live

/-! ## The claim on an organization's events -/

variable (config : Config) (tables : Tables) (id : String) (E : List StripeEvent)

structure EventsOf : Prop where
  resolves : ∀ e ∈ E, ∃ s, e.subscription? = some s ∧ tables.findOrgForSubscription s.1 = some id
  ids : ∀ a ∈ E, ∀ b ∈ E, a.id = b.id → a = b
  times : Distinct StripeEvent.created E
  ended : ∀ a ∈ E, ∀ b ∈ E, a.subscriptionId = b.subscriptionId → a.terminal = true →
    b.terminal = false → b.created ≤ a.created

structure Fresh : Prop where
  row : ∃ org, tables.organizations.lookup id = some org ∧
    org.billingInfo = { stripeCustomerId := org.billingInfo.stripeCustomerId }
  unseen : ∀ e ∈ E, tables.events.lookup e.id = none

/-- The deliveries bring each event at least once. -/
def Delivers (ds : List (Millis × StripeEvent)) : Prop := ∀ e, e ∈ ds.map (·.2) ↔ e ∈ E

def standingAfter (ds : List (Millis × StripeEvent)) : Option Standing :=
  ((run (deliver config) tables ds).organizations.lookup id).map (·.standing)

def Latest (e : StripeEvent) : Prop :=
  e ∈ E ∧ ∀ k ∈ E, k.subscriptionId = e.subscriptionId → k.created ≤ e.created

structure FollowsSubscriptions : Prop where
  same : ∀ ds ds', Delivers E ds → Delivers E ds' →
    standingAfter config tables id ds = standingAfter config tables id ds'
  paid : ∀ ds, Delivers E ds → (∃ e, Latest E e ∧ e.live = true) →
    ∃ standing, standingAfter config tables id ds = some standing ∧
      standing.plan ∈ paidPlans ∧ standing.hasLicenseToken = true

def applicable : List StripeEvent := E.filter config.mints

def CanEndWith (e : StripeEvent) : Prop :=
  e ∈ applicable config E ∧ CanEnd StripeEvent.subscriptionId StripeEvent.created StripeEvent.live
    (applicable config E) e

/-- All the events it can end with give the same standing. -/
def Agree : Prop :=
  ∀ e e', CanEndWith config E e → CanEndWith config E e' → e.gives config = e'.gives config

variable {config : Config} {tables : Tables} {id : String} {E : List StripeEvent}
  {org : Organization} {now : Millis} {event c : StripeEvent} {s : Subscription × Bool}

/-! ## One event on the organization's row -/

structure Shows (config : Config) (org : Organization) (event : StripeEvent) : Prop where
  subscription : org.billingInfo.stripeSubscriptionId = event.subscriptionId
  eventAt : org.billingInfo.subscriptionEventAt = some event.created
  standing : event.gives config = some org.standing

structure Unset (org : Organization) : Prop where
  subscription : org.billingInfo.stripeSubscriptionId = none
  eventAt : org.billingInfo.subscriptionEventAt = none
  status : org.billingInfo.subscriptionStatus = none
  token : org.billingInfo.licenseToken = none

theorem Shows.status (h : Shows config org event) (hs : event.subscription? = some s) :
    org.billingInfo.subscriptionStatus = some (storedStatus s.1 s.2) := by
  have hstanding := h.standing
  unfold StripeEvent.gives at hstanding
  rw [hs, Option.map_some, Option.some.injEq] at hstanding
  refine (congrArg Standing.subscriptionStatus hstanding).symm.trans ?_
  split <;> rfl

theorem Shows.statusIn (h : Shows config org event) :
    org.billingInfo.statusIn terminalSubscriptionStatuses = event.terminal ∧
      org.billingInfo.statusIn liveSubscriptionStatuses = event.live := by
  obtain ⟨s, hs, -⟩ := Option.map_eq_some_iff.mp h.standing
  unfold BillingInfo.statusIn StripeEvent.terminal StripeEvent.live
  rw [h.status hs, hs]
  simp only [Option.any_some]
  cases hterminal : isTerminal s.1 s.2 with
  | true =>
    have hstored := storedStatus_of_terminal hterminal
    simp [hstored, not_live_of_terminal _ hstored]
  | false =>
    obtain ⟨hstored, hnot⟩ := storedStatus_of_not_terminal hterminal
    simp [hstored, hnot]

/-- The row drops what the register does: the guard for an ended subscription only drops what is
older. -/
theorem staleReason_isSome_iff (h : Shows config org c) (hs : event.subscription? = some s)
    (hended : c.subscriptionId = event.subscriptionId → c.terminal = true →
      event.terminal = false → event.created < c.created) :
    (staleReason org.billingInfo s.1 s.2 event.created).isSome = true ↔
      Blocks StripeEvent.subscriptionId StripeEvent.created StripeEvent.live (some c) event := by
  have hid : event.subscriptionId = some s.1.id := by
    unfold StripeEvent.subscriptionId
    rw [hs]
    rfl
  have hterminal : event.terminal = isTerminal s.1 s.2 := by
    unfold StripeEvent.terminal
    rw [hs]
    rfl
  have hset : (setText c.subscriptionId).isSome = true := by
    obtain ⟨s', hs', -⟩ := Option.map_eq_some_iff.mp h.standing
    unfold StripeEvent.subscriptionId
    rw [hs']
    simp [setText, s'.1.id_ne]
  unfold staleReason
  simp only [h.subscription, h.eventAt, Option.getD_some, h.statusIn.1, h.statusIn.2, hset,
    Bool.true_and, ← hid, ← hterminal]
  constructor
  · intro hstale
    refine ⟨c, rfl, ?_⟩
    split at hstale
    next hlt => exact .inl hlt
    split at hstale
    next hguard =>
      simp only [Bool.and_eq_true, Bool.not_eq_true', decide_eq_true_iff] at hguard
      exact .inl (hended hguard.1.1 hguard.2 hguard.1.2)
    split at hstale
    next hguard =>
      simp only [Bool.and_eq_true, Bool.not_eq_true', decide_eq_false_iff_not] at hguard
      exact .inr ⟨fun heq => hguard.1 heq.symm, hguard.2⟩
    next => cases hstale
  · intro ⟨c', hc', hblocks⟩
    obtain rfl := Option.some.inj hc'
    rcases hblocks with hlt | ⟨hne, hlive⟩
    · rw [if_pos hlt]
      rfl
    · have hother : decide (c.subscriptionId = event.subscriptionId) = false :=
        decide_eq_false fun heq => hne heq.symm
      rw [hother, hlive]
      split <;> rfl

theorem live_iff (hs : event.subscription? = some s) :
    event.live = true ↔ isTerminal s.1 s.2 = false ∧
      (s.1.status ∈ dunningSubscriptionStatuses ∨ s.1.status ∈ activeSubscriptionStatuses) := by
  unfold StripeEvent.live liveSubscriptionStatuses
  rw [hs, Option.any_some, Bool.and_eq_true, Bool.not_eq_true', decide_eq_true_iff,
    mem_append, or_comm]

theorem shows_applyTo (id : String) (now : Millis)
    (hstale : staleReason org.billingInfo s.1 s.2 event.created = none)
    (hs : event.subscription? = some s) (hmints : config.mints event = true)
    (hat : org.billingInfo.subscriptionEventAt.getD 0 ≤ event.created) :
    ∃ org', applyTo config now id org s.1 s.2 event.created = .ok org' ∧ Shows config org' event ∧
      org'.billingInfo.stripeCustomerId = org.billingInfo.stripeCustomerId := by
  have hid : event.subscriptionId = some s.1.id := by
    unfold StripeEvent.subscriptionId
    rw [hs]
    rfl
  have hdowngraded (info : BillingInfo) (hdead : event.live = false)
      (hsub : info.stripeSubscriptionId = some s.1.id)
      (hstatus : info.subscriptionStatus = some (storedStatus s.1 s.2))
      (hinfo : info.subscriptionEventAt = some event.created) :
      Shows config (org.downgraded info) event := by
    refine ⟨hsub.trans hid.symm, hinfo, ?_⟩
    unfold StripeEvent.gives Organization.standing Organization.downgraded
    rw [hs, Option.map_some, hdead, if_neg Bool.false_ne_true, hstatus]
    rfl
  have hmax : max (org.billingInfo.subscriptionEventAt.getD 0) event.created = event.created :=
    Nat.max_eq_right hat
  unfold applyTo
  rw [if_neg (by rw [hstale]; exact Bool.false_ne_true)]
  dsimp only
  split
  next hterminal =>
    have hdead : event.live = false :=
      eq_false_of_ne_true fun hlive => by
        rw [((live_iff hs).mp hlive).1] at hterminal
        cases hterminal
    exact ⟨_, rfl, hdowngraded _ hdead rfl rfl (congrArg some hmax), rfl⟩
  next hterminal =>
  split
  next hnone =>
    have hdead : event.live = false := by
      refine eq_false_of_ne_true fun hlive => ?_
      simp only [Bool.and_eq_true, Bool.not_eq_true', decide_eq_false_iff_not,
        decide_eq_true_iff] at hnone
      exact ((live_iff hs).mp hlive).2.elim hnone.1 hnone.2
    exact ⟨_, rfl, hdowngraded _ hdead rfl rfl (congrArg some hmax), rfl⟩
  next hsome =>
    have hlive : event.live = true := by
      refine (live_iff hs).mpr ⟨eq_false_of_ne_true hterminal, ?_⟩
      by_contra hnot
      rw [not_or] at hnot
      exact hsome (by simp [hnot.1, hnot.2])
    have hkey : (setText config.licensePrivateKey).isSome = true := by
      unfold Config.mints at hmints
      rw [hlive] at hmints
      simpa using hmints
    obtain ⟨key, hkey⟩ := Option.isSome_iff_exists.mp hkey
    unfold entitle mintToken
    rw [hkey]
    refine ⟨_, rfl, ⟨hid.symm, congrArg some hmax, ?_⟩, rfl⟩
    unfold StripeEvent.gives Organization.standing
    rw [hs, Option.map_some, hlive, if_pos rfl]
    rfl

theorem applyTo_of_not_mints (id : String) (org : Organization) (now : Millis) (hs : event.subscription? = some s)
    (hmints : config.mints event = false) :
    applyTo config now id org s.1 s.2 event.created = .ok org ∨
      ∃ e, applyTo config now id org s.1 s.2 event.created = .error e := by
  rw [Config.mints, Bool.or_eq_false_iff, Bool.not_eq_false'] at hmints
  obtain ⟨hterminal, hstatus⟩ := (live_iff hs).mp hmints.2
  have hkey : setText config.licensePrivateKey = none := by simpa using hmints.1
  unfold applyTo
  split
  · exact .inl rfl
  right
  dsimp only
  rw [if_neg (by simp [hterminal]), if_neg (by
    simp only [Bool.and_eq_true, Bool.not_eq_true', decide_eq_false_iff_not, decide_eq_true_iff]
    exact fun h => hstatus.elim h.1 h.2)]
  unfold entitle mintToken
  rw [hkey]
  exact ⟨_, rfl⟩

/-! ## One delivery -/

/-- Which organization an event resolves to depends on the ids and the customers alone. -/
def Tables.customers (tables : Tables) : List (String × Option String) :=
  tables.organizations.map fun e => (e.1, e.2.billingInfo.stripeCustomerId)

theorem isSome_lookup_iff (tables : Tables) (id : String) :
    (tables.organizations.lookup id).isSome = true ↔ id ∈ tables.customers.map (·.1) := by
  rw [Assoc.lookup_isSome_iff, Tables.customers, map_map]
  exact Iff.rfl

theorem findOrgForSubscription_congr {tables' : Tables} (h : tables'.customers = tables.customers)
    (s : Subscription) : tables'.findOrgForSubscription s = tables.findOrgForSubscription s := by
  have hcustomer (t : Tables) (cid : String) :
      (t.organizations.find? fun e => e.2.billingInfo.stripeCustomerId = some cid).map (·.1) =
        (t.customers.find? fun e => e.2 = some cid).map (·.1) := by
    rw [Tables.customers, List.find?_map, Option.map_map]
    rfl
  have hknown (id : String) : (tables'.organizations.lookup id).isSome =
      (tables.organizations.lookup id).isSome := by
    rw [Bool.eq_iff_iff, isSome_lookup_iff, isSome_lookup_iff, h]
  unfold Tables.findOrgForSubscription Tables.findOrgForCustomer
  simp only [hcustomer, hknown, h]

theorem customers_save {org' : Organization} (h : tables.organizations.lookup id = some org)
    (hcustomer : org'.billingInfo.stripeCustomerId = org.billingInfo.stripeCustomerId) :
    (tables.save id org').customers = tables.customers :=
  Assoc.map_put_of_lookup h (congrArg (Prod.mk id) hcustomer)

theorem applyEvent_subscription (hs : event.subscription? = some s) :
    applyEvent config now tables event =
      applySubscription config now tables s.1 s.2 event.created := by
  unfold StripeEvent.subscription? at hs
  unfold applyEvent
  cases hdata : event.data with
  | subscriptionCreated _ | subscriptionUpdated _ | subscriptionDeleted _ =>
    rw [hdata] at hs
    obtain rfl := Option.some.inj hs
    rfl
  | paymentFailed _ | paymentSucceeded _ | other =>
    rw [hdata] at hs
    cases hs

theorem deliver_seen (h : (tables.events.lookup event.id).isSome = true) :
    deliver config tables (now, event) = tables := by
  unfold deliver handleWebhookEvent
  rw [if_pos h]

theorem deliver_unseen (h : tables.events.lookup event.id = none)
    (hs : event.subscription? = some s) (hfind : tables.findOrgForSubscription s.1 = some id)
    (horg : tables.organizations.lookup id = some org) :
    deliver config tables (now, event) =
      match applyTo config now id org s.1 s.2 event.created with
      | .ok org' => { tables.save id org' with events := tables.events ++ [(event.id, some id)] }
      | .error _ => tables := by
  unfold deliver handleWebhookEvent
  rw [h, applyEvent_subscription hs]
  unfold applySubscription
  simp only [hfind, horg]
  cases applyTo config now id org s.1 s.2 event.created <;> rfl

theorem lookup_events_append {events : List (String × Option String)} {o : Option String}
    {k : String} : ((events ++ [(event.id, o)]).lookup k).isSome = true ↔
      (events.lookup k).isSome = true ∨ k = event.id := by
  rw [lookup_append, Option.isSome_or, Bool.or_eq_true, Assoc.lookup_cons]
  by_cases hk : k = event.id <;> simp [hk]

/-! ## The row is the register's -/

abbrev EventRegister := Register StripeEvent

abbrev take : EventRegister → StripeEvent → EventRegister :=
  receive StripeEvent.subscriptionId StripeEvent.created StripeEvent.live

structure Sim (config : Config) (before : Tables) (id : String) (E : List StripeEvent)
    (org₀ : Organization) (tables : Tables) (r : EventRegister) : Prop where
  customers : tables.customers = before.customers
  seen : ∀ e ∈ E, config.mints e = true → ((tables.events.lookup e.id).isSome = true ↔ e ∈ r.seen)
  row : ∃ org, tables.organizations.lookup id = some org ∧ (r.held = none → org = org₀) ∧
    ∀ c, r.held = some c → c ∈ E ∧ Shows config org c

variable {before : Tables} {org₀ : Organization} {r : EventRegister}

abbrev Dropped (held : Option StripeEvent) (event : StripeEvent) : Prop :=
  Blocks StripeEvent.subscriptionId StripeEvent.created StripeEvent.live held event

def Tables.handled (tables : Tables) (id : String) (event : StripeEvent) (org : Organization) :
    Tables :=
  { tables.save id org with events := tables.events ++ [(event.id, some id)] }

theorem lookup_handled : (tables.handled id event org).organizations.lookup id = some org :=
  (Assoc.lookup_put ..).trans (if_pos rfl)

theorem Sim.recorded (hE : EventsOf before id E) (h : Sim config before id E org₀ tables r)
    (he : event ∈ E) {k : StripeEvent} (hk : k ∈ E) (hmints : config.mints k = true) :
    ((tables.handled id event org).events.lookup k.id).isSome = true ↔ k ∈ r.seen ∨ k = event := by
  refine lookup_events_append.trans ?_
  rw [h.seen k hk hmints]
  exact or_congr_right ⟨fun heq => hE.ids k hk event he heq, fun heq => heq ▸ rfl⟩

theorem Sim.stale_iff (hE : EventsOf before id E) (hunset : Unset org₀)
    (h : Sim config before id E org₀ tables r) (he : event ∈ E)
    (hs : event.subscription? = some s) (horg : tables.organizations.lookup id = some org) :
    (staleReason org.billingInfo s.1 s.2 event.created).isSome = true ↔ Dropped r.held event := by
  obtain ⟨org', horg', hnone, hsome⟩ := h.row
  obtain rfl : org = org' := Option.some.inj (horg.symm.trans horg')
  cases hheld : r.held with
  | none =>
    rw [hnone hheld]
    refine iff_of_false ?_ fun ⟨_, hc, _⟩ => nomatch hc
    unfold staleReason BillingInfo.statusIn
    simp [hunset.subscription, hunset.eventAt, hunset.status, setText]
  | some c =>
    obtain ⟨hc, hshows⟩ := hsome c hheld
    refine staleReason_isSome_iff hshows hs fun hsame hterminal hnot => ?_
    refine Nat.lt_of_le_of_ne (hE.ended c hc event he hsame hterminal hnot) fun heq => ?_
    rw [hE.times event he c hc heq, hterminal] at hnot
    cases hnot

theorem Sim.step_throwing (hE : EventsOf before id E) (h : Sim config before id E org₀ tables r)
    (he : event ∈ E) (hs : event.subscription? = some s)
    (hfind : tables.findOrgForSubscription s.1 = some id)
    (hlookup : tables.events.lookup event.id = none) (hmints : config.mints event = false) :
    Sim config before id E org₀ (deliver config tables (now, event)) r := by
  obtain ⟨org, horg, hrow⟩ := h.row
  rw [deliver_unseen hlookup hs hfind horg]
  rcases applyTo_of_not_mints id org now hs hmints with hok | ⟨_, herr⟩
  · rw [hok]
    refine ⟨(customers_save horg rfl).trans h.customers, fun k hk hk' => ?_, org, lookup_handled,
      hrow⟩
    refine (h.recorded hE he hk hk').trans (or_iff_left fun heq => ?_)
    rw [heq, hmints] at hk'
    cases hk'
  · rw [herr]
    exact h

theorem Sim.step_minting (hE : EventsOf before id E) (hunset : Unset org₀)
    (h : Sim config before id E org₀ tables r) (he : event ∈ E)
    (hs : event.subscription? = some s) (hfind : tables.findOrgForSubscription s.1 = some id)
    (hlookup : tables.events.lookup event.id = none) (hmints : config.mints event = true) :
    Sim config before id E org₀ (deliver config tables (now, event)) (take r event) := by
  obtain ⟨org, horg, hnone, hsome⟩ := h.row
  have hstale := h.stale_iff hE hunset he hs horg
  have hnew : event ∉ r.seen := fun hin => by
    have := (h.seen event he hmints).mpr hin
    rw [hlookup] at this
    cases this
  have htake : take r event =
      { seen := r.seen ++ [event], held := if Dropped r.held event then r.held else some event } :=
    if_neg hnew
  have hseen (org' : Organization) (k : StripeEvent) (hk : k ∈ E) (hk' : config.mints k = true) :
      ((tables.handled id event org').events.lookup k.id).isSome = true ↔
        k ∈ r.seen ++ [event] := by
    rw [h.recorded hE he hk hk', mem_append, mem_singleton]
  rw [deliver_unseen hlookup hs hfind horg, htake]
  by_cases hdropped : Dropped r.held event
  · have hkept : applyTo config now id org s.1 s.2 event.created = .ok org :=
      if_pos (hstale.mpr hdropped)
    rw [if_pos hdropped, hkept]
    exact ⟨(customers_save horg rfl).trans h.customers, hseen org, org, lookup_handled, hnone, hsome⟩
  · have hnotStale : staleReason org.billingInfo s.1 s.2 event.created = none := by
      simpa using mt hstale.mp hdropped
    have hat : org.billingInfo.subscriptionEventAt.getD 0 ≤ event.created := by
      cases hheld : r.held with
      | none =>
        rw [hnone hheld, hunset.eventAt]
        exact Nat.zero_le _
      | some c =>
        rw [(hsome c hheld).2.eventAt]
        exact Nat.le_of_not_lt fun hlt => hdropped ⟨c, hheld, .inl hlt⟩
    obtain ⟨org', happly, hshows, hcustomer⟩ :=
      shows_applyTo id now hnotStale hs hmints hat
    rw [if_neg hdropped, happly]
    refine ⟨(customers_save horg hcustomer).trans h.customers, hseen org', org', lookup_handled,
      fun hnone => (nomatch hnone), fun c hc => ?_⟩
    obtain rfl := Option.some.inj hc
    exact ⟨he, hshows⟩

theorem Sim.step (now : Millis) (hE : EventsOf before id E) (hunset : Unset org₀)
    (h : Sim config before id E org₀ tables r) (he : event ∈ E) :
    Sim config before id E org₀ (deliver config tables (now, event))
      (if config.mints event then take r event else r) := by
  obtain ⟨s, hs, hfind⟩ := hE.resolves event he
  rw [← findOrgForSubscription_congr h.customers] at hfind
  cases hlookup : tables.events.lookup event.id with
  | some _ =>
    rw [deliver_seen (by rw [hlookup]; rfl)]
    split
    next hmints =>
      have hin : event ∈ r.seen := (h.seen event he hmints).mp (by rw [hlookup]; rfl)
      rw [show take r event = r from if_pos hin]
      exact h
    next => exact h
  | none =>
    split
    next hmints => exact h.step_minting hE hunset he hs hfind hlookup hmints
    next hmints => exact h.step_throwing hE he hs hfind hlookup (eq_false_of_ne_true hmints)

variable {ds : List (Millis × StripeEvent)}

/-- The row is what the register is over the deliveries that do not throw. -/
theorem sim_run (hE : EventsOf before id E) (hunset : Unset org₀) (hds : ∀ d ∈ ds, d.2 ∈ E)
    (h : Sim config before id E org₀ tables r) :
    Sim config before id E org₀ (run (deliver config) tables ds)
      (run take r ((ds.map (·.2)).filter config.mints)) := by
  induction ds generalizing tables r with
  | nil => exact h
  | cons d ds ih =>
    have hstep := h.step d.1 hE hunset (hds d mem_cons_self)
    rw [run_cons, map_cons, filter_cons]
    have hrest := ih (fun d hd => hds d (mem_cons_of_mem _ hd)) hstep
    split
    next hmints =>
      rw [if_pos hmints] at hrest
      exact hrest
    next hmints =>
      rw [if_neg hmints] at hrest
      exact hrest

/-! ## Every order of the deliveries -/

theorem Fresh.sim (config : Config) (h : Fresh before id E) :
    ∃ org₀, Unset org₀ ∧ Sim config before id E org₀ before {} := by
  obtain ⟨org, horg, hinfo⟩ := h.row
  refine ⟨org, ?_, rfl, fun e he _ => ?_, org, horg, fun _ => rfl, fun c hc => nomatch hc⟩
  · exact ⟨congrArg BillingInfo.stripeSubscriptionId hinfo,
      congrArg BillingInfo.subscriptionEventAt hinfo,
      congrArg BillingInfo.subscriptionStatus hinfo, congrArg BillingInfo.licenseToken hinfo⟩
  · rw [h.unseen e he]
    exact iff_of_false Bool.false_ne_true not_mem_nil

theorem standingAfter_eq (hE : EventsOf before id E) (hunset : Unset org₀)
    (h : Sim config before id E org₀ before {}) (hds : Delivers E ds) :
    standingAfter config before id ds =
      match (run take {} ((ds.map (·.2)).filter config.mints)).held with
      | none => some org₀.standing
      | some c => c.gives config := by
  obtain ⟨org, horg, hnone, hsome⟩ :=
    (sim_run hE hunset (fun d hd => (hds d.2).mp (mem_map_of_mem hd)) h).row
  unfold standingAfter
  rw [horg]
  split
  next hheld => rw [hnone hheld]; rfl
  next c hheld => exact (hsome c hheld).2.standing.symm

theorem Delivers.applicable (hds : Delivers E ds) (config : Config) (k : StripeEvent) :
    k ∈ (ds.map (·.2)).filter config.mints ↔ k ∈ applicable config E := by
  unfold Billing.applicable
  rw [mem_filter, mem_filter, hds k]

theorem EventsOf.times_applicable (hE : EventsOf before id E) (config : Config) :
    Distinct StripeEvent.created (applicable config E) :=
  fun a ha b hb => hE.times a (mem_filter.mp ha).1 b (mem_filter.mp hb).1

theorem map_snd_deliveries (l : List StripeEvent) :
    (l.map fun e => ((0 : Millis), e)).map (·.2) = l := by
  rw [map_map]
  exact map_id l

theorem canEndWith_iff (hE : EventsOf before id E) {e : StripeEvent} :
    CanEndWith config E e ↔ ∃ ds, Delivers E ds ∧
      (run take {} ((ds.map (·.2)).filter config.mints)).held = some e := by
  rw [CanEndWith, ← ends_iff (hE.times_applicable config)]
  constructor
  · intro ⟨order, horder, hheld⟩
    -- the events that throw come last
    refine ⟨(order ++ E.filter fun e => !config.mints e).map fun e => (0, e), fun k => ?_, ?_⟩
    · rw [map_snd_deliveries, mem_append, horder k, Billing.applicable, mem_filter, mem_filter, ← and_or_left]
      exact and_iff_left (by cases config.mints k <;> simp)
    · have hkept : order.filter config.mints = order :=
        filter_eq_self.mpr fun k hk => (mem_filter.mp ((horder k).mp hk)).2
      have hthrow : (E.filter fun e => !config.mints e).filter config.mints = [] := by
        rw [filter_filter]
        exact filter_eq_nil_iff.mpr fun k _ => by simp
      rw [map_snd_deliveries, filter_append, hkept, hthrow, append_nil]
      exact hheld
  · exact fun ⟨ds, hds, hheld⟩ => ⟨_, hds.applicable config, hheld⟩

theorem gives_hasLicenseToken {standing : Standing} (h : event.gives config = some standing) :
    standing.hasLicenseToken = event.live ∧ (event.live = true → standing.plan ∈ paidPlans) := by
  obtain ⟨s, -, rfl⟩ := Option.map_eq_some_iff.mp h
  cases hlive : event.live with
  | true => exact ⟨rfl, fun _ => planFromSubscription_mem⟩
  | false => exact ⟨rfl, fun h => nomatch h⟩

theorem agree_of_one_subscription (htimes : Distinct StripeEvent.created E)
    (hone : ∀ a ∈ E, ∀ b ∈ E, a.subscriptionId = b.subscriptionId) : Agree config E := by
  have hnewest {e : StripeEvent} (he : CanEndWith config E e) :
      ∀ k ∈ applicable config E, k.created ≤ e.created := by
    obtain ⟨hin, hcan⟩ := he
    have howner {a b : StripeEvent} (ha : a ∈ applicable config E)
        (hb : b ∈ applicable config E) : a.subscriptionId = b.subscriptionId :=
      hone a (mem_filter.mp ha).1 b (mem_filter.mp hb).1
    unfold CanEnd at hcan
    split at hcan
    · rcases hcan with hlast | ⟨s, hne, p, hp, -, -, hps, -⟩
      · exact fun k hk => hlast k hk (howner hk hin)
      · exact absurd (hps.symm.trans (howner hp hin)) hne
    · rcases hcan with hnewest | ⟨p, hp, -, -, q, hq, -, -, -, -, hne, -⟩ | ⟨s, hoff, hnone⟩
      · exact hnewest
      · exact absurd (howner hp hq) hne
      · obtain ⟨p, hp, -, -, hps, -⟩ := hoff
        exact fun k hk => Nat.le_of_not_lt fun hlt => hnone k hk hlt ((howner hk hp).trans hps)
  intro e e' he he'
  have heq : e = e' := htimes e (mem_filter.mp he.1).1 e' (mem_filter.mp he'.1).1
    (Nat.le_antisymm (hnewest he' e he.1) (hnewest he e' he'.1))
  rw [heq]

/-- Every order leaves the organization the same, and paid when a subscription is live, exactly when
all the events it can end with agree and there is a key to sign with. -/
theorem follows_subscriptions_iff (hE : EventsOf tables id E) (hfresh : Fresh tables id E) :
    FollowsSubscriptions config tables id E ↔
      Agree config E ∧ ∀ e, Latest E e → e.live = true → config.mints e = true := by
  obtain ⟨org₀, hunset, hsim⟩ := hfresh.sim config
  have hstanding {ds : List (Millis × StripeEvent)} (hds : Delivers E ds) :=
    standingAfter_eq hE hunset hsim hds
  constructor
  · intro hfollows
    refine ⟨fun e e' he he' => ?_, fun e hlatest hlive => ?_⟩
    · obtain ⟨ds, hds, hheld⟩ := (canEndWith_iff hE).mp he
      obtain ⟨ds', hds', hheld'⟩ := (canEndWith_iff hE).mp he'
      have hsame := hfollows.same ds ds' hds hds'
      rwa [hstanding hds, hstanding hds', hheld, hheld'] at hsame
    · by_contra hthrows
      have hds : Delivers E (E.map fun e => (0, e)) := fun k => by rw [map_snd_deliveries]
      obtain ⟨standing, hafter, -, htoken⟩ := hfollows.paid _ hds ⟨e, hlatest, hlive⟩
      rw [hstanding hds] at hafter
      split at hafter
      next =>
        obtain rfl := Option.some.inj hafter
        rw [Organization.standing, hunset.token] at htoken
        cases htoken
      next c hheld =>
        rw [(gives_hasLicenseToken hafter).1] at htoken
        have hc : CanEndWith config E c := (canEndWith_iff hE).mpr ⟨_, hds, hheld⟩
        have hmints := (mem_filter.mp hc.1).2
        -- one live event mints exactly when any does
        rw [Config.mints, htoken] at hmints
        rw [Config.mints, hlive] at hthrows
        exact hthrows hmints
  · intro ⟨hagree, hmints⟩
    constructor
    · intro ds ds' hds hds'
      rw [hstanding hds, hstanding hds']
      have hnone {ds : List (Millis × StripeEvent)} (hds : Delivers E ds)
          (hempty : applicable config E = []) :
          (run take {} ((ds.map (·.2)).filter config.mints)).held = none := by
        have hnil : (ds.map (·.2)).filter config.mints = [] := by
          refine eq_nil_iff_forall_not_mem.mpr fun k hk => ?_
          rw [hds.applicable config, hempty] at hk
          exact not_mem_nil hk
        rw [hnil]
        rfl
      by_cases hempty : applicable config E = []
      · rw [hnone hds hempty, hnone hds' hempty]
      · have hsome {ds : List (Millis × StripeEvent)} (hds : Delivers E ds) :
            ∃ e, (run take {} ((ds.map (·.2)).filter config.mints)).held = some e := by
          refine held_isSome (hE.times_applicable config) (fun k hk => (hds.applicable config k).mp hk)
            fun hnil => hempty (eq_nil_iff_forall_not_mem.mpr fun k hk => ?_)
          rw [← hds.applicable config, hnil] at hk
          exact not_mem_nil hk
        obtain ⟨e, he⟩ := hsome hds
        obtain ⟨e', he'⟩ := hsome hds'
        rw [he, he']
        exact hagree e e' ((canEndWith_iff hE).mpr ⟨ds, hds, he⟩)
          ((canEndWith_iff hE).mpr ⟨ds', hds', he'⟩)
    · intro ds hds ⟨e, hlatest, hlive⟩
      have hin : e ∈ applicable config E :=
        mem_filter.mpr ⟨hlatest.1, hmints e hlatest hlive⟩
      have hcan : CanEndWith config E e := by
        refine ⟨hin, ?_⟩
        unfold CanEnd
        rw [if_pos hlive]
        exact .inl fun k hk => hlatest.2 k (mem_filter.mp hk).1
      obtain ⟨c, hheld⟩ : ∃ c, (run take {} ((ds.map (·.2)).filter config.mints)).held = some c :=
        held_isSome (hE.times_applicable config) (fun k hk => (hds.applicable config k).mp hk)
          (ne_nil_of_mem ((hds.applicable config e).mpr hin))
      have hgives := hagree c e ((canEndWith_iff hE).mpr ⟨ds, hds, hheld⟩) hcan
      obtain ⟨s, hs, -⟩ := hE.resolves e hlatest.1
      obtain ⟨standing, hgiven⟩ : ∃ standing, e.gives config = some standing := by
        unfold StripeEvent.gives
        rw [hs]
        exact ⟨_, rfl⟩
      obtain ⟨htoken, hpaid⟩ := gives_hasLicenseToken hgiven
      refine ⟨standing, ?_, hpaid hlive, htoken.trans hlive⟩
      rw [hstanding hds, hheld]
      exact hgives.trans hgiven

/-! ## Two subscriptions, in two orders -/

/-- The live subscription, and a second one that is canceled later. -/
def acmeEvents : List StripeEvent := [
  { id := "evt_1", created := 1000, created_pos := created_first
    data := .subscriptionCreated (acmeSubscription "sub_live" live_ne "active") },
  { id := "evt_2", created := 2000, created_pos := created_second
    data := .subscriptionDeleted (acmeSubscription "sub_old" (by decide) "canceled") }]

/-- Delivered in time the organization is on its plan; the other way round it is on none. -/
theorem canceled_first_drops_the_live :
    ¬FollowsSubscriptions hosted acmeTables "acme" acmeEvents := by
  intro h
  have hds : Delivers acmeEvents (acmeEvents.map fun e => (0, e)) := fun k => by
    rw [map_snd_deliveries]
  have hds' : Delivers acmeEvents (acmeEvents.reverse.map fun e => (0, e)) := fun k => by
    rw [map_snd_deliveries, mem_reverse]
  have hsame := h.same _ _ hds hds'
  revert hsame
  decide

def lateEvents : List StripeEvent := [
  { id := "evt_1", created := 1000, created_pos := created_first
    data := .subscriptionUpdated (acmeSubscription "sub_live" live_ne "past_due") },
  { id := "evt_2", created := 2000, created_pos := created_second
    data := .subscriptionUpdated (acmeSubscription "sub_live" live_ne "active") }]

/-- It is followed, in whatever order its events come. -/
theorem late_payment_followed : FollowsSubscriptions hosted acmeTables "acme" lateEvents := by
  refine (follows_subscriptions_iff ⟨?_, by decide, by decide, by decide⟩
    ⟨⟨_, rfl, rfl⟩, by decide⟩).mpr ⟨agree_of_one_subscription (by decide) (by decide), ?_⟩
  · intro e he
    rcases mem_cons.mp he with rfl | he
    · exact ⟨_, rfl, by decide⟩
    · obtain rfl := mem_singleton.mp he
      exact ⟨_, rfl, by decide⟩
  · exact fun _ _ _ => rfl

end Almyty.Billing
