import Almyty.Routing.ModelRouter

/-!
# Moving on after a rejected answer: `model-router.service.ts`, `verify-escalation.ts`

`plan` takes the selected candidates to the providers they are called through and drops those it
cannot call; `callRouted` tries what is left in order and says at which place of *that* list the
answer came. When a verifier rejects the answer, the request is re-issued with as many candidates
skipped as that place says, counted on from the last skip, but the skip is taken off the selection
order, where the dropped candidates still stand.

The two counts agree while every candidate up to the one that answered had a provider
(`HeadResolves`). Then each answer comes from further down the order than the last
(`answers_sublist`); otherwise a card that was just rejected stays in the plan, and with nothing
else changed it answers again (`answers_repeat`).

Mirroring notes:
- What a round meets is its `Surroundings`: the provider rows as they are then, who may use them,
  and how each call goes.
-/

namespace Almyty.Routing

open Almyty.Lib List

inductive LlmProviderStatus
  | active | inactive | error
  deriving DecidableEq

def LlmProviderStatus.text : LlmProviderStatus → String
  | .active => "active"
  | .inactive => "inactive"
  | .error => "error"

structure LlmProvider where
  id : String
  name : String
  allowNewModels : Bool := true
  hiddenModels : List String := []
  allowedModels : List String := []
  isHealthy : Bool := true
  status : LlmProviderStatus := .active

/-- Whether `model` may be used through this connection. -/
def providerAllowsModel (provider : Option LlmProvider) (model : String) : Bool :=
  match provider with
  | none => true
  | some p =>
    model = "" ||
      if p.allowNewModels then !p.hiddenModels.contains model else p.allowedModels.contains model

def notAllowedReason (connectionName : String) : String :=
  "not allowed on the connection \"" ++ connectionName ++ "\""

structure Catalog where
  cards : List Model
  connections : String → Option LlmProvider
  ids : (cards.map (·.id)).Nodup

def Catalog.stamped (catalog : Catalog) : List Model :=
  catalog.cards.map fun card =>
    { card with
      allowed := some (providerAllowsModel (card.providerId.bind catalog.connections)
        card.vendorModelId) }

/-- A model its connection hides is out before anything is ranked. -/
def Catalog.visible (catalog : Catalog) : List Model :=
  catalog.stamped.filter (·.allowed = some true)

def Catalog.hidden (catalog : Catalog) : List Rejected :=
  catalog.stamped.filterMap fun card =>
    if card.allowed = some true then none
    else (card.providerId.bind catalog.connections).map fun p =>
      ⟨card.id, notAllowedReason p.name⟩

theorem Catalog.visible_ids (catalog : Catalog) : (catalog.visible.map (·.id)).Nodup := by
  have hstamped : catalog.stamped.map (·.id) = catalog.cards.map (·.id) := by
    rw [stamped, map_map]
    rfl
  exact (hstamped ▸ catalog.ids).sublist (filter_sublist.map _)

structure ResolvedCandidate where
  candidate : RouteCandidate
  card : Model
  provider : LlmProvider

structure CallError where
  /-- `error.response?.status ?? error.status ?? 0`. -/
  status : Nat := 0
  /-- An `AbortError` or a `CanceledError`. -/
  cancelled : Bool := false
  reason : String := "failed"

inductive CallOutcome
  | answered
  | failed (error : CallError)

structure Surroundings where
  /-- The provider rows as they are now. -/
  providers : String → Option LlmProvider
  /-- `providerUsableByUser`, for whom the call acts as. -/
  usable : LlmProvider → Bool := fun _ => true
  /-- The connection the row refers to still resolves. -/
  credentialResolves : LlmProvider → Model → Bool := fun _ _ => true
  /-- How `callWithRetries` ends. -/
  call : ResolvedCandidate → CallOutcome
  /-- The caller's signal. -/
  aborted : Bool := false

def providerFor (around : Surroundings) (card : Model) : Option LlmProvider :=
  (card.providerId.bind around.providers).filter fun p =>
    around.usable p && around.credentialResolves p card

def resolve (catalog : Catalog) (around : Surroundings) (c : RouteCandidate) :
    Except Rejected ResolvedCandidate :=
  match catalog.stamped.find? (·.id = c.modelId) with
  | none => .error ⟨c.modelId, "no callable provider"⟩
  | some card =>
    match providerFor around card with
    | none => .error ⟨card.id, "no callable provider"⟩
    | some p =>
      if !providerAllowsModel (some p) card.vendorModelId then
        .error ⟨card.id, notAllowedReason p.name⟩
      else if !p.isHealthy || p.status ≠ .active then
        .error ⟨card.id, "provider " ++ p.name ++ " is " ++
          if p.isHealthy then p.status.text else "unhealthy"⟩
      else .ok ⟨c, card, p⟩

structure RoutePlan where
  candidates : List ResolvedCandidate
  rejected : List Rejected

def plan (arithmetic : Arithmetic) (catalog : Catalog) (around : Surroundings)
    (policy : RoutingPolicy) : RoutePlan :=
  let selected := selectCandidates arithmetic catalog.visible policy
  { candidates := selected.1.filterMap fun c => (resolve catalog around c).toOption
    rejected := selected.2 ++ catalog.hidden ++ selected.1.filterMap fun c =>
      match resolve catalog around c with
      | .ok _ => none
      | .error r => some r }

structure RouteAttribution where
  modelId : String
  modelVersionId : Option String
  vendorModelId : String
  providerId : Option String
  rationale : String
  /-- The place of the candidate in the plan, from one. -/
  attempt : Nat
  tried : List Rejected
  rejected : List Rejected

inductive RouteResult
  | noRoute (rejected : List Rejected)
  | answered (routing : RouteAttribution)
  | failed (error : CallError)
  | exhausted (tried : List Rejected)

/-- Failures that are the request's fault, and a caller's abort, stop the walk. -/
def canAdvanceRoute (error : CallError) (aborted : Bool) : Bool :=
  !(aborted || error.cancelled) && !([400, 413, 422].contains error.status)

def attribution (c : ResolvedCandidate) (attempt : Nat) (tried rejected : List Rejected) :
    RouteAttribution where
  modelId := c.candidate.modelId
  modelVersionId := c.candidate.modelVersionId
  vendorModelId := c.candidate.vendorModelId
  providerId := c.card.providerId
  rationale := c.candidate.rationale
  attempt := attempt
  tried := tried
  rejected := rejected

def walk (around : Surroundings) (rejected : List Rejected) :
    List ResolvedCandidate → Nat → List Rejected → RouteResult
  | [], _, tried => .exhausted tried
  | c :: rest, i, tried =>
    match around.call c with
    | .answered => .answered (attribution c (i + 1) tried rejected)
    | .failed error =>
      if canAdvanceRoute error around.aborted then
        walk around rejected rest (i + 1) (tried ++ [⟨c.candidate.modelId, error.reason⟩])
      else .failed error

def callRouted (arithmetic : Arithmetic) (catalog : Catalog) (around : Surroundings)
    (policy : RoutingPolicy) : RouteResult :=
  let route := plan arithmetic catalog around policy
  if route.candidates = [] then .noRoute route.rejected
  else walk around route.rejected route.candidates 0 []

/-! ## The decision -/

structure VerifyOutcome where
  passed : Bool
  /-- How many failures it lists. -/
  failures : Nat := 0

structure EscalationState where
  attempt : Nat
  candidateCount : Option Int := none
  escalations : Nat
  aborted : Bool := false

inductive EscalationDecision
  | accept (reason : String)
  | stop (reason : String)
  | escalate (reason : String) (nextAttempt skipCandidates : Nat)

/-- The escalations a request may use; `none` is no bound. -/
def effectiveMax (policy : VerifyEscalationPolicy) (state : EscalationState) : Option Nat :=
  let room := state.candidateCount.map fun n => (n - 1).toNat
  match policy.maxEscalations with
  | none => room
  | some most => some ((room.map (min · most.floor.toNat)).getD most.floor.toNat)

def plural (n : Nat) : String := if n = 1 then "" else "s"

def decideEscalation (policy : RoutingPolicy) (outcome : VerifyOutcome)
    (state : EscalationState) (enabled : Bool) : EscalationDecision :=
  if outcome.passed then .accept "verifier passed"
  else if !enabled then .stop "verify escalation disabled (MODEL_ROUTER_VERIFY_ESCALATION)"
  else
    match policy.escalation with
    | none => .stop "no escalation policy on the route"
    | some escalation =>
      if escalation.onVerifyFail ≠ .nextCandidate then .stop "escalation policy is 'stop'"
      else if state.aborted then .stop "request cancelled"
      else if state.attempt < 1 then .stop "attempt position unknown"
      else
        match (effectiveMax escalation state).filter (· ≤ state.escalations) with
        | some most =>
          .stop (if most = 0 then "no escalation budget"
            else "escalation budget exhausted (" ++ toString state.escalations ++ "/" ++
              toString most ++ ")")
        | none =>
          if state.candidateCount.any fun n => n ≤ (state.attempt : Int) then
            .stop "no further candidate in the plan"
          else
            .escalate
              ("verifier rejected candidate " ++ toString state.attempt ++
                (state.candidateCount.map fun n => " of " ++ toString n).getD "" ++ " (" ++
                toString outcome.failures ++ " failure" ++ plural outcome.failures ++
                "); trying candidate " ++ toString (state.attempt + 1))
              (state.attempt + 1) state.attempt

def nextRoutingPolicy (policy : RoutingPolicy) (skipCandidates : Nat) : RoutingPolicy :=
  { policy with skipCandidates := some skipCandidates }

def planPosition (attempt : Nat) (policy : RoutingPolicy) : Nat := attempt + policy.skip

/-! ## Rounds -/

structure Round where
  around : Surroundings
  verdict : VerifyOutcome
  /-- The caller is cancelled by the time of the verdict. -/
  cancelled : Bool := false

section

variable (arithmetic : Arithmetic) (catalog : Catalog) (enabled : Bool) (count : Option Int)

def turn (round : Round) (policy : RoutingPolicy) (escalations : Nat) :
    Option (RouteAttribution × Option RoutingPolicy) :=
  match callRouted arithmetic catalog round.around policy with
  | .answered routing =>
    match decideEscalation policy round.verdict
      { attempt := planPosition routing.attempt policy, candidateCount := count, escalations,
        aborted := round.cancelled } enabled with
    | .escalate _ _ skip => some (routing, some (nextRoutingPolicy policy skip))
    | _ => some (routing, none)
  | _ => none

def answers : List Round → RoutingPolicy → Nat → List RouteAttribution
  | [], _, _ => []
  | round :: rest, policy, escalations =>
    match turn arithmetic catalog enabled count round policy escalations with
    | none => []
    | some (routing, none) => [routing]
    | some (routing, some next) => routing :: answers rest next (escalations + 1)

end

/-! ## Where an answer comes from -/

section

variable {arithmetic : Arithmetic} {catalog : Catalog} {around : Surroundings}
  {policy : RoutingPolicy} {enabled : Bool} {count : Option Int}

def AnswersHere (catalog : Catalog) (around : Surroundings) (c : RouteCandidate) : Prop :=
  ∃ r, (resolve catalog around c).toOption = some r ∧ around.call r = .answered

/-- A candidate the walk goes past: it fails, or it is not in the plan. -/
def PassedOver (catalog : Catalog) (around : Surroundings) (c : RouteCandidate) : Prop :=
  ∀ r, (resolve catalog around c).toOption = some r →
    ∃ error, around.call r = .failed error ∧ canAdvanceRoute error around.aborted = true

/-- Every candidate ahead of the one that answers has a provider it can be called through. -/
def HeadResolves (catalog : Catalog) (around : Surroundings) (order : List RouteCandidate) : Prop :=
  ∀ pre c post, order = pre ++ c :: post → AnswersHere catalog around c →
    (∀ b ∈ pre, PassedOver catalog around b) →
    ∀ b ∈ pre, (resolve catalog around b).toOption.isSome

theorem walk_answered_iff {rejected tried : List Rejected} {cs : List ResolvedCandidate} {i : Nat}
    {modelId : String} {attempt : Nat} :
    (∃ routing, walk around rejected cs i tried = .answered routing ∧
        routing.modelId = modelId ∧ routing.attempt = attempt) ↔
      ∃ pre r post, cs = pre ++ r :: post ∧ around.call r = .answered ∧
        (∀ b ∈ pre, ∃ error, around.call b = .failed error ∧
          canAdvanceRoute error around.aborted = true) ∧
        r.candidate.modelId = modelId ∧ attempt = i + pre.length + 1 := by
  induction cs generalizing i tried with
  | nil => simp [walk]
  | cons c rest ih =>
    cases hcall : around.call c with
    | answered =>
      simp only [walk, hcall]
      constructor
      · rintro ⟨routing, hrouting, rfl, rfl⟩
        obtain rfl := RouteResult.answered.inj hrouting
        exact ⟨[], c, rest, rfl, hcall, fun b hb => absurd hb not_mem_nil, rfl, rfl⟩
      · rintro ⟨pre, r, post, hcs, -, hpre, rfl, rfl⟩
        cases pre with
        | nil =>
          obtain ⟨rfl, -⟩ := List.cons.inj hcs
          exact ⟨_, rfl, rfl, rfl⟩
        | cons b pre =>
          -- the first candidate answered, so nothing was passed over
          obtain ⟨rfl, -⟩ := List.cons.inj hcs
          obtain ⟨error, herror, -⟩ := hpre c mem_cons_self
          rw [hcall] at herror
          cases herror
    | failed error =>
      by_cases hadvance : canAdvanceRoute error around.aborted = true
      · simp only [walk, hcall, hadvance, if_true]
        rw [ih]
        constructor
        · rintro ⟨pre, r, post, rfl, hr, hpre, hid, hattempt⟩
          refine ⟨c :: pre, r, post, rfl, hr, ?_, hid, ?_⟩
          · intro b hb
            rcases mem_cons.mp hb with rfl | hb
            · exact ⟨error, hcall, hadvance⟩
            · exact hpre b hb
          · rw [length_cons]
            omega
        · rintro ⟨pre, r, post, hcs, hr, hpre, hid, hattempt⟩
          cases pre with
          | nil =>
            obtain ⟨rfl, -⟩ := List.cons.inj hcs
            rw [hcall] at hr
            cases hr
          | cons b pre =>
            obtain ⟨rfl, rfl⟩ := List.cons.inj hcs
            refine ⟨pre, r, post, rfl, hr, ?_, hid, ?_⟩
            · exact fun b hb => hpre b (mem_cons_of_mem _ hb)
            · rw [length_cons] at hattempt
              omega
      · simp only [walk, hcall, hadvance]
        constructor
        · rintro ⟨routing, hrouting, -⟩
          cases hrouting
        · rintro ⟨pre, r, post, hcs, hr, hpre, -⟩
          cases pre with
          | nil =>
            obtain ⟨rfl, -⟩ := List.cons.inj hcs
            rw [hcall] at hr
            cases hr
          | cons b pre =>
            obtain ⟨rfl, -⟩ := List.cons.inj hcs
            obtain ⟨error', herror', hadvance'⟩ := hpre c mem_cons_self
            rw [hcall] at herror'
            cases herror'
            exact absurd hadvance' hadvance

theorem resolve_candidate {c : RouteCandidate} {r : ResolvedCandidate}
    (h : (resolve catalog around c).toOption = some r) : r.candidate = c := by
  unfold resolve at h
  split at h
  · cases h
  split at h
  · cases h
  split at h
  · cases h
  split at h
  · cases h
  · obtain rfl := Option.some.inj h
    rfl

/-- The candidates an answer is counted among: those of the order that have a provider. -/
def resolved (catalog : Catalog) (around : Surroundings) (cs : List RouteCandidate) :
    List ResolvedCandidate :=
  cs.filterMap fun c => (resolve catalog around c).toOption

/-- **Where a routed answer comes from**: the first candidate, from the skip on, that answers. -/
theorem callRouted_answered_iff {modelId : String} {attempt : Nat} :
    (∃ routing, callRouted arithmetic catalog around policy = .answered routing ∧
        routing.modelId = modelId ∧ routing.attempt = attempt) ↔
      ∃ pre c post,
        (selectionOrder arithmetic catalog.visible policy).drop policy.skip = pre ++ c :: post ∧
        AnswersHere catalog around c ∧ (∀ b ∈ pre, PassedOver catalog around b) ∧
        c.modelId = modelId ∧ attempt = (resolved catalog around pre).length + 1 := by
  have hplan : (plan arithmetic catalog around policy).candidates = resolved catalog around
      ((selectionOrder arithmetic catalog.visible policy).drop policy.skip) := by
    rw [← selectCandidates_eq]
    rfl
  unfold callRouted
  dsimp only
  rw [hplan]
  generalize (selectionOrder arithmetic catalog.visible policy).drop policy.skip = order
  have hwalk : (∃ routing, (if resolved catalog around order = [] then
          RouteResult.noRoute (plan arithmetic catalog around policy).rejected
        else walk around (plan arithmetic catalog around policy).rejected
          (resolved catalog around order) 0 []) = .answered routing ∧
        routing.modelId = modelId ∧ routing.attempt = attempt) ↔
      ∃ routing, walk around (plan arithmetic catalog around policy).rejected
          (resolved catalog around order) 0 [] = .answered routing ∧
        routing.modelId = modelId ∧ routing.attempt = attempt := by
    by_cases hnil : resolved catalog around order = []
    · simp [hnil, walk]
    · simp [hnil]
  rw [hwalk, walk_answered_iff]
  constructor
  · rintro ⟨pre', r, post', horder, hr, hpre, rfl, rfl⟩
    obtain ⟨pre, rest, rfl, rfl, hrest⟩ := filterMap_eq_append_iff.mp horder
    obtain ⟨skipped, c, post, rfl, hskipped, hc, rfl⟩ := filterMap_eq_cons_iff.mp hrest
    refine ⟨pre ++ skipped, c, post, by simp, ⟨r, hc, hr⟩, ?_, ?_, ?_⟩
    · intro b hb r' hr'
      rcases mem_append.mp hb with hb | hb
      · exact hpre r' (mem_filterMap.mpr ⟨b, hb, hr'⟩)
      · rw [hskipped b hb] at hr'
        cases hr'
    · rw [resolve_candidate hc]
    · have hnone : resolved catalog around skipped = [] := filterMap_eq_nil_iff.mpr hskipped
      rw [resolved, filterMap_append, length_append]
      have := congrArg List.length hnone
      simp only [resolved, length_nil] at this
      omega
  · rintro ⟨pre, c, post, rfl, ⟨r, hc, hr⟩, hpre, rfl, rfl⟩
    refine ⟨resolved catalog around pre, r, resolved catalog around post, ?_, hr, ?_, ?_, ?_⟩
    · rw [resolved, filterMap_append, filterMap_cons, hc]
      rfl
    · intro b hb
      obtain ⟨b', hb', hres⟩ := mem_filterMap.mp hb
      exact hpre b' hb' b hres
    · rw [resolve_candidate hc]
    · omega

/-! ## Over the escalations -/

@[simp] theorem nextRoutingPolicy_skip (policy : RoutingPolicy) (n : Nat) :
    (nextRoutingPolicy policy n).skip = n := by
  show ((n : Int) : Rat).floor.toNat = n
  rw [Rat.floor_intCast, Int.toNat_natCast]

theorem decideEscalation_escalate {outcome : VerifyOutcome} {state : EscalationState}
    {reason : String} {nextAttempt skip : Nat}
    (h : decideEscalation policy outcome state enabled = .escalate reason nextAttempt skip) :
    skip = state.attempt := by
  unfold decideEscalation at h
  split at h
  · cases h
  split at h
  · cases h
  split at h
  · cases h
  split at h
  · cases h
  split at h
  · cases h
  split at h
  · cases h
  split at h
  · cases h
  split at h
  · cases h
  · cases h
    rfl

variable {routing : RouteAttribution}

theorem turn_escalated {round : Round} {escalations : Nat} {next : RoutingPolicy}
    (h : turn arithmetic catalog enabled count round policy escalations
      = some (routing, some next)) :
    callRouted arithmetic catalog round.around policy = .answered routing ∧
      next.skip = routing.attempt + policy.skip ∧
      selectionOrder arithmetic catalog.visible next
        = selectionOrder arithmetic catalog.visible policy := by
  unfold turn at h
  split at h
  · next hcall =>
    split at h
    · next hdecision =>
      cases h
      refine ⟨hcall, ?_, rfl⟩
      rw [nextRoutingPolicy_skip, decideEscalation_escalate hdecision]
      rfl
    · cases h
  · cases h

theorem turn_answered {round : Round} {escalations : Nat} {next : Option RoutingPolicy}
    (h : turn arithmetic catalog enabled count round policy escalations = some (routing, next)) :
    callRouted arithmetic catalog round.around policy = .answered routing := by
  unfold turn at h
  split at h
  · next hcall =>
    split at h <;>
    · cases h
      exact hcall
  · cases h

/-- At every answer that is escalated, and re-run, every candidate ahead of it had a
provider. -/
def HeadsResolve (arithmetic : Arithmetic) (catalog : Catalog) (enabled : Bool)
    (count : Option Int) : List Round → RoutingPolicy → Nat → Prop
  | [], _, _ => True
  | [_], _, _ => True
  | round :: again :: rest, policy, escalations =>
    match turn arithmetic catalog enabled count round policy escalations with
    | some (_, some next) =>
      HeadResolves catalog round.around
          ((selectionOrder arithmetic catalog.visible policy).drop policy.skip) ∧
        HeadsResolve arithmetic catalog enabled count (again :: rest) next (escalations + 1)
    | _ => True

theorem answers_sublist (arithmetic : Arithmetic) (catalog : Catalog) (enabled : Bool)
    (count : Option Int) (rounds : List Round) (policy : RoutingPolicy) (escalations : Nat)
    (h : HeadsResolve arithmetic catalog enabled count rounds policy escalations) :
    ((answers arithmetic catalog enabled count rounds policy escalations).map (·.modelId)).Sublist
      (((selectionOrder arithmetic catalog.visible policy).drop policy.skip).map (·.modelId)) := by
  induction rounds generalizing policy escalations with
  | nil => exact nil_sublist _
  | cons round rest ih =>
    rw [answers]
    cases hturn : turn arithmetic catalog enabled count round policy escalations with
    | none => exact nil_sublist _
    | some answer =>
      obtain ⟨routing, next⟩ := answer
      obtain ⟨pre, c, post, horder, hanswers, hpre, hid, hattempt⟩ :=
        callRouted_answered_iff.mp ⟨routing, turn_answered hturn, rfl, rfl⟩
      have hids : (pre ++ c :: post).map (·.modelId)
          = pre.map (·.modelId) ++ routing.modelId :: post.map (·.modelId) := by
        rw [map_append, map_cons, hid]
      rw [horder, hids]
      cases next with
      | none =>
        exact (singleton_sublist.mpr mem_cons_self).trans (sublist_append_right _ _)
      | some next =>
        obtain ⟨-, hskip, hsame⟩ := turn_escalated hturn
        refine List.Sublist.trans ?_ (sublist_append_right _ _)
        refine List.Sublist.cons_cons _ ?_
        cases rest with
        | nil => exact nil_sublist _
        | cons again rest =>
          simp only [HeadsResolve, hturn] at h
          -- the place counted in the plan is the place in the order
          have hlength : (resolved catalog round.around pre).length = pre.length := by
            have hall := h.1 pre c post horder hanswers hpre
            rw [resolved, length_filterMap_eq_countP]
            exact countP_eq_length.mpr hall
          have hpost : (selectionOrder arithmetic catalog.visible next).drop next.skip = post := by
            rw [hsame, hskip, hattempt, hlength, Nat.add_comm, ← drop_drop, horder,
              ← drop_drop, drop_left]
            rfl
          have := ih next (escalations + 1) h.2
          rwa [hpost] at this

/-- Nothing changes from one round to the next but the verdicts. -/
def Steady (rounds : List Round) : Prop :=
  ∀ round ∈ rounds, ∀ round' ∈ rounds, round.around = round'.around

theorem answers_repeat {round again : Round} (rest : List Round) {escalations : Nat}
    {next : RoutingPolicy} (hturn : turn arithmetic catalog enabled count round policy escalations
      = some (routing, some next)) (hsteady : again.around = round.around)
    (hdropped : ¬HeadResolves catalog round.around
      ((selectionOrder arithmetic catalog.visible policy).drop policy.skip)) :
    ∃ routing' rest', answers arithmetic catalog enabled count (again :: rest) next
        (escalations + 1) = routing' :: rest' ∧ routing'.modelId = routing.modelId := by
  obtain ⟨hcall, hskip, hsame⟩ := turn_escalated hturn
  simp only [HeadResolves, not_forall] at hdropped
  obtain ⟨pre, c, post, horder, hanswers, hpre, b, hb, hgone⟩ := hdropped
  -- the answer came from `c`, at a place short of its own
  have hfirst : ∃ routing, callRouted arithmetic catalog round.around policy = .answered routing ∧
      routing.modelId = c.modelId ∧
      routing.attempt = (resolved catalog round.around pre).length + 1 :=
    callRouted_answered_iff.mpr ⟨pre, c, post, horder, hanswers, hpre, rfl, rfl⟩
  obtain ⟨routing₀, hcall₀, hid, hattempt⟩ := hfirst
  obtain rfl : routing₀ = routing := RouteResult.answered.inj (hcall₀.symm.trans hcall)
  have hshort : (resolved catalog round.around pre).length < pre.length := by
    rw [resolved, length_filterMap_eq_countP]
    refine lt_of_le_of_ne countP_le_length ?_
    intro hall
    exact hgone (countP_eq_length.mp hall b hb)
  -- so the next round still has it
  have hnext : (selectionOrder arithmetic catalog.visible next).drop next.skip
      = pre.drop ((resolved catalog round.around pre).length + 1) ++ c :: post := by
    rw [hsame, hskip, hattempt, Nat.add_comm, ← drop_drop, horder, drop_append_of_le_length hshort]
  have hagain : ∃ routing', callRouted arithmetic catalog again.around next = .answered routing' ∧
      routing'.modelId = c.modelId ∧ routing'.attempt = (resolved catalog again.around
        (pre.drop ((resolved catalog round.around pre).length + 1))).length + 1 := by
    refine callRouted_answered_iff.mpr ⟨_, c, post, hnext, hsteady ▸ hanswers, ?_, rfl, rfl⟩
    intro b' hb'
    exact hsteady ▸ hpre b' (mem_of_mem_drop hb')
  obtain ⟨routing', hcall', hid', -⟩ := hagain
  have hturn' : ∃ next', turn arithmetic catalog enabled count again next (escalations + 1)
      = some (routing', next') := by
    unfold turn
    rw [hcall']
    dsimp only
    split <;> exact ⟨_, rfl⟩
  obtain ⟨next', hturn'⟩ := hturn'
  rw [answers, hturn']
  cases next' with
  | none | some => exact ⟨_, _, rfl, hid'.trans hid.symm⟩

structure FollowsOrder (order : List RouteCandidate) (given : List RouteAttribution) : Prop where
  inOrder : (given.map (·.modelId)).Sublist (order.map (·.modelId))
  once : (given.map (·.modelId)).Nodup

theorem headsResolve_of_once (arithmetic : Arithmetic) (catalog : Catalog) (enabled : Bool)
    (count : Option Int) (rounds : List Round) (policy : RoutingPolicy) (escalations : Nat)
    (hsteady : Steady rounds)
    (honce : ((answers arithmetic catalog enabled count rounds policy escalations).map
      (·.modelId)).Nodup) :
    HeadsResolve arithmetic catalog enabled count rounds policy escalations := by
  induction rounds generalizing policy escalations with
  | nil => trivial
  | cons round rest ih =>
    cases rest with
    | nil => trivial
    | cons again rest =>
      rw [HeadsResolve]
      split
      · next routing next hturn =>
        rw [answers, hturn] at honce
        dsimp only at honce
        rw [map_cons, nodup_cons] at honce
        constructor
        · by_contra hdropped
          obtain ⟨routing', rest', heq, hid⟩ := answers_repeat rest hturn
            (hsteady again (by simp) round (by simp)) hdropped
          refine honce.1 ?_
          rw [heq, map_cons, hid]
          exact mem_cons_self
        · refine ih next (escalations + 1) ?_ honce.2
          intro r hr r' hr'
          exact hsteady r (mem_cons_of_mem _ hr) r' (mem_cons_of_mem _ hr')
      · trivial

/-- **When verify escalation moves on**: where every candidate ahead of each escalated answer had a
provider and the chain names no card twice; and, with only the verdicts changing, only there. -/
theorem escalation_moves_on (arithmetic : Arithmetic) (catalog : Catalog) (enabled : Bool)
    (count : Option Int) (rounds : List Round) (policy : RoutingPolicy) (escalations : Nat) :
    (ChainDistinct arithmetic catalog.visible policy →
      HeadsResolve arithmetic catalog enabled count rounds policy escalations →
      FollowsOrder (selectionOrder arithmetic catalog.visible policy)
        (answers arithmetic catalog enabled count rounds policy escalations)) ∧
    (Steady rounds →
      FollowsOrder (selectionOrder arithmetic catalog.visible policy)
        (answers arithmetic catalog enabled count rounds policy escalations) →
      HeadsResolve arithmetic catalog enabled count rounds policy escalations) := by
  constructor
  · intro hchain hheads
    have hsub := (answers_sublist arithmetic catalog enabled count rounds policy escalations
      hheads).trans ((drop_sublist _ _).map _)
    exact ⟨hsub, (selectionOrder_nodup catalog.visible_ids hchain).sublist hsub⟩
  · intro hsteady hfollows
    exact headsResolve_of_once arithmetic catalog enabled count rounds policy escalations hsteady
      hfollows.once

end

/-! ## A chain whose first provider is down -/

def smallCard (id : String) : Model where
  id := id
  providerId := some id
  vendorModelId := id
  validationStatus := .passed

def smallCatalog : Catalog where
  cards := [smallCard "a", smallCard "b", smallCard "c"]
  connections := fun _ => none
  ids := by decide

def chainPolicy : RoutingPolicy where
  fallbackChain := ["a", "b", "c"]
  escalation := some { onVerifyFail := .nextCandidate }

def rejectedRound (down : String) : Round where
  around := {
    providers := fun id => some { id, name := id, isHealthy := id ≠ down }
    call := fun _ => .answered }
  verdict := { passed := false }

/-- With every provider up, three rounds take three cards in turn. -/
theorem three_rounds_move_on :
    (answers exactArithmetic smallCatalog true none (List.replicate 3 (rejectedRound ""))
        chainPolicy 0).map (·.modelId) = ["a", "b", "c"] ∧
      FollowsOrder (selectionOrder exactArithmetic smallCatalog.visible chainPolicy)
        (answers exactArithmetic smallCatalog true none (List.replicate 3 (rejectedRound ""))
          chainPolicy 0) := by
  have hresolves : ∀ b ∈ selectionOrder exactArithmetic smallCatalog.visible chainPolicy,
      (resolve smallCatalog (rejectedRound "").around b).toOption.isSome := by decide
  have hhead : ∀ n, HeadResolves smallCatalog (rejectedRound "").around
      ((selectionOrder exactArithmetic smallCatalog.visible chainPolicy).drop n) := by
    intro n pre c post horder _ _ b hb
    refine hresolves b (mem_of_mem_drop (i := n) ?_)
    rw [horder]
    exact mem_append_left _ hb
  have hchain : ChainDistinct exactArithmetic smallCatalog.visible chainPolicy := by
    unfold ChainDistinct
    decide
  refine ⟨by decide, (escalation_moves_on exactArithmetic smallCatalog true none _ chainPolicy 0).1
    hchain ?_⟩
  exact ⟨hhead 0, hhead 1, trivial⟩

/-- With the first provider down, the card whose answer was rejected answers again. -/
theorem rejected_card_answers_again :
    (answers exactArithmetic smallCatalog true none (List.replicate 2 (rejectedRound "a"))
        chainPolicy 0).map (·.modelId) = ["b", "b"] ∧
      ¬FollowsOrder (selectionOrder exactArithmetic smallCatalog.visible chainPolicy)
        (answers exactArithmetic smallCatalog true none (List.replicate 2 (rejectedRound "a"))
          chainPolicy 0) := by
  have hanswers : (answers exactArithmetic smallCatalog true none
      (List.replicate 2 (rejectedRound "a")) chainPolicy 0).map (·.modelId) = ["b", "b"] := by decide
  refine ⟨hanswers, ?_⟩
  intro hfollows
  have honce := hfollows.once
  rw [hanswers] at honce
  exact absurd honce (by decide)

end Almyty.Routing
