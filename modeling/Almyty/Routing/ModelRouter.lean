import Almyty.Lib.JsPath

/-!
# Which cards may answer: `routing/model-router.ts`

The router's first tier takes the organization's model cards and a policy to an ordered list of
candidates. A card qualifies or it does not (`eligible`); the ones that do are ordered by the
policy's own chain, or by price or latency inside the bands of the connection preference, with a
pinned model first. A request that is re-issued after a rejected answer skips the head of that list
(`applySkip`).

`selectCandidates_eq` splits the two: the candidates are `selectionOrder`, which does not read the
skip, with so many dropped. `selectionOrder_nodup` says that no card stands in it twice, unless the
chain names one twice.

Mirroring notes:
- A sum or product of floating-point numbers is the engine's (`Arithmetic`), as are the texts of
  numbers.
-/

namespace Almyty.Routing

open Almyty.Lib List

structure Arithmetic where
  /-- `inPerMTok * 0.75 + outPerMTok * 0.25`. -/
  blended : Rat → Rat → Rat
  /-- `score * 100`. -/
  cents : Rat → Rat
  /-- `n.toFixed(2)`. -/
  fixed : Rat → String
  /-- `String(n)`. -/
  text : Rat → String

def exactArithmetic : Arithmetic where
  blended inPerMTok outPerMTok := inPerMTok * (3 / 4) + outPerMTok * (1 / 4)
  cents score := score * 100
  fixed n := toString n.num ++ ".00"
  text n := toString n.num

inductive ModelPrivacyTier
  | localOnly | privateCloud | publicCloud
  deriving DecidableEq

/-- `TIER_RANK`. -/
def ModelPrivacyTier.rank : ModelPrivacyTier → Nat
  | .localOnly => 0
  | .privateCloud => 1
  | .publicCloud => 2

def ModelPrivacyTier.text : ModelPrivacyTier → String
  | .localOnly => "local"
  | .privateCloud => "private_cloud"
  | .publicCloud => "public"

inductive ModelStatus
  | active | inactive | error | deploying
  deriving DecidableEq

inductive ModelValidationStatus
  | never | passed | failed
  deriving DecidableEq

structure ModelPricing where
  inPerMTok : Rat
  outPerMTok : Rat
  deriving DecidableEq

structure Model where
  id : String
  providerId : Option String := none
  providerType : Option String := none
  vendorModelId : String
  /-- Whether the card has an endpoint. -/
  endpointRef : Bool := false
  modelVersionId : Option String := none
  capabilities : Fields := []
  contextLength : Option Int := none
  pricing : Option ModelPricing := none
  pricingOverride : Option ModelPricing := none
  /-- `measuredLatencyMs?.p50`. -/
  latency : Option Rat := none
  privacyTier : ModelPrivacyTier := .publicCloud
  region : Option String := none
  status : ModelStatus := .active
  validationStatus : ModelValidationStatus := .never
  /-- Stamped by the plan; `none` before. -/
  allowed : Option Bool := none
  deriving DecidableEq

def Model.isSelectable (card : Model) : Bool :=
  card.status = .active && (card.providerId.isSome || card.endpointRef) &&
    card.validationStatus = .passed && card.allowed ≠ some false

def Model.effectivePricing (card : Model) : Option ModelPricing :=
  card.pricingOverride.or card.pricing

inductive RouteObjective
  | cheapest | fastest | pinned
  deriving DecidableEq

inductive OnVerifyFail
  | nextCandidate | stop
  deriving DecidableEq

structure VerifyEscalationPolicy where
  onVerifyFail : OnVerifyFail
  /-- Absent, `null` or not finite is `none`. -/
  maxEscalations : Option Rat := none

/-- An absent list is empty. -/
structure RoutingPolicy where
  privacyTier : Option ModelPrivacyTier := none
  regions : List String := []
  capabilities : Fields := []
  minContextLength : Option Rat := none
  maxBlendedPricePerMTok : Option Rat := none
  objective : Option RouteObjective := none
  fallbackChain : List String := []
  pinnedModel : Option String := none
  budgetHeadroomCents : Option Rat := none
  connectionPreference : List String := []
  escalation : Option VerifyEscalationPolicy := none
  skipCandidates : Option Rat := none

structure RouteCandidate where
  modelId : String
  providerId : Option String
  vendorModelId : String
  modelVersionId : Option String
  rationale : String

structure Rejected where
  modelId : String
  reason : String

section

variable (arithmetic : Arithmetic)

def priceScore (card : Model) : Option Rat :=
  card.effectivePricing.map fun p => arithmetic.blended p.inPerMTok p.outPerMTok

/-- `matches`. -/
def namedBy (card : Model) (key : String) : Bool := card.id = key || card.vendorModelId = key

def hasCapability (card : Model) (cap : String) : Bool :=
  match (Js.At.json (.obj card.capabilities)).get cap with
  | .json v => v.truthy
  | .undefined => false
  | .method | .objectPrototype | .arrayPrototype => true

/-- The tests of `eligible`, in order, each with the reason it gives. -/
def eligibilityTests (card : Model) (policy : RoutingPolicy) : List (Option String) :=
  [if card.isSelectable then none else some "not usable yet",
    policy.privacyTier.bind fun tier =>
      if card.privacyTier.rank > tier.rank then
        some ("privacy " ++ card.privacyTier.text ++ " is not allowed here; this policy allows " ++
          tier.text ++ " or stricter")
      else none,
    -- a card with no known region cannot prove it is inside the list
    if policy.regions = [] then none
    else
      match card.region.filter (· ≠ "") with
      | none => some ("region unknown, policy requires one of " ++ ", ".intercalate policy.regions)
      | some region =>
        if policy.regions.contains region then none
        else some ("region " ++ region ++ " not allowed")] ++
  policy.capabilities.map (fun needed =>
    if needed.2.truthy && !hasCapability card needed.1 then some ("lacks " ++ needed.1)
    else none) ++
  [policy.minContextLength.bind fun required =>
      match card.contextLength with
      | none => some ("context length unknown, policy requires at least " ++ arithmetic.text required)
      | some length =>
        if (length : Rat) < required then
          some ("context " ++ toString length ++ " is below the required " ++
            arithmetic.text required)
        else none,
    policy.maxBlendedPricePerMTok.bind fun cap =>
      -- unpriced is not free
      match priceScore arithmetic card with
      | none => some ("price unknown, policy caps blended price at $" ++ arithmetic.text cap ++ "/M")
      | some score =>
        if score > cap then
          some ("blended $" ++ arithmetic.fixed score ++ "/M is more than the $" ++
            arithmetic.text cap ++ "/M this policy allows")
        else none,
    policy.budgetHeadroomCents.bind fun headroom =>
      (priceScore arithmetic card).bind fun score =>
        if arithmetic.cents score > headroom then some "over the spend limit" else none]

/-- Why a card does not qualify for a request; `none` when it does. -/
def eligible (card : Model) (policy : RoutingPolicy) : Option String :=
  (eligibilityTests arithmetic card policy).findSome? id

/-- The order of two numbers of which a missing one is `Infinity`. -/
def atMost : Option Rat → Option Rat → Prop
  | _, none => True
  | none, some _ => False
  | some a, some b => a ≤ b

instance : DecidableRel atMost
  | _, none => isTrue trivial
  | none, some _ => isFalse id
  | some a, some b => inferInstanceAs (Decidable (a ≤ b))

/-- The band of a card: the place of its provider, or of the provider's type, in the
preference; of a name given twice the last place counts. -/
def bandOf (preference : List String) (card : Model) : Nat :=
  let rank (key : String) : Option Nat := preference.zipIdx.reverse.lookup key
  ((card.providerId.bind rank).or (card.providerType.bind rank)).getD preference.length

/-- Stable within a band, so the objective's ordering survives inside it. -/
def byConnectionPreference (pool : List Model) (preference : List String) : List Model :=
  pool.insertionSort fun a b => bandOf preference a ≤ bandOf preference b

def byObjective (pool : List Model) (objective : RouteObjective) : List Model :=
  match objective with
  | .fastest => pool.insertionSort fun a b => atMost a.latency b.latency
  | .cheapest | .pinned =>
    pool.insertionSort fun a b => atMost (priceScore arithmetic a) (priceScore arithmetic b)

def pinFirst (ranked : List Model) (policy : RoutingPolicy) : List Model :=
  match policy.objective, policy.pinnedModel.filter (· ≠ "") with
  | some .pinned, some key =>
    match ranked.find? (namedBy · key) with
    | some pinned => pinned :: ranked.filter (·.id ≠ pinned.id)
    | none => ranked
  | _, _ => ranked

def toCandidate (card : Model) (rationale : String) : RouteCandidate where
  modelId := card.id
  providerId := card.providerId
  vendorModelId := card.vendorModelId
  modelVersionId := card.modelVersionId
  rationale := rationale

def rationale (policy : RoutingPolicy) (card : Model) (i : Nat) : String :=
  let objective := policy.objective.getD .cheapest
  if objective = .pinned && i = 0 && (policy.pinnedModel.filter (· ≠ "")).any (namedBy card ·) then
    "pinned"
  else if objective = .fastest then
    "fastest (p50 " ++ (card.latency.map arithmetic.text).getD "unknown" ++ " ms), rank " ++
      toString (i + 1)
  else
    "cheapest (" ++
      ((priceScore arithmetic card).map fun p => "$" ++ arithmetic.fixed p ++ "/M blended").getD
        "unpriced" ++ "), rank " ++ toString (i + 1)

/-- The cards a policy's chain finds, each with its place; a card is found once for every
entry that names it. -/
def chained (pool : List Model) (chain : List String) : List RouteCandidate :=
  chain.zipIdx.filterMap fun entry =>
    (pool.find? (namedBy · entry.1)).map fun card =>
      toCandidate card ("fallback chain position " ++ toString (entry.2 + 1))

def pool (cards : List Model) (policy : RoutingPolicy) : List Model :=
  cards.filter fun card => (eligible arithmetic card policy).isNone

def ranked (cards : List Model) (policy : RoutingPolicy) : List Model :=
  pinFirst
    (byConnectionPreference
      (byObjective arithmetic (pool arithmetic cards policy) (policy.objective.getD .cheapest))
      policy.connectionPreference)
    policy

def selectionOrder (cards : List Model) (policy : RoutingPolicy) : List RouteCandidate :=
  if policy.fallbackChain ≠ [] then chained (pool arithmetic cards policy) policy.fallbackChain
  else
    (ranked arithmetic cards policy).zipIdx.map fun entry =>
      toCandidate entry.1 (rationale arithmetic policy entry.1 entry.2)

def filteredOut (cards : List Model) (policy : RoutingPolicy) : List Rejected :=
  (cards.filterMap fun card => (eligible arithmetic card policy).map fun reason => ⟨card.id, reason⟩) ++
    ((policy.fallbackChain.filter fun key =>
      ((pool arithmetic cards policy).find? (namedBy · key)).isNone).map fun key =>
        ⟨key, "fallback entry not usable or unknown"⟩)

def RoutingPolicy.skip (policy : RoutingPolicy) : Nat := (policy.skipCandidates.getD 0).floor.toNat

def applySkip (candidates : List RouteCandidate) (rejected : List Rejected)
    (policy : RoutingPolicy) : List RouteCandidate × List Rejected :=
  if policy.skip = 0 then (candidates, rejected)
  else
    (candidates.drop policy.skip,
      rejected ++ (candidates.take policy.skip).map fun c =>
        ⟨c.modelId, "skipped after verify escalation"⟩)

def selectCandidates (cards : List Model) (policy : RoutingPolicy) :
    List RouteCandidate × List Rejected :=
  applySkip (selectionOrder arithmetic cards policy) (filteredOut arithmetic cards policy) policy

end

/-! ## The order and the skip -/

section

variable {arithmetic : Arithmetic} {cards : List Model} {policy : RoutingPolicy}

theorem selectCandidates_eq (arithmetic : Arithmetic) (cards : List Model)
    (policy : RoutingPolicy) :
    (selectCandidates arithmetic cards policy).1
      = (selectionOrder arithmetic cards policy).drop policy.skip := by
  unfold selectCandidates applySkip
  split
  · next hzero => rw [hzero, drop_zero]
  · rfl

theorem pinFirst_ids (cards : List Model) (policy : RoutingPolicy)
    (h : (cards.map (·.id)).Nodup) : ((pinFirst cards policy).map (·.id)).Nodup := by
  unfold pinFirst
  split
  · split
    · next pinned _ =>
      rw [map_cons, nodup_cons]
      refine ⟨?_, h.sublist (filter_sublist.map _)⟩
      intro hmem
      obtain ⟨card, hcard, hid⟩ := mem_map.mp hmem
      have hne := (mem_filter.mp hcard).2
      exact absurd hid (of_decide_eq_true hne)
    · exact h
  · exact h

theorem insertionSort_ids {r : Model → Model → Prop} [DecidableRel r] {cards : List Model}
    (h : (cards.map (·.id)).Nodup) : ((cards.insertionSort r).map (·.id)).Nodup :=
  ((perm_insertionSort r cards).map _).nodup_iff.mpr h

theorem ranked_ids (arithmetic : Arithmetic) (policy : RoutingPolicy)
    (h : (cards.map (·.id)).Nodup) : ((ranked arithmetic cards policy).map (·.id)).Nodup := by
  have hpool : ((pool arithmetic cards policy).map (·.id)).Nodup :=
    h.sublist (filter_sublist.map _)
  refine pinFirst_ids _ policy (insertionSort_ids ?_)
  unfold byObjective
  split <;> exact insertionSort_ids hpool

def ChainDistinct (arithmetic : Arithmetic) (cards : List Model) (policy : RoutingPolicy) : Prop :=
  (policy.fallbackChain.filterMap fun key =>
    ((pool arithmetic cards policy).find? (namedBy · key)).map (·.id)).Nodup

theorem chained_ids (pool : List Model) (chain : List String) :
    (chained pool chain).map (·.modelId)
      = chain.filterMap fun key => (pool.find? (namedBy · key)).map (·.id) := by
  unfold chained
  generalize 0 = n
  induction chain generalizing n with
  | nil => rfl
  | cons key chain ih =>
    rw [zipIdx_cons, filterMap_cons, filterMap_cons]
    cases pool.find? (namedBy · key) with
    | none => exact ih (n + 1)
    | some card =>
      rw [Option.map_some, Option.map_some, map_cons, ih (n + 1)]
      rfl

theorem selectionOrder_nodup (hcards : (cards.map (·.id)).Nodup)
    (hchain : ChainDistinct arithmetic cards policy) :
    ((selectionOrder arithmetic cards policy).map (·.modelId)).Nodup := by
  unfold selectionOrder
  split
  · rw [chained_ids]
    exact hchain
  · have hids : ((ranked arithmetic cards policy).zipIdx.map fun entry =>
        toCandidate entry.1 (rationale arithmetic policy entry.1 entry.2)).map (·.modelId)
          = (ranked arithmetic cards policy).map (·.id) := by
      rw [map_map]
      nth_rewrite 2 [← zipIdx_map_fst 0 (ranked arithmetic cards policy)]
      rw [map_map]
      rfl
    rw [hids]
    exact ranked_ids arithmetic policy hcards

end

end Almyty.Routing
