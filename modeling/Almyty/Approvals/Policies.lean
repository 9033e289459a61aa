import Almyty.Lib.JsPath

/-!
# Approval policies: `ee/modules/approval-policies/approval-policy.evaluator.ts`

A policy's steps are taken in order. Each asks for a number of approvals by people of a role; an
approval is credited to the first step it matches that is not satisfied yet, and to no other.
`progress` is the evaluator's scoring loop.

Which policy governs a request is `resolvePolicy`: the one the request's context names, or else the
first of the highest priority among the enabled policies without an amount rule whose team and
conditions hold (`highestEligible_spec`).

Mirroring notes:
- `validateSteps` refuses a step that does not need at least one approval, so a stored step carries
  that.
- An order comparison with a value that is no number is JavaScript's own conversion of it, a
  parameter here.
-/

namespace Almyty.Approvals

open Almyty.Lib List

structure ApprovalStep where
  name : String
  approverRole : String
  minApprovals : Nat
  needed : 1 ≤ minApprovals

structure PolicySteps where
  id : String
  name : String
  steps : List ApprovalStep

structure CollectedApproval where
  approverId : Json
  roles : List Json
  deriving DecidableEq

structure StepProgress where
  index : Nat
  name : String
  approverRole : String
  required : Nat
  satisfiedBy : Nat
  satisfied : Bool

structure PolicyProgress where
  policyId : String
  policyName : String
  totalRequired : Nat
  totalCollected : Nat
  steps : List StepProgress
  /-- The first step not satisfied, or -1. -/
  currentStep : Int
  satisfied : Bool

def approverMatches (step : ApprovalStep) (approval : CollectedApproval) : Bool :=
  step.approverRole = "*" || approval.roles.contains (.str step.approverRole)

def credit (step : ApprovalStep) (required : Nat) :
    Nat → List CollectedApproval → Nat × List CollectedApproval
  | satisfiedBy, [] => (satisfiedBy, [])
  | satisfiedBy, approval :: rest =>
    if satisfiedBy < required then
      if approverMatches step approval then credit step required (satisfiedBy + 1) rest
      else
        let (n, kept) := credit step required satisfiedBy rest
        (n, approval :: kept)
    else (satisfiedBy, approval :: rest)

structure ScoreState where
  remaining : List CollectedApproval
  stepProgress : List StepProgress := []
  currentStep : Int := -1
  allSatisfied : Bool := true

def scoreStep (s : ScoreState) (step : ApprovalStep) : ScoreState :=
  let required := max 0 step.minApprovals
  -- a step is credited once every step before it is satisfied
  let (satisfiedBy, remaining) :=
    if s.stepProgress.all (·.satisfied) then credit step required 0 s.remaining
    else (0, s.remaining)
  let satisfied := required ≤ satisfiedBy
  { remaining
    stepProgress := s.stepProgress ++
      [{ index := s.stepProgress.length, name := step.name, approverRole := step.approverRole,
         required, satisfiedBy, satisfied }]
    currentStep :=
      if !satisfied && s.allSatisfied then s.stepProgress.length else s.currentStep
    allSatisfied := s.allSatisfied && satisfied }

def totalRequired (policy : PolicySteps) : Nat :=
  (policy.steps.map fun step => max 0 step.minApprovals).sum

def progress (policy : PolicySteps) (approvals : List CollectedApproval) : PolicyProgress :=
  let s := policy.steps.foldl scoreStep { remaining := approvals }
  { policyId := policy.id
    policyName := policy.name
    totalRequired := totalRequired policy
    totalCollected := approvals.length
    steps := s.stepProgress
    currentStep := if s.allSatisfied then -1 else s.currentStep
    satisfied := s.allSatisfied }

theorem credit_satisfiedBy (step : ApprovalStep) {required n : Nat} (h : n ≤ required)
    (approvals : List CollectedApproval) :
    (credit step required n approvals).1
      = min required (n + approvals.countP (approverMatches step)) := by
  induction approvals generalizing n with
  | nil =>
    rw [credit, countP_nil]
    omega
  | cons a rest ih =>
    rw [credit, countP_cons]
    split
    · next hlt =>
      split
      · rw [ih (by omega)]
        omega
      · rw [ih h]
        omega
    · omega

theorem progress_single {policy : PolicySteps} {step : ApprovalStep}
    (h : policy.steps = [step]) (approvals : List CollectedApproval) :
    (progress policy approvals).satisfied = true ↔
      step.minApprovals ≤ approvals.countP (approverMatches step) := by
  have hcredit := credit_satisfiedBy step (Nat.zero_le step.minApprovals) approvals
  simp only [progress, h, foldl_cons, foldl_nil, scoreStep, all_nil, if_true,
    Nat.zero_max, Bool.true_and, decide_eq_true_eq, hcredit]
  omega

/-! ## Which policy governs a request -/

inductive ConditionOp
  | eq | neq | gt | gte | lt | lte | in' | nin

structure ApprovalMatchCondition where
  attr : String
  op : ConditionOp
  value : Option Json

inductive AmountOp
  | gt | gte

structure ApprovalToolAmountTrigger where
  toolId : String
  argument : String
  op : AmountOp
  amount : Rat

structure ApprovalPolicy extends PolicySteps where
  teamId : Option String := none
  match' : List ApprovalMatchCondition := []
  trigger : Option ApprovalToolAmountTrigger := none
  priority : Int := 0
  enabled : Bool := true
  stored : id ≠ ""

section

variable (coerced : ConditionOp → Rat → Json → Bool)

def ordered (op : ConditionOp) (actual : Rat) : Option Json → Bool
  | some (.num expected) =>
    match op with
    | .gt => expected < actual
    | .gte => expected ≤ actual
    | .lt => actual < expected
    | .lte => actual ≤ expected
    | _ => false
  | some expected => coerced op actual expected
  | none => false

def strictEq : Js.At → Option Json → Bool
  | .undefined, none => true
  | .json actual, some expected => actual.sameKey expected
  | _, _ => false

def conditionHolds (cond : ApprovalMatchCondition) (actual : Js.At) : Bool :=
  match cond.op with
  | .eq => strictEq actual cond.value
  | .neq => !strictEq actual cond.value
  | .in' =>
    match cond.value with
    | some (.arr expected) => expected.any fun e => strictEq actual (some e)
    | _ => false
  | .nin =>
    match cond.value with
    | some (.arr expected) => !expected.any fun e => strictEq actual (some e)
    | _ => false
  | op =>
    match actual with
    | .json (.num n) => ordered coerced op n cond.value
    | _ => false

/-- A dot path against the context, else against the payload the agent sent. -/
def resolve (path : String) (ctx : Fields) : Js.At :=
  match Js.readPath (.obj ctx) path with
  | .undefined =>
    match ctx.lookup "payload" with
    | some payload =>
      match payload with
      | .obj _ | .arr _ =>
        if path.toList.take 8 = "payload.".toList then .undefined else Js.readPath payload path
      | _ => .undefined
    | none => .undefined
  | direct => direct

def matches' (conditions : List ApprovalMatchCondition) (ctx : Fields) : Bool :=
  conditions.all fun cond => conditionHolds coerced cond (resolve cond.attr ctx)

/-- Enabled, without an amount rule, of the request's team or of none, and matching. -/
def eligible (ctx : Fields) (p : ApprovalPolicy) : Bool :=
  p.enabled && p.trigger.isNone
    && (p.teamId.all (· = "") || p.teamId.map Json.str = ctx.lookup "teamId")
    && matches' coerced p.match' ctx

def best : ApprovalPolicy → List ApprovalPolicy → ApprovalPolicy
  | b, [] => b
  | b, p :: ps => best (if b.priority < p.priority then p else b) ps

def highestEligible (policies : List ApprovalPolicy) (ctx : Fields) : Option ApprovalPolicy :=
  match policies.filter (eligible coerced ctx) with
  | [] => none
  | p :: ps => some (best p ps)

def resolvePolicy (policies : List ApprovalPolicy) (ctx : Fields) : Option ApprovalPolicy :=
  match ctx.lookup "policyId" with
  | some (.str id) =>
    -- a request an amount rule raised names its policy
    if id ≠ "" then policies.find? fun p => p.id = id && p.enabled
    else highestEligible coerced policies ctx
  | _ => highestEligible coerced policies ctx

structure Governs (policies : List ApprovalPolicy) (ctx : Fields) (p : ApprovalPolicy) : Prop where
  mem : p ∈ policies
  eligible : eligible coerced ctx p = true
  highest : ∀ q ∈ policies, Approvals.eligible coerced ctx q = true → q.priority ≤ p.priority

theorem best_mem (b : ApprovalPolicy) (ps : List ApprovalPolicy) : best b ps ∈ b :: ps := by
  induction ps generalizing b with
  | nil => exact mem_cons_self
  | cons p ps ih =>
    rw [best]
    split
    · exact mem_cons_of_mem _ (ih p)
    · rcases mem_cons.mp (ih b) with heq | hin
      · rw [heq]
        exact mem_cons_self
      · exact mem_cons_of_mem _ (mem_cons_of_mem _ hin)

theorem le_best (b : ApprovalPolicy) (ps : List ApprovalPolicy) :
    ∀ q ∈ b :: ps, q.priority ≤ (best b ps).priority := by
  induction ps generalizing b with
  | nil =>
    intro q hq
    obtain rfl := mem_singleton.mp hq
    exact Int.le_refl _
  | cons p ps ih =>
    intro q hq
    rw [best]
    have hstart := ih (if b.priority < p.priority then p else b)
    rcases mem_cons.mp hq with rfl | hq
    · refine Int.le_trans ?_ (hstart _ mem_cons_self)
      split <;> omega
    rcases mem_cons.mp hq with rfl | hq
    · refine Int.le_trans ?_ (hstart _ mem_cons_self)
      split <;> omega
    · exact hstart q (mem_cons_of_mem _ hq)

theorem highestEligible_spec (policies : List ApprovalPolicy) (ctx : Fields) :
    match highestEligible coerced policies ctx with
    | some p => Governs coerced policies ctx p
    | none => ∀ q ∈ policies, eligible coerced ctx q = false := by
  unfold highestEligible
  cases hf : policies.filter (eligible coerced ctx) with
  | nil =>
    intro q hq
    simpa using filter_eq_nil_iff.mp hf q hq
  | cons p ps =>
    have hin : best p ps ∈ policies.filter (eligible coerced ctx) := hf ▸ best_mem p ps
    obtain ⟨hmem, helig⟩ := mem_filter.mp hin
    refine ⟨hmem, helig, fun q hq hqe => le_best p ps q ?_⟩
    rw [← hf]
    exact mem_filter.mpr ⟨hq, hqe⟩

end

end Almyty.Approvals
