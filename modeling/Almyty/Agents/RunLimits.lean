import Almyty.Lib.Tightest

/-!
# What bounds one run: `run-limits.ts`

A run is bounded by the operator (the environment), its organization, its agent, the run row and the
call. Each limit is the least value that any of them sets, a default where none does, and the
operator's ceiling at most. `min_wins` states this, and that lowering what a scope sets never
loosens a limit.

Three things a scope says do not count: a value that is not a positive number, the run's `maxSteps`
column beside a `maxSteps` in its `limits`, and what an organization sets below one step or one
cent.

Mirroring notes:
- A value is what JSON or the environment holds; a number is exact. `Number(text)` is a function of
  the text, and nothing where it is not a finite number.
-/

namespace Almyty.Agents.RunLimits

open Almyty.Lib List

inductive Value
  | undefined
  | null
  | number (n : Rat)
  | text (s : String)
  | other
  deriving DecidableEq

inductive TruncationPolicy
  | dropOldest
  | summarise
  | fail
  deriving DecidableEq

inductive ToolErrorFeedback
  | full
  | summarised
  | suppressed
  deriving DecidableEq

structure RunLimitsInput where
  maxSteps : Value := .undefined
  maxTokens : Value := .undefined
  maxCostCents : Value := .undefined
  maxDurationMs : Value := .undefined
  maxToolCalls : Value := .undefined
  maxRecursionDepth : Value := .undefined
  truncationPolicy : Option TruncationPolicy := none
  toolErrorRetries : Value := .undefined
  toolErrorFeedback : Option ToolErrorFeedback := none

structure ResolvedRunLimits where
  maxSteps : Int
  maxTokens : Int
  maxCostCents : Int
  maxDurationMs : Int
  maxToolCalls : Int
  maxRecursionDepth : Int
  truncationPolicy : TruncationPolicy
  toolErrorRetries : Int
  toolErrorFeedback : ToolErrorFeedback

inductive NumericLimitKey
  | maxSteps
  | maxTokens
  | maxCostCents
  | maxDurationMs
  | maxToolCalls
  | maxRecursionDepth
  deriving DecidableEq

def RunLimitsInput.get (scope : RunLimitsInput) : NumericLimitKey → Value
  | .maxSteps => scope.maxSteps
  | .maxTokens => scope.maxTokens
  | .maxCostCents => scope.maxCostCents
  | .maxDurationMs => scope.maxDurationMs
  | .maxToolCalls => scope.maxToolCalls
  | .maxRecursionDepth => scope.maxRecursionDepth

def ResolvedRunLimits.get (resolved : ResolvedRunLimits) : NumericLimitKey → Int
  | .maxSteps => resolved.maxSteps
  | .maxTokens => resolved.maxTokens
  | .maxCostCents => resolved.maxCostCents
  | .maxDurationMs => resolved.maxDurationMs
  | .maxToolCalls => resolved.maxToolCalls
  | .maxRecursionDepth => resolved.maxRecursionDepth

def DEFAULT_RUN_LIMITS : ResolvedRunLimits where
  maxSteps := 50
  maxTokens := 500000
  maxCostCents := 100
  maxDurationMs := 15 * 60 * 1000
  maxToolCalls := 100
  maxRecursionDepth := 3
  truncationPolicy := .dropOldest
  toolErrorRetries := 3
  toolErrorFeedback := .full

def HARD_CEILING_ENV_KEYS : NumericLimitKey → String
  | .maxSteps => "RUN_LIMIT_MAX_STEPS"
  | .maxTokens => "RUN_LIMIT_MAX_TOKENS"
  | .maxCostCents => "RUN_LIMIT_MAX_COST_CENTS"
  | .maxDurationMs => "RUN_LIMIT_MAX_DURATION_MS"
  | .maxToolCalls => "RUN_LIMIT_MAX_TOOL_CALLS"
  | .maxRecursionDepth => "RUN_LIMIT_MAX_RECURSION_DEPTH"

def HARD_CEILING_FALLBACK : NumericLimitKey → Int
  | .maxSteps => 100
  | .maxTokens => 2000000
  | .maxCostCents => 500
  | .maxDurationMs => 60 * 60 * 1000
  | .maxToolCalls => 200
  | .maxRecursionDepth => 5

/-- Most restrictive first. -/
def TRUNCATION_RANK : List TruncationPolicy := [.fail, .summarise, .dropOldest]

def TOOL_ERROR_FEEDBACK_RANK : List ToolErrorFeedback := [.suppressed, .summarised, .full]

structure AgentDefaults where
  maxStepsPerRun : Value := .undefined
  maxCostPerRun : Value := .undefined

structure AgentRun where
  maxSteps : Value := .undefined
  limits : Option RunLimitsInput := none

structure ResolveRunLimitsArgs where
  /-- `agentDefaults`, of an organization that has them. -/
  organization : Option AgentDefaults := none
  /-- `agentConfig.runLimits`, of an agent that has them. -/
  agent : Option RunLimitsInput := none
  run : Option AgentRun := none
  requested : Option RunLimitsInput := none
  env : String → Value := fun _ => .undefined

section Rank

variable {T : Type} [DecidableEq T]

def tighter (rank : List T) (best value : Option T) : Option T :=
  match value with
  | none => best
  | some value =>
    if value ∉ rank then best
    else
      match best with
      | none => some value
      | some best => if rank.idxOf value < rank.idxOf best then some value else some best

def mostRestrictive (rank : List T) (values : List (Option T)) : Option T :=
  values.foldl (tighter rank) none

variable {rank : List T}

theorem tighter_mem {best value : Option T} {p : T} (h : tighter rank best value = some p) :
    best = some p ∨ value = some p := by
  unfold tighter at h
  grind

theorem tighter_le {best value : Option T} {p : T} (h : best = some p ∨ value = some p ∧ p ∈ rank) :
    ∃ p', tighter rank best value = some p' ∧ rank.idxOf p' ≤ rank.idxOf p := by
  unfold tighter
  grind

theorem foldl_tighter_mem {values : List (Option T)} {best : Option T} {p : T}
    (h : values.foldl (tighter rank) best = some p) : best = some p ∨ some p ∈ values := by
  induction values generalizing best with
  | nil => exact .inl h
  | cons value values ih =>
    rcases ih h with hbest | hmem
    · rcases tighter_mem hbest with hbest | hvalue
      · exact .inl hbest
      · exact .inr (hvalue ▸ mem_cons_self)
    · exact .inr (mem_cons_of_mem _ hmem)

theorem foldl_tighter_le {values : List (Option T)} {best : Option T} {p : T}
    (h : best = some p ∨ some p ∈ values ∧ p ∈ rank) :
    ∃ p', values.foldl (tighter rank) best = some p' ∧ rank.idxOf p' ≤ rank.idxOf p := by
  induction values generalizing best p with
  | nil => exact ⟨p, h.resolve_right fun ⟨hmem, _⟩ => absurd hmem not_mem_nil, le_refl _⟩
  | cons value values ih =>
    by_cases hnow : best = some p ∨ value = some p ∧ p ∈ rank
    · obtain ⟨now, hnow, hle⟩ := tighter_le hnow
      obtain ⟨p', hp', hle'⟩ := ih (.inl hnow)
      exact ⟨p', hp', hle'.trans hle⟩
    · refine ih (.inr ?_)
      grind

end Rank

section Resolve

variable (number : String → Option Rat) (times100 : Rat → Option Rat)

def toNumber : Value → Option Rat
  | .number n => some n
  | .text s => number s
  | _ => none

def positiveInt (value : Value) : Option Int :=
  (toNumber number value).bind fun n => if n ≤ 0 then none else some ⌊n⌋

def hardCeiling (env : String → Value) (key : NumericLimitKey) : Int :=
  (positiveInt number (env (HARD_CEILING_ENV_KEYS key))).getD (HARD_CEILING_FALLBACK key)

def costCents : Value → Value
  | .number cost =>
    if cost > 0 then
      match times100 cost with
      | some cents => .number ⌊cents⌋
      | none => .other
    else .undefined
  | _ => .undefined

/-- A value that is read for a limit here, and again with the others. -/
def whole (v : Value) : Value :=
  match positiveInt number v with
  | some n => .number n
  | none => .undefined

def organizationRunLimits (org : Option AgentDefaults) : RunLimitsInput :=
  match org with
  | none => {}
  | some defaults => {
      maxSteps := whole number defaults.maxStepsPerRun
      maxCostCents := costCents times100 defaults.maxCostPerRun }

def agentRunLimits (agent : Option RunLimitsInput) : RunLimitsInput := agent.getD {}

def runRequestedLimits (run : Option AgentRun) : RunLimitsInput :=
  match run with
  | none => {}
  | some run =>
    let requested := run.limits.getD {}
    match positiveInt number run.maxSteps with
    | some steps =>
      if requested.maxSteps = .undefined then { requested with maxSteps := .number steps }
      else requested
    | none => requested

def scopesOf (args : ResolveRunLimitsArgs) : List RunLimitsInput :=
  [organizationRunLimits number times100 args.organization, agentRunLimits args.agent,
    runRequestedLimits number args.run, args.requested.getD {}]

def wanted (default : Int) (candidates : List Int) : Int := candidates.min?.getD default

def resolveKey (args : ResolveRunLimitsArgs) (key : NumericLimitKey) : Int :=
  let candidates := (scopesOf number times100 args).filterMap fun scope =>
    positiveInt number (scope.get key)
  min (wanted (DEFAULT_RUN_LIMITS.get key) candidates) (hardCeiling number args.env key)

def retriesOf : Value → Option Int
  | .number n => if 0 ≤ n then some ⌊n⌋ else none
  | _ => none

def resolveRunLimits (args : ResolveRunLimitsArgs) : ResolvedRunLimits :=
  let scopes := scopesOf number times100 args
  { maxSteps := resolveKey number times100 args .maxSteps
    maxTokens := resolveKey number times100 args .maxTokens
    maxCostCents := resolveKey number times100 args .maxCostCents
    maxDurationMs := resolveKey number times100 args .maxDurationMs
    maxToolCalls := resolveKey number times100 args .maxToolCalls
    maxRecursionDepth := resolveKey number times100 args .maxRecursionDepth
    truncationPolicy := (mostRestrictive TRUNCATION_RANK (scopes.map (·.truncationPolicy))).getD
      DEFAULT_RUN_LIMITS.truncationPolicy
    toolErrorFeedback := (mostRestrictive TOOL_ERROR_FEEDBACK_RANK
      (scopes.map (·.toolErrorFeedback))).getD DEFAULT_RUN_LIMITS.toolErrorFeedback
    toolErrorRetries := wanted DEFAULT_RUN_LIMITS.toolErrorRetries
      (scopes.filterMap fun scope => retriesOf scope.toolErrorRetries) }

/-! ## What a scope sets -/

/-- The scopes as they are given: agent, run and call. -/
def inputsOf (args : ResolveRunLimitsArgs) : List RunLimitsInput :=
  [args.agent.getD {}, (args.run.bind (·.limits)).getD {}, args.requested.getD {}]

inductive Sets (args : ResolveRunLimitsArgs) : NumericLimitKey → Rat → Prop
  | input {key : NumericLimitKey} {v : Rat} {input : RunLimitsInput}
      (hinput : input ∈ inputsOf args) (hv : toNumber number (input.get key) = some v)
      (hpos : 0 < v) : Sets args key v
  | column {v : Rat} {run : AgentRun} (hrun : args.run = some run)
      (hunset : (run.limits.getD {}).maxSteps = .undefined)
      (hv : toNumber number run.maxSteps = some v) (hwhole : 1 ≤ v) : Sets args .maxSteps v
  | organizationSteps {v : Rat} {defaults : AgentDefaults}
      (horg : args.organization = some defaults)
      (hv : toNumber number defaults.maxStepsPerRun = some v) (hwhole : 1 ≤ v) :
      Sets args .maxSteps v
  | organizationCost {cost v : Rat} {defaults : AgentDefaults}
      (horg : args.organization = some defaults) (hcost : defaults.maxCostPerRun = .number cost)
      (hpos : 0 < cost) (hv : times100 cost = some v) (hwhole : 1 ≤ v) :
      Sets args .maxCostCents v

/-! ## Lowering -/

def LoweredValue (v v' : Value) : Prop :=
  v' = v ∨ ∃ n n', toNumber number v = some n ∧ toNumber number v' = some n' ∧ 0 < n' ∧ n' ≤ n

def LoweredWhole (v v' : Value) : Prop :=
  v' = v ∨ ∃ n n', toNumber number v = some n ∧ toNumber number v' = some n' ∧ 1 ≤ n' ∧ n' ≤ n

def LoweredRetries (v v' : Value) : Prop :=
  v' = v ∨ ∃ n n', v = .number n ∧ v' = .number n' ∧ 0 ≤ n' ∧ n' ≤ n

/-- A choice is replaced by one that is as restrictive, or made where there was none. -/
def LoweredChoice {T : Type} [DecidableEq T] (rank : List T) (choice choice' : Option T) : Prop :=
  ∀ p, choice = some p → ∃ p', choice' = some p' ∧ rank.idxOf p' ≤ rank.idxOf p

structure LoweredInput (input input' : RunLimitsInput) : Prop where
  value : ∀ key, LoweredValue number (input.get key) (input'.get key)
  truncationPolicy :
    LoweredChoice TRUNCATION_RANK input.truncationPolicy input'.truncationPolicy
  toolErrorRetries : LoweredRetries input.toolErrorRetries input'.toolErrorRetries
  toolErrorFeedback :
    LoweredChoice TOOL_ERROR_FEEDBACK_RANK input.toolErrorFeedback input'.toolErrorFeedback

inductive LoweredRun : Option AgentRun → Option AgentRun → Prop
  | none : LoweredRun none none
  | some {run run' : AgentRun}
      (hlimits : LoweredInput number (run.limits.getD {}) (run'.limits.getD {}))
      (hcolumn : LoweredWhole number run.maxSteps run'.maxSteps) : LoweredRun (some run) (some run')

structure LoweredDefaults (defaults defaults' : AgentDefaults) : Prop where
  steps : LoweredWhole number defaults.maxStepsPerRun defaults'.maxStepsPerRun
  cost : defaults'.maxCostPerRun = defaults.maxCostPerRun ∨
    ∃ cost cost' cents cents', defaults.maxCostPerRun = .number cost ∧
      defaults'.maxCostPerRun = .number cost' ∧ 0 < cost' ∧ cost' ≤ cost ∧
      times100 cost = some cents ∧ times100 cost' = some cents' ∧ 1 ≤ cents'

inductive LoweredOrganization : Option AgentDefaults → Option AgentDefaults → Prop
  | none : LoweredOrganization none none
  | some {defaults defaults' : AgentDefaults}
      (h : LoweredDefaults number times100 defaults defaults') :
      LoweredOrganization (some defaults) (some defaults')

/-- Every scope sets what it did, or something lower. -/
structure Lowered (args args' : ResolveRunLimitsArgs) : Prop where
  env : ∀ key, LoweredValue number (args.env (HARD_CEILING_ENV_KEYS key))
    (args'.env (HARD_CEILING_ENV_KEYS key))
  organization : LoweredOrganization number times100 args.organization args'.organization
  agent : LoweredInput number (args.agent.getD {}) (args'.agent.getD {})
  run : LoweredRun number args.run args'.run
  requested : LoweredInput number (args.requested.getD {}) (args'.requested.getD {})

end Resolve

/-! ## One value -/

section Values

variable {number : String → Option Rat} {times100 : Rat → Option Rat}

variable {v : Value}

theorem positiveInt_of_pos {n : Rat} (hv : toNumber number v = some n) (hpos : 0 < n) :
    positiveInt number v = some ⌊n⌋ := by
  rw [positiveInt, hv, Option.bind_some, if_neg (not_le.mpr hpos)]

theorem positiveInt_nonneg {n : Int} (h : positiveInt number v = some n) : 0 ≤ n := by
  obtain ⟨m, -, hm⟩ := Option.bind_eq_some_iff.mp h
  split at hm
  next => cases hm
  next hpos =>
    cases hm
    exact Int.floor_nonneg.mpr (le_of_not_ge hpos)

theorem LoweredValue.tightened {v' : Value} (h : LoweredValue number v v') :
    Tightened (positiveInt number v) (positiveInt number v') := by
  rcases h with rfl | ⟨n, n', hn, hn', hpos, hle⟩
  · exact .same _
  · rw [positiveInt_of_pos hn (hpos.trans_le hle), positiveInt_of_pos hn' hpos]
    exact .smaller (Int.floor_le_floor hle)

theorem LoweredRetries.tightened {v' : Value} (h : LoweredRetries v v') :
    Tightened (retriesOf v) (retriesOf v') := by
  rcases h with rfl | ⟨n, n', rfl, rfl, hpos, hle⟩
  · exact .same _
  · rw [retriesOf, retriesOf, if_pos hpos, if_pos (hpos.trans hle)]
    exact .smaller (Int.floor_le_floor hle)

theorem positiveInt_floor {n : Rat} (h : 1 ≤ n) : positiveInt number (.number ⌊n⌋) = some ⌊n⌋ := by
  have hpos : (0 : Rat) < (⌊n⌋ : Rat) := by
    have hone : 1 ≤ ⌊n⌋ := Int.le_floor.mpr (by exact_mod_cast h)
    exact_mod_cast hone
  rw [positiveInt_of_pos (n := (⌊n⌋ : Rat)) rfl hpos, Int.floor_intCast]

theorem positiveInt_whole {n : Rat} (hn : toNumber number v = some n) (h : 1 ≤ n) :
    positiveInt number (whole number v) = some ⌊n⌋ := by
  rw [whole, positiveInt_of_pos hn (zero_lt_one.trans_le h)]
  exact positiveInt_floor h

theorem LoweredWhole.tightened {v' : Value} (h : LoweredWhole number v v') :
    Tightened (positiveInt number (whole number v)) (positiveInt number (whole number v')) := by
  rcases h with rfl | ⟨n, n', hn, hn', hwhole, hle⟩
  · exact .same _
  · rw [positiveInt_whole hn (hwhole.trans hle), positiveInt_whole hn' hwhole]
    exact .smaller (Int.floor_le_floor hle)

theorem positiveInt_costCents {cost cents : Rat} (hpos : 0 < cost)
    (hcents : times100 cost = some cents) (hwhole : 1 ≤ cents) :
    positiveInt number (costCents times100 (.number cost)) = some ⌊cents⌋ := by
  rw [costCents, if_pos hpos, hcents]
  exact positiveInt_floor hwhole

end Values

/-! ## The scopes -/

section Scopes

variable (number : String → Option Rat) (times100 : Rat → Option Rat)

def said (args : ResolveRunLimitsArgs) (key : NumericLimitKey) : List (Option Int) :=
  (scopesOf number times100 args).map fun scope => positiveInt number (scope.get key)

theorem wanted_eq_tightest (default : Int) {T : Type} (f : T → Option Int) (scopes : List T) :
    wanted default (scopes.filterMap f) = tightest default (scopes.map f) := by
  have hset : (scopes.map f).filterMap id = scopes.filterMap f := by
    rw [filterMap_map]
    rfl
  have hmem : ∀ n, n ∈ scopes.filterMap f ↔ some n ∈ scopes.map f := fun n =>
    mem_filterMap.trans mem_map.symm
  rw [wanted]
  cases hleast : (scopes.filterMap f).min? with
  | none =>
    rw [tightest_eq_default (hset.trans (List.min?_eq_none_iff.mp hleast))]
    rfl
  | some least =>
    obtain ⟨hin, hle⟩ := List.min?_eq_some_iff.mp hleast
    have hne : (scopes.map f).filterMap id ≠ [] := hset ▸ ne_nil_of_mem hin
    have hmost : some (tightest default (scopes.map f)) ∈ scopes.map f := (tightest_mem hne).1
    exact le_antisymm (hle _ ((hmem _).mpr hmost)) (tightest_le ((hmem least).mp hin))

theorem resolveRunLimits_get (args : ResolveRunLimitsArgs) (key : NumericLimitKey) :
    (resolveRunLimits number times100 args).get key =
      min (tightest (DEFAULT_RUN_LIMITS.get key) (said number times100 args key))
        (hardCeiling number args.env key) := by
  rw [said, ← wanted_eq_tightest]
  cases key <;> rfl

variable {number times100}

theorem runRequestedLimits_column {run : AgentRun}
    (h : (run.limits.getD {}).maxSteps = .undefined) :
    (runRequestedLimits number (some run)).get .maxSteps = whole number run.maxSteps := by
  rw [runRequestedLimits, whole]
  cases positiveInt number run.maxSteps with
  | none => exact h
  | some steps =>
    dsimp only
    rw [if_pos h]
    rfl

variable {key : NumericLimitKey}

theorem runRequestedLimits_get {run : AgentRun} (h : key ≠ .maxSteps) :
    (runRequestedLimits number (some run)).get key = (run.limits.getD {}).get key := by
  rw [runRequestedLimits]
  cases positiveInt number run.maxSteps with
  | none => rfl
  | some steps =>
    dsimp only
    split
    next =>
      cases key with
      | maxSteps => exact absurd rfl h
      | _ => rfl
    next => rfl

theorem runRequestedLimits_input {run : AgentRun} (h : (run.limits.getD {}).get key ≠ .undefined) :
    (runRequestedLimits number (some run)).get key = (run.limits.getD {}).get key := by
  by_cases hkey : key = .maxSteps
  · subst hkey
    rw [runRequestedLimits]
    cases positiveInt number run.maxSteps with
    | none => rfl
    | some steps =>
      dsimp only
      rw [if_neg (show (run.limits.getD {}).maxSteps ≠ .undefined from h)]
  · exact runRequestedLimits_get hkey

theorem get_ne_undefined {v : Value} {n : Rat} (h : toNumber number v = some n) :
    v ≠ .undefined := by
  rintro rfl
  cases h

variable {args : ResolveRunLimitsArgs}

theorem Sets.said {v : Rat} (h : Sets number times100 args key v) :
    some ⌊v⌋ ∈ said number times100 args key := by
  rw [RunLimits.said, scopesOf, map_cons, map_cons, map_cons, map_singleton]
  cases h with
  | input hinput hv hpos =>
    rw [← positiveInt_of_pos hv hpos]
    obtain rfl | rfl | rfl : _ = args.agent.getD {} ∨ _ = (args.run.bind (·.limits)).getD {} ∨
        _ = args.requested.getD {} := by
      simpa [inputsOf] using hinput
    · simp [agentRunLimits]
    · -- a value of the run's json is not replaced by the column
      have hrun : (runRequestedLimits number args.run).get key =
          ((args.run.bind (·.limits)).getD {}).get key := by
        cases hargs : args.run with
        | none => rfl
        | some run =>
          rw [hargs] at hv
          exact runRequestedLimits_input (get_ne_undefined hv)
      simp [hrun]
    · simp
  | column hrun hunset hv hwhole =>
    rw [hrun, runRequestedLimits_column hunset, ← positiveInt_whole hv hwhole]
    simp
  | organizationSteps horg hv hwhole =>
    rw [horg, ← positiveInt_whole hv hwhole]
    exact mem_cons_self
  | organizationCost horg hcost hpos hv hwhole =>
    rw [horg, ← positiveInt_costCents hpos hv hwhole, ← hcost]
    exact mem_cons_self

/-! ## Lowering a scope -/

/-- What `Math.floor(cost * 100)` needs of the product: a smaller cost is no more cents. -/
def KeepsOrder (times100 : Rat → Option Rat) : Prop :=
  ∀ cost cost' cents cents', times100 cost = some cents → times100 cost' = some cents' →
    cost ≤ cost' → cents ≤ cents'

variable {input : RunLimitsInput}

theorem LoweredInput.tightened {input' : RunLimitsInput} (h : LoweredInput number input input')
    (key : NumericLimitKey) :
    Tightened (positiveInt number (input.get key)) (positiveInt number (input'.get key)) :=
  (h.value key).tightened

theorem LoweredValue.undefined_iff {v v' : Value} (h : LoweredValue number v v') :
    v = .undefined ↔ v' = .undefined := by
  rcases h with rfl | ⟨n, n', hn, hn', -, -⟩
  · rfl
  · exact ⟨fun hv => absurd hv (get_ne_undefined hn), fun hv => absurd hv (get_ne_undefined hn')⟩

theorem LoweredRun.tightened {run run' : Option AgentRun} (h : LoweredRun number run run')
    (key : NumericLimitKey) :
    Tightened (positiveInt number ((runRequestedLimits number run).get key))
      (positiveInt number ((runRequestedLimits number run').get key)) := by
  cases h with
  | none => exact .same _
  | @some run run' hlimits hcolumn =>
    -- lowering a value neither sets it nor unsets it, so the column counts in both or in neither
    by_cases hunset : (run.limits.getD {}).get key = .undefined
    · have hunset' := (hlimits.value key).undefined_iff.mp hunset
      cases key with
      | maxSteps =>
        rw [runRequestedLimits_column hunset, runRequestedLimits_column hunset']
        exact hcolumn.tightened
      | _ =>
        rw [runRequestedLimits_get (by decide), runRequestedLimits_get (by decide)]
        exact hlimits.tightened _
    · have hset' := mt (hlimits.value key).undefined_iff.mpr hunset
      rw [runRequestedLimits_input hunset, runRequestedLimits_input hset']
      exact hlimits.tightened key

theorem LoweredOrganization.tightened {org org' : Option AgentDefaults} (hmono : KeepsOrder times100)
    (h : LoweredOrganization number times100 org org') (key : NumericLimitKey) :
    Tightened (positiveInt number ((organizationRunLimits number times100 org).get key))
      (positiveInt number ((organizationRunLimits number times100 org').get key)) := by
  cases h with
  | none => exact .same _
  | @some defaults defaults' h =>
    cases key with
    | maxSteps => exact h.steps.tightened
    | maxCostCents =>
      change Tightened (positiveInt number (costCents times100 defaults.maxCostPerRun))
        (positiveInt number (costCents times100 defaults'.maxCostPerRun))
      rcases h.cost with heq | ⟨cost, cost', cents, cents', hcost, hcost', hpos, hle, hcents,
        hcents', hwhole⟩
      · rw [heq]
        exact .same _
      · have hless : cents' ≤ cents := hmono _ _ _ _ hcents' hcents hle
        rw [hcost, hcost', positiveInt_costCents (hpos.trans_le hle) hcents (hwhole.trans hless),
          positiveInt_costCents hpos hcents' hwhole]
        exact .smaller (Int.floor_le_floor hless)
    | _ => exact .same _

variable (number times100) in
theorem scopesOf_map {T : Type} (f : RunLimitsInput → T)
    (hsteps : ∀ input v, f { input with maxSteps := v } = f input)
    (hcost : ∀ v w, f { maxSteps := v, maxCostCents := w } = f {}) (args : ResolveRunLimitsArgs) :
    (scopesOf number times100 args).map f = f {} :: (inputsOf args).map f := by
  have horg : f (organizationRunLimits number times100 args.organization) = f {} := by
    cases args.organization with
    | none => rfl
    | some defaults => exact hcost _ _
  have hrun : f (runRequestedLimits number args.run) =
      f ((args.run.bind (·.limits)).getD {}) := by
    cases args.run with
    | none => rfl
    | some run =>
      rw [runRequestedLimits]
      cases positiveInt number run.maxSteps with
      | none => rfl
      | some steps =>
        dsimp only
        split
        next => exact hsteps _ _
        next => rfl
  simp only [scopesOf, inputsOf, map_cons, map_nil, horg, hrun, agentRunLimits]

theorem LoweredInput.refl (input : RunLimitsInput) : LoweredInput number input input where
  value _ := .inl rfl
  truncationPolicy p hp := ⟨p, hp, le_refl _⟩
  toolErrorRetries := .inl rfl
  toolErrorFeedback p hp := ⟨p, hp, le_refl _⟩

theorem Lowered.inputs {args args' : ResolveRunLimitsArgs}
    (h : Lowered number times100 args args') :
    List.Forall₂ (LoweredInput number) (inputsOf args) (inputsOf args') := by
  refine .cons h.agent (.cons ?_ (.cons h.requested .nil))
  have hrun := h.run
  generalize args.run = run at hrun
  generalize args'.run = run' at hrun
  cases hrun with
  | none => exact .refl _
  | some hlimits => exact hlimits

theorem Lowered.said {args args' : ResolveRunLimitsArgs} (hmono : KeepsOrder times100)
    (h : Lowered number times100 args args') (key : NumericLimitKey) :
    List.Forall₂ Tightened (said number times100 args key) (said number times100 args' key) :=
  .cons (h.organization.tightened hmono key) <| .cons (h.agent.tightened key) <|
    .cons (h.run.tightened key) <| .cons (h.requested.tightened key) .nil

theorem Lowered.hardCeiling_le {args args' : ResolveRunLimitsArgs}
    (h : Lowered number times100 args args') (key : NumericLimitKey) :
    hardCeiling number args'.env key ≤ hardCeiling number args.env key :=
  (h.env key).tightened.getD_le _

theorem choice_le {T : Type} [DecidableEq T] {rank : List T} (hrank : ∀ p, p ∈ rank) {p : T}
    {values : List (Option T)} (h : some p ∈ values) (default : T) :
    rank.idxOf ((mostRestrictive rank values).getD default) ≤ rank.idxOf p := by
  obtain ⟨p', hp', hle⟩ : ∃ p', values.foldl (tighter rank) none = some p' ∧
      rank.idxOf p' ≤ rank.idxOf p := foldl_tighter_le (.inr ⟨h, hrank p⟩)
  rw [mostRestrictive, hp']
  exact hle

theorem choice_mono {T : Type} [DecidableEq T] {rank : List T} {default : T}
    (hrank : ∀ p, p ∈ rank) (hdefault : ∀ p, rank.idxOf p ≤ rank.idxOf default)
    {values values' : List (Option T)} (h : List.Forall₂ (LoweredChoice rank) values values') :
    rank.idxOf ((mostRestrictive rank values').getD default) ≤
      rank.idxOf ((mostRestrictive rank values).getD default) := by
  cases hbest : mostRestrictive rank values with
  | none => exact hdefault _
  | some best =>
    have hmem : some best ∈ values := by
      rcases foldl_tighter_mem hbest with hnone | hmem
      · cases hnone
      · exact hmem
    obtain ⟨value', hvalue', hlowered⟩ := exists_of_forall₂ h hmem
    obtain ⟨best', rfl, hle⟩ := hlowered best rfl
    exact (choice_le hrank hvalue' default).trans hle

theorem mem_truncationRank (p : TruncationPolicy) : p ∈ TRUNCATION_RANK := by
  cases p <;> decide

theorem mem_toolErrorFeedbackRank (p : ToolErrorFeedback) : p ∈ TOOL_ERROR_FEEDBACK_RANK := by
  cases p <;> decide

theorem truncationRank_le (p : TruncationPolicy) :
    TRUNCATION_RANK.idxOf p ≤ TRUNCATION_RANK.idxOf DEFAULT_RUN_LIMITS.truncationPolicy := by
  cases p <;> decide

theorem toolErrorFeedbackRank_le (p : ToolErrorFeedback) :
    TOOL_ERROR_FEEDBACK_RANK.idxOf p ≤
      TOOL_ERROR_FEEDBACK_RANK.idxOf DEFAULT_RUN_LIMITS.toolErrorFeedback := by
  cases p <;> decide

/-! ## The resolved limits -/

theorem resolveRunLimits_truncationPolicy (args : ResolveRunLimitsArgs) :
    (resolveRunLimits number times100 args).truncationPolicy =
      (mostRestrictive TRUNCATION_RANK (none :: (inputsOf args).map (·.truncationPolicy))).getD
        DEFAULT_RUN_LIMITS.truncationPolicy := by
  rw [← scopesOf_map number times100 (·.truncationPolicy)
    (fun _ _ => rfl) (fun _ _ => rfl)]
  rfl

theorem resolveRunLimits_toolErrorFeedback (args : ResolveRunLimitsArgs) :
    (resolveRunLimits number times100 args).toolErrorFeedback =
      (mostRestrictive TOOL_ERROR_FEEDBACK_RANK
        (none :: (inputsOf args).map (·.toolErrorFeedback))).getD
        DEFAULT_RUN_LIMITS.toolErrorFeedback := by
  rw [← scopesOf_map number times100 (·.toolErrorFeedback)
    (fun _ _ => rfl) (fun _ _ => rfl)]
  rfl

theorem resolveRunLimits_toolErrorRetries (args : ResolveRunLimitsArgs) :
    (resolveRunLimits number times100 args).toolErrorRetries =
      tightest DEFAULT_RUN_LIMITS.toolErrorRetries
        (none :: (inputsOf args).map fun input => retriesOf input.toolErrorRetries) := by
  have hscopes := scopesOf_map number times100
    (fun input => retriesOf input.toolErrorRetries) (fun _ _ => rfl) (fun _ _ => rfl) args
  rw [← show retriesOf .undefined = none from rfl, ← hscopes, ← wanted_eq_tightest]
  rfl

theorem get_le_hardCeiling (args : ResolveRunLimitsArgs) (key : NumericLimitKey) :
    (resolveRunLimits number times100 args).get key ≤ hardCeiling number args.env key := by
  rw [resolveRunLimits_get]
  exact min_le_right _ _

theorem get_le_of_sets {v : Rat} (h : Sets number times100 args key v) :
    ((resolveRunLimits number times100 args).get key : Rat) ≤ v := by
  rw [resolveRunLimits_get]
  have hle : min (tightest (DEFAULT_RUN_LIMITS.get key) (said number times100 args key))
      (hardCeiling number args.env key) ≤ ⌊v⌋ := (min_le_left _ _).trans (tightest_le h.said)
  exact Int.le_floor.mp hle

theorem hardCeiling_nonneg (env : String → Value) (key : NumericLimitKey) :
    0 ≤ hardCeiling number env key := by
  rw [hardCeiling]
  cases h : positiveInt number (env (HARD_CEILING_ENV_KEYS key)) with
  | none => cases key <;> decide
  | some n => exact positiveInt_nonneg h

theorem get_nonneg (args : ResolveRunLimitsArgs) (key : NumericLimitKey) :
    0 ≤ (resolveRunLimits number times100 args).get key := by
  rw [resolveRunLimits_get]
  refine le_min (le_tightest (by cases key <;> decide) ?_) (hardCeiling_nonneg _ _)
  intro n hn
  obtain ⟨scope, -, hscope⟩ := mem_map.mp hn
  exact positiveInt_nonneg hscope

theorem retriesOf_nonneg {v : Value} {n : Int} (h : retriesOf v = some n) : 0 ≤ n := by
  cases v with
  | number m =>
    rw [retriesOf] at h
    split at h
    next hpos =>
      cases h
      exact Int.floor_nonneg.mpr hpos
    next => cases h
  | _ => cases h

theorem retries_nonneg (args : ResolveRunLimitsArgs) :
    0 ≤ (resolveRunLimits number times100 args).toolErrorRetries := by
  rw [resolveRunLimits_toolErrorRetries]
  refine le_tightest (by decide) ?_
  intro n hn
  rcases mem_cons.mp hn with hnone | hn
  · cases hnone
  · obtain ⟨input, -, hinput⟩ := mem_map.mp hn
    exact retriesOf_nonneg hinput

theorem retries_le {n : Rat} (hinput : input ∈ inputsOf args)
    (hn : input.toolErrorRetries = .number n) (hpos : 0 ≤ n) :
    ((resolveRunLimits number times100 args).toolErrorRetries : Rat) ≤ n := by
  have hsaid : retriesOf input.toolErrorRetries = some ⌊n⌋ := by rw [hn, retriesOf, if_pos hpos]
  rw [resolveRunLimits_toolErrorRetries]
  refine Int.le_floor.mp (tightest_le (mem_cons_of_mem _ ?_))
  exact mem_map.mpr ⟨input, hinput, hsaid⟩

theorem truncationPolicy_le {p : TruncationPolicy} (hinput : input ∈ inputsOf args)
    (hp : input.truncationPolicy = some p) :
    TRUNCATION_RANK.idxOf (resolveRunLimits number times100 args).truncationPolicy ≤
      TRUNCATION_RANK.idxOf p := by
  rw [resolveRunLimits_truncationPolicy]
  refine choice_le mem_truncationRank (mem_cons_of_mem _ ?_) _
  exact mem_map.mpr ⟨input, hinput, hp⟩

theorem toolErrorFeedback_le {p : ToolErrorFeedback} (hinput : input ∈ inputsOf args)
    (hp : input.toolErrorFeedback = some p) :
    TOOL_ERROR_FEEDBACK_RANK.idxOf (resolveRunLimits number times100 args).toolErrorFeedback ≤
      TOOL_ERROR_FEEDBACK_RANK.idxOf p := by
  rw [resolveRunLimits_toolErrorFeedback]
  refine choice_le mem_toolErrorFeedbackRank (mem_cons_of_mem _ ?_) _
  exact mem_map.mpr ⟨input, hinput, hp⟩

structure AtMost (resolved' resolved : ResolvedRunLimits) : Prop where
  get : ∀ key, resolved'.get key ≤ resolved.get key
  toolErrorRetries : resolved'.toolErrorRetries ≤ resolved.toolErrorRetries
  truncationPolicy : TRUNCATION_RANK.idxOf resolved'.truncationPolicy ≤
    TRUNCATION_RANK.idxOf resolved.truncationPolicy
  toolErrorFeedback : TOOL_ERROR_FEEDBACK_RANK.idxOf resolved'.toolErrorFeedback ≤
    TOOL_ERROR_FEEDBACK_RANK.idxOf resolved.toolErrorFeedback

theorem Lowered.atMost {args args' : ResolveRunLimitsArgs} (hmono : KeepsOrder times100)
    (h : Lowered number times100 args args') :
    AtMost (resolveRunLimits number times100 args') (resolveRunLimits number times100 args) where
  get key := by
    rw [resolveRunLimits_get, resolveRunLimits_get]
    exact min_le_min (tightest_mono (h.said hmono key)) (h.hardCeiling_le key)
  toolErrorRetries := by
    rw [resolveRunLimits_toolErrorRetries, resolveRunLimits_toolErrorRetries]
    refine tightest_mono (.cons (.same _) ?_)
    exact forall₂_map_left_iff.mpr (forall₂_map_right_iff.mpr
      (h.inputs.imp fun _ _ hinput => hinput.toolErrorRetries.tightened))
  truncationPolicy := by
    rw [resolveRunLimits_truncationPolicy, resolveRunLimits_truncationPolicy]
    refine choice_mono mem_truncationRank truncationRank_le (.cons (fun _ hp => by cases hp) ?_)
    exact forall₂_map_left_iff.mpr (forall₂_map_right_iff.mpr
      (h.inputs.imp fun _ _ hinput => hinput.truncationPolicy))
  toolErrorFeedback := by
    rw [resolveRunLimits_toolErrorFeedback, resolveRunLimits_toolErrorFeedback]
    refine choice_mono mem_toolErrorFeedbackRank toolErrorFeedbackRank_le
      (.cons (fun _ hp => by cases hp) ?_)
    exact forall₂_map_left_iff.mpr (forall₂_map_right_iff.mpr
      (h.inputs.imp fun _ _ hinput => hinput.toolErrorFeedback))

variable (number times100) in
structure MinWins (args : ResolveRunLimitsArgs) (resolved : ResolvedRunLimits) : Prop where
  ceiling : ∀ key, resolved.get key ≤ hardCeiling number args.env key
  sets : ∀ key v, Sets number times100 args key v → (resolved.get key : Rat) ≤ v
  nonneg : ∀ key, 0 ≤ resolved.get key
  retriesNonneg : 0 ≤ resolved.toolErrorRetries
  retries : ∀ input ∈ inputsOf args, ∀ n, input.toolErrorRetries = .number n → 0 ≤ n →
    (resolved.toolErrorRetries : Rat) ≤ n
  truncationPolicy : ∀ input ∈ inputsOf args, ∀ p, input.truncationPolicy = some p →
    TRUNCATION_RANK.idxOf resolved.truncationPolicy ≤ TRUNCATION_RANK.idxOf p
  toolErrorFeedback : ∀ input ∈ inputsOf args, ∀ p, input.toolErrorFeedback = some p →
    TOOL_ERROR_FEEDBACK_RANK.idxOf resolved.toolErrorFeedback ≤ TOOL_ERROR_FEEDBACK_RANK.idxOf p


variable (number times100) in
theorem min_wins (hmono : KeepsOrder times100) (args : ResolveRunLimitsArgs) :
    MinWins number times100 args (resolveRunLimits number times100 args) ∧
      ∀ args', Lowered number times100 args args' →
        AtMost (resolveRunLimits number times100 args') (resolveRunLimits number times100 args) := by
  constructor
  · exact {
      ceiling := get_le_hardCeiling args
      sets := fun _ _ h => get_le_of_sets h
      nonneg := get_nonneg args
      retriesNonneg := retries_nonneg args
      retries := fun _ hinput _ hn hpos => retries_le hinput hn hpos
      truncationPolicy := fun _ hinput _ hp => truncationPolicy_le hinput hp
      toolErrorFeedback := fun _ hinput _ hp => toolErrorFeedback_le hinput hp }
  · intro args' h
    exact h.atMost hmono

end Scopes

/-- An agent that asks for seven steps where it asked for twenty. -/
theorem min_wins_seven_steps :
    MinWins (fun _ => none) (fun cost => some (cost * 100))
        { organization := some { maxCostPerRun := .number 3 }
          agent := some { maxSteps := .number 20 } }
        (resolveRunLimits (fun _ => none) (fun cost => some (cost * 100))
          { organization := some { maxCostPerRun := .number 3 }
            agent := some { maxSteps := .number 20 } }) ∧
      AtMost
        (resolveRunLimits (fun _ => none) (fun cost => some (cost * 100))
          { organization := some { maxCostPerRun := .number 3 }
            agent := some { maxSteps := .number 7 } })
        (resolveRunLimits (fun _ => none) (fun cost => some (cost * 100))
          { organization := some { maxCostPerRun := .number 3 }
            agent := some { maxSteps := .number 20 } }) := by
  have hmono : KeepsOrder fun cost => some (cost * 100) := by
    intro cost cost' cents cents' hcents hcents' hle
    cases hcents
    cases hcents'
    linarith
  obtain ⟨hwins, hlowered⟩ := min_wins (fun _ => none) (fun cost => some (cost * 100)) hmono
    { organization := some { maxCostPerRun := .number 3 }
      agent := some { maxSteps := .number 20 } }
  refine ⟨hwins, hlowered _ ?_⟩
  exact {
    env := fun _ => .inl rfl
    organization := .some ⟨.inl rfl, .inl rfl⟩
    agent :=
      { value := by
          intro key
          cases key with
          | maxSteps => exact .inr ⟨20, 7, rfl, rfl, by norm_num, by norm_num⟩
          | _ => exact .inl rfl
        truncationPolicy := fun _ hp => by cases hp
        toolErrorRetries := .inl rfl
        toolErrorFeedback := fun _ hp => by cases hp }
    run := .none
    requested := .refl _ }

/-- The run's column is no bound beside a `maxSteps` in its limits. -/
theorem column_not_counted :
    ¬ ∀ (args : ResolveRunLimitsArgs) (run : AgentRun) (v : Rat), args.run = some run →
      toNumber (fun _ => none) run.maxSteps = some v → 0 < v →
      ((resolveRunLimits (fun _ => none) (fun cost => some (cost * 100)) args).get .maxSteps : Rat)
        ≤ v := by
  intro h
  have hle := h { run := some { maxSteps := .number 5, limits := some { maxSteps := .number 40 } } }
    _ 5 rfl rfl (by norm_num)
  have hforty : (resolveRunLimits (fun _ => none) (fun cost => some (cost * 100))
      { run := some { maxSteps := .number 5, limits := some { maxSteps := .number 40 } } }).get
        .maxSteps = 40 := by
    decide +kernel
  rw [hforty] at hle
  norm_num at hle

end Almyty.Agents.RunLimits
