import Almyty.Approvals.Policies
import Almyty.Lib.JsText
import Almyty.Lib.JsValue

/-!
# The gate before a tool call: `modules/tools/tool-approval-gate.service.ts`

An amount rule is an approval policy with a trigger: a tool, one of its inputs, a comparison and an
amount. `check` takes the enabled rules on the tool, highest priority first, and answers with the
first the call trips; without one, the calling agent's ask-first list may still hold the call. What
a rule reads is `readArgument`, a dot path into the parameters; what it makes of the value is
`tripsRule`.

`check_isSome` is the one fact about `check` the rest uses: a rule that governs the call and is
tripped by it makes the gate answer, whatever else the organization has.

Mirroring notes:
- The texts of numbers, `Number(text)`, `JSON.parse`, a comparison with a value that is no number
  and SHA-256 are the engine's (`Engine`).
-/

namespace Almyty.Tools

open Almyty.Lib
open Almyty.Approvals

inductive JsNumber
  | finite (n : Rat)
  | infinity
  | negInfinity

structure Engine where
  /-- `String(value)`. -/
  text : Js.At → String
  /-- The digits `JSON.stringify` writes of a number. -/
  numberText : Rat → String
  /-- `Number(text)`, rounded as the engine rounds it. -/
  number : String → JsNumber
  /-- `JSON.parse(text)`; `none` when it throws. -/
  parse : String → Option Json
  /-- `n.toLocaleString('en-US')` with at most that many decimals. -/
  localeText : Nat → Rat → String
  /-- `a op b` for a number and a value that is none. -/
  coerced : ConditionOp → Rat → Json → Bool
  sha256 : String → String

def wholeEngine : Engine where
  text
    | .json (.str s) => s
    | .json v => Json.text (fun n => toString n.num) v
    | _ => ""
  numberText n := toString n.num
  number text := .finite (text.toList.foldl (fun n d => n * 10 + (d.toNat - '0'.toNat)) 0 : Nat)
  parse _ := none
  localeText _ n := toString n.num
  coerced _ _ _ := false
  sha256 text := text

/-! ## Parameters -/

def toJson : Js.At → Option Json
  | .json v => some v
  | .objectPrototype => some (.obj [])
  | .arrayPrototype => some (.arr [])
  | .undefined | .method => none

/-- The parameters of a call. A caller's are JSON; a mapping can put in what an object
inherits. -/
abbrev Params := List (String × Js.At)

namespace Params

def get (params : Params) (key : String) : Js.At := (params.lookup key).getD (Js.inherited key)

def has (params : Params) (key : String) : Bool :=
  (params.lookup key).isSome || Js.objectPrototype.contains key

def ofFields (fields : Fields) : Params := fields.map fun e => (e.1, .json e.2)

/-- What is left of the parameters as JSON. -/
def toFields (params : Params) : Fields :=
  params.filterMap fun e => (toJson e.2).map (e.1, ·)

theorem get_ofFields (fields : Fields) (key : String) :
    (ofFields fields).get key = (Js.At.json (.obj fields)).get key := by
  rw [get, Js.At.get]
  induction fields with
  | nil => rfl
  | cons e fields ih =>
    rw [ofFields, List.map_cons, Assoc.lookup_cons, Assoc.lookup_cons]
    split
    · rfl
    · exact ih

@[simp] theorem toFields_ofFields (fields : Fields) : (ofFields fields).toFields = fields := by
  induction fields with
  | nil => rfl
  | cons e fields ih => exact congrArg (e :: ·) ih

end Params

/-! ## Reading an amount -/

def readArgument (params : Params) (path : String) : Js.At :=
  match Js.dotParts path with
  | [] => .undefined
  | key :: keys => keys.foldl Js.At.get (params.get key)

theorem readArgument_of_key (params : Params) {key : String} (h : '.' ∉ key.toList) :
    readArgument params key = params.get key := by
  simp only [readArgument, Js.dotParts_of_key h, List.foldl_nil]

/-- `/^[+-]?(?:\d+(?:\.\d*)?|\.\d+)$/`. -/
def isDecimal (text : List Char) : Bool :=
  let unsigned :=
    match text with
    | '+' :: rest | '-' :: rest => rest
    | _ => text
  let whole := unsigned.takeWhile Char.isDigit
  match unsigned.dropWhile Char.isDigit with
  | [] => !whole.isEmpty
  | '.' :: decimals => decimals.all Char.isDigit && !(whole.isEmpty && decimals.isEmpty)
  | _ => false

/-- `value.trim().replace(/^[^\d+-.]+/, '').replace(/,/g, '')`. -/
def cleaned (value : String) : List Char :=
  ((Js.trim value.toList).dropWhile fun c =>
    !(c.isDigit || ['+', ',', '-', '.'].contains c)).filter (· ≠ ',')

def numericValue (engine : Engine) : Js.At → Option JsNumber
  | .json (.num n) => some (.finite n)
  | .json (.str s) =>
    if isDecimal (cleaned s) then some (engine.number (String.ofList (cleaned s))) else none
  | _ => none

def JsNumber.over (op : AmountOp) (amount : Rat) : JsNumber → Bool
  | .finite n =>
    match op with
    | .gte => amount ≤ n
    | .gt => amount < n
  | .infinity => true
  | .negInfinity => false

def isGiven : Js.At → Bool
  | .undefined => false
  | .json v => v ≠ .null && v ≠ .str ""
  | .method | .objectPrototype | .arrayPrototype => true

def tripsRule (engine : Engine) (trigger : ApprovalToolAmountTrigger) (params : Params) :
    Option (Option JsNumber) :=
  let raw := readArgument params trigger.argument
  if !isGiven raw then none
  else
    match numericValue engine raw with
    | none => some none
    | some value => if value.over trigger.op trigger.amount then some (some value) else none

def Trips (engine : Engine) (trigger : ApprovalToolAmountTrigger) (value : Js.At) : Prop :=
  isGiven value = true ∧
    ∀ n, numericValue engine value = some n → n.over trigger.op trigger.amount = true

theorem tripsRule_isSome_iff (engine : Engine) (trigger : ApprovalToolAmountTrigger)
    (params : Params) :
    (tripsRule engine trigger params).isSome = true ↔
      Trips engine trigger (readArgument params trigger.argument) := by
  unfold tripsRule Trips
  generalize readArgument params trigger.argument = raw
  cases hgiven : isGiven raw with
  | false => simp [hgiven]
  | true =>
    cases hvalue : numericValue engine raw with
    | none => simp [hgiven, hvalue]
    | some value =>
      by_cases hover : value.over trigger.op trigger.amount <;> simp [hgiven, hvalue, hover]

/-! ## The gate -/

/-- A tool, as far as the gate and the parameter check read it. -/
structure Tool where
  id : String
  name : String
  /-- `readableToolName(tool)`. -/
  readableName : String
  sideEffect : Option String := none
  /-- The required fields of the input schema, if the tool has one. -/
  inputSchema : Option (List String) := none
  /-- `parameters.required`. -/
  required : List String := []

def validateParameters (tool : Tool) (parameters : Params) : List String :=
  match tool.inputSchema with
  | some required =>
    (required.filter (!parameters.has ·)).map ("Missing required field: " ++ ·)
  | none =>
    (tool.required.filter (!parameters.has ·)).map ("Missing required parameter: " ++ ·)

inductive ActMode
  | act | propose
  deriving DecidableEq

structure AlwaysOn where
  actMode : ActMode := .propose
  askFirstToolIds : List String := []

structure AgentRow where
  id : String
  teamId : Option String := none
  alwaysOn : Option AlwaysOn := none

structure RunRow where
  id : String
  agentId : String
  triggerType : Option String := none

structure GateRows where
  policies : List ApprovalPolicy := []
  agents : List AgentRow := []
  runs : List RunRow := []

/-- Where a call came from. `teamId` is `none` when the caller did not say, and
`some none` for an agent of no team. -/
structure GateContext where
  agentId : Option String := none
  runId : Option String := none
  teamId : Option (Option String) := none

inductive HitKind
  | toolAmount | toolCall

structure ApprovalGateHit where
  kind : HitKind
  policyId : String
  policyName : String
  summary : String
  toolId : String
  toolName : String
  argument : String
  value : Option JsNumber
  op : AmountOp
  amount : Rat
  paramsHash : String

def plainAmount (engine : Engine) (n : Rat) : String :=
  if n.isInt then engine.localeText 3 n else engine.localeText 2 n

/-- "Ask before issue_refund when amount is over 500". -/
def describeToolAmountRule (engine : Engine) (toolName : String)
    (trigger : ApprovalToolAmountTrigger) : String :=
  let limit :=
    match trigger.op with
    | .gte => "is " ++ plainAmount engine trigger.amount ++ " or more"
    | .gt => "is over " ++ plainAmount engine trigger.amount
  "Ask before " ++ toolName ++ " when " ++ trigger.argument ++ " " ++ limit

/-- The entries of an object in the order of their keys; keys that are indices come
first, whatever order they were added in. -/
def sortKeys (fields : Fields) : Fields :=
  let indices := fields.filter fun e => (Js.keyIndex e.1).isSome
  let names := fields.filter fun e => (Js.keyIndex e.1).isNone
  indices.insertionSort (fun e e' => (Js.keyIndex e.1).getD 0 ≤ (Js.keyIndex e'.1).getD 0) ++
    names.insertionSort (fun e e' => Js.codeUnits e.1 ≤ Js.codeUnits e'.1)

mutual

def stable : Json → Json
  | .arr items => .arr (stableItems items)
  | .obj fields => .obj (sortKeys (stableFields fields))
  | .null => .null
  | .bool b => .bool b
  | .num n => .num n
  | .str s => .str s

def stableItems : List Json → List Json
  | [] => []
  | item :: items => stable item :: stableItems items

def stableFields : Fields → Fields
  | [] => []
  | (key, value) :: fields => (key, stable value) :: stableFields fields

end

/-- A fingerprint of a call's parameters: key order does not change it. -/
def paramsHash (engine : Engine) (params : Params) : String :=
  engine.sha256 (Json.text engine.numberText (stable (.obj params.toFields)))

def asksFirst (config : AlwaysOn) (tool : Tool) : Bool :=
  match config.actMode with
  | .act => config.askFirstToolIds.contains tool.id
  | .propose => tool.sideEffect ≠ some "read"

def askFirstHit (engine : Engine) (rows : GateRows) (tool : Tool) (params : Params)
    (context : GateContext) : Option ApprovalGateHit := do
  let agentId ← context.agentId
  let agent ← rows.agents.find? (·.id = agentId)
  let config ← agent.alwaysOn
  let listed := config.askFirstToolIds.contains tool.id
  if !listed then
    guard (config.actMode ≠ .act)
    let runId ← context.runId
    let run ← rows.runs.find? (·.id = runId)
    guard (run.triggerType = some "always_on" ∧ run.agentId = agentId)
    guard (asksFirst config tool)
  return {
    kind := .toolCall
    policyId := "always-on:" ++ agentId
    policyName := "Ask first"
    summary :=
      if listed then "Ask before “" ++ tool.readableName ++ "” (it is on the ask-first list)"
      else "Ask before “" ++ tool.readableName ++
        "” (it changes something, and this agent asks before it changes anything)"
    toolId := tool.id
    toolName := tool.name
    argument := ""
    value := none
    op := .gt
    amount := 0
    paramsHash := paramsHash engine params }

def rulesOn (rows : GateRows) (tool : Tool) : List ApprovalPolicy :=
  ((rows.policies.filter fun p => p.enabled && p.trigger.isSome).insertionSort
    fun p q => q.priority ≤ p.priority).filter
    fun p => p.trigger.map (·.toolId) = some tool.id

/-- The calling agent's team, looked up when the caller did not say and some rule is a
team's; `none` when there is no agent to ask. -/
def callingTeam (rows : GateRows) (rules : List ApprovalPolicy) (context : GateContext) :
    Option (Option String) :=
  match context.teamId, context.agentId with
  | some team, _ => some team
  | none, some agentId =>
    if rules.any (·.teamId.isSome) then
      (rows.agents.find? (·.id = agentId)).map (·.teamId)
    else none
  | none, none => none

/-- A team's rule governs that team's agents; an org-wide one, everyone. With no agent
behind the call to ask, every rule on the tool holds it. -/
def inScope (policy : ApprovalPolicy) (team : Option (Option String)) : Bool :=
  policy.teamId = none || team = none || team = some policy.teamId

def ruleHit (engine : Engine) (tool : Tool) (params : Params) (team : Option (Option String))
    (policy : ApprovalPolicy) : Option ApprovalGateHit := do
  let trigger ← policy.trigger
  guard (trigger.toolId = tool.id)
  guard (inScope policy team)
  let value ← tripsRule engine trigger params
  return {
    kind := .toolAmount
    policyId := policy.id
    policyName := policy.name
    summary := describeToolAmountRule engine ("“" ++ tool.readableName ++ "”") trigger
    toolId := tool.id
    toolName := tool.name
    argument := trigger.argument
    value
    op := trigger.op
    amount := trigger.amount
    paramsHash := paramsHash engine params }

/-- The first rule the call trips, or the ask-first list. -/
def check (engine : Engine) (rows : GateRows) (tool : Tool) (params : Params)
    (context : GateContext) : Option ApprovalGateHit :=
  let rules := rulesOn rows tool
  let team := callingTeam rows rules context
  (rules.findSome? (ruleHit engine tool params team)).or (askFirstHit engine rows tool params context)

structure Governs (rows : GateRows) (tool : Tool) (context : GateContext)
    (policy : ApprovalPolicy) (trigger : ApprovalToolAmountTrigger) : Prop where
  stored : policy ∈ rows.policies
  enabled : policy.enabled = true
  rule : policy.trigger = some trigger
  onTool : trigger.toolId = tool.id
  scope : inScope policy (callingTeam rows (rulesOn rows tool) context) = true

section

variable {rows : GateRows} {tool : Tool} {context : GateContext} {policy : ApprovalPolicy}
  {trigger : ApprovalToolAmountTrigger}

theorem Governs.mem_rulesOn (h : Governs rows tool context policy trigger) :
    policy ∈ rulesOn rows tool := by
  have hkept : policy ∈ rows.policies.filter fun p => p.enabled && p.trigger.isSome := by
    refine List.mem_filter.mpr ⟨h.stored, ?_⟩
    simp [h.enabled, h.rule]
  refine List.mem_filter.mpr ⟨(List.mem_insertionSort _).mpr hkept, ?_⟩
  simp [h.rule, h.onTool]

theorem Governs.ruleHit_isSome_iff (h : Governs rows tool context policy trigger)
    (engine : Engine) (params : Params) :
    (ruleHit engine tool params (callingTeam rows (rulesOn rows tool) context) policy).isSome
      = true ↔ Trips engine trigger (readArgument params trigger.argument) := by
  rw [← tripsRule_isSome_iff]
  cases htrip : tripsRule engine trigger params <;>
    simp [ruleHit, h.rule, h.onTool, h.scope, htrip, guard]

theorem check_isSome {engine : Engine} {params : Params}
    (h : Governs rows tool context policy trigger)
    (htrips : Trips engine trigger (readArgument params trigger.argument)) :
    (check engine rows tool params context).isSome = true := by
  have hhit := (h.ruleHit_isSome_iff engine params).mpr htrips
  have hfound : ((rulesOn rows tool).findSome?
      (ruleHit engine tool params (callingTeam rows (rulesOn rows tool) context))).isSome := by
    rw [List.findSome?_isSome_iff]
    exact ⟨policy, h.mem_rulesOn, hhit⟩
  rw [check, Option.isSome_or, hfound, Bool.true_or]

end

end Almyty.Tools
