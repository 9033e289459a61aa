import Almyty.Lib.JsValue
import Almyty.Workflow.Branching
import Almyty.Workflow.Execution

/-!
# A workflow call: `AgentExecutionEngine.execute`

One call of the engine runs a pipeline, or carries one on after an approval. It goes through the
layers, checking cancellation, time and budget before each, runs the nodes of a layer that are not
skipped, processes what came of them in order, and leaves through one of eleven exits. Each exit
puts the entity together by hand, commits it (`commitTerminal`) and counts the run in the agent's
statistics.

A call that carries on (`Resume`) takes the nodes that finished earlier from the row's stored
`nodeResults` and the steps that waited from their decisions; only the others go to the node
executor.

What the call cannot decide is its `World`: what the executor gives for each node, when the signal
is aborted, the deadline passed or a layer timed out, and the row as the terminal write finds it.

Mirroring notes:
- A node is processed at most once in a call, so what the executor gives is a function of the node;
  the context it is given is kept in `calls`.
-/

namespace Almyty.Workflow

open Almyty.Lib Option

/-! ## What a run persists: `persist-cap.ts` -/

structure NumberFormat where
  text : Rat → String
  fixed4 : Rat → String

def wholeNumbers : NumberFormat where
  text q := toString q.num
  fixed4 q := s!"{q.num}.0000"

variable (format : NumberFormat)

/-- `STEP_PAYLOAD_CAP`. -/
def stepPayloadCap : Nat := 32 * 1024

def withTruncationMarker (kept : String) (totalCharacters : Nat) : String :=
  s!"{kept}… (truncated from {totalCharacters} characters)"

def takeUnits : Nat → List Char → List Char
  | _, [] => []
  | n, c :: cs =>
    if (Js.charUnits c).length ≤ n then c :: takeUnits (n - (Js.charUnits c).length) cs else []

def sliceText (text : String) (n : Nat) : String := String.ofList (takeUnits n text.toList)

def capText (value : JsValue) (text : String) : JsValue :=
  let length := (Js.codeUnits text).length
  if length ≤ stepPayloadCap then value
  else .str (withTruncationMarker (sliceText text stepPayloadCap) length)

def capPersistedPayload (value : JsValue) : JsValue :=
  match value with
  | .null => .null
  | .undefined => .undefined
  | .str s => capText value s
  | value =>
    match value.toJson with
    | none => .str "[unserializable]"
    | some none => value
    | some (some json) => capText value (json.text format.text)

/-! ## What a node gives -/

/-- What answered for a step: kept on its record when set. -/
structure Attribution where
  providerId : Option Json := none
  model : Option Json := none
  routing : Option Json := none

def Attribution.entries (a : Attribution) : Fields :=
  [("providerId", a.providerId), ("model", a.model), ("routing", a.routing)].filterMap fun e =>
    (e.2.filter Json.truthy).map fun value => (e.1, value)

structure NodeExecutionResult where
  output : JsValue
  cost : Rat := 0
  tokens : Nat := 0
  inputTokens : Nat := 0
  outputTokens : Nat := 0
  executionTime : Nat := 0
  resolvedInput : JsValue := .undefined
  attribution : Attribution := {}

structure WaitingCodeStep where
  nodeId : String
  approvalId : String
  isToolCall : Bool := false
  codeExecutionId : Option String := none
  changes : Nat := 1
  call : Option String := none
  result : JsValue := .undefined

inductive ExecutionErrorType
  | timeout | llmError | toolError | validationError | budgetExceeded | nestingExceeded

def ExecutionErrorType.text : ExecutionErrorType → String
  | timeout => "TIMEOUT"
  | llmError => "LLM_ERROR"
  | toolError => "TOOL_ERROR"
  | validationError => "VALIDATION_ERROR"
  | budgetExceeded => "BUDGET_EXCEEDED"
  | nestingExceeded => "NESTING_EXCEEDED"

/-- An error as the layer's `catch` keeps it. -/
structure NodeError where
  message : String
  errorType : ExecutionErrorType
  code : Option String := none
  waiting : Option WaitingCodeStep := none
  resolvedInput : JsValue := .undefined

structure NodeRun where
  outcome : Except NodeError NodeExecutionResult
  toolCalls : Nat := 0

def waitingForApprovalCode : String := "AWAITING_APPROVAL"

def approvalRejectedCode : String := "APPROVAL_REJECTED"

def NodeError.waitingStep (e : NodeError) : Option WaitingCodeStep :=
  if e.code = some waitingForApprovalCode then e.waiting else none

def outcomeOf (type : NodeType) (output : JsValue) : Outcome :=
  if type = .condition ∧ (output.get "__condition").truthy then
    .condition (output.get "result").truthy
  else if type = .decision ∧ (output.get "__decision").truthy then
    match output.get "selectedOption" with
    | .str chosen => .decision (some chosen)
    | _ => .decision none
  else .success

/-! ## Records -/

/-- An entry of a record, as JSON keeps it: nothing when it cannot be written. -/
def jsonEntry (key : String) (value : JsValue) : Fields :=
  match value.toJson with
  | some (some json) => [(key, json)]
  | _ => []

def inputEntry (resolvedInput : JsValue) : Fields :=
  jsonEntry "input" (capPersistedPayload format resolvedInput)

def doneRecord (r : NodeExecutionResult) : Json :=
  .obj (jsonEntry "output" (capPersistedPayload format r.output)
    ++ [("cost", .num r.cost), ("tokens", .num r.tokens), ("executionTime", .num r.executionTime)]
    ++ inputEntry format r.resolvedInput ++ r.attribution.entries)

def failedRecord (e : NodeError) : Json :=
  .obj ([("error", .str e.message), ("errorType", .str e.errorType.text)]
    ++ (match e.code with
      | some code => if code = "" then [] else [("errorCode", .str code)]
      | none => [])
    ++ inputEntry format e.resolvedInput)

def waitingRecord (e : NodeError) (step : WaitingCodeStep) : Json :=
  .obj ([("status", .str "waiting_approval"), ("message", .str e.message),
      ("waitingForApproval", .obj ([("approvalId", .str step.approvalId),
        ("kind", .str (if step.isToolCall then "tool_call" else "code")),
        ("changes", .num step.changes)]
        ++ (match step.call with
          | some call => if call = "" then [] else [("call", .str call)]
          | none => [])))]
    ++ inputEntry format e.resolvedInput)

def skippedRecord : Json := .obj [("skipped", .bool true)]

def abortedRecord : Json :=
  .obj [("error", .str "Aborted by the layer timeout"), ("errorType", .str ExecutionErrorType.timeout.text),
    ("costAccounted", .bool false)]

def recordProp (record : Json) (key : String) : Option Json := record.fieldsOrEmpty.lookup key

def isTruthyProp (record : Json) (key : String) : Bool := (recordProp record key).any Json.truthy

def recordError (record : Json) : Option String :=
  match recordProp record "error" with
  | some (.str e) => if e = "" then none else some e
  | _ => none

/-! ## Carrying on after an approval -/

structure SettledCodeStep where
  output : Option Json := none
  error : Option String := none
  errorCode : Option String := none

structure WorkflowWaitState where
  steps : List WaitingCodeStep
  toolCalls : Nat
  vars : Option Fields

structure Resume where
  execution : AgentExecution
  wait : WorkflowWaitState
  settled : List (String × SettledCodeStep)

def settledAt (settled : List (String × SettledCodeStep)) (id : String) : Option SettledCodeStep :=
  match settled.lookup id with
  | some step => some step
  | none => if id ∈ Js.objectPrototype then some {} else none

/-- A stored record stands for a node that need not run again. -/
def replayable (settled : List (String × SettledCodeStep)) (id : String) (record : Json) : Bool :=
  (settledAt settled id).isNone && record.truthy && !isTruthyProp record "error"
    && !isTruthyProp record "skipped"
    && recordProp record "status" != some (.str "waiting_approval")
    && (recordProp record "output").isSome

def replayRecord (resume : Option Resume) (id : String) : Option Json :=
  resume.bind fun r =>
    (r.execution.nodeResults.fieldsOrEmpty.lookup id).filter (replayable r.settled id)

def numProp (record : Json) (key : String) : Rat :=
  match recordProp record key with
  | some (.num n) => n
  | _ => 0

def natProp (record : Json) (key : String) : Nat := (numProp record key).floor.toNat

def valueProp (record : Json) (key : String) : JsValue :=
  match recordProp record key with
  | some json => .ofJson json
  | none => .undefined

/-- A step that already ran gives back what its record says. -/
def replayedResult (record : Json) : NodeExecutionResult :=
  { output := valueProp record "output"
    cost := numProp record "cost"
    tokens := natProp record "tokens"
    executionTime := natProp record "executionTime"
    resolvedInput := valueProp record "input"
    attribution :=
      { providerId := recordProp record "providerId"
        model := recordProp record "model"
        routing := recordProp record "routing" } }

def decidedOutcome (decided : SettledCodeStep) (waitedInput : JsValue) :
    Except NodeError NodeExecutionResult :=
  match decided.error.filter (· ≠ "") with
  | some error =>
    .error { message := error, errorType := .toolError, code := decided.errorCode,
             resolvedInput := waitedInput }
  | none => .ok { output := .ofJson (decided.output.getD .null), resolvedInput := waitedInput }

/-! ## The world of a call -/

structure Executor where
  run : String → NodeRun
  waits : ∀ id e step, (run id).outcome = .error e → e.waiting = some step → step.nodeId = id

structure World extends Executor where
  /-- What stops the call before its first layer: the strategy, a role, the pipeline. -/
  setupError : Option String := none
  aborted : Nat → Bool := fun _ => false
  late : Nat → Bool := fun _ => false
  /-- The layer times out; these of its running nodes report in time. -/
  layerTimeout : Nat → Option (List String) := fun _ => none
  isCancelled : Bool := false
  /-- The row as the first and the second terminal write find it; `none` when the
  write throws. -/
  row : Nat → Option AgentExecution
  executionTime : Nat := 0
  /-- What the last error of a write that threw says. -/
  writeError : String := ""

inductive Item
  | replayed (result : NodeExecutionResult)
  | decided (outcome : Except NodeError NodeExecutionResult)
  | ran (run : NodeRun)

def Item.outcome : Item → Except NodeError NodeExecutionResult
  | .replayed result => .ok result
  | .decided outcome => outcome
  | .ran run => run.outcome

def Item.toolCalls : Item → Nat
  | .ran run => run.toolCalls
  | _ => 0

def itemFor (resume : Option Resume) (world : World) (id : String) : Item :=
  match replayRecord resume id with
  | some record => .replayed (replayedResult record)
  | none =>
    match resume.bind fun r => (settledAt r.settled id).map (r, ·) with
    | some (r, decided) =>
      .decided (decidedOutcome decided
        (((r.execution.nodeResults.fieldsOrEmpty.lookup id).map (valueProp · "input")).getD
          .undefined))
    | none => .ran (world.run id)

/-! ## The layer loop -/

structure NodeContext where
  output : JsValue
  status : Option String := none

structure View where
  nodes : List (String × NodeContext)
  vars : Fields
  toolCalls : Nat

/-- The engine's variables while it goes through the layers. The last four are a
history that nothing reads: the nodes given to the executor and what they saw, the
nodes that finished, and the costs of the results the executor returned and of those
taken from the row. -/
structure LoopState where
  nodeResults : Fields := []
  contextNodes : List (String × NodeContext) := []
  toolCalls : Nat := 0
  totalCost : Rat := 0
  totalTokens : Nat := 0
  totalInputTokens : Nat := 0
  totalOutputTokens : Nat := 0
  lastLayerCost : Rat := 0
  finalOutput : JsValue := .null
  outputCaptured : Bool := false
  skipped : List String := []
  waitingSteps : List WaitingCodeStep := []
  calls : List (String × View) := []
  finished : List String := []
  returned : List Rat := []
  replayed : List Rat := []

/-- The rules of `agent.settings.budget` that the engine's projection can meet. -/
structure BudgetPolicy where
  ceilingPerRun : Option Rat := none
  confidenceAbove : Option Rat := none
  onExceedStops : Bool := true

/-- What a run is given: its pipeline, the settings that bound it and its variables. -/
structure Setup where
  pipeline : AgentPipeline
  maxExecutionTime : Nat := 300000
  /-- `none` is `Infinity`. -/
  budgetLimit : Option Rat := none
  budget : Option BudgetPolicy := none
  agentVars : Fields := []
  optionVars : Option Fields := none

def cents (cost : Rat) : Int := (cost * 100 + 1 / 2).floor

def evaluateBudgetStops (policy : Option BudgetPolicy) (spentCents nextStageCents : Int) : Bool :=
  match policy with
  | none => false
  | some policy =>
    (policy.confidenceAbove.any fun c => decide (c ≤ 0))
      || (policy.onExceedStops
        && policy.ceilingPerRun.any fun c => decide (c < ((spentCents + nextStageCents : Int) : Rat)))

def overBudget (setup : Setup) (totalCost : Rat) : Bool :=
  setup.budgetLimit.any fun limit => decide (limit < totalCost)

def contextVars (setup : Setup) (resume : Option Resume) : Fields :=
  let given := match resume with
    | some r => r.wait.vars
    | none => setup.optionVars
  Assoc.putAll (Assoc.putAll [] setup.agentVars) (given.getD [])

def LoopState.start (resume : Option Resume) : LoopState :=
  { toolCalls := (resume.map (·.wait.toolCalls)).getD 0
    totalInputTokens := (resume.map (·.execution.inputTokens)).getD 0
    totalOutputTokens := (resume.map (·.execution.outputTokens)).getD 0 }

def recordSkipped (s : LoopState) (layer : List String) : LoopState :=
  layer.foldl
    (fun s id =>
      if id ∈ s.skipped ∧ !Js.hasProperty s.nodeResults id then
        { s with
          nodeResults := Js.assign s.nodeResults id skippedRecord
          contextNodes := Js.assign s.contextNodes id ⟨.undefined, some "skipped"⟩ }
      else s)
    s

/-- One result of the layer is processed. -/
def settleItem (p : AgentPipeline) (s : LoopState) (node : AgentPipelineNode) (item : Item) :
    LoopState :=
  match item.outcome with
  | .error e =>
    match e.waitingStep with
    | some step =>
      { s with
        nodeResults := Js.assign s.nodeResults node.id (waitingRecord format e step)
        contextNodes := Js.assign s.contextNodes node.id ⟨.undefined, some "waiting"⟩
        waitingSteps := s.waitingSteps ++ [step]
        skipped := skipAfter p node .waiting s.skipped }
    | none =>
      { s with
        nodeResults := Js.assign s.nodeResults node.id (failedRecord format e)
        contextNodes := Js.assign s.contextNodes node.id ⟨.undefined, some "failed"⟩
        skipped := skipAfter p node .failure s.skipped }
  | .ok r =>
    { s with
      contextNodes := Js.assign s.contextNodes node.id ⟨r.output, none⟩
      nodeResults := Js.assign s.nodeResults node.id (doneRecord format r)
      totalCost := s.totalCost + r.cost
      totalTokens := s.totalTokens + r.tokens
      totalInputTokens := s.totalInputTokens + r.inputTokens
      totalOutputTokens := s.totalOutputTokens + r.outputTokens
      skipped := skipAfter p node (outcomeOf node.type r.output) s.skipped
      finalOutput := if node.type = .output then r.output else s.finalOutput
      outputCaptured := s.outputCaptured || node.type = .output
      finished := s.finished ++ [node.id]
      returned := match item with
        | .ran _ => s.returned ++ [r.cost]
        | _ => s.returned
      replayed := match item with
        | .replayed _ => s.replayed ++ [r.cost]
        | _ => s.replayed }

section

variable (setup : Setup) (resume : Option Resume) (world : World)

def layerItems (s : LoopState) (layer : List String) : List (AgentPipelineNode × Item) :=
  (layer.filter (· ∉ s.skipped)).filterMap fun id =>
    (setup.pipeline.node id).map fun node => (node, itemFor resume world id)

/-- The nodes of the layer go to the executor; the others give back at once. -/
def dispatch (s : LoopState) (items : List (AgentPipelineNode × Item)) : LoopState :=
  let view : View :=
    { nodes := s.contextNodes, vars := contextVars setup resume, toolCalls := s.toolCalls }
  { s with
    calls := s.calls ++ items.filterMap fun (node, item) =>
      match item with
      | .ran _ => some (node.id, view)
      | _ => none
    toolCalls := s.toolCalls + (items.map fun i => i.2.toolCalls).sum }

def Item.cost (item : Item) : Rat :=
  match item.outcome with
  | .ok r => r.cost
  | .error _ => 0

def runItems (s : LoopState) (items : List (AgentPipelineNode × Item)) : LoopState :=
  { items.foldl (fun s i => settleItem format setup.pipeline s i.1 i.2)
      (dispatch setup resume s items) with
    lastLayerCost := (items.map fun i => i.2.cost).sum }

inductive Exit
  | aborted
  | late
  | budgetStop
  | overBudget
  | layerTimeout (reported : List Rat) (unaccounted : List String)
  | cancelled
  | waiting
  | rejected
  | failed
  | completed
  | crashed (message : String)

/-- The handler of a layer that timed out: what reported counts towards the layer's
running cost, what did not is recorded as aborted. A node that gives back at once
has reported; a failed one has not. -/
def timeoutItems (s : LoopState) (items : List (AgentPipelineNode × Item))
    (reporting : List String) : LoopState × Exit :=
  let reported := fun (i : AgentPipelineNode × Item) =>
    match i.2 with
    | .ran run => decide (i.1.id ∈ reporting) && run.outcome.toBool
    | item => item.outcome.toBool
  let costs := (items.filter reported).filterMap fun i =>
    match i.2 with
    | .ran _ => some i.2.cost
    | _ => none
  let unaccounted := (items.filter fun i => !reported i).map (·.1.id)
  ({ s with
     nodeResults := unaccounted.foldl (fun r id => Js.assign r id abortedRecord) s.nodeResults
     returned := s.returned ++ costs },
    .layerTimeout costs unaccounted)

/-- `Object.values(nodeResults).filter((r) => r.error)`. -/
def failures (s : LoopState) : List (String × Json) :=
  s.nodeResults.filter fun e => (recordError e.2).isSome

/-- After the last layer. -/
def finalExit (s : LoopState) : Exit :=
  if overBudget setup s.totalCost then .overBudget
  else if world.isCancelled then .cancelled
  else if s.waitingSteps ≠ [] ∧ failures s = [] then .waiting
  else if failures s ≠ [] ∧ s.outputCaptured = false ∧
      (failures s).all (fun e => recordProp e.2 "errorCode" = some (.str approvalRejectedCode)) then
    .rejected
  else if failures s ≠ [] ∧ s.outputCaptured = false then .failed
  else .completed

/-- The checks before the layer numbered `i`: cancellation, time, the stop rules and the
hard cap, in this order. -/
def exitBefore (i : Nat) (s : LoopState) : Option Exit :=
  if world.aborted i then some .aborted
  else if world.late i then some .late
  else if evaluateBudgetStops setup.budget (cents s.totalCost) (cents s.lastLayerCost) then
    some .budgetStop
  else if overBudget setup s.totalCost then some .overBudget
  else none

def layerLoop : Nat → List (List String) → LoopState → LoopState × Exit
  | _, [], s => (s, finalExit setup world s)
  | i, layer :: layers, s =>
    match exitBefore setup world i s with
    | some exit => (s, exit)
    | none =>
      let s := recordSkipped s layer
      let items := layerItems setup resume world s layer
      if (layer.filter (· ∉ s.skipped)).isEmpty then layerLoop (i + 1) layers s
      else
        match world.layerTimeout i with
        | some reporting => timeoutItems (dispatch setup resume s items) items reporting
        | none => layerLoop (i + 1) layers (runItems format setup resume s items)

/-! ## Exits -/

def maxExecutionErrorChars : Nat := 2000

def timeoutError (unaccounted : List String) : String :=
  let base := s!"Execution timed out after {setup.maxExecutionTime}ms"
  let names := ", ".intercalate unaccounted
  if unaccounted.isEmpty then base
  else s!"{base}; the cost of {unaccounted.length} node(s) ({names}) could not be determined"

def waitingRunText (steps : List WaitingCodeStep) : String :=
  match steps.filter (·.isToolCall) with
  | [] =>
    let n := (steps.map (·.changes)).sum
    let word := if n = 1 then "change" else "changes"
    s!"Waiting for your approval: {n} {word}."
  | first :: _ =>
    if steps.length = 1 then
      let call := match first.call with
        | some call => if call = "" then "a tool call" else call
        | none => "a tool call"
      s!"Waiting for your approval: {call}."
    else s!"Waiting for your approval: {steps.length} requests."

def exitStatus : Exit → AgentExecutionStatus
  | .aborted | .cancelled | .rejected => .cancelled
  | .late | .layerTimeout .. => .timeout
  | .budgetStop | .completed => .completed
  | .overBudget | .failed | .crashed _ => .failed
  | .waiting => .waitingApproval

def exitError (s : LoopState) (exit : Exit) (before : Option String) : Option String :=
  match exit with
  | .aborted | .cancelled => some "Execution cancelled"
  | .late => some (timeoutError setup [])
  | .layerTimeout _ unaccounted => some (timeoutError setup unaccounted)
  | .overBudget =>
    let limit := format.text (setup.budgetLimit.getD 0)
    some s!"Budget limit (${limit}) exceeded: ${format.fixed4 s.totalCost}"
  | .waiting => some (waitingRunText s.waitingSteps)
  | .rejected =>
    some (sliceText (" ".intercalate ((failures s).filterMap fun e => recordError e.2))
      maxExecutionErrorChars)
  | .failed =>
    let failed := (failures s).filterMap fun e => (recordError e.2).map fun error => s!"{e.1}: {error}"
    some (sliceText ("Pipeline failed: " ++ "; ".intercalate failed) maxExecutionErrorChars)
  | .crashed message => some message
  | .budgetStop | .completed => before

def exitOutput (s : LoopState) (exit : Exit) (before : JsValue) : JsValue :=
  match exit with
  | .budgetStop => .obj (s.contextNodes.map fun e =>
      (e.1, .obj ([("output", e.2.output)] ++ (e.2.status.map fun t => ("status", .str t)).toList)))
  | .cancelled | .completed => s.finalOutput
  | .waiting | .rejected | .failed => .null
  | .aborted | .late | .overBudget | .layerTimeout .. | .crashed _ => before

def exitCost (s : LoopState) (exit : Exit) : Option Rat :=
  match exit with
  | .late => none
  | .layerTimeout reported _ => some (s.totalCost + reported.sum)
  | _ => some s.totalCost

def costForStats (s : LoopState) (exit : Exit) : Rat :=
  match exit with
  | .layerTimeout reported _ => s.totalCost + reported.sum
  | _ => s.totalCost

/-- The entity as the exit puts it together. The timeout between layers sets the
status, the error, the time and the node results, and nothing else. -/
def exitEntity (s : LoopState) (exit : Exit) (execution : AgentExecution) : AgentExecution :=
  let base := { execution with
    status := exitStatus exit
    error := exitError format setup s exit execution.error
    executionTime := world.executionTime
    nodeResults := .obj s.nodeResults }
  match exitCost s exit with
  | none => base
  | some cost =>
    { base with
      totalCost := cost
      totalTokens := s.totalTokens
      inputTokens := s.totalInputTokens
      outputTokens := s.totalOutputTokens }

def statsAfterLanding : Exit → Option Bool
  | .budgetStop | .waiting => none
  | .completed => some true
  | _ => some false

structure Bump where
  success : Bool
  cost : Rat

/-- How a call ended. `written` is the row its terminal write left, when that
landed, and `live` the row another writer ended, when it did not. `dropped` is the
spend a layer reported before its write threw. -/
structure CallResult where
  state : LoopState
  exit : Exit
  dropped : List Rat := []
  written : Option AgentExecution := none
  live : Option AgentExecution := none
  bumps : List Bump := []

/-- The `n`th terminal write of the call: `none` when it throws, and it throws on
an output JSON cannot write. -/
def commit (n : Nat) (execution : AgentExecution) (output : JsValue) :
    Option (AgentExecution × Bool) :=
  match output.toJson, world.row n with
  | some json, some row =>
    some (commitTerminal { execution with output := json.getD execution.output } row)
  | _, _ => none

def afterCommit (s : LoopState) (exit : Exit) (row : AgentExecution) (landed : Bool) : CallResult :=
  if landed then
    { state := s, exit, written := some row
      bumps := ((statsAfterLanding exit).map fun success => ⟨success, costForStats s exit⟩).toList }
  else { state := s, exit, live := some row, bumps := [⟨false, costForStats s exit⟩] }

/-- The `catch` of the call. The run is counted whether its write landed, lost or
threw. -/
def crash (n : Nat) (message : String) (s : LoopState) (execution : AgentExecution)
    (output : JsValue) (dropped : List Rat) : CallResult :=
  let exit := .crashed message
  match commit world n (exitEntity format setup world s exit execution) output with
  | some (row, landed) => { afterCommit s exit row landed with dropped }
  | none => { state := s, exit, dropped, bumps := [⟨false, costForStats s exit⟩] }

def Exit.reported : Exit → List Rat
  | .layerTimeout reported _ => reported
  | _ => []

def conclude (s : LoopState) (exit : Exit) (execution : AgentExecution) : CallResult :=
  let entity := exitEntity format setup world s exit execution
  let output := exitOutput s exit .null
  match commit world 0 entity output with
  | some (row, landed) => afterCommit s exit row landed
  | none => crash format setup world 1 world.writeError s entity output exit.reported

/-! ## The call -/

def maxPipelineNodes : Nat := 100

def maxPipelineEdges : Nat := 500

def validatePipelineSize (p : AgentPipeline) : Except String Unit :=
  if maxPipelineNodes < p.nodes.length then
    .error s!"Pipeline has {p.nodes.length} nodes, exceeding maximum of {maxPipelineNodes}"
  else if maxPipelineEdges < p.edges.length then
    .error s!"Pipeline has {p.edges.length} edges, exceeding maximum of {maxPipelineEdges}"
  else .ok ()

def prepareLayers : Except String (List (List String)) :=
  match world.setupError with
  | some message => .error message
  | none =>
    match validatePipelineSize setup.pipeline with
    | .error message => .error message
    | .ok () => computeLayers setup.pipeline

def startEntity (created : AgentExecution) : AgentExecution :=
  match resume with
  | some r => { r.execution with status := .running, error := none }
  | none => created

def execute (created : AgentExecution) : CallResult :=
  let execution := startEntity resume created
  match prepareLayers setup world with
  | .error message => crash format setup world 0 message (.start resume) execution .null []
  | .ok layers =>
    let (s, exit) := layerLoop format setup resume world 0 layers (.start resume)
    conclude format setup world s exit execution

end

/-! ## What a call can do -/

section

variable {format : NumberFormat} {setup : Setup} {world : World}

variable (format setup world) in
theorem layerLoop_cons (resume : Option Resume) (i : Nat) (layer : List String)
    (layers : List (List String)) (s : LoopState) :
    let next := layerLoop format setup resume world (i + 1) layers
    let skip := recordSkipped s layer
    let items := layerItems setup resume world skip layer
    let result := layerLoop format setup resume world i (layer :: layers) s
    (∃ exit, result = (s, exit) ∧ exit ∈ [.aborted, .late, .budgetStop, .overBudget]) ∨
      (result = next skip ∧ layer.filter (· ∉ skip.skipped) = []) ∨
      (∃ reporting, result = timeoutItems (dispatch setup resume skip items) items reporting) ∨
      result = next (runItems format setup resume skip items) := by
  intro next skip items result
  have hresult : result = layerLoop format setup resume world i (layer :: layers) s := rfl
  rw [layerLoop] at hresult
  split at hresult
  · next exit hexit =>
    refine .inl ⟨exit, hresult, ?_⟩
    unfold exitBefore at hexit
    grind
  · dsimp only at hresult
    split at hresult
    · next hnone => exact .inr (.inl ⟨hresult, List.isEmpty_iff.mp hnone⟩)
    · split at hresult
      · next reporting _ => exact .inr (.inr (.inl ⟨reporting, hresult⟩))
      · exact .inr (.inr (.inr hresult))

theorem computeLayers_of_prepareLayers {layers : List (List String)}
    (h : prepareLayers setup world = .ok layers) : computeLayers setup.pipeline = .ok layers := by
  unfold prepareLayers at h
  split at h
  · cases h
  · split at h
    · cases h
    · exact h

theorem commit_landed {n : Nat} {execution row : AgentExecution} {output : JsValue}
    (h : commit world n execution output = some (row, true)) :
    ∃ json before, row = terminalColumns { execution with output := json } before := by
  unfold commit at h
  split at h
  · next json before _ _ =>
    rw [some.injEq, commitTerminal] at h
    split at h
    · cases h
      exact ⟨_, _, rfl⟩
    · cases h
  · cases h

theorem afterCommit_state (s : LoopState) (exit : Exit) (row : AgentExecution) (landed : Bool) :
    (afterCommit s exit row landed).state = s := by
  cases landed <;> rfl

theorem crash_state (n : Nat) (message : String) (s : LoopState) (execution : AgentExecution)
    (output : JsValue) (dropped : List Rat) :
    (crash format setup world n message s execution output dropped).state = s := by
  unfold crash
  dsimp only
  split
  · exact afterCommit_state ..
  · rfl

theorem crash_exit (n : Nat) (message : String) (s : LoopState) (execution : AgentExecution)
    (output : JsValue) (dropped : List Rat) :
    (crash format setup world n message s execution output dropped).exit = .crashed message := by
  unfold crash
  dsimp only
  split
  · next landed _ => cases landed <;> rfl
  · rfl

theorem conclude_state (s : LoopState) (exit : Exit) (execution : AgentExecution) :
    (conclude format setup world s exit execution).state = s := by
  unfold conclude
  dsimp only
  split
  · exact afterCommit_state ..
  · exact crash_state ..

theorem execute_state (resume : Option Resume) (created created' : AgentExecution) :
    (execute format setup resume world created).state
      = (execute format setup resume world created').state := by
  unfold execute
  dsimp only
  split
  · rw [crash_state, crash_state]
  · rw [conclude_state, conclude_state]

theorem conclude_waiting {s : LoopState} {exit : Exit} {execution row : AgentExecution}
    (hexit : (conclude format setup world s exit execution).exit = .waiting)
    (hwritten : (conclude format setup world s exit execution).written = some row) :
    exit = .waiting ∧ row.nodeResults = .obj s.nodeResults := by
  unfold conclude at hexit hwritten
  dsimp only at hexit hwritten
  split at hexit
  · next row' landed hc =>
    rw [hc] at hwritten
    cases landed with
    | false => cases hwritten
    | true =>
      obtain rfl : exit = .waiting := hexit
      obtain rfl : row' = row := by simpa [afterCommit] using hwritten
      obtain ⟨json, before, rfl⟩ := commit_landed hc
      exact ⟨rfl, rfl⟩
  · rw [crash_exit] at hexit
    cases hexit

end

/-! ## A run: its calls, one after the other -/

def settledSteps (wait : WorkflowWaitState) (decision : String → SettledCodeStep) :
    List (String × SettledCodeStep) :=
  wait.steps.foldl (fun settled step => Js.assign settled step.nodeId (decision step.nodeId)) []

def waitState (setup : Setup) (resume : Option Resume) (s : LoopState) : WorkflowWaitState :=
  { steps := s.waitingSteps.map fun step =>
      { step with result := capPersistedPayload format step.result }
    toolCalls := s.toolCalls
    vars := match resume with
      | some r => r.wait.vars
      | none => setup.optionVars }

inductive RunPhase
  | fresh (created : AgentExecution)
  | waiting (row : AgentExecution) (wait : WorkflowWaitState)
  | ended (row : Option AgentExecution)

/-- A run, with what its calls spent, the statistics they counted, the nodes that
finished and the nodes given to the executor after they had finished. -/
structure WorkflowRun where
  phase : RunPhase
  spent : Rat := 0
  bumps : List Bump := []
  finished : List String := []
  again : List String := []

inductive RunAction
  /-- A call of the engine, with the decisions it carries on with. -/
  | call (decision : String → SettledCodeStep) (world : World)
  /-- The resume is refused before the engine takes it up. -/
  | refuse (message : String)

namespace WorkflowRun

/-- What the next call carries on from. -/
def resume (run : WorkflowRun) (decision : String → SettledCodeStep) : Option Resume :=
  match run.phase with
  | .waiting row wait => some ⟨row, wait, settledSteps wait decision⟩
  | _ => none

def result (setup : Setup) (run : WorkflowRun) (decision : String → SettledCodeStep) (world : World) :
    Option CallResult :=
  match run.phase with
  | .fresh created => some (execute format setup none world created)
  | .waiting row _ => some (execute format setup (run.resume decision) world row)
  | .ended _ => none

def phaseAfter (setup : Setup) (run : WorkflowRun) (decision : String → SettledCodeStep)
    (r : CallResult) : RunPhase :=
  match r.written, r.exit with
  | some row, .waiting => .waiting row (waitState format setup (run.resume decision) r.state)
  | some row, _ => .ended (some row)
  | none, _ => .ended r.live

def afterCall (setup : Setup) (run : WorkflowRun) (decision : String → SettledCodeStep)
    (r : CallResult) : WorkflowRun :=
  { phase := run.phaseAfter format setup decision r
    spent := run.spent + r.state.returned.sum
    bumps := run.bumps ++ r.bumps
    finished := run.finished ++ r.state.finished
    again := run.again ++ (r.state.calls.map (·.1)).filter (· ∈ run.finished) }

def refused (run : WorkflowRun) (message : String) : WorkflowRun :=
  match run.phase with
  | .waiting row _ =>
    { run with phase := .ended (some (failResume message { row with status := .running })) }
  | _ => run

def step (setup : Setup) (run : WorkflowRun) : RunAction → WorkflowRun
  | .call decision world =>
    match run.result format setup decision world with
    | none => run
    | some r => run.afterCall format setup decision r
  | .refuse message => run.refused message

/-- A run before its first call, on the row the engine creates for it. -/
def start (id agentId organizationId : String) : WorkflowRun :=
  { phase := .fresh (runningRow id agentId organizationId) }

end WorkflowRun

section

variable {format : NumberFormat} {setup : Setup} {world : World}

variable {run : WorkflowRun} {decision : String → SettledCodeStep}

variable {r : CallResult}

theorem result_eq_execute (h : run.result format setup decision world = some r) :
    ∃ created, r = execute format setup (run.resume decision) world created := by
  unfold WorkflowRun.result at h
  split at h
  · next created hphase =>
    refine ⟨created, ?_⟩
    rw [WorkflowRun.resume, hphase]
    exact (some.inj h).symm
  · next row wait hphase => exact ⟨row, (some.inj h).symm⟩
  · cases h

theorem phaseAfter_waiting {row : AgentExecution} {wait : WorkflowWaitState}
    (h : run.phaseAfter format setup decision r = .waiting row wait) :
    r.written = some row ∧ r.exit = .waiting ∧
      wait = waitState format setup (run.resume decision) r.state := by
  unfold WorkflowRun.phaseAfter at h
  split at h
  · next row' hw he =>
    cases h
    exact ⟨hw, he, rfl⟩
  · cases h
  · cases h

theorem phaseAfter_ne_fresh (created : AgentExecution) :
    run.phaseAfter format setup decision r ≠ .fresh created := by
  unfold WorkflowRun.phaseAfter
  split <;> exact nofun

theorem ne_ended_of_result (h : run.result format setup decision world = some r)
    (row : Option AgentExecution) : run.phase ≠ .ended row := by
  intro hp
  simp only [WorkflowRun.result, hp] at h
  cases h

end

end Almyty.Workflow
