import Almyty.Lib.Json

/-!
# The run event log: `modules/agents/run-events.ts`

Every write of a run appends the events that describe it. `commitEvents` diffs the row as locked
(`RunBaseline`) against the row as written; `foldRunEvents` folds a log back into the state it
describes, and throws on a gap, a repeat, or a log that does not open with `run_started`.

Mirroring notes:
- The columns have the types the entity gives them: the `json` columns hold any JSON value, `error`
  is text or null, the counters are numbers.
- `same(a, b)` compares JSON texts, and two trees have one text exactly when they are equal.
-/

namespace Almyty.Runs

open Almyty.Lib

/-- Milliseconds since the epoch, as `Date.getTime()` reads. -/
abbrev Time := Int

inductive AgentRunStatus
  | pending | running | waitingInput | sleeping | completed | failed | cancelled | timeout
  | waitingApproval
  deriving DecidableEq

def AgentRunStatus.text : AgentRunStatus → String
  | .pending => "pending"
  | .running => "running"
  | .waitingInput => "waiting_input"
  | .sleeping => "sleeping"
  | .completed => "completed"
  | .failed => "failed"
  | .cancelled => "cancelled"
  | .timeout => "timeout"
  | .waitingApproval => "waiting_approval"

structure AgentRun where
  status : AgentRunStatus
  currentStep : Int
  totalCost : Rat
  totalTokens : Int
  toolCallCount : Int
  executionTime : Int
  output : JsonValue
  error : Option String
  workingMemory : JsonValue
  metadata : JsonValue
  steps : JsonValue
  deliveredAt : Option Time
  headSeq : Nat
  nextWakeAt : Option Time
  leaseOwner : Option String
  leaseExpiresAt : Option Time
  attempt : Nat
  takeovers : Nat

/-! ## Event types -/

inductive RunMarker
  | compaction | approvalRequested | approvalDecided | approvalResolved | inputReceived
  | waitingInput | statusChanged | deliveryClaimed | leaseTakenOver | runCompleted | runFailed
  deriving DecidableEq

inductive ObjectChange
  | replace (value : Json)
  | keys (set : Fields) (unset : List String)

inductive RunEventBody
  | runStarted (status : AgentRunStatus) (currentStep : Int) (output : Json)
      (error : Option String) (workingMemory metadata : Json) (steps : List Json)
  | modelCall (index : Nat) (step : Json)
  | toolCall (index callIndex : Nat) (step : Fields)
  | toolResult (index callIndex : Nat) (result : Fields)
  | stepRecorded (index : Nat) (step : Json)
  | stepReplaced (index : Nat) (step : Json)
  | stepsReset (steps : List Json)
  | memoryChanged (change : ObjectChange)
  | metadataChanged (change : ObjectChange)
  | stepCommitted (status : AgentRunStatus) (currentStep : Int) (totalCost : Rat)
      (totalTokens toolCallCount executionTime : Int) (output : Option Json)
      (error : Option (Option String))
  | marker (type : RunMarker) (payload : Json)

def RunEventBody.type : RunEventBody → String
  | .runStarted .. => "run_started"
  | .modelCall .. => "model_call"
  | .toolCall .. => "tool_call"
  | .toolResult .. => "tool_result"
  | .stepRecorded .. => "step_recorded"
  | .stepReplaced .. => "step_replaced"
  | .stepsReset .. => "steps_reset"
  | .memoryChanged .. => "memory_changed"
  | .metadataChanged .. => "metadata_changed"
  | .stepCommitted .. => "step_committed"
  | .marker .compaction _ => "compaction"
  | .marker .approvalRequested _ => "approval_requested"
  | .marker .approvalDecided _ => "approval_decided"
  | .marker .approvalResolved _ => "approval_resolved"
  | .marker .inputReceived _ => "input_received"
  | .marker .waitingInput _ => "waiting_input"
  | .marker .statusChanged _ => "status_changed"
  | .marker .deliveryClaimed _ => "delivery_claimed"
  | .marker .leaseTakenOver _ => "lease_taken_over"
  | .marker .runCompleted _ => "run_completed"
  | .marker .runFailed _ => "run_failed"

structure RunEventDraft where
  step : Option Int
  body : RunEventBody

structure RunEventRecord where
  seq : Nat
  step : Option Int
  body : RunEventBody

/-- A marker the writer recorded that leaves no other trace in the row. -/
structure RunNote where
  type : RunMarker
  step : Option Int
  payload : Json

/-! ## State and baseline -/

structure RunState where
  status : AgentRunStatus
  currentStep : Int
  totalCost : Rat
  totalTokens : Int
  toolCallCount : Int
  executionTime : Int
  output : Json
  error : Option String
  workingMemory : Json
  metadata : Json
  steps : Json

structure RunProjection where
  headSeq : Nat
  status : AgentRunStatus
  currentStep : Int
  totalCost : Rat
  totalTokens : Int
  toolCallCount : Int
  executionTime : Int
  output : Json
  error : Option String
  workingMemory : Json
  metadata : Json
  steps : List Json

/-- The projection without its head, in the shape the row is compared in. -/
def RunProjection.state (p : RunProjection) : RunState :=
  { status := p.status, currentStep := p.currentStep, totalCost := p.totalCost,
    totalTokens := p.totalTokens, toolCallCount := p.toolCallCount,
    executionTime := p.executionTime, output := p.output, error := p.error,
    workingMemory := p.workingMemory, metadata := p.metadata, steps := .arr p.steps }

/-- What the row held just before a write. -/
structure RunBaseline where
  headSeq : Nat
  status : AgentRunStatus
  currentStep : Int
  output : Json
  error : Option String
  workingMemory : Json
  metadata : Json
  steps : List Json

def baselineOf (run : AgentRun) : RunBaseline :=
  { headSeq := run.headSeq, status := run.status, currentStep := run.currentStep,
    output := run.output.1, error := run.error, workingMemory := run.workingMemory.1,
    metadata := run.metadata.1, steps := run.steps.1.itemsOrEmpty }

def storedRunState (row : AgentRun) : RunState :=
  { status := row.status, currentStep := row.currentStep, totalCost := row.totalCost,
    totalTokens := row.totalTokens, toolCallCount := row.toolCallCount,
    executionTime := row.executionTime, output := row.output.1, error := row.error,
    workingMemory := row.workingMemory.1, metadata := row.metadata.1,
    steps := if row.steps.1 = .null then .arr [] else row.steps.1 }

/-! ## Diffs -/

def diffObject (before after : Json) : Option ObjectChange :=
  if before = after then none
  else
    match before, after with
    | .obj b, .obj a =>
      let set := Js.assignAll [] (a.filter fun p => Js.propertyText b p.1 ≠ some p.2)
      let unset := (Assoc.keys b).filter fun key => !Js.hasProperty a key
      some (.keys set unset)
    | _, _ => some (.replace after)

def applyObjectChange (current : Json) : ObjectChange → Json
  | .replace value => value
  | .keys set unset =>
    .obj (Assoc.eraseAll (Js.assignAll current.fieldsOrEmpty set) unset)

/-! ## Approvals waiting, read from working memory -/

def storedObject (entries : List (String × Option Json)) : Json :=
  .obj (entries.filterMap fun p => p.2.map fun v => (p.1, v))

def prop (value : Json) (key : String) : Option Json := value.fieldsOrEmpty.lookup key

def setApproval (out : List (Json × Json)) (id detail : Json) : List (Json × Json) :=
  if out.any fun p => Json.sameKey p.1 id then
    out.map fun p => if Json.sameKey p.1 id then (p.1, detail) else p
  else out ++ [(id, detail)]

def hasApproval (out : List (Json × Json)) (id : Json) : Bool :=
  out.any fun p => Json.sameKey p.1 id

def waitingEntries (memory : Json) (key : String) : List (Json × Json) :=
  ((prop memory key).getD .null).itemsOrEmpty.filterMap fun call =>
    match prop call "approvalId" with
    | some id => if id.truthy then some (id, call) else none
    | none => none

def approvalsWaiting (memory : Json) : List (Json × Json) :=
  let calls := (waitingEntries memory "gatedToolCalls").foldl (fun out p =>
    setApproval out p.1 (storedObject [("approvalId", some p.1), ("kind", some (.str "tool_call")),
      ("tool", prop p.2 "toolName"), ("rule", prop p.2 "rule"),
      ("toolCallId", prop p.2 "toolCallId")])) []
  (waitingEntries memory "pendingChangeSets").foldl (fun out p =>
    setApproval out p.1 (storedObject [("approvalId", some p.1),
      ("kind", some (.str "change_set")), ("codeExecutionId", prop p.2 "codeExecutionId"),
      ("toolCallId", prop p.2 "toolCallId")])) calls

/-! ## Step events -/

def resultKeys : List String := ["output", "error", "duration", "cost", "tokens"]

def toolStepTypes : List String := ["tool_call", "sub_agent_call"]

def stepType (step : Json) : Option Json := prop step "type"

def isToolStep (step : Json) : Bool :=
  match stepType step with
  | some (.str t) => toolStepTypes.contains t
  | _ => false

/-- The entries that satisfy `p`, copied one by one into an empty object. -/
def collect (p : String → Bool) (fields : Fields) : Fields :=
  Js.assignAll [] (fields.filter fun e => p e.1)

def stepEvents (step : Json) (index calls : Nat) (at' : Int) : List RunEventDraft :=
  if isToolStep step then
    [⟨some at', .toolCall index calls
        (collect (fun k => !resultKeys.contains k) step.fieldsOrEmpty)⟩,
     ⟨some at', .toolResult index calls
        (collect (fun k => resultKeys.contains k) step.fieldsOrEmpty)⟩]
  else if stepType step = some (.str "llm_call") then
    [⟨some at', .modelCall index step⟩]
  else [⟨some at', .stepRecorded index step⟩]

def stepsEvents (base : List Json) (at' : Int) : Nat → Nat → List Json → List RunEventDraft
  | _, _, [] => []
  | index, calls, step :: rest =>
    match base[index]? with
    | some before =>
      (if step = before then [] else [⟨some at', .stepReplaced index step⟩])
        ++ stepsEvents base at' (index + 1) calls rest
    | none =>
      stepEvents step index calls at'
        ++ stepsEvents base at' (index + 1) (if isToolStep step then calls + 1 else calls) rest

/-! ## The events of a write -/

def changeEvent (at' : Int) (wrap : ObjectChange → RunEventBody) (before after : Json) :
    List RunEventDraft :=
  match diffObject before after with
  | some change => [⟨some at', wrap change⟩]
  | none => []

/-- The opening event of a log: what the row held before its first write. -/
def runStartedEvents (base : RunBaseline) : List RunEventDraft :=
  if base.headSeq = 0 then
    [⟨some base.currentStep, .runStarted base.status base.currentStep base.output base.error
      base.workingMemory base.metadata base.steps⟩]
  else []

def noteEvents (at' : Int) (notes : List RunNote) : List RunEventDraft :=
  notes.map fun n => ⟨some (n.step.getD at'), .marker n.type n.payload⟩

/-- Approvals no longer waited on. -/
def resolvedEvents (at' : Int) (before after : List (Json × Json)) : List RunEventDraft :=
  (before.filter fun p => !hasApproval after p.1).map fun p =>
    ⟨some at', .marker .approvalResolved (.obj [("approvalId", p.1)])⟩

def requestedEvents (at' : Int) (base : RunBaseline) (run : AgentRun) (notes : List RunNote)
    (before after : List (Json × Json)) : List RunEventDraft :=
  let fresh := after.filter fun p => !hasApproval before p.1
  let noted := notes.any fun n => n.type = .approvalRequested
  fresh.map (fun p => ⟨some at', .marker .approvalRequested p.2⟩)
    ++ (if fresh.isEmpty && !noted && after.isEmpty && run.status = .waitingApproval
          && base.status ≠ .waitingApproval then
        [⟨some at', .marker .approvalRequested (.obj [("kind", .str "run")])⟩]
      else [])

def statusEvents (at' : Int) (base : RunBaseline) (run : AgentRun) : List RunEventDraft :=
  if run.status ≠ base.status then
    [⟨some at', .marker .statusChanged
        (.obj [("from", .str base.status.text), ("to", .str run.status.text)])⟩]
      ++ (if run.status = .waitingInput then [⟨some at', .marker .waitingInput (.obj [])⟩] else [])
      ++ (if run.status = .completed then [⟨some at', .marker .runCompleted (.obj [])⟩] else [])
      ++ (if run.status = .failed then
          [⟨some at', .marker .runFailed
            (.obj [("error", match run.error with | some e => .str e | none => .null)])⟩]
        else [])
  else []

/-- The steps part of a write: one reset when the array shrank, else the loop. -/
def stepChangeEvents (at' : Int) (base : List Json) (persisted : List Json) : List RunEventDraft :=
  if persisted.length < base.length then [⟨some at', .stepsReset persisted⟩]
  else stepsEvents base at' 0 0 persisted

/-- The closing event: the row's scalars as the write leaves them. -/
def stepCommittedEvent (base : RunBaseline) (run : AgentRun) : RunEventDraft :=
  ⟨some base.currentStep, .stepCommitted run.status run.currentStep run.totalCost run.totalTokens
    run.toolCallCount run.executionTime
    (if run.output.1 = base.output then none else some run.output.1)
    (if run.error = base.error then none else some run.error)⟩

def commitEvents (base : RunBaseline) (run : AgentRun) (notes : List RunNote) :
    List RunEventDraft :=
  let at' := base.currentStep
  let before := approvalsWaiting base.workingMemory
  let after := approvalsWaiting run.workingMemory.1
  runStartedEvents base
    ++ noteEvents at' notes
    ++ resolvedEvents at' before after
    ++ stepChangeEvents at' base.steps run.steps.1.itemsOrEmpty
    ++ changeEvent at' .memoryChanged base.workingMemory run.workingMemory.1
    ++ changeEvent at' .metadataChanged base.metadata run.metadata.1
    ++ requestedEvents at' base run notes before after
    ++ statusEvents at' base run
    ++ [stepCommittedEvent base run]

/-! ## Folding -/

/-- `array[index] = value`: a write past the end leaves holes, read back as null. -/
def putIndex (items : List Json) (index : Nat) (value : Json) : List Json :=
  if index < items.length then items.set index value
  else items ++ List.replicate (index - items.length) .null ++ [value]

def pushStep (p : RunProjection) (seq index : Nat) (step : Json) : Except String RunProjection :=
  if index ≠ p.steps.length then .error s!"step {index} out of order at seq {seq}"
  else .ok { p with headSeq := seq, steps := p.steps ++ [.obj step.spread] }

def foldEvent (p : RunProjection) (seq : Nat) : RunEventBody → Except String RunProjection
  | .runStarted .. => .error s!"run_started appears twice (seq {seq})"
  | .modelCall index step => pushStep p seq index step
  | .stepRecorded index step => pushStep p seq index step
  | .toolCall index _ step => pushStep p seq index (.obj step)
  | .toolResult index _ result =>
    let before := (p.steps[index]?.getD .null).spread
    .ok { p with headSeq := seq, steps := putIndex p.steps index (.obj (Assoc.putAll before result)) }
  | .stepReplaced index step => .ok { p with headSeq := seq, steps := putIndex p.steps index step }
  | .stepsReset steps => .ok { p with headSeq := seq, steps := steps }
  | .memoryChanged change =>
    .ok { p with headSeq := seq, workingMemory := applyObjectChange p.workingMemory change }
  | .metadataChanged change =>
    .ok { p with headSeq := seq, metadata := applyObjectChange p.metadata change }
  | .stepCommitted status currentStep totalCost totalTokens toolCallCount executionTime output
      error =>
    .ok { p with
      headSeq := seq, status := status, currentStep := currentStep, totalCost := totalCost,
      totalTokens := totalTokens, toolCallCount := toolCallCount, executionTime := executionTime,
      output := output.getD p.output, error := error.getD p.error }
  | .marker .. => .ok { p with headSeq := seq }

def foldOrdered : Nat → Option RunProjection → List RunEventRecord →
    Except String (Option RunProjection)
  | _, state, [] => .ok state
  | expected, state, event :: rest =>
    if event.seq ≠ expected then
      .error s!"run event log is not contiguous: expected seq {expected}, found {event.seq}"
    else
      match state, event.body with
      | none, .runStarted status currentStep output error workingMemory metadata steps =>
        foldOrdered (expected + 1)
          (some { headSeq := event.seq, status, currentStep, totalCost := 0, totalTokens := 0,
                  toolCallCount := 0, executionTime := 0, output, error, workingMemory, metadata,
                  steps }) rest
      | none, body =>
        let type := body.type
        .error s!"run event log does not open with run_started (seq {event.seq} is {type})"
      | some p, body =>
        match foldEvent p event.seq body with
        | .ok p' => foldOrdered (expected + 1) (some p') rest
        | .error e => .error e

def foldRunEvents (from' : Option RunProjection) (events : List RunEventRecord) :
    Except String (Option RunProjection) :=
  foldOrdered ((from'.elim 0 (·.headSeq)) + 1) from'
    (events.mergeSort fun a b => decide (a.seq ≤ b.seq))

def projectRunEvents (events : List RunEventRecord) : Except String RunProjection :=
  match foldRunEvents none events with
  | .ok (some state) => .ok state
  | .ok none => .error "run event log is empty"
  | .error e => .error e

end Almyty.Runs
