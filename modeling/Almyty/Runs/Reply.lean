import Almyty.Lib.JsValue
import Almyty.Runs.Events

/-!
# The tool calls of a reply: `modules/agents/agent-step-processor.ts`

A step of an autonomous run asks the model, and the model may answer with tool calls.
`processLeasedStep` goes through them in order. Most calls are answered on the spot with a
tool-result message. A call an approval rule held, a call whose machine is starting and a script
whose changes wait for a person are put off: they are collected in local arrays that the step writes
to the run's working memory when the list is through. A built-in call that puts the run to sleep,
asks the person or asks for approval ends the step where it stands.

`calls_recorded_iff` says when every call of the reply is accounted for in what the step leaves
behind.

Mirroring notes:
- What the services answer about a call is given with the call (`CallAnswers`), each answer as a
  value or as the error it throws.
- The model is asked only when working memory holds no call put off earlier, so `rest` is the
  working memory without the three lists; it comes with the grants the scripts of this reply used.
-/

namespace Almyty.Runs

open Almyty.Lib

/-! ## A call and what it comes to -/

structure ToolCall where
  id : String
  name : String
  parameters : Json := .obj []
  deriving DecidableEq

structure ToolResultMessage where
  toolCallId : String
  content : Option String
  error : Option String := none

structure GatedToolCall where
  toolCallId : String
  toolId : String
  toolName : String
  parameters : Json
  approvalId : String
  rule : String

structure WakingToolCall where
  toolCallId : String
  toolId : String
  toolName : String
  parameters : Json

structure PendingChangeSet where
  toolCallId : String
  codeExecutionId : String
  approvalId : String
  forModel : Json

structure MachineFailure where
  raw : Option String

inductive BuiltInStatus
  | sleeping
  | waitingInput

/-- What a built-in or memory tool gives, and the status it leaves on the run. -/
structure BuiltInResult where
  result : Option Json := none
  error : Option String := none
  status : Option BuiltInStatus := none
  runStatus : AgentRunStatus := .running

structure ToolExecutionResult where
  success : Bool
  data : Option Json := none
  error : Option String := none
  /-- The rule that held the call. -/
  approvalRequired : Option String := none
  runnerErrorCode : Option String := none
  machineFailed : Bool := false
  machineError : Option String := none
  retryAfterMs : Nat := 0

structure StagedChanges where
  codeExecutionId : String
  approvalId : String

/-- What `runCode` gives; `calls` is what it adds to the run's tool-call count. -/
structure RanCode where
  forModel : Json
  error : Option String := none
  calls : Nat := 0
  pending : Option StagedChanges := none

/-- A result or an error, from a teammate, a sub-agent or discovery. -/
structure Answer where
  result : Option Json := none
  error : Option String := none

structure CallAnswers where
  builtIn : Except String (Option BuiltInResult) := .ok none
  teammate : Except String Answer := .ok {}
  subAgent : Except String Answer := .ok {}
  code : Except String RanCode := .ok ⟨.obj [], none, 0, none⟩
  discovery : Except String Answer := .ok {}
  executed : Except String ToolExecutionResult := .ok ⟨true, none, none, none, none, false, none, 0⟩
  /-- The id of the approval `holdForApproval` makes. -/
  held : Except String String := .ok ""
  /-- The message of this call cannot be saved. -/
  saveError : Option String := none

structure ToolRef where
  id : String
  name : String

inductive ToolMode
  | direct | discover | code
  deriving DecidableEq

/-- What the step knows before its first call. -/
structure ReplySetup where
  /-- `run.conversationId` is set. -/
  conversation : Bool
  teammates : List String := []
  subAgents : List String := []
  mode : ToolMode := .direct
  tools : List ToolRef := []
  maxToolCalls : Nat
  formatToolError : Option String → String := fun e => "Error: " ++ e.getD ""
  numberText : Rat → String := toString

inductive CallOutcome
  | answered (message : ToolResultMessage) (scriptCalls : Nat)
  | pauses (message : ToolResultMessage) (status : BuiltInStatus) (runStatus : AgentRunStatus)
  | held (call : GatedToolCall)
  | waking (call : WakingToolCall) (retryAfterMs : Nat)
  | staged (set : PendingChangeSet) (scriptCalls : Nat)
  | machineFailed (message : ToolResultMessage) (failure : MachineFailure)
  | throws (message : String)

section

variable (setup : ReplySetup)

def orText (value fallback : Option String) : Option String :=
  match value with
  | some text => if text = "" then fallback else value
  | none => fallback

/-- `typeof value === 'string' ? value : JSON.stringify(value)`. -/
def contentOf : Option Json → Option String
  | some (.str s) => some s
  | some json => some (json.text setup.numberText)
  | none => none

/-- A message outside a `try`: a save that throws ends the step. -/
def saved (answers : CallAnswers) (outcome : CallOutcome) : CallOutcome :=
  match setup.conversation, answers.saveError with
  | true, some error => .throws error
  | _, _ => outcome

def builtInOutcome (call : ToolCall) (answers : CallAnswers) (built : BuiltInResult) :
    CallOutcome :=
  let message : ToolResultMessage :=
    ⟨call.id, orText built.error (contentOf setup built.result), built.error⟩
  saved setup answers <|
    match built.status with
    | some status => .pauses message status built.runStatus
    | none => .answered message 0

def teammateOutcome (call : ToolCall) (answers : CallAnswers) (asked : Answer) : CallOutcome :=
  saved setup answers <|
    .answered ⟨call.id, orText asked.error (some ((contentOf setup asked.result).getD "")),
      asked.error⟩ 0

def subAgentOutcome (call : ToolCall) (answers : CallAnswers) : CallOutcome :=
  let answer : Answer :=
    match answers.subAgent with
    | .ok sub =>
      { sub with
        result := (sub.result.filter Json.truthy).or (some (.str "Sub-agent completed without output")) }
    | .error error => { error := some ("Sub-agent call failed: " ++ error) }
  saved setup answers <|
    .answered ⟨call.id, orText answer.error (contentOf setup answer.result), answer.error⟩ 0

def codeOutcome (call : ToolCall) (answers : CallAnswers) (ran : RanCode) : CallOutcome :=
  match ran.pending with
  | some set =>
    .staged ⟨call.id, set.codeExecutionId, set.approvalId, ran.forModel⟩ ran.calls
  | none =>
    saved setup answers <|
      .answered ⟨call.id, some (ran.forModel.text setup.numberText), ran.error⟩ ran.calls

def discoveryOutcome (call : ToolCall) (answers : CallAnswers) (found : Answer) : CallOutcome :=
  let content :=
    match orText found.error none with
    | some error => some ("Error: " ++ error)
    | none => found.result.map (Json.text setup.numberText)
  saved setup answers <| .answered ⟨call.id, content, found.error⟩ 0

/-- The characters a tool name keeps; any other becomes one `_` for each of its
code units. -/
def toolNameText (name : String) : String :=
  String.ofList <| name.toList.flatMap fun c =>
    if c.isAlphanum || c = '_' || c = '-' then [c]
    else List.replicate (Js.charUnits c).length '_'

def matchingTool (name : String) : Option ToolRef :=
  setup.tools.find? fun t => toolNameText t.name = name || t.name = name

def notFoundOutcome (call : ToolCall) (answers : CallAnswers) (name : String) : CallOutcome :=
  saved setup answers <|
    .answered ⟨call.id, some s!"Error: Tool '{name}' not found", some s!"Tool '{name}' not found"⟩ 0

def executionError (call : ToolCall) (error : String) : ToolResultMessage :=
  ⟨call.id, some s!"Error executing tool: {error}", some error⟩

def isWaking (result : ToolExecutionResult) : Bool :=
  !result.success && (result.runnerErrorCode = some "workspace_waking"
    || result.runnerErrorCode = some "workspace_busy")

def machineFailureOf (result : ToolExecutionResult) : Option MachineFailure :=
  if result.success || !result.machineFailed then none else some ⟨result.machineError⟩

def executedOutcome (call : ToolCall) (answers : CallAnswers) (tool : ToolRef) (parameters : Json)
    (result : ToolExecutionResult) : CallOutcome :=
  match result.approvalRequired with
  | some rule =>
    match answers.held with
    | .ok approvalId => .held ⟨call.id, tool.id, tool.name, parameters, approvalId, rule⟩
    | .error error => saved setup answers <| .answered (executionError call error) 0
  | none =>
    if isWaking result then
      .waking ⟨call.id, tool.id, tool.name, parameters⟩ result.retryAfterMs
    else
      let content :=
        if result.success then contentOf setup result.data
        else some (setup.formatToolError result.error)
      let message : ToolResultMessage :=
        match setup.conversation, answers.saveError with
        | true, some error => executionError call error
        | _, _ => ⟨call.id, content, if result.success then none else result.error⟩
      match machineFailureOf result with
      | some failure => .machineFailed message failure
      | none => .answered message 0

def regularOutcome (call : ToolCall) (answers : CallAnswers) (name : String) (parameters : Json) :
    CallOutcome :=
  match matchingTool setup name with
  | none => notFoundOutcome setup call answers name
  | some tool =>
    match answers.executed with
    | .ok result => executedOutcome setup call answers tool parameters result
    | .error error => saved setup answers <| .answered (executionError call error) 0

def calledTool (call : ToolCall) : String × Json :=
  let name :=
    match call.parameters.fieldsOrEmpty.lookup "name" with
    | some (.str name) => name
    | _ => ""
  let arguments :=
    match call.parameters.fieldsOrEmpty.lookup "arguments" with
    | some (.obj fields) => .obj fields
    | _ => .obj []
  (name, arguments)

def outcomeOf (call : ToolCall) (answers : CallAnswers) : CallOutcome :=
  match answers.builtIn with
  | .error error => .throws error
  | .ok (some built) => builtInOutcome setup call answers built
  | .ok none =>
    if call.name ∈ setup.teammates then
      match answers.teammate with
      | .ok asked => teammateOutcome setup call answers asked
      | .error error => .throws error
    else if call.name ∈ setup.subAgents then subAgentOutcome setup call answers
    else if setup.mode = .code ∧ call.name = "run_code" then
      match answers.code with
      | .ok ran => codeOutcome setup call answers ran
      | .error error => .throws error
    else if setup.mode ≠ .direct ∧ (call.name = "search_tools" ∨ call.name = "get_tool") then
      match answers.discovery with
      | .ok found => discoveryOutcome setup call answers found
      | .error error => .throws error
    else if setup.mode ≠ .direct ∧ call.name = "call_tool" then
      regularOutcome setup call answers (calledTool call).1 (calledTool call).2
    else regularOutcome setup call answers call.name call.parameters

/-! ## The loop -/

structure ReplyState where
  toolCallCount : Nat
  messages : List ToolResultMessage := []
  gated : List GatedToolCall := []
  changeSets : List PendingChangeSet := []
  waking : List WakingToolCall := []
  wakeRetryMs : Option Nat := none
  machineFailure : Option MachineFailure := none

def ReplyState.save (s : ReplyState) (message : ToolResultMessage) : ReplyState :=
  if setup.conversation then { s with messages := s.messages ++ [message] } else s

def ReplyState.count (s : ReplyState) (calls : Nat) : ReplyState :=
  { s with toolCallCount := s.toolCallCount + calls }

def ReplyState.take (s : ReplyState) : CallOutcome → ReplyState
  | .answered message calls => (s.save setup message).count calls
  | .pauses message _ _ => s.save setup message
  | .held call => { s with gated := s.gated ++ [call] }
  | .waking call ms =>
    { s with
      waking := s.waking ++ [call]
      wakeRetryMs := some (max (s.wakeRetryMs.getD 0) ms) }
  | .staged set calls => { s.count calls with changeSets := s.changeSets ++ [set] }
  | .machineFailed message failure =>
    { s.save setup message with machineFailure := s.machineFailure.or (some failure) }
  | .throws _ => s

/-- How the step ends. -/
inductive ReplyExit
  | limitTrip
  | failed (message : String)
  | machineFailed (failure : MachineFailure)
  | paused (call : ToolCall) (status : BuiltInStatus) (runStatus : AgentRunStatus)
  | waitingApproval
  | sleeping
  | finished

def ReplyState.afterCalls (s : ReplyState) : ReplyExit :=
  match s.machineFailure with
  | some failure => .machineFailed failure
  | none =>
    if s.gated ≠ [] ∨ s.changeSets ≠ [] then .waitingApproval
    else if s.wakeRetryMs ≠ none then .sleeping
    else .finished

def replyLoop : List (ToolCall × CallAnswers) → ReplyState → ReplyState × ReplyExit
  | [], s => (s, s.afterCalls)
  | (call, answers) :: calls, s =>
    if setup.maxToolCalls ≤ s.toolCallCount then (s, .limitTrip)
    else
      match outcomeOf setup call answers with
      | .throws message => (s.count 1, .failed message)
      | .pauses message status runStatus =>
        ((s.count 1).take setup (.pauses message status runStatus), .paused call status runStatus)
      | outcome => replyLoop calls ((s.count 1).take setup outcome)

/-! ## What the step commits -/

structure WorkingMemory where
  gatedToolCalls : List GatedToolCall := []
  wakingToolCalls : List WakingToolCall := []
  pendingChangeSets : List PendingChangeSet := []
  rest : Fields

/-- The columns the commit writes, of those the calls bear on. -/
structure ReplyCommit where
  status : AgentRunStatus
  workingMemory : WorkingMemory

structure ReplyResult where
  messages : List ToolResultMessage
  exit : ReplyExit
  commit : ReplyCommit

def ReplyState.commit (s : ReplyState) (status : AgentRunStatus) (rest : Fields) :
    ReplyExit → ReplyCommit
  | .limitTrip | .failed _ | .machineFailed _ => ⟨.failed, { rest }⟩
  | .paused _ _ runStatus => ⟨runStatus, { rest }⟩
  | .waitingApproval =>
    ⟨.waitingApproval,
      { gatedToolCalls := s.gated, wakingToolCalls := s.waking, pendingChangeSets := s.changeSets,
        rest }⟩
  | .sleeping => ⟨.sleeping, { wakingToolCalls := s.waking, rest }⟩
  | .finished => ⟨status, { rest }⟩

def processReply (status : AgentRunStatus) (toolCallCount : Nat) (rest : Fields)
    (calls : List (ToolCall × CallAnswers)) : ReplyResult :=
  let (s, exit) := replyLoop setup calls { toolCallCount }
  { messages := s.messages, exit, commit := s.commit status rest exit }

end

def ReplyExit.fails : ReplyExit → Bool
  | .limitTrip | .failed _ | .machineFailed _ => true
  | .paused .. | .waitingApproval | .sleeping | .finished => false

/-- The call has its message, or a later step will make it, or the run is paused on
it. -/
def ReplyResult.Records (r : ReplyResult) (call : ToolCall) : Prop :=
  (∃ m ∈ r.messages, m.toolCallId = call.id) ∨
  (∃ g ∈ r.commit.workingMemory.gatedToolCalls, g.toolCallId = call.id) ∨
  (∃ w ∈ r.commit.workingMemory.wakingToolCalls, w.toolCallId = call.id) ∨
  (∃ c ∈ r.commit.workingMemory.pendingChangeSets, c.toolCallId = call.id) ∨
  ∃ status runStatus, r.exit = .paused call status runStatus

/-! ## Every outcome is about its call -/

def CallOutcome.For (id : String) : CallOutcome → Prop
  | .answered message _ | .pauses message _ _ | .machineFailed message _ => message.toolCallId = id
  | .held call => call.toolCallId = id
  | .waking call _ => call.toolCallId = id
  | .staged set _ => set.toolCallId = id
  | .throws _ => True

section

variable {setup : ReplySetup}

theorem saved_for {id : String} {outcome : CallOutcome} (h : outcome.For id)
    (answers : CallAnswers) : (saved setup answers outcome).For id := by
  unfold saved
  split
  · trivial
  · exact h

theorem saved_answered {message : ToolResultMessage} {id : String} (h : message.toolCallId = id)
    (answers : CallAnswers) (calls : Nat) :
    (saved setup answers (.answered message calls)).For id := saved_for (by exact h) answers

theorem builtInOutcome_for (call : ToolCall) (answers : CallAnswers) (built : BuiltInResult) :
    (builtInOutcome setup call answers built).For call.id := by
  refine saved_for ?_ answers
  split <;> rfl

theorem codeOutcome_for (call : ToolCall) (answers : CallAnswers) (ran : RanCode) :
    (codeOutcome setup call answers ran).For call.id := by
  unfold codeOutcome
  split
  · rfl
  · exact saved_answered rfl ..

theorem executedOutcome_for (call : ToolCall) (answers : CallAnswers) (tool : ToolRef)
    (parameters : Json) (result : ToolExecutionResult) :
    (executedOutcome setup call answers tool parameters result).For call.id := by
  unfold executedOutcome
  split
  · split
    · rfl
    · exact saved_answered rfl ..
  · split
    · rfl
    · -- both messages of a call that ran, the answer and the catch's, name it
      have hmessage : ∀ m : ToolResultMessage, m.toolCallId = call.id →
          (match machineFailureOf result with
            | some failure => CallOutcome.machineFailed m failure
            | none => .answered m 0).For call.id := by
        intro m hm
        split <;> exact hm
      apply hmessage
      split <;> rfl

theorem regularOutcome_for (call : ToolCall) (answers : CallAnswers) (name : String)
    (parameters : Json) : (regularOutcome setup call answers name parameters).For call.id := by
  unfold regularOutcome
  split
  · exact saved_answered rfl ..
  · split
    · exact executedOutcome_for ..
    · exact saved_answered rfl ..

theorem outcomeOf_for (call : ToolCall) (answers : CallAnswers) :
    (outcomeOf setup call answers).For call.id := by
  unfold outcomeOf
  split
  · trivial
  · exact builtInOutcome_for ..
  · split
    · split
      · exact saved_answered rfl ..
      · trivial
    · split
      · exact saved_answered rfl ..
      · split
        · split
          · exact codeOutcome_for ..
          · trivial
        · split
          · split
            · exact saved_answered rfl ..
            · trivial
          · split <;> exact regularOutcome_for ..

end

/-! ## The calls of a reply, by what becomes of them -/

inductive CallKind
  | answered | putOff | pauses | throws
  deriving DecidableEq

def CallOutcome.kind : CallOutcome → CallKind
  | .answered .. | .machineFailed .. => .answered
  | .held _ | .waking .. | .staged .. => .putOff
  | .pauses .. => .pauses
  | .throws _ => .throws

def callKind (setup : ReplySetup) (c : ToolCall × CallAnswers) : CallKind :=
  (outcomeOf setup c.1 c.2).kind

def LeavesNothing (setup : ReplySetup) (calls : List (ToolCall × CallAnswers)) : Prop :=
  ∀ pre c post, calls = pre ++ c :: post →
    match callKind setup c with
    | .answered => setup.conversation = true
    | .pauses => post = [] ∧ ∀ d ∈ pre, callKind setup d ≠ .putOff
    | .putOff | .throws => True

section

variable {setup : ReplySetup}

def ReplyState.after (setup : ReplySetup) (s : ReplyState)
    (calls : List (ToolCall × CallAnswers)) : ReplyState :=
  calls.foldl (fun s c => (s.count 1).take setup (outcomeOf setup c.1 c.2)) s

/-- The call neither pauses the run nor throws. -/
def GoesOn (setup : ReplySetup) (c : ToolCall × CallAnswers) : Prop :=
  callKind setup c = .answered ∨ callKind setup c = .putOff

inductive LoopEnds (setup : ReplySetup) (s : ReplyState) (calls : List (ToolCall × CallAnswers)) :
    ReplyState → ReplyExit → Prop
  | through (hall : ∀ c ∈ calls, GoesOn setup c) :
      LoopEnds setup s calls (s.after setup calls) (s.after setup calls).afterCalls
  | paused {pre post : List (ToolCall × CallAnswers)} {c : ToolCall × CallAnswers}
      {message : ToolResultMessage} {status : BuiltInStatus} {runStatus : AgentRunStatus}
      (hcalls : calls = pre ++ c :: post) (hpre : ∀ d ∈ pre, GoesOn setup d)
      (hout : outcomeOf setup c.1 c.2 = .pauses message status runStatus) :
      LoopEnds setup s calls (((s.after setup pre).count 1).save setup message)
        (.paused c.1 status runStatus)

theorem LoopEnds.cons {c : ToolCall × CallAnswers} {calls : List (ToolCall × CallAnswers)}
    {s s' : ReplyState} {exit : ReplyExit} (hc : GoesOn setup c)
    (h : LoopEnds setup ((s.count 1).take setup (outcomeOf setup c.1 c.2)) calls s' exit) :
    LoopEnds setup s (c :: calls) s' exit := by
  cases h with
  | through hall => exact .through (List.forall_mem_cons.mpr ⟨hc, hall⟩)
  | @paused pre post d message status runStatus hcalls hpre hout =>
    exact .paused (by rw [hcalls]; rfl) (List.forall_mem_cons.mpr ⟨hc, hpre⟩) hout

theorem loopEnds_replyLoop {calls : List (ToolCall × CallAnswers)} {s : ReplyState}
    (hexit : (replyLoop setup calls s).2.fails = false) :
    LoopEnds setup s calls (replyLoop setup calls s).1 (replyLoop setup calls s).2 := by
  induction calls generalizing s with
  | nil => exact .through (by simp)
  | cons c calls ih =>
    obtain ⟨call, answers⟩ := c
    rw [replyLoop] at hexit ⊢
    split at hexit
    · cases hexit
    · next hcount =>
      rw [if_neg hcount]
      have hgo : ∀ kind, callKind setup (call, answers) = kind →
          kind = .answered ∨ kind = .putOff → GoesOn setup (call, answers) := by
        rintro kind rfl hkind
        exact hkind
      unfold callKind at hgo
      have hcons := @LoopEnds.cons setup (call, answers) calls s
      cases ho : outcomeOf setup call answers <;> rw [ho] at hexit hgo hcons <;> dsimp only at hexit ⊢
      case throws => cases hexit
      case pauses => exact @LoopEnds.paused setup s _ [] calls (call, answers) _ _ _ rfl (by simp) ho
      all_goals exact hcons (hgo _ rfl (by simp [CallOutcome.kind])) (ih hexit)

/-! ## The ids a step leaves -/

def ReplyState.messageIds (s : ReplyState) : List String := s.messages.map (·.toolCallId)

def ReplyState.putOffIds (s : ReplyState) : List String :=
  s.gated.map (·.toolCallId) ++ (s.waking.map (·.toolCallId) ++ s.changeSets.map (·.toolCallId))

theorem mem_messageIds_save {s : ReplyState} {message : ToolResultMessage} {id : String} :
    id ∈ (s.save setup message).messageIds ↔
      id ∈ s.messageIds ∨ setup.conversation = true ∧ message.toolCallId = id := by
  unfold ReplyState.save ReplyState.messageIds
  split
  next hc =>
    simp only [List.map_append, List.mem_append, List.map_cons, List.map_nil, List.mem_singleton,
      hc, true_and]
    exact or_congr_right eq_comm
  next hc => simp [hc]

theorem mem_messageIds_take {s : ReplyState} {o : CallOutcome} {id₀ id : String}
    (ho : o.For id₀) (hp : o.kind ≠ .pauses) :
    id ∈ (s.take setup o).messageIds ↔
      id ∈ s.messageIds ∨ setup.conversation = true ∧ o.kind = .answered ∧ id₀ = id := by
  cases o with
  | answered message | machineFailed message =>
    refine mem_messageIds_save.trans ?_
    rw [show message.toolCallId = id₀ from ho]
    simp [CallOutcome.kind]
  | pauses message status runStatus => exact absurd rfl hp
  | held | waking => simp [ReplyState.take, ReplyState.messageIds, CallOutcome.kind]
  | staged set calls =>
    simp [ReplyState.take, ReplyState.count, ReplyState.messageIds, CallOutcome.kind]
  | throws message => simp [ReplyState.take, CallOutcome.kind]

theorem putOffIds_save (s : ReplyState) (message : ToolResultMessage) :
    (s.save setup message).putOffIds = s.putOffIds := by
  unfold ReplyState.save
  split <;> rfl

theorem mem_putOffIds_take {s : ReplyState} {o : CallOutcome} {id₀ id : String} (ho : o.For id₀) :
    id ∈ (s.take setup o).putOffIds ↔ id ∈ s.putOffIds ∨ o.kind = .putOff ∧ id₀ = id := by
  cases o with
  | answered message calls =>
    rw [show (s.take setup (.answered message calls)).putOffIds = s.putOffIds from putOffIds_save ..]
    simp [CallOutcome.kind]
  | machineFailed message failure =>
    rw [show (s.take setup (.machineFailed message failure)).putOffIds = s.putOffIds
      from putOffIds_save ..]
    simp [CallOutcome.kind]
  | pauses message status runStatus =>
    rw [show (s.take setup (.pauses message status runStatus)).putOffIds = s.putOffIds
      from putOffIds_save ..]
    simp [CallOutcome.kind]
  | held call | waking call =>
    rw [← show call.toolCallId = id₀ from ho]
    simp only [ReplyState.take, ReplyState.putOffIds, CallOutcome.kind, List.map_append,
      List.mem_append, List.map_cons, List.map_nil, List.mem_singleton, true_and]
    grind
  | staged set calls =>
    rw [← show set.toolCallId = id₀ from ho]
    simp only [ReplyState.take, ReplyState.count, ReplyState.putOffIds, CallOutcome.kind,
      List.map_append, List.mem_append, List.map_cons, List.map_nil, List.mem_singleton, true_and]
    grind
  | throws message => simp [ReplyState.take, CallOutcome.kind]

theorem GoesOn.ne_pauses {c : ToolCall × CallAnswers} (h : GoesOn setup c) :
    callKind setup c ≠ .pauses := by
  rcases h with h | h <;> rw [h] <;> decide

theorem mem_messageIds_after {calls : List (ToolCall × CallAnswers)} {s : ReplyState} {id : String}
    (hall : ∀ c ∈ calls, GoesOn setup c) :
    id ∈ (s.after setup calls).messageIds ↔
      id ∈ s.messageIds ∨
        setup.conversation = true ∧ ∃ c ∈ calls, callKind setup c = .answered ∧ c.1.id = id := by
  induction calls generalizing s with
  | nil => simp [ReplyState.after]
  | cons c calls ih =>
    obtain ⟨hc, hall⟩ := List.forall_mem_cons.mp hall
    refine (ih hall).trans ?_
    rw [mem_messageIds_take (outcomeOf_for c.1 c.2) hc.ne_pauses]
    simp only [List.mem_cons, exists_eq_or_imp, ReplyState.messageIds, ReplyState.count, callKind]
    grind

theorem mem_putOffIds_after {calls : List (ToolCall × CallAnswers)} {s : ReplyState} {id : String} :
    id ∈ (s.after setup calls).putOffIds ↔
      id ∈ s.putOffIds ∨ ∃ c ∈ calls, callKind setup c = .putOff ∧ c.1.id = id := by
  induction calls generalizing s with
  | nil => simp [ReplyState.after]
  | cons c calls ih =>
    refine ih.trans ?_
    rw [mem_putOffIds_take (outcomeOf_for c.1 c.2)]
    simp only [List.mem_cons, exists_eq_or_imp, ReplyState.putOffIds, ReplyState.count, callKind]
    grind

def ReplyState.WakeSet (s : ReplyState) : Prop := s.waking ≠ [] → s.wakeRetryMs ≠ none

theorem wakeSet_save {s : ReplyState} (h : s.WakeSet) (message : ToolResultMessage) :
    (s.save setup message).WakeSet := by
  unfold ReplyState.save
  split <;> exact h

theorem wakeSet_take {s : ReplyState} (h : s.WakeSet) (o : CallOutcome) :
    (s.take setup o).WakeSet := by
  cases o with
  | answered message | machineFailed message | pauses message => exact wakeSet_save h message
  | waking call ms => exact fun _ => Option.some_ne_none _
  | held | staged | throws => exact h

theorem wakeSet_after {calls : List (ToolCall × CallAnswers)} {s : ReplyState} (h : s.WakeSet) :
    (s.after setup calls).WakeSet := by
  induction calls generalizing s with
  | nil => exact h
  | cons c calls ih =>
    have hcount : (s.count 1).WakeSet := h
    exact ih (wakeSet_take hcount (outcomeOf setup c.1 c.2))

end

/-! ## Every call of the reply -/

section

variable {setup : ReplySetup} {status : AgentRunStatus} {rest : Fields}

/-- The ids a later step will go on with. -/
def WorkingMemory.ids (memory : WorkingMemory) : List String :=
  memory.gatedToolCalls.map (·.toolCallId) ++
    (memory.wakingToolCalls.map (·.toolCallId) ++ memory.pendingChangeSets.map (·.toolCallId))

variable {call : ToolCall}

theorem records_iff {s : ReplyState} {exit : ReplyExit} :
    ReplyResult.Records ⟨s.messages, exit, s.commit status rest exit⟩ call ↔
      call.id ∈ s.messageIds ∨ call.id ∈ (s.commit status rest exit).workingMemory.ids ∨
        ∃ st rs, exit = .paused call st rs := by
  simp only [ReplyResult.Records, ReplyState.messageIds, WorkingMemory.ids, List.mem_append,
    List.mem_map, or_assoc]

theorem ids_afterCalls {s : ReplyState} (h : s.afterCalls.fails = false) (hwake : s.WakeSet) :
    (s.commit status rest s.afterCalls).workingMemory.ids = s.putOffIds := by
  unfold ReplyState.afterCalls at h ⊢
  cases hm : s.machineFailure with
  | some failure => rw [hm] at h; cases h
  | none =>
    dsimp only
    split
    · rfl
    · next hnone =>
      obtain ⟨hgated, hsets⟩ : s.gated = [] ∧ s.changeSets = [] := by simpa using hnone
      split
      · simp [ReplyState.commit, WorkingMemory.ids, ReplyState.putOffIds, hgated, hsets]
      · next hms =>
        have hwaking : s.waking = [] :=
          Classical.byContradiction fun hne => hwake hne (by simpa using hms)
        simp [ReplyState.commit, WorkingMemory.ids, ReplyState.putOffIds, hgated, hsets, hwaking]

theorem afterCalls_ne_paused {s : ReplyState} {st : BuiltInStatus} {rs : AgentRunStatus} :
    s.afterCalls ≠ .paused call st rs := by
  unfold ReplyState.afterCalls
  split
  · nofun
  · split
    · nofun
    · split <;> nofun

theorem records_through {calls : List (ToolCall × CallAnswers)} {toolCallCount : Nat}
    (hall : ∀ c ∈ calls, GoesOn setup c)
    (hfails : (ReplyState.after setup { toolCallCount } calls).afterCalls.fails = false) :
    let s := ReplyState.after setup { toolCallCount } calls
    ReplyResult.Records ⟨s.messages, s.afterCalls, s.commit status rest s.afterCalls⟩ call ↔
      ∃ c ∈ calls, c.1.id = call.id ∧
        (callKind setup c = .putOff ∨ callKind setup c = .answered ∧ setup.conversation = true) := by
  intro s
  have hwake : s.WakeSet := wakeSet_after fun h => absurd rfl h
  rw [records_iff, ids_afterCalls hfails hwake, mem_messageIds_after hall, mem_putOffIds_after]
  have hstart : call.id ∉ ReplyState.messageIds { toolCallCount } ∧
      call.id ∉ ReplyState.putOffIds { toolCallCount } := ⟨List.not_mem_nil, List.not_mem_nil⟩
  have hpaused : ¬∃ st rs, s.afterCalls = .paused call st rs := by
    rintro ⟨st, rs, h⟩
    exact afterCalls_ne_paused h
  simp only [hstart.1, hstart.2, hpaused, false_or, or_false]
  constructor
  · rintro (⟨hconv, c, hc, hkind, hid⟩ | ⟨c, hc, hkind, hid⟩)
    · exact ⟨c, hc, hid, Or.inr ⟨hkind, hconv⟩⟩
    · exact ⟨c, hc, hid, Or.inl hkind⟩
  · rintro ⟨c, hc, hid, hkind | ⟨hkind, hconv⟩⟩
    · exact Or.inr ⟨c, hc, hkind, hid⟩
    · exact Or.inl ⟨hconv, c, hc, hkind, hid⟩

theorem records_paused {pre : List (ToolCall × CallAnswers)} {c₀ : ToolCall × CallAnswers}
    {message : ToolResultMessage} {st : BuiltInStatus} {rs : AgentRunStatus} {toolCallCount : Nat}
    (hpre : ∀ c ∈ pre, GoesOn setup c) (hout : outcomeOf setup c₀.1 c₀.2 = .pauses message st rs) :
    let s := ((ReplyState.after setup { toolCallCount } pre).count 1).save setup message
    ReplyResult.Records ⟨s.messages, .paused c₀.1 st rs, s.commit status rest (.paused c₀.1 st rs)⟩
        call ↔
      (∃ c ∈ pre, c.1.id = call.id ∧ callKind setup c = .answered ∧ setup.conversation = true) ∨
        c₀.1.id = call.id ∧ setup.conversation = true ∨ call = c₀.1 := by
  intro s
  have hid : message.toolCallId = c₀.1.id := by
    have hfor := @outcomeOf_for setup c₀.1 c₀.2
    rw [hout] at hfor
    exact hfor
  have hmemory : (s.commit status rest (.paused c₀.1 st rs)).workingMemory.ids = [] := rfl
  have hstart : call.id ∉ ReplyState.messageIds { toolCallCount } := List.not_mem_nil
  rw [records_iff, hmemory, mem_messageIds_save, hid]
  have hafter := @mem_messageIds_after setup pre { toolCallCount } call.id hpre
  rw [show ((ReplyState.after setup { toolCallCount } pre).count 1).messageIds
    = (ReplyState.after setup { toolCallCount } pre).messageIds from rfl, hafter]
  simp only [hstart, false_or, List.not_mem_nil]
  have hpaused : (∃ st' rs', ReplyExit.paused c₀.1 st rs = .paused call st' rs') ↔ call = c₀.1 := by
    constructor
    · rintro ⟨st', rs', h⟩
      injection h with h
      exact h.symm
    · rintro rfl
      exact ⟨st, rs, rfl⟩
  rw [hpaused]
  grind

theorem leavesNothing_through {calls : List (ToolCall × CallAnswers)}
    (hall : ∀ c ∈ calls, GoesOn setup c) :
    LeavesNothing setup calls ↔
      ∀ c ∈ calls, callKind setup c = .answered → setup.conversation = true := by
  constructor
  · intro h c hc hkind
    obtain ⟨pre, post, rfl⟩ := List.append_of_mem hc
    have hcond := h pre c post rfl
    rw [hkind] at hcond
    exact hcond
  · intro h pre c post hcalls
    have hc : c ∈ calls := by simp [hcalls]
    cases hkind : callKind setup c with
    | answered => exact h c hc hkind
    | pauses => exact absurd hkind (hall c hc).ne_pauses
    | putOff | throws => trivial

theorem leavesNothing_paused {pre post : List (ToolCall × CallAnswers)}
    {c₀ : ToolCall × CallAnswers} (hpre : ∀ c ∈ pre, GoesOn setup c)
    (hpauses : callKind setup c₀ = .pauses) :
    LeavesNothing setup (pre ++ c₀ :: post) ↔
      post = [] ∧ ∀ c ∈ pre, callKind setup c = .answered ∧ setup.conversation = true := by
  constructor
  · intro h
    have hlast := h pre c₀ post rfl
    rw [hpauses] at hlast
    refine ⟨hlast.1, fun c hc => ?_⟩
    have hkind : callKind setup c = .answered := (hpre c hc).resolve_right (hlast.2 c hc)
    obtain ⟨pre₁, pre₂, rfl⟩ := List.append_of_mem hc
    have hcond := h pre₁ c (pre₂ ++ c₀ :: post) (by simp)
    rw [hkind] at hcond
    exact ⟨hkind, hcond⟩
  · rintro ⟨rfl, hanswered⟩ pre' c post' hcalls
    rcases List.append_eq_append_iff.mp hcalls with ⟨mid, hpre', hmid⟩ | ⟨mid, hpre', hmid⟩
    · -- the call stands at the pause or behind it, so it is the pause
      obtain ⟨rfl, rfl, rfl⟩ : mid = [] ∧ c = c₀ ∧ post' = [] := by
        cases mid with
        | nil => simpa [eq_comm] using hmid
        | cons x xs => simp at hmid
      rw [hpauses]
      refine ⟨rfl, fun d hd => ?_⟩
      rw [(hanswered d (by simpa [hpre'] using hd)).1]
      decide
    · cases mid with
      | nil =>
        obtain ⟨rfl, rfl⟩ : c = c₀ ∧ post' = [] := by simpa using hmid
        rw [hpauses]
        refine ⟨rfl, fun d hd => ?_⟩
        rw [(hanswered d (by simpa [hpre'] using hd)).1]
        decide
      | cons x xs =>
        obtain ⟨rfl, -⟩ := List.cons.inj hmid
        obtain ⟨hkind, hconv⟩ := hanswered c (by simp [hpre'])
        rw [hkind]
        exact hconv

end

/-- **No tool call of a reply is lost exactly when a pause leaves none behind.** -/
theorem calls_recorded_iff (setup : ReplySetup) (status : AgentRunStatus) (toolCallCount : Nat)
    (rest : Fields) (calls : List (ToolCall × CallAnswers))
    (h : (processReply setup status toolCallCount rest calls).exit.fails = false) :
    (LeavesNothing setup calls →
      ∀ c ∈ calls, (processReply setup status toolCallCount rest calls).Records c.1) ∧
    ((calls.map (·.1.id)).Nodup →
      (∀ c ∈ calls, (processReply setup status toolCallCount rest calls).Records c.1) →
      LeavesNothing setup calls) := by
  have hends := loopEnds_replyLoop h
  have hresult : processReply setup status toolCallCount rest calls =
      ⟨(replyLoop setup calls { toolCallCount }).1.messages,
        (replyLoop setup calls { toolCallCount }).2,
        (replyLoop setup calls { toolCallCount }).1.commit status rest
          (replyLoop setup calls { toolCallCount }).2⟩ := rfl
  rw [hresult]
  have hexit : (replyLoop setup calls { toolCallCount }).2.fails = false := h
  generalize (replyLoop setup calls { toolCallCount }).1 = s at hends ⊢
  generalize (replyLoop setup calls { toolCallCount }).2 = exit at hends hexit ⊢
  cases hends with
  | through hall =>
    rw [leavesNothing_through hall]
    refine ⟨fun hcond c hc => ?_, fun hids hrec c hc hkind => ?_⟩
    · refine (records_through hall hexit).mpr ⟨c, hc, rfl, ?_⟩
      rcases hall c hc with hkind | hkind
      · exact Or.inr ⟨hkind, hcond c hc hkind⟩
      · exact Or.inl hkind
    · obtain ⟨d, hd, hid, hd'⟩ := (records_through hall hexit).mp (hrec c hc)
      obtain rfl := List.inj_on_of_nodup_map hids hd hc hid
      rcases hd' with hput | ⟨-, hconv⟩
      · rw [hkind] at hput
        cases hput
      · exact hconv
  | @paused pre post c₀ message st rs hcalls hpre hout =>
    subst hcalls
    have hpauses : callKind setup c₀ = .pauses := by rw [callKind, hout]; rfl
    rw [leavesNothing_paused hpre hpauses]
    refine ⟨?_, fun hids hrec => ⟨?_, fun c hc => ?_⟩⟩
    · rintro ⟨rfl, hanswered⟩ c hc
      refine (records_paused hpre hout).mpr ?_
      rcases List.mem_append.mp hc with hc | hc
      · exact Or.inl ⟨c, hc, rfl, hanswered c hc⟩
      · obtain rfl := List.mem_singleton.mp hc
        exact Or.inr (Or.inr rfl)
    · -- a call behind the pause would have to share its id with one before it
      cases post with
      | nil => rfl
      | cons d post =>
        have hd : d ∈ pre ++ c₀ :: d :: post := by simp
        have hc₀ : c₀ ∈ pre ++ c₀ :: d :: post := by simp
        have hnodup := List.Nodup.of_map _ hids
        have hne : c₀ ≠ d := by
          rintro rfl
          have htail := (List.nodup_append.mp hnodup).2.1
          exact (List.nodup_cons.mp htail).1 List.mem_cons_self
        rcases (records_paused hpre hout).mp (hrec d hd) with ⟨c, hc, hid, -⟩ | ⟨hid, -⟩ | heq
        · obtain rfl := List.inj_on_of_nodup_map hids (by simp [hc]) hd hid
          rw [List.nodup_append] at hnodup
          exact absurd rfl (hnodup.2.2 c hc c (by simp))
        · exact absurd (List.inj_on_of_nodup_map hids hc₀ hd hid) hne
        · exact absurd (List.inj_on_of_nodup_map hids hc₀ hd (by rw [heq])) hne
    · have hc' : c ∈ pre ++ c₀ :: post := by simp [hc]
      have hc₀ : c₀ ∈ pre ++ c₀ :: post := by simp
      have hne : c₀ ≠ c := by
        rintro rfl
        exact (hpre c₀ hc).ne_pauses hpauses
      rcases (records_paused hpre hout).mp (hrec c hc') with ⟨d, hd, hid, hkind⟩ | ⟨hid, -⟩ | heq
      · obtain rfl := List.inj_on_of_nodup_map hids (by simp [hd]) hc' hid
        exact hkind
      · exact absurd (List.inj_on_of_nodup_map hids hc₀ hc' hid) hne
      · exact absurd (List.inj_on_of_nodup_map hids hc₀ hc' (by rw [heq])) hne

def refundSetup : ReplySetup :=
  { conversation := true, tools := [⟨"t1", "issue_refund"⟩], maxToolCalls := 100 }

def heldRefund : ToolCall × CallAnswers :=
  (⟨"call_1", "issue_refund", .obj [("amount", .num 900)]⟩,
    { executed := .ok { success := false, approvalRequired := some "Ask before a refund over 500" }
      held := .ok "approval-1" })

/-- A question to the person. -/
def askUser : ToolCall × CallAnswers :=
  (⟨"call_2", "ask_user", .obj [("question", .str "Which order?")]⟩,
    { builtIn := .ok (some
        { result := some (.str "Waiting for user input. Question: Which order?")
          status := some .waitingInput
          runStatus := .waitingInput }) })

/-- The held refund alone is kept for its approval. -/
theorem calls_recorded_held :
    (processReply refundSetup .running 0 [] [heldRefund]).exit.fails = false ∧
      (processReply refundSetup .running 0 [] [heldRefund]).Records heldRefund.1 := by
  refine ⟨rfl, (calls_recorded_iff refundSetup .running 0 [] [heldRefund] rfl).1 ?_ heldRefund
    List.mem_cons_self⟩
  exact (leavesNothing_through (by simp [GoesOn]; decide)).mpr (by simp; decide)

/-- The refund is held, then the run asks the person: the step commits with the refund in no list.
-/
theorem call_lost_held_then_ask :
    (processReply refundSetup .running 0 [] [heldRefund, askUser]).exit.fails = false ∧
    ¬∀ c ∈ [heldRefund, askUser],
      (processReply refundSetup .running 0 [] [heldRefund, askUser]).Records c.1 := by
  refine ⟨rfl, fun h => ?_⟩
  rcases h heldRefund List.mem_cons_self with ⟨m, hm, hid⟩ | ⟨g, hg, -⟩ | ⟨w, hw, -⟩ | ⟨c, hc, -⟩ |
    ⟨st, rs, he⟩
  · revert m
    decide
  · cases hg
  · cases hw
  · cases hc
  · injection he with hcall
    exact absurd hcall (by decide)

end Almyty.Runs
