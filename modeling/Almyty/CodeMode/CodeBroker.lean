import Almyty.CodeMode.CodeNames

/-!
# The calls of a script: `code-mode/code-broker.ts`, `code-mode/code-write-policy.ts`

A script's calls come to the broker one after another and wait at the same time: for a search, for
`extract`, for the amount gate, for the tool. What they share is changed between two awaits, so a
step of the system is what one call does from one await to the next. A slot is claimed before
anything else and released after everything else.

`calls_keep_to_policy` is what holds in every state the broker can come to: its budget, the write
policy with its grants, one entry of the trace for each call that comes back, and the numbers of the
change set.

Mirroring notes:
- `discovery`, `extract`, `ruleFor` and `execute` answer what the step says, or reject.
-/

namespace Almyty.CodeMode.CodeBroker

open Almyty.Lib List Option
open Almyty.Common (Text ascii)
open Function (update update_self update_of_ne)

local instance : BEq Text := instBEqOfDecidableEq

/-! ## The write policy -/

inductive WriteAction
  | allow
  | stage
  | deny
  deriving DecidableEq

/-- `ACTIONS.includes(action)`. -/
def actionOf (action : Text) : Option WriteAction :=
  if action = ascii "allow" then some .allow
  else if action = ascii "stage" then some .stage
  else if action = ascii "deny" then some .deny
  else none

structure Writes where
  write : Option Text := none
  destructive : Option Text := none
  tools : List (Text × Text) := []

structure CodeModeConfig where
  writes : Option Writes := none

inductive CallDecision
  | run (viaGrant : Bool)
  | stage
  | deny

def classOf (sideEffect : Option SideEffect) : SideEffect :=
  match sideEffect with
  | some .read => .read
  | some .destructive => .destructive
  | _ => .write

def effectiveAction (sideEffect : Option SideEffect) (toolId : Text)
    (config : Option CodeModeConfig) : WriteAction :=
  let writes := config.bind CodeModeConfig.writes
  let exception := (writes.bind (·.tools.lookup toolId)).bind actionOf
  let byClass := match classOf sideEffect with
    | .destructive => (writes.bind Writes.destructive).getD (ascii "stage")
    | _ => (writes.bind Writes.write).getD (ascii "allow")
  exception.getD ((actionOf byClass).getD .stage)

def decideCall (sideEffect : Option SideEffect) (toolId : Text) (config : Option CodeModeConfig)
    (grantsLeft : Text → Nat) : CallDecision × (Text → Nat) :=
  if classOf sideEffect = .read then (.run false, grantsLeft)
  else
    match effectiveAction sideEffect toolId config with
    | .deny => (.deny, grantsLeft)
    | .allow => (.run false, grantsLeft)
    | .stage =>
      if grantsLeft toolId > 0 then (.run true, update grantsLeft toolId (grantsLeft toolId - 1))
      else (.stage, grantsLeft)

/-! ## Calls -/

structure Given where
  /-- `String(value)` -/
  text : Text
  isString : Bool := true
  isNullish : Bool := false

/-- `String(value ?? '')`. -/
def Given.shown (given : Given) : Text := if given.isNullish then [] else given.text

inductive CodeCall
  | tool (ns fn : Text) (args : Option Json)
  | search (query : Given)
  /-- `described` is what `discovery.describe` gives, if it does not throw. -/
  | get (name : Given) (described : Option Json)
  | call (name : Given) (args : Option Json)
  | extract (value : Json) (schema : Option Json)
  | unknown (name : Given)

inductive Op
  | search | get | extract | tool

inductive CallOutcome
  | ran | failed | staged | refused

structure BrokeredCall where
  op : Op
  target : Text
  toolId : Option Text := none
  outcome : CallOutcome
  error : Option Text := none

inductive Reason
  | policy | amountRule

structure StagedEntry where
  id : Nat
  toolId : Text
  toolName : Text
  codeName : Text
  title : Text
  arguments : Fields
  paramsHash : Text
  sideEffect : SideEffect
  reason : Reason
  rule : Option Text

inductive Failure
  /-- A `CodeCallError`, with the tool it names. -/
  | codeCall (message : Text) (tool : Option Text := none)
  | other

/-- What the script gets. -/
inductive Reply
  | value (value : Json)
  /-- The receipt of a staged call. -/
  | receipt (id : Nat) (tool : Text)

structure ApprovalRequired where
  summary : Text
  paramsHash : Text

structure ToolExecutionResult where
  success : Bool
  data : Option Json := none
  error : Option Text := none
  approvalRequired : Option ApprovalRequired := none

inductive Stage
  | searching (query : Text)
  | extracting
  /-- It waits for the amount gate. -/
  | ruling (tool : NameableTool) (args : Fields)
  | executing (tool : NameableTool) (args : Fields)
  /-- `dispatch` is over; the slot is not released. -/
  | settled (result : Except Failure Reply)
  | done (result : Except Failure Reply)

structure Task where
  call : CodeCall
  /-- The tool it is a call of, once its name is resolved. -/
  tool : Option NameableTool := none
  stage : Stage

structure BrokerDeps where
  scope : List NameableTool
  /-- What the constructor made of the scope. -/
  names : List (Text × CodeName)
  codes : List (Text × NameableTool)
  policy : Option CodeModeConfig
  grantsLeft : Text → Nat
  maxCalls : Nat
  maxInFlight : Nat
  hasExtract : Bool
  hasRuleFor : Bool
  title : NameableTool → Text
  paramsHash : Fields → Text

structure Broker where
  used : Nat := 0
  inFlight : Nat := 0
  grantsLeft : Text → Nat
  grantsUsed : Text → Nat := fun _ => 0
  changeSet : List StagedEntry := []
  calls : List BrokeredCall := []
  /-- The calls that were admitted, and the errors of those that were not. -/
  tasks : List Task := []
  refused : List Failure := []
  /-- The call that made each entry of `calls`. -/
  callers : List Nat := []
  /-- The tools that were executed, and for which call. -/
  executed : List (Nat × NameableTool) := []

/-! ## A call, from one await to the next -/

section

variable (deps : BrokerDeps)

def codeNameOf (tool : NameableTool) : Text := (deps.names.lookup tool.id).elim [] CodeName.text

def setStage (s : Broker) (i : Nat) (stage : Stage) : Broker :=
  { s with tasks := s.tasks.modify i fun t => { t with stage } }

def setTool (s : Broker) (i : Nat) (tool : NameableTool) : Broker :=
  { s with tasks := s.tasks.modify i fun t => { t with tool := some tool } }

def push (s : Broker) (i : Nat) (call : BrokeredCall) : Broker :=
  { s with calls := s.calls ++ [call], callers := s.callers ++ [i] }

def throws (s : Broker) (i : Nat) (message : Text) (tool : Option Text := none) : Broker :=
  setStage s i (.settled (.error (.codeCall message tool)))

def returns (s : Broker) (i : Nat) (reply : Reply) : Broker := setStage s i (.settled (.ok reply))

/-- Put a call in the change set. -/
def stage (s : Broker) (i : Nat) (tool : NameableTool) (args : Fields) (reason : Reason)
    (rule fingerprint : Option Text) : Broker :=
  let codeName := codeNameOf deps tool
  let entry : StagedEntry :=
    { id := s.changeSet.length + 1
      toolId := tool.id
      toolName := tool.name
      codeName
      title := deps.title tool
      arguments := args
      paramsHash := fingerprint.getD (deps.paramsHash args)
      sideEffect := tool.sideEffect.getD .write
      reason
      rule := rule.filter (· ≠ []) }
  let s := { s with changeSet := s.changeSet ++ [entry] }
  let s := push s i { op := .tool, target := codeName, toolId := some tool.id, outcome := .staged }
  returns s i (.receipt entry.id codeName)

def runTool (s : Broker) (i : Nat) (tool : NameableTool) (args : Fields) : Broker :=
  let codeName := codeNameOf deps tool
  let s := setTool s i tool
  let (decision, grantsLeft) := decideCall tool.sideEffect tool.id deps.policy s.grantsLeft
  let s := { s with grantsLeft }
  match decision with
  | .deny =>
    let s := push s i
      { op := .tool, target := codeName, toolId := some tool.id, outcome := .refused }
    let verb := if tool.sideEffect = some .destructive then ascii "deletes" else ascii "changes"
    throws s i (codeName ++ ascii " " ++ verb ++
      ascii " data and is not allowed in scripts here. Ask the person, or do without it.")
      (some codeName)
  | .stage =>
    if deps.hasRuleFor then setStage s i (.ruling tool args)
    else stage deps s i tool args .policy none none
  | .run viaGrant =>
    let s :=
      if viaGrant then
        { s with grantsUsed := update s.grantsUsed tool.id (s.grantsUsed tool.id + 1) }
      else s
    setStage { s with executed := s.executed ++ [(i, tool)] } i (.executing tool args)

def noTool (target : Text) : Text :=
  ascii "No tool named \"" ++ target ++ ascii "\" here. Use tools.search to find one."

/-- The arguments of a call, if they are an object. -/
def argsOf (args : Option Json) : Option Fields :=
  match args with
  | none | some .null => some []
  | some (.obj fields) => some fields
  | some _ => none

def CodeCall.target : CodeCall → Text
  | .tool ns fn _ => ns ++ 46 :: fn
  | .search query => query.shown
  | .extract .. => ascii "extract"
  | .get name _ | .call name _ | .unknown name => name.shown

def callTool (s : Broker) (i : Nat) (target : Text) (tool : Option NameableTool)
    (args : Option Json) : Broker :=
  match tool with
  | none => throws s i (noTool target) (some target)
  | some tool =>
    match argsOf args with
    | none =>
      throws s i (ascii "A tool takes one object of arguments.") (some (codeNameOf deps tool))
    | some args => runTool deps s i tool args

def dispatch (s : Broker) (i : Nat) (call : CodeCall) : Broker :=
  match call with
  | .search query =>
    let query := if query.isString then Common.trim query.text else []
    if query = [] then throws s i (ascii "tools.search needs a query")
    else setStage s i (.searching query)
  | .get name described =>
    match if name.isString then resolve deps.codes deps.scope name.text else none with
    | none => throws s i (noTool name.text) (some name.text)
    | some tool =>
      let s := push s i
        { op := .get, target := codeNameOf deps tool, toolId := some tool.id, outcome := .ran }
      match described with
      | some detail => returns s i (.value detail)
      | none => setStage s i (.settled (.error .other))
  | .extract _ schema =>
    if ¬ deps.hasExtract then
      throws s i (ascii "extract() is not available here.") (some (ascii "extract"))
    else
      match schema with
      | some (.obj _) => setStage s i .extracting
      | _ =>
        throws s i (ascii "extract() needs a JSON Schema object as its second argument.")
          (some (ascii "extract"))
  | .tool ns fn args => callTool deps s i (CodeCall.tool ns fn args).target
      (deps.codes.lookup (ns ++ 46 :: fn)) args
  | .call name args => callTool deps s i name.shown
      (if name.isString then resolve deps.codes deps.scope name.text else none) args
  | .unknown _ => throws s i (ascii "Unknown call")

def refuse (s : Broker) (message target : Text) : Broker :=
  { s with refused := s.refused ++ [.codeCall message (some target)] }

def claim (s : Broker) (call : CodeCall) : Broker :=
  { s with
    used := s.used + 1
    inFlight := s.inFlight + 1
    tasks := s.tasks ++ [{ call, stage := .settled (.error .other) }] }

def handle (s : Broker) (call : CodeCall) : Broker :=
  if s.used ≥ deps.maxCalls then
    refuse s (ascii "This script may make " ++ ascii deps.maxCalls.repr ++ ascii (" calls (what " ++
      "is left of the run's budget included); split the work into another script.")) call.target
  else if s.inFlight ≥ deps.maxInFlight then
    refuse s (ascii "At most " ++ ascii deps.maxInFlight.repr ++
      ascii " calls may run at once; await some before starting more.") call.target
  else dispatch deps (claim s call) s.tasks.length call

/-- What a call waited for. -/
inductive Answer
  | found (results : Json)
  | extracted (value : Json)
  | rule (rule : Option Text)
  | result (result : ToolExecutionResult)
  | rejected (message : Text)

def finish (s : Broker) (i : Nat) (tool : NameableTool) (args : Fields)
    (result : ToolExecutionResult) : Broker :=
  let codeName := codeNameOf deps tool
  match result.approvalRequired with
  | some approval =>
    stage deps s i tool args .amountRule (some approval.summary) (some approval.paramsHash)
  | none =>
    if ¬ result.success then
      let s := push s i
        { op := .tool, target := codeName, toolId := some tool.id, outcome := .failed,
          error := result.error }
      throws s i ((result.error.filter (· ≠ [])).getD (codeName ++ ascii " failed")) (some codeName)
    else
      let s := push s i { op := .tool, target := codeName, toolId := some tool.id, outcome := .ran }
      returns s i (.value (result.data.getD .null))

/-- The call goes on with what it waited for. -/
def answer (s : Broker) (i : Nat) (reply : Answer) : Broker :=
  match s.tasks[i]?.map Task.stage, reply with
  | some (.searching query), .found results =>
    returns (push s i { op := .search, target := query, outcome := .ran }) i (.value results)
  | some (.searching _), .rejected _ => setStage s i (.settled (.error .other))
  | some .extracting, .extracted value =>
    let s := push s i { op := .extract, target := ascii "extract", outcome := .ran }
    returns s i (.value value)
  | some .extracting, .rejected message =>
    let s := push s i
      { op := .extract, target := ascii "extract", outcome := .failed, error := some message }
    throws s i (ascii "extract() failed: " ++ message) (some (ascii "extract"))
  | some (.ruling tool args), .rule rule => stage deps s i tool args .policy rule none
  | some (.ruling tool args), .rejected _ => stage deps s i tool args .policy none none
  | some (.executing tool args), .result result => finish deps s i tool args result
  | some (.executing _ _), .rejected _ => setStage s i (.settled (.error .other))
  | _, _ => s

def release (s : Broker) (i : Nat) : Broker :=
  match s.tasks[i]?.map Task.stage with
  | some (.settled result) => setStage { s with inFlight := s.inFlight - 1 } i (.done result)
  | _ => s

inductive Action
  | handle (call : CodeCall)
  | answer (i : Nat) (reply : Answer)
  | release (i : Nat)

def step (s : Broker) : Action → Broker
  | .handle call => handle deps s call
  | .answer i reply => answer deps s i reply
  | .release i => release s i

def start : Broker := { grantsLeft := deps.grantsLeft }

def run (actions : List Action) : Broker := actions.foldl (step deps) (start deps)

end

/-! ## What holds in every state -/

section Invariant

variable (deps : BrokerDeps)

/-- The policy lets no call of the tool run. -/
def Denied (tool : NameableTool) : Prop :=
  classOf tool.sideEffect ≠ .read ∧ effectiveAction tool.sideEffect tool.id deps.policy = .deny

/-- The policy stages the calls of the tool, but for those a grant lets through. -/
def Held (tool : NameableTool) : Prop :=
  classOf tool.sideEffect ≠ .read ∧ effectiveAction tool.sideEffect tool.id deps.policy = .stage

instance (tool : NameableTool) : Decidable (Held deps tool) := inferInstanceAs (Decidable (_ ∧ _))

def namedTool : CodeCall → Option NameableTool
  | .tool ns fn _ => deps.codes.lookup (ns ++ 46 :: fn)
  | .call name _ => if name.isString then resolve deps.codes deps.scope name.text else none
  | _ => none

def CodeCall.wellFormed : CodeCall → Bool
  | .tool _ _ args | .call _ args => (argsOf args).isSome
  | _ => true

def toolOf (call : CodeCall) : Option NameableTool :=
  if call.wellFormed then namedTool deps call else none

def Stage.inProgress : Stage → Bool
  | .done _ => false
  | _ => true

def Stage.result : Stage → Option (Except Failure Reply)
  | .settled result | .done result => some result
  | _ => none

def inProgress (s : Broker) : Nat := s.tasks.countP (·.stage.inProgress)

def executions (s : Broker) (toolId : Text) : Nat :=
  s.executed.countP fun e => e.2.id = toolId && Held deps e.2

structure Shared (s : Broker) : Prop where
  used : s.used = s.tasks.length
  inFlight : s.inFlight = inProgress s
  maxCalls : s.used ≤ deps.maxCalls
  maxInFlight : s.inFlight ≤ deps.maxInFlight
  traced : s.callers.length = s.calls.length
  known : ∀ i ∈ s.callers, i < s.tasks.length
  numbered : s.changeSet.map StagedEntry.id = List.range' 1 s.changeSet.length
  denied : ∀ e ∈ s.executed, ¬ Denied deps e.2
  granted : ∀ toolId, executions deps s toolId + s.grantsLeft toolId = deps.grantsLeft toolId

/-- The call was staged: its receipt is that of an entry of the change set. -/
def Staged (s : Broker) (tool : NameableTool) (reply : Reply) : Prop :=
  ∃ entry ∈ s.changeSet, reply = .receipt entry.id (codeNameOf deps tool) ∧ entry.toolId = tool.id

def EndOk (s : Broker) (i : Nat) (tool : Option NameableTool) : Except Failure Reply → Prop
  | .ok reply => s.callers.count i = 1 ∧
      ∀ t, tool = some t → Held deps t → (i, t) ∈ s.executed ∨ Staged deps s t reply
  | .error (.codeCall ..) => (tool.isSome → s.callers.count i = 1) ∧
      ∀ t, tool = some t → Held deps t → (i, t) ∈ s.executed
  | .error .other => ∀ t, tool = some t → (i, t) ∈ s.executed

/-- What the stage of a call says of it. -/
def TaskOk (s : Broker) (i : Nat) (task : Task) : Prop :=
  match task.stage with
  | .searching _ | .extracting => task.tool = none ∧ s.callers.count i = 0
  | .ruling tool _ => task.tool = some tool ∧ s.callers.count i = 0
  | .executing tool _ => task.tool = some tool ∧ (i, tool) ∈ s.executed ∧ s.callers.count i = 0
  | .settled result | .done result => EndOk deps s i task.tool result

structure Inv (s : Broker) : Prop extends Shared deps s where
  tasks : ∀ i (task : Task), s.tasks[i]? = some task → TaskOk deps s i task
  tools : ∀ (i : Nat) (task : Task), s.tasks[i]? = some task → task.tool = toolOf deps task.call

structure Busy (s : Broker) (i n : Nat) (call : CodeCall) (tool : Option NameableTool) : Prop
    extends Shared deps s where
  others : ∀ j ≠ i, ∀ task : Task, s.tasks[j]? = some task → TaskOk deps s j task
  tools : ∀ j ≠ i, ∀ task : Task, s.tasks[j]? = some task → task.tool = toolOf deps task.call
  task : ∃ task, s.tasks[i]? = some task ∧ task.call = call ∧ task.tool = tool ∧
    task.stage.inProgress = true
  count : s.callers.count i = n

variable {deps} {s s' : Broker}

/-! ### Frames -/

theorem EndOk.mono {i : Nat} {tool : Option NameableTool} {result : Except Failure Reply}
    (h : EndOk deps s i tool result) (hcount : s'.callers.count i = s.callers.count i)
    (hexecuted : s.executed ⊆ s'.executed) (hset : s.changeSet ⊆ s'.changeSet) :
    EndOk deps s' i tool result := by
  cases result with
  | ok reply =>
    refine ⟨hcount.trans h.1, fun t ht hheld => (h.2 t ht hheld).imp (hexecuted ·) ?_⟩
    rintro ⟨entry, hentry, hreply⟩
    exact ⟨entry, hset hentry, hreply⟩
  | error failure =>
    cases failure with
    | codeCall message named =>
      exact ⟨fun hsome => hcount.trans (h.1 hsome), fun t ht hheld => hexecuted (h.2 t ht hheld)⟩
    | other => exact fun t ht => hexecuted (h t ht)

theorem TaskOk.mono {i : Nat} {task : Task} (h : TaskOk deps s i task)
    (hcount : s'.callers.count i = s.callers.count i) (hexecuted : s.executed ⊆ s'.executed)
    (hset : s.changeSet ⊆ s'.changeSet) : TaskOk deps s' i task := by
  unfold TaskOk at h ⊢
  cases hstage : task.stage with
  | searching | extracting | ruling =>
    rw [hstage] at h
    exact ⟨h.1, hcount.trans h.2⟩
  | executing tool args =>
    rw [hstage] at h
    exact ⟨h.1, hexecuted h.2.1, hcount.trans h.2.2⟩
  | settled | done =>
    rw [hstage] at h
    exact EndOk.mono h hcount hexecuted hset

theorem countP_modify {α : Type} {p : α → Bool} {f : α → α} {l : List α} {i : Nat} {a : α}
    (h : l[i]? = some a) :
    (l.modify i f).countP p + (if p a then 1 else 0) = l.countP p + (if p (f a) then 1 else 0) := by
  induction l generalizing i with
  | nil => cases h
  | cons b l ih =>
    cases i with
    | zero =>
      obtain rfl := some.inj h
      rw [modify_zero_cons, countP_cons, countP_cons]
      omega
    | succ i =>
      have hrest := ih h
      rw [modify_succ_cons, countP_cons, countP_cons]
      omega

/-! ### What a step does -/

section Step

variable {i n : Nat} {call : CodeCall} {tool : Option NameableTool}

theorem Inv.busy (h : Inv deps s) {task : Task} (htask : s.tasks[i]? = some task)
    (hstage : task.stage.inProgress = true) :
    Busy deps s i (s.callers.count i) task.call task.tool :=
  { h.toShared with
    others := fun j _ task hj => h.tasks j task hj
    tools := fun j _ task hj => h.tools j task hj
    task := ⟨task, htask, rfl, rfl, hstage⟩
    count := rfl }

theorem Busy.setStage (h : Busy deps s i n call tool) {stage : Stage}
    (hprogress : stage.inProgress = true) (hof : tool = toolOf deps call)
    (hok : TaskOk deps s i ⟨call, tool, stage⟩) : Inv deps (setStage s i stage) := by
  obtain ⟨task, htask, hcall, htool, hstage⟩ := h.task
  have hcount : inProgress (CodeBroker.setStage s i stage) = inProgress s := by
    have hmodify := countP_modify (p := fun t : Task => t.stage.inProgress)
      (f := fun t => { t with stage }) htask
    simp only [hstage, hprogress, if_true] at hmodify
    exact Nat.add_right_cancel hmodify
  have hlength : (CodeBroker.setStage s i stage).tasks.length = s.tasks.length :=
    length_modify ..
  have hshared : Shared deps (CodeBroker.setStage s i stage) :=
    { h.toShared with
      used := h.used.trans hlength.symm
      inFlight := h.inFlight.trans hcount.symm
      known := fun j hj => hlength.symm ▸ h.known j hj }
  have hboth : ∀ j t, (s.tasks.modify i fun t => { t with stage })[j]? = some t →
      TaskOk deps s j t ∧ t.tool = toolOf deps t.call := by
    intro j t hget
    by_cases hij : i = j
    · subst hij
      rw [List.getElem?_modify_eq, htask] at hget
      obtain rfl := some.inj hget
      rw [← hcall, ← htool] at hok
      exact ⟨hok, by rw [htool, hof, hcall]⟩
    · rw [List.getElem?_modify_ne _ _ hij] at hget
      exact ⟨h.others j (Ne.symm hij) t hget, h.tools j (Ne.symm hij) t hget⟩
  exact ⟨hshared, fun j t hj => TaskOk.mono (hboth j t hj).1 rfl (fun _ h => h) (fun _ h => h),
    fun j t hj => (hboth j t hj).2⟩

theorem Busy.setTool (h : Busy deps s i n call tool) (t : NameableTool) :
    Busy deps (setTool s i t) i n call (some t) := by
  obtain ⟨task, htask, hcall, htool, hstage⟩ := h.task
  have hcount : inProgress (CodeBroker.setTool s i t) = inProgress s := by
    have hmodify := countP_modify (p := fun t : Task => t.stage.inProgress)
      (f := fun task => { task with tool := some t }) htask
    simp only [hstage, if_true] at hmodify
    exact Nat.add_right_cancel hmodify
  have hlength : (CodeBroker.setTool s i t).tasks.length = s.tasks.length := length_modify ..
  have hshared : Shared deps (CodeBroker.setTool s i t) :=
    { h.toShared with
      used := h.used.trans hlength.symm
      inFlight := h.inFlight.trans hcount.symm
      known := fun j hj => hlength.symm ▸ h.known j hj }
  have hget : ∀ j ≠ i, ∀ task', (CodeBroker.setTool s i t).tasks[j]? = some task' →
      s.tasks[j]? = some task' := by
    intro j hij task' hj
    rwa [CodeBroker.setTool, List.getElem?_modify_ne _ _ (Ne.symm hij)] at hj
  refine ⟨hshared, fun j hij task' hj => ?_,
    fun j hij task' hj => h.tools j hij task' (hget j hij task' hj),
    ⟨{ task with tool := some t }, ?_, hcall, rfl, hstage⟩, h.count⟩
  · exact TaskOk.mono (h.others j hij task' (hget j hij task' hj)) rfl (fun _ h => h) (fun _ h => h)
  · show (s.tasks.modify i fun task => { task with tool := some t })[i]? = _
    rw [List.getElem?_modify_eq, htask]
    rfl

theorem Busy.push (h : Busy deps s i n call tool) (made : BrokeredCall) :
    Busy deps (push s i made) i (n + 1) call tool := by
  obtain ⟨task, htask, hcall, htool, hstage⟩ := h.task
  have hlt : i < s.tasks.length := (List.getElem?_eq_some_iff.mp htask).1
  have hshared : Shared deps (CodeBroker.push s i made) :=
    { h.toShared with
      traced := by
        show (s.callers ++ [i]).length = (s.calls ++ [made]).length
        rw [length_append, length_append, h.traced]
        rfl
      known := fun j hj => by
        rcases mem_append.mp hj with hj | hj
        · exact h.known j hj
        · rw [mem_singleton.mp hj]
          exact hlt }
  refine ⟨hshared, fun j hij task' hj => ?_, h.tools, ⟨task, htask, hcall, htool, hstage⟩, ?_⟩
  · refine TaskOk.mono (h.others j hij task' hj) ?_ (fun _ h => h) (fun _ h => h)
    show (s.callers ++ [i]).count j = s.callers.count j
    rw [count_append, count_singleton, beq_false_of_ne (Ne.symm hij)]
    rfl
  · show (s.callers ++ [i]).count i = n + 1
    rw [count_append, count_singleton_self, h.count]

theorem Busy.enter (h : Busy deps s i n call tool) {entry : StagedEntry}
    (hid : entry.id = s.changeSet.length + 1) :
    Busy deps { s with changeSet := s.changeSet ++ [entry] } i n call tool :=
  { h.toShared with
    numbered := by
      show (s.changeSet ++ [entry]).map StagedEntry.id =
        List.range' 1 (s.changeSet ++ [entry]).length
      rw [map_append, h.numbered, length_append, length_singleton,
        List.range'_concat, map_singleton, hid, Nat.one_mul, Nat.add_comm 1]
    others := fun j hij task hj => TaskOk.mono (h.others j hij task hj) rfl (fun _ h => h)
      (subset_append_left _ _)
    tools := h.tools
    task := h.task
    count := h.count }

variable {t : NameableTool}

theorem Busy.execute (h : Busy deps s i n call (some t)) (hdenied : ¬ Denied deps t)
    (grantsLeft grantsUsed : Text → Nat)
    (hgrants : ∀ toolId, (if t.id = toolId && Held deps t then 1 else 0) + grantsLeft toolId =
      s.grantsLeft toolId) :
    Busy deps { s with grantsLeft, grantsUsed, executed := s.executed ++ [(i, t)] } i n
      call (some t) :=
  { h.toShared with
    denied := fun e he => by
      rcases mem_append.mp he with he | he
      · exact h.denied e he
      · rw [mem_singleton.mp he]
        exact hdenied
    granted := fun toolId => by
      have hone := hgrants toolId
      have hsum := h.granted toolId
      unfold executions at hsum
      show (s.executed ++ [(i, t)]).countP _ + grantsLeft toolId = _
      rw [countP_append, countP_singleton]
      dsimp only
      omega
    others := fun j hij task hj => TaskOk.mono (h.others j hij task hj) rfl
      (subset_append_left _ _) (fun _ h => h)
    tools := h.tools
    task := h.task
    count := h.count }

theorem decideCall_cases (deps : BrokerDeps) (t : NameableTool) (grantsLeft : Text → Nat) :
    (decideCall t.sideEffect t.id deps.policy grantsLeft = (.run false, grantsLeft) ∧
      ¬ Denied deps t ∧ ¬ Held deps t) ∨
    (decideCall t.sideEffect t.id deps.policy grantsLeft = (.deny, grantsLeft) ∧ ¬ Held deps t) ∨
    (decideCall t.sideEffect t.id deps.policy grantsLeft = (.stage, grantsLeft)) ∨
    (decideCall t.sideEffect t.id deps.policy grantsLeft =
        (.run true, update grantsLeft t.id (grantsLeft t.id - 1)) ∧
      grantsLeft t.id > 0 ∧ ¬ Denied deps t ∧ Held deps t) := by
  unfold decideCall
  by_cases hread : classOf t.sideEffect = .read
  · rw [if_pos hread]
    exact .inl ⟨rfl, fun h => h.1 hread, fun h => h.1 hread⟩
  · rw [if_neg hread]
    cases haction : effectiveAction t.sideEffect t.id deps.policy with
    | deny =>
      refine .inr (.inl ⟨rfl, fun h => ?_⟩)
      have hstage := h.2
      rw [haction] at hstage
      cases hstage
    | allow =>
      refine .inl ⟨rfl, fun h => ?_, fun h => ?_⟩
      · have hdeny := h.2
        rw [haction] at hdeny
        cases hdeny
      · have hstage := h.2
        rw [haction] at hstage
        cases hstage
    | stage =>
      by_cases hleft : grantsLeft t.id > 0
      · refine .inr (.inr (.inr ⟨if_pos hleft, hleft, fun h => ?_, hread, haction⟩))
        have hdeny := h.2
        rw [haction] at hdeny
        cases hdeny
      · exact .inr (.inr (.inl (if_neg hleft)))

theorem Busy.throws (h : Busy deps s i n call tool) {message : Text} {named : Option Text}
    (hof : tool = toolOf deps call)
    (hcount : tool.isSome → n = 1)
    (hheld : ∀ t, tool = some t → Held deps t → (i, t) ∈ s.executed) :
    Inv deps (throws s i message named) :=
  h.setStage rfl hof ⟨fun hsome => h.count.trans (hcount hsome), hheld⟩

theorem Busy.returns (h : Busy deps s i 1 call tool) {reply : Reply}
    (hof : tool = toolOf deps call)
    (hheld : ∀ t, tool = some t → Held deps t → (i, t) ∈ s.executed ∨ Staged deps s t reply) :
    Inv deps (returns s i reply) :=
  h.setStage rfl hof ⟨h.count, hheld⟩

theorem Busy.stage (h : Busy deps s i 0 call (some t)) (hof : some t = toolOf deps call)
    (args : Fields) (reason : Reason) (rule fingerprint : Option Text) :
    Inv deps (stage deps s i t args reason rule fingerprint) := by
  unfold CodeBroker.stage
  refine Busy.returns ((h.enter rfl).push _) hof ?_
  rintro t' ht' -
  obtain rfl := some.inj ht'
  exact .inr ⟨_, mem_append_right _ (mem_singleton_self _), rfl, rfl⟩

theorem Busy.runTool (h : Busy deps s i 0 call none) (hof : some t = toolOf deps call)
    (args : Fields) : Inv deps (runTool deps s i t args) := by
  have hset := h.setTool t
  unfold CodeBroker.runTool
  have hcases := decideCall_cases deps t (CodeBroker.setTool s i t).grantsLeft
  rcases hcases with ⟨hdecide, hdenied, hheld⟩ | ⟨hdecide, hheld⟩ | hdecide |
    ⟨hdecide, hleft, hdenied, hheld⟩
  · -- the policy lets it run
    simp only [hdecide]
    have hexecute := hset.execute hdenied s.grantsLeft s.grantsUsed fun toolId => by
      rw [decide_eq_false hheld, Bool.and_false, if_neg Bool.false_ne_true, Nat.zero_add]
      rfl
    exact hexecute.setStage rfl hof
      ⟨rfl, mem_append_right _ (mem_singleton_self _), hexecute.count⟩
  · simp only [hdecide]
    refine Busy.throws (hset.push _) hof (fun _ => rfl) fun t' ht' hheld' => ?_
    obtain rfl := some.inj ht'
    exact absurd hheld' hheld
  · simp only [hdecide]
    split
    · exact hset.setStage rfl hof ⟨rfl, hset.count⟩
    · exact hset.stage hof ..
  · -- a grant lets it run
    have hexecute := hset.execute hdenied (update s.grantsLeft t.id (s.grantsLeft t.id - 1))
      (update s.grantsUsed t.id (s.grantsUsed t.id + 1)) fun toolId => by
        show _ = s.grantsLeft toolId
        have hpositive : s.grantsLeft t.id > 0 := hleft
        rw [decide_eq_true hheld, Bool.and_true]
        by_cases hid : t.id = toolId
        · subst hid
          rw [decide_eq_true rfl, if_pos rfl, update_self]
          omega
        · rw [decide_eq_false hid, if_neg Bool.false_ne_true, update_of_ne (Ne.symm hid),
            Nat.zero_add]
    simp only [hdecide]
    exact hexecute.setStage rfl hof
      ⟨rfl, mem_append_right _ (mem_singleton_self _), hexecute.count⟩

theorem Busy.fails (h : Busy deps s i 0 call none) (hof : none = toolOf deps call) (message : Text)
    (named : Option Text) : Inv deps (CodeBroker.throws s i message named) :=
  h.throws hof (fun hsome => by cases hsome) fun _ ht => by cases ht

theorem Busy.callTool (h : Busy deps s i 0 call none) (target : Text) {t : Option NameableTool}
    {args : Option Json} (hof : toolOf deps call = if (argsOf args).isSome then t else none) :
    Inv deps (callTool deps s i target t args) := by
  unfold CodeBroker.callTool
  cases t with
  | none => exact h.fails (by rw [hof, ite_self]) ..
  | some t =>
    cases hargs : argsOf args with
    | none =>
      rw [hargs] at hof
      exact h.fails hof.symm ..
    | some fields =>
      rw [hargs] at hof
      exact h.runTool hof.symm fields

theorem Busy.dispatch (h : Busy deps s i 0 call none) : Inv deps (dispatch deps s i call) := by
  cases call with
  | tool | call => exact h.callTool _ rfl
  | search query =>
    unfold CodeBroker.dispatch
    dsimp only
    generalize (if query.isString then Common.trim query.text else []) = trimmed
    split
    · exact h.fails rfl ..
    · exact h.setStage rfl rfl ⟨rfl, h.count⟩
  | get name described =>
    unfold CodeBroker.dispatch
    dsimp only
    split
    · exact h.fails rfl ..
    · cases described with
      | none => exact (h.push _).setStage rfl rfl fun t ht => by cases ht
      | some detail => exact (h.push _).returns rfl fun t ht => by cases ht
  | extract value schema =>
    unfold CodeBroker.dispatch
    dsimp only
    split
    · exact h.fails rfl ..
    · split
      · exact h.setStage rfl rfl ⟨rfl, h.count⟩
      · exact h.fails rfl ..
  | unknown name => exact h.fails rfl ..

theorem Busy.finish (h : Busy deps s i 0 call (some t)) (hof : some t = toolOf deps call)
    (hexecuted : (i, t) ∈ s.executed) (args : Fields) (result : ToolExecutionResult) :
    Inv deps (finish deps s i t args result) := by
  unfold CodeBroker.finish
  split
  · exact h.stage hof ..
  · dsimp only
    split
    · refine (h.push _).throws hof (fun _ => rfl) fun t' ht' _ => ?_
      obtain rfl := some.inj ht'
      exact hexecuted
    · refine (h.push _).returns hof fun t' ht' _ => .inl ?_
      obtain rfl := some.inj ht'
      exact hexecuted

end Step

/-! ### The steps -/

theorem Inv.claim (h : Inv deps s) (hused : s.used < deps.maxCalls)
    (hinFlight : s.inFlight < deps.maxInFlight) (call : CodeCall) :
    Busy deps (CodeBroker.claim s call) s.tasks.length 0 call none := by
  have hfresh : ∀ j ≠ s.tasks.length, ∀ task, (CodeBroker.claim s call).tasks[j]? = some task →
      s.tasks[j]? = some task := by
    intro j hj task htask
    have hlt := (List.getElem?_eq_some_iff.mp htask).1
    have hlength : (CodeBroker.claim s call).tasks.length = s.tasks.length + 1 :=
      length_append
    rwa [CodeBroker.claim, List.getElem?_append_left (by omega)] at htask
  refine ⟨⟨?_, ?_, hused, hinFlight, h.traced, fun j hj => ?_, h.numbered, h.denied, h.granted⟩,
    fun j hj task htask => ?_, fun j hj task htask => h.tools j task (hfresh j hj task htask),
    ⟨⟨call, none, .settled (.error .other)⟩, ?_, rfl, rfl, rfl⟩, ?_⟩
  · show s.used + 1 = (s.tasks ++ [_]).length
    rw [h.used, length_append, length_singleton]
  · show s.inFlight + 1 = (s.tasks ++ [_]).countP _
    rw [h.inFlight, countP_append, countP_singleton]
    rfl
  · show j < (s.tasks ++ [_]).length
    rw [length_append]
    exact Nat.lt_add_right _ (h.known j hj)
  · exact TaskOk.mono (h.tasks j task (hfresh j hj task htask)) rfl (fun _ h => h) (fun _ h => h)
  · exact List.getElem?_concat_length
  · exact count_eq_zero.mpr fun hmem => Nat.lt_irrefl _ (h.known _ hmem)

theorem Inv.refuse (h : Inv deps s) (message target : Text) : Inv deps (refuse s message target) :=
  { h.toShared with
    tasks := fun i task hi => TaskOk.mono (h.tasks i task hi) rfl (fun _ h => h) (fun _ h => h)
    tools := h.tools }

theorem Inv.handle (h : Inv deps s) (call : CodeCall) : Inv deps (handle deps s call) := by
  unfold CodeBroker.handle
  split
  · exact h.refuse ..
  · next hused =>
    split
    · exact h.refuse ..
    · next hinFlight =>
      exact (h.claim (Nat.lt_of_not_le hused) (Nat.lt_of_not_le hinFlight) call).dispatch

theorem Inv.answer (h : Inv deps s) (i : Nat) (reply : Answer) :
    Inv deps (answer deps s i reply) := by
  unfold CodeBroker.answer
  cases htask : s.tasks[i]? with
  | none => exact h
  | some task =>
    have hok := h.tasks i task htask
    have hof := h.tools i task htask
    unfold TaskOk at hok
    have hbusy (hstage : task.stage.inProgress = true) := h.busy htask hstage
    cases hstage : task.stage with
    | searching query =>
      rw [hstage] at hok
      have hmine := hbusy (by rw [hstage]; rfl)
      rw [hok.1, hok.2] at hmine
      rw [hok.1] at hof
      simp only [map_some, hstage]
      cases reply with
      | found results => exact (hmine.push _).returns hof fun t ht => by cases ht
      | rejected message => exact hmine.setStage rfl hof fun t ht => by cases ht
      | _ => exact h
    | extracting =>
      rw [hstage] at hok
      have hmine := hbusy (by rw [hstage]; rfl)
      rw [hok.1, hok.2] at hmine
      rw [hok.1] at hof
      simp only [map_some, hstage]
      cases reply with
      | extracted value => exact (hmine.push _).returns hof fun t ht => by cases ht
      | rejected message =>
        exact (hmine.push _).throws hof (fun hsome => by cases hsome) fun t ht => by cases ht
      | _ => exact h
    | ruling tool args =>
      rw [hstage] at hok
      have hmine := hbusy (by rw [hstage]; rfl)
      rw [hok.1, hok.2] at hmine
      rw [hok.1] at hof
      simp only [map_some, hstage]
      cases reply with
      | rule | rejected => exact hmine.stage hof ..
      | _ => exact h
    | executing tool args =>
      rw [hstage] at hok
      have hmine := hbusy (by rw [hstage]; rfl)
      rw [hok.1, hok.2.2] at hmine
      rw [hok.1] at hof
      simp only [map_some, hstage]
      cases reply with
      | result result => exact hmine.finish hof hok.2.1 ..
      | rejected message =>
        refine hmine.setStage rfl hof fun t ht => ?_
        obtain rfl := some.inj ht
        exact hok.2.1
      | _ => exact h
    | settled | done => simpa only [map_some, hstage] using h

theorem Inv.release (h : Inv deps s) (i : Nat) : Inv deps (release s i) := by
  unfold CodeBroker.release
  cases htask : s.tasks[i]? with
  | none => exact h
  | some task =>
    cases hstage : task.stage with
    | settled result =>
      simp only [map_some, hstage]
      have hok := h.tasks i task htask
      unfold TaskOk at hok
      rw [hstage] at hok
      have hcount : inProgress (setStage s i (.done result)) + 1 = inProgress s := by
        have hmodify := countP_modify (p := fun t : Task => t.stage.inProgress)
          (f := fun t => { t with stage := .done result }) htask
        rw [hstage] at hmodify
        exact hmodify
      have hlength : (setStage s i (.done result)).tasks.length = s.tasks.length :=
        length_modify ..
      have hboth : ∀ j t,
          (s.tasks.modify i fun t => { t with stage := .done result })[j]? = some t →
          TaskOk deps s j t ∧ t.tool = toolOf deps t.call := by
        intro j t hget
        by_cases hij : i = j
        · subst hij
          rw [List.getElem?_modify_eq, htask] at hget
          obtain rfl := some.inj hget
          exact ⟨hok, h.tools i task htask⟩
        · rw [List.getElem?_modify_ne _ _ hij] at hget
          exact ⟨h.tasks j t hget, h.tools j t hget⟩
      refine ⟨⟨h.used.trans hlength.symm, ?_, h.maxCalls, ?_, h.traced,
        fun j hj => hlength.symm ▸ h.known j hj, h.numbered, h.denied, h.granted⟩,
        fun j t hj => ?_, fun j t hj => (hboth j t hj).2⟩
      · show s.inFlight - 1 = inProgress (setStage s i (.done result))
        rw [h.inFlight, ← hcount, Nat.add_sub_cancel]
      · exact Nat.le_trans (Nat.sub_le _ _) h.maxInFlight
      · exact TaskOk.mono (hboth j t hj).1 rfl (fun _ h => h) (fun _ h => h)
    | _ => simpa only [map_some, hstage] using h

theorem Inv.step (h : Inv deps s) (action : Action) : Inv deps (step deps s action) :=
  match action with
  | .handle call => h.handle call
  | .answer i reply => h.answer i reply
  | .release i => h.release i

theorem Inv.start : Inv deps (start deps) where
  used := rfl
  inFlight := rfl
  maxCalls := Nat.zero_le _
  maxInFlight := Nat.zero_le _
  traced := rfl
  known := fun _ h => by cases h
  numbered := rfl
  denied := fun _ h => by cases h
  granted := fun _ => Nat.zero_add _
  tasks := fun _ _ h => by cases h
  tools := fun _ _ h => by cases h

variable (deps)

theorem inv_run (actions : List Action) : Inv deps (run deps actions) := by
  unfold run
  generalize hs : CodeBroker.start deps = s
  have hinv : Inv deps s := hs ▸ Inv.start
  clear hs
  induction actions generalizing s with
  | nil => exact hinv
  | cons action actions ih => exact ih _ (hinv.step action)

structure KeepsToPolicy (s : Broker) : Prop where
  admitted : s.tasks.length ≤ deps.maxCalls
  inProgress : inProgress s ≤ deps.maxInFlight
  denied : ∀ e ∈ s.executed, ¬ Denied deps e.2
  granted : ∀ toolId, executions deps s toolId ≤ deps.grantsLeft toolId
  /-- A call of a held tool was executed by a grant, or waits for the amount gate, or is staged. -/
  held : ∀ (i : Nat) (task : Task) (tool : NameableTool), s.tasks[i]? = some task →
    toolOf deps task.call = some tool → Held deps tool →
    (i, tool) ∈ s.executed ∨ (∃ args, task.stage = .ruling tool args) ∨
      ∃ reply, task.stage.result = some (.ok reply) ∧ Staged deps s tool reply
  /-- An entry of the trace has one call, and a call that gives a value has one entry. -/
  traced : s.callers.length = s.calls.length ∧
    ∀ (i : Nat) (task : Task) (reply : Reply), s.tasks[i]? = some task →
      task.stage.result = some (.ok reply) → s.callers.count i = 1
  numbered : s.changeSet.map StagedEntry.id = List.range' 1 s.changeSet.length

theorem calls_keep_to_policy (actions : List Action) : KeepsToPolicy deps (run deps actions) := by
  have h := inv_run deps actions
  refine ⟨h.used ▸ h.maxCalls, h.inFlight ▸ h.maxInFlight, h.denied, fun toolId => ?_,
    fun i task tool hi htool hheld => ?_, ⟨h.traced, fun i task reply hi hreply => ?_⟩, h.numbered⟩
  · exact (h.granted toolId).le.trans' (Nat.le_add_right _ _)
  · have htask := h.tasks i task hi
    have hmine : task.tool = some tool := (h.tools i task hi).trans htool
    have hend {result : Except Failure Reply}
        (hok : EndOk deps (run deps actions) i task.tool result) :
        (i, tool) ∈ (run deps actions).executed ∨
          ∃ reply, result = .ok reply ∧ Staged deps (run deps actions) tool reply := by
      cases result with
      | ok reply => exact (hok.2 tool hmine hheld).imp_right fun hstaged => ⟨reply, rfl, hstaged⟩
      | error failure =>
        cases failure with
        | codeCall message named => exact .inl (hok.2 tool hmine hheld)
        | other => exact .inl (hok tool hmine)
    unfold TaskOk at htask
    cases hstage : task.stage with
    | searching | extracting =>
      rw [hstage, hmine] at htask
      cases htask.1
    | ruling t args =>
      rw [hstage, hmine] at htask
      obtain rfl := some.inj htask.1
      exact .inr (.inl ⟨args, rfl⟩)
    | executing t args =>
      rw [hstage, hmine] at htask
      obtain rfl := some.inj htask.1
      exact .inl htask.2.1
    | settled | done =>
      rw [hstage] at htask
      exact (hend htask).imp_right fun ⟨reply, hreply, hstaged⟩ =>
        .inr ⟨reply, congrArg some hreply, hstaged⟩
  · have htask := h.tasks i task hi
    unfold TaskOk at htask
    cases hstage : task.stage with
    | settled | done =>
      rw [hstage] at htask hreply
      obtain rfl := some.inj hreply
      exact htask.1
    | _ =>
      rw [hstage] at hreply
      cases hreply

def refund : NameableTool :=
  { id := ascii "1", name := ascii "refund", apiName := some (ascii "Shop"),
    sideEffect := some .destructive }

def shop : BrokerDeps where
  scope := [refund]
  names := [(ascii "1", ⟨ascii "shop", ascii "refund"⟩)]
  codes := [(ascii "shop.refund", refund)]
  policy := none
  grantsLeft := fun _ => 0
  maxCalls := 50
  maxInFlight := 8
  hasExtract := false
  hasRuleFor := false
  title := NameableTool.name
  paramsHash := fun _ => []

/-- `shop.refund([])` is a call of a held tool that is neither executed nor staged. -/
theorem list_of_arguments_is_not_staged :
    codeNames shop.scope = some shop.names ∧ byCodeName shop.names shop.scope = shop.codes ∧
      Held shop refund ∧
      (run shop [.handle (.tool (ascii "shop") (ascii "refund") (some (.arr []))),
        .release 0]).tasks.map (fun task => (namedTool shop task.call, task.stage.inProgress)) =
        [(some refund, false)] ∧
      (run shop [.handle (.tool (ascii "shop") (ascii "refund") (some (.arr []))),
        .release 0]).executed = [] ∧
      ((run shop [.handle (.tool (ascii "shop") (ascii "refund") (some (.arr []))),
        .release 0]).changeSet.map StagedEntry.id) = [] := by
  decide +kernel

end Invariant

end Almyty.CodeMode.CodeBroker
