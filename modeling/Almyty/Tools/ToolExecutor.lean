import Almyty.Approvals.RunStatus
import Almyty.Tools.ApprovalGate

/-!
# A tool call up to its dispatch: `tool-executor.service.ts`

`executeTool` takes a call's parameters through the gateway tool's mapping, the schema check, the
sanitizer and the plugins, and then asks the gate. A call the gate holds runs when an approval
covers it, the same tool and the same fingerprint; otherwise the caller is told to ask, is told how
its request stands, or the call is held: `hold` stores the parameters as they are by then, mapped
and filtered.

`executeTool_dispatched_iff` says which calls reach the dispatch, and `executeTool_requests` what a
call does to the requests: nothing, or one new one.

Mirroring notes:
- `World` is what a call meets besides its own arguments: the gate's rows, the gateway's mappings,
  and as parameters the access checks before the mapping, the sanitizer's verdict, the plugins, and
  the integrity check, rate limit and cache after the gate.
-/

namespace Almyty.Tools

open Almyty.Lib Option
open Almyty.Approvals

/-! ## The gateway tool's mapping -/

def renameKey (transformed : Params) (entry : String × String) : Params :=
  if transformed.has entry.1 then
    let assigned := Js.assign transformed entry.2 (transformed.get entry.1)
    if entry.1 ≠ entry.2 then Assoc.erase assigned entry.1 else assigned
  else transformed

def transformInput (inputMapping : List (String × String)) (input : Params) : Params :=
  inputMapping.foldl renameKey input

theorem transformInput_of_absent {inputMapping : List (String × String)} {input : Params}
    (h : ∀ entry ∈ inputMapping, input.has entry.1 = false) :
    transformInput inputMapping input = input := by
  unfold transformInput
  induction inputMapping with
  | nil => rfl
  | cons entry rest ih =>
    have hfirst : renameKey input entry = input := by
      simp [renameKey, h entry List.mem_cons_self]
    rw [List.foldl_cons, hfirst]
    exact ih fun e he => h e (List.mem_cons_of_mem _ he)

/-! ## A call and its requests -/

/-- Who calls, as far as a held call keeps it. -/
structure Caller where
  userId : Option String := none
  principal : Option Json := none
  scopes : Option (List String) := none
  runnerLabels : Option Json := none
  pinnedRunnerId : Option String := none
  environmentId : Option String := none

structure HeldCallContext where
  caller : Caller
  gatewayId : Option String
  agentTeamId : Option String

structure CallOptions where
  caller : Caller := {}
  gatewayId : Option String := none
  agentId : Option String := none
  runId : Option String := none
  /-- `none` is `undefined`. -/
  agentTeamId : Option (Option String) := none
  /-- A call made inside another tool. -/
  invocation : Bool := false
  /-- The caller asks for approval itself. -/
  holdForApproval : Bool := false
  approvedGate : Option String := none

structure HeldRequest where
  id : String
  hit : ApprovalGateHit
  parameters : Fields
  call : HeldCallContext
  agentId : Option String
  status : ApprovalStatus := .pending
  decisionReason : Option String := none
  /-- Whether `resultAt` is set. -/
  resultAt : Bool := false
  result : Option Json := none

/-- What a call meets besides its own arguments. -/
structure World where
  rows : GateRows := {}
  /-- The mapping of the tool on a gateway. -/
  inputMapping : String → Option (List (String × String)) := fun _ => none
  /-- Tool, access, gateway and permissions: why the call is refused. -/
  refuses : CallOptions → Option String := fun _ => none
  /-- What the sanitizer blocks the parameters for. -/
  sanitize : Params → Option String := fun _ => none
  /-- The plugins' rewrite, or why one stopped the call. -/
  plugins : Params → Except String Params := .ok
  /-- Nothing after the gate answers in place of the tool: its definition is intact, no
  rate limit is hit, no answer is cached. -/
  proceeds : CallOptions → Params → Bool := fun _ _ => true
  /-- The agent and the run of the request's scope. -/
  scopeAgentId : Option String := none
  scopeRunId : Option String := none
  newId : String

inductive HeldCallState
  | waiting
  | refused (reason : String)
  | done (result : Json)

inductive Outcome
  | refused (error : String)
  | needsApproval (hit : ApprovalGateHit)
  | stands (id : String) (state : HeldCallState)
  | held (hit : ApprovalGateHit) (id : Option String)
  | stopped
  | dispatched (params : Params)

def takeApprovalId (params : Params) : Option String × Params :=
  match params.lookup "_approvalId" with
  | some (.json (.str id)) => (some id, Assoc.erase params "_approvalId")
  | _ => (none, params)

/-- A call through a gateway is mapped by the gateway tool's mapping, if it has one. -/
def mapInput (world : World) (options : CallOptions) (params : Params) : Params :=
  match options.gatewayId.bind world.inputMapping with
  | some inputMapping => transformInput inputMapping params
  | none => params

/-- The mapping, the schema check, the sanitizer and the plugins. -/
def prepare (tool : Tool) (world : World) (options : CallOptions) (params : Params) :
    Except String Params :=
  let mapped := mapInput world options params
  let errors := validateParameters tool mapped
  if errors ≠ [] then .error ("Invalid parameters: " ++ ", ".intercalate errors)
  else
    match world.sanitize mapped with
    | some warnings => .error ("Parameter security violation: " ++ warnings)
    | none => world.plugins mapped

def gateContext (world : World) (options : CallOptions) : GateContext where
  agentId := options.agentId.or world.scopeAgentId
  runId := options.runId.or world.scopeRunId
  teamId := options.agentTeamId

/-- An approval that really covers a call: the same tool, the same parameters, decided
"approved". -/
def approved (requests : List HeldRequest) (approvalId : String) (hit : ApprovalGateHit) : Bool :=
  match requests.find? (·.id = approvalId) with
  | some row =>
    row.status = .approved && row.hit.toolId = hit.toolId && row.hit.paramsHash = hit.paramsHash
  | none => false

def stateOf (requests : List HeldRequest) (approvalId : String) (hit : ApprovalGateHit) :
    Option HeldCallState := do
  let row ← requests.find? (·.id = approvalId)
  guard (row.hit.toolId = hit.toolId ∧ row.hit.paramsHash = hit.paramsHash)
  match row.status with
  | .pending => return .waiting
  | .rejected =>
    return .refused ((row.decisionReason.filter (· ≠ "")).getD "a person rejected it")
  | .expired => return .refused "nobody decided in time"
  | .approved =>
    match row.resultAt, row.result with
    | true, some result => return .done result
    | _, _ => return .waiting

def hold (requests : List HeldRequest) (newId : String) (params : Params)
    (hit : ApprovalGateHit) (context : GateContext) (call : HeldCallContext) :
    Option String × List HeldRequest :=
  match requests.find? fun row => row.hit.toolId = hit.toolId &&
      row.hit.paramsHash = hit.paramsHash && row.status = .pending with
  | some pending => (some pending.id, requests)
  | none =>
    if requests.any (·.id = newId) then (none, requests)
    else
      (some newId, requests ++
        [{ id := newId, hit, parameters := params.toFields, call, agentId := context.agentId }])

def answerHeld (world : World) (requests : List HeldRequest) (params : Params)
    (options : CallOptions) (retryApprovalId : Option String) (hit : ApprovalGateHit) :
    Outcome × List HeldRequest :=
  if options.holdForApproval then (.needsApproval hit, requests)
  else
    match retryApprovalId.bind fun id => (stateOf requests id hit).map (id, ·) with
    | some (id, state) => (.stands id state, requests)
    | none =>
      let (id, requests) := hold requests world.newId params hit (gateContext world options)
        { caller := options.caller, gatewayId := options.gatewayId
          agentTeamId := options.agentTeamId.join }
      (.held hit id, requests)

/-- The steps after the gate. -/
def dispatch (world : World) (options : CallOptions) (params : Params) : Outcome :=
  if world.proceeds options params then .dispatched params else .stopped

def executeTool (engine : Engine) (tool : Tool) (world : World) (requests : List HeldRequest)
    (parameters : Params) (options : CallOptions) : Outcome × List HeldRequest :=
  let (retryApprovalId, parameters) := takeApprovalId parameters
  match world.refuses options with
  | some error => (.refused error, requests)
  | none =>
    match prepare tool world options parameters with
    | .error error => (.refused error, requests)
    | .ok parameters =>
      -- asked on what the tool would receive, and before the cache
      match check engine world.rows tool parameters (gateContext world options) with
      | none => (dispatch world options parameters, requests)
      | some hit =>
        if options.approvedGate.any (approved requests · hit) then
          (dispatch world options parameters, requests)
        else answerHeld world requests parameters options retryApprovalId hit

/-! ## What a call does -/

section

variable {engine : Engine} {tool : Tool} {world : World} {requests : List HeldRequest}
  {params : Params} {options : CallOptions}

variable {hit : ApprovalGateHit}

theorem check_hit {rows : GateRows} {context : GateContext}
    (h : check engine rows tool params context = some hit) :
    hit.toolId = tool.id ∧ hit.paramsHash = paramsHash engine params := by
  rcases or_eq_some_iff.mp h with h | ⟨-, h⟩
  · obtain ⟨policy, -, hrule⟩ := List.exists_of_findSome?_eq_some h
    simp only [ruleHit, bind_eq_bind, bind_eq_some_iff] at hrule
    obtain ⟨_, _, _, _, _, _, _, _, hhit⟩ := hrule
    cases hhit
    exact ⟨rfl, rfl⟩
  · simp only [askFirstHit, bind_eq_bind, bind_eq_some_iff] at h
    obtain ⟨_, _, _, _, _, _, h⟩ := h
    split at h
    · simp only [bind_eq_some_iff] at h
      obtain ⟨_, _, _, _, _, _, _, _, _, _, hhit⟩ := h
      cases hhit
      exact ⟨rfl, rfl⟩
    · cases h
      exact ⟨rfl, rfl⟩

theorem answerHeld_ne_dispatched {retry : Option String} {q : Params} :
    (answerHeld world requests params options retry hit).1 ≠ .dispatched q := by
  unfold answerHeld
  split
  · nofun
  split <;> nofun

theorem dispatch_eq_dispatched {q : Params} :
    dispatch world options params = .dispatched q ↔
      world.proceeds options params = true ∧ params = q := by
  unfold dispatch
  split <;> simp_all

theorem executeTool_dispatched_iff {q : Params} :
    (executeTool engine tool world requests params options).1 = .dispatched q ↔
      world.refuses options = none ∧
      prepare tool world options (takeApprovalId params).2 = .ok q ∧
      (∀ hit, check engine world.rows tool q (gateContext world options) = some hit →
        options.approvedGate.any (approved requests · hit) = true) ∧
      world.proceeds options q = true := by
  unfold executeTool
  cases hrefuses : world.refuses options with
  | some error => simp
  | none =>
    cases hprepare : prepare tool world options (takeApprovalId params).2 with
    | error error => simp [hprepare]
    | ok p =>
      simp only [hprepare, Except.ok.injEq, true_and]
      cases hcheck : check engine world.rows tool p (gateContext world options) with
      | none =>
        rw [dispatch_eq_dispatched]
        constructor
        · rintro ⟨hproceeds, rfl⟩
          exact ⟨rfl, fun hit hhit => (by simp [hcheck] at hhit), hproceeds⟩
        · rintro ⟨rfl, -, hproceeds⟩
          exact ⟨hproceeds, rfl⟩
      | some hit =>
        dsimp only
        split
        · next happroved =>
          rw [dispatch_eq_dispatched]
          constructor
          · rintro ⟨hproceeds, rfl⟩
            refine ⟨rfl, fun hit' hhit => ?_, hproceeds⟩
            rw [hcheck] at hhit
            exact some.inj hhit ▸ happroved
          · rintro ⟨rfl, -, hproceeds⟩
            exact ⟨hproceeds, rfl⟩
        · next happroved =>
          refine iff_of_false answerHeld_ne_dispatched ?_
          rintro ⟨rfl, hcovered, -⟩
          exact happroved (hcovered hit hcheck)

structure Raised (engine : Engine) (tool : Tool) (requests : List HeldRequest)
    (row : HeldRequest) : Prop where
  fresh : ∀ r ∈ requests, r.id ≠ row.id
  tool : row.hit.toolId = tool.id
  fingerprint : row.hit.paramsHash = paramsHash engine (.ofFields row.parameters)
  pending : row.status = .pending
  unclaimed : row.resultAt = false

theorem hold_requests {newId : String} {context : GateContext} {call : HeldCallContext}
    (htool : hit.toolId = tool.id) (hhash : hit.paramsHash = paramsHash engine params) :
    (hold requests newId params hit context call).2 = requests ∨
      ∃ row, Raised engine tool requests row ∧
        (hold requests newId params hit context call).2 = requests ++ [row] := by
  unfold hold
  split
  · exact .inl rfl
  split
  · exact .inl rfl
  · next hnew =>
    refine .inr ⟨_, ⟨?_, htool, ?_, rfl, rfl⟩, rfl⟩
    · intro r hr hid
      exact hnew (List.any_eq_true.mpr ⟨r, hr, by simpa using hid⟩)
    · rw [paramsHash, Params.toFields_ofFields]
      exact hhash

theorem executeTool_requests (engine : Engine) (tool : Tool) (world : World)
    (requests : List HeldRequest) (params : Params) (options : CallOptions) :
    (executeTool engine tool world requests params options).2 = requests ∨
      ∃ row, Raised engine tool requests row ∧
        (executeTool engine tool world requests params options).2 = requests ++ [row] := by
  unfold executeTool
  split
  next retry p htake =>
  split
  · exact .inl rfl
  split
  · exact .inl rfl
  next q hprepare =>
  split
  · exact .inl rfl
  next hit hcheck =>
  split
  · exact .inl rfl
  unfold answerHeld
  split
  · exact .inl rfl
  split
  · exact .inl rfl
  · obtain ⟨htool, hhash⟩ := check_hit hcheck
    exact hold_requests htool hhash

end

end Almyty.Tools
