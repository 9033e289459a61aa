import Almyty.Lib.Json
import Almyty.Lib.Steps

/-!
# The row of a workflow execution and who writes its status

One `agent_executions` row has four writers, on any number of replicas:

- `AgentExecutionEngine.commitTerminal`, an `UPDATE` guarded on the status the row still has (and
  the engine's `UPDATE` of `metadata`, guarded on the row not being terminal);
- `AgentExecutionReaperService.reapStuckExecutions`, a `find` and a guarded `UPDATE`;
- `WorkflowApprovalResumeService.resumeIfDecided`, a read, a guarded claim and, when the engine
  refuses to carry on, a guarded `UPDATE` to `failed`;
- `AgentExecutionCancellationService.cancel`, a read, a check and a `save` of the entity it read.

An action is one statement of one of them against the database, so a list of actions is an
interleaving. The last section says exactly which interleavings keep a terminal status: those in
which no cancel reaches the `UPDATE` of its `save` after another writer ended the run.

Mirroring notes:
- `save` is TypeORM's: it loads the row by id, compares it column by column with the entity and
  makes an `UPDATE`, guarded on the id alone, that sets the columns that differ.
- What the engine holds in memory when it commits is arbitrary here, its status included.
-/

namespace Almyty.Workflow

open Almyty.Lib

/-! ## The row -/

inductive AgentExecutionStatus
  | pending | running | completed | failed | cancelled | timeout | waitingApproval
  deriving DecidableEq

namespace AgentExecutionStatus

/-- The value the column holds. -/
def text : AgentExecutionStatus → String
  | pending => "pending"
  | running => "running"
  | completed => "completed"
  | failed => "failed"
  | cancelled => "cancelled"
  | timeout => "timeout"
  | waitingApproval => "waiting_approval"

/-- `TERMINAL_EXECUTION_STATUSES`: statuses an execution never leaves. -/
def isTerminal : AgentExecutionStatus → Bool
  | completed | failed | cancelled | timeout => true
  | pending | running | waitingApproval => false

/-- What the reaper sweeps. -/
def sweepable : AgentExecutionStatus → Bool
  | running | pending => true
  | _ => false

end AgentExecutionStatus

structure AgentExecution where
  id : String
  agentId : String
  organizationId : String
  status : AgentExecutionStatus
  output : Json
  nodeResults : Json
  executionTime : Nat
  totalCost : Rat
  totalTokens : Nat
  inputTokens : Nat
  outputTokens : Nat
  error : Option String
  metadata : Json
  createdAt : Int

/-! ## The guarded writes -/

/-- The statuses a terminal write may land on: the two live ones, and the
outcome it is about to write. -/
def writableFrom (execution : AgentExecution) (status : AgentExecutionStatus) : Bool :=
  status == .pending || status == .running || status == execution.status

def terminalColumns (execution row : AgentExecution) : AgentExecution :=
  { row with
    status := execution.status
    error := execution.error
    output := execution.output
    nodeResults := execution.nodeResults
    executionTime := execution.executionTime
    totalCost := execution.totalCost
    totalTokens := execution.totalTokens
    inputTokens := execution.inputTokens
    outputTokens := execution.outputTokens
    metadata := execution.metadata }

def commitTerminal (execution row : AgentExecution) : AgentExecution × Bool :=
  if writableFrom execution row.status then (terminalColumns execution row, true)
  else (row, false)

def recordStrategy (metadata : Json) (row : AgentExecution) : AgentExecution :=
  if row.status.isTerminal then row else { row with metadata := metadata }

/-- `STALE_EXECUTION_MS`, as it is when the environment does not set it. -/
def staleExecutionMs : Int := 60 * 60000

/-- What the reaper's `find` selects. -/
def isStuck (now : Int) (row : AgentExecution) : Bool :=
  row.status.sweepable && decide (row.createdAt < now - staleExecutionMs)

def reapedError : String :=
  "Execution timed out: still running 60 minutes after it " ++
    "started, so the process running it is gone."

/-- The reaper's `UPDATE` of a row its `find` returned. -/
def reap (row : AgentExecution) : AgentExecution :=
  if row.status.sweepable then
    { row with
      status := .timeout
      error := some reapedError }
  else row

/-- A property of a JSON object. -/
def field (value : Json) (key : String) : Json := (value.fieldsOrEmpty.lookup key).getD .null

def waitSteps (row : AgentExecution) : List Json :=
  (field (field row.metadata "waitingForApproval") "steps").itemsOrEmpty

def claimResume (organizationId : String) (row : AgentExecution) : Option AgentExecution :=
  if row.organizationId = organizationId ∧ row.status = .waitingApproval then
    some { row with status := .running }
  else none

/-- The run cannot carry on after its approval. -/
def failResume (message : String) (row : AgentExecution) : AgentExecution :=
  if row.status = .running then
    { row with
      status := .failed
      error := some ("Could not carry on after the approval: " ++ message) }
  else row

/-! ## Cancelling -/

abbrev CancelledEntity := { entity : AgentExecution // entity.status = .cancelled }

def cancelledEntity (execution : AgentExecution) : CancelledEntity :=
  ⟨{ execution with
      status := .cancelled
      error := some "Execution cancelled" }, rfl⟩

def cancelCheck (organizationId : String) (agentId : Option String) (row : AgentExecution) :
    Except String CancelledEntity :=
  let agentMatches := agentId.all fun a => a = "" || a = row.agentId
  if organizationId = "" || organizationId ≠ row.organizationId || !agentMatches then
    .error s!"Execution {row.id} not found"
  else if row.status.isTerminal then
    .error s!"Execution {row.id} is already {row.status.text}"
  else .ok (cancelledEntity row)

def savedColumn {α : Type} [DecidableEq α] (entity loaded current : α) : α :=
  if entity = loaded then current else entity

def saveUpdate (entity loaded row : AgentExecution) : AgentExecution :=
  { row with
    agentId := savedColumn entity.agentId loaded.agentId row.agentId
    organizationId := savedColumn entity.organizationId loaded.organizationId row.organizationId
    status := savedColumn entity.status loaded.status row.status
    output := savedColumn entity.output loaded.output row.output
    nodeResults := savedColumn entity.nodeResults loaded.nodeResults row.nodeResults
    executionTime := savedColumn entity.executionTime loaded.executionTime row.executionTime
    totalCost := savedColumn entity.totalCost loaded.totalCost row.totalCost
    totalTokens := savedColumn entity.totalTokens loaded.totalTokens row.totalTokens
    inputTokens := savedColumn entity.inputTokens loaded.inputTokens row.inputTokens
    outputTokens := savedColumn entity.outputTokens loaded.outputTokens row.outputTokens
    error := savedColumn entity.error loaded.error row.error
    metadata := savedColumn entity.metadata loaded.metadata row.metadata }

/-! ## The system -/

inductive CallPhase
  | idle
  | foundStuck
  | checked (entity : CancelledEntity)
  | saving (entity : CancelledEntity) (loaded : AgentExecution)
  | cancelled (entity : CancelledEntity)
  | refused (message : String)
  | decided (organizationId : String)
  | carryingOn
  | returned

structure ExecutionState where
  row : AgentExecution
  calls : String → CallPhase

inductive ExecutionAction
  | commitTerminal (execution : AgentExecution)
  | recordStrategy (metadata : Json)
  | reapFind (call : String) (now : Int) (inBatch : Bool)
  | reapUpdate (call : String)
  | cancelRead (call organizationId : String) (agentId : Option String)
  | cancelLoad (call : String)
  | cancelUpdate (call : String)
  | resumeRead (call organizationId : String) (allDecided : Bool)
  | resumeClaim (call : String)
  | resumeFail (call message : String)

namespace ExecutionState

def setCall (s : ExecutionState) (call : String) (phase : CallPhase) : ExecutionState :=
  { s with calls := fun c => if c = call then phase else s.calls c }

def step (s : ExecutionState) : ExecutionAction → ExecutionState
  | .commitTerminal execution => { s with row := (Workflow.commitTerminal execution s.row).1 }
  | .recordStrategy metadata => { s with row := Workflow.recordStrategy metadata s.row }
  | .reapFind call now inBatch =>
    if isStuck now s.row && inBatch then s.setCall call .foundStuck else s.setCall call .returned
  | .reapUpdate call =>
    match s.calls call with
    | .foundStuck => { s.setCall call .returned with row := reap s.row }
    | _ => s
  | .cancelRead call organizationId agentId =>
    match cancelCheck organizationId agentId s.row with
    | .ok entity => s.setCall call (.checked entity)
    | .error message => s.setCall call (.refused message)
  | .cancelLoad call =>
    match s.calls call with
    | .checked entity => s.setCall call (.saving entity s.row)
    | _ => s
  | .cancelUpdate call =>
    match s.calls call with
    | .saving entity loaded =>
      { s.setCall call (.cancelled entity) with row := saveUpdate entity loaded s.row }
    | _ => s
  | .resumeRead call organizationId allDecided =>
    if s.row.organizationId = organizationId ∧ s.row.status = .waitingApproval
        ∧ waitSteps s.row ≠ [] ∧ allDecided then
      s.setCall call (.decided organizationId)
    else s.setCall call .returned
  | .resumeClaim call =>
    match s.calls call with
    | .decided organizationId =>
      match claimResume organizationId s.row with
      | some row => { s.setCall call .carryingOn with row }
      | none => s.setCall call .returned
    | _ => s
  | .resumeFail call message =>
    match s.calls call with
    | .carryingOn => { s.setCall call .returned with row := failResume message s.row }
    | _ => s

def start (row : AgentExecution) : ExecutionState := { row, calls := fun _ => .idle }

end ExecutionState

/-! ## A terminal status, step by step -/

/-- A cancel's `UPDATE` reaches a row that another writer ended: the row is
terminal, is not `cancelled`, and the status is one of the columns set. -/
def OverwritesEnd (s : ExecutionState) (a : ExecutionAction) : Prop :=
  ∃ call entity loaded, a = .cancelUpdate call ∧ s.calls call = .saving entity loaded
    ∧ loaded.status ≠ .cancelled ∧ s.row.status.isTerminal = true ∧ s.row.status ≠ .cancelled

variable {row : AgentExecution}

theorem commitTerminal_status {execution : AgentExecution} (h : row.status.isTerminal = true) :
    (commitTerminal execution row).1.status = row.status := by
  unfold commitTerminal
  split
  · next hw =>
    -- a terminal row is writable only with the status it has
    simp only [writableFrom, Bool.or_eq_true, beq_iff_eq] at hw
    rcases hw with (hp | hr) | he
    · rw [hp] at h
      cases h
    · rw [hr] at h
      cases h
    · exact he.symm
  · rfl

theorem recordStrategy_status (metadata : Json) (row : AgentExecution) :
    (recordStrategy metadata row).status = row.status := by
  unfold recordStrategy
  split <;> rfl

theorem not_sweepable_of_terminal {status : AgentExecutionStatus}
    (h : status.isTerminal = true) : status.sweepable = false := by
  cases status <;> first | rfl | cases h

theorem reap_status (h : row.status.isTerminal = true) :
    (reap row).status = row.status := by
  rw [reap, not_sweepable_of_terminal h]
  rfl

theorem claimResume_eq_none (h : row.status.isTerminal = true) (organizationId : String) :
    claimResume organizationId row = none := by
  refine if_neg fun hw => ?_
  rw [hw.2] at h
  cases h

theorem failResume_status (h : row.status.isTerminal = true) (message : String) :
    (failResume message row).status = row.status := by
  unfold failResume
  split
  · next hr =>
    rw [hr] at h
    cases h
  · rfl

theorem saveUpdate_status (entity : CancelledEntity) (loaded row : AgentExecution) :
    (saveUpdate entity loaded row).status
      = if loaded.status = .cancelled then row.status else .cancelled := by
  simp only [saveUpdate, savedColumn, entity.property]
  by_cases h : loaded.status = .cancelled
  · rw [if_pos h, if_pos h.symm]
  · rw [if_neg h, if_neg fun h' => h h'.symm]

theorem step_keeps_terminal_iff (s : ExecutionState) (a : ExecutionAction)
    (h : s.row.status.isTerminal = true) :
    (s.step a).row.status = s.row.status ↔ ¬ OverwritesEnd s a := by
  cases a with
  | cancelUpdate call =>
    cases hc : s.calls call with
    | saving entity loaded =>
      have hstep : (s.step (.cancelUpdate call)).row = saveUpdate entity loaded s.row := by
        simp only [ExecutionState.step, hc]
      rw [hstep, saveUpdate_status]
      constructor
      · rintro hkeep ⟨call', entity', loaded', ha, hs, hl, -, hne⟩
        cases ha
        rw [hc] at hs
        cases hs
        rw [if_neg hl] at hkeep
        exact hne hkeep.symm
      · intro hno
        split
        · rfl
        · next hl =>
          apply Classical.byContradiction
          intro hne
          exact hno ⟨call, entity, loaded, rfl, hc, hl, h, fun he => hne he.symm⟩
    | _ =>
      simp only [ExecutionState.step, hc, true_iff]
      rintro ⟨call', entity', loaded', ha, hs, -⟩
      cases ha
      rw [hc] at hs
      cases hs
  | _ =>
    -- every other writer is guarded on a status the row no longer has
    refine iff_of_true ?_ fun ⟨_, _, _, ha, _⟩ => by cases ha
    simp only [ExecutionState.step]
    repeat' split
    all_goals
      first
      | rfl
      | simp_all [commitTerminal_status, recordStrategy_status, reap_status,
          claimResume_eq_none, failResume_status]

/-! ## A terminal status, along a run -/

def TerminalFinal (s : ExecutionState) (as : List ExecutionAction) : Prop :=
  ∀ pre mid post, as = pre ++ mid ++ post → (Steps.run .step s pre).row.status.isTerminal = true →
    (Steps.run .step s (pre ++ mid)).row.status = (Steps.run .step s pre).row.status

theorem terminalFinal_iff_along (s : ExecutionState) (as : List ExecutionAction) :
    TerminalFinal s as ↔ Steps.Along ExecutionState.step
      (fun s a => s.row.status.isTerminal = true → (s.step a).row.status = s.row.status) s as := by
  rw [Steps.along_iff]
  constructor
  · intro h pre a post he ht
    have hrun := h pre [a] post (by rw [he, List.append_assoc, List.singleton_append]) ht
    rwa [Steps.run_append] at hrun
  · intro h pre mid post he ht
    -- on the length of the stretch after the end, one step at a time
    induction mid generalizing pre with
    | nil => rw [List.append_nil]
    | cons a mid ih =>
      have hone := h pre a (mid ++ post) (by simp [he]) ht
      have hpre : Steps.run ExecutionState.step s (pre ++ [a])
          = (Steps.run ExecutionState.step s pre).step a := Steps.run_append ..
      have hrest := ih (pre ++ [a]) (by simp [he]) (by rw [hpre, hone]; exact ht)
      rw [List.append_assoc, List.singleton_append, hpre, hone] at hrest
      exact hrest

/-- Every terminal status is kept exactly when no cancel reaches a row that ended otherwise. -/
theorem terminal_final_iff (s : ExecutionState) (as : List ExecutionAction) :
    TerminalFinal s as ↔
      ∀ pre a post, as = pre ++ a :: post → ¬ OverwritesEnd (Steps.run .step s pre) a := by
  rw [terminalFinal_iff_along, Steps.along_iff]
  constructor
  · intro h pre a post he hover
    have ht : (Steps.run ExecutionState.step s pre).row.status.isTerminal = true := by
      obtain ⟨_, _, _, -, -, -, ht, -⟩ := hover
      exact ht
    exact (step_keeps_terminal_iff _ a ht).mp (h pre a post he ht) hover
  · intro h pre a post he ht
    exact (step_keeps_terminal_iff _ a ht).mpr (h pre a post he)

/-- A run as the engine creates it. -/
def runningRow (id agentId organizationId : String) : AgentExecution :=
  { id, agentId, organizationId, status := .running, output := .null, nodeResults := .null
    executionTime := 0, totalCost := 0, totalTokens := 0, inputTokens := 0, outputTokens := 0
    error := none, metadata := .obj [], createdAt := 0 }

/-- A cancel reads the row while the run is live; its `save` records `cancelled` over `completed`.
-/
theorem terminal_not_final_cancel_after_completed :
    ¬ TerminalFinal (.start (runningRow "e" "a" "o"))
      [.cancelRead "c" "o" none,
        .commitTerminal { runningRow "e" "a" "o" with status := .completed, totalCost := 3 },
        .cancelLoad "c", .cancelUpdate "c"] := by
  intro h
  have hlast := h [.cancelRead "c" "o" none,
    .commitTerminal { runningRow "e" "a" "o" with status := .completed, totalCost := 3 }]
    [.cancelLoad "c", .cancelUpdate "c"] [] rfl (by decide)
  exact absurd hlast (by decide)

end Almyty.Workflow
