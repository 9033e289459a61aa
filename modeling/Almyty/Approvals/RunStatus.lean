import Almyty.Runs.Lease

/-!
# Approvals and the run's status

An approval request pauses its run and its decision moves the run on: `ApprovalsService.create` sets
WAITING_APPROVAL, `handleApprovalDecided` sets RUNNING or CANCELLED. With a cancel, an input, the
step commits and the takeover stop these are the writers of a run's status, each with a `where` of
its own.

A run that ended keeps its ending, whoever gets there first: the comment at `commitStep` says so,
and its `where` does. Two writers have no status in theirs: `create` and the collaboration step's
`persist`. `endings_final_iff` says exactly which interleavings keep every ending.

Mirroring notes:
- An action is one `writeRun` transaction.
-/

namespace Almyty.Approvals

open Almyty.Lib Almyty.Lib.Steps Almyty.Runs

/-! ## Requests -/

inductive ApprovalStatus
  | pending | approved | rejected | expired
  deriving DecidableEq

def ApprovalStatus.text : ApprovalStatus → String
  | .pending => "pending"
  | .approved => "approved"
  | .rejected => "rejected"
  | .expired => "expired"

structure ApprovalRequest where
  id : String
  runId : Option String := none
  toolCallId : Option String := none
  payload : Json := .null
  status : ApprovalStatus := .pending
  decidedBy : Option String := none
  decisionReason : Option String := none

def payloadAt (payload : Json) (key : String) : Option Json := payload.fieldsOrEmpty.lookup key

def isChangeSet (payload : Json) : Bool := payloadAt payload "kind" = some (.str "change_set")

/-- A tool call held by an ask-first or amount rule. -/
def isGated (payload : Json) : Bool := (payloadAt payload "_gate").any Json.truthy

def ownRequest (payload : Json) : Bool := !isGated payload && !isChangeSet payload

def textOrNull : Option String → Json
  | some text => .str text
  | none => .null

/-! ## The writers of a run's status -/

def createWrite (saved : ApprovalRequest) (now : Time) : RunWrite :=
  { where' := fun _ => true
    change := fun _ => some { status := some .waitingApproval }
    notes :=
      if ownRequest saved.payload then
        [{ type := .approvalRequested
           step := none
           payload := .obj [("approvalId", .str saved.id), ("kind", .str "run"),
             ("toolCallId", textOrNull saved.toolCallId)] }]
      else []
    now }

def decidedNote (approval : ApprovalRequest) : RunNote :=
  { type := .approvalDecided
    step := none
    payload := .obj [("approvalId", .str approval.id),
      ("kind", .str (if isChangeSet approval.payload then "change_set"
        else if isGated approval.payload then "tool_call" else "run")),
      ("status", .str approval.status.text),
      ("decidedBy", if approval.status = .expired then .null else textOrNull approval.decidedBy),
      ("decisionReason", textOrNull approval.decisionReason),
      ("toolCallId", textOrNull approval.toolCallId)] }

/-- The run goes on after the decision: it was approved, or it is a change set,
whose model is told either way. -/
def resumes (approval : ApprovalRequest) : Bool :=
  approval.status = .approved || isChangeSet approval.payload

def decidedError (approval : ApprovalRequest) : String :=
  if approval.status = .expired then "approval expired"
  else
    match approval.decisionReason with
    | some reason => "approval rejected" ++ (if reason = "" then "" else ": " ++ reason)
    | none => "approval rejected"

def decidedWrite (approval : ApprovalRequest) (now : Time) : RunWrite :=
  { where' := fun row => row.status = .waitingApproval
    change := fun _ =>
      if resumes approval then some { status := some .running }
      else some { status := some .cancelled, error := some (some (decidedError approval)) }
    notes := [decidedNote approval]
    now }

def cancelWrite (now : Time) : RunWrite :=
  { where' := fun row => !isTerminal row.status
    change := fun _ => some { status := some .cancelled }
    now }

def inputWrite (messageId : Option String) (attachments : Nat) (now : Time) : RunWrite :=
  { where' := fun row => row.status = .waitingInput
    change := fun _ => some { status := some .running }
    notes := [{ type := .inputReceived
                step := none
                payload := .obj [("messageId", textOrNull messageId),
                  ("attachments", .num attachments)] }]
    now }

inductive StatusAction
  | cancelRun (now : Time)
  | sendInput (messageId : Option String) (attachments : Nat) (now : Time)
  | approvalDecided (approval : ApprovalRequest) (now : Time)
  | createApproval (saved : ApprovalRequest) (now : Time)
  /-- `commitStep`, or `persist` of a collaboration step. -/
  | commit (token : String) (done : StepCommit) (now : Time)
  /-- The first write of `claimRun`. -/
  | probe (call : ClaimCall)
  /-- The second write of `claimRun`, which stops the run at the takeover cap. -/
  | takeOver (call : ClaimCall) (before : Lapsed) (now : Time)

def StatusAction.write : StatusAction → RunWrite
  | .cancelRun now => cancelWrite now
  | .sendInput messageId attachments now => inputWrite messageId attachments now
  | .approvalDecided approval now => decidedWrite approval now
  | .createApproval saved now => createWrite saved now
  | .commit token done now => done.write token now
  | .probe call => probeWrite call
  | .takeOver call before now => takeoverWrite call before now

def statusStep (store : RunStore) (a : StatusAction) : RunStore := store.write a.write

/-! ## Endings -/

def LeavesEnding (store : RunStore) (a : StatusAction) : Prop :=
  store.Commits a.write → isTerminal store.row.status = true →
    match a with
    | .createApproval _ _ => False
    | .commit _ (.persist run) _ => run.status = store.row.status
    | _ => True

def EndingsFinal (store : RunStore) (actions : List StatusAction) : Prop :=
  ∀ pre post rest, actions = pre ++ post ++ rest →
    isTerminal (run statusStep store pre).row.status = true →
    (run statusStep store (pre ++ post)).row.status = (run statusStep store pre).row.status

theorem not_isTerminal_of_eq {row : AgentRun} {status : AgentRunStatus}
    (h : row.status = status) (hs : isTerminal status = false) (ht : isTerminal row.status = true) :
    False := by
  rw [h, hs] at ht
  cases ht

theorem not_isTerminal_of_claimable {status : AgentRunStatus} (h : claimable status = true)
    (ht : isTerminal status = true) : False := by
  cases status <;> simp [claimable, isTerminal] at h ht

theorem due_claimable {c : ClaimCall} {row : AgentRun} (h : c.due row = true) :
    claimable row.status = true := by
  simp only [ClaimCall.due, Bool.and_eq_true] at h
  exact h.1.1.1

theorem statusStep_ended_iff {store : RunStore} {a : StatusAction} (hc : store.Commits a.write)
    (ht : isTerminal store.row.status = true) :
    (statusStep store a).row.status = store.row.status ↔ LeavesEnding store a := by
  obtain ⟨asked, hw, ha, hstatus, -⟩ := commits_state hc
  unfold statusStep LeavesEnding
  rw [hstatus]
  simp only [hc, ht, forall_const]
  cases a with
  | cancelRun now =>
    simp only [StatusAction.write, cancelWrite, ht] at hw
    cases hw
  | sendInput | approvalDecided =>
    exact (not_isTerminal_of_eq (of_decide_eq_true hw) rfl ht).elim
  | createApproval saved now =>
    cases ha
    refine ⟨fun h => ?_, False.elim⟩
    exact not_isTerminal_of_eq (Eq.symm h) rfl ht
  | commit token done now =>
    cases done with
    | commitStep run steps expectedStep notes =>
      simp only [StatusAction.write, StepCommit.write, commitStepWrite, ht, Bool.not_true,
        Bool.and_false, Bool.false_and] at hw
      cases hw
    | persist run =>
      cases ha
      exact Iff.rfl
  | probe call => exact (not_isTerminal_of_claimable (due_claimable hw) ht).elim
  | takeOver call before now =>
    simp only [StatusAction.write, takeoverWrite, Bool.and_eq_true] at hw
    exact (not_isTerminal_of_claimable (due_claimable hw.1) ht).elim

/-- The status of a run that ended stays exactly when the action leaves the ending alone. -/
theorem statusStep_keeps_iff (store : RunStore) (a : StatusAction) :
    (isTerminal store.row.status = true → (statusStep store a).row.status = store.row.status) ↔
      LeavesEnding store a := by
  by_cases hc : store.Commits a.write
  · by_cases ht : isTerminal store.row.status = true
    · rw [← statusStep_ended_iff hc ht]
      simp only [ht, forall_const]
    · exact ⟨fun _ _ h => absurd h ht, fun _ h => absurd h ht⟩
  · refine ⟨fun _ h => absurd h hc, fun _ _ => ?_⟩
    rw [statusStep, write_eq_self hc]

theorem endingsFinal_iff_along {store : RunStore} {actions : List StatusAction} :
    EndingsFinal store actions ↔
      Along statusStep (fun s a => isTerminal s.row.status = true →
        (statusStep s a).row.status = s.row.status) store actions := by
  rw [along_iff]
  constructor
  · intro h pre a post hactions ht
    have hone := h pre [a] post (by rw [hactions]; simp) ht
    rwa [run_append] at hone
  · intro h pre post rest hactions ht
    induction post generalizing pre with
    | nil => rw [List.append_nil]
    | cons a post ih =>
      -- the first write keeps the ending, so the rest starts from the same one
      have hone := h pre a (post ++ rest) (by rw [hactions]; simp) ht
      have hpre : run statusStep store (pre ++ [a]) = statusStep (run statusStep store pre) a := by
        rw [run_append]
        rfl
      have hrest := ih (pre ++ [a]) (by rw [hactions]; simp) (by rw [hpre, hone]; exact ht)
      rw [hpre, hone, List.append_assoc, List.singleton_append] at hrest
      exact hrest

/-- **When a run's ending is final**: when no request pauses a run that ended and no collaboration
step writes another status over an ending. -/
theorem endings_final_iff (store : RunStore) (actions : List StatusAction) :
    EndingsFinal store actions ↔ Along statusStep LeavesEnding store actions := by
  rw [endingsFinal_iff_along]
  exact along_iff_of_invariant (fun _ => True) (fun _ _ _ _ => trivial)
    (fun s a _ => statusStep_keeps_iff s a) trivial

def heldCall : ApprovalRequest :=
  { id := "approval-1", runId := some "run-1", toolCallId := some "call_1",
    payload := .obj [("_gate", .obj [("rule", .str "ask_first")])] }

/-- The run is cancelled while a step is at work; the step then holds a tool call, and the ended run
waits for approval. -/
theorem ending_lost_cancel_then_create :
    ¬EndingsFinal ⟨{ freshRun with status := .running }, []⟩
      [.cancelRun 10, .createApproval heldCall 20] := by
  have hseqs : (RunStore.mk { freshRun with status := .running } []).SeqsExact := rfl
  have hcancel : (RunStore.mk { freshRun with status := .running } []).Commits (cancelWrite 10) :=
    commits_of_seqsExact hseqs rfl rfl rfl
  obtain ⟨asked, -, ha, hended, -⟩ := commits_state hcancel
  cases ha
  have hcreate := commits_of_seqsExact (seqsExact_write hseqs (cancelWrite 10))
    (w := createWrite heldCall 20) rfl rfl rfl
  intro h
  have hkeeps := (endingsFinal_iff_along.mp h).2.1
  refine (statusStep_keeps_iff _ _).mp hkeeps hcreate ?_
  rw [show (statusStep _ (.cancelRun 10)).row.status = AgentRunStatus.cancelled from hended]
  rfl

end Almyty.Approvals
