import Almyty.Approvals.Policies
import Almyty.Approvals.RunStatus

/-!
# Deciding a request: `modules/approvals/approvals.service.ts`

`decide` is several transactions. It reads the row, and for an approval under a policy it inserts
the caller's record, reads every record back, scores them and either writes the progress and leaves
the request pending or goes on; the flip at the end is an UPDATE that lands only while the status is
pending, and only the call whose UPDATE landed emits `approval.decided`. `sweepExpired` flips the
same way.

`DecideState` is one request with the records of its approvers and the calls under way, any number
of them and by anybody. An action is one transaction of one call (or the answer it waited for), so a
run of actions is any interleaving of the calls.

Mirroring notes:
- `load` takes the answer of the access check; for the sweep, whether the request was past its
  `expiresAt` when it looked.
- The roles of a caller and the policy that scores are answers of other services; the policy may be
  edited or be gone between two calls.
-/

namespace Almyty.Approvals

open Almyty.Lib Almyty.Lib.Steps List

/-! ## One call -/

structure Decision where
  decidedBy : Option String := none
  decisionReason : Option String := none
  deriving DecidableEq

inductive DecideKind
  | approve (caller : String) (decision : Decision)
  | reject (caller : String) (decision : Decision)
  /-- One row of a run of `sweepExpired`. -/
  | sweep
  deriving DecidableEq

def DecideKind.next : DecideKind → ApprovalStatus
  | .approve _ _ => .approved
  | .reject _ _ => .rejected
  | .sweep => .expired

/-- The columns a call sets with the status. -/
def DecideKind.decide (kind : DecideKind) (row : ApprovalRequest) : ApprovalRequest :=
  match kind with
  | .approve _ decision | .reject _ decision =>
    { row with
      status := kind.next
      decidedBy := decision.decidedBy
      decisionReason := decision.decisionReason }
  | .sweep => { row with status := kind.next, decisionReason := some "approval expired" }

inductive DecideError
  /-- Not found, or seen and not the caller's to decide. -/
  | notAllowed
  | already (status : ApprovalStatus)
  | alreadyApproved
  | policyUnavailable
  /-- What the call waited for failed. -/
  | broke

structure ApprovalRecord where
  approverId : String
  roles : List String

inductive DecidePhase
  | started
  | loaded (row : ApprovalRequest)
  /-- Its record landed. -/
  | recorded (row : ApprovalRequest)
  | collected (row : ApprovalRequest) (approvals : List CollectedApproval)
  /-- Scored, not satisfied: the progress is to be written. -/
  | unsatisfied (row : ApprovalRequest)
  /-- The flip is next. -/
  | deciding (row : ApprovalRequest)
  /-- The flip landed: the event is to be emitted. -/
  | flipped (row : ApprovalRequest)
  | returned (row : ApprovalRequest)
  | failed (error : DecideError)

structure DecideCall where
  kind : DecideKind
  phase : DecidePhase := .started

inductive ScoreAnswer
  | throws
  /-- Unlicensed, or the policy is gone. -/
  | null
  | scored (policy : PolicySteps)

inductive CallAction
  | load (allowed : Bool)
  | record (roles : List String)
  | collect
  | score (answer : ScoreAnswer)
  | update
  | flip
  | emit
  | fail

/-! ## Collecting and scoring -/

def policyState (payload : Json) : Json := (payloadAt payload "_policy").getD .null

def governed (hook : Bool) (row : ApprovalRequest) : Bool :=
  hook && (payloadAt (policyState row.payload) "policyId").any Json.truthy

def setApproval (approvals : List CollectedApproval) (a : CollectedApproval) :
    List CollectedApproval :=
  if approvals.any fun b => b.approverId.sameKey a.approverId then
    approvals.map fun b => if b.approverId.sameKey a.approverId then a else b
  else approvals ++ [a]

def payloadApproval (entry : Json) : Option CollectedApproval :=
  match payloadAt entry "approverId" with
  | some approverId =>
    if approverId.truthy then
      some ⟨approverId, ((payloadAt entry "roles").getD .null).itemsOrEmpty⟩
    else none
  | none => none

def ApprovalRecord.approval (record : ApprovalRecord) : CollectedApproval :=
  ⟨.str record.approverId, record.roles.map .str⟩

def collectPolicyApprovals (payload : Json) (records : List ApprovalRecord) :
    List CollectedApproval :=
  let inPayload := ((payloadAt (policyState payload) "approvals").getD .null).itemsOrEmpty
  records.foldl (fun approvals record => setApproval approvals record.approval)
    ((inPayload.filterMap payloadApproval).foldl setApproval [])

def approvalJson (a : CollectedApproval) : Json :=
  .obj [("approverId", a.approverId), ("roles", .arr a.roles)]

def stepProgressJson (p : StepProgress) : Json :=
  .obj [("index", .num p.index), ("name", .str p.name), ("approverRole", .str p.approverRole),
    ("required", .num p.required), ("satisfiedBy", .num p.satisfiedBy),
    ("satisfied", .bool p.satisfied)]

def progressJson (p : PolicyProgress) : Json :=
  .obj [("policyId", .str p.policyId), ("policyName", .str p.policyName),
    ("totalRequired", .num p.totalRequired), ("totalCollected", .num p.totalCollected),
    ("steps", .arr (p.steps.map stepProgressJson)), ("currentStep", .num p.currentStep),
    ("satisfied", .bool p.satisfied)]

def withProgress (payload : Json) (approvals : List CollectedApproval) (p : PolicyProgress) :
    Json :=
  let state := Assoc.putAll (policyState payload).spread
    [("approvals", .arr (approvals.map approvalJson)), ("progress", progressJson p)]
  .obj (Assoc.put payload.spread "_policy" (.obj state))

/-! ## The system -/

/-- What an action of a call does. -/
structure Effect where
  phase : DecidePhase
  row : ApprovalRequest
  records : List ApprovalRecord
  emitted : List ApprovalRequest := []

def DecideCall.act (hook : Bool) (row : ApprovalRequest) (records : List ApprovalRecord)
    (call : DecideCall) : CallAction → Effect
  | .load allowed =>
    match call.phase, call.kind with
    | .started, .sweep =>
      if row.status = .pending && allowed then ⟨.deciding row, row, records, []⟩
      else ⟨.returned row, row, records, []⟩
    | .started, kind =>
      if !allowed then ⟨.failed .notAllowed, row, records, []⟩
      else if row.status ≠ .pending then ⟨.failed (.already row.status), row, records, []⟩
      else if kind.next = .approved then ⟨.loaded row, row, records, []⟩
      else ⟨.deciding row, row, records, []⟩
    | phase, _ => ⟨phase, row, records, []⟩
  | .record roles =>
    match call.phase, call.kind with
    | .loaded mine, .approve caller _ =>
      if !governed hook mine then ⟨.deciding mine, row, records, []⟩
      -- the unique index (requestId, approverId)
      else if records.any fun r => r.approverId = caller then
        ⟨.failed .alreadyApproved, row, records, []⟩
      else ⟨.recorded mine, row, records ++ [⟨caller, roles⟩], []⟩
    | phase, _ => ⟨phase, row, records, []⟩
  | .collect =>
    match call.phase with
    | .recorded mine => ⟨.collected mine (collectPolicyApprovals mine.payload records), row, records, []⟩
    | phase => ⟨phase, row, records, []⟩
  | .score answer =>
    match call.phase with
    | .collected mine approvals =>
      match answer with
      | .throws => ⟨.failed .policyUnavailable, row, records, []⟩
      | .null => ⟨.deciding mine, row, records, []⟩
      | .scored policy =>
        let p := progress policy approvals
        let mine := { mine with payload := withProgress mine.payload approvals p }
        if p.satisfied then ⟨.deciding mine, row, records, []⟩
        else ⟨.unsatisfied mine, row, records, []⟩
    | phase => ⟨phase, row, records, []⟩
  | .update =>
    match call.phase with
    | .unsatisfied mine => ⟨.returned mine, { row with payload := mine.payload }, records, []⟩
    | phase => ⟨phase, row, records, []⟩
  | .flip =>
    match call.phase with
    | .deciding mine =>
      if row.status = .pending then
        ⟨.flipped (call.kind.decide mine), call.kind.decide row, records, []⟩
      else if call.kind = .sweep then ⟨.returned mine, row, records, []⟩
      else ⟨.failed (.already row.status), row, records, []⟩
    | phase => ⟨phase, row, records, []⟩
  | .emit =>
    match call.phase with
    | .flipped mine => ⟨.returned mine, row, records, [mine]⟩
    | phase => ⟨phase, row, records, []⟩
  | .fail =>
    match call.phase with
    | .flipped mine => ⟨.flipped mine, row, records, []⟩
    | .returned mine => ⟨.returned mine, row, records, []⟩
    | .failed error => ⟨.failed error, row, records, []⟩
    | _ => ⟨.failed .broke, row, records, []⟩

structure DecideState where
  row : ApprovalRequest
  records : List ApprovalRecord
  calls : List DecideCall
  emitted : List ApprovalRequest

def DecideState.step (hook : Bool) (s : DecideState) (a : Nat × CallAction) : DecideState :=
  match s.calls[a.1]? with
  | some call =>
    let e := call.act hook s.row s.records a.2
    { row := e.row
      records := e.records
      calls := s.calls.set a.1 { call with phase := e.phase }
      emitted := s.emitted ++ e.emitted }
  | none => s

/-- A request just created, and the calls that will be made on it. -/
def DecideState.start (request : ApprovalRequest) (kinds : List DecideKind) : DecideState :=
  { row := { request with status := .pending }
    records := []
    calls := kinds.map fun kind => { kind }
    emitted := [] }

/-! ## The flip and its event -/

def DecidePhase.isFlipped : DecidePhase → Bool
  | .flipped _ => true
  | _ => false

theorem DecideKind.decide_status (kind : DecideKind) (row : ApprovalRequest) :
    (kind.decide row).status = kind.next := by
  cases kind <;> rfl

theorem DecideKind.next_ne_pending (kind : DecideKind) : kind.next ≠ .pending := by
  cases kind <;> nofun

/-- The actions that only read: the call goes on to another phase, and its flip is where
it was. -/
theorem act_reads (hook : Bool) (row : ApprovalRequest) (records : List ApprovalRecord)
    (call : DecideCall) {a : CallAction}
    (h : (∃ allowed, a = .load allowed) ∨ a = .collect ∨ ∃ answer, a = .score answer) :
    ∃ phase, call.act hook row records a = ⟨phase, row, records, []⟩ ∧
      ∀ mine, phase = .flipped mine ↔ call.phase = .flipped mine := by
  obtain ⟨kind, phase⟩ := call
  rcases h with ⟨allowed, rfl⟩ | rfl | ⟨answer, rfl⟩
  · cases phase with
    | started =>
      cases kind with
      | sweep =>
        simp only [DecideCall.act]
        split <;> exact ⟨_, rfl, by simp⟩
      | _ =>
        simp only [DecideCall.act]
        split
        · exact ⟨_, rfl, by simp⟩
        split
        · exact ⟨_, rfl, by simp⟩
        split <;> exact ⟨_, rfl, by simp⟩
    | _ => exact ⟨_, rfl, fun _ => Iff.rfl⟩
  · cases phase with
    | recorded mine => exact ⟨_, rfl, by simp⟩
    | _ => exact ⟨_, rfl, fun _ => Iff.rfl⟩
  · cases phase with
    | collected mine approvals =>
      cases answer with
      | scored policy =>
        simp only [DecideCall.act]
        split <;> exact ⟨_, rfl, by simp⟩
      | _ => exact ⟨_, rfl, by simp⟩
    | _ => exact ⟨_, rfl, fun _ => Iff.rfl⟩

/-- **What an action does to the status**: nothing, unless it flips a pending request; it emits only
once its call's flip landed. -/
theorem act_cases (hook : Bool) (row : ApprovalRequest) (records : List ApprovalRecord)
    (call : DecideCall) (a : CallAction) :
    ((call.act hook row records a).row.status = row.status ∧
      (call.act hook row records a).emitted = [] ∧
      ∀ mine, (call.act hook row records a).phase = .flipped mine ↔ call.phase = .flipped mine) ∨
    (∃ mine, row.status = .pending ∧ call.phase = .deciding mine ∧
      call.act hook row records a
        = ⟨.flipped (call.kind.decide mine), call.kind.decide row, records, []⟩) ∨
    (∃ mine, call.phase = .flipped mine ∧
      call.act hook row records a = ⟨.returned mine, row, records, [mine]⟩) := by
  -- an action that leaves the row as it is, emits nothing and flips nothing
  have hquiet : ∀ {phase : DecidePhase} {records' : List ApprovalRecord},
      call.act hook row records a = ⟨phase, row, records', []⟩ →
      (∀ mine, phase = .flipped mine ↔ call.phase = .flipped mine) →
      (call.act hook row records a).row.status = row.status ∧
        (call.act hook row records a).emitted = [] ∧
        ∀ mine, (call.act hook row records a).phase = .flipped mine ↔
          call.phase = .flipped mine := by
    intro phase records' hact hflipped
    rw [hact]
    exact ⟨rfl, rfl, hflipped⟩
  cases a with
  | flip =>
    obtain ⟨kind, phase⟩ := call
    cases phase with
    | deciding mine =>
      by_cases hp : row.status = .pending
      · exact Or.inr (Or.inl ⟨mine, hp, rfl, by simp [DecideCall.act, hp]⟩)
      · left
        simp only [DecideCall.act, if_neg hp]
        split <;> simp
    | _ => exact Or.inl (hquiet rfl fun _ => Iff.rfl)
  | emit =>
    obtain ⟨kind, phase⟩ := call
    cases phase with
    | flipped mine => exact Or.inr (Or.inr ⟨mine, rfl, rfl⟩)
    | _ => exact Or.inl (hquiet rfl fun _ => Iff.rfl)
  | record roles =>
    left
    obtain ⟨kind, phase⟩ := call
    cases phase with
    | loaded mine =>
      cases kind with
      | approve caller decision =>
        simp only [DecideCall.act]
        split
        · simp
        split <;> simp
      | _ => exact hquiet rfl fun _ => Iff.rfl
    | _ => exact hquiet rfl fun _ => Iff.rfl
  | update =>
    left
    obtain ⟨kind, phase⟩ := call
    cases phase with
    | unsatisfied mine => simp [DecideCall.act]
    | _ => exact hquiet rfl fun _ => Iff.rfl
  | fail =>
    left
    obtain ⟨kind, phase⟩ := call
    cases phase with
    | flipped | returned | failed => exact hquiet rfl fun _ => Iff.rfl
    | _ => exact hquiet rfl (by simp)
  | load allowed =>
    obtain ⟨_, hact, hflipped⟩ := act_reads hook row records call (.inl ⟨allowed, rfl⟩)
    exact Or.inl (hquiet hact hflipped)
  | collect =>
    obtain ⟨_, hact, hflipped⟩ := act_reads hook row records call (.inr (.inl rfl))
    exact Or.inl (hquiet hact hflipped)
  | score answer =>
    obtain ⟨_, hact, hflipped⟩ := act_reads hook row records call (.inr (.inr ⟨answer, rfl⟩))
    exact Or.inl (hquiet hact hflipped)

variable {s : DecideState}

theorem step_eq {hook : Bool} {a : Nat × CallAction} {call : DecideCall}
    (h : s.calls[a.1]? = some call) :
    s.step hook a =
      { row := (call.act hook s.row s.records a.2).row
        records := (call.act hook s.row s.records a.2).records
        calls := s.calls.set a.1 { call with phase := (call.act hook s.row s.records a.2).phase }
        emitted := s.emitted ++ (call.act hook s.row s.records a.2).emitted } := by
  unfold DecideState.step
  rw [h]

theorem step_none {hook : Bool} {a : Nat × CallAction} (h : s.calls[a.1]? = none) :
    s.step hook a = s := by
  unfold DecideState.step
  rw [h]

def toEmit (calls : List DecideCall) : Nat := calls.countP (·.phase.isFlipped)

theorem toEmit_set {calls : List DecideCall} {i : Nat} {call : DecideCall}
    (h : calls[i]? = some call) (phase : DecidePhase) :
    toEmit (calls.set i { call with phase }) + call.phase.isFlipped.toNat
      = toEmit calls + phase.isFlipped.toNat := by
  unfold toEmit
  induction calls generalizing i with
  | nil => cases h
  | cons c calls ih =>
    cases i with
    | zero =>
      cases h
      rw [set_cons_zero, countP_cons, countP_cons]
      cases call.phase.isFlipped <;> cases phase.isFlipped <;> simp
    | succ i =>
      have hrest := ih (i := i) h
      rw [set_cons_succ, countP_cons, countP_cons]
      omega

theorem isFlipped_iff {phase : DecidePhase} :
    phase.isFlipped = true ↔ ∃ mine, phase = .flipped mine := by
  cases phase <;> simp [DecidePhase.isFlipped]

structure DecideState.DecidedOnce (s : DecideState) : Prop where
  events : s.emitted.length + toEmit s.calls = if s.row.status = .pending then 0 else 1
  emitted : ∀ r ∈ s.emitted, r.status = s.row.status
  flipped : ∀ call ∈ s.calls, ∀ mine, call.phase = .flipped mine → mine.status = s.row.status

theorem decidedOnce_start (request : ApprovalRequest) (kinds : List DecideKind) :
    (DecideState.start request kinds).DecidedOnce := by
  have hphase : ∀ call ∈ (DecideState.start request kinds).calls, call.phase = .started := by
    intro call hcall
    obtain ⟨kind, -, rfl⟩ := mem_map.mp hcall
    rfl
  refine ⟨?_, nofun, fun call hcall mine hmine => ?_⟩
  · have hnone : toEmit (DecideState.start request kinds).calls = 0 := by
      refine countP_eq_zero.mpr fun call hcall => ?_
      rw [hphase call hcall]
      nofun
    rw [hnone]
    rfl
  · rw [hphase call hcall] at hmine
    cases hmine

theorem DecideState.DecidedOnce.step {hook : Bool} (h : s.DecidedOnce) (a : Nat × CallAction) :
    (s.step hook a).DecidedOnce := by
  cases hcall : s.calls[a.1]? with
  | none => rwa [step_none hcall]
  | some call =>
    rw [step_eq hcall]
    have hmem : call ∈ s.calls := List.mem_of_getElem? hcall
    have hevents := h.events
    have hset := toEmit_set hcall (call.act hook s.row s.records a.2).phase
    rcases act_cases hook s.row s.records call a.2 with ⟨hstatus, hemit, hphase⟩ |
      ⟨mine, hpending, hdeciding, heq⟩ | ⟨mine, hflipped, heq⟩
    · -- the status stays and nothing is emitted
      have hsame : (call.act hook s.row s.records a.2).phase.isFlipped = call.phase.isFlipped := by
        rw [Bool.eq_iff_iff, isFlipped_iff, isFlipped_iff]
        exact exists_congr hphase
      rw [hsame] at hset
      refine ⟨?_, fun r hr => ?_, fun call' hcall' mine' hphase' => ?_⟩
      · rw [hemit, append_nil, hstatus, ← hevents]
        dsimp only
        omega
      · rw [hemit, append_nil] at hr
        rw [hstatus]
        exact h.emitted r hr
      · rw [hstatus]
        rcases mem_or_eq_of_mem_set hcall' with hold | rfl
        · exact h.flipped call' hold mine' hphase'
        · exact h.flipped call hmem mine' ((hphase mine').mp hphase')
    · -- the flip lands on a pending request, so no event is out and no flip landed before
      rw [hpending, if_pos rfl] at hevents
      have hnone : s.emitted = [] := eq_nil_of_length_eq_zero (by omega)
      have hcount : toEmit s.calls = 0 := by omega
      rw [heq, hdeciding, hcount] at hset
      rw [heq]
      refine ⟨?_, fun r hr => ?_, fun call' hcall' mine' hphase' => ?_⟩
      · rw [DecideKind.decide_status, if_neg call.kind.next_ne_pending, hnone]
        simpa [DecidePhase.isFlipped] using hset
      · rw [hnone] at hr
        cases hr
      · rw [DecideKind.decide_status]
        rcases mem_or_eq_of_mem_set hcall' with hold | rfl
        · have hf := countP_eq_zero.mp hcount call' hold
          exact absurd (isFlipped_iff.mpr ⟨mine', hphase'⟩) hf
        · cases hphase'
          exact DecideKind.decide_status _ _
    · -- the event of the flip
      rw [heq, hflipped] at hset
      rw [heq]
      refine ⟨?_, fun r hr => ?_, fun call' hcall' mine' hphase' => ?_⟩
      · rw [← hevents, length_append, length_singleton]
        simp only [DecidePhase.isFlipped, Bool.toNat_true, Bool.toNat_false] at hset ⊢
        omega
      · rcases mem_append.mp hr with hr | hr
        · exact h.emitted r hr
        · obtain rfl := mem_singleton.mp hr
          exact h.flipped call hmem r hflipped
      · rcases mem_or_eq_of_mem_set hcall' with hold | rfl
        · exact h.flipped call' hold mine' hphase'
        · cases hphase'

theorem step_status (hook : Bool) (h : s.row.status ≠ .pending) (a : Nat × CallAction) :
    (s.step hook a).row.status = s.row.status := by
  cases hcall : s.calls[a.1]? with
  | none => rw [step_none hcall]
  | some call =>
    rw [step_eq hcall]
    rcases act_cases hook s.row s.records call a.2 with ⟨hstatus, -, -⟩ | ⟨_, hpending, -, -⟩ |
      ⟨_, -, heq⟩
    · exact hstatus
    · exact absurd hpending h
    · rw [heq]

theorem run_status (hook : Bool) (h : s.row.status ≠ .pending) (actions : List (Nat × CallAction)) :
    (run (DecideState.step hook) s actions).row.status = s.row.status := by
  induction actions generalizing s with
  | nil => rfl
  | cons a actions ih =>
    have hone := step_status hook h a
    rw [run_cons, ih (by rw [hone]; exact h), hone]

/-! ## The count -/

theorem mem_setApproval_self (approvals : List CollectedApproval) (a : CollectedApproval) :
    a ∈ setApproval approvals a := by
  unfold setApproval
  split
  · next h =>
    obtain ⟨b, hb, hkey⟩ := any_eq_true.mp h
    exact mem_map.mpr ⟨b, hb, if_pos hkey⟩
  · exact mem_append_right _ (mem_singleton.mpr rfl)

theorem mem_setApproval_of_mem {approvals : List CollectedApproval} {a b : CollectedApproval}
    (hb : b ∈ approvals) (hkey : b.approverId.sameKey a.approverId = false) :
    b ∈ setApproval approvals a := by
  unfold setApproval
  split
  · exact mem_map.mpr ⟨b, hb, by simp [hkey]⟩
  · exact mem_append_left _ hb

variable {r : ApprovalRecord}

theorem sameKey_approval {r' : ApprovalRecord} (h : r.approverId ≠ r'.approverId) :
    r.approval.approverId.sameKey r'.approval.approverId = false := by
  simp [ApprovalRecord.approval, Json.sameKey, h]

def setRecords (records : List ApprovalRecord) (approvals : List CollectedApproval) :
    List CollectedApproval :=
  records.foldl (fun approvals record => setApproval approvals record.approval) approvals

variable {records : List ApprovalRecord}

theorem mem_setRecords_of_mem {approvals : List CollectedApproval} (h : r.approval ∈ approvals)
    (hnot : r.approverId ∉ records.map (·.approverId)) :
    r.approval ∈ setRecords records approvals := by
  induction records generalizing approvals with
  | nil => exact h
  | cons r' records ih =>
    rw [map_cons, mem_cons, not_or] at hnot
    exact ih (mem_setApproval_of_mem h (sameKey_approval hnot.1)) hnot.2

theorem mem_setRecords (hnodup : (records.map (·.approverId)).Nodup) (hr : r ∈ records)
    (approvals : List CollectedApproval) :
    r.approval ∈ setRecords records approvals := by
  induction records generalizing approvals with
  | nil => cases hr
  | cons r' records ih =>
    rw [map_cons, nodup_cons] at hnodup
    rcases mem_cons.mp hr with rfl | hr
    · show r.approval ∈ setRecords records (setApproval approvals r.approval)
      exact mem_setRecords_of_mem (mem_setApproval_self approvals r.approval) hnodup.1
    · exact ih hnodup.2 hr _

/-- A record is among the approvals collected unless a later one takes its place. -/
theorem mem_collect (hnodup : (records.map (·.approverId)).Nodup) (payload : Json)
    (hr : r ∈ records) : r.approval ∈ collectPolicyApprovals payload records :=
  mem_setRecords hnodup hr _

section

variable (quorum : ApprovalStep)

def recordMatches (r : ApprovalRecord) : Bool := approverMatches quorum r.approval

variable {records : List ApprovalRecord}

theorem countP_collect_le (hnodup : (records.map (·.approverId)).Nodup) (payload : Json) :
    records.countP (recordMatches quorum)
      ≤ (collectPolicyApprovals payload records).countP (approverMatches quorum) := by
  have hinj : (records.map ApprovalRecord.approval).Nodup := by
    refine List.Nodup.of_map CollectedApproval.approverId ?_
    rw [map_map]
    have hstr : (records.map (·.approverId)).map Json.str = records.map _ := map_map
    exact hstr ▸ hnodup.map fun _ _ h => Json.str.inj h
  have hsub : records.map ApprovalRecord.approval ⊆ collectPolicyApprovals payload records := by
    intro a ha
    obtain ⟨r, hr, rfl⟩ := mem_map.mp ha
    exact mem_collect hnodup payload hr
  have hle := (subperm_of_subset hinj hsub).countP_le (approverMatches quorum)
  rwa [countP_map] at hle

def Short (records : List ApprovalRecord) (caller : String) : Prop :=
  ∃ seen, seen <+: records ∧ caller ∈ seen.map (·.approverId) ∧
    seen.countP (recordMatches quorum) < quorum.minApprovals

/-- What an approve call knows at each point of its way. -/
def Counted (status : ApprovalStatus) (records : List ApprovalRecord) (caller : String) :
    DecidePhase → Prop
  | .recorded _ => caller ∈ records.map (·.approverId)
  | .collected _ approvals => ∃ seen, seen <+: records ∧ caller ∈ seen.map (·.approverId) ∧
      seen.countP (recordMatches quorum) ≤ approvals.countP (approverMatches quorum)
  | .unsatisfied _ => Short quorum records caller
  | .flipped _ => status = .approved
  | .returned _ => status = .approved ∨ Short quorum records caller
  | .started | .loaded _ | .deciding _ | .failed _ => True

variable {quorum}

variable {caller : String}

theorem Short.mono {records records' : List ApprovalRecord} (h : records <+: records')
    (hs : Short quorum records caller) : Short quorum records' caller := by
  obtain ⟨seen, hseen, hcaller, hcount⟩ := hs
  exact ⟨seen, hseen.trans h, hcaller, hcount⟩

theorem Counted.mono {status status' : ApprovalStatus} {records records' : List ApprovalRecord}
    (hrecords : records <+: records') (hstatus : status = .approved → status' = .approved)
    {phase : DecidePhase} (h : Counted quorum status records caller phase) :
    Counted quorum status' records' caller phase := by
  cases phase with
  | recorded mine => exact map_subset _ hrecords.subset h
  | collected mine approvals =>
    obtain ⟨seen, hseen, hcaller, hcount⟩ := h
    exact ⟨seen, hseen.trans hrecords, hcaller, hcount⟩
  | unsatisfied mine => exact Short.mono hrecords h
  | flipped mine => exact hstatus h
  | returned mine => exact h.imp hstatus (Short.mono hrecords)
  | _ => trivial

theorem act_records (hook : Bool) (row : ApprovalRequest) (records : List ApprovalRecord)
    (call : DecideCall) (a : CallAction) :
    (call.act hook row records a).records = records ∨
      ∃ caller roles, caller ∉ records.map (·.approverId) ∧
        (call.act hook row records a).records = records ++ [⟨caller, roles⟩] := by
  cases a with
  | record roles =>
    obtain ⟨kind, phase⟩ := call
    cases phase with
    | loaded mine =>
      cases kind with
      | approve caller decision =>
        simp only [DecideCall.act]
        split
        · exact Or.inl rfl
        split
        · exact Or.inl rfl
        · next hnew =>
          refine Or.inr ⟨caller, roles, fun hin => hnew ?_, rfl⟩
          obtain ⟨r, hr, hid⟩ := mem_map.mp hin
          exact any_eq_true.mpr ⟨r, hr, decide_eq_true hid⟩
      | _ => exact Or.inl rfl
    | _ => exact Or.inl rfl
  | load allowed =>
    obtain ⟨_, hact, -⟩ := act_reads hook row records call (.inl ⟨allowed, rfl⟩)
    exact Or.inl (by rw [hact])
  | score answer =>
    obtain ⟨_, hact, -⟩ := act_reads hook row records call (.inr (.inr ⟨answer, rfl⟩))
    exact Or.inl (by rw [hact])
  | flip =>
    obtain ⟨kind, phase⟩ := call
    cases phase with
    | deciding mine =>
      simp only [DecideCall.act]
      split
      · exact Or.inl rfl
      split <;> exact Or.inl rfl
    | _ => exact Or.inl rfl
  | _ =>
    obtain ⟨kind, phase⟩ := call
    left
    cases phase <;> rfl

theorem act_records_spec (hook : Bool) (row : ApprovalRequest) (call : DecideCall) (a : CallAction)
    (hnodup : (records.map (·.approverId)).Nodup) :
    records <+: (call.act hook row records a).records ∧
      ((call.act hook row records a).records.map (·.approverId)).Nodup := by
  rcases act_records hook row records call a with heq | ⟨caller, roles, hnew, heq⟩
  · rw [heq]
    exact ⟨prefix_rfl, hnodup⟩
  · rw [heq]
    refine ⟨prefix_append _ _, ?_⟩
    rw [map_append]
    exact hnodup.append (nodup_singleton _) (disjoint_singleton.mpr hnew)

theorem act_approved {hook : Bool} {row : ApprovalRequest} {call : DecideCall} {a : CallAction}
    (h : row.status = .approved) :
    (call.act hook row records a).row.status = .approved := by
  rcases act_cases hook row records call a with ⟨hstatus, -, -⟩ | ⟨_, hpending, -, -⟩ | ⟨_, -, heq⟩
  · rw [hstatus, h]
  · rw [hpending] at h
    cases h
  · rw [heq]
    exact h

def ScoredBy (quorum : ApprovalStep) (a : CallAction) : Prop :=
  ∀ policy, a = .score (.scored policy) → policy.steps = [quorum]

/-- **An approve call counts right**: it leaves the request pending only when what it read is short,
and returns a decided one only when that is approved. -/
theorem act_counted {hook : Bool} {row : ApprovalRequest} {decision : Decision}
    {phase : DecidePhase} {a : CallAction} (hnodup : (records.map (·.approverId)).Nodup)
    (hscored : ScoredBy quorum a) (h : Counted quorum row.status records caller phase) :
    Counted quorum ((DecideCall.mk (.approve caller decision) phase).act hook row records a).row.status
      ((DecideCall.mk (.approve caller decision) phase).act hook row records a).records caller
      ((DecideCall.mk (.approve caller decision) phase).act hook row records a).phase := by
  cases a with
  | load allowed =>
    cases phase with
    | started =>
      simp only [DecideCall.act]
      (repeat' split) <;> trivial
    | _ => exact h
  | record roles =>
    cases phase with
    | loaded mine =>
      simp only [DecideCall.act]
      split
      · trivial
      split
      · trivial
      · simp [Counted]
    | _ => exact h
  | collect =>
    cases phase with
    | recorded mine =>
      exact ⟨records, prefix_rfl, h, countP_collect_le quorum hnodup mine.payload⟩
    | _ => exact h
  | score answer =>
    cases phase with
    | collected mine approvals =>
      cases answer with
      | throws | null => trivial
      | scored policy =>
        simp only [DecideCall.act]
        split
        · trivial
        · next hnot =>
          rw [progress_single (hscored policy rfl)] at hnot
          obtain ⟨seen, hseen, hcaller, hcount⟩ := h
          exact ⟨seen, hseen, hcaller, by omega⟩
    | _ => exact h
  | update =>
    cases phase with
    | unsatisfied mine => exact Or.inr h
    | _ => exact h
  | flip =>
    cases phase with
    | deciding mine =>
      simp only [DecideCall.act]
      split
      · exact DecideKind.decide_status _ _
      · split <;> trivial
    | _ => exact h
  | emit =>
    cases phase with
    | flipped mine => exact Or.inl h
    | _ => exact h
  | fail =>
    cases phase with
    | flipped | returned | failed => exact h
    | _ => trivial

structure DecideState.Tallied (quorum : ApprovalStep) (s : DecideState) : Prop where
  nodup : (s.records.map (·.approverId)).Nodup
  counted : ∀ call ∈ s.calls, ∀ caller decision, call.kind = .approve caller decision →
    Counted quorum s.row.status s.records caller call.phase

theorem tallied_start (request : ApprovalRequest) (kinds : List DecideKind) :
    (DecideState.start request kinds).Tallied quorum := by
  refine ⟨nodup_nil, fun call hcall caller decision _ => ?_⟩
  obtain ⟨kind, -, rfl⟩ := mem_map.mp hcall
  trivial

theorem DecideState.Tallied.step {hook : Bool} {s : DecideState} (h : s.Tallied quorum)
    {a : Nat × CallAction} (hscored : ScoredBy quorum a.2) : (s.step hook a).Tallied quorum := by
  cases hcall : s.calls[a.1]? with
  | none => rwa [step_none hcall]
  | some call =>
    rw [step_eq hcall]
    obtain ⟨hgrows, hnodup⟩ := act_records_spec hook s.row call a.2 h.nodup
    refine ⟨hnodup, fun call' hcall' caller decision hkind => ?_⟩
    rcases mem_or_eq_of_mem_set hcall' with hold | rfl
    · exact (h.counted call' hold caller decision hkind).mono hgrows act_approved
    · obtain ⟨kind, phase⟩ := call
      obtain rfl : kind = .approve caller decision := hkind
      exact act_counted h.nodup hscored
        (h.counted _ (List.mem_of_getElem? hcall) caller decision rfl)

theorem Short.common {callers : List String} (h : ∀ c ∈ caller :: callers, Short quorum records c) :
    ∃ seen, seen <+: records ∧ seen.countP (recordMatches quorum) < quorum.minApprovals ∧
      ∀ c ∈ caller :: callers, c ∈ seen.map (·.approverId) := by
  induction callers with
  | nil =>
    obtain ⟨seen, hseen, hcaller, hcount⟩ := h caller mem_cons_self
    refine ⟨seen, hseen, hcount, fun c hc => ?_⟩
    rwa [mem_singleton.mp hc]
  | cons c callers ih =>
    obtain ⟨seen, hseen, hcount, hall⟩ := ih fun d hd => h d (by grind)
    obtain ⟨seen', hseen', hc, hcount'⟩ := h c (by simp)
    -- two first parts of the records: the longer one has both
    rcases prefix_or_prefix_of_prefix hseen hseen' with hle | hle
    · refine ⟨seen', hseen', hcount', fun d hd => ?_⟩
      by_cases hdc : d = c
      · rwa [hdc]
      · exact map_subset _ hle.subset (hall d (by grind))
    · refine ⟨seen, hseen, hcount, fun d hd => ?_⟩
      by_cases hdc : d = c
      · rw [hdc]
        exact map_subset _ hle.subset hc
      · exact hall d (by grind)

theorem not_short_of_quorum {approvers : List String} (hnodup : approvers.Nodup)
    (hmin : quorum.minApprovals ≤ approvers.length)
    (hmatch : ∀ r ∈ records, r.approverId ∈ approvers → recordMatches quorum r = true) :
    ¬∀ c ∈ approvers, Short quorum records c := by
  intro hshort
  cases approvers with
  | nil =>
    have hneeded := quorum.needed
    rw [length_nil] at hmin
    omega
  | cons caller callers =>
    obtain ⟨seen, hseen, hcount, hall⟩ := Short.common hshort
    have hsub : caller :: callers ⊆
        (seen.filter (recordMatches quorum)).map (·.approverId) := by
      intro c hc
      obtain ⟨r, hr, hid⟩ := mem_map.mp (hall c hc)
      refine mem_map.mpr ⟨r, mem_filter.mpr ⟨hr, ?_⟩, hid⟩
      exact hmatch r (hseen.subset hr) (hid ▸ hc)
    have hle := (subperm_of_subset hnodup hsub).length_le
    rw [length_map, ← countP_eq_length_filter] at hle
    omega

end

def DecideState.Approved (s : DecideState) (caller : String) : Prop :=
  ∃ call ∈ s.calls, ∃ decision mine, call = ⟨.approve caller decision, .returned mine⟩

/-- **A request is decided once and no approver is lost.** One event is emitted for a request that
left pending, and as many approvers as the quorum needs, each back without an error, have it
approved. -/
theorem decided_once_none_lost (hook : Bool) (request : ApprovalRequest) (kinds : List DecideKind)
    (actions : List (Nat × CallAction)) :
    let s := run (DecideState.step hook) (DecideState.start request kinds) actions
    (∀ pre post, actions = pre ++ post →
      (run (DecideState.step hook) (DecideState.start request kinds) pre).row.status ≠ .pending →
      s.row.status =
        (run (DecideState.step hook) (DecideState.start request kinds) pre).row.status) ∧
    (s.emitted.length + toEmit s.calls = (if s.row.status = .pending then 0 else 1) ∧
      ∀ r ∈ s.emitted, r.status = s.row.status) ∧
    (∀ quorum : ApprovalStep, (∀ a ∈ actions, ScoredBy quorum a.2) →
      ∀ approvers : List String, approvers.Nodup → quorum.minApprovals ≤ approvers.length →
      (∀ caller ∈ approvers, s.Approved caller) →
      (∀ r ∈ s.records, r.approverId ∈ approvers → recordMatches quorum r = true) →
      s.row.status = .approved) := by
  intro s
  refine ⟨fun pre post hactions hdecided => ?_, ?_, fun quorum hscored approvers hnodup hmin hback
    hmatch => ?_⟩
  · have hs : s = run (DecideState.step hook)
        (run (DecideState.step hook) (DecideState.start request kinds) pre) post := by
      rw [← run_append, ← hactions]
    rw [hs]
    exact run_status hook hdecided post
  · have honce : s.DecidedOnce := run_invariant DecideState.DecidedOnce (P := fun _ _ => True)
      (fun _ a hs _ => hs.step a) (decidedOnce_start request kinds)
      (along_iff.mpr fun _ _ _ _ => trivial)
    exact ⟨honce.events, honce.emitted⟩
  · have htally : s.Tallied quorum := by
      refine run_invariant (DecideState.Tallied quorum) (P := fun _ a => ScoredBy quorum a.2)
        (fun _ a hs ha => hs.step ha) (tallied_start request kinds) (along_iff.mpr ?_)
      intro pre a post hactions
      exact hscored a (by rw [hactions]; simp)
    refine Classical.byContradiction fun hnot => not_short_of_quorum hnodup hmin hmatch ?_
    intro caller hcaller
    obtain ⟨call, hcall, decision, mine, rfl⟩ := hback caller hcaller
    exact (htally.counted _ hcall caller decision rfl).resolve_left hnot

def twoApprovers : ApprovalStep := ⟨"Approval", "*", 2, by decide⟩

def twoApproversPolicy : PolicySteps := ⟨"policy-1", "Two approvers", [twoApprovers]⟩

def governedRequest : ApprovalRequest :=
  { id := "approval-1", payload := .obj [("_policy", .obj [("policyId", .str "policy-1")])] }

/-- The first of two approvers leaves the request pending, the second decides it. -/
def twoApprovals : List (Nat × CallAction) :=
  [(0, .load true), (1, .load true), (0, .record ["admin"]), (0, .collect), (1, .record ["member"]),
    (0, .score (.scored twoApproversPolicy)), (1, .collect), (0, .update),
    (1, .score (.scored twoApproversPolicy)), (1, .flip), (1, .emit)]

theorem quorum_of_two_approved :
    (run (DecideState.step true)
      (DecideState.start governedRequest [.approve "ann" {}, .approve "ben" {}])
      twoApprovals).row.status = .approved := by
  refine (decided_once_none_lost true governedRequest [.approve "ann" {}, .approve "ben" {}]
    twoApprovals).2.2 twoApprovers ?_ ["ann", "ben"] (by decide) (by decide) ?_ ?_
  · intro a ha policy hpolicy
    simp only [twoApprovals, mem_cons, not_mem_nil, or_false] at ha
    rcases ha with rfl | rfl | rfl | rfl | rfl | rfl | rfl | rfl | rfl | rfl | rfl <;>
      first | (cases hpolicy; rfl) | cases hpolicy
  · intro caller hcaller
    rcases mem_cons.mp hcaller with rfl | hcaller
    · exact ⟨_, mem_cons_self, {}, _, rfl⟩
    · obtain rfl := mem_singleton.mp hcaller
      exact ⟨_, mem_cons_of_mem _ mem_cons_self, {}, _, rfl⟩
  · intro r _ _
    rfl

end Almyty.Approvals
