import Almyty.Approvals.Decisions

/-!
# Approving again after a failure

An approve call that a scorer or a write failed is to be made again: the error says that the request
is still pending and to try again. The caller's record is inserted before the scoring and before the
flip, and a second insert is refused by its unique index. So the next call of the same approver is
told that they already approved, and the request stays where the failure left it.

`retry_works_iff` says after which failures the second call is what the first would have been,
whatever others do in between.
-/

namespace Almyty.Approvals

open Almyty.Lib Almyty.Lib.Steps

/-- Where a call's failure meets it. -/
inductive FailPoint
  /-- Reading the request or the caller's access. -/
  | loading
  /-- The insert of the record, or what comes before it. -/
  | recording
  | collecting
  /-- The scorer throws. -/
  | scoring
  /-- The write of the progress, or the flip. -/
  | writing

def FailPoint.beforeRecord : FailPoint → Bool
  | .loading | .recording => true
  | .collecting | .scoring | .writing => false

def FailPoint.actions (roles : List String) (answer : ScoreAnswer) : FailPoint → List CallAction
  | .loading => [.fail]
  | .recording => [.load true, .fail]
  | .collecting => [.load true, .record roles, .fail]
  | .scoring => [.load true, .record roles, .collect, .score .throws]
  | .writing => [.load true, .record roles, .collect, .score answer, .fail]

def approveActions (roles : List String) (answer : ScoreAnswer) : List CallAction :=
  [.load true, .record roles, .collect, .score answer, .update, .flip, .emit]

def DecideState.approving (hook : Bool) (s : DecideState) (caller : String) (decision : Decision)
    (actions : List CallAction) : DecideState :=
  run (DecideState.step hook) { s with calls := s.calls ++ [⟨.approve caller decision, .started⟩] }
    (actions.map fun a => (s.calls.length, a))

/-- How a call ended for its caller, and the request it left. -/
structure Outcome where
  phase : Option DecidePhase
  row : ApprovalRequest

def DecideState.lastOutcome (s : DecideState) : Outcome :=
  ⟨(s.calls.getLast?).map (·.phase), s.row⟩

def DecideError.transient : DecideError → Bool
  | .policyUnavailable | .broke => true
  | .notAllowed | .already _ | .alreadyApproved => false

def DecideState.LastFailed (s : DecideState) : Prop :=
  ∃ call error, s.calls.getLast? = some call ∧ call.phase = .failed error ∧ error.transient = true

/-! ## One call by itself -/

structure Alone where
  row : ApprovalRequest
  records : List ApprovalRecord
  call : DecideCall
  emitted : List ApprovalRequest

def Alone.step (hook : Bool) (s : Alone) (a : CallAction) : Alone :=
  let e := s.call.act hook s.row s.records a
  { row := e.row, records := e.records, call := { s.call with phase := e.phase },
    emitted := s.emitted ++ e.emitted }

theorem run_last (hook : Bool) (s : Alone) (calls : List DecideCall) (actions : List CallAction) :
    run (DecideState.step hook) ⟨s.row, s.records, calls ++ [s.call], s.emitted⟩
      (actions.map fun a => (calls.length, a))
    = ⟨(run (Alone.step hook) s actions).row, (run (Alone.step hook) s actions).records,
        calls ++ [(run (Alone.step hook) s actions).call],
        (run (Alone.step hook) s actions).emitted⟩ := by
  induction actions generalizing s with
  | nil => rfl
  | cons a actions ih =>
    rw [List.map_cons, run_cons, run_cons, ← ih]
    congr 1
    have hlast : (calls ++ [s.call])[calls.length]? = some s.call := by simp
    rw [step_eq hlast]
    simp [Alone.step]

theorem run_others (hook : Bool) (s : DecideState) (call : DecideCall)
    (others : List (Nat × CallAction)) (h : ∀ a ∈ others, a.1 < s.calls.length) :
    run (DecideState.step hook) { s with calls := s.calls ++ [call] } others
    = { run (DecideState.step hook) s others with
        calls := (run (DecideState.step hook) s others).calls ++ [call] } := by
  induction others generalizing s with
  | nil => rfl
  | cons a others ih =>
    have hlt : a.1 < s.calls.length := h a List.mem_cons_self
    obtain ⟨c, hc⟩ : ∃ c, s.calls[a.1]? = some c := ⟨_, List.getElem?_eq_getElem hlt⟩
    have hc' : (s.calls ++ [call])[a.1]? = some c := by rwa [List.getElem?_append_left hlt]
    have hstep : DecideState.step hook { s with calls := s.calls ++ [call] } a
        = { s.step hook a with calls := (s.step hook a).calls ++ [call] } := by
      rw [step_eq hc', step_eq hc]
      simp [List.set_append_left _ _ hlt]
    have hlen : (s.step hook a).calls.length = s.calls.length := by
      rw [step_eq hc, List.length_set]
    rw [run_cons, run_cons, hstep]
    refine ih _ fun b hb => ?_
    rw [hlen]
    exact h b (List.mem_cons_of_mem _ hb)

/-- The approve call and what it sees at its start. -/
def DecideState.alone (s : DecideState) (caller : String) (decision : Decision) : Alone :=
  ⟨s.row, s.records, ⟨.approve caller decision, .started⟩, s.emitted⟩

theorem approving_eq (hook : Bool) (s : DecideState) (caller : String) (decision : Decision)
    (actions : List CallAction) :
    s.approving hook caller decision actions
    = ⟨(run (Alone.step hook) (s.alone caller decision) actions).row,
        (run (Alone.step hook) (s.alone caller decision) actions).records,
        s.calls ++ [(run (Alone.step hook) (s.alone caller decision) actions).call],
        (run (Alone.step hook) (s.alone caller decision) actions).emitted⟩ :=
  run_last hook (s.alone caller decision) s.calls actions

theorem lastOutcome_approving (hook : Bool) (s : DecideState) (caller : String)
    (decision : Decision) (actions : List CallAction) :
    (s.approving hook caller decision actions).lastOutcome
    = ⟨some (run (Alone.step hook) (s.alone caller decision) actions).call.phase,
        (run (Alone.step hook) (s.alone caller decision) actions).row⟩ := by
  rw [approving_eq]
  simp [DecideState.lastOutcome]

section

variable {hook : Bool} {s : DecideState} {caller : String} {decision : Decision}

theorem alone_load (actions : List CallAction) :
    run (Alone.step hook) (s.alone caller decision) (.load true :: actions) =
      run (Alone.step hook)
        { s.alone caller decision with
          call := ⟨.approve caller decision,
            if s.row.status = .pending then .loaded s.row else .failed (.already s.row.status)⟩ }
        actions := by
  rw [run_cons]
  by_cases hp : s.row.status = .pending <;>
    simp [Alone.step, DecideState.alone, DecideCall.act, DecideKind.next, hp]

theorem run_failed (row : ApprovalRequest) (records : List ApprovalRecord) (kind : DecideKind)
    (error : DecideError) (emitted : List ApprovalRequest) (actions : List CallAction) :
    run (Alone.step hook) ⟨row, records, ⟨kind, .failed error⟩, emitted⟩ actions
      = ⟨row, records, ⟨kind, .failed error⟩, emitted⟩ := by
  induction actions with
  | nil => rfl
  | cons a actions ih =>
    have hstep : Alone.step hook ⟨row, records, ⟨kind, .failed error⟩, emitted⟩ a
        = ⟨row, records, ⟨kind, .failed error⟩, emitted⟩ := by
      cases a <;> simp [Alone.step, DecideCall.act]
    rw [run_cons, hstep, ih]

theorem alone_record (hp : s.row.status = .pending) (hg : governed hook s.row = true)
    (roles : List String) (actions : List CallAction) :
    run (Alone.step hook) (s.alone caller decision) (.load true :: .record roles :: actions) =
      if caller ∈ s.records.map (·.approverId) then
        { s.alone caller decision with
          call := ⟨.approve caller decision, .failed .alreadyApproved⟩ }
      else
        run (Alone.step hook)
          { s.alone caller decision with
            records := s.records ++ [⟨caller, roles⟩]
            call := ⟨.approve caller decision, .recorded s.row⟩ }
          actions := by
  rw [alone_load, if_pos hp, run_cons]
  have hany : (s.records.any fun r => decide (r.approverId = caller)) = true
      ↔ caller ∈ s.records.map (·.approverId) := by
    simp [List.any_eq_true, List.mem_map]
  by_cases hin : caller ∈ s.records.map (·.approverId)
  · rw [if_pos hin]
    have hstep : Alone.step hook { s.alone caller decision with
        call := ⟨.approve caller decision, .loaded s.row⟩ } (.record roles)
        = ⟨s.row, s.records, ⟨.approve caller decision, .failed .alreadyApproved⟩, s.emitted⟩ := by
      simp [Alone.step, DecideState.alone, DecideCall.act, hg, hany.mpr hin]
    rw [hstep, run_failed]
    rfl
  · rw [if_neg hin]
    have hfresh : (s.records.any fun r => decide (r.approverId = caller)) = false := by
      rw [Bool.eq_false_iff]
      exact fun h => hin (hany.mp h)
    congr 1
    simp [Alone.step, DecideState.alone, DecideCall.act, hg, hfresh]

def Alone.Leaves (r : Alone) (row : ApprovalRequest) (records : List ApprovalRecord)
    (emitted : List ApprovalRequest) : Prop :=
  r.row = row ∧ r.records = records ∧ r.emitted = emitted

theorem failed_traceless (roles : List String) (answer : ScoreAnswer) {p : FailPoint}
    (h : p.beforeRecord = true ∨ governed hook s.row = false) :
    (run (Alone.step hook) (s.alone caller decision) (p.actions roles answer)).Leaves
      s.row s.records s.emitted := by
  cases p with
  | loading => exact ⟨rfl, rfl, List.append_nil _⟩
  | recording =>
    rw [FailPoint.actions, alone_load]
    split <;> exact ⟨rfl, rfl, List.append_nil _⟩
  | _ =>
    have hg : governed hook s.row = false := h.resolve_left Bool.false_ne_true
    rw [FailPoint.actions, alone_load]
    split
    · -- without a policy the call goes straight on to its flip
      simp [Alone.Leaves, run_cons, Alone.step, DecideState.alone, DecideCall.act, hg]
    · rw [DecideState.alone, run_failed]
      exact ⟨rfl, rfl, rfl⟩

theorem failed_from_record (roles : List String) (answer : ScoreAnswer) {p : FailPoint}
    (hp : p.beforeRecord = false) :
    ∃ rest, p.actions roles answer = .load true :: .record roles :: rest ∧
      ∀ records, (run (Alone.step hook)
        { s.alone caller decision with
          records, call := ⟨.approve caller decision, .recorded s.row⟩ } rest).Leaves
        s.row records s.emitted := by
  cases p with
  | loading | recording => cases hp
  | writing =>
    refine ⟨_, rfl, fun records => ?_⟩
    cases answer with
    | scored policy =>
      cases hsat : (progress policy (collectPolicyApprovals s.row.payload records)).satisfied <;>
        simp [Alone.Leaves, run_cons, Alone.step, DecideState.alone, DecideCall.act, hsat]
    | _ => simp [Alone.Leaves, run_cons, Alone.step, DecideState.alone, DecideCall.act]
  | _ =>
    refine ⟨_, rfl, fun records => ?_⟩
    simp [Alone.Leaves, run_cons, Alone.step, DecideState.alone, DecideCall.act]

theorem failed_recorded (roles : List String) (answer : ScoreAnswer) {p : FailPoint}
    (hp : p.beforeRecord = false) (hg : governed hook s.row = true)
    (h : (s.approving hook caller decision (p.actions roles answer)).LastFailed) :
    s.row.status = .pending ∧ caller ∉ s.records.map (·.approverId) ∧
      (run (Alone.step hook) (s.alone caller decision) (p.actions roles answer)).Leaves
        s.row (s.records ++ [⟨caller, roles⟩]) s.emitted := by
  obtain ⟨call, error, hlast, hphase, htransient⟩ := h
  obtain ⟨rest, hactions, hleaves⟩ := @failed_from_record hook s caller decision roles answer p hp
  rw [approving_eq, List.getLast?_concat, Option.some.injEq] at hlast
  rw [← hlast] at hphase
  rw [hactions] at hphase ⊢
  by_cases hpending : s.row.status = .pending
  · rw [alone_record hpending hg] at hphase ⊢
    by_cases hin : caller ∈ s.records.map (·.approverId)
    · rw [if_pos hin] at hphase
      cases hphase
      cases htransient
    · rw [if_neg hin]
      exact ⟨hpending, hin, hleaves _⟩
  · rw [alone_load, if_neg hpending, DecideState.alone, run_failed] at hphase
    cases hphase
    cases htransient

/-- An approve call on a pending request, by somebody without a record there, is back without an
error. -/
theorem approve_first (hp : s.row.status = .pending) (hg : governed hook s.row = true)
    (hnew : caller ∉ s.records.map (·.approverId)) (roles : List String) {answer : ScoreAnswer}
    (hanswer : answer ≠ .throws) :
    ∃ mine, (run (Alone.step hook) (s.alone caller decision)
      (approveActions roles answer)).call.phase = .returned mine := by
  rw [approveActions, alone_record hp hg, if_neg hnew]
  cases answer with
  | throws => exact absurd rfl hanswer
  | null => simp [run_cons, Alone.step, DecideState.alone, DecideCall.act, hp]
  | scored policy =>
    cases hsat : (progress policy (collectPolicyApprovals s.row.payload
        (s.records ++ [⟨caller, roles⟩]))).satisfied <;>
      simp [run_cons, Alone.step, DecideState.alone, DecideCall.act, hp, hsat]

theorem approve_again (hp : s.row.status = .pending) (hg : governed hook s.row = true)
    (hin : caller ∈ s.records.map (·.approverId)) (roles : List String) (answer : ScoreAnswer) :
    (run (Alone.step hook) (s.alone caller decision)
      (approveActions roles answer)).call.phase = .failed .alreadyApproved := by
  rw [approveActions, alone_record hp hg, if_pos hin]

end

/-- The approver's next call, made after any actions of the others, is what their first
would have been had the failed one not been made. -/
def RetryWorks (hook : Bool) (s : DecideState) (caller : String) (failed : DecideState) : Prop :=
  ∀ others : List (Nat × CallAction), (∀ a ∈ others, a.1 < s.calls.length) →
    ∀ (decision : Decision) (roles : List String) (answer : ScoreAnswer), answer ≠ .throws →
    ((run (DecideState.step hook) failed others).approving hook caller decision
      (approveActions roles answer)).lastOutcome
    = ((run (DecideState.step hook) s others).approving hook caller decision
      (approveActions roles answer)).lastOutcome

/-- **When a failed approve can be made again**: when it failed before the approver's record was in,
or the request is under no policy. -/
theorem retry_works_iff (hook : Bool) (s : DecideState) (caller : String) (decision : Decision)
    (roles : List String) (answer : ScoreAnswer) (p : FailPoint)
    (h : (s.approving hook caller decision (p.actions roles answer)).LastFailed) :
    RetryWorks hook s caller (s.approving hook caller decision (p.actions roles answer)) ↔
      p.beforeRecord = true ∨ governed hook s.row = false := by
  constructor
  · intro hworks
    refine Classical.byContradiction fun hnot => ?_
    rw [not_or, Bool.not_eq_true, Bool.not_eq_false] at hnot
    obtain ⟨hpending, hnew, hrow, hrecords, -⟩ := failed_recorded roles answer hnot.1 hnot.2 h
    -- straight after the failure: the record is there, so the call is refused
    have hsame := hworks [] nofun {} [] .null nofun
    rw [run_nil, run_nil, lastOutcome_approving, lastOutcome_approving, approving_eq] at hsame
    have hphase := Option.some.inj (congrArg Outcome.phase hsame)
    obtain ⟨mine, hfirst⟩ := @approve_first hook s caller {} hpending hnot.2 hnew [] .null nofun
    rw [hfirst, approve_again] at hphase
    · cases hphase
    · rw [hrow]
      exact hpending
    · rw [hrow]
      exact hnot.2
    · rw [hrecords]
      simp
  · intro hcond others hothers decision' roles' answer' _
    obtain ⟨hrow, hrecords, hemitted⟩ := @failed_traceless hook s caller decision roles answer p hcond
    have hfailed : s.approving hook caller decision (p.actions roles answer)
        = { s with calls := s.calls ++ [(run (Alone.step hook) (s.alone caller decision)
            (p.actions roles answer)).call] } := by
      rw [approving_eq, hrow, hrecords, hemitted]
    rw [hfailed, run_others hook s _ others hothers, lastOutcome_approving, lastOutcome_approving]
    rfl

def onceApproved : DecideState :=
  { row := governedRequest, records := [⟨"ann", ["admin"]⟩], calls := [], emitted := [] }

/-- Reading the request failed the second approver: the next call is as good as new. -/
theorem retry_works_loading :
    (onceApproved.approving true "ben" {} (FailPoint.loading.actions ["admin"] .null)).LastFailed ∧
      RetryWorks true onceApproved "ben"
        (onceApproved.approving true "ben" {} (FailPoint.loading.actions ["admin"] .null)) := by
  have hfailed : (onceApproved.approving true "ben" {}
      (FailPoint.loading.actions ["admin"] .null)).LastFailed := ⟨_, .broke, rfl, rfl, rfl⟩
  exact ⟨hfailed, (retry_works_iff true onceApproved "ben" {} ["admin"] .null .loading hfailed).mpr
    (Or.inl rfl)⟩

/-- The scorer threw for the approver who completes the quorum: the next call is refused, and the
request stays pending. -/
theorem retry_refused_scoring :
    let failed := onceApproved.approving true "ben" {} (FailPoint.scoring.actions ["admin"] .null)
    failed.LastFailed ∧ ¬RetryWorks true onceApproved "ben" failed := by
  intro failed
  have hfailed : failed.calls.getLast?
      = some ⟨.approve "ben" {}, .failed .policyUnavailable⟩ := rfl
  refine ⟨⟨_, .policyUnavailable, hfailed, rfl, rfl⟩, fun hworks => ?_⟩
  have hretry : (failed.approving true "ben" {} (approveActions ["admin"]
      (.scored twoApproversPolicy))).lastOutcome.row.status = .pending := by decide +kernel
  have hfirst : (onceApproved.approving true "ben" {} (approveActions ["admin"]
      (.scored twoApproversPolicy))).lastOutcome.row.status = .approved := by decide +kernel
  have hsame := hworks [] nofun {} ["admin"] (.scored twoApproversPolicy) nofun
  rw [run_nil, run_nil] at hsame
  rw [hsame, hfirst] at hretry
  cases hretry

end Almyty.Approvals
