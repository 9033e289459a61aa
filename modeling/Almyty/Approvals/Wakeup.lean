import Almyty.Approvals.RunStatus

/-!
# Waiting for a decision: the step, the request and the listener

A step that holds a call raises a request: `create` inserts its row and, in a second transaction,
sets the run to WAITING_APPROVAL. The step goes on and commits later, with WAITING_APPROVAL in its
own copy. Once a person decides, `handleApprovalDecided` reads the run and moves it on if it is
waiting at that moment; a decision it hears at any other moment leaves nothing behind. So a decision
heard before the step's commit is lost: the commit puts the run back to sleep, and nobody is left to
wake it.

An action is one transaction or read of one party. `no_lost_wakeup` says in which runs a waiting run
always has somebody to wake it.

Mirroring notes:
- Any number of steps may be in progress, each with its token: a worker that lost its lease goes on
  until its commit is refused.
-/

namespace Almyty.Approvals

open Almyty.Lib Almyty.Lib.Steps Almyty.Runs Option

/-! ## The system -/

inductive HandlerPhase
  | unheard
  /-- It read WAITING_APPROVAL and has not written yet. -/
  | heard
  | handled
  deriving DecidableEq

structure Gate where
  request : ApprovalRequest
  phase : HandlerPhase := .unheard

structure StepFlight where
  token : String
  expectedStep : Int
  status : AgentRunStatus
  /-- The requests it holds a call or a change set for. -/
  waits : List String := []
  /-- The requests it has inserted and not yet paused the run for. -/
  creating : List String := []

structure GatedRun where
  store : RunStore
  gates : List Gate
  steps : List StepFlight

structure OtherWrite where
  write : RunWrite
  notWaiting : ∀ row asked, write.change row = some asked → asked.status ≠ some .waitingApproval

inductive GatedAction
  /-- The worker that claimed the run loads it. -/
  | load (token : String)
  /-- `create` of a new request, up to its row. -/
  | insert (token id : String) (toolCallId : Option String) (payload : Json)
  /-- The rest of `create`: the run pauses. -/
  | pause (token id : String) (now : Time)
  /-- `create` for a tool call that has a row already: the row is returned. -/
  | reuse (token id : String)
  /-- The step asks whether a call or a change set it holds is decided. -/
  | recheck (token id : String) (accepted : Bool)
  | commit (token : String) (run : AgentRun) (steps : JsonValue) (notes : List RunNote) (now : Time)
  /-- The worker is gone. -/
  | crash (token : String)
  /-- `decide` or the expiry sweep moves the request off pending. -/
  | decide (id : String) (next : ApprovalStatus) (decidedBy decisionReason : Option String)
  /-- The listener reads the run. -/
  | hear (id : String)
  /-- The listener writes the run. -/
  | settle (id : String) (now : Time)
  | other (w : OtherWrite)

def StepFlight.pausing (step : StepFlight) : Bool :=
  step.status = .waitingApproval || !step.waits.isEmpty || !step.creating.isEmpty

/-- What `runApprovedCalls` keeps on waiting for: a change set that is not decided, a
held call that is not approved, and what it cannot run. -/
def staysHeld (request : ApprovalRequest) (accepted : Bool) : Bool :=
  if isChangeSet request.payload then request.status = .pending || !accepted
  else request.status ≠ .approved || !accepted

def GatedRun.gate (s : GatedRun) (id : String) : Option Gate :=
  s.gates.find? fun g => g.request.id = id

def GatedRun.flight (s : GatedRun) (token : String) : Option StepFlight :=
  s.steps.find? fun st => st.token = token

def setGate (gates : List Gate) (id : String) (f : Gate → Gate) : List Gate :=
  gates.map fun g => if g.request.id = id then f g else g

def setFlight (steps : List StepFlight) (token : String) (f : StepFlight → StepFlight) :
    List StepFlight :=
  steps.map fun st => if st.token = token then f st else st

def StepFlight.holding (id : String) (step : StepFlight) : StepFlight :=
  { step with waits := step.waits ++ [id] }

def StepFlight.raising (id : String) (step : StepFlight) : StepFlight :=
  { step with creating := step.creating ++ [id] }

def StepFlight.raised (id : String) (step : StepFlight) : StepFlight :=
  { step with waits := step.waits ++ [id], creating := step.creating.filter (· ≠ id) }

def Gate.decided (next : ApprovalStatus) (decidedBy decisionReason : Option String) (g : Gate) :
    Gate :=
  { g with request := { g.request with status := next, decidedBy, decisionReason } }

def GatedRun.taken (s : GatedRun) (id : String) (toolCallId : Option String) : Bool :=
  s.gates.any fun g => g.request.id = id
    || (toolCallId.isSome && g.request.toolCallId = toolCallId)

def GatedRun.step (s : GatedRun) : GatedAction → GatedRun
  | .load token =>
    if isTerminal s.store.row.status then s
    else
      let run := s.store.row
      { s with
        steps := s.steps ++
          [{ token, expectedStep := run.currentStep
             status := if run.status = .sleeping then .running else run.status }] }
  | .insert token id toolCallId payload =>
    if (s.flight token).isNone || s.taken id toolCallId then s
    else
      { s with
        gates := s.gates ++ [{ request := { id, toolCallId, payload } }]
        steps := setFlight s.steps token (.raising id) }
  | .pause token id now =>
    match s.flight token, s.gate id with
    | some st, some g =>
      if id ∈ st.creating then
        { s with
          store := s.store.write (createWrite g.request now)
          steps := setFlight s.steps token (.raised id) }
      else s
    | _, _ => s
  | .reuse token id =>
    if (s.gate id).isSome then { s with steps := setFlight s.steps token (.holding id) } else s
  | .recheck token id accepted =>
    match s.gate id with
    | some g =>
      if staysHeld g.request accepted then
        { s with steps := setFlight s.steps token (.holding id) }
      else s
    | none => s
  | .commit token run steps notes now =>
    match s.flight token with
    | some st =>
      -- WAITING_APPROVAL is what the copy had or what a held call makes it
      if st.creating.isEmpty && (run.status ≠ .waitingApproval || st.pausing) then
        { s with
          store := s.store.write (commitStepWrite token run steps st.expectedStep notes now)
          steps := s.steps.filter (·.token ≠ token) }
      else s
    | none => s
  | .crash token => { s with steps := s.steps.filter (·.token ≠ token) }
  | .decide id next decidedBy decisionReason =>
    match s.gate id with
    | some g =>
      if g.request.status = .pending ∧ next ≠ .pending then
        { s with gates := setGate s.gates id (.decided next decidedBy decisionReason) }
      else s
    | none => s
  | .hear id =>
    match s.gate id with
    | some g =>
      if g.request.status ≠ .pending ∧ g.phase = .unheard then
        if s.store.row.status ≠ .waitingApproval then
          { s with gates := setGate s.gates id fun g => { g with phase := .handled } }
        else { s with gates := setGate s.gates id fun g => { g with phase := .heard } }
      else s
    | none => s
  | .settle id now =>
    match s.gate id with
    | some g =>
      if g.phase = .heard then
        { s with
          store := s.store.write (decidedWrite g.request now)
          gates := setGate s.gates id fun g => { g with phase := .handled } }
      else s
    | none => s
  | .other w => { s with store := s.store.write w.write }

/-- Nobody works on the run, every request is decided and heard, and it waits. -/
def GatedRun.Asleep (s : GatedRun) : Prop :=
  s.steps = [] ∧ (∀ g ∈ s.gates, g.request.status ≠ .pending ∧ g.phase = .handled) ∧
    s.store.row.status = .waitingApproval

/-! ## The condition -/

/-- Some step in progress is going to leave the run waiting. -/
def GatedRun.Pausing (s : GatedRun) : Prop := ∃ st ∈ s.steps, st.pausing = true

/-- A request whose decision is still to be handled. -/
def GatedRun.Outstanding (s : GatedRun) : Prop := ∃ g ∈ s.gates, g.phase ≠ .handled

def GatedRun.OutstandingBut (s : GatedRun) (id : String) : Prop :=
  ∃ g ∈ s.gates, g.request.id ≠ id ∧ g.phase ≠ .handled

/-- The last outstanding decision is not handled while a step is going to leave the
run waiting, and no step takes up a wait when every decision was handled before. -/
def Timely (s : GatedRun) : GatedAction → Prop
  | .hear id => s.store.row.status ≠ .waitingApproval → s.Pausing → s.OutstandingBut id
  | .settle id _ => s.Pausing → s.OutstandingBut id
  | .reuse _ _ => s.Outstanding
  | .recheck _ id accepted => ∀ g ∈ s.gate id, staysHeld g.request accepted = true → s.Outstanding
  | _ => True

/-! ## Waiting runs have somebody to wake them -/

structure GatedRun.Awake (s : GatedRun) : Prop where
  seqs : s.store.SeqsExact
  outstanding : s.store.row.status = .waitingApproval ∨ s.Pausing → s.Outstanding

theorem outstanding_setGate {s : GatedRun} (h : s.Outstanding) (id : String) {f : Gate → Gate}
    (hf : ∀ g, g.phase ≠ .handled → (f g).phase ≠ .handled) :
    ∃ g ∈ setGate s.gates id f, g.phase ≠ .handled := by
  obtain ⟨g, hg, hphase⟩ := h
  refine ⟨_, List.mem_map_of_mem hg, ?_⟩
  split
  · exact hf g hphase
  · exact hphase

theorem outstandingBut_setGate {s : GatedRun} {id : String} (h : s.OutstandingBut id)
    (f : Gate → Gate) : ∃ g ∈ setGate s.gates id f, g.phase ≠ .handled := by
  obtain ⟨g, hg, hid, hphase⟩ := h
  refine ⟨_, List.mem_map_of_mem hg, ?_⟩
  rw [if_neg hid]
  exact hphase

theorem waiting_of_write {store : RunStore} {w : RunWrite}
    (hw : ∀ row asked, w.change row = some asked → asked.status ≠ some .waitingApproval)
    (h : (store.write w).row.status = .waitingApproval) : store.row.status = .waitingApproval := by
  by_cases hc : store.Commits w
  · obtain ⟨asked, -, ha, hstatus, -⟩ := commits_state hc
    rw [hstatus] at h
    cases hs : asked.status with
    | none => rwa [hs] at h
    | some status =>
      rw [hs, getD_some] at h
      exact absurd (by rw [hs, h]) (hw _ _ ha)
  · rwa [write_eq_self hc] at h

theorem decidedWrite_not_waiting {store : RunStore} (h : store.SeqsExact)
    (approval : ApprovalRequest) (now : Time) :
    (store.write (decidedWrite approval now)).row.status ≠ .waitingApproval := by
  have hnot : ∀ row asked, (decidedWrite approval now).change row = some asked →
      asked.status ≠ some .waitingApproval := by
    intro row asked ha
    simp only [decidedWrite] at ha
    split at ha <;> cases ha <;> nofun
  intro hwaiting
  -- the guard holds of a run that waits, so the write lands and moves it
  have hbefore := waiting_of_write hnot hwaiting
  obtain ⟨asked, ha⟩ : ∃ asked, (decidedWrite approval now).change store.row = some asked := by
    simp only [decidedWrite]
    split <;> exact ⟨_, rfl⟩
  have hasked : (decidedWrite approval now).asked store.row = some asked := by
    rw [RunWrite.asked, if_pos (by simp [decidedWrite, hbefore]), ha]
  have hlease : (decidedWrite approval now).isLease asked = false := by
    simp [RunWrite.isLease, decidedWrite]
  obtain ⟨asked', -, ha', hstatus, -⟩ := commits_state (commits_of_seqsExact h hasked hlease rfl)
  rw [hstatus] at hwaiting
  have hset : asked'.status.isSome = true := by
    simp only [decidedWrite] at ha'
    split at ha' <;> cases ha' <;> rfl
  obtain ⟨status, hs⟩ := isSome_iff_exists.mp hset
  rw [hs, getD_some] at hwaiting
  exact hnot _ _ ha' (by rw [hs, hwaiting])

theorem pausing_of_creating {st : StepFlight} {id : String} (h : id ∈ st.creating) :
    st.pausing = true := by
  have hne : st.creating ≠ [] := List.ne_nil_of_mem h
  simp [StepFlight.pausing, hne]

section

variable {s : GatedRun}

theorem GatedRun.Awake.load (h : s.Awake) (token : String) : (s.step (.load token)).Awake := by
  rw [GatedRun.step]
  split
  · exact h
  refine ⟨h.seqs, fun hw => h.outstanding ?_⟩
  rcases hw with hw | ⟨st, hst, hp⟩
  · exact Or.inl hw
  rcases List.mem_append.mp hst with hst | hst
  · exact Or.inr ⟨st, hst, hp⟩
  · -- the new copy is going to wait only if the run it loaded does
    obtain rfl := List.mem_singleton.mp hst
    left
    simp only [StepFlight.pausing, List.isEmpty_nil, Bool.not_true, Bool.or_false,
      decide_eq_true_eq] at hp
    split at hp
    · cases hp
    · exact hp

theorem GatedRun.Awake.insert (h : s.Awake) (token id : String) (toolCallId : Option String)
    (payload : Json) : (s.step (.insert token id toolCallId payload)).Awake := by
  rw [GatedRun.step]
  split
  · exact h
  · exact ⟨h.seqs, fun _ => ⟨_, List.mem_append_right _ (List.mem_singleton.mpr rfl), nofun⟩⟩

theorem GatedRun.Awake.pause (h : s.Awake) (token id : String) (now : Time) :
    (s.step (.pause token id now)).Awake := by
  rw [GatedRun.step]
  split
  next st g hst hg =>
    split
    next hid =>
      refine ⟨seqsExact_write h.seqs _, fun _ => ?_⟩
      exact h.outstanding (Or.inr ⟨st, List.mem_of_find?_eq_some hst, pausing_of_creating hid⟩)
    next => exact h
  next => exact h

theorem GatedRun.Awake.commit (h : s.Awake) (token : String) (done : AgentRun) (steps : JsonValue)
    (notes : List RunNote) (now : Time) : (s.step (.commit token done steps notes now)).Awake := by
  rw [GatedRun.step]
  split
  next st hst =>
    split
    next hguard =>
      refine ⟨seqsExact_write h.seqs _, fun hw => h.outstanding ?_⟩
      rcases hw with hw | ⟨st', hst', hp⟩
      · simp only [Bool.and_eq_true, Bool.or_eq_true, decide_eq_true_eq] at hguard
        rcases hguard.2 with hstatus | hp
        · refine Or.inl (waiting_of_write (fun row asked ha => ?_) hw)
          cases ha
          exact fun hs => hstatus (some.inj hs)
        · exact Or.inr ⟨st, List.mem_of_find?_eq_some hst, hp⟩
      · exact Or.inr ⟨st', (List.mem_filter.mp hst').1, hp⟩
    next => exact h
  next => exact h

theorem GatedRun.Awake.crash (h : s.Awake) (token : String) : (s.step (.crash token)).Awake := by
  refine ⟨h.seqs, fun hw => h.outstanding ?_⟩
  rcases hw with hw | ⟨st, hst, hp⟩
  · exact Or.inl hw
  · exact Or.inr ⟨st, (List.mem_filter.mp hst).1, hp⟩

theorem GatedRun.Awake.decide (h : s.Awake) (id : String) (next : ApprovalStatus)
    (decidedBy decisionReason : Option String) :
    (s.step (.decide id next decidedBy decisionReason)).Awake := by
  rw [GatedRun.step]
  split
  · split
    · exact ⟨h.seqs, fun hw => outstanding_setGate (h.outstanding hw) id fun _ hg => hg⟩
    · exact h
  · exact h

theorem GatedRun.Awake.hear (h : s.Awake) (id : String) (htimely : Timely s (.hear id)) :
    (s.step (.hear id)).Awake := by
  rw [GatedRun.step]
  split
  · split
    · split
      next hstatus =>
        refine ⟨h.seqs, fun hw => outstandingBut_setGate (htimely hstatus ?_) _⟩
        exact hw.resolve_left hstatus
      next => exact ⟨h.seqs, fun hw => outstanding_setGate (h.outstanding hw) id fun _ _ => nofun⟩
    · exact h
  · exact h

theorem GatedRun.Awake.settle (h : s.Awake) (id : String) (now : Time)
    (htimely : Timely s (.settle id now)) : (s.step (.settle id now)).Awake := by
  rw [GatedRun.step]
  split
  next g hg =>
    split
    next =>
      refine ⟨seqsExact_write h.seqs _, fun hw => outstandingBut_setGate (htimely ?_) _⟩
      exact hw.resolve_left (decidedWrite_not_waiting h.seqs g.request now)
    next => exact h
  next => exact h

theorem GatedRun.Awake.step (h : s.Awake) (a : GatedAction) (htimely : Timely s a) : (s.step a).Awake := by
  cases a with
  | load token => exact GatedRun.Awake.load h token
  | insert token id toolCallId payload => exact GatedRun.Awake.insert h token id toolCallId payload
  | pause token id now => exact GatedRun.Awake.pause h token id now
  | reuse token id =>
    rw [GatedRun.step]
    split
    · exact ⟨h.seqs, fun _ => htimely⟩
    · exact h
  | recheck token id accepted =>
    rw [GatedRun.step]
    split
    next g hg =>
      split
      next hheld => exact ⟨h.seqs, fun _ => htimely g hg hheld⟩
      next => exact h
    next => exact h
  | commit token done steps notes now => exact GatedRun.Awake.commit h token done steps notes now
  | crash token => exact GatedRun.Awake.crash h token
  | decide id next decidedBy reason => exact GatedRun.Awake.decide h id next decidedBy reason
  | hear id => exact GatedRun.Awake.hear h id htimely
  | settle id now => exact GatedRun.Awake.settle h id now htimely
  | other w =>
    refine ⟨seqsExact_write h.seqs _, fun hw => h.outstanding ?_⟩
    exact hw.imp_left (waiting_of_write w.notWaiting)

theorem GatedRun.Awake.not_asleep (h : s.Awake) : ¬s.Asleep := by
  rintro ⟨-, hhandled, hwaiting⟩
  obtain ⟨g, hg, hphase⟩ := h.outstanding (Or.inl hwaiting)
  exact hphase (hhandled g hg).2

end

/-- **No wake-up is lost in a run whose decisions are timely**: it never waits with every decision
handled and nobody at work. -/
theorem no_lost_wakeup (store : RunStore) (hseqs : store.SeqsExact)
    (hstart : store.row.status ≠ .waitingApproval) (actions : List GatedAction)
    (h : Along GatedRun.step Timely ⟨store, [], []⟩ actions) :
    Along GatedRun.step (fun s a => ¬(s.step a).Asleep) ⟨store, [], []⟩ actions := by
  have hawake : GatedRun.Awake ⟨store, [], []⟩ := by
    refine ⟨hseqs, fun hw => ?_⟩
    rcases hw with hw | ⟨st, hst, -⟩
    · exact absurd hw hstart
    · cases hst
  refine along_of_invariant GatedRun.Awake (fun s a hs ha => hs.step a ha) (fun s a hs ha => ?_)
    hawake h
  exact (hs.step a ha).not_asleep

def workingStore : RunStore :=
  ⟨{ freshRun with status := .running, leaseOwner := some "worker:1" }, []⟩

def heldRefund : ApprovalRequest :=
  { id := "approval-1", toolCallId := some "call_1"
    payload := .obj [("_gate", .obj [("argument", .str "amount")])] }

def approvedRefund : ApprovalRequest :=
  { heldRefund with status := .approved, decidedBy := some "user-1" }

def heldStep : AgentRun :=
  { freshRun with status := .waitingApproval, currentStep := 1, leaseOwner := some "worker:1" }

def decidedAfterCommit : List GatedAction :=
  [.load "worker:1", .insert "worker:1" "approval-1" (some "call_1") heldRefund.payload,
    .pause "worker:1" "approval-1" 10, .commit "worker:1" heldStep ⟨.arr [], uniqueKeys_nil⟩ [] 20,
    .decide "approval-1" .approved (some "user-1") none, .hear "approval-1",
    .settle "approval-1" 30]

theorem no_lost_wakeup_decided_after_commit :
    workingStore.SeqsExact ∧ workingStore.row.status ≠ .waitingApproval ∧
      Along GatedRun.step (fun s a => ¬(s.step a).Asleep) ⟨workingStore, [], []⟩
        decidedAfterCommit := by
  refine ⟨rfl, nofun, no_lost_wakeup workingStore rfl nofun _ ?_⟩
  -- the step is gone when the listener hears of the decision
  refine ⟨trivial, trivial, trivial, trivial, trivial, fun _ hp => ?_, fun hp => ?_, trivial⟩ <;>
  · obtain ⟨st, hst, -⟩ := hp
    exact absurd (show st ∈ [] from hst) List.not_mem_nil

/-! ## A decision before the commit -/

def pausedStore : RunStore := workingStore.log 10 { status := some .waitingApproval } []

theorem workingStore_seqs : workingStore.SeqsExact := rfl

theorem write_create : workingStore.write (createWrite heldRefund 10) = pausedStore := by
  have hasked : (createWrite heldRefund 10).asked workingStore.row
      = some { status := some .waitingApproval } := rfl
  exact write_eq_log workingStore_seqs hasked rfl rfl

theorem pausedStore_seqs : pausedStore.SeqsExact := by
  rw [← write_create]
  exact seqsExact_write workingStore_seqs _

def resumedStore : RunStore :=
  pausedStore.log 20 { status := some .running } [decidedNote approvedRefund]

theorem write_decided : pausedStore.write (decidedWrite approvedRefund 20) = resumedStore := by
  have hasked : (decidedWrite approvedRefund 20).asked pausedStore.row
      = some { status := some .running } := rfl
  exact write_eq_log pausedStore_seqs hasked rfl rfl

theorem write_commit :
    (resumedStore.write (commitStepWrite "worker:1" heldStep ⟨.arr [], rfl⟩ 0 [] 30)).row.status
      = .waitingApproval := by
  have hseqs : resumedStore.SeqsExact := by
    rw [← write_decided]
    exact seqsExact_write pausedStore_seqs _
  obtain ⟨asked, -, ha, hstatus, -⟩ := commits_state (commits_of_seqsExact hseqs
    (w := commitStepWrite "worker:1" heldStep ⟨.arr [], rfl⟩ 0 [] 30) (if_pos rfl) rfl rfl)
  rw [hstatus, ← some.inj ha]
  rfl

/-- The refund is approved between its request and the step's commit. -/
def decidedBeforeCommit : List GatedAction :=
  [.load "worker:1", .insert "worker:1" "approval-1" (some "call_1") heldRefund.payload,
    .pause "worker:1" "approval-1" 10, .decide "approval-1" .approved (some "user-1") none,
    .hear "approval-1", .settle "approval-1" 20]

theorem decidedBeforeCommit_state :
    run GatedRun.step ⟨workingStore, [], []⟩ decidedBeforeCommit =
      ⟨resumedStore, [⟨approvedRefund, .handled⟩],
        [⟨"worker:1", 0, .running, ["approval-1"], []⟩]⟩ := by
  have hpaused : run GatedRun.step ⟨workingStore, [], []⟩ (decidedBeforeCommit.take 3) =
      ⟨pausedStore, [⟨heldRefund, .unheard⟩], [⟨"worker:1", 0, .running, ["approval-1"], []⟩]⟩ := by
    rw [← write_create]
    rfl
  have hrest : decidedBeforeCommit = decidedBeforeCommit.take 3 ++ decidedBeforeCommit.drop 3 :=
    (List.take_append_drop 3 _).symm
  rw [hrest, run_append, hpaused, ← write_decided]
  rfl

/-- The approval is heard while the step is at work; the step's commit then puts the run back to
wait. -/
theorem wakeup_lost_decided_before_commit :
    ¬Along GatedRun.step (fun s a => ¬(s.step a).Asleep) ⟨workingStore, [], []⟩
      (decidedBeforeCommit ++ [.commit "worker:1" heldStep ⟨.arr [], rfl⟩ [] 30]) := by
  intro h
  refine along_iff.mp h decidedBeforeCommit _ [] rfl ?_
  rw [decidedBeforeCommit_state]
  refine ⟨rfl, fun g hg => ?_, write_commit⟩
  obtain rfl := List.mem_singleton.mp (show g ∈ [⟨approvedRefund, .handled⟩] from hg)
  exact ⟨nofun, rfl⟩

end Almyty.Approvals
