import Almyty.Approvals.RunStatus
import Almyty.Lib.Slots

/-!
# Held change sets: `code-mode.service.ts`

A script's staged calls wait for one decision. `holdChangeSet` makes the request, and after it
writes its id on the script row; `decideHeld` hears the decision and claims the row by that id
before it applies the set, so that of any number of calls one goes on. An agent step holds and
applies its script's set itself, with no claim.

`change_set_applied_once`: nothing runs unless the set is approved, and what `decideHeld` runs is a
beginning of the set in order, once, with nothing after a failure, wherever processes die. Two
things go wrong besides. A decision handled before the id is on the row finds nothing to claim, and
the row waits for good; and an agent step that comes again after its process died runs the entries
again. In every run with neither, both kinds of set are run once and the row is settled.

Mirroring notes:
- One script row, its request and its readers. `ofRun` is whether an agent step holds it: the
  listener passes such a request over, and no other caller applies a set directly.
- The loop of `applyChangeSet` goes an entry a step, and a process may die at any of them.
-/

namespace Almyty.CodeMode

open Almyty.Lib Almyty.Approvals List

inductive CodeExecutionStatus
  | running | completed | failed | waitingApproval | approved | rejected
  deriving DecidableEq

inductive EntryOutcome
  | ran | failed | notRun
  deriving DecidableEq

structure ChangeSetEntry where
  id : Nat
  toolId : String
  codeName : String
  arguments : Fields
  outcome : Option EntryOutcome := none
  error : Option String := none
  deriving DecidableEq

structure CodeExecution where
  status : CodeExecutionStatus
  changeSet : List ChangeSetEntry
  approvalRequestId : Option String

structure ToolExecutionResult where
  success : Bool
  error : Option String := none
  /-- The summary of what still asks for approval. -/
  approvalRequired : Option String := none

/-! ## The loop of `applyChangeSet` -/

def gone (entry : ChangeSetEntry) : ToolExecutionResult where
  success := false
  error := some (entry.codeName ++ " is no longer available here")

def ChangeSetEntry.settle (entry : ChangeSetEntry) (result : ToolExecutionResult) : ChangeSetEntry :=
  if result.success then { entry with outcome := some .ran }
  else
    { entry with
      outcome := some .failed
      error := some (match result.approvalRequired with
        | some summary => "Still needs approval: " ++ summary
        | none => result.error.getD "failed") }

def ChangeSetEntry.notRun (entry : ChangeSetEntry) : ChangeSetEntry :=
  { entry with outcome := some .notRun }

structure Loop where
  /-- The ids of the tools it may use. -/
  scope : List String
  done : List ChangeSetEntry := []
  rest : List ChangeSetEntry
  stopped : Bool := false
  deriving DecidableEq

def Loop.calls (loop : Loop) : Option ChangeSetEntry :=
  if loop.stopped then none else loop.rest.head?.filter (loop.scope.contains ·.toolId)

def Loop.turn (loop : Loop) (answer : ToolExecutionResult) : Loop :=
  match loop.rest with
  | [] => loop
  | entry :: rest =>
    if loop.stopped then { loop with done := loop.done ++ [entry.notRun], rest := rest }
    else
      let result := if loop.scope.contains entry.toolId then answer else gone entry
      { loop with
        done := loop.done ++ [entry.settle result], rest := rest, stopped := !result.success }

/-! ## The system -/

/-- What a call waits for. -/
inductive Stage
  /-- `decideHeld`, of an approved set: its claim. -/
  | claiming
  /-- `decideHeld`, the row claimed: the script and the tools of its set. -/
  | loading
  /-- An agent step: the request. -/
  | asking
  /-- `applyChangeSet`: the row. -/
  | reading (scope : List String)
  | applying (loop : Loop)
  /-- `rejectChangeSet`: the row. -/
  | rejecting
  | marking (entries : List ChangeSetEntry)
  | returned
  | dead
  deriving DecidableEq

structure Call where
  status : ApprovalStatus
  stage : Stage
  deriving DecidableEq

structure Request where
  id : String
  status : ApprovalStatus := .pending

inductive HoldStage
  | staged | created | over
  deriving DecidableEq

structure Executed where
  entry : ChangeSetEntry
  /-- The request's status then. -/
  status : Option ApprovalStatus
  success : Bool

structure World where
  ofRun : Bool
  row : CodeExecution
  request : Option Request
  hold : HoldStage
  calls : List Call
  started : Bool
  log : List Executed

def World.start (ofRun : Bool) (staged : List ChangeSetEntry) : World where
  ofRun := ofRun
  row := { status := .waitingApproval, changeSet := staged, approvalRequestId := none }
  request := none
  hold := .staged
  calls := []
  started := false
  log := []

structure Reply where
  /-- The ids of the tools found. -/
  found : List String := []
  answer : ToolExecutionResult := { success := true }

inductive Action
  | create (id : String)
  | attachApproval
  | holderDies
  | decide (status : ApprovalStatus)
  /-- `decideHeld` is called with the request as it is. -/
  | decideHeld
  /-- An agent step comes to the set. -/
  | runApprovedCalls
  | advance (i : Nat) (reply : Reply)
  | dies (i : Nat)

/-- Where a call that has read its request's status begins. -/
def decided (status : ApprovalStatus) (approved : Stage) : Stage :=
  match status with
  | .approved => approved
  | .rejected | .expired => .rejecting
  | .pending => .returned

/-- The row names its request. -/
def World.attached (w : World) : Bool := w.request.any fun r => w.row.approvalRequestId = some r.id

def advance (w : World) (reply : Reply) (call : Call) : World × Call :=
  match call.stage with
  | .claiming =>
    if w.row.status = .waitingApproval ∧ w.attached then
      ({ w with row := { w.row with status := .running }, started := true },
        { call with stage := .loading })
    else (w, { call with stage := .returned })
  | .loading => (w, { call with stage := .reading reply.found })
  | .asking =>
    match w.request with
    | none => (w, { status := .pending, stage := .returned })
    | some request =>
      ({ w with started := w.started || request.status = .approved },
        { status := request.status, stage := decided request.status (.reading reply.found) })
  | .reading scope => (w, { call with stage := .applying { scope := scope, rest := w.row.changeSet } })
  | .applying loop =>
    if loop.rest.isEmpty then
      ({ w with row := { w.row with status := .approved, changeSet := loop.done } },
        { call with stage := .returned })
    else
      let asked := loop.calls.toList.map fun entry =>
        { entry := entry, status := w.request.map (·.status), success := reply.answer.success }
      ({ w with log := w.log ++ asked }, { call with stage := .applying (loop.turn reply.answer) })
  | .rejecting => (w, { call with stage := .marking (w.row.changeSet.map (·.notRun)) })
  | .marking entries =>
    ({ w with row := { w.row with status := .rejected, changeSet := entries } },
      { call with stage := .returned })
  | .returned | .dead => (w, call)

def step (w : World) : Action → World
  | .create id =>
    if w.hold = .staged then { w with request := some { id := id }, hold := .created } else w
  | .attachApproval =>
    if w.hold = .created then
      { w with row := { w.row with approvalRequestId := w.request.map (·.id) }, hold := .over }
    else w
  | .holderDies => { w with hold := .over }
  | .decide status =>
    match w.request with
    | some ⟨id, .pending⟩ => { w with request := some ⟨id, status⟩ }
    | _ => w
  | .decideHeld =>
    match w.request, w.ofRun with
    | some request, false =>
      { w with calls := w.calls ++ [⟨request.status, decided request.status .claiming⟩] }
    | _, _ => w
  | .runApprovedCalls =>
    if w.ofRun then { w with calls := w.calls ++ [⟨.pending, .asking⟩] } else w
  | .advance i reply =>
    match w.calls[i]? with
    | none => w
    | some call =>
      let (w', call') := advance w reply call
      { w' with calls := w'.calls.set i call' }
  | .dies i =>
    match w.calls[i]? with
    | none => w
    | some call =>
      { w with calls := w.calls.set i { call with
          stage := if call.stage = .returned then .returned else .dead } }

/-! ## The claims -/

/-- Every entry was executed with the request approved. -/
def OnlyApproved (w : World) : Prop := ∀ asked ∈ w.log, asked.status = some .approved

def InOrder (staged : List ChangeSetEntry) (w : World) : Prop :=
  w.log.map (·.entry) = staged.take w.log.length ∧ ∀ asked ∈ w.log.dropLast, asked.success = true

/-- No step is in progress. -/
def Quiet (w : World) : Prop :=
  w.hold ≠ .created ∧ ∀ call ∈ w.calls, call.stage = .returned ∨ call.stage = .dead

/-- An approved set whose decision was handled leaves no row waiting. -/
def Settled (w : World) : Prop :=
  Quiet w → (∃ call ∈ w.calls, call.status = .approved ∧ call.stage = .returned) →
    w.row.status ≠ .waitingApproval

/-- A set is claimed with its request's id on the row, and an agent step applies one that nothing
has begun to apply. -/
def careful (w : World) : Action → Bool
  | .advance i _ =>
    match w.calls[i]? with
    | some ⟨_, .claiming⟩ => w.attached
    | some ⟨_, .asking⟩ => !(w.started && w.request.any (·.status = .approved))
    | _ => true
  | _ => true

/-! ## What holds in every run -/

def Approved (w : World) : Prop := w.request.map (·.status) = some .approved

/-- The request is rejected or expired. -/
def TurnedDown (w : World) : Prop :=
  ∃ status, w.request.map (·.status) = some status ∧ status ≠ .approved ∧ status ≠ .pending

def Call.active (call : Call) : Bool :=
  match call.stage with
  | .loading | .reading _ | .applying _ => true
  | _ => false

def Call.Sound (staged : List ChangeSetEntry) (w : World) (call : Call) : Prop :=
  match call.stage with
  | .claiming => Approved w ∧ w.ofRun = false
  | .loading | .reading _ => Approved w ∧ w.log = [] ∧ w.row.changeSet = staged
  | .applying loop =>
    Approved w ∧ (loop.stopped = false →
      loop.rest = staged.drop w.log.length ∧ ∀ asked ∈ w.log, asked.success = true)
  | .asking => w.ofRun = true
  | .rejecting | .marking _ => TurnedDown w
  | .returned | .dead => True

structure Sound (staged : List ChangeSetEntry) (w : World) : Prop where
  calls : ∀ call ∈ w.calls, call.Sound staged w
  one : ∀ (i j : Nat) a b, w.calls[i]? = some a → w.calls[j]? = some b →
    a.active = true → b.active = true → i = j
  log : OnlyApproved w
  order : InOrder staged w
  fresh : w.started = false →
    w.log = [] ∧ (∀ call ∈ w.calls, call.active = false) ∧ (¬TurnedDown w → w.row.changeSet = staged)
  waiting : w.ofRun = false → w.row.status = .waitingApproval → w.started = false
  unmade : w.hold = .staged → w.request = none

section Invariant

variable {staged : List ChangeSetEntry} {w w' : World} {call call' : Call} {i : Nat}

theorem approved_not_turnedDown (h : Approved w) : ¬TurnedDown w := by
  rintro ⟨status, hstatus, hne, -⟩
  rw [Approved, hstatus] at h
  exact hne (Option.some.inj h)

theorem Call.Sound.inactive (h : call.Sound staged w) (hactive : call.active = false)
    (happroved : Approved w → Approved w') (hturned : TurnedDown w → TurnedDown w')
    (hofRun : w'.ofRun = w.ofRun) : call.Sound staged w' := by
  obtain ⟨status, stage⟩ := call
  cases stage with
  | claiming => exact ⟨happroved h.1, hofRun.trans h.2⟩
  | asking => exact hofRun.trans h
  | rejecting | marking => exact hturned h
  | returned | dead => trivial
  | loading | reading | applying => cases hactive

theorem Call.Sound.frame (h : call.Sound staged w) (happroved : Approved w → Approved w')
    (hturned : TurnedDown w → TurnedDown w') (hofRun : w'.ofRun = w.ofRun)
    (hlog : w'.log = w.log) (hset : w'.row.changeSet = w.row.changeSet) : call.Sound staged w' := by
  obtain ⟨status, stage⟩ := call
  cases stage with
  | loading | reading => exact ⟨happroved h.1, hlog.trans h.2.1, hset.trans h.2.2⟩
  | applying loop =>
    refine ⟨happroved h.1, fun hgoes => ?_⟩
    rw [hlog]
    exact h.2 hgoes
  | claiming | asking | rejecting | marking => exact h.inactive rfl happroved hturned hofRun
  | returned | dead => trivial

theorem Sound.moved (h : Sound staged w) (w' : World) (hi : w.calls[i]? = some call)
    (hrequest : w'.request = w.request) (hofRun : w'.ofRun = w.ofRun) (hcalls : w'.calls = w.calls)
    (hhold : w'.hold = w.hold)
    (hothers : (w'.log = w.log ∧ w'.row.changeSet = w.row.changeSet) ∨
      ∀ j other, j ≠ i → w.calls[j]? = some other → other.active = false)
    (hself : call'.Sound staged w')
    (hactive : call'.active = true → call.active = true ∨ ∀ other ∈ w.calls, other.active = false)
    (hlog : OnlyApproved w') (horder : InOrder staged w')
    (hfresh : w'.started = false →
      w'.log = [] ∧ call'.active = false ∧ (∀ other ∈ w.calls, other.active = false) ∧
        (¬TurnedDown w' → w'.row.changeSet = staged))
    (hwaiting : w'.ofRun = false → w'.row.status = .waitingApproval → w'.started = false) :
    Sound staged { w' with calls := w'.calls.set i call' } := by
  have happroved : Approved w → Approved w' := by
    intro ha
    rw [Approved, hrequest]
    exact ha
  have hturned : TurnedDown w → TurnedDown w' := by
    intro ht
    rw [TurnedDown, hrequest]
    exact ht
  rw [hcalls]
  refine ⟨fun other hother => ?_, Slots.Alone.set h.one hi fun hmoved => ?_, hlog, horder,
    fun hstarted => ?_,
    hwaiting, fun hh => hrequest.trans (h.unmade (hhold ▸ hh))⟩
  · obtain ⟨j, hj⟩ := List.getElem?_of_mem hother
    rcases Slots.getElem?_set_cases hj with ⟨-, rfl⟩ | ⟨hne, hj⟩
    · exact hself.frame (fun ha => ha) (fun ht => ht) rfl rfl rfl
    · have hknown := h.calls other (List.mem_of_getElem? hj)
      rcases hothers with ⟨hsame, hset⟩ | hquiet
      · exact hknown.frame happroved hturned hofRun hsame hset
      · exact hknown.inactive (hquiet j other hne hj) happroved hturned hofRun
  · exact (hactive hmoved).imp_right fun hquiet other hother => by simp [hquiet other hother]
  · obtain ⟨hempty, hmoved, hquiet, hset⟩ := hfresh hstarted
    refine ⟨hempty, fun other hother => ?_, hset⟩
    obtain ⟨j, hj⟩ := List.getElem?_of_mem hother
    rcases Slots.getElem?_set_cases hj with ⟨-, rfl⟩ | ⟨-, hj⟩
    · exact hmoved
    · exact hquiet other (List.mem_of_getElem? hj)

theorem Sound.idle (h : Sound staged w) (hi : w.calls[i]? = some call)
    (hself : call'.Sound staged w) (hactive : call'.active = true → call.active = true) :
    Sound staged { w with calls := w.calls.set i call' } := by
  refine h.moved w hi rfl rfl rfl rfl (.inl ⟨rfl, rfl⟩) hself (fun ha => .inl (hactive ha)) h.log h.order
    (fun hstarted => ?_) h.waiting
  obtain ⟨hempty, hquiet, hset⟩ := h.fresh hstarted
  refine ⟨hempty, ?_, hquiet, hset⟩
  rw [← Bool.not_eq_true]
  intro ha
  rw [hquiet call (List.mem_of_getElem? hi)] at hactive
  cases hactive ha

theorem Sound.begun (h : Sound staged w) (hi : w.calls[i]? = some call)
    (hstarted : w.started = false) (happroved : Approved w) (row : CodeExecution)
    (hset : row.changeSet = w.row.changeSet)
    (hwaiting : w.ofRun = false → row.status ≠ .waitingApproval)
    (hself : Approved w → w.log = [] → w.row.changeSet = staged → 
      call'.Sound staged { w with row := row, started := true }) :
    Sound staged { w with row := row, started := true, calls := w.calls.set i call' } := by
  obtain ⟨hempty, hquiet, hkept⟩ := h.fresh hstarted
  exact h.moved { w with row := row, started := true } hi rfl rfl rfl rfl (.inl ⟨rfl, hset⟩)
    (hself happroved hempty (hkept (approved_not_turnedDown happroved))) (fun _ => .inr hquiet) h.log
    h.order nofun (fun hofRun hstatus => absurd hstatus (hwaiting hofRun))

theorem Sound.applied (h : Sound staged w) (hi : w.calls[i]? = some call)
    (hactive : call.active = true) (row : CodeExecution) (log : List Executed)
    (hself : call'.Sound staged { w with row := row, log := log })
    (hlog : OnlyApproved { w with row := row, log := log })
    (horder : InOrder staged { w with row := row, log := log })
    (hstatus : row.status = .waitingApproval → w.row.status = .waitingApproval) :
    Sound staged { w with row := row, log := log, calls := w.calls.set i call' } := by
  have hstarted : w.started = true := by
    rw [← Bool.not_eq_false]
    intro hnot
    rw [(h.fresh hnot).2.1 call (List.mem_of_getElem? hi)] at hactive
    cases hactive
  refine h.moved { w with row := row, log := log } hi rfl rfl rfl rfl (.inr ?_) hself
    (fun _ => .inl hactive) hlog horder (fun hnot => absurd hnot (by simp [hstarted]))
    (fun hofRun hwaits => h.waiting hofRun (hstatus hwaits))
  intro j other hne hj
  rw [← Bool.not_eq_true]
  intro hother
  exact hne (h.one j i other call hj hi hother hactive)

theorem Loop.turn_cases (loop : Loop) (answer : ToolExecutionResult) :
    (loop.calls = none ∧ ((loop.turn answer).stopped = true ∨ loop.turn answer = loop)) ∨
      ∃ entry rest, loop.calls = some entry ∧ loop.stopped = false ∧ loop.rest = entry :: rest ∧
        (loop.turn answer).rest = rest ∧ (loop.turn answer).stopped = !answer.success := by
  unfold Loop.calls Loop.turn
  cases hrest : loop.rest with
  | nil => simp
  | cons entry rest =>
    cases hstopped : loop.stopped with
    | true => simp
    | false =>
      by_cases hscope : entry.toolId ∈ loop.scope
      · refine .inr ⟨entry, rest, ?_, rfl, rfl, ?_, ?_⟩
        · simp [hscope]
        · simp
        · simp [hscope]
      · refine .inl ⟨?_, .inl ?_⟩
        · simpa using hscope
        · simp [hscope, gone]

theorem InOrder.next (h : InOrder staged w) {entry : ChangeSetEntry} {rest : List ChangeSetEntry}
    (hnext : staged.drop w.log.length = entry :: rest)
    (hall : ∀ asked ∈ w.log, asked.success = true) (status : Option ApprovalStatus) (success : Bool) :
    InOrder staged { w with log := w.log ++ [⟨entry, status, success⟩] } := by
  constructor
  · simp only [map_append, h.1, length_append, length_singleton, take_add, hnext]
    rfl
  · simpa only [dropLast_concat] using hall

variable {reply : Reply}

variable {status : ApprovalStatus}

theorem Sound.turned (h : Sound staged w) {loop : Loop}
    (hi : w.calls[i]? = some ⟨status, .applying loop⟩) :
    Sound staged
      { w with
        log := w.log ++ loop.calls.toList.map fun entry =>
          { entry := entry, status := w.request.map (·.status), success := reply.answer.success }
        calls := w.calls.set i ⟨status, .applying (loop.turn reply.answer)⟩ } := by
  obtain ⟨happroved, hprogress⟩ := h.calls _ (List.mem_of_getElem? hi)
  rcases loop.turn_cases reply.answer with ⟨hnone, hstops⟩ | ⟨entry, rest, hentry, hgoes, hrest, hleft, hstop⟩
  · rw [hnone]
    refine h.applied hi rfl w.row _ ⟨happroved, fun hgoes => ?_⟩ ?_ ?_ (fun hs => hs)
    · rcases hstops with hstopped | hsame
      · rw [hstopped] at hgoes
        cases hgoes
      · rw [hsame] at hgoes ⊢
        simpa using hprogress hgoes
    · simpa using h.log
    · simpa [InOrder] using h.order
  · obtain ⟨hdrop, hall⟩ := hprogress hgoes
    rw [hentry]
    have hnext : staged.drop w.log.length = entry :: rest := hdrop.symm.trans hrest
    refine h.applied hi rfl w.row _ ⟨happroved, fun hgoes' => ?_⟩ ?_ (h.order.next hnext hall _ _)
      (fun hs => hs)
    · rw [hstop, Bool.not_eq_false'] at hgoes'
      constructor
      · rw [hleft]
        simp [← drop_drop, hnext]
      · intro asked hasked
        rcases mem_append.mp hasked with hasked | hasked
        · exact hall asked hasked
        · cases mem_singleton.mp hasked
          exact hgoes'
    · intro asked hasked
      rcases mem_append.mp hasked with hasked | hasked
      · exact h.log asked hasked
      · cases mem_singleton.mp hasked
        exact happroved

theorem advance_asking_none (h : w.request = none) :
    advance w reply ⟨status, .asking⟩ = (w, ⟨.pending, .returned⟩) := by
  simp [advance, h]

theorem advance_asking {request : Request} (h : w.request = some request) :
    advance w reply ⟨status, .asking⟩ =
      ({ w with started := w.started || request.status = .approved },
        ⟨request.status, decided request.status (.reading reply.found)⟩) := by
  simp [advance, h]

theorem Sound.advance (h : Sound staged w) (hi : w.calls[i]? = some call)
    (hcareful : w.ofRun = true → careful w (.advance i reply) = true) :
    Sound staged
      { (advance w reply call).1 with
        calls := (advance w reply call).1.calls.set i (advance w reply call).2 } := by
  have hcall := h.calls call (List.mem_of_getElem? hi)
  obtain ⟨status, stage⟩ := call
  cases stage with
  | claiming =>
    simp only [CodeMode.advance]
    split
    next hclaims =>
      refine h.begun hi (h.waiting hcall.2 hclaims.1) hcall.1 _ rfl (fun _ => by simp) ?_
      exact fun happroved hempty hset => ⟨happroved, hempty, hset⟩
    next => exact h.idle hi trivial nofun
  | loading => exact h.idle hi hcall (fun _ => rfl)
  | asking =>
    cases hrequest : w.request with
    | none =>
      rw [advance_asking_none hrequest]
      exact h.idle hi trivial nofun
    | some request =>
      obtain ⟨id, decision⟩ := request
      rw [advance_asking hrequest]
      cases decision with
      | approved =>
        have happroved : Approved w := by simp [Approved, hrequest]
        have hstarted : w.started = false := by
          simpa [careful, hi, hrequest] using hcareful hcall
        show Sound staged { w with started := w.started || true, calls := _ }
        rw [Bool.or_true]
        exact h.begun hi hstarted happroved w.row rfl
          (fun hheld => absurd (hheld.symm.trans hcall) nofun)
          (fun happroved hempty hset => ⟨happroved, hempty, hset⟩)
      | rejected =>
        show Sound staged { w with started := w.started || false, calls := _ }
        rw [Bool.or_false]
        exact h.idle hi ⟨.rejected, by simp [hrequest], nofun, nofun⟩ nofun
      | expired =>
        show Sound staged { w with started := w.started || false, calls := _ }
        rw [Bool.or_false]
        exact h.idle hi ⟨.expired, by simp [hrequest], nofun, nofun⟩ nofun
      | pending =>
        show Sound staged { w with started := w.started || false, calls := _ }
        rw [Bool.or_false]
        exact h.idle hi trivial nofun
  | reading scope =>
    refine h.idle hi ⟨hcall.1, fun _ => ⟨?_, ?_⟩⟩ (fun _ => rfl)
    · rw [hcall.2.1, hcall.2.2]
      rfl
    · rw [hcall.2.1]
      nofun
  | applying loop =>
    simp only [CodeMode.advance]
    split
    · exact h.applied hi rfl { w.row with status := .approved, changeSet := loop.done } w.log trivial
        h.log h.order nofun
    · exact h.turned hi
  | rejecting => exact h.idle hi hcall nofun
  | marking entries =>
    simp only [CodeMode.advance]
    have hturned : TurnedDown w := hcall
    have hquiet (other : Call) (hother : other ∈ w.calls) : other.active = false := by
      have hknown := h.calls other hother
      obtain ⟨status', stage'⟩ := other
      cases stage' with
      | loading | reading | applying => exact absurd hturned (approved_not_turnedDown hknown.1)
      | _ => rfl
    refine h.moved { w with row := { w.row with status := .rejected, changeSet := entries } } hi
      rfl rfl rfl rfl (.inr fun j other _ hj => hquiet other (List.mem_of_getElem? hj)) trivial nofun
      h.log h.order (fun hstarted => ⟨(h.fresh hstarted).1, rfl, hquiet, fun hnot => ?_⟩)
      (fun _ hstatus => by cases hstatus)
    exact absurd hturned hnot
  | returned | dead => exact h.idle hi trivial nofun

theorem Sound.begin (h : Sound staged w) (hself : call.Sound staged w) (hactive : call.active = false) :
    Sound staged { w with calls := w.calls ++ [call] } := by
  refine ⟨fun other hother => ?_, Slots.Alone.append_singleton h.one (by simp [hactive]), h.log,
    h.order, fun hstarted => ?_, h.waiting, h.unmade⟩
  · rcases mem_append.mp hother with hother | hother
    · exact (h.calls other hother).frame (fun ha => ha) (fun ht => ht) rfl rfl rfl
    · cases mem_singleton.mp hother
      exact hself.frame (fun ha => ha) (fun ht => ht) rfl rfl rfl
  · obtain ⟨hempty, hquiet, hset⟩ := h.fresh hstarted
    refine ⟨hempty, fun other hother => ?_, hset⟩
    rcases mem_append.mp hother with hother | hother
    · exact hquiet other hother
    · exact mem_singleton.mp hother ▸ hactive

theorem Sound.held (h : Sound staged w) (hofRun : w'.ofRun = w.ofRun) (hcalls : w'.calls = w.calls)
    (hlog : w'.log = w.log) (hstarted : w'.started = w.started)
    (hset : w'.row.changeSet = w.row.changeSet) (hstatus : w'.row.status = w.row.status)
    (happroved : Approved w → Approved w') (hturned : TurnedDown w → TurnedDown w')
    (hunmade : w'.hold = .staged → w'.request = none) : Sound staged w' where
  calls call hcall :=
    (h.calls call (hcalls ▸ hcall)).frame happroved hturned hofRun hlog hset
  one := hcalls ▸ h.one
  log := by
    rw [OnlyApproved, hlog]
    exact h.log
  order := by
    rw [InOrder, hlog]
    exact h.order
  fresh hnot := by
    obtain ⟨hempty, hquiet, hkept⟩ := h.fresh (hstarted.symm.trans hnot)
    exact ⟨hlog.trans hempty, hcalls ▸ hquiet, fun hnot => hset.trans (hkept fun ht => hnot (hturned ht))⟩
  waiting hheld hwaits := hstarted.trans (h.waiting (hofRun.symm.trans hheld) (hstatus.symm.trans hwaits))
  unmade := hunmade

theorem Sound.step (h : Sound staged w) {act : Action}
    (hcareful : w.ofRun = true → careful w act = true) : Sound staged (step w act) := by
  cases act with
  | create id =>
    simp only [CodeMode.step]
    split
    next hstaged =>
      have hnone := h.unmade hstaged
      refine h.held rfl rfl rfl rfl rfl rfl (fun ha => ?_) (fun ht => ?_) nofun
      · simp [Approved, hnone] at ha
      · simp [TurnedDown, hnone] at ht
    · exact h
  | attachApproval =>
    simp only [CodeMode.step]
    split
    · exact h.held rfl rfl rfl rfl rfl rfl (fun ha => ha) (fun ht => ht) nofun
    · exact h
  | holderDies => exact h.held rfl rfl rfl rfl rfl rfl (fun ha => ha) (fun ht => ht) nofun
  | decide status =>
    simp only [CodeMode.step]
    split
    next id hrequest =>
      refine h.held rfl rfl rfl rfl rfl rfl (fun ha => ?_) (fun ht => ?_) (fun hs => ?_)
      · simp [Approved, hrequest] at ha
      · simp [TurnedDown, hrequest] at ht
      · rw [h.unmade hs] at hrequest
        cases hrequest
    · exact h
  | decideHeld =>
    simp only [CodeMode.step]
    split
    next request hrequest hheld =>
      obtain ⟨id, decision⟩ := request
      cases decision with
      | approved => exact h.begin ⟨by simp [Approved, hrequest], hheld⟩ rfl
      | rejected => exact h.begin ⟨.rejected, by simp [hrequest], nofun, nofun⟩ rfl
      | expired => exact h.begin ⟨.expired, by simp [hrequest], nofun, nofun⟩ rfl
      | pending => exact h.begin trivial rfl
    · exact h
  | runApprovedCalls =>
    simp only [CodeMode.step]
    split
    next hofRun => exact h.begin hofRun rfl
    · exact h
  | advance i reply =>
    simp only [CodeMode.step]
    cases hi : w.calls[i]? with
    | none => exact h
    | some call => exact h.advance hi hcareful
  | dies i =>
    simp only [CodeMode.step]
    cases hi : w.calls[i]? with
    | none => exact h
    | some call =>
      show Sound staged { w with calls := w.calls.set i { call with stage := _ } }
      split <;> exact h.idle hi trivial nofun

theorem sound_start (ofRun : Bool) (staged : List ChangeSetEntry) :
    Sound staged (World.start ofRun staged) where
  calls _ hcall := by cases hcall
  one _ _ _ _ hi := by simp [World.start] at hi
  log _ hasked := by cases hasked
  order := ⟨rfl, fun _ hasked => by cases hasked⟩
  fresh _ := ⟨rfl, fun _ hcall => (by cases hcall), fun _ => rfl⟩
  waiting _ _ := rfl
  unmade _ := rfl

/-! ## A row that is settled stays so -/

/-- A call that has handled an approved request has left the row claimed or applied. -/
def Handled (w : World) : Prop :=
  ∀ call ∈ w.calls, call.status = .approved → call.stage = .returned →
    w.row.status ≠ .waitingApproval

theorem Handled.settled (h : Handled w) : Settled w := by
  rintro - ⟨call, hcall, happroved, hreturned⟩
  exact h call hcall happroved hreturned

theorem Handled.moved (h : Handled w) (w' : World) (hcalls : w'.calls = w.calls)
    (hstatus : w'.row.status = .waitingApproval → w.row.status = .waitingApproval)
    (hself : call'.status = .approved → call'.stage = .returned →
      w'.row.status ≠ .waitingApproval) :
    Handled { w' with calls := w'.calls.set i call' } := by
  intro other hother happroved hreturned hwaits
  obtain ⟨j, hj⟩ := List.getElem?_of_mem hother
  rw [hcalls] at hj
  rcases Slots.getElem?_set_cases hj with ⟨-, rfl⟩ | ⟨-, hj⟩
  · exact hself happroved hreturned hwaits
  · exact h other (List.mem_of_getElem? hj) happroved hreturned (hstatus hwaits)

theorem Handled.advance (h : Handled w) (hi : w.calls[i]? = some call)
    (hcareful : careful w (.advance i reply) = true) :
    Handled
      { (advance w reply call).1 with
        calls := (advance w reply call).1.calls.set i (advance w reply call).2 } := by
  have hcall := h call (List.mem_of_getElem? hi)
  obtain ⟨status, stage⟩ := call
  cases stage with
  | claiming =>
    have hattached : w.attached = true := by simpa [careful, hi] using hcareful
    simp only [CodeMode.advance]
    split
    · exact h.moved _ rfl nofun (fun _ hs => by cases hs)
    next hnot => exact h.moved _ rfl (fun hs => hs) (fun _ _ hwaits => hnot ⟨hwaits, hattached⟩)
  | loading | reading | rejecting | dead =>
    exact h.moved _ rfl (fun hs => hs) (fun _ hs => by cases hs)
  | asking =>
    cases hrequest : w.request with
    | none =>
      rw [advance_asking_none hrequest]
      exact h.moved _ rfl (fun hs => hs) (fun ha => by cases ha)
    | some request =>
      obtain ⟨id, decision⟩ := request
      rw [advance_asking hrequest]
      refine h.moved { w with started := _ } rfl (fun hs => hs) (fun ha hs => ?_)
      simp only at ha
      subst ha
      cases hs
  | applying loop =>
    simp only [CodeMode.advance]
    split
    · exact h.moved { w with row := _ } rfl nofun (fun _ _ => by simp)
    · exact h.moved { w with log := _ } rfl (fun hs => hs) (fun _ hs => by cases hs)
  | marking entries =>
    exact h.moved { w with row := { w.row with status := .rejected, changeSet := entries } } rfl
      nofun (fun _ _ => by simp)
  | returned => exact h.moved _ rfl (fun hs => hs) (fun ha _ => hcall ha rfl)

theorem Handled.begin (h : Handled w) (hself : call.status = .approved → call.stage ≠ .returned) :
    Handled { w with calls := w.calls ++ [call] } := by
  intro other hother happroved hreturned
  rcases mem_append.mp hother with hother | hother
  · exact h other hother happroved hreturned
  · cases mem_singleton.mp hother
    exact absurd hreturned (hself happroved)

theorem Handled.step (h : Handled w) {act : Action} (hcareful : careful w act = true) :
    Handled (step w act) := by
  cases act with
  | create | attachApproval | decide =>
    simp only [CodeMode.step]
    split <;> exact h
  | holderDies => exact h
  | decideHeld =>
    simp only [CodeMode.step]
    split
    next request hrequest hheld =>
      refine h.begin fun happroved => ?_
      simp only at happroved
      simp [happroved, decided]
    · exact h
  | runApprovedCalls =>
    simp only [CodeMode.step]
    split
    · exact h.begin nofun
    · exact h
  | advance i reply =>
    simp only [CodeMode.step]
    cases hi : w.calls[i]? with
    | none => exact h
    | some call => exact h.advance hi hcareful
  | dies i =>
    simp only [CodeMode.step]
    cases hi : w.calls[i]? with
    | none => exact h
    | some call =>
      refine h.moved _ rfl (fun hs => hs) (fun happroved hreturned => ?_)
      refine h call (List.mem_of_getElem? hi) happroved (Decidable.byContradiction fun hnot => ?_)
      simp [hnot] at hreturned

end Invariant

theorem step_ofRun (w : World) (act : Action) : (step w act).ofRun = w.ofRun := by
  cases act with
  | advance i reply =>
    simp only [step]
    cases w.calls[i]? with
    | none => rfl
    | some call =>
      obtain ⟨status, stage⟩ := call
      cases stage <;> simp only [advance] <;> split <;> rfl
  | dies i =>
    simp only [step]
    split <;> rfl
  | holderDies => rfl
  | _ =>
    simp only [step]
    split <;> rfl

theorem change_set_applied_once (ofRun : Bool) (staged : List ChangeSetEntry) (acts : List Action) :
    let start := World.start ofRun staged
    let ended := Steps.run step start acts
    (ofRun = false → OnlyApproved ended ∧ InOrder staged ended) ∧
      (Steps.Along step (careful · · = true) start acts →
        OnlyApproved ended ∧ InOrder staged ended ∧ Settled ended) := by
  intro start ended
  constructor
  · intro hheld
    have hrun : Steps.Along step (fun _ _ => True) start acts :=
      Steps.along_iff.mpr fun _ _ _ _ => trivial
    have hsound : Sound staged ended ∧ ended.ofRun = false :=
      Steps.run_invariant (fun w => Sound staged w ∧ w.ofRun = false)
        (fun w act h _ => ⟨h.1.step fun hrun => absurd (h.2.symm.trans hrun) nofun,
          (step_ofRun w act).trans h.2⟩)
        ⟨sound_start ofRun staged, hheld⟩ hrun
    exact ⟨hsound.1.log, hsound.1.order⟩
  · intro hcareful
    have hsound : Sound staged ended ∧ Handled ended :=
      Steps.run_invariant (fun w => Sound staged w ∧ Handled w)
        (fun w act h hc => ⟨h.1.step fun _ => hc, h.2.step hc⟩)
        ⟨sound_start ofRun staged, fun _ hcall => by cases hcall⟩ hcareful
    exact ⟨hsound.1.log, hsound.1.order, hsound.2.settled⟩

section

private def deletePet (id : Nat) : ChangeSetEntry where
  id := id
  toolId := "tool-delete"
  codeName := "petstore.deletePet"
  arguments := [("petId", .num id)]

private def found : Reply := { found := ["tool-delete"] }

/-- A call of `decideHeld`, as far as its entries and one turn more. -/
private def goesOn (i : Nat) (turns : Nat) : List Action := List.replicate turns (.advance i found)

/-- Two deletions are held and approved; a process dies after the first, and the decision comes
again. -/
theorem change_set_applied_once_dying :
    let ended := Steps.run step (World.start false [deletePet 1, deletePet 2])
      ([.create "a", .attachApproval, .decide .approved, .decideHeld] ++ goesOn 0 4 ++
        [.dies 0, .decideHeld] ++ goesOn 1 4)
    OnlyApproved ended ∧ InOrder [deletePet 1, deletePet 2] ended ∧ Settled ended :=
  (change_set_applied_once false [deletePet 1, deletePet 2] _).2 (by decide +kernel)

/-- Approved before its id is on the row, a set is never claimed: the row waits for good. -/
theorem approved_before_attached_waits :
    ¬Settled (Steps.run step (World.start false [deletePet 1])
      ([.create "a", .decide .approved, .decideHeld] ++ goesOn 0 1 ++ [.attachApproval])) := by
  intro h
  have hquiet : Quiet (Steps.run step (World.start false [deletePet 1])
      ([.create "a", .decide .approved, .decideHeld] ++ goesOn 0 1 ++ [.attachApproval])) := by
    refine ⟨by decide +kernel, fun call hcall => ?_⟩
    have hcall' : call = ⟨.approved, .returned⟩ := mem_singleton.mp hcall
    exact .inl (by rw [hcall'])
  exact h hquiet ⟨⟨.approved, .returned⟩, by decide +kernel, rfl, rfl⟩ (by decide +kernel)

end

end Almyty.CodeMode
