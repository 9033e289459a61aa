import Almyty.Lib.Lease
import Almyty.Runs.Writer

/-!
# Run leases: `modules/agents/run-lease.ts`

A worker processes a step of a run only while it holds the run's lease. It claims the run, renews
the lease while it works, makes its writes fenced on the claim's token and lets the lease go.
`claimRun` is two writes and a read, each a transaction of its own: the probe takes a free lease or
remembers the lapsed one, the takeover writes only over the lease it remembered, and a claim that
failed looks once more to say why.

The system is the row, the claim calls under way and the history of what took effect (`LeaseEvent`,
newest first), which no transition reads. An action is one transaction of one party: any number of
workers, and anyone else who writes the run (a cancel, an input, an approval), in any order.

Mirroring notes:
- The step commits are `commitStep` of the step processor and `persist` of the collaboration helper:
  the two writes that set `takeovers` back to 0.
- Every other writer sets no lease column but `nextWakeAt` (`StateWrite`).
-/

namespace Almyty.Runs

open Almyty.Lib

/-! ## Claims -/

/-- Statuses a worker may claim a run in. -/
def claimable : AgentRunStatus → Bool
  | .pending | .running | .sleeping => true
  | _ => false

def isTerminal : AgentRunStatus → Bool
  | .completed | .failed | .cancelled | .timeout => true
  | _ => false

/-- What a run stopped by the takeover cap says. -/
def takeoverLimitError (maxTakeovers : Nat) : String :=
  let times := if maxTakeovers = 1 then "once" else s!"{maxTakeovers} times"
  s!"This step stopped its worker {times} in a row, so the run was stopped."

def newLeaseToken (worker uuid : String) : String := worker ++ ":" ++ uuid

structure ClaimCall where
  worker : String
  uuid : String
  leaseMs : Int
  step : Option Int
  now : Time
  maxTakeovers : Nat

def ClaimCall.token (c : ClaimCall) : String := newLeaseToken c.worker c.uuid

def ClaimCall.expiresAt (c : ClaimCall) : Time := c.now + c.leaseMs

/-- Claimable, due, its lease free or lapsed and still at the step. -/
def ClaimCall.due (c : ClaimCall) (row : AgentRun) : Bool :=
  claimable row.status
    && row.nextWakeAt.all (fun t => decide (t ≤ c.now))
    && row.leaseExpiresAt.all (fun t => decide (t < c.now))
    && c.step.all (fun s => decide (row.currentStep = s))

structure Lapsed where
  leaseOwner : String
  leaseExpiresAt : Option Time
  attempt : Nat
  takeovers : Nat

def leased (row : AgentRun) : Option String := row.leaseOwner.filter fun owner => owner ≠ ""

inductive NotClaimed
  | missing | done | held | notDue | movedOn

inductive RunClaim
  | claimed (owner : String) (expiresAt : Time) (attempt : Nat) (takenOver : Bool)
  | notClaimed (reason : NotClaimed)
  | stopped (error : String) (attempt : Nat)

def probeWrite (c : ClaimCall) : RunWrite :=
  { where' := c.due
    change := fun row =>
      if (leased row).isSome then none
      else some { leaseOwner := some (some c.token), leaseExpiresAt := some (some c.expiresAt) }
    select := true
    now := c.now }

def probeLapsed (c : ClaimCall) (row : AgentRun) : Option Lapsed :=
  if c.due row then
    (leased row).map fun owner =>
      { leaseOwner := owner, leaseExpiresAt := row.leaseExpiresAt, attempt := row.attempt,
        takeovers := row.takeovers }
  else none

/-- A number in decimal with leading zeros. -/
def padded (width : Nat) (n : Nat) : String :=
  let digits := toString n
  String.ofList (List.replicate (width - digits.length) '0') ++ digits

def toISOString (t : Time) : String :=
  let days := t / 86400000
  let ms := (t % 86400000).toNat
  -- days since 0000-03-01, in eras of 400 years
  let z := days + 719468
  let era := z / 146097
  let doe := z % 146097
  let yoe := (doe - doe / 1460 + doe / 36524 - doe / 146096) / 365
  let doy := doe - (365 * yoe + yoe / 4 - yoe / 100)
  let mp := (5 * doy + 2) / 153
  let day := doy - (153 * mp + 2) / 5 + 1
  let month := if mp < 10 then mp + 3 else mp - 9
  let year := yoe + era * 400 + (if month ≤ 2 then 1 else 0)
  let yearText :=
    if 0 ≤ year ∧ year ≤ 9999 then padded 4 year.toNat
    else (if year < 0 then "-" else "+") ++ padded 6 year.natAbs
  let date := yearText ++ "-" ++ padded 2 month.toNat ++ "-" ++ padded 2 day.toNat
  let hours := padded 2 (ms / 3600000)
  let minutes := padded 2 (ms / 60000 % 60)
  let seconds := padded 2 (ms / 1000 % 60)
  date ++ "T" ++ hours ++ ":" ++ minutes ++ ":" ++ seconds ++ "." ++ padded 3 (ms % 1000) ++ "Z"

/-- The marker of a takeover. -/
def takenOverNote (before : Lapsed) : RunNote :=
  { type := .leaseTakenOver
    step := none
    payload := .obj [("attempt", .num (before.attempt + 1)),
      ("lapsedAt", match before.leaseExpiresAt with
        | some t => .str (toISOString t)
        | none => .null)] }

/-- The takeover is the one that stops the run. -/
def Lapsed.atCap (before : Lapsed) (c : ClaimCall) : Bool :=
  decide (c.maxTakeovers ≤ before.takeovers + 1)

def takeoverWrite (c : ClaimCall) (before : Lapsed) (now : Time) : RunWrite :=
  { where' := fun row => c.due row && decide (row.leaseOwner = some before.leaseOwner)
    change := fun _ =>
      if before.atCap c then
        some { status := some .failed, error := some (some (takeoverLimitError c.maxTakeovers)),
               leaseOwner := some none, leaseExpiresAt := some none,
               attempt := some (before.attempt + 1), takeovers := some (before.takeovers + 1) }
      else
        some { leaseOwner := some (some c.token), leaseExpiresAt := some (some c.expiresAt),
               attempt := some (before.attempt + 1), takeovers := some (before.takeovers + 1) }
    notes := [takenOverNote before]
    now }

/-- What the second write returns when it lands. -/
def takeoverClaim (c : ClaimCall) (before : Lapsed) : RunClaim :=
  if before.atCap c then .stopped (takeoverLimitError c.maxTakeovers) (before.attempt + 1)
  else .claimed c.token c.expiresAt (before.attempt + 1) true

def whyNotClaimed (row : AgentRun) (step : Option Int) (now : Time) : NotClaimed :=
  if isTerminal row.status then .done
  else if step.any (fun s => decide (row.currentStep ≠ s)) then .movedOn
  else if (leased row).isSome && row.leaseExpiresAt.any (fun t => decide (now ≤ t)) then .held
  else .notDue

/-! ## Writes under a lease, and other writes -/

/-- The fence for a write made under a lease. -/
def heldBy (token : String) (row : AgentRun) : Bool :=
  token = "" || decide (row.leaseOwner = some token)

def renewWrite (token : String) (leaseMs : Int) (now : Time) : RunWrite :=
  { where' := fun row => decide (row.leaseOwner = some token)
    change := fun _ => some { leaseExpiresAt := some (some (now + leaseMs)) }
    select := true
    now }

def releaseWrite (token : String) (now : Time) : RunWrite :=
  { where' := fun row => decide (row.leaseOwner = some token)
    change := fun _ => some { leaseOwner := some none, leaseExpiresAt := some none }
    select := true
    now }

def commitStepWrite (token : String) (run : AgentRun) (steps : JsonValue) (expectedStep : Int)
    (notes : List RunNote) (now : Time) : RunWrite :=
  { where' := fun row => decide (row.currentStep = expectedStep) && !isTerminal row.status
      && heldBy token row
    change := fun _ => some
      { status := some run.status, currentStep := some run.currentStep,
        totalCost := some run.totalCost, totalTokens := some run.totalTokens,
        toolCallCount := some run.toolCallCount, executionTime := some run.executionTime,
        steps := some steps, output := some run.output, error := some run.error,
        workingMemory := some run.workingMemory, metadata := some run.metadata,
        nextWakeAt :=
          if run.status = .sleeping then some (some (run.nextWakeAt.getD now)) else none,
        takeovers := some 0 }
    notes
    now }

/-- Every logged column as an in-memory run holds it. -/
def runStateOf (run : AgentRun) : RunChange :=
  { status := some run.status, currentStep := some run.currentStep,
    totalCost := some run.totalCost, totalTokens := some run.totalTokens,
    toolCallCount := some run.toolCallCount, executionTime := some run.executionTime,
    output := some run.output, error := some run.error, workingMemory := some run.workingMemory,
    metadata := some run.metadata, steps := some run.steps,
    nextWakeAt := if run.status = .sleeping then run.nextWakeAt.map some else none }

def persistWrite (token : String) (run : AgentRun) (now : Time) : RunWrite :=
  { where' := heldBy token
    change := fun _ => some { runStateOf run with takeovers := some 0 }
    now }

inductive StepCommit
  | commitStep (run : AgentRun) (steps : JsonValue) (expectedStep : Int) (notes : List RunNote)
  | persist (run : AgentRun)

def StepCommit.write (commit : StepCommit) (token : String) (now : Time) : RunWrite :=
  match commit with
  | .commitStep run steps expectedStep notes =>
    commitStepWrite token run steps expectedStep notes now
  | .persist run => persistWrite token run now

structure RunChange.KeepsLease (asked : RunChange) : Prop where
  leaseOwner : asked.leaseOwner = none
  leaseExpiresAt : asked.leaseExpiresAt = none
  attempt : asked.attempt = none
  takeovers : asked.takeovers = none

structure StateWrite where
  write : RunWrite
  keepsLease : ∀ row asked, write.change row = some asked → asked.KeepsLease

def StateWrite.fenced (w : StateWrite) (token : String) : RunWrite :=
  { w.write with where' := fun row => w.write.where' row && heldBy token row }

/-! ## The system -/

inductive ClaimPhase
  | idle
  | lapsed (call : ClaimCall) (before : Lapsed)
  | refused (call : ClaimCall)
  | returned (claim : RunClaim)

inductive LeaseEvent
  | claimed (token : String) (prior : Option String) (takenOver : Bool)
  | stopped (token : String) (prior : String)
  | renewed (token : String)
  | released (token : String)
  | wrote (token : String)
  | committed (token : String)

structure LeaseState where
  store : RunStore
  calls : String → ClaimPhase
  history : List LeaseEvent

/-- One transaction of one party. -/
inductive LeaseAction
  | probe (c : ClaimCall)
  | takeOver (token : String) (now : Time)
  | whyNot (token : String)
  | renew (token : String) (leaseMs : Int) (now : Time)
  | release (token : String) (now : Time)
  | commit (token : String) (commit : StepCommit) (now : Time)
  | fenced (token : String) (w : StateWrite)
  | unfenced (w : StateWrite)

/-- The claim with this token returned `claimed: true`: its worker has the token
to renew, write and release with. -/
def LeaseState.granted (s : LeaseState) (token : String) : Bool :=
  match s.calls token with
  | .returned (.claimed ..) => true
  | _ => false

def setPhase (calls : String → ClaimPhase) (token : String) (phase : ClaimPhase) :
    String → ClaimPhase :=
  fun t => if t = token then phase else calls t

/-- The row a call wrote, if it wrote one. -/
def RunStore.written (store : RunStore) (w : RunWrite) : Option AgentRun :=
  match writeRun store w with
  | .ok (_, next) => next
  | .error _ => none

def LeaseState.writeAs (s : LeaseState) (token : String) (w : RunWrite) (event : LeaseEvent) :
    LeaseState :=
  if s.granted token then
    { s with
      store := s.store.write w
      history := if (s.store.written w).isSome then event :: s.history else s.history }
  else s

def LeaseState.probe (s : LeaseState) (c : ClaimCall) : LeaseState :=
  match s.store.written (probeWrite c) with
  | some row =>
    { store := s.store.write (probeWrite c)
      calls := setPhase s.calls c.token
        (.returned (.claimed c.token c.expiresAt row.attempt false))
      history := .claimed c.token s.store.row.leaseOwner false :: s.history }
  | none =>
    { s with
      calls := setPhase s.calls c.token
        (match probeLapsed c s.store.row with
        | some before => .lapsed c before
        | none => .refused c) }

/-- The second write of a claim that found a lapsed lease. -/
def LeaseState.takeOver (s : LeaseState) (token : String) (now : Time) : LeaseState :=
  match s.calls token with
  | .lapsed c before =>
    if (s.store.written (takeoverWrite c before now)).isSome then
      { store := s.store.write (takeoverWrite c before now)
        calls := setPhase s.calls token (.returned (takeoverClaim c before))
        history :=
          (if before.atCap c then .stopped c.token before.leaseOwner
            else .claimed c.token (some before.leaseOwner) true) :: s.history }
    else { s with calls := setPhase s.calls token (.refused c) }
  | _ => s

/-- The closing read of a claim that failed. -/
def LeaseState.whyNot (s : LeaseState) (token : String) : LeaseState :=
  match s.calls token with
  | .refused c =>
    { s with
      calls := setPhase s.calls token
        (.returned (.notClaimed (whyNotClaimed s.store.row c.step c.now))) }
  | _ => s

def LeaseState.step (s : LeaseState) : LeaseAction → LeaseState
  | .probe c => s.probe c
  | .takeOver token now => s.takeOver token now
  | .whyNot token => s.whyNot token
  | .renew token leaseMs now => s.writeAs token (renewWrite token leaseMs now) (.renewed token)
  | .release token now => s.writeAs token (releaseWrite token now) (.released token)
  | .commit token commit now => s.writeAs token (commit.write token now) (.committed token)
  | .fenced token w => s.writeAs token (w.fenced token) (.wrote token)
  | .unfenced w => { s with store := s.store.write w.write }

def LeaseState.start (store : RunStore) : LeaseState :=
  { store, calls := fun _ => .idle, history := [] }

end Almyty.Runs
