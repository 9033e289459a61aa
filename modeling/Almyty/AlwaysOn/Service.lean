import Almyty.Agents.Schedules
import Almyty.Runs.Events

/-!
# Always on: `always-on.service.ts`

An agent that is always on has an inbox of wakes (`agent_wakes`) and a standing thread, on which one
run at a time works. `wake` writes a wake and folds away the oldest of too many. `process` turns the
wakes that wait into a run: under a lock of the agent it looks for a live run, claims the wakes one
by one, starts the run and writes down which it is (`liveRunId`). A live run takes the wakes that
came meanwhile (`drainInto`). `configure`, `pause` and `resumeWithinCapacity` turn agents on and
off, within the number of agents on hosted machines that the plan includes.

A call is between two awaits. What it does to the database or to Redis at one is an `Effect`, and
`advance` says which, and where the call is then; `World.apply` is what the effect does.

Mirroring notes:
- Each command is a step, of any number of calls on any number of workers. A command may fail: then
  it has done nothing. Reads of what no call here writes (the plan, the access of the owner, the
  channels) come with the step: `Outside`.
- A save writes the whole row as the call has it in hand.
-/

namespace Almyty.AlwaysOn

open Almyty.Lib
open Almyty.Agents (AgentStatus Uuid)
open Almyty.Runs (AgentRunStatus)

inductive AgentMode
  | workflow
  | autonomous
  deriving DecidableEq

inductive PauseCode
  | modelNotFound
  | ownerCannotRun
  | ownerNotMember
  | restoreFailed
  | wakeLoop
  | capacityExhausted
  | identityLapsed
  deriving DecidableEq

/-- `PAUSE_WORDS`. -/
def PauseCode.words : PauseCode → String
  | .modelNotFound => "its model is gone"
  | .ownerCannotRun => "its owner can no longer run it"
  | .ownerNotMember => "its owner is no longer a member"
  | .restoreFailed => "its timer could not be restored"
  | .wakeLoop => "it woke too often"
  | .capacityExhausted => "the plan has no room for it"
  | .identityLapsed => "the plan no longer lets it act as itself"

structure AgentPauseReason where
  code : PauseCode
  detectedAt : Int
  deriving DecidableEq

structure AlwaysOnConfig where
  enabled : Bool
  home : Option String := none
  pausedReason : Option AgentPauseReason := none
  enabledAt : Option Int := none
  standingConversationId : Option Uuid := none
  liveRunId : Option Uuid := none
  deriving DecidableEq

structure Agent where
  organizationId : Uuid
  status : AgentStatus
  mode : AgentMode
  createdAt : Int
  alwaysOn : Option AlwaysOnConfig
  deriving DecidableEq

inductive WakeStatus
  | queued
  | consumed
  | coalesced
  | dropped
  deriving DecidableEq

structure AgentWake where
  agentId : Uuid
  createdAt : Int
  dedupeKey : String
  ownerMessage : Bool
  status : WakeStatus := .queued
  runId : Option Uuid := none
  note : Option String := none
  among : Nat := 0

structure AgentRun where
  agentId : Uuid
  status : AgentRunStatus
  conversationId : Uuid

def maxQueuedWakes : Nat := 100

def maxWakesPerRun : Nat := 50

/-- `LIVE_STATUSES`. -/
def liveStatuses : List AgentRunStatus := [.running, .sleeping, .waitingInput, .waitingApproval]

def AgentRun.live (run : AgentRun) : Bool := run.status ∈ liveStatuses

def hasHostedHome (config : AlwaysOnConfig) : Bool := config.home.any (· ≠ "")

def mergeAlwaysOn (current : Option AlwaysOnConfig) (enabled : Option Bool) (now : Int) :
    AlwaysOnConfig :=
  let base := current.getD { enabled := false }
  if enabled = some true then
    { base with
      enabled := true
      pausedReason := none
      enabledAt := if base.enabled then base.enabledAt else some now }
  else { base with enabled := enabled.getD base.enabled }

/-! ## The calls -/

inductive ServiceError
  | notFound (message : String)
  | badRequest (message : String)
  | database
  deriving DecidableEq

structure WakeInput where
  createdAt : Int
  dedupeKey : String
  ownerMessage : Bool
  deriving DecidableEq

inductive WakeStage
  | opening
  | deduping
  | inserting
  | counting
  | finding (take : Nat)
  | coalescing (oldest : List Uuid)
  | returned (written : Bool)
  | failed
  deriving DecidableEq

inductive ResumeStage
  | opening
  | saving (back : List (Uuid × Agent))
  | returned
  | failed
  deriving DecidableEq

inductive PauseStage
  | opening
  | saving (agent : Agent)
  | dropping (agent : Agent)
  | resuming (agent : Agent) (stage : ResumeStage)
  | returned
  | failed
  deriving DecidableEq

inductive ConfigureStage
  | opening
  | counting (before next : Agent)
  | saving (before next : Agent)
  | dropping (next : Agent)
  | resuming (next : Agent) (stage : ResumeStage)
  | returned
  | failed (error : ServiceError)
  deriving DecidableEq

inductive ProcessResult
  | started
  | live
  | idle
  | busy
  | off
  | paused
  deriving DecidableEq

inductive ProcessStage
  | locking
  | opening (token : Nat)
  | dropping (token : Nat)
  | counting (token : Nat) (agent : Agent)
  | finding (token : Nat) (agent : Agent)
  | looking (token : Nat) (agent : Agent) (queued : List Uuid)
  | claimingOwner (token : Nat) (runId : Uuid) (owner todo won : List Uuid)
  | answering (token : Nat) (runId : Uuid) (owner won : List Uuid)
  | judging (token : Nat) (agent : Agent) (queued : List Uuid)
  | claiming (token : Nat) (agent : Agent) (todo won : List Uuid)
  | starting (token : Nat) (agent : Agent) (claimed : List Uuid)
  | queueing (token : Nat) (runId : Uuid) (claimed : List Uuid)
  | naming (token : Nat) (runId : Uuid) (claimed : List Uuid)
  | rereading (token : Nat) (runId : Uuid)
  | recording (token : Nat) (runId : Uuid) (fresh : Agent)
  | reopening (token : Nat) (agent : Agent) (claimed : List Uuid)
  | unclaiming (token : Nat) (claimed : List Uuid)
  | refusing (token : Nat) (claimed : List Uuid)
  | pausing (token : Nat) (code : PauseCode) (stage : PauseStage)
  | unlocking (token : Nat) (result : Option ProcessResult)
  | deleting (token : Nat) (result : Option ProcessResult)
  | returned (result : ProcessResult)
  | failed
  deriving DecidableEq

inductive DrainStage
  | opening
  | claiming (todo won : List Uuid)
  | messaging (won : List Uuid)
  | returned (handed : Nat)
  | failed
  deriving DecidableEq

inductive Call
  | wake (agentId organizationId : Uuid) (input : WakeInput) (stage : WakeStage)
  | process (agentId organizationId : Uuid) (stage : ProcessStage)
  | drainInto (runId agentId : Uuid) (stage : DrainStage)
  | configure (agentId organizationId : Uuid) (enabled : Option Bool) (stage : ConfigureStage)
  | pause (agentId : Uuid) (code : PauseCode) (stage : PauseStage)
  | resume (organizationId : Uuid) (stage : ResumeStage)
  deriving DecidableEq

structure World where
  agents : List (Uuid × Agent)
  /-- How many agents on hosted machines the plan of an organization includes; no entry is no
  limit. -/
  includedAgents : List (Uuid × Nat)
  wakes : List AgentWake := []
  runs : List AgentRun := []
  locks : List (Uuid × Nat) := []
  tokens : Nat := 0
  handed : List (Uuid × Uuid) := []
  calls : List Call := []

/-- What a step gets from elsewhere. -/
structure Outside where
  /-- The command succeeds. -/
  ok : Bool := true
  now : Int := 0
  /-- The other checks of `configure` let the input through. -/
  allowed : Bool := true
  /-- What `process` pauses the agent for: too many runs, its owner, its identity. -/
  pause : Option PauseCode := none
  /-- The error of `startRun` is that the standing conversation is gone. -/
  conversationGone : Bool := false
  /-- The conversation of a run on a new thread. -/
  conversationId : Uuid := 0

inductive Effect
  | nothing
  | saveAgent (id : Uuid) (agent : Agent)
  | insertWake (wake : AgentWake)
  | claimWake (id : Uuid) (runId : Option Uuid)
  | unclaim (ids : List Uuid)
  | dropWakes (ids : List Uuid) (note : String)
  | coalesce (agentId : Uuid) (ids : List Uuid)
  | dropQueued (agentId : Uuid) (note : String)
  | nameRun (ids : List Uuid) (runId : Uuid)
  | saveRun (run : AgentRun) (wakeIds : List Uuid)
  | sendInput (runId : Uuid) (wakeIds : List Uuid)
  | saveMessage (runId : Uuid) (wakeIds : List Uuid)
  | lock (agentId : Uuid)
  | unlock (agentId : Uuid)

/-! ## Reads -/

def Agent.enabled (agent : Agent) : Bool := agent.alwaysOn.any (·.enabled)

def Agent.hosted (agent : Agent) : Bool := agent.alwaysOn.any hasHostedHome

def Agent.runsIn (agent : Agent) (organizationId : Uuid) : Bool :=
  agent.organizationId = organizationId && agent.status = .active && agent.mode = .autonomous

def Agent.hostedOn (agent : Agent) (organizationId : Uuid) : Bool :=
  agent.runsIn organizationId && agent.enabled && agent.hosted

def Agent.waits (agent : Agent) (organizationId : Uuid) : Bool :=
  agent.runsIn organizationId && !agent.enabled &&
    agent.alwaysOn.any fun config => config.pausedReason.any (·.code = .capacityExhausted)

def Agent.onSince (agent : Agent) : Int :=
  (agent.alwaysOn.bind (·.enabledAt)).getD agent.createdAt

def Agent.pausedAt (agent : Agent) : Int :=
  ((agent.alwaysOn.bind (·.pausedReason)).map (·.detectedAt)).getD 0

def Agent.updated (agent : Agent) (f : AlwaysOnConfig → AlwaysOnConfig) : Agent :=
  { agent with alwaysOn := agent.alwaysOn.map f }

/-- Turned back on. -/
def Agent.resumed (agent : Agent) (now : Int) : Agent :=
  agent.updated fun config =>
    { config with enabled := true, pausedReason := none, enabledAt := some now }

def Agent.paused (agent : Agent) (code : PauseCode) (now : Int) : Agent :=
  agent.updated fun config => { config with enabled := false, pausedReason := some ⟨code, now⟩ }

def Agent.recorded (agent : Agent) (runId : Uuid) (conversationId : Option Uuid) : Agent :=
  agent.updated fun config =>
    { config with
      liveRunId := some runId
      standingConversationId := config.standingConversationId.or conversationId }

/-- Its standing conversation is gone. -/
def Agent.reopened (agent : Agent) : Agent :=
  agent.updated fun config => { config with standingConversationId := none }

namespace World

def findAgent (w : World) (id organizationId : Uuid) : Option Agent :=
  (w.agents.lookup id).filter (·.organizationId = organizationId)

def wokenAt (w : World) (wakeId : Uuid) : Int := (w.wakes[wakeId]?).elim 0 (·.createdAt)

def queued (w : World) (agentId : Uuid) : List Uuid :=
  ((List.range w.wakes.length).filter fun id =>
    (w.wakes[id]?).any fun wake => wake.agentId = agentId && wake.status = .queued).insertionSort
    fun a b => w.wokenAt a ≤ w.wokenAt b

/-- The standing thread's run that is still going. -/
def liveRun (w : World) (agentId : Uuid) (agent : Agent) : Option (Uuid × AgentRun) :=
  match agent.alwaysOn.bind (·.liveRunId) with
  | none => none
  | some runId =>
    ((w.runs[runId]?).filter fun run => run.agentId = agentId && run.live).map (runId, ·)

def hostedAgentsOn (w : World) (organizationId : Uuid) : List (Uuid × Agent) :=
  (w.agents.filter (·.2.hostedOn organizationId)).insertionSort fun a b =>
    a.2.onSince < b.2.onSince ∨ a.2.onSince = b.2.onSince ∧ a.1 ≤ b.1

def beyondIncluded (w : World) (id : Uuid) (agent : Agent) : Bool :=
  agent.hosted && (w.includedAgents.lookup agent.organizationId).any fun included =>
    let on := w.hostedAgentsOn agent.organizationId
    let rank := on.findIdx (·.1 = id)
    rank < on.length && included ≤ rank

def waiting (w : World) (organizationId : Uuid) : List (Uuid × Agent) :=
  (w.agents.filter (·.2.waits organizationId)).insertionSort fun a b =>
    a.2.pausedAt ≤ b.2.pausedAt

/-- How many more the plan has room for; `none` is no limit. -/
def room (w : World) (organizationId : Uuid) : Option Nat :=
  (w.includedAgents.lookup organizationId).map fun included =>
    included - (w.agents.filter (·.2.hostedOn organizationId)).length

end World

def takeBack : Option Nat → List (Uuid × Agent) → List (Uuid × Agent)
  | _, [] => []
  | room, entry :: waiting =>
    if !entry.2.hosted then entry :: takeBack room waiting
    else
      match room with
      | none => entry :: takeBack none waiting
      | some 0 => takeBack (some 0) waiting
      | some (room + 1) => entry :: takeBack (some room) waiting

/-! ## What the calls do -/

def WakeStage.coalescingNext : List Uuid → WakeStage
  | [] => .returned true
  | oldest => .coalescing oldest

def ResumeStage.savingNext : List (Uuid × Agent) → ResumeStage
  | [] => .returned
  | back => .saving back

def DrainStage.claimingNext : List Uuid → List Uuid → DrainStage
  | [], [] => .returned 0
  | [], won => .messaging won
  | todo, won => .claiming todo won

def ProcessStage.claimingOwnerNext (token : Nat) (runId : Uuid) (owner : List Uuid) :
    List Uuid → List Uuid → ProcessStage
  | [], won => .answering token runId owner won
  | todo, won => .claimingOwner token runId owner todo won

def ProcessStage.claimingNext (token : Nat) (agent : Agent) :
    List Uuid → List Uuid → ProcessStage
  | [], [] => .unlocking token (some .idle)
  | [], won => .starting token agent won
  | todo, won => .claiming token agent todo won

/-- After `unlock`. -/
def ProcessStage.ended : Option ProcessResult → ProcessStage
  | some result => .returned result
  | none => .failed

def World.wonNext (w : World) (won : List Uuid) (id : Uuid) : List Uuid :=
  if (w.wakes[id]?).any (·.status = .queued) then won ++ [id] else won

def advanceWake (w : World) (out : Outside) (agentId organizationId : Uuid) (input : WakeInput) :
    WakeStage → Effect × WakeStage
  | .opening =>
    if !out.ok then (.nothing, .failed)
    else if ((w.findAgent agentId organizationId).any (·.enabled)) then (.nothing, .deduping)
    else (.nothing, .returned false)
  | .deduping =>
    if !out.ok then (.nothing, .failed)
    else if w.wakes.any fun wake => wake.agentId = agentId && wake.dedupeKey = input.dedupeKey then
      (.nothing, .returned false)
    else (.nothing, .inserting)
  | .inserting =>
    if !out.ok then (.nothing, .failed)
    -- the unique index
    else if w.wakes.any fun wake => wake.agentId = agentId && wake.dedupeKey = input.dedupeKey then
      (.nothing, .returned false)
    else
      (.insertWake { agentId, createdAt := input.createdAt, dedupeKey := input.dedupeKey
                     ownerMessage := input.ownerMessage }, .counting)
  | .counting =>
    if !out.ok then (.nothing, .failed)
    else if (w.queued agentId).length ≤ maxQueuedWakes then (.nothing, .returned true)
    else (.nothing, .finding ((w.queued agentId).length - maxQueuedWakes))
  | .finding take =>
    if !out.ok then (.nothing, .failed)
    else (.nothing, .coalescingNext ((w.queued agentId).take take))
  | .coalescing oldest =>
    if !out.ok then (.nothing, .failed) else (.coalesce agentId oldest, .returned true)
  | stage => (.nothing, stage)

def advanceResume (w : World) (out : Outside) (organizationId : Uuid) :
    ResumeStage → Effect × ResumeStage
  | .opening =>
    if !out.ok then (.nothing, .failed)
    else (.nothing, .savingNext (takeBack (w.room organizationId) (w.waiting organizationId)))
  | .saving ((id, agent) :: back) =>
    if !out.ok then (.nothing, .failed)
    else (.saveAgent id (agent.resumed out.now), .savingNext back)
  | stage => (.nothing, stage)

def advancePause (w : World) (out : Outside) (id : Uuid) (code : PauseCode) :
    PauseStage → Effect × PauseStage
  | .opening =>
    if !out.ok then (.nothing, .failed)
    else
      match w.agents.lookup id with
      | none => (.nothing, .failed)
      | some agent =>
        if agent.alwaysOn.isNone then (.nothing, .returned) else (.nothing, .saving agent)
  | .saving agent =>
    if !out.ok then (.nothing, .failed)
    else (.saveAgent id (agent.paused code out.now), .dropping agent)
  | .dropping agent =>
    if !out.ok then (.nothing, .failed)
    else
      (.dropQueued id ("paused: " ++ code.words),
        if code = .capacityExhausted then .returned else .resuming agent .opening)
  | .resuming agent stage =>
    let (effect, stage) := advanceResume w out agent.organizationId stage
    (effect, match stage with
      | .returned | .failed => .returned
      | stage => .resuming agent stage)
  | stage => (.nothing, stage)

def advanceConfigure (w : World) (out : Outside) (id organizationId : Uuid)
    (enabled : Option Bool) : ConfigureStage → Effect × ConfigureStage
  | .opening =>
    if !out.ok then (.nothing, .failed .database)
    else
      match w.findAgent id organizationId with
      | none => (.nothing, .failed (.notFound "Agent not found"))
      | some before =>
        let next := { before with alwaysOn := some (mergeAlwaysOn before.alwaysOn enabled out.now) }
        if before.mode ≠ .autonomous then
          (.nothing, .failed (.badRequest
            "Always on is for autonomous agents. Use a schedule or a webhook for a workflow."))
        else if next.enabled && before.status ≠ .active then
          (.nothing, .failed (.badRequest
            "Activate this agent before turning Always on on. An inactive agent never wakes."))
        else if next.enabled && !before.enabled && next.hosted &&
            (w.includedAgents.lookup organizationId).isSome then
          (.nothing, .counting before next)
        else (.nothing, .saving before next)
  | .counting before next =>
    let others := (w.hostedAgentsOn organizationId).filter (·.1 ≠ id)
    if !out.ok then (.nothing, .failed .database)
    else if (w.includedAgents.lookup organizationId).any (· ≤ others.length) then
      (.nothing, .failed (.badRequest "Your plan includes no more always-on agents"))
    else (.nothing, .saving before next)
  | .saving before next =>
    if !out.allowed then (.nothing, .failed (.badRequest "The settings are refused"))
    else if !out.ok then (.nothing, .failed .database)
    else
      (.saveAgent id next, if before.enabled && !next.enabled then .dropping next else .returned)
  | .dropping next =>
    if !out.ok then (.nothing, .failed .database)
    else (.dropQueued id "Always on was turned off", .resuming next .opening)
  | .resuming next stage =>
    let (effect, stage) := advanceResume w out organizationId stage
    (effect, match stage with
      | .returned => .returned
      | .failed => .failed .database
      | stage => .resuming next stage)
  | stage => (.nothing, stage)

def advanceProcess (w : World) (out : Outside) (agentId organizationId : Uuid) :
    ProcessStage → Effect × ProcessStage
  | .locking =>
    if !out.ok then (.nothing, .failed)
    else if (w.locks.lookup agentId).isSome then (.nothing, .returned .busy)
    else (.lock agentId, .opening w.tokens)
  | .opening token =>
    if !out.ok then (.nothing, .unlocking token none)
    else
      match w.findAgent agentId organizationId with
      | none => (.nothing, .dropping token)
      | some agent =>
        if agent.enabled && agent.status = .active then (.nothing, .counting token agent)
        else (.nothing, .dropping token)
  | .dropping token =>
    if !out.ok then (.nothing, .unlocking token none)
    else (.dropQueued agentId "Always on is off", .unlocking token (some .off))
  | .counting token agent =>
    if !out.ok then (.nothing, .unlocking token none)
    else if w.beyondIncluded agentId agent then
      (.nothing, .pausing token .capacityExhausted (.saving agent))
    else (.nothing, .finding token agent)
  | .finding token agent =>
    if !out.ok then (.nothing, .unlocking token none)
    else
      match (w.queued agentId).take maxWakesPerRun with
      | [] => (.nothing, .unlocking token (some .idle))
      | queued => (.nothing, .looking token agent queued)
  | .looking token agent queued =>
    if !out.ok then (.nothing, .unlocking token none)
    else
      match w.liveRun agentId agent with
      | none => (.nothing, .judging token agent queued)
      | some (runId, run) =>
        match queued.filter fun id => (w.wakes[id]?).any (·.ownerMessage) with
        | [] => (.nothing, .unlocking token (some .live))
        | owner =>
          if run.status = .waitingInput then (.nothing, .claimingOwner token runId owner owner [])
          else (.nothing, .unlocking token (some .live))
  | .claimingOwner token runId owner (id :: todo) won =>
    if !out.ok then (.nothing, .unlocking token none)
    else
      (.claimWake id (some runId), .claimingOwnerNext token runId owner todo (w.wonNext won id))
  | .answering token runId owner _ =>
    -- `rememberReplies`, and `sendInput` with all of `owner`
    if !out.ok || !(w.runs[runId]?).any (·.status = .waitingInput) then
      (.nothing, .unlocking token none)
    else (.sendInput runId owner, .unlocking token (some .live))
  | .judging token agent queued =>
    if !out.ok then (.nothing, .unlocking token none)
    else
      match out.pause with
      | some code => (.nothing, .pausing token code (.saving agent))
      | none => (.nothing, .claiming token agent queued [])
  | .claiming token agent (id :: todo) won =>
    if !out.ok then (.nothing, .unlocking token none)
    else (.claimWake id none, .claimingNext token agent todo (w.wonNext won id))
  | .starting token agent claimed =>
    let conversationId := agent.alwaysOn.bind (·.standingConversationId)
    if out.ok then
      (.saveRun
        { agentId, status := .running, conversationId := conversationId.getD out.conversationId }
        claimed, .queueing token w.runs.length claimed)
    else if conversationId.isSome && out.conversationGone then
      (.nothing, .reopening token agent claimed)
    else (.nothing, .refusing token claimed)
  | .queueing token runId claimed =>
    -- the last part of `startRun`: its run is there
    if !out.ok then (.nothing, .refusing token claimed)
    else (.nothing, .naming token runId claimed)
  | .naming token runId claimed =>
    if !out.ok then (.nothing, .unlocking token none)
    else (.nameRun claimed runId, .rereading token runId)
  | .rereading token runId =>
    if !out.ok then (.nothing, .unlocking token none)
    else
      match w.findAgent agentId organizationId with
      | none => (.nothing, .unlocking token (some .started))
      | some fresh =>
        if fresh.alwaysOn.isNone then (.nothing, .unlocking token (some .started))
        else (.nothing, .recording token runId fresh)
  | .recording token runId fresh =>
    if !out.ok then (.nothing, .unlocking token none)
    else
      (.saveAgent agentId (fresh.recorded runId ((w.runs[runId]?).map (·.conversationId))),
        .unlocking token (some .started))
  | .reopening token agent claimed =>
    if !out.ok then (.nothing, .unlocking token none)
    else (.saveAgent agentId agent.reopened, .unclaiming token claimed)
  | .unclaiming token claimed =>
    if !out.ok then (.nothing, .unlocking token none)
    else (.unclaim claimed, .unlocking token (some .idle))
  | .refusing token claimed =>
    if !out.ok then (.nothing, .unlocking token none)
    else (.dropWakes claimed "not started", .unlocking token (some .idle))
  | .pausing token code stage =>
    let (effect, stage) := advancePause w out agentId code stage
    (effect, match stage with
      | .returned => .unlocking token (some .paused)
      | .failed => .unlocking token none
      | stage => .pausing token code stage)
  | .unlocking token result =>
    if out.ok && w.locks.lookup agentId = some token then (.nothing, .deleting token result)
    else (.nothing, .ended result)
  | .deleting _ result => (if out.ok then .unlock agentId else .nothing, .ended result)
  | stage => (.nothing, stage)

def advanceDrain (w : World) (out : Outside) (runId agentId : Uuid) :
    DrainStage → Effect × DrainStage
  | .opening =>
    if !out.ok then (.nothing, .failed)
    else (.nothing, .claimingNext ((w.queued agentId).take maxWakesPerRun) [])
  | .claiming (id :: todo) won =>
    if !out.ok then (.nothing, .failed)
    else (.claimWake id (some runId), .claimingNext todo (w.wonNext won id))
  | .messaging won =>
    if !out.ok then (.nothing, .failed) else (.saveMessage runId won, .returned won.length)
  | stage => (.nothing, stage)

def advance (w : World) (out : Outside) : Call → Effect × Call
  | .wake agentId organizationId input stage =>
    let (effect, stage) := advanceWake w out agentId organizationId input stage
    (effect, .wake agentId organizationId input stage)
  | .process agentId organizationId stage =>
    let (effect, stage) := advanceProcess w out agentId organizationId stage
    (effect, .process agentId organizationId stage)
  | .drainInto runId agentId stage =>
    let (effect, stage) := advanceDrain w out runId agentId stage
    (effect, .drainInto runId agentId stage)
  | .configure agentId organizationId enabled stage =>
    let (effect, stage) := advanceConfigure w out agentId organizationId enabled stage
    (effect, .configure agentId organizationId enabled stage)
  | .pause agentId code stage =>
    let (effect, stage) := advancePause w out agentId code stage
    (effect, .pause agentId code stage)
  | .resume organizationId stage =>
    let (effect, stage) := advanceResume w out organizationId stage
    (effect, .resume organizationId stage)

def World.updateWakes (w : World) (ids : List Uuid) (f : AgentWake → AgentWake) : World :=
  { w with wakes := w.wakes.mapIdx fun id wake => if id ∈ ids then f wake else wake }

def World.handOver (w : World) (runId : Uuid) (wakeIds : List Uuid) : World :=
  { w with handed := w.handed ++ wakeIds.map (·, runId) }

def World.setRunStatus (w : World) (runId : Uuid) (status : AgentRunStatus) : World :=
  { w with runs := w.runs.modify runId fun run => { run with status } }

def World.apply (w : World) : Effect → World
  | .nothing => w
  | .saveAgent id agent => { w with agents := Assoc.put w.agents id agent }
  | .insertWake wake => { w with wakes := w.wakes ++ [wake] }
  | .claimWake id runId =>
    w.updateWakes [id] fun wake =>
      if wake.status = .queued then { wake with status := .consumed, runId := runId.or wake.runId }
      else wake
  | .unclaim ids => w.updateWakes ids fun wake => { wake with status := .queued, runId := none }
  | .dropWakes ids note =>
    w.updateWakes ids fun wake => { wake with status := .dropped, note := some note }
  | .coalesce agentId ids =>
    w.updateWakes ids fun wake =>
      { wake with
        status := .coalesced
        note := some "too many wakes waiting"
        among := (w.queued agentId).length }
  | .dropQueued agentId note =>
    { w with wakes := w.wakes.map fun wake =>
      if wake.agentId = agentId ∧ wake.status = .queued then
        { wake with status := .dropped, note := some note }
      else wake }
  | .nameRun ids runId => w.updateWakes ids fun wake => { wake with runId := some runId }
  | .saveRun run wakeIds =>
    { w with runs := w.runs ++ [run] }.handOver w.runs.length wakeIds
  | .sendInput runId wakeIds => (w.setRunStatus runId .running).handOver runId wakeIds
  | .saveMessage runId wakeIds => w.handOver runId wakeIds
  | .lock agentId =>
    { w with locks := Assoc.put w.locks agentId w.tokens, tokens := w.tokens + 1 }
  | .unlock agentId => { w with locks := Assoc.erase w.locks agentId }

def World.moved (w : World) (i : Nat) (effect : Effect) (call : Call) : World :=
  { w.apply effect with calls := w.calls.set i call }

def Call.opened : Call → Call
  | .wake agentId organizationId input _ => .wake agentId organizationId input .opening
  | .process agentId organizationId _ => .process agentId organizationId .locking
  | .drainInto runId agentId _ => .drainInto runId agentId .opening
  | .configure agentId organizationId enabled _ =>
    .configure agentId organizationId enabled .opening
  | .pause agentId code _ => .pause agentId code .opening
  | .resume organizationId _ => .resume organizationId .opening

inductive Action
  | begin (call : Call)
  | advance (i : Nat) (out : Outside)
  /-- A run goes on, waits or ends. -/
  | runBecomes (runId : Uuid) (status : AgentRunStatus)
  /-- The lock of the agent expires. -/
  | expire (agentId : Uuid)

/-- So many steps of a call, with nothing in its way. -/
def Action.times (i steps : Nat) : List Action := List.replicate steps (.advance i {})

def step (w : World) : Action → World
  | .begin call => { w with calls := w.calls ++ [call.opened] }
  | .advance i out =>
    match w.calls[i]? with
    | none => w
    | some call =>
      let (effect, call) := AlwaysOn.advance w out call
      w.moved i effect call
  | .runBecomes runId status =>
    -- a run that has ended stays so
    if (w.runs[runId]?).any (·.live) then w.setRunStatus runId status else w
  | .expire agentId => { w with locks := Assoc.erase w.locks agentId }

end Almyty.AlwaysOn
