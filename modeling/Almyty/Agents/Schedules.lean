import Almyty.Lib.Assoc

/-!
# An agent's schedule and its job: `agent-scheduler.service.ts`

Whether an agent runs on a schedule, and when, is in two places: in the `settings.schedule` of its
row, which the pages read, and in the table of repeatable jobs of the queue, which fires. Turning a
schedule on saves the row and then replaces the job; turning it off removes the job and then saves
the row; and a replica that starts (`restoreSchedules`) clears the table and fills it from the rows.

Mirroring notes:
- Each command of the repository or the queue is a step, of any number of calls on any number of
  replicas. A command may fail: then it has done nothing.
- A repeatable job is its agent and its timing.
- A timing is as `normalizeTiming` has left it, so `repeatFor` does not throw.
-/

namespace Almyty.Agents

open Almyty.Lib

abbrev Uuid := Nat

inductive AgentStatus
  | draft
  | active
  | inactive
  | error
  deriving DecidableEq

inductive ScheduleTiming
  | interval (intervalMinutes : Nat)
  | days (hour minute : Nat) (days : List Nat) (timezone : String)
  | monthly (hour minute : Nat) (dayOfMonth : Option Nat) (timezone : String)

structure AgentScheduleConfig where
  enabled : Bool
  timing : ScheduleTiming
  pausedReason : Option String := none

structure Agent where
  organizationId : Uuid
  status : AgentStatus
  schedule : Option AgentScheduleConfig := none

inductive Repeat
  | every (ms : Nat)
  | cron (cron tz : String)
  deriving DecidableEq

instance : LawfulBEq (Uuid × Repeat) := inferInstance

def repeatFor : ScheduleTiming → Repeat
  | .interval intervalMinutes => .every (intervalMinutes * 60 * 1000)
  | .days hour minute days timezone =>
    .cron (toString minute ++ " " ++ toString hour ++ " * * " ++
      if days.length = 7 then "*" else ",".intercalate (days.map toString)) timezone
  | .monthly hour minute dayOfMonth timezone =>
    .cron (toString minute ++ " " ++ toString hour ++ " " ++
      (dayOfMonth.elim "L" toString) ++ " * *") timezone

def Agent.repeat (agent : Agent) : Option Repeat :=
  (agent.schedule.filter (·.enabled)).map (repeatFor ·.timing)

inductive ScheduleError
  | notFound (message : String)
  | badRequest (message : String)
  | database
  | queue

/-! ## The calls -/

inductive ScheduleStage
  | opening
  | checking (agent : Agent)
  | saving (agent : Agent)
  | listing
  | removing (repeats : List Repeat)
  | adding
  | returned
  | failed (error : ScheduleError)

inductive UnscheduleStage
  | opening
  | listing (agent : Agent)
  | removing (agent : Agent) (repeats : List Repeat)
  | saving (agent : Agent)
  | returned
  | failed (error : ScheduleError)

structure Restoring where
  id : Uuid
  agent : Agent
  repeat' : Repeat

inductive RestoreStage
  | listing
  | removing (jobs : List (Uuid × Repeat))
  | finding
  | adding (restoring : List Restoring) (failed : List (Uuid × Agent))
  | marking (failed : List (Uuid × Agent))
  | returned

inductive Call
  | schedule (agentId organizationId : Uuid) (timing : ScheduleTiming) (stage : ScheduleStage)
  | unschedule (agentId organizationId : Uuid) (stage : UnscheduleStage)
  | restore (stage : RestoreStage)

structure World where
  agents : List (Uuid × Agent)
  jobs : List (Uuid × Repeat)
  calls : List Call := []

/-- What a step gets from elsewhere: whether the command succeeds, and whether `checkDelivery`
takes where the result is to go. -/
structure Outside where
  ok : Bool := true
  deliverable : Bool := true

namespace World

def getAgent (w : World) (id organizationId : Uuid) : Option Agent :=
  (w.agents.lookup id).filter (·.organizationId = organizationId)

def saveAgent (w : World) (id : Uuid) (agent : Agent) : World :=
  { w with agents := Assoc.put w.agents id agent }

def repeatsOf (w : World) (id : Uuid) : List Repeat :=
  (w.jobs.filter (·.1 = id)).map (·.2)

def removeRepeatableByKey (w : World) (job : Uuid × Repeat) : World :=
  { w with jobs := w.jobs.filter (· ≠ job) }

def enqueueRepeatableJob (w : World) (job : Uuid × Repeat) : World :=
  { w with jobs := if job ∈ w.jobs then w.jobs else w.jobs ++ [job] }

end World

def ScheduleStage.removingNext : List Repeat → ScheduleStage
  | [] => .adding
  | repeats => .removing repeats

def UnscheduleStage.removingNext (agent : Agent) : List Repeat → UnscheduleStage
  | [] => .saving agent
  | repeats => .removing agent repeats

def RestoreStage.removingNext : List (Uuid × Repeat) → RestoreStage
  | [] => .finding
  | jobs => .removing jobs

def RestoreStage.markingNext : List (Uuid × Agent) → RestoreStage
  | [] => .returned
  | failed => .marking failed

def RestoreStage.addingNext (failed : List (Uuid × Agent)) : List Restoring → RestoreStage
  | [] => .markingNext failed
  | restoring => .adding restoring failed

def advanceSchedule (w : World) (out : Outside) (id organizationId : Uuid)
    (timing : ScheduleTiming) : ScheduleStage → World × ScheduleStage
  | .opening =>
    if !out.ok then (w, .failed .database)
    else
      match w.getAgent id organizationId with
      | none => (w, .failed (.notFound ("Agent not found: " ++ toString id)))
      | some agent =>
        if agent.status ≠ .active then
          (w, .failed (.badRequest ("Activate this agent before scheduling it. " ++
            "A schedule on an inactive agent never runs.")))
        else (w, .checking agent)
  | .checking agent =>
    (w, if out.deliverable then .saving agent
      else .failed (.badRequest "the result cannot be sent there"))
  | .saving agent =>
    if !out.ok then (w, .failed .database)
    else (w.saveAgent id { agent with schedule := some { enabled := true, timing } }, .listing)
  | .listing => (w, if out.ok then .removingNext (w.repeatsOf id) else .adding)
  | .removing (repeat' :: repeats) =>
    if out.ok then (w.removeRepeatableByKey (id, repeat'), .removingNext repeats)
    else (w, .adding)
  | .adding =>
    if out.ok then (w.enqueueRepeatableJob (id, repeatFor timing), .returned)
    else (w, .failed .queue)
  | stage => (w, stage)

def Agent.disabled (agent : Agent) : Agent :=
  { agent with schedule := agent.schedule.map fun schedule => { schedule with enabled := false } }

def advanceUnschedule (w : World) (out : Outside) (id organizationId : Uuid) :
    UnscheduleStage → World × UnscheduleStage
  | .opening =>
    if !out.ok then (w, .failed .database)
    else
      match w.getAgent id organizationId with
      | none => (w, .failed (.notFound ("Agent not found: " ++ toString id)))
      | some agent => (w, .listing agent)
  | .listing agent => (w, if out.ok then .removingNext agent (w.repeatsOf id) else .saving agent)
  | .removing agent (repeat' :: repeats) =>
    if out.ok then (w.removeRepeatableByKey (id, repeat'), .removingNext agent repeats)
    else (w, .saving agent)
  | .saving agent =>
    if !out.ok then (w, .failed .database) else (w.saveAgent id agent.disabled, .returned)
  | stage => (w, stage)

/-- The agents a restore gives their jobs again. -/
def World.restoring (w : World) : List Restoring :=
  w.agents.filterMap fun (id, agent) =>
    if agent.status = .active then agent.repeat.map (⟨id, agent, ·⟩) else none

def Agent.unrestored (agent : Agent) : Agent :=
  { agent with schedule := agent.schedule.map fun schedule =>
    { schedule with enabled := false, pausedReason := some "RESTORE_FAILED" } }

def advanceRestore (w : World) (out : Outside) : RestoreStage → World × RestoreStage
  | .listing => (w, if out.ok then .removingNext w.jobs else .returned)
  | .removing (job :: jobs) =>
    if out.ok then (w.removeRepeatableByKey job, .removingNext jobs) else (w, .returned)
  | .finding => (w, if out.ok then .addingNext [] w.restoring else .returned)
  | .adding (⟨id, agent, repeat'⟩ :: restoring) failed =>
    if out.ok then (w.enqueueRepeatableJob (id, repeat'), .addingNext failed restoring)
    else (w, .addingNext (failed ++ [(id, agent)]) restoring)
  | .marking ((id, agent) :: failed) =>
    (if out.ok then w.saveAgent id agent.unrestored else w, .markingNext failed)
  | stage => (w, stage)

def advance (w : World) (out : Outside) : Call → World × Call
  | .schedule id organizationId timing stage =>
    let (w, stage) := advanceSchedule w out id organizationId timing stage
    (w, .schedule id organizationId timing stage)
  | .unschedule id organizationId stage =>
    let (w, stage) := advanceUnschedule w out id organizationId stage
    (w, .unschedule id organizationId stage)
  | .restore stage =>
    let (w, stage) := advanceRestore w out stage
    (w, .restore stage)

def Call.opened : Call → Call
  | .schedule id organizationId timing _ => .schedule id organizationId timing .opening
  | .unschedule id organizationId _ => .unschedule id organizationId .opening
  | .restore _ => .restore .listing

inductive Action
  | begin (call : Call)
  | advance (i : Nat) (out : Outside)

def step (w : World) : Action → World
  | .begin call => { w with calls := w.calls ++ [call.opened] }
  | .advance i out =>
    match w.calls[i]? with
    | none => w
    | some call =>
      let (w', call') := Agents.advance w out call
      { w' with calls := w.calls.set i call' }

/-! ## A row and its job -/

/-- The timing the row of an agent has, when it is on. -/
def World.onRepeat (w : World) (id : Uuid) : Option Repeat :=
  (w.agents.lookup id).bind Agent.repeat

/-- The queue has one job of the agent, under its timing, when its schedule is on, and none when
it is off. -/
def Agrees (w : World) (id : Uuid) : Prop := w.repeatsOf id = (w.onRepeat id).toList

instance (w : World) (id : Uuid) : Decidable (Agrees w id) :=
  inferInstanceAs (Decidable (_ = _))

def Call.over : Call → Bool
  | .schedule _ _ _ .returned | .schedule _ _ _ (.failed _) => true
  | .unschedule _ _ .returned | .unschedule _ _ (.failed _) => true
  | .restore .returned => true
  | _ => false

/-- No call is in flight. -/
def World.quiet (w : World) : Bool := w.calls.all Call.over

variable {w : World} {id id' : Uuid} {repeat' : Repeat} {job : Uuid × Repeat} {agent : Agent}

theorem mem_repeatsOf_iff : repeat' ∈ w.repeatsOf id ↔ (id, repeat') ∈ w.jobs := by
  simp [World.repeatsOf]

theorem mem_removeRepeatableByKey_iff {other : Uuid × Repeat} :
    other ∈ (w.removeRepeatableByKey job).jobs ↔ other ∈ w.jobs ∧ other ≠ job := by
  simp [World.removeRepeatableByKey]

theorem mem_enqueueRepeatableJob_iff {other : Uuid × Repeat} :
    other ∈ (w.enqueueRepeatableJob job).jobs ↔ other ∈ w.jobs ∨ other = job := by
  unfold World.enqueueRepeatableJob
  dsimp only
  split
  next hmem =>
    refine ⟨.inl, fun h => h.elim (fun hother => hother) fun heq => ?_⟩
    rw [heq]
    exact hmem
  · rw [List.mem_append, List.mem_singleton]

theorem enqueueRepeatableJob_nodup (h : w.jobs.Nodup) :
    (w.enqueueRepeatableJob job).jobs.Nodup := by
  unfold World.enqueueRepeatableJob
  dsimp only
  split
  · exact h
  next hnew =>
    rw [List.nodup_append]
    refine ⟨h, List.nodup_singleton _, fun other hother job' hjob' heq => ?_⟩
    rw [heq, List.mem_singleton.mp hjob'] at hother
    exact hnew hother

theorem onRepeat_saveAgent (w : World) (id id' : Uuid) (agent : Agent) :
    (w.saveAgent id agent).onRepeat id' = if id' = id then agent.repeat else w.onRepeat id' := by
  unfold World.onRepeat World.saveAgent
  dsimp only
  rw [Assoc.lookup_put]
  split <;> rfl

theorem disabled_repeat (agent : Agent) : agent.disabled.repeat = none := by
  cases hschedule : agent.schedule <;> simp [Agent.disabled, Agent.repeat, hschedule]

theorem unrestored_repeat (agent : Agent) : agent.unrestored.repeat = none := by
  cases hschedule : agent.schedule <;> simp [Agent.unrestored, Agent.repeat, hschedule]

theorem onRepeat_eq_some_iff :
    w.onRepeat id = some repeat' ↔
      ∃ agent, w.agents.lookup id = some agent ∧ agent.repeat = some repeat' :=
  Option.bind_eq_some_iff

theorem agrees_of_mem_iff (h : w.jobs.Nodup)
    (hmem : ∀ repeat', (id, repeat') ∈ w.jobs ↔ w.onRepeat id = some repeat') : Agrees w id := by
  have hnodup : (w.repeatsOf id).Nodup := by
    refine (h.filter _).map_on fun a ha b hb hab => ?_
    have ha' := (List.mem_filter.mp ha).2
    have hb' := (List.mem_filter.mp hb).2
    simp only [decide_eq_true_eq] at ha' hb'
    exact Prod.ext (ha'.trans hb'.symm) hab
  have hperm : (w.repeatsOf id).Perm (w.onRepeat id).toList := by
    rw [List.perm_ext_iff_of_nodup hnodup (by cases w.onRepeat id <;> simp)]
    intro repeat'
    rw [mem_repeatsOf_iff, hmem, Option.mem_toList]
  unfold Agrees
  cases hon : w.onRepeat id with
  | none =>
    rw [hon] at hperm
    exact List.perm_nil.mp hperm
  | some repeat' =>
    rw [hon] at hperm
    exact List.perm_singleton.mp hperm

end Almyty.Agents
