import Almyty.AlwaysOn.Service

/-!
# The rows the calls save

A save writes the whole row of an agent as the call has had it in hand since it read it. `saves`
reads off the place of a call which row it is about to write.
-/

namespace Almyty.AlwaysOn

open Almyty.Lib
open Almyty.Agents (Uuid)

def ResumeStage.saves (now : Int) : ResumeStage → Option (Uuid × Agent)
  | .saving ((id, agent) :: _) => some (id, agent.resumed now)
  | _ => none

def PauseStage.saves (id : Uuid) (code : PauseCode) (now : Int) :
    PauseStage → Option (Uuid × Agent)
  | .saving agent => some (id, agent.paused code now)
  | .resuming _ stage => stage.saves now
  | _ => none

def ConfigureStage.saves (id : Uuid) (out : Outside) : ConfigureStage → Option (Uuid × Agent)
  | .saving _ next => if out.allowed then some (id, next) else none
  | .resuming _ stage => stage.saves out.now
  | _ => none

def ProcessStage.saves (w : World) (id : Uuid) (now : Int) : ProcessStage → Option (Uuid × Agent)
  | .recording _ runId fresh =>
    some (id, fresh.recorded runId ((w.runs[runId]?).map (·.conversationId)))
  | .reopening _ agent _ => some (id, agent.reopened)
  | .pausing _ code stage => stage.saves id code now
  | _ => none

/-- The row the call writes at its next step. -/
def Call.saves (w : World) (out : Outside) (call : Call) : Option (Uuid × Agent) :=
  if !out.ok then none
  else
    match call with
    | .process id _ stage => stage.saves w id out.now
    | .configure id _ _ stage => stage.saves id out
    | .pause id code stage => stage.saves id code out.now
    | .resume _ stage => stage.saves out.now
    | _ => none

def Effect.saved : Effect → Option (Uuid × Agent)
  | .saveAgent id agent => some (id, agent)
  | _ => none

variable {w : World} {out : Outside}

theorem resume_saved (hok : out.ok = true) (organizationId : Uuid) (stage : ResumeStage) :
    (advanceResume w out organizationId stage).1.saved = stage.saves out.now := by
  unfold advanceResume
  simp only [hok]
  cases stage with
  | saving back => cases back <;> rfl
  | opening | returned | failed => rfl

theorem pause_saved (hok : out.ok = true) (id : Uuid) (code : PauseCode) (stage : PauseStage) :
    (advancePause w out id code stage).1.saved = stage.saves id code out.now := by
  unfold advancePause
  simp only [hok]
  cases stage with
  | resuming agent stage => exact resume_saved hok agent.organizationId stage
  | opening =>
    dsimp only
    repeat' split
    all_goals rfl
  | saving agent | dropping agent | returned | failed => rfl

theorem configure_saved (hok : out.ok = true) (id organizationId : Uuid)
    (enabled : Option Bool) (stage : ConfigureStage) :
    (advanceConfigure w out id organizationId enabled stage).1.saved = stage.saves id out := by
  unfold advanceConfigure
  simp only [hok]
  cases stage with
  | resuming next stage => exact resume_saved hok organizationId stage
  | saving before next =>
    unfold ConfigureStage.saves
    cases out.allowed <;> rfl
  | opening | counting before next =>
    dsimp only
    repeat' split
    all_goals rfl
  | dropping next | returned | failed error => rfl

theorem process_saved (hok : out.ok = true) (id organizationId : Uuid) (stage : ProcessStage) :
    (advanceProcess w out id organizationId stage).1.saved = stage.saves w id out.now := by
  unfold advanceProcess
  simp only [hok]
  cases stage with
  | pausing token code stage => exact pause_saved hok id code stage
  | claimingOwner token runId owner todo | claiming token agent todo => cases todo <;> rfl
  | locking | opening token | counting token agent | finding token agent
  | looking token agent queued | judging token agent queued | rereading token runId
  | answering token runId owner won | unlocking token result =>
    dsimp only
    repeat' split
    all_goals rfl
  | _ => rfl

theorem wake_saved (agentId organizationId : Uuid) (input : WakeInput) (stage : WakeStage) :
    (advanceWake w out agentId organizationId input stage).1.saved = none := by
  unfold advanceWake
  repeat' split
  all_goals rfl

theorem drain_saved (runId agentId : Uuid) (stage : DrainStage) :
    (advanceDrain w out runId agentId stage).1.saved = none := by
  unfold advanceDrain
  repeat' split
  all_goals rfl

/-! ## A command that fails has done nothing -/

theorem resume_failed (hok : out.ok = false) (organizationId : Uuid) (stage : ResumeStage) :
    (advanceResume w out organizationId stage).1 = .nothing := by
  unfold advanceResume
  simp only [hok]
  cases stage with
  | saving back => cases back <;> rfl
  | opening | returned | failed => rfl

theorem pause_failed (hok : out.ok = false) (id : Uuid) (code : PauseCode)
    (stage : PauseStage) : (advancePause w out id code stage).1 = .nothing := by
  unfold advancePause
  simp only [hok]
  cases stage with
  | resuming agent stage => exact resume_failed hok agent.organizationId stage
  | opening | saving agent | dropping agent | returned | failed => rfl

theorem configure_failed (hok : out.ok = false) (id organizationId : Uuid)
    (enabled : Option Bool) (stage : ConfigureStage) :
    (advanceConfigure w out id organizationId enabled stage).1 = .nothing := by
  unfold advanceConfigure
  simp only [hok]
  cases stage with
  | resuming next stage => exact resume_failed hok organizationId stage
  | saving before next => cases out.allowed <;> rfl
  | opening | counting before next | dropping next | returned | failed error => rfl

theorem process_failed (hok : out.ok = false) (id organizationId : Uuid)
    (stage : ProcessStage) : (advanceProcess w out id organizationId stage).1 = .nothing := by
  unfold advanceProcess
  simp only [hok]
  cases stage with
  | pausing token code stage => exact pause_failed hok id code stage
  | claimingOwner token runId owner todo | claiming token agent todo => cases todo <;> rfl
  | starting token agent claimed =>
    simp only [Bool.false_eq_true, if_false]
    split <;> rfl
  | _ => rfl

theorem wake_failed (hok : out.ok = false) (agentId organizationId : Uuid) (input : WakeInput)
    (stage : WakeStage) : (advanceWake w out agentId organizationId input stage).1 = .nothing := by
  unfold advanceWake
  simp only [hok]
  cases stage <;> rfl

theorem drain_failed (hok : out.ok = false) (runId agentId : Uuid) (stage : DrainStage) :
    (advanceDrain w out runId agentId stage).1 = .nothing := by
  unfold advanceDrain
  simp only [hok]
  cases stage with
  | claiming todo won => cases todo <;> rfl
  | opening | messaging won | returned handed | failed => rfl

theorem advance_failed (hok : out.ok = false) (call : Call) :
    (advance w out call).1 = .nothing := by
  cases call with
  | wake agentId organizationId input stage => exact wake_failed hok _ _ input stage
  | process agentId organizationId stage => exact process_failed hok _ _ stage
  | drainInto runId agentId stage => exact drain_failed hok _ _ stage
  | configure agentId organizationId enabled stage => exact configure_failed hok _ _ enabled stage
  | pause agentId code stage => exact pause_failed hok _ code stage
  | resume organizationId stage => exact resume_failed hok _ stage

/-! ## What a step does to the agents -/

theorem advance_saved (w : World) (out : Outside) (call : Call) :
    (advance w out call).1.saved = call.saves w out := by
  unfold Call.saves
  cases hok : out.ok with
  | false =>
    rw [advance_failed hok]
    rfl
  | true =>
    cases call with
    | wake agentId organizationId input stage => exact wake_saved _ _ input stage
    | process agentId organizationId stage => exact process_saved hok _ _ stage
    | drainInto runId agentId stage => exact drain_saved _ _ stage
    | configure agentId organizationId enabled stage => exact configure_saved hok _ _ enabled stage
    | pause agentId code stage => exact pause_saved hok _ code stage
    | resume organizationId stage => exact resume_saved hok _ stage

theorem apply_agents (w : World) (effect : Effect) :
    (w.apply effect).agents =
      effect.saved.elim w.agents fun save => Assoc.put w.agents save.1 save.2 := by
  cases effect <;> rfl

theorem advance_agents (w : World) (out : Outside) (call : Call) :
    (w.apply (advance w out call).1).agents =
      (call.saves w out).elim w.agents fun save => Assoc.put w.agents save.1 save.2 := by
  rw [apply_agents, advance_saved]

/-! ## What the calls about settings do besides -/

def Effect.sparesWakes : Effect → Bool
  | .nothing | .saveAgent _ _ | .lock _ | .unlock _ => true
  | _ => false

def Effect.dropsQueued (effect : Effect) : Prop :=
  ∃ agentId note, effect = .dropQueued agentId note ∧ note ≠ ""

/-- The effect takes no wake from anybody, and touches no run. -/
def Effect.Mild (effect : Effect) : Prop := effect.sparesWakes = true ∨ effect.dropsQueued

theorem resume_spares (w : World) (out : Outside) (organizationId : Uuid) (stage : ResumeStage) :
    (advanceResume w out organizationId stage).1.sparesWakes = true := by
  unfold advanceResume
  repeat' split
  all_goals rfl

theorem pause_mild (w : World) (out : Outside) (id : Uuid) (code : PauseCode)
    (stage : PauseStage) : (advancePause w out id code stage).1.Mild := by
  cases stage with
  | dropping agent =>
    unfold advancePause
    dsimp only
    split
    · exact .inl rfl
    · exact .inr ⟨id, _, rfl, by cases code <;> decide⟩
  | resuming agent stage => exact .inl (resume_spares w out agent.organizationId stage)
  | opening =>
    unfold advancePause
    dsimp only
    repeat' split
    all_goals exact .inl rfl
  | saving agent =>
    unfold advancePause
    dsimp only
    split <;> exact .inl rfl
  | returned | failed => exact .inl rfl

theorem configure_mild (w : World) (out : Outside) (id organizationId : Uuid)
    (enabled : Option Bool) (stage : ConfigureStage) :
    (advanceConfigure w out id organizationId enabled stage).1.Mild := by
  cases stage with
  | dropping next =>
    unfold advanceConfigure
    dsimp only
    split
    · exact .inl rfl
    · exact .inr ⟨id, _, rfl, by decide⟩
  | resuming next stage => exact .inl (resume_spares w out organizationId stage)
  | opening | counting | saving =>
    unfold advanceConfigure
    dsimp only
    repeat' split
    all_goals exact .inl rfl
  | returned | failed error => exact .inl rfl

end Almyty.AlwaysOn
