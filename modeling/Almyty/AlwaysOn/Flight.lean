import Almyty.AlwaysOn.Saves
import Almyty.Lib.Slots

/-!
# The flight of a run

What keeps a second run from starting is the lock while the first one starts, and after that the
marker on the agent's row, `liveRunId`. The lock may expire under its holder, and any save of a row
that was read before puts the old marker back.

A call of `process` guards the agent from its lock until the run it starts is recorded (`guards`).
`singleFlight` is the condition on a step:
- a call takes the lock only when no other call guards the agent;
- a row that is saved has the stored marker, or no live run has it;
- once the row of a run is saved, nothing fails until the run is recorded, and the agent has its
  settings still; or the run is over by then.

`Flight` is what such steps keep: one call guards at most, every live run is marked or in the hand
of the call that started it, and what the guarding call has read still holds (`Sees`).
-/

namespace Almyty.AlwaysOn

open Almyty.Lib Option
open Almyty.Agents (Uuid)
open Almyty.Runs (AgentRunStatus)

def World.isLive (w : World) (agentId runId : Uuid) : Bool :=
  (w.runs[runId]?).any fun run => run.agentId = agentId && run.live

def Agent.liveRunId (agent : Agent) : Option Uuid := agent.alwaysOn.bind (·.liveRunId)

def World.marker (w : World) (agentId : Uuid) : Option Uuid :=
  (w.agents.lookup agentId).bind (·.liveRunId)

def ProcessStage.guards : ProcessStage → Bool
  | .opening _ | .counting _ _ | .finding _ _ | .looking _ _ _ | .judging _ _ _
  | .claiming _ _ _ _ | .starting _ _ _ | .queueing _ _ _ | .naming _ _ _ | .rereading _ _
  | .recording _ _ _ => true
  | _ => false

def ProcessStage.started : ProcessStage → Option Uuid
  | .queueing _ runId _ | .naming _ runId _ | .rereading _ runId | .recording _ runId _ =>
    some runId
  | _ => none

def Call.guards (agentId : Uuid) : Call → Bool
  | .process id _ stage => id = agentId && stage.guards
  | _ => false

def Call.started (agentId : Uuid) : Call → Option Uuid
  | .process id _ stage => if id = agentId then stage.started else none
  | _ => none

/-- To save the row leaves the marker of a live run. -/
def World.keepsMarker (w : World) (agentId : Uuid) (agent : Agent) : Bool :=
  agent.liveRunId = w.marker agentId || !(w.marker agentId).any (w.isLive agentId)

def ProcessStage.flies (w : World) (out : Outside) (agentId organizationId : Uuid) :
    ProcessStage → Bool
  | .locking => !out.ok || (w.locks.lookup agentId).isSome || !w.calls.any (·.guards agentId)
  | .queueing _ runId _ | .naming _ runId _ | .recording _ runId _ =>
    out.ok || !w.isLive agentId runId
  | .rereading _ runId =>
    out.ok && (w.findAgent agentId organizationId).any (·.alwaysOn.isSome) ||
      !w.isLive agentId runId
  | _ => true

def Call.flies (w : World) (out : Outside) (agentId : Uuid) (call : Call) : Bool :=
  (match call with
    | .process id organizationId stage => id ≠ agentId || stage.flies w out id organizationId
    | _ => true) &&
  (call.saves w out).all fun save =>
    save.1 ≠ agentId || (call.started agentId).isSome || w.keepsMarker agentId save.2

def singleFlight (agentId : Uuid) (w : World) : Action → Bool
  | .advance i out => (w.calls[i]?).all (·.flies w out agentId)
  | _ => true

def ProcessStage.Sees (isLive : Uuid → Bool) : ProcessStage → Prop
  | .counting _ agent | .finding _ agent | .looking _ agent _ =>
    ∀ runId, isLive runId = true → agent.liveRunId = some runId
  | .judging _ _ _ | .claiming _ _ _ _ | .starting _ _ _ => ∀ runId, isLive runId = false
  | .queueing _ started _ | .naming _ started _ | .rereading _ started =>
    ∀ runId, isLive runId = true → runId = started
  | .recording _ started fresh =>
    (∀ runId, isLive runId = true → runId = started) ∧ fresh.alwaysOn.isSome = true
  | _ => True

def Call.Sees (agentId : Uuid) (isLive : Uuid → Bool) : Call → Prop
  | .process id _ stage => id = agentId → stage.Sees isLive
  | _ => True

structure Flight (agentId : Uuid) (w : World) : Prop where
  alone : Slots.Alone (fun call : Call => call.guards agentId = true) w.calls
  marked : ∀ runId, w.isLive agentId runId = true →
    w.marker agentId = some runId ∨ ∃ call ∈ w.calls, call.started agentId = some runId
  sees : ∀ call ∈ w.calls, call.Sees agentId (w.isLive agentId)

variable {w : World} {out : Outside} {agentId runId : Uuid} {i : Nat} {old new : Call}
  {effect : Effect}

/-! ## Live runs -/

theorem setRunStatus_isLive {changed : Uuid} {status : AgentRunStatus}
    (hchanged : (w.runs[changed]?).any (·.live) = true)
    (h : (w.setRunStatus changed status).isLive agentId runId = true) :
    w.isLive agentId runId = true := by
  unfold World.isLive World.setRunStatus at *
  dsimp only at h
  rw [List.getElem?_modify] at h
  by_cases heq : changed = runId
  · subst heq
    cases hrun : w.runs[changed]? with
    | none =>
      rw [hrun] at hchanged
      cases hchanged
    | some run =>
      rw [hrun] at h hchanged
      obtain ⟨hagent, -⟩ : run.agentId = agentId ∧ AgentRun.live { run with status } = true := by
        simpa using h
      have hlive : run.live = true := hchanged
      simp [hagent, hlive]
  · simpa [heq] using h

def Effect.sparesRuns : Effect → Bool
  | .saveRun _ _ | .sendInput _ _ => false
  | _ => true

theorem spared_isLive (h : effect.sparesRuns = true) (agentId : Uuid) :
    (w.apply effect).isLive agentId = w.isLive agentId := by
  have hruns : (w.apply effect).runs = w.runs := by
    cases effect with
    | saveRun | sendInput => cases h
    | _ => rfl
  unfold World.isLive
  rw [hruns]

theorem Effect.Mild.sparesRuns (h : effect.Mild) : effect.sparesRuns = true := by
  rcases h with hspares | ⟨id, note, rfl, -⟩
  · cases effect with
    | saveRun | sendInput => cases hspares
    | _ => rfl
  · rfl

def Call.Starts (agentId : Uuid) (out : Outside) (call : Call) : Prop :=
  ∃ organizationId token agent claimed,
    call = .process agentId organizationId (.starting token agent claimed) ∧ out.ok = true

theorem advance_isLive (call : Call) (hstarts : ¬ call.Starts agentId out)
    (h : (w.apply (advance w out call).1).isLive agentId runId = true) :
    w.isLive agentId runId = true := by
  have hspared (hspares : (advance w out call).1.sparesRuns = true) :
      w.isLive agentId runId = true := by
    rw [spared_isLive hspares] at h
    exact h
  cases call with
  | wake id organizationId input stage =>
    refine hspared ?_
    unfold advance advanceWake
    dsimp only
    repeat' split
    all_goals rfl
  | drainInto id agentId stage =>
    refine hspared ?_
    unfold advance advanceDrain
    dsimp only
    repeat' split
    all_goals rfl
  | configure id organizationId enabled stage =>
    exact hspared (configure_mild w out id organizationId enabled stage).sparesRuns
  | pause id code stage => exact hspared (pause_mild w out id code stage).sparesRuns
  | resume organizationId stage =>
    exact hspared (Effect.Mild.sparesRuns (.inl (resume_spares w out organizationId stage)))
  | process id organizationId stage =>
    unfold advance advanceProcess at h hspared
    cases stage with
    | pausing token code stage => exact hspared (pause_mild w out id code stage).sparesRuns
    | answering token answered owner won =>
      dsimp only at h hspared
      split at h
      · exact h
      next hwaits =>
        -- the run that is answered was live already
        refine setRunStatus_isLive ?_ h
        cases hrun : w.runs[answered]? with
        | none => simp [hrun] at hwaits
        | some run =>
          have hstatus : out.ok = true ∧ run.status = .waitingInput := by simpa [hrun] using hwaits
          simp [AgentRun.live, hstatus.2, liveStatuses]
    | starting token agent claimed =>
      dsimp only at h hspared
      by_cases hok : out.ok = true
      · rw [if_pos hok] at h
        have hother : id ≠ agentId := by
          intro heq
          exact hstarts ⟨organizationId, token, agent, claimed, by rw [heq], hok⟩
        unfold World.isLive at h ⊢
        dsimp only [World.apply, World.handOver] at h
        rw [List.getElem?_append] at h
        split at h
        · exact h
        · cases hnew : runId - w.runs.length with
          | zero => simp [hnew, hother] at h
          | succ n => simp [hnew] at h
      · rw [if_neg hok] at h
        split at h <;> exact h
    | claimingOwner token runId owner todo | claiming token agent todo =>
      cases todo with
      | nil => exact hspared rfl
      | cons id todo =>
        refine hspared ?_
        dsimp only
        split <;> rfl
    | _ =>
      refine hspared ?_
      dsimp only
      repeat' split
      all_goals rfl

/-! ## The marker -/

variable {agent : Agent}

theorem recorded_liveRunId (hconfig : agent.alwaysOn.isSome = true) (conversationId : Option Uuid) :
    (agent.recorded runId conversationId).liveRunId = some runId := by
  unfold Agent.liveRunId Agent.recorded Agent.updated
  cases hon : agent.alwaysOn with
  | none =>
    rw [hon] at hconfig
    cases hconfig
  | some config => rfl

theorem advance_marker (w : World) (out : Outside) (call : Call) (agentId : Uuid) :
    (w.apply (advance w out call).1).marker agentId =
      match call.saves w out with
      | some (id, agent) => if agentId = id then agent.liveRunId else w.marker agentId
      | none => w.marker agentId := by
  unfold World.marker
  rw [advance_agents]
  cases call.saves w out with
  | none => rfl
  | some save =>
    show ((Assoc.put w.agents save.1 save.2).lookup agentId).bind _ = _
    rw [Assoc.lookup_put]
    dsimp only
    split <;> rfl

variable {call : Call}

theorem marker_kept (hflies : call.flies w out agentId = true)
    (hstarted : call.started agentId = none) (hlive : w.isLive agentId runId = true)
    (hmarker : w.marker agentId = some runId) :
    (w.apply (advance w out call).1).marker agentId = some runId := by
  rw [advance_marker]
  unfold Call.flies at hflies
  cases hsave : call.saves w out with
  | none => exact hmarker
  | some save =>
    dsimp only
    split
    next heq =>
      rw [hsave, hstarted] at hflies
      have hkeeps : w.keepsMarker agentId save.2 = true := by
        simpa [heq] using (Bool.and_eq_true_iff.mp hflies).2
      have hsame : save.2.liveRunId = w.marker agentId := by
        simpa [World.keepsMarker, hmarker, hlive] using hkeeps
      rw [hsame, hmarker]
    · exact hmarker

/-! ## The steps -/

variable {stage : ProcessStage}

theorem ProcessStage.Sees.mono {isLive isLive' : Uuid → Bool} (h : stage.Sees isLive)
    (hlive : ∀ runId, isLive' runId = true → isLive runId = true) :
    stage.Sees isLive' := by
  cases stage with
  | counting token agent | finding token agent | looking token agent queued
  | queueing token started claimed | naming token started claimed | rereading token started =>
    exact fun runId hrun => h runId (hlive runId hrun)
  | judging token agent queued | claiming token agent todo won | starting token agent claimed =>
    exact fun runId => Bool.eq_false_iff.mpr fun hrun =>
      Bool.eq_false_iff.mp (h runId) (hlive runId hrun)
  | recording token started fresh => exact ⟨fun runId hrun => h.1 runId (hlive runId hrun), h.2⟩
  | _ => trivial

theorem Call.Sees.mono {isLive isLive' : Uuid → Bool} (h : call.Sees agentId isLive)
    (hlive : ∀ runId, isLive' runId = true → isLive runId = true) : call.Sees agentId isLive' := by
  cases call with
  | process id organizationId stage => exact fun heq => (h heq).mono hlive
  | _ => trivial

theorem sees_of_not_guards {isLive : Uuid → Bool} (h : call.guards agentId = false) :
    call.Sees agentId isLive := by
  cases call with
  | process id organizationId stage =>
    intro heq
    have hstage : stage.guards = false := by simpa [Call.guards, heq] using h
    cases stage with
    | opening | counting | finding | looking | judging | claiming | starting | queueing | naming
    | rereading | recording => cases hstage
    | _ => trivial
  | _ => trivial

theorem guards_of_started (h : call.started agentId = some runId) : call.guards agentId = true := by
  cases call with
  | process id organizationId stage =>
    unfold Call.started at h
    dsimp only at h
    split at h
    next heq =>
      have hstage : stage.guards = true := by
        cases stage with
        | queueing | naming | rereading | recording => rfl
        | _ => cases h
      simp [Call.guards, heq, hstage]
    · cases h
  | _ => cases h

/-- No run is live that was not, and the live ones are marked or in hand as they were. -/
theorem Flight.moved (h : Flight agentId w) (hold : w.calls[i]? = some old)
    (hlive : ∀ runId, (w.apply effect).isLive agentId runId = true → w.isLive agentId runId = true)
    (hmarker : ∀ runId, (w.apply effect).isLive agentId runId = true →
      w.marker agentId = some runId → (w.apply effect).marker agentId = some runId)
    (hguards : new.guards agentId = true → old.guards agentId = true ∨
      ∀ call ∈ w.calls, ¬ call.guards agentId = true)
    (hstarted : ∀ runId, (w.apply effect).isLive agentId runId = true →
      old.started agentId = some runId → new.started agentId = some runId ∨
        (w.apply effect).marker agentId = some runId)
    (hsees : new.Sees agentId ((w.apply effect).isLive agentId)) :
    Flight agentId (w.moved i effect new) where
  alone := h.alone.set hold hguards
  marked := by
    intro runId hrun
    rcases h.marked runId (hlive runId hrun) with hmark | ⟨call, hcall, hby⟩
    · exact .inl (hmarker runId hrun hmark)
    · have hplace : call = old ∨ call ∈ w.calls.set i new := Slots.eq_or_mem_set hold hcall
      rcases hplace with rfl | hmem
      · rcases hstarted runId hrun hby with hnew | hmark
        · exact .inr ⟨new, List.mem_of_getElem? (Slots.getElem?_set_of_some hold), hnew⟩
        · exact .inl hmark
      · exact .inr ⟨call, hmem, hby⟩
  sees := by
    intro call hcall
    rcases List.mem_or_eq_of_mem_set hcall with hmem | rfl
    · exact (h.sees call hmem).mono hlive
    · exact hsees

theorem Flight.kept (h : Flight agentId w) (hold : w.calls[i]? = some call)
    (hflies : call.flies w out agentId = true) (hstarts : ¬ call.Starts agentId out)
    (hstarted : call.started agentId = none)
    (hguards : (advance w out call).2.guards agentId = true → call.guards agentId = true ∨
      ∀ other ∈ w.calls, ¬ other.guards agentId = true)
    (hsees : (advance w out call).2.Sees agentId (w.isLive agentId)) :
    Flight agentId (w.moved i (advance w out call).1 (advance w out call).2) := by
  have hlive : ∀ runId, (w.apply (advance w out call).1).isLive agentId runId = true →
      w.isLive agentId runId = true := fun runId => advance_isLive call hstarts
  refine h.moved hold hlive ?_ hguards ?_ (hsees.mono hlive)
  · intro runId hrun hmarker
    exact marker_kept hflies hstarted (hlive runId hrun) hmarker
  · intro runId _ hby
    rw [hstarted] at hby
    cases hby

theorem Flight.aside (h : Flight agentId w) (hold : w.calls[i]? = some call)
    (hflies : call.flies w out agentId = true) (hcall : call.guards agentId = false)
    (hnew : (advance w out call).2.guards agentId = false) :
    Flight agentId (w.moved i (advance w out call).1 (advance w out call).2) := by
  have hstarted : call.started agentId = none := by
    cases hby : call.started agentId with
    | none => rfl
    | some runId =>
      rw [guards_of_started hby] at hcall
      cases hcall
  refine h.kept hold hflies ?_ hstarted ?_ (sees_of_not_guards hnew)
  · rintro ⟨organizationId, token, agent, claimed, rfl, -⟩
    simp [Call.guards, ProcessStage.guards] at hcall
  · intro hguards
    rw [hnew] at hguards
    cases hguards

theorem Flight.marked_of_guards (h : Flight agentId w) (hold : w.calls[i]? = some call)
    (hguards : call.guards agentId = true) (hstarted : call.started agentId = none)
    (hlive : w.isLive agentId runId = true) :
    w.marker agentId = some runId := by
  rcases h.marked runId hlive with hmark | ⟨other, hother, hby⟩
  · exact hmark
  · obtain ⟨j, hj⟩ := List.getElem?_of_mem hother
    obtain rfl : i = j := h.alone i j call other hold hj hguards (guards_of_started hby)
    obtain rfl : call = other := some.inj (hold.symm.trans hj)
    rw [hstarted] at hby
    cases hby

theorem liveRun_eq_none (h : w.liveRun agentId agent = none)
    (hagent : ∀ runId, w.isLive agentId runId = true → agent.liveRunId = some runId) (runId : Uuid)
   : w.isLive agentId runId = false := by
  cases hlive : w.isLive agentId runId with
  | false => rfl
  | true =>
    have hmark : agent.alwaysOn.bind (·.liveRunId) = some runId := hagent runId hlive
    unfold World.liveRun at h
    unfold World.isLive at hlive
    rw [hmark] at h
    cases hrun : w.runs[runId]? with
    | none =>
      rw [hrun] at hlive
      cases hlive
    | some run =>
      obtain ⟨hagent, hrunning⟩ : run.agentId = agentId ∧ run.live = true := by
        simpa [hrun] using hlive
      simp [hrun, hagent, hrunning] at h

variable {organizationId : Uuid}

theorem findAgent_marker (h : w.findAgent agentId organizationId = some agent) :
    w.marker agentId = agent.liveRunId := by
  unfold World.findAgent at h
  unfold World.marker
  rw [(filter_eq_some_iff.mp h).1]
  rfl

theorem process_not_guards {id organizationId : Uuid} (hstage : stage.guards = false)
    (hlocking : stage ≠ .locking) :
    (advanceProcess w out id organizationId stage).2.guards = false := by
  unfold advanceProcess
  cases stage with
  | locking => exact absurd rfl hlocking
  | opening | counting | finding | looking | judging | claiming | starting | queueing | naming
  | rereading | recording => cases hstage
  | claimingOwner token runId owner todo won =>
    cases todo with
    | nil => rfl
    | cons id todo =>
      dsimp only
      split
      · rfl
      · cases todo <;> rfl
  | pausing token code stage =>
    dsimp only
    split <;> rfl
  | unlocking token result | deleting token result =>
    dsimp only
    repeat' split
    all_goals cases result <;> rfl
  | _ =>
    dsimp only
    repeat' split
    all_goals rfl

theorem Flight.process (h : Flight agentId w)
    (hold : w.calls[i]? = some (.process agentId organizationId stage))
    (hflies : Call.flies w out agentId (.process agentId organizationId stage) = true)
    (hstarted : stage.started = none)
    (hstarts : ¬ Call.Starts agentId out (.process agentId organizationId stage)) :
    Flight agentId (w.moved i (advance w out (.process agentId organizationId stage)).1
      (advance w out (.process agentId organizationId stage)).2) := by
  have hnone : Call.started agentId (.process agentId organizationId stage) = none := by
    simpa [Call.started] using hstarted
  have hsaw : stage.Sees (w.isLive agentId) := h.sees _ (List.mem_of_getElem? hold) rfl
  by_cases hlocking : stage = .locking
  · subst hlocking
    have hlock := (Bool.and_eq_true_iff.mp hflies).1
    refine h.kept hold hflies hstarts hnone ?_ ?_
    · unfold advance advanceProcess
      dsimp only
      intro hguards
      split at hguards
      · simp [Call.guards, ProcessStage.guards] at hguards
      next hok =>
        split at hguards
        · simp [Call.guards, ProcessStage.guards] at hguards
        next hfree =>
          -- it takes the lock: this is where nobody else may be at work
          refine .inr fun other hother => ?_
          have hnobody : w.calls.any (·.guards agentId) = false := by
            simpa [ProcessStage.flies, hok, hfree] using hlock
          simpa using List.any_eq_false.mp hnobody other hother
    · unfold advance advanceProcess
      dsimp only
      repeat' split
      all_goals exact fun _ => trivial
  cases hguards : stage.guards with
  | false =>
    refine h.aside hold hflies (by simp [Call.guards, hguards]) ?_
    simp [advance, Call.guards, process_not_guards hguards hlocking]
  | true =>
    -- a call that guards may go on so with what it has seen
    have hgoes (hsees :
        (advanceProcess w out agentId organizationId stage).2.Sees (w.isLive agentId)) :
        Flight agentId (w.moved i (advance w out (.process agentId organizationId stage)).1
          (advance w out (.process agentId organizationId stage)).2) :=
      h.kept hold hflies hstarts hnone (fun _ => .inl (by simp [Call.guards, hguards]))
        fun _ => hsees
    refine hgoes ?_
    unfold advanceProcess
    cases stage with
    | opening token =>
      dsimp only
      split
      · trivial
      split
      · trivial
      next agent hagent =>
        split
        · -- no other call has a run in hand, so the row it has read names the live run
          intro runId hlive
          rw [← findAgent_marker hagent]
          exact h.marked_of_guards hold (by simp [Call.guards, ProcessStage.guards]) hnone hlive
        · trivial
    | counting token agent | finding token agent | judging token agent queued =>
      dsimp only
      repeat' split
      all_goals first
        | exact hsaw
        | trivial
    | looking token agent queued =>
      dsimp only
      split
      · trivial
      split
      next hlive => exact liveRun_eq_none hlive hsaw
      · repeat' split
        all_goals trivial
    | claiming token agent todo won =>
      cases todo with
      | nil => exact hsaw
      | cons id todo =>
        dsimp only
        split
        · trivial
        · unfold ProcessStage.claimingNext
          split
          · trivial
          · exact hsaw
          · exact hsaw
    | starting token agent claimed =>
      -- `startRun` that throws leaves the call without a guard
      have hfails : out.ok ≠ true := fun hok =>
        hstarts ⟨organizationId, token, agent, claimed, rfl, hok⟩
      dsimp only
      rw [if_neg hfails]
      split <;> trivial
    | queueing | naming | rereading | recording => cases hstarted
    | _ => cases hguards

theorem Flight.inHand (h : Flight agentId w) (hold : w.calls[i]? = some call) {started : Uuid}
    (hstarted : call.started agentId = some started) (hstarts : ¬ call.Starts agentId out)
    (hsaves : call.saves w out = none) (hstill : w.isLive agentId started = true →
      (advance w out call).2.started agentId = some started)
    (hsees : (advance w out call).2.Sees agentId (w.isLive agentId)) :
    Flight agentId (w.moved i (advance w out call).1 (advance w out call).2) := by
  have hlive : ∀ runId, (w.apply (advance w out call).1).isLive agentId runId = true →
      w.isLive agentId runId = true := fun runId => advance_isLive call hstarts
  have hmarker : (w.apply (advance w out call).1).marker agentId = w.marker agentId := by
    rw [advance_marker, hsaves]
  refine h.moved hold hlive ?_ (fun _ => .inl (guards_of_started hstarted)) ?_ (hsees.mono hlive)
  · intro runId _ hmark
    rw [hmarker, hmark]
  · intro runId hrun hby
    obtain rfl : started = runId := some.inj (hstarted.symm.trans hby)
    exact .inl (hstill (hlive started hrun))

theorem Flight.recorded (h : Flight agentId w) {token : Nat} {started : Uuid} {fresh : Agent}
    (hold : w.calls[i]? = some (.process agentId organizationId (.recording token started fresh)))
    (hok : out.ok = true) :
    Flight agentId (w.moved i
      (advance w out (.process agentId organizationId (.recording token started fresh))).1
      (advance w out (.process agentId organizationId (.recording token started fresh))).2) := by
  obtain ⟨hone, hconfig⟩ := h.sees _ (List.mem_of_getElem? hold) rfl
  have hlive : ∀ runId, (w.apply (advance w out (.process agentId organizationId
      (.recording token started fresh))).1).isLive agentId runId = true →
      w.isLive agentId runId = true := by
    refine fun runId => advance_isLive _ ?_
    rintro ⟨_, _, agent, claimed, heq, -⟩
    cases heq
  have hmarker : (w.apply (advance w out (.process agentId organizationId
      (.recording token started fresh))).1).marker agentId = some started := by
    rw [advance_marker]
    unfold Call.saves
    rw [hok]
    show (if agentId = agentId then _ else w.marker agentId) = _
    rw [if_pos rfl]
    exact recorded_liveRunId hconfig _
  have hsees (isLive : Uuid → Bool) : (advanceProcess w out agentId organizationId
      (.recording token started fresh)).2.Sees isLive := by
    unfold advanceProcess
    rw [hok]
    trivial
  refine h.moved hold hlive ?_ (fun _ => .inl (by simp [Call.guards, ProcessStage.guards])) ?_
    fun _ => hsees _
  · intro runId hrun _
    rw [hmarker, hone runId (hlive runId hrun)]
  · intro runId hrun _
    rw [hone runId (hlive runId hrun)]
    exact .inr hmarker

theorem Flight.records (h : Flight agentId w)
    (hold : w.calls[i]? = some (.process agentId organizationId stage))
    (hflies : Call.flies w out agentId (.process agentId organizationId stage) = true)
    {started : Uuid} (hstarted : stage.started = some started) :
    Flight agentId (w.moved i (advance w out (.process agentId organizationId stage)).1
      (advance w out (.process agentId organizationId stage)).2) := by
  have hby : Call.started agentId (.process agentId organizationId stage) = some started := by
    simpa [Call.started] using hstarted
  have hsaw : stage.Sees (w.isLive agentId) := h.sees _ (List.mem_of_getElem? hold) rfl
  have hfly : stage.flies w out agentId organizationId = true := by
    simpa using (Bool.and_eq_true_iff.mp hflies).1
  have hstarts : ¬ Call.Starts agentId out (.process agentId organizationId stage) := by
    rintro ⟨_, token, agent, claimed, heq, -⟩
    cases heq
    cases hstarted
  have hgoes (hsaves : Call.saves w out (.process agentId organizationId stage) = none)
      (hstill : w.isLive agentId started = true →
        (advanceProcess w out agentId organizationId stage).2.started = some started)
      (hsees :
        (advanceProcess w out agentId organizationId stage).2.Sees (w.isLive agentId)) :
      Flight agentId (w.moved i (advance w out (.process agentId organizationId stage)).1
        (advance w out (.process agentId organizationId stage)).2) := by
    refine h.inHand hold hby hstarts hsaves (fun hlive => ?_) fun _ => hsees
    show (if agentId = agentId then _ else none) = _
    rw [if_pos rfl]
    exact hstill hlive
  cases stage with
  | queueing token _ claimed | naming token _ claimed =>
    cases hstarted
    refine hgoes (by unfold Call.saves; cases out.ok <;> rfl) ?_ ?_
    · intro hlive
      have hok : out.ok = true := by simpa [ProcessStage.flies, hlive] using hfly
      unfold advanceProcess
      rw [hok]
      rfl
    · unfold advanceProcess
      dsimp only
      split
      · trivial
      · exact hsaw
  | rereading token _ =>
    -- the row is read again, and it is this row that is saved
    cases hstarted
    refine hgoes (by unfold Call.saves; cases out.ok <;> rfl) ?_ ?_
    · intro hlive
      obtain ⟨hok, fresh, hfresh, hconfig⟩ : out.ok = true ∧
          ∃ fresh, w.findAgent agentId organizationId = some fresh ∧
            fresh.alwaysOn.isSome = true := by
        simpa [ProcessStage.flies, hlive, Option.any_eq_true] using hfly
      unfold advanceProcess
      rw [hok, hfresh]
      cases hon : fresh.alwaysOn with
      | none =>
        rw [hon] at hconfig
        cases hconfig
      | some config => simp [hon, ProcessStage.started]
    · unfold advanceProcess
      dsimp only
      split
      · trivial
      split
      · trivial
      next fresh hfresh =>
        split
        · trivial
        next hon => exact ⟨hsaw, by simpa [isSome_iff_ne_none] using hon⟩
  | recording token _ fresh =>
    cases hstarted
    cases hok : out.ok with
    | true => exact h.recorded hold hok
    | false =>
      refine hgoes (by unfold Call.saves; rw [hok]; rfl) ?_ ?_
      · intro hlive
        simp [ProcessStage.flies, hok, hlive] at hfly
      · unfold advanceProcess
        rw [hok]
        trivial
  | _ => cases hstarted

theorem Flight.starts (h : Flight agentId w) {token : Nat} {claimed : List Uuid}
    (hold : w.calls[i]? = some (.process agentId organizationId (.starting token agent claimed)))
    (hok : out.ok = true) :
    Flight agentId (w.moved i
      (advance w out (.process agentId organizationId (.starting token agent claimed))).1
      (advance w out (.process agentId organizationId (.starting token agent claimed))).2) := by
  have hnone : ∀ runId, w.isLive agentId runId = false :=
    h.sees _ (List.mem_of_getElem? hold) rfl
  have hguards : Call.guards agentId
      (.process agentId organizationId (.starting token agent claimed)) = true := by
    simp [Call.guards, ProcessStage.guards]
  have hnext : (advance w out (.process agentId organizationId
      (.starting token agent claimed))).2 =
      .process agentId organizationId (.queueing token w.runs.length claimed) := by
    unfold advance advanceProcess
    rw [hok]
    rfl
  -- nothing was live, so only the new run is
  have hone : ∀ runId, (w.apply (advance w out (.process agentId organizationId
      (.starting token agent claimed))).1).isLive agentId runId = true →
      runId = w.runs.length := by
    obtain ⟨run, hruns⟩ : ∃ run, (w.apply (advance w out (.process agentId organizationId
        (.starting token agent claimed))).1).runs = w.runs ++ [run] := by
      unfold advance advanceProcess
      rw [hok]
      exact ⟨_, rfl⟩
    intro runId hrun
    have hbefore := hnone runId
    unfold World.isLive at hrun hbefore
    rw [hruns, List.getElem?_append] at hrun
    split at hrun
    · rw [hbefore] at hrun
      cases hrun
    next hlength =>
      cases hnew : runId - w.runs.length with
      | zero => exact Nat.le_antisymm (Nat.sub_eq_zero_iff_le.mp hnew) (Nat.not_lt.mp hlength)
      | succ n => simp [hnew] at hrun
  rw [hnext]
  have hself : (w.calls.set i
      (.process agentId organizationId (.queueing token w.runs.length claimed)))[i]? =
      some (.process agentId organizationId (.queueing token w.runs.length claimed)) :=
    Slots.getElem?_set_of_some hold
  -- the others do not guard
  have hothers : ∀ j call, (w.calls.set i
      (.process agentId organizationId (.queueing token w.runs.length claimed)))[j]? = some call →
      j ≠ i → call.guards agentId = false := by
    intro j call hj hne
    rcases Slots.getElem?_set_cases hj with ⟨heq, -⟩ | ⟨-, hj⟩
    · exact absurd heq hne
    · refine Bool.eq_false_iff.mpr fun hcall => hne ?_
      exact h.alone j i call _ hj hold hcall hguards
  refine ⟨h.alone.set hold fun _ => .inl hguards, ?_, ?_⟩
  · intro runId hrun
    refine .inr ⟨_, List.mem_of_getElem? hself, ?_⟩
    rw [hone runId hrun]
    simp [Call.started, ProcessStage.started]
  · intro call hcall
    obtain ⟨j, hj⟩ := List.getElem?_of_mem hcall
    by_cases hji : j = i
    · subst hji
      obtain rfl := some.inj (hself.symm.trans hj)
      exact fun _ => hone
    · exact sees_of_not_guards (hothers j call hj hji)

end Almyty.AlwaysOn
