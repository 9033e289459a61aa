import Almyty.AlwaysOn.Flight
import Almyty.Lib.Steps

/-!
# One live run on a standing thread

`Flight` holds in any interleaving of steps that keep to a single flight. So the agent never has
two live runs, and once `process` has returned `started`, the stored `liveRunId` names its run for
as long as it is live (`one_live_run`).
-/

namespace Almyty.AlwaysOn

open Almyty.Lib Option
open Almyty.Agents (Uuid)

variable {w : World} {out : Outside} {agentId runId : Uuid} {i : Nat}

/-! ## Any interleaving -/

theorem Flight.step (h : Flight agentId w) (action : Action)
    (hflies : singleFlight agentId w action = true) : Flight agentId (step w action) := by
  cases action with
  | begin call =>
    have hopened : call.opened.guards agentId = false := by
      cases call <;> simp [Call.opened, Call.guards, ProcessStage.guards]
    refine ⟨h.alone.append_singleton (by simp [hopened]), ?_, ?_⟩
    · intro runId hrun
      rcases h.marked runId hrun with hmark | ⟨other, hmem, hby⟩
      · exact .inl hmark
      · exact .inr ⟨other, List.mem_append_left _ hmem, hby⟩
    · intro other hother
      rcases List.mem_append.mp hother with hmem | hmem
      · exact h.sees other hmem
      · rw [List.mem_singleton.mp hmem]
        exact sees_of_not_guards hopened
  | advance i out =>
    unfold singleFlight at hflies
    unfold AlwaysOn.step
    dsimp only at hflies ⊢
    cases hcall : w.calls[i]? with
    | none => exact h
    | some call =>
      rw [hcall] at hflies
      have hfly : call.flies w out agentId = true := hflies
      show Flight agentId (w.moved i (advance w out call).1 (advance w out call).2)
      by_cases hstarts : call.Starts agentId out
      · obtain ⟨organizationId, token, agent, claimed, rfl, hok⟩ := hstarts
        exact h.starts hcall hok
      cases call with
      | process id organizationId stage =>
        by_cases hid : id = agentId
        · subst hid
          cases hstarted : stage.started with
          | none => exact h.process hcall hfly hstarted hstarts
          | some started => exact h.records hcall hfly hstarted
        · exact h.aside hcall hfly (by simp [Call.guards, hid])
            (by simp [advance, Call.guards, hid])
      | _ => exact h.aside hcall hfly rfl rfl
  | runBecomes changed status =>
    unfold AlwaysOn.step
    dsimp only
    split
    next hchanged =>
      have hlive : ∀ runId, (w.setRunStatus changed status).isLive agentId runId = true →
          w.isLive agentId runId = true := fun runId => setRunStatus_isLive hchanged
      exact ⟨h.alone, fun runId hrun => h.marked runId (hlive runId hrun),
        fun call hcall => (h.sees call hcall).mono hlive⟩
    · exact h
  | expire id => exact ⟨h.alone, h.marked, h.sees⟩

theorem Flight.one_live (h : Flight agentId w) {runId' : Uuid}
    (hlive : w.isLive agentId runId = true) (hlive' : w.isLive agentId runId' = true) :
    runId = runId' := by
  -- a run in the hand of a call is the only one
  have hhand : ∀ {run run' : Uuid}, (∃ call ∈ w.calls, call.started agentId = some run) →
      w.isLive agentId run' = true → run' = run := by
    rintro run run' ⟨call, hcall, hby⟩ hrun'
    have hsaw := h.sees call hcall
    cases call with
    | process id organizationId stage =>
      unfold Call.started at hby
      dsimp only at hby
      split at hby
      next hid =>
        have hsaw := hsaw hid
        cases stage with
        | queueing | naming | rereading =>
          cases hby
          exact hsaw run' hrun'
        | recording =>
          cases hby
          exact hsaw.1 run' hrun'
        | _ => cases hby
      · cases hby
    | _ => cases hby
  rcases h.marked runId hlive with hmark | hby
  · rcases h.marked runId' hlive' with hmark' | hby'
    · exact some.inj (hmark.symm.trans hmark')
    · exact hhand hby' hlive
  · exact (hhand hby hlive').symm

def InHandOf (agentId : Uuid) (i : Nat) (runId : Uuid) (w : World) : Prop :=
  runId < w.runs.length ∧
    ∀ (j : Nat) (call : Call), w.calls[j]? = some call → call.started agentId = some runId → j = i

theorem process_started {id organizationId : Uuid} {stage : ProcessStage}
    (h : (advanceProcess w out id organizationId stage).2.started = some runId) :
    stage.started = some runId ∨ runId = w.runs.length := by
  unfold advanceProcess at h
  cases stage with
  | starting token agent claimed =>
    dsimp only at h
    repeat' split at h
    all_goals first
      | exact .inr (some.inj h).symm
      | cases h
  | queueing token started claimed | naming token started claimed | rereading token started =>
    dsimp only at h
    repeat' split at h
    all_goals first
      | exact .inl h
      | cases h
  | claimingOwner token answered owner todo won =>
    cases todo with
    | nil => cases h
    | cons id todo =>
      dsimp only at h
      split at h
      · cases h
      · cases todo <;> cases h
  | claiming token agent todo won =>
    cases todo with
    | nil => cases h
    | cons id todo =>
      dsimp only [ProcessStage.claimingNext] at h
      repeat' split at h
      all_goals cases h
  | unlocking token result | deleting token result =>
    dsimp only at h
    repeat' split at h
    all_goals cases result <;> cases h
  | _ =>
    dsimp only at h
    repeat' split at h
    all_goals cases h

theorem advance_started {call : Call} (h : (advance w out call).2.started agentId = some runId) :
    call.started agentId = some runId ∨ runId = w.runs.length := by
  cases call with
  | process id organizationId stage =>
    unfold Call.started at h ⊢
    dsimp only [advance] at h ⊢
    split at h
    next hid =>
      rw [if_pos hid]
      exact process_started h
    · cases h
  | _ => cases h

theorem advance_runs_length (w : World) (out : Outside) (call : Call) :
    w.runs.length ≤ (w.apply (advance w out call).1).runs.length := by
  generalize (advance w out call).1 = effect
  cases effect with
  | saveRun run wakeIds =>
    show w.runs.length ≤ (w.runs ++ [run]).length
    simp
  | sendInput runId wakeIds =>
    show w.runs.length ≤ (w.runs.modify runId _).length
    simp
  | _ => exact Nat.le_refl _

theorem InHandOf.step (h : InHandOf agentId i runId w) (action : Action) :
    InHandOf agentId i runId (AlwaysOn.step w action) := by
  obtain ⟨hlt, honly⟩ := h
  cases action with
  | begin call =>
    refine ⟨hlt, fun j other hj hby => ?_⟩
    rcases Slots.getElem?_append_singleton_cases hj with ⟨-, rfl⟩ | hj
    · cases call <;> simp [Call.opened, Call.started, ProcessStage.started] at hby
    · exact honly j other hj hby
  | advance k out =>
    unfold AlwaysOn.step
    dsimp only
    cases hcall : w.calls[k]? with
    | none => exact ⟨hlt, honly⟩
    | some call =>
      refine ⟨Nat.lt_of_lt_of_le hlt (advance_runs_length w out call), fun j other hj hby => ?_⟩
      rcases Slots.getElem?_set_cases hj with ⟨rfl, rfl⟩ | ⟨-, hj⟩
      · rcases advance_started hby with hwas | hnew
        · exact honly j call hcall hwas
        · exact absurd hnew (Nat.ne_of_lt hlt)
      · exact honly j other hj hby
  | runBecomes changed status =>
    unfold AlwaysOn.step
    dsimp only
    split
    · refine ⟨?_, honly⟩
      show runId < (w.runs.modify changed _).length
      rw [List.length_modify]
      exact hlt
    · exact ⟨hlt, honly⟩
  | expire id => exact ⟨hlt, honly⟩

theorem Flight.inHandOf (h : Flight agentId w) {organizationId : Uuid} {token : Nat}
    {agent : Agent} {claimed : List Uuid}
    (hold : w.calls[i]? = some (.process agentId organizationId (.starting token agent claimed)))
    (hok : out.ok = true) :
    InHandOf agentId i w.runs.length (AlwaysOn.step w (.advance i out)) := by
  unfold AlwaysOn.step advance advanceProcess
  dsimp only
  rw [hold]
  dsimp only
  rw [if_pos hok]
  refine ⟨?_, fun j other hj hby => ?_⟩
  · show w.runs.length < (w.runs ++ [_]).length
    simp
  · rcases Slots.getElem?_set_cases hj with ⟨rfl, -⟩ | ⟨-, hj⟩
    · rfl
    · exact h.alone j i other _ hj hold (guards_of_started hby)
        (by simp [Call.guards, ProcessStage.guards])

theorem one_live_run (agentId : Uuid) (w : World) (hcalls : w.calls = [])
    (hmarked : ∀ runId, w.isLive agentId runId = true → w.marker agentId = some runId)
    (actions : List Action)
    (hcareful : Steps.Along step (fun w action => singleFlight agentId w action = true) w actions) :
    (∀ runId runId', (Steps.run step w actions).isLive agentId runId = true →
      (Steps.run step w actions).isLive agentId runId' = true → runId = runId') ∧
    ∀ before i out after organizationId token agent claimed,
      actions = before ++ .advance i out :: after →
      (Steps.run step w before).calls[i]? =
        some (.process agentId organizationId (.starting token agent claimed)) →
      out.ok = true →
      (Steps.run step w actions).calls[i]? =
        some (.process agentId organizationId (.returned .started)) →
      (Steps.run step w actions).isLive agentId (Steps.run step w before).runs.length = true →
      (Steps.run step w actions).marker agentId = some (Steps.run step w before).runs.length := by
  have hstart : Flight agentId w := by
    refine ⟨?_, fun runId hlive => .inl (hmarked runId hlive), ?_⟩
    · intro i j call other hi
      simp [hcalls] at hi
    · intro call hcall
      simp [hcalls] at hcall
  have hflight : ∀ {actions}, Steps.Along step
      (fun w action => singleFlight agentId w action = true) w actions →
      Flight agentId (Steps.run step w actions) := fun hcareful =>
    Steps.run_invariant (Flight agentId) (fun _ action h hstep => h.step action hstep) hstart
      hcareful
  refine ⟨fun runId runId' => (hflight hcareful).one_live, ?_⟩
  intro before i out after organizationId token agent claimed hactions hstarts hok hreturned hlive
  have hhand : InHandOf agentId i (Steps.run step w before).runs.length
      (Steps.run step w actions) := by
    rw [hactions] at hcareful ⊢
    rw [Steps.run_append, Steps.run_cons]
    exact Steps.run_invariant (P := fun _ _ => True) (InHandOf agentId i _)
      (fun _ action h _ => h.step action)
      ((hflight (Steps.along_append.mp hcareful).1).inHandOf hstarts hok)
      (Steps.along_of_invariant (fun _ => True) (fun _ _ _ _ => trivial) (fun _ _ _ _ => trivial)
        trivial ((Steps.along_append.mp hcareful).2).2)
  rcases (hflight hcareful).marked _ hlive with hmark | ⟨call, hcall, hby⟩
  · exact hmark
  · -- the call that has it in hand has returned
    obtain ⟨j, hj⟩ := List.getElem?_of_mem hcall
    obtain rfl := hhand.2 j call hj hby
    obtain rfl := some.inj (hreturned.symm.trans hj)
    simp [Call.started, ProcessStage.started] at hby

/-! ## Runs -/

def woken : World where
  agents := [(1, { organizationId := 7, status := .active, mode := .autonomous, createdAt := 0
                   alwaysOn := some { enabled := true } })]
  includedAgents := []
  wakes := [{ agentId := 1, createdAt := 0, dedupeKey := "timer", ownerMessage := false }]

def message : Call := .wake 1 7 ⟨0, "message", true⟩ .opening

def working : Call := .process 1 7 .locking

def settings : Call := .configure 1 7 none .opening

/-- Settings that were read before a run started are saved after: the marker of the run is gone,
though `process` has returned, and the next wake starts a second run. -/
def staleSave : List Action :=
  .begin settings :: Action.times 0 1 ++ .begin working :: Action.times 1 14 ++ Action.times 0 1

/-- The lock expires while a run starts, and another worker starts one for the next wake. -/
def expiredLock : List Action :=
  .begin working :: Action.times 0 7 ++ .expire 1 :: .begin message :: Action.times 1 4 ++
    .begin working :: Action.times 2 8 ++ Action.times 0 1

theorem second_run_started :
    (let w := Steps.run step woken staleSave
    w.calls[1]? = some (.process 1 7 (.returned .started)) ∧ w.isLive 1 0 = true ∧
      w.marker 1 = none) ∧
    (let w := Steps.run step woken
      (staleSave ++ .begin message :: Action.times 2 4 ++ .begin working :: Action.times 3 8)
    w.isLive 1 0 = true ∧ w.isLive 1 1 = true) ∧
    (let w := Steps.run step woken expiredLock
    w.isLive 1 0 = true ∧ w.isLive 1 1 = true) := by
  refine ⟨?_, ?_, ?_⟩ <;> decide +kernel

/-- A run starts, and settings that were read after it was recorded are saved. -/
theorem settings_after_run :
    (Steps.run step woken ((.begin working :: Action.times 0 7) ++ .advance 0 {} ::
      (Action.times 0 6 ++ .begin settings :: Action.times 1 2))).marker 1 =
      some (Steps.run step woken (.begin working :: Action.times 0 7)).runs.length :=
  (one_live_run 1 woken rfl (fun runId hlive => by cases hlive) _ (by decide +kernel)).2
    (.begin working :: Action.times 0 7) 0 {}
    (Action.times 0 6 ++ .begin settings :: Action.times 1 2) 7 0
    { organizationId := 7, status := .active, mode := .autonomous, createdAt := 0
      alwaysOn := some { enabled := true } } [0] rfl (by decide +kernel) rfl (by decide +kernel)
    (by decide +kernel)

end Almyty.AlwaysOn
