import Almyty.Workflow.Engine

/-!
# What a workflow run spends, on its row and in the statistics

Every result the node executor returns has a cost, and the run's spend is their
sum over all its calls (`WorkflowRun.spent`). The engine keeps it twice: on the row,
which every exit assembles by hand, and in the agent's statistics, counted by every
exit and by a terminal write that lost its race.

One invariant ties the engine's own total to the history (`Booked`): what was taken
from the row and what the executor returned. Everything else is which exit forgets
what. The timeout between layers leaves the cost column as it was, so what its call
spent is lost from the row; a call that carries on and ends before it came to all
the nodes that had finished forgets their cost; and the crash handler forgets what a
layer that timed out reported. The stop rule counts nothing in the statistics, and
neither does a resume that is refused.
-/

namespace Almyty.Workflow

open Almyty.Lib Option

variable {format : NumberFormat} {setup : Setup} {resume : Option Resume} {world : World}

/-! ## The engine's total -/

/-- The engine's total is what it took from the row and what the executor returned. -/
def Booked (s : LoopState) : Prop := s.totalCost = s.replayed.sum + s.returned.sum

theorem booked_start : Booked (.start resume) := by
  simp [Booked, LoopState.start]

variable {s : LoopState}

theorem Booked.recordSkipped (h : Booked s) (layer : List String) :
    Booked (recordSkipped s layer) := by
  unfold Workflow.recordSkipped
  induction layer generalizing s with
  | nil => exact h
  | cons id layer ih =>
    rw [List.foldl_cons]
    apply ih
    split <;> exact h

theorem Booked.dispatch (h : Booked s) (items : List (AgentPipelineNode × Item)) :
    Booked (dispatch setup resume s items) := h

def Item.Fair : Item → Prop
  | .decided (.ok r) => r.cost = 0
  | _ => True

theorem itemFor_fair (id : String) : (itemFor resume world id).Fair := by
  unfold itemFor
  split
  · trivial
  · split
    · unfold decidedOutcome
      split
      · trivial
      · exact rfl
    · trivial

theorem Booked.settleItem (h : Booked s) (p : AgentPipeline) (node : AgentPipelineNode)
    {item : Item} (hfair : item.Fair) :
    Booked (settleItem format p s node item) := by
  unfold Workflow.settleItem
  cases item with
  | replayed r =>
    simp only [Item.outcome, Booked, List.sum_append, List.sum_singleton] at h ⊢
    rw [h, add_right_comm]
  | decided outcome =>
    cases outcome with
    | error e =>
      simp only [Item.outcome]
      split <;> exact h
    | ok r =>
      simp only [Item.Fair] at hfair
      simp only [Item.outcome, Booked] at h ⊢
      rw [h, hfair, add_zero]
  | ran run =>
    simp only [Item.outcome]
    split
    · split <;> exact h
    · simp only [Booked, List.sum_append, List.sum_singleton] at h ⊢
      rw [h, add_assoc]

theorem layerItems_fair {layer : List String} :
    ∀ i ∈ layerItems setup resume world s layer, i.2.Fair := by
  intro i hi
  obtain ⟨id, -, hid⟩ := List.mem_filterMap.mp hi
  obtain ⟨node, -, rfl⟩ := map_eq_some_iff.mp hid
  exact itemFor_fair id

theorem Booked.runItems (h : Booked s) {items : List (AgentPipelineNode × Item)}
    (hfair : ∀ i ∈ items, i.2.Fair) : Booked (runItems format setup resume s items) := by
  have key : ∀ (items : List (AgentPipelineNode × Item)) (s : LoopState), Booked s →
      (∀ i ∈ items, i.2.Fair) →
      Booked (items.foldl (fun s i => Workflow.settleItem format setup.pipeline s i.1 i.2) s) := by
    intro items
    induction items with
    | nil => exact fun _ h _ => h
    | cons i items ih =>
      intro s h hfair
      obtain ⟨hi, hfair⟩ := List.forall_mem_cons.mp hfair
      exact ih _ (h.settleItem _ _ hi) hfair
  exact key items _ (h.dispatch items) hfair

/-- What the loop leaves: the total is booked, but for what a layer that timed out
reported on its way out. -/
def BookedAt (s : LoopState) (exit : Exit) : Prop :=
  costForStats s exit = s.replayed.sum + s.returned.sum

theorem Booked.timeoutItems (h : Booked s) (items : List (AgentPipelineNode × Item))
    (reporting : List String) :
    BookedAt (timeoutItems s items reporting).1 (timeoutItems s items reporting).2 := by
  simp only [Booked, BookedAt, Workflow.timeoutItems, costForStats, List.sum_append] at h ⊢
  rw [h, add_assoc]

theorem bookedAt_layerLoop (layers : List (List String)) (i : Nat) (h : Booked s) :
    BookedAt (layerLoop format setup resume world i layers s).1
      (layerLoop format setup resume world i layers s).2 := by
  induction layers generalizing i s with
  | nil =>
    unfold layerLoop finalExit
    repeat' split
    all_goals exact h
  | cons layer layers ih =>
    have hskip := h.recordSkipped layer
    rcases layerLoop_cons format setup world resume i layer layers s with
      ⟨exit, hl, hexit⟩ | ⟨hl, -⟩ | ⟨reporting, hl⟩ | hl
    · rw [hl]
      simp only [List.mem_cons, List.not_mem_nil, or_false] at hexit
      rcases hexit with rfl | rfl | rfl | rfl <;> exact h
    · rw [hl]
      exact ih (i + 1) hskip
    · rw [hl]
      exact (hskip.dispatch _).timeoutItems _ _
    · rw [hl]
      exact ih (i + 1) (hskip.runItems layerItems_fair)

/-! ## What an exit writes and counts -/

def rowCost (s : LoopState) (exit : Exit) (carried : Rat) : Rat := (exitCost s exit).getD carried

theorem exitEntity_totalCost (s : LoopState) (exit : Exit) (execution : AgentExecution) :
    (exitEntity format setup world s exit execution).totalCost
      = rowCost s exit execution.totalCost := by
  unfold exitEntity rowCost
  cases exitCost s exit <;> rfl

theorem exitEntity_status (s : LoopState) (exit : Exit) (execution : AgentExecution) :
    (exitEntity format setup world s exit execution).status = exitStatus exit := by
  unfold exitEntity
  cases exitCost s exit <;> rfl

structure CallResult.Spec (r : CallResult) (carried : Rat) : Prop where
  booked : costForStats r.state r.exit + r.dropped.sum = r.state.replayed.sum + r.state.returned.sum
  written : ∀ row, r.written = some row →
    row.status = exitStatus r.exit ∧ row.totalCost = rowCost r.state r.exit carried
  counted : r.bumps.map (·.cost) =
    if r.written.isSome && (statsAfterLanding r.exit).isNone then []
    else [costForStats r.state r.exit]

variable {row : AgentExecution}

theorem afterCommit_spec {exit : Exit} {landed : Bool} {carried : Rat} (hb : BookedAt s exit)
    (hw : landed = true → row.status = exitStatus exit ∧ row.totalCost = rowCost s exit carried) :
    (afterCommit s exit row landed).Spec carried := by
  cases landed with
  | true =>
    refine ⟨by simpa [afterCommit, BookedAt] using hb, fun row' h => ?_, ?_⟩
    · obtain rfl : row = row' := by simpa [afterCommit] using h
      exact hw rfl
    · cases hs : statsAfterLanding exit <;> simp [afterCommit, hs]
  | false =>
    exact ⟨by simpa [afterCommit, BookedAt] using hb, by simp [afterCommit], by simp [afterCommit]⟩

/-- The crash handler books the engine's total, and drops what it is told was
reported beside it. -/
theorem crash_spec {n : Nat} {message : String} {execution : AgentExecution} {output : JsValue}
    {dropped : List Rat} (carried : Rat)
    (hb : s.totalCost + dropped.sum = s.replayed.sum + s.returned.sum) :
    (crash format setup world n message s execution output dropped).Spec carried := by
  have hcost : ∀ c, rowCost s (.crashed message) c = s.totalCost := fun _ => rfl
  unfold crash
  dsimp only
  split
  · next row landed hc =>
    have hland : landed = true → row.status = .failed ∧ row.totalCost = s.totalCost := by
      rintro rfl
      obtain ⟨json, before, rfl⟩ := commit_landed hc
      exact ⟨rfl, rfl⟩
    cases landed with
    | true =>
      refine ⟨by simpa [afterCommit, costForStats] using hb, fun row' h => ?_, ?_⟩
      · obtain rfl : row = row' := by simpa [afterCommit] using h
        exact hland rfl
      · simp [afterCommit, statsAfterLanding]
    | false =>
      exact ⟨by simpa [afterCommit, costForStats] using hb, by simp [afterCommit],
        by simp [afterCommit]⟩
  · exact ⟨by simpa [costForStats] using hb, by simp, by simp⟩

theorem conclude_spec {exit : Exit} (hb : BookedAt s exit) (execution : AgentExecution) :
    (conclude format setup world s exit execution).Spec execution.totalCost := by
  unfold conclude
  dsimp only
  split
  · next row landed hc =>
    refine afterCommit_spec hb ?_
    rintro rfl
    obtain ⟨json, before, rfl⟩ := commit_landed hc
    exact ⟨exitEntity_status .., exitEntity_totalCost ..⟩
  · -- the write threw: only a layer that timed out has reported beside the total
    apply crash_spec
    cases exit with
    | layerTimeout reported unaccounted => exact hb
    | _ => simpa [BookedAt, costForStats, Exit.reported] using hb

def carriedCost (resume : Option Resume) (created : AgentExecution) : Rat :=
  (startEntity resume created).totalCost

variable (format setup resume world) in
theorem execute_spec (created : AgentExecution) :
    (execute format setup resume world created).Spec (carriedCost resume created) := by
  unfold execute
  dsimp only
  split
  · exact crash_spec _ (by simp [LoopState.start])
  · exact conclude_spec (bookedAt_layerLoop _ _ booked_start) _

/-! ## The spend on the row -/

section Row

variable (format : NumberFormat) (setup : Setup)

def SpendOnRow (run : WorkflowRun) : RunAction → Prop
  | .call decision world => ∀ r row, run.result format setup decision world = some r →
      r.written = some row → row.totalCost = run.spent + r.state.returned.sum
  | .refuse _ => True

/-- The call leaves nothing out: at the timeout between layers nothing it ran cost
anything, and at every other exit what it took from the row by then is all that was
spent before it, and no layer reported a cost that the crash handler does not know. -/
def SpendTaken (run : WorkflowRun) : RunAction → Prop
  | .call decision world => ∀ r, run.result format setup decision world = some r →
      r.written.isSome → match r.exit with
        | .late => r.state.returned.sum = 0
        | _ => r.state.replayed.sum = run.spent + r.dropped.sum
  | .refuse _ => True

end Row

/-- The cost on the row the next call starts from. -/
def carriedInto (run : WorkflowRun) : Rat :=
  match run.phase with
  | .fresh row | .waiting row _ => row.totalCost
  | .ended _ => run.spent

def RowCarriesSpend (run : WorkflowRun) : Prop := carriedInto run = run.spent

variable {run : WorkflowRun}

theorem result_spec {decision : String → SettledCodeStep} {r : CallResult}
    (h : run.result format setup decision world = some r) : r.Spec (carriedInto run) := by
  unfold WorkflowRun.result at h
  split at h
  · next created hphase =>
    have hcarried : carriedInto run = created.totalCost := by
      simp only [carriedInto, hphase]
    rw [hcarried]
    exact some.inj h ▸ execute_spec format setup none world created
  · next row wait hphase =>
    have hspec := execute_spec format setup (run.resume decision) world row
    have hcost : carriedCost (run.resume decision) row = row.totalCost := by
      simp only [WorkflowRun.resume, hphase, carriedCost, startEntity]
    have hcarried : carriedInto run = row.totalCost := by
      simp only [carriedInto, hphase]
    rw [hcost] at hspec
    rw [hcarried]
    exact some.inj h ▸ hspec
  · cases h

theorem rowCost_eq {exit : Exit} (h : exit ≠ .late) (carried : Rat) :
    rowCost s exit carried = costForStats s exit := by
  cases exit <;> first | rfl | exact absurd rfl h

theorem spendOnRow_iff_taken (hinv : RowCarriesSpend run) (a : RunAction) :
    SpendOnRow format setup run a ↔ SpendTaken format setup run a := by
  cases a with
  | refuse message => exact Iff.rfl
  | call decision world =>
    have key : ∀ r row, run.result format setup decision world = some r → r.written = some row →
        (row.totalCost = run.spent + r.state.returned.sum ↔
          match r.exit with
          | .late => r.state.returned.sum = 0
          | _ => r.state.replayed.sum = run.spent + r.dropped.sum) := by
      intro r row hr hw
      have hspec := result_spec hr
      rw [hinv] at hspec
      obtain ⟨-, htotal⟩ := hspec.written row hw
      have hbooked := hspec.booked
      split
      · next hlate =>
        rw [htotal, hlate]
        show run.spent = _ ↔ _
        constructor <;> intro h <;> linarith
      · next hne =>
        rw [htotal, rowCost_eq hne]
        constructor <;> intro h <;> linarith
    constructor
    · intro h r hr hsome
      obtain ⟨row, hw⟩ := isSome_iff_exists.mp hsome
      exact (key r row hr hw).mp (h r row hr hw)
    · intro h r row hr hw
      exact (key r row hr hw).mpr (h r hr (by rw [hw]; rfl))

theorem RowCarriesSpend.refused (hinv : RowCarriesSpend run) (message : String) :
    RowCarriesSpend (run.refused message) := by
  cases hp : run.phase with
  | waiting row wait => simp only [WorkflowRun.refused, hp, RowCarriesSpend, carriedInto]
  | _ => simpa only [WorkflowRun.refused, hp] using hinv

theorem RowCarriesSpend.step (hinv : RowCarriesSpend run) {a : RunAction}
    (h : SpendOnRow format setup run a) : RowCarriesSpend (run.step format setup a) := by
  cases a with
  | refuse message => exact hinv.refused message
  | call decision world =>
    cases hr : run.result format setup decision world with
    | none => simpa only [WorkflowRun.step, hr] using hinv
    | some r =>
      simp only [WorkflowRun.step, hr, RowCarriesSpend, carriedInto]
      split
      · next created hphase => exact absurd hphase (phaseAfter_ne_fresh created)
      · next row wait hphase => exact h r row hr (phaseAfter_waiting hphase).1
      · rfl

def oneStep : Setup where
  pipeline :=
    { nodes := [⟨"input", .input, none, none⟩, ⟨"ask", .llmCall, none, none⟩,
        ⟨"output", .output, none, none⟩]
      edges := [⟨"input", "ask", none, none⟩, ⟨"ask", "output", none, none⟩] }

def lateAfterStep : World where
  run id := ⟨.ok { output := .str "ok", cost := if id = "ask" then 3 else 0 }, 0⟩
  waits _ _ _ h := by cases h
  late i := i == 2
  row _ := some (runningRow "e" "a" "o")

def endedRow (run : WorkflowRun) : Option AgentExecution :=
  match run.phase with
  | .ended row => row
  | _ => none

def CountedOnce (run : WorkflowRun) : Prop :=
  ∀ row, endedRow run = some row → row.status.isTerminal = true →
    run.bumps.map (·.cost) = [run.spent]

section Statistics

variable (format : NumberFormat) (setup : Setup)

def CountTaken (run : WorkflowRun) : RunAction → Prop
  | .call decision world => ∀ r row, run.result format setup decision world = some r →
      endedRow (run.afterCall format setup decision r) = some row → row.status.isTerminal = true →
      (r.written = some row → statsAfterLanding r.exit ≠ none) ∧
        r.state.replayed.sum = run.spent + r.dropped.sum
  | .refuse _ => ∀ row wait, run.phase ≠ .waiting row wait

end Statistics

structure Counting (run : WorkflowRun) : Prop where
  uncounted : (∀ row, run.phase ≠ .ended row) → run.bumps = []
  once : CountedOnce run

theorem afterCall_endedRow {decision : String → SettledCodeStep} {r : CallResult}
    (h : endedRow (run.afterCall format setup decision r) = some row) :
    r.written = some row ∨ r.written = none := by
  simp only [endedRow, WorkflowRun.afterCall, WorkflowRun.phaseAfter] at h
  cases hw : r.written with
  | none => exact .inr rfl
  | some row' =>
    left
    cases he : r.exit <;> simp_all

theorem CallResult.Spec.counted_iff {r : CallResult} {carried : Rat} (hspec : r.Spec carried)
    (hw : r.written = some row ∨ r.written = none) (spent : Rat) :
    r.bumps.map (·.cost) = [spent + r.state.returned.sum] ↔
      (r.written = some row → statsAfterLanding r.exit ≠ none) ∧
        r.state.replayed.sum = spent + r.dropped.sum := by
  have hbooked := hspec.booked
  have hcost : costForStats r.state r.exit = spent + r.state.returned.sum ↔
      r.state.replayed.sum = spent + r.dropped.sum := by
    constructor <;> intro h <;> linarith
  rw [hspec.counted, ← hcost]
  rcases hw with hw | hw
  · cases hs : statsAfterLanding r.exit <;> simp [hw]
  · simp [hw]

theorem Counting.countedOnce_iff (hinv : Counting run) (a : RunAction) :
    CountedOnce (run.step format setup a) ↔ CountTaken format setup run a := by
  cases a with
  | refuse message =>
    cases hp : run.phase with
    | waiting row wait =>
      -- the refused run has failed, and nothing was counted
      have hnil : run.bumps = [] := hinv.uncounted (by simp [hp])
      simp [CountedOnce, CountTaken, WorkflowRun.step, WorkflowRun.refused, hp, hnil, endedRow,
        failResume, AgentExecutionStatus.isTerminal]
    | _ =>
      have hsame : run.step format setup (.refuse message) = run := by
        simp only [WorkflowRun.step, WorkflowRun.refused, hp]
      rw [hsame]
      exact iff_of_true hinv.once (by simp [CountTaken, hp])
  | call decision world =>
    cases hr : run.result format setup decision world with
    | none =>
      simp only [WorkflowRun.step, hr]
      exact iff_of_true hinv.once fun r row h => by cases hr.symm.trans h
    | some r =>
      have hnil : run.bumps = [] := hinv.uncounted (ne_ended_of_result hr)
      have hbumps : (run.afterCall format setup decision r).bumps = r.bumps := by
        simp [WorkflowRun.afterCall, hnil]
      simp only [WorkflowRun.step, hr, CountedOnce, hbumps]
      constructor
      · intro h r' row hr' hend hterm
        obtain rfl : r = r' := some.inj (hr.symm.trans hr')
        exact ((result_spec hr).counted_iff (afterCall_endedRow hend) _).mp (h row hend hterm)
      · intro h row hend hterm
        exact ((result_spec hr).counted_iff (afterCall_endedRow hend) _).mpr (h r row hr hend hterm)

theorem Counting.step (hinv : Counting run) {a : RunAction}
    (h : CountedOnce (run.step format setup a)) : Counting (run.step format setup a) := by
  refine ⟨fun hopen => ?_, h⟩
  cases a with
  | refuse message =>
    cases hp : run.phase with
    | waiting row wait => simp [WorkflowRun.step, WorkflowRun.refused, hp] at hopen
    | _ =>
      simp only [WorkflowRun.step, WorkflowRun.refused, hp] at hopen ⊢
      exact hinv.uncounted (hp ▸ hopen)
  | call decision world =>
    cases hr : run.result format setup decision world with
    | none =>
      simp only [WorkflowRun.step, hr] at hopen ⊢
      exact hinv.uncounted hopen
    | some r =>
      simp only [WorkflowRun.step, hr, WorkflowRun.afterCall] at hopen ⊢
      rw [hinv.uncounted (ne_ended_of_result hr), List.nil_append]
      cases hphase : run.phaseAfter format setup decision r with
      | fresh created => exact absurd hphase (phaseAfter_ne_fresh created)
      | ended row => exact absurd hphase (hopen row)
      | waiting row wait =>
        obtain ⟨hw, he, -⟩ := phaseAfter_waiting hphase
        have hcounted := (result_spec hr).counted
        simpa [hw, he, statsAfterLanding] using hcounted

/-- The run of one step under a stop rule: no more than 4 cents. -/
def oneStepCapped : Setup := { oneStep with budget := some { ceilingPerRun := some 4 } }

def costlyStep : World := { lateAfterStep with late := fun _ => false }

end Almyty.Workflow
