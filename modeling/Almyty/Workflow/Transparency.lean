import Almyty.Workflow.Replay

/-!
# What a node sees after a wait

A call that carries on builds the context of its nodes from the records of the row and from the
decisions. This file compares it with the call that would have run had nothing waited: there the
steps the run waited on give their decided outcomes, the nodes that finished give what they gave,
and the executor is asked for all of them.

The two calls go through the layers in lockstep (`Alongside`). As long as every output reads back
from the record as it was (`ReadsBack`), they skip the same nodes, leave through the same checks and
give every node the same `context.nodes` and `context.variables`.
-/

namespace Almyty.Workflow

open Almyty.Lib List

variable {format : NumberFormat} {setup : Setup} {resume : Option Resume} {world : World}

/-! ## The call that does not wait -/

structure Answered where
  run : WorkflowRun
  answers : Executor

namespace Answered

variable (t : Answered) (decision : String → SettledCodeStep) (world : World)

/-- The node had its turn in an earlier call: the run waits on it, or it finished. -/
def earlier (id : String) : Bool := id ∈ waitingIds t.run || id ∈ t.run.finished

/-- What the executor would give had nothing waited. -/
def answer (id : String) : NodeRun :=
  if id ∈ waitingIds t.run then
    { outcome := decidedOutcome (decision id) .undefined
      toolCalls := (t.answers.run id).toolCalls }
  else if id ∈ t.run.finished then t.answers.run id
  else world.run id

theorem decidedOutcome_waiting {decided : SettledCodeStep} {input : JsValue} {e : NodeError}
    (h : decidedOutcome decided input = .error e) : e.waiting = none := by
  unfold decidedOutcome at h
  split at h <;> cases h
  rfl

def executor : Executor where
  run := t.answer decision world
  waits := by
    intro id e step h hw
    unfold answer at h
    split at h
    · rw [decidedOutcome_waiting h] at hw
      cases hw
    · split at h
      · exact t.answers.waits id e step h hw
      · exact world.waits id e step h hw

/-- The world of the call that does not wait: the same, but for the executor. -/
def uninterrupted : World := { world with toExecutor := t.executor decision world }

def step (format : NumberFormat) (setup : Setup) (t : Answered) (a : RunAction) : Answered where
  run := t.run.step format setup a
  answers :=
    match a with
    | .call decision world => t.executor decision world
    | .refuse _ => t.answers

def start (id agentId organizationId : String) : Answered where
  run := .start id agentId organizationId
  answers := { run := fun _ => ⟨.ok { output := .undefined }, 0⟩, waits := fun _ _ _ h => by cases h }

/-- The tool calls of the nodes among `ids` that had their turn earlier. -/
def made (ids : List String) : Nat :=
  ((ids.filter t.earlier).map fun id => (t.answers.run id).toolCalls).sum

end Answered

def layersBefore (p : AgentPipeline) (n : String) : List String :=
  match computeLayers p with
  | .ok layers => (layers.takeWhile fun layer => n ∉ layer).flatten
  | .error _ => []

section Transparent

variable (format : NumberFormat) (setup : Setup)

def Transparent (t : Answered) : RunAction → Prop
  | .call decision world => ∀ row wait r, t.run.phase = .waiting row wait →
      t.run.result format setup decision world = some r →
      ∀ c ∈ r.state.calls,
        c ∈ (execute format setup none (t.uninterrupted decision world) row).state.calls
  | .refuse _ => True

def SeesTheSame (t : Answered) : RunAction → Prop
  | .call decision world => ∀ row wait r, t.run.phase = .waiting row wait →
      t.run.result format setup decision world = some r →
      ∀ c ∈ r.state.calls, ∃ view,
        (c.1, view) ∈ (execute format setup none (t.uninterrupted decision world) row).state.calls ∧
          c.2.nodes = view.nodes ∧ c.2.vars = view.vars ∧
          c.2.toolCalls + t.made (layersBefore setup.pipeline c.1)
            = view.toolCalls + wait.toolCalls
  | .refuse _ => True

def ReadsBack (output : JsValue) : Prop :=
  ∃ json, (capPersistedPayload format output).toJson = some (some json) ∧ .ofJson json = output

def OutputsReadBack (t : Answered) : RunAction → Prop
  | .call decision world => ∀ r, t.run.result format setup decision world = some r →
      r.written.isSome → r.exit = .waiting → ∀ n ∈ r.state.finished, ∀ result,
        (itemFor (t.run.resume decision) world n).outcome = .ok result →
          ReadsBack format result.output
  | .refuse _ => True

end Transparent

/-! ## Results that look alike -/

def SameResult (a b : Except NodeError NodeExecutionResult) : Prop :=
  match a, b with
  | .ok r, .ok r' => r.output = r'.output ∧ r.cost = r'.cost
  | .error e, .error e' => e.waitingStep.isSome = e'.waitingStep.isSome
  | _, _ => False

theorem SameResult.refl (a : Except NodeError NodeExecutionResult) : SameResult a a := by
  cases a with
  | ok r => exact ⟨rfl, rfl⟩
  | error e => exact rfl

theorem sameResult_decided (decided : SettledCodeStep) (input input' : JsValue) :
    SameResult (decidedOutcome decided input) (decidedOutcome decided input') := by
  unfold decidedOutcome
  split
  · exact rfl
  · exact ⟨rfl, rfl⟩

section Same

variable {a b : Except NodeError NodeExecutionResult}

theorem SameResult.context_eq (h : SameResult a b) : outcomeContext a = outcomeContext b := by
  cases a <;> cases b
  · simp only [SameResult] at h
    simp only [outcomeContext, h]
  · exact h.elim
  · exact h.elim
  · simp only [outcomeContext, h.1]

theorem SameResult.outcome_eq (h : SameResult a b) (type : NodeType) :
    nodeOutcome type a = nodeOutcome type b := by
  cases a <;> cases b
  · simp only [SameResult] at h
    simp only [nodeOutcome, h]
  · exact h.elim
  · exact h.elim
  · simp only [nodeOutcome, h.1]

theorem SameResult.cost_eq (h : SameResult a b) : outcomeCost a = outcomeCost b := by
  cases a <;> cases b
  · rfl
  · exact h.elim
  · exact h.elim
  · exact h.2

end Same

/-! ## Two calls in lockstep -/

section Lockstep

variable {t : Answered} {decision : String → SettledCodeStep}

theorem Answered.made_append (t : Answered) (xs ys : List String) :
    t.made (xs ++ ys) = t.made xs + t.made ys := by
  simp [made]

/-- If every node of a layer that had its turn earlier runs, its skipped nodes made no
calls. -/
theorem Answered.made_active (t : Answered) {layer skipped : List String}
    (h : ∀ id ∈ layer, t.earlier id = true → id ∉ skipped) :
    t.made (layer.filter (· ∉ skipped)) = t.made layer := by
  have hfilter : (layer.filter (· ∉ skipped)).filter t.earlier = layer.filter t.earlier := by
    rw [filter_filter]
    apply filter_congr
    intro id hid
    cases he : t.earlier id with
    | false => rfl
    | true => simpa using h id hid he
  rw [made, made, hfilter]

variable (setup t decision) in
/-- Each node gives in the call that carries on what it gives in the one that does not
wait, and the tool calls it makes now are those it has not made earlier. -/
def GivesTheSame (resume : Option Resume) (world : World) : Prop :=
  ∀ id ∈ setup.pipeline.ids,
    SameResult (itemFor resume world id).outcome (t.answer decision world id).outcome ∧
      (itemFor resume world id).toolCalls
          + (if t.earlier id = true then (t.answers.run id).toolCalls else 0)
        = (t.answer decision world id).toolCalls

structure Alongside (t : Answered) (ledger : Nat) (done : List String) (s u : LoopState) :
    Prop where
  skipped : s.skipped = u.skipped
  contextNodes : s.contextNodes = u.contextNodes
  results : ∀ id, (s.nodeResults.lookup id).isSome = (u.nodeResults.lookup id).isSome
  totalCost : s.totalCost = u.totalCost
  lastLayerCost : s.lastLayerCost = u.lastLayerCost
  toolCalls : s.toolCalls + t.made done = u.toolCalls + ledger

theorem isSome_lookup_assign {fields fields' : Fields}
    (h : ∀ id, (fields.lookup id).isSome = (fields'.lookup id).isSome) (key : String)
    (value value' : Json) (id : String) :
    ((Js.assign fields key value).lookup id).isSome
      = ((Js.assign fields' key value').lookup id).isSome := by
  have hnone : fields.lookup key = none ↔ fields'.lookup key = none := by
    rw [← Option.isNone_iff_eq_none, ← Option.isNone_iff_eq_none, ← Option.not_isSome,
      ← Option.not_isSome, h key]
  unfold Js.assign
  by_cases hp : key = "__proto__" ∧ fields.lookup key = none
  · rw [if_pos hp, if_pos ⟨hp.1, hnone.mp hp.2⟩]
    exact h id
  · rw [if_neg hp, if_neg fun hp' => hp ⟨hp'.1, hnone.mpr hp'.2⟩, Assoc.lookup_put, Assoc.lookup_put]
    split
    · rfl
    · exact h id

variable {ledger : Nat} {done : List String} {s u : LoopState}

theorem Alongside.congr (h : Alongside t ledger done s u) {done' : List String}
    (hmade : t.made done' = t.made done) : Alongside t ledger done' s u :=
  { h with toolCalls := hmade ▸ h.toolCalls }

theorem Alongside.recordSkipped (h : Alongside t ledger done s u) (layer : List String) :
    Alongside t ledger done (recordSkipped s layer) (recordSkipped u layer) := by
  unfold Workflow.recordSkipped
  induction layer generalizing s u with
  | nil => exact h
  | cons id layer ih =>
    rw [foldl_cons, foldl_cons]
    apply ih
    have hcond : (id ∈ s.skipped ∧ (!Js.hasProperty s.nodeResults id) = true)
        = (id ∈ u.skipped ∧ (!Js.hasProperty u.nodeResults id) = true) := by
      simp only [h.skipped, Js.hasProperty, h.results]
    by_cases hs : id ∈ s.skipped ∧ (!Js.hasProperty s.nodeResults id) = true
    · rw [if_pos hs, if_pos (hcond ▸ hs)]
      refine { h with contextNodes := ?_, results := ?_ }
      · dsimp only
        rw [h.contextNodes]
      · exact fun _ => isSome_lookup_assign h.results ..
    · rw [if_neg hs, if_neg fun hu => hs (hcond ▸ hu)]
      exact h

theorem Alongside.settleItem (h : Alongside t ledger done s u) (p : AgentPipeline)
    (node : AgentPipelineNode) {item item' : Item}
    (hsame : SameResult item.outcome item'.outcome) :
    Alongside t ledger done (settleItem format p s node item)
      (settleItem format p u node item') := by
  refine ⟨?_, ?_, fun id => ?_, ?_, ?_, ?_⟩
  · rw [(settleItem_settled ..).skipped, (settleItem_settled ..).skipped, h.skipped, hsame.outcome_eq]
  · rw [(settleItem_settled ..).contextNodes, (settleItem_settled ..).contextNodes, h.contextNodes, hsame.context_eq]
  · rw [(settleItem_settled ..).nodeResults, (settleItem_settled ..).nodeResults]
    exact isSome_lookup_assign h.results ..
  · rw [(settleItem_settled ..).totalCost, (settleItem_settled ..).totalCost, h.totalCost, hsame.cost_eq]
  · rw [(settleItem_settled ..).lastLayerCost, (settleItem_settled ..).lastLayerCost, h.lastLayerCost]
  · rw [(settleItem_settled ..).toolCalls, (settleItem_settled ..).toolCalls]
    exact h.toolCalls

theorem Item.cost_eq (item : Item) : item.cost = outcomeCost item.outcome := by
  unfold Item.cost outcomeCost
  cases item.outcome <;> rfl

variable {ids : List String}

theorem Alongside.settles (hsame : GivesTheSame setup t decision resume world)
    (hids : ∀ id ∈ ids, id ∈ setup.pipeline.ids) (h : Alongside t ledger done s u) :
    Alongside t ledger done
      ((itemsOf setup.pipeline (itemFor resume world) ids).foldl
        (fun s i => Workflow.settleItem format setup.pipeline s i.1 i.2) s)
      ((itemsOf setup.pipeline (fun id => .ran (t.answer decision world id)) ids).foldl
        (fun s i => Workflow.settleItem format setup.pipeline s i.1 i.2) u) := by
  induction ids generalizing s u with
  | nil => exact h
  | cons id ids ih =>
    obtain ⟨hid, hids⟩ := forall_mem_cons.mp hids
    obtain ⟨node, hnode, -⟩ := setup.pipeline.node_eq_some hid
    rw [itemsOf_cons_some hnode, itemsOf_cons_some hnode, foldl_cons, foldl_cons]
    exact ih hids (h.settleItem _ _ (hsame id hid).1)

theorem GivesTheSame.sums (hsame : GivesTheSame setup t decision resume world)
    (hids : ∀ id ∈ ids, id ∈ setup.pipeline.ids) :
    let items := itemsOf setup.pipeline (itemFor resume world) ids
    let items' := itemsOf setup.pipeline (fun id => .ran (t.answer decision world id)) ids
    (items.map fun i => i.2.cost).sum = (items'.map fun i => i.2.cost).sum ∧
      (items.map fun i => i.2.toolCalls).sum + t.made ids
        = (items'.map fun i => i.2.toolCalls).sum := by
  induction ids with
  | nil => exact ⟨rfl, rfl⟩
  | cons id ids ih =>
    obtain ⟨hid, hids⟩ := forall_mem_cons.mp hids
    obtain ⟨node, hnode, -⟩ := setup.pipeline.node_eq_some hid
    obtain ⟨hcost, hcalls⟩ := ih hids
    obtain ⟨hone, hmade⟩ := hsame id hid
    have hrun : (Item.ran (t.answer decision world id)).outcome
        = (t.answer decision world id).outcome := rfl
    have hran : (Item.ran (t.answer decision world id)).toolCalls
        = (t.answer decision world id).toolCalls := rfl
    have hsplit : t.made (id :: ids)
        = (if t.earlier id = true then (t.answers.run id).toolCalls else 0) + t.made ids := by
      simp only [Answered.made, filter_cons]
      split <;> simp
    simp only [itemsOf_cons_some hnode, map_cons, sum_cons]
    constructor
    · rw [hcost, Item.cost_eq, Item.cost_eq, hrun, hone.cost_eq]
    · rw [hsplit, hran]
      omega

variable (setup t) in
/-- What the nodes given to the executor saw, on both sides. -/
def CallsAlike (ledger : Nat) (s u : LoopState) : Prop :=
  ∀ c ∈ s.calls, ∃ view, (c.1, view) ∈ u.calls ∧ c.2.nodes = view.nodes ∧ c.2.vars = view.vars ∧
    c.2.toolCalls + t.made (layersBefore setup.pipeline c.1) = view.toolCalls + ledger

theorem CallsAlike.dispatch (hcalls : CallsAlike setup t ledger s u)
    (h : Alongside t ledger done s u) (hvars : contextVars setup resume = contextVars setup none)
    (hbefore : ∀ id ∈ ids, layersBefore setup.pipeline id = done) :
    CallsAlike setup t ledger
      (dispatch setup resume s (itemsOf setup.pipeline (itemFor resume world) ids))
      (dispatch setup none u
        (itemsOf setup.pipeline (fun id => .ran (t.answer decision world id)) ids)) := by
  intro c hc
  simp only [Workflow.dispatch, mem_append, mem_filterMap] at hc ⊢
  rcases hc with hc | ⟨⟨node, item⟩, hi, hc⟩
  · obtain ⟨view, hview, hsame⟩ := hcalls c hc
    exact ⟨view, .inl hview, hsame⟩
  · obtain ⟨id, hid, hitem⟩ := mem_filterMap.mp hi
    obtain ⟨node', hnode, heq⟩ := Option.map_eq_some_iff.mp hitem
    obtain ⟨rfl, rfl⟩ := Prod.mk.inj heq
    obtain rfl : node'.id = id := by simpa using List.find?_some hnode
    dsimp only at hc
    split at hc
    · cases hc
      refine ⟨⟨u.contextNodes, contextVars setup none, u.toolCalls⟩, .inr
        ⟨(node', .ran (t.answer decision world node'.id)), ?_, rfl⟩, h.contextNodes, hvars, ?_⟩
      · exact mem_filterMap.mpr ⟨node'.id, hid, by rw [hnode]; rfl⟩
      · rw [hbefore node'.id hid]
        exact h.toolCalls
    · cases hc

theorem Alongside.runItems (hsame : GivesTheSame setup t decision resume world)
    (hids : ∀ id ∈ ids, id ∈ setup.pipeline.ids) (h : Alongside t ledger done s u) :
    Alongside t ledger (done ++ ids)
      (runItems format setup resume s (itemsOf setup.pipeline (itemFor resume world) ids))
      (runItems format setup none u
        (itemsOf setup.pipeline (fun id => .ran (t.answer decision world id)) ids)) := by
  obtain ⟨hcost, hmade⟩ := hsame.sums hids
  have hdispatch : Alongside t ledger (done ++ ids)
      (dispatch setup resume s (itemsOf setup.pipeline (itemFor resume world) ids))
      (dispatch setup none u
        (itemsOf setup.pipeline (fun id => .ran (t.answer decision world id)) ids)) := by
    refine { h with toolCalls := ?_ }
    have htotal := h.toolCalls
    simp only [Workflow.dispatch, Answered.made_append]
    omega
  exact { Alongside.settles hsame hids hdispatch with lastLayerCost := hcost }

theorem Alongside.exitBefore_eq (h : Alongside t ledger done s u) (i : Nat) :
    exitBefore setup (t.uninterrupted decision world) i u = exitBefore setup world i s := by
  simp only [exitBefore, h.totalCost, h.lastLayerCost]
  rfl

/-- `all` are the layers of the pipeline, of which both loops have gone through the first ones. -/
theorem CallsAlike.layerLoop {all : List (List String)}
    (hsame : GivesTheSame setup t decision resume world)
    (hvars : contextVars setup resume = contextVars setup none)
    (hknown : ∀ id ∈ all.flatten, id ∈ setup.pipeline.ids)
    (hbefore : ∀ pre layer post, all = pre ++ layer :: post → ∀ id ∈ layer,
      layersBefore setup.pipeline id = pre.flatten)
    (hactive : ∀ pre layer post, all = pre ++ layer :: post → ∀ id ∈ layer, t.earlier id = true →
      id ∉ (pre.foldl (runLayer setup.pipeline (callOutcomes setup resume world)) {}).skipped)
    {layers pre : List (List String)} (hall : all = pre ++ layers) {i : Nat}
    (hfollows : Follows format setup resume world s
      (pre.foldl (runLayer setup.pipeline (callOutcomes setup resume world)) {}))
    (h : Alongside t ledger pre.flatten s u) (hcalls : CallsAlike setup t ledger s u) :
    CallsAlike setup t ledger (layerLoop format setup resume world i layers s).1
      (layerLoop format setup none (t.uninterrupted decision world) i layers u).1 := by
  induction layers generalizing pre i s u with
  | nil => exact hcalls
  | cons layer layers ih =>
    have hlayer : ∀ id ∈ layer, id ∈ setup.pipeline.ids := by
      intro id hid
      apply hknown
      simp [hall, hid]
    have hskip := hfollows.recordSkipped layer
    have hside := h.recordSkipped layer
    have hcalls' : CallsAlike setup t ledger (recordSkipped s layer) (recordSkipped u layer) := by
      unfold CallsAlike
      rw [recordSkipped_calls, recordSkipped_calls]
      exact hcalls
    let active := layer.filter (· ∉ (Workflow.recordSkipped s layer).skipped)
    have hitems' : layerItems setup none (t.uninterrupted decision world)
        (Workflow.recordSkipped u layer) layer
        = itemsOf setup.pipeline (fun id => .ran (t.answer decision world id)) active := by
      simp only [active, hside.skipped]
      rfl
    have hmem : ∀ id ∈ active, id ∈ layer := fun id hid => (mem_filter.mp hid).1
    -- whoever had its turn earlier has its turn again
    have hmade : t.made active = t.made layer := by
      apply t.made_active
      intro id hid he
      rw [hskip.skipped]
      exact hactive pre layer layers hall id hid he
    have hflat : t.made (pre ++ [layer]).flatten = t.made (pre.flatten ++ active) := by
      rw [flatten_append, t.made_append, t.made_append, hmade]
      simp
    have hnext : all = (pre ++ [layer]) ++ layers := by simp [hall]
    rw [Workflow.layerLoop, Workflow.layerLoop, h.exitBefore_eq i]
    cases he : exitBefore setup world i s with
    | some exit => exact hcalls
    | none =>
      dsimp only
      rw [hitems', ← hside.skipped]
      by_cases hempty : active = []
      · -- nothing to run on either side
        have hnone : active.isEmpty = true := List.isEmpty_iff.mpr hempty
        rw [if_pos hnone, if_pos hnone]
        refine ih hnext ?_ (hside.congr (hflat.trans (by rw [hempty, append_nil]))) hcalls'
        rw [foldl_append, foldl_cons, foldl_nil, runLayer, ← hskip.skipped]
        rw [show layer.filter (· ∉ (Workflow.recordSkipped s layer).skipped) = [] from hempty]
        exact hskip
      · have hsome : ¬ active.isEmpty = true := fun h => hempty (List.isEmpty_iff.mp h)
        rw [if_neg hsome, if_neg hsome]
        have hdispatch : CallsAlike setup t ledger
            (Workflow.dispatch setup resume (Workflow.recordSkipped s layer)
              (itemsOf setup.pipeline (itemFor resume world) active))
            (Workflow.dispatch setup none (Workflow.recordSkipped u layer)
              (itemsOf setup.pipeline (fun id => .ran (t.answer decision world id)) active)) :=
          hcalls'.dispatch hside hvars fun id hid => hbefore pre layer layers hall id (hmem id hid)
        rw [show (t.uninterrupted decision world).layerTimeout = world.layerTimeout from rfl]
        cases world.layerTimeout i with
        | some reporting => exact hdispatch
        | none =>
          refine ih hnext ?_ ((hside.runItems hsame fun id hid => hlayer id (hmem id hid)).congr
            hflat) ?_
          · rw [foldl_append, foldl_cons, foldl_nil]
            exact hskip.runItems layer
          · unfold CallsAlike
            rw [runItems_calls, runItems_calls]
            exact hdispatch

end Lockstep

/-! ## What the row remembers -/

theorem lookup_settledSteps_of_mem {wait : WorkflowWaitState} {decision : String → SettledCodeStep}
    {n : String} (h : n ∈ wait.steps.map (·.nodeId)) (hproto : n ≠ "__proto__") :
    (settledSteps wait decision).lookup n = some (decision n) := by
  have key : ∀ (steps : List WaitingCodeStep) (settled : List (String × SettledCodeStep)),
      n ∈ steps.map (·.nodeId) ∨ settled.lookup n = some (decision n) →
      (steps.foldl (fun settled step => Js.assign settled step.nodeId (decision step.nodeId))
        settled).lookup n = some (decision n) := by
    intro steps
    induction steps with
    | nil =>
      rintro settled (hmem | hs)
      · cases hmem
      · exact hs
    | cons step steps ih =>
      intro settled hs
      apply ih
      by_cases hn : n = step.nodeId
      · subst hn
        exact .inr (Js.lookup_assign_self _ hproto _)
      · rw [Js.lookup_assign_of_ne _ hn]
        rw [map_cons, mem_cons] at hs
        tauto
  exact key wait.steps [] (.inl h)

section Items

variable {row : AgentExecution} {wait : WorkflowWaitState} {decision : String → SettledCodeStep}
  {n : String}

theorem itemFor_decided (hmem : n ∈ wait.steps.map (·.nodeId)) (hproto : n ≠ "__proto__") :
    ∃ input, itemFor (some ⟨row, wait, settledSteps wait decision⟩) world n
      = .decided (decidedOutcome (decision n) input) :=
  itemFor_settled (by rw [settledAt, lookup_settledSteps_of_mem hmem hproto])

theorem itemFor_new (hsteps : n ∉ wait.steps.map (·.nodeId)) (hproto : n ∉ Js.objectPrototype)
    (hrow : ∀ record, row.nodeResults.fieldsOrEmpty.lookup n = some record →
      recordProp record "output" = none) :
    itemFor (some ⟨row, wait, settledSteps wait decision⟩) world n = .ran (world.run n) := by
  have hsettled : settledAt (settledSteps wait decision) n = none := by
    rw [settledAt, lookup_settledSteps hsteps]
    exact if_neg hproto
  have hreplay : replayRecord (some ⟨row, wait, settledSteps wait decision⟩) n = none := by
    rw [replayRecord, Option.bind_some, Option.filter_eq_none_iff]
    intro record hrec
    simp [replayable, hrow record hrec]
  rw [itemFor, hreplay]
  simp only [Option.bind_some, hsettled, Option.map_none]

end Items

structure RowRemembers (format : NumberFormat) (setup : Setup) (t : Answered)
    (row : AgentExecution) (wait : WorkflowWaitState) : Prop where
  vars : wait.vars = setup.optionVars
  steps : ∀ n ∈ t.run.finished, n ∉ wait.steps.map (·.nodeId)
  done : ∀ n ∈ t.run.finished, n ∉ Js.objectPrototype → ∃ r r',
    (t.answers.run n).outcome = .ok r ∧
      row.nodeResults.fieldsOrEmpty.lookup n = some (doneRecord format r') ∧
      r'.output = r.output ∧ r'.cost = r.cost ∧ ReadsBack format r'.output
  output : ∀ n record, row.nodeResults.fieldsOrEmpty.lookup n = some record →
    (recordProp record "output").isSome → n ∈ t.run.finished

structure Remembers (format : NumberFormat) (setup : Setup) (t : Answered) : Prop where
  carried : Carried setup t.run
  waiting : ∀ row wait, t.run.phase = .waiting row wait → RowRemembers format setup t row wait

section Remembers

variable {t : Answered} {decision : String → SettledCodeStep}

theorem Answered.earlier_eq (t : Answered) (id : String) :
    t.earlier id = true ↔ id ∈ waitingIds t.run ∨ id ∈ t.run.finished := by
  simp [earlier]

theorem RowRemembers.givesTheSame {row : AgentExecution} {wait : WorkflowWaitState}
    (h : RowRemembers format setup t row wait) (hphase : t.run.phase = .waiting row wait)
    (hids : ∀ id ∈ setup.pipeline.ids, id ∉ Js.objectPrototype) :
    GivesTheSame setup t decision (some ⟨row, wait, settledSteps wait decision⟩) world := by
  intro id hid
  have hproto := hids id hid
  have hwaiting : waitingIds t.run = wait.steps.map (·.nodeId) := by
    simp only [waitingIds, hphase]
  by_cases hstep : id ∈ wait.steps.map (·.nodeId)
  · obtain ⟨input, hitem⟩ := @itemFor_decided world row wait decision id hstep
      fun hp => hproto (hp ▸ by decide)
    have hearlier : t.earlier id = true := (t.earlier_eq id).mpr (.inl (hwaiting ▸ hstep))
    have hanswer : t.answer decision world id
        = ⟨decidedOutcome (decision id) .undefined, (t.answers.run id).toolCalls⟩ := by
      rw [Answered.answer, if_pos (hwaiting ▸ hstep)]
    rw [hitem, hanswer, if_pos hearlier]
    exact ⟨sameResult_decided .., Nat.zero_add _⟩
  · by_cases hfin : id ∈ t.run.finished
    · obtain ⟨r, r', hr, hrow, houtput, hcost, json, hjson, hback⟩ := h.done id hfin hproto
      have hitem := @itemFor_doneRecord format world row wait decision id r' json hstep hproto
        hrow hjson
      have hearlier : t.earlier id = true := (t.earlier_eq id).mpr (.inr hfin)
      have hanswer : t.answer decision world id = t.answers.run id := by
        rw [Answered.answer, if_neg (hwaiting ▸ hstep), if_pos hfin]
      rw [hitem, hanswer, if_pos hearlier, hr]
      refine ⟨⟨?_, ?_⟩, Nat.zero_add _⟩
      · rw [replayedResult_output hjson, hback, houtput]
      · rw [← hcost]
        exact numProp_doneRecord_cost r'
    · have hitem := @itemFor_new world row wait decision id hstep hproto fun record hrec => by
        apply Option.not_isSome_iff_eq_none.mp
        exact fun hsome => hfin (h.output id record hrec hsome)
      have hearlier : ¬ t.earlier id = true := by
        rw [t.earlier_eq, hwaiting]
        tauto
      have hanswer : t.answer decision world id = world.run id := by
        rw [Answered.answer, if_neg (hwaiting ▸ hstep), if_neg hfin]
      rw [hitem, hanswer, if_neg hearlier]
      exact ⟨.refl _, Nat.add_zero _⟩

theorem layersBefore_eq {all pre post : List (List String)} {layer : List String} {id : String}
    (hlayers : computeLayers setup.pipeline = .ok all) (hnd : all.flatten.Nodup)
    (hall : all = pre ++ layer :: post) (hid : id ∈ layer) :
    layersBefore setup.pipeline id = pre.flatten := by
  have hpre : ∀ l ∈ pre, decide (id ∉ l) = true := by
    intro l hl
    apply decide_eq_true
    intro hmem
    rw [hall, flatten_append, nodup_append] at hnd
    exact hnd.2.2 id (mem_flatten_of_mem hl hmem) id (by simp [hid]) rfl
  simp only [layersBefore, hlayers]
  rw [hall, takeWhile_append_of_pos hpre, takeWhile_cons_of_neg (by simpa using hid), append_nil]

theorem Remembers.seesTheSame (h : Remembers format setup t) (hwf : setup.pipeline.WellFormed)
    (hids : ∀ id ∈ setup.pipeline.ids, id ∉ Js.objectPrototype) (a : RunAction) :
    SeesTheSame format setup t a := by
  cases a with
  | refuse message => trivial
  | call decision world =>
    intro row wait r hphase hr
    have hrow := h.waiting row wait hphase
    have hsame : GivesTheSame setup t decision (some ⟨row, wait, settledSteps wait decision⟩) world :=
      hrow.givesTheSame hphase hids
    have hresume : t.run.resume decision = some ⟨row, wait, settledSteps wait decision⟩ := by
      simp only [WorkflowRun.resume, hphase]
    have hexecute : r = execute format setup (t.run.resume decision) world row := by
      simp only [WorkflowRun.result, hphase] at hr
      exact (Option.some.inj hr).symm
    have hexec := fun layers hlayers => @Carried.executed _ _ _ decision _ h.carried _ hr layers hlayers
    rw [hresume] at hexecute hexec
    have hprepare : prepareLayers setup (t.uninterrupted decision world)
        = prepareLayers setup world := rfl
    rw [hexecute, execute, execute, hprepare]
    cases hlayers : prepareLayers setup world with
    | error message =>
      simp only [crash_state]
      simp [LoopState.start]
    | ok layers =>
      have hok := computeLayers_of_prepareLayers hlayers
      have hl := layering_of_computeLayers hwf hok
      have hnd : layers.flatten.Nodup := hl.perm.nodup_iff.mpr hwf.nodup
      simp only [conclude_state]
      refine CallsAlike.layerLoop hsame ?_ (fun id hid => hl.perm.mem_iff.mp hid)
        (fun pre layer post hall id hid => layersBefore_eq hok hnd hall hid)
        (fun pre layer post hall id hid he => ?_) (nil_append layers).symm follows_start ?_ ?_
      · simp only [contextVars, hrow.vars]
      · have hturn := hexec layers hok id (by rw [or_comm]; exact (t.earlier_eq id).mp he)
        subst hall
        exact not_skipped_of_executed hnd hid hturn
      · exact ⟨rfl, rfl, fun _ => rfl, rfl, rfl, by simp [LoopState.start, Answered.made]⟩
      · simp [CallsAlike, LoopState.start]

theorem mem_ids_of_node {p : AgentPipeline} {id : String} {node : AgentPipelineNode}
    (h : p.node id = some node) : id ∈ p.ids := by
  obtain rfl : node.id = id := by simpa using List.find?_some h
  exact mem_map_of_mem (mem_reverse.mp (List.mem_of_find?_eq_some h))

theorem Remembers.sameResult (h : Remembers format setup t)
    (hids : ∀ id ∈ setup.pipeline.ids, id ∉ Js.objectPrototype) {r : CallResult}
    (hr : t.run.result format setup decision world = some r) {id : String}
    (hid : id ∈ setup.pipeline.ids) :
    SameResult (itemFor (t.run.resume decision) world id).outcome
      (t.answer decision world id).outcome := by
  cases hphase : t.run.phase with
  | ended row => exact absurd hphase (ne_ended_of_result hr row)
  | waiting row wait =>
    have hresume : t.run.resume decision = some ⟨row, wait, settledSteps wait decision⟩ := by
      simp only [WorkflowRun.resume, hphase]
    rw [hresume]
    exact ((h.waiting row wait hphase).givesTheSame hphase hids id hid).1
  | fresh created =>
    have hresume : t.run.resume decision = none := by
      simp only [WorkflowRun.resume, hphase]
    have hfresh : t.run.finished = [] := by
      have hcarried := h.carried
      simpa only [Carried, hphase] using hcarried
    have hanswer : t.answer decision world id = world.run id := by
      simp [Answered.answer, waitingIds, hphase, hfresh]
    rw [hresume, hanswer]
    exact .refl _

theorem Remembers.rowRemembers (h : Remembers format setup t)
    (hids : ∀ id ∈ setup.pipeline.ids, id ∉ Js.objectPrototype) {created row : AgentExecution}
    {wait : WorkflowWaitState}
    (hr : t.run.result format setup decision world
      = some (execute format setup (t.run.resume decision) world created))
    (hphase : t.run.phaseAfter format setup decision
      (execute format setup (t.run.resume decision) world created) = .waiting row wait)
    (hread : ∀ n ∈ (execute format setup (t.run.resume decision) world created).state.finished,
      ∀ result, (itemFor (t.run.resume decision) world n).outcome = .ok result →
        ReadsBack format result.output) :
    RowRemembers format setup ⟨t.run.afterCall format setup decision
      (execute format setup (t.run.resume decision) world created), t.executor decision world⟩
      row wait := by
  obtain ⟨hwritten, hexit, hwait⟩ := phaseAfter_waiting hphase
  obtain ⟨layers, hlayers, hfollows, hrow⟩ := execute_waiting hexit hwritten
  have hfinished : t.run.finished ++ (execute format setup (t.run.resume decision) world
        created).state.finished
      ⊆ (execute format setup (t.run.resume decision) world created).state.finished :=
    append_subset.mpr ⟨h.carried.finished hr hexit hwritten, fun _ hn => hn⟩
  have hsteps : wait.steps.map (·.nodeId) = (execute format setup (t.run.resume decision) world
      created).state.waitingSteps.map (·.nodeId) := by
    simp [hwait, waitState]
  refine ⟨?_, fun n hn => ?_, fun n hn hproto => ?_, fun n record hl ho => ?_⟩
  · cases hp : t.run.phase with
    | waiting row' wait' =>
      simp only [hwait, waitState, WorkflowRun.resume, hp]
      exact (h.waiting row' wait' hp).vars
    | _ => simp only [hwait, waitState, WorkflowRun.resume, hp]
  · rw [hsteps]
    exact hfollows.not_mem_steps (hfinished hn)
  · obtain ⟨hran, hok⟩ := (hfollows.finished_iff n).mp (hfinished hn)
    obtain ⟨node, hnode⟩ := hfollows.known n hran
    have hrec := hfollows.record n hran fun hp => hproto (hp ▸ by decide)
    have hsame := h.sameResult hids hr (mem_ids_of_node hnode)
    cases ho : (itemFor (t.run.resume decision) world n).outcome with
    | error e =>
      rw [ho] at hok
      cases hok
    | ok r' =>
      rw [ho] at hsame hrec
      cases ha : (t.answer decision world n).outcome with
      | error e =>
        rw [ha] at hsame
        exact hsame.elim
      | ok r =>
        rw [ha] at hsame
        refine ⟨r, r', ha, ?_, hsame.1, hsame.2, hread n (hfinished hn) r' ho⟩
        rw [hrow]
        exact hrec
  · rw [hrow] at hl
    exact mem_append_right _ (hfollows.output n record hl ho)

theorem ReadsBack.survives {output : JsValue} (h : ReadsBack format output) (p : AgentPipeline)
    (node : AgentPipelineNode) : Survives format p node output := by
  obtain ⟨json, hjson, hback⟩ := h
  exact ⟨json, hjson, fun e _ hc => hback ▸ hc⟩

theorem Remembers.step (h : Remembers format setup t)
    (hids : ∀ id ∈ setup.pipeline.ids, id ∉ Js.objectPrototype) {a : RunAction}
    (hread : OutputsReadBack format setup t a) : Remembers format setup (t.step format setup a) := by
  cases a with
  | refuse message =>
    cases hp : t.run.phase with
    | waiting row wait =>
      refine ⟨?_, fun row' wait' hphase => ?_⟩
      · simp only [Answered.step, WorkflowRun.step, WorkflowRun.refused, hp, Carried]
      · simp only [Answered.step, WorkflowRun.step, WorkflowRun.refused, hp] at hphase
        cases hphase
    | _ => simpa only [Answered.step, WorkflowRun.step, WorkflowRun.refused, hp] using h
  | call decision world =>
    cases hr : t.run.result format setup decision world with
    | none =>
      -- the run has ended, so nothing is carried on
      refine ⟨?_, fun row wait hphase => ?_⟩
      · simpa only [Answered.step, WorkflowRun.step, hr] using h.carried
      · simp only [Answered.step, WorkflowRun.step, hr] at hphase
        simp only [WorkflowRun.result, hphase] at hr
        cases hr
    | some r =>
      simp only [Answered.step, WorkflowRun.step, hr]
      cases hphase : t.run.phaseAfter format setup decision r with
      | fresh created => exact absurd hphase (phaseAfter_ne_fresh created)
      | ended row =>
        refine ⟨?_, fun row' wait hp => ?_⟩
        · simp only [Carried, WorkflowRun.afterCall, hphase]
        · cases hphase.symm.trans hp
      | waiting row wait =>
        obtain ⟨hwritten, hexit, -⟩ := phaseAfter_waiting hphase
        have hback := hread r hr (by rw [hwritten]; rfl) hexit
        obtain ⟨created, rfl⟩ := result_eq_execute hr
        refine ⟨?_, fun row' wait' hp => ?_⟩
        · refine h.carried.waiting hr hphase fun n hn _ node result _ hok => ?_
          exact (hback n hn result hok).survives ..
        · obtain ⟨rfl, rfl⟩ := RunPhase.waiting.inj (hphase.symm.trans hp)
          exact h.rowRemembers hids hr hphase hback

end Remembers

theorem readsBack_str {text : String} (h : (Js.codeUnits text).length ≤ stepPayloadCap) :
    ReadsBack format (.str text) := by
  refine ⟨.str text, ?_, rfl⟩
  rw [capPersistedPayload, capText, if_pos h]
  rfl

def changeBesideCalls : Setup where
  pipeline :=
    { nodes := [⟨"input", .input, none, none⟩, ⟨"change", .code, none, none⟩,
        ⟨"look", .toolCall, none, none⟩, ⟨"apply", .llmCall, none, none⟩,
        ⟨"again", .toolCall, none, none⟩]
      edges := [⟨"input", "change", none, none⟩, ⟨"input", "look", none, none⟩,
        ⟨"change", "apply", none, none⟩, ⟨"look", "again", none, none⟩] }

def changeWaitsBesideCalls : World where
  run id :=
    if id = "change" then
      ⟨.error { message := "Waiting for your approval: 1 change.", errorType := .validationError
                code := some waitingForApprovalCode
                waiting := some { nodeId := "change", approvalId := "p" } }, 1⟩
    else ⟨.ok { output := .str "ok" }, if id = "look" ∨ id = "again" then 1 else 0⟩
  waits := by
    intro id e step h hw
    split at h
    · next hid =>
      cases h
      cases hw
      exact hid.symm
    · cases h
  row _ := some (runningRow "e" "a" "o")

def ledgerWaits : Answered :=
  Answered.step wholeNumbers changeBesideCalls (.start "e" "a" "o")
    (.call approved changeWaitsBesideCalls)

end Almyty.Workflow
