import Almyty.Workflow.Engine

/-!
# What a run that carries on does not run again

A call that ends waiting leaves a record of every node on the row. The next call reads the records
back and runs only what they do not settle. This file follows a run through its calls and says when
no node that finished goes to the executor again.

A finished node is taken up again if its record still has an `output` when the row is read back
(`Survives`): JSON leaves out an output it cannot write, and the record then looks like that of a
node that never ran. And it must not be lost on the way: a call that skips it writes over its
record. So the output read back must close no edge that the output itself left open; then whatever
ran before runs, or is taken up, in every later call (`runLayers_mono`).
-/

namespace Almyty.Workflow

open Almyty.Lib List

variable {format : NumberFormat} {setup : Setup} {resume : Option Resume} {world : World}

/-! ## Records, read back -/

theorem lookup_jsonEntry_of_ne {key key' : String} (h : key' ≠ key) (value : JsValue) :
    (jsonEntry key value).lookup key' = none := by
  unfold jsonEntry
  split
  · rw [Assoc.lookup_cons, if_neg h]
    rfl
  · rfl

theorem lookup_jsonEntry_self (key : String) (value : JsValue) :
    (jsonEntry key value).lookup key = value.toJson.join := by
  unfold jsonEntry
  split
  · next json hj => simp [hj]
  · next hne =>
    match hj : value.toJson with
    | none => rfl
    | some none => rfl
    | some (some json) => exact absurd hj (hne json)

theorem Attribution.lookup_entries_of_not_mem {key : String}
    (h : key ∉ ["providerId", "model", "routing"]) (a : Attribution) :
    a.entries.lookup key = none := by
  rw [Assoc.lookup_eq_none_iff]
  intro hmem
  obtain ⟨e, he, rfl⟩ := mem_map.mp hmem
  obtain ⟨entry, hentry, hsome⟩ := mem_filterMap.mp he
  obtain ⟨value, -, rfl⟩ := Option.map_eq_some_iff.mp hsome
  apply h
  simp only [mem_cons, not_mem_nil, or_false] at hentry ⊢
  rcases hentry with rfl | rfl | rfl <;> simp

theorem recordProp_doneRecord {key : String} (h : key ∉ ["providerId", "model", "routing"])
    (hinput : key ≠ "input") (r : NodeExecutionResult) :
    recordProp (doneRecord format r) key =
      ((jsonEntry "output" (capPersistedPayload format r.output)).lookup key).or
        ([("cost", .num r.cost), ("tokens", .num r.tokens),
          ("executionTime", .num r.executionTime)].lookup key) := by
  simp only [recordProp, doneRecord, Json.fieldsOrEmpty, lookup_append, inputEntry,
    lookup_jsonEntry_of_ne hinput, Attribution.lookup_entries_of_not_mem h, Option.or_none]

theorem recordProp_doneRecord_output (r : NodeExecutionResult) :
    recordProp (doneRecord format r) "output" = (capPersistedPayload format r.output).toJson.join := by
  rw [recordProp_doneRecord (by decide) (by decide), lookup_jsonEntry_self]
  exact Option.or_none

theorem numProp_doneRecord_cost (r : NodeExecutionResult) :
    numProp (doneRecord format r) "cost" = r.cost := by
  rw [numProp, recordProp_doneRecord (by decide) (by decide), lookup_jsonEntry_of_ne (by decide)]
  rfl

variable {id : String}

/-- A finished node's record is taken up when its output is there and its step did not wait. -/
theorem replayable_doneRecord {settled : List (String × SettledCodeStep)}
    (h : settledAt settled id = none) {r : NodeExecutionResult} {json : Json}
    (hjson : (capPersistedPayload format r.output).toJson = some (some json)) :
    replayable settled id (doneRecord format r) = true := by
  have hnone : ∀ key ∈ ["error", "skipped", "status"],
      recordProp (doneRecord format r) key = none := by
    intro key hkey
    simp only [mem_cons, not_mem_nil, or_false] at hkey
    rcases hkey with rfl | rfl | rfl <;>
    · rw [recordProp_doneRecord (by decide) (by decide), lookup_jsonEntry_of_ne (by decide)]
      rfl
  have houtput : recordProp (doneRecord format r) "output" = some json := by
    rw [recordProp_doneRecord_output, hjson]
    rfl
  have htruthy : (doneRecord format r).truthy = true := rfl
  simp [replayable, h, isTruthyProp, hnone, houtput, htruthy]

theorem recordProp_output_eq_none :
    recordProp skippedRecord "output" = none ∧
      (∀ e, recordProp (failedRecord format e) "output" = none) ∧
      ∀ e step, recordProp (waitingRecord format e step) "output" = none := by
  refine ⟨rfl, fun e => ?_, fun e step => ?_⟩
  · simp only [recordProp, failedRecord, Json.fieldsOrEmpty, lookup_append, inputEntry,
      lookup_jsonEntry_of_ne (show "output" ≠ "input" by decide), Option.or_none]
    cases e.code with
    | none => rfl
    | some code => by_cases hcode : code = "" <;> simp [hcode, Assoc.lookup_cons]
  · simp only [recordProp, waitingRecord, Json.fieldsOrEmpty, lookup_append, inputEntry,
      lookup_jsonEntry_of_ne (show "output" ≠ "input" by decide), Option.or_none]
    rfl

/-! ## Outputs that survive -/

def nodeOutcome (type : NodeType) : Except NodeError NodeExecutionResult → Outcome
  | .error e => if e.waitingStep.isSome then .waiting else .failure
  | .ok r => outcomeOf type r.output

def callOutcomes (setup : Setup) (resume : Option Resume) (world : World) (id : String) : Outcome :=
  match setup.pipeline.node id with
  | some node => nodeOutcome node.type (itemFor resume world id).outcome
  | none => .success

/-- The output is still there when the record is read back, and then closes no edge
that it left open. -/
def Survives (format : NumberFormat) (p : AgentPipeline) (node : AgentPipelineNode)
    (output : JsValue) : Prop :=
  ∃ json, (capPersistedPayload format output).toJson = some (some json) ∧
    ∀ e ∈ p.outgoing node.id, closedBy p (outcomeOf node.type (.ofJson json)) e = true →
      closedBy p (outcomeOf node.type output) e = true

theorem closedBy_success (p : AgentPipeline) (e : AgentPipelineEdge) :
    closedBy p .success e = false := by
  simp [closedBy, untaken]

theorem outcomeOf_str (type : NodeType) (s : String) : outcomeOf type (.str s) = .success := by
  simp [outcomeOf, JsValue.get, JsValue.truthy]

theorem outcomeOf_null (type : NodeType) : outcomeOf type .null = .success := by
  simp [outcomeOf, JsValue.get, JsValue.truthy]

theorem capPersistedPayload_ofJson (json : Json) :
    capPersistedPayload format (.ofJson json) = .ofJson json ∨
      ∃ s, capPersistedPayload format (.ofJson json) = .str s := by
  have hcap : ∀ (value : JsValue) (text : String),
      capText value text = value ∨ ∃ s, capText value text = .str s := by
    intro value text
    by_cases hlen : (Js.codeUnits text).length ≤ stepPayloadCap
    · exact .inl (if_pos hlen)
    · exact .inr ⟨_, if_neg hlen⟩
  cases json with
  | null => exact .inl rfl
  | str s => exact hcap _ s
  | bool | num => exact hcap _ _
  | arr items =>
    have hjson := JsValue.toJson_ofJson (.arr items)
    rw [JsValue.ofJson] at hjson ⊢
    simp only [capPersistedPayload, hjson]
    exact hcap _ _
  | obj fields =>
    have hjson := JsValue.toJson_ofJson (.obj fields)
    rw [JsValue.ofJson] at hjson ⊢
    simp only [capPersistedPayload, hjson]
    exact hcap _ _

theorem survives_ofJson (p : AgentPipeline) (node : AgentPipelineNode) (json : Json) :
    Survives format p node (.ofJson json) := by
  rcases @capPersistedPayload_ofJson format json with hcap | ⟨s, hcap⟩
  · exact ⟨json, by rw [hcap, JsValue.toJson_ofJson], fun _ _ h => h⟩
  · refine ⟨.str s, by rw [hcap]; rfl, fun e _ h => ?_⟩
    rw [JsValue.ofJson, outcomeOf_str, closedBy_success] at h
    cases h

/-! ## What the next call gives back -/

variable {decision : String → SettledCodeStep}

theorem lookup_settledSteps {wait : WorkflowWaitState} {n : String}
    (h : n ∉ wait.steps.map (·.nodeId)) :
    (settledSteps wait decision).lookup n = none := by
  have key : ∀ (steps : List WaitingCodeStep) (settled : List (String × SettledCodeStep)),
      n ∉ steps.map (·.nodeId) → settled.lookup n = none →
      (steps.foldl (fun settled step => Js.assign settled step.nodeId (decision step.nodeId))
        settled).lookup n = none := by
    intro steps
    induction steps with
    | nil => exact fun _ _ h => h
    | cons step steps ih =>
      intro settled hn hnone
      rw [map_cons, mem_cons, not_or] at hn
      apply ih _ hn.2
      rw [Js.lookup_assign_of_ne settled hn.1, hnone]
  exact key wait.steps [] h rfl

section Next

variable {row : AgentExecution} {wait : WorkflowWaitState} {decision : String → SettledCodeStep}
  {n : String}

theorem itemFor_doneRecord {r : NodeExecutionResult} {json : Json}
    (hsteps : n ∉ wait.steps.map (·.nodeId)) (hproto : n ∉ Js.objectPrototype)
    (hrow : row.nodeResults.fieldsOrEmpty.lookup n = some (doneRecord format r))
    (hjson : (capPersistedPayload format r.output).toJson = some (some json)) :
    itemFor (some ⟨row, wait, settledSteps wait decision⟩) world n
      = .replayed (replayedResult (doneRecord format r)) := by
  have hsettled : settledAt (settledSteps wait decision) n = none := by
    rw [settledAt, lookup_settledSteps hsteps]
    exact if_neg hproto
  have hreplay : replayRecord (some ⟨row, wait, settledSteps wait decision⟩) n
      = some (doneRecord format r) := by
    rw [replayRecord, Option.bind_some, hrow, Option.filter_some,
      if_pos (replayable_doneRecord hsettled hjson)]
  rw [itemFor, hreplay]

theorem replayedResult_output {r : NodeExecutionResult} {json : Json}
    (hjson : (capPersistedPayload format r.output).toJson = some (some json)) :
    (replayedResult (doneRecord format r)).output = .ofJson json := by
  simp only [replayedResult, valueProp, recordProp_doneRecord_output, hjson, Option.join_some]

theorem itemFor_settled {settled : SettledCodeStep}
    (hsettled : settledAt (settledSteps wait decision) n = some settled) :
    ∃ input, itemFor (some ⟨row, wait, settledSteps wait decision⟩) world n
      = .decided (decidedOutcome settled input) := by
  have hreplay : replayRecord (some ⟨row, wait, settledSteps wait decision⟩) n = none := by
    rw [replayRecord, Option.bind_some, Option.filter_eq_none_iff]
    intro record _
    simp [replayable, hsettled]
  rw [itemFor, hreplay]
  simp only [Option.bind_some, hsettled, Option.map_some]
  exact ⟨_, rfl⟩

theorem itemFor_prototype (hsteps : n ∉ wait.steps.map (·.nodeId))
    (hproto : n ∈ Js.objectPrototype) :
    ∃ input, itemFor (some ⟨row, wait, settledSteps wait decision⟩) world n
      = .decided (.ok { output := .null, resolvedInput := input }) := by
  refine @itemFor_settled _ _ _ _ _ {} ?_
  rw [settledAt, lookup_settledSteps hsteps]
  exact if_pos hproto

end Next

/-! ## What one result leaves -/

def outcomeRecord (format : NumberFormat) : Except NodeError NodeExecutionResult → Json
  | .ok r => doneRecord format r
  | .error e =>
    match e.waitingStep with
    | some step => waitingRecord format e step
    | none => failedRecord format e

def outcomeContext : Except NodeError NodeExecutionResult → NodeContext
  | .ok r => ⟨r.output, none⟩
  | .error e => ⟨.undefined, some (if e.waitingStep.isSome then "waiting" else "failed")⟩

theorem isOk_of_outcomeRecord_output {outcome : Except NodeError NodeExecutionResult}
    (h : (recordProp (outcomeRecord format outcome) "output").isSome = true) :
    outcome.isOk = true := by
  obtain ⟨-, hfailed, hwaiting⟩ := @recordProp_output_eq_none format
  cases outcome with
  | ok r => rfl
  | error e =>
    cases hw : e.waitingStep with
    | none => simp [outcomeRecord, hw, hfailed] at h
    | some step => simp [outcomeRecord, hw, hwaiting] at h

def outcomeStep : Except NodeError NodeExecutionResult → Option WaitingCodeStep
  | .ok _ => none
  | .error e => e.waitingStep

def outcomeCost : Except NodeError NodeExecutionResult → Rat
  | .ok r => r.cost
  | .error _ => 0

variable (format) in
structure ItemSettled (p : AgentPipeline) (node : AgentPipelineNode) (item : Item)
    (s s' : LoopState) : Prop where
  skipped : s'.skipped = skipAfter p node (nodeOutcome node.type item.outcome) s.skipped
  nodeResults : s'.nodeResults
    = Js.assign s.nodeResults node.id (outcomeRecord format item.outcome)
  contextNodes : s'.contextNodes = Js.assign s.contextNodes node.id (outcomeContext item.outcome)
  waitingSteps : s'.waitingSteps = s.waitingSteps ++ (outcomeStep item.outcome).toList
  finished : s'.finished = s.finished ++ if item.outcome.isOk then [node.id] else []
  totalCost : s'.totalCost = s.totalCost + outcomeCost item.outcome
  toolCalls : s'.toolCalls = s.toolCalls
  lastLayerCost : s'.lastLayerCost = s.lastLayerCost
  calls : s'.calls = s.calls

theorem settleItem_settled (p : AgentPipeline) (s : LoopState) (node : AgentPipelineNode)
    (item : Item) : ItemSettled format p node item s (settleItem format p s node item) := by
  unfold settleItem
  cases ho : item.outcome with
  | ok r =>
    exact
      { skipped := by rw [ho]; rfl
        nodeResults := by rw [ho]; rfl
        contextNodes := by rw [ho]; rfl
        waitingSteps := by rw [ho]; exact (append_nil _).symm
        finished := by rw [ho]; rfl
        totalCost := by rw [ho]; rfl
        toolCalls := rfl
        lastLayerCost := rfl
        calls := rfl }
  | error e =>
    -- a step that waits and one that failed differ in the record and the step alone
    cases hw : e.waitingStep with
    | none | some =>
      exact
        { skipped := by simp [ho, hw, nodeOutcome]
          nodeResults := by simp only [ho, hw, outcomeRecord]
          contextNodes := by simp [ho, hw, outcomeContext]
          waitingSteps := by simp [ho, hw, outcomeStep]
          finished := by simp [ho, hw, Except.isOk, Except.toBool]
          totalCost := by simp only [ho, hw, outcomeCost, Rat.add_zero]
          toolCalls := by simp only [hw]
          lastLayerCost := by simp only [hw]
          calls := by simp only [hw] }

theorem outcomeStep_nodeId {step : WaitingCodeStep}
    (h : outcomeStep (itemFor resume world id).outcome = some step) : step.nodeId = id := by
  have hran : ∀ e : NodeError, (itemFor resume world id).outcome = .error e →
      e.waitingStep = some step → (world.run id).outcome = .error e := by
    intro e he hw
    unfold itemFor at he
    split at he
    · cases he
    · split at he
      · -- a decided step does not wait again
        simp only [Item.outcome, decidedOutcome] at he
        split at he
        · cases he
          simp [NodeError.waitingStep] at hw
        · cases he
      · exact he
  cases ho : (itemFor resume world id).outcome with
  | ok r => simp [ho, outcomeStep] at h
  | error e =>
    rw [ho] at h
    have hwait : e.waiting = some step := by
      simp only [outcomeStep, NodeError.waitingStep] at h
      split at h
      · exact h
      · cases h
    exact world.waits id e step (hran e ho h) hwait

variable {node : AgentPipelineNode}

theorem callOutcomes_eq (hnode : setup.pipeline.node id = some node) :
    callOutcomes setup resume world id
      = nodeOutcome node.type (itemFor resume world id).outcome := by
  simp only [callOutcomes, hnode]

/-! ## The loop, followed -/

variable (format setup resume world) in
structure Follows (s : LoopState) (ran : Ran) : Prop where
  skipped : s.skipped = ran.skipped
  known : ∀ n ∈ ran.executed, ∃ node, setup.pipeline.node n = some node
  waiting : ∀ step ∈ s.waitingSteps, step.nodeId ∈ ran.executed ∧
    callOutcomes setup resume world step.nodeId = .waiting
  finished_iff : ∀ n, n ∈ s.finished ↔
    n ∈ ran.executed ∧ (itemFor resume world n).outcome.isOk = true
  record : ∀ n ∈ ran.executed, n ≠ "__proto__" →
    s.nodeResults.lookup n = some (outcomeRecord format (itemFor resume world n).outcome)
  output : ∀ n record, s.nodeResults.lookup n = some record →
    (recordProp record "output").isSome → n ∈ s.finished
  called : ∀ n ∈ ran.executed, ∀ run, itemFor resume world n = .ran run → n ∈ s.calls.map (·.1)

theorem follows_start : Follows format setup resume world (.start resume) {} := by
  refine ⟨rfl, ?_, ?_, ?_, ?_, ?_, ?_⟩ <;> simp [LoopState.start]

theorem Follows.recordSkipped {s : LoopState} {ran : Ran}
    (h : Follows format setup resume world s ran) (layer : List String) :
    Follows format setup resume world (recordSkipped s layer) ran := by
  unfold Workflow.recordSkipped
  induction layer generalizing s with
  | nil => exact h
  | cons id layer ih =>
    rw [foldl_cons]
    apply ih
    split
    · next hskip =>
      obtain ⟨-, hnew⟩ := hskip
      rw [Bool.not_eq_true', Js.hasProperty_eq_false_iff] at hnew
      refine { h with record := fun n hn hproto => ?_, output := fun n record hl ho => ?_ }
      · -- a node that ran has a record, so this is another one
        have hrec := h.record n hn hproto
        have hne : n ≠ id := by
          rintro rfl
          rw [hnew.1] at hrec
          cases hrec
        rw [Js.lookup_assign_of_ne _ hne]
        exact hrec
      · by_cases hne : n = id
        · subst hne
          rw [Js.eq_of_lookup_assign hl] at ho
          cases ho
        · rw [Js.lookup_assign_of_ne _ hne] at hl
          exact h.output n record hl ho
    · exact h

theorem Follows.settle {s : LoopState} {ran : Ran} (h : Follows format setup resume world s ran)
    (hnode : setup.pipeline.node id = some node)
    (hcalled : ∀ run, itemFor resume world id = .ran run → id ∈ s.calls.map (·.1)) :
    Follows format setup resume world
      (settleItem format setup.pipeline s node (itemFor resume world id))
      (settle setup.pipeline (callOutcomes setup resume world) ran id) := by
  obtain rfl : node.id = id := by simpa using List.find?_some hnode
  have hran : Workflow.settle setup.pipeline (callOutcomes setup resume world) ran node.id
      = { skipped := skipAfter setup.pipeline node (callOutcomes setup resume world node.id)
            ran.skipped, executed := ran.executed ++ [node.id] } := by
    simp only [Workflow.settle, hnode]
  rw [hran]
  refine ⟨?_, fun n hn => ?_, fun step hstep => ?_, fun n => ?_, fun n hn hproto => ?_,
    fun n record hl ho => ?_, fun n hn run hrun => ?_⟩
  · rw [(settleItem_settled ..).skipped, h.skipped, callOutcomes_eq hnode]
  · rcases mem_append.mp hn with hn | hn
    · exact h.known n hn
    · exact ⟨node, (mem_singleton.mp hn) ▸ hnode⟩
  · rw [(settleItem_settled ..).waitingSteps, mem_append, Option.mem_toList] at hstep
    rcases hstep with hstep | hstep
    · obtain ⟨hmem, hwait⟩ := h.waiting step hstep
      exact ⟨mem_append_left _ hmem, hwait⟩
    · have hid := outcomeStep_nodeId hstep
      rw [hid, callOutcomes_eq hnode]
      refine ⟨by simp, ?_⟩
      cases ho : (itemFor resume world node.id).outcome with
      | ok r => simp [ho, outcomeStep] at hstep
      | error e =>
        have hstep : e.waitingStep = some step := by simpa [ho, outcomeStep] using hstep
        simp [nodeOutcome, hstep]
  · rw [(settleItem_settled ..).finished, mem_append, h.finished_iff, mem_append, mem_singleton]
    by_cases hok : (itemFor resume world node.id).outcome.isOk = true
    · rw [if_pos hok, mem_singleton]
      grind
    · rw [if_neg hok]
      grind
  · rw [(settleItem_settled ..).nodeResults]
    by_cases hne : n = node.id
    · subst hne
      exact Js.lookup_assign_self _ hproto _
    · rw [Js.lookup_assign_of_ne _ hne]
      exact h.record n (by simpa [hne] using hn) hproto
  · rw [(settleItem_settled ..).nodeResults] at hl
    rw [(settleItem_settled ..).finished, mem_append]
    by_cases hne : n = node.id
    · subst hne
      obtain rfl := Js.eq_of_lookup_assign hl
      rw [isOk_of_outcomeRecord_output ho]
      simp
    · rw [Js.lookup_assign_of_ne _ hne] at hl
      exact .inl (h.output n record hl ho)
  · rw [(settleItem_settled ..).calls]
    rcases mem_append.mp hn with hn | hn
    · exact h.called n hn run hrun
    · rw [mem_singleton] at hn
      subst hn
      exact hcalled run hrun

theorem recordSkipped_calls (s : LoopState) (layer : List String) :
    (recordSkipped s layer).calls = s.calls := by
  unfold recordSkipped
  induction layer generalizing s with
  | nil => rfl
  | cons id layer ih =>
    rw [foldl_cons, ih]
    split <;> rfl

def itemsOf (p : AgentPipeline) (item : String → Item) (ids : List String) :
    List (AgentPipelineNode × Item) :=
  ids.filterMap fun id => (p.node id).map fun node => (node, item id)

theorem itemsOf_cons_some {p : AgentPipeline} {item : String → Item} (h : p.node id = some node)
    (ids : List String) :
    itemsOf p item (id :: ids) = (node, item id) :: itemsOf p item ids :=
  filterMap_cons_some (by rw [h]; rfl)

theorem itemsOf_cons_none {p : AgentPipeline} {item : String → Item} (h : p.node id = none)
    (ids : List String) :
    itemsOf p item (id :: ids) = itemsOf p item ids :=
  filterMap_cons_none (by rw [h]; rfl)

theorem Follows.settles {ids : List String} {s : LoopState} {ran : Ran}
    (h : Follows format setup resume world s ran)
    (hcalled : ∀ id ∈ ids, (setup.pipeline.node id).isSome → ∀ run,
      itemFor resume world id = .ran run → id ∈ s.calls.map (·.1)) :
    Follows format setup resume world
      ((itemsOf setup.pipeline (itemFor resume world) ids).foldl
        (fun s i => settleItem format setup.pipeline s i.1 i.2) s)
      (ids.foldl (Workflow.settle setup.pipeline (callOutcomes setup resume world)) ran) := by
  induction ids generalizing s ran with
  | nil => exact h
  | cons id ids ih =>
    obtain ⟨hid, hcalled⟩ := forall_mem_cons.mp hcalled
    cases hnode : setup.pipeline.node id with
    | none =>
      have hsame : Workflow.settle setup.pipeline (callOutcomes setup resume world) ran id = ran := by
        simp only [Workflow.settle, hnode]
      rw [itemsOf_cons_none hnode, foldl_cons, hsame]
      exact ih h hcalled
    | some node =>
      rw [itemsOf_cons_some hnode, foldl_cons, foldl_cons]
      refine ih (h.settle hnode (hid (by simp [hnode]))) fun m hm hsome run hrun => ?_
      rw [(settleItem_settled ..).calls]
      exact hcalled m hm hsome run hrun

theorem Follows.runItems {s : LoopState} {ran : Ran} (h : Follows format setup resume world s ran)
    (layer : List String) :
    Follows format setup resume world
      (runItems format setup resume s (layerItems setup resume world s layer))
      (runLayer setup.pipeline (callOutcomes setup resume world) ran layer) := by
  let items := layerItems setup resume world s layer
  have hdispatch : Follows format setup resume world (dispatch setup resume s items) ran := by
    refine { h with called := fun n hn run hrun => ?_ }
    simp only [dispatch, map_append, mem_append]
    exact .inl (h.called n hn run hrun)
  have hsettled := @Follows.settles _ _ _ _ (layer.filter (· ∉ s.skipped)) _ _ hdispatch (by
    intro id hid hsome run hrun
    obtain ⟨node, hnode⟩ := Option.isSome_iff_exists.mp hsome
    obtain rfl : node.id = id := by simpa using List.find?_some hnode
    simp only [dispatch, map_append, mem_append, mem_map, mem_filterMap]
    refine .inr ⟨(node.id, _), ⟨(node, itemFor resume world node.id), ?_, by rw [hrun]⟩, rfl⟩
    exact mem_filterMap.mpr ⟨node.id, hid, by rw [hnode]; rfl⟩)
  rw [runLayer, ← h.skipped]
  exact { hsettled with }

theorem Follows.layerLoop (layers : List (List String)) (i : Nat) {s : LoopState} {ran : Ran}
    (h : Follows format setup resume world s ran)
    (hexit : (layerLoop format setup resume world i layers s).2 = .waiting) :
    Follows format setup resume world (layerLoop format setup resume world i layers s).1
      (layers.foldl (runLayer setup.pipeline (callOutcomes setup resume world)) ran) := by
  induction layers generalizing i s ran with
  | nil => exact h
  | cons layer layers ih =>
    have hskip := h.recordSkipped layer
    rw [foldl_cons]
    rcases layerLoop_cons format setup world resume i layer layers s with
      ⟨exit, hl, hne⟩ | ⟨hl, hnone⟩ | ⟨reporting, hl⟩ | hl
    · rw [hl] at hexit
      obtain rfl : exit = .waiting := hexit
      simp at hne
    · -- with nothing to run, the layer changes nothing
      have hlayer : runLayer setup.pipeline (callOutcomes setup resume world) ran layer = ran := by
        rw [runLayer, ← hskip.skipped, hnone]
        rfl
      rw [hl] at hexit ⊢
      rw [hlayer]
      exact ih (i + 1) hskip hexit
    · rw [hl] at hexit
      cases hexit
    · rw [hl] at hexit ⊢
      exact ih (i + 1) (hskip.runItems layer) hexit

/-! ## Who is given to the executor -/

variable (resume world) in
/-- Only nodes that neither a record nor a decision settles were given to the executor. -/
def CallsRan (s : LoopState) : Prop := ∀ c ∈ s.calls, ∃ run, itemFor resume world c.1 = .ran run

theorem CallsRan.dispatch {s : LoopState} (h : CallsRan resume world s) (layer : List String)
    (s' : LoopState) :
    CallsRan resume world (dispatch setup resume s (layerItems setup resume world s' layer)) := by
  intro c hc
  simp only [Workflow.dispatch, mem_append, mem_filterMap] at hc
  rcases hc with hc | ⟨⟨node, item⟩, hi, hc⟩
  · exact h c hc
  · obtain ⟨id, -, hid⟩ := mem_filterMap.mp hi
    obtain ⟨node', hnode, heq⟩ := Option.map_eq_some_iff.mp hid
    obtain ⟨rfl, rfl⟩ := Prod.mk.inj heq
    obtain rfl : node'.id = id := by simpa using List.find?_some hnode
    dsimp only at hc
    split at hc
    · next run hrun =>
      cases hc
      exact ⟨run, hrun⟩
    · cases hc

theorem runItems_calls (s : LoopState) (items : List (AgentPipelineNode × Item)) :
    (runItems format setup resume s items).calls = (dispatch setup resume s items).calls := by
  have key : ∀ (items : List (AgentPipelineNode × Item)) (s : LoopState),
      (items.foldl (fun s i => settleItem format setup.pipeline s i.1 i.2) s).calls = s.calls := by
    intro items
    induction items with
    | nil => exact fun _ => rfl
    | cons i items ih => exact fun s => (ih _).trans (settleItem_settled ..).calls
  exact key items _

theorem callsRan_layerLoop (layers : List (List String)) (i : Nat) {s : LoopState}
    (h : CallsRan resume world s) :
    CallsRan resume world (layerLoop format setup resume world i layers s).1 := by
  induction layers generalizing i s with
  | nil => exact h
  | cons layer layers ih =>
    have hskip : CallsRan resume world (recordSkipped s layer) := by
      rw [CallsRan, recordSkipped_calls]
      exact h
    have hdispatch := @CallsRan.dispatch setup _ _ _ hskip layer (recordSkipped s layer)
    rcases layerLoop_cons format setup world resume i layer layers s with
      ⟨exit, hl, -⟩ | ⟨hl, -⟩ | ⟨reporting, hl⟩ | hl
    · rw [hl]
      exact h
    · rw [hl]
      exact ih (i + 1) hskip
    · rw [hl]
      exact hdispatch
    · rw [hl]
      apply ih
      rw [CallsRan, runItems_calls]
      exact hdispatch

/-! ## What a call leaves -/

theorem execute_callsRan (created : AgentExecution) :
    CallsRan resume world (execute format setup resume world created).state := by
  have hstart : CallsRan resume world (.start resume) := by
    simp [CallsRan, LoopState.start]
  unfold execute
  dsimp only
  split
  · rw [crash_state]
    exact hstart
  · rw [conclude_state]
    exact callsRan_layerLoop _ _ hstart

/-- A call that leaves its run waiting went through every layer, and its records are on the row. -/
theorem execute_waiting {created row : AgentExecution}
    (hexit : (execute format setup resume world created).exit = .waiting)
    (hwritten : (execute format setup resume world created).written = some row) :
    ∃ layers, computeLayers setup.pipeline = .ok layers ∧
      Follows format setup resume world (execute format setup resume world created).state
        (layers.foldl (runLayer setup.pipeline (callOutcomes setup resume world)) {}) ∧
      row.nodeResults
        = .obj (execute format setup resume world created).state.nodeResults := by
  cases hlayers : prepareLayers setup world with
  | error message =>
    simp only [execute, hlayers, crash_exit] at hexit
    cases hexit
  | ok layers =>
    simp only [execute, hlayers] at hexit hwritten ⊢
    obtain ⟨hwaiting, hresults⟩ := conclude_waiting hexit hwritten
    rw [conclude_state]
    exact ⟨layers, computeLayers_of_prepareLayers hlayers, follows_start.layerLoop layers 0 hwaiting, hresults⟩

/-! ## From one call to the next -/

def Item.GivesBack : Item → Prop
  | .replayed _ => True
  | .decided outcome => outcome.isOk = true
  | .ran _ => False

theorem Item.GivesBack.isOk {item : Item} (h : item.GivesBack) : item.outcome.isOk = true := by
  cases item with
  | replayed r => rfl
  | decided outcome => exact h
  | ran run => exact h.elim

theorem itemFor_ran {n : String} {run : NodeRun} (h : itemFor resume world n = .ran run) :
    run = world.run n := by
  unfold itemFor at h
  split at h
  · cases h
  · split at h <;> cases h
    rfl

theorem itemFor_output {n : String} {r : NodeExecutionResult}
    (hitem : ∀ run, itemFor resume world n ≠ .ran run)
    (h : (itemFor resume world n).outcome = .ok r) : ∃ json, r.output = .ofJson json := by
  unfold itemFor at h hitem
  split at h
  · next record hrec =>
    obtain ⟨res, hres, hfilter⟩ := Option.bind_eq_some_iff.mp hrec
    obtain ⟨-, hreplay⟩ := Option.filter_eq_some_iff.mp hfilter
    obtain ⟨json, hjson⟩ : ∃ json, recordProp record "output" = some json := by
      apply Option.isSome_iff_exists.mp
      simp only [replayable, Bool.and_eq_true] at hreplay
      exact hreplay.2
    cases h
    exact ⟨json, by simp only [replayedResult, valueProp, hjson]⟩
  · next hnone =>
    split at h
    · simp only [Item.outcome, decidedOutcome] at h
      split at h
      · cases h
      · cases h
        exact ⟨_, rfl⟩
    · next hdecided =>
      rw [hnone] at hitem
      simp only [hdecided] at hitem
      exact absurd rfl (hitem _)

theorem outcomeOf_ne_waiting (type : NodeType) (output : JsValue) :
    outcomeOf type output ≠ .waiting := by
  unfold outcomeOf
  repeat' split
  all_goals exact nofun

theorem Follows.not_mem_steps {s : LoopState} {ran : Ran}
    (h : Follows format setup resume world s ran) {n : String} (hn : n ∈ s.finished) :
    n ∉ s.waitingSteps.map (·.nodeId) := by
  intro hmem
  obtain ⟨hran, hok⟩ := (h.finished_iff n).mp hn
  obtain ⟨node, hnode⟩ := h.known n hran
  obtain ⟨step, hstep, rfl⟩ := mem_map.mp hmem
  have hout := (h.waiting step hstep).2
  rw [callOutcomes_eq hnode] at hout
  cases ho : (itemFor resume world step.nodeId).outcome with
  | ok r =>
    rw [ho] at hout
    exact outcomeOf_ne_waiting _ _ hout
  | error e =>
    rw [ho] at hok
    cases hok

/-- A node that ran closes no more edges in the next call, and one that finished gives its result
back. -/
theorem Follows.next {s : LoopState} {ran : Ran} (h : Follows format setup resume world s ran)
    {row : AgentExecution} (hrow : row.nodeResults = .obj s.nodeResults)
    (hsurvive : ∀ n ∈ s.finished, n ∉ Js.objectPrototype → ∀ node r,
      setup.pipeline.node n = some node → (itemFor resume world n).outcome = .ok r →
        Survives format setup.pipeline node r.output)
    {wait : WorkflowWaitState} (hwait : wait.steps.map (·.nodeId) = s.waitingSteps.map (·.nodeId))
    (decision : String → SettledCodeStep) (world' : World) {n : String} (hn : n ∈ ran.executed) :
    let next := some ⟨row, wait, settledSteps wait decision⟩
    ((itemFor resume world n).outcome.isOk = true → (itemFor next world' n).GivesBack) ∧
      closedTargets setup.pipeline (callOutcomes setup next world') n
        ⊆ closedTargets setup.pipeline (callOutcomes setup resume world) n := by
  intro next
  -- it is enough that every edge the next outcome closes is closed by this one
  have htargets : ∀ outcomes outcomes' : String → Outcome,
      (∀ e ∈ setup.pipeline.outgoing n, closedBy setup.pipeline (outcomes' n) e = true →
        closedBy setup.pipeline (outcomes n) e = true) →
      closedTargets setup.pipeline outcomes' n ⊆ closedTargets setup.pipeline outcomes n := by
    intro outcomes outcomes' hall t ht
    obtain ⟨e, he, hc, rfl⟩ := mem_closedTargets.mp ht
    have hsrc := (AgentPipeline.mem_outgoing.mp he).2
    rw [closes, hsrc] at hc
    exact mem_closedTargets.mpr ⟨e, he, by rw [closes, hsrc]; exact hall e he hc, rfl⟩
  obtain ⟨node, hnode⟩ := h.known n hn
  cases ho : (itemFor resume world n).outcome with
  | error e =>
    -- a node that failed or waits closed every edge
    refine ⟨fun hok => (Bool.false_ne_true hok).elim, htargets _ _ fun edge _ _ => ?_⟩
    rw [callOutcomes_eq hnode, ho, nodeOutcome]
    split <;> rfl
  | ok r =>
    have hfin : n ∈ s.finished := (h.finished_iff n).mpr ⟨hn, by rw [ho]; rfl⟩
    have hsteps : n ∉ wait.steps.map (·.nodeId) := hwait ▸ h.not_mem_steps hfin
    by_cases hproto : n ∈ Js.objectPrototype
    · obtain ⟨input, hitem⟩ := @itemFor_prototype world' row wait decision n hsteps hproto
      refine ⟨fun _ => by rw [hitem]; rfl, htargets _ _ fun edge _ hc => ?_⟩
      rw [callOutcomes_eq hnode, hitem] at hc
      simp only [Item.outcome, nodeOutcome, outcomeOf_null, closedBy_success] at hc
      cases hc
    · obtain ⟨json, hjson, hopen⟩ := hsurvive n hfin hproto node r hnode ho
      have hrec := h.record n hn fun hp => hproto (hp ▸ by decide)
      rw [ho] at hrec
      have hitem := @itemFor_doneRecord format world' row wait decision n r json hsteps hproto
        (by rw [hrow]; exact hrec) hjson
      refine ⟨fun _ => by rw [hitem]; trivial, htargets _ _ fun edge he hc => ?_⟩
      obtain rfl : node.id = n := by simpa using List.find?_some hnode
      rw [callOutcomes_eq hnode, hitem] at hc
      rw [callOutcomes_eq hnode, ho]
      simp only [Item.outcome, nodeOutcome, replayedResult_output hjson] at hc
      exact hopen edge he hc

theorem Follows.survives {s : LoopState} {ran : Ran} (h : Follows format setup resume world s ran)
    (hran : ∀ c ∈ s.calls, c.1 ∉ Js.objectPrototype → ∀ node r,
      setup.pipeline.node c.1 = some node → (world.run c.1).outcome = .ok r →
        Survives format setup.pipeline node r.output) :
    ∀ n ∈ s.finished, n ∉ Js.objectPrototype → ∀ node r,
      setup.pipeline.node n = some node → (itemFor resume world n).outcome = .ok r →
        Survives format setup.pipeline node r.output := by
  intro n hn hproto node r hnode hok
  cases hitem : itemFor resume world n with
  | ran run =>
    have hexec := ((h.finished_iff n).mp hn).1
    obtain ⟨c, hc, rfl⟩ := mem_map.mp (h.called n hexec run hitem)
    obtain rfl := itemFor_ran hitem
    rw [hitem] at hok
    exact hran c hc hproto node r hnode hok
  | _ =>
    obtain ⟨json, hjson⟩ := itemFor_output (by simp [hitem]) hok
    rw [hjson]
    exact survives_ofJson ..

/-! ## Nothing runs twice -/

section Twice

variable (format : NumberFormat) (setup : Setup)

def NothingTwice (run : WorkflowRun) : RunAction → Prop
  | .call decision world => ∀ r, run.result format setup decision world = some r →
      ∀ c ∈ r.state.calls, c.1 ∉ run.finished
  | .refuse _ => True

def OutputsSurvive (run : WorkflowRun) : RunAction → Prop
  | .call decision world => ∀ r, run.result format setup decision world = some r →
      r.written.isSome → r.exit = .waiting → ∀ c ∈ r.state.calls, c.1 ∉ Js.objectPrototype →
        ∀ node result, setup.pipeline.node c.1 = some node →
          (world.run c.1).outcome = .ok result → Survives format setup.pipeline node result.output
  | .refuse _ => True

/-- A run that waits: whatever finished in it, and what it waits on, ran in its last call,
and in the next call whatever ran there runs or gives back its result. -/
def Carried (run : WorkflowRun) : Prop :=
  match run.phase with
  | .fresh _ => run.finished = []
  | .waiting row wait => ∃ layers outcomes, computeLayers setup.pipeline = .ok layers ∧
      (∀ n, n ∈ run.finished ∨ n ∈ wait.steps.map (·.nodeId) →
        n ∈ (layers.foldl (runLayer setup.pipeline outcomes) {}).executed) ∧
      ∀ decision world,
        (∀ n ∈ run.finished,
          (itemFor (some ⟨row, wait, settledSteps wait decision⟩) world n).GivesBack) ∧
        ∀ n ∈ (layers.foldl (runLayer setup.pipeline outcomes) {}).executed,
          closedTargets setup.pipeline
              (callOutcomes setup (some ⟨row, wait, settledSteps wait decision⟩) world) n
            ⊆ closedTargets setup.pipeline outcomes n
  | .ended _ => True

end Twice

variable {run : WorkflowRun}

theorem Carried.givesBack (hinv : Carried setup run) {r : CallResult}
    (h : run.result format setup decision world = some r) :
    ∀ n ∈ run.finished, (itemFor (run.resume decision) world n).GivesBack := by
  intro n hn
  unfold Carried at hinv
  unfold WorkflowRun.result at h
  unfold WorkflowRun.resume
  split at hinv
  · rw [hinv] at hn
    cases hn
  · next row wait hphase =>
    obtain ⟨layers, outcomes, -, -, hnext⟩ := hinv
    rw [hphase]
    exact (hnext decision world).1 n hn
  · next row hphase =>
    rw [hphase] at h
    cases h

def waitingIds (run : WorkflowRun) : List String :=
  match run.phase with
  | .waiting _ wait => wait.steps.map (·.nodeId)
  | _ => []

theorem Carried.executed (hinv : Carried setup run) {r : CallResult}
    (h : run.result format setup decision world = some r) {layers : List (List String)}
    (hlayers : computeLayers setup.pipeline = .ok layers) :
    ∀ n, n ∈ run.finished ∨ n ∈ waitingIds run → n ∈ (layers.foldl
      (runLayer setup.pipeline (callOutcomes setup (run.resume decision) world)) {}).executed := by
  intro n hn
  unfold Carried at hinv
  unfold WorkflowRun.result at h
  unfold WorkflowRun.resume
  unfold waitingIds at hn
  split at hinv
  · next hphase =>
    rw [hinv, hphase] at hn
    simp at hn
  · next row wait hphase =>
    obtain ⟨layers', outcomes, hlayers', hran, hnext⟩ := hinv
    obtain rfl : layers' = layers := Except.ok.inj (hlayers'.symm.trans hlayers)
    rw [hphase] at hn ⊢
    exact runLayers_mono (fun _ h => h) (fun _ h => h) (by simp [Closed])
      (hnext decision world).2 (hran n hn)
  · next row hphase =>
    rw [hphase] at h
    cases h

theorem nothingTwice_of_carried (hinv : Carried setup run) (a : RunAction) :
    NothingTwice format setup run a := by
  cases a with
  | refuse message => trivial
  | call decision world =>
    intro r hr c hc hfin
    have hgives := hinv.givesBack hr c.1 hfin
    obtain ⟨created, rfl⟩ := result_eq_execute hr
    obtain ⟨nr, hran⟩ := execute_callsRan created c hc
    rw [hran] at hgives
    exact hgives

/-- What finished by the end of a waiting call finished, or gave its result back, in it. -/
theorem Carried.finished (hinv : Carried setup run) {created row : AgentExecution}
    (hr : run.result format setup decision world
      = some (execute format setup (run.resume decision) world created))
    (hexit : (execute format setup (run.resume decision) world created).exit = .waiting)
    (hwritten : (execute format setup (run.resume decision) world created).written = some row) :
    run.finished ⊆ (execute format setup (run.resume decision) world created).state.finished := by
  obtain ⟨layers, hlayers, hfollows, -⟩ := execute_waiting hexit hwritten
  intro n hn
  exact (hfollows.finished_iff n).mpr
    ⟨hinv.executed hr hlayers n (.inl hn), (hinv.givesBack hr n hn).isOk⟩

theorem Carried.waiting (hinv : Carried setup run) {created row : AgentExecution}
    {wait : WorkflowWaitState} (hr : run.result format setup decision world
      = some (execute format setup (run.resume decision) world created))
    (hphase : run.phaseAfter format setup decision
      (execute format setup (run.resume decision) world created) = .waiting row wait)
    (hsurvive : ∀ n ∈ (execute format setup (run.resume decision) world created).state.finished,
      n ∉ Js.objectPrototype → ∀ node r, setup.pipeline.node n = some node →
        (itemFor (run.resume decision) world n).outcome = .ok r →
          Survives format setup.pipeline node r.output) :
    Carried setup (run.afterCall format setup decision
      (execute format setup (run.resume decision) world created)) := by
  obtain ⟨hwritten, hexit, hwait⟩ := phaseAfter_waiting hphase
  obtain ⟨layers, hlayers, hfollows, hrow⟩ := execute_waiting hexit hwritten
  have hsteps : wait.steps.map (·.nodeId) = (execute format setup (run.resume decision) world
      created).state.waitingSteps.map (·.nodeId) := by
    simp [hwait, waitState]
  have hfinished : run.finished ++ (execute format setup (run.resume decision) world
        created).state.finished
      ⊆ (execute format setup (run.resume decision) world created).state.finished :=
    append_subset.mpr ⟨hinv.finished hr hexit hwritten, fun _ h => h⟩
  have hnext := fun decision' world' n =>
    @Follows.next _ _ _ _ _ _ hfollows row hrow hsurvive wait hsteps decision' world' n
  simp only [Carried, WorkflowRun.afterCall, hphase]
  refine ⟨layers, _, hlayers, fun n hn => ?_, fun decision' world' =>
    ⟨fun n hn => ?_, fun n hn => (hnext decision' world' n hn).2⟩⟩
  · rcases hn with hn | hn
    · exact ((hfollows.finished_iff n).mp (hfinished hn)).1
    · rw [hsteps] at hn
      obtain ⟨step, hstep, rfl⟩ := mem_map.mp hn
      exact (hfollows.waiting step hstep).1
  · obtain ⟨hran, hok⟩ := (hfollows.finished_iff n).mp (hfinished hn)
    exact (hnext decision' world' n hran).1 hok

theorem Carried.step (hinv : Carried setup run) {a : RunAction}
    (h : OutputsSurvive format setup run a) : Carried setup (run.step format setup a) := by
  cases a with
  | refuse message =>
    cases hp : run.phase with
    | waiting row wait => simp only [WorkflowRun.step, WorkflowRun.refused, hp, Carried]
    | _ => simpa only [WorkflowRun.step, WorkflowRun.refused, hp] using hinv
  | call decision world =>
    cases hr : run.result format setup decision world with
    | none => simpa only [WorkflowRun.step, hr] using hinv
    | some r =>
      simp only [WorkflowRun.step, hr]
      cases hphase : run.phaseAfter format setup decision r with
      | fresh created => exact absurd hphase (phaseAfter_ne_fresh created)
      | ended row => simp only [Carried, WorkflowRun.afterCall, hphase]
      | waiting row wait =>
        obtain ⟨hwritten, hexit, -⟩ := phaseAfter_waiting hphase
        have hsurvive := h r hr (by rw [hwritten]; rfl) hexit
        obtain ⟨created, rfl⟩ := result_eq_execute hr
        obtain ⟨layers, -, hfollows, -⟩ := execute_waiting hexit hwritten
        exact hinv.waiting hr hphase (hfollows.survives hsurvive)

/-- Nothing runs twice in a run whose waiting calls have outputs that survive. -/
theorem nothing_runs_twice (format : NumberFormat) (setup : Setup)
    (id agentId organizationId : String) (as : List RunAction)
    (h : Steps.Along (WorkflowRun.step format setup) (OutputsSurvive format setup)
      (.start id agentId organizationId) as) :
    Steps.Along (WorkflowRun.step format setup) (NothingTwice format setup)
      (.start id agentId organizationId) as := by
  have hstart : Carried setup (.start id agentId organizationId) := rfl
  exact Steps.along_of_invariant (Carried setup) (fun _ _ hinv h => hinv.step h)
    (fun _ a hinv _ => nothingTwice_of_carried hinv a) hstart h

theorem outputsSurvive_of_json
    (h : ∀ id r, (world.run id).outcome = .ok r → ∃ json, r.output = .ofJson json) :
    OutputsSurvive format setup run (.call decision world) := by
  intro r _ _ _ c _ _ node result _ hok
  obtain ⟨json, hjson⟩ := h c.1 result hok
  rw [hjson]
  exact survives_ofJson ..

def fetchThenChange : Setup where
  pipeline :=
    { nodes := [⟨"input", .input, none, none⟩, ⟨"fetch", .toolCall, none, none⟩,
        ⟨"change", .code, none, none⟩, ⟨"output", .output, none, none⟩]
      edges := [⟨"input", "fetch", none, none⟩, ⟨"fetch", "change", none, none⟩,
        ⟨"change", "output", none, none⟩] }

def changeWaits (fetched : JsValue) : World where
  run id :=
    if id = "change" then
      ⟨.error { message := "Waiting for your approval: 1 change.", errorType := .validationError
                code := some waitingForApprovalCode
                waiting := some { nodeId := "change", approvalId := "p" } }, 1⟩
    else ⟨.ok { output := if id = "fetch" then fetched else .str "ok" }, 0⟩
  waits := by
    intro id e step h hw
    split at h
    · next hid =>
      cases h
      cases hw
      exact hid.symm
    · cases h
  row _ := some (runningRow "e" "a" "o")

def approved (_ : String) : SettledCodeStep := { output := some (.str "done") }

/-- The tool gives a text; the run waits, and carries on with its output alone. -/
theorem nothing_runs_twice_text :
    Steps.Along (WorkflowRun.step wholeNumbers fetchThenChange)
        (NothingTwice wholeNumbers fetchThenChange) (.start "e" "a" "o")
        [.call approved (changeWaits (.str "rows")), .call approved (changeWaits (.str "rows"))] ∧
      ((Steps.run (WorkflowRun.step wholeNumbers fetchThenChange) (.start "e" "a" "o")
        [.call approved (changeWaits (.str "rows"))]).result wholeNumbers fetchThenChange
          approved (changeWaits (.str "rows"))).map (fun r => r.state.calls.map (·.1))
        = some ["output"] := by
  have hjson : ∀ id r, ((changeWaits (.str "rows")).run id).outcome = .ok r →
      ∃ json, r.output = .ofJson json := by
    intro id r h
    simp only [changeWaits] at h
    split at h
    · cases h
    · cases h
      dsimp only
      split
      · exact ⟨.str "rows", rfl⟩
      · exact ⟨.str "ok", rfl⟩
  refine ⟨nothing_runs_twice _ _ _ _ _ _ ⟨?_, ?_, trivial⟩, by decide +kernel⟩ <;>
    exact outputsSurvive_of_json hjson

/-- The tool gives nothing (`undefined`): its record has no `output`, and it runs again. -/
theorem runs_twice_undefined :
    ¬ Steps.Along (WorkflowRun.step wholeNumbers fetchThenChange)
      (NothingTwice wholeNumbers fetchThenChange) (.start "e" "a" "o")
      [.call approved (changeWaits .undefined), .call approved (changeWaits .undefined)] := by
  rintro ⟨-, h, -⟩
  obtain ⟨r, hr, hcalled⟩ : ∃ r, (Steps.run (WorkflowRun.step wholeNumbers fetchThenChange)
      (.start "e" "a" "o") [.call approved (changeWaits .undefined)]).result wholeNumbers
        fetchThenChange approved (changeWaits .undefined) = some r ∧
      r.state.calls.any (·.1 = "fetch") = true :=
    (Option.any_eq_true _ _).mp (by decide +kernel)
  obtain ⟨c, hc, hfetch⟩ := any_eq_true.mp hcalled
  refine h r hr c hc ?_
  rw [of_decide_eq_true hfetch]
  decide +kernel

end Almyty.Workflow
