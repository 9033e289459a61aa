import Almyty.Lib.JsPath
import Almyty.Strategies.Compiled
import Almyty.Workflow.Branching

/-!
# What a compiled strategy runs and answers

A check with a failure path decides between two continuations: the failure target when it did not
pass, the output when it did. `Survives` says which steps these decisions leave reachable from the
entry, `Ending` where a run ends, and `Last` the endings nothing else the run reached comes after.

The compiled pipeline runs exactly the steps that survive (`executed_iff_survives`), as long as the
gates can read the verdicts: a gate names its check in a template path, and the resolver refuses
some ids the compiler lets through.

The answer is another matter. The output reads the sources in the order of the shape's list, the
single leaf first, and takes the first whose step ran. A draft that failed its check ran too, so
with two checks in a row it is read before the escalation the second check passed. `cascade_iff`
says when what is read is what the last ending answers with.

Mirroring notes:
- `passed` is the verdict of each check, `output.passed` of its node, which is a boolean. A gate
  compares it with `true`; when its path is refused, the node fails.
- Every other node succeeds, and `answers` is what a source is worth once its step ran.
-/

namespace Almyty.Strategies

open Almyty.Lib Almyty.Workflow List Option

/-! ## Template paths: `agent-template-resolver.ts` -/

/-- `MAX_EXPRESSION_LENGTH`. -/
def maxExpressionLength : Nat := 500

/-- `EXPRESSION_BLOCKLIST`. -/
def expressionBlocklist : List String :=
  ["__proto__", "constructor", "prototype", "process", "require", "import", "global", "window",
    "Function", "eval"]

def validateExpression (expression : String) : Except String Unit :=
  let length := (Js.codeUnits expression).length
  if maxExpressionLength < length then
    .error ("Template expression length (" ++ toString length ++ ") exceeds maximum allowed (" ++
      toString maxExpressionLength ++ ")")
  else if (Js.dotParts expression).all (pathSafe ·) = false then
    .error ("Template expression contains invalid characters: '" ++ expression ++ "'")
  else if (Js.dotParts expression).any (· ∈ expressionBlocklist) then
    .error ("Template expression contains a blocked keyword: '" ++ expression ++ "'")
  else .ok ()

def readable (path : String) : Bool :=
  match validateExpression path with
  | .ok () => true
  | .error _ => false

/-! ## The run -/

section Run

variable (shape : StrategyShape) (passed : String → Bool)

/-- What comes of a node. -/
def outcomes (id : String) : Outcome :=
  match shape.steps.find? fun step => isGated step && gateIdFor step.id = id with
  | some step => if readable (passedPath step.id) then .condition (passed step.id) else .failure
  | none => .success

variable (s : Ran) (answers : Source → Json)

def resolveValue (source : Source) : Except String (Option Json) :=
  match validateExpression source.path with
  | .error e => .error e
  | .ok () => .ok (if source.step ∈ s.executed then some (answers source) else none)

def firstAnswer (all : List Source) : List Source → Except String (Option Json)
  | [] =>
    let paths := ", ".intercalate (all.map (·.path))
    .error ("Output node 'output' reads its answer from " ++
      (if paths = "" then "nothing" else paths) ++ ", and none of those steps produced one")
  | source :: rest =>
    match resolveValue s answers source with
    | .error e => .error e
    | .ok (some value) => .ok (some value)
    | .ok none => firstAnswer all rest

def executeOutputNode : List Source → Except String (Option Json)
  | [source] => resolveValue s answers source
  | sources => firstAnswer s answers sources sources

end Run

/-! ## What a strategy means -/

section Meaning

variable (shape : StrategyShape) (passed : String → Bool)

inductive Survives : String → Prop
  | entry : Survives shape.entry
  | next {step : StrategyStep} {next : String} (hstep : step ∈ shape.steps)
      (h : Survives step.id) (hnext : next ∈ step.next)
      (hopen : isGated step = true → passed step.id = false) : Survives next

def Ending (step : StrategyStep) : Prop :=
  step ∈ shape.steps ∧ Survives shape passed step.id ∧
    (step.next = [] ∨ isGated step = true ∧ passed step.id = true)

/-- No other ending comes after it. -/
def Last (step : StrategyStep) : Prop :=
  Ending shape passed step ∧
    ∀ other, Ending shape passed other → ¬ Relation.TransGen shape.Feeds step.id other.id

/-- A compiled strategy does what it says under these verdicts. The failure target of a
check that ran executes when the check did not pass, a step executes when a path to it
survives, and the output, if it names sources, is what a last ending answers with: the
escalation that ran last, else what the last check passed. -/
def Escalates (fanOut : List (String × Nat)) (p : AgentPipeline) : Prop :=
  ∃ s, branchRun p (outcomes shape passed) = .ok s ∧
    (∀ step ∈ shape.steps, isGated step = true → step.id ∈ s.executed →
      ∀ target ∈ step.next, (target ∈ s.executed ↔ passed step.id = false)) ∧
    (∀ step ∈ shape.steps, ∀ n ∈ idsFor fanOut step.id,
      (n ∈ s.executed ↔ Survives shape passed step.id)) ∧
    (answerSources shape fanOut ≠ [] → "output" ∈ s.executed ∧
      ∃ step source, Last shape passed step ∧ answerFor shape fanOut step = some source ∧
        ∀ answers, executeOutputNode s answers (answerSources shape fanOut)
          = .ok (some (answers source)))

def VerdictsRead : Prop :=
  ∀ step ∈ shape.steps, isGated step = true → Survives shape passed step.id →
    passed step.id = false → readable (passedPath step.id) = true

def ReadFirst (fanOut : List (String × Nat)) (source : Source) : Prop :=
  ∃ before step after, answering shape = before ++ step :: after ∧
    answerFor shape fanOut step = some source ∧ readable source.path = true ∧
    Survives shape passed source.step ∧
    ∀ earlier ∈ before, ∀ other, answerFor shape fanOut earlier = some other →
      readable other.path = true ∧ ¬ Survives shape passed other.step

end Meaning

/-! ## Open and closed edges -/

section Edges

variable {strategy : Strategy} {bindings : RoleBindings} {fanOut : List (String × Nat)}
  {passed : String → Bool}

variable {shape : StrategyShape} {step : StrategyStep}

theorem outcomes_gate (hv : shape.Valid) (hstep : step ∈ shape.steps) (hgated : isGated step = true) :
    outcomes shape passed (gateIdFor step.id)
      = if readable (passedPath step.id) then .condition (passed step.id) else .failure := by
  have hfind : shape.steps.find? (fun other => isGated other && gateIdFor other.id = gateIdFor step.id)
      = some step := by
    have hsome : (shape.steps.find?
        (fun other => isGated other && gateIdFor other.id = gateIdFor step.id)).isSome = true :=
      List.find?_isSome.mpr ⟨step, hstep, by simp [hgated]⟩
    obtain ⟨other, hother⟩ := isSome_iff_exists.mp hsome
    have hsame : gateIdFor other.id = gateIdFor step.id := by
      have := List.find?_some hother
      simp only [Bool.and_eq_true, decide_eq_true_eq] at this
      exact this.2
    rw [hother, hv.eq_of_id (List.mem_of_find?_eq_some hother) hstep (gateIdFor_injective hsame)]
  simp only [outcomes, hfind]

theorem outcomes_of_not_gate {n : String}
    (h : ∀ step ∈ shape.steps, isGated step = true → gateIdFor step.id ≠ n) :
    outcomes shape passed n = .success := by
  have hfind : shape.steps.find? (fun step => isGated step && gateIdFor step.id = n) = none := by
    rw [List.find?_eq_none]
    intro step hstep
    simp only [Bool.and_eq_true, decide_eq_true_eq, not_and]
    exact h step hstep
  simp only [outcomes, hfind]

theorem outcomes_node (hv : shape.Valid) {id n : String} (hid : id ∈ shape.ids)
    (hn : n ∈ idsFor fanOut id) : outcomes shape passed n = .success := by
  apply outcomes_of_not_gate
  intro step hstep hgated heq
  exact gateIdFor_not_mem_idsFor hv hstep hgated hid (heq ▸ hn)

theorem outcomes_input : outcomes shape passed "input" = .success :=
  outcomes_of_not_gate fun _ _ _ => gateIdFor_ne (by decide)

theorem closes_of_success {p : AgentPipeline} {outcomes : String → Outcome}
    {e : AgentPipelineEdge} (h : outcomes e.source = .success) : closes p outcomes e = false := by
  have huntaken : ∀ type : NodeType, untaken type .success e = false := by
    intro type
    cases type <;> rfl
  simp [closes, closedBy, h, huntaken]

theorem node_gate (hv : strategy.shape.Valid) (hc : Compiled strategy.shape fanOut)
    (hstep : step ∈ strategy.shape.steps) (hgated : isGated step = true) :
    (pipeline strategy bindings fanOut).node (gateIdFor step.id)
      = some (gateNode strategy step step.id) := by
  have hmem : gateNode strategy step step.id ∈ stepNodes strategy bindings fanOut step := by
    simp [stepNodes, hc.idsFor_gated hstep hgated, hgated]
  have hnode : gateNode strategy step step.id ∈ (pipeline strategy bindings fanOut).nodes := by
    simp only [pipeline, mem_append, mem_cons, mem_flatMap]
    exact .inl (.inr ⟨step, hstep, hmem⟩)
  exact (wellFormed bindings hv hc).node_eq hnode

theorem closes_failed (hv : strategy.shape.Valid) (hc : Compiled strategy.shape fanOut)
    (hstep : step ∈ strategy.shape.steps) (hgated : isGated step = true) (target : String) :
    closes (pipeline strategy bindings fanOut) (outcomes strategy.shape passed)
        ⟨gateIdFor step.id, target, some "false", some "check failed"⟩ = false ↔
      readable (passedPath step.id) = true ∧ passed step.id = false := by
  have hhandle : isFalseBranch
      (⟨gateIdFor step.id, target, some "false", some "check failed"⟩ : AgentPipelineEdge).handle
        = true ∧
      isTrueBranch
      (⟨gateIdFor step.id, target, some "false", some "check failed"⟩ : AgentPipelineEdge).handle
        = false := ⟨rfl, rfl⟩
  rw [closes, outcomes_gate hv hstep hgated]
  cases readable (passedPath step.id) with
  | false => simp [closedBy]
  | true => simp [closedBy, node_gate hv hc hstep hgated, gateNode, untaken, hhandle]

end Edges

/-! ## Which steps run -/

section Executed

variable {strategy : Strategy} {bindings : RoleBindings} {fanOut : List (String × Nat)}
  {passed : String → Bool} {s : Ran}

variable {step : StrategyStep} {id : String}

theorem executed_gate (hv : strategy.shape.Valid) (hc : Compiled strategy.shape fanOut)
    (hspec : s.Spec (pipeline strategy bindings fanOut) (outcomes strategy.shape passed))
    (hstep : step ∈ strategy.shape.steps) (hgated : isGated step = true) :
    gateIdFor step.id ∈ s.executed ↔ step.id ∈ s.executed := by
  have honly : ∀ e ∈ (pipeline strategy bindings fanOut).incoming (gateIdFor step.id),
      e = ⟨step.id, gateIdFor step.id, none, none⟩ := by
    intro e he
    obtain ⟨hedge, htarget⟩ := AgentPipeline.mem_incoming.mp he
    cases (mem_edges hv.nodup hc).mp hedge with
    | start hn =>
      dsimp only at htarget
      exact absurd (htarget ▸ hn) (gateIdFor_not_mem_idsFor hv hstep hgated hc.entry_mem)
    | verdict hother hg =>
      obtain rfl := hv.eq_of_id hother hstep (gateIdFor_injective htarget)
      rfl
    | @failed other target hother hg hnext =>
      dsimp only at htarget
      exact absurd (htarget ▸ hc.next_mem other hother target hnext)
        (hv.not_gate step hstep hgated)
    | passed | leaf =>
      dsimp only at htarget
      exact absurd htarget.symm (gateIdFor_ne (by decide))
    | @feed other next n m hother hplain hnext hn hm =>
      dsimp only at htarget
      exact absurd (htarget ▸ hm)
        (gateIdFor_not_mem_idsFor hv hstep hgated (hc.next_mem other hother next hnext))
  have hmem : (⟨step.id, gateIdFor step.id, none, none⟩ : AgentPipelineEdge) ∈
      (pipeline strategy bindings fanOut).incoming (gateIdFor step.id) :=
    AgentPipeline.mem_incoming.mpr ⟨(mem_edges hv.nodup hc).mpr (.verdict hstep hgated), rfl⟩
  have hself : step.id ∈ idsFor fanOut step.id := by simp [hc.idsFor_gated hstep hgated]
  rw [hspec.executed_iff_of_open (ne_nil_of_mem hmem)]
  · constructor
    · intro h
      obtain ⟨e, he, hx⟩ := h
      rwa [honly e he] at hx
    · exact fun hx => ⟨_, hmem, hx⟩
  · intro e he
    rw [honly e he]
    exact closes_of_success (outcomes_node hv (StrategyShape.mem_ids hstep) hself)

theorem executed_failure (hv : strategy.shape.Valid) (hc : Compiled strategy.shape fanOut)
    (hspec : s.Spec (pipeline strategy bindings fanOut) (outcomes strategy.shape passed))
    (hstep : step ∈ strategy.shape.steps) (hgated : isGated step = true) {target : String}
    (htarget : target ∈ step.next) :
    target ∈ s.executed ↔ step.id ∈ s.executed ∧ readable (passedPath step.id) = true ∧
      passed step.id = false := by
  rw [hspec.single target _ (incoming_failure hv hc hstep hgated htarget),
    executed_gate hv hc hspec hstep hgated, closes_failed hv hc hstep hgated]

theorem executed_input (hv : strategy.shape.Valid) (hc : Compiled strategy.shape fanOut)
    (hspec : s.Spec (pipeline strategy bindings fanOut) (outcomes strategy.shape passed)) :
    "input" ∈ s.executed := by
  have houtput : "output" ≠ "input" := by decide
  have hnode : ∀ {id n : String}, id ∈ strategy.shape.ids → n ∈ idsFor fanOut id → n ≠ "input" := by
    intro id n hid hn heq
    exact input_not_mem_idsFor hv hc hid (heq ▸ hn)
  refine hspec.root "input" ((mem_ids_pipeline hc).mpr (.inl rfl)) ?_
  apply filter_eq_nil_iff.mpr
  intro e he
  rw [decide_eq_true_eq]
  cases (mem_edges hv.nodup hc).mp he with
  | start hn => exact hnode hc.entry_mem hn
  | verdict hstep hgated => exact gateIdFor_ne (by decide)
  | @failed step target hstep hgated hnext =>
    exact hnode (hc.next_mem step hstep target hnext)
      (by simp [hc.idsFor_failure hstep hgated hnext])
  | passed | leaf => exact houtput
  | @feed step next n m hstep hplain hnext hn hm => exact hnode (hc.next_mem step hstep next hnext) hm

theorem incoming_step (hv : strategy.shape.Valid) (hc : Compiled strategy.shape fanOut)
    (hid : id ∈ strategy.shape.ids)
    (hfree : ∀ step ∈ strategy.shape.steps, isGated step = true → id ∉ step.next) {n : String}
    (hn : n ∈ idsFor fanOut id) {e : AgentPipelineEdge}
    (he : e ∈ (pipeline strategy bindings fanOut).incoming n) :
    e.source = "input" ∧ id = strategy.shape.entry ∨ ∃ step ∈ strategy.shape.steps,
      isGated step = false ∧ id ∈ step.next ∧ e.source ∈ idsFor fanOut step.id := by
  have hsafe := hv.safe id hid
  obtain ⟨hedge, rfl⟩ := AgentPipeline.mem_incoming.mp he
  cases (mem_edges hv.nodup hc).mp hedge with
  | start hm => exact .inl ⟨rfl, eq_of_mem_idsFor hsafe (hv.safe _ hc.entry_mem) hn hm⟩
  | verdict hstep hgated => exact absurd hn (gateIdFor_not_mem_idsFor hv hstep hgated hid)
  | @failed step target hstep hgated hnext =>
    have hself := hc.idsFor_failure hstep hgated hnext
    have heq := eq_of_mem_idsFor hsafe (hv.safe _ (hc.next_mem step hstep target hnext)) hn
      (by simp [hself])
    exact absurd (heq ▸ hnext) (hfree step hstep hgated)
  | passed | leaf => exact absurd hn (output_not_mem_idsFor hv hc hid)
  | @feed step next m m' hstep hplain hnext hm hm' =>
    have heq := eq_of_mem_idsFor hsafe (hv.safe _ (hc.next_mem step hstep next hnext)) hn hm'
    exact .inr ⟨step, hstep, hplain, heq ▸ hnext, hm⟩

theorem executed_step (hv : strategy.shape.Valid) (hc : Compiled strategy.shape fanOut)
    (hspec : s.Spec (pipeline strategy bindings fanOut) (outcomes strategy.shape passed))
    (hid : id ∈ strategy.shape.ids)
    (hfree : ∀ step ∈ strategy.shape.steps, isGated step = true → id ∉ step.next) {n : String}
    (hn : n ∈ idsFor fanOut id) :
    n ∈ s.executed ↔ id = strategy.shape.entry ∨ ∃ step ∈ strategy.shape.steps,
      isGated step = false ∧ id ∈ step.next ∧ ∃ m ∈ idsFor fanOut step.id, m ∈ s.executed := by
  have hopen : ∀ e ∈ (pipeline strategy bindings fanOut).incoming n,
      closes (pipeline strategy bindings fanOut) (outcomes strategy.shape passed) e = false := by
    intro e he
    apply closes_of_success
    rcases incoming_step hv hc hid hfree hn he with ⟨hsource, -⟩ | ⟨step, hstep, -, -, hsource⟩
    · rw [hsource]
      exact outcomes_input
    · exact outcomes_node hv (StrategyShape.mem_ids hstep) hsource
  have hstart : id = strategy.shape.entry → (⟨"input", n, none, none⟩ : AgentPipelineEdge) ∈
      (pipeline strategy bindings fanOut).incoming n := by
    rintro rfl
    exact AgentPipeline.mem_incoming.mpr ⟨(mem_edges hv.nodup hc).mpr (.start hn), rfl⟩
  have hfeed : ∀ step ∈ strategy.shape.steps, id ∈ step.next → ∀ m ∈ idsFor fanOut step.id,
      (⟨m, n, none, none⟩ : AgentPipelineEdge) ∈ (pipeline strategy bindings fanOut).incoming n := by
    intro step hstep hnext m hm
    have hplain : isGated step = false := by
      rw [← Bool.not_eq_true]
      exact fun hgated => hfree step hstep hgated hnext
    exact AgentPipeline.mem_incoming.mpr ⟨(mem_edges hv.nodup hc).mpr (.feed hstep hplain hnext hm hn), rfl⟩
  have hin : (pipeline strategy bindings fanOut).incoming n ≠ [] := by
    rcases (hv.reached id hid).cases_tail with heq | ⟨a, -, step, hstep, rfl, hnext⟩
    · exact ne_nil_of_mem (hstart heq)
    · obtain ⟨m, hm⟩ := exists_mem_of_length_pos (idsFor_length_pos hc.replicated step.id)
      exact ne_nil_of_mem (hfeed step hstep hnext m hm)
  rw [hspec.executed_iff_of_open hin hopen]
  constructor
  · intro h
    obtain ⟨e, he, hx⟩ := h
    rcases incoming_step hv hc hid hfree hn he with ⟨-, heq⟩ | ⟨step, hstep, hplain, hnext, hsource⟩
    · exact .inl heq
    · exact .inr ⟨step, hstep, hplain, hnext, e.source, hsource, hx⟩
  · intro h
    rcases h with heq | ⟨step, hstep, -, hnext, m, hm, hx⟩
    · exact ⟨_, hstart heq, executed_input hv hc hspec⟩
    · exact ⟨_, hfeed step hstep hnext m hm, hx⟩

theorem Survives.from {shape : StrategyShape} (h : Survives shape passed id) :
    id = shape.entry ∨ ∃ step ∈ shape.steps, id ∈ step.next ∧
      (isGated step = true → passed step.id = false) := by
  cases h with
  | entry => exact .inl rfl
  | next hstep _ hnext hopen => exact .inr ⟨_, hstep, hnext, hopen⟩

theorem survives_of_executed (hv : strategy.shape.Valid) (hc : Compiled strategy.shape fanOut)
    (hspec : s.Spec (pipeline strategy bindings fanOut) (outcomes strategy.shape passed))
    {n : String} (hid : id ∈ strategy.shape.ids) (hn : n ∈ idsFor fanOut id) (hx : n ∈ s.executed) :
    Survives strategy.shape passed id := by
  obtain ⟨rank, -, -, hrank⟩ := exists_rank hv.nodup hv.acyclic hc
  induction hk : rank id using Nat.strong_induction_on generalizing id n with
  | _ k ih =>
    have hback : ∀ step ∈ strategy.shape.steps, id ∈ step.next → ∀ m ∈ idsFor fanOut step.id,
        m ∈ s.executed → Survives strategy.shape passed step.id := by
      intro step hstep hnext m hm hx
      exact ih _ (hk ▸ hrank step.id id ⟨step, hstep, rfl, hnext⟩) (StrategyShape.mem_ids hstep) hm
        hx rfl
    by_cases hfail : ∃ step ∈ strategy.shape.steps, isGated step = true ∧ id ∈ step.next
    · obtain ⟨step, hstep, hgated, hnext⟩ := hfail
      obtain rfl : n = id := by simpa [hc.idsFor_failure hstep hgated hnext] using hn
      obtain ⟨hran, -, hverdict⟩ := (executed_failure hv hc hspec hstep hgated hnext).mp hx
      have hself : step.id ∈ idsFor fanOut step.id := by simp [hc.idsFor_gated hstep hgated]
      exact .next hstep (hback step hstep hnext _ hself hran) hnext fun _ => hverdict
    · have hfree : ∀ step ∈ strategy.shape.steps, isGated step = true → id ∉ step.next :=
        fun step hstep hgated hnext => hfail ⟨step, hstep, hgated, hnext⟩
      rcases (executed_step hv hc hspec hid hfree hn).mp hx with
        rfl | ⟨step, hstep, hplain, hnext, m, hm, hran⟩
      · exact .entry
      · refine .next hstep (hback step hstep hnext m hm hran) hnext fun hgated => ?_
        exact absurd hnext (hfree step hstep hgated)

theorem executed_of_survives (hv : strategy.shape.Valid) (hc : Compiled strategy.shape fanOut)
    (hspec : s.Spec (pipeline strategy bindings fanOut) (outcomes strategy.shape passed))
    (hread : VerdictsRead strategy.shape passed) (h : Survives strategy.shape passed id) :
    ∀ n ∈ idsFor fanOut id, n ∈ s.executed := by
  induction h with
  | entry =>
    intro n hn
    refine (executed_step hv hc hspec hc.entry_mem ?_ hn).mpr (.inl rfl)
    exact fun step hstep _ => entry_not_failure hv hstep
  | @next step next hstep h hnext hopen ih =>
    intro n hn
    have hid := hc.next_mem step hstep next hnext
    cases hgated : isGated step with
    | true =>
      obtain rfl : n = next := by simpa [hc.idsFor_failure hstep hgated hnext] using hn
      have hran := ih step.id (by simp [hc.idsFor_gated hstep hgated])
      exact (executed_failure hv hc hspec hstep hgated hnext).mpr
        ⟨hran, hread step hstep hgated h (hopen hgated), hopen hgated⟩
    | false =>
      -- a failure target has no parent but its check, so this is none
      have hfree : ∀ other ∈ strategy.shape.steps, isGated other = true → next ∉ other.next := by
        intro other hother hg hmem
        obtain rfl := hv.only_parent other hother hg next hmem step hstep hnext
        rw [hgated] at hg
        cases hg
      obtain ⟨m, hm⟩ := exists_mem_of_length_pos (idsFor_length_pos hc.replicated step.id)
      exact (executed_step hv hc hspec hid hfree hn).mpr
        (.inr ⟨step, hstep, hgated, hnext, m, hm, ih m hm⟩)

theorem executed_iff_survives (hv : strategy.shape.Valid) (hc : Compiled strategy.shape fanOut)
    (hspec : s.Spec (pipeline strategy bindings fanOut) (outcomes strategy.shape passed))
    (hread : VerdictsRead strategy.shape passed) {n : String} (hid : id ∈ strategy.shape.ids)
    (hn : n ∈ idsFor fanOut id) : n ∈ s.executed ↔ Survives strategy.shape passed id :=
  ⟨survives_of_executed hv hc hspec hid hn, fun h => executed_of_survives hv hc hspec hread h n hn⟩

theorem executed_output (hv : strategy.shape.Valid) (hc : Compiled strategy.shape fanOut)
    (hspec : s.Spec (pipeline strategy bindings fanOut) (outcomes strategy.shape passed))
    {leaf : StrategyStep} (hleaf : leaf ∈ strategy.shape.steps) (hnil : leaf.next = [])
    (hstep : step ∈ strategy.shape.steps) (hends : step.next = [] ∨ isGated step = true)
    (hran : ∀ n ∈ idsFor fanOut step.id, n ∈ s.executed) : "output" ∈ s.executed := by
  have hwire : ∀ {other : StrategyStep}, other ∈ strategy.shape.steps → other.next = [] →
      ∃ n ∈ idsFor fanOut other.id, (⟨n, "output", none, none⟩ : AgentPipelineEdge) ∈
        (pipeline strategy bindings fanOut).incoming "output" := by
    intro other hother hnil
    obtain ⟨n, hn⟩ := exists_mem_of_length_pos (idsFor_length_pos hc.replicated other.id)
    exact ⟨n, hn, AgentPipeline.mem_incoming.mpr ⟨(mem_edges hv.nodup hc).mpr (.leaf hother hnil hn), rfl⟩⟩
  obtain ⟨m, -, hlast⟩ := hwire hleaf hnil
  rcases hends with hend | hgated
  · obtain ⟨n, hn, hin⟩ := hwire hstep hend
    rcases incoming_cases (pipeline strategy bindings fanOut) "output" with hroot | ⟨e, hone⟩ | hmany
    · exact absurd hroot (ne_nil_of_mem hin)
    · obtain rfl : _ = e := by simpa [hone] using hin
      refine (hspec.single _ _ hone).mpr ⟨hran n hn, closes_of_success ?_⟩
      exact outcomes_node hv (StrategyShape.mem_ids hstep) hn
    · exact (hspec.join _ hmany).mpr ⟨_, hin, hran n hn⟩
  · have hin : (⟨gateIdFor step.id, "output", some "true", some "check passed"⟩ : AgentPipelineEdge) ∈
        (pipeline strategy bindings fanOut).incoming "output" :=
      AgentPipeline.mem_incoming.mpr ⟨(mem_edges hv.nodup hc).mpr (.passed hstep hgated), rfl⟩
    have hgate := (executed_gate hv hc hspec hstep hgated).mpr
      (hran step.id (by simp [hc.idsFor_gated hstep hgated]))
    rcases incoming_cases (pipeline strategy bindings fanOut) "output" with hroot | ⟨e, hone⟩ | hmany
    · exact absurd hroot (ne_nil_of_mem hin)
    · -- the leaf's edge is another one, so this is no single edge
      rw [hone, mem_singleton] at hin hlast
      rw [← hin] at hlast
      simp at hlast
    · exact (hspec.join _ hmany).mpr ⟨_, hin, hgate⟩

end Executed

/-! ## Which source is read -/

section Sources

variable {shape : StrategyShape} {fanOut : List (String × Nat)} {s : Ran}

def stops (s : Ran) (source : Source) : Bool :=
  !readable source.path || decide (source.step ∈ s.executed)

variable {source : Source}

theorem resolveValue_of_readable {answers : Source → Json} (h : readable source.path = true) :
    resolveValue s answers source
      = .ok (if source.step ∈ s.executed then some (answers source) else none) := by
  unfold readable at h
  split at h
  next hok => rw [resolveValue, hok]
  · cases h

theorem resolveValue_of_not_readable (answers : Source → Json) (h : readable source.path = false) :
    ∃ e, resolveValue s answers source = .error e := by
  unfold readable at h
  split at h
  · cases h
  next e herror => exact ⟨e, by rw [resolveValue, herror]⟩

theorem resolveValue_iff {source other : Source} :
    (∀ answers, resolveValue s answers other = .ok (some (answers source))) ↔
      stops s other = true ∧ other = source ∧ readable other.path = true := by
  constructor
  · intro h
    -- an answer of its own tells the source that was read from every other
    have hmark := h fun u => .bool (u = source)
    cases hread : readable other.path with
    | false =>
      obtain ⟨e, herror⟩ := resolveValue_of_not_readable (s := s) (fun u => .bool (u = source)) hread
      rw [herror] at hmark
      cases hmark
    | true =>
      rw [resolveValue_of_readable hread] at hmark
      split at hmark
      next hran =>
        refine ⟨by simp [stops, hran], ?_, rfl⟩
        simpa using hmark
      · simp at hmark
  · intro h answers
    obtain ⟨hstop, rfl, hread⟩ := h
    have hran : other.step ∈ s.executed := by simpa [stops, hread] using hstop
    rw [resolveValue_of_readable hread, if_pos hran]

theorem firstAnswer_eq (answers : Source → Json) (all : List Source) {sources : List Source} :
    (∀ source, sources.find? (stops s) = some source →
      firstAnswer s answers all sources = resolveValue s answers source) ∧
    (sources.find? (stops s) = none → ∃ e, firstAnswer s answers all sources = .error e) := by
  induction sources with
  | nil => exact ⟨fun _ h => (by cases h), fun _ => ⟨_, rfl⟩⟩
  | cons first rest ih =>
    cases hstop : stops s first with
    | true =>
      rw [List.find?_cons_of_pos hstop]
      refine ⟨fun source h => ?_, fun h => by cases h⟩
      obtain rfl := some.inj h
      cases hread : readable first.path with
      | false =>
        obtain ⟨e, herror⟩ := resolveValue_of_not_readable (s := s) answers hread
        simp only [firstAnswer, herror]
      | true =>
        have hran : first.step ∈ s.executed := by simpa [stops, hread] using hstop
        simp only [firstAnswer, resolveValue_of_readable hread, if_pos hran]
    | false =>
      rw [List.find?_cons_of_neg (by simp [hstop])]
      have hskip : readable first.path = true ∧ first.step ∉ s.executed := by
        simpa [stops] using hstop
      have hpass : firstAnswer s answers all (first :: rest) = firstAnswer s answers all rest := by
        simp only [firstAnswer, resolveValue_of_readable hskip.1, if_neg hskip.2]
      rw [hpass]
      exact ih

theorem executeOutputNode_iff {sources : List Source} :
    (∀ answers, executeOutputNode s answers sources = .ok (some (answers source))) ↔
      sources.find? (stops s) = some source ∧ readable source.path = true := by
  have hlist : (∀ answers, firstAnswer s answers sources sources = .ok (some (answers source))) ↔
      sources.find? (stops s) = some source ∧ readable source.path = true := by
    cases hfind : sources.find? (stops s) with
    | none =>
      refine ⟨fun h => ?_, fun h => by cases h.1⟩
      obtain ⟨e, herror⟩ := (firstAnswer_eq (fun _ => .null) sources).2 hfind
      have hsome := h fun _ => .null
      rw [herror] at hsome
      cases hsome
    | some found =>
      have heq : ∀ answers, firstAnswer s answers sources sources = resolveValue s answers found :=
        fun answers => (firstAnswer_eq answers sources).1 found hfind
      simp only [heq, resolveValue_iff, List.find?_some hfind, true_and, some.injEq]
      exact ⟨fun h => ⟨h.1, h.1 ▸ h.2⟩, fun h => ⟨h.1, h.1 ▸ h.2⟩⟩
  match sources with
  | [] | _ :: _ :: _ => exact hlist
  | [only] =>
    simp only [executeOutputNode, resolveValue_iff]
    cases hstop : stops s only with
    | true =>
      simp only [List.find?_cons_of_pos hstop, true_and, some.injEq]
      exact ⟨fun h => ⟨h.1, h.1 ▸ h.2⟩, fun h => ⟨h.1, h.1 ▸ h.2⟩⟩
    | false => simp [hstop]

theorem find?_distinct (q : Source → Bool) (sources : List Source) :
    (distinct sources).find? q = sources.find? q := by
  have hfold : ∀ (rest acc : List Source),
      (rest.foldl (fun acc source => if source ∈ acc then acc else acc ++ [source]) acc).find? q
        = (acc ++ rest).find? q := by
    intro rest
    induction rest with
    | nil => simp
    | cons source rest ih =>
      intro acc
      rw [foldl_cons, ih]
      split
      next hmem =>
        -- it was in `acc`: either that one is found, or neither is
        simp only [List.find?_append, List.find?_cons]
        cases hq : q source with
        | false => rfl
        | true =>
          have hsome : (acc.find? q).isSome = true := List.find?_isSome.mpr ⟨source, hmem, hq⟩
          obtain ⟨found, hfound⟩ := isSome_iff_exists.mp hsome
          simp [hfound]
      · rw [append_assoc, singleton_append]
  exact hfold sources []

theorem find?_of_mapM {α β : Type} {f : α → Option β} (q : β → Bool) {xs : List α} {ys : List β}
    (h : xs.mapM f = some ys) : ys.find? q = (xs.find? fun x => (f x).any q).bind f := by
  induction xs generalizing ys with
  | nil =>
    obtain rfl : [] = ys := by simpa using h
    rfl
  | cons x xs ih =>
    rw [mapM_cons] at h
    obtain ⟨y, hx, h⟩ := bind_eq_some_iff.mp h
    obtain ⟨rest, hrest, h⟩ := bind_eq_some_iff.mp h
    obtain rfl := some.inj h
    rw [List.find?_cons, List.find?_cons, hx, any_some]
    cases q y with
    | true => simp [hx]
    | false => exact ih hrest

theorem answerOf_step (hc : Compiled shape fanOut) {fuel : Nat} {seen : List String}
    {step : StrategyStep} (hstep : step ∈ shape.steps)
    (h : answerOf shape fanOut fuel seen step = some source) :
    source.step ∈ shape.ids ∧ idsFor fanOut source.step = [source.step] := by
  induction fuel generalizing seen step with
  | zero => cases h
  | succ fuel ih =>
    unfold answerOf at h
    split at h
    · cases h
    · split at h
      · split at h
        next checked hchecked =>
          have hmem : checked ∈ shape.steps := by
            apply mem_of_mem_filter
            rw [hchecked]
            exact mem_singleton_self _
          exact ih hmem h
        · cases h
      · split at h
        · cases h
        next hone =>
          obtain rfl := some.inj h
          simp only [not_or, Decidable.not_not] at hone
          refine ⟨StrategyShape.mem_ids hstep, idsFor_of_none ?_⟩
          exact lookup_none_of_length hc.replicated (le_of_eq hone.2.1)

theorem mem_of_answering {step : StrategyStep} (h : step ∈ answering shape) :
    step ∈ shape.steps := by
  unfold answering at h
  split at h
  next leaf hleaf =>
    rcases mem_cons.mp h with rfl | h
    · have hmem : step ∈ leaves shape := by simp [hleaf]
      exact mem_of_mem_filter hmem
    · exact mem_of_mem_filter h
  · cases h

theorem exists_leaf_of_sources (h : answerSources shape fanOut ≠ []) :
    ∃ leaf ∈ shape.steps, leaf.next = [] := by
  have hanswering : answering shape ≠ [] := by
    intro hnil
    simp [answerSources, hnil, distinct] at h
  unfold answering at hanswering
  split at hanswering
  next leaf hleaf =>
    have hmem : leaf ∈ leaves shape := by simp [hleaf]
    obtain ⟨hstep, hnil⟩ := mem_filter.mp hmem
    exact ⟨leaf, hstep, by simpa using hnil⟩
  · exact absurd rfl hanswering

theorem readFirst_iff {passed : String → Bool} (hne : answerSources shape fanOut ≠ [])
    (hran : ∀ step ∈ answering shape, ∀ source, answerFor shape fanOut step = some source →
      (source.step ∈ s.executed ↔ Survives shape passed source.step)) :
    ReadFirst shape passed fanOut source ↔
      (answerSources shape fanOut).find? (stops s) = some source ∧ readable source.path = true := by
  obtain ⟨sources, hsources⟩ : ∃ sources,
      (answering shape).mapM (answerFor shape fanOut) = some sources := by
    cases hall : (answering shape).mapM (answerFor shape fanOut) with
    | none => simp [answerSources, hall] at hne
    | some sources => exact ⟨sources, rfl⟩
  have hanswer : answerSources shape fanOut = distinct sources := by
    simp only [answerSources, hsources]
  rw [hanswer, find?_distinct, find?_of_mapM (stops s) hsources, bind_eq_some_iff]
  constructor
  · rintro ⟨before, step, after, hsplit, hstep, hread, hlive, hbefore⟩
    have hmem : step ∈ answering shape := by simp [hsplit]
    refine ⟨⟨step, List.find?_eq_some_iff_append.mpr ⟨?_, before, after, hsplit, ?_⟩, hstep⟩, hread⟩
    · simp [hstep, stops, (hran step hmem source hstep).mpr hlive]
    · intro earlier hearlier
      cases hother : answerFor shape fanOut earlier with
      | none => rfl
      | some other =>
        obtain ⟨hread', hdead⟩ := hbefore earlier hearlier other hother
        have hmem' : earlier ∈ answering shape := by simp [hsplit, hearlier]
        have hno : other.step ∉ s.executed := fun hx => hdead ((hran earlier hmem' other hother).mp hx)
        simp [stops, hread', hno]
  · rintro ⟨⟨step, hfind, hstep⟩, hread⟩
    obtain ⟨hstop, before, after, hsplit, hbefore⟩ := List.find?_eq_some_iff_append.mp hfind
    have hmem : step ∈ answering shape := by simp [hsplit]
    have hx : source.step ∈ s.executed := by simpa [hstep, stops, hread] using hstop
    refine ⟨before, step, after, hsplit, hstep, hread, (hran step hmem source hstep).mp hx, ?_⟩
    intro earlier hearlier other hother
    have hpass := hbefore earlier hearlier
    have hmem' : earlier ∈ answering shape := by simp [hsplit, hearlier]
    simp only [hother, any_some, stops, Bool.not_or, Bool.not_not, Bool.and_eq_true,
      Bool.not_eq_true', decide_eq_false_iff_not] at hpass
    exact ⟨hpass.1, fun hlive => hpass.2 ((hran earlier hmem' other hother).mpr hlive)⟩

end Sources

/-! ## When a strategy does what it says -/

/-- A compiled strategy escalates when a check fails, and answers with the last ending, exactly when
its verdicts can be read and the first source reached is that ending's. -/
theorem cascade_iff {strategy : Strategy} {bindings : RoleBindings} {p : AgentPipeline}
    {fanOut : List (String × Nat)} (hv : strategy.shape.Valid)
    (hok : compileStrategy strategy bindings = .ok p) (hfan : fanOutOf strategy.shape = .ok fanOut)
    (passed : String → Bool) :
    Escalates strategy.shape passed fanOut p ↔
      VerdictsRead strategy.shape passed ∧
        (answerSources strategy.shape fanOut ≠ [] →
          ∃ step source, Last strategy.shape passed step ∧
            answerFor strategy.shape fanOut step = some source ∧
            ReadFirst strategy.shape passed fanOut source) := by
  obtain ⟨fanOut', hfan', hc, rfl⟩ := compiled_of_ok hok
  obtain rfl : fanOut = fanOut' := Except.ok.inj (hfan.symm.trans hfan')
  obtain ⟨s, hrun, hspec⟩ := (dag bindings hv hc).branchRun_spec (outcomes strategy.shape passed)
  change branchRun (pipeline strategy bindings fanOut) _ = .ok s at hrun
  change s.Spec (pipeline strategy bindings fanOut) _ at hspec
  have hsource : ∀ step ∈ answering strategy.shape, ∀ source,
      answerFor strategy.shape fanOut step = some source →
        source.step ∈ strategy.shape.ids ∧ source.step ∈ idsFor fanOut source.step := by
    intro step hstep source hanswer
    obtain ⟨hids, hone⟩ := answerOf_step hc (mem_of_answering hstep) hanswer
    exact ⟨hids, by simp [hone]⟩
  constructor
  · intro h
    obtain ⟨s', hrun', hfail, hsteps, hout⟩ := h
    obtain rfl : s = s' := Except.ok.inj (hrun.symm.trans hrun')
    have hlive : ∀ {id n : String}, id ∈ strategy.shape.ids → n ∈ idsFor fanOut id →
        (n ∈ s.executed ↔ Survives strategy.shape passed id) := by
      intro id n hid hn
      obtain ⟨step, hstep, rfl⟩ := mem_map.mp hid
      exact hsteps step hstep n hn
    refine ⟨fun step hstep hgated hreached hverdict => ?_, fun hne => ?_⟩
    · -- the failure target ran, so its gate read the verdict
      obtain ⟨target, hnext, -⟩ := hc.failure step hstep hgated
      have hmem : target ∈ step.next := by simp [hnext]
      have hself : step.id ∈ idsFor fanOut step.id := by simp [hc.idsFor_gated hstep hgated]
      have hran := (hlive (StrategyShape.mem_ids hstep) hself).mpr hreached
      have htarget := (hfail step hstep hgated hran target hmem).mpr hverdict
      exact ((executed_failure hv hc hspec hstep hgated hmem).mp htarget).2.1
    · obtain ⟨-, step, source, hlast, hanswer, hall⟩ := hout hne
      refine ⟨step, source, hlast, hanswer, ?_⟩
      refine (readFirst_iff hne fun other hother u hu => ?_).mpr (executeOutputNode_iff.mp hall)
      exact hlive (hsource other hother u hu).1 (hsource other hother u hu).2
  · intro h
    obtain ⟨hread, hout⟩ := h
    refine ⟨s, hrun, fun step hstep hgated hran target htarget => ?_, fun step hstep n hn => ?_,
      fun hne => ?_⟩
    · have hself : step.id ∈ idsFor fanOut step.id := by simp [hc.idsFor_gated hstep hgated]
      have hreached := survives_of_executed hv hc hspec (StrategyShape.mem_ids hstep) hself hran
      rw [executed_failure hv hc hspec hstep hgated htarget]
      exact ⟨fun h => h.2.2, fun hverdict => ⟨hran, hread step hstep hgated hreached hverdict, hverdict⟩⟩
    · exact executed_iff_survives hv hc hspec hread (StrategyShape.mem_ids hstep) hn
    · obtain ⟨step, source, hlast, hanswer, hfirst⟩ := hout hne
      obtain ⟨leaf, hleaf, hnil⟩ := exists_leaf_of_sources hne
      obtain ⟨hstep, hreached, hends⟩ := hlast.1
      refine ⟨?_, step, source, hlast, hanswer, executeOutputNode_iff.mpr ?_⟩
      · exact executed_output hv hc hspec hleaf hnil hstep (hends.imp_right And.left)
          (executed_of_survives hv hc hspec hread hreached)
      · refine (readFirst_iff hne fun other hother u hu => ?_).mp hfirst
        exact executed_iff_survives hv hc hspec hread (hsource other hother u hu).1
          (hsource other hother u hu).2

/-! ### The cascade, and two of them in a row -/

/-- `strategy-seeds.ts`: draft, check, escalate when the check fails. -/
def cascade : Strategy where
  key := "cascade"
  roleSlots := ["drafter", "verifier", "principal"]
  shape := {
    entry := "draft"
    steps := [
      { id := "draft", kind := .call, roleSlot := some "drafter", next := ["check"] },
      { id := "check", kind := .verify, roleSlot := some "verifier", next := ["escalate"] },
      { id := "escalate", kind := .call, roleSlot := some "principal" }] }

/-- A cascade whose escalation is checked too, and escalates in its turn. -/
def twoChecks : Strategy where
  key := "cascade_twice"
  roleSlots := ["drafter", "verifier", "principal"]
  shape := {
    entry := "draft"
    steps := [
      { id := "draft", kind := .call, roleSlot := some "drafter", next := ["check"] },
      { id := "check", kind := .verify, roleSlot := some "verifier", next := ["escalate"] },
      { id := "escalate", kind := .call, roleSlot := some "principal", next := ["recheck"] },
      { id := "recheck", kind := .verify, roleSlot := some "verifier", next := ["principal"] },
      { id := "principal", kind := .call, roleSlot := some "principal" }] }

def roles : RoleBindings :=
  [("drafter", "small"), ("verifier", "checker"), ("principal", "large")]

theorem cascade_valid : cascade.shape.Valid := by
  have hlisted := StrategyShape.reached_of_ordered cascade.shape (by decide) (by decide)
  exact ⟨by decide, by decide, by decide, by decide, by decide, hlisted.1, hlisted.2, by decide⟩

theorem twoChecks_valid : twoChecks.shape.Valid := by
  have hlisted := StrategyShape.reached_of_ordered twoChecks.shape (by decide) (by decide)
  exact ⟨by decide, by decide, by decide, by decide, by decide, hlisted.1, hlisted.2, by decide⟩

/-- With the check failed, the cascade runs its escalation and answers with it. -/
theorem cascade_escalates :
    compileStrategy cascade roles = .ok (pipeline cascade roles []) ∧
      Escalates cascade.shape (fun _ => false) [] (pipeline cascade roles []) := by
  have hok : compileStrategy cascade roles = .ok (pipeline cascade roles []) := by decide
  have hread : ∀ step ∈ cascade.shape.steps, readable (passedPath step.id) = true := by decide
  have hleaf : ∀ step ∈ cascade.shape.steps, step.id = "escalate" → step.next = [] := by decide
  have hcheck : Survives cascade.shape (fun _ => false) "check" :=
    .next (show cascade.shape.steps[0] ∈ cascade.shape.steps by decide) .entry (by decide)
      fun _ => rfl
  have hescalate : Survives cascade.shape (fun _ => false) "escalate" :=
    .next (show cascade.shape.steps[1] ∈ cascade.shape.steps by decide) hcheck (by decide)
      fun _ => rfl
  refine ⟨hok, (cascade_iff cascade_valid hok rfl _).mpr ⟨?_, fun _ => ?_⟩⟩
  · exact fun step hstep _ _ _ => hread step hstep
  · refine ⟨cascade.shape.steps[2], ⟨"escalate", false⟩, ⟨⟨by decide, hescalate, .inl rfl⟩, ?_⟩,
      by decide, [], cascade.shape.steps[2], _, rfl, by decide, by decide, hescalate, by simp⟩
    intro other _ hafter
    obtain ⟨next, ⟨step, hstep, hid, hnext⟩, -⟩ := Relation.TransGen.head'_iff.mp hafter
    rw [hleaf step hstep hid] at hnext
    cases hnext

/-- The first check of two fails and the second passes. -/
def rescued : Ran where
  skipped := ["principal"]
  executed := ["input", "draft", "check", "check__gate", "escalate", "recheck", "recheck__gate",
    "output"]

/-- The draft failed its check, yet it is the answer: it is listed before the escalation. -/
theorem failed_draft_answered :
    twoChecks.shape.Valid ∧ compileStrategy twoChecks roles = .ok (pipeline twoChecks roles []) ∧
      ¬ Escalates twoChecks.shape (fun id => id = "recheck") [] (pipeline twoChecks roles []) := by
  refine ⟨twoChecks_valid, by decide, ?_⟩
  intro h
  obtain ⟨s, hrun, -, -, hout⟩ := h
  have hs : branchRun (pipeline twoChecks roles []) (outcomes twoChecks.shape fun id => id = "recheck")
      = .ok rescued := by decide
  obtain rfl := Except.ok.inj (hrun.symm.trans hs)
  obtain ⟨-, step, source, ⟨⟨hstep, hreached, hends⟩, -⟩, hanswer, hall⟩ := hout (by decide)
  have hread := hall fun u => .str u.step
  have hdraft : source.step = "draft" := by
    have hfirst : executeOutputNode rescued (fun u => .str u.step) (answerSources twoChecks.shape [])
        = .ok (some (.str "draft")) := by decide
    rw [hfirst] at hread
    simpa using hread.symm
  -- of the steps the run can end at, one is not reached and the other does not answer so
  have hprincipal : ∀ other ∈ twoChecks.shape.steps, "principal" ∈ other.next →
      isGated other = true ∧ decide (other.id = "recheck") = true := by decide
  have hsteps : ∀ other ∈ twoChecks.shape.steps,
      (other.next = [] ∨ isGated other = true ∧ decide (other.id = "recheck") = true) →
        other.id = "principal" ∨
          answerFor twoChecks.shape [] other = some ⟨"escalate", false⟩ := by decide
  rcases hsteps step hstep hends with hid | hescalate
  · rw [hid] at hreached
    rcases hreached.from with hentry | ⟨other, hother, hnext, hopen⟩
    · exact absurd hentry (by decide)
    · obtain ⟨hgated, hpassed⟩ := hprincipal other hother hnext
      rw [hopen hgated] at hpassed
      cases hpassed
  · rw [hescalate] at hanswer
    obtain rfl := some.inj hanswer
    simp at hdraft

end Almyty.Strategies
