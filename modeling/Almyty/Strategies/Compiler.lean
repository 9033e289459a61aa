import Almyty.Lib.Attempt
import Almyty.Lib.JsValue
import Almyty.Workflow.Graph

/-!
# Strategies as pipelines: `agents/strategies/strategy-compiler.ts`

A strategy is a shape over role slots: steps, what each feeds, and where to begin. It is compiled to
a pipeline the engine runs already. A step becomes a node, or `n` nodes behind a parallel step; a
`verify` step that feeds something becomes a check and a condition node (the gate) whose false
handle leads to the failure target and whose true handle to the output; what ends the shape leads to
the output.

The output node is told where the answer is: first what the last step wrote, then, for each check
with a failure path in the order the shape lists them, what that check checked.
-/

namespace Almyty.Strategies

open Almyty.Lib Almyty.Workflow Option

inductive StepKind
  | call | extractContext | verify | merge | parallel
  deriving DecidableEq

structure StrategyStep where
  id : String
  kind : StepKind
  roleSlot : Option String := none
  fallbackSlots : Option (List String) := none
  params : Fields := []
  next : List String := []
  deriving DecidableEq

structure StrategyShape where
  entry : String
  steps : List StrategyStep

structure Strategy where
  key : String
  roleSlots : List String := []
  shape : StrategyShape

abbrev RoleBindings := List (String × String)

/-- `NODE_TYPE`. -/
def nodeType : StepKind → NodeType
  | .call => .llmCall
  | .extractContext => .other "extract_context"
  | .verify => .verify
  | .merge => .merge
  | .parallel => .parallel

inductive StrategyCompileError
  | noSteps (key : String)
  | unknownEntry (key entry : String)
  | unboundSlots (key : String) (missing : List String)
  | badWidth (step : String) (n : Json)
  | nestedFanOut (step target : String)
  | sharedFanOut (step target : String) (parents : List String)
  | unboundSlot (step slot : String)
  | gatedFanOut (step : String)
  | unknownNext (step next : String)
  | failureTargets (step : String) (count : Nat)
  deriving DecidableEq

def StrategyCompileError.message (numberText : Rat → String) : StrategyCompileError → String
  | .noSteps key => "Strategy \"" ++ key ++ "\" has no steps"
  | .unknownEntry key entry =>
    "Strategy \"" ++ key ++ "\" names entry \"" ++ entry ++ "\", which is not one of its steps"
  | .unboundSlots key missing =>
    "Strategy \"" ++ key ++ "\" needs role slots that are not bound: " ++
      ", ".intercalate missing ++
      ". Bind each slot to a role on this agent, or pick a strategy that needs fewer."
  | .badWidth step n =>
    "Step \"" ++ step ++ "\" has n=" ++ n.text numberText ++
      ". A parallel step's n must be a whole number of branches, at least 1."
  | .nestedFanOut step target =>
    "Step \"" ++ step ++ "\" fans out to \"" ++ target ++ "\", which is itself a parallel step. " ++
      "Nested fan-out is not compiled; give the inner step its own n instead."
  | .sharedFanOut step target parents =>
    "Step \"" ++ step ++ "\" fans out to \"" ++ target ++ "\", but \"" ++ target ++
      "\" is also reached from " ++ ", ".intercalate (parents.map fun s => "\"" ++ s ++ "\"") ++
      ". A replicated step must have one parent, " ++
      "otherwise there is no telling which copy the other parent feeds."
  | .unboundSlot step slot =>
    "Step \"" ++ step ++ "\" uses slot \"" ++ slot ++ "\", which is not bound"
  | .gatedFanOut step =>
    "Step \"" ++ step ++ "\" is a verify step with a failure path, and it is also replicated by " ++
      "a fan-out. A gated check compiles to one branch per check; fan out before the check or " ++
      "after it, not across it."
  | .unknownNext step next =>
    "Step \"" ++ step ++ "\" points at \"" ++ next ++ "\", which is not one of the strategy's steps"
  | .failureTargets step count =>
    "Step \"" ++ step ++ "\" is a verify step with " ++ toString count ++ " failure targets. " ++
      "A check branches two ways — passed, or failed — so it needs exactly one step to escalate to."

namespace StrategyShape

def ids (shape : StrategyShape) : List String := shape.steps.map (·.id)

def byId (shape : StrategyShape) (id : String) : Option StrategyStep :=
  shape.steps.reverse.find? (·.id = id)

end StrategyShape

/-! ## Fan-out -/

/-- How many branches a parallel step asks for; one when it does not say. -/
def width (step : StrategyStep) : Except StrategyCompileError Nat :=
  match step.params.lookup "n" with
  | none => .ok 1
  | some (.num n) =>
    if n.den = 1 ∧ 1 ≤ n then .ok n.num.toNat else .error (.badWidth step.id (.num n))
  | some n => .error (.badWidth step.id n)

def fanOutTarget (shape : StrategyShape) (step : StrategyStep) (n : Nat)
    (fanOut : List (String × Nat)) (target : String) :
    Except StrategyCompileError (List (String × Nat)) :=
  match shape.byId target with
  | none => .ok fanOut
  | some t =>
    if t.kind = .parallel then .error (.nestedFanOut step.id target)
    else
      let otherParents := shape.steps.filter fun s => s.id ≠ step.id ∧ target ∈ s.next
      if otherParents = [] then .ok (Assoc.put fanOut target n)
      else .error (.sharedFanOut step.id target (otherParents.map (·.id)))

def fanOutStep (shape : StrategyShape) (fanOut : List (String × Nat)) (step : StrategyStep) :
    Except StrategyCompileError (List (String × Nat)) :=
  if step.kind = .parallel then
    match width step with
    | .error e => .error e
    | .ok n =>
      if n = 1 then .ok fanOut else step.next.foldlM (fanOutTarget shape step n) fanOut
  else .ok fanOut

/-- The steps that are replicated, and how often. -/
def fanOutOf (shape : StrategyShape) : Except StrategyCompileError (List (String × Nat)) :=
  shape.steps.foldlM (fanOutStep shape) []

def idsFor (fanOut : List (String × Nat)) (stepId : String) : List String :=
  match fanOut.lookup stepId with
  | none => [stepId]
  | some n => (List.range n).map fun k => stepId ++ "#" ++ toString (k + 1)

/-! ## Nodes -/

def gateIdFor (verifyNodeId : String) : String := verifyNodeId ++ "__gate"

/-- A check with a failure path. -/
def isGated (step : StrategyStep) : Bool := step.kind = .verify && !step.next.isEmpty

/-- `/^[A-Za-z0-9_-]+$/`. -/
def pathSafe (id : String) : Bool :=
  !id.toList.isEmpty && id.toList.all fun c => c.isAlphanum || c = '_' || c = '-'

def callPromptFor (shape : StrategyShape) (fanOut : List (String × Nat)) (step : StrategyStep) :
    String :=
  let upstream := ((shape.steps.filter fun s => s.kind ≠ .parallel ∧ step.id ∈ s.next).flatMap
    fun s => idsFor fanOut s.id).filter (pathSafe ·)
  if upstream = [] then "\x7b\x7binput.message\x7d\x7d"
  else "\n".intercalate (["\x7b\x7binput.message\x7d\x7d", "", "Earlier steps produced:"] ++
    upstream.map fun id => "\x7b\x7bnodes." ++ id ++ ".output\x7d\x7d")

def slotRole (bindings : RoleBindings) (step : StrategyStep) : Option String :=
  (step.roleSlot.filter (· ≠ "")).bind fun slot =>
    match bindings.lookup slot with
    | some role => some role
    | none => ((step.fallbackSlots.getD []).filterMap (bindings.lookup ·)).find? (· ≠ "")

def filled (role : Option String) : Bool := role.any (· ≠ "")

def stepData (strategy : Strategy) (bindings : RoleBindings) (fanOut : List (String × Nat))
    (step : StrategyStep) (branch : Nat) : Json :=
  let role := slotRole bindings step
  let roleKey := if filled role then [("roleKey", Json.str (role.getD ""))] else []
  let checkers :=
    if step.kind = .verify ∧ filled role ∧ step.params.lookup "checkers" = none then
      [("checkers", Json.arr [.obj [("name", .str (step.roleSlot.getD "verifier")),
        ("roleKey", .str (role.getD ""))]])]
    else []
  let prompt :=
    if step.kind = .call then
      [("userPromptTemplate", Json.str (callPromptFor strategy.shape fanOut step))]
    else []
  let copy :=
    if (idsFor fanOut step.id).length > 1 then [("strategyBranch", Json.num (branch + 1))] else []
  .obj (Js.assignAll (Js.assignAll (roleKey ++ checkers ++ prompt) step.params)
    ([("strategyKey", .str strategy.key), ("strategyStep", .str step.id)] ++ copy))

/-- The check's verdict, as the gate's expression names it. -/
def passedPath (id : String) : String := "nodes." ++ id ++ ".output.passed"

def gateNode (strategy : Strategy) (step : StrategyStep) (id : String) : AgentPipelineNode :=
  { id := gateIdFor id, type := .condition,
    data := some (.obj [
      ("expression", .str ("\x7b\x7b" ++ passedPath id ++ "\x7d\x7d == true")),
      ("strategyKey", .str strategy.key), ("strategyStep", .str step.id),
      ("strategyGate", .bool true)]) }

def stepNodes (strategy : Strategy) (bindings : RoleBindings) (fanOut : List (String × Nat))
    (step : StrategyStep) : List AgentPipelineNode :=
  (idsFor fanOut step.id).zipIdx.flatMap fun (id, branch) =>
    { id, type := nodeType step.kind,
      data := some (stepData strategy bindings fanOut step branch) } ::
      if isGated step then [gateNode strategy step id] else []

/-! ## The answer -/

structure Source where
  step : String
  consensus : Bool := false
  deriving DecidableEq

def Source.path (source : Source) : String :=
  "nodes." ++ source.step ++ ".output" ++ if source.consensus then ".answer" else ""

def answerOf (shape : StrategyShape) (fanOut : List (String × Nat)) :
    Nat → List String → StrategyStep → Option Source
  | 0, _, _ => none
  | fuel + 1, seen, step =>
    if step.id ∈ seen then none
    else if step.kind = .verify then
      match shape.steps.filter fun s => s.kind ≠ .parallel ∧ step.id ∈ s.next with
      | [checked] => answerOf shape fanOut fuel (step.id :: seen) checked
      | _ => none
    else if step.kind = .parallel ∨ (idsFor fanOut step.id).length ≠ 1 ∨ pathSafe step.id = false then
      none
    else
      some ⟨step.id, step.kind = .merge ∧ step.params.lookup "strategy" = some (.str "consensus")⟩

def answerFor (shape : StrategyShape) (fanOut : List (String × Nat)) (step : StrategyStep) :
    Option Source := answerOf shape fanOut (shape.steps.length + 1) [] step

def leaves (shape : StrategyShape) : List StrategyStep := shape.steps.filter (·.next.isEmpty)

def answering (shape : StrategyShape) : List StrategyStep :=
  match leaves shape with
  | [leaf] => leaf :: shape.steps.filter (isGated ·)
  | _ => []

def distinct (sources : List Source) : List Source :=
  sources.foldl (fun acc source => if source ∈ acc then acc else acc ++ [source]) []

def answerSources (shape : StrategyShape) (fanOut : List (String × Nat)) : List Source :=
  match (answering shape).mapM (answerFor shape fanOut) with
  | some sources => distinct sources
  | none => []

def outputNode (strategy : Strategy) (fanOut : List (String × Nat)) : AgentPipelineNode :=
  { id := "output", type := .output,
    data := match answerSources strategy.shape fanOut with
      | [] => none
      | [source] => some (.obj [("source", .str source.path), ("strategyKey", .str strategy.key)])
      | sources => some (.obj [("source", .arr (sources.map fun source => .str source.path)),
          ("strategyKey", .str strategy.key)]) }

/-! ## Edges -/

def stepEdges (fanOut : List (String × Nat)) (step : StrategyStep) : List AgentPipelineEdge :=
  if isGated step then
    match step.next.flatMap (idsFor fanOut) with
    | target :: _ => (idsFor fanOut step.id).flatMap fun source =>
        [⟨source, gateIdFor source, none, none⟩,
          ⟨gateIdFor source, target, some "false", some "check failed"⟩,
          ⟨gateIdFor source, "output", some "true", some "check passed"⟩]
    | [] => []
  else
    step.next.flatMap fun next => (idsFor fanOut step.id).flatMap fun source =>
      (idsFor fanOut next).map fun target => ⟨source, target, none, none⟩

/-- Anything that feeds nothing feeds the output. -/
def leafEdges (shape : StrategyShape) (fanOut : List (String × Nat)) : List AgentPipelineEdge :=
  let hasNext := (shape.steps.filter (!·.next.isEmpty)).map (·.id)
  (shape.steps.filter (·.id ∉ hasNext)).flatMap fun step =>
    (idsFor fanOut step.id).map fun source => ⟨source, "output", none, none⟩

/-! ## The compiler -/

def checkNode (bindings : RoleBindings) (fanOut : List (String × Nat)) (step : StrategyStep) :
    Except StrategyCompileError Unit :=
  if step.roleSlot.any (· ≠ "") ∧ filled (slotRole bindings step) = false ∧
      step.fallbackSlots = none then
    .error (.unboundSlot step.id (step.roleSlot.getD ""))
  else if isGated step ∧ (idsFor fanOut step.id).length > 1 then .error (.gatedFanOut step.id)
  else .ok ()

def checkEdges (shape : StrategyShape) (fanOut : List (String × Nat)) (step : StrategyStep) :
    Except StrategyCompileError Unit :=
  match step.next.find? fun next => (shape.byId next).isNone with
  | some next => .error (.unknownNext step.id next)
  | none =>
    let failTargets := step.next.flatMap (idsFor fanOut)
    if isGated step ∧ failTargets.length ≠ 1 then
      .error (.failureTargets step.id failTargets.length)
    else .ok ()

def pipeline (strategy : Strategy) (bindings : RoleBindings) (fanOut : List (String × Nat)) :
    AgentPipeline :=
  let shape := strategy.shape
  { nodes := { id := "input", type := .input } ::
      shape.steps.flatMap (stepNodes strategy bindings fanOut) ++ [outputNode strategy fanOut]
    edges := (idsFor fanOut shape.entry).map (fun id => ⟨"input", id, none, none⟩) ++
      shape.steps.flatMap (stepEdges fanOut) ++ leafEdges shape fanOut }

def checkShape (strategy : Strategy) (bindings : RoleBindings) : Except StrategyCompileError Unit :=
  let shape := strategy.shape
  let missing := strategy.roleSlots.filter fun slot => !filled (bindings.lookup slot)
  if shape.steps = [] then .error (.noSteps strategy.key)
  else if (shape.byId shape.entry).isNone then .error (.unknownEntry strategy.key shape.entry)
  else if missing ≠ [] then .error (.unboundSlots strategy.key missing)
  else .ok ()

def compileStrategy (strategy : Strategy) (bindings : RoleBindings) :
    Except StrategyCompileError AgentPipeline := do
  checkShape strategy bindings
  let fanOut ← fanOutOf strategy.shape
  strategy.shape.steps.forM (checkNode bindings fanOut)
  strategy.shape.steps.forM (checkEdges strategy.shape fanOut)
  return pipeline strategy bindings fanOut

/-! ## What the checks leave -/

structure Compiled (shape : StrategyShape) (fanOut : List (String × Nat)) : Prop where
  entry_mem : shape.entry ∈ shape.ids
  replicated : ∀ id n, fanOut.lookup id = some n → 2 ≤ n
  next_mem : ∀ step ∈ shape.steps, ∀ next ∈ step.next, next ∈ shape.ids
  gated : ∀ step ∈ shape.steps, isGated step = true → fanOut.lookup step.id = none
  failure : ∀ step ∈ shape.steps, isGated step = true →
    ∃ target, step.next = [target] ∧ fanOut.lookup target = none

variable {shape : StrategyShape} {fanOut : List (String × Nat)}

theorem StrategyShape.byId_isSome {id : String} : (shape.byId id).isSome ↔ id ∈ shape.ids := by
  simp [StrategyShape.byId, StrategyShape.ids, List.find?_isSome]

variable {step : StrategyStep}

theorem one_le_width {n : Nat} (h : width step = .ok n) : 1 ≤ n := by
  unfold width at h
  split at h
  · obtain rfl := Except.ok.inj h
    omega
  next r _ =>
    split at h
    next hr =>
      obtain rfl := Except.ok.inj h
      have : (1 : Int) ≤ r.num := by
        have hden : r = (r.num : Rat) := (Rat.den_eq_one_iff r).mp hr.1 |>.symm
        have hle := hr.2
        rw [hden] at hle
        exact_mod_cast hle
      omega
    · cases h
  · cases h

theorem two_le_of_fanOutOf (h : fanOutOf shape = .ok fanOut) :
    ∀ id n, fanOut.lookup id = some n → 2 ≤ n := by
  refine Attempt.foldlM_ok (fun f => ∀ id n, f.lookup id = some n → 2 ≤ n) ?_ ?_ h
  · intro step _ f f' hf hstep
    unfold fanOutStep at hstep
    split at hstep
    · split at hstep
      · cases hstep
      next n hn =>
        have hpos := one_le_width hn
        split at hstep
        · exact Except.ok.inj hstep ▸ hf
        next hne =>
          refine Attempt.foldlM_ok (fun f => ∀ id n, f.lookup id = some n → 2 ≤ n) ?_ hf hstep
          intro target _ g g' hg htarget
          unfold fanOutTarget at htarget
          split at htarget
          · exact Except.ok.inj htarget ▸ hg
          · split at htarget
            · cases htarget
            · dsimp only at htarget
              split at htarget
              · obtain rfl := Except.ok.inj htarget
                intro id m hm
                rw [Assoc.lookup_put] at hm
                split at hm
                · obtain rfl := some.inj hm
                  omega
                · exact hg id m hm
              · cases htarget
    · exact Except.ok.inj hstep ▸ hf
  · intro id n hn
    cases hn

theorem idsFor_of_none {id : String} (h : fanOut.lookup id = none) : idsFor fanOut id = [id] := by
  simp [idsFor, h]

theorem lookup_none_of_length (h : ∀ id n, fanOut.lookup id = some n → 2 ≤ n) {id : String}
    (hlen : (idsFor fanOut id).length ≤ 1) : fanOut.lookup id = none := by
  cases hl : fanOut.lookup id with
  | none => rfl
  | some n =>
    have := h id n hl
    simp [idsFor, hl] at hlen
    omega

theorem idsFor_length_pos (h : ∀ id n, fanOut.lookup id = some n → 2 ≤ n) (id : String) :
    0 < (idsFor fanOut id).length := by
  cases hl : fanOut.lookup id with
  | none => simp [idsFor, hl]
  | some n =>
    have := h id n hl
    simp [idsFor, hl]
    omega

theorem failure_of_length (h : ∀ id n, fanOut.lookup id = some n → 2 ≤ n) {next : List String}
    (hlen : (next.flatMap (idsFor fanOut)).length = 1) :
    ∃ target, next = [target] ∧ fanOut.lookup target = none := by
  match next with
  | [] => simp at hlen
  | [target] =>
    refine ⟨target, rfl, lookup_none_of_length h ?_⟩
    simp at hlen
    omega
  | a :: b :: rest =>
    have ha := idsFor_length_pos h a
    have hb := idsFor_length_pos h b
    simp only [List.flatMap_cons, List.length_append] at hlen
    omega

variable {bindings : RoleBindings}

theorem entry_mem_of_checkShape {strategy : Strategy} {u : Unit}
    (h : checkShape strategy bindings = .ok u) : strategy.shape.entry ∈ strategy.shape.ids := by
  unfold checkShape at h
  dsimp only at h
  split at h
  · cases h
  · split at h
    · cases h
    next hentry => exact StrategyShape.byId_isSome.mp (by simpa [isSome_iff_ne_none] using hentry)

theorem gated_of_checkNode (hrep : ∀ id n, fanOut.lookup id = some n → 2 ≤ n)
    (h : checkNode bindings fanOut step = .ok ()) (hgated : isGated step = true) :
    fanOut.lookup step.id = none := by
  unfold checkNode at h
  split at h
  · cases h
  · split at h
    · cases h
    next hone =>
      apply lookup_none_of_length hrep
      by_contra hmany
      exact hone ⟨hgated, by omega⟩

theorem next_mem_of_checkEdges (h : checkEdges shape fanOut step = .ok ()) :
    ∀ next ∈ step.next, next ∈ shape.ids := by
  intro next hnext
  unfold checkEdges at h
  split at h
  · cases h
  next hall =>
    have hknown := List.find?_eq_none.mp hall next hnext
    exact StrategyShape.byId_isSome.mp (by simpa [isSome_iff_ne_none] using hknown)

theorem failure_of_checkEdges (hrep : ∀ id n, fanOut.lookup id = some n → 2 ≤ n)
    (h : checkEdges shape fanOut step = .ok ()) (hgated : isGated step = true) :
    ∃ target, step.next = [target] ∧ fanOut.lookup target = none := by
  unfold checkEdges at h
  split at h
  · cases h
  · dsimp only at h
    split at h
    · cases h
    next hone =>
      apply failure_of_length hrep
      by_contra hmany
      exact hone ⟨hgated, hmany⟩

theorem compiled_of_ok {strategy : Strategy} {p : AgentPipeline}
    (h : compileStrategy strategy bindings = .ok p) :
    ∃ fanOut, fanOutOf strategy.shape = .ok fanOut ∧ Compiled strategy.shape fanOut ∧
      p = pipeline strategy bindings fanOut := by
  obtain ⟨u, hshape, h⟩ := Attempt.bind_ok.mp h
  obtain ⟨fanOut, hfan, h⟩ := Attempt.bind_ok.mp h
  obtain ⟨u', hnodes, h⟩ := Attempt.bind_ok.mp h
  obtain ⟨u'', hedges, h⟩ := Attempt.bind_ok.mp h
  have hrep := two_le_of_fanOutOf hfan
  rw [Attempt.forM_ok] at hnodes hedges
  refine ⟨fanOut, hfan, ⟨entry_mem_of_checkShape hshape, hrep, ?_, ?_, ?_⟩, ?_⟩
  · exact fun step hstep => next_mem_of_checkEdges (hedges step hstep)
  · exact fun step hstep => gated_of_checkNode hrep (hnodes step hstep)
  · exact fun step hstep => failure_of_checkEdges hrep (hedges step hstep)
  · exact (Except.ok.inj h).symm

end Almyty.Strategies
