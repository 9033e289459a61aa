import Almyty.Workflow.Branching

/-!
# What the builder may save: `agent-validation.helper.ts`

`validatePipeline` refuses a pipeline before it is stored: its counts of input and output nodes, its
ids and edges, what each node type needs in its config, cycles, nodes the input does not reach, and
two output nodes that can both run. The last check walks the graph from the input and collects, for
every output, the sets of condition branches under which a walk arrives there; two outputs may stand
together only when every two of their sets disagree about a condition.

The engine prunes by another rule (`Workflow.Branching`): an untaken branch that leads straight into
a join does not keep the join from running. So the check does not decide the question it asks. What
does is `OutputsKeptApart`: every two paths from the input to two different outputs part ways at a
node, on edges the engine does prune, whatever that node's outcome.

Mirroring notes:
- A pipeline whose `nodes` or `edges` are missing is `none`; the type makes them arrays.
-/

namespace Almyty.Workflow

open Almyty.Lib

/-! ## Reading a node's config -/

/-- A property of a JSON object, when it is there. -/
def prop? (value : Json) (key : String) : Option Json := value.fieldsOrEmpty.lookup key

def AgentPipelineNode.configData (node : AgentPipelineNode) : Json :=
  match node.data with
  | some data => if data.truthy then data else node.config.getD (.obj [])
  | none => node.config.getD (.obj [])

def isWhitespace (c : Char) : Bool :=
  c ∈ ['\t', '\n', '\x0b', '\x0c', '\r', ' ', '\u00a0', '\u1680', '\u2028', '\u2029', '\u202f',
    '\u205f', '\u3000', '\ufeff'] || (0x2000 ≤ c.toNat && c.toNat ≤ 0x200a)

def nonEmpty : Option Json → Bool
  | some (.str s) => s.toList.any fun c => !isWhitespace c
  | _ => false

def isTruthy (value : Option Json) : Bool := value.any Json.truthy

mutual

def textOf : Json → String
  | .null => "null"
  | .bool b => toString b
  | .num n => toString n
  | .str s => s
  | .arr items => ",".intercalate (itemTexts items)
  | .obj _ => "[object Object]"

def itemTexts : List Json → List String
  | [] => []
  | .null :: items => "" :: itemTexts items
  | item :: items => textOf item :: itemTexts items

end

def interpolate (value : Option Json) : String := (value.map textOf).getD "undefined"

def quoted (ids : List String) : String := ", ".intercalate (ids.map fun id => s!"'{id}'")

def require (condition : Bool) (message : String) : Except String Unit :=
  if condition then .ok () else .error message

@[simp] theorem require_eq_ok {condition : Bool} {message : String} {u : Unit} :
    require condition message = .ok u ↔ condition = true := by
  cases condition <;> simp [require]

theorem andThen_eq_ok {check : Except String Unit} {rest : Unit → Except String Unit} {u : Unit} :
    (check >>= rest) = .ok u ↔ check = .ok () ∧ rest () = .ok u := by
  cases check <;> simp [bind, Except.bind]

/-! ## A question's options: `validateQuestion` -/

inductive QuestionError
  | refused (message code : String)
  | typeError (message : String)

def questionOptions (question : Json) : List Json :=
  ((prop? question "options").map Json.itemsOrEmpty).getD []

def hasId (seen : List (Option Json)) (id : Option Json) : Bool :=
  seen.any fun s => match s, id with
    | none, none => true
    | some a, some b => a.sameKey b
    | _, _ => false

def checkOptionIds (name : String) : List (Option Json) → List Json → Except QuestionError Unit
  | _, [] => .ok ()
  | _, .null :: _ => .error (.typeError "Cannot read properties of null (reading 'id')")
  | seen, option :: options =>
    let id := prop? option "id"
    if hasId seen id then
      .error (.refused s!"Question \"{name}\" declares option \"{interpolate id}\" twice"
        "DUPLICATE_OPTION_ID")
    else checkOptionIds name (id :: seen) options

def validateQuestion (question : Json) : Except QuestionError Unit :=
  let name := interpolate (prop? question "id")
  let options := questionOptions question
  if prop? question "type" = some (.str "boolean") then
    if options.isEmpty then .ok ()
    else .error (.refused s!"Question \"{name}\" is boolean and cannot declare options"
      "BOOLEAN_HAS_OPTIONS")
  else if options.isEmpty then
    .error (.refused s!"Question \"{name}\" declares no options" "NO_OPTIONS")
  else
    match checkOptionIds name [] options with
    | .error e => .error e
    | .ok () =>
      let abstains := options.filter fun o => prop? o "abstain" = some (.bool true)
      if abstains.isEmpty then
        .error (.refused
          s!"Question \"{name}\" has no abstain option; every choice question needs one"
          "ABSTAIN_MISSING")
      else if 1 < abstains.length then
        .error (.refused
          (s!"Question \"{name}\" marks {abstains.length} options as abstain; " ++
            "exactly one is allowed") "ABSTAIN_AMBIGUOUS")
      else .ok ()

/-! ## Node by node -/

def sortTexts (texts : List String) : List String :=
  texts.insertionSort fun a b => Js.codeUnits a ≤ Js.codeUnits b

def checkCondition (p : AgentPipeline) (node : AgentPipelineNode) : Except String Unit := do
  let outEdges := p.outgoing node.id
  require (outEdges.length = 2)
    s!"Condition node '{node.id}' must have exactly 2 outgoing edges, found {outEdges.length}"
  let handles := sortTexts (outEdges.map (·.handle))
  let hasTrueFalse := (handles.contains "true" && handles.contains "false") ||
    (handles.contains "yes" && handles.contains "no")
  require hasTrueFalse <|
    s!"Condition node '{node.id}' outgoing edges must have sourceHandle 'true'/'false' " ++
      "(or 'yes'/'no'), found: " ++ ", ".intercalate handles
  require (nonEmpty (prop? node.configData "expression"))
    s!"Condition node '{node.id}' must have an 'expression' in config (what it branches on)"

def checkVerify (node : AgentPipelineNode) : Except String Unit := do
  let checkers := ((prop? node.configData "checkers").map Json.itemsOrEmpty).getD []
  require (!checkers.isEmpty)
    s!"Verify node '{node.id}' must have a non-empty 'checkers' array in config"
  checkers.zipIdx.forM fun (checker, i) =>
    require (isTruthy (prop? checker "providerId") || isTruthy (prop? checker "roleKey"))
      s!"Verify node '{node.id}' checker #{i + 1} must have a 'providerId' or a 'roleKey'"
  let policy := prop? node.configData "policy"
  let known := ["all_pass", "majority", "any_fail_blocks"].map (some ∘ Json.str)
  require (!isTruthy policy || known.contains policy) <|
    s!"Verify node '{node.id}' has invalid policy '{interpolate policy}' " ++
      "(expected all_pass | majority | any_fail_blocks)"

def isObject : Option Json → Bool
  | some (.obj _) | some (.arr _) => true
  | _ => false

def declaredIds (node : AgentPipelineNode) : List (Option Json) :=
  (questionOptions ((prop? node.configData "question").getD .null)).map fun option =>
    prop? option "id"

def checkThreshold (node : AgentPipelineNode) (entry : String × Json) : Except String Unit := do
  require ((declaredIds node).contains (some (.str entry.1))) <|
    s!"Decision node '{node.id}' sets a threshold for '{entry.1}', which the " ++
      "question does not declare as an option"
  let isProbability := match entry.2 with
    | .num n => decide (0 ≤ n ∧ n ≤ 1)
    | _ => false
  require isProbability <|
    s!"Decision node '{node.id}' threshold for '{entry.1}' must be a probability " ++
      "between 0 and 1"

def checkDecision (node : AgentPipelineNode) : Except String Unit := do
  let question := prop? node.configData "question"
  require (isObject question) s!"Decision node '{node.id}' must have a 'question' in config"
  match validateQuestion (question.getD .null) with
  | .ok () => pure ()
  | .error (.refused message code) => .error s!"Decision node '{node.id}': {message} ({code})"
  | .error (.typeError message) => .error message
  require (prop? (question.getD .null) "type" ≠ some (.str "boolean")) <|
    s!"Decision node '{node.id}' asks a boolean question, which declares no options and " ++
      "so no abstain edge for a below-threshold answer. Ask it as a choice question " ++
      "with an explicit abstain option."
  match prop? node.configData "thresholds" with
  | none => pure ()
  | some thresholds => do
    require thresholds.isPlainObject
      s!"Decision node '{node.id}' thresholds must be an object of option id to number"
    thresholds.fieldsOrEmpty.forM (checkThreshold node)

def checkNode (p : AgentPipeline) (agentId : Option String) (node : AgentPipelineNode) :
    Except String Unit :=
  let data := node.configData
  match node.type with
  | .condition => checkCondition p node
  | .merge =>
    require (2 ≤ (p.incoming node.id).length) <|
      s!"Merge node '{node.id}' must have at least 2 incoming edges, " ++
        s!"found {(p.incoming node.id).length}"
  | .parallel =>
    require (2 ≤ (p.outgoing node.id).length) <|
      s!"Parallel node '{node.id}' should have at least 2 outgoing edges, " ++
        s!"found {(p.outgoing node.id).length}"
  | .subAgent => do
    require (isTruthy (prop? data "agentId"))
      s!"Sub-agent node '{node.id}' must have 'agentId' in config"
    require (!(agentId.any fun a => a ≠ "" && prop? data "agentId" = some (.str a)))
      s!"Sub-agent node '{node.id}' cannot reference the same agent (self-recursion)"
  | .toolCall =>
    require (isTruthy (prop? data "toolId"))
      s!"Tool call node '{node.id}' must have 'toolId' in config"
  | .llmCall =>
    require (nonEmpty (prop? data "userPromptTemplate") || nonEmpty (prop? data "userPrompt"))
      s!"LLM call node '{node.id}' must have a 'userPromptTemplate' (the prompt it sends)"
  | .transform =>
    require (nonEmpty (prop? data "expression"))
      s!"Transform node '{node.id}' must have an 'expression' in config"
  | .code =>
    require (nonEmpty (prop? data "code"))
      s!"Code step '{node.id}' must have a script ('code' in config)"
  | .loop =>
    require (nonEmpty (prop? data "iterableExpression"))
      s!"Loop node '{node.id}' must have an 'iterableExpression' in config (the array to iterate)"
  | .verify => checkVerify node
  | .decision => checkDecision node
  | .input | .output | .other _ => .ok ()

/-! ## The graph -/

def AgentPipeline.ofType (p : AgentPipeline) (type : NodeType) : List AgentPipelineNode :=
  p.nodes.filter (·.type = type)

/-- The ids used more than once, in the order they come up again. -/
def duplicateIds : List String → List String → List String → List String
  | [], _, duplicates => duplicates
  | id :: ids, seen, duplicates =>
    duplicateIds ids (id :: seen)
      (if id ∈ seen ∧ id ∉ duplicates then duplicates ++ [id] else duplicates)

def checkIds (p : AgentPipeline) : Except String Unit :=
  let duplicates := duplicateIds p.ids [] []
  let used := if duplicates.length = 1 then "is used" else "are used"
  require (decide p.ids.Nodup)
    s!"Pipeline node IDs must be unique, but {quoted duplicates} {used} more than once."

def checkEdge (p : AgentPipeline) (edge : AgentPipelineEdge) : Except String Unit := do
  require (edge.source ∈ p.ids)
    s!"Edge source '{edge.source}' does not reference an existing node"
  require (edge.target ∈ p.ids)
    s!"Edge target '{edge.target}' does not reference an existing node"

/-- Nodes without an edge back into the remainder go, one after the other. -/
def peelOnce (p : AgentPipeline) (remaining : List String) : List String :=
  remaining.foldl
    (fun left id => if (p.adjacency id).any (· ∈ left) then left else left.filter (· ≠ id))
    remaining

def peel (p : AgentPipeline) : Nat → List String → List String
  | 0, remaining => remaining
  | fuel + 1, remaining =>
    let left := peelOnce p remaining
    if left.length = remaining.length then left else peel p fuel left

def checkForCycles (p : AgentPipeline) : Except String Unit :=
  let queue := p.ids.filter fun id => p.inDegree id = 0
  let sorted := Kahn.sortFrom p.adjacency (p.nodes.length + p.edges.length + 1) p.inDegree queue
  let remaining := peel p p.nodes.length (p.ids.filter (· ∉ sorted))
  require (sorted.length = p.nodes.length) <|
    s!"Pipeline contains a cycle through node(s) {quoted (p.ids.filter (· ∈ remaining))}. " ++
      "A pipeline runs each node once, in dependency order, so it cannot contain a loop back to " ++
      "an earlier node — remove one of the edges between them."

/-- The nodes a depth-first search takes up; the stack's top is its head. -/
def visitFrom (p : AgentPipeline) : Nat → List String → List String → List String
  | 0, _, visited => visited
  | _ + 1, [], visited => visited
  | fuel + 1, id :: stack, visited =>
    if id ∈ visited then visitFrom p fuel stack visited
    else visitFrom p fuel ((p.adjacency id).reverse ++ stack) (id :: visited)

def checkOutputReachable (p : AgentPipeline) (inputId : String)
    (outputNodes : List AgentPipelineNode) : Except String Unit := do
  let visited := visitFrom p (p.edges.length + 2) [inputId] []
  require (outputNodes.any (·.id ∈ visited)) <|
    s!"Pipeline output node(s) {quoted (outputNodes.map (·.id))} are not reachable " ++
      s!"from the input node '{inputId}'. Connect them with an edge."
  let unreachable := p.ids.filter (· ∉ visited)
  require unreachable.isEmpty <|
    s!"Node(s) {quoted unreachable} are not reachable from the input " ++
      s!"node '{inputId}'. Connect them with an edge, or delete them — an unconnected node " ++
      "still runs, in the first layer, before anything else."

/-! ## Outputs that collide -/

/-- The branch taken at each condition on a walk. -/
abbrev Decisions := List (String × String)

def branchOf (edge : AgentPipelineEdge) : Option String :=
  if isTrueBranch edge.handle then some "true"
  else if isFalseBranch edge.handle then some "false"
  else none

structure Walk where
  steps : Nat := 0
  seen : List String := []
  decisionsFor : List (String × List Decisions) := []

def maxSteps : Nat := 5000

section

variable (localeCompare : String → String → Ordering)

def walkKey (id : String) (decisions : Decisions) : String :=
  let entries := decisions.insertionSort fun a b => localeCompare a.1 b.1 ≠ .gt
  id ++ "|" ++ ",".intercalate (entries.map fun (k, v) => s!"{k}={v}")

def walk (p : AgentPipeline) : Nat → String → Decisions → Walk → Walk
  | 0, _, _, w => w
  | fuel + 1, id, decisions, w =>
    let w := { w with steps := w.steps + 1 }
    let key := walkKey localeCompare id decisions
    if maxSteps < w.steps then w
    else if key ∈ w.seen then w
    else
      let w := { w with seen := key :: w.seen }
      let type := (p.node id).map AgentPipelineNode.type
      if type = some .output then
        let paths := (w.decisionsFor.lookup id).getD []
        { w with decisionsFor := Assoc.put w.decisionsFor id (paths ++ [decisions]) }
      else
        (p.outgoing id).foldl
          (fun w edge =>
            match if type = some .condition then branchOf edge else none with
            | none => walk p fuel edge.target decisions w
            | some branch => walk p fuel edge.target (Assoc.put decisions id branch) w)
          w

def canHoldTogether (a b : Decisions) : Bool :=
  a.all fun (condition, branch) => (b.lookup condition).all (· = branch)

def pairsOf {α : Type} : List α → List (α × α)
  | [] => []
  | x :: xs => xs.map (x, ·) ++ pairsOf xs

def checkOutputsCannotCollide (p : AgentPipeline) (inputId : String)
    (outputNodes : List AgentPipelineNode) : Except String Unit :=
  if outputNodes.length < 2 then .ok ()
  else
    let w := walk localeCompare p (maxSteps + 1) inputId [] {}
    let decisionsFor := fun (node : AgentPipelineNode) => (w.decisionsFor.lookup node.id).getD []
    let collide := fun (pair : AgentPipelineNode × AgentPipelineNode) =>
      (decisionsFor pair.1).any fun a => (decisionsFor pair.2).any (canHoldTogether a)
    match (pairsOf outputNodes).find? collide with
    | none => .ok ()
    | some (left, right) =>
      .error <| s!"Output nodes '{left.id}' and '{right.id}' can both run in " ++
        "the same execution, so which one becomes the run's answer depends on the " ++
        "order the nodes happen to be stored in. Put them on opposite branches of a " ++
        "condition, or merge them into a single output node."

def AgentPipeline.inputId (p : AgentPipeline) : String :=
  ((p.ofType .input).head?.map (·.id)).getD ""

def validatePipeline (pipeline : Option AgentPipeline) (agentId : Option String) :
    Except String Unit :=
  match pipeline with
  | none => .error "Pipeline must have nodes and edges arrays"
  | some p => do
    let inputNodes := p.ofType .input
    let outputNodes := p.ofType .output
    require (inputNodes.length = 1)
      s!"Pipeline must have exactly 1 input node, found {inputNodes.length}"
    require (1 ≤ outputNodes.length) "Pipeline must have at least 1 output node"
    checkIds p
    p.edges.forM (checkEdge p)
    p.nodes.forM (checkNode p agentId)
    checkForCycles p
    checkOutputReachable p p.inputId outputNodes
    checkOutputsCannotCollide localeCompare p p.inputId outputNodes

end

end Almyty.Workflow
