import Almyty.Lib.Steps
import Almyty.Workflow.Validation

/-!
# The tool-call budget of a run: `agent-node-executor.ts`

A run's nodes share one counter, `context.toolCalls`, and `maxToolCalls` is its ceiling. A tool_call
node checks it and counts itself before it calls its tool. A code node checks it and counts itself
too, and hands its script what is left of the budget at that moment; what the script used is added
when the script is back. So a script's allowance is nowhere on the counter while it runs: the next
node of the layer is let in against it, and a script that throws never reports its calls.

`ToolRun` is a run seen from the counter: the layer that is running, the scripts that are out with
their allowance, and the calls made so far, which no transition reads. An action is one stretch of
code without an `await` in it, so a run of actions is any interleaving of the nodes of the layers.
`within_budget` says in which runs the ceiling holds.

Mirroring notes:
- A script reports every call it made.
- `carryOn` is the whole trip of a run that waited for an approval: the counter is kept on the row
  and a new context starts from it.
-/

namespace Almyty.Workflow

open Almyty.Lib Almyty.Lib.Steps

/-! ## Nodes and scripts -/

inductive ToolStep
  | toolCall
  | code

def toolStep (codeMode : Bool) (node : AgentPipelineNode) : Option ToolStep :=
  match node.type with
  | .toolCall => if isTruthy (prop? node.configData "toolId") then some .toolCall else none
  | .code => if nonEmpty (prop? node.configData "code") && codeMode then some .code else none
  | _ => none

structure Script where
  node : String
  maxCalls : Nat
  calls : Nat := 0
  deriving DecidableEq

structure ToolRun where
  /-- The layers to come. -/
  later : List (List String)
  /-- The nodes of the running layer that have not started. -/
  layer : List String
  /-- `context.toolCalls.count`. -/
  count : Nat
  scripts : List Script
  /-- Every tool call the run made. -/
  made : Nat

inductive ToolAction
  | start (node : String)
  | scriptCall (node : String)
  | scriptReturns (node : String)
  | scriptThrows (node : String)
  | nextLayer
  | carryOn

def ToolRun.script (s : ToolRun) (node : String) : Option Script :=
  s.scripts.find? (·.node = node)

section

variable (codeMode : Bool) (maxToolCalls : Nat) (p : AgentPipeline)

/-- What a node of the running layer asks, when it gets past the check of the
budget. -/
def ToolRun.letIn (s : ToolRun) (node : String) : Option ToolStep :=
  if node ∈ s.layer ∧ s.count < maxToolCalls then
    (p.node node).bind (toolStep codeMode)
  else none

/-- The budget check of a node, up to the call it then awaits. -/
def ToolRun.start (s : ToolRun) (node : String) : ToolRun :=
  match s.letIn codeMode maxToolCalls p node with
  | none => { s with layer := s.layer.erase node }
  | some .toolCall =>
    { s with layer := s.layer.erase node, count := s.count + 1, made := s.made + 1 }
  | some .code =>
    { s with
      layer := s.layer.erase node
      count := s.count + 1
      scripts := ⟨node, maxToolCalls - (s.count + 1), 0⟩ :: s.scripts
      made := s.made + 1 }

def ToolRun.scriptCall (s : ToolRun) (node : String) : ToolRun :=
  match s.script node with
  | none => s
  | some script =>
    if script.calls < script.maxCalls then
      { s with
        scripts := { script with calls := script.calls + 1 } :: s.scripts.erase script
        made := s.made + 1 }
    else s

def ToolRun.scriptReturns (s : ToolRun) (node : String) : ToolRun :=
  match s.script node with
  | none => s
  | some script =>
    { s with scripts := s.scripts.erase script, count := s.count + script.calls }

def ToolRun.scriptThrows (s : ToolRun) (node : String) : ToolRun :=
  match s.script node with
  | none => s
  | some script => { s with scripts := s.scripts.erase script }

def layersOf : List (List String) :=
  match computeLayers p with
  | .ok layers => layers
  | .error _ => []

def ToolRun.nextLayer (s : ToolRun) : ToolRun :=
  match s.scripts, s.later with
  | [], layer :: later => { s with layer, later }
  | _, _ => s

def restored (kept : Nat) : Nat := if kept ≠ 0 then kept else 0

def ToolRun.carryOn (s : ToolRun) : ToolRun :=
  match s.scripts with
  | [] => { s with layer := [], later := layersOf p, count := restored s.count }
  | _ => s

def ToolRun.step (s : ToolRun) : ToolAction → ToolRun
  | .start node => s.start codeMode maxToolCalls p node
  | .scriptCall node => s.scriptCall node
  | .scriptReturns node => s.scriptReturns node
  | .scriptThrows node => s.scriptThrows node
  | .nextLayer => s.nextLayer
  | .carryOn => s.carryOn p

def ToolRun.begin : ToolRun :=
  { later := layersOf p, layer := [], count := 0, scripts := [], made := 0 }

def Accounted (s : ToolRun) : ToolAction → Prop
  | .start node =>
    (s.letIn codeMode maxToolCalls p node).isSome → ∀ script ∈ s.scripts, script.maxCalls = 0
  | .scriptThrows node => ∀ script ∈ s.script node, script.calls = 0
  | _ => True

instance (s : ToolRun) : (a : ToolAction) → Decidable (Accounted codeMode maxToolCalls p s a)
  | .start _ => inferInstanceAs (Decidable (_ → ∀ script ∈ s.scripts, script.maxCalls = 0))
  | .scriptThrows node => inferInstanceAs (Decidable (∀ script ∈ s.script node, script.calls = 0))
  | .scriptCall _ | .scriptReturns _ | .nextLayer | .carryOn => isTrue trivial

end

/-! ## The ceiling -/

def callsOf (scripts : List Script) : Nat := (scripts.map (·.calls)).sum

def allowanceOf (scripts : List Script) : Nat := (scripts.map (·.maxCalls)).sum

theorem callsOf_cons (script : Script) (scripts : List Script) :
    callsOf (script :: scripts) = script.calls + callsOf scripts := List.sum_cons

theorem allowanceOf_cons (script : Script) (scripts : List Script) :
    allowanceOf (script :: scripts) = script.maxCalls + allowanceOf scripts := List.sum_cons

variable {scripts : List Script}

theorem callsOf_erase {script : Script} (h : script ∈ scripts) :
    callsOf scripts = script.calls + callsOf (scripts.erase script) := by
  rw [← callsOf_cons]
  exact ((List.perm_cons_erase h).map _).sum_eq

theorem allowanceOf_erase {script : Script} (h : script ∈ scripts) :
    allowanceOf scripts = script.maxCalls + allowanceOf (scripts.erase script) := by
  rw [← allowanceOf_cons]
  exact ((List.perm_cons_erase h).map _).sum_eq

theorem allowanceOf_eq_zero (h : ∀ script ∈ scripts, script.maxCalls = 0) :
    allowanceOf scripts = 0 := by
  induction scripts with
  | nil => rfl
  | cons script scripts ih =>
    rw [allowanceOf_cons, h script (by simp), ih fun x hx => h x (by simp [hx])]

theorem callsOf_le_allowanceOf (h : ∀ script ∈ scripts, script.calls ≤ script.maxCalls) :
    callsOf scripts ≤ allowanceOf scripts := by
  induction scripts with
  | nil => exact Nat.le_refl _
  | cons script scripts ih =>
    have hhead := h script (by simp)
    have htail := ih fun x hx => h x (by simp [hx])
    rw [callsOf_cons, allowanceOf_cons]
    omega

structure ToolRun.Covered (maxToolCalls : Nat) (s : ToolRun) : Prop where
  made : s.made = s.count + callsOf s.scripts
  allowed : s.count + allowanceOf s.scripts ≤ maxToolCalls
  within : ∀ script ∈ s.scripts, script.calls ≤ script.maxCalls

section

variable {codeMode : Bool} {maxToolCalls : Nat} {p : AgentPipeline} {s : ToolRun}

variable {node : String}

theorem ToolRun.mem_of_script {script : Script} (h : s.script node = some script) :
    script ∈ s.scripts := List.mem_of_find?_eq_some h

theorem covered_begin : (ToolRun.begin p).Covered maxToolCalls :=
  ⟨rfl, Nat.zero_le _, nofun⟩

theorem letIn_lt {asked : ToolStep} (h : s.letIn codeMode maxToolCalls p node = some asked) :
    s.count < maxToolCalls := by
  unfold ToolRun.letIn at h
  split at h
  · next hin => exact hin.2
  · cases h

theorem ToolRun.Covered.start (h : s.Covered maxToolCalls)
    (hfit : Accounted codeMode maxToolCalls p s (.start node)) :
    (s.start codeMode maxToolCalls p node).Covered maxToolCalls := by
  unfold ToolRun.start
  cases hin : s.letIn codeMode maxToolCalls p node with
  | none => exact ⟨h.made, h.allowed, h.within⟩
  | some asked =>
    have hlt := letIn_lt hin
    have hmade := h.made
    -- nothing is out, so the counter alone is what the budget has to cover
    have hnone : allowanceOf s.scripts = 0 := allowanceOf_eq_zero (hfit (by rw [hin]; rfl))
    cases asked with
    | toolCall =>
      refine ⟨?_, ?_, h.within⟩
      · show s.made + 1 = s.count + 1 + callsOf s.scripts
        omega
      · show s.count + 1 + allowanceOf s.scripts ≤ maxToolCalls
        omega
    | code =>
      refine ⟨?_, ?_, ?_⟩
      · show s.made + 1 = s.count + 1 + callsOf (_ :: s.scripts)
        rw [callsOf_cons]
        dsimp only
        omega
      · show s.count + 1 + allowanceOf (_ :: s.scripts) ≤ maxToolCalls
        rw [allowanceOf_cons]
        dsimp only
        omega
      · intro script hmem
        rcases List.mem_cons.mp hmem with rfl | hmem
        · exact Nat.zero_le _
        · exact h.within script hmem

theorem ToolRun.Covered.scriptCall (h : s.Covered maxToolCalls) (node : String) :
    (s.scriptCall node).Covered maxToolCalls := by
  unfold ToolRun.scriptCall
  split
  next => exact h
  next script hs =>
    have hmem := ToolRun.mem_of_script hs
    have hmade := h.made
    have hallowed := h.allowed
    rw [callsOf_erase hmem] at hmade
    rw [allowanceOf_erase hmem] at hallowed
    split
    next hlt =>
      refine ⟨?_, ?_, ?_⟩
      · show s.made + 1 = s.count + callsOf (_ :: s.scripts.erase script)
        rw [callsOf_cons]
        dsimp only
        omega
      · show s.count + allowanceOf (_ :: s.scripts.erase script) ≤ maxToolCalls
        rw [allowanceOf_cons]
        dsimp only
        omega
      · intro other hother
        rcases List.mem_cons.mp hother with rfl | hother
        · exact hlt
        · exact h.within other (List.mem_of_mem_erase hother)
    next => exact h

theorem ToolRun.Covered.scriptReturns (h : s.Covered maxToolCalls) (node : String) :
    (s.scriptReturns node).Covered maxToolCalls := by
  unfold ToolRun.scriptReturns
  split
  next => exact h
  next script hs =>
    have hmem := ToolRun.mem_of_script hs
    have hwithin := h.within script hmem
    have hmade := h.made
    have hallowed := h.allowed
    rw [callsOf_erase hmem] at hmade
    rw [allowanceOf_erase hmem] at hallowed
    refine ⟨?_, ?_, fun other hother => h.within other (List.mem_of_mem_erase hother)⟩
    · show s.made = s.count + script.calls + callsOf (s.scripts.erase script)
      omega
    · show s.count + script.calls + allowanceOf (s.scripts.erase script) ≤ maxToolCalls
      omega

theorem ToolRun.Covered.scriptThrows (h : s.Covered maxToolCalls)
    (hfit : Accounted codeMode maxToolCalls p s (.scriptThrows node)) :
    (s.scriptThrows node).Covered maxToolCalls := by
  unfold ToolRun.scriptThrows
  split
  next => exact h
  next script hs =>
    have hmem := ToolRun.mem_of_script hs
    have hnone : script.calls = 0 := hfit script hs
    have hmade := h.made
    have hallowed := h.allowed
    rw [callsOf_erase hmem, hnone] at hmade
    rw [allowanceOf_erase hmem] at hallowed
    refine ⟨?_, ?_, fun other hother => h.within other (List.mem_of_mem_erase hother)⟩
    · show s.made = s.count + callsOf (s.scripts.erase script)
      omega
    · show s.count + allowanceOf (s.scripts.erase script) ≤ maxToolCalls
      omega

theorem ToolRun.Covered.nextLayer (h : s.Covered maxToolCalls) :
    s.nextLayer.Covered maxToolCalls := by
  unfold ToolRun.nextLayer
  split
  · exact ⟨h.made, h.allowed, h.within⟩
  · exact h

theorem restored_eq (kept : Nat) : restored kept = kept := by
  unfold restored
  split
  · rfl
  · omega

theorem ToolRun.Covered.carryOn (h : s.Covered maxToolCalls) :
    (s.carryOn p).Covered maxToolCalls := by
  unfold ToolRun.carryOn
  split
  · rw [restored_eq]
    exact ⟨h.made, h.allowed, h.within⟩
  · exact h

theorem ToolRun.Covered.step (h : s.Covered maxToolCalls) (a : ToolAction)
    (hfit : Accounted codeMode maxToolCalls p s a) :
    (s.step codeMode maxToolCalls p a).Covered maxToolCalls := by
  cases a with
  | start node => exact h.start hfit
  | scriptCall node => exact h.scriptCall node
  | scriptReturns node => exact h.scriptReturns node
  | scriptThrows node => exact h.scriptThrows hfit
  | nextLayer => exact h.nextLayer
  | carryOn => exact h.carryOn

end

/-- **The ceiling holds in every run that keeps the allowances in sight.** -/
theorem within_budget (codeMode : Bool) (maxToolCalls : Nat) (p : AgentPipeline)
    (actions : List ToolAction)
    (h : Along (ToolRun.step codeMode maxToolCalls p) (Accounted codeMode maxToolCalls p)
      (ToolRun.begin p) actions) :
    (run (ToolRun.step codeMode maxToolCalls p) (ToolRun.begin p) actions).made ≤ maxToolCalls := by
  have hcov := run_invariant (ToolRun.Covered maxToolCalls) (fun s a hs ha => hs.step a ha)
    covered_begin h
  calc _ = _ := hcov.made
    _ ≤ _ := Nat.add_le_add_left (callsOf_le_allowanceOf hcov.within) _
    _ ≤ maxToolCalls := hcov.allowed

/-- Two code steps side by side. -/
def twoScripts : AgentPipeline :=
  { nodes := [⟨"in", .input, none, none⟩,
      ⟨"a", .code, some (.obj [("code", .str "return await shop.list({})")]), none⟩,
      ⟨"b", .code, some (.obj [("code", .str "return await shop.list({})")]), none⟩,
      ⟨"out", .output, none, none⟩]
    edges := [⟨"in", "a", none, none⟩, ⟨"in", "b", none, none⟩, ⟨"a", "out", none, none⟩,
      ⟨"b", "out", none, none⟩] }

/-- The first script comes back before the second starts: five calls of a budget of five. -/
theorem within_budget_one_by_one :
    (run (ToolRun.step true 5 twoScripts) (ToolRun.begin twoScripts)
      [.nextLayer, .start "in", .nextLayer, .start "a", .scriptCall "a", .scriptReturns "a",
        .start "b", .scriptCall "b", .scriptCall "b", .scriptCall "b", .scriptReturns "b"]).made
      ≤ 5 :=
  within_budget true 5 twoScripts _ (by
    refine ⟨trivial, ?_, trivial, ?_, trivial, trivial, ?_, trivial, trivial, trivial, trivial,
      trivial⟩ <;> decide)

/-- The two scripts are out together, each with what was left when it started: six calls of five. -/
theorem over_budget_two_scripts :
    ¬(run (ToolRun.step true 5 twoScripts) (ToolRun.begin twoScripts)
      [.nextLayer, .start "in", .nextLayer, .start "a", .start "b", .scriptCall "a",
        .scriptCall "a", .scriptCall "a", .scriptCall "a"]).made ≤ 5 := by
  decide

end Almyty.Workflow
