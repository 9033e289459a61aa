import Almyty.Workflow.Answers

/-!
# The layers of a workflow: `buildGraph` and `computeLayers`, on maps

`buildGraph` fills three maps from the edges and `computeLayers` counts one of them down, in a copy.
`Graph` reads both as functions of the pipeline; here they are the loops over the maps, and
`computeLayersOf_buildGraph` says that they are the same.

`layered_sort` says what the sort does. It throws exactly when an edge path returns to where it
began, and so does the other sort, `checkForCycles`. Otherwise the layers are a partition of the
nodes, every edge leads to a later one, and the index of a layer is the length of the longest paths
that end in it.
-/

namespace Almyty.Workflow

open Almyty.Lib List Option

structure AgentExecutionGraph where
  adjacencyList : List (String × List String) := []
  inDegree : List (String × Int) := []
  reverseAdjacencyList : List (String × List String) := []

namespace AgentExecutionGraph

def addNode (graph : AgentExecutionGraph) (node : AgentPipelineNode) : AgentExecutionGraph where
  adjacencyList := Assoc.put graph.adjacencyList node.id []
  reverseAdjacencyList := Assoc.put graph.reverseAdjacencyList node.id []
  inDegree := Assoc.put graph.inDegree node.id 0

def addEdge (graph : AgentExecutionGraph) (edge : AgentPipelineEdge) : AgentExecutionGraph where
  adjacencyList := Assoc.put graph.adjacencyList edge.source
    ((graph.adjacencyList.lookup edge.source).getD [] ++ [edge.target])
  reverseAdjacencyList := Assoc.put graph.reverseAdjacencyList edge.target
    ((graph.reverseAdjacencyList.lookup edge.target).getD [] ++ [edge.source])
  inDegree := Assoc.put graph.inDegree edge.target
    ((graph.inDegree.lookup edge.target).getD 0 + 1)

end AgentExecutionGraph

def buildGraph (p : AgentPipeline) : AgentExecutionGraph :=
  p.edges.foldl .addEdge (p.nodes.foldl .addNode {})

def takeEdge (state : List (String × Int) × List String) (neighbor : String) :
    List (String × Int) × List String :=
  let newDegree := (state.1.lookup neighbor).getD 0 - 1
  (Assoc.put state.1 neighbor newDegree, if newDegree = 0 then state.2 ++ [neighbor] else state.2)

def takeLayer (adjacencyList : List (String × List String)) (degrees : List (String × Int))
    (currentLayer : List String) : List (String × Int) × List String :=
  currentLayer.foldl
    (fun state nodeId => ((adjacencyList.lookup nodeId).getD []).foldl takeEdge state)
    (degrees, [])

def takeLayers (adjacencyList : List (String × List String)) :
    Nat → List (String × Int) → List String → List (List String)
  | 0, _, _ => []
  | _ + 1, _, [] => []
  | fuel + 1, degrees, nodeId :: currentLayer =>
    let next := takeLayer adjacencyList degrees (nodeId :: currentLayer)
    (nodeId :: currentLayer) :: takeLayers adjacencyList fuel next.1 next.2

def computeLayersOf (nodes : List AgentPipelineNode) (adjacencyList : List (String × List String))
    (inDegree : List (String × Int)) : Except String (List (List String)) :=
  let currentLayer := (nodes.map (·.id)).filter fun id => (inDegree.lookup id).getD 0 = 0
  let bound := nodes.length + (adjacencyList.map (·.2.length)).sum + 1
  let layers := takeLayers adjacencyList bound inDegree currentLayer
  if layers.flatten.length = nodes.length then .ok layers else .error cycleError

/-! ## The maps, read -/

section Maps

variable (graph : AgentExecutionGraph)

theorem adjacency_addEdges (edges : List AgentPipelineEdge) (id : String) :
    ((edges.foldl AgentExecutionGraph.addEdge graph).adjacencyList.lookup id).getD [] =
      (graph.adjacencyList.lookup id).getD [] ++ (edges.filter (·.source = id)).map (·.target) := by
  induction edges generalizing graph with
  | nil => simp
  | cons edge edges ih =>
    rw [foldl_cons, ih, AgentExecutionGraph.addEdge, Assoc.lookup_put, filter_cons]
    by_cases h : edge.source = id
    · simp [h]
    · simp [h, Ne.symm h]

theorem inDegree_addEdges (edges : List AgentPipelineEdge) (id : String) :
    ((edges.foldl AgentExecutionGraph.addEdge graph).inDegree.lookup id).getD 0 =
      (graph.inDegree.lookup id).getD 0 + (edges.filter (·.target = id)).length := by
  induction edges generalizing graph with
  | nil => simp
  | cons edge edges ih =>
    rw [foldl_cons, ih, AgentExecutionGraph.addEdge, Assoc.lookup_put, filter_cons]
    by_cases h : edge.target = id
    · simp [h]
      omega
    · simp [h, Ne.symm h]

theorem size_addEdges (edges : List AgentPipelineEdge) :
    ((edges.foldl AgentExecutionGraph.addEdge graph).adjacencyList.map (·.2.length)).sum =
      (graph.adjacencyList.map (·.2.length)).sum + edges.length := by
  induction edges generalizing graph with
  | nil => simp
  | cons edge edges ih =>
    have hput := Assoc.sum_put List.length graph.adjacencyList edge.source
      ((graph.adjacencyList.lookup edge.source).getD [] ++ [edge.target])
    rw [foldl_cons, ih, AgentExecutionGraph.addEdge, length_cons]
    cases hfound : graph.adjacencyList.lookup edge.source with
    | none =>
      simp only [hfound, elim_none, getD_none, length_append,
        length_nil, length_singleton] at hput ⊢
      omega
    | some neighbors =>
      simp only [hfound, elim_some, getD_some, length_append, length_singleton] at hput ⊢
      omega

theorem addNodes (nodes : List AgentPipelineNode) (id : String)
    (hlist : ∀ id, (graph.adjacencyList.lookup id).getD [] = [])
    (hdegree : ∀ id, (graph.inDegree.lookup id).getD 0 = 0)
    (hsize : (graph.adjacencyList.map (·.2.length)).sum = 0) :
    let graph' := nodes.foldl AgentExecutionGraph.addNode graph
    (graph'.adjacencyList.lookup id).getD [] = [] ∧ (graph'.inDegree.lookup id).getD 0 = 0 ∧
      (graph'.adjacencyList.map (·.2.length)).sum = 0 := by
  induction nodes generalizing graph with
  | nil => exact ⟨hlist id, hdegree id, hsize⟩
  | cons node nodes ih =>
    refine ih (graph.addNode node) (fun id => ?_) (fun id => ?_) ?_
    · rw [AgentExecutionGraph.addNode, Assoc.lookup_put]
      split
      · rfl
      · exact hlist id
    · rw [AgentExecutionGraph.addNode, Assoc.lookup_put]
      split
      · rfl
      · exact hdegree id
    · have hput := Assoc.sum_put List.length graph.adjacencyList node.id []
      show ((Assoc.put graph.adjacencyList node.id []).map (·.2.length)).sum = 0
      rw [hsize, length_nil] at hput
      omega

end Maps

section BuildGraph

variable (p : AgentPipeline)

theorem buildGraph_adjacency (id : String) :
    ((buildGraph p).adjacencyList.lookup id).getD [] = p.adjacency id := by
  obtain ⟨hlist, -, -⟩ := addNodes {} p.nodes id (fun _ => rfl) (fun _ => rfl) rfl
  rw [buildGraph, adjacency_addEdges, hlist]
  rfl

theorem buildGraph_inDegree (id : String) :
    ((buildGraph p).inDegree.lookup id).getD 0 = p.inDegree id := by
  obtain ⟨-, hdegree, -⟩ := addNodes {} p.nodes id (fun _ => rfl) (fun _ => rfl) rfl
  rw [buildGraph, inDegree_addEdges, hdegree, Int.zero_add]
  rfl

theorem buildGraph_size : ((buildGraph p).adjacencyList.map (·.2.length)).sum = p.edges.length := by
  obtain ⟨-, -, hsize⟩ := addNodes {} p.nodes "" (fun _ => rfl) (fun _ => rfl) rfl
  rw [buildGraph, size_addEdges, hsize, Nat.zero_add]

/-! ## The loop, on maps and on functions -/

def degreeOf (degrees : List (String × Int)) (id : String) : Int := (degrees.lookup id).getD 0

theorem takeEdge_eq (degrees : List (String × Int)) (ready : List String) (neighbor : String) :
    (degreeOf (takeEdge (degrees, ready) neighbor).1, (takeEdge (degrees, ready) neighbor).2) =
      Kahn.relax (degreeOf degrees, ready) neighbor := by
  rw [Kahn.relax, Prod.mk.injEq]
  refine ⟨funext fun id => ?_, rfl⟩
  show ((Assoc.put degrees neighbor _).lookup id).getD 0 = _
  rw [Assoc.lookup_put]
  by_cases h : id = neighbor <;> simp [h, degreeOf]

theorem takeEdges_eq (neighbors : List String) (degrees : List (String × Int))
    (ready : List String) :
    (degreeOf (neighbors.foldl takeEdge (degrees, ready)).1,
        (neighbors.foldl takeEdge (degrees, ready)).2) =
      neighbors.foldl Kahn.relax (degreeOf degrees, ready) := by
  induction neighbors generalizing degrees ready with
  | nil => rfl
  | cons neighbor neighbors ih =>
    rw [foldl_cons, foldl_cons, ← takeEdge_eq]
    exact ih _ _

theorem takeLayer_eq (adjacencyList : List (String × List String)) (degrees : List (String × Int))
    (currentLayer : List String) :
    (degreeOf (takeLayer adjacencyList degrees currentLayer).1,
        (takeLayer adjacencyList degrees currentLayer).2) =
      (currentLayer.flatMap fun id => (adjacencyList.lookup id).getD []).foldl Kahn.relax
        (degreeOf degrees, []) := by
  rw [takeLayer, ← foldl_flatMap]
  exact takeEdges_eq _ degrees []

theorem takeLayers_eq (adjacencyList : List (String × List String)) (fuel : Nat)
    (degrees : List (String × Int)) (currentLayer : List String) :
    takeLayers adjacencyList fuel degrees currentLayer =
      Kahn.layersFrom (fun id => (adjacencyList.lookup id).getD []) fuel (degreeOf degrees)
        currentLayer := by
  induction fuel generalizing degrees currentLayer with
  | zero => rfl
  | succ fuel ih =>
    cases currentLayer with
    | nil => rfl
    | cons nodeId currentLayer =>
      rw [takeLayers, Kahn.layersFrom, ih, ← takeLayer_eq]

theorem computeLayersOf_buildGraph :
    computeLayersOf p.nodes (buildGraph p).adjacencyList (buildGraph p).inDegree =
      computeLayers p := by
  have hsucc : (fun id => ((buildGraph p).adjacencyList.lookup id).getD []) = p.adjacency :=
    funext (buildGraph_adjacency p)
  have hdegree : degreeOf (buildGraph p).inDegree = p.inDegree := funext (buildGraph_inDegree p)
  rw [computeLayersOf, takeLayers_eq, hsucc, hdegree, buildGraph_size]
  simp only [buildGraph_inDegree]
  rfl

end BuildGraph

/-! ## What the sort does -/

namespace AgentPipeline

variable {p : AgentPipeline}

def HasEdge (p : AgentPipeline) (s t : String) : Prop := ∃ e ∈ p.edges, e.source = s ∧ e.target = t

theorem hasEdge_iff {s t : String} : p.HasEdge s t ↔ t ∈ p.adjacency s := mem_adjacency.symm

structure Layered (p : AgentPipeline) (layers : List (List String)) : Prop where
  /-- Every node is in one layer, once. -/
  perm : layers.flatten.Perm p.ids
  nodup : layers.flatten.Nodup
  ne_nil : ∀ layer ∈ layers, layer ≠ []
  climbs : ∀ e ∈ p.edges, ∃ i j, i < j ∧ e.source ∈ layers.getD i [] ∧ e.target ∈ layers.getD j []
  longest : ∀ i layer, layers[i]? = some layer → ∀ id ∈ layer,
    IsGreatest {k | Kahn.PathTo p.HasEdge k id} i

theorem WellFormed.layered (h : p.WellFormed) {layers : List (List String)}
    (hok : computeLayers p = .ok layers) : p.Layered layers := by
  have hlayering := layering_of_computeLayers h hok
  obtain ⟨hchain, hne⟩ : (layers.IsChain fun layer next => ∀ n ∈ next, ∃ s ∈ layer,
      n ∈ p.adjacency s) ∧ ∀ layer ∈ layers, layer ≠ [] := by
    simp only [computeLayers] at hok
    split at hok
    · cases hok
      have hlevels := @Kahn.layersFrom_chain _ _ p.adjacency
        (p.nodes.length + p.edges.length + 1) p.inDegree
        (p.ids.filter fun id => p.inDegree id = 0)
      exact ⟨hlevels.1, hlevels.2.1⟩
    · cases hok
  have hnodup : layers.flatten.Nodup := hlayering.perm.nodup_iff.mpr h.nodup
  refine ⟨hlayering.perm, hnodup, hne, ?_, ?_⟩
  · intro e he
    have hadj : e.target ∈ p.adjacency e.source := mem_adjacency.mpr ⟨e, he, rfl, rfl⟩
    -- the layer of the target, and in the layers before it the source
    obtain ⟨layer, hlayer, htarget⟩ :=
      mem_flatten.mp (hlayering.perm.mem_iff.mpr (h.target_mem e he))
    obtain ⟨j, hj⟩ := List.mem_iff_getElem?.mp hlayer
    rcases hlayering.before.source_lt hj htarget (h.source_mem e he) hadj with
      hnil | ⟨i, hi, earlier, hearlier, hsource⟩
    · exact absurd hnil not_mem_nil
    · refine ⟨i, j, hi, ?_, ?_⟩
      · rw [List.getD_eq_getElem?_getD, hearlier]
        exact hsource
      · rw [List.getD_eq_getElem?_getD, hj]
        exact htarget
  · intro i layer hi id hid
    exact hlayering.before.isGreatest hchain (fun s t => hasEdge_iff)
      (fun s t he => (h.adjacency_mem (hasEdge_iff.mp he)).1) hi hid

theorem WellFormed.acyclic_iff_computeLayers (h : p.WellFormed) :
    p.Acyclic ↔ ∃ layers, computeLayers p = .ok layers := by
  constructor
  · intro hacyclic
    obtain ⟨layers, hok, -⟩ := Dag.computeLayers_ok ⟨p, h, hacyclic⟩
    exact ⟨layers, hok⟩
  · intro hok
    obtain ⟨layers, hok⟩ := hok
    exact acyclic_of_computeLayers h hok

theorem WellFormed.acyclic_iff_checkForCycles (h : p.WellFormed) :
    p.Acyclic ↔ checkForCycles p = .ok () := by
  constructor
  · intro hacyclic
    obtain ⟨-, left, hstuck, hperm⟩ := h.sorted
    obtain rfl := hstuck.eq_nil hacyclic
    rw [append_nil] at hperm
    simp only [checkForCycles, require_eq_ok, decide_eq_true_eq]
    rw [hperm.length_eq, ids, length_map]
  · exact acyclic_of_checkForCycles h

end AgentPipeline

theorem exists_error_iff {ε α : Type} {result : Except ε α} :
    (∃ e, result = .error e) ↔ ¬ ∃ a, result = .ok a := by
  cases result <;> simp

/-- The sort throws exactly on a cycle; else its layers are what every edge climbs, each as high as
its longest paths. -/
theorem layered_sort (p : AgentPipeline) (h : p.WellFormed) :
    let result := computeLayersOf p.nodes (buildGraph p).adjacencyList (buildGraph p).inDegree
    ((∃ e, result = .error e) ↔ ∃ id, Relation.TransGen p.HasEdge id id) ∧
      ((∃ e, result = .error e) ↔ ∃ e, checkForCycles p = .error e) ∧
      ∀ layers, result = .ok layers → p.Layered layers := by
  rw [computeLayersOf_buildGraph]
  have hedge : p.HasEdge = fun s t => t ∈ p.adjacency s := by
    funext s t
    exact propext AgentPipeline.hasEdge_iff
  refine ⟨?_, ?_, fun layers hok => h.layered hok⟩
  · rw [exists_error_iff, ← h.acyclic_iff_computeLayers, AgentPipeline.Acyclic, Kahn.Acyclic,
      hedge, not_forall_not]
  · rw [exists_error_iff, exists_error_iff, ← h.acyclic_iff_computeLayers,
      h.acyclic_iff_checkForCycles]
    exact not_congr ⟨fun hok => ⟨(), hok⟩, fun ⟨_, hok⟩ => hok⟩

/-- Two edges side by side, and a way past them. -/
theorem layered_sort_diamond :
    let p : AgentPipeline := {
      nodes := [⟨"end", .output, none, none⟩, ⟨"start", .input, none, none⟩,
        ⟨"middle", .transform, none, none⟩]
      edges := [⟨"start", "middle", none, none⟩, ⟨"start", "middle", none, none⟩,
        ⟨"start", "end", none, none⟩, ⟨"middle", "end", none, none⟩] }
    p.WellFormed ∧ p.Layered [["start"], ["middle"], ["end"]] :=
  ⟨⟨by decide, by decide, by decide⟩,
    (layered_sort _ ⟨by decide, by decide, by decide⟩).2.2 _ (by decide)⟩

end Almyty.Workflow
