import Almyty.Workflow.Graph

/-!
# Which nodes of a workflow run: the layer loop and its branch pruning

The engine goes through the layers of the pipeline. A layer's nodes run unless they are marked as
skipped; what came of each of them then marks more: everything behind a node that failed or waits
for a person, and the branches a condition or a decision did not take. `branchRun` is that loop with
the outcome of every node given (`outcomes`); what a node costs and what ends a run early is
`Workflow.Engine`.

An incoming edge is dead when its source was skipped, failed or waits, or took another branch. The
first section after the model computes which nodes run (`Ran.iff`): a node with one incoming edge
runs when that edge is not dead, but a node with several runs as soon as one source was not skipped,
whatever became of that source. So pruning is exact on a run exactly when no join hangs off live
sources through dead edges only, which is `branches_exact_iff`.

Mirroring notes:
- `closes` gathers the four places the engine marks from: a waiting node, a failed node, the untaken
  branch of a condition and the unchosen options of a decision.
- An edge of a condition whose handle names neither result belongs to both branches, and an edge of
  a decision without a handle to every option.
-/

namespace Almyty.Workflow

open Almyty.Lib List

/-! ## Outcomes and marks -/

inductive Outcome
  | success
  | failure
  | waiting
  | condition (result : Bool)
  | decision (chosen : Option String)

def isTrueBranch (handle : String) : Bool := handle == "true" || handle == "yes"

def isFalseBranch (handle : String) : Bool := handle == "false" || handle == "no"

def untaken (type : NodeType) (outcome : Outcome) (edge : AgentPipelineEdge) : Bool :=
  match type, outcome with
  | .condition, .condition result =>
    (result && isFalseBranch edge.handle) || (!result && isTrueBranch edge.handle)
  | .decision, .decision chosen => edge.handle != "" && some edge.handle != chosen
  | _, _ => false

def skipAfter (p : AgentPipeline) (node : AgentPipelineNode) (outcome : Outcome)
    (skipped : List String) : List String :=
  match outcome with
  | .failure | .waiting =>
    (p.adjacency node.id).foldl (fun s t => markBranchAsSkipped p t s) skipped
  | outcome =>
    (p.outgoing node.id).foldl
      (fun s e => if untaken node.type outcome e then markBranchAsSkipped p e.target s else s)
      skipped

/-! ## The loop -/

/-- What the loop has decided so far. -/
structure Ran where
  skipped : List String := []
  executed : List String := []
  deriving DecidableEq

variable (p : AgentPipeline) (outcomes : String → Outcome)

/-- One result of a layer is processed. -/
def settle (s : Ran) (id : String) : Ran :=
  match p.node id with
  | some node =>
    { skipped := skipAfter p node (outcomes id) s.skipped, executed := s.executed ++ [id] }
  | none => s

def runLayer (s : Ran) (layer : List String) : Ran :=
  (layer.filter (· ∉ s.skipped)).foldl (settle p outcomes) s

def branchRun : Except String Ran :=
  match computeLayers p with
  | .ok layers => .ok (layers.foldl (runLayer p outcomes) {})
  | .error e => .error e

def closedBy (outcome : Outcome) (edge : AgentPipelineEdge) : Bool :=
  match outcome with
  | .failure | .waiting => true
  | outcome => (p.node edge.source).any fun node => untaken node.type outcome edge

def closes (edge : AgentPipelineEdge) : Bool := closedBy p (outcomes edge.source) edge

/-- The edge is dead: its source was skipped, failed or waits, or selected another
handle. -/
def DeadEdge (s : Ran) (edge : AgentPipelineEdge) : Prop :=
  edge.source ∈ s.skipped ∨ closes p outcomes edge = true

/-! ## What a run leaves -/

variable {p outcomes}

theorem AgentPipeline.node_eq_some {id : String} (h : id ∈ p.ids) :
    ∃ node, p.node id = some node ∧ node.id = id := by
  obtain ⟨node, hnode, rfl⟩ := mem_map.mp h
  have hsome : (p.nodes.reverse.find? (·.id = node.id)).isSome = true := by
    rw [List.find?_isSome]
    exact ⟨node, mem_reverse.mpr hnode, by simp⟩
  obtain ⟨found, hfound⟩ := Option.isSome_iff_exists.mp hsome
  exact ⟨found, hfound, by simpa using List.find?_some hfound⟩

variable {node : AgentPipelineNode}

theorem AgentPipeline.WellFormed.node_eq (h : p.WellFormed) (hnode : node ∈ p.nodes) :
    p.node node.id = some node := by
  obtain ⟨found, hfound, hid⟩ := p.node_eq_some (mem_map_of_mem hnode)
  have hmem : found ∈ p.nodes := mem_reverse.mp (List.mem_of_find?_eq_some hfound)
  rw [hfound, inj_on_of_nodup_map h.nodup hmem hnode hid]

def closedTargets (p : AgentPipeline) (outcomes : String → Outcome) (id : String) : List String :=
  ((p.outgoing id).filter (closes p outcomes)).map (·.target)

theorem mem_closedTargets {id t : String} : t ∈ closedTargets p outcomes id ↔
    ∃ e ∈ p.outgoing id, closes p outcomes e = true ∧ e.target = t := by
  simp only [closedTargets, mem_map, mem_filter, and_assoc]

theorem skipAfter_eq_marks (hnode : p.node node.id = some node) (skipped : List String) :
    skipAfter p node (outcomes node.id) skipped
      = (closedTargets p outcomes node.id).foldl (fun s t => markBranchAsSkipped p t s)
          skipped := by
  have hclose : ∀ e ∈ p.outgoing node.id, closes p outcomes e
      = match outcomes node.id with
        | .failure | .waiting => true
        | outcome => untaken node.type outcome e := by
    intro e he
    have hs := (AgentPipeline.mem_outgoing.mp he).2
    simp only [closes, closedBy, hs, hnode, Option.any_some]
  rw [closedTargets, filter_congr hclose, foldl_map, foldl_filter]
  unfold skipAfter
  split <;> simp_all [AgentPipeline.adjacency, foldl_map]

theorem skipAfter_spec (hnode : p.node node.id = some node) (skipped : List String) :
    let direct := fun t => ∃ e ∈ p.outgoing node.id, closes p outcomes e = true ∧ e.target = t
    Extends p direct skipped (skipAfter p node (outcomes node.id) skipped) ∧
      ∀ t, direct t → Settled p (skipAfter p node (outcomes node.id) skipped) t := by
  intro direct
  obtain ⟨hext, hset⟩ := foldl_marks (p := p) (markBranchAsSkipped p)
    (closedTargets p outcomes node.id) [] (by
      intro t ht s _
      obtain ⟨e, he, -, rfl⟩ := mem_closedTargets.mp ht
      exact markBranchAsSkipped_spec (mem_map_of_mem (AgentPipeline.mem_outgoing.mp he).1) s)
    skipped (nil_subset _)
  rw [← skipAfter_eq_marks hnode] at hext hset
  exact ⟨hext.weaken fun t ht => mem_closedTargets.mp ht,
    fun t ht => hset t (mem_closedTargets.mpr ht)⟩

variable (p outcomes)

structure Pruned (done : List String) (s : Ran) : Prop where
  closed : ∀ n ∈ done, ∀ e ∈ p.incoming n, e.source ∈ done
  executed_iff : ∀ n, n ∈ s.executed ↔ n ∈ done ∧ n ∉ s.skipped
  nonroot : ∀ n ∈ s.skipped, p.incoming n ≠ []
  single : ∀ n ∈ s.skipped, (p.incoming n).length ≤ 1 → ∀ e ∈ p.incoming n,
    e.source ∈ s.skipped ∨ e.source ∈ s.executed ∧ closes p outcomes e = true
  join : ∀ n ∈ s.skipped, 1 < (p.incoming n).length → ∀ e ∈ p.incoming n, e.source ∈ s.skipped
  settled : ∀ e ∈ p.edges,
    e.source ∈ s.skipped ∨ e.source ∈ s.executed ∧ closes p outcomes e = true →
      Settled p s.skipped e.target

/-- One node of a layer, by itself. -/
def visit (s : Ran) (id : String) : Ran := if id ∈ s.skipped then s else settle p outcomes s id

variable {p outcomes}

variable {done : List String} {s : Ran}

theorem Pruned.not_mem_of_transGen (h : Pruned p outcomes done s) {n m : String} (hn : n ∉ done)
    (hnm : Relation.TransGen (fun s t => t ∈ p.adjacency s) n m) :
    m ∉ done := by
  induction hnm with
  | single he =>
    intro hm
    obtain ⟨e, hedge, rfl, rfl⟩ := AgentPipeline.mem_adjacency.mp he
    exact hn (h.closed _ hm e (AgentPipeline.mem_incoming.mpr ⟨hedge, rfl⟩))
  | tail _ he ih =>
    intro hm
    obtain ⟨e, hedge, rfl, rfl⟩ := AgentPipeline.mem_adjacency.mp he
    exact ih (h.closed _ hm e (AgentPipeline.mem_incoming.mpr ⟨hedge, rfl⟩))

theorem settle_subset (s : Ran) (id : String) : s.skipped ⊆ (settle p outcomes s id).skipped := by
  unfold settle
  split
  · next node hnode =>
    obtain rfl : node.id = id := by simpa using List.find?_some hnode
    exact (skipAfter_spec hnode s.skipped).1.subset
  · exact fun _ h => h

theorem settle_new {id m : String} (hm : m ∈ (settle p outcomes s id).skipped) (hn : m ∉ s.skipped)
   : Relation.TransGen (fun s t => t ∈ p.adjacency s) id m := by
  unfold settle at hm
  split at hm
  · next node hnode =>
    obtain rfl : node.id = id := by simpa using List.find?_some hnode
    obtain ⟨d, ⟨e, he, -, rfl⟩, hreach⟩ :=
      (@skipAfter_spec p outcomes node hnode s.skipped).1.reached m hm hn
    obtain ⟨hedge, hs⟩ := AgentPipeline.mem_outgoing.mp he
    exact .head' (AgentPipeline.mem_adjacency.mpr ⟨e, hedge, hs, rfl⟩) hreach
  · exact absurd hm hn

variable {n : String}

theorem Pruned.pass (h : Pruned p outcomes done s) (hsrc : ∀ e ∈ p.incoming n, e.source ∈ done)
    (hskip : n ∈ s.skipped) :
    Pruned p outcomes (done ++ [n]) s := by
  refine { h with closed := fun m hm e he => ?_, executed_iff := fun m => ?_ }
  · rcases mem_append.mp hm with hm | hm
    · exact mem_append_left _ (h.closed m hm e he)
    · rw [mem_singleton] at hm
      exact mem_append_left _ (hsrc e (hm ▸ he))
  · rw [h.executed_iff, mem_append, mem_singleton]
    constructor
    · exact fun ⟨hm, hno⟩ => ⟨.inl hm, hno⟩
    · rintro ⟨hm | rfl, hno⟩
      · exact ⟨hm, hno⟩
      · exact absurd hskip hno

theorem Pruned.skipped_of_settle (h : Pruned p outcomes done s) (hn : n ∉ done)
    (hsrc : ∀ e ∈ p.incoming n, e.source ∈ done) {m : String} (hm : m ∈ done ++ [n])
    (hnew : m ∈ (settle p outcomes s n).skipped) : m ∈ s.skipped := by
  apply Classical.byContradiction
  intro hno
  have hfollows := settle_new hnew hno
  rcases mem_append.mp hm with hm | hm
  · exact h.not_mem_of_transGen hn hfollows hm
  · rw [mem_singleton] at hm
    obtain ⟨x, hnx, hxm⟩ := Relation.TransGen.tail'_iff.mp hfollows
    obtain ⟨e, hedge, rfl, rfl⟩ := AgentPipeline.mem_adjacency.mp hxm
    have hx := hsrc e (AgentPipeline.mem_incoming.mpr ⟨hedge, hm⟩)
    rcases Relation.reflTransGen_iff_eq_or_transGen.mp hnx with heq | htrans
    · exact hn (heq ▸ hx)
    · exact h.not_mem_of_transGen hn htrans hx

theorem AgentPipeline.eq_of_mem_incoming {m : String} (hlen : (p.incoming m).length ≤ 1)
    {e e' : AgentPipelineEdge} (he : e ∈ p.incoming m) (he' : e' ∈ p.incoming m) : e' = e := by
  match hin : p.incoming m with
  | [] => simp [hin] at he
  | [x] =>
    rw [hin, mem_singleton] at he he'
    exact he'.trans he.symm
  | _ :: _ :: _ => simp [hin] at hlen

theorem Pruned.settle (h : Pruned p outcomes done s) (hids : n ∈ p.ids) (hn : n ∉ done)
    (hsrc : ∀ e ∈ p.incoming n, e.source ∈ done) (hrun : n ∉ s.skipped) :
    Pruned p outcomes (done ++ [n]) (settle p outcomes s n) := by
  obtain ⟨node, hnode, rfl⟩ := p.node_eq_some hids
  have heq : Workflow.settle p outcomes s node.id
      = { skipped := skipAfter p node (outcomes node.id) s.skipped,
          executed := s.executed ++ [node.id] } := by
    simp only [Workflow.settle, hnode]
  obtain ⟨hext, hset⟩ := @skipAfter_spec p outcomes node hnode s.skipped
  have hclosed : ∀ m ∈ done ++ [node.id], ∀ e ∈ p.incoming m, e.source ∈ done := by
    intro m hm e he
    rcases mem_append.mp hm with hm | hm
    · exact h.closed m hm e he
    · rw [mem_singleton] at hm
      exact hsrc e (hm ▸ he)
  have hold : ∀ m ∈ done ++ [node.id],
      m ∈ (Workflow.settle p outcomes s node.id).skipped → m ∈ s.skipped :=
    fun m hm hnew => h.skipped_of_settle hn hsrc hm hnew
  rw [heq] at hold ⊢
  have hsub : s.skipped ⊆ skipAfter p node (outcomes node.id) s.skipped := hext.subset
  have hdead : ∀ e : AgentPipelineEdge,
      e.source ∈ s.skipped ∨ e.source ∈ s.executed ∧ closes p outcomes e = true →
      e.source ∈ skipAfter p node (outcomes node.id) s.skipped ∨
        e.source ∈ s.executed ++ [node.id] ∧ closes p outcomes e = true := by
    rintro e (hs | ⟨hx, hc⟩)
    · exact .inl (hsub hs)
    · exact .inr ⟨mem_append_left _ hx, hc⟩
  refine ⟨fun m hm e he => mem_append_left _ (hclosed m hm e he), fun m => ?_,
    fun m hm => ?_, fun m hm hlen e he => ?_, fun m hm hlen e he => ?_, fun e he hd => ?_⟩
  · simp only [mem_append, mem_singleton]
    rw [h.executed_iff]
    constructor
    · rintro (⟨hm, hno⟩ | rfl)
      · exact ⟨.inl hm, fun hnew => hno (hold m (mem_append_left _ hm) hnew)⟩
      · exact ⟨.inr rfl, fun hnew => hrun (hold _ (by simp) hnew)⟩
    · rintro ⟨hm | rfl, hno⟩
      · exact .inl ⟨hm, fun hs => hno (hsub hs)⟩
      · exact .inr rfl
  · by_cases hs : m ∈ s.skipped
    · exact h.nonroot m hs
    · have hfollows := @settle_new p outcomes s node.id m (by rw [heq]; exact hm) hs
      obtain ⟨x, -, hxm⟩ := Relation.TransGen.tail'_iff.mp hfollows
      obtain ⟨e, hedge, -, ht⟩ := AgentPipeline.mem_adjacency.mp hxm
      exact ne_nil_of_mem (AgentPipeline.mem_incoming.mpr ⟨hedge, ht⟩)
  · by_cases hs : m ∈ s.skipped
    · exact hdead e (h.single m hs hlen e he)
    · -- the only edge into `m` is the one the mark came along
      have honly : ∀ e' ∈ p.incoming m, e' = e := fun e' he' =>
        AgentPipeline.eq_of_mem_incoming hlen he he'
      rcases hext.because m hm hs with ⟨-, ⟨e', he', hc, ht⟩ | ⟨e', he', hsrc'⟩⟩ | ⟨hmany, -⟩
      · obtain ⟨hedge, hfrom⟩ := AgentPipeline.mem_outgoing.mp he'
        obtain rfl := honly e' (AgentPipeline.mem_incoming.mpr ⟨hedge, ht⟩)
        exact .inr ⟨by simp [hfrom], hc⟩
      · exact .inl (honly e' he' ▸ hsrc')
      · omega
  · by_cases hs : m ∈ s.skipped
    · exact hsub (h.join m hs hlen e he)
    · rcases hext.because m hm hs with ⟨hone, -⟩ | ⟨-, hall⟩
      · omega
      · exact hall e he
  · rcases hd with hs | ⟨hx, hc⟩
    · by_cases hs' : e.source ∈ s.skipped
      · exact (h.settled e he (.inl hs')).extends hext
      · exact hext.behind e.source hs hs' e.target
          (AgentPipeline.mem_adjacency.mpr ⟨e, he, rfl, rfl⟩)
    · rcases mem_append.mp hx with hx | hx
      · exact (h.settled e he (.inr ⟨hx, hc⟩)).extends hext
      · rw [mem_singleton] at hx
        exact hset e.target ⟨e, AgentPipeline.mem_outgoing.mpr ⟨he, hx⟩, hc, rfl⟩

theorem Pruned.visit (h : Pruned p outcomes done s) (hids : n ∈ p.ids) (hn : n ∉ done)
    (hsrc : ∀ e ∈ p.incoming n, e.source ∈ done) :
    Pruned p outcomes (done ++ [n]) (visit p outcomes s n) := by
  unfold Workflow.visit
  split
  · next hskip => exact h.pass hsrc hskip
  · next hrun => exact h.settle hids hn hsrc hrun

/-- A layer's nodes do not follow from one another: the filter at its start is each one's own check.
-/
theorem runLayer_eq_visits {layer : List String}
    (hanti : ∀ n ∈ layer, ∀ m ∈ layer, ¬ Relation.TransGen (fun s t => t ∈ p.adjacency s) n m)
    (s : Ran) : runLayer p outcomes s layer = layer.foldl (visit p outcomes) s := by
  have key : ∀ (rest : List String) (s' : Ran), (∀ m ∈ rest, m ∈ layer) →
      (∀ m ∈ rest, m ∈ s'.skipped ↔ m ∈ s.skipped) →
      (rest.filter (· ∉ s.skipped)).foldl (settle p outcomes) s'
        = rest.foldl (visit p outcomes) s' := by
    intro rest
    induction rest with
    | nil => exact fun _ _ _ => rfl
    | cons n rest ih =>
      intro s' hmem hsame
      obtain ⟨hn, hmem⟩ := forall_mem_cons.mp hmem
      obtain ⟨hsame, hrest⟩ := forall_mem_cons.mp hsame
      rw [foldl_cons, visit]
      by_cases hs : n ∈ s.skipped
      · rw [if_pos (hsame.mpr hs), filter_cons_of_neg (by simpa using hs)]
        exact ih s' hmem hrest
      · rw [if_neg fun h => hs (hsame.mp h), filter_cons_of_pos (by simpa using hs), foldl_cons]
        refine ih _ hmem fun m hm => ?_
        rw [← hrest m hm]
        constructor
        · intro hnew
          apply Classical.byContradiction
          exact fun hno => hanti n hn m (hmem m hm) (settle_new hnew hno)
        · exact fun h => settle_subset s' n h
  exact key layer s (fun _ h => h) fun _ _ => Iff.rfl

theorem Pruned.visits {done layer : List String} (h : Pruned p outcomes done s)
    (hids : ∀ n ∈ layer, n ∈ p.ids) (hnd : (done ++ layer).Nodup)
    (hsrc : ∀ n ∈ layer, ∀ e ∈ p.incoming n, e.source ∈ done) :
    Pruned p outcomes (done ++ layer) (layer.foldl (Workflow.visit p outcomes) s) := by
  induction layer generalizing done s with
  | nil => simpa using h
  | cons n layer ih =>
    obtain ⟨hn, hids⟩ := forall_mem_cons.mp hids
    obtain ⟨hsn, hsrc⟩ := forall_mem_cons.mp hsrc
    have hfresh : n ∉ done := fun hd =>
      (nodup_append.mp hnd).2.2 n hd n mem_cons_self rfl
    rw [← singleton_append, ← append_assoc] at hnd ⊢
    refine ih (h.visit hn hfresh hsn) hids hnd fun m hm e he => ?_
    exact mem_append_left _ (hsrc m hm e he)

theorem Pruned.layers {layers : List (List String)} (h : Pruned p outcomes done s)
    (hids : ∀ n ∈ layers.flatten, n ∈ p.ids) (hwf : ∀ e ∈ p.edges, e.source ∈ p.ids)
    (hnd : (done ++ layers.flatten).Nodup)
    (hbefore : Kahn.SourcesBefore p.ids p.adjacency done layers) :
    Pruned p outcomes (done ++ layers.flatten) (layers.foldl (runLayer p outcomes) s) := by
  induction layers generalizing done s with
  | nil => simpa using h
  | cons layer layers ih =>
    rw [flatten_cons] at hids hnd ⊢
    obtain ⟨hlayer, hbefore⟩ := hbefore
    have hsrc : ∀ n ∈ layer, ∀ e ∈ p.incoming n, e.source ∈ done := by
      intro n hn e he
      obtain ⟨hedge, ht⟩ := AgentPipeline.mem_incoming.mp he
      exact hlayer n hn e.source (hwf e hedge) (AgentPipeline.mem_adjacency.mpr ⟨e, hedge, rfl, ht⟩)
    -- a node of the layer that followed from another would have that one decided already
    have hanti : ∀ n ∈ layer, ∀ m ∈ layer,
        ¬ Relation.TransGen (fun s t => t ∈ p.adjacency s) n m := by
      intro n hn m hm hfollows
      have hfresh : n ∉ done := fun hd =>
        (nodup_append.mp hnd).2.2 n hd n (mem_append_left _ hn) rfl
      obtain ⟨x, hnx, hxm⟩ := Relation.TransGen.tail'_iff.mp hfollows
      obtain ⟨e, hedge, rfl, rfl⟩ := AgentPipeline.mem_adjacency.mp hxm
      have hx := hsrc _ hm e (AgentPipeline.mem_incoming.mpr ⟨hedge, rfl⟩)
      rcases Relation.reflTransGen_iff_eq_or_transGen.mp hnx with heq | htrans
      · exact hfresh (heq ▸ hx)
      · exact h.not_mem_of_transGen hfresh htrans hx
    rw [foldl_cons, runLayer_eq_visits hanti, ← append_assoc]
    rw [← append_assoc] at hnd
    refine ih (h.visits (fun n hn => hids n (mem_append_left _ hn))
      (nodup_append.mp hnd).1 hsrc) (fun n hn => hids n (mem_append_right _ hn)) hnd
      hbefore

theorem pruned_start : Pruned p outcomes [] {} :=
  ⟨by simp, by simp, by simp, by simp, by simp, by simp⟩

/-! ## Which nodes run -/

/-- What a finished run says of its nodes. -/
structure Ran.Spec (p : AgentPipeline) (outcomes : String → Outcome) (s : Ran) : Prop where
  executed_iff : ∀ n, n ∈ s.executed ↔ n ∈ p.ids ∧ n ∉ s.skipped
  root : ∀ n ∈ p.ids, p.isRoot n → n ∈ s.executed
  single : ∀ n e, p.incoming n = [e] →
    (n ∈ s.executed ↔ e.source ∈ s.executed ∧ closes p outcomes e = false)
  join : ∀ n, 1 < (p.incoming n).length →
    (n ∈ s.executed ↔ ∃ e ∈ p.incoming n, e.source ∈ s.executed)

theorem Pruned.spec (h : Pruned p outcomes done s) (hwf : p.WellFormed) (hdone : done.Perm p.ids) :
    s.Spec p outcomes := by
  have hexec : ∀ n, n ∈ s.executed ↔ n ∈ p.ids ∧ n ∉ s.skipped := fun n => by
    rw [h.executed_iff, hdone.mem_iff]
  have hsource : ∀ n, ∀ e ∈ p.incoming n, e.source ∈ p.ids ∧ n ∈ p.ids := by
    intro n e he
    obtain ⟨hedge, rfl⟩ := AgentPipeline.mem_incoming.mp he
    exact ⟨hwf.source_mem e hedge, hwf.target_mem e hedge⟩
  refine ⟨hexec, fun n hn hroot => ?_, fun n e hin => ?_, fun n hlen => ?_⟩
  · exact (hexec n).mpr ⟨hn, fun hs => h.nonroot n hs hroot⟩
  · have he : e ∈ p.incoming n := by simp [hin]
    obtain ⟨hedge, ht⟩ := AgentPipeline.mem_incoming.mp he
    rw [hexec, hexec]
    constructor
    · rintro ⟨-, hno⟩
      -- a dead edge would have settled the node, and with one edge that is skipping it
      have hlive : ¬ (e.source ∈ s.skipped ∨ e.source ∈ s.executed ∧ closes p outcomes e = true) := by
        intro hd
        rcases h.settled e hedge hd with hs | ⟨hlen, -⟩
        · exact hno (ht ▸ hs)
        · simp [ht, hin] at hlen
      rw [hexec] at hlive
      grind
    · rintro ⟨⟨-, hsrc⟩, hopen⟩
      refine ⟨(hsource n e he).2, fun hs => ?_⟩
      rcases h.single n hs (by simp [hin]) e he with hd | ⟨-, hc⟩
      · exact hsrc hd
      · rw [hopen] at hc
        cases hc
  · rw [hexec]
    constructor
    · rintro ⟨-, hno⟩
      apply Classical.byContradiction
      intro hall
      have hskip : ∀ e ∈ p.incoming n, e.source ∈ s.skipped := by
        intro e he
        apply Classical.byContradiction
        exact fun hs => hall ⟨e, he, (hexec _).mpr ⟨(hsource n e he).1, hs⟩⟩
      obtain ⟨e, he⟩ := exists_mem_of_length_pos (by omega : 0 < (p.incoming n).length)
      obtain ⟨hedge, rfl⟩ := AgentPipeline.mem_incoming.mp he
      rcases h.settled e hedge (.inl (hskip e he)) with hs | ⟨-, e', he', hs'⟩
      · exact hno hs
      · exact hs' (hskip e' he')
    · rintro ⟨e, he, hx⟩
      refine ⟨(hsource n e he).2, fun hs => ?_⟩
      exact ((hexec _).mp hx).2 (h.join n hs hlen e he)

theorem Dag.branchRun_spec (d : Dag) (outcomes : String → Outcome) :
    ∃ s, branchRun d.toAgentPipeline outcomes = .ok s ∧ s.Spec d.toAgentPipeline outcomes := by
  obtain ⟨layers, hok, hl⟩ := d.computeLayers_ok
  refine ⟨layers.foldl (runLayer d.toAgentPipeline outcomes) {}, by simp [branchRun, hok], ?_⟩
  have hnd : layers.flatten.Nodup := hl.perm.nodup_iff.mpr d.wellFormed.nodup
  have hstart : Pruned d.toAgentPipeline outcomes [] {} := pruned_start
  have hpruned := hstart.layers (fun n hn => hl.perm.mem_iff.mp hn) d.wellFormed.source_mem
    (by simpa using hnd) hl.before
  exact hpruned.spec d.wellFormed (by simpa using hl.perm)

/-! ## Fewer closed edges, fewer skipped nodes -/

section Monotone

variable {p : AgentPipeline} {outcomes outcomes' : String → Outcome}

/-- A mark has arrived behind every skipped node. -/
def Closed (p : AgentPipeline) (skipped : List String) : Prop :=
  ∀ n ∈ skipped, ∀ t ∈ p.adjacency n, Settled p skipped t

variable {after : List String}

theorem Closed.extends {direct : String → Prop} {before : List String} (h : Closed p before)
    (hx : Extends p direct before after) : Closed p after := by
  intro n hn t ht
  by_cases hb : n ∈ before
  · exact (h n hb t ht).extends hx
  · exact hx.behind n hn hb t ht

theorem foldl_marks_subset {mark : String → List String → List String} {targets : List String}
    (hmark : ∀ t ∈ targets, ∀ s, s ⊆ after → mark t s ⊆ after) {skipped : List String}
    (hsub : skipped ⊆ after) :
    targets.foldl (fun s t => mark t s) skipped ⊆ after := by
  induction targets generalizing skipped with
  | nil => exact hsub
  | cons t targets ih =>
    obtain ⟨ht, hmark⟩ := forall_mem_cons.mp hmark
    exact ih hmark (ht skipped hsub)

theorem markFrom_subset (hclosed : Closed p after) {fuel : Nat} {id : String}
    {skipped : List String} (hsub : skipped ⊆ after) (hset : Settled p after id) :
    markFrom p fuel id skipped ⊆ after := by
  induction fuel generalizing id skipped with
  | zero => exact hsub
  | succ fuel ih =>
    unfold markFrom
    split
    · exact hsub
    · dsimp only
      split
      · exact hsub
      · next hdead =>
        -- the node joins the marks, so it cannot be waiting for a source outside them
        have hid : id ∈ after := by
          rcases hset with hmem | ⟨hlen, e, he, hlive⟩
          · exact hmem
          · apply absurd _ hdead
            simp only [Bool.and_eq_true, any_eq_true, decide_eq_true_eq]
            exact ⟨⟨e, he, fun hs => hlive (hsub hs)⟩, hlen⟩
        apply foldl_marks_subset
        · intro t ht s hs
          exact ih hs (hclosed id hid t ht)
        · exact cons_subset.mpr ⟨hid, hsub⟩

/-- Every closed edge of the nodes processed has its target settled. -/
theorem settles_spec (ids : List String) (s : Ran) :
    Extends p (fun _ => True) s.skipped (ids.foldl (settle p outcomes) s).skipped ∧
      ∀ n ∈ ids, (p.node n).isSome → ∀ t ∈ closedTargets p outcomes n,
        Settled p (ids.foldl (settle p outcomes) s).skipped t := by
  induction ids generalizing s with
  | nil => exact ⟨.refl .., by simp⟩
  | cons id ids ih =>
    obtain ⟨hrest, hset⟩ := ih (settle p outcomes s id)
    rw [foldl_cons]
    cases hnode : p.node id with
    | none =>
      have hsame : settle p outcomes s id = s := by simp [settle, hnode]
      rw [hsame] at hrest hset ⊢
      refine ⟨hrest, fun n hn hsome t ht => ?_⟩
      rcases mem_cons.mp hn with rfl | hn
      · simp [hnode] at hsome
      · exact hset n hn hsome t ht
    | some node =>
      obtain rfl : node.id = id := by simpa using List.find?_some hnode
      obtain ⟨hone, hmarked⟩ := @skipAfter_spec p outcomes node hnode s.skipped
      have hskip : (settle p outcomes s node.id).skipped
          = skipAfter p node (outcomes node.id) s.skipped := by simp [settle, hnode]
      rw [← hskip] at hone hmarked
      refine ⟨(hone.weaken fun _ _ => trivial).trans hrest, fun n hn hsome t ht => ?_⟩
      rcases mem_cons.mp hn with rfl | hn
      · exact (hmarked t (mem_closedTargets.mp ht)).extends hrest
      · exact hset n hn hsome t ht

theorem settles_subset (hclosed : Closed p after) {ids : List String}
    (htargets : ∀ n ∈ ids, (p.node n).isSome → ∀ t ∈ closedTargets p outcomes n, Settled p after t)
    {s : Ran} (hsub : s.skipped ⊆ after) :
    (ids.foldl (settle p outcomes) s).skipped ⊆ after := by
  induction ids generalizing s with
  | nil => exact hsub
  | cons id ids ih =>
    obtain ⟨hid, htargets⟩ := forall_mem_cons.mp htargets
    rw [foldl_cons]
    refine ih htargets ?_
    cases hnode : p.node id with
    | none => simpa [settle, hnode] using hsub
    | some node =>
      obtain rfl : node.id = id := by simpa using List.find?_some hnode
      simp only [settle, hnode, skipAfter_eq_marks hnode]
      apply foldl_marks_subset
      · intro t ht skipped hs
        exact markFrom_subset hclosed hs (hid (by simp [hnode]) t ht)
      · exact hsub

theorem settles_executed (ids : List String) (s : Ran) :
    (ids.foldl (settle p outcomes) s).executed
      = s.executed ++ ids.filter fun id => (p.node id).isSome := by
  induction ids generalizing s with
  | nil => simp
  | cons id ids ih =>
    rw [foldl_cons, ih]
    cases hnode : p.node id <;> simp [settle, hnode]

theorem mem_runLayer_executed {s : Ran} {layer : List String} {n : String} :
    n ∈ (runLayer p outcomes s layer).executed ↔
      n ∈ s.executed ∨ (n ∈ layer ∧ n ∉ s.skipped) ∧ (p.node n).isSome := by
  simp only [runLayer, settles_executed, mem_append, mem_filter, decide_eq_true_eq]

theorem runLayers_executed_subset (layers : List (List String)) (s : Ran) :
    s.executed ⊆ (layers.foldl (runLayer p outcomes) s).executed := by
  induction layers generalizing s with
  | nil => exact fun _ h => h
  | cons layer layers ih => exact fun n hn => ih _ (mem_runLayer_executed.mpr (.inl hn))

theorem mem_of_runLayers_executed {layers : List (List String)} {s : Ran} {n : String}
    (h : n ∈ (layers.foldl (runLayer p outcomes) s).executed) :
    n ∈ s.executed ∨ n ∈ layers.flatten := by
  induction layers generalizing s with
  | nil => exact .inl h
  | cons layer layers ih =>
    rw [flatten_cons, mem_append]
    rcases ih h with hn | hn
    · rcases mem_runLayer_executed.mp hn with hn | hn
      · exact .inl hn
      · exact .inr (.inl hn.1.1)
    · exact .inr (.inr hn)

theorem not_skipped_of_executed {pre post : List (List String)} {layer : List String}
    (hnd : (pre ++ layer :: post).flatten.Nodup) {n : String} (hn : n ∈ layer)
    (h : n ∈ ((pre ++ layer :: post).foldl (runLayer p outcomes) {}).executed) :
    n ∉ (pre.foldl (runLayer p outcomes) {}).skipped := by
  rw [flatten_append, flatten_cons, nodup_append] at hnd
  obtain ⟨-, hrest, hpre⟩ := hnd
  rw [foldl_append, foldl_cons] at h
  rcases mem_of_runLayers_executed h with h | h
  · rcases mem_runLayer_executed.mp h with h | h
    · rcases mem_of_runLayers_executed h with h | h
      · cases h
      · exact absurd rfl (hpre n h n (mem_append_left _ hn))
    · exact h.1.2
  · exact absurd rfl ((nodup_append.mp hrest).2.2 n hn n h)

theorem runLayers_mono {layers : List (List String)} {s s' : Ran}
    (hskip : s'.skipped ⊆ s.skipped) (hexec : s.executed ⊆ s'.executed)
    (hclosed : Closed p s.skipped)
    (hopen : ∀ n ∈ (layers.foldl (runLayer p outcomes) s).executed,
      closedTargets p outcomes' n ⊆ closedTargets p outcomes n) :
    (layers.foldl (runLayer p outcomes) s).executed
      ⊆ (layers.foldl (runLayer p outcomes') s').executed := by
  induction layers generalizing s s' with
  | nil => exact hexec
  | cons layer layers ih =>
    rw [foldl_cons, foldl_cons]
    obtain ⟨hext, hset⟩ :=
      @settles_spec p outcomes (layer.filter (· ∉ s.skipped)) s
    have hclosed' : Closed p (runLayer p outcomes s layer).skipped := hclosed.extends hext
    refine ih ?_ ?_ hclosed' hopen
    · -- a mark of the second run comes from a node skipped in the first, or from one whose
      -- closed edges were closed there
      refine settles_subset hclosed' (fun n hn hsome t ht => ?_)
        (fun m hm => hext.subset (hskip hm))
      by_cases hs : n ∈ s.skipped
      · obtain ⟨e, he, -, rfl⟩ := mem_closedTargets.mp ht
        obtain ⟨hedge, hsrc⟩ := AgentPipeline.mem_outgoing.mp he
        exact hclosed' n (hext.subset hs) e.target
          (AgentPipeline.mem_adjacency.mpr ⟨e, hedge, hsrc, rfl⟩)
      · have hlayer := (mem_filter.mp hn).1
        have hran : n ∈ (runLayer p outcomes s layer).executed :=
          mem_runLayer_executed.mpr (.inr ⟨⟨hlayer, hs⟩, hsome⟩)
        exact hset n (mem_filter.mpr ⟨hlayer, by simpa using hs⟩) hsome t
          (hopen n (runLayers_executed_subset layers _ hran) ht)
    · intro n hn
      rcases mem_runLayer_executed.mp hn with hn | ⟨⟨hlayer, hs⟩, hsome⟩
      · exact mem_runLayer_executed.mpr (.inl (hexec hn))
      · exact mem_runLayer_executed.mpr (.inr ⟨⟨hlayer, fun h => hs (hskip h)⟩, hsome⟩)

end Monotone

/-! ## When pruning is exact -/

/-- Branch pruning is exact on a run: a node with an incoming edge runs exactly
when one of those edges is not dead, and is skipped exactly when it does not run. -/
def BranchesExact (p : AgentPipeline) (outcomes : String → Outcome) : Prop :=
  ∃ s, branchRun p outcomes = .ok s ∧ ∀ n ∈ p.ids, ¬ p.isRoot n →
    (n ∈ s.executed ↔ ∃ e ∈ p.incoming n, ¬ DeadEdge p outcomes s e) ∧
      (n ∈ s.skipped ↔ n ∉ s.executed)

inductive Live (p : AgentPipeline) (outcomes : String → Outcome) : String → Prop
  | root {n : String} (hn : n ∈ p.ids) (h : p.isRoot n) : Live p outcomes n
  | edge {e : AgentPipelineEdge} (he : e ∈ p.edges) (hs : Live p outcomes e.source)
      (hopen : closes p outcomes e = false) : Live p outcomes e.target

def JoinsLive (p : AgentPipeline) (outcomes : String → Outcome) : Prop :=
  ∀ n, 1 < (p.incoming n).length → (∃ e ∈ p.incoming n, Live p outcomes e.source) →
    Live p outcomes n

theorem incoming_cases (p : AgentPipeline) (n : String) :
    p.isRoot n ∨ (∃ e, p.incoming n = [e]) ∨ 1 < (p.incoming n).length := by
  unfold AgentPipeline.isRoot
  match p.incoming n with
  | [] => exact .inl rfl
  | [e] => exact .inr (.inl ⟨e, rfl⟩)
  | _ :: _ :: _ => exact .inr (.inr (by simp))

theorem Ran.Spec.executed_of_live (h : s.Spec p outcomes) (hlive : Live p outcomes n) :
    n ∈ s.executed := by
  induction hlive with
  | root hn hroot => exact h.root _ hn hroot
  | @edge e he _ hopen ih =>
    have hin : e ∈ p.incoming e.target := AgentPipeline.mem_incoming.mpr ⟨he, rfl⟩
    rcases incoming_cases p e.target with hroot | ⟨e', hone⟩ | hmany
    · rw [AgentPipeline.isRoot] at hroot
      simp [hroot] at hin
    · obtain rfl : e = e' := by simpa [hone] using hin
      exact (h.single _ _ hone).mpr ⟨ih, hopen⟩
    · exact (h.join _ hmany).mpr ⟨e, hin, ih⟩

theorem Ran.Spec.executed_iff_of_open (h : s.Spec p outcomes) (hin : p.incoming n ≠ [])
    (hopen : ∀ e ∈ p.incoming n, closes p outcomes e = false) :
    n ∈ s.executed ↔ ∃ e ∈ p.incoming n, e.source ∈ s.executed := by
  rcases incoming_cases p n with hroot | ⟨e, hone⟩ | hmany
  · exact absurd hroot hin
  · have hopen := hopen e (by simp [hone])
    rw [h.single n e hone, hone]
    simp [hopen]
  · exact h.join n hmany

theorem Dag.induction (d : Dag) {motive : String → Prop}
    (h : ∀ n, (∀ e ∈ d.incoming n, motive e.source) → motive n) (n : String) : motive n := by
  obtain ⟨layers, -, hl⟩ := d.computeLayers_ok
  induction hk : layers.flatten.idxOf n using Nat.strong_induction_on generalizing n with
  | _ k ih =>
    refine h n fun e he => ?_
    obtain ⟨hedge, rfl⟩ := AgentPipeline.mem_incoming.mp he
    have hlt := hl.rank d.wellFormed (AgentPipeline.mem_adjacency.mpr ⟨e, hedge, rfl, rfl⟩)
    exact ih _ (hk ▸ hlt) e.source rfl

theorem branches_exact_iff (d : Dag) (outcomes : String → Outcome) :
    BranchesExact d.toAgentPipeline outcomes ↔ JoinsLive d.toAgentPipeline outcomes := by
  obtain ⟨s, hrun, hspec⟩ := d.branchRun_spec outcomes
  have hsource : ∀ n, ∀ e ∈ d.incoming n, e.source ∈ d.ids ∧ n ∈ d.ids := by
    intro n e he
    obtain ⟨hedge, rfl⟩ := AgentPipeline.mem_incoming.mp he
    exact ⟨d.wellFormed.source_mem e hedge, d.wellFormed.target_mem e hedge⟩
  have hdead : ∀ n, ∀ e ∈ d.incoming n, ¬ DeadEdge d.toAgentPipeline outcomes s e ↔
      e.source ∈ s.executed ∧ closes d.toAgentPipeline outcomes e = false := by
    intro n e he
    rw [DeadEdge, hspec.executed_iff, not_or, Bool.not_eq_true]
    exact and_congr_left fun _ => ⟨fun h => ⟨(hsource n e he).1, h⟩, fun h => h.2⟩
  constructor
  · rintro ⟨s', hrun', hexact⟩
    obtain rfl : s = s' := by simpa [hrun] using hrun'
    -- an executed node has an edge that is not dead, and so on back to a root
    have hlive : ∀ n, n ∈ s.executed → Live d.toAgentPipeline outcomes n := by
      refine d.induction (motive := fun n => n ∈ s.executed → _) fun n ih hn => ?_
      have hids := ((hspec.executed_iff n).mp hn).1
      by_cases hroot : d.isRoot n
      · exact .root hids hroot
      · obtain ⟨e, he, hnot⟩ := (hexact n hids hroot).1.mp hn
        obtain ⟨hx, hopen⟩ := (hdead n e he).mp hnot
        obtain ⟨hedge, rfl⟩ := AgentPipeline.mem_incoming.mp he
        exact .edge hedge (ih e he hx) hopen
    rintro n hmany ⟨e, he, hs⟩
    exact hlive n ((hspec.join n hmany).mpr ⟨e, he, hspec.executed_of_live hs⟩)
  · intro hjoins
    have hlive : ∀ n, n ∈ s.executed → Live d.toAgentPipeline outcomes n := by
      refine d.induction (motive := fun n => n ∈ s.executed → _) fun n ih hn => ?_
      rcases incoming_cases d.toAgentPipeline n with hroot | ⟨e, hone⟩ | hmany
      · exact .root ((hspec.executed_iff n).mp hn).1 hroot
      · obtain ⟨hx, hopen⟩ := (hspec.single n e hone).mp hn
        have he : e ∈ d.incoming n := by simp [hone]
        obtain ⟨hedge, rfl⟩ := AgentPipeline.mem_incoming.mp he
        exact .edge hedge (ih e he hx) hopen
      · obtain ⟨e, he, hx⟩ := (hspec.join n hmany).mp hn
        exact hjoins n hmany ⟨e, he, ih e he hx⟩
    refine ⟨s, hrun, fun n hn hroot => ⟨⟨fun hx => ?_, ?_⟩, ?_⟩⟩
    · cases hlive n hx with
      | root _ h => exact absurd h hroot
      | @edge e he hs hopen =>
        have hin : e ∈ d.incoming e.target := AgentPipeline.mem_incoming.mpr ⟨he, rfl⟩
        exact ⟨e, hin, (hdead _ e hin).mpr ⟨hspec.executed_of_live hs, hopen⟩⟩
    · rintro ⟨e, he, hnot⟩
      obtain ⟨hx, hopen⟩ := (hdead n e he).mp hnot
      obtain ⟨hedge, rfl⟩ := AgentPipeline.mem_incoming.mp he
      exact hspec.executed_of_live (.edge hedge (hlive _ hx) hopen)
    · rw [hspec.executed_iff]
      tauto

/-- Two options of a decision lead to one action, the third asks a person. -/
def sharedAction : Dag :=
  { nodes := [⟨"input", .input, none, none⟩, ⟨"triage", .decision, none, none⟩,
      ⟨"act", .toolCall, none, none⟩, ⟨"ask", .llmCall, none, none⟩]
    edges := [⟨"input", "triage", none, none⟩, ⟨"triage", "act", some "refund", none⟩,
      ⟨"triage", "act", some "credit", none⟩, ⟨"triage", "ask", some "unknown", none⟩]
    wellFormed := ⟨by decide, by decide, by decide⟩
    acyclic := acyclic_of_computeLayers ⟨by decide, by decide, by decide⟩
      (show computeLayers _ = .ok [["input"], ["triage"], ["act", "ask"]] by decide) }

/-- Both edges into the action are untaken, and it runs all the same: its source was not skipped. -/
theorem branches_not_exact_shared_action :
    ¬ BranchesExact sharedAction.toAgentPipeline
      (fun id => if id = "triage" then .decision (some "unknown") else .success) := by
  rintro ⟨s, hrun, hexact⟩
  have hs : s = { executed := ["input", "triage", "act", "ask"], skipped := [] } := by
    have : branchRun sharedAction.toAgentPipeline
        (fun id => if id = "triage" then .decision (some "unknown") else .success)
        = .ok { executed := ["input", "triage", "act", "ask"], skipped := [] } := by decide
    rw [this] at hrun
    exact (Except.ok.inj hrun).symm
  subst hs
  obtain ⟨e, he, hnot⟩ := ((hexact "act" (by decide) (by decide)).1).mp (by decide)
  have hall : ∀ e ∈ sharedAction.incoming "act", closes sharedAction.toAgentPipeline
      (fun id => if id = "triage" then .decision (some "unknown") else .success) e = true := by
    decide
  exact hnot (.inr (hall e he))

end Almyty.Workflow
