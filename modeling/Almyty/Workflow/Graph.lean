import Almyty.Lib.Json
import Almyty.Lib.Kahn

/-!
# The graph of a workflow: `agent-execution-graph.helper.ts`

A pipeline is a list of nodes and a list of edges. `buildGraph` reads its adjacency lists and
in-degrees off the edges, `computeLayers` sorts the nodes into layers that can run in parallel, and
`markBranchAsSkipped` marks a node and what hangs off it as skipped, stopping at a node that still
has another source.

Mirroring notes:
- The maps of `buildGraph` are functions of the edges; a missing key reads as the empty list or 0,
  as `|| []` and `|| 0` do.
- `computeLayers` and `markBranchAsSkipped` recurse on a bound: a layer after the first holds the
  target of an edge, once each, and so does every recursion of a mark, so the number of edges bounds
  both.
-/

namespace Almyty.Workflow

open Almyty.Lib List

/-! ## Pipelines -/

inductive NodeType
  | input | output | condition | decision | merge | parallel | subAgent | toolCall | llmCall
  | transform | code | loop | verify
  | other (name : String)
  deriving DecidableEq

structure AgentPipelineNode where
  id : String
  type : NodeType
  data : Option Json := none
  config : Option Json := none
  deriving DecidableEq

structure AgentPipelineEdge where
  source : String
  target : String
  sourceHandle : Option String := none
  label : Option String := none
  deriving DecidableEq

structure AgentPipeline where
  nodes : List AgentPipelineNode
  edges : List AgentPipelineEdge
  deriving DecidableEq

def AgentPipelineEdge.handle (edge : AgentPipelineEdge) : String :=
  match edge.sourceHandle with
  | some h => if h = "" then edge.label.getD "" else h
  | none => edge.label.getD ""

namespace AgentPipeline

def ids (p : AgentPipeline) : List String := p.nodes.map (·.id)

def node (p : AgentPipeline) (id : String) : Option AgentPipelineNode :=
  p.nodes.reverse.find? (·.id = id)

def outgoing (p : AgentPipeline) (id : String) : List AgentPipelineEdge :=
  p.edges.filter (·.source = id)

def incoming (p : AgentPipeline) (id : String) : List AgentPipelineEdge :=
  p.edges.filter (·.target = id)

def adjacency (p : AgentPipeline) (id : String) : List String :=
  (p.outgoing id).map (·.target)

def inDegree (p : AgentPipeline) (id : String) : Int := (p.incoming id).length

theorem mem_outgoing {p : AgentPipeline} {id : String} {e : AgentPipelineEdge} :
    e ∈ p.outgoing id ↔ e ∈ p.edges ∧ e.source = id := by
  simp [outgoing]

theorem mem_incoming {p : AgentPipeline} {id : String} {e : AgentPipelineEdge} :
    e ∈ p.incoming id ↔ e ∈ p.edges ∧ e.target = id := by
  simp [incoming]

theorem mem_adjacency {p : AgentPipeline} {s t : String} :
    t ∈ p.adjacency s ↔ ∃ e ∈ p.edges, e.source = s ∧ e.target = t := by
  simp only [adjacency, mem_map, mem_outgoing]
  exact ⟨fun ⟨e, ⟨he, hs⟩, ht⟩ => ⟨e, he, hs, ht⟩, fun ⟨e, he, hs, ht⟩ => ⟨e, ⟨he, hs⟩, ht⟩⟩

/-- A node nothing leads to: the first layer. -/
def isRoot (p : AgentPipeline) (id : String) : Prop := p.incoming id = []

instance (p : AgentPipeline) (id : String) : Decidable (p.isRoot id) :=
  inferInstanceAs (Decidable (_ = _))

structure WellFormed (p : AgentPipeline) : Prop where
  nodup : p.ids.Nodup
  source_mem : ∀ e ∈ p.edges, e.source ∈ p.ids
  target_mem : ∀ e ∈ p.edges, e.target ∈ p.ids

/-- No node leads back to itself. -/
def Acyclic (p : AgentPipeline) : Prop := Kahn.Acyclic fun s t => t ∈ p.adjacency s

end AgentPipeline

structure Dag extends AgentPipeline where
  wellFormed : toAgentPipeline.WellFormed
  acyclic : toAgentPipeline.Acyclic

/-! ## Layers -/

def cycleError : String := "Pipeline contains a cycle — topological sort failed"

/-- Execution layers, by Kahn's algorithm with level tracking. -/
def computeLayers (p : AgentPipeline) : Except String (List (List String)) :=
  let first := p.ids.filter fun id => p.inDegree id = 0
  let layers := Kahn.layersFrom p.adjacency (p.nodes.length + p.edges.length + 1) p.inDegree first
  if layers.flatten.length = p.nodes.length then .ok layers else .error cycleError

namespace AgentPipeline

variable {p : AgentPipeline}

theorem WellFormed.adjacency_mem (h : p.WellFormed) {s t : String} (ht : t ∈ p.adjacency s) :
    s ∈ p.ids ∧ t ∈ p.ids := by
  obtain ⟨e, he, rfl, rfl⟩ := mem_adjacency.mp ht
  exact ⟨h.source_mem e he, h.target_mem e he⟩

theorem WellFormed.inDegree_eq (h : p.WellFormed) (id : String) :
    p.inDegree id = (p.ids.flatMap p.adjacency).count id := by
  rw [inDegree, incoming, Kahn.length_into_eq_count (·.source) (·.target) h.nodup p.edges
    h.source_mem id]
  rfl

theorem WellFormed.progress (h : p.WellFormed) :
    Kahn.Progress p.ids p.adjacency [] (p.ids.filter fun id => p.inDegree id = 0)
      (p.ids.filter fun id => !decide (p.inDegree id = 0)) p.inDegree :=
  Kahn.progress_start p.inDegree h.inDegree_eq

theorem WellFormed.layersFrom_spec (h : p.WellFormed) {fuel : Nat} (hfuel : p.nodes.length ≤ fuel) :
    let layers := Kahn.layersFrom p.adjacency fuel p.inDegree
      (p.ids.filter fun id => p.inDegree id = 0)
    Kahn.SourcesBefore p.ids p.adjacency [] layers ∧
      ∃ left, Kahn.Stuck p.adjacency left ∧ (layers.flatten ++ left).Perm p.ids := by
  have hlen := h.progress.perm.length_eq
  simp only [nil_append, length_append, ids, length_map] at hlen
  exact Kahn.layersFrom_spec h.nodup (fun s _ t ht => (h.adjacency_mem ht).2) h.progress
    (by simp only [ids]; omega)

end AgentPipeline

structure Layering (p : AgentPipeline) (layers : List (List String)) : Prop where
  before : Kahn.SourcesBefore p.ids p.adjacency [] layers
  perm : layers.flatten.Perm p.ids

variable {layers : List (List String)}

theorem layering_of_computeLayers {p : AgentPipeline} (h : p.WellFormed)
    (hok : computeLayers p = .ok layers) : Layering p layers := by
  obtain ⟨hbefore, left, -, hperm⟩ :=
    h.layersFrom_spec (show p.nodes.length ≤ p.nodes.length + p.edges.length + 1 by omega)
  simp only [computeLayers] at hok
  split at hok
  · next hlen =>
    cases hok
    -- as many nodes as there are, so none is left over
    have hleft : left = [] := by
      have := hperm.length_eq
      simp only [length_append, AgentPipeline.ids, length_map] at this hlen
      apply length_eq_zero_iff.mp
      omega
    subst hleft
    exact ⟨hbefore, by simpa using hperm⟩
  · cases hok

theorem Layering.rank {p : AgentPipeline} (h : p.WellFormed) (hl : Layering p layers) {s t : String}
    (he : t ∈ p.adjacency s) :
    layers.flatten.idxOf s < layers.flatten.idxOf t := by
  obtain ⟨hs, ht⟩ := h.adjacency_mem he
  exact hl.before.idxOf_lt [] (by simpa using hl.perm.nodup_iff.mpr h.nodup) he hs
    (hl.perm.mem_iff.mpr ht)

theorem acyclic_of_computeLayers {p : AgentPipeline} (h : p.WellFormed)
    (hok : computeLayers p = .ok layers) : p.Acyclic :=
  Kahn.acyclic_of_rank layers.flatten.idxOf fun _ _ he =>
    (layering_of_computeLayers h hok).rank h he

theorem Dag.computeLayers_ok (d : Dag) :
    ∃ layers, computeLayers d.toAgentPipeline = .ok layers ∧ Layering d.toAgentPipeline layers := by
  obtain ⟨hbefore, left, hstuck, hperm⟩ := d.wellFormed.layersFrom_spec
    (show d.nodes.length ≤ d.nodes.length + d.edges.length + 1 by omega)
  obtain rfl := hstuck.eq_nil d.acyclic
  rw [append_nil] at hperm
  refine ⟨_, if_pos ?_, hbefore, hperm⟩
  simpa [AgentPipeline.ids] using hperm.length_eq

/-! ## Marking -/

def markFrom (p : AgentPipeline) : Nat → String → List String → List String
  | 0, _, skipped => skipped
  | fuel + 1, id, skipped =>
    if id ∈ skipped then skipped
    else
      let hasLiveIncoming := (p.incoming id).any fun e => e.source ∉ skipped
      if hasLiveIncoming && 1 < (p.incoming id).length then skipped
      else (p.adjacency id).foldl (fun s t => markFrom p fuel t s) (id :: skipped)

def markBranchAsSkipped (p : AgentPipeline) (id : String) (skipped : List String) : List String :=
  markFrom p (p.edges.length + 1) id skipped

section Marking

variable {p : AgentPipeline}

def Settled (p : AgentPipeline) (skipped : List String) (id : String) : Prop :=
  id ∈ skipped ∨ 1 < (p.incoming id).length ∧ ∃ e ∈ p.incoming id, e.source ∉ skipped

def Because (p : AgentPipeline) (direct : String → Prop) (skipped : List String) (id : String) :
    Prop :=
  ((p.incoming id).length ≤ 1 ∧ (direct id ∨ ∃ e ∈ p.incoming id, e.source ∈ skipped)) ∨
    (1 < (p.incoming id).length ∧ ∀ e ∈ p.incoming id, e.source ∈ skipped)

structure Extends (p : AgentPipeline) (direct : String → Prop) (before after : List String) :
    Prop where
  subset : before ⊆ after
  because : ∀ id ∈ after, id ∉ before → Because p direct after id
  behind : ∀ id ∈ after, id ∉ before → ∀ t ∈ p.adjacency id, Settled p after t
  reached : ∀ id ∈ after, id ∉ before →
    ∃ d, direct d ∧ Relation.ReflTransGen (fun s t => t ∈ p.adjacency s) d id

variable {direct : String → Prop} {before middle after : List String} {id : String}

theorem Because.mono (h : Because p direct before id) (hsub : before ⊆ after) :
    Because p direct after id := by
  rcases h with ⟨hlen, hd | ⟨e, he, hs⟩⟩ | ⟨hlen, hall⟩
  · exact .inl ⟨hlen, .inl hd⟩
  · exact .inl ⟨hlen, .inr ⟨e, he, hsub hs⟩⟩
  · exact .inr ⟨hlen, fun e he => hsub (hall e he)⟩

/-- A settled node stays settled: a source it waited for, once skipped, has a
mark arrive. -/
theorem Settled.extends (h : Settled p before id) (hx : Extends p direct before after) :
    Settled p after id := by
  rcases h with hmem | ⟨hlen, e, he, hlive⟩
  · exact .inl (hx.subset hmem)
  · by_cases hs : e.source ∈ after
    · obtain ⟨hedge, rfl⟩ := AgentPipeline.mem_incoming.mp he
      exact hx.behind e.source hs hlive e.target
        (AgentPipeline.mem_adjacency.mpr ⟨e, hedge, rfl, rfl⟩)
    · exact .inr ⟨hlen, e, he, hs⟩

theorem Extends.refl (p : AgentPipeline) (direct : String → Prop) (skipped : List String) :
    Extends p direct skipped skipped :=
  ⟨fun _ h => h, fun _ h hn => absurd h hn, fun _ h hn => absurd h hn, fun _ h hn => absurd h hn⟩

theorem Extends.trans (h : Extends p direct before middle) (h' : Extends p direct middle after) :
    Extends p direct before after := by
  refine ⟨fun _ hm => h'.subset (h.subset hm), fun id hid hn => ?_, fun id hid hn t ht => ?_,
    fun id hid hn => ?_⟩
  all_goals by_cases hm : id ∈ middle
  · exact (h.because id hm hn).mono h'.subset
  · exact h'.because id hid hm
  · exact (h.behind id hm hn t ht).extends h'
  · exact h'.behind id hid hm t ht
  · exact h.reached id hm hn
  · exact h'.reached id hid hm

theorem Extends.weaken {direct' : String → Prop} (h : Extends p direct before after)
    (hd : ∀ id, direct id → direct' id) : Extends p direct' before after := by
  refine ⟨h.subset, fun id hid hn => ?_, h.behind, fun id hid hn => ?_⟩
  · rcases h.because id hid hn with ⟨hlen, hdir | hsrc⟩ | hall
    · exact .inl ⟨hlen, .inl (hd id hdir)⟩
    · exact .inl ⟨hlen, .inr hsrc⟩
    · exact .inr hall
  · obtain ⟨d, hdir, hreach⟩ := h.reached id hid hn
    exact ⟨d, hd d hdir, hreach⟩

theorem foldl_marks (mark : String → List String → List String) (targets start : List String)
    (hmark : ∀ t ∈ targets, ∀ skipped, start ⊆ skipped →
      Extends p (· = t) skipped (mark t skipped) ∧ Settled p (mark t skipped) t) :
    ∀ skipped, start ⊆ skipped →
      Extends p (· ∈ targets) skipped (targets.foldl (fun s t => mark t s) skipped) ∧
        ∀ t ∈ targets, Settled p (targets.foldl (fun s t => mark t s) skipped) t := by
  induction targets with
  | nil => exact fun skipped _ => ⟨.refl .., by simp⟩
  | cons t targets ih =>
    intro skipped hsub
    obtain ⟨hone, hset⟩ := hmark t mem_cons_self skipped hsub
    obtain ⟨hrest, hsets⟩ := ih (fun t' ht' => hmark t' (mem_cons_of_mem _ ht'))
      (mark t skipped) fun _ hm => hone.subset (hsub hm)
    refine ⟨(hone.weaken fun _ h => ?_).trans (hrest.weaken fun _ h => ?_), ?_⟩
    · exact h ▸ mem_cons_self
    · exact mem_cons_of_mem _ h
    · intro t' ht'
      rcases mem_cons.mp ht' with rfl | ht'
      · exact hset.extends hrest
      · exact hsets t' ht'

/-- The targets a mark may still take up. -/
def unskipped (p : AgentPipeline) (skipped : List String) : List String :=
  (p.edges.map (·.target)).filter (· ∉ skipped)

theorem unskipped_le (h : before ⊆ after) :
    (unskipped p after).length ≤ (unskipped p before).length := by
  simp only [unskipped, ← countP_eq_length_filter]
  apply countP_mono_left
  intro id _ hid
  simp only [decide_eq_true_eq] at hid ⊢
  exact fun hb => hid (h hb)

theorem unskipped_lt (hid : id ∈ p.edges.map (·.target)) (hn : id ∉ before) :
    (unskipped p (id :: before)).length < (unskipped p before).length := by
  have hsplit : unskipped p (id :: before) = (unskipped p before).filter (· ≠ id) := by
    simp only [unskipped, filter_filter]
    apply filter_congr
    intro t _
    by_cases h : t = id <;> simp [h]
  rw [hsplit]
  apply length_filter_lt_length_iff_exists.mpr
  exact ⟨id, mem_filter.mpr ⟨hid, by simpa using hn⟩, by simp⟩

theorem markFrom_spec {fuel : Nat} {skipped : List String} (hid : id ∈ p.edges.map (·.target))
    (hfuel : (unskipped p skipped).length < fuel) :
    Extends p (· = id) skipped (markFrom p fuel id skipped) ∧
      Settled p (markFrom p fuel id skipped) id := by
  induction fuel generalizing id skipped with
  | zero => exact absurd hfuel (Nat.not_lt_zero _)
  | succ fuel ih =>
    unfold markFrom
    split
    · next hmem => exact ⟨.refl .., .inl hmem⟩
    · next hnot =>
      dsimp only
      split
      · next hlive =>
        simp only [Bool.and_eq_true, any_eq_true, decide_eq_true_eq] at hlive
        obtain ⟨⟨e, he, hs⟩, hlen⟩ := hlive
        exact ⟨.refl .., .inr ⟨hlen, e, he, hs⟩⟩
      · next hdead =>
        have hlt := unskipped_lt hid hnot
        -- the marks of the neighbours, from the set with the node itself in it
        obtain ⟨hfold, hset⟩ := foldl_marks (markFrom p fuel) (p.adjacency id) (id :: skipped)
          (by
            intro t ht s hs
            obtain ⟨e, he, -, rfl⟩ := AgentPipeline.mem_adjacency.mp ht
            have hle := unskipped_le (p := p) hs
            exact ih (mem_map_of_mem he) (by omega)) (id :: skipped) fun _ h => h
        have hself := hfold.subset mem_cons_self
        have hsub := fun m (hm : m ∈ skipped) => hfold.subset (mem_cons_of_mem id hm)
        have hnew : ∀ m, m ≠ id → m ∉ skipped → m ∉ id :: skipped := by
          intro m hne hm
          simp [hne, hm]
        refine ⟨⟨hsub, fun m hm hn => ?_, fun m hm hn => ?_, fun m hm hn => ?_⟩, .inl hself⟩
        all_goals by_cases hne : m = id
        · subst hne
          by_cases hlen : 1 < (p.incoming m).length
          · -- several edges, and no live source left
            refine .inr ⟨hlen, fun e he => hsub _ ?_⟩
            apply Classical.byContradiction
            intro hs
            apply hdead
            simp only [Bool.and_eq_true, any_eq_true, decide_eq_true_eq]
            exact ⟨⟨e, he, hs⟩, hlen⟩
          · exact .inl ⟨Nat.le_of_not_lt hlen, .inl rfl⟩
        · rcases hfold.because m hm (hnew m hne hn) with ⟨hlen, hdir | hsrc⟩ | hall
          · obtain ⟨e, he, hs, ht⟩ := AgentPipeline.mem_adjacency.mp hdir
            exact .inl ⟨hlen, .inr ⟨e, AgentPipeline.mem_incoming.mpr ⟨he, ht⟩, hs ▸ hself⟩⟩
          · exact .inl ⟨hlen, .inr hsrc⟩
          · exact .inr hall
        · exact hne ▸ hset
        · exact hfold.behind m hm (hnew m hne hn)
        · exact ⟨id, rfl, hne ▸ .refl⟩
        · obtain ⟨d, hd, hreach⟩ := hfold.reached m hm (hnew m hne hn)
          exact ⟨id, rfl, .head hd hreach⟩

theorem markBranchAsSkipped_spec (hid : id ∈ p.edges.map (·.target)) (skipped : List String) :
    Extends p (· = id) skipped (markBranchAsSkipped p id skipped) ∧
      Settled p (markBranchAsSkipped p id skipped) id := by
  refine markFrom_spec hid (Nat.lt_succ_of_le ?_)
  calc (unskipped p skipped).length ≤ (p.edges.map (·.target)).length := length_filter_le ..
    _ = p.edges.length := length_map ..

end Marking

end Almyty.Workflow
