import Almyty.Lib.Attempt
import Almyty.Workflow.Validation

/-!
# How many outputs of an accepted pipeline run

What `validatePipeline` establishes about the graph is a `Dag` whose only root is
the input node (`Accepted`). On such a graph the nodes that run are the ends of
paths from the input that no outcome cuts (`Ran.Spec.executed_iff_path`), where
only an edge into a node with one incoming edge can be cut: at a join any source
that ran is enough. Whether two outputs can both run is then a question about two
paths, node by node (`one_answer_iff`).
-/

namespace Almyty.Workflow

open Almyty.Lib List Option

/-! ## What acceptance says -/

structure Accepted (p : AgentPipeline) : Prop where
  wellFormed : p.WellFormed
  acyclic : p.Acyclic
  input_mem : p.inputId ∈ p.ids
  reached : ∀ n ∈ p.ids, Relation.ReflTransGen (fun s t => t ∈ p.adjacency s) p.inputId n

variable {p : AgentPipeline}

theorem AgentPipeline.WellFormed.sorted (h : p.WellFormed) :
    let sorted := Kahn.sortFrom p.adjacency (p.nodes.length + p.edges.length + 1) p.inDegree
      (p.ids.filter fun id => p.inDegree id = 0)
    Kahn.SourcesBefore p.ids p.adjacency [] (sorted.map ([·])) ∧
      ∃ left, Kahn.Stuck p.adjacency left ∧ (sorted ++ left).Perm p.ids := by
  have hlen := h.progress.perm.length_eq
  simp only [nil_append, length_append, AgentPipeline.ids, length_map] at hlen
  have hfuel : (p.ids.filter fun id => p.inDegree id = 0).length
      + (p.ids.filter fun id => !decide (p.inDegree id = 0)).length
      ≤ p.nodes.length + p.edges.length + 1 := by
    simp only [AgentPipeline.ids]
    omega
  have hsucc : ∀ s ∈ p.ids, ∀ t ∈ p.adjacency s, t ∈ p.ids :=
    fun s _ t ht => (h.adjacency_mem ht).2
  exact Kahn.sortFrom_spec h.nodup hsucc h.progress hfuel

theorem acyclic_of_checkForCycles (h : p.WellFormed) (hok : checkForCycles p = .ok ()) :
    p.Acyclic := by
  obtain ⟨hbefore, left, -, hperm⟩ := h.sorted
  simp only [checkForCycles, require_eq_ok, decide_eq_true_eq] at hok
  -- the sort took up as many nodes as there are, so it left none
  have hleft : left = [] := by
    have := hperm.length_eq
    have hids : p.ids.length = p.nodes.length := length_map ..
    rw [length_append, hids, hok] at this
    apply length_eq_zero_iff.mp
    omega
  rw [hleft, append_nil, ← flatMap_singleton' (Kahn.sortFrom _ _ _ _)] at hperm
  apply Kahn.acyclic_of_rank
  intro s t he
  obtain ⟨hs, ht⟩ := h.adjacency_mem he
  exact hbefore.idxOf_lt [] (hperm.nodup_iff.mpr h.nodup) he hs (hperm.mem_iff.mpr ht)

theorem visitFrom_reached {start : String} {fuel : Nat} {stack visited : List String}
    (h : ∀ n ∈ stack ++ visited, Relation.ReflTransGen (fun s t => t ∈ p.adjacency s) start n) :
    ∀ n ∈ visitFrom p fuel stack visited,
      Relation.ReflTransGen (fun s t => t ∈ p.adjacency s) start n := by
  induction fuel generalizing stack visited with
  | zero => exact fun n hn => h n (mem_append_right _ hn)
  | succ fuel ih =>
    cases stack with
    | nil => exact fun n hn => h n hn
    | cons id stack =>
      unfold visitFrom
      split
      · exact ih fun n hn => h n (mem_cons_of_mem _ hn)
      · refine ih fun n hn => ?_
        have hid := h id (by simp)
        simp only [mem_append, mem_reverse, mem_cons] at hn
        rcases hn with (hadj | hstack) | rfl | hvisited
        · exact hid.tail hadj
        · exact h n (by simp [hstack])
        · exact hid
        · exact h n (by simp [hvisited])

theorem accepted_of_validatePipeline {localeCompare : String → String → Ordering}
    {agentId : Option String} (h : validatePipeline localeCompare (some p) agentId = .ok ()) :
    Accepted p := by
  simp only [validatePipeline, andThen_eq_ok, require_eq_ok, decide_eq_true_eq, checkIds,
    Attempt.forM_ok, checkEdge, checkOutputReachable, List.isEmpty_iff] at h
  obtain ⟨hinput, -, hnodup, hedges, -, hcycles, ⟨-, hreach⟩, -⟩ := h
  have hwf : p.WellFormed :=
    ⟨hnodup, fun e he => (hedges e he).1, fun e he => (hedges e he).2⟩
  refine ⟨hwf, acyclic_of_checkForCycles hwf hcycles, ?_, fun n hn => ?_⟩
  · cases hin : p.ofType .input with
    | nil => simp [hin] at hinput
    | cons node _ =>
      have hmem : node ∈ p.nodes := (mem_filter.mp (hin ▸ mem_cons_self)).1
      simp only [AgentPipeline.inputId, hin, List.head?_cons, map_some, getD_some]
      exact mem_map_of_mem hmem
  · have hvisited : n ∈ visitFrom p (p.edges.length + 2) [p.inputId] [] := by
      apply Classical.byContradiction
      intro hno
      have : n ∈ p.ids.filter (· ∉ visitFrom p (p.edges.length + 2) [p.inputId] []) :=
        mem_filter.mpr ⟨hn, by simpa using hno⟩
      rw [hreach] at this
      simp at this
    refine visitFrom_reached (fun m hm => ?_) n hvisited
    rw [append_nil, mem_singleton] at hm
    exact hm ▸ .refl

def Accepted.toDag {p : AgentPipeline} (h : Accepted p) : Dag :=
  { p with wellFormed := h.wellFormed, acyclic := h.acyclic }

@[simp] theorem Accepted.toDag_toAgentPipeline (h : Accepted p) :
    h.toDag.toAgentPipeline = p := rfl

theorem Accepted.isRoot_iff (h : Accepted p) {n : String} (hn : n ∈ p.ids) :
    p.isRoot n ↔ n = p.inputId := by
  constructor
  · intro hroot
    rcases Relation.reflTransGen_iff_eq_or_transGen.mp (h.reached n hn) with heq | htrans
    · exact heq
    · obtain ⟨s, -, hs⟩ := Relation.TransGen.tail'_iff.mp htrans
      obtain ⟨e, he, -, ht⟩ := AgentPipeline.mem_adjacency.mp hs
      have hin : e ∈ p.incoming n := AgentPipeline.mem_incoming.mpr ⟨he, ht⟩
      rw [AgentPipeline.isRoot] at hroot
      simp [hroot] at hin
  · rintro rfl
    apply eq_nil_iff_forall_not_mem.mpr
    intro e he
    obtain ⟨hedge, ht⟩ := AgentPipeline.mem_incoming.mp he
    -- an edge back into the input closes a cycle through its source
    have hback : p.inputId ∈ p.adjacency e.source :=
      AgentPipeline.mem_adjacency.mpr ⟨e, hedge, rfl, ht⟩
    exact h.acyclic _ (.tail' (h.reached _ (h.wellFormed.source_mem e hedge)) hback)

/-! ## Paths -/

inductive Path (p : AgentPipeline) (start : String) : List AgentPipelineEdge → String → Prop
  | nil : Path p start [] start
  | snoc {es : List AgentPipelineEdge} {e : AgentPipelineEdge} (hpath : Path p start es e.source)
      (he : e ∈ p.edges) : Path p start (es ++ [e]) e.target

theorem Path.edges {start n : String} {es : List AgentPipelineEdge} (h : Path p start es n) :
    ∀ e ∈ es, e ∈ p.edges := by
  induction h with
  | nil => simp
  | snoc _ he ih =>
    intro e' he'
    rcases mem_append.mp he' with he' | he'
    · exact ih e' he'
    · exact mem_singleton.mp he' ▸ he

def Prunes (p : AgentPipeline) (e : AgentPipelineEdge) : Prop := (p.incoming e.target).length = 1

theorem Ran.Spec.executed_iff_path {outcomes : String → Outcome} {s : Ran} (h : Accepted p)
    (hspec : s.Spec p outcomes) (n : String) :
    n ∈ s.executed ↔ ∃ es, Path p p.inputId es n ∧
      ∀ e ∈ es, Prunes p e → closes p outcomes e = false := by
  constructor
  · revert n
    refine h.toDag.induction (motive := fun n => n ∈ s.executed → _) fun n ih hn => ?_
    rw [Accepted.toDag_toAgentPipeline] at ih
    rcases incoming_cases p n with hroot | ⟨e, hone⟩ | hmany
    · have hids := ((hspec.executed_iff n).mp hn).1
      obtain rfl := (h.isRoot_iff hids).mp hroot
      exact ⟨[], .nil, by simp⟩
    · obtain ⟨hx, hopen⟩ := (hspec.single n e hone).mp hn
      have he : e ∈ p.incoming n := by simp [hone]
      obtain ⟨es, hpath, hes⟩ := ih e he hx
      obtain ⟨hedge, rfl⟩ := AgentPipeline.mem_incoming.mp he
      refine ⟨es ++ [e], .snoc hpath hedge, fun e' he' hp => ?_⟩
      rcases mem_append.mp he' with he' | he'
      · exact hes e' he' hp
      · exact mem_singleton.mp he' ▸ hopen
    · obtain ⟨e, he, hx⟩ := (hspec.join n hmany).mp hn
      obtain ⟨es, hpath, hes⟩ := ih e he hx
      obtain ⟨hedge, rfl⟩ := AgentPipeline.mem_incoming.mp he
      refine ⟨es ++ [e], .snoc hpath hedge, fun e' he' hp => ?_⟩
      rcases mem_append.mp he' with he' | he'
      · exact hes e' he' hp
      · rw [mem_singleton.mp he', Prunes] at hp
        omega
  · rintro ⟨es, hpath, hes⟩
    induction hpath with
    | nil => exact hspec.root _ h.input_mem ((h.isRoot_iff h.input_mem).mpr rfl)
    | @snoc es e hpath he ih =>
      have hsource := ih fun e' he' => hes e' (mem_append_left _ he')
      have hin : e ∈ p.incoming e.target := AgentPipeline.mem_incoming.mpr ⟨he, rfl⟩
      rcases incoming_cases p e.target with hroot | ⟨e', hone⟩ | hmany
      · rw [AgentPipeline.isRoot] at hroot
        simp [hroot] at hin
      · obtain rfl : e = e' := by simpa [hone] using hin
        exact (hspec.single _ _ hone).mpr ⟨hsource, hes e (by simp) (by simp [Prunes, hone])⟩
      · exact (hspec.join _ hmany).mpr ⟨e, hin, hsource⟩

/-! ## One answer -/

def Possible (node : AgentPipelineNode) : Outcome → Prop
  | .failure => True
  | .success | .waiting => node.type ≠ .condition ∧ node.type ≠ .decision
  | .condition _ => node.type = .condition
  | .decision chosen => node.type = .decision ∧ ∃ id ∈ declaredIds node,
      chosen = match id with
        | some (.str s) => some s
        | _ => none

/-- At most one output node runs. -/
def OneAnswer (p : AgentPipeline) (outcomes : String → Outcome) : Prop :=
  ∃ s, branchRun p outcomes = .ok s ∧ ∀ a ∈ p.ofType .output, ∀ b ∈ p.ofType .output,
    a.id ∈ s.executed → b.id ∈ s.executed → a = b

/-- Two paths from the input to different outputs part at a node: whatever its
outcome, it closes an edge of one of them that the engine prunes at. -/
def OutputsKeptApart (p : AgentPipeline) : Prop :=
  ∀ a ∈ p.ofType .output, ∀ b ∈ p.ofType .output, a ≠ b →
    ∀ es fs, Path p p.inputId es a.id → Path p p.inputId fs b.id →
      ∃ node ∈ p.nodes, ∀ outcome, Possible node outcome →
        ∃ e ∈ es ++ fs, e.source = node.id ∧ Prunes p e ∧ closedBy p outcome e = true

/-- An accepted pipeline gives at most one answer exactly when its outputs are kept apart. -/
theorem one_answer_iff (localeCompare : String → String → Ordering) (p : AgentPipeline)
    (agentId : Option String)
    (h : validatePipeline localeCompare (some p) agentId = .ok ()) :
    (∀ outcomes : String → Outcome, (∀ node ∈ p.nodes, Possible node (outcomes node.id)) →
      OneAnswer p outcomes) ↔ OutputsKeptApart p := by
  have hacc := accepted_of_validatePipeline h
  constructor
  · intro hone a ha b hb hne es fs hes hfs
    apply Classical.byContradiction
    intro hnot
    -- every node has an outcome that leaves its edges on the two paths open
    have hopen : ∀ node : AgentPipelineNode, ∃ outcome, node ∈ p.nodes →
        Possible node outcome ∧
          ∀ e ∈ es ++ fs, e.source = node.id → Prunes p e → closedBy p outcome e = false := by
      intro node
      by_cases hnode : node ∈ p.nodes
      · apply Classical.byContradiction
        intro hno
        refine hnot ⟨node, hnode, fun outcome hposs => ?_⟩
        apply Classical.byContradiction
        intro hcut
        refine hno ⟨outcome, fun _ => ⟨hposs, fun e he hs hp => ?_⟩⟩
        apply Classical.byContradiction
        intro hc
        exact hcut ⟨e, he, hs, hp, by simpa using hc⟩
      · exact ⟨.failure, fun h => absurd h hnode⟩
    choose pick hpick using hopen
    let outcomes : String → Outcome := fun id => ((p.node id).map pick).getD .failure
    have hout : ∀ node ∈ p.nodes, outcomes node.id = pick node := by
      intro node hnode
      simp only [outcomes, hacc.wellFormed.node_eq hnode, map_some, getD_some]
    obtain ⟨s, hrun, hat⟩ := hone outcomes fun node hnode => by
      rw [hout node hnode]
      exact (hpick node hnode).1
    obtain ⟨s', hrun', hspec⟩ := hacc.toDag.branchRun_spec outcomes
    rw [Accepted.toDag_toAgentPipeline] at hrun' hspec
    obtain rfl : s = s' := by simpa [hrun] using hrun'
    have hlive : ∀ e ∈ es ++ fs, e ∈ p.edges → Prunes p e → closes p outcomes e = false := by
      intro e he hedge hp
      obtain ⟨node, hnode, hid⟩ := mem_map.mp (hacc.wellFormed.source_mem e hedge)
      rw [closes, ← hid, hout node hnode]
      exact (hpick node hnode).2 e he hid.symm hp
    refine hne (hat a ha b hb ?_ ?_)
    · exact (hspec.executed_iff_path hacc a.id).mpr
        ⟨es, hes, fun e he hp => hlive e (mem_append_left _ he) (hes.edges e he) hp⟩
    · exact (hspec.executed_iff_path hacc b.id).mpr
        ⟨fs, hfs, fun e he hp => hlive e (mem_append_right _ he) (hfs.edges e he) hp⟩
  · intro hapart outcomes hposs
    obtain ⟨s, hrun, hspec⟩ := hacc.toDag.branchRun_spec outcomes
    rw [Accepted.toDag_toAgentPipeline] at hrun hspec
    refine ⟨s, hrun, fun a ha b hb hxa hxb => ?_⟩
    obtain ⟨es, hes, hopenA⟩ := (hspec.executed_iff_path hacc a.id).mp hxa
    obtain ⟨fs, hfs, hopenB⟩ := (hspec.executed_iff_path hacc b.id).mp hxb
    apply Classical.byContradiction
    intro hne
    obtain ⟨node, hnode, hcut⟩ := hapart a ha b hb hne es fs hes hfs
    obtain ⟨e, he, hs, hp, hc⟩ := hcut _ (hposs node hnode)
    rw [← hs] at hc
    rcases mem_append.mp he with he | he
    · exact absurd hc (by simpa [closes] using hopenA e he hp)
    · exact absurd hc (by simpa [closes] using hopenB e he hp)

/-- One condition after another, each with a branch into the first output: the
second output is on the other branch of the second condition. -/
def nestedConditions : AgentPipeline :=
  { nodes := [⟨"input", .input, none, none⟩,
      ⟨"c", .condition, some (.obj [("expression", .str "input.a")]), none⟩,
      ⟨"d", .condition, some (.obj [("expression", .str "input.b")]), none⟩,
      ⟨"first", .output, none, none⟩, ⟨"second", .output, none, none⟩]
    edges := [⟨"input", "c", none, none⟩, ⟨"c", "first", some "true", none⟩,
      ⟨"c", "d", some "false", none⟩, ⟨"d", "first", some "true", none⟩,
      ⟨"d", "second", some "false", none⟩] }

/-- Both conditions come out false, and both outputs of the accepted pipeline run. -/
theorem two_answers_nested_conditions :
    validatePipeline compare (some nestedConditions) none = .ok () ∧
      ¬ ∀ outcomes : String → Outcome,
        (∀ node ∈ nestedConditions.nodes, Possible node (outcomes node.id)) →
          OneAnswer nestedConditions outcomes := by
  refine ⟨by decide +kernel, fun hone => ?_⟩
  obtain ⟨s, hrun, hat⟩ := hone
    (fun id => if id = "c" ∨ id = "d" then .condition false else .success) (by
      simp [nestedConditions, Possible])
  have hs : branchRun nestedConditions
      (fun id => if id = "c" ∨ id = "d" then .condition false else .success)
      = .ok { executed := ["input", "c", "d", "first", "second"], skipped := [] } := by
    decide
  obtain rfl : _ = s := by simpa [hs] using hrun
  have heq := hat ⟨"first", .output, none, none⟩ (by decide) ⟨"second", .output, none, none⟩
    (by decide) (by decide) (by decide)
  exact absurd heq (by decide)

/-- A condition with one output on each branch keeps them apart. -/
def oppositeBranches : AgentPipeline :=
  { nodes := [⟨"input", .input, none, none⟩,
      ⟨"c", .condition, some (.obj [("expression", .str "input.a")]), none⟩,
      ⟨"first", .output, none, none⟩, ⟨"second", .output, none, none⟩]
    edges := [⟨"input", "c", none, none⟩, ⟨"c", "first", some "true", none⟩,
      ⟨"c", "second", some "false", none⟩] }

theorem one_answer_opposite_branches :
    (∀ outcomes : String → Outcome,
      (∀ node ∈ oppositeBranches.nodes, Possible node (outcomes node.id)) →
        OneAnswer oppositeBranches outcomes) ↔ OutputsKeptApart oppositeBranches :=
  one_answer_iff compare oppositeBranches none (by decide +kernel)

end Almyty.Workflow
