import Almyty.Strategies.Compiler

/-!
# The compiled graph of a shape

A shape whose steps have ids of their own, do not come back to themselves and are all reached
compiles to a graph the engine can run: no two nodes share an id, every edge is between nodes, and
there is no cycle (`dag`).
-/

namespace Almyty.Strategies

open Almyty.Lib Almyty.Workflow List

namespace StrategyShape

def Feeds (shape : StrategyShape) (a b : String) : Prop :=
  ∃ step ∈ shape.steps, step.id = a ∧ b ∈ step.next

structure Valid (shape : StrategyShape) : Prop where
  nodup : shape.ids.Nodup
  safe : ∀ id ∈ shape.ids, pathSafe id = true
  not_input : "input" ∉ shape.ids
  not_output : "output" ∉ shape.ids
  not_gate : ∀ step ∈ shape.steps, isGated step = true → gateIdFor step.id ∉ shape.ids
  reached : ∀ id ∈ shape.ids, Relation.ReflTransGen shape.Feeds shape.entry id
  acyclic : Kahn.Acyclic shape.Feeds
  only_parent : ∀ step ∈ shape.steps, isGated step = true → ∀ target ∈ step.next,
    ∀ other ∈ shape.steps, target ∈ other.next → other = step

variable {shape : StrategyShape}

theorem Valid.eq_of_id (hv : shape.Valid) {a b : StrategyStep} (ha : a ∈ shape.steps)
    (hb : b ∈ shape.steps) (h : a.id = b.id) : a = b :=
  inj_on_of_nodup_map hv.nodup ha hb h

theorem mem_ids {step : StrategyStep} (h : step ∈ shape.steps) : step.id ∈ shape.ids :=
  mem_map_of_mem h

theorem reached_of_ordered (shape : StrategyShape)
    (hfed : ∀ id ∈ shape.ids, id = shape.entry ∨ ∃ step ∈ shape.steps, id ∈ step.next)
    (hord : ∀ step ∈ shape.steps, ∀ next ∈ step.next,
      shape.ids.idxOf step.id < shape.ids.idxOf next) :
    (∀ id ∈ shape.ids, Relation.ReflTransGen shape.Feeds shape.entry id) ∧
      Kahn.Acyclic shape.Feeds := by
  constructor
  · intro id hid
    induction hk : shape.ids.idxOf id using Nat.strong_induction_on generalizing id with
    | _ k ih =>
      rcases hfed id hid with rfl | ⟨step, hstep, hnext⟩
      · exact .refl
      · have hlt := hord step hstep id hnext
        exact .tail (ih _ (hk ▸ hlt) step.id (mem_ids hstep) rfl) ⟨step, hstep, rfl, hnext⟩
  · refine Kahn.acyclic_of_rank shape.ids.idxOf ?_
    rintro a b ⟨step, hstep, rfl, hnext⟩
    exact hord step hstep b hnext

end StrategyShape

open StrategyShape (Valid mem_ids)

/-! ## Node ids -/

variable {shape : StrategyShape} {fanOut : List (String × Nat)}

/-- The text of a node id before a copy's number. -/
def stem (id : String) : List Char := id.toList.takeWhile (· ≠ '#')

variable {id : String}

theorem not_hash_of_pathSafe (h : pathSafe id = true) : '#' ∉ id.toList := by
  intro hmem
  simp only [pathSafe, Bool.and_eq_true, all_eq_true] at h
  exact absurd (h.2 '#' hmem) (by decide)

theorem stem_of_not_hash (h : '#' ∉ id.toList) : stem id = id.toList := by
  apply takeWhile_eq_self_iff.mpr
  intro c hc
  rw [decide_eq_true_eq]
  exact fun heq => h (heq ▸ hc)

theorem stem_copy (h : '#' ∉ id.toList) (k : String) : stem (id ++ "#" ++ k) = id.toList := by
  have hlist : (id ++ "#" ++ k).toList = id.toList ++ '#' :: k.toList := by simp
  rw [stem, hlist, takeWhile_append_of_pos, takeWhile_cons_of_neg (by simp), append_nil]
  intro c hc
  rw [decide_eq_true_eq]
  exact fun heq => h (heq ▸ hc)

variable {n : String} {strategy : Strategy} {bindings : RoleBindings}

theorem stem_of_mem_idsFor {id : String} (hsafe : pathSafe id = true) (h : n ∈ idsFor fanOut id) :
    stem n = id.toList := by
  have hhash := not_hash_of_pathSafe hsafe
  unfold idsFor at h
  split at h
  · obtain rfl := mem_singleton.mp h
    exact stem_of_not_hash hhash
  · obtain ⟨k, -, rfl⟩ := mem_map.mp h
    exact stem_copy hhash _

theorem eq_of_mem_idsFor {a b : String} (ha : pathSafe a = true) (hb : pathSafe b = true)
    (hna : n ∈ idsFor fanOut a) (hnb : n ∈ idsFor fanOut b) : a = b := by
  apply String.toList_injective
  rw [← stem_of_mem_idsFor ha hna, stem_of_mem_idsFor hb hnb]

theorem not_hash_gateIdFor (h : '#' ∉ id.toList) : '#' ∉ (gateIdFor id).toList := by
  simp only [gateIdFor, String.toList_append, mem_append, not_or]
  exact ⟨h, by decide⟩

theorem eq_of_mem_idsFor_of_not_hash {id : String} (hsafe : pathSafe id = true)
    (h : n ∈ idsFor fanOut id) (hhash : '#' ∉ n.toList) : n = id := by
  apply String.toList_injective
  rw [← stem_of_not_hash hhash, stem_of_mem_idsFor hsafe h]

theorem gateIdFor_injective {a b : String} (h : gateIdFor a = gateIdFor b) : a = b := by
  have hlist := congrArg String.toList h
  simp only [gateIdFor, String.toList_append] at hlist
  exact String.toList_injective (append_cancel_right hlist)

theorem gateIdFor_ne {id : String} (h : n.toList.getLast? ≠ some 'e') : gateIdFor id ≠ n := by
  rintro rfl
  apply h
  have hgate : (gateIdFor id).toList = id.toList ++ "__gate".toList := by simp [gateIdFor]
  rw [hgate, List.getLast?_append_of_ne_nil _ (by decide)]
  decide

theorem nodup_idsFor (id : String) : (idsFor fanOut id).Nodup := by
  unfold idsFor
  split
  · exact nodup_singleton _
  · apply List.Nodup.map _ nodup_range
    intro j k hjk
    have hlist := congrArg String.toList hjk
    simp only [String.toList_append] at hlist
    have hdigits : (toString (j + 1)).toList = (toString (k + 1)).toList :=
      append_cancel_left hlist
    simp only [Nat.toString_eq_repr, Nat.toList_repr] at hdigits
    have hback := congrArg (Nat.ofDigitChars 10 · 0) hdigits
    simp only [Nat.ofDigitChars_toDigits (by omega : 1 < 10) (by omega : 10 ≤ 10)] at hback
    omega

def nodeIds (fanOut : List (String × Nat)) (step : StrategyStep) : List String :=
  (idsFor fanOut step.id).flatMap fun id => id :: if isGated step then [gateIdFor id] else []

theorem map_id_stepNodes (strategy : Strategy) (bindings : RoleBindings) (step : StrategyStep) :
    (stepNodes strategy bindings fanOut step).map (·.id) = nodeIds fanOut step := by
  have hpairs : ∀ (ids : List String) (i : Nat),
      ((ids.zipIdx i).flatMap fun e =>
        ({ id := e.1, type := nodeType step.kind,
           data := some (stepData strategy bindings fanOut step e.2) } : AgentPipelineNode) ::
          if isGated step then [gateNode strategy step e.1] else []).map (·.id)
        = ids.flatMap fun id => id :: if isGated step then [gateIdFor id] else [] := by
    intro ids
    induction ids with
    | nil => exact fun _ => rfl
    | cons id ids ih =>
      intro i
      rw [zipIdx_cons, flatMap_cons, flatMap_cons, map_append, ih]
      cases isGated step <;> simp [gateNode]
  exact hpairs _ 0

theorem ids_pipeline (strategy : Strategy) (bindings : RoleBindings) :
    (pipeline strategy bindings fanOut).ids
      = "input" :: strategy.shape.steps.flatMap (nodeIds fanOut) ++ ["output"] := by
  have hsteps : ∀ steps : List StrategyStep,
      (steps.flatMap (stepNodes strategy bindings fanOut)).map (·.id)
        = steps.flatMap (nodeIds fanOut) := by
    intro steps
    rw [map_flatMap]
    exact flatMap_congr fun step _ => map_id_stepNodes strategy bindings step
  simp [AgentPipeline.ids, pipeline, outputNode, hsteps]

variable {step : StrategyStep}

theorem Compiled.idsFor_gated (hc : Compiled shape fanOut) (hstep : step ∈ shape.steps)
    (hgated : isGated step = true) :
    idsFor fanOut step.id = [step.id] :=
  idsFor_of_none (hc.gated step hstep hgated)

theorem Compiled.mem_nodeIds (hc : Compiled shape fanOut) (hstep : step ∈ shape.steps) :
    n ∈ nodeIds fanOut step ↔
      n ∈ idsFor fanOut step.id ∨ isGated step = true ∧ n = gateIdFor step.id := by
  cases hgated : isGated step with
  | false => simp [nodeIds, hgated]
  | true => simp [nodeIds, hgated, hc.idsFor_gated hstep hgated]

theorem gateIdFor_not_mem_idsFor (hv : shape.Valid) (hstep : step ∈ shape.steps)
    (hgated : isGated step = true) (hid : id ∈ shape.ids) :
    gateIdFor step.id ∉ idsFor fanOut id := by
  intro hmem
  have hhash := not_hash_gateIdFor (not_hash_of_pathSafe (hv.safe _ (mem_ids hstep)))
  have heq := eq_of_mem_idsFor_of_not_hash (hv.safe id hid) hmem hhash
  exact hv.not_gate step hstep hgated (heq ▸ hid)

theorem nodup_nodeIds (hv : shape.Valid) (hc : Compiled shape fanOut) (hstep : step ∈ shape.steps) :
    (nodeIds fanOut step).Nodup := by
  cases hgated : isGated step with
  | false => simpa [nodeIds, hgated] using nodup_idsFor step.id
  | true =>
    have hne : step.id ≠ gateIdFor step.id := by
      intro heq
      exact hv.not_gate step hstep hgated (heq ▸ mem_ids hstep)
    simp [nodeIds, hgated, hc.idsFor_gated hstep hgated, hne]

theorem disjoint_nodeIds (hv : shape.Valid) (hc : Compiled shape fanOut) {a b : StrategyStep}
    (ha : a ∈ shape.steps) (hb : b ∈ shape.steps) (hne : a.id ≠ b.id) :
    List.Disjoint (nodeIds fanOut a) (nodeIds fanOut b) := by
  intro n hna hnb
  rcases (hc.mem_nodeIds ha).mp hna with hna | ⟨hga, rfl⟩
  · rcases (hc.mem_nodeIds hb).mp hnb with hnb | ⟨hgb, rfl⟩
    · exact hne (eq_of_mem_idsFor (hv.safe _ (mem_ids ha)) (hv.safe _ (mem_ids hb)) hna hnb)
    · exact gateIdFor_not_mem_idsFor hv hb hgb (mem_ids ha) hna
  · rcases (hc.mem_nodeIds hb).mp hnb with hnb | ⟨hgb, heq⟩
    · exact gateIdFor_not_mem_idsFor hv ha hga (mem_ids hb) hnb
    · exact hne (gateIdFor_injective heq)

theorem not_mem_nodeIds (hv : shape.Valid) (hc : Compiled shape fanOut) (hstep : step ∈ shape.steps)
    (hn : n ∉ shape.ids) (hhash : '#' ∉ n.toList) (hlast : n.toList.getLast? ≠ some 'e') :
    n ∉ nodeIds fanOut step := by
  intro hmem
  rcases (hc.mem_nodeIds hstep).mp hmem with hmem | ⟨-, hgate⟩
  · have heq := eq_of_mem_idsFor_of_not_hash (hv.safe _ (mem_ids hstep)) hmem hhash
    exact hn (heq ▸ mem_ids hstep)
  · exact gateIdFor_ne hlast hgate.symm

theorem input_not_mem (hv : shape.Valid) (hc : Compiled shape fanOut) (hstep : step ∈ shape.steps) :
    "input" ∉ nodeIds fanOut step :=
  not_mem_nodeIds hv hc hstep hv.not_input (by decide) (by decide)

theorem output_not_mem (hv : shape.Valid) (hc : Compiled shape fanOut) (hstep : step ∈ shape.steps)
   : "output" ∉ nodeIds fanOut step :=
  not_mem_nodeIds hv hc hstep hv.not_output (by decide) (by decide)

theorem input_not_mem_idsFor (hv : shape.Valid) (hc : Compiled shape fanOut) (hid : id ∈ shape.ids)
   : "input" ∉ idsFor fanOut id := by
  obtain ⟨step, hstep, rfl⟩ := mem_map.mp hid
  exact fun hn => input_not_mem hv hc hstep ((hc.mem_nodeIds hstep).mpr (.inl hn))

theorem output_not_mem_idsFor (hv : shape.Valid) (hc : Compiled shape fanOut) (hid : id ∈ shape.ids)
   : "output" ∉ idsFor fanOut id := by
  obtain ⟨step, hstep, rfl⟩ := mem_map.mp hid
  exact fun hn => output_not_mem hv hc hstep ((hc.mem_nodeIds hstep).mpr (.inl hn))

theorem nodup_ids (bindings : RoleBindings) (hv : strategy.shape.Valid)
    (hc : Compiled strategy.shape fanOut) : (pipeline strategy bindings fanOut).ids.Nodup := by
  have hsteps : (strategy.shape.steps.flatMap (nodeIds fanOut)).Nodup := by
    rw [nodup_flatMap]
    refine ⟨fun step hstep => nodup_nodeIds hv hc hstep, ?_⟩
    have hpair : strategy.shape.steps.Pairwise fun a b => a.id ≠ b.id :=
      pairwise_map.mp hv.nodup
    exact hpair.imp_of_mem fun ha hb hne => disjoint_nodeIds hv hc ha hb hne
  rw [ids_pipeline, cons_append, nodup_cons, nodup_append]
  refine ⟨?_, hsteps, nodup_singleton _, ?_⟩
  · simp only [mem_append, mem_flatMap, mem_singleton, not_or, not_exists, not_and]
    exact ⟨fun step hstep => input_not_mem hv hc hstep, by decide⟩
  · intro n hn m hm heq
    obtain ⟨step, hstep, hn⟩ := mem_flatMap.mp hn
    rw [mem_singleton.mp hm] at heq
    exact output_not_mem hv hc hstep (heq ▸ hn)

/-! ## Edges -/

inductive Wire (shape : StrategyShape) (fanOut : List (String × Nat)) : AgentPipelineEdge → Prop
  | start {n : String} (hn : n ∈ idsFor fanOut shape.entry) : Wire shape fanOut ⟨"input", n, none, none⟩
  | verdict {step : StrategyStep} (hstep : step ∈ shape.steps) (hgated : isGated step = true) :
    Wire shape fanOut ⟨step.id, gateIdFor step.id, none, none⟩
  | failed {step : StrategyStep} {target : String} (hstep : step ∈ shape.steps)
      (hgated : isGated step = true) (htarget : target ∈ step.next) :
    Wire shape fanOut ⟨gateIdFor step.id, target, some "false", some "check failed"⟩
  | passed {step : StrategyStep} (hstep : step ∈ shape.steps) (hgated : isGated step = true) :
    Wire shape fanOut ⟨gateIdFor step.id, "output", some "true", some "check passed"⟩
  | feed {step : StrategyStep} {next n m : String} (hstep : step ∈ shape.steps)
      (hplain : isGated step = false) (hnext : next ∈ step.next) (hn : n ∈ idsFor fanOut step.id)
      (hm : m ∈ idsFor fanOut next) : Wire shape fanOut ⟨n, m, none, none⟩
  | leaf {step : StrategyStep} {n : String} (hstep : step ∈ shape.steps) (hleaf : step.next = [])
      (hn : n ∈ idsFor fanOut step.id) : Wire shape fanOut ⟨n, "output", none, none⟩

theorem Compiled.stepEdges_gated (hc : Compiled shape fanOut) (hstep : step ∈ shape.steps)
    (hgated : isGated step = true) :
    ∃ target, step.next = [target] ∧ stepEdges fanOut step = [⟨step.id, gateIdFor step.id, none, none⟩,
        ⟨gateIdFor step.id, target, some "false", some "check failed"⟩,
        ⟨gateIdFor step.id, "output", some "true", some "check passed"⟩] := by
  obtain ⟨target, hnext, hone⟩ := hc.failure step hstep hgated
  refine ⟨target, hnext, ?_⟩
  simp [stepEdges, hgated, hnext, idsFor_of_none hone, hc.idsFor_gated hstep hgated]

theorem Compiled.idsFor_failure (hc : Compiled shape fanOut) (hstep : step ∈ shape.steps)
    (hgated : isGated step = true) {target : String} (htarget : target ∈ step.next) :
    idsFor fanOut target = [target] := by
  obtain ⟨target', hnext, hone⟩ := hc.failure step hstep hgated
  obtain rfl : target = target' := by simpa [hnext] using htarget
  exact idsFor_of_none hone

variable {e : AgentPipelineEdge}

theorem Compiled.mem_stepEdges (hc : Compiled shape fanOut) (hstep : step ∈ shape.steps)
    (he : e ∈ stepEdges fanOut step) :
    Wire shape fanOut e := by
  cases hgated : isGated step with
  | true =>
    obtain ⟨target, hnext, hedges⟩ := hc.stepEdges_gated hstep hgated
    have hmem : target ∈ step.next := by simp [hnext]
    simp only [hedges, mem_cons, not_mem_nil, or_false] at he
    rcases he with rfl | rfl | rfl
    · exact .verdict hstep hgated
    · exact .failed hstep hgated hmem
    · exact .passed hstep hgated
  | false =>
    simp only [stepEdges, hgated, Bool.false_eq_true, if_false, mem_flatMap, mem_map] at he
    obtain ⟨next, hnext, n, hn, m, hm, rfl⟩ := he
    exact .feed hstep hgated hnext hn hm

theorem mem_leafEdges (hids : shape.ids.Nodup) :
    e ∈ leafEdges shape fanOut ↔ ∃ step ∈ shape.steps, step.next = [] ∧
      ∃ n ∈ idsFor fanOut step.id, e = ⟨n, "output", none, none⟩ := by
  have hleaf : ∀ step ∈ shape.steps,
      step.id ∉ (shape.steps.filter (!·.next.isEmpty)).map (·.id) ↔ step.next = [] := by
    intro step hstep
    constructor
    · intro hno
      by_contra hne
      exact hno (mem_map_of_mem (mem_filter.mpr ⟨hstep, by simpa using hne⟩))
    · intro hnil hmem
      obtain ⟨other, hother, hid⟩ := mem_map.mp hmem
      obtain ⟨hother, hsome⟩ := mem_filter.mp hother
      obtain rfl := inj_on_of_nodup_map hids hother hstep hid
      simp [hnil] at hsome
  simp only [leafEdges, mem_flatMap, mem_filter, mem_map, decide_eq_true_eq]
  constructor
  · rintro ⟨step, ⟨hstep, hno⟩, n, hn, rfl⟩
    exact ⟨step, hstep, (hleaf step hstep).mp (by simpa using hno), n, hn, rfl⟩
  · rintro ⟨step, hstep, hnil, n, hn, rfl⟩
    exact ⟨step, ⟨hstep, by simpa using (hleaf step hstep).mpr hnil⟩, n, hn, rfl⟩

theorem mem_edges (hids : strategy.shape.ids.Nodup) (hc : Compiled strategy.shape fanOut) :
    e ∈ (pipeline strategy bindings fanOut).edges ↔ Wire strategy.shape fanOut e := by
  simp only [pipeline, mem_append, mem_leafEdges hids, mem_map, mem_flatMap]
  constructor
  · rintro ((⟨n, hn, rfl⟩ | ⟨step, hstep, he⟩) | ⟨step, hstep, hleaf, n, hn, rfl⟩)
    · exact .start hn
    · exact hc.mem_stepEdges hstep he
    · exact .leaf hstep hleaf hn
  · intro hwire
    cases hwire with
    | start hn => exact .inl (.inl ⟨_, hn, rfl⟩)
    | @verdict step hstep hgated | @passed step hstep hgated =>
      obtain ⟨_, _, hedges⟩ := hc.stepEdges_gated hstep hgated
      exact .inl (.inr ⟨step, hstep, by simp [hedges]⟩)
    | @failed step target hstep hgated htarget =>
      obtain ⟨target', hnext, hedges⟩ := hc.stepEdges_gated hstep hgated
      obtain rfl : target = target' := by simpa [hnext] using htarget
      exact .inl (.inr ⟨step, hstep, by simp [hedges]⟩)
    | @feed step next n m hstep hplain hnext hn hm =>
      refine .inl (.inr ⟨step, hstep, ?_⟩)
      simp only [stepEdges, hplain, Bool.false_eq_true, if_false, mem_flatMap, mem_map]
      exact ⟨next, hnext, n, hn, m, hm, rfl⟩
    | leaf hstep hleaf hn => exact .inr ⟨_, hstep, hleaf, _, hn, rfl⟩

theorem mem_ids_pipeline (hc : Compiled strategy.shape fanOut) :
    n ∈ (pipeline strategy bindings fanOut).ids ↔
      n = "input" ∨ n = "output" ∨ ∃ step ∈ strategy.shape.steps,
        n ∈ idsFor fanOut step.id ∨ isGated step = true ∧ n = gateIdFor step.id := by
  have hsteps : n ∈ strategy.shape.steps.flatMap (nodeIds fanOut) ↔
      ∃ step ∈ strategy.shape.steps,
        n ∈ idsFor fanOut step.id ∨ isGated step = true ∧ n = gateIdFor step.id := by
    rw [mem_flatMap]
    exact exists_congr fun step => and_congr_right fun hstep => hc.mem_nodeIds hstep
  rw [ids_pipeline, cons_append, mem_cons, mem_append, hsteps, mem_singleton, or_comm (a := ∃ _, _)]

theorem Wire.ends (hc : Compiled strategy.shape fanOut) (he : Wire strategy.shape fanOut e) :
    e.source ∈ (pipeline strategy bindings fanOut).ids ∧
      e.target ∈ (pipeline strategy bindings fanOut).ids := by
  have hnode : ∀ {id n : String}, id ∈ strategy.shape.ids → n ∈ idsFor fanOut id →
      n ∈ (pipeline strategy bindings fanOut).ids := by
    intro id n hid hn
    obtain ⟨step, hstep, rfl⟩ := mem_map.mp hid
    exact (mem_ids_pipeline hc).mpr (.inr (.inr ⟨step, hstep, .inl hn⟩))
  have hgate : ∀ {step : StrategyStep}, step ∈ strategy.shape.steps → isGated step = true →
      gateIdFor step.id ∈ (pipeline strategy bindings fanOut).ids := by
    intro step hstep hgated
    exact (mem_ids_pipeline hc).mpr (.inr (.inr ⟨step, hstep, .inr ⟨hgated, rfl⟩⟩))
  have hinput : "input" ∈ (pipeline strategy bindings fanOut).ids :=
    (mem_ids_pipeline hc).mpr (.inl rfl)
  have houtput : "output" ∈ (pipeline strategy bindings fanOut).ids :=
    (mem_ids_pipeline hc).mpr (.inr (.inl rfl))
  cases he with
  | start hn => exact ⟨hinput, hnode hc.entry_mem hn⟩
  | verdict hstep hgated =>
    exact ⟨hnode (mem_ids hstep) (by simp [hc.idsFor_gated hstep hgated]), hgate hstep hgated⟩
  | @failed step target hstep hgated htarget =>
    have hmem : target ∈ idsFor fanOut target := by simp [hc.idsFor_failure hstep hgated htarget]
    exact ⟨hgate hstep hgated, hnode (hc.next_mem step hstep target htarget) hmem⟩
  | passed hstep hgated => exact ⟨hgate hstep hgated, houtput⟩
  | @feed step next n m hstep hplain hnext hn hm =>
    exact ⟨hnode (mem_ids hstep) hn, hnode (hc.next_mem step hstep next hnext) hm⟩
  | leaf hstep hleaf hn => exact ⟨hnode (mem_ids hstep) hn, houtput⟩

theorem wellFormed (bindings : RoleBindings) (hv : strategy.shape.Valid)
    (hc : Compiled strategy.shape fanOut) : (pipeline strategy bindings fanOut).WellFormed where
  nodup := nodup_ids bindings hv hc
  source_mem _ he := ((mem_edges hv.nodup hc).mp he).ends hc |>.1
  target_mem _ he := ((mem_edges hv.nodup hc).mp he).ends hc |>.2

/-! ## No way back -/

def stepGraph (shape : StrategyShape) : AgentPipeline where
  nodes := shape.steps.map fun step => { id := step.id, type := nodeType step.kind }
  edges := shape.steps.flatMap fun step => step.next.map fun next => ⟨step.id, next, none, none⟩

theorem mem_adjacency_stepGraph {a b : String} :
    b ∈ (stepGraph shape).adjacency a ↔ shape.Feeds a b := by
  simp only [AgentPipeline.mem_adjacency, stepGraph, mem_flatMap, mem_map, StrategyShape.Feeds]
  constructor
  · rintro ⟨e, ⟨step, hstep, next, hnext, rfl⟩, rfl, rfl⟩
    exact ⟨step, hstep, rfl, hnext⟩
  · rintro ⟨step, hstep, rfl, hnext⟩
    exact ⟨_, ⟨step, hstep, b, hnext, rfl⟩, rfl, rfl⟩

theorem exists_rank (hids : shape.ids.Nodup) (hacyclic : Kahn.Acyclic shape.Feeds)
    (hc : Compiled shape fanOut) :
    ∃ (rank : String → Nat) (top : Nat), (∀ id, rank id ≤ top) ∧
      ∀ a b, shape.Feeds a b → rank a < rank b := by
  have hsame : (stepGraph shape).ids = shape.ids := by
    simp [stepGraph, AgentPipeline.ids, StrategyShape.ids, Function.comp_def]
  have hfeeds : (fun s t => t ∈ (stepGraph shape).adjacency s) = shape.Feeds := by
    funext a b
    exact propext mem_adjacency_stepGraph
  have hedge : ∀ e ∈ (stepGraph shape).edges, shape.Feeds e.source e.target := by
    intro e he
    exact mem_adjacency_stepGraph.mp (AgentPipeline.mem_adjacency.mpr ⟨e, he, rfl, rfl⟩)
  let steps : Dag :=
    { stepGraph shape with
      wellFormed := by
        refine ⟨hsame ▸ hids, fun e he => ?_, fun e he => ?_⟩
        · obtain ⟨step, hstep, hid, -⟩ := hedge e he
          exact hsame ▸ hid ▸ mem_ids hstep
        · obtain ⟨step, hstep, -, hnext⟩ := hedge e he
          exact hsame ▸ hc.next_mem step hstep _ hnext
      acyclic := by
        rw [AgentPipeline.Acyclic, hfeeds]
        exact hacyclic }
  obtain ⟨layers, -, hlayers⟩ := steps.computeLayers_ok
  refine ⟨layers.flatten.idxOf, layers.flatten.length, fun id => idxOf_le_length, ?_⟩
  intro a b hab
  exact hlayers.rank steps.wellFormed (mem_adjacency_stepGraph.mpr hab)

/-- A place for every node: two for a step, the second one its gate's. -/
def place (shape : StrategyShape) (rank : String → Nat) (top : Nat) (n : String) : Nat :=
  if n = "input" then 0
  else if n = "output" then 2 * top + 3
  else if String.ofList (stem n) ∈ shape.ids then 2 * rank (String.ofList (stem n)) + 1
  else 2 * rank (String.ofList (n.toList.take (n.toList.length - 6))) + 2

section Place

variable {rank : String → Nat} {top : Nat}

theorem place_node (hv : shape.Valid) (hc : Compiled shape fanOut) {id n : String}
    (hid : id ∈ shape.ids) (hn : n ∈ idsFor fanOut id) :
    place shape rank top n = 2 * rank id + 1 := by
  obtain ⟨step, hstep, rfl⟩ := mem_map.mp hid
  have hmem := (hc.mem_nodeIds hstep).mpr (.inl hn)
  have hin : n ≠ "input" := fun h => input_not_mem hv hc hstep (h ▸ hmem)
  have hout : n ≠ "output" := fun h => output_not_mem hv hc hstep (h ▸ hmem)
  have hstem : String.ofList (stem n) = step.id := by
    rw [stem_of_mem_idsFor (hv.safe _ hid) hn, String.ofList_toList]
  rw [place, if_neg hin, if_neg hout, hstem, if_pos hid]

theorem place_gate (hv : shape.Valid) (hc : Compiled shape fanOut) {step : StrategyStep}
    (hstep : step ∈ shape.steps) (hgated : isGated step = true) :
    place shape rank top (gateIdFor step.id) = 2 * rank step.id + 2 := by
  have hmem := (hc.mem_nodeIds hstep).mpr (.inr ⟨hgated, rfl⟩)
  have hin : gateIdFor step.id ≠ "input" := fun h => input_not_mem hv hc hstep (h ▸ hmem)
  have hout : gateIdFor step.id ≠ "output" := fun h => output_not_mem hv hc hstep (h ▸ hmem)
  have hhash := not_hash_gateIdFor (not_hash_of_pathSafe (hv.safe _ (mem_ids hstep)))
  have hcut : String.ofList ((gateIdFor step.id).toList.take
      ((gateIdFor step.id).toList.length - 6)) = step.id := by
    have hlist : (gateIdFor step.id).toList = step.id.toList ++ "__gate".toList := by
      simp [gateIdFor]
    rw [hlist, length_append, show "__gate".toList.length = 6 from rfl, Nat.add_sub_cancel,
      take_left, String.ofList_toList]
  rw [place, if_neg hin, if_neg hout, stem_of_not_hash hhash, String.ofList_toList,
    if_neg (hv.not_gate step hstep hgated), hcut]

end Place

theorem Wire.lt (hc : Compiled shape fanOut) {rank place : String → Nat} {top : Nat}
    (htop : ∀ id, rank id ≤ top) (hrank : ∀ a b, shape.Feeds a b → rank a < rank b)
    (hinput : place "input" = 0) (houtput : place "output" = 2 * top + 3)
    (hnode : ∀ {id n : String}, id ∈ shape.ids → n ∈ idsFor fanOut id → place n = 2 * rank id + 1)
    (hgate : ∀ {step : StrategyStep}, step ∈ shape.steps → isGated step = true →
      place (gateIdFor step.id) = 2 * rank step.id + 2)
    (he : Wire shape fanOut e) : place e.source < place e.target := by
  cases he with
  | start hn =>
    rw [hinput, hnode hc.entry_mem hn]
    omega
  | @verdict step hstep hgated =>
    have hself : step.id ∈ idsFor fanOut step.id := by simp [hc.idsFor_gated hstep hgated]
    rw [hnode (mem_ids hstep) hself, hgate hstep hgated]
    omega
  | @failed step target hstep hgated htarget =>
    have hself : target ∈ idsFor fanOut target := by simp [hc.idsFor_failure hstep hgated htarget]
    have hlt := hrank step.id target ⟨step, hstep, rfl, htarget⟩
    rw [hgate hstep hgated, hnode (hc.next_mem step hstep target htarget) hself]
    omega
  | @passed step hstep hgated =>
    have hle := htop step.id
    rw [hgate hstep hgated, houtput]
    omega
  | @feed step next n m hstep hplain hnext hn hm =>
    have hlt := hrank step.id next ⟨step, hstep, rfl, hnext⟩
    rw [hnode (mem_ids hstep) hn, hnode (hc.next_mem step hstep next hnext) hm]
    omega
  | @leaf step n hstep hleaf hn =>
    have hle := htop step.id
    rw [hnode (mem_ids hstep) hn, houtput]
    omega

theorem acyclic (bindings : RoleBindings) (hv : strategy.shape.Valid)
    (hc : Compiled strategy.shape fanOut) : (pipeline strategy bindings fanOut).Acyclic := by
  obtain ⟨rank, top, htop, hrank⟩ := exists_rank hv.nodup hv.acyclic hc
  refine Kahn.acyclic_of_rank (place strategy.shape rank top) ?_
  intro s t hst
  obtain ⟨e, he, rfl, rfl⟩ := AgentPipeline.mem_adjacency.mp hst
  exact ((mem_edges hv.nodup hc).mp he).lt hc htop hrank rfl rfl (place_node hv hc) (place_gate hv hc)

def dag {strategy : Strategy} (bindings : RoleBindings) (hv : strategy.shape.Valid)
    (hc : Compiled strategy.shape fanOut) : Dag where
  toAgentPipeline := pipeline strategy bindings fanOut
  wellFormed := wellFormed bindings hv hc
  acyclic := acyclic bindings hv hc

/-! ## What leads to a node -/

section Incoming

variable {strategy : Strategy} {bindings : RoleBindings}

theorem entry_not_failure (hv : shape.Valid) {step : StrategyStep} (hstep : step ∈ shape.steps) :
    shape.entry ∉ step.next := by
  intro hmem
  exact hv.acyclic _ (.tail' (hv.reached _ (mem_ids hstep)) ⟨step, hstep, rfl, hmem⟩)

theorem flatMap_eq_of_only {α β : Type} {f : α → List β} {l : List α} {a : α} (hnd : l.Nodup)
    (ha : a ∈ l) (h : ∀ b ∈ l, b ≠ a → f b = []) : l.flatMap f = f a := by
  induction l with
  | nil => cases ha
  | cons b l ih =>
    obtain ⟨hb, hnd⟩ := nodup_cons.mp hnd
    obtain ⟨hhead, htail⟩ := forall_mem_cons.mp h
    rw [flatMap_cons]
    by_cases hba : b = a
    · have hrest : l.flatMap f = [] :=
        flatMap_eq_nil_iff.mpr fun c hc => htail c hc fun hca => hb (hba ▸ hca ▸ hc)
      rw [hrest, append_nil, hba]
    · rw [hhead hba, nil_append]
      exact ih hnd ((mem_cons.mp ha).resolve_left (Ne.symm hba)) htail

theorem filter_stepEdges_of_not_next (hv : shape.Valid) (hc : Compiled shape fanOut)
    {step : StrategyStep} (hstep : step ∈ shape.steps) {target : String}
    (hids : target ∈ shape.ids) (hself : idsFor fanOut target = [target])
    (hno : target ∉ step.next) : (stepEdges fanOut step).filter (·.target = target) = [] := by
  simp only [filter_eq_nil_iff, decide_eq_true_eq]
  rintro e he rfl
  cases hg : isGated step with
  | true =>
    obtain ⟨target, hnext, hedges⟩ := hc.stepEdges_gated hstep hg
    simp only [hedges, mem_cons, not_mem_nil, or_false] at he
    rcases he with rfl | rfl | rfl
    · exact hv.not_gate step hstep hg hids
    · exact hno (by simp [hnext])
    · exact hv.not_output hids
  | false =>
    simp only [stepEdges, hg, Bool.false_eq_true, if_false, mem_flatMap, mem_map] at he
    obtain ⟨next, hnext, n, -, m, hm, rfl⟩ := he
    have hback := eq_of_mem_idsFor (hv.safe _ (hc.next_mem step hstep next hnext))
      (hv.safe m hids) hm (by simp [hself])
    exact hno (hback ▸ hnext)

theorem incoming_failure (hv : strategy.shape.Valid) (hc : Compiled strategy.shape fanOut)
    {step : StrategyStep} (hstep : step ∈ strategy.shape.steps) (hgated : isGated step = true)
    {target : String} (htarget : target ∈ step.next) :
    (pipeline strategy bindings fanOut).incoming target
      = [⟨gateIdFor step.id, target, some "false", some "check failed"⟩] := by
  have hids := hc.next_mem step hstep target htarget
  have hsafe := hv.safe target hids
  have hself := hc.idsFor_failure hstep hgated htarget
  have hout : "output" ≠ target := fun h => hv.not_output (h ▸ hids)
  have hstart : ((idsFor fanOut strategy.shape.entry).map fun id =>
      (⟨"input", id, none, none⟩ : AgentPipelineEdge)).filter (·.target = target) = [] := by
    simp only [filter_eq_nil_iff, mem_map, decide_eq_true_eq]
    rintro e ⟨n, hn, rfl⟩ rfl
    have heq := eq_of_mem_idsFor (hv.safe _ hc.entry_mem) hsafe hn (by simp [hself])
    exact entry_not_failure hv hstep (heq ▸ htarget)
  have hleaves : (leafEdges strategy.shape fanOut).filter (·.target = target) = [] := by
    simp only [filter_eq_nil_iff, decide_eq_true_eq]
    intro e he
    obtain ⟨_, _, _, n, _, rfl⟩ := (mem_leafEdges hv.nodup).mp he
    exact hout
  have hothers : ∀ other ∈ strategy.shape.steps, other ≠ step →
      (stepEdges fanOut other).filter (·.target = target) = [] := by
    intro other hother hne
    refine filter_stepEdges_of_not_next hv hc hother hids hself fun hnext => hne ?_
    exact hv.only_parent step hstep hgated target htarget other hother hnext
  have hsteps : (strategy.shape.steps.flatMap (stepEdges fanOut)).filter (·.target = target)
      = (stepEdges fanOut step).filter (·.target = target) := by
    rw [filter_flatMap]
    exact flatMap_eq_of_only hv.nodup.of_map hstep hothers
  obtain ⟨target', hnext, hedges⟩ := hc.stepEdges_gated hstep hgated
  obtain rfl : target = target' := by simpa [hnext] using htarget
  have hgate : gateIdFor step.id ≠ target := fun h => hv.not_gate step hstep hgated (h ▸ hids)
  rw [AgentPipeline.incoming, pipeline, filter_append, filter_append, hstart, hleaves,
    hsteps, hedges]
  simp [hgate, hout]

end Incoming

end Almyty.Strategies
