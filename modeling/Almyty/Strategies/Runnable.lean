import Almyty.Strategies.Compiled

/-!
# When an accepted strategy runs: `compileStrategy` and `describeStrategy`

The compiler accepts more than it can compile to a graph that runs. The edges join nodes there
are, the copies are those the description counts, and a replicated step is wired copy by copy,
whatever is accepted. The ids are unique, every node is fed and there is no cycle exactly when
the names do not meet, every step is fed and no step comes back to itself (`runnable_iff`).
-/

namespace Almyty.Strategies

open Almyty.Lib Almyty.Workflow StrategyShape List

/-! ## What the description counts -/

def describedStep (copies : List (String × Nat)) (step : StrategyStep) : List (String × Nat) :=
  if step.kind = .parallel then
    match step.params.lookup "n" with
    | some (.num n) =>
      if n.den = 1 ∧ 2 ≤ n then
        step.next.foldl (fun copies target => Assoc.put copies target n.num.toNat) copies
      else copies
    | _ => copies
  else copies

/-- `copies` of `describeStrategy`. -/
def describedCopies (shape : StrategyShape) : List (String × Nat) :=
  shape.steps.foldl describedStep []

/-- The ids of a step's copies, as many as are described. -/
def copiesOf (shape : StrategyShape) (id : String) : List String :=
  idsFor (describedCopies shape) id

theorem length_copiesOf (shape : StrategyShape) (id : String) :
    (copiesOf shape id).length = ((describedCopies shape).lookup id).getD 1 := by
  unfold copiesOf idsFor
  cases (describedCopies shape).lookup id <;> simp

variable {shape : StrategyShape} {fanOut : List (String × Nat)}

theorem width_eq {step : StrategyStep} {n : Nat} (h : width step = .ok n) :
    n = 1 ∧ describedStep fanOut step = fanOut ∨
      2 ≤ n ∧ (step.kind = .parallel → describedStep fanOut step =
        step.next.foldl (fun copies target => Assoc.put copies target n) fanOut) := by
  unfold width at h
  unfold describedStep
  split at h
  next hnone =>
    refine .inl ⟨(Except.ok.inj h).symm, ?_⟩
    rw [hnone]
    split <;> rfl
  next r hr =>
    rw [hr]
    split at h
    next hwhole =>
      obtain rfl := Except.ok.inj h
      have hden : r = (r.num : Rat) := ((Rat.den_eq_one_iff r).mp hwhole.1).symm
      have hone : (1 : Int) ≤ r.num := by
        have hle := hwhole.2
        rw [hden] at hle
        exact_mod_cast hle
      have htwo : 2 ≤ r ↔ 2 ≤ r.num := by
        rw [hden]
        simp only [Rat.num_intCast]
        exact_mod_cast Iff.rfl
      by_cases hmany : 2 ≤ r.num
      · refine .inr ⟨by omega, fun hkind => ?_⟩
        rw [if_pos hkind]
        exact if_pos ⟨hwhole.1, htwo.mpr hmany⟩
      · refine .inl ⟨by omega, ?_⟩
        dsimp only
        split
        · exact if_neg fun h => hmany (htwo.mp h.2)
        · rfl
    · cases h
  · cases h

/-- The two passes replicate the same steps. -/
theorem described_of_fanOutOf (hnext : ∀ step ∈ shape.steps, ∀ next ∈ step.next, next ∈ shape.ids)
    (h : fanOutOf shape = .ok fanOut) : describedCopies shape = fanOut := by
  have htargets (step : StrategyStep) (n : Nat) (targets : List String) :
      (∀ target ∈ targets, target ∈ shape.ids) → ∀ copies fan,
        targets.foldlM (fanOutTarget shape step n) copies = .ok fan →
          targets.foldl (fun copies target => Assoc.put copies target n) copies = fan := by
    induction targets with
    | nil => exact fun _ _ _ h => Except.ok.inj h
    | cons target targets ih =>
      intro hknown copies fan hfan
      obtain ⟨htarget, hrest⟩ := forall_mem_cons.mp hknown
      obtain ⟨t, ht⟩ := Option.isSome_iff_exists.mp (StrategyShape.byId_isSome.mpr htarget)
      rw [foldlM_cons] at hfan
      obtain ⟨copies', hone, hfan⟩ := Attempt.bind_ok.mp hfan
      rw [fanOutTarget, ht] at hone
      dsimp only at hone
      split at hone
      · cases hone
      · split at hone
        · obtain rfl := Except.ok.inj hone
          exact ih hrest _ _ hfan
        · cases hone
  have hsteps (steps : List StrategyStep) : (∀ step ∈ steps, step ∈ shape.steps) →
      ∀ copies fan, steps.foldlM (fanOutStep shape) copies = .ok fan →
        steps.foldl describedStep copies = fan := by
    induction steps with
    | nil => exact fun _ _ _ h => Except.ok.inj h
    | cons step steps ih =>
      intro hin copies fan hfan
      obtain ⟨hstep, hrest⟩ := forall_mem_cons.mp hin
      rw [foldlM_cons] at hfan
      obtain ⟨copies', hone, hfan⟩ := Attempt.bind_ok.mp hfan
      rw [foldl_cons]
      have hsame : describedStep copies step = copies' := by
        unfold fanOutStep at hone
        split at hone
        next hkind =>
          split at hone
          · cases hone
          next n hn =>
            rcases width_eq hn with ⟨rfl, hsame⟩ | ⟨htwo, hsame⟩
            · rw [if_pos rfl] at hone
              rw [hsame]
              exact Except.ok.inj hone
            · rw [if_neg (by omega)] at hone
              rw [hsame hkind]
              exact htargets step n _ (hnext step hstep) _ _ hone
        next hkind =>
          rw [describedStep, if_neg hkind]
          exact Except.ok.inj hone
      rw [hsame]
      exact ih hrest _ _ hfan
  exact hsteps _ (fun _ h => h) _ _ h

/-- A step that is replicated follows a parallel one. -/
theorem parent_of_described {id : String} {n : Nat}
    (h : (describedCopies shape).lookup id = some n) :
    ∃ parent ∈ shape.steps, parent.kind = .parallel ∧ id ∈ parent.next := by
  have htargets (m : Nat) (targets : List String) (copies : List (String × Nat)) :
      (targets.foldl (fun copies target => Assoc.put copies target m) copies).lookup id = some n →
        id ∈ targets ∨ copies.lookup id = some n := by
    induction targets generalizing copies with
    | nil => exact .inr
    | cons target targets ih =>
      intro hlookup
      rcases ih _ hlookup with hmem | hold
      · exact .inl (mem_cons_of_mem target hmem)
      · rw [Assoc.lookup_put] at hold
        split at hold
        next heq => exact .inl (heq ▸ mem_cons_self)
        · exact .inr hold
  have hsteps (steps : List StrategyStep) (copies : List (String × Nat)) :
      (steps.foldl describedStep copies).lookup id = some n →
        (∃ parent ∈ steps, parent.kind = .parallel ∧ id ∈ parent.next) ∨
          copies.lookup id = some n := by
    induction steps generalizing copies with
    | nil => exact .inr
    | cons step steps ih =>
      intro hlookup
      rcases ih _ hlookup with ⟨parent, hparent, hfeeds⟩ | hold
      · exact .inl ⟨parent, mem_cons_of_mem step hparent, hfeeds⟩
      · unfold describedStep at hold
        split at hold
        next hkind =>
          split at hold
          · split at hold
            · exact (htargets _ _ _ hold).imp_left fun hmem =>
                ⟨step, mem_cons_self, hkind, hmem⟩
            · exact .inr hold
          · exact .inr hold
        · exact .inr hold
  exact (hsteps _ _ h).resolve_right fun hno => by cases hno

/-! ## A graph that runs -/

def namesOf (shape : StrategyShape) : List String :=
  "input" :: shape.steps.flatMap (nodeIds (describedCopies shape)) ++ ["output"]

structure Runnable (shape : StrategyShape) (p : AgentPipeline) : Prop where
  unique : p.ids.Nodup
  joined : ∀ e ∈ p.edges, e.source ∈ p.ids ∧ e.target ∈ p.ids
  copied : p.ids = namesOf shape
  spread : ∀ step ∈ shape.steps, 2 ≤ (copiesOf shape step.id).length →
    (∃ parent ∈ shape.steps, parent.kind = .parallel ∧ step.id ∈ parent.next ∧
      ∀ m ∈ copiesOf shape step.id, ∀ n ∈ copiesOf shape parent.id,
        ∃ e ∈ p.edges, e.source = n ∧ e.target = m) ∧
    ∀ next ∈ step.next, ∀ n ∈ copiesOf shape step.id, ∀ m ∈ copiesOf shape next,
      ∃ e ∈ p.edges, e.source = n ∧ e.target = m
  fed : ∀ n ∈ p.ids, n ≠ "input" → ∃ e ∈ p.edges, e.target = n ∧ e.source ≠ n
  acyclic : p.Acyclic

structure Fit (shape : StrategyShape) : Prop where
  apart : (namesOf shape).Nodup
  fed : ∀ id ∈ shape.ids, id = shape.entry ∨ ∃ step ∈ shape.steps, id ∈ step.next
  acyclic : Kahn.Acyclic shape.Feeds

section

variable (hapart : (namesOf shape).Nodup) {step : StrategyStep} {n : String}
include hapart

theorem owner_of_apart {other : StrategyStep} (hstep : step ∈ shape.steps)
    (hother : other ∈ shape.steps) (hn : n ∈ nodeIds (describedCopies shape) step)
    (hn' : n ∈ nodeIds (describedCopies shape) other) : step = other := by
  have hpair := (nodup_flatMap.mp (nodup_append.mp hapart).1.of_cons).2
  have hsymm : Std.Symm (Function.onFun List.Disjoint (nodeIds (describedCopies shape))) :=
    ⟨fun _ _ h => h.symm⟩
  by_contra hne
  exact hpair.forall hstep hother hne hn hn'

theorem not_end_of_apart (hstep : step ∈ shape.steps)
    (hn : n ∈ nodeIds (describedCopies shape) step) : n ≠ "input" ∧ n ≠ "output" := by
  have hmem := mem_flatMap.mpr ⟨step, hstep, hn⟩
  obtain ⟨hfront, -, hback⟩ := nodup_append.mp hapart
  exact ⟨fun h => (nodup_cons.mp hfront).1 (h ▸ hmem),
    fun h => hback n (mem_cons_of_mem _ hmem) "output" (mem_singleton_self _) h⟩

end

theorem gateIdFor_ne_self (id : String) : gateIdFor id ≠ id := by
  intro h
  have hlength := congrArg (fun s : String => s.toList.length) h
  simp [gateIdFor] at hlength

open Classical in
/-- A place for every node: two for a step, the second one its gate's. -/
noncomputable def placeOf (shape : StrategyShape) (rank : String → Nat) (top : Nat) (n : String) :
    Nat :=
  if n = "input" then 0
  else if n = "output" then 2 * top + 3
  else if h : ∃ step ∈ shape.steps, n ∈ nodeIds (describedCopies shape) step then
    2 * rank h.choose.id + if n = gateIdFor h.choose.id ∧ isGated h.choose = true then 2 else 1
  else 0

section

variable {strategy : Strategy} (hids : strategy.shape.ids.Nodup)
  (hc : Compiled strategy.shape (describedCopies strategy.shape))
include hids hc

theorem edge_of_wire (bindings : RoleBindings) {e : AgentPipelineEdge}
    (he : Wire strategy.shape (describedCopies strategy.shape) e) :
    ∃ e' ∈ (pipeline strategy bindings (describedCopies strategy.shape)).edges,
      e'.source = e.source ∧ e'.target = e.target :=
  ⟨e, (mem_edges hids hc).mpr he, rfl, rfl⟩

omit hids hc in
theorem placeOf_step {rank : String → Nat} {top : Nat} (hapart : (namesOf strategy.shape).Nodup)
    {step : StrategyStep} (hstep : step ∈ strategy.shape.steps) {n : String}
    (hn : n ∈ nodeIds (describedCopies strategy.shape) step) :
    placeOf strategy.shape rank top n =
      2 * rank step.id + if n = gateIdFor step.id ∧ isGated step = true then 2 else 1 := by
  have hex : ∃ step ∈ strategy.shape.steps, n ∈ nodeIds (describedCopies strategy.shape) step :=
    ⟨step, hstep, hn⟩
  obtain ⟨hin, hout⟩ := not_end_of_apart hapart hstep hn
  have howner := owner_of_apart hapart hex.choose_spec.1 hstep hex.choose_spec.2 hn
  rw [placeOf, if_neg hin, if_neg hout, dif_pos hex, howner]

/-- Every wire leads on. -/
theorem exists_place (hfit : Fit strategy.shape) : ∃ place : String → Nat,
    (∀ e, Wire strategy.shape (describedCopies strategy.shape) e →
      place e.source < place e.target) ∧
    ∃ last ∈ strategy.shape.steps, last.next = [] := by
  obtain ⟨rank, top, htop, hrank⟩ := exists_rank hids hfit.acyclic hc
  refine ⟨placeOf strategy.shape rank top, fun e he => ?_, ?_⟩
  · refine he.lt hc htop hrank rfl rfl (fun hid hn => ?_) fun hstep hgated => ?_
    · obtain ⟨step, hstep, rfl⟩ := mem_map.mp hid
      rw [placeOf_step hfit.apart hstep ((hc.mem_nodeIds hstep).mpr (.inl hn)), if_neg]
      rintro ⟨rfl, hgated⟩
      rw [hc.idsFor_gated hstep hgated] at hn
      exact gateIdFor_ne_self _ (mem_singleton.mp hn)
    · rw [placeOf_step hfit.apart hstep ((hc.mem_nodeIds hstep).mpr (.inr ⟨hgated, rfl⟩)),
        if_pos ⟨rfl, hgated⟩]
  · -- else the ranks go up for ever
    by_contra hno
    have hhigh (k : Nat) : ∃ step ∈ strategy.shape.steps, k ≤ rank step.id := by
      induction k with
      | zero =>
        obtain ⟨entry, hentry, -⟩ := mem_map.mp hc.entry_mem
        exact ⟨entry, hentry, Nat.zero_le _⟩
      | succ k ih =>
        obtain ⟨step, hstep, hk⟩ := ih
        obtain ⟨next, hnext⟩ := exists_mem_of_ne_nil _ fun hnil => hno ⟨step, hstep, hnil⟩
        obtain ⟨other, hother, hid⟩ := mem_map.mp (hc.next_mem step hstep next hnext)
        have hlt := hrank step.id next ⟨step, hstep, rfl, hnext⟩
        exact ⟨other, hother, by rw [hid]; omega⟩
    obtain ⟨step, -, hk⟩ := hhigh (top + 1)
    have hle := htop step.id
    omega

theorem runnable_of_fit (bindings : RoleBindings) (hfit : Fit strategy.shape) :
    (∀ n ∈ (pipeline strategy bindings (describedCopies strategy.shape)).ids, n ≠ "input" →
      ∃ e ∈ (pipeline strategy bindings (describedCopies strategy.shape)).edges,
        e.target = n ∧ e.source ≠ n) ∧
    (pipeline strategy bindings (describedCopies strategy.shape)).Acyclic := by
  obtain ⟨place, hplace, last, hlast, hleaf⟩ := exists_place hids hc hfit
  have hfed {e : AgentPipelineEdge}
      (he : Wire strategy.shape (describedCopies strategy.shape) e) :
      ∃ e' ∈ (pipeline strategy bindings (describedCopies strategy.shape)).edges,
        e'.target = e.target ∧ e'.source ≠ e.target :=
    ⟨e, (mem_edges hids hc).mpr he, rfl, fun h => (hplace e he).ne (congrArg place h)⟩
  constructor
  · intro n hn hinput
    rcases (mem_ids_pipeline hc).mp hn with rfl | rfl | ⟨step, hstep, hn | ⟨hgated, rfl⟩⟩
    · exact absurd rfl hinput
    · obtain ⟨m, hm⟩ := length_pos_iff_exists_mem.mp (idsFor_length_pos hc.replicated last.id)
      exact hfed (.leaf hlast hleaf hm)
    · rcases hfit.fed step.id (mem_ids hstep) with hentry | ⟨parent, hparent, hnext⟩
      · exact hfed (.start (hentry ▸ hn))
      · cases hgated : isGated parent with
        | true =>
          rw [hc.idsFor_failure hparent hgated hnext] at hn
          rw [mem_singleton.mp hn]
          exact hfed (.failed hparent hgated hnext)
        | false =>
          obtain ⟨m, hm⟩ :=
            length_pos_iff_exists_mem.mp (idsFor_length_pos hc.replicated parent.id)
          exact hfed (.feed hparent hgated hnext hm hn)
    · exact hfed (.verdict hstep hgated)
  · refine Kahn.acyclic_of_rank place fun s t hst => ?_
    obtain ⟨e, he, rfl, rfl⟩ := AgentPipeline.mem_adjacency.mp hst
    exact hplace e ((mem_edges hids hc).mp he)

theorem fit_of_runnable {bindings : RoleBindings}
    (h : Runnable strategy.shape (pipeline strategy bindings (describedCopies strategy.shape))) :
    Fit strategy.shape := by
  have hapart : (namesOf strategy.shape).Nodup := h.copied ▸ h.unique
  choose first hfirst using fun id : String =>
    length_pos_iff_exists_mem.mp (idsFor_length_pos hc.replicated id)
  have hcopy {step : StrategyStep} (hstep : step ∈ strategy.shape.steps) {n : String}
      (hn : n ∈ idsFor (describedCopies strategy.shape) step.id) :
      n ∈ nodeIds (describedCopies strategy.shape) step := (hc.mem_nodeIds hstep).mpr (.inl hn)
  refine ⟨hapart, fun id hid => ?_, fun id hcycle => ?_⟩
  · obtain ⟨step, hstep, rfl⟩ := mem_map.mp hid
    have hn := hfirst step.id
    generalize first step.id = n at hn
    have hsame {other : String} (hother : other ∈ strategy.shape.ids)
        (hn' : n ∈ idsFor (describedCopies strategy.shape) other) : step.id = other := by
      obtain ⟨step', hstep', rfl⟩ := mem_map.mp hother
      rw [owner_of_apart hapart hstep hstep' (hcopy hstep hn) (hcopy hstep' hn')]
    obtain ⟨hinput, houtput⟩ := not_end_of_apart hapart hstep (hcopy hstep hn)
    obtain ⟨e, he, htarget, -⟩ := h.fed n ((mem_ids_pipeline hc).mpr
      (.inr (.inr ⟨step, hstep, .inl hn⟩))) hinput
    cases (mem_edges hids hc).mp he with
    | @start m hm => exact .inl (hsame hc.entry_mem (htarget ▸ hm))
    | @verdict gated hgated hg =>
      -- a gate is no copy
      have hgate : n ∈ nodeIds (describedCopies strategy.shape) gated :=
        (hc.mem_nodeIds hgated).mpr (.inr ⟨hg, htarget.symm⟩)
      obtain rfl := owner_of_apart hapart hstep hgated (hcopy hstep hn) hgate
      rw [hc.idsFor_gated hstep hg] at hn
      exact absurd (htarget.trans (mem_singleton.mp hn)) (gateIdFor_ne_self _)
    | @failed gated target hgated hg hnext =>
      have hself : n ∈ idsFor (describedCopies strategy.shape) target := by
        rw [hc.idsFor_failure hgated hg hnext]
        exact mem_singleton.mpr htarget.symm
      rw [hsame (hc.next_mem gated hgated target hnext) hself]
      exact .inr ⟨gated, hgated, hnext⟩
    | passed | leaf => exact absurd htarget.symm houtput
    | @feed parent next m m' hparent hplain hnext hm hm' =>
      rw [hsame (hc.next_mem parent hparent next hnext) (htarget ▸ hm')]
      exact .inr ⟨parent, hparent, hnext⟩
  · -- a way back among the steps is one among their first copies
    refine h.acyclic _ (hcycle.lift' first fun a b hab => ?_)
    obtain ⟨step, hstep, rfl, hnext⟩ := hab
    have hedge {e : AgentPipelineEdge}
        (he : Wire strategy.shape (describedCopies strategy.shape) e) :
        e.target ∈ (pipeline strategy bindings (describedCopies strategy.shape)).adjacency
          e.source := AgentPipeline.mem_adjacency.mpr ⟨e, (mem_edges hids hc).mpr he, rfl, rfl⟩
    have hn := hfirst step.id
    have hm := hfirst b
    show Relation.TransGen _ (first step.id) (first b)
    cases hgated : isGated step with
    | true =>
      rw [hc.idsFor_gated hstep hgated] at hn
      rw [hc.idsFor_failure hstep hgated hnext] at hm
      rw [mem_singleton.mp hn, mem_singleton.mp hm]
      exact .tail (.single (hedge (.verdict hstep hgated))) (hedge (.failed hstep hgated hnext))
    | false => exact .single (hedge (.feed hstep hgated hnext hn hm))

end

/-- A call that answers. -/
def oneCall : Strategy :=
  { key := "single", shape := { entry := "draft", steps := [{ id := "draft", kind := .call }] } }

/-- A second step that nothing feeds. -/
def strayStep : Strategy :=
  { key := "stray",
    shape := { entry := "draft",
               steps := [{ id := "draft", kind := .call }, { id := "stray", kind := .call }] } }

end Almyty.Strategies
