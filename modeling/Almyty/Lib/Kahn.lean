import Mathlib

/-!
# Kahn's algorithm, in layers and one node at a time

A graph is a list of nodes and the targets of each node's edges, with repetition: two edges between
the same two nodes are two targets. Both loops keep the number of unused edges into each node and
take up a node when that number reaches zero. `layersFrom` takes up everything that is ready at
once, `sortFrom` the front of a queue; both are rounds of one step (`relax`, once for every edge out
of the nodes taken up), so one invariant, `Progress`, and one lemma about a round (`Progress.round`)
serve the two.
-/

namespace Almyty.Lib.Kahn

open List

variable {α : Type} [DecidableEq α]

/-! ## One edge used up -/

/-- An edge into `n` is used up; a node that has none left is put at the end of
the second component. -/
def relax (state : (α → Int) × List α) (n : α) : (α → Int) × List α :=
  let degree := state.1 n - 1
  (fun m => if m = n then degree else state.1 m, if degree = 0 then state.2 ++ [n] else state.2)

theorem relax_degree (targets : List α) (state : (α → Int) × List α) (n : α) :
    (targets.foldl relax state).1 n = state.1 n - targets.count n := by
  induction targets generalizing state with
  | nil => simp
  | cons t targets ih =>
    rw [foldl_cons, ih, count_cons]
    by_cases h : n = t
    · subst h
      simp [relax]
      omega
    · simp [relax, h, Ne.symm h]

/-- What a run of edges puts at the end: once each, the nodes whose last unused
edge it used. -/
theorem relax_pushed (targets : List α) (degree : α → Int) (ready : List α) :
    ∃ pushed, (targets.foldl relax (degree, ready)).2 = ready ++ pushed ∧ pushed.Nodup ∧
      ∀ n, n ∈ pushed ↔ 0 < degree n ∧ degree n ≤ targets.count n := by
  induction targets generalizing degree ready with
  | nil =>
    refine ⟨[], by simp, nodup_nil, fun n => ?_⟩
    simp only [not_mem_nil, count_nil, false_iff]
    omega
  | cons t targets ih =>
    obtain ⟨pushed, heq, hnd, hmem⟩ :=
      ih (relax (degree, ready) t).1 (relax (degree, ready) t).2
    have hself : (relax (degree, ready) t).1 t = degree t - 1 := by simp [relax]
    have hother : ∀ n, n ≠ t → (relax (degree, ready) t).1 n = degree n := by
      intro n h
      simp [relax, h]
    by_cases hlast : degree t = 1
    · -- the last edge into `t`: pushed here, and never again
      refine ⟨t :: pushed, ?_, nodup_cons.mpr ⟨?_, hnd⟩, fun n => ?_⟩
      · rw [foldl_cons, heq]
        simp [relax, hlast]
      · rw [hmem, hself]
        omega
      · rw [mem_cons, hmem, count_cons]
        by_cases h : n = t
        · subst h
          simp
          omega
        · rw [hother n h]
          simp [h, Ne.symm h]
    · refine ⟨pushed, ?_, hnd, fun n => ?_⟩
      · have hne : degree t - 1 ≠ 0 := by omega
        rw [foldl_cons, heq]
        simp [relax, hne]
      · rw [hmem, count_cons]
        by_cases h : n = t
        · subst h
          rw [hself]
          simp
          omega
        · rw [hother n h]
          simp [Ne.symm h]

/-! ## Degrees of an edge list -/

section EdgeList

variable {ε : Type} (source target : ε → α)

theorem grouped_perm {sources : List α} (hnodup : sources.Nodup) (edges : List ε)
    (hmem : ∀ e ∈ edges, source e ∈ sources) :
    (sources.flatMap fun s => edges.filter (source · = s)).Perm edges := by
  induction sources generalizing edges with
  | nil =>
    obtain rfl : edges = [] := eq_nil_iff_forall_not_mem.mpr fun e he => by
      simpa using hmem e he
    exact .refl _
  | cons s sources ih =>
    obtain ⟨hs, hnodup⟩ := nodup_cons.mp hnodup
    have hrest := ih hnodup (edges.filter fun e => !decide (source e = s)) (by
      intro e he
      obtain ⟨he, hne⟩ := mem_filter.mp he
      rcases mem_cons.mp (hmem e he) with h | h
      · simp [h] at hne
      · exact h)
    -- a later source does not see the edges out of `s`
    have hsame : (sources.flatMap fun t =>
          (edges.filter fun e => !decide (source e = s)).filter (source · = t))
        = sources.flatMap fun t => edges.filter (source · = t) := by
      apply flatMap_congr
      intro t ht
      rw [filter_filter]
      apply filter_congr
      intro e _
      by_cases het : source e = t
      · have : t ≠ s := fun h => hs (h ▸ ht)
        simp [het, this]
      · simp [het]
    rw [flatMap_cons, ← hsame]
    exact (hrest.append_left _).trans (filter_append_perm ..)

theorem length_into_eq_count {sources : List α} (hnodup : sources.Nodup) (edges : List ε)
    (hmem : ∀ e ∈ edges, source e ∈ sources) (n : α) :
    (edges.filter (target · = n)).length
      = (sources.flatMap fun s => (edges.filter (source · = s)).map target).count n := by
  rw [← map_flatMap, ((grouped_perm source hnodup edges hmem).map target).count_eq,
    List.count, countP_map, countP_eq_length_filter]
  rfl

end EdgeList

/-! ## Rounds -/

variable (nodes : List α) (succ : α → List α)

/-- Where a loop stands: what was taken up, what is ready, and the rest, which
still has unused edges. An edge is unused while its source is not taken up. -/
structure Progress (done ready rest : List α) (degree : α → Int) : Prop where
  perm : (done ++ (ready ++ rest)).Perm nodes
  degree_eq : ∀ n, degree n = ((ready ++ rest).flatMap succ).count n
  free : ∀ n ∈ done ++ ready, degree n = 0
  held : ∀ n ∈ rest, 0 < degree n

variable {nodes succ}

variable {done ready rest : List α} {degree : α → Int}

theorem Progress.sources (h : Progress nodes succ done ready rest degree) {n s : α} (hn : n ∈ ready)
    (hs : s ∈ nodes) (he : n ∈ succ s) : s ∈ done := by
  have hzero := h.free n (mem_append_right _ hn)
  rw [h.degree_eq] at hzero
  have hno : n ∉ (ready ++ rest).flatMap succ := by
    apply count_eq_zero.mp
    omega
  rcases mem_append.mp (h.perm.mem_iff.mpr hs) with hd | hr
  · exact hd
  · exact absurd (mem_flatMap.mpr ⟨s, hr, he⟩) hno

theorem Progress.mem_rest_of_freed (hsucc : ∀ s ∈ nodes, ∀ t ∈ succ s, t ∈ nodes)
    {done batch ready rest : List α} (h : Progress nodes succ done (batch ++ ready) rest degree)
    {n : α} (hpos : 0 < degree n) (htarget : n ∈ batch.flatMap succ) : n ∈ rest := by
  obtain ⟨s, hs, hns⟩ := mem_flatMap.mp htarget
  have hsn : s ∈ nodes := by
    apply h.perm.mem_iff.mp
    simp [hs]
  have hnn : n ∈ done ++ (batch ++ ready ++ rest) := h.perm.mem_iff.mpr (hsucc s hsn n hns)
  rw [← append_assoc] at hnn
  rcases mem_append.mp hnn with hfree | hr
  · have := h.free n hfree
    omega
  · exact hr

theorem perm_append_filter {part l : List α} (hpart : part.Nodup) (hl : l.Nodup)
    (hsub : ∀ n ∈ part, n ∈ l) : (part ++ l.filter (· ∉ part)).Perm l := by
  have hfilter : (l.filter (· ∈ part)).Perm part := by
    apply (perm_ext_iff_of_nodup (hl.filter _) hpart).mpr
    intro n
    rw [mem_filter, decide_eq_true_iff]
    exact ⟨fun hn => hn.2, fun hn => ⟨hsub n hn, hn⟩⟩
  refine (hfilter.symm.append_right _).trans ?_
  have hfa := filter_append_perm (fun n => decide (n ∈ part)) l
  simpa using hfa

theorem Progress.round (hnodes : nodes.Nodup) (hsucc : ∀ s ∈ nodes, ∀ t ∈ succ s, t ∈ nodes)
    {done rest : List α} (batch ready : List α)
    (h : Progress nodes succ done (batch ++ ready) rest degree) :
    ∃ rest', ((batch.flatMap succ).foldl relax (degree, ready)).2.length + rest'.length
        = ready.length + rest.length ∧
      Progress nodes succ (done ++ batch)
        ((batch.flatMap succ).foldl relax (degree, ready)).2 rest'
        ((batch.flatMap succ).foldl relax (degree, ready)).1 := by
  obtain ⟨pushed, heq, hnd, hmem⟩ := relax_pushed (batch.flatMap succ) degree ready
  have hcount : ∀ n, degree n = (batch.flatMap succ).count n
      + ((ready ++ rest).flatMap succ).count n := by
    intro n
    rw [h.degree_eq]
    simp [flatMap_append, count_append]
  have hall : (done ++ (batch ++ ready ++ rest)).Nodup := h.perm.nodup_iff.mpr hnodes
  have hrest : rest.Nodup := ((nodup_append.mp hall).2.1 |> nodup_append.mp).2.1
  have hsub : ∀ n ∈ pushed, n ∈ rest := by
    intro n hn
    obtain ⟨hpos, hle⟩ := (hmem n).mp hn
    refine h.mem_rest_of_freed hsucc hpos ?_
    apply count_pos_iff.mp
    omega
  have hsplit := perm_append_filter hnd hrest hsub
  refine ⟨rest.filter (· ∉ pushed), ?_, ?_, ?_, ?_, ?_⟩
  · have := hsplit.length_eq
    rw [heq]
    simp only [length_append] at this ⊢
    omega
  · rw [heq]
    refine List.Perm.trans ?_ h.perm
    simp only [append_assoc]
    exact ((hsplit.append_left ready).append_left batch).append_left done
  · intro n
    have hflat : ((ready ++ rest).flatMap succ).Perm
        ((ready ++ pushed ++ rest.filter (· ∉ pushed)).flatMap succ) := by
      apply List.Perm.flatMap_right
      rw [append_assoc]
      exact (hsplit.append_left ready).symm
    have hn := hcount n
    rw [hflat.count_eq] at hn
    rw [relax_degree, heq]
    show degree n - _ = _
    omega
  · intro n hn
    rw [heq] at hn
    rw [relax_degree]
    show degree n - _ = 0
    by_cases hp : n ∈ pushed
    · have := (hmem n).mp hp
      have := hcount n
      omega
    · have hfree : degree n = 0 := by
        apply h.free
        simp only [mem_append] at hn ⊢
        tauto
      have := hcount n
      omega
  · intro n hn
    obtain ⟨hr, hp⟩ := mem_filter.mp hn
    have hpos := h.held n hr
    rw [relax_degree]
    have hnot : ¬ (0 < degree n ∧ degree n ≤ (batch.flatMap succ).count n) := by
      rw [← hmem]
      simpa using hp
    show 0 < degree n - _
    omega

/-! ## The two loops -/

variable (succ)

/-- Everything ready at once, round by round. -/
def layersFrom : Nat → (α → Int) → List α → List (List α)
  | 0, _, _ => []
  | _ + 1, _, [] => []
  | fuel + 1, degree, n :: ready =>
    let next := ((n :: ready).flatMap succ).foldl relax (degree, [])
    (n :: ready) :: layersFrom fuel next.1 next.2

def sortFrom : Nat → (α → Int) → List α → List α
  | 0, _, _ => []
  | _ + 1, _, [] => []
  | fuel + 1, degree, n :: queue =>
    let next := (succ n).foldl relax (degree, queue)
    n :: sortFrom fuel next.1 next.2

variable (nodes)

def SourcesBefore : List α → List (List α) → Prop
  | _, [] => True
  | done, layer :: layers =>
    (∀ n ∈ layer, ∀ s ∈ nodes, n ∈ succ s → s ∈ done) ∧ SourcesBefore (done ++ layer) layers

/-- What a loop leaves: nodes that wait for one another. -/
def Stuck (left : List α) : Prop := ∀ n ∈ left, ∃ s ∈ left, n ∈ succ s

variable {nodes succ}

theorem Progress.stuck {done rest : List α} (h : Progress nodes succ done [] rest degree) :
    Stuck succ rest := by
  intro n hn
  have hpos := h.held n hn
  rw [h.degree_eq] at hpos
  apply mem_flatMap.mp
  apply count_pos_iff.mp
  exact Int.ofNat_lt.mp hpos

theorem layersFrom_spec (hnodes : nodes.Nodup) (hsucc : ∀ s ∈ nodes, ∀ t ∈ succ s, t ∈ nodes)
    {fuel : Nat} (h : Progress nodes succ done ready rest degree)
    (hfuel : ready.length + rest.length ≤ fuel) :
    SourcesBefore nodes succ done (layersFrom succ fuel degree ready) ∧
      ∃ left, Stuck succ left ∧
        (done ++ (layersFrom succ fuel degree ready).flatten ++ left).Perm nodes := by
  induction fuel generalizing done ready rest degree with
  | zero =>
    obtain rfl : ready = [] := length_eq_zero_iff.mp (by omega)
    exact ⟨trivial, rest, h.stuck, by simpa [layersFrom] using h.perm⟩
  | succ fuel ih =>
    cases ready with
    | nil => exact ⟨trivial, rest, h.stuck, by simpa [layersFrom] using h.perm⟩
    | cons n ready =>
      obtain ⟨rest', hlen, hnext⟩ :=
        Progress.round hnodes hsucc (n :: ready) [] (by simpa using h)
      obtain ⟨hbefore, left, hstuck, hperm⟩ := ih hnext (by
        simp only [length_nil, length_cons] at hlen hfuel ⊢
        omega)
      refine ⟨⟨fun m hm s hs he => h.sources hm hs he, hbefore⟩, left, hstuck, ?_⟩
      simpa [layersFrom, append_assoc] using hperm

theorem sortFrom_spec (hnodes : nodes.Nodup) (hsucc : ∀ s ∈ nodes, ∀ t ∈ succ s, t ∈ nodes)
    {fuel : Nat} (h : Progress nodes succ done ready rest degree)
    (hfuel : ready.length + rest.length ≤ fuel) :
    SourcesBefore nodes succ done ((sortFrom succ fuel degree ready).map ([·])) ∧
      ∃ left, Stuck succ left ∧ (done ++ sortFrom succ fuel degree ready ++ left).Perm nodes := by
  induction fuel generalizing done ready rest degree with
  | zero =>
    obtain rfl : ready = [] := length_eq_zero_iff.mp (by omega)
    exact ⟨trivial, rest, h.stuck, by simpa [sortFrom] using h.perm⟩
  | succ fuel ih =>
    cases ready with
    | nil => exact ⟨trivial, rest, h.stuck, by simpa [sortFrom] using h.perm⟩
    | cons n ready =>
      obtain ⟨rest', hlen, hnext⟩ :=
        Progress.round hnodes hsucc [n] ready (by simpa using h)
      rw [flatMap_singleton] at hlen hnext
      obtain ⟨hbefore, left, hstuck, hperm⟩ := ih hnext (by
        simp only [length_cons] at hlen hfuel ⊢
        omega)
      refine ⟨⟨fun m hm s hs he => ?_, hbefore⟩, left, hstuck, ?_⟩
      · rw [mem_singleton] at hm
        exact h.sources (hm ▸ mem_cons_self) hs he
      · simpa [sortFrom, append_assoc] using hperm

theorem progress_start (degree : α → Int) (hdegree : ∀ n, degree n = (nodes.flatMap succ).count n) :
    Progress nodes succ [] (nodes.filter fun n => degree n = 0)
      (nodes.filter fun n => !decide (degree n = 0)) degree := by
  have hperm := filter_append_perm (fun n => decide (degree n = 0)) nodes
  refine ⟨by simpa using hperm, fun n => ?_, fun n hn => ?_, fun n hn => ?_⟩
  · rw [hdegree, (hperm.flatMap_right succ).count_eq]
  · rw [nil_append] at hn
    simpa using (mem_filter.mp hn).2
  · have hne : degree n ≠ 0 := by simpa using (mem_filter.mp hn).2
    have := hdegree n
    omega

/-! ## Cycles -/

/-- No node reaches itself along edges. -/
def Acyclic (edge : α → α → Prop) : Prop := ∀ n, ¬ Relation.TransGen edge n n

theorem Stuck.eq_nil {left : List α} (h : Stuck succ left)
    (hacyclic : Acyclic fun s t => t ∈ succ s) : left = [] := by
  apply eq_nil_iff_forall_not_mem.mpr
  intro n hn
  let reaches : {m // m ∈ left} → {m // m ∈ left} → Prop :=
    fun a b => Relation.TransGen (fun s t => t ∈ succ s) a.1 b.1
  have : IsTrans _ reaches := ⟨fun _ _ _ hab hbc => hab.trans hbc⟩
  have : Std.Irrefl reaches := ⟨fun a => hacyclic a.1⟩
  have : Finite {m // m ∈ left} := inferInstance
  have hwf : WellFounded reaches := Finite.wellFounded_of_trans_of_irrefl reaches
  -- along the order this gives, a node's source comes before it, without end
  refine hwf.induction (C := fun _ => False) ⟨n, hn⟩ fun m ih => ?_
  obtain ⟨s, hs, he⟩ := h m.1 m.2
  exact ih ⟨s, hs⟩ (.single he)

variable {layers : List (List α)}

theorem SourcesBefore.idxOf_lt (done : List α) (hbefore : SourcesBefore nodes succ done layers)
    (hnd : (done ++ layers.flatten).Nodup) {s t : α} (he : t ∈ succ s) (hs : s ∈ nodes)
    (ht : t ∈ layers.flatten) :
    (done ++ layers.flatten).idxOf s < (done ++ layers.flatten).idxOf t := by
  induction layers generalizing done with
  | nil => simp at ht
  | cons layer layers ih =>
    rw [flatten_cons] at ht hnd ⊢
    rcases mem_append.mp ht with hl | hl
    · have hsd : s ∈ done := hbefore.1 t hl s hs he
      have htd : t ∉ done := fun htd =>
        (nodup_append.mp hnd).2.2 t htd t (mem_append_left _ hl) rfl
      rw [idxOf_append_of_mem hsd, idxOf_append_of_notMem htd]
      have := idxOf_lt_length_iff.mpr hsd
      omega
    · have := ih (done ++ layer) hbefore.2 (by rwa [append_assoc]) hl
      rwa [append_assoc] at this

omit [DecidableEq α] in
theorem acyclic_of_rank {edge : α → α → Prop} (rank : α → Nat)
    (h : ∀ s t, edge s t → rank s < rank t) : Acyclic edge := by
  have hmono : ∀ a b, Relation.TransGen edge a b → rank a < rank b := by
    intro a b hab
    induction hab with
    | single hab => exact h _ _ hab
    | tail _ hbc ih => exact ih.trans (h _ _ hbc)
  intro n hcycle
  exact Nat.lt_irrefl _ (hmono n n hcycle)

/-! ## Levels -/

variable {edge : α → α → Prop}

inductive PathTo (edge : α → α → Prop) : Nat → α → Prop
  | here (n : α) : PathTo edge 0 n
  | step {k : Nat} {s t : α} (path : PathTo edge k s) (he : edge s t) : PathTo edge (k + 1) t

theorem layersFrom_chain (fuel : Nat) (degree : α → Int) (ready : List α) :
    (layersFrom succ fuel degree ready).IsChain
        (fun layer next => ∀ n ∈ next, ∃ s ∈ layer, n ∈ succ s) ∧
      (∀ layer ∈ layersFrom succ fuel degree ready, layer ≠ []) ∧
      ∀ layer ∈ (layersFrom succ fuel degree ready).head?, layer = ready := by
  induction fuel generalizing degree ready with
  | zero => simp [layersFrom]
  | succ fuel ih =>
    cases ready with
    | nil => simp [layersFrom]
    | cons n ready =>
      obtain ⟨pushed, heq, -, hmem⟩ := relax_pushed ((n :: ready).flatMap succ) degree []
      rw [nil_append] at heq
      obtain ⟨hchain, hne, hhead⟩ := ih
        (((n :: ready).flatMap succ).foldl relax (degree, [])).1
        (((n :: ready).flatMap succ).foldl relax (degree, [])).2
      refine ⟨isChain_cons.mpr ⟨?_, hchain⟩, ?_, ?_⟩
      · -- what comes next lost its last unused edge to this layer
        intro next hnext t ht
        rw [hhead next hnext, heq, hmem] at ht
        apply mem_flatMap.mp
        apply count_pos_iff.mp
        omega
      · intro layer hlayer
        rw [layersFrom] at hlayer
        rcases mem_cons.mp hlayer with rfl | hlayer
        · exact cons_ne_nil n ready
        · exact hne layer hlayer
      · intro layer hlayer
        simpa [layersFrom, eq_comm] using hlayer

omit [DecidableEq α] in
theorem SourcesBefore.source_lt {done layer : List α} {i : Nat} {s t : α}
    (h : SourcesBefore nodes succ done layers) (hi : layers[i]? = some layer) (ht : t ∈ layer)
    (hs : s ∈ nodes) (he : t ∈ succ s) :
    s ∈ done ∨ ∃ j < i, ∃ earlier, layers[j]? = some earlier ∧ s ∈ earlier := by
  induction layers generalizing done i with
  | nil => simp at hi
  | cons first layers ih =>
    cases i with
    | zero =>
      rw [List.getElem?_cons_zero, Option.some.injEq] at hi
      exact .inl (h.1 t (hi ▸ ht) s hs he)
    | succ i =>
      rw [List.getElem?_cons_succ] at hi
      rcases ih h.2 hi with hdone | ⟨j, hj, earlier, hearlier, hmem⟩
      · rcases mem_append.mp hdone with hd | hf
        · exact .inl hd
        · exact .inr ⟨0, Nat.succ_pos i, first, rfl, hf⟩
      · exact .inr ⟨j + 1, Nat.succ_lt_succ hj, earlier, by simpa using hearlier, hmem⟩

omit [DecidableEq α] in
theorem SourcesBefore.isGreatest (h : SourcesBefore nodes succ [] layers)
    (hchain : layers.IsChain fun layer next => ∀ n ∈ next, ∃ s ∈ layer, n ∈ succ s)
    (hedge : ∀ s t, edge s t ↔ t ∈ succ s) (hsource : ∀ s t, edge s t → s ∈ nodes) {i : Nat}
    {layer : List α} (hi : layers[i]? = some layer) {n : α} (hn : n ∈ layer) :
    IsGreatest {k | PathTo edge k n} i := by
  constructor
  · show PathTo edge i n
    induction i generalizing layer n with
    | zero => exact .here n
    | succ i ih =>
      obtain ⟨hlt, rfl⟩ := List.getElem?_eq_some_iff.mp hi
      obtain ⟨s, hs, he⟩ := isChain_iff_getElem.mp hchain i hlt n hn
      exact .step (ih (List.getElem?_eq_getElem (by omega)) hs) ((hedge s n).mpr he)
  · intro k hk
    induction hk generalizing i layer with
    | here n => exact Nat.zero_le i
    | step path he ih =>
      rcases h.source_lt hi hn (hsource _ _ he) ((hedge _ _).mp he) with
        hnil | ⟨j, hj, earlier, hearlier, hmem⟩
      · exact absurd hnil not_mem_nil
      · have := ih hearlier hmem
        omega

end Almyty.Lib.Kahn
