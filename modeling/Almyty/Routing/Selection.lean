import Almyty.Lib.StableSort
import Almyty.Routing.ModelRouter

/-!
# What the router selects: `selectCandidates` of `routing/model-router.ts`

Without a chain the candidates are the cards that qualify, each once, in the order of `Precedes`:
the band of the connection, then the objective's score, a missing one last, then the order they were
given in; the pinned card is moved to the front.

With a chain the candidates are what its entries find, in the chain's order. Nothing drops a card
that two entries find, so it is a candidate twice (`chain_names_a_card_twice`).
-/

namespace Almyty.Routing

open Almyty.Lib List

section

variable (arithmetic : Arithmetic)

def score (objective : RouteObjective) (card : Model) : Option Rat :=
  match objective with
  | .fastest => card.latency
  | .cheapest | .pinned => priceScore arithmetic card

/-- A score is better than another; a missing one is the worst. -/
def better : Option Rat → Option Rat → Prop
  | some a, some b => a < b
  | some _, none => True
  | none, _ => False

/-- The order of the candidates without a chain. -/
def Precedes (cards : List Model) (policy : RoutingPolicy) (a b : Model) : Prop :=
  let band := bandOf policy.connectionPreference
  let score := score arithmetic (policy.objective.getD .cheapest)
  band a < band b ∨
    band a = band b ∧ (better (score a) (score b) ∨ score a = score b ∧ [a, b].Sublist cards)

def pinnedCard (policy : RoutingPolicy) (cards : List Model) : Option Model := do
  guard (policy.objective = some .pinned)
  let key ← policy.pinnedModel.filter (· ≠ "")
  cards.find? (namedBy · key)

def PinnedFirst (policy : RoutingPolicy) (ordered final : List Model) : Prop :=
  match pinnedCard policy ordered with
  | some pinned => final = pinned :: ordered.erase pinned
  | none => final = ordered

def StandsFor (candidates : List RouteCandidate) (cards : List Model) : Prop :=
  List.Forall₂ (fun candidate card => ∃ why, candidate = toCandidate card why) candidates cards

end

variable {arithmetic : Arithmetic} {cards : List Model} {policy : RoutingPolicy}

/-! ## The two sorts -/

instance : Std.Total atMost where
  total
    | _, none => .inl trivial
    | none, some _ => .inr trivial
    | some _, some _ => Rat.le_total

instance : IsTrans (Option Rat) atMost where
  trans
    | _, _, none, _, _ => trivial
    | none, none, some _, _, h => h
    | none, some _, some _, h, _ => h.elim
    | some _, none, some _, _, h => h.elim
    | some _, some _, some _, h, h' => Rat.le_trans h h'

theorem better_or_eq {a b : Option Rat} (h : atMost a b) : better a b ∨ a = b := by
  cases a with
  | none =>
    cases b with
    | none => exact .inr rfl
    | some b => exact h.elim
  | some a =>
    cases b with
    | none => exact .inl trivial
    | some b =>
      rcases Decidable.eq_or_ne a b with heq | hne
      · exact .inr (congrArg some heq)
      · exact .inl (Rat.lt_of_le_of_ne h hne)

theorem atMost_of_eq {a b : Option Rat} (h : a = b) : atMost a b :=
  h ▸ (Std.Total.total a a).elim id id

def ordered (arithmetic : Arithmetic) (cards : List Model) (policy : RoutingPolicy) : List Model :=
  byConnectionPreference
    (byObjective arithmetic (pool arithmetic cards policy) (policy.objective.getD .cheapest))
    policy.connectionPreference

theorem byObjective_eq (arithmetic : Arithmetic) (pool : List Model) (objective : RouteObjective) :
    byObjective arithmetic pool objective =
      pool.insertionSort fun a b => atMost (score arithmetic objective a)
        (score arithmetic objective b) := by
  cases objective <;> rfl

theorem ordered_perm (arithmetic : Arithmetic) (cards : List Model) (policy : RoutingPolicy) :
    (ordered arithmetic cards policy).Perm (pool arithmetic cards policy) := by
  unfold ordered byConnectionPreference
  rw [byObjective_eq]
  exact (perm_insertionSort _ _).trans (perm_insertionSort _ _)

theorem ordered_precedes (arithmetic : Arithmetic) (policy : RoutingPolicy)
    (h : (cards.map (·.id)).Nodup) :
    (ordered arithmetic cards policy).Pairwise (Precedes arithmetic cards policy) := by
  have hpool : (pool arithmetic cards policy).Nodup :=
    List.Nodup.filter _ (List.Nodup.of_map _ h)
  have htwice := StableSort.pairwise_twice (r := atMost) (s := (· ≤ ·))
    (score arithmetic (policy.objective.getD .cheapest)) (bandOf policy.connectionPreference) hpool
  unfold ordered byConnectionPreference
  rw [byObjective_eq]
  refine htwice.imp ?_
  intro a b hab
  obtain ⟨hband, hsame⟩ := hab
  rcases Nat.lt_or_eq_of_le hband with hlt | heq
  · exact .inl hlt
  · obtain ⟨hscore, hback⟩ := hsame (Nat.le_of_eq heq.symm)
    refine .inr ⟨heq, ?_⟩
    rcases better_or_eq hscore with hbetter | hscores
    · exact .inl hbetter
    · exact .inr ⟨hscores, (hback (atMost_of_eq hscores.symm)).trans filter_sublist⟩

/-! ## The candidates -/

theorem filter_ids {cards : List Model} (h : (cards.map (·.id)).Nodup) {card : Model}
    (hcard : card ∈ cards) : cards.filter (·.id ≠ card.id) = cards.erase card := by
  rw [(List.Nodup.of_map _ h).erase_eq_filter]
  refine filter_congr ?_
  intro other hother
  have hinj : other.id = card.id ↔ other = card :=
    ⟨fun hid => inj_on_of_nodup_map h hother hcard hid, fun heq => heq ▸ rfl⟩
  rw [decide_not, decide_eq_decide.mpr hinj]
  rfl

theorem pinnedCard_mem {cards : List Model} {card : Model}
    (h : pinnedCard policy cards = some card) : card ∈ cards := by
  simp only [pinnedCard, Option.bind_eq_bind, Option.bind_eq_some_iff] at h
  obtain ⟨-, -, key, -, hfind⟩ := h
  exact List.mem_of_find?_eq_some hfind

theorem pinFirst_pinned (policy : RoutingPolicy) {ordered : List Model}
    (h : (ordered.map (·.id)).Nodup) : PinnedFirst policy ordered (pinFirst ordered policy) := by
  unfold PinnedFirst pinnedCard pinFirst
  cases hobjective : policy.objective with
  | none => rfl
  | some objective =>
    cases objective with
    | cheapest | fastest => rfl
    | pinned =>
      cases hkey : policy.pinnedModel.filter (· ≠ "") with
      | none => rfl
      | some key =>
        cases hfind : ordered.find? (namedBy · key) with
        | none => simp [hfind]
        | some pinned =>
          have herase := filter_ids h (List.mem_of_find?_eq_some hfind)
          simpa [hfind] using herase

theorem pinFirst_perm (policy : RoutingPolicy) {ordered : List Model}
    (h : (ordered.map (·.id)).Nodup) : (pinFirst ordered policy).Perm ordered := by
  have hpinned := pinFirst_pinned policy h
  unfold PinnedFirst at hpinned
  cases hcard : pinnedCard policy ordered with
  | none =>
    rw [hcard] at hpinned
    rw [hpinned]
  | some pinned =>
    rw [hcard] at hpinned
    rw [hpinned]
    exact (perm_cons_erase (pinnedCard_mem hcard)).symm

theorem standsFor_ranked (cards : List Model) (why : Model × Nat → String) :
    StandsFor (cards.zipIdx.map fun entry => toCandidate entry.1 (why entry)) cards := by
  unfold StandsFor
  rw [forall₂_map_left_iff]
  generalize 0 = n
  induction cards generalizing n with
  | nil => exact .nil
  | cons card cards ih => exact .cons ⟨_, rfl⟩ (ih (n + 1))

theorem standsFor_chained (pool : List Model) (chain : List String) :
    StandsFor (chained pool chain) (chain.filterMap fun key => pool.find? (namedBy · key)) := by
  unfold StandsFor chained
  generalize 0 = n
  induction chain generalizing n with
  | nil => exact .nil
  | cons key chain ih =>
    rw [zipIdx_cons, filterMap_cons, filterMap_cons]
    cases pool.find? (namedBy · key) with
    | none => exact ih (n + 1)
    | some card => exact .cons ⟨_, rfl⟩ (ih (n + 1))

theorem StandsFor.ids {candidates : List RouteCandidate} (h : StandsFor candidates cards) :
    candidates.map (·.modelId) = cards.map (·.id) := by
  induction h with
  | nil => rfl
  | cons hcard _ ih =>
    obtain ⟨why, rfl⟩ := hcard
    rw [map_cons, map_cons, ih]
    rfl

theorem filteredOut_ids (arithmetic : Arithmetic) (cards : List Model)
    (h : policy.fallbackChain = []) :
    (filteredOut arithmetic cards policy).map (·.modelId)
      = (cards.filter fun card => (eligible arithmetic card policy).isSome).map (·.id) := by
  unfold filteredOut
  rw [h, filter_nil, map_nil, append_nil]
  induction cards with
  | nil => rfl
  | cons card cards ih =>
    rw [filterMap_cons, filter_cons]
    cases eligible arithmetic card policy with
    | none => exact ih
    | some reason => exact congrArg (card.id :: ·) ih

/-! ## What is selected -/

structure SelectedByRank (arithmetic : Arithmetic) (cards : List Model) (policy : RoutingPolicy)
    (selected : List RouteCandidate × List Rejected) : Prop where
  /-- The cards that qualify, in their order, with the pinned one moved to the front. -/
  candidates : ∃ ordered final, ordered.Perm (pool arithmetic cards policy) ∧
    ordered.Pairwise (Precedes arithmetic cards policy) ∧ PinnedFirst policy ordered final ∧
    StandsFor selected.1 final
  once : (selected.1.map (·.modelId)).Nodup
  rejected : ∀ card ∈ cards, card.id ∉ selected.1.map (·.modelId) →
    (selected.2.map (·.modelId)).count card.id = 1

structure SelectedByChain (arithmetic : Arithmetic) (cards : List Model) (policy : RoutingPolicy)
    (selected : List RouteCandidate × List Rejected) : Prop where
  /-- What each entry finds first, in the order of the chain. -/
  candidates : StandsFor selected.1 (policy.fallbackChain.filterMap fun key =>
    (pool arithmetic cards policy).find? (namedBy · key))
  /-- A card stands there once for every entry that finds it. -/
  times : ∀ card ∈ cards, (selected.1.map (·.modelId)).count card.id =
    policy.fallbackChain.countP fun key =>
      (pool arithmetic cards policy).find? (namedBy · key) = some card

theorem selectCandidates_of_skip (arithmetic : Arithmetic) (cards : List Model)
    (hskip : policy.skip = 0) :
    selectCandidates arithmetic cards policy
      = (selectionOrder arithmetic cards policy, filteredOut arithmetic cards policy) := by
  rw [selectCandidates, applySkip, if_pos hskip]

theorem ranked_of_ids (h : (cards.map (·.id)).Nodup) (hskip : policy.skip = 0)
    (hchain : policy.fallbackChain = []) :
    SelectedByRank arithmetic cards policy (selectCandidates arithmetic cards policy) := by
  rw [selectCandidates_of_skip arithmetic cards hskip]
  have hperm := ordered_perm arithmetic cards policy
  have hordered : ((ordered arithmetic cards policy).map (·.id)).Nodup :=
    ((hperm.map _).nodup_iff).mpr (h.sublist (filter_sublist.map _))
  have hstands : StandsFor (selectionOrder arithmetic cards policy)
      (pinFirst (ordered arithmetic cards policy) policy) := by
    rw [selectionOrder, if_neg (not_not.mpr hchain)]
    exact standsFor_ranked _ fun entry => rationale arithmetic policy entry.1 entry.2
  refine ⟨⟨_, _, hperm, ordered_precedes arithmetic policy h, pinFirst_pinned policy hordered,
    hstands⟩, ?_, ?_⟩
  · rw [hstands.ids]
    exact pinFirst_ids _ policy hordered
  · intro card hcard hnot
    rw [filteredOut_ids arithmetic cards hchain]
    refine count_eq_one_of_mem (h.sublist (filter_sublist.map _)) ?_
    refine mem_map_of_mem (mem_filter.mpr ⟨hcard, ?_⟩)
    cases helig : eligible arithmetic card policy with
    | some reason => rfl
    | none =>
      -- a card that qualifies is among the candidates
      refine absurd ?_ hnot
      rw [hstands.ids]
      have hpool : card ∈ pool arithmetic cards policy :=
        mem_filter.mpr ⟨hcard, by rw [helig]; rfl⟩
      exact mem_map_of_mem ((pinFirst_perm policy hordered).mem_iff.mpr (hperm.mem_iff.mpr hpool))

theorem count_found (h : (cards.map (·.id)).Nodup) (pool : List Model)
    (hpool : ∀ card ∈ pool, card ∈ cards) (chain : List String) {card : Model}
    (hcard : card ∈ cards) :
    ((chain.filterMap fun key => pool.find? (namedBy · key)).map (·.id)).count card.id
      = chain.countP fun key => pool.find? (namedBy · key) = some card := by
  induction chain with
  | nil => rfl
  | cons key chain ih =>
    rw [filterMap_cons, countP_cons]
    cases hfind : pool.find? (namedBy · key) with
    | none => simpa using ih
    | some found =>
      have hfound := hpool found (List.mem_of_find?_eq_some hfind)
      have hinj : found.id = card.id ↔ found = card :=
        ⟨fun hid => inj_on_of_nodup_map h hfound hcard hid, fun heq => heq ▸ rfl⟩
      rw [map_cons, count_cons, ih]
      simp [hinj]

theorem chained_of_ids (h : (cards.map (·.id)).Nodup) (hskip : policy.skip = 0)
    (hchain : policy.fallbackChain ≠ []) :
    SelectedByChain arithmetic cards policy (selectCandidates arithmetic cards policy) := by
  rw [selectCandidates_of_skip arithmetic cards hskip]
  have hstands : StandsFor (selectionOrder arithmetic cards policy)
      (policy.fallbackChain.filterMap fun key =>
        (pool arithmetic cards policy).find? (namedBy · key)) := by
    rw [selectionOrder, if_pos hchain]
    exact standsFor_chained _ _
  refine ⟨hstands, fun card hcard => ?_⟩
  rw [hstands.ids]
  exact count_found h _ (fun _ hmem => mem_of_mem_filter hmem) _ hcard

/-- **What is selected**, from cards with distinct ids and with nothing skipped. -/
theorem selection_exact (arithmetic : Arithmetic) (cards : List Model) (policy : RoutingPolicy)
    (hids : (cards.map (·.id)).Nodup) (hskip : policy.skip = 0) :
    (policy.fallbackChain = [] →
      SelectedByRank arithmetic cards policy (selectCandidates arithmetic cards policy)) ∧
    (policy.fallbackChain ≠ [] →
      SelectedByChain arithmetic cards policy (selectCandidates arithmetic cards policy)) :=
  ⟨ranked_of_ids hids hskip, chained_of_ids hids hskip⟩

/-! ### Cards of two vendors -/

def vendorCard (id vendorModelId : String) : Model where
  id := id
  providerId := some id
  vendorModelId := vendorModelId
  validationStatus := .passed

theorem selection_exact_of_two :
    SelectedByRank exactArithmetic [vendorCard "a" "m", vendorCard "b" "n"] {}
      (selectCandidates exactArithmetic [vendorCard "a" "m", vendorCard "b" "n"] {}) :=
  (selection_exact exactArithmetic [vendorCard "a" "m", vendorCard "b" "n"] {} (by decide)
    (by decide)).1 rfl

theorem chain_names_a_card_twice :
    ¬∀ (cards : List Model) (policy : RoutingPolicy), (cards.map (·.id)).Nodup → policy.skip = 0 →
      ((selectCandidates exactArithmetic cards policy).1.map (·.modelId)).Nodup := by
  intro hclaim
  have htwice := hclaim [vendorCard "a" "m"] { fallbackChain := ["a", "m"] } (by decide) (by decide)
  exact absurd htwice (by decide)

end Almyty.Routing
