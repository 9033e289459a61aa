import Almyty.Lib.Assoc
import Almyty.Lib.StableSort

/-!
# The cost of each agent: `byAgent` in `modules/budgets/spend.service.ts`

An agent spends in two tables: its runs and its executions. The breakdown by agent asks each for the
fifty agents with the highest sums, adds the halves per agent and keeps fifty of these. The first
fifty of a table are taken before the halves are added, so an agent that is not among them there is
shown without that half, or not at all. `by_agent_right_iff` says when that does not show: when
every agent that is cut off somewhere is behind fifty that are not.

Mirroring notes:
- Amounts are rationals; what doubles and their decimal text lose is left out.
- The database arranges groups of equal sums as it likes.
-/

namespace Almyty.Budgets

open Almyty.Lib List

/-! ## The tables -/

inductive AgentId
  | null
  | uuid (id : String)
  deriving DecidableEq

structure SpendRow where
  organizationId : String
  agentId : AgentId
  totalCost : Rat
  createdAt : Int

structure AgentRow where
  id : String
  /-- `visibility = 'private'`. -/
  isPrivate : Bool
  createdBy : Option String

structure SpendSource where
  rows : List SpendRow
  perAgent : Bool

structure SpendService where
  runs : List SpendRow
  executions : Option (List SpendRow)
  hostedCalls : Option (List SpendRow)
  agents : List AgentRow

def SpendService.spendSources (service : SpendService) : List SpendSource :=
  [⟨service.runs, true⟩] ++ (service.executions.map fun rows => ⟨rows, true⟩).toList ++
    (service.hostedCalls.map fun rows => ⟨rows, false⟩).toList

structure ByAgentQuery where
  organizationId : String
  start : Int
  stop : Option Int
  viewerId : Option String
  hiddenAgentIds : List String

/-! ## The query -/

def ownerIsViewer (owner viewer : Option String) : Bool := owner.isSome && owner = viewer

def notOthersPrivateAgent (agents : List AgentRow) (viewerId : Option String) (agentId : AgentId) :
    Bool :=
  !agents.any fun pa =>
    AgentId.uuid pa.id = agentId && pa.isPrivate && !ownerIsViewer pa.createdBy viewerId

/-- The `WHERE` of the query. -/
def ByAgentQuery.selects (query : ByAgentQuery) (agents : List AgentRow) (row : SpendRow) : Bool :=
  row.organizationId = query.organizationId && query.start ≤ row.createdAt &&
    notOthersPrivateAgent agents query.viewerId row.agentId &&
    query.stop.all (fun stop => row.createdAt < stop) &&
    match row.agentId with
    | .null => true
    | .uuid id => !query.hiddenAgentIds.contains id

structure SpendGroup where
  agentId : AgentId
  total : Rat
  count : Nat

def groupOf (rows : List SpendRow) (agentId : AgentId) : SpendGroup :=
  let own := rows.filter fun row => row.agentId = agentId
  ⟨agentId, (own.map SpendRow.totalCost).sum, own.length⟩

/-- `GROUP BY agentId`. -/
def groupByAgent (rows : List SpendRow) : List SpendGroup :=
  (rows.map SpendRow.agentId).dedup.map (groupOf rows)

structure Database where
  arrange : List SpendGroup → List SpendGroup
  perm : ∀ groups, (arrange groups).Perm groups
  descending : ∀ groups, (arrange groups).Pairwise fun a b => b.total ≤ a.total

/-! ## The merge -/

def mathRound (x : Rat) : Int := (x + 1 / 2).floor

def toCents (dollars : Rat) : Rat := (mathRound (dollars * 1000000) : Rat) / 10000

structure Spent where
  spentCents : Rat
  runCount : Nat

def addGroup (merged : List (AgentId × Spent)) (r : SpendGroup) : List (AgentId × Spent) :=
  let acc := (merged.lookup r.agentId).getD ⟨0, 0⟩
  Assoc.put merged r.agentId ⟨acc.spentCents + toCents r.total, acc.runCount + r.count⟩

def mergeGroups (perSource : List (List SpendGroup)) : List (AgentId × Spent) :=
  perSource.foldl (fun merged rows => rows.foldl addGroup merged) []

structure SpendByAgent where
  agentId : AgentId
  spentCents : Rat
  runCount : Nat

/-- `b.spentCents - a.spentCents` is not positive. -/
def SpendByAgent.NotAfter (a b : SpendByAgent) : Prop := b.spentCents ≤ a.spentCents

instance : DecidableRel SpendByAgent.NotAfter := fun a b =>
  inferInstanceAs (Decidable (b.spentCents ≤ a.spentCents))

instance : Std.Total SpendByAgent.NotAfter := ⟨fun a b => le_total b.spentCents a.spentCents⟩

instance : IsTrans SpendByAgent SpendByAgent.NotAfter := ⟨fun _ _ _ hab hbc => le_trans hbc hab⟩

/-- `LIMIT 50`. -/
def topGroups (db : Database) (rows : List SpendRow) : List SpendGroup :=
  (db.arrange (groupByAgent rows)).take 50

def mergedAgents (db : Database) (tables : List (List SpendRow)) : List SpendByAgent :=
  (mergeGroups (tables.map (topGroups db))).map fun (agentId, v) =>
    ⟨agentId, v.spentCents, v.runCount⟩

/-- The first fifty of them. -/
def topAgents (db : Database) (tables : List (List SpendRow)) : List SpendByAgent :=
  ((mergedAgents db tables).insertionSort SpendByAgent.NotAfter).take 50

def visibleRows (service : SpendService) (query : ByAgentQuery) : List (List SpendRow) :=
  (service.spendSources.filter SpendSource.perAgent).map fun source =>
    source.rows.filter (query.selects service.agents)

def byAgent (db : Database) (service : SpendService) (query : ByAgentQuery) : List SpendByAgent :=
  topAgents db (visibleRows service query)

/-! ## The right breakdown -/

def Spends (tables : List (List SpendRow)) (agentId : AgentId) : Prop :=
  ∃ rows ∈ tables, agentId ∈ rows.map SpendRow.agentId

def spentBy (tables : List (List SpendRow)) (agentId : AgentId) : Rat :=
  (tables.map fun rows => toCents (groupOf rows agentId).total).sum

def runsBy (tables : List (List SpendRow)) (agentId : AgentId) : Nat :=
  (tables.map fun rows => (groupOf rows agentId).count).sum

structure RightBreakdown (tables : List (List SpendRow)) (result : List SpendByAgent) : Prop where
  whole : ∀ r ∈ result, Spends tables r.agentId ∧ r.spentCents = spentBy tables r.agentId ∧
    r.runCount = runsBy tables r.agentId
  once : (result.map SpendByAgent.agentId).Nodup
  descending : result.Pairwise SpendByAgent.NotAfter
  atMost : result.length ≤ 50
  /-- An agent is left out only if fifty are shown, and none of these spent less. -/
  highest : ∀ agentId, Spends tables agentId → agentId ∉ result.map SpendByAgent.agentId →
    result.length = 50 ∧ ∀ r ∈ result, spentBy tables agentId ≤ r.spentCents

/-! ## What the merge holds -/

section Merge

theorem lookup_addGroup (merged : List (AgentId × Spent)) (g : SpendGroup) (agentId : AgentId) :
    (addGroup merged g).lookup agentId =
      if g.agentId = agentId then
        some ⟨((merged.lookup agentId).getD ⟨0, 0⟩).spentCents + toCents g.total,
          ((merged.lookup agentId).getD ⟨0, 0⟩).runCount + g.count⟩
      else merged.lookup agentId := by
  rw [addGroup, Assoc.lookup_put]
  by_cases h : g.agentId = agentId
  · rw [if_pos h.symm, if_pos h, h]
  · rw [if_neg fun heq => h heq.symm, if_neg h]

def groupsFor (groups : List SpendGroup) (agentId : AgentId) : List SpendGroup :=
  groups.filter fun g => g.agentId = agentId

def heldBy (groups : List SpendGroup) (agentId : AgentId) : Spent :=
  ⟨((groupsFor groups agentId).map fun g => toCents g.total).sum,
    ((groupsFor groups agentId).map SpendGroup.count).sum⟩

theorem lookup_merged (groups : List SpendGroup) (agentId : AgentId) :
    (groups.foldl addGroup []).lookup agentId =
      if agentId ∈ groups.map SpendGroup.agentId then some (heldBy groups agentId) else none := by
  induction groups using List.reverseRecOn with
  | nil => rfl
  | append_singleton groups g ih =>
    rw [foldl_append, foldl_cons, foldl_nil, lookup_addGroup, ih]
    by_cases hg : g.agentId = agentId
    · have hheld : (if agentId ∈ groups.map SpendGroup.agentId then some (heldBy groups agentId)
          else none).getD ⟨0, 0⟩ = heldBy groups agentId := by
        by_cases hmem : agentId ∈ groups.map SpendGroup.agentId
        · rw [if_pos hmem, Option.getD_some]
        · have hnone : groupsFor groups agentId = [] := by
            refine filter_eq_nil_iff.mpr fun g' hg' heq => hmem ?_
            exact mem_map.mpr ⟨g', hg', of_decide_eq_true heq⟩
          rw [if_neg hmem, Option.getD_none, heldBy, hnone]
          rfl
      rw [if_pos hg, hheld]
      simp [heldBy, groupsFor, hg]
    · have hg' : agentId ≠ g.agentId := fun heq => hg heq.symm
      simp [heldBy, groupsFor, hg, hg']

theorem keys_addGroup (merged : List (AgentId × Spent)) (g : SpendGroup) :
    Assoc.keys (addGroup merged g) =
      if g.agentId ∈ Assoc.keys merged then Assoc.keys merged
      else Assoc.keys merged ++ [g.agentId] := Assoc.keys_put _ _ _

theorem keys_merged_nodup (groups : List SpendGroup) :
    (Assoc.keys (groups.foldl addGroup [])).Nodup := by
  induction groups using List.reverseRecOn with
  | nil => exact nodup_nil
  | append_singleton groups g ih =>
    rw [foldl_append, foldl_cons, foldl_nil]
    exact Assoc.put_keys_nodup ih _ _

theorem mem_keys_merged (groups : List SpendGroup) (agentId : AgentId) :
    agentId ∈ Assoc.keys (groups.foldl addGroup []) ↔ agentId ∈ groups.map SpendGroup.agentId := by
  rw [← Assoc.lookup_isSome_iff, lookup_merged]
  by_cases hmem : agentId ∈ groups.map SpendGroup.agentId <;> simp [hmem]

theorem keys_merged_order (groups : List SpendGroup) {a b : AgentId}
    (ha : a ∈ groups.map SpendGroup.agentId) :
    [b, a].Sublist (Assoc.keys (groups.foldl addGroup [])) ↔
      (groups.map SpendGroup.agentId).idxOf b < (groups.map SpendGroup.agentId).idxOf a := by
  induction groups using List.reverseRecOn with
  | nil => exact absurd ha not_mem_nil
  | append_singleton groups g ih =>
    have hkeys := mem_keys_merged groups
    have hnodup := keys_merged_nodup (groups ++ [g])
    rw [foldl_append, foldl_cons, foldl_nil, keys_addGroup] at hnodup ⊢
    rw [map_append, map_cons, map_nil] at ha ⊢
    by_cases hold : a ∈ groups.map SpendGroup.agentId
    · -- the order of the two was settled before this group
      have hlast : (groups.map SpendGroup.agentId ++ [g.agentId]).idxOf b <
          (groups.map SpendGroup.agentId ++ [g.agentId]).idxOf a ↔
          (groups.map SpendGroup.agentId).idxOf b < (groups.map SpendGroup.agentId).idxOf a := by
        have hbound := idxOf_lt_length_of_mem hold
        rw [idxOf_append_of_mem hold]
        by_cases hb : b ∈ groups.map SpendGroup.agentId
        · rw [idxOf_append_of_mem hb]
        · rw [idxOf_append_of_notMem hb, idxOf_eq_length_iff.mpr hb]
          omega
      rw [hlast, ← ih hold]
      by_cases hg : g.agentId ∈ Assoc.keys (groups.foldl addGroup [])
      · rw [if_pos hg]
      · rw [if_neg hg] at hnodup ⊢
        obtain ⟨front, later, hsplit⟩ := append_of_mem ((hkeys a).mpr hold)
        rw [hsplit] at hnodup ⊢
        constructor
        · intro h
          rw [append_assoc, cons_append] at hnodup h
          have hb := StableSort.mem_of_pair_sublist hnodup h
          exact (singleton_sublist.mpr hb).append
            (singleton_sublist.mpr mem_cons_self)
        · exact fun h => h.trans (sublist_append_left _ _)
    · have hag : a = g.agentId := by
        rcases mem_append.mp ha with h | h
        · exact absurd h hold
        · exact mem_singleton.mp h
      have hg : g.agentId ∉ Assoc.keys (groups.foldl addGroup []) := by
        rw [hkeys, ← hag]
        exact hold
      rw [if_neg hg] at hnodup ⊢
      rw [← hag] at hnodup ⊢
      have hlast : (groups.map SpendGroup.agentId ++ [a]).idxOf a =
          (groups.map SpendGroup.agentId).length := by
        rw [idxOf_append_of_notMem hold, idxOf_cons_self, Nat.add_zero]
      rw [hlast]
      constructor
      · intro h
        have hb := (hkeys b).mp (StableSort.mem_of_pair_sublist hnodup h)
        rw [idxOf_append_of_mem hb]
        exact idxOf_lt_length_of_mem hb
      · intro h
        by_cases hb : b ∈ groups.map SpendGroup.agentId
        · exact (singleton_sublist.mpr ((hkeys b).mpr hb)).append (List.Sublist.refl _)
        · rw [idxOf_append_of_notMem hb] at h
          omega

end Merge

/-! ## What a table's first fifty hold -/

section Tables

variable (db : Database) (tables : List (List SpendRow))

variable {agentId : AgentId}

variable {rows : List SpendRow}

theorem count_pos (h : agentId ∈ rows.map SpendRow.agentId) :
    0 < (groupOf rows agentId).count := by
  obtain ⟨row, hrow, heq⟩ := mem_map.mp h
  exact length_pos_of_mem (mem_filter.mpr ⟨hrow, decide_eq_true heq⟩)

theorem groupOf_of_not_mem (h : agentId ∉ rows.map SpendRow.agentId) :
    groupOf rows agentId = ⟨agentId, 0, 0⟩ := by
  have hnone : rows.filter (fun row => row.agentId = agentId) = [] := by
    refine filter_eq_nil_iff.mpr fun row hrow heq => h ?_
    exact mem_map.mpr ⟨row, hrow, of_decide_eq_true heq⟩
  rw [groupOf, hnone]
  rfl

theorem agents_of_groups (rows : List SpendRow) :
    (groupByAgent rows).map SpendGroup.agentId = (rows.map SpendRow.agentId).dedup := by
  rw [groupByAgent, map_map]
  exact map_id _

theorem mem_topGroups {g : SpendGroup} (h : g ∈ topGroups db rows) :
    g = groupOf rows g.agentId ∧ g.agentId ∈ rows.map SpendRow.agentId := by
  have hg := (db.perm _).subset (mem_of_mem_take h)
  obtain ⟨agentId, hagent, rfl⟩ := mem_map.mp hg
  exact ⟨rfl, mem_dedup.mp hagent⟩

theorem topGroups_nodup (rows : List SpendRow) :
    ((topGroups db rows).map SpendGroup.agentId).Nodup := by
  have hall : ((db.arrange (groupByAgent rows)).map SpendGroup.agentId).Nodup := by
    rw [((db.perm (groupByAgent rows)).map SpendGroup.agentId).nodup_iff, agents_of_groups]
    exact nodup_dedup _
  exact hall.sublist ((take_sublist _ _).map _)

theorem groupsFor_topGroups (rows : List SpendRow) (agentId : AgentId) :
    groupsFor (topGroups db rows) agentId =
      if agentId ∈ (topGroups db rows).map SpendGroup.agentId then [groupOf rows agentId]
      else [] := by
  by_cases hmem : agentId ∈ (topGroups db rows).map SpendGroup.agentId
  · obtain ⟨g, hg, rfl⟩ := mem_map.mp hmem
    obtain ⟨front, later, hsplit⟩ := append_of_mem hg
    have hnodup := topGroups_nodup db rows
    rw [hsplit, map_append, map_cons] at hnodup
    obtain ⟨-, hrest, hapart⟩ := nodup_append.mp hnodup
    have hfront : front.filter (fun g' => g'.agentId = g.agentId) = [] := by
      refine filter_eq_nil_iff.mpr fun g' hg' heq => ?_
      exact hapart _ (mem_map_of_mem hg') _ mem_cons_self (of_decide_eq_true heq)
    have hlater : later.filter (fun g' => g'.agentId = g.agentId) = [] := by
      refine filter_eq_nil_iff.mpr fun g' hg' heq => ?_
      refine (nodup_cons.mp hrest).1 ?_
      rw [← of_decide_eq_true heq]
      exact mem_map_of_mem hg'
    have hself : decide (g.agentId = g.agentId) = true := decide_eq_true rfl
    rw [if_pos hmem, groupsFor, hsplit, filter_append, hfront, nil_append, List.filter,
      hself, hlater, ← (mem_topGroups db hg).1]
  · rw [if_neg hmem]
    refine filter_eq_nil_iff.mpr fun g hg heq => hmem ?_
    exact mem_map.mpr ⟨g, hg, of_decide_eq_true heq⟩

def keptGroups : List SpendGroup := (tables.map (topGroups db)).flatten

def keptAgents : List AgentId := (keptGroups db tables).map SpendGroup.agentId

def keptOf (agentId : AgentId) : Spent := heldBy (keptGroups db tables) agentId

/-- Where the agent has rows, its group is among the first fifty. -/
def Uncut (agentId : AgentId) : Prop :=
  ∀ rows ∈ tables, agentId ∈ rows.map SpendRow.agentId →
    agentId ∈ (topGroups db rows).map SpendGroup.agentId

theorem keptOf_eq (agentId : AgentId) :
    keptOf db tables agentId =
      ⟨(tables.map fun rows =>
          if agentId ∈ (topGroups db rows).map SpendGroup.agentId then
            toCents (groupOf rows agentId).total else 0).sum,
        (tables.map fun rows =>
          if agentId ∈ (topGroups db rows).map SpendGroup.agentId then
            (groupOf rows agentId).count else 0).sum⟩ := by
  unfold keptOf keptGroups heldBy
  induction tables with
  | nil => rfl
  | cons rows tables ih =>
    obtain ⟨hcents, hcount⟩ := Spent.mk.inj ih
    have hsplit : groupsFor ((rows :: tables).map (topGroups db)).flatten agentId =
        groupsFor (topGroups db rows) agentId ++
          groupsFor (tables.map (topGroups db)).flatten agentId := filter_append _ _
    rw [hsplit, groupsFor_topGroups, map_append, map_append, sum_append,
      sum_append, hcents, hcount, map_cons, sum_cons, map_cons, sum_cons]
    by_cases hmem : agentId ∈ (topGroups db rows).map SpendGroup.agentId
    · simp only [if_pos hmem, map_cons, map_nil, sum_cons, sum_nil, add_zero]
    · simp only [if_neg hmem, map_nil, sum_nil]

theorem toCents_zero : toCents 0 = 0 := by decide +kernel

theorem keptOf_of_uncut (h : Uncut db tables agentId) :
    keptOf db tables agentId = ⟨spentBy tables agentId, runsBy tables agentId⟩ := by
  have hrows : ∀ rows ∈ tables, agentId ∉ (topGroups db rows).map SpendGroup.agentId →
      groupOf rows agentId = ⟨agentId, 0, 0⟩ :=
    fun rows hrows hnot => groupOf_of_not_mem fun hmem => hnot (h rows hrows hmem)
  rw [keptOf_eq, spentBy, runsBy]
  congr 2
  · refine map_congr_left fun rows hmem => ?_
    by_cases htop : agentId ∈ (topGroups db rows).map SpendGroup.agentId
    · exact if_pos htop
    · rw [if_neg htop, hrows rows hmem htop, toCents_zero]
  · refine map_congr_left fun rows hmem => ?_
    by_cases htop : agentId ∈ (topGroups db rows).map SpendGroup.agentId
    · exact if_pos htop
    · rw [if_neg htop, hrows rows hmem htop]

theorem keptOf_of_cut (h : ¬ Uncut db tables agentId) :
    (keptOf db tables agentId).runCount < runsBy tables agentId := by
  simp only [Uncut, not_forall] at h
  obtain ⟨rows, hrows, hmem, hnot⟩ := h
  rw [keptOf_eq, runsBy]
  refine sum_lt_sum _ _ (fun rows' _ => ?_) ⟨rows, hrows, ?_⟩
  · split
    · exact le_rfl
    · exact Nat.zero_le _
  · rw [if_neg hnot]
    exact count_pos hmem

theorem mem_keptAgents (agentId : AgentId) :
    agentId ∈ keptAgents db tables ↔
      ∃ rows ∈ tables, agentId ∈ (topGroups db rows).map SpendGroup.agentId := by
  rw [keptAgents, keptGroups, map_flatten, mem_flatten]
  constructor
  · rintro ⟨l, hl, hmem⟩
    rw [map_map] at hl
    obtain ⟨rows, hrows, rfl⟩ := mem_map.mp hl
    exact ⟨rows, hrows, hmem⟩
  · rintro ⟨rows, hrows, hmem⟩
    refine ⟨_, ?_, hmem⟩
    rw [map_map]
    exact mem_map.mpr ⟨rows, hrows, rfl⟩

theorem spends_of_kept (h : agentId ∈ keptAgents db tables) : Spends tables agentId := by
  obtain ⟨rows, hrows, hmem⟩ := (mem_keptAgents db tables agentId).mp h
  obtain ⟨g, hg, rfl⟩ := mem_map.mp hmem
  exact ⟨rows, hrows, (mem_topGroups db hg).2⟩

theorem kept_of_uncut (hspends : Spends tables agentId) (h : Uncut db tables agentId) :
    agentId ∈ keptAgents db tables := by
  obtain ⟨rows, hrows, hmem⟩ := hspends
  exact (mem_keptAgents db tables agentId).mpr ⟨rows, hrows, h rows hrows hmem⟩

end Tables

/-! ## When the breakdown is right -/

section Breakdown

open StableSort (AtLeast Ahead)

variable (db : Database) (tables : List (List SpendRow))

def shown (agentId : AgentId) : SpendByAgent :=
  ⟨agentId, (keptOf db tables agentId).spentCents, (keptOf db tables agentId).runCount⟩

def mergedIds : List AgentId := Assoc.keys ((keptGroups db tables).foldl addGroup [])

theorem mergedAgents_eq : mergedAgents db tables = (mergedIds db tables).map (shown db tables) := by
  have hfold : mergeGroups (tables.map (topGroups db)) =
      (keptGroups db tables).foldl addGroup [] := by
    rw [keptGroups, foldl_flatten]
    rfl
  rw [mergedAgents, hfold, mergedIds, Assoc.keys, map_map]
  refine map_congr_left fun p hp => ?_
  have hlookup := Assoc.lookup_of_mem (keys_merged_nodup (keptGroups db tables)) hp
  rw [lookup_merged] at hlookup
  have hmem : p.1 ∈ (keptGroups db tables).map SpendGroup.agentId :=
    (mem_keys_merged _ _).mp (mem_map_of_mem hp)
  rw [if_pos hmem] at hlookup
  show (⟨p.1, p.2.spentCents, p.2.runCount⟩ : SpendByAgent) = shown db tables p.1
  rw [shown, keptOf, Option.some.inj hlookup]

theorem mem_mergedIds (agentId : AgentId) :
    agentId ∈ mergedIds db tables ↔ agentId ∈ keptAgents db tables := mem_keys_merged _ _

theorem shown_injective : Function.Injective (shown db tables) :=
  fun _ _ h => congrArg SpendByAgent.agentId h

theorem mergedAgents_nodup : (mergedAgents db tables).Nodup := by
  rw [mergedAgents_eq]
  exact (keys_merged_nodup _).map (shown_injective db tables)

theorem mem_mergedAgents (e : SpendByAgent) :
    e ∈ mergedAgents db tables ↔
      e.agentId ∈ keptAgents db tables ∧ e = shown db tables e.agentId := by
  rw [mergedAgents_eq, mem_map]
  simp only [mem_mergedIds]
  constructor
  · rintro ⟨agentId, hmem, rfl⟩
    exact ⟨hmem, rfl⟩
  · intro h
    exact ⟨e.agentId, h.1, h.2.symm⟩

/-- One agent's line is before another's: by what is merged of the two, and where that is even by
their first groups. -/
def Before (b a : AgentId) : Prop :=
  (keptOf db tables a).spentCents < (keptOf db tables b).spentCents ∨
    (keptOf db tables a).spentCents = (keptOf db tables b).spentCents ∧
      (keptAgents db tables).idxOf b < (keptAgents db tables).idxOf a

/-- Fifty uncut agents are before a cut one: by all it spent, and by what is merged of it. -/
def Behind (agentId : AgentId) : Prop :=
  AtLeast 50 (fun b => Spends tables b ∧ Uncut db tables b ∧
    spentBy tables agentId ≤ spentBy tables b) ∧
  (agentId ∈ keptAgents db tables → AtLeast 50 fun b => Spends tables b ∧ Uncut db tables b ∧
    Before db tables b agentId)

section

variable {db tables} {a b : AgentId}

theorem ahead_iff (ha : a ∈ keptAgents db tables) (hb : b ∈ keptAgents db tables) :
    Ahead SpendByAgent.NotAfter (mergedAgents db tables) (shown db tables b) (shown db tables a) ↔
      Before db tables b a := by
  have hmem := (mem_mergedAgents db tables (shown db tables b)).mpr ⟨hb, rfl⟩
  have hinj := shown_injective db tables
  have horder : [b, a].Sublist (mergedIds db tables) ↔
      (keptAgents db tables).idxOf b < (keptAgents db tables).idxOf a := keys_merged_order _ ha
  have hpair : ([b, a].map (shown db tables)).Sublist (mergedAgents db tables) ↔
      (keptAgents db tables).idxOf b < (keptAgents db tables).idxOf a := by
    rw [← horder, mergedAgents_eq]
    constructor
    · intro h
      obtain ⟨pair, hpair, heq⟩ := sublist_map_iff.mp h
      rwa [(map_injective_iff.mpr hinj) heq]
    · exact fun h => h.map _
  constructor
  · rintro ⟨-, -, hle, htie⟩
    rcases lt_or_eq_of_le hle with hlt | heq
    · exact .inl hlt
    · exact .inr ⟨heq, hpair.mp (htie heq.ge)⟩
  · rintro (hlt | ⟨heq, hfirst⟩)
    · refine ⟨hmem, fun h => ?_, hlt.le, fun hge => absurd hge (not_le.mpr hlt)⟩
      rw [hinj h] at hlt
      exact lt_irrefl _ hlt
    · refine ⟨hmem, fun h => ?_, heq.le, fun _ => hpair.mpr hfirst⟩
      rw [hinj h] at hfirst
      exact lt_irrefl _ hfirst

theorem not_mem_topAgents_iff (ha : a ∈ keptAgents db tables) :
    shown db tables a ∉ topAgents db tables ↔
      AtLeast 50 fun b => b ∈ keptAgents db tables ∧ Before db tables b a := by
  have hmem := (mem_mergedAgents db tables (shown db tables a)).mpr ⟨ha, rfl⟩
  rw [topAgents, StableSort.not_mem_take_sorted_iff (mergedAgents_nodup db tables) hmem]
  constructor
  · rintro ⟨lines, hnodup, hlen, hall⟩
    have hline : ∀ e ∈ lines, e.agentId ∈ keptAgents db tables ∧ e = shown db tables e.agentId :=
      fun e he => (mem_mergedAgents db tables e).mp (hall e he).1
    refine ⟨lines.map SpendByAgent.agentId, ?_, by rwa [length_map], fun b hb => ?_⟩
    · refine hnodup.map_on fun e he f hf heq => ?_
      rw [(hline e he).2, (hline f hf).2, heq]
    · obtain ⟨e, he, rfl⟩ := mem_map.mp hb
      have hahead := hall e he
      rw [(hline e he).2] at hahead
      exact ⟨(hline e he).1, (ahead_iff ha (hline e he).1).mp hahead⟩
  · rintro ⟨agents, hnodup, hlen, hall⟩
    refine ⟨agents.map (shown db tables), hnodup.map (shown_injective db tables),
      by rwa [length_map], fun e he => ?_⟩
    obtain ⟨b, hb, rfl⟩ := mem_map.mp he
    exact (ahead_iff ha (hall b hb).1).mpr (hall b hb).2

theorem mem_topAgents {e : SpendByAgent} (h : e ∈ topAgents db tables) :
    e.agentId ∈ keptAgents db tables ∧ e = shown db tables e.agentId :=
  (mem_mergedAgents db tables e).mp
    ((perm_insertionSort _ _).subset (mem_of_mem_take h))

theorem mem_topAgents_iff (ha : a ∈ keptAgents db tables) :
    a ∈ (topAgents db tables).map SpendByAgent.agentId ↔
      shown db tables a ∈ topAgents db tables := by
  constructor
  · intro h
    obtain ⟨e, he, rfl⟩ := mem_map.mp h
    rwa [← (mem_topAgents he).2]
  · exact fun h => mem_map.mpr ⟨_, h, rfl⟩

theorem topAgents_nodup : ((topAgents db tables).map SpendByAgent.agentId).Nodup := by
  have hnodup : (topAgents db tables).Nodup :=
    ((perm_insertionSort SpendByAgent.NotAfter _).nodup_iff.mpr
      (mergedAgents_nodup db tables)).sublist (take_sublist _ _)
  refine hnodup.map_on fun e he f hf heq => ?_
  rw [(mem_topAgents he).2, (mem_topAgents hf).2, heq]

theorem topAgents_descending : (topAgents db tables).Pairwise SpendByAgent.NotAfter :=
  (pairwise_insertionSort SpendByAgent.NotAfter _).sublist (take_sublist _ _)

theorem length_topAgents_le : (topAgents db tables).length ≤ 50 := length_take_le _ _

theorem length_topAgents (ha : a ∈ keptAgents db tables)
    (hout : shown db tables a ∉ topAgents db tables) : (topAgents db tables).length = 50 := by
  have hperm := perm_insertionSort SpendByAgent.NotAfter (mergedAgents db tables)
  have hmem := hperm.symm.subset
    ((mem_mergedAgents db tables (shown db tables a)).mpr ⟨ha, rfl⟩)
  have hlong : 50 < ((mergedAgents db tables).insertionSort SpendByAgent.NotAfter).length := by
    by_contra hshort
    refine hout ?_
    rw [topAgents, take_of_length_le (not_lt.mp hshort)]
    exact hmem
  rw [topAgents, length_take]
  omega

theorem before_of_left_out {e : SpendByAgent} (ha : a ∈ keptAgents db tables)
    (hout : shown db tables a ∉ topAgents db tables) (he : e ∈ topAgents db tables) :
    Before db tables e.agentId a := by
  obtain ⟨hkept, hshown⟩ := mem_topAgents he
  have hperm := perm_insertionSort SpendByAgent.NotAfter (mergedAgents db tables)
  have hmem := (mem_mergedAgents db tables (shown db tables a)).mpr ⟨ha, rfl⟩
  have hpair := StableSort.pair_sublist_of_take he (hperm.symm.subset hmem) hout
  rw [StableSort.pair_sublist_sorted_iff (mergedAgents_nodup db tables) hmem, hshown] at hpair
  exact (ahead_iff ha hkept).mp hpair

theorem le_of_before (h : Before db tables b a) :
    (keptOf db tables a).spentCents ≤ (keptOf db tables b).spentCents := by
  rcases h with hlt | ⟨heq, -⟩
  · exact hlt.le
  · exact heq.le

end

theorem right_of_behind (h : ∀ a, Spends tables a → ¬ Uncut db tables a → Behind db tables a) :
    RightBreakdown tables (topAgents db tables) := by
  have huncut : ∀ e ∈ topAgents db tables, Uncut db tables e.agentId := by
    intro e he
    by_contra hcut
    obtain ⟨hkept, hshown⟩ := mem_topAgents he
    obtain ⟨-, hbefore⟩ := h e.agentId (spends_of_kept db tables hkept) hcut
    refine (not_mem_topAgents_iff hkept).mpr ?_ (by rwa [← hshown])
    exact (hbefore hkept).imp fun b hb => ⟨kept_of_uncut db tables hb.1 hb.2.1, hb.2.2⟩
  have hwhole : ∀ e ∈ topAgents db tables,
      e.spentCents = spentBy tables e.agentId ∧ e.runCount = runsBy tables e.agentId := by
    intro e he
    have hshown := (mem_topAgents he).2
    have hkept := keptOf_of_uncut db tables (huncut e he)
    constructor
    · exact (congrArg SpendByAgent.spentCents hshown).trans (congrArg Spent.spentCents hkept)
    · exact (congrArg SpendByAgent.runCount hshown).trans (congrArg Spent.runCount hkept)
  refine ⟨fun e he => ⟨spends_of_kept db tables (mem_topAgents he).1, hwhole e he⟩,
    topAgents_nodup, topAgents_descending, length_topAgents_le, fun a hspends hout => ?_⟩
  by_cases hcut : Uncut db tables a
  · have ha := kept_of_uncut db tables hspends hcut
    have hout' : shown db tables a ∉ topAgents db tables :=
      fun hmem => hout ((mem_topAgents_iff ha).mpr hmem)
    refine ⟨length_topAgents ha hout', fun e he => ?_⟩
    have hle := le_of_before (before_of_left_out ha hout' he)
    rw [keptOf_of_uncut db tables hcut, keptOf_of_uncut db tables (huncut e he)] at hle
    exact hle.trans_eq (hwhole e he).1.symm
  · obtain ⟨agents, hnodup, hlen, hall⟩ := (h a hspends hcut).1
    have hkept : ∀ b ∈ agents, b ∈ keptAgents db tables :=
      fun b hb => kept_of_uncut db tables (hall b hb).1 (hall b hb).2.1
    have hcents : ∀ b ∈ agents, (keptOf db tables b).spentCents = spentBy tables b :=
      fun b hb => congrArg Spent.spentCents (keptOf_of_uncut db tables (hall b hb).2.1)
    constructor
    · -- the fifty are merged, so fifty are shown
      have hle : agents.length ≤ (mergedAgents db tables).length := by
        rw [mergedAgents_eq, length_map]
        refine (hnodup.subperm fun b hb => ?_).length_le
        exact (mem_mergedIds db tables b).mpr (hkept b hb)
      rw [topAgents, length_take, length_insertionSort]
      omega
    · intro e he
      by_contra hlt
      rw [not_le] at hlt
      obtain ⟨hekept, hshown⟩ := mem_topAgents he
      have hecents : e.spentCents = (keptOf db tables e.agentId).spentCents :=
        congrArg SpendByAgent.spentCents hshown
      refine (not_mem_topAgents_iff hekept).mpr ⟨agents, hnodup, hlen, fun b hb => ?_⟩
        (by rwa [← hshown])
      refine ⟨hkept b hb, .inl ?_⟩
      rw [← hecents, hcents b hb]
      exact hlt.trans_le (hall b hb).2.2

theorem behind_of_right (h : RightBreakdown tables (topAgents db tables)) :
    ∀ a, Spends tables a → ¬ Uncut db tables a → Behind db tables a := by
  have huncut : ∀ e ∈ topAgents db tables, Uncut db tables e.agentId := by
    intro e he
    by_contra hcut
    have hless := keptOf_of_cut db tables hcut
    have hcount : e.runCount = (keptOf db tables e.agentId).runCount :=
      congrArg SpendByAgent.runCount (mem_topAgents he).2
    rw [← hcount, (h.whole e he).2.2] at hless
    exact lt_irrefl _ hless
  intro a hspends hcut
  have hout : a ∉ (topAgents db tables).map SpendByAgent.agentId := by
    intro hmem
    obtain ⟨e, he, rfl⟩ := mem_map.mp hmem
    exact hcut (huncut e he)
  obtain ⟨hfull, hhighest⟩ := h.highest a hspends hout
  have hshown : ∀ b ∈ (topAgents db tables).map SpendByAgent.agentId,
      Spends tables b ∧ Uncut db tables b ∧ spentBy tables a ≤ spentBy tables b := by
    intro b hb
    obtain ⟨e, he, rfl⟩ := mem_map.mp hb
    obtain ⟨hspent, hcents, -⟩ := h.whole e he
    exact ⟨hspent, huncut e he, hcents ▸ hhighest e he⟩
  refine ⟨⟨_, h.once, by rw [length_map, hfull], hshown⟩, fun hkept => ?_⟩
  have hout' : shown db tables a ∉ topAgents db tables :=
    fun hmem => hout ((mem_topAgents_iff hkept).mpr hmem)
  refine ⟨_, h.once, by rw [length_map, hfull], fun b hb => ?_⟩
  obtain ⟨e, he, rfl⟩ := mem_map.mp hb
  obtain ⟨hspent, hwhole, -⟩ := hshown e.agentId hb
  exact ⟨hspent, hwhole, before_of_left_out hkept hout' he⟩

theorem by_agent_right_iff (db : Database) (service : SpendService) (query : ByAgentQuery) :
    RightBreakdown (visibleRows service query) (byAgent db service query) ↔
      ∀ a, Spends (visibleRows service query) a → ¬ Uncut db (visibleRows service query) a →
        Behind db (visibleRows service query) a :=
  ⟨behind_of_right db _, right_of_behind db _⟩

end Breakdown

/-! ## An agent that is cut from both tables -/

def sortedDatabase : Database where
  arrange := List.insertionSort fun a b => b.total ≤ a.total
  perm := perm_insertionSort _
  descending groups := by
    have htotal : Std.Total fun a b : SpendGroup => b.total ≤ a.total :=
      ⟨fun a b => le_total b.total a.total⟩
    have htrans : IsTrans SpendGroup fun a b => b.total ≤ a.total :=
      ⟨fun _ _ _ hab hbc => le_trans hbc hab⟩
    exact pairwise_insertionSort _ groups

/-- Fifty agents that spent three dollars each, and one that spent two. -/
def fiftyAndOne (table : String) : List SpendRow :=
  (List.range 50).map (fun i => ⟨"org", .uuid (table ++ toString i), 3, 1⟩) ++
    [⟨"org", .uuid "both", 2, 1⟩]

def bothTables : SpendService := ⟨fiftyAndOne "r", some (fiftyAndOne "e"), none, []⟩

def wholeMonth : ByAgentQuery := ⟨"org", 0, none, some "viewer", []⟩

/-- The agent that spent the most is not shown: it is the last of either table. -/
theorem highest_is_cut :
    spentBy (visibleRows bothTables wholeMonth) (.uuid "both") = 400 ∧
      (byAgent sortedDatabase bothTables wholeMonth).all (fun r =>
        r.agentId ≠ .uuid "both" ∧ r.spentCents = 300) = true ∧
      ¬ RightBreakdown (visibleRows bothTables wholeMonth)
        (byAgent sortedDatabase bothTables wholeMonth) := by
  have hspent : spentBy (visibleRows bothTables wholeMonth) (.uuid "both") = 400 := by
    decide +kernel
  have hshown : (byAgent sortedDatabase bothTables wholeMonth).all (fun r =>
      r.agentId ≠ .uuid "both" ∧ r.spentCents = 300) = true := by
    decide +kernel
  have hspends : (visibleRows bothTables wholeMonth).any (fun rows =>
      (rows.map SpendRow.agentId).contains (.uuid "both")) = true := by
    decide +kernel
  refine ⟨hspent, hshown, fun h => ?_⟩
  obtain ⟨rows, hrows, hmem⟩ := any_eq_true.mp hspends
  have hall : ∀ r ∈ byAgent sortedDatabase bothTables wholeMonth,
      r.agentId ≠ .uuid "both" ∧ r.spentCents = 300 :=
    fun r hr => of_decide_eq_true (all_eq_true.mp hshown r hr)
  have hout : AgentId.uuid "both" ∉
      (byAgent sortedDatabase bothTables wholeMonth).map SpendByAgent.agentId := by
    intro hmem
    obtain ⟨r, hr, heq⟩ := mem_map.mp hmem
    exact (hall r hr).1 heq
  obtain ⟨hfull, hhighest⟩ := h.highest _ ⟨rows, hrows, contains_iff_mem.mp hmem⟩ hout
  obtain ⟨r, hr⟩ := exists_mem_of_length_pos (by rw [hfull]; decide)
  have hle := hhighest r hr
  rw [hspent, (hall r hr).2] at hle
  exact absurd hle (by decide)

end Almyty.Budgets
