import Almyty.Lib.Rank
import Almyty.Lib.Slots
import Almyty.Lib.Steps
import Almyty.Memory.Listing

/-!
# A closed memory: `canonical-memory.service.ts`, `consolidation.service.ts`, `ttl-sweeper.processor.ts`

A memory is replaced by closing it: `valid_until` is set, `superseded_by` names what replaces it,
and both are to stay. Four writers close memories. `supersede` refuses one that it read closed,
`supersedeCanonical` does not look, consolidation closes what it read before it asked a model, and
the sweeper looks and closes in one statement. All but the last write over what was closed since
they read.

`closed_history_final` says that this is the only harm: in every run in which what is written as
closed is open at that moment, and a new memory comes under an id no row has and replaced by
nothing, what is closed stays as it was closed, no memory is superseded twice, and following
`superseded_by` never comes back.

Mirroring notes:
- Each statement is atomic and reads what is committed. What a transaction writes is seen when it
  commits, and until then its rows are locked: both saves of a supersede are put at its commit.
- Anything awaited may fail, and with it the call; a check of the item fails so too.
-/

namespace Almyty.Memory.History

open Almyty.Lib List

structure PutInput where
  id : Option String := none
  mode : Mode
  scope : ScopeRef
  content : String
  tags : Option (List String) := none
  tier : Option Tier := none
  ttlSeconds : Option Nat := none
  chunkOf : Option String := none
  deriving DecidableEq

def buildItem (input : PutInput) (id : String) (now : Int) : MemoryItem where
  id := id
  mode := input.mode
  scope := input.scope
  content := input.content
  tags := input.tags.getD []
  tier := if input.mode = .memory then some (input.tier.getD .short) else none
  createdAt := now
  updatedAt := now
  ttlSeconds := if input.mode = .memory then input.ttlSeconds else none
  chunkOf := if input.mode = .memory then none else input.chunkOf

/-! ## The table -/

def rowOf (rows : List MemoryItem) (id : String) : Option MemoryItem := rows.find? (·.id = id)

def save (rows : List MemoryItem) (item : MemoryItem) : List MemoryItem :=
  if (rowOf rows item.id).isSome then rows.map fun row => if row.id = item.id then item else row
  else rows ++ [item]

def close (rows : List MemoryItem) (ids : List String) (now : Int)
    (supersededBy : Option String → Option String) : List MemoryItem :=
  rows.map fun row =>
    if ids.contains row.id then
      { row with
        validUntil := some now, supersededBy := supersededBy row.supersededBy, updatedAt := now }
    else row

structure OldestFirst where
  order : List MemoryItem → List MemoryItem
  perm : ∀ rows, (order rows).Perm rows
  sorted : ∀ rows, (order rows).Pairwise fun a b => a.createdAt ≤ b.createdAt

/-! ## Superseding -/

inductive MemoryError
  | notFound (id : String)
  | unsupportedCapability (backend capability : String)
  | conflict (existingId incomingId field : String)
  | failed
  deriving DecidableEq

inductive SupersedeStage
  | reading
  /-- Both items are made, and saved when the transaction commits. -/
  | saving (old new : MemoryItem) (now : Int)
  | returned (newId : String)
  | threw (error : MemoryError)
  deriving DecidableEq

structure Fact where
  content : String
  tags : Option (List String) := none
  deriving DecidableEq

structure ConsolidationConfig where
  enabled : Bool := false
  minShortCount : Nat := 20
  olderThanMinutes : Int := 60

/-- What the awaited call brought: the clock, a new uuid, and what was answered. -/
structure Reply where
  now : Int := 0
  id : String := ""
  fails : Bool := false
  config : ConsolidationConfig := {}
  provider : Bool := true
  facts : List Fact := []

def supersede (rows : List MemoryItem) (oldId : String) (visible : List String) (input : PutInput)
    (reply : Reply) : SupersedeStage :=
  match (rowOf rows oldId).filter (visible.contains ·.scope.scopeId) with
  | none => .threw (.notFound oldId)
  | some old =>
    if old.mode ≠ .memory then .threw (.unsupportedCapability "almyty-native" "bi_temporal")
    else if old.validUntil ≠ none then .threw (.conflict oldId "supersede" "valid_until")
    else .saving old (buildItem input (input.id.getD reply.id) reply.now) reply.now

def supersedeCanonical (rows : List MemoryItem) (oldId : String) (newItem : MemoryItem)
    (reply : Reply) : SupersedeStage :=
  match rowOf rows oldId with
  | none => .threw (.notFound oldId)
  | some old =>
    if old.mode ≠ .memory then .threw (.unsupportedCapability "almyty-native" "bi_temporal")
    else .saving old newItem reply.now

def supersedeRows (rows : List MemoryItem) (old new : MemoryItem) (now : Int) : List MemoryItem :=
  save (save rows new)
    { old with validUntil := some now, supersededBy := some new.id, updatedAt := now }

/-! ## Consolidating -/

inductive ConsolidateStage
  | reading
  | asking (read : List MemoryItem)
  | writing (read : List MemoryItem) (fact : Fact) (rest : List Fact) (written : List String)
  | closing (read : List MemoryItem) (written : List String)
  | returned (scanned facts : Nat)
  | skipped (reason : String)
  | threw
  deriving DecidableEq

def ConsolidateStage.over : ConsolidateStage → Bool
  | .returned _ _ | .skipped _ | .threw => true
  | _ => false

/-- What `run` reads. -/
def shortRows (order : OldestFirst) (rows : List MemoryItem) (scope : ScopeRef) (cutoff : Int) :
    List MemoryItem :=
  (order.order (rows.filter fun row =>
    row.scope = scope && row.mode = .memory && row.tier = some .short && row.validUntil.isNone &&
      row.deletedAt.isNone && row.createdAt < cutoff)).take 200

def factInput (scope : ScopeRef) (fact : Fact) : PutInput where
  mode := .memory
  scope := scope
  content := fact.content
  tier := some .long
  tags := some ("consolidated" :: fact.tags.getD [])

/-- `ConsolidationService.run`, from one await to the next. -/
def consolidate (order : OldestFirst) (rows : List MemoryItem) (scope : ScopeRef) (force : Bool)
    (reply : Reply) : ConsolidateStage → List MemoryItem × ConsolidateStage
  | .reading =>
    let config := reply.config
    if !config.enabled && !force then (rows, .skipped "consolidation disabled for this scope")
    else
      let read := shortRows order rows scope (reply.now - config.olderThanMinutes * 60000000)
      if read.length < config.minShortCount && !force then
        (rows, .skipped (toString read.length ++ " short-scope rows < min_short_count=" ++
          toString config.minShortCount))
      else (rows, .asking read)
  | .asking read =>
    if !reply.provider then (rows, .skipped "no active provider for this scope")
    else
      match reply.facts with
      | [] => (rows, .skipped "the model extracted no facts")
      | fact :: rest => (rows, .writing read fact rest [])
  | .writing read fact rest written =>
    (save rows (buildItem (factInput scope fact) reply.id reply.now),
      match rest with
      | [] => .closing read (written ++ [reply.id])
      | next :: rest => .writing read next rest (written ++ [reply.id]))
  | .closing read written =>
    -- every source, by the first fact
    (close rows (read.map (·.id)) reply.now (fun _ => written.head?),
      .returned read.length written.length)
  | stage => (rows, stage)

/-! ## Sweeping -/

def BATCH_SIZE : Nat := 10000

/-- `created_at + ttl_seconds < now()`, on what is neither closed nor deleted. -/
def expired (row : MemoryItem) (now : Int) : Bool :=
  row.mode = .memory && row.validUntil.isNone && row.deletedAt.isNone &&
    row.ttlSeconds.any fun ttl => row.createdAt + ttl * 1000000 < now

/-- The sweeper's `handle`. -/
def sweep (order : OldestFirst) (rows : List MemoryItem) (now : Int) : List MemoryItem :=
  let due := (order.order (rows.filter (expired · now))).take BATCH_SIZE
  close rows (due.map (·.id)) now (fun supersededBy => supersededBy)

/-! ## The system -/

inductive Call
  | supersede (oldId : String) (visible : List String) (input : PutInput) (stage : SupersedeStage)
  | supersedeCanonical (oldId : String) (newItem : MemoryItem) (stage : SupersedeStage)
  | consolidate (scope : ScopeRef) (force : Bool) (stage : ConsolidateStage)
  deriving DecidableEq

structure World where
  rows : List MemoryItem
  calls : List Call

inductive Action
  | supersede (oldId : String) (visible : List String) (input : PutInput)
  | supersedeCanonical (oldId : String) (newItem : MemoryItem)
  | consolidate (scope : ScopeRef) (force : Bool)
  | advance (i : Nat) (reply : Reply)
  | sweep (now : Int)

section Step

variable (order : OldestFirst)

def commit (rows : List MemoryItem) (reply : Reply) (old new : MemoryItem) (now : Int) :
    List MemoryItem × SupersedeStage :=
  if reply.fails then (rows, .threw .failed)
  else (supersedeRows rows old new now, .returned new.id)

def advance (rows : List MemoryItem) (reply : Reply) : Call → List MemoryItem × Call
  | .supersede oldId visible input .reading =>
    (rows, .supersede oldId visible input
      (if reply.fails then .threw .failed else History.supersede rows oldId visible input reply))
  | .supersede oldId visible input (.saving old new now) =>
    let (rows', stage) := commit rows reply old new now
    (rows', .supersede oldId visible input stage)
  | .supersedeCanonical oldId newItem .reading =>
    (rows, .supersedeCanonical oldId newItem
      (if reply.fails then .threw .failed
        else History.supersedeCanonical rows oldId newItem reply))
  | .supersedeCanonical oldId newItem (.saving old new now) =>
    let (rows', stage) := commit rows reply old new now
    (rows', .supersedeCanonical oldId newItem stage)
  | .consolidate scope force stage =>
    if reply.fails && !stage.over then (rows, .consolidate scope force .threw)
    else
      let (rows', stage') := History.consolidate order rows scope force reply stage
      (rows', .consolidate scope force stage')
  | call => (rows, call)

def step (w : World) : Action → World
  | .supersede oldId visible input =>
    { w with calls := w.calls ++ [.supersede oldId visible input .reading] }
  | .supersedeCanonical oldId newItem =>
    { w with calls := w.calls ++ [.supersedeCanonical oldId newItem .reading] }
  | .consolidate scope force => { w with calls := w.calls ++ [.consolidate scope force .reading] }
  | .advance i reply =>
    match w.calls[i]? with
    | none => w
    | some call =>
      let (rows, call') := advance order w.rows reply call
      { rows := rows, calls := w.calls.set i call' }
  | .sweep now => { w with rows := sweep order w.rows now }

end Step

/-! ## The claims -/

def history (rows : List MemoryItem) (id : String) : Option (Int × Option String) :=
  (rowOf rows id).bind fun row => row.validUntil.map (·, row.supersededBy)

/-- What was closed is closed as it was. -/
def FinalHistory (rows rows' : List MemoryItem) : Prop :=
  ∀ id closed, history rows id = some closed → history rows' id = some closed

def SupersedeStage.isReturned : SupersedeStage → Bool
  | .returned _ => true
  | _ => false

def Call.superseded : Call → Option String
  | .supersede oldId _ _ stage | .supersedeCanonical oldId _ stage =>
    if stage.isReturned then some oldId else none
  | .consolidate _ _ _ => none

def SupersededOnce (w : World) : Prop :=
  ∀ (i j : Nat) a b oldId, w.calls[i]? = some a → w.calls[j]? = some b →
    a.superseded = some oldId → b.superseded = some oldId → i = j

def Follows (rows : List MemoryItem) (a b : String) : Prop :=
  ∃ row, rowOf rows a = some row ∧ row.supersededBy = some b

/-- A table of memories: what supersedes a memory is stored, and no chain of successors comes
back. -/
structure Ledger extends Store where
  linked : ∀ a b, Follows rows a b → (rowOf rows b).isSome
  acyclic : Rank.Acyclic (Follows rows)

def isOpen (rows : List MemoryItem) (id : String) : Bool := (rowOf rows id).any (·.validUntil.isNone)

def savesOver (rows : List MemoryItem) (old new : MemoryItem) : Bool :=
  isOpen rows old.id && (rowOf rows new.id).isNone && new.supersededBy.isNone

def careful (w : World) : Action → Bool
  | .advance i reply =>
    reply.fails || match w.calls[i]? with
      | some (.supersede _ _ _ (.saving old new _))
      | some (.supersedeCanonical _ _ (.saving old new _)) => savesOver w.rows old new
      | some (.consolidate _ _ (.writing _ _ _ _)) => (rowOf w.rows reply.id).isNone
      | some (.consolidate _ _ (.closing read _)) => read.all (isOpen w.rows ·.id)
      | _ => true
  | _ => true

/-! ## What a write leaves -/

section Rows

variable {rows rows' : List MemoryItem} {id : String}

theorem id_of_rowOf {row : MemoryItem} (h : rowOf rows id = some row) : row.id = id := by
  simpa using List.find?_some h

theorem rowOf_map (f : MemoryItem → MemoryItem) (hf : ∀ row, (f row).id = row.id) :
    rowOf (rows.map f) id = (rowOf rows id).map f := by
  have hid : (fun row : MemoryItem => decide (row.id = id)) ∘ f = fun row => decide (row.id = id) := by
    funext row
    simp [hf]
  rw [rowOf, List.find?_map, hid]
  rfl

theorem rowOf_save (item : MemoryItem) :
    rowOf (save rows item) id = if id = item.id then some item else rowOf rows id := by
  unfold save
  split
  next hsome =>
    have hkeep (row : MemoryItem) : (if row.id = item.id then item else row).id = row.id := by
      split
      · exact ‹row.id = item.id›.symm
      · rfl
    rw [rowOf_map _ hkeep]
    split
    next heq =>
      subst heq
      obtain ⟨row, hrow⟩ := Option.isSome_iff_exists.mp hsome
      simp [hrow, id_of_rowOf hrow]
    next hne =>
      cases hrow : rowOf rows id with
      | none => rfl
      | some row =>
        have hrowNe : row.id ≠ item.id := id_of_rowOf hrow ▸ hne
        simp [hrowNe]
  next hnone =>
    have hnone' : rowOf rows item.id = none := by simpa using hnone
    rw [rowOf, List.find?_append]
    split
    next heq =>
      subst heq
      rw [rowOf] at hnone'
      simp [hnone']
    next hne => simp [rowOf, Ne.symm hne]

theorem rowOf_close (ids : List String) (now : Int) (supersededBy : Option String → Option String) :
    rowOf (close rows ids now supersededBy) id = (rowOf rows id).map fun row =>
      if ids.contains id then
        { row with
          validUntil := some now, supersededBy := supersededBy row.supersededBy, updatedAt := now }
      else row := by
  rw [close, rowOf_map]
  · cases hrow : rowOf rows id with
    | none => rfl
    | some row => simp [id_of_rowOf hrow]
  · intro row
    split <;> rfl

theorem nodup_save {item : MemoryItem} (h : (rows.map (·.id)).Nodup) :
    ((save rows item).map (·.id)).Nodup := by
  unfold save
  split
  next =>
    rw [map_map]
    refine (map_congr_left fun row _ => ?_) ▸ h
    show row.id = (if row.id = item.id then item else row).id
    split
    · assumption
    · rfl
  next hnone =>
    have hnew : ∀ row ∈ rows, row.id ≠ item.id := by
      intro row hrow heq
      exact hnone (List.find?_isSome.mpr ⟨row, hrow, by simpa using heq⟩)
    rw [map_append, nodup_append]
    refine ⟨h, nodup_singleton _, ?_⟩
    intro a ha b hb
    obtain ⟨row, hrow, rfl⟩ := mem_map.mp ha
    exact mem_singleton.mp hb ▸ hnew row hrow

theorem nodup_close {ids : List String} {now : Int} {supersededBy : Option String → Option String}
    (h : (rows.map (·.id)).Nodup) : ((close rows ids now supersededBy).map (·.id)).Nodup := by
  rw [close, map_map]
  refine (map_congr_left fun row _ => ?_) ▸ h
  show row.id = (if ids.contains row.id then _ else row).id
  split <;> rfl

theorem rowOf_of_mem (h : (rows.map (·.id)).Nodup) {row : MemoryItem} (hrow : row ∈ rows) :
    rowOf rows row.id = some row := by
  have hfound : (rowOf rows row.id).isSome := List.find?_isSome.mpr ⟨row, hrow, by simp⟩
  obtain ⟨found, hfound⟩ := Option.isSome_iff_exists.mp hfound
  rw [hfound, inj_on_of_nodup_map h (List.mem_of_find?_eq_some hfound) hrow
    (id_of_rowOf hfound)]

theorem FinalHistory.refl (rows : List MemoryItem) : FinalHistory rows rows := fun _ _ h => h

theorem FinalHistory.trans {rows'' : List MemoryItem} (h : FinalHistory rows rows')
    (h' : FinalHistory rows' rows'') : FinalHistory rows rows'' :=
  fun id closed hclosed => h' id closed (h id closed hclosed)

theorem isOpen_iff : isOpen rows id = true ↔ ∃ row, rowOf rows id = some row ∧ row.validUntil = none := by
  simp [isOpen, Option.any_eq_true]

theorem history_of_isOpen (h : isOpen rows id = true) : history rows id = none := by
  obtain ⟨row, hrow, hopen⟩ := isOpen_iff.mp h
  simp [history, hrow, hopen]

theorem finalHistory_of_open (h : ∀ id row, rowOf rows id = some row → row.validUntil ≠ none →
    rowOf rows' id = some row) : FinalHistory rows rows' := by
  intro id closed hclosed
  cases hrow : rowOf rows id with
  | none => simp [history, hrow] at hclosed
  | some row =>
    have hsome : row.validUntil ≠ none := by
      intro hnone
      simp [history, hrow, hnone] at hclosed
    simpa [history, h id row hrow hsome, hrow] using hclosed

end Rows

/-! ## What holds in a careful run -/

def SupersedeStage.Sound (rows : List MemoryItem) (oldId : String) : SupersedeStage → Prop
  | .saving old _ _ => old.id = oldId
  | .returned _ => (history rows oldId).isSome
  | .reading | .threw _ => True

def ConsolidateStage.Sound (rows : List MemoryItem) (rank : String → Nat) : ConsolidateStage → Prop
  | .asking read => ∀ source ∈ read, (rowOf rows source.id).isSome
  | .writing read _ _ written | .closing read written =>
    (∀ source ∈ read, (rowOf rows source.id).isSome) ∧
      ∀ fact ∈ written, (rowOf rows fact).isSome ∧ ∀ source ∈ read, rank source.id < rank fact
  | .reading | .returned _ _ | .skipped _ | .threw => True

def Call.Sound (rows : List MemoryItem) (rank : String → Nat) : Call → Prop
  | .supersede oldId _ _ stage | .supersedeCanonical oldId _ stage => stage.Sound rows oldId
  | .consolidate _ _ stage => stage.Sound rows rank

structure Ranked (rows : List MemoryItem) (rank : String → Nat) : Prop where
  nodup : (rows.map (·.id)).Nodup
  linked : ∀ a b, Follows rows a b → (rowOf rows b).isSome
  ranks : Rank.Ranks rank (Follows rows)

/-- What a write leaves of the table. -/
structure Grows (rows rows' : List MemoryItem) (rank rank' : String → Nat) : Prop where
  kept : ∀ id, (rowOf rows id).isSome → (rowOf rows' id).isSome
  final : FinalHistory rows rows'
  rank : ∀ id, (rowOf rows id).isSome → rank' id = rank id

structure Sound (w : World) (rank : String → Nat) : Prop where
  ranked : Ranked w.rows rank
  calls : ∀ call ∈ w.calls, call.Sound w.rows rank
  once : SupersededOnce w

section Invariant

variable {rows rows' : List MemoryItem} {rank rank' : String → Nat} {w : World} {call : Call}

theorem Grows.refl (rows : List MemoryItem) (rank : String → Nat) : Grows rows rows rank rank :=
  ⟨fun _ h => h, FinalHistory.refl rows, fun _ _ => rfl⟩

theorem Grows.trans {rows'' : List MemoryItem} {rank'' : String → Nat}
    (h : Grows rows rows' rank rank') (h' : Grows rows' rows'' rank' rank'') :
    Grows rows rows'' rank rank'' where
  kept id hid := h'.kept id (h.kept id hid)
  final := h.final.trans h'.final
  rank id hid := (h'.rank id (h.kept id hid)).trans (h.rank id hid)

theorem SupersedeStage.Sound.grow {oldId : String} {stage : SupersedeStage}
    (h : stage.Sound rows oldId) (hg : Grows rows rows' rank rank') : stage.Sound rows' oldId := by
  cases stage with
  | returned newId =>
    obtain ⟨closed, hclosed⟩ := Option.isSome_iff_exists.mp h
    exact Option.isSome_iff_exists.mpr ⟨closed, hg.final oldId closed hclosed⟩
  | reading | threw => trivial
  | saving old new now => exact h

theorem sources_grow {read : List MemoryItem} {written : List String}
    (h : (∀ source ∈ read, (rowOf rows source.id).isSome) ∧
      ∀ fact ∈ written, (rowOf rows fact).isSome ∧ ∀ source ∈ read, rank source.id < rank fact)
    (hg : Grows rows rows' rank rank') :
    (∀ source ∈ read, (rowOf rows' source.id).isSome) ∧
      ∀ fact ∈ written, (rowOf rows' fact).isSome ∧
        ∀ source ∈ read, rank' source.id < rank' fact := by
  refine ⟨fun source hsource => hg.kept _ (h.1 source hsource), fun fact hfact => ?_⟩
  obtain ⟨hstored, hbelow⟩ := h.2 fact hfact
  refine ⟨hg.kept _ hstored, fun source hsource => ?_⟩
  rw [hg.rank _ hstored, hg.rank _ (h.1 source hsource)]
  exact hbelow source hsource

theorem Call.Sound.grow (h : call.Sound rows rank) (hg : Grows rows rows' rank rank') :
    call.Sound rows' rank' := by
  cases call with
  | supersede | supersedeCanonical => exact SupersedeStage.Sound.grow h hg
  | consolidate scope force stage =>
    cases stage with
    | asking read => exact fun source hsource => hg.kept _ (h source hsource)
    | writing | closing => exact sources_grow h hg
    | reading | returned | skipped | threw => trivial

theorem Ranked.change (h : Ranked rows rank) (hnodup : (rows'.map (·.id)).Nodup)
    (hkept : ∀ id, (rowOf rows id).isSome → (rowOf rows' id).isSome)
    (hrows : ∀ id row, rowOf rows' id = some row → rowOf rows id = some row ∨
      ∀ next, row.supersededBy = some next → (rowOf rows' next).isSome ∧ rank id < rank next) :
    Ranked rows' rank := by
  have hstep (a b : String) (hab : Follows rows' a b) :
      (rowOf rows' b).isSome ∧ rank a < rank b := by
    obtain ⟨row, hrow, hnext⟩ := hab
    rcases hrows a row hrow with hsame | hchanged
    · have hfollows : Follows rows a b := ⟨row, hsame, hnext⟩
      exact ⟨hkept b (h.linked a b hfollows), h.ranks a b hfollows⟩
    · exact hchanged b hnext
  exact ⟨hnodup, fun a b hab => (hstep a b hab).1, fun a b hab => (hstep a b hab).2⟩

theorem Ranked.put (h : Ranked rows rank) {item : MemoryItem} (hnew : rowOf rows item.id = none)
    (hnext : item.supersededBy = none) (n : Nat) :
    Ranked (save rows item) (Function.update rank item.id n) ∧
      Grows rows (save rows item) rank (Function.update rank item.id n) := by
  have hne (id : String) (hid : (rowOf rows id).isSome) : id ≠ item.id := by
    intro heq
    simp [heq, hnew] at hid
  have hgrows : Grows rows (save rows item) rank (Function.update rank item.id n) := by
    refine ⟨fun id hid => ?_, finalHistory_of_open fun id row hrow _ => ?_, fun id hid => ?_⟩
    · rwa [rowOf_save, if_neg (hne id hid)]
    · rwa [rowOf_save, if_neg (hne id (hrow ▸ rfl))]
    · exact Function.update_of_ne (hne id hid) _ _
  refine ⟨?_, hgrows⟩
  have hfollows (a b : String) (hab : Follows (save rows item) a b) : Follows rows a b := by
    obtain ⟨row, hrow, hb⟩ := hab
    rw [rowOf_save] at hrow
    split at hrow
    · cases hrow
      rw [hnext] at hb
      cases hb
    · exact ⟨row, hrow, hb⟩
  refine ⟨nodup_save h.nodup, ?_, ?_⟩
  · intro a b hab
    exact hgrows.kept b (h.linked a b (hfollows a b hab))
  · intro a b hab
    have hbefore := hfollows a b hab
    have hstored : (rowOf rows a).isSome := by
      obtain ⟨row, hrow, -⟩ := hbefore
      exact hrow ▸ rfl
    rw [hgrows.rank a hstored, hgrows.rank b (h.linked a b hbefore)]
    exact h.ranks a b hbefore

theorem Ranked.close (h : Ranked rows rank) {ids : List String} (now : Int)
    (supersededBy : Option String → Option String) (hopen : ∀ id ∈ ids, isOpen rows id = true)
    (hby : ∀ id ∈ ids, ∀ row, rowOf rows id = some row → ∀ next,
      supersededBy row.supersededBy = some next → (rowOf rows next).isSome ∧ rank id < rank next) :
    Ranked (close rows ids now supersededBy) rank ∧
      Grows rows (close rows ids now supersededBy) rank rank := by
  have hkept (id : String) (hid : (rowOf rows id).isSome) :
      (rowOf (History.close rows ids now supersededBy) id).isSome := by
    rw [rowOf_close]
    simpa using hid
  refine ⟨h.change (nodup_close h.nodup) hkept fun id row hrow => ?_, hkept,
    finalHistory_of_open fun id row hrow hclosed => ?_, fun _ _ => rfl⟩
  · rw [rowOf_close] at hrow
    obtain ⟨old, hold, rfl⟩ := Option.map_eq_some_iff.mp hrow
    split
    next hmem =>
      refine .inr fun next hnext => ?_
      obtain ⟨hstored, hlt⟩ := hby id (by simpa using hmem) old hold next hnext
      exact ⟨hkept next hstored, hlt⟩
    next => exact .inl hold
  · rw [rowOf_close, hrow]
    have hnot : ids.contains id = false := by
      rw [← Bool.not_eq_true]
      intro hmem
      obtain ⟨row', hrow', hnone⟩ := isOpen_iff.mp (hopen id (by simpa using hmem))
      cases hrow.symm.trans hrow'
      exact hclosed hnone
    simp only [Option.map_some, hnot, Bool.false_eq_true, if_false]

theorem Ranked.supersede (h : Ranked rows rank) {old new : MemoryItem} {now : Int}
    (hover : savesOver rows old new = true) :
    ∃ rank', Ranked (supersedeRows rows old new now) rank' ∧
      Grows rows (supersedeRows rows old new now) rank rank' ∧
      (history (supersedeRows rows old new now) old.id).isSome := by
  simp only [savesOver, Bool.and_eq_true, Option.isNone_iff_eq_none] at hover
  obtain ⟨⟨hopen, hfresh⟩, hnext⟩ := hover
  obtain ⟨row, hrow, hnone⟩ := isOpen_iff.mp hopen
  have hne : old.id ≠ new.id := by
    intro heq
    rw [heq, hfresh] at hrow
    cases hrow
  obtain ⟨hranked, hgrows⟩ := h.put hfresh hnext (rank old.id + 1)
  have hkept (id : String) (hid : (rowOf (save rows new) id).isSome) :
      (rowOf (supersedeRows rows old new now) id).isSome := by
    rw [supersedeRows, rowOf_save]
    split
    · rfl
    · exact hid
  refine ⟨Function.update rank new.id (rank old.id + 1),
    hranked.change (nodup_save hranked.nodup) hkept fun id row hrow => ?_, hgrows.trans ⟨hkept, ?_, fun _ _ => rfl⟩, ?_⟩
  · rw [supersedeRows, rowOf_save] at hrow
    split at hrow
    next heq =>
      cases hrow
      refine .inr fun next hnext => ?_
      cases hnext
      refine ⟨hkept _ (by rw [rowOf_save, if_pos rfl]; rfl), ?_⟩
      subst heq
      rw [Function.update_self, Function.update_of_ne hne]
      exact Nat.lt_succ_self _
    next => exact .inl hrow
  · refine finalHistory_of_open fun id row' hrow' hclosed => ?_
    rw [supersedeRows, rowOf_save]
    split
    next heq =>
      -- the memory that is closed was open
      subst heq
      rw [rowOf_save, if_neg hne] at hrow'
      cases hrow.symm.trans hrow'
      exact absurd hnone hclosed
    next => exact hrow'
  · simp [history, supersedeRows, rowOf_save]

theorem Sound.advance (h : Sound w rank) {i : Nat} {call call' : Call} (hi : w.calls[i]? = some call)
    (hranked : Ranked rows' rank') (hgrows : Grows w.rows rows' rank rank')
    (hself : call'.Sound rows' rank')
    (honce : ∀ oldId, call'.superseded = some oldId →
      call.superseded = some oldId ∨ isOpen w.rows oldId = true) :
    Sound { rows := rows', calls := w.calls.set i call' } rank' := by
  have hclosed (other : Call) (hother : other ∈ w.calls) (oldId : String)
      (hsup : other.superseded = some oldId) : ¬isOpen w.rows oldId = true := by
    have hsound := h.calls other hother
    have hsome : (history w.rows oldId).isSome := by
      rcases other with ⟨_, _, _, _ | _ | _ | _⟩ | ⟨_, _, _ | _ | _ | _⟩ | ⟨_, _, _⟩ <;>
        cases hsup <;> exact hsound
    intro hopen
    rw [history_of_isOpen hopen] at hsome
    cases hsome
  refine ⟨hranked, fun other hother => ?_, fun j k a b oldId => ?_⟩
  · obtain ⟨j, hj⟩ := List.getElem?_of_mem hother
    rcases Slots.getElem?_set_cases hj with ⟨-, rfl⟩ | ⟨-, hj⟩
    · exact hself
    · exact (h.calls other (List.mem_of_getElem? hj)).grow hgrows
  · -- no other call superseded what this one has just superseded
    have halone : Slots.Alone (fun call : Call => call.superseded = some oldId) w.calls :=
      fun i j a b => h.once i j a b oldId
    exact halone.set hi (fun hcall => (honce oldId hcall).imp_right fun hopen other hother hsup =>
      hclosed other hother oldId hsup hopen) j k a b

theorem Sound.idle (h : Sound w rank) {i : Nat} {call call' : Call} (hi : w.calls[i]? = some call)
    (hself : call'.Sound w.rows rank) (hnone : call'.superseded = none) :
    Sound { w with calls := w.calls.set i call' } rank :=
  h.advance hi h.ranked (Grows.refl _ _) hself (fun oldId hsup => by simp [hnone] at hsup)

theorem Sound.begin (h : Sound w rank) (hself : call.Sound w.rows rank)
    (hnone : call.superseded = none) : Sound { w with calls := w.calls ++ [call] } rank := by
  refine ⟨h.ranked, fun other hother => ?_, fun i j a b oldId => ?_⟩
  · rcases mem_append.mp hother with hother | hother
    · exact h.calls other hother
    · exact mem_singleton.mp hother ▸ hself
  · have halone : Slots.Alone (fun call : Call => call.superseded = some oldId) w.calls :=
      fun i j a b => h.once i j a b oldId
    exact halone.append_singleton (by simp [hnone]) i j a b

theorem supersede_sound {oldId : String} {visible : List String} {input : PutInput} {reply : Reply} :
    (History.supersede rows oldId visible input reply).Sound rows oldId ∧
      (History.supersede rows oldId visible input reply).isReturned = false := by
  unfold History.supersede
  split
  · exact ⟨trivial, rfl⟩
  next old hold =>
    obtain ⟨hrow, -⟩ := Option.filter_eq_some_iff.mp hold
    split
    · exact ⟨trivial, rfl⟩
    · split
      · exact ⟨trivial, rfl⟩
      · exact ⟨id_of_rowOf hrow, rfl⟩

theorem supersedeCanonical_sound {oldId : String} {newItem : MemoryItem} {reply : Reply} :
    (History.supersedeCanonical rows oldId newItem reply).Sound rows oldId ∧
      (History.supersedeCanonical rows oldId newItem reply).isReturned = false := by
  unfold History.supersedeCanonical
  split
  · exact ⟨trivial, rfl⟩
  next old hold =>
    split
    · exact ⟨trivial, rfl⟩
    · exact ⟨id_of_rowOf hold, rfl⟩

theorem shortRows_stored {order : OldestFirst} {scope : ScopeRef} {cutoff : Int} {row : MemoryItem}
    (h : row ∈ shortRows order rows scope cutoff) : (rowOf rows row.id).isSome := by
  have hmem := (order.perm _).mem_iff.mp (mem_of_mem_take h)
  exact List.find?_isSome.mpr ⟨row, (mem_filter.mp hmem).1, by simp⟩

theorem sweep_open (hranked : Ranked rows rank) (order : OldestFirst) (now : Int) {id : String}
    (h : id ∈ ((order.order (rows.filter (expired · now))).take BATCH_SIZE).map (·.id)) :
    isOpen rows id = true := by
  obtain ⟨row, hrow, rfl⟩ := mem_map.mp h
  obtain ⟨hmem, hdue⟩ := mem_filter.mp ((order.perm _).mem_iff.mp (mem_of_mem_take hrow))
  simp only [expired, Bool.and_eq_true, Option.isNone_iff_eq_none] at hdue
  exact isOpen_iff.mpr ⟨row, rowOf_of_mem hranked.nodup hmem, hdue.1.1.2⟩

theorem commit_sound (h : Ranked rows rank) {reply : Reply} {old new : MemoryItem} (now : Int)
    (hover : reply.fails = true ∨ savesOver rows old new = true) :
    ∃ rank', Ranked (commit rows reply old new now).1 rank' ∧
      Grows rows (commit rows reply old new now).1 rank rank' ∧
      (commit rows reply old new now).2.Sound (commit rows reply old new now).1 old.id ∧
      ((commit rows reply old new now).2.isReturned = true → isOpen rows old.id = true) := by
  unfold commit
  split
  next hfails => exact ⟨rank, h, Grows.refl rows rank, trivial, nofun⟩
  next hfails =>
    have hsaves := hover.resolve_left hfails
    obtain ⟨rank', hranked, hgrows, hclosed⟩ := h.supersede hsaves
    simp only [savesOver, Bool.and_eq_true] at hsaves
    exact ⟨rank', hranked, hgrows, hclosed, fun _ => hsaves.1.1⟩

theorem put_sound (item : MemoryItem) (h : Ranked rows rank) {read : List MemoryItem}
    {written : List String}
    (hcall : (∀ source ∈ read, (rowOf rows source.id).isSome) ∧
      ∀ fact ∈ written, (rowOf rows fact).isSome ∧ ∀ source ∈ read, rank source.id < rank fact)
    (hnew : rowOf rows item.id = none) (hnext : item.supersededBy = none) :
    ∃ rank', Ranked (save rows item) rank' ∧ Grows rows (save rows item) rank rank' ∧
      (∀ source ∈ read, (rowOf (save rows item) source.id).isSome) ∧
      ∀ fact ∈ written ++ [item.id], (rowOf (save rows item) fact).isSome ∧
        ∀ source ∈ read, rank' source.id < rank' fact := by
  let top := (read.map (rank ·.id)).foldr max 0 + 1
  obtain ⟨hranked, hgrows⟩ := h.put hnew hnext top
  have hgrown := sources_grow hcall hgrows
  refine ⟨_, hranked, hgrows, hgrown.1, fun fact hfact => ?_⟩
  rcases mem_append.mp hfact with hfact | hfact
  · exact hgrown.2 fact hfact
  · cases mem_singleton.mp hfact
    refine ⟨by simp [rowOf_save], fun source hsource => ?_⟩
    rw [hgrows.rank _ (hcall.1 source hsource), Function.update_self]
    exact Nat.lt_succ_of_le (le_max_of_le' 0 (mem_map_of_mem hsource) (le_refl _))

theorem Sound.step (h : Sound w rank) (order : OldestFirst) {act : Action}
    (hcareful : careful w act = true) : ∃ rank', Sound (step order w act) rank' ∧
      FinalHistory w.rows (step order w act).rows := by
  cases act with
  | supersede | supersedeCanonical =>
    exact ⟨rank, h.begin trivial rfl, FinalHistory.refl _⟩
  | consolidate scope force => exact ⟨rank, h.begin trivial rfl, FinalHistory.refl _⟩
  | sweep now =>
    obtain ⟨hranked, hgrows⟩ := h.ranked.close now (fun supersededBy => supersededBy)
      (fun id hid => sweep_open h.ranked order now hid)
      (fun id _ row hrow next hnext =>
        ⟨h.ranked.linked id next ⟨row, hrow, hnext⟩, h.ranked.ranks id next ⟨row, hrow, hnext⟩⟩)
    exact ⟨rank, ⟨hranked, fun call hcall => (h.calls call hcall).grow hgrows, h.once⟩, hgrows.final⟩
  | advance i reply =>
    simp only [History.step]
    simp only [careful] at hcareful
    cases hi : w.calls[i]? with
    | none => exact ⟨rank, h, FinalHistory.refl _⟩
    | some call =>
      rw [hi] at hcareful
      have hcall := h.calls call (List.mem_of_getElem? hi)
      cases call with
      | supersede oldId _ _ stage | supersedeCanonical oldId _ stage =>
        cases stage with
        | reading =>
          simp only [History.advance]
          split
          · exact ⟨rank, h.idle hi trivial rfl, FinalHistory.refl _⟩
          · refine ⟨rank, h.idle hi ?_ ?_, FinalHistory.refl _⟩
            · first | exact supersede_sound.1 | exact supersedeCanonical_sound.1
            · simp [Call.superseded, supersede_sound.2, supersedeCanonical_sound.2]
        | saving old new now =>
          obtain rfl : old.id = oldId := hcall
          obtain ⟨rank', hranked, hgrows, hstage, hopen⟩ :=
            commit_sound h.ranked now (by simpa using hcareful)
          refine ⟨rank', h.advance hi hranked hgrows hstage fun id hid => ?_, hgrows.final⟩
          have hdone : (if (commit w.rows reply old new now).2.isReturned then some old.id
              else none) = some id := hid
          obtain ⟨hreturned, heq⟩ := Option.ite_none_right_eq_some.mp hdone
          exact .inr (Option.some.inj heq ▸ hopen hreturned)
        | returned newId =>
          exact ⟨rank, h.advance hi h.ranked (Grows.refl _ _) hcall fun _ hid => .inl hid,
            FinalHistory.refl _⟩
        | threw error => exact ⟨rank, h.idle hi trivial rfl, FinalHistory.refl _⟩
      | consolidate scope force stage =>
        simp only [History.advance]
        split
        · exact ⟨rank, h.idle hi trivial rfl, FinalHistory.refl _⟩
        next hgoes =>
          cases stage with
          | reading =>
            simp only [History.consolidate]
            split
            · exact ⟨rank, h.idle hi trivial rfl, FinalHistory.refl _⟩
            · split
              · exact ⟨rank, h.idle hi trivial rfl, FinalHistory.refl _⟩
              · exact ⟨rank, h.idle hi (fun row hrow => shortRows_stored hrow) rfl,
                  FinalHistory.refl _⟩
          | asking read =>
            simp only [History.consolidate]
            split
            · exact ⟨rank, h.idle hi trivial rfl, FinalHistory.refl _⟩
            · split
              · exact ⟨rank, h.idle hi trivial rfl, FinalHistory.refl _⟩
              · exact ⟨rank, h.idle hi ⟨hcall, nofun⟩ rfl, FinalHistory.refl _⟩
          | writing read fact rest written =>
            have hfails : reply.fails = false := by simpa [ConsolidateStage.over] using hgoes
            have hnew : rowOf w.rows reply.id = none := by simpa [hfails] using hcareful
            obtain ⟨rank', hranked, hgrows, hsources, hfacts⟩ :=
              put_sound (buildItem (factInput scope fact) reply.id reply.now) h.ranked hcall
                hnew rfl
            refine ⟨rank', ?_, hgrows.final⟩
            cases rest with
            | nil | cons => exact h.advance hi hranked hgrows ⟨hsources, hfacts⟩ nofun
          | closing read written =>
            have hfails : reply.fails = false := by simpa [ConsolidateStage.over] using hgoes
            have hopen : ∀ row ∈ read, isOpen w.rows row.id = true := by
              simpa [hfails] using hcareful
            obtain ⟨hranked, hgrows⟩ := h.ranked.close reply.now (fun _ => written.head?)
              (fun id hid => by
                obtain ⟨row, hrow, rfl⟩ := mem_map.mp hid
                exact hopen row hrow)
              (fun id hid _ _ next hnext => by
                obtain ⟨row, hrow, rfl⟩ := mem_map.mp hid
                obtain ⟨hstored, hbelow⟩ := hcall.2 next (List.mem_of_head? hnext)
                exact ⟨hstored, hbelow row hrow⟩)
            exact ⟨rank, h.advance hi hranked hgrows trivial nofun, hgrows.final⟩
          | returned | skipped | threw => exact ⟨rank, h.idle hi trivial rfl, FinalHistory.refl _⟩

end Invariant

/-- A stored ledger, before any call. -/
def World.start (ledger : Ledger) : World := { rows := ledger.rows, calls := [] }

theorem sound_start (ledger : Ledger) : ∃ rank, Sound (World.start ledger) rank := by
  obtain ⟨rank, hrank⟩ := ledger.acyclic.exists_ranks (ledger.rows.map (·.id)) fun a b hab => by
    obtain ⟨row, hrow⟩ := Option.isSome_iff_exists.mp (ledger.linked a b hab)
    exact mem_map.mpr ⟨row, List.mem_of_find?_eq_some hrow, id_of_rowOf hrow⟩
  exact ⟨rank, ⟨ledger.nodup, ledger.linked, hrank⟩, fun _ h => (by cases h),
    fun _ _ _ _ _ hi => by simp [World.start] at hi⟩

theorem closed_history_final (order : OldestFirst) (ledger : Ledger) (before after : List Action)
    (hcareful : Steps.Along (step order) (careful · · = true) (World.start ledger)
      (before ++ after)) :
    let then' := Steps.run (step order) (World.start ledger) before
    let now := Steps.run (step order) (World.start ledger) (before ++ after)
    FinalHistory then'.rows now.rows ∧ SupersededOnce now ∧ Rank.Acyclic (Follows now.rows) := by
  intro then' now
  have hsplit := Steps.along_append.mp hcareful
  have hthen : ∃ rank, Sound then' rank :=
    Steps.run_invariant (fun w => ∃ rank, Sound w rank)
      (fun _ _ ⟨_, h⟩ hc => (h.step order hc).imp fun _ h' => h'.1) (sound_start ledger) hsplit.1
  have hnow : (∃ rank, Sound now rank) ∧ FinalHistory then'.rows now.rows := by
    rw [show now = Steps.run (step order) then' after from Steps.run_append ..]
    refine Steps.run_invariant (fun w => (∃ rank, Sound w rank) ∧ FinalHistory then'.rows w.rows)
      (fun w act ⟨⟨_, h⟩, hfinal⟩ hc => ?_) ⟨hthen, FinalHistory.refl _⟩ hsplit.2
    obtain ⟨rank', h', hfinal'⟩ := h.step order hc
    exact ⟨⟨rank', h'⟩, hfinal.trans hfinal'⟩
  obtain ⟨⟨rank, hsound⟩, hfinal⟩ := hnow
  exact ⟨hfinal, hsound.once, hsound.ranked.ranks.acyclic⟩

section

private def byAge : OldestFirst where
  order rows := rows.mergeSort fun a b => a.createdAt ≤ b.createdAt
  perm rows := mergeSort_perm rows _
  sorted rows := by
    have : Std.Total fun a b : MemoryItem => a.createdAt ≤ b.createdAt := ⟨fun a b => by omega⟩
    have : IsTrans MemoryItem fun a b => a.createdAt ≤ b.createdAt := ⟨fun a b c => by omega⟩
    exact pairwise_mergeSort' _ rows

private def inOrg : ScopeRef := ⟨.workspace, "org"⟩

/-- What the organization is called. -/
private def name : MemoryItem where
  id := "name"
  mode := .memory
  scope := inOrg
  content := "The organization is called Acme."
  tier := some .long
  createdAt := 0
  updatedAt := 0

private theorem name_follows_nothing (a b : String) : ¬Follows [name] a b := by
  rintro ⟨row, hrow, hnext⟩
  have hname : row = name := mem_singleton.mp (List.mem_of_find?_eq_some hrow)
  rw [hname] at hnext
  cases hnext

private def ledger : Ledger where
  rows := [name]
  nodup := nodup_singleton _
  linked a b hab := absurd hab (name_follows_nothing a b)
  acyclic := by
    intro a hcycle
    obtain ⟨b, hab, -⟩ := Relation.TransGen.head'_iff.mp hcycle
    exact name_follows_nothing a b hab

private def renamed (content : String) : Action :=
  .supersede "name" ["org"] { mode := .memory, scope := inOrg, content := content }

/-- A name is replaced, and cannot be replaced again. -/
theorem closed_history_final_once :
    let now := Steps.run (step byAge) (World.start ledger)
      ([renamed "Acme Corp.", .advance 0 { id := "b", now := 1 }, .advance 0 {}] ++
        [renamed "Ajax.", .advance 1 { id := "c", now := 2 }])
    FinalHistory (Steps.run (step byAge) (World.start ledger)
      [renamed "Acme Corp.", .advance 0 { id := "b", now := 1 }, .advance 0 {}]).rows now.rows ∧
        SupersededOnce now ∧ Rank.Acyclic (Follows now.rows) :=
  closed_history_final byAge ledger _ _ (by decide +kernel)

/-- Two supersedes that both read the name open return, and the second writes over how the first
closed it. -/
theorem overlapping_supersedes_rewrite_history :
    let before := Steps.run (step byAge) (World.start ledger)
      [renamed "Acme Corp.", renamed "Ajax.", .advance 0 { id := "b", now := 1 },
        .advance 1 { id := "c", now := 2 }, .advance 0 {}]
    let after := Steps.run (step byAge) before [.advance 1 {}]
    ¬FinalHistory before.rows after.rows ∧ ¬SupersededOnce after := by
  constructor
  · intro h
    exact absurd (h "name" (1, some "b") (by decide +kernel)) (by decide +kernel)
  · intro h
    have hboth : (0 : Nat) = 1 := h 0 1
      (.supersede "name" ["org"] { mode := .memory, scope := inOrg, content := "Acme Corp." }
        (.returned "b"))
      (.supersede "name" ["org"] { mode := .memory, scope := inOrg, content := "Ajax." }
        (.returned "c"))
      "name" (by decide +kernel) (by decide +kernel) rfl rfl
    omega

end

end Almyty.Memory.History
