import Almyty.Lib.Steps
import Almyty.Memory.Collection

/-!
# Syncing a scope with its mirror: `memory-sync.service.ts`

A pass lists both sides, writes to each what only the other has and what the other has newer, and
writes to almyty's own store by id, whole rows at a time. The listing leaves out what is closed
(`valid_until`) or deleted (`deleted_at`), so a memory that is gone here and still listed there
looks like one that was never here, and the pass writes it back.

`revived_by_sync_iff` says which memories a pass brings back: exactly those that are gone and of
which the mirror's listing still has a current copy. `sync_brings_back_iff` says so of whole runs.

Mirroring notes:
- Every pass is completed: no call throws, and the database takes every row the validator lets
  through.
- The validator, the mirror and the order of ties are parameters; the theorems hold for all of them.
  The mirror may also change by itself (`elsewhere`), as the router's own mirror writes do.
-/

namespace Almyty.Memory

open Almyty.Lib List

/-- Neither closed nor deleted. -/
def MemoryItem.isCurrent (item : MemoryItem) : Bool := item.validUntil.isNone && item.deletedAt.isNone

namespace Store

def save (store : Store) (item : MemoryItem) : Store where
  rows := store.rows.filter (·.id ≠ item.id) ++ [item]
  nodup := by
    rw [map_append, nodup_append]
    refine ⟨store.nodup.sublist (filter_sublist.map _), by simp, ?_⟩
    intro id hid id' hid' heq
    obtain ⟨row, hrow, rfl⟩ := mem_map.mp hid
    have hne : row.id ≠ item.id := by simpa using (mem_filter.mp hrow).2
    rw [map_singleton, mem_singleton] at hid'
    exact hne (heq.trans hid')

def find (store : Store) (id : String) : Option MemoryItem := store.rows.find? (·.id = id)

def update (store : Store) (change : MemoryItem → MemoryItem)
    (hid : ∀ row, (change row).id = row.id) : Store where
  rows := store.rows.map change
  nodup := by
    have hids : (store.rows.map change).map (·.id) = store.rows.map (·.id) := by
      rw [map_map]
      exact map_congr_left fun row _ => hid row
    rw [hids]
    exact store.nodup

end Store

/-! ## Writes on the store -/

def buildItem (draft : MemoryItem) (now : Int) : MemoryItem :=
  { draft with
    tier := if draft.mode = .memory then some (draft.tier.getD .short) else none
    ttlSeconds := if draft.mode = .memory then draft.ttlSeconds else none
    chunkOf := if draft.mode = .memory then none else draft.chunkOf
    createdAt := now, updatedAt := now, validUntil := none, supersededBy := none
    deletedAt := none, nativeId := none }

section Writes

variable (valid : MemoryItem → Bool) (store : Store)

def put (draft : MemoryItem) (chunks : List MemoryItem) (now : Int) : Store :=
  let item := buildItem draft now
  if valid item then chunks.foldl Store.save (store.save item) else store

def supersede (oldId : String) (draft : MemoryItem) (now : Int) : Store :=
  match store.find oldId with
  | none => store
  | some old =>
    let item := buildItem draft now
    if old.mode ≠ .memory ∨ old.validUntil ≠ none ∨ valid item = false then store
    else (store.save item).save { old with validUntil := some now, supersededBy := some item.id }

def softDelete (id : String) (now : Int) : Store :=
  match store.find id with
  | none => store
  | some _ => store.update
      (fun row => if row.id = id ∨ row.chunkOf = some id ∧ row.deletedAt = none then
        { row with deletedAt := some now } else row)
      (fun row => by split <;> rfl)

/-- The rows a sweep closes: due, oldest first, a batch of them. -/
def expired (now : Int) : List String :=
  (((store.rows.filter fun row => row.mode = .memory && row.isCurrent &&
    row.ttlSeconds.any fun ttl => row.createdAt + ttl * 1000000 < now).mergeSort
      fun a b => a.createdAt ≤ b.createdAt).take 10000).map (·.id)

/-- The TTL sweeper. -/
def sweep (now : Int) : Store :=
  store.update
    (fun row => if row.id ∈ expired store now then
      { row with validUntil := some now, updatedAt := now } else row)
    (fun row => by split <;> rfl)

def batchPut (items : List MemoryItem) : Store :=
  items.foldl (fun store item => if valid item then store.save item else store) store

end Writes

/-! ## The pass -/

structure Mirror (σ κ : Type) where
  list : σ → ListQuery κ → Page κ
  batchPut : σ → List MemoryItem → σ
  /-- `supported_modes.has('memory') || supported_modes.has('document')`. -/
  supported : Bool

structure World (σ : Type) where
  primary : Store
  mirror : σ

def collect {κ : Type} (list : ListQuery κ → Page κ) (scope : ScopeRef) : List MemoryItem :=
  (follow (fun cursor => list { scope, mode := some .memory, limit := some 200, cursor })
    maxPages none).1

def byId (items : List MemoryItem) (id : String) : Option MemoryItem :=
  items.reverse.find? (·.id = id)

def onlyOn (items others : List MemoryItem) : List MemoryItem :=
  items.filter fun item => (byId others item.id).isNone

def newerOn (items others : List MemoryItem) : List MemoryItem :=
  items.filter fun item => (byId others item.id).any (·.updatedAt < item.updatedAt)

/-- `WRITE_CHUNK`. -/
def writeChunk : Nat := 200

def chunkedFrom {α : Type} (size : Nat) : Nat → List α → List (List α)
  | 0, _ => []
  | _ + 1, [] => []
  | fuel + 1, item :: items =>
    (item :: items).take size :: chunkedFrom size fuel ((item :: items).drop size)

def chunked {α : Type} (items : List α) (size : Nat) : List (List α) :=
  chunkedFrom size items.length items

section Pass

variable {σ κ : Type} (db : RowOrder) (mirror : Mirror σ κ) (valid : MemoryItem → Bool)

def sync (w : World σ) (scope : ScopeRef) : World σ :=
  let primaryItems := collect (nativeList db w.primary.rows) scope
  let mirrorItems := collect (mirror.list w.mirror) scope
  let toMirror := onlyOn primaryItems mirrorItems ++ newerOn primaryItems mirrorItems
  let toPrimary := onlyOn mirrorItems primaryItems ++ newerOn mirrorItems primaryItems
  { mirror := if mirror.supported then
      (chunked toMirror writeChunk).foldl mirror.batchPut w.mirror else w.mirror
    primary := (chunked toPrimary writeChunk).foldl (batchPut valid) w.primary }

inductive Event (σ : Type)
  | put (draft : MemoryItem) (chunks : List MemoryItem) (now : Int)
  | supersede (oldId : String) (draft : MemoryItem) (now : Int)
  | softDelete (id : String) (now : Int)
  | sweep (now : Int)
  | sync (scope : ScopeRef)
  | elsewhere (mirror : σ)

/-- Somebody writes a memory. -/
def Event.explicit : Event σ → Bool
  | .put .. | .supersede .. => true
  | _ => false

def step (w : World σ) : Event σ → World σ
  | .put draft chunks now => { w with primary := put valid w.primary draft chunks now }
  | .supersede oldId draft now => { w with primary := supersede valid w.primary oldId draft now }
  | .softDelete id now => { w with primary := softDelete w.primary id now }
  | .sweep now => { w with primary := sweep w.primary now }
  | .sync scope => sync db mirror valid w scope
  | .elsewhere mirror => { w with mirror }

end Pass

/-! ## Reading a store by id -/

namespace Store

theorem find_eq_some {store : Store} {id : String} {row : MemoryItem} :
    store.find id = some row ↔ row ∈ store.rows ∧ row.id = id := by
  constructor
  · intro h
    exact ⟨List.mem_of_find?_eq_some h, by simpa using List.find?_some h⟩
  · intro h
    obtain ⟨hrow, rfl⟩ := h
    cases hfound : store.find row.id with
    | none =>
      have hnone := List.find?_eq_none.mp hfound row hrow
      simp at hnone
    | some other =>
      have hother : other ∈ store.rows := List.mem_of_find?_eq_some hfound
      have hid : other.id = row.id := by simpa using List.find?_some hfound
      rw [inj_on_of_nodup_map store.nodup hother hrow hid]

theorem mem_save {store : Store} {item row : MemoryItem} :
    row ∈ (store.save item).rows ↔ row ∈ store.rows ∧ row.id ≠ item.id ∨ row = item := by
  simp [save]

theorem find_save (store : Store) (item : MemoryItem) (id : String) :
    (store.save item).find id = if item.id = id then some item else store.find id := by
  apply Option.ext
  intro row
  rw [find_eq_some, mem_save]
  split
  next hid =>
    -- nothing else is left under the id
    rw [Option.some.injEq]
    constructor
    · intro h
      obtain ⟨⟨-, hne⟩ | rfl, hrow⟩ := h
      · exact absurd (hrow.trans hid.symm) hne
      · rfl
    · intro h
      exact ⟨.inr h.symm, h ▸ hid⟩
  next hid =>
    rw [find_eq_some]
    constructor
    · intro h
      obtain ⟨⟨hmem, -⟩ | rfl, hrow⟩ := h
      · exact ⟨hmem, hrow⟩
      · exact absurd hrow hid
    · intro h
      exact ⟨.inl ⟨h.1, fun heq => hid (heq.symm.trans h.2)⟩, h.2⟩

/-- Closed or deleted. -/
def Gone (store : Store) (id : String) : Prop := ∃ row, store.find id = some row ∧ row.isCurrent = false

def Current (store : Store) (id : String) : Prop := ∃ row, store.find id = some row ∧ row.isCurrent = true

/-- A memory that was gone is current. -/
def Revives (store store' : Store) : Prop := ∃ id, store.Gone id ∧ store'.Current id

theorem not_revives_update {store : Store} {change : MemoryItem → MemoryItem}
    {hid : ∀ row, (change row).id = row.id}
    (hchange : ∀ row, (change row).isCurrent = true → row.isCurrent = true) :
    ¬ Revives store (store.update change hid) := by
  intro h
  obtain ⟨id, ⟨row, hrow, hgone⟩, row', hrow', hcurrent⟩ := h
  obtain ⟨hmem, hrowId⟩ := find_eq_some.mp hrow
  obtain ⟨hmem', hrowId'⟩ := find_eq_some.mp hrow'
  obtain ⟨other, hother, rfl⟩ := mem_map.mp hmem'
  rw [hid] at hrowId'
  obtain rfl := inj_on_of_nodup_map store.nodup hother hmem (hrowId'.trans hrowId.symm)
  rw [hchange other hcurrent] at hgone
  cases hgone

theorem not_revives_self (store : Store) : ¬ Revives store store := by
  intro h
  obtain ⟨id, ⟨row, hrow, hgone⟩, row', hrow', hcurrent⟩ := h
  obtain rfl : row = row' := Option.some.inj (hrow.symm.trans hrow')
  rw [hcurrent] at hgone
  cases hgone

end Store

theorem not_revives_softDelete (store : Store) (id : String) (now : Int) :
    ¬ store.Revives (softDelete store id now) := by
  unfold softDelete
  split
  next => exact store.not_revives_self
  next =>
    apply Store.not_revives_update
    intro row
    split
    next => simp [MemoryItem.isCurrent]
    next => exact fun h => h

theorem not_revives_sweep (store : Store) (now : Int) : ¬ store.Revives (sweep store now) := by
  apply Store.not_revives_update
  intro row
  split
  next => simp [MemoryItem.isCurrent]
  next => exact fun h => h

/-! ## What a pass writes under an id -/

/-- The last of the items under an id that the validator lets through: the one whose write
stands. -/
def offered (valid : MemoryItem → Bool) (items : List MemoryItem) (id : String) : Option MemoryItem :=
  items.reverse.find? fun item => valid item && item.id = id

section Offered

variable {valid : MemoryItem → Bool}

theorem offered_cons (item : MemoryItem) (items : List MemoryItem) (id : String) :
    offered valid (item :: items) id
      = (offered valid items id).or (if valid item && item.id = id then some item else none) := by
  rw [offered, reverse_cons, List.find?_append, List.find?_singleton]
  rfl

theorem offered_append (items more : List MemoryItem) (id : String) :
    offered valid (items ++ more) id = (offered valid more id).or (offered valid items id) := by
  rw [offered, reverse_append, List.find?_append]
  rfl

theorem offered_filter_of_keep {items : List MemoryItem} {keep : MemoryItem → Bool} {id : String}
    (hkeep : ∀ item, item.id = id → keep item = true) :
    offered valid (items.filter keep) id = offered valid items id := by
  rw [offered, ← filter_reverse, List.find?_filter, offered]
  congr 1
  funext item
  by_cases hid : item.id = id
  · simp [hkeep item hid]
  · simp [hid]

theorem offered_filter_of_drop {items : List MemoryItem} {keep : MemoryItem → Bool} {id : String}
    (hdrop : ∀ item, item.id = id → keep item = false) :
    offered valid (items.filter keep) id = none := by
  rw [offered, ← filter_reverse, List.find?_filter, List.find?_eq_none]
  intro item _ h
  simp only [Bool.and_eq_true, decide_eq_true_eq] at h
  rw [hdrop item h.2.2] at h
  cases h.1

theorem find_batchPut (store : Store) (items : List MemoryItem) (id : String) :
    (batchPut valid store items).find id = (offered valid items id).or (store.find id) := by
  induction items generalizing store with
  | nil => rfl
  | cons item items ih =>
    rw [batchPut, foldl_cons, ← batchPut, ih, offered_cons, Option.or_assoc]
    congr 1
    split
    next hvalid =>
      rw [Store.find_save]
      by_cases hid : item.id = id
      · simp [hvalid, hid]
      · simp [hid]
    next hvalid => simp [hvalid]

end Offered

theorem flatten_chunkedFrom {α : Type} {size : Nat} (hsize : 0 < size) (fuel : Nat) (items : List α)
    (hfuel : items.length ≤ fuel) : (chunkedFrom size fuel items).flatten = items := by
  induction fuel generalizing items with
  | zero =>
    have hnil : items = [] := length_eq_zero_iff.mp (by omega)
    rw [hnil]
    rfl
  | succ fuel ih =>
    cases items with
    | nil => rfl
    | cons item items =>
      have hrest : ((item :: items).drop size).length ≤ fuel := by
        rw [length_drop]
        rw [length_cons] at hfuel ⊢
        omega
      rw [chunkedFrom, flatten_cons, ih _ hrest, take_append_drop]

theorem batchPut_chunked (valid : MemoryItem → Bool) (store : Store) (items : List MemoryItem) :
    (chunked items writeChunk).foldl (batchPut valid) store = batchPut valid store items := by
  have hflat : (chunked items writeChunk).flatten = items :=
    flatten_chunkedFrom (by decide) items.length items le_rfl
  conv_rhs => rw [← hflat]
  exact foldl_flatten.symm

/-! ## Passes and runs -/

theorem follow_mem {κ : Type} {list : Option κ → Page κ} {good : MemoryItem → Prop}
    (hlist : ∀ cursor, ∀ item ∈ (list cursor).items, good item) (pages : Nat) (cursor : Option κ) :
    ∀ item ∈ (follow list pages cursor).1, good item := by
  induction pages generalizing cursor with
  | zero => simp [follow]
  | succ pages ih =>
    intro item hitem
    rw [follow] at hitem
    cases hnext : (list cursor).cursor with
    | none =>
      simp only [hnext] at hitem
      exact hlist cursor item hitem
    | some next =>
      simp only [hnext, mem_append] at hitem
      rcases hitem with h | h
      · exact hlist cursor item h
      · exact ih (some next) item h

theorem nativeList_rows {db : RowOrder} {rows : List MemoryItem} {query : ListQuery Int}
    {item : MemoryItem} (hitem : item ∈ (nativeList db rows query).items) :
    ∃ row ∈ rows, matchesQuery query row = true ∧ item = entityToItem row := by
  obtain ⟨row, hrow, rfl⟩ := mem_map.mp hitem
  have hfound : row ∈ db.order (rows.filter fun row =>
      matchesQuery query row && query.cursor.all (row.createdAt < ·)) := by
    split at hrow
    next => exact mem_of_mem_take (mem_of_mem_take hrow)
    next => exact mem_of_mem_take hrow
  obtain ⟨hmem, hmatches⟩ := mem_filter.mp ((db.perm _).mem_iff.mp hfound)
  rw [Bool.and_eq_true] at hmatches
  exact ⟨row, hmem, hmatches.1, rfl⟩

theorem nativeList_current {db : RowOrder} {rows : List MemoryItem} {query : ListQuery Int}
    (hsuperseded : query.includeSuperseded = false) (hdeleted : query.includeDeleted = false) :
    ∀ item ∈ (nativeList db rows query).items,
      ∃ row ∈ rows, row.id = item.id ∧ row.isCurrent = true := by
  intro item hitem
  obtain ⟨row, hrow, hmatches, rfl⟩ := nativeList_rows hitem
  refine ⟨row, hrow, rfl, ?_⟩
  simp only [matchesQuery, hsuperseded, hdeleted, Bool.false_or, Bool.and_eq_true] at hmatches
  simp [MemoryItem.isCurrent, hmatches]

section Runs

variable {σ κ : Type} (db : RowOrder) (mirror : Mirror σ κ) (valid : MemoryItem → Bool)

/-- No memory that is gone here is still current there. -/
def NothingOffered (w : World σ) (scope : ScopeRef) : Prop :=
  ∀ id, w.primary.Gone id → ∀ item,
    offered valid (collect (mirror.list w.mirror) scope) id = some item → item.isCurrent = false

variable {db mirror valid}

theorem byId_collect_of_gone (db : RowOrder) {store : Store} {id : String} (hgone : store.Gone id)
    (scope : ScopeRef) : byId (collect (nativeList db store.rows) scope) id = none := by
  obtain ⟨row, hrow, hnot⟩ := hgone
  obtain ⟨hmem, hid⟩ := Store.find_eq_some.mp hrow
  rw [byId, List.find?_eq_none]
  intro item hitem heq
  obtain ⟨other, hother, hotherId, hcurrent⟩ := follow_mem
    (fun _ => nativeList_current rfl rfl) maxPages none item (mem_reverse.mp hitem)
  rw [of_decide_eq_true heq, ← hid] at hotherId
  obtain rfl := inj_on_of_nodup_map store.nodup hother hmem hotherId
  rw [hcurrent] at hnot
  cases hnot

theorem find_sync_of_gone {w : World σ} {id : String} (hgone : w.primary.Gone id) (scope : ScopeRef) :
    (sync db mirror valid w scope).primary.find id
      = (offered valid (collect (mirror.list w.mirror) scope) id).or (w.primary.find id) := by
  have hnone := byId_collect_of_gone db hgone scope
  show ((chunked _ writeChunk).foldl (batchPut valid) w.primary).find id = _
  rw [batchPut_chunked, find_batchPut, offered_append]
  rw [newerOn, offered_filter_of_drop, onlyOn, offered_filter_of_keep, Option.none_or] <;>
  · intro item hid
    rw [hid, hnone]
    rfl

theorem revived_by_sync_iff {w : World σ} {id : String} (hgone : w.primary.Gone id) (scope : ScopeRef) :
    (sync db mirror valid w scope).primary.Current id ↔
      ∃ item, offered valid (collect (mirror.list w.mirror) scope) id = some item ∧
        item.isCurrent = true := by
  rw [Store.Current, find_sync_of_gone hgone]
  cases hoffered : offered valid (collect (mirror.list w.mirror) scope) id with
  | some item => rfl
  | none =>
    obtain ⟨row, hrow, hnot⟩ := hgone
    simp only [Option.none_or, hrow, Option.some.injEq, exists_eq_left', hnot]
    simp

theorem not_revives_sync_iff (w : World σ) (scope : ScopeRef) :
    ¬ w.primary.Revives (sync db mirror valid w scope).primary ↔
      NothingOffered mirror valid w scope := by
  constructor
  · intro h id hgone item hitem
    by_contra hcurrent
    exact h ⟨id, hgone, (revived_by_sync_iff hgone scope).mpr ⟨item, hitem, by simpa using hcurrent⟩⟩
  · intro h hrevives
    obtain ⟨id, hgone, hcurrent⟩ := hrevives
    obtain ⟨item, hitem, hyes⟩ := (revived_by_sync_iff hgone scope).mp hcurrent
    rw [h id hgone item hitem] at hyes
    cases hyes

theorem step_revives_iff (w : World σ) (event : Event σ) :
    (w.primary.Revives (step db mirror valid w event).primary → event.explicit = true) ↔
      ∀ scope, event = .sync scope → NothingOffered mirror valid w scope := by
  cases event with
  | put | supersede => simp [Event.explicit]
  | softDelete id now =>
    exact iff_of_true (fun h => absurd h (not_revives_softDelete w.primary id now)) (by simp)
  | sweep now => exact iff_of_true (fun h => absurd h (not_revives_sweep w.primary now)) (by simp)
  | elsewhere mirror => exact iff_of_true (fun h => absurd h w.primary.not_revives_self) (by simp)
  | sync scope =>
    constructor
    · intro h scope' hscope
      cases hscope
      exact (not_revives_sync_iff w scope).mp fun hrevives => Bool.false_ne_true (h hrevives)
    · intro h hrevives
      exact absurd hrevives ((not_revives_sync_iff w scope).mpr (h scope rfl))

/-- Nothing but a write makes a gone memory current exactly when no pass meets a mirror that still
offers it. -/
theorem sync_brings_back_iff (db : RowOrder) (mirror : Mirror σ κ) (valid : MemoryItem → Bool)
    (w : World σ) (events : List (Event σ)) :
    Steps.Along (step db mirror valid)
        (fun w event => w.primary.Revives (step db mirror valid w event).primary →
          event.explicit = true) w events ↔
      Steps.Along (step db mirror valid)
        (fun w event => ∀ scope, event = .sync scope → NothingOffered mirror valid w scope)
        w events :=
  Steps.along_iff_of_invariant (fun _ => True) (fun _ _ _ _ => trivial)
    (fun w event _ => step_revives_iff w event) trivial

end Runs

/-! ## A memory deleted and brought back -/

def validateMemoryItem (item : MemoryItem) : Bool :=
  isUuid item.id && item.scope.scopeId ≠ "" && item.content ≠ "" && item.supersededBy.all isUuid &&
    item.ttlSeconds.all (0 < ·) && item.chunkOf.all isUuid &&
    (match item.mode with
    | .memory => item.tier.isSome && item.chunkOf.isNone
    | .document => item.tier.isNone && item.validUntil.isNone && item.supersededBy.isNone &&
      item.ttlSeconds.isNone) &&
    (item.supersededBy.isNone || item.validUntil.isSome)

theorem insertionOrder_sorted (rows : List MemoryItem) :
    (rows.insertionSort fun a b => b.createdAt ≤ a.createdAt).Pairwise
      fun a b => b.createdAt ≤ a.createdAt := by
  have : Std.Total fun a b : MemoryItem => b.createdAt ≤ a.createdAt := ⟨fun a b => by omega⟩
  have : IsTrans MemoryItem fun a b => b.createdAt ≤ a.createdAt := ⟨fun a b c => by omega⟩
  exact pairwise_insertionSort _ rows

def insertionOrder : RowOrder where
  order rows := rows.insertionSort fun a b => b.createdAt ≤ a.createdAt
  perm rows := perm_insertionSort _ rows
  sorted := insertionOrder_sorted

/-- A service that keeps what it is given and answers with all of a scope. -/
def keeping : Mirror (List MemoryItem) String where
  list kept query :=
    let items := kept.filter (·.scope = query.scope)
    { items, total := items.length, cursor := none }
  batchPut kept items := kept ++ items
  supported := true

def note : MemoryItem where
  id := "0190c5b8-7b1e-7c3d-9a2f-5e4d3c2b1a00"
  mode := .memory
  scope := workspace
  content := "note"
  createdAt := 0
  updatedAt := 0

/-- Put, mirrored, deleted, and current again after the next pass. -/
theorem deleted_note_back :
    ¬ Steps.Along (step insertionOrder keeping validateMemoryItem)
      (fun w event =>
        w.primary.Revives (step insertionOrder keeping validateMemoryItem w event).primary →
          event.explicit = true)
      ⟨⟨[], nodup_nil⟩, []⟩
      [.put note [] 1000000, .sync workspace, .softDelete note.id 2000000, .sync workspace] := by
  intro h
  have hback := h.2.2.2.1 ⟨note.id, ⟨_, rfl, rfl⟩, ⟨_, rfl, rfl⟩⟩
  exact Bool.false_ne_true hback

end Almyty.Memory
