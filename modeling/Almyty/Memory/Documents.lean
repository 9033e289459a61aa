import Almyty.Lib.Slots
import Almyty.Lib.Steps
import Almyty.Memory.DocumentChunks
import Almyty.Memory.Listing

/-!
# A document source: `document-chunker.service.ts`, `canonical-memory.service.ts`

An import looks up the parent row of its source, and unless that has the checksum of the new text,
replaces it and its chunks in one transaction. A soft delete marks the parent and then its chunks.
The lookup stands outside the transaction and does not read the mark.

`one_live_version` says what is left when no call is in progress, if each step meets `careful`: what
is unchanged is also live, a transaction replaces what its own lookup would still find, a delete
marks a parent that is still there, and nobody replaces or deletes a document while another call has
it and is about to return it.

Mirroring notes:
- All imports are of one source, and the rows are its rows.
- Each statement is atomic, and so is a transaction; anything awaited may fail.
- `save` is by id: over the row that is there, or as a new row.
- An id is drawn when its row is written; until then nobody else knows it.
-/

namespace Almyty.Memory.Documents

open Almyty.Lib List

structure Row where
  id : Nat
  mode : Mode := .document
  scope : ScopeRef
  content : Text
  sourceUri : Option String
  sourceVersion : Option Nat
  sourceChecksum : Option String
  chunkIndex : Option Nat := none
  chunkTotal : Option Nat
  chunkOf : Option Nat := none
  deletedAt : Option Int := none
  deletedBy : Option String := none
  deriving DecidableEq

structure Source where
  scope : ScopeRef
  source_uri : String

structure ImportSourceInput where
  content : Text
  force : Bool := false
  chunk_tokens : Option Int := none
  deriving DecidableEq

def ImportSourceInput.chunkTokens (input : ImportSourceInput) : Int :=
  input.chunk_tokens.getD CHUNK_DEFAULT_TOKENS

structure ImportSourceResult where
  source_version : Nat
  chunks_inserted : Nat
  parent_id : Nat
  skipped : Bool
  source_checksum : String
  deriving DecidableEq

inductive ImportStage
  | finding
  | splitting
  | counting (parent : Row)
  | writing (existing : Option Row) (version : Nat) (chunks : List Text)
  | enqueueing (left : Nat) (result : ImportSourceResult)
  | returned (result : ImportSourceResult)
  | failed
  deriving DecidableEq

structure DeleteInput where
  id : Nat
  organizationId : String
  userId : Option String := none
  agentScopeIds : List String := []
  deriving DecidableEq

inductive DeleteStage
  | finding
  | saving (row : Row)
  | updating (now : Int)
  | returned (found : Bool)
  | failed
  deriving DecidableEq

inductive Call
  | importSource (input : ImportSourceInput) (stage : ImportStage)
  | delete (input : DeleteInput) (stage : DeleteStage)
  deriving DecidableEq

def Call.Done : Call → Bool
  | .importSource _ (.returned _) | .importSource _ .failed => true
  | .delete _ (.returned _) | .delete _ .failed => true
  | _ => false

structure World where
  table : List Row := []
  next : Nat := 0
  calls : List Call := []
  /-- The call that was completed last. -/
  last : Option Nat := none

/-- How what a call waits for ended, and when. -/
structure Out where
  ok : Bool := true
  now : Int := 0

inductive Action
  | importSource (input : ImportSourceInput)
  | delete (input : DeleteInput)
  | advance (call : Nat) (out : Out)

def visibleScopeIds (input : DeleteInput) : List String :=
  let own := match input.userId with
    | some userId =>
      if userId = "" then [input.organizationId]
      else [input.organizationId, input.organizationId ++ ":user:" ++ userId]
    | none => [input.organizationId]
  own ++ input.agentScopeIds.filter fun id =>
    (input.organizationId ++ ":agent:").toList.isPrefixOf id.toList

def save (table : List Row) (row : Row) : List Row :=
  if table.any (·.id = row.id) then table.map fun r => if r.id = row.id then row else r
  else table ++ [row]

def deleteCascade (table : List Row) (id : Nat) : List Row :=
  table.filter fun r => r.id ≠ id && r.chunkOf ≠ some id

def deleteChunks (table : List Row) (id : Nat) (now : Int) (actor : Option String) : List Row :=
  table.map fun r =>
    if r.chunkOf = some id ∧ r.deletedAt = none then { r with deletedAt := some now, deletedBy := actor }
    else r

def advanceDelete (input : DeleteInput) (table : List Row) (out : Out) :
    DeleteStage → List Row × DeleteStage
  | .finding =>
    if !out.ok then (table, .failed)
    else
      match table.find? fun r => r.id = input.id && (visibleScopeIds input).contains r.scope.scopeId with
      | none => (table, .returned false)
      | some row =>
        (table, .saving { row with deletedAt := some out.now, deletedBy := input.userId })
  | .saving row =>
    -- a chunk cannot come back without its parent
    if !out.ok || row.chunkOf.any fun parent => !table.any (·.id = parent) then (table, .failed)
    else (save table row, .updating (row.deletedAt.getD out.now))
  | .updating now =>
    if out.ok then (deleteChunks table input.id now input.userId, .returned true)
    else (table, .failed)
  | stage => (table, stage)

section Service

variable (sha256 : Text → String) (source : Source)

def buildParent (input : ImportSourceInput) (id version chunkTotal : Nat) : Row where
  id := id
  scope := source.scope
  content := units ("# " ++ source.source_uri ++ "\n\nDocument with " ++ toString chunkTotal ++
    " chunks (v" ++ toString version ++ ").")
  sourceUri := some source.source_uri
  sourceVersion := some version
  sourceChecksum := some (sha256 input.content)
  chunkTotal := some chunkTotal

def buildChunk (input : ImportSourceInput) (id parentId : Nat) (text : Text)
    (idx total version : Nat) : Row where
  id := id
  scope := source.scope
  content := text
  sourceUri := some source.source_uri
  sourceVersion := some version
  sourceChecksum := some (sha256 input.content)
  chunkIndex := some idx
  chunkTotal := some total
  chunkOf := some parentId

def versionRows (input : ImportSourceInput) (id version : Nat) (chunks : List Text) : List Row :=
  buildParent sha256 source input id version chunks.length ::
    chunks.mapIdx fun idx text =>
      buildChunk sha256 source input (id + 1 + idx) id text idx chunks.length version

/-- `ORDER BY source_version DESC`: no version comes first. -/
def newer (a b : Row) : Bool :=
  match a.sourceVersion, b.sourceVersion with
  | none, some _ => true
  | some m, some n => n < m
  | _, none => false

def isParent (row : Row) : Bool :=
  row.scope = source.scope && row.sourceUri = some source.source_uri && row.chunkOf = none &&
    row.mode = .document

def findParent (table : List Row) : Option Row :=
  (table.filter (isParent source)).foldl
    (fun best row => if best.all (newer row) then some row else best) none

def unchanged (input : ImportSourceInput) (parent : Row) : Bool :=
  parent.sourceChecksum = some (sha256 input.content) && !input.force

def advanceImport (input : ImportSourceInput) (table : List Row) (next : Nat) (out : Out) :
    ImportStage → (List Row × Nat) × ImportStage
  | .finding =>
    if !out.ok then ((table, next), .failed)
    else
      let existing := findParent source table
      match existing.filter (unchanged sha256 input) with
      | some parent => ((table, next), .counting parent)
      | none =>
        match chunkText input.content input.chunkTokens with
        -- and it does not end
        | none => ((table, next), .splitting)
        | some [] => ((table, next), .failed)
        | some chunks =>
          ((table, next), .writing existing (((existing.bind (·.sourceVersion)).getD 0) + 1) chunks)
  | .counting parent =>
    if !out.ok then ((table, next), .failed)
    else
      ((table, next), .returned {
        source_version := parent.sourceVersion.getD 1
        chunks_inserted := (table.filter fun r => r.chunkOf = some parent.id && r.mode = .document).length
        parent_id := parent.id
        skipped := true
        source_checksum := sha256 input.content })
  | .writing existing version chunks =>
    if !out.ok then ((table, next), .failed)
    else
      let table' := match existing with
        | some parent => deleteCascade table parent.id
        | none => table
      ((table' ++ versionRows sha256 source input next version chunks, next + 1 + chunks.length),
        .enqueueing chunks.length {
          source_version := version
          chunks_inserted := chunks.length
          parent_id := next
          skipped := false
          source_checksum := sha256 input.content })
  | .enqueueing left result =>
    if !out.ok then ((table, next), .failed)
    else
      match left with
      | 0 => ((table, next), .returned result)
      | left + 1 => ((table, next), .enqueueing left result)
  | stage => ((table, next), stage)

/-- A call goes on to its next await, or to its end. -/
def advance (w : World) (i : Nat) (out : Out) : World :=
  match w.calls[i]? with
  | none => w
  | some call =>
    let ((table, next), call') := match call with
      | .importSource input stage =>
        let (written, stage') := advanceImport sha256 source input w.table w.next out stage
        (written, Call.importSource input stage')
      | .delete input stage =>
        let (table, stage') := advanceDelete input w.table out stage
        ((table, w.next), Call.delete input stage')
    { table := table, next := next, calls := w.calls.set i call',
      last := if call'.Done && !call.Done then some i else w.last }

def step (w : World) : Action → World
  | .importSource input => { w with calls := w.calls ++ [.importSource input .finding] }
  | .delete input => { w with calls := w.calls ++ [.delete input .finding] }
  | .advance i out => advance sha256 source w i out

/-! ## The condition -/

def Call.holding : Call → Bool
  | .importSource _ (.counting _) | .importSource _ (.enqueueing _ _) => true
  | _ => false

/-- What a step has to meet. -/
def careful (w : World) : Action → Bool
  | .advance i out =>
    match w.calls[i]? with
    | some (.importSource input .finding) =>
      -- what is found unchanged is live
      !out.ok || (findParent source w.table).all fun parent =>
        !unchanged sha256 input parent || parent.deletedAt.isNone
    | some (.importSource _ (.writing existing _ _)) =>
      -- the import would find the same, and no other has it
      !out.ok || ((findParent source w.table).map (·.id) = existing.map (·.id) &&
        !w.calls.any Call.holding)
    | some (.delete _ (.saving row)) =>
      -- a whole document, still there, and no import has it
      !out.ok || (row.chunkOf.isNone && w.table.any (·.id = row.id) && !w.calls.any Call.holding)
    | some (.delete _ (.updating _)) => out.ok
    | _ => true
  | _ => true

/-! ## One version -/

def liveChunks (table : List Row) (id : Nat) : List Row :=
  table.filter fun r => r.chunkOf = some id && r.deletedAt.isNone

structure OneVersion (w : World) : Prop where
  parents : (w.table.filter (isParent source)).length ≤ 1
  /-- A live document has all its chunks, in their places; a deleted one has none. -/
  chunks : ∀ p ∈ w.table.filter (isParent source),
    if p.deletedAt = none then
      ∃ total, p.chunkTotal = some total ∧
        (liveChunks w.table p.id).map (·.chunkIndex) = (List.range total).map some
    else liveChunks w.table p.id = []
  last : ∀ i input result, w.last = some i →
    w.calls[i]? = some (.importSource input (.returned result)) →
    ∃ p ∈ w.table.filter (isParent source), p.id = result.parent_id ∧ p.deletedAt = none ∧
      p.sourceChecksum = some (sha256 input.content) ∧
      ∃ tokens, chunkText input.content tokens = some ((liveChunks w.table p.id).map (·.content)) ∧
        (result.skipped = false → tokens = input.chunkTokens)

/-! ## A version in the table -/

def Row.unmarked (row : Row) : Row := { row with deletedAt := none, deletedBy := none }

@[simp] theorem Row.unmarked_id (row : Row) : row.unmarked.id = row.id := rfl

@[simp] theorem Row.unmarked_chunkOf (row : Row) : row.unmarked.chunkOf = row.chunkOf := rfl

@[simp] theorem isParent_unmarked (row : Row) : isParent source row.unmarked = isParent source row :=
  rfl

structure Version where
  id : Nat
  input : ImportSourceInput
  number : Nat
  texts : List Text

def Version.rows (v : Version) : List Row := versionRows sha256 source v.input v.id v.number v.texts

def Version.parent (v : Version) : Row :=
  buildParent sha256 source v.input v.id v.number v.texts.length

def Version.chunks (v : Version) : List Row :=
  v.texts.mapIdx fun idx text =>
    buildChunk sha256 source v.input (v.id + 1 + idx) v.id text idx v.texts.length v.number

structure Stands (v : Version) (table : List Row) : Prop where
  rows : table.map Row.unmarked = v.rows sha256 source
  split : chunkText v.input.content v.input.chunkTokens = some v.texts

variable {sha256 source} {v : Version} {table : List Row}

theorem Version.mem_chunks {row : Row} (h : row ∈ v.chunks sha256 source) :
    row.chunkOf = some v.id ∧ v.id < row.id ∧ row.id < v.id + 1 + v.texts.length := by
  obtain ⟨idx, hidx, rfl⟩ := mem_mapIdx.mp h
  exact ⟨rfl, by show v.id < v.id + 1 + idx; omega, by show v.id + 1 + idx < _; omega⟩

theorem Version.unmarked_rows (v : Version) :
    (v.rows sha256 source).map Row.unmarked = v.rows sha256 source := by
  have hself : ∀ row ∈ v.rows sha256 source, row.unmarked = row := by
    intro row hrow
    rcases mem_cons.mp hrow with rfl | hrow
    · rfl
    · obtain ⟨idx, hidx, rfl⟩ := mem_mapIdx.mp hrow
      rfl
  exact (map_congr_left hself).trans (map_id' _)

theorem Stands.shape (h : Stands sha256 source v table) :
    ∃ p cs, table = p :: cs ∧ p.unmarked = v.parent sha256 source ∧
      cs.map Row.unmarked = v.chunks sha256 source := by
  obtain ⟨p, cs, rfl, hp, hcs⟩ := map_eq_cons_iff.mp h.rows
  exact ⟨p, cs, rfl, hp, hcs⟩

theorem Stands.mem_cases (h : Stands sha256 source v table) {row : Row} (hrow : row ∈ table) :
    (row.chunkOf = none ∧ row.id = v.id) ∨ (row.chunkOf = some v.id ∧ v.id < row.id) := by
  have hmem : row.unmarked ∈ v.rows sha256 source := h.rows ▸ mem_map_of_mem hrow
  rcases mem_cons.mp hmem with heq | hchunk
  · exact .inl ⟨congrArg Row.chunkOf heq, congrArg Row.id heq⟩
  · obtain ⟨hof, hlt, -⟩ := Version.mem_chunks hchunk
    exact .inr ⟨hof, hlt⟩

theorem Stands.filter_isParent (h : Stands sha256 source v table) :
    ∃ p ∈ table, table.filter (isParent source) = [p] ∧ p.unmarked = v.parent sha256 source := by
  obtain ⟨p, cs, rfl, hp, hcs⟩ := h.shape
  refine ⟨p, mem_cons_self, ?_, hp⟩
  have hparent : isParent source p = true := by
    rw [← isParent_unmarked, hp]
    simp [isParent, Version.parent, buildParent]
  have hnone : cs.filter (isParent source) = [] := by
    rw [filter_eq_nil_iff]
    intro c hc
    have hof := (Version.mem_chunks (hcs ▸ mem_map_of_mem hc)).1
    rw [Row.unmarked_chunkOf] at hof
    simp [isParent, hof]
  rw [filter_cons_of_pos hparent, hnone]

theorem Stands.findParent (h : Stands sha256 source v table) :
    ∃ p ∈ table, Documents.findParent source table = some p ∧ p.unmarked = v.parent sha256 source := by
  obtain ⟨p, hmem, hfilter, hp⟩ := h.filter_isParent
  refine ⟨p, hmem, ?_, hp⟩
  rw [Documents.findParent, hfilter]
  rfl

theorem Stands.eq_of_id (h : Stands sha256 source v table) {a b : Row} (ha : a ∈ table)
    (hb : b ∈ table) (hid : a.id = b.id) : a = b := by
  have hchunks : (v.chunks sha256 source).map Row.id =
      (List.range v.texts.length).map (v.id + 1 + ·) := by
    refine ext_getElem (by simp [Version.chunks]) fun k _ _ => ?_
    simp [Version.chunks, buildChunk]
  have hids : table.map Row.id = v.id :: (List.range v.texts.length).map (v.id + 1 + ·) := by
    have hrows := congrArg (List.map Row.id) h.rows
    rw [map_map] at hrows
    exact hrows.trans (congrArg (v.id :: ·) hchunks)
  have hnodup : (table.map Row.id).Nodup := by
    rw [hids, nodup_cons]
    refine ⟨fun hmem => ?_, List.Nodup.map (fun m n heq => by simpa using heq) nodup_range⟩
    obtain ⟨k, -, hk⟩ := mem_map.mp hmem
    omega
  exact inj_on_of_nodup_map hnodup ha hb hid

theorem Stands.cleared (h : Stands sha256 source v table) : deleteCascade table v.id = [] := by
  rw [deleteCascade, filter_eq_nil_iff]
  intro row hrow
  rcases h.mem_cases hrow with ⟨-, hid⟩ | ⟨hof, -⟩
  · simp [hid]
  · simp [hof]

theorem Stands.marked (h : Stands sha256 source v table) {f : Row → Row}
    (hf : ∀ row ∈ table, (f row).unmarked = row.unmarked) : Stands sha256 source v (table.map f) := by
  refine ⟨?_, h.split⟩
  rw [← h.rows, map_map]
  exact map_congr_left hf

/-! ## The invariant -/

def Call.imported : Call → Option ImportSourceInput
  | .importSource input _ => some input
  | .delete _ _ => none

structure Current (sha256 : Text → String) (source : Source) (w : World) (v : Version) : Prop where
  stands : Stands sha256 source v w.table
  imported : some v.input ∈ w.calls.map Call.imported

/-- What an import has found unchanged or written is there, all of it live. -/
def Answers (sha256 : Text → String) (source : Source) (w : World) (input : ImportSourceInput)
    (id : Nat) (skipped : Bool) : Prop :=
  ∃ v, Current sha256 source w v ∧ v.id = id ∧
    (∀ row ∈ w.table, row.deletedAt = none) ∧ sha256 v.input.content = sha256 input.content ∧
    (skipped = false → v.input = input)

def Call.dirty : Call → Bool
  | .importSource _ (.enqueueing _ _) | .delete _ (.updating _) => true
  | _ => false

theorem Call.open_of_dirty {call : Call} (h : call.dirty = true) : call.Done = false := by
  cases call with
  | importSource input stage =>
    cases stage with
    | enqueueing left result => rfl
    | _ => cases h
  | delete input stage =>
    cases stage with
    | updating now => rfl
    | _ => cases h

def Call.Good (sha256 : Text → String) (source : Source) (w : World) : Call → Prop
  | .importSource input (.counting parent) => Answers sha256 source w input parent.id true
  | .importSource input (.enqueueing _ result) =>
    Answers sha256 source w input result.parent_id result.skipped
  | .importSource input (.writing _ _ chunks) =>
    chunkText input.content input.chunkTokens = some chunks
  | .delete input (.saving row) =>
    row.id = input.id ∧ row.id < w.next ∧ row.deletedAt ≠ none ∧
      ∀ r ∈ w.table, r.id = row.id → r.unmarked = row.unmarked
  | .delete input (.updating _) =>
    input.id < w.next ∧ ∀ r ∈ w.table, r.id = input.id → r.deletedAt ≠ none
  | _ => True

structure Inv (sha256 : Text → String) (source : Source) (w : World) : Prop where
  table : w.table = [] ∨ ∃ v, Current sha256 source w v
  fresh : ∀ r ∈ w.table, r.id < w.next
  live : ∀ p ∈ w.table, p.chunkOf = none → p.deletedAt = none → ∀ r ∈ w.table, r.deletedAt = none
  /-- A deleted document's chunks are deleted, or are about to be. -/
  gone : ∀ p ∈ w.table, p.chunkOf = none → p.deletedAt ≠ none →
    (∀ r ∈ w.table, r.chunkOf ≠ none → r.deletedAt ≠ none) ∨
      ∃ input now, .delete input (.updating now) ∈ w.calls ∧ input.id = p.id
  calls : ∀ c ∈ w.calls, c.Good sha256 source w
  last : ∀ i input result, w.last = some i →
    w.calls[i]? = some (.importSource input (.returned result)) →
    Answers sha256 source w input result.parent_id result.skipped ∨ ∃ c ∈ w.calls, c.dirty = true

theorem inv_start : Inv sha256 source {} where
  table := .inl rfl
  fresh _ h := by cases h
  live _ h := by cases h
  gone _ h := by cases h
  calls _ h := by cases h
  last _ _ _ h := by cases h

variable {w : World} {i : Nat} {call call' : Call}

variable {input : ImportSourceInput}

theorem Answers.mono {w' : World} {id : Nat} {skipped : Bool}
    (h : Answers sha256 source w input id skipped) (htable : w'.table = w.table)
    (hcalls : w.calls.map Call.imported ⊆ w'.calls.map Call.imported) :
    Answers sha256 source w' input id skipped := by
  obtain ⟨v, hcurrent, hid, hlive, hsum, hown⟩ := h
  exact ⟨v, ⟨htable ▸ hcurrent.stands, hcalls hcurrent.imported⟩, hid, htable ▸ hlive, hsum, hown⟩

theorem Call.Good.mono {w' : World} (h : call.Good sha256 source w) (htable : w'.table = w.table)
    (hnext : w.next ≤ w'.next)
    (hcalls : w.calls.map Call.imported ⊆ w'.calls.map Call.imported) :
    call.Good sha256 source w' := by
  cases call with
  | importSource input stage =>
    cases stage with
    | counting | enqueueing => exact Answers.mono h htable hcalls
    | writing existing version chunks => exact h
    | _ => trivial
  | delete input stage =>
    cases stage with
    | saving row => exact ⟨h.1, h.2.1.trans_le hnext, h.2.2.1, htable ▸ h.2.2.2⟩
    | updating now => exact ⟨h.1.trans_le hnext, htable ▸ h.2⟩
    | _ => trivial

theorem Inv.begin (h : Inv sha256 source w) (call : Call) (hgood : call.Good sha256 source w)
    (hopen : call.Done = false) : Inv sha256 source { w with calls := w.calls ++ [call] } := by
  have hmono : w.calls.map Call.imported ⊆ (w.calls ++ [call]).map Call.imported := by
    rw [map_append]
    exact subset_append_left _ _
  refine ⟨h.table.imp_right fun ⟨v, hv⟩ => ⟨v, hv.stands, hmono hv.imported⟩, h.fresh, h.live,
    fun p hp hof hdeleted => (h.gone p hp hof hdeleted).imp_right ?_, fun c hc => ?_,
    fun j input result hlast hj => ?_⟩
  · rintro ⟨input, now, hmem, hid⟩
    exact ⟨input, now, mem_append_left _ hmem, hid⟩
  · rcases mem_append.mp hc with hc | hc
    · exact (h.calls c hc).mono rfl (le_refl _) hmono
    · obtain rfl := mem_singleton.mp hc
      exact hgood.mono rfl (le_refl _) hmono
  · rcases Slots.getElem?_append_singleton_cases hj with ⟨-, rfl⟩ | hj
    · cases hopen
    · refine (h.last j input result hlast hj).imp (fun ha => ha.mono rfl hmono) ?_
      rintro ⟨c, hc, hdirty⟩
      exact ⟨c, mem_append_left _ hc, hdirty⟩

theorem Inv.quiet (h : Inv sha256 source w) (call' : Call) (hi : w.calls[i]? = some call)
    (hsame : call'.imported = call.imported) (hgood : call'.Good sha256 source w)
    (hupdating : ∀ p ∈ w.table, p.chunkOf = none →
      ∀ input now, call = .delete input (.updating now) → input.id ≠ p.id)
    (hdirty : call.dirty = true → call'.dirty = true ∨ call'.Done = true)
    (hdone : call.Done = false)
    (hreturned : ∀ input result, call' = .importSource input (.returned result) →
      Answers sha256 source w input result.parent_id result.skipped) :
    Inv sha256 source { w with
      calls := w.calls.set i call'
      last := if call'.Done && !call.Done then some i else w.last } := by
  have hmap : (w.calls.set i call').map Call.imported = w.calls.map Call.imported :=
    Slots.map_set_of_eq hi hsame
  have hmono : w.calls.map Call.imported ⊆ (w.calls.set i call').map Call.imported := by
    rw [hmap]
    exact List.Subset.refl _
  refine ⟨h.table.imp_right fun ⟨v, hv⟩ => ⟨v, hv.stands, hmono hv.imported⟩, h.fresh, h.live,
    fun p hp hof hdeleted => (h.gone p hp hof hdeleted).imp_right ?_, fun c hc => ?_,
    fun j input result hlast hj => ?_⟩
  · rintro ⟨input, now, hmem, hid⟩
    rcases Slots.eq_or_mem_set hi hmem with heq | hmem
    · exact (hupdating p hp hof input now heq.symm hid).elim
    · exact ⟨input, now, hmem, hid⟩
  · rcases mem_or_eq_of_mem_set hc with hc | rfl
    · exact (h.calls c hc).mono rfl (le_refl _) hmono
    · exact hgood.mono rfl (le_refl _) hmono
  · simp only [hdone, Bool.not_false, Bool.and_true] at hlast
    rcases Slots.getElem?_set_cases hj with ⟨-, rfl⟩ | ⟨hne, hj⟩
    · exact .inl ((hreturned input result rfl).mono rfl hmono)
    · split at hlast
      · exact (hne (Option.some.inj hlast).symm).elim
      next hgoing =>
        refine (h.last j input result hlast hj).imp (fun ha => ha.mono rfl hmono) ?_
        rintro ⟨c, hc, hcdirty⟩
        rcases Slots.eq_or_mem_set hi hc with rfl | hc
        · exact ⟨call', List.mem_of_getElem? (Slots.getElem?_set_of_some hi),
            (hdirty hcdirty).resolve_right hgoing⟩
        · exact ⟨c, hc, hcdirty⟩

/-- A call without the document in hand is not disturbed by a table whose rows are as the call knows
them. -/
theorem Call.Good.disturbed {w' : World} (h : call.Good sha256 source w)
    (hfree : call.holding = false) (hnext : w.next ≤ w'.next)
    (hsaving : ∀ id < w.next, ∀ row : Row, (∀ r ∈ w.table, r.id = id → r.unmarked = row.unmarked) →
      ∀ r ∈ w'.table, r.id = id → r.unmarked = row.unmarked)
    (hupdating : ∀ id < w.next, (∀ r ∈ w.table, r.id = id → r.deletedAt ≠ none) →
      ∀ r ∈ w'.table, r.id = id → r.deletedAt ≠ none) : call.Good sha256 source w' := by
  cases call with
  | importSource input stage =>
    cases stage with
    | counting | enqueueing => cases hfree
    | writing existing version chunks => exact h
    | _ => trivial
  | delete input stage =>
    cases stage with
    | saving row =>
      exact ⟨h.1, h.2.1.trans_le hnext, h.2.2.1, hsaving row.id h.2.1 row h.2.2.2⟩
    | updating now => exact ⟨h.1.trans_le hnext, hupdating input.id h.1 h.2⟩
    | _ => trivial

theorem Inv.replaced (h : Inv sha256 source w) {existing : Option Row}
    (hfound : (findParent source w.table).map (·.id) = existing.map (·.id)) :
    (match existing with
      | some parent => deleteCascade w.table parent.id
      | none => w.table) = [] := by
  rcases h.table with hempty | ⟨v, hv⟩
  · rw [hempty] at hfound ⊢
    cases existing with
    | none => rfl
    | some parent => cases hfound
  · obtain ⟨p, -, hparent, hp⟩ := hv.stands.findParent
    have hid : p.id = v.id := congrArg Row.id hp
    rw [hparent] at hfound
    cases existing with
    | none => cases hfound
    | some parent =>
      have heq : parent.id = v.id := (Option.some.inj hfound).symm.trans hid
      show deleteCascade w.table parent.id = []
      rw [heq]
      exact hv.stands.cleared

theorem Inv.commit (h : Inv sha256 source w) {version : Nat} {chunks : List Text} {left : Nat}
    {result : ImportSourceResult} {existing : Option Row}
    (hi : w.calls[i]? = some (.importSource input (.writing existing version chunks)))
    (hfree : ∀ c ∈ w.calls, c.holding = false) (hresult : result.parent_id = w.next) :
    Inv sha256 source
      { table := versionRows sha256 source input w.next version chunks
        next := w.next + 1 + chunks.length
        calls := w.calls.set i (.importSource input (.enqueueing left result))
        last := w.last } := by
  have hsplit : chunkText input.content input.chunkTokens = some chunks :=
    h.calls _ (List.mem_of_getElem? hi)
  let v : Version := { id := w.next, input := input, number := version, texts := chunks }
  have hmap : (w.calls.set i (.importSource input (.enqueueing left result))).map Call.imported =
      w.calls.map Call.imported := Slots.map_set_of_eq hi rfl
  have hnew : ∀ row ∈ versionRows sha256 source input w.next version chunks,
      w.next ≤ row.id ∧ row.id < w.next + 1 + chunks.length ∧ row.deletedAt = none := by
    intro row hrow
    rcases mem_cons.mp hrow with rfl | hrow
    · exact ⟨le_refl _, by show w.next < _; omega, rfl⟩
    · obtain ⟨hof, hlt, hle⟩ := Version.mem_chunks (v := v) hrow
      obtain ⟨idx, hidx, rfl⟩ := mem_mapIdx.mp hrow
      exact ⟨hlt.le, hle, rfl⟩
  have hcurrent : Current sha256 source
      { table := versionRows sha256 source input w.next version chunks
        next := w.next + 1 + chunks.length
        calls := w.calls.set i (.importSource input (.enqueueing left result))
        last := w.last } v := by
    refine ⟨⟨Version.unmarked_rows v, hsplit⟩, ?_⟩
    rw [hmap]
    exact mem_map.mpr ⟨_, List.mem_of_getElem? hi, rfl⟩
  refine ⟨.inr ⟨v, hcurrent⟩, fun r hr => (hnew r hr).2.1, fun _ _ _ _ r hr => (hnew r hr).2.2,
    fun p hp _ hdeleted => (hdeleted (hnew p hp).2.2).elim, fun c hc => ?_, fun j _ _ _ _ => ?_⟩
  · rcases mem_or_eq_of_mem_set hc with hc | rfl
    · refine (h.calls c hc).disturbed (hfree c hc) (by show w.next ≤ w.next + 1 + _; omega) ?_ ?_
      · intro id hid row _ r hr heq
        exact absurd (hnew r hr).1 (by omega)
      · intro id hid _ r hr heq
        exact absurd (hnew r hr).1 (by omega)
    · exact ⟨v, hcurrent, hresult.symm, fun r hr => (hnew r hr).2.2, rfl, fun _ => rfl⟩
  · exact .inr ⟨_, List.mem_of_getElem? (Slots.getElem?_set_of_some hi), rfl⟩

theorem Inv.saved (h : Inv sha256 source w) {input : DeleteInput} {row : Row} {now : Int}
    (hi : w.calls[i]? = some (.delete input (.saving row)))
    (hfree : ∀ c ∈ w.calls, c.holding = false) (hparent : row.chunkOf = none)
    (hthere : ∃ r ∈ w.table, r.id = row.id) :
    Inv sha256 source
      { w with
        table := save w.table row
        calls := w.calls.set i (.delete input (.updating now)) } := by
  obtain ⟨hid, hlt, hmarked, hknown⟩ := h.calls _ (List.mem_of_getElem? hi)
  obtain ⟨old, hold, holdId⟩ := hthere
  have hsave : save w.table row = w.table.map fun r => if r.id = row.id then row else r := by
    rw [save, if_pos (any_eq_true.mpr ⟨old, hold, by simpa using holdId⟩)]
  have hf : ∀ r ∈ w.table, (if r.id = row.id then row else r).unmarked = r.unmarked := by
    intro r hr
    split
    next heq => exact (hknown r hr heq).symm
    · rfl
  -- a row of the new table is the marked one, or an old one of another id
  have hcases : ∀ r ∈ save w.table row, r = row ∨ (r ∈ w.table ∧ r.id ≠ row.id) := by
    intro r hr
    rw [hsave] at hr
    obtain ⟨r', hr', rfl⟩ := mem_map.mp hr
    split
    · exact .inl rfl
    next hne => exact .inr ⟨hr', hne⟩
  have hcalls : (w.calls.set i (.delete input (.updating now))).map Call.imported =
      w.calls.map Call.imported := Slots.map_set_of_eq hi rfl
  obtain ⟨v, hv⟩ : ∃ v, Current sha256 source w v := by
    rcases h.table with hempty | hv
    · rw [hempty] at hold
      cases hold
    · exact hv
  have hstands : Stands sha256 source v (save w.table row) := hsave ▸ hv.stands.marked hf
  have hrowId : row.id = v.id := by
    have hof : old.chunkOf = none :=
      (congrArg Row.chunkOf (hknown old hold holdId)).trans hparent
    rcases hv.stands.mem_cases hold with ⟨-, hvid⟩ | ⟨hsome, -⟩
    · exact holdId.symm.trans hvid
    · rw [hof] at hsome
      cases hsome
  have hisRow : ∀ p ∈ save w.table row, p.chunkOf = none → p = row := by
    intro p hp hof
    rcases hcases p hp with rfl | ⟨hmem, hne⟩
    · rfl
    · rcases hv.stands.mem_cases hmem with ⟨-, hvid⟩ | ⟨hsome, -⟩
      · exact (hne (hvid.trans hrowId.symm)).elim
      · rw [hof] at hsome
        cases hsome
  have hcaller : .delete input (.updating now) ∈ w.calls.set i (.delete input (.updating now)) :=
    List.mem_of_getElem? (Slots.getElem?_set_of_some hi)
  refine ⟨.inr ⟨v, hstands, ?_⟩, fun r hr => ?_, fun p hp hof hlive => ?_,
    fun p hp hof _ => .inr ⟨input, now, hcaller, ?_⟩, fun c hc => ?_, fun j _ _ _ _ => ?_⟩
  · rw [hcalls]
    exact hv.imported
  · rcases hcases r hr with rfl | ⟨hmem, -⟩
    · exact hlt
    · exact h.fresh r hmem
  · exact (hmarked (hisRow p hp hof ▸ hlive)).elim
  · rw [hisRow p hp hof]
    exact hid.symm
  · rcases mem_or_eq_of_mem_set hc with hc | rfl
    · refine (h.calls c hc).disturbed (hfree c hc) (le_refl _) ?_ ?_
      · intro id _ row' hrow' r hr heq
        rcases hcases r hr with rfl | ⟨hmem, -⟩
        · exact (hknown old hold holdId).symm.trans (hrow' old hold (holdId.trans heq))
        · exact hrow' r hmem heq
      · intro id _ hdeleted r hr heq
        rcases hcases r hr with rfl | ⟨hmem, -⟩
        · exact hmarked
        · exact hdeleted r hmem heq
    · refine ⟨hid ▸ hlt, fun r hr heq => ?_⟩
      rcases hcases r hr with rfl | ⟨-, hne⟩
      · exact hmarked
      · exact (hne (heq.trans hid.symm)).elim
  · exact .inr ⟨_, hcaller, rfl⟩

theorem Inv.updated (h : Inv sha256 source w) {input : DeleteInput} {now : Int}
    (hi : w.calls[i]? = some (.delete input (.updating now))) :
    Inv sha256 source
      { w with
        table := deleteChunks w.table input.id now input.userId
        calls := w.calls.set i (.delete input (.returned true))
        last := some i } := by
  obtain ⟨hlt, hmarked⟩ := h.calls _ (List.mem_of_getElem? hi)
  by_cases hother : ∀ p ∈ w.table, p.chunkOf = none → p.id ≠ input.id
  · -- the document has been replaced
    have htable : deleteChunks w.table input.id now input.userId = w.table := by
      refine (map_congr_left fun r hr => if_neg fun hchunk => ?_).trans (map_id' _)
      obtain ⟨v, hv⟩ := h.table.resolve_left (ne_nil_of_mem hr)
      obtain ⟨p, hp, -, hparent⟩ := hv.stands.filter_isParent
      rcases hv.stands.mem_cases hr with ⟨hof, -⟩ | ⟨hof, -⟩
      · rw [hof] at hchunk
        cases hchunk.1
      · have hvid : v.id = input.id := Option.some.inj (hof.symm.trans hchunk.1)
        exact hother p hp (congrArg Row.chunkOf hparent) ((congrArg Row.id hparent).trans hvid)
    rw [htable]
    refine h.quiet (.delete input (.returned true)) hi rfl trivial ?_ (fun _ => .inr rfl) rfl
      (fun _ _ heq => by cases heq)
    intro p hp hof input' now' heq hid
    cases heq
    exact hother p hp hof hid.symm
  -- the document is the one this call has marked
  simp only [not_forall, not_not] at hother
  obtain ⟨old, hold, holdOf, hid⟩ := hother
  obtain ⟨v, hv⟩ := h.table.resolve_left (ne_nil_of_mem hold)
  have hvid : v.id = input.id := by
    rcases hv.stands.mem_cases hold with ⟨-, hvid⟩ | ⟨hof, -⟩
    · exact hvid.symm.trans hid
    · rw [holdOf] at hof
      cases hof
  have hfree : ∀ c ∈ w.calls, c.holding = false := by
    intro c hc
    cases hhold : c.holding with
    | false => rfl
    | true =>
      have hgood := h.calls c hc
      have hlive : ∀ r ∈ w.table, r.deletedAt = none := by
        cases c with
        | importSource input stage =>
          cases stage with
          | counting | enqueueing => exact hgood.choose_spec.2.2.1
          | _ => cases hhold
        | delete input stage => cases hhold
      exact (hmarked old hold hid (hlive old hold)).elim
  have hcalls : (w.calls.set i (.delete input (.returned true))).map Call.imported =
      w.calls.map Call.imported := Slots.map_set_of_eq hi rfl
  let f : Row → Row := fun r =>
    if r.chunkOf = some input.id ∧ r.deletedAt = none then
      { r with deletedAt := some now, deletedBy := input.userId }
    else r
  have hf (r : Row) : (f r).unmarked = r.unmarked ∧ (f r).id = r.id ∧ (f r).chunkOf = r.chunkOf := by
    show Row.unmarked (if _ then _ else _) = _ ∧ Row.id (if _ then _ else _) = _ ∧
      Row.chunkOf (if _ then _ else _) = _
    split <;> exact ⟨rfl, rfl, rfl⟩
  have hkept (r : Row) (hr : r.deletedAt ≠ none) : f r = r := if_neg fun hchunk => hr hchunk.2
  have hcases : ∀ r ∈ deleteChunks w.table input.id now input.userId, ∃ r' ∈ w.table, r = f r' := by
    intro r hr
    obtain ⟨r', hr', rfl⟩ := mem_map.mp hr
    exact ⟨r', hr', rfl⟩
  refine ⟨.inr ⟨v, hv.stands.marked fun r _ => (hf r).1, ?_⟩, fun r hr => ?_,
    fun p hp hof hlive => ?_, fun p _ _ _ => .inl fun r hr hof => ?_, fun c hc => ?_,
    fun j input' result hlast hj => ?_⟩
  · rw [hcalls]
    exact hv.imported
  · obtain ⟨r', hr', rfl⟩ := hcases r hr
    rw [(hf r').2.1]
    exact h.fresh r' hr'
  · obtain ⟨r', hr', rfl⟩ := hcases p hp
    rw [(hf r').2.2] at hof
    have hsame : f r' = r' := if_neg fun hchunk => by
      rw [hof] at hchunk
      cases hchunk.1
    rcases hv.stands.mem_cases hr' with ⟨-, hrid⟩ | ⟨hsome, -⟩
    · rw [hsame] at hlive
      exact (hmarked r' hr' (hrid.trans hvid) hlive).elim
    · rw [hof] at hsome
      cases hsome
  · obtain ⟨r', hr', rfl⟩ := hcases r hr
    rw [(hf r').2.2] at hof
    by_cases hold' : r'.deletedAt = none
    · have hof' : r'.chunkOf = some input.id := by
        rcases hv.stands.mem_cases hr' with ⟨hnone, -⟩ | ⟨hsome, -⟩
        · exact (hof hnone).elim
        · exact hsome.trans (congrArg some hvid)
      show (if _ then _ else _ : Row).deletedAt ≠ none
      rw [if_pos ⟨hof', hold'⟩]
      exact nofun
    · rw [hkept r' hold']
      exact hold'
  · rcases mem_or_eq_of_mem_set hc with hc | rfl
    · refine (h.calls c hc).disturbed (hfree c hc) (le_refl _) ?_ ?_
      · intro id _ row hrow r hr heq
        obtain ⟨r', hr', rfl⟩ := hcases r hr
        exact (hf r').1.trans (hrow r' hr' ((hf r').2.1.symm.trans heq))
      · intro id _ hdeleted r hr heq
        obtain ⟨r', hr', rfl⟩ := hcases r hr
        have hmarkedOld := hdeleted r' hr' ((hf r').2.1.symm.trans heq)
        rw [hkept r' hmarkedOld]
        exact hmarkedOld
    · trivial
  · obtain rfl : i = j := Option.some.inj hlast
    rw [Slots.getElem?_set_of_some hi] at hj
    cases hj

theorem Inv.answers (h : Inv sha256 source w) {parent : Row}
    (hfound : findParent source w.table = some parent)
    (hsame : unchanged sha256 input parent = true) (hlive : parent.deletedAt = none) :
    Answers sha256 source w input parent.id true := by
  rcases h.table with hempty | ⟨v, hv⟩
  · rw [hempty] at hfound
    cases hfound
  · obtain ⟨p, hp, hparent, heq⟩ := hv.stands.findParent
    obtain rfl : p = parent := Option.some.inj (hparent.symm.trans hfound)
    have hsum : some (sha256 v.input.content) = some (sha256 input.content) := by
      have hchecksum : p.sourceChecksum = some (sha256 v.input.content) :=
        congrArg Row.sourceChecksum heq
      simp only [unchanged, Bool.and_eq_true, decide_eq_true_eq] at hsame
      exact hchecksum.symm.trans hsame.1
    exact ⟨v, hv, (congrArg Row.id heq).symm, h.live p hp (congrArg Row.chunkOf heq) hlive,
      Option.some.inj hsum, nofun⟩

theorem Inv.stays (h : Inv sha256 source w) (hi : w.calls[i]? = some call) (hdone : call.Done = true) :
    Inv sha256 source { w with
      calls := w.calls.set i call
      last := if call.Done && !call.Done then some i else w.last } := by
  obtain ⟨hlt, rfl⟩ := List.getElem?_eq_some_iff.mp hi
  rw [set_getElem_self, hdone]
  exact h

theorem Inv.advanceImport (h : Inv sha256 source w) {stage : ImportStage} {out : Out}
    (hi : w.calls[i]? = some (.importSource input stage))
    (hcareful : careful sha256 source w (.advance i out) = true) :
    Inv sha256 source (advance sha256 source w i out) := by
  have hgood := h.calls _ (List.mem_of_getElem? hi)
  simp only [careful, hi] at hcareful
  simp only [advance, hi]
  -- a call that moves and leaves the table
  have hquiet (stage' : ImportStage) (hgood' : (Call.importSource input stage').Good sha256 source w)
      (hdirty : (Call.importSource input stage).dirty = true →
        (Call.importSource input stage').dirty = true ∨ (Call.importSource input stage').Done = true)
      (hdone : (Call.importSource input stage).Done = false)
      (hreturned : ∀ result, stage' = .returned result →
        Answers sha256 source w input result.parent_id result.skipped) :=
    h.quiet (.importSource input stage') hi rfl hgood'
      (fun _ _ _ _ _ heq => by cases heq) hdirty hdone
      (fun _ result heq => by cases heq; exact hreturned result rfl)
  cases hok : out.ok with
  | false =>
    cases stage with
    | finding | counting | writing | enqueueing =>
      simp only [Documents.advanceImport, hok, Bool.not_false, if_true]
      exact hquiet .failed trivial (fun _ => .inr rfl) rfl nofun
    | splitting => exact hquiet .splitting trivial nofun rfl nofun
    | returned | failed => exact h.stays hi rfl
  | true =>
    simp only [Documents.advanceImport, hok, Bool.not_true, Bool.false_eq_true, if_false]
    cases stage with
    | finding =>
      dsimp only
      split
      next parent hfound =>
        obtain ⟨hfound, hsame⟩ := Option.filter_eq_some_iff.mp hfound
        have hlive : parent.deletedAt = none := by
          simpa [hok, hfound, hsame] using hcareful
        exact hquiet (.counting parent) (h.answers hfound hsame hlive) nofun rfl nofun
      · split
        · exact hquiet .splitting trivial nofun rfl nofun
        · exact hquiet .failed trivial nofun rfl nofun
        next chunks _ hchunks => exact hquiet (.writing _ _ chunks) hchunks nofun rfl nofun
    | splitting => exact hquiet .splitting trivial nofun rfl nofun
    | counting parent =>
      exact hquiet (.returned _) trivial nofun rfl fun result heq => by cases heq; exact hgood
    | writing existing version chunks =>
      simp only [hok, Bool.not_true, Bool.false_or, Bool.and_eq_true, decide_eq_true_eq,
        Bool.not_eq_true', any_eq_false, Bool.not_eq_true] at hcareful
      dsimp only
      rw [h.replaced hcareful.1, nil_append]
      exact h.commit hi hcareful.2 rfl
    | enqueueing left result =>
      cases left with
      | zero =>
        exact hquiet (.returned result) trivial (fun _ => .inr rfl) rfl
          fun result' heq => by cases heq; exact hgood
      | succ left => exact hquiet (.enqueueing left result) hgood (fun _ => .inl rfl) rfl nofun
    | returned | failed => exact h.stays hi rfl

theorem Inv.advanceDelete (h : Inv sha256 source w) {input : DeleteInput} {stage : DeleteStage}
    {out : Out} (hi : w.calls[i]? = some (.delete input stage))
    (hcareful : careful sha256 source w (.advance i out) = true) :
    Inv sha256 source (advance sha256 source w i out) := by
  simp only [careful, hi] at hcareful
  simp only [advance, hi]
  have hquiet (stage' : DeleteStage) (hgood' : (Call.delete input stage').Good sha256 source w)
      (hupdating : ∀ now, stage ≠ .updating now) (hdone : (Call.delete input stage).Done = false) :=
    h.quiet (.delete input stage') hi rfl hgood'
      (fun _ _ _ _ now heq => by cases heq; exact (hupdating now rfl).elim)
      (fun hdirty => by
        cases stage with
        | updating now => exact (hupdating now rfl).elim
        | _ => cases hdirty) hdone
      (fun _ _ heq => by cases heq)
  cases stage with
  | finding =>
    cases hok : out.ok with
    | false =>
      simp only [Documents.advanceDelete, hok, Bool.not_false, if_true]
      exact hquiet .failed trivial nofun rfl
    | true =>
      simp only [Documents.advanceDelete, hok, Bool.not_true, Bool.false_eq_true, if_false]
      split
      · exact hquiet (.returned false) trivial nofun rfl
      next row hfound =>
        have hmem := List.mem_of_find?_eq_some hfound
        have hid : row.id = input.id := by
          have hfits := List.find?_some hfound
          simp only [Bool.and_eq_true, decide_eq_true_eq] at hfits
          exact hfits.1
        obtain ⟨v, hv⟩ := h.table.resolve_left (ne_nil_of_mem hmem)
        refine hquiet (.saving _) ⟨hid, h.fresh row hmem, nofun, fun r hr heq => ?_⟩ nofun rfl
        obtain rfl : r = row := hv.stands.eq_of_id hr hmem heq
        rfl
  | saving row =>
    cases hok : out.ok with
    | false =>
      simp only [Documents.advanceDelete, hok, Bool.not_false, Bool.true_or, if_true]
      exact hquiet .failed trivial nofun rfl
    | true =>
      simp only [hok, Bool.not_true, Bool.false_or, Bool.and_eq_true, decide_eq_true_eq,
        Bool.not_eq_true', any_eq_false, Bool.not_eq_true, any_eq_true,
        Option.isNone_iff_eq_none] at hcareful
      simp only [Documents.advanceDelete, hok, hcareful.1.1, Bool.not_true, Bool.false_or,
        Option.any_none, Bool.false_eq_true, if_false]
      exact h.saved hi hcareful.2 hcareful.1.1 hcareful.1.2
  | updating now =>
    simp only [Documents.advanceDelete, hcareful, if_true]
    exact h.updated hi
  | returned | failed => exact h.stays hi rfl

theorem Inv.step (h : Inv sha256 source w) {act : Action}
    (hcareful : careful sha256 source w act = true) : Inv sha256 source (step sha256 source w act) := by
  cases act with
  | importSource input => exact h.begin (.importSource input .finding) trivial rfl
  | delete input => exact h.begin (.delete input .finding) trivial rfl
  | advance i out =>
    cases hi : w.calls[i]? with
    | none =>
      show Inv sha256 source (advance sha256 source w i out)
      rw [advance, hi]
      exact h
    | some call =>
      cases call with
      | importSource input stage => exact h.advanceImport hi hcareful
      | delete input stage => exact h.advanceDelete hi hcareful

/-! ## Between calls -/

theorem Stands.liveChunks (h : Stands sha256 source v table)
    (hlive : ∀ row ∈ table, row.deletedAt = none) :
    (Documents.liveChunks table v.id).map Row.unmarked = v.chunks sha256 source := by
  obtain ⟨p, cs, rfl, hp, hcs⟩ := h.shape
  have hparent : p.chunkOf = none := congrArg Row.chunkOf hp
  have hall : Documents.liveChunks (p :: cs) v.id = cs := by
    rw [Documents.liveChunks, filter_cons_of_neg (by simp [hparent]), filter_eq_self]
    intro c hc
    have hof := (Version.mem_chunks (hcs ▸ mem_map_of_mem hc)).1
    rw [Row.unmarked_chunkOf] at hof
    simp [hof, hlive c (mem_cons_of_mem _ hc)]
  rw [hall, hcs]

theorem one_live_version (acts : List Action)
    (hcareful : Steps.Along (step sha256 source) (careful sha256 source · · = true) {} acts)
    (hidle : ∀ c ∈ (Steps.run (step sha256 source) {} acts).calls, c.Done = true)
    (hchecksums : ∀ a b, some a ∈ (Steps.run (step sha256 source) {} acts).calls.map Call.imported →
      some b ∈ (Steps.run (step sha256 source) {} acts).calls.map Call.imported →
      sha256 a.content = sha256 b.content → a.content = b.content) :
    OneVersion sha256 source (Steps.run (step sha256 source) {} acts) := by
  have hinv : Inv sha256 source (Steps.run (step sha256 source) {} acts) :=
    Steps.run_invariant (Inv sha256 source) (fun _ _ h hc => h.step hc) inv_start hcareful
  generalize Steps.run (step sha256 source) {} acts = w at hinv hidle hchecksums
  refine ⟨?_, fun p hp => ?_, fun i input result hlast hi => ?_⟩
  · rcases hinv.table with hempty | ⟨v, hv⟩
    · simp [hempty]
    · obtain ⟨p, -, hfilter, -⟩ := hv.stands.filter_isParent
      simp [hfilter]
  · obtain ⟨hmem, hparent⟩ := mem_filter.mp hp
    obtain ⟨v, hv⟩ := hinv.table.resolve_left (ne_nil_of_mem hmem)
    obtain ⟨q, hq, hfilter, heq⟩ := hv.stands.filter_isParent
    obtain rfl : p = q := by
      rw [hfilter] at hp
      exact mem_singleton.mp hp
    have hof : p.chunkOf = none := congrArg Row.chunkOf heq
    have hid : p.id = v.id := congrArg Row.id heq
    split
    next hlive =>
      refine ⟨v.texts.length, congrArg Row.chunkTotal heq, ?_⟩
      have hchunks := hv.stands.liveChunks (hinv.live p hmem hof hlive)
      have hindexes := congrArg (List.map Row.chunkIndex) hchunks
      rw [map_map] at hindexes
      rw [hid]
      refine Eq.trans ?_ (hindexes.trans ?_)
      · rfl
      · refine ext_getElem (by simp [Version.chunks]) fun k _ _ => ?_
        simp [Version.chunks, buildChunk]
    next hdeleted =>
      rcases hinv.gone p hmem hof hdeleted with hall | ⟨input, now, hcall, -⟩
      · rw [liveChunks, filter_eq_nil_iff]
        intro r hr
        by_cases hchunk : r.chunkOf = none
        · simp [hchunk]
        · simp [hall r hr hchunk]
      · cases hidle _ hcall
  · rcases hinv.last i input result hlast hi with ⟨v, hv, hid, hlive, hsum, hown⟩ | ⟨c, hc, hdirty⟩
    · obtain ⟨p, hmem, hfilter, heq⟩ := hv.stands.filter_isParent
      have hpid : p.id = v.id := congrArg Row.id heq
      have hinput : some input ∈ w.calls.map Call.imported :=
        mem_map.mpr ⟨_, List.mem_of_getElem? hi, rfl⟩
      have hcontent := hchecksums v.input input hv.imported hinput hsum
      have hchunks := hv.stands.liveChunks hlive
      have hchecksum : p.sourceChecksum = some (sha256 v.input.content) :=
        congrArg Row.sourceChecksum heq
      refine ⟨p, by rw [hfilter]; exact mem_singleton_self p, hpid.trans hid, hlive p hmem,
        hchecksum.trans (congrArg some hsum), v.input.chunkTokens, ?_, fun hskipped => ?_⟩
      · have htexts := congrArg (List.map Row.content) hchunks
        rw [map_map] at htexts
        rw [← hcontent, hv.stands.split, hpid]
        refine congrArg some (Eq.trans ?_ htexts.symm)
        refine ext_getElem (by simp [Version.chunks]) fun k _ _ => ?_
        simp [Version.chunks, buildChunk]
      · rw [hown hskipped]
    · have hdone := hidle c hc
      rw [Call.open_of_dirty hdirty] at hdone
      cases hdone

end Service

section

private def notes : Source := { scope := ⟨.workspace, "org"⟩, source_uri := "almyty:file/1" }

private def digest (content : Text) : String :=
  if content = units "a" then "ca978112ca1bbdcafac231b39a23dc4da786eff8147c4e72b9807785afee48bb"
  else "3e23e8160039594a33894f6564e1b1348bbd7a0088d42c4acb73eeaed59c009d"

private def whole (call : Action) (i n : Nat) : List Action :=
  call :: List.replicate n (.advance i {})

private def deleteParent (id : Nat) : Action := .delete { id := id, organizationId := "org" }

/-- A document imported, deleted, and imported again with another text. -/
theorem one_live_version_reimported :
    OneVersion digest notes (Steps.run (step digest notes) {}
      (whole (.importSource { content := units "a" }) 0 4 ++ whole (deleteParent 0) 1 3 ++
        whole (.importSource { content := units "b" }) 2 4)) := by
  refine one_live_version _ (by decide +kernel) (by decide +kernel) ?_
  intro a b ha hb
  have hinputs : (Steps.run (step digest notes) {}
      (whole (.importSource { content := units "a" }) 0 4 ++ whole (deleteParent 0) 1 3 ++
        whole (.importSource { content := units "b" }) 2 4)).calls.map Call.imported =
      [some { content := units "a" }, none, some { content := units "b" }] := by decide +kernel
  have hcontent (input : ImportSourceInput) (h : some input ∈ [some { content := units "a" }, none,
      some { content := units "b" }]) : input.content = units "a" ∨ input.content = units "b" := by
    simp only [mem_cons, Option.some.injEq, reduceCtorEq, not_mem_nil, or_false, false_or] at h
    rcases h with rfl | rfl
    · exact .inl rfl
    · exact .inr rfl
  have hdiffer : digest (units "a") ≠ digest (units "b") := by decide +kernel
  rw [hinputs] at ha hb
  rcases hcontent a ha with ha | ha <;> rcases hcontent b hb with hb | hb <;> rw [ha, hb]
  · exact fun _ => rfl
  · exact fun heq => (hdiffer heq).elim
  · exact fun heq => (hdiffer heq.symm).elim
  · exact fun _ => rfl

private def unchangedButDeleted : List Action :=
  whole (.importSource { content := units "a" }) 0 4 ++ whole (deleteParent 0) 1 3 ++
    whole (.importSource { content := units "a" }) 2 2

private def firstTogether : List Action :=
  [.importSource { content := units "a" }, .importSource { content := units "b" },
    .advance 0 {}, .advance 1 {}] ++ List.replicate 3 (.advance 0 {}) ++
    List.replicate 3 (.advance 1 {})

/-- A deleted document imported again stays deleted; two first imports at a time write two
documents. -/
theorem stale_imports :
    ((∀ c ∈ (Steps.run (step digest notes) {} unchangedButDeleted).calls, c.Done = true) ∧
        ¬OneVersion digest notes (Steps.run (step digest notes) {} unchangedButDeleted)) ∧
      (∀ c ∈ (Steps.run (step digest notes) {} firstTogether).calls, c.Done = true) ∧
        ¬OneVersion digest notes (Steps.run (step digest notes) {} firstTogether) := by
  refine ⟨⟨by decide +kernel, fun h => ?_⟩, by decide +kernel, fun h => ?_⟩
  · obtain ⟨p, hp, -, hlive, -⟩ := h.last 2 { content := units "a" }
      { source_version := 1, chunks_inserted := 1, parent_id := 0, skipped := true
        source_checksum := digest (units "a") } (by decide +kernel) (by decide +kernel)
    revert p
    decide +kernel
  · exact absurd h.parents (by decide +kernel)

end

end Almyty.Memory.Documents
