import Almyty.Memory.CanonicalItem
import Almyty.Memory.Documents

/-!
# What the native store holds: `canonical-memory.service.ts`, `canonical-ops.helper.ts`

Two ways lead into the table. An item that is built or brought is checked whole and then saved. The
others write a few columns of rows that are there, or rows they build themselves, and leave it to
the constraints of the table: a supersession, the sweep, a consolidation, an import, and the worker
that fills in an embedding.

`stored_items_valid_iff` says that every row stays one that `validateMemoryItem` accepts exactly
while every embedding that is stored has as many numbers as the column: another is padded or cut to
them, and recorded with the number it had (`padded_embedding_refused`).

Mirroring notes:
- A write may be refused: `written` says so for what the constraints below do not decide.
-/

namespace Almyty.Memory.Canonical

open Almyty.Lib Documents List

/-! ## The table -/

/-- The milliseconds of a time. -/
def cut (t : Int) : Int := t / 1000 * 1000

def entityToItem (row : MemoryItem) : MemoryItem :=
  { row with
    validFrom := row.validFrom.map cut
    validUntil := row.validUntil.map cut
    createdAt := cut row.createdAt
    updatedAt := cut row.updatedAt
    accessedAt := row.accessedAt.map cut
    deletedAt := row.deletedAt.map cut }

/-- The `CHECK`s of `memories`, and the width of its vector column. -/
def constraints (row : MemoryItem) : Bool :=
  (match row.mode with
    | .memory => row.tier.isSome && row.validFrom.isSome && row.sourceUri.isNone &&
        row.chunkIndex.isNone && row.chunkOf.isNone
    | .document => row.sourceUri.isSome && row.sourceVersion.isSome && row.tier.isNone &&
        row.validUntil.isNone && row.supersededBy.isNone && row.ttlSeconds.isNone) &&
  (row.validUntil.all fun until' => row.validFrom.all fun from' => from' ≤ until') &&
  (row.supersededBy.isNone || row.validUntil.isSome) &&
  (row.chunkIndex.all fun index => row.chunkTotal.any fun total => index < total) &&
  (0 ≤ row.confidence && row.confidence ≤ 1) &&
  row.embedding.all fun v => v.length = EMBEDDING_DEFAULT_DIM

def findRow (table : List MemoryItem) (id : String) : Option MemoryItem := table.find? (·.id = id)

def save (table : List MemoryItem) (row : MemoryItem) (written : Bool) : Option (List MemoryItem) :=
  if constraints row && written then
    some (if table.any (·.id = row.id) then table.map fun r => if r.id = row.id then row else r
      else table ++ [row])
  else none

def insert (table rows : List MemoryItem) (written : Bool) : Option (List MemoryItem) :=
  if rows.all constraints && written && ((table ++ rows).map (·.id)).Nodup then some (table ++ rows)
  else none

def update (table : List MemoryItem) (id : String) (set : MemoryItem → MemoryItem) :
    List MemoryItem :=
  table.map fun r => if r.id = id then set r else r

def close (table : List MemoryItem) (ids : List String) (now : Int)
    (supersededBy : Option String → Option String) : Option (List MemoryItem) :=
  let closed := table.map fun r =>
    if ids.contains r.id then
      { r with validUntil := some now, supersededBy := supersededBy r.supersededBy, updatedAt := now }
    else r
  if closed.all fun r => !ids.contains r.id || constraints r then some closed else none

def cascade (table : List MemoryItem) : Nat → List String → List String
  | 0, ids => ids
  | n + 1, ids =>
    cascade table n (ids ++ (table.filter fun r => r.chunkOf.any ids.contains).map (·.id))

def deleteRow (table : List MemoryItem) (id : String) : List MemoryItem :=
  let gone := cascade table table.length [id]
  (table.filter fun r => !gone.contains r.id).map fun r =>
    if r.supersededBy.any gone.contains then { r with supersededBy := none } else r

/-! ## Writing checked items -/

structure PutInput where
  id : Option String := none
  mode : Mode
  scope : ScopeRef
  content : Text
  contentFormat : Option ContentFormat := none
  tags : Option (List String) := none
  metadata : Option Fields := none
  fileRefs : Option (List String) := none
  tier : Option Tier := none
  ttlSeconds : Option Rat := none
  sourceUri : Option String := none
  sourceVersion : Option Rat := none
  sourceChecksum : Option String := none
  chunkIndex : Option Rat := none
  chunkTotal : Option Rat := none
  chunkOf : Option String := none
  confidence : Option Rat := none
  provenance : Provenance

def buildItem (input : PutInput) (id : String) (contentBytes : Nat) (now : Int) : MemoryItem :=
  let isMemory := input.mode = .memory
  { id := id
    mode := input.mode
    scope := input.scope
    content := input.content
    contentFormat := input.contentFormat.getD .text
    contentBytes := contentBytes
    embedding := none
    embeddingDim := none
    embeddingModel := none
    embeddingStatus := .pending
    embeddingError := none
    tags := input.tags.getD []
    metadata := input.metadata.getD []
    fileRefs := input.fileRefs.getD []
    tier := if isMemory then some (input.tier.getD .short) else none
    validFrom := if isMemory then some now else none
    validUntil := none
    supersededBy := none
    ttlSeconds := if isMemory then input.ttlSeconds else none
    sourceUri := if isMemory then none else input.sourceUri
    sourceVersion := if isMemory then none else some (input.sourceVersion.getD 1)
    sourceChecksum := if isMemory then none else input.sourceChecksum
    chunkIndex := if isMemory then none else input.chunkIndex
    chunkTotal := if isMemory then none else input.chunkTotal
    chunkOf := if isMemory then none else input.chunkOf
    confidence := input.confidence.getD 1
    provenance := input.provenance
    createdAt := now
    updatedAt := now
    accessedAt := none
    accessCount := 0
    deletedAt := none
    deletedBy := none }

def isWholeDocument (item : MemoryItem) : Bool :=
  item.mode = .document && item.chunkOf.isNone && item.chunkIndex.isNone && item.chunkTotal.isNone

/-- What the clock, the ids and the outside give one write. -/
structure Env where
  now : Int
  draw : Nat := 0
  passed : Bool := true
  written : Bool := true

section Service

variable (uuidv7 : Nat → String) (sha256 : Text → String)

def chunkLeavesOf (parent : MemoryItem) (now : Int) (draw : Nat) : Option (List MemoryItem) :=
  (chunkText parent.content CHUNK_DEFAULT_TOKENS).map fun texts =>
    texts.mapIdx fun idx text =>
      { parent with
        id := uuidv7 (draw + idx)
        content := text
        contentBytes := byteLength text
        embedding := none
        embeddingDim := none
        embeddingModel := none
        embeddingStatus := .pending
        embeddingError := none
        metadata := []
        chunkIndex := some idx
        chunkTotal := some texts.length
        chunkOf := some parent.id
        createdAt := now
        updatedAt := now
        accessedAt := none
        accessCount := 0 }

def splitOff (item : MemoryItem) (env : Env) : Option (List MemoryItem) :=
  if isWholeDocument item then chunkLeavesOf uuidv7 item env.now (env.draw + 1) else some []

def writeItem (table : List MemoryItem) (item : MemoryItem) (chunks : List MemoryItem) (env : Env) :
    Option (List MemoryItem) :=
  if chunks = [] then save table item env.written
  else do
    let parent := { item with chunkTotal := some chunks.length, embeddingStatus := .skipped }
    let table ← save table parent env.written
    insert table chunks env.written

def put (table : List MemoryItem) (input : PutInput) (env : Env) :
    Option (List MemoryItem × String) :=
  let id := input.id.getD (uuidv7 env.draw)
  let item := buildItem input id (byteLength input.content) env.now
  if validateMemoryItem item ≠ [] || !env.passed then none
  else do
    let chunks ← splitOff uuidv7 item env
    let table ← writeItem table item chunks env
    pure (table, id)

def putCanonical (table : List MemoryItem) (item : MemoryItem) (env : Env) :
    Option (List MemoryItem) :=
  if validateMemoryItem item ≠ [] then none else save table item env.written

/-- The two saves of a supersession. -/
def replaceRow (table : List MemoryItem) (oldRow newItem : MemoryItem) (env : Env) :
    Option (List MemoryItem) := do
  let table ← save table newItem env.written
  save table { oldRow with validUntil := some env.now, supersededBy := some newItem.id } env.written

/-- `supersede`, by a caller who sees some scopes. -/
def supersede (table : List MemoryItem) (oldId : String) (visible : List String)
    (newInput : PutInput) (env : Env) : Option (List MemoryItem) := do
  let oldRow ← table.find? fun r => r.id = oldId && visible.contains r.scope.scopeId
  let newItem := buildItem newInput (newInput.id.getD (uuidv7 env.draw))
    (byteLength newInput.content) env.now
  if oldRow.mode ≠ .memory || oldRow.validUntil.isSome then none
  else if validateMemoryItem newItem ≠ [] then none
  else replaceRow table oldRow newItem env

def supersedeCanonical (table : List MemoryItem) (oldId : String) (newItem : MemoryItem)
    (env : Env) : Option (List MemoryItem) :=
  if validateMemoryItem newItem ≠ [] then none
  else do
    let oldRow ← findRow table oldId
    if oldRow.mode ≠ .memory then none else replaceRow table oldRow newItem env

/-! ## Writing columns -/

def delete (table : List MemoryItem) (id : String) (visible : List String) (actor : Option String)
    (env : Env) (chunksWritten : Bool) : List MemoryItem :=
  match table.find? fun r => r.id = id && visible.contains r.scope.scopeId with
  | none => table
  | some row =>
    match save table { row with deletedAt := some env.now, deletedBy := actor } env.written with
    | none => table
    | some table =>
      if chunksWritten then
        table.map fun r =>
          if r.chunkOf = some id ∧ r.deletedAt = none then
            { r with deletedAt := some env.now, deletedBy := actor }
          else r
      else table

inductive Generated
  | null
  | threw (message : String)
  /-- A vector; the update that stores it may throw. -/
  | result (vector : List Rat) (model : String) (threw : Option String)

def padToDim (vector : List Rat) (target : Nat) : List Rat :=
  if vector.length = target then vector
  else if target < vector.length then vector.take target
  else vector ++ List.replicate (target - vector.length) 0

def failEmbedding (message : String) (env : Env) (row : MemoryItem) : MemoryItem :=
  { row with embeddingStatus := .failed, embeddingError := some message, updatedAt := env.now }

def storeEmbedding (vector : List Rat) (model : String) (env : Env) (row : MemoryItem) : MemoryItem :=
  { row with
    embedding := some (padToDim vector EMBEDDING_DEFAULT_DIM)
    embeddingDim := some vector.length
    embeddingModel := some model
    embeddingStatus := .ready
    embeddingError := none
    updatedAt := env.now }

def awaitsEmbedding (row : MemoryItem) : Bool :=
  row.embeddingStatus ≠ .ready && row.embeddingStatus ≠ .skipped

def fillEmbedding (table : List MemoryItem) (id : String) (generated : Generated) (env : Env) :
    List MemoryItem :=
  match findRow table id with
  | none => table
  | some row =>
    if awaitsEmbedding row && env.passed then
      let failed (message : String) :=
        if env.written then update table id (failEmbedding message env) else table
      match generated with
      | .null => failed "embedding generation returned null"
      | .threw message => failed message
      | .result _ _ (some message) => failed message
      | .result vector model none => update table id (storeEmbedding vector model env)
    else table

/-! ## An import, a consolidation and the sweep -/

/-- A scope the controller has resolved: an organization's, a member's or an agent's. -/
structure OwnScope where
  scope : ScopeRef
  named : scope.scopeId ≠ ""

structure ImportInput where
  scope : OwnScope
  sourceUri : String
  content : Text
  contentFormat : Option ContentFormat := none
  force : Bool := false
  provenance : Provenance
  chunkTokens : Option Int := none

def buildParent (input : ImportInput) (id : String) (version : Rat) (chunkTotal : Nat) (now : Int) :
    MemoryItem :=
  let content := units ("# " ++ input.sourceUri ++ "\n\nDocument with " ++ toString chunkTotal ++
    " chunks (v" ++ toString version.num ++ ").")
  { id := id
    mode := .document
    scope := input.scope.scope
    content := content
    contentFormat := .markdown
    contentBytes := byteLength content
    embedding := none
    embeddingDim := none
    embeddingModel := none
    embeddingStatus := .pending
    embeddingError := none
    tags := []
    metadata := [("is_parent", .bool true)]
    fileRefs := []
    tier := none
    validFrom := none
    validUntil := none
    supersededBy := none
    ttlSeconds := none
    sourceUri := some input.sourceUri
    sourceVersion := some version
    sourceChecksum := some (sha256 input.content)
    chunkIndex := none
    chunkTotal := some chunkTotal
    chunkOf := none
    confidence := 1
    provenance := input.provenance
    createdAt := now
    updatedAt := now
    accessedAt := none
    accessCount := 0
    deletedAt := none
    deletedBy := none }

def buildChunk (input : ImportInput) (id parentId : String) (text : Text) (idx total : Nat)
    (version : Rat) (now : Int) : MemoryItem :=
  { buildParent sha256 input id version total now with
    content := text
    contentFormat := input.contentFormat.getD .text
    contentBytes := byteLength text
    metadata := []
    chunkIndex := some idx
    chunkOf := some parentId }

/-- `ORDER BY source_version DESC`: no version comes first. -/
def newer (a b : MemoryItem) : Bool :=
  match a.sourceVersion, b.sourceVersion with
  | none, some _ => true
  | some m, some n => n < m
  | _, none => false

def findParent (table : List MemoryItem) (input : ImportInput) : Option MemoryItem :=
  (table.filter fun r => r.scope = input.scope.scope && r.sourceUri = some input.sourceUri &&
    r.chunkOf = none && r.mode = .document).foldl
    (fun best row => if best.all (newer row) then some row else best) none

def importSource (table : List MemoryItem) (input : ImportInput) (env : Env) :
    Option (List MemoryItem) :=
  let existing := findParent table input
  if existing.any fun p => p.sourceChecksum = some (sha256 input.content) && !input.force then none
  else do
    let texts ← chunkText input.content (input.chunkTokens.getD CHUNK_DEFAULT_TOKENS)
    if texts = [] then none
    else
      let version := ((existing.bind (·.sourceVersion)).getD 0) + 1
      let table := match existing with
        | some p => deleteRow table p.id
        | none => table
      let parentId := uuidv7 env.draw
      let table ← insert table
        [buildParent sha256 input parentId version texts.length env.now] env.written
      insert table (texts.mapIdx fun idx text =>
        buildChunk sha256 input (uuidv7 (env.draw + 1 + idx)) parentId text idx texts.length version
          env.now) env.written

structure Fact where
  content : Text
  tags : Option (List String) := none
  confidence : Option Rat := none

def factInput (scope : ScopeRef) (provenance : Provenance) (count : Nat) (fact : Fact) : PutInput where
  mode := .memory
  scope := scope
  content := fact.content
  tier := some .long
  tags := some ("consolidated" :: fact.tags.getD [])
  metadata := some [("source_short_count", .num count)]
  provenance := provenance
  confidence := some (fact.confidence.getD (7 / 10))

/-- The table, and the id of the first fact written; the loop is over when one was refused. -/
structure Writing where
  table : List MemoryItem
  first : Option String := none
  refused : Bool := false

def putFact (scope : ScopeRef) (provenance : Provenance) (count : Nat) (w : Writing)
    (fact : Fact × Env) : Writing :=
  if w.refused then w
  else
    match put uuidv7 w.table (factInput scope provenance count fact.1) fact.2 with
    | none => { w with refused := true }
    | some (table, id) => { w with table := table, first := some (w.first.getD id) }

def shortRows (table : List MemoryItem) (scope : ScopeRef) (cutoff : Int) : List MemoryItem :=
  ((table.filter fun r => r.scope = scope && r.mode = .memory && r.tier = some .short &&
    r.validUntil.isNone && r.deletedAt.isNone && r.createdAt < cutoff).mergeSort
    fun a b => a.createdAt ≤ b.createdAt).take 200

def consolidationProvenance (model : String) (provider : Option String) : Provenance where
  model := some model
  provider := provider
  toolChain := ["consolidation"]
  createdBy := .consolidation
  sourceBackend := some "almyty-native"

/-- `ConsolidationService.run` from the model's answer on. -/
def consolidate (table : List MemoryItem) (scope : ScopeRef) (cutoff : Int) (model : String)
    (provider : Option String) (facts : List (Fact × Env)) (env : Env) : List MemoryItem :=
  let short := shortRows table scope cutoff
  let w := facts.foldl (putFact uuidv7 scope (consolidationProvenance model provider) short.length)
    { table := table }
  match w.first with
  | some first =>
    if w.refused || !env.written then w.table
    else (close w.table (short.map (·.id)) env.now fun _ => some first).getD w.table
  | none => w.table

def sweep (table : List MemoryItem) (now : Int) : List MemoryItem :=
  let expired := ((table.filter fun r => r.mode = .memory && r.validUntil.isNone &&
    r.deletedAt.isNone && r.ttlSeconds.any fun ttl => (r.createdAt : Rat) + ttl * 1000000 < now).mergeSort
    fun a b => a.createdAt ≤ b.createdAt).take 10000
  (close table (expired.map (·.id)) now fun successor => successor).getD table

/-! ## Runs -/

inductive Operation
  | put (input : PutInput) (env : Env)
  | putCanonical (item : MemoryItem) (env : Env)
  | supersede (oldId : String) (visible : List String) (newInput : PutInput) (env : Env)
  | supersedeCanonical (oldId : String) (newItem : MemoryItem) (env : Env)
  | delete (id : String) (visible : List String) (actor : Option String) (env : Env)
      (chunksWritten : Bool)
  | fillEmbedding (id : String) (generated : Generated) (env : Env)
  | importSource (input : ImportInput) (env : Env)
  | consolidate (scope : ScopeRef) (cutoff : Int) (model : String) (provider : Option String)
      (facts : List (Fact × Env)) (env : Env)
  | sweep (now : Int)

def step (table : List MemoryItem) : Operation → List MemoryItem
  | .put input env => ((put uuidv7 table input env).map (·.1)).getD table
  | .putCanonical item env => (putCanonical table item env).getD table
  | .supersede oldId visible newInput env => (supersede uuidv7 table oldId visible newInput env).getD table
  | .supersedeCanonical oldId newItem env => (supersedeCanonical table oldId newItem env).getD table
  | .delete id visible actor env chunksWritten => delete table id visible actor env chunksWritten
  | .fillEmbedding id generated env => fillEmbedding table id generated env
  | .importSource input env => (importSource uuidv7 sha256 table input env).getD table
  | .consolidate scope cutoff model provider facts env =>
    consolidate uuidv7 table scope cutoff model provider facts env
  | .sweep now => sweep table now

/-- Every row, read, is accepted. -/
def StoreValid (table : List MemoryItem) : Prop :=
  ∀ row ∈ table, validateMemoryItem (entityToItem row) = []

def Generated.wide : Generated → Bool
  | .result vector _ none => vector.length = EMBEDDING_DEFAULT_DIM
  | _ => true

def storesWide (table : List MemoryItem) : Operation → Bool
  | .fillEmbedding id generated env =>
    (findRow table id).all fun row => !(awaitsEmbedding row && env.passed) || generated.wide
  | _ => true

/-! ## What a write leaves accepted -/

theorem cut_mono {a b : Int} (h : a ≤ b) : cut a ≤ cut b := by
  unfold cut
  omega

theorem isInt_natCast (n : Nat) : isInt (n : Rat) = true ∧ (0 : Rat) ≤ n := by
  exact ⟨by simp [isInt], Rat.natCast_nonneg⟩

section Accepted

variable {m row : MemoryItem}

theorem Accepted.read (h : Accepted m) : Accepted (entityToItem m) where
  toShaped := ⟨h.id, h.scopeId, h.content, h.contentBytes, h.embeddingDim, h.supersededBy,
    h.ttlSeconds, h.sourceVersion, h.chunkIndex, h.chunkTotal, h.chunkOf, h.confidence, h.accessCount⟩
  memory hmode := by simpa [entityToItem] using h.memory hmode
  document hmode := by simpa [entityToItem] using h.document hmode
  order until' huntil from' hfrom := by
    obtain ⟨u, hu, rfl⟩ := Option.map_eq_some_iff.mp huntil
    obtain ⟨f, hf, rfl⟩ := Option.map_eq_some_iff.mp hfrom
    exact cut_mono (h.order u hu f hf)
  ended hby := by simpa [entityToItem] using h.ended hby
  embedding := h.embedding
  failed := h.failed
  chunk := h.chunk

theorem Accepted.deleted (h : Accepted (entityToItem row)) (at' : Option Int) (successor : Option String) :
    Accepted (entityToItem { row with deletedAt := at', deletedBy := successor }) where
  toShaped := ⟨h.id, h.scopeId, h.content, h.contentBytes, h.embeddingDim, h.supersededBy,
    h.ttlSeconds, h.sourceVersion, h.chunkIndex, h.chunkTotal, h.chunkOf, h.confidence, h.accessCount⟩
  memory := h.memory
  document := h.document
  order := h.order
  ended := h.ended
  embedding := h.embedding
  failed := h.failed
  chunk := h.chunk

theorem Accepted.released (h : Accepted (entityToItem row)) :
    Accepted (entityToItem { row with supersededBy := none }) where
  toShaped := ⟨h.id, h.scopeId, h.content, h.contentBytes, h.embeddingDim, nofun,
    h.ttlSeconds, h.sourceVersion, h.chunkIndex, h.chunkTotal, h.chunkOf, h.confidence, h.accessCount⟩
  memory := h.memory
  document hmode := by
    obtain ⟨huri, hversion, htier, huntil, -, httl⟩ := h.document hmode
    exact ⟨huri, hversion, htier, huntil, rfl, httl⟩
  order := h.order
  ended := nofun
  embedding := h.embedding
  failed := h.failed
  chunk := h.chunk

theorem Accepted.closed (h : Accepted (entityToItem row)) (now updated : Int) {successor : Option String}
    (hby : ∀ id ∈ successor, isUuid id = true)
    (htaken : constraints { row with validUntil := some now, supersededBy := successor, updatedAt := updated } =
      true) :
    Accepted (entityToItem
      { row with validUntil := some now, supersededBy := successor, updatedAt := updated }) := by
  have hmode : row.mode = .memory := by
    cases hmode : row.mode with
    | memory => rfl
    | document => simp [constraints, hmode] at htaken
  have horder : ∀ from' ∈ row.validFrom, from' ≤ now := by
    intro from' hfrom
    simp only [constraints, Bool.and_eq_true, Option.all_some] at htaken
    have hall := htaken.1.1.1.1.2
    rw [Option.mem_def.mp hfrom] at hall
    simpa using hall
  exact
    { id := h.id, scopeId := h.scopeId, content := h.content, contentBytes := h.contentBytes
      embeddingDim := h.embeddingDim, supersededBy := hby, ttlSeconds := h.ttlSeconds
      sourceVersion := h.sourceVersion, chunkIndex := h.chunkIndex, chunkTotal := h.chunkTotal
      chunkOf := h.chunkOf, confidence := h.confidence, accessCount := h.accessCount
      memory := h.memory
      document := fun hdocument => by
        have hrow : row.mode = .document := hdocument
        rw [hmode] at hrow
        cases hrow
      order := fun until' huntil from' hfrom => by
        obtain rfl : cut now = until' := Option.some.inj huntil
        obtain ⟨f, hf, rfl⟩ := Option.map_eq_some_iff.mp hfrom
        exact cut_mono (horder f hf)
      ended := fun _ => rfl
      embedding := h.embedding, failed := h.failed, chunk := h.chunk }

theorem Accepted.embedding_eq_none (h : Accepted (entityToItem row))
    (hwaits : awaitsEmbedding row = true) : row.embedding = none := by
  cases hembedding : row.embedding with
  | none => rfl
  | some v =>
    have hready : row.embeddingStatus = .ready := (h.embedding v hembedding).2
    simp [awaitsEmbedding, hready] at hwaits

theorem Accepted.failEmbedding (h : Accepted (entityToItem row)) (hwaits : awaitsEmbedding row = true)
    (message : String) (env : Env) :
    Accepted (entityToItem (Canonical.failEmbedding message env row)) where
  toShaped := ⟨h.id, h.scopeId, h.content, h.contentBytes, h.embeddingDim, h.supersededBy,
    h.ttlSeconds, h.sourceVersion, h.chunkIndex, h.chunkTotal, h.chunkOf, h.confidence, h.accessCount⟩
  memory := h.memory
  document := h.document
  order := h.order
  ended := h.ended
  embedding v hv := by
    rw [show (entityToItem (Canonical.failEmbedding message env row)).embedding = row.embedding from rfl,
      h.embedding_eq_none hwaits] at hv
    cases hv
  failed _ := rfl
  chunk := h.chunk

theorem length_padToDim (vector : List Rat) (target : Nat) : (padToDim vector target).length = target := by
  unfold padToDim
  split
  next heq => exact heq
  · split
    · rw [length_take]
      omega
    · rw [length_append, length_replicate]
      omega

theorem Accepted.storeEmbedding_iff (h : Accepted (entityToItem row)) (vector : List Rat)
    (model : String) (env : Env) :
    Accepted (entityToItem (storeEmbedding vector model env row)) ↔
      vector.length = EMBEDDING_DEFAULT_DIM := by
  constructor
  · intro hstored
    have hdim := (hstored.embedding _ rfl).1
    rw [length_padToDim] at hdim
    have hcast : (vector.length : Rat) = (EMBEDDING_DEFAULT_DIM : Nat) := Option.some.inj hdim
    exact_mod_cast hcast
  · intro hwide
    exact
      { id := h.id, scopeId := h.scopeId, content := h.content, contentBytes := h.contentBytes
        embeddingDim := fun dim hdim => by
          obtain rfl : (vector.length : Rat) = dim := Option.some.inj hdim
          rw [hwide]
          decide
        supersededBy := h.supersededBy, ttlSeconds := h.ttlSeconds
        sourceVersion := h.sourceVersion, chunkIndex := h.chunkIndex, chunkTotal := h.chunkTotal
        chunkOf := h.chunkOf, confidence := h.confidence, accessCount := h.accessCount
        memory := h.memory, document := h.document, order := h.order, ended := h.ended
        embedding := fun v hv => by
          obtain rfl : padToDim vector EMBEDDING_DEFAULT_DIM = v := Option.some.inj hv
          rw [length_padToDim]
          exact ⟨congrArg (fun n : Nat => some (n : Rat)) hwide, rfl⟩
        failed := nofun
        chunk := h.chunk }

end Accepted

section Built

variable {item : MemoryItem} {uuidv7 : Nat → String}

theorem units_ne_nil {text : String} (h : text ≠ "") : units text ≠ [] := by
  cases hchars : text.toList with
  | nil =>
    have hempty : text = "" := String.ext hchars
    exact (h hempty).elim
  | cons c cs =>
    rw [units, hchars, flatMap_cons]
    split <;> simp

theorem units_append (a b : String) : units (a ++ b) = units a ++ units b := by
  rw [units, String.toList_append, flatMap_append]
  rfl

theorem Accepted.parent (h : Accepted item) (hwhole : isWholeDocument item = true)
    (hplain : item.embedding = none) {total : Nat} (htotal : 0 < total) :
    Accepted { item with chunkTotal := some total, embeddingStatus := .skipped } := by
  simp only [isWholeDocument, Bool.and_eq_true, Option.isNone_iff_eq_none] at hwhole
  exact
    { id := h.id, scopeId := h.scopeId, content := h.content, contentBytes := h.contentBytes
      embeddingDim := h.embeddingDim, supersededBy := h.supersededBy, ttlSeconds := h.ttlSeconds
      sourceVersion := h.sourceVersion, chunkIndex := h.chunkIndex
      chunkTotal := fun n hn => by
        obtain rfl : (total : Rat) = n := Option.some.inj hn
        exact ⟨(isInt_natCast total).1, Rat.natCast_pos.mpr htotal⟩
      chunkOf := h.chunkOf, confidence := h.confidence, accessCount := h.accessCount
      memory := h.memory, document := h.document, order := h.order, ended := h.ended
      embedding := fun v hv => by
        rw [show ({ item with chunkTotal := some (total : Rat), embeddingStatus := .skipped } :
          MemoryItem).embedding = item.embedding from rfl, hplain] at hv
        cases hv
      failed := nofun
      chunk := fun index hindex => by
        rw [show ({ item with chunkTotal := some (total : Rat), embeddingStatus := .skipped } :
          MemoryItem).chunkIndex = item.chunkIndex from rfl, hwhole.1.2] at hindex
        cases hindex }

theorem Accepted.leaves (h : Accepted item) (hwhole : isWholeDocument item = true)
    (huuid : ∀ n, isUuid (uuidv7 n) = true) {now : Int} {draw : Nat} {leaves : List MemoryItem}
    (hleaves : chunkLeavesOf uuidv7 item now draw = some leaves) : ∀ leaf ∈ leaves, Accepted leaf := by
  simp only [isWholeDocument, Bool.and_eq_true, decide_eq_true_eq] at hwhole
  obtain ⟨texts, htexts, rfl⟩ := Option.map_eq_some_iff.mp hleaves
  intro leaf hleaf
  obtain ⟨idx, hidx, rfl⟩ := mem_mapIdx.mp hleaf
  exact
    { id := huuid _, scopeId := h.scopeId
      content := chunkText_ne_nil htexts _ (getElem_mem hidx)
      contentBytes := isInt_natCast _
      embeddingDim := nofun
      supersededBy := h.supersededBy, ttlSeconds := h.ttlSeconds, sourceVersion := h.sourceVersion
      chunkIndex := fun n hn => by
        obtain rfl : (idx : Rat) = n := Option.some.inj hn
        exact isInt_natCast idx
      chunkTotal := fun n hn => by
        obtain rfl : (texts.length : Rat) = n := Option.some.inj hn
        exact ⟨(isInt_natCast _).1, Rat.natCast_pos.mpr (by omega)⟩
      chunkOf := fun parent hparent => by
        obtain rfl : item.id = parent := Option.some.inj hparent
        exact h.id
      confidence := h.confidence
      accessCount := isInt_natCast 0
      memory := fun hmode => by
        rw [show item.mode = .memory from hmode] at hwhole
        cases hwhole.1.1.1
      document := h.document, order := h.order, ended := h.ended
      embedding := nofun, failed := nofun
      chunk := fun index hindex => by
        obtain rfl : (idx : Rat) = index := Option.some.inj hindex
        exact ⟨_, rfl, by exact_mod_cast hidx⟩ }

variable {sha256 : Text → String} {input : ImportInput} {version : Rat} {now : Int}

theorem accepted_buildParent {id : String} {total : Nat} (hid : isUuid id = true)
    (hversion : isInt version = true ∧ 0 ≤ version) (htotal : 0 < total) :
    Accepted (buildParent sha256 input id version total now) where
  id := hid
  scopeId := input.scope.named
  content := by
    show units ("# " ++ input.sourceUri ++ "\n\nDocument with " ++ toString total ++ " chunks (v" ++
      toString version.num ++ ").") ≠ []
    intro hnil
    simp only [units_append, append_eq_nil_iff] at hnil
    exact units_ne_nil (by decide) hnil.1.1.1.1.1.1
  contentBytes := isInt_natCast _
  embeddingDim := nofun
  supersededBy := nofun
  ttlSeconds := nofun
  sourceVersion n hn := by
    obtain rfl : version = n := Option.some.inj hn
    exact hversion
  chunkIndex := nofun
  chunkTotal n hn := by
    obtain rfl : (total : Rat) = n := Option.some.inj hn
    exact ⟨(isInt_natCast total).1, Rat.natCast_pos.mpr htotal⟩
  chunkOf := nofun
  confidence := by
    show (0 : Rat) ≤ 1 ∧ (1 : Rat) ≤ 1
    decide
  accessCount := isInt_natCast 0
  memory := nofun
  document _ := ⟨rfl, rfl, rfl, rfl, rfl, rfl⟩
  order := nofun
  ended := nofun
  embedding := nofun
  failed := nofun
  chunk := nofun

theorem accepted_buildChunk {id parentId : String} {text : Text} {idx total : Nat}
    (hid : isUuid id = true) (hparent : isUuid parentId = true) (htext : text ≠ [])
    (hversion : isInt version = true ∧ 0 ≤ version) (hidx : idx < total) :
    Accepted (buildChunk sha256 input id parentId text idx total version now) :=
  have h : Accepted (buildParent sha256 input id version total now) :=
    accepted_buildParent hid hversion (by omega)
  { id := h.id, scopeId := h.scopeId, content := htext, contentBytes := isInt_natCast _
    embeddingDim := nofun, supersededBy := nofun, ttlSeconds := nofun
    sourceVersion := h.sourceVersion
    chunkIndex := fun n hn => by
      obtain rfl : (idx : Rat) = n := Option.some.inj hn
      exact isInt_natCast idx
    chunkTotal := h.chunkTotal
    chunkOf := fun parent hof => by
      obtain rfl : parentId = parent := Option.some.inj hof
      exact hparent
    confidence := h.confidence, accessCount := h.accessCount, memory := nofun
    document := h.document, order := nofun, ended := nofun, embedding := nofun, failed := nofun
    chunk := fun index hindex => by
      obtain rfl : (idx : Rat) = index := Option.some.inj hindex
      exact ⟨_, rfl, by exact_mod_cast hidx⟩ }

end Built

/-! ## What a write leaves of the store -/

structure StoreInv (table : List MemoryItem) : Prop where
  keys : (table.map (·.id)).Nodup
  rows : ∀ row ∈ table, Accepted (entityToItem row)

theorem StoreInv.valid {table : List MemoryItem} (h : StoreInv table) : StoreValid table :=
  fun row hrow => validateMemoryItem_eq_nil.mpr (h.rows row hrow)

section Writes

variable {table table' : List MemoryItem}

theorem StoreInv.map (h : StoreInv table) {f : MemoryItem → MemoryItem}
    (hid : ∀ r ∈ table, (f r).id = r.id) (hf : ∀ r ∈ table, Accepted (entityToItem (f r))) :
    StoreInv (table.map f) := by
  refine ⟨?_, fun row hrow => ?_⟩
  · rw [map_map, map_congr_left (g := (·.id)) hid]
    exact h.keys
  · obtain ⟨r, hr, rfl⟩ := mem_map.mp hrow
    exact hf r hr

theorem StoreInv.save (h : StoreInv table) {row : MemoryItem} {written : Bool}
    (hrow : Accepted (entityToItem row)) (hsave : Canonical.save table row written = some table') :
    StoreInv table' := by
  unfold Canonical.save at hsave
  split at hsave
  · obtain rfl := Option.some.inj hsave
    split
    · refine h.map (fun r _ => ?_) fun r hr => ?_
      · split
        next heq => exact heq.symm
        · rfl
      · split
        · exact hrow
        · exact h.rows r hr
    next hnew =>
      refine ⟨?_, fun r hr => ?_⟩
      · rw [map_append, map_singleton, nodup_append]
        refine ⟨h.keys, nodup_singleton _, fun id hid other hother => ?_⟩
        obtain ⟨r, hr, rfl⟩ := mem_map.mp hid
        rw [mem_singleton.mp hother]
        intro heq
        exact hnew (any_eq_true.mpr ⟨r, hr, by simpa using heq⟩)
      · rcases mem_append.mp hr with hr | hr
        · exact h.rows r hr
        · exact mem_singleton.mp hr ▸ hrow
  · cases hsave

theorem StoreInv.insert (h : StoreInv table) {rows : List MemoryItem} {written : Bool}
    (hrows : ∀ row ∈ rows, Accepted (entityToItem row))
    (hinsert : Canonical.insert table rows written = some table') : StoreInv table' := by
  unfold Canonical.insert at hinsert
  split at hinsert
  next htaken =>
    obtain rfl := Option.some.inj hinsert
    simp only [Bool.and_eq_true, decide_eq_true_eq] at htaken
    refine ⟨htaken.2, fun r hr => ?_⟩
    rcases mem_append.mp hr with hr | hr
    · exact h.rows r hr
    · exact hrows r hr
  · cases hinsert

theorem StoreInv.close (h : StoreInv table) {ids : List String} {now : Int}
    {supersededBy : Option String → Option String}
    (hby : ∀ r ∈ table, ∀ id ∈ supersededBy r.supersededBy, isUuid id = true)
    (hclose : Canonical.close table ids now supersededBy = some table') : StoreInv table' := by
  simp only [Canonical.close] at hclose
  split at hclose
  next htaken =>
    obtain rfl := Option.some.inj hclose
    refine h.map (fun r _ => ?_) fun r hr => ?_
    · split <;> rfl
    · have hrow := all_eq_true.mp htaken _ (mem_map_of_mem hr)
      split
      next hin =>
        rw [if_pos hin, Bool.or_eq_true] at hrow
        exact (h.rows r hr).closed now now (hby r hr) (hrow.resolve_left (by simpa using hin))
      · exact h.rows r hr
  · cases hclose

theorem StoreInv.deleteRow (h : StoreInv table) (id : String) : StoreInv (Canonical.deleteRow table id) := by
  have hkept : StoreInv (table.filter fun r => !(cascade table table.length [id]).contains r.id) :=
    ⟨h.keys.sublist (filter_sublist.map _), fun r hr => h.rows r (mem_of_mem_filter hr)⟩
  refine hkept.map (fun r _ => ?_) fun r hr => ?_
  · split <;> rfl
  · split
    · exact (hkept.rows r hr).released
    · exact hkept.rows r hr

theorem StoreInv.eq_of_findRow (h : StoreInv table) {id : String} {row r : MemoryItem}
    (hfound : findRow table id = some row) (hr : r ∈ table) (hid : r.id = id) : r = row := by
  have hrowId : row.id = id := by simpa using List.find?_some hfound
  exact inj_on_of_nodup_map h.keys hr (List.mem_of_find?_eq_some hfound)
    (hid.trans hrowId.symm)

theorem StoreInv.update (h : StoreInv table) {id : String} {row : MemoryItem}
    {set : MemoryItem → MemoryItem} (hfound : findRow table id = some row)
    (hid : (set row).id = row.id) (hset : Accepted (entityToItem (set row))) :
    StoreInv (Canonical.update table id set) := by
  refine h.map (fun r hr => ?_) fun r hr => ?_
  · split
    next heq => rw [h.eq_of_findRow hfound hr heq, hid]
    · rfl
  · split
    next heq => rwa [h.eq_of_findRow hfound hr heq]
    · exact h.rows r hr

/-! ## What an operation leaves of the store -/

variable {uuidv7 : Nat → String} {sha256 : Text → String}

variable {env : Env}

theorem StoreInv.put (h : StoreInv table) (huuid : ∀ n, isUuid (uuidv7 n) = true) {input : PutInput}
    {id : String} (hput : Canonical.put uuidv7 table input env = some (table', id)) :
    StoreInv table' ∧ isUuid id = true := by
  simp only [Canonical.put] at hput
  split at hput
  · cases hput
  next hchecked =>
    simp only [Bool.or_eq_true, not_or, decide_eq_true_eq, not_not] at hchecked
    have hitem := validateMemoryItem_eq_nil.mp hchecked.1
    obtain ⟨chunks, hchunks, hput⟩ := Option.bind_eq_some_iff.mp hput
    obtain ⟨written, hwritten, hput⟩ := Option.bind_eq_some_iff.mp hput
    obtain ⟨rfl, rfl⟩ := Prod.mk.inj (Option.some.inj hput)
    refine ⟨?_, hitem.id⟩
    unfold writeItem at hwritten
    split at hwritten
    · exact h.save hitem.read hwritten
    next hsome =>
      obtain ⟨saved, hsaved, hinserted⟩ := Option.bind_eq_some_iff.mp hwritten
      unfold splitOff at hchunks
      split at hchunks
      next hwhole =>
        have hparent := hitem.parent hwhole rfl (length_pos_iff.mpr hsome)
        have hleaves := hitem.leaves hwhole huuid hchunks
        exact (h.save hparent.read hsaved).insert (fun leaf hleaf => (hleaves leaf hleaf).read) hinserted
      · exact (hsome (Option.some.inj hchunks).symm).elim

theorem StoreInv.putCanonical (h : StoreInv table) {item : MemoryItem}
    (hput : Canonical.putCanonical table item env = some table') : StoreInv table' := by
  unfold Canonical.putCanonical at hput
  split at hput
  · cases hput
  next hchecked => exact h.save (validateMemoryItem_eq_nil.mp (not_not.mp hchecked)).read hput

theorem StoreInv.replaceRow (h : StoreInv table) {old item : MemoryItem} (hitem : Accepted item)
    (hold : old ∈ table) (hdone : Canonical.replaceRow table old item env = some table') :
    StoreInv table' := by
  obtain ⟨saved, hsaved, hclosed⟩ := Option.bind_eq_some_iff.mp hdone
  have htaken : constraints { old with validUntil := some env.now, supersededBy := some item.id } =
      true := by
    unfold Canonical.save at hclosed
    split at hclosed
    next hboth => exact (Bool.and_eq_true_iff.mp hboth).1
    · cases hclosed
  refine (h.save hitem.read hsaved).save ((h.rows old hold).closed env.now old.updatedAt ?_ htaken)
    hclosed
  intro id hid
  obtain rfl : item.id = id := Option.some.inj hid
  exact hitem.id

theorem StoreInv.supersede (h : StoreInv table) {oldId : String} {visible : List String}
    {input : PutInput}
    (hdone : Canonical.supersede uuidv7 table oldId visible input env = some table') :
    StoreInv table' := by
  obtain ⟨old, hold, hdone⟩ := Option.bind_eq_some_iff.mp hdone
  dsimp only at hdone
  split at hdone
  · cases hdone
  · split at hdone
    · cases hdone
    next hchecked =>
      exact h.replaceRow (validateMemoryItem_eq_nil.mp (not_not.mp hchecked))
        (List.mem_of_find?_eq_some hold) hdone

theorem StoreInv.supersedeCanonical (h : StoreInv table) {oldId : String} {item : MemoryItem}
    (hdone : Canonical.supersedeCanonical table oldId item env = some table') :
    StoreInv table' := by
  unfold Canonical.supersedeCanonical at hdone
  split at hdone
  · cases hdone
  next hchecked =>
    obtain ⟨old, hold, hdone⟩ := Option.bind_eq_some_iff.mp hdone
    split at hdone
    · cases hdone
    · exact h.replaceRow (validateMemoryItem_eq_nil.mp (not_not.mp hchecked))
        (List.mem_of_find?_eq_some hold) hdone

theorem StoreInv.delete (h : StoreInv table) (id : String) (visible : List String)
    (actor : Option String) (env : Env) (chunksWritten : Bool) :
    StoreInv (Canonical.delete table id visible actor env chunksWritten) := by
  unfold Canonical.delete
  split
  · exact h
  next row hfound =>
    split
    · exact h
    next saved hsaved =>
      have hmarked := h.save ((h.rows row (List.mem_of_find?_eq_some hfound)).deleted _ _) hsaved
      split
      · refine hmarked.map (fun r _ => ?_) fun r hr => ?_
        · split <;> rfl
        · split
          · exact (hmarked.rows r hr).deleted _ _
          · exact hmarked.rows r hr
      · exact hmarked

/-- The worker keeps the store accepted exactly if the embedding is as wide as the column. -/
theorem StoreInv.fillEmbedding (h : StoreInv table) (id : String) (generated : Generated) (env : Env) :
    (storesWide table (.fillEmbedding id generated env) = true →
        StoreInv (Canonical.fillEmbedding table id generated env)) ∧
      (StoreValid (Canonical.fillEmbedding table id generated env) →
        storesWide table (.fillEmbedding id generated env) = true) := by
  have hwide : storesWide table (.fillEmbedding id generated env) =
      (findRow table id).all fun row => !(awaitsEmbedding row && env.passed) || generated.wide := rfl
  rw [hwide]
  unfold Canonical.fillEmbedding
  cases hfound : findRow table id with
  | none => exact ⟨fun _ => h, fun _ => rfl⟩
  | some row =>
    have hmem : row ∈ table := List.mem_of_find?_eq_some hfound
    have hrow := h.rows row hmem
    rw [Option.all_some]
    cases hgoes : awaitsEmbedding row && env.passed with
    | false =>
      simp only [hgoes, Bool.false_eq_true, if_false]
      exact ⟨fun _ => h, fun _ => rfl⟩
    | true =>
      have hwaits : awaitsEmbedding row = true := (Bool.and_eq_true_iff.mp hgoes).1
      have hfailed (message : String) : StoreInv
          (if env.written then Canonical.update table id (Canonical.failEmbedding message env)
            else table) := by
        split
        · exact h.update hfound rfl (hrow.failEmbedding hwaits message env)
        · exact h
      simp only [hgoes, if_true, Bool.not_true, Bool.false_or]
      cases generated with
      | null => exact ⟨fun _ => hfailed _, fun _ => rfl⟩
      | threw message => exact ⟨fun _ => hfailed message, fun _ => rfl⟩
      | result vector model threw =>
        cases threw with
        | some message => exact ⟨fun _ => hfailed message, fun _ => rfl⟩
        | none =>
          show (decide (vector.length = EMBEDDING_DEFAULT_DIM) = true →
              StoreInv (Canonical.update table id (storeEmbedding vector model env))) ∧
            (StoreValid (Canonical.update table id (storeEmbedding vector model env)) →
              decide (vector.length = EMBEDDING_DEFAULT_DIM) = true)
          rw [decide_eq_true_eq, ← hrow.storeEmbedding_iff vector model env]
          refine ⟨fun hrow' => h.update hfound rfl hrow', fun hstored => ?_⟩
          have hid : row.id = id := by simpa using List.find?_some hfound
          refine validateMemoryItem_eq_nil.mp (hstored _ (mem_map.mpr ⟨row, hmem, ?_⟩))
          rw [if_pos hid]

theorem findParent_mem {input : ImportInput} {parent : MemoryItem}
    (h : findParent table input = some parent) : parent ∈ table := by
  have hfold (rows : List MemoryItem) (best : Option MemoryItem)
      (hbest : ∀ b, best = some b → b ∈ table) (hrows : ∀ r ∈ rows, r ∈ table) :
      ∀ b, rows.foldl (fun best row => if best.all (newer row) then some row else best) best = some b →
        b ∈ table := by
    induction rows generalizing best with
    | nil => exact hbest
    | cons row rows ih =>
      refine ih _ (fun b hb => ?_) fun r hr => hrows r (mem_cons_of_mem _ hr)
      dsimp only at hb
      split at hb
      · obtain rfl := Option.some.inj hb
        exact hrows row mem_cons_self
      · exact hbest b hb
  unfold findParent at h
  exact hfold _ none (fun b hb => by cases hb) (fun r hr => mem_of_mem_filter hr) parent h

theorem isInt_add_one {n : Rat} (h : isInt n = true ∧ 0 ≤ n) : isInt (n + 1) = true ∧ 0 ≤ n + 1 := by
  obtain ⟨hint, hpos⟩ := h
  have hden : n.den = 1 := by simpa [isInt] using hint
  have hnum : (n.num : Rat) = n := Rat.ext (Rat.num_intCast _) ((Rat.den_intCast _).trans hden.symm)
  have hsum : n + 1 = ((n.num + 1 : Int) : Rat) := by
    rw [Rat.intCast_add, hnum]
    rfl
  refine ⟨?_, Rat.add_nonneg hpos (by decide)⟩
  rw [hsum, isInt, Rat.den_intCast]
  rfl

theorem StoreInv.importSource (h : StoreInv table) (huuid : ∀ n, isUuid (uuidv7 n) = true)
    {input : ImportInput}
    (hdone : Canonical.importSource uuidv7 sha256 table input env = some table') :
    StoreInv table' := by
  simp only [Canonical.importSource] at hdone
  split at hdone
  · cases hdone
  · obtain ⟨texts, htexts, hdone⟩ := Option.bind_eq_some_iff.mp hdone
    split at hdone
    · cases hdone
    next hsome =>
      have hversion : isInt (((findParent table input).bind (·.sourceVersion)).getD 0 + 1) = true ∧
          0 ≤ ((findParent table input).bind (·.sourceVersion)).getD 0 + 1 := by
        refine isInt_add_one ?_
        cases hparent : findParent table input with
        | none => exact isInt_natCast 0
        | some parent =>
          cases hnumber : parent.sourceVersion with
          | none =>
            rw [Option.bind_some, hnumber]
            exact isInt_natCast 0
          | some number =>
            rw [Option.bind_some, hnumber]
            exact (h.rows parent (findParent_mem hparent)).sourceVersion number hnumber
      have hcleared : StoreInv (match findParent table input with
          | some p => Canonical.deleteRow table p.id
          | none => table) := by
        split
        · exact h.deleteRow _
        · exact h
      obtain ⟨withParent, hparent, hchunks⟩ := Option.bind_eq_some_iff.mp hdone
      refine (hcleared.insert (fun row hrow => ?_) hparent).insert (fun row hrow => ?_) hchunks
      · rw [mem_singleton.mp hrow]
        exact (accepted_buildParent (huuid _) hversion (length_pos_iff.mpr hsome)).read
      · obtain ⟨idx, hidx, rfl⟩ := mem_mapIdx.mp hrow
        exact (accepted_buildChunk (huuid _) (huuid _)
          (chunkText_ne_nil htexts _ (getElem_mem hidx)) hversion hidx).read

theorem StoreInv.putFact {w : Writing} (h : StoreInv w.table) (hfirst : ∀ id ∈ w.first, isUuid id = true)
    (huuid : ∀ n, isUuid (uuidv7 n) = true) (scope : ScopeRef) (provenance : Provenance) (count : Nat)
    (fact : Fact × Env) :
    StoreInv (Canonical.putFact uuidv7 scope provenance count w fact).table ∧
      ∀ id ∈ (Canonical.putFact uuidv7 scope provenance count w fact).first, isUuid id = true := by
  unfold Canonical.putFact
  split
  · exact ⟨h, hfirst⟩
  · split
    · exact ⟨h, hfirst⟩
    next table id hput =>
      obtain ⟨hinv, hid⟩ := h.put huuid hput
      refine ⟨hinv, fun other hother => ?_⟩
      obtain rfl : w.first.getD id = other := Option.some.inj hother
      cases hsome : w.first with
      | none => exact hid
      | some first => exact hfirst first hsome

theorem StoreInv.putFacts {w : Writing} (h : StoreInv w.table) (hfirst : ∀ id ∈ w.first, isUuid id = true)
    (huuid : ∀ n, isUuid (uuidv7 n) = true) (scope : ScopeRef) (provenance : Provenance) (count : Nat)
    (facts : List (Fact × Env)) :
    StoreInv (facts.foldl (Canonical.putFact uuidv7 scope provenance count) w).table ∧
      ∀ id ∈ (facts.foldl (Canonical.putFact uuidv7 scope provenance count) w).first,
        isUuid id = true := by
  induction facts generalizing w with
  | nil => exact ⟨h, hfirst⟩
  | cons fact facts ih =>
    obtain ⟨hinv, hids⟩ := h.putFact hfirst huuid scope provenance count fact
    exact ih hinv hids

theorem StoreInv.consolidate (h : StoreInv table) (huuid : ∀ n, isUuid (uuidv7 n) = true)
    (scope : ScopeRef) (cutoff : Int) (model : String) (provider : Option String)
    (facts : List (Fact × Env)) (env : Env) :
    StoreInv (Canonical.consolidate uuidv7 table scope cutoff model provider facts env) := by
  have hstart : StoreInv ({ table := table } : Writing).table := h
  obtain ⟨hinv, hfirst⟩ := hstart.putFacts nofun huuid scope (consolidationProvenance model provider)
    (shortRows table scope cutoff).length facts
  unfold Canonical.consolidate
  dsimp only
  split
  next first hsome =>
    split
    · exact hinv
    · cases hclose : Canonical.close _ ((shortRows table scope cutoff).map (·.id)) env.now
          fun _ => some first with
      | none => exact hinv
      | some closed => exact hinv.close (fun r _ id hid => hfirst id (hsome.trans hid)) hclose
  · exact hinv

theorem StoreInv.sweep (h : StoreInv table) (now : Int) : StoreInv (Canonical.sweep table now) := by
  simp only [Canonical.sweep]
  cases hclose : Canonical.close table _ now fun successor => successor with
  | none => exact h
  | some closed => exact h.close (fun r hr id hid => (h.rows r hr).supersededBy id hid) hclose

end Writes

theorem StoreInv.step {table : List MemoryItem} {uuidv7 : Nat → String} {sha256 : Text → String}
    (h : StoreInv table) (huuid : ∀ n, isUuid (uuidv7 n) = true) {operation : Operation}
    (hwide : storesWide table operation = true) :
    StoreInv (Canonical.step uuidv7 sha256 table operation) := by
  -- an operation that is refused leaves the table
  have hgetD (written : Option (List MemoryItem))
      (hwritten : ∀ table', written = some table' → StoreInv table') : StoreInv (written.getD table) := by
    cases written with
    | none => exact h
    | some table' => exact hwritten table' rfl
  cases operation with
  | put input env =>
    unfold Canonical.step
    refine hgetD _ fun table' hput => ?_
    obtain ⟨written, hput, hfirst⟩ := Option.map_eq_some_iff.mp hput
    exact hfirst ▸ (h.put huuid hput).1
  | putCanonical item env =>
    exact hgetD (Canonical.putCanonical table item env) fun _ hput => h.putCanonical hput
  | supersede oldId visible input env =>
    exact hgetD (Canonical.supersede uuidv7 table oldId visible input env) fun _ hdone =>
      h.supersede hdone
  | supersedeCanonical oldId item env =>
    exact hgetD (Canonical.supersedeCanonical table oldId item env) fun _ hdone =>
      h.supersedeCanonical hdone
  | delete id visible actor env chunksWritten => exact h.delete id visible actor env chunksWritten
  | fillEmbedding id generated env => exact (h.fillEmbedding id generated env).1 hwide
  | importSource input env =>
    exact hgetD (Canonical.importSource uuidv7 sha256 table input env) fun _ hdone =>
      h.importSource huuid hdone
  | consolidate scope cutoff model provider facts env =>
    exact h.consolidate huuid scope cutoff model provider facts env
  | sweep now => exact h.sweep now

theorem stored_items_valid_iff (uuidv7 : Nat → String) (sha256 : Text → String)
    (huuid : ∀ n, isUuid (uuidv7 n) = true) {table : List MemoryItem} (h : StoreInv table)
    (operations : List Operation) :
    Steps.Along (step uuidv7 sha256)
        (fun table operation => StoreValid (step uuidv7 sha256 table operation)) table operations ↔
      Steps.Along (step uuidv7 sha256) (storesWide · · = true) table operations := by
  refine Steps.along_iff_of_invariant StoreInv (fun _ _ hinv hwide => hinv.step huuid hwide)
    (fun table operation hinv => ⟨fun hvalid => ?_, fun hwide => (hinv.step huuid hwide).valid⟩) h
  cases operation with
  | fillEmbedding id generated env => exact (hinv.fillEmbedding id generated env).2 hvalid
  | _ => rfl

section

private def someUuid (_ : Nat) : String := "0190a1b2-c3d4-7e5f-8a6b-7c8d9e0f1a2b"

private def noDigest (_ : Text) : String := ""

private def putAndEmbed (dim : Nat) : List Operation :=
  [.put { mode := .memory, scope := ⟨.workspace, "org"⟩, content := units "a"
          provenance := { createdBy := .user } } { now := 1700000000000000 },
    .fillEmbedding (someUuid 0) (.result (List.replicate dim 0) "mistral-embed" none)
      { now := 1700000001000000 }]

private theorem isUuid_someUuid (n : Nat) : isUuid (someUuid n) = true := by
  show isUuid "0190a1b2-c3d4-7e5f-8a6b-7c8d9e0f1a2b" = true
  decide +kernel

theorem stored_items_valid_wide :
    Steps.Along (step someUuid noDigest)
      (fun table operation => StoreValid (step someUuid noDigest table operation)) [] (putAndEmbed 1536) :=
  (stored_items_valid_iff someUuid noDigest isUuid_someUuid ⟨by simp, by simp⟩
    (putAndEmbed 1536)).mpr (by decide +kernel)

theorem padded_embedding_refused :
    ¬StoreValid (Steps.run (step someUuid noDigest) [] (putAndEmbed 1024)) := by
  unfold StoreValid
  decide +kernel

end

end Service

end Almyty.Memory.Canonical
