import Almyty.Memory.DocumentChunks
import Almyty.Memory.Listing

/-!
# The canonical memory item: `canonical.types.ts`, `canonical.validator.ts`

A `MemoryItem` as every store translates it, and the check all writes with a built item go through.
The check reports the fields that are wrong by themselves, and only if there are none the rules
across fields.

`validateMemoryItem_eq_nil` says what an item without an issue is (`Accepted`), in one statement.

Mirroring notes:
- What a type says is not checked again: enumerations, texts, dates, a number being finite.
- A number is a rational.
-/

namespace Almyty.Memory.Canonical

open Almyty.Lib Documents Option

inductive ContentFormat
  | text | markdown | json

inductive CreatedBy
  | user | agent | consolidation | transfer | sync | import'

inductive EmbeddingStatus
  | pending | ready | failed | skipped
  deriving DecidableEq

structure Provenance where
  agentId : Option String := none
  sessionId : Option String := none
  collabId : Option String := none
  model : Option String := none
  provider : Option String := none
  toolChain : List String := []
  createdBy : CreatedBy
  sourceBackend : Option String := none

structure MemoryItem where
  id : String
  mode : Mode
  scope : ScopeRef
  content : Text
  contentFormat : ContentFormat
  contentBytes : Rat
  embedding : Option (List Rat)
  embeddingDim : Option Rat
  embeddingModel : Option String
  embeddingStatus : EmbeddingStatus
  embeddingError : Option String
  tags : List String
  metadata : Fields
  fileRefs : List String
  tier : Option Tier
  validFrom : Option Int
  validUntil : Option Int
  supersededBy : Option String
  ttlSeconds : Option Rat
  sourceUri : Option String
  sourceVersion : Option Rat
  sourceChecksum : Option String
  chunkIndex : Option Rat
  chunkTotal : Option Rat
  chunkOf : Option String
  confidence : Rat
  provenance : Provenance
  createdAt : Int
  updatedAt : Int
  accessedAt : Option Int
  accessCount : Rat
  deletedAt : Option Int
  deletedBy : Option String

def EMBEDDING_DEFAULT_DIM : Nat := 1536

def EMBEDDING_MIN_DIM : Rat := 64

def EMBEDDING_MAX_DIM : Rat := 4096

/-! ## The check -/

structure ValidationIssue where
  path : String
  message : String

/-- `UUID_RE`, at one place of the text. -/
def fitsUuid (c : Char) (place : Nat) : Bool :=
  let c := c.toLower
  if place = 8 ∨ place = 13 ∨ place = 18 ∨ place = 23 then c = '-'
  else if place = 14 then '1'.toNat ≤ c.toNat ∧ c.toNat ≤ '7'.toNat
  else if place = 19 then ['8', '9', 'a', 'b'].contains c
  else c.isDigit || ('a'.toNat ≤ c.toNat ∧ c.toNat ≤ 'f'.toNat)

def isUuid (s : String) : Bool :=
  s.toList.length = 36 && s.toList.zipIdx.all fun (c, place) => fitsUuid c place

def isInt (n : Rat) : Bool := n.den = 1

def need (ok : Bool) (path message : String) : List ValidationIssue :=
  if ok then [] else [{ path := path, message := message }]

/-- A dimension in a message. -/
def dimText : Option Rat → String
  | some dim => toString dim.num
  | none => "null"

/-- What is wrong with the fields by themselves. -/
def shapeIssues (m : MemoryItem) : List ValidationIssue :=
  need (isUuid m.id) "id" "id must be a UUID" ++
  need (m.scope.scopeId ≠ "") "scope_id" "scope_id must be a non-empty string" ++
  need (m.content ≠ []) "content" "content must be a non-empty string" ++
  need (isInt m.contentBytes && 0 ≤ m.contentBytes) "content_bytes"
    "content_bytes must be a non-negative integer" ++
  (match m.embeddingDim with
    | none => []
    | some dim =>
      if !isInt dim || dim ≤ 0 then
        need false "embedding_dim" "embedding_dim must be a positive integer or null"
      else
        need (EMBEDDING_MIN_DIM ≤ dim && dim ≤ EMBEDDING_MAX_DIM) "embedding_dim"
          "embedding_dim must be in [64, 4096]") ++
  need (m.supersededBy.all isUuid) "superseded_by" "superseded_by must be a UUID or null" ++
  need (m.ttlSeconds.all fun n => isInt n && 0 < n) "ttl_seconds"
    "ttl_seconds must be a positive integer or null" ++
  need (m.sourceVersion.all fun n => isInt n && 0 ≤ n) "source_version"
    "source_version must be a non-negative integer or null" ++
  need (m.chunkIndex.all fun n => isInt n && 0 ≤ n) "chunk_index"
    "chunk_index must be a non-negative integer or null" ++
  need (m.chunkTotal.all fun n => isInt n && 0 < n) "chunk_total"
    "chunk_total must be a positive integer or null" ++
  need (m.chunkOf.all isUuid) "chunk_of" "chunk_of must be a UUID or null" ++
  need (0 ≤ m.confidence && m.confidence ≤ 1) "confidence" "confidence must be in [0,1]" ++
  need (isInt m.accessCount && 0 ≤ m.accessCount) "access_count"
    "access_count must be a non-negative integer"

def modeIssues (m : MemoryItem) : List ValidationIssue :=
  match m.mode with
  | .memory =>
    need m.tier.isSome "tier" "memory mode requires tier" ++
    need m.validFrom.isSome "valid_from" "memory mode requires valid_from" ++
    need m.sourceUri.isNone "source_uri" "memory mode forbids source_uri" ++
    need m.chunkIndex.isNone "chunk_index" "memory mode forbids chunk_index" ++
    need m.chunkOf.isNone "chunk_of" "memory mode forbids chunk_of"
  | .document =>
    need m.sourceUri.isSome "source_uri" "document mode requires source_uri" ++
    need m.sourceVersion.isSome "source_version" "document mode requires source_version" ++
    need m.tier.isNone "tier" "document mode forbids tier" ++
    need m.validUntil.isNone "valid_until" "document mode uses source_version, not bi-temporal" ++
    need m.supersededBy.isNone "superseded_by"
      "document mode uses source_version, not supersession" ++
    need m.ttlSeconds.isNone "ttl_seconds" "document mode forbids ttl_seconds"

/-- What is wrong across fields. -/
def crossIssues (m : MemoryItem) : List ValidationIssue :=
  modeIssues m ++
  need (m.validUntil.all fun until' => m.validFrom.all fun from' => from' ≤ until') "valid_until"
    "valid_until must be >= valid_from" ++
  need (m.supersededBy.isNone || m.validUntil.isSome) "superseded_by"
    "superseded_by requires valid_until" ++
  need (m.embedding.isNone || m.embeddingDim.isSome) "embedding_dim"
    "embedding requires embedding_dim" ++
  need (m.embedding.all fun v => m.embeddingDim = some (v.length : Rat)) "embedding"
    ("embedding length (" ++ toString ((m.embedding.getD []).length) ++
      ") must equal embedding_dim (" ++ dimText m.embeddingDim ++ ")") ++
  need (m.embedding.isNone || m.embeddingStatus = .ready) "embedding_status"
    "non-null embedding must have embedding_status=ready" ++
  need (m.embeddingStatus ≠ .failed || m.embeddingError.isSome) "embedding_error"
    "failed embedding must have embedding_error" ++
  (match m.chunkIndex, m.chunkTotal with
    | none, _ => []
    | some _, none => need false "chunk_total" "chunk_index requires chunk_total"
    | some index, some total =>
      need (index < total) "chunk_index" "chunk_index must be < chunk_total")

def validateMemoryItem (m : MemoryItem) : List ValidationIssue :=
  if shapeIssues m ≠ [] then shapeIssues m else crossIssues m

/-! ## What is accepted -/

/-- Each field by itself. -/
structure Shaped (m : MemoryItem) : Prop where
  id : isUuid m.id = true
  scopeId : m.scope.scopeId ≠ ""
  content : m.content ≠ []
  contentBytes : isInt m.contentBytes = true ∧ 0 ≤ m.contentBytes
  embeddingDim : ∀ dim ∈ m.embeddingDim,
    isInt dim = true ∧ EMBEDDING_MIN_DIM ≤ dim ∧ dim ≤ EMBEDDING_MAX_DIM
  supersededBy : ∀ successor ∈ m.supersededBy, isUuid successor = true
  ttlSeconds : ∀ n ∈ m.ttlSeconds, isInt n = true ∧ 0 < n
  sourceVersion : ∀ n ∈ m.sourceVersion, isInt n = true ∧ 0 ≤ n
  chunkIndex : ∀ n ∈ m.chunkIndex, isInt n = true ∧ 0 ≤ n
  chunkTotal : ∀ n ∈ m.chunkTotal, isInt n = true ∧ 0 < n
  chunkOf : ∀ parent ∈ m.chunkOf, isUuid parent = true
  confidence : 0 ≤ m.confidence ∧ m.confidence ≤ 1
  accessCount : isInt m.accessCount = true ∧ 0 ≤ m.accessCount

structure Accepted (m : MemoryItem) : Prop extends Shaped m where
  memory : m.mode = .memory → m.tier.isSome = true ∧ m.validFrom.isSome = true ∧
    m.sourceUri = none ∧ m.chunkIndex = none ∧ m.chunkOf = none
  document : m.mode = .document → m.sourceUri.isSome = true ∧ m.sourceVersion.isSome = true ∧
    m.tier = none ∧ m.validUntil = none ∧ m.supersededBy = none ∧ m.ttlSeconds = none
  order : ∀ until' ∈ m.validUntil, ∀ from' ∈ m.validFrom, from' ≤ until'
  ended : m.supersededBy.isSome = true → m.validUntil.isSome = true
  embedding : ∀ v ∈ m.embedding, m.embeddingDim = some (v.length : Rat) ∧ m.embeddingStatus = .ready
  failed : m.embeddingStatus = .failed → m.embeddingError.isSome = true
  chunk : ∀ index ∈ m.chunkIndex, ∃ total ∈ m.chunkTotal, index < total

@[simp] theorem need_eq_nil {ok : Bool} {path message : String} :
    need ok path message = [] ↔ ok = true := by
  cases ok <;> simp [need]

variable {m : MemoryItem}

theorem shapeIssues_eq_nil : shapeIssues m = [] ↔ Shaped m := by
  have hdim : (match m.embeddingDim with
      | none => []
      | some dim =>
        if !isInt dim || dim ≤ 0 then
          need false "embedding_dim" "embedding_dim must be a positive integer or null"
        else
          need (EMBEDDING_MIN_DIM ≤ dim && dim ≤ EMBEDDING_MAX_DIM) "embedding_dim"
            "embedding_dim must be in [64, 4096]") = [] ↔
      ∀ dim ∈ m.embeddingDim,
        isInt dim = true ∧ EMBEDDING_MIN_DIM ≤ dim ∧ dim ≤ EMBEDDING_MAX_DIM := by
    cases m.embeddingDim with
    | none => simp
    | some dim =>
      have hmin : EMBEDDING_MIN_DIM = 64 := rfl
      simp only [mem_def, some.injEq, forall_eq']
      split
      next hbad =>
        simp only [need_eq_nil, Bool.false_eq_true, false_iff]
        rintro ⟨hint, hlow, -⟩
        simp only [hint, Bool.not_true, Bool.false_or, decide_eq_true_eq] at hbad
        rw [hmin] at hlow
        exact absurd (Rat.le_trans hlow hbad) (by decide)
      next hgood =>
        simp only [Bool.or_eq_true, Bool.not_eq_true', not_or, Bool.not_eq_false] at hgood
        simp [hgood.1]
  simp only [shapeIssues, List.append_eq_nil_iff, hdim, need_eq_nil]
  simp only [Option.all_eq_true, Bool.and_eq_true, decide_eq_true_eq, mem_def]
  constructor
  · rintro ⟨⟨⟨⟨⟨⟨⟨⟨⟨⟨⟨⟨hid, hscope⟩, hcontent⟩, hbytes⟩, hdim⟩, hby⟩, httl⟩, hversion⟩, hindex⟩,
      htotal⟩, hof⟩, hconfidence⟩, hcount⟩
    exact ⟨hid, hscope, hcontent, hbytes, hdim, hby, httl, hversion, hindex, htotal, hof, hconfidence,
      hcount⟩
  · intro h
    exact ⟨⟨⟨⟨⟨⟨⟨⟨⟨⟨⟨⟨h.id, h.scopeId⟩, h.content⟩, h.contentBytes⟩, h.embeddingDim⟩, h.supersededBy⟩,
      h.ttlSeconds⟩, h.sourceVersion⟩, h.chunkIndex⟩, h.chunkTotal⟩, h.chunkOf⟩, h.confidence⟩,
      h.accessCount⟩

theorem modeIssues_eq_nil : modeIssues m = [] ↔
    (m.mode = .memory → m.tier.isSome = true ∧ m.validFrom.isSome = true ∧
      m.sourceUri = none ∧ m.chunkIndex = none ∧ m.chunkOf = none) ∧
    (m.mode = .document → m.sourceUri.isSome = true ∧ m.sourceVersion.isSome = true ∧
      m.tier = none ∧ m.validUntil = none ∧ m.supersededBy = none ∧ m.ttlSeconds = none) := by
  unfold modeIssues
  cases hmode : m.mode with
  | memory | document => simp

theorem crossIssues_eq_nil (h : Shaped m) : crossIssues m = [] ↔ Accepted m := by
  have hchunk : (match m.chunkIndex, m.chunkTotal with
      | none, _ => []
      | some _, none => need false "chunk_total" "chunk_index requires chunk_total"
      | some index, some total =>
        need (index < total) "chunk_index" "chunk_index must be < chunk_total") = [] ↔
      ∀ index ∈ m.chunkIndex, ∃ total ∈ m.chunkTotal, index < total := by
    cases m.chunkIndex with
    | none => simp
    | some index => cases m.chunkTotal <;> simp
  have hembedding : m.embedding.all (fun v => m.embeddingDim = some (v.length : Rat)) = true ∧
      (m.embedding.isNone || m.embeddingStatus = .ready) = true ↔
      ∀ v ∈ m.embedding, m.embeddingDim = some (v.length : Rat) ∧ m.embeddingStatus = .ready := by
    cases m.embedding <;> simp
  have hsized : m.embedding.all (fun v => m.embeddingDim = some (v.length : Rat)) = true →
      (m.embedding.isNone || m.embeddingDim.isSome) = true := by
    cases m.embedding with
    | none => simp
    | some v =>
      intro hlength
      simp only [all_some, decide_eq_true_eq] at hlength
      simp [hlength]
  have horder : m.validUntil.all (fun until' => m.validFrom.all fun from' => from' ≤ until') = true ↔
      ∀ until' ∈ m.validUntil, ∀ from' ∈ m.validFrom, from' ≤ until' := by
    cases m.validUntil <;> cases m.validFrom <;> simp
  have hended : (m.supersededBy.isNone || m.validUntil.isSome) = true ↔
      (m.supersededBy.isSome = true → m.validUntil.isSome = true) := by
    cases m.supersededBy <;> simp
  have hfailed : (m.embeddingStatus ≠ .failed || m.embeddingError.isSome) = true ↔
      (m.embeddingStatus = .failed → m.embeddingError.isSome = true) := by
    by_cases hstatus : m.embeddingStatus = .failed <;> simp [hstatus]
  simp only [crossIssues, List.append_eq_nil_iff, modeIssues_eq_nil, hchunk, need_eq_nil, horder,
    hended, hfailed]
  constructor
  · rintro ⟨⟨⟨⟨⟨⟨⟨⟨hmemory, hdocument⟩, hord⟩, hend⟩, -⟩, hlength⟩, hready⟩, hfail⟩, hch⟩
    exact { h with memory := hmemory, document := hdocument, order := hord, ended := hend,
                   embedding := hembedding.mp ⟨hlength, hready⟩, failed := hfail, chunk := hch }
  · intro ha
    obtain ⟨hlength, hready⟩ := hembedding.mpr ha.embedding
    exact ⟨⟨⟨⟨⟨⟨⟨⟨ha.memory, ha.document⟩, ha.order⟩, ha.ended⟩, hsized hlength⟩, hlength⟩, hready⟩,
      ha.failed⟩, ha.chunk⟩

theorem validateMemoryItem_eq_nil : validateMemoryItem m = [] ↔ Accepted m := by
  unfold validateMemoryItem
  split
  next hshape =>
    exact ⟨fun h => (hshape h).elim, fun h => (hshape (shapeIssues_eq_nil.mpr h.toShaped)).elim⟩
  next hshape => exact crossIssues_eq_nil (shapeIssues_eq_nil.mp (not_not.mp hshape))

end Almyty.Memory.Canonical
