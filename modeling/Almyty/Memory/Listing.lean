import Mathlib

/-!
# Listing memories: `canonical-memory.service.ts` and the outside adapters

almyty's own store keeps rows and lists them newest first, a page at a time. The cursor of a page is
the creation time of its last row, cut to milliseconds on the way out, and the next page is what was
created strictly before it. So what has the same millisecond as the last row of a page and is not on
it is on no page; `CleanCuts` says where no page ends so.

An outside service pages its own answers. The Mem0 adapter asks for one page, hands on the service's
`next`, and never sends it back; the Supermemory adapter hands on nothing.

Mirroring notes:
- Times are microseconds, as the database keeps them; `entityToItem` cuts them, as reading them into
  a `Date` does.
- Rows with one creation time come in any order, and in another order with another query: `RowOrder`
  is what the database may do.
-/

namespace Almyty.Memory

inductive Mode
  | memory | document
  deriving DecidableEq

inductive Tier
  | short | project | long | shared
  deriving DecidableEq

inductive ScopeType
  | user | workspace | project | collab | agent
  deriving DecidableEq

def ScopeType.text : ScopeType → String
  | .user => "user"
  | .workspace => "workspace"
  | .project => "project"
  | .collab => "collab"
  | .agent => "agent"

structure ScopeRef where
  scopeType : ScopeType
  scopeId : String
  deriving DecidableEq

structure MemoryItem where
  id : String
  mode : Mode
  scope : ScopeRef
  content : String
  tags : List String := []
  tier : Option Tier := none
  createdAt : Int
  updatedAt : Int
  validUntil : Option Int := none
  supersededBy : Option String := none
  ttlSeconds : Option Nat := none
  chunkOf : Option String := none
  deletedAt : Option Int := none
  nativeId : Option String := none
  deriving DecidableEq

def isHex (c : Char) : Bool := '0' ≤ c && c ≤ '9' || 'a' ≤ c && c ≤ 'f' || 'A' ≤ c && c ≤ 'F'

/-- What `UUID_RE` wants of each character. -/
def uuidShape : List (Char → Bool) :=
  List.replicate 8 isHex ++ dash ++ List.replicate 4 isHex ++
    dash ++ (fun c => '1' ≤ c && c ≤ '7') :: List.replicate 3 isHex ++
    dash ++ ("89abAB".toList.contains ·) :: List.replicate 3 isHex ++
    dash ++ List.replicate 12 isHex
where dash : List (Char → Bool) := [(· == '-')]

def isUuid (id : String) : Bool :=
  id.toList.length = uuidShape.length && (uuidShape.zip id.toList).all fun (ok, c) => ok c

structure ListQuery (κ : Type) where
  scope : ScopeRef
  mode : Option Mode := none
  tier : Option Tier := none
  tags : List String := []
  since : Option Int := none
  until' : Option Int := none
  includeSuperseded : Bool := false
  includeDeleted : Bool := false
  hideChunks : Bool := false
  limit : Option Nat := none
  cursor : Option κ := none

structure Page (κ : Type) where
  items : List MemoryItem
  total : Nat
  cursor : Option κ

/-! ## almyty's own store -/

/-- A time as a `Date` holds it: whole milliseconds. -/
def cutMs (t : Int) : Int := t / 1000 * 1000

theorem cutMs_le (t : Int) : cutMs t ≤ t := by
  unfold cutMs
  omega

def entityToItem (row : MemoryItem) : MemoryItem :=
  { row with
    createdAt := cutMs row.createdAt, updatedAt := cutMs row.updatedAt,
    validUntil := row.validUntil.map cutMs, deletedAt := row.deletedAt.map cutMs }

/-- `ORDER BY created_at DESC`: newest first, anything else left open. -/
structure RowOrder where
  order : List MemoryItem → List MemoryItem
  perm : ∀ rows, (order rows).Perm rows
  sorted : ∀ rows, (order rows).Pairwise fun a b => b.createdAt ≤ a.createdAt

structure Store where
  rows : List MemoryItem
  nodup : (rows.map (·.id)).Nodup

def matchesQuery {κ : Type} (query : ListQuery κ) (row : MemoryItem) : Bool :=
  row.scope = query.scope && query.mode.all (row.mode = ·) &&
    query.tier.all (row.tier = some ·) &&
    (query.tags.isEmpty || query.tags.any (row.tags.contains ·)) &&
    query.since.all (· ≤ row.createdAt) && query.until'.all (row.createdAt ≤ ·) &&
    (query.includeSuperseded || row.validUntil.isNone) &&
    (query.includeDeleted || row.deletedAt.isNone) &&
    (!query.hideChunks || row.chunkOf.isNone)

def pageLimit {κ : Type} (query : ListQuery κ) : Nat := min (query.limit.getD 50) 200

def nativeList (db : RowOrder) (rows : List MemoryItem) (query : ListQuery Int) : Page Int :=
  let limit := pageLimit query
  let found := (db.order (rows.filter fun row =>
    matchesQuery query row && query.cursor.all (row.createdAt < ·))).take (limit + 1)
  let shown := if limit < found.length then found.take limit else found
  { items := shown.map entityToItem
    total := shown.length
    cursor := if limit < found.length then shown.getLast?.map fun row => cutMs row.createdAt
      else none }

/-! ## Outside services -/

structure PagingService where
  kept : String → List MemoryItem
  /-- Every memory has an id of the service's own. -/
  named : ∀ name, ∀ memory ∈ kept name, memory.nativeId.isSome
  nodup : ∀ name, ((kept name).map (·.nativeId)).Nodup
  /-- How many it answers with when asked for so many. -/
  pageLength : Nat → Nat
  pageLength_le : ∀ n, pageLength n ≤ n
  pageLength_pos : ∀ n, 0 < n → 0 < pageLength n
  /-- Where it says the next page is. -/
  next : String → Nat → String

/-- `Mem0Backend.toCanonical` keeps memories only. -/
def mem0Item (memory : MemoryItem) : MemoryItem := { memory with mode := .memory }

def scopeToUserId (scope : ScopeRef) : String := scope.scopeType.text ++ ":" ++ scope.scopeId

def mem0List (service : PagingService) (query : ListQuery String) : Page String :=
  let name := scopeToUserId query.scope
  let size := query.limit.getD 50
  { items := ((service.kept name).take (service.pageLength size)).map mem0Item
    total := (service.kept name).length
    cursor := if service.pageLength size < (service.kept name).length then
        some (service.next name size) else none }

def scopeToTag (scope : ScopeRef) : String := scope.scopeType.text ++ "_" ++ scope.scopeId

def supermemoryList (service : PagingService) (query : ListQuery String) : Page String :=
  let tag := scopeToTag query.scope
  { items := (service.kept tag).take (service.pageLength (query.limit.getD 50))
    total := (service.kept tag).length
    cursor := none }

end Almyty.Memory
