import Almyty.Lib.Assoc
import Almyty.Memory.Sync

/-!
# Moving memories to another account: `memory-move.service.ts`

A run lists the source and handles one memory after another: it is put on the target, its step row
is saved as `copied`, its due date is saved, it is deleted from the source, its due date there is
dropped and the row is saved as `moved`. Each of these is a call that may fail, and the process may
go away before any of them; the next run decides from the row alone.

A world is what the services and the database hold, the runs that are going and the jobs that wait.
An event is a call that answers, a process that goes away, a job that starts or somebody who resumes
the move; so an interleaving of runs is one list of events.

Mirroring notes:
- A call that fails has done nothing, one that answers has done all: a process that goes away before
  the answer is `crash` before or after it.
- `origin` is no column: it says which memory of the source a copy on the target was made from.
-/

namespace Almyty.Memory.Move

open Almyty.Lib

/-- `NATIVE`: the service that is almyty's own store. -/
def nativeService : String := "almyty-native"

structure Account (κ : Type) where
  service : String
  list : List MemoryItem → Option κ → Page κ
  read : MemoryItem → MemoryItem
  read_id : ∀ memory, (read memory).id = memory.id
  read_nativeId : ∀ memory, (read memory).nativeId = memory.nativeId
  list_read : ∀ kept cursor, ∀ item ∈ (list kept cursor).items, ∃ memory ∈ kept, item = read memory
  /-- What the move's scope and mode take in. -/
  covers : MemoryItem → Prop
  /-- The first page shows something unless there is nothing. -/
  list_first : ∀ kept, (∀ memory ∈ kept, covers memory) → (list kept none).items = [] → kept = []

structure Plan (κ : Type) where
  source : Account κ
  /-- The service of the account memories are moved to. -/
  target : String
  scope : ScopeRef
  mode : Mode
  /-- `validateMemoryItem`. -/
  valid : MemoryItem → Bool

/-- The ids `copyFor` keeps: five groups of hex digits. -/
def isUuid (id : String) : Bool :=
  id.toList.length = shape.length && (shape.zip id.toList).all fun (hex, c) => if hex then isHex c else c = '-'
where shape : List Bool :=
  [8, 4, 4, 4].flatMap (fun n => List.replicate n true ++ [false]) ++ List.replicate 12 true

/-! ## What is stored -/

structure Expiry where
  backendId : String
  nativeId : String
  expiresAt : Option Int

inductive ItemState
  | copied | moved | failed
  deriving DecidableEq

structure MoveItem where
  targetId : Option String
  state : ItemState
  error : Option String
  deriving DecidableEq

inductive Status
  | queued | running | completed | failed
  deriving DecidableEq

structure MoveRow where
  status : Status
  failed : Nat
  deriving DecidableEq

structure Kept where
  item : MemoryItem
  origin : Option String

structure Shared where
  source : List MemoryItem
  target : List Kept
  expiries : List Expiry
  items : List (String × MoveItem)
  move : MoveRow

section Plan

variable {κ : Type} (p : Plan κ)

def sourceIdOf (item : MemoryItem) : Option String :=
  if p.source.service = nativeService then some item.id else item.nativeId

def keyOf (item : MemoryItem) : String := (sourceIdOf p item).getD ("item:" ++ item.id)

def sourceExpiry (expiries : List Expiry) (sourceId : String) (item : MemoryItem) : Option Int :=
  if p.source.service = nativeService then
    (item.ttlSeconds.filter (· ≠ 0)).map fun ttl : Nat => item.createdAt + (ttl : Int) * 1000000
  else (expiries.find? fun row =>
    row.backendId = p.source.service && row.nativeId = sourceId).bind (·.expiresAt)

def ttlOf (createdAt expiresAt : Int) : Nat := max 1 ((expiresAt - createdAt + 999999) / 1000000).toNat

structure Made where
  fresh : String
  now : Int
  nativeId : Option String

def copyFor (item : MemoryItem) (expiresAt : Option Int) (made : Made) : MemoryItem :=
  { buildItem
      { item with
        id := if isUuid item.id then item.id else made.fresh
        mode := p.mode, scope := p.scope
        ttlSeconds := if p.target = nativeService then expiresAt.map (ttlOf item.createdAt) else none }
      made.now with
    createdAt := item.createdAt }

def putOn (target : List Kept) (copy : MemoryItem) (made : Made) (sourceId : String) : List Kept :=
  if p.target = nativeService then
    target.filter (·.item.id ≠ copy.id) ++ [⟨copy, some sourceId⟩]
  else target ++ [⟨{ copy with nativeId := made.nativeId }, some sourceId⟩]

def withChunks (source : List MemoryItem) (ids : List String) : List String :=
  ids ++ (source.filter fun memory => memory.chunkOf.any (· ∈ ids)).map (·.id)

/-- What goes when a row of almyty's own store is hard deleted: its chunks, and theirs. -/
def cascades (source : List MemoryItem) (sourceId : String) (memory : MemoryItem) : Bool :=
  p.source.service = nativeService &&
    memory.chunkOf.any (· ∈ (withChunks source)^[source.length] [sourceId])

def deleteFrom (source : List MemoryItem) (sourceId : String) : List MemoryItem :=
  source.filter fun memory =>
    sourceIdOf p memory ≠ some sourceId && !(cascades p source sourceId memory)

/-- What `tally` counts as failed. -/
def marked (row : MoveItem) : Bool :=
  row.state = .failed || row.state = .copied && row.error.isSome

def tally (items : List (String × MoveItem)) : Nat := items.countP fun entry => marked entry.2

/-! ## A run -/

inductive Point
  | expiry
  | put (due : Option Int)
  | saveCopied (due : Option Int) (targetId : Option String)
  | saveExpiry (due : Option Int) (targetId : String)
  | delete
  | deleteExpiries
  | saveMoved
  | saveError
  | saveUnmovable
  deriving DecidableEq

structure Work where
  item : MemoryItem
  row : MoveItem
  stored : Bool
  deriving DecidableEq

inductive Phase
  | listing
  | finding (fresh : List MemoryItem)
  | working (work : Work) (point : Point) (rest : List (MemoryItem × Option MoveItem))
  | tallying (last : Bool)
  | finishing
  | failing
  | savingFailed
  deriving DecidableEq

structure Run (κ : Type) where
  move : MoveRow
  handled : List String
  cursors : List κ
  cursor : Option κ
  phase : Phase

def nextWork : List (MemoryItem × Option MoveItem) → Phase
  | [] => .tallying false
  | (item, some row) :: rest =>
    if row.state = .moved ∨ sourceIdOf p item = none then nextWork rest
    else .working ⟨item, row, true⟩ (if row.state = .copied then .delete else .expiry) rest
  | (item, none) :: rest =>
    if sourceIdOf p item = none then
      .working ⟨item, ⟨none, .failed, some "unmovable:no id to delete it by"⟩, false⟩
        .saveUnmovable rest
    else .working ⟨item, ⟨none, .failed, none⟩, false⟩ .expiry rest

def caught (work : Work) (message : String) (rest : List (MemoryItem × Option MoveItem)) : Phase :=
  let error := (if work.row.state = .copied then "source:" else "target:") ++ message
  .working { work with row := { work.row with error := some (String.ofList (error.toList.take 1000)) } }
    .saveError rest

def saveRow (items : List (String × MoveItem)) (work : Work) : Option (List (String × MoveItem)) :=
  let key := keyOf p work.item
  if work.stored = false ∧ (items.lookup key).isSome then none
  else some (Assoc.put items key work.row)

/-- The answer to a call that is not to fail. -/
def moveOne (s : Shared) (work : Work) (rest : List (MemoryItem × Option MoveItem)) (made : Made) :
    Point → Shared × Phase
  | .expiry =>
    (s, .working work (.put (sourceExpiry p s.expiries (keyOf p work.item) work.item)) rest)
  | .put due =>
    let copy := copyFor p work.item due made
    if p.valid copy then
      let targetId := if p.target = nativeService then some copy.id else made.nativeId
      ({ s with target := putOn p s.target copy made (keyOf p work.item) },
        .working { work with row := ⟨some (targetId.getD copy.id), .copied, none⟩ }
          (.saveCopied due targetId) rest)
    else (s, caught work "validation" rest)
  | .saveCopied due targetId =>
    match saveRow p s.items work with
    | none => (s, caught work "duplicate key" rest)
    | some items =>
      ({ s with items }, .working { work with stored := true }
        (match targetId with
        | none => .delete
        | some id => if p.target = nativeService then .delete else .saveExpiry due id) rest)
  | .saveExpiry due targetId =>
    ({ s with expiries := s.expiries ++ [⟨p.target, targetId, due⟩] }, .working work .delete rest)
  | .delete =>
    ({ s with source := deleteFrom p s.source (keyOf p work.item) },
      .working work .deleteExpiries rest)
  | .deleteExpiries =>
    ({ s with expiries := s.expiries.filter fun row =>
        !(row.backendId = p.source.service && row.nativeId = keyOf p work.item) },
      .working { work with row := { work.row with state := .moved, error := none } } .saveMoved rest)
  | .saveMoved =>
    match saveRow p s.items work with
    | none => (s, caught work "duplicate key" rest)
    | some items => ({ s with items }, nextWork p rest)
  | .saveError | .saveUnmovable =>
    match saveRow p s.items work with
    | none => (s, .failing)
    | some items => ({ s with items }, nextWork p rest)

def listed [DecidableEq κ] (s : Shared) (run : Run κ) : Run κ :=
  let page := p.source.list s.source run.cursor
  let fresh := freshOf (keyOf p) run.handled page.items
  if fresh = [] then
    match page.cursor with
    | none => { run with phase := .tallying true }
    | some next =>
      if next ∈ run.cursors then { run with phase := .tallying true }
      else { run with cursors := next :: run.cursors, cursor := some next, phase := .listing }
  else { run with handled := fresh.map (keyOf p) ++ run.handled, phase := .finding fresh }

inductive Reply
  | ok (made : Made)
  | fail (message : String)

def advance [DecidableEq κ] (s : Shared) (run : Run κ) (reply : Reply) : Shared × Option (Run κ) :=
  let failed := { run.move with status := .failed }
  match reply, run.phase with
  | .ok _, .listing => (s, some (listed p s run))
  | .ok _, .finding fresh =>
    (s, some { run with
      phase := nextWork p (fresh.map fun item => (item, s.items.lookup (keyOf p item))) })
  | .ok made, .working work point rest =>
    let (s, phase) := moveOne p s work rest made point
    (s, some { run with phase })
  | .ok _, .tallying last =>
    let move := { run.move with failed := tally s.items }
    ({ s with move }, some { run with move, phase := if last then .finishing else .listing })
  | .ok _, .finishing => ({ s with move := { run.move with status := .completed } }, none)
  | .ok _, .failing =>
    let move := { failed with failed := tally s.items }
    ({ s with move }, some { run with move, phase := .savingFailed })
  | .ok _, .savingFailed => ({ s with move := failed }, none)
  | .fail message, .working work point rest =>
    match point with
    | .saveError | .saveUnmovable => (s, some { run with phase := .failing })
    | _ => (s, some { run with phase := caught work message rest })
  | .fail _, .failing => (s, some { run with phase := .savingFailed })
  | .fail _, .savingFailed => (s, none)
  | .fail _, _ => (s, some { run with phase := .failing })

end Plan

/-! ## The move -/

structure World (κ : Type) where
  shared : Shared
  runs : Nat → Option (Run κ)
  jobs : Nat

inductive Event
  /-- Somebody resumes the move; `stale` is whether it has been quiet for long. -/
  | resume (stale : Bool)
  /-- A job starts: `run` reads the row and saves it as running. -/
  | begin (r : Nat) (saved : Bool)
  | answer (r : Nat) (reply : Reply)
  | crash (r : Nat)

variable {κ : Type} [DecidableEq κ]

def step (p : Plan κ) (w : World κ) : Event → World κ
  | .resume stale =>
    let move := w.shared.move
    if move.status = .failed ∨ move.status = .completed ∧ 0 < move.failed ∨
        move.status = .running ∧ stale = true then
      { w with shared := { w.shared with move := { move with status := .queued } }, jobs := w.jobs + 1 }
    else w
  | .begin r saved =>
    if w.jobs = 0 ∨ (w.runs r).isSome then w
    else if w.shared.move.status = .completed ∨ saved = false then { w with jobs := w.jobs - 1 }
    else
      let move := { w.shared.move with status := .running }
      { shared := { w.shared with move }, jobs := w.jobs - 1
        runs := Function.update w.runs r (some ⟨move, [], [], none, .listing⟩) }
  | .answer r reply =>
    match w.runs r with
    | none => w
    | some run =>
      let (shared, run) := advance p w.shared run reply
      { w with shared, runs := Function.update w.runs r run }
  | .crash r => { w with runs := Function.update w.runs r none }

def started (source target : List MemoryItem) (expiries : List Expiry) : World κ where
  shared :=
    { source, expiries, items := [], move := ⟨.queued, 0⟩
      target := target.map fun item => ⟨item, none⟩ }
  runs _ := none
  jobs := 1

end Almyty.Memory.Move
