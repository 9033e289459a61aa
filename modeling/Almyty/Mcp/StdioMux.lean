import Almyty.Lib.Json

/-!
# One stdio server for many clients: `McpStdioMux`

Every session has its own numbering of requests, and the one downstream server sees them all. So the
multiplexer gives each request an id of its own (`nextProxyId`), remembers whose it was under which
id (`idMap`), and puts the client's id back when the answer comes. A request ends in one of four
ways: the downstream answers it, its frame cannot be written, the downstream is lost, or it is too
old for `sweep`.

Mirroring notes:
- A line of text is its parsed value, `none` when `JSON.parse` throws.
- `Number` of a run of digits is its value: one that is not exact is above every proxy id.
- `writeChain` is the frames that wait, of which the first is being written when `writing` says so.
- The ids of sessions are distinct: `addSession` under one that was there is not a step.
-/

namespace Almyty.Mcp

open Almyty.Lib

abbrev SessionId := String

abbrev DownstreamId := Nat

structure IdMapping where
  sessionId : SessionId
  originalId : Json
  sentAt : Int

structure Write where
  frame : Json
  handler : Option (Int × SessionId)
  deriving DecidableEq

structure Mux where
  ttlMs : Int := 300000
  idMap : List (Int × IdMapping) := []
  proxyIdSeq : Int := 0
  sessions : List SessionId := []
  downstream : Option DownstreamId := none
  writeChain : List Write := []
  writing : Option DownstreamId := none
  rejected : List Write := []

structure Request where
  proxyId : Option Int
  sessionId : SessionId
  id : Json
  deriving DecidableEq

structure Sent where
  sessionId : SessionId
  frame : Json
  answers : Option Int

structure World extends Mux where
  joined : List SessionId := []
  requests : List Request := []
  written : List (DownstreamId × Json) := []
  heard : List Json := []
  sent : List Sent := []

def maxSafeInteger : Int := 9007199254740991

/-! ## Frames -/

def requestId : Json → Option Json
  | .obj fields => (fields.lookup "id").filter (· ≠ .null)
  | _ => none

def isString : Option Json → Bool
  | some (.str _) => true
  | _ => false

def digitsValue (digits : List Char) : Int :=
  digits.foldl (fun n c => 10 * n + (c.toNat - '0'.toNat : Nat)) 0

def normalizeId : Json → Option Int
  | .num n => if n.den = 1 ∧ n.num.natAbs ≤ maxSafeInteger then some n.num else none
  | .str s =>
    if s.toList ≠ [] ∧ s.toList.all Char.isDigit then some (digitsValue s.toList) else none
  | _ => none

def lineId (line : Fields) : Option Int := (line.lookup "id").bind normalizeId

def withId (frame : Fields) (id : Json) : Json := .obj (Assoc.put frame "id" id)

def errorFrame (id : Json) (code : Int) (message : String) : Json :=
  .obj [("jsonrpc", .str "2.0"), ("id", id),
    ("error", .obj [("code", .num code), ("message", .str message)])]

/-! ## The multiplexer -/

namespace World

def send (w : World) (sessionId : SessionId) (frame : Json) (answers : Option Int) : World :=
  if sessionId ∈ w.sessions then { w with sent := w.sent ++ [⟨sessionId, frame, answers⟩] } else w

def errorSession (w : World) (sessionId : SessionId) (id : Json) (code : Int) (message : String)
    (answers : Option Int) : World :=
  w.send sessionId (errorFrame id code message) answers

def free (w : World) (proxyId : Int) : World :=
  { w with idMap := Assoc.erase w.idMap proxyId }

def setDownstream (w : World) (downstream : DownstreamId) : World :=
  { w with downstream := some downstream }

def onDownstreamGone (w : World) (reason : String) : World :=
  let affected := (w.idMap.map (·.2.sessionId)).eraseDups
  affected.foldl
    (fun w sessionId =>
      w.errorSession sessionId .null (-32011) ("downstream unavailable: " ++ reason) none)
    { w with downstream := none, idMap := [] }

def addSession (w : World) (sessionId : SessionId) : World :=
  if sessionId ∈ w.joined then w
  else { w with sessions := w.sessions ++ [sessionId], joined := w.joined ++ [sessionId] }

def teardownSession (w : World) (sessionId : SessionId) : World :=
  { w with
    idMap := w.idMap.filter (·.2.sessionId ≠ sessionId)
    sessions := w.sessions.filter (· ≠ sessionId) }

def enqueueFrame (w : World) (write : Write) : World :=
  { w with writeChain := w.writeChain ++ [write] }

def onRequest (w : World) (sessionId : SessionId) (frame : Fields) (id : Json) (now : Int) :
    World :=
  if maxSafeInteger ≤ w.proxyIdSeq then
    -- `nextProxyId` throws
    { w with requests := w.requests ++ [⟨none, sessionId, id⟩] }
  else
    let proxyId := w.proxyIdSeq + 1
    let w : World := { w with
      proxyIdSeq := proxyId
      idMap := Assoc.put w.idMap proxyId ⟨sessionId, id, now⟩
      requests := w.requests ++ [⟨some proxyId, sessionId, id⟩] }
    w.enqueueFrame ⟨withId frame (.num proxyId), some (proxyId, sessionId)⟩

def onClientFrame (w : World) (sessionId : SessionId) (raw : Option Json) (now : Int) : World :=
  match raw with
  | none => w.errorSession sessionId .null (-32700) "invalid JSON frame" none
  | some .null => w
  | some (.obj frame) =>
    match requestId (.obj frame) with
    | none => w.enqueueFrame ⟨.obj frame, none⟩
    | some id => w.onRequest sessionId frame id now
  | some frame => w.enqueueFrame ⟨frame, none⟩

/-- The run of the first frame of the chain starts: it reads the downstream there is by now. -/
def startWrite (w : World) : World :=
  match w.writing, w.writeChain with
  | none, write :: rest =>
    match w.downstream with
    | none => { w with writeChain := rest, rejected := w.rejected ++ [write] }
    | some downstream => { w with writing := some downstream }
  | _, _ => w

def endWrite (w : World) (ok : Bool) : World :=
  match w.writing, w.writeChain with
  | some downstream, write :: rest =>
    let w := { w with writeChain := rest, writing := none }
    if ok then { w with written := w.written ++ [(downstream, write.frame)] }
    else { w with rejected := w.rejected ++ [write] }
  | _, _ => w

def catchWrite (w : World) : World :=
  match w.rejected with
  | [] => w
  | write :: rest =>
    let w := { w with rejected := rest }
    match write.handler with
    | none => w
    | some (proxyId, sessionId) =>
      if (w.idMap.lookup proxyId).isSome then
        -- `frame.id` is the proxy id by now
        (w.free proxyId).errorSession sessionId (.num proxyId) (-32011) "downstream write failed"
          (some proxyId)
      else w

def onDownstreamLine (w : World) (raw : Option Json) : World :=
  match raw with
  | none => w
  | some (.obj line) =>
    let w := { w with heard := w.heard ++ [.obj line] }
    if isString (line.lookup "method") then
      w.sessions.foldl (fun w sessionId => w.send sessionId (.obj line) none) w
    else
      match lineId line with
      | none => w
      | some proxyId =>
        match w.idMap.lookup proxyId with
        | none => w
        | some mapping =>
          (w.free proxyId).send mapping.sessionId (withId line mapping.originalId)
            (some proxyId)
  | some line => { w with heard := w.heard ++ [line] }

def sweepEntry (cutoff : Int) (w : World) (entry : Int × IdMapping) : World :=
  if entry.2.sentAt ≤ cutoff then
    (w.free entry.1).errorSession entry.2.sessionId entry.2.originalId (-32010)
      "downstream did not respond in time" (some entry.1)
  else w

def sweep (w : World) (now : Int) : World := w.idMap.foldl (sweepEntry (now - w.ttlMs)) w

end World

inductive Action
  | setDownstream (downstream : DownstreamId)
  | downstreamGone (reason : String)
  | addSession (sessionId : SessionId)
  | sessionClose (sessionId : SessionId)
  | clientFrame (sessionId : SessionId) (raw : Option Json) (now : Int)
  | startWrite
  | endWrite (ok : Bool)
  | catchWrite
  | downstreamLine (raw : Option Json)
  | sweep (now : Int)
  deriving DecidableEq

def step (w : World) : Action → World
  | .setDownstream downstream => w.setDownstream downstream
  | .downstreamGone reason => w.onDownstreamGone reason
  | .addSession sessionId => w.addSession sessionId
  | .sessionClose sessionId => w.teardownSession sessionId
  | .clientFrame sessionId raw now =>
    if sessionId ∈ w.joined then w.onClientFrame sessionId raw now else w
  | .startWrite => w.startWrite
  | .endWrite ok => w.endWrite ok
  | .catchWrite => w.catchWrite
  | .downstreamLine raw => w.onDownstreamLine raw
  | .sweep now => w.sweep now

def World.start (ttlMs : Int) : World := { ttlMs }

/-! ## Frames, read back -/

theorem id_eq_of_withId_eq_errorFrame {frame : Fields} {id id' : Json} {code : Int}
    {message : String} (h : withId frame id = errorFrame id' code message) : id = id' := by
  have hput := congrArg (fun fields : Fields => fields.lookup "id") (Json.obj.inj h)
  simpa [Assoc.lookup_put, Assoc.lookup_cons] using hput

theorem errorFrame_inj_left {id id' : Json} {code code' : Int} {message message' : String}
    (h : errorFrame id code message = errorFrame id' code' message') : id = id' := by
  have hlookup := congrArg (fun fields : Fields => fields.lookup "id") (Json.obj.inj h)
  simpa [Assoc.lookup_cons] using hlookup

end Almyty.Mcp
