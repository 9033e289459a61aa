import Almyty.Lib.Steps

/-!
# Frames to a runner: `runner/transport/worker-stream.transport.ts`

A runner reads one stream of frames. Any pod may push a frame: it appends the frame to a shared
buffer in Redis and publishes it, and the pod that holds the stream writes it; a pod that holds the
stream itself writes the frame at once and appends it without publishing. A runner that lost its
stream reopens it with the last id it received, on any pod, and is sent what the shared buffer has
after that id; frames that arrive meanwhile wait.

What a runner has been sent and the shared buffer are two lists that grow apart: a frame is written
by one pod and appended by another, in whatever order. All is well while one of the two is a
beginning of the other (`Inv.comparable`), for then "after the last id" is exactly what is missing.
`worker_stream_delivers` says what each step has to keep for that: frames are written to the open
stream in the order of the shared buffer.

Mirroring notes:
- One session id, with Redis. A pod's `sessions` map holds one object for it at a time; a session
  that is adopted again is a new object, and the old one may still have the stream.
- Appends land in any order, and a read of the shared buffer lands between any two of them; that a
  pod's own commands keep their order is not used. Redis does not fail.
-/

namespace Almyty.Runner

open Almyty.Lib List Option
open Function (update update_self update_of_ne)

structure BufferedEvent where
  id : String
  seq : Nat := 0
  frame : String := ""
  deriving DecidableEq

structure StreamableSession where
  stream : Option Nat := none
  buffer : List BufferedEvent := []
  /-- While a call replays: that call, and the live frames that wait for it. -/
  replayQueue : Option (Nat × List BufferedEvent) := none

def StreamableSession.waits (ses : StreamableSession) : List BufferedEvent :=
  (ses.replayQueue.map (·.2)).getD []

inductive Call
  | idle
  | opened (session : Nat)
  /-- It has asked for the shared buffer. -/
  | asked (session : Nat) (lastEventId : String)
  | answered (session : Nat) (lastEventId : String) (shared : List BufferedEvent)

def Call.session : Call → Option Nat
  | .idle => none
  | .opened o | .asked o _ | .answered o _ _ => some o

structure World where
  /-- Every frame appended so far. -/
  log : List BufferedEvent := []
  /-- Appends on their way, and whether each publishes. -/
  outbox : List (BufferedEvent × Bool) := []
  /-- Published frames on their way to each pod. -/
  inbox : Nat → List BufferedEvent := fun _ => []
  /-- The pods' `sessions` maps. -/
  held : Nat → Option Nat := fun _ => none
  sessions : Nat → Option StreamableSession := fun _ => none
  calls : Nat → Call := fun _ => .idle
  destroyed : Nat → Bool := fun _ => false
  /-- The stream the runner reads. -/
  client : Option Nat := none
  /-- Written to that stream, not received yet. -/
  wire : List BufferedEvent := []
  received : List BufferedEvent := []
  /-- Every frame pushed so far, and those pushed before each stream was opened. -/
  pushed : List BufferedEvent := []
  before : Nat → List BufferedEvent := fun _ => []

inductive Action
  /-- A pod takes the session up, as minted or as found in the registry. -/
  | adopt (p o : Nat)
  /-- A pod forgets a stale session. -/
  | collect (p : Nat)
  | push (p : Nat) (e : BufferedEvent)
  /-- Redis executes one of the appends. -/
  | append (n : Nat)
  /-- A pod hears a published frame. -/
  | hear (p : Nat)
  /-- The runner opens a stream, with the last id it received. -/
  | open (o i : Nat)
  /-- Redis reads the shared buffer for a call. -/
  | read (i : Nat)
  /-- The call goes on; `report` is the error frame it may have to send. -/
  | replay (i : Nat) (report : BufferedEvent)
  /-- The pod notices that a stream is closed. -/
  | close (o i : Nat)
  | receive
  /-- The runner loses its stream. -/
  | lose

namespace World

/-- What the runner has been sent and has not lost. -/
def seen (s : World) : List BufferedEvent := s.received ++ s.wire

def lastEntries (max : Nat) (entries : List BufferedEvent) : List BufferedEvent :=
  entries.drop (entries.length - max)

/-- `strm:buf`, trimmed on every append. -/
def shared (max : Nat) (s : World) : List BufferedEvent := lastEntries max s.log

def setSession (s : World) (o : Nat) (ses : StreamableSession) : World :=
  { s with sessions := update s.sessions o (some ses) }

def setCall (s : World) (i : Nat) (c : Call) : World := { s with calls := update s.calls i c }

/-- A write to a stream; the runner hears it if it is the stream it reads. -/
def writeRaw (s : World) (i : Nat) (e : BufferedEvent) : World :=
  if s.client = some i then { s with wire := s.wire ++ [e] } else s

def writeFrame (max : Nat) (s : World) (o : Nat) (e : BufferedEvent) : World :=
  match s.sessions o with
  | none => s
  | some ses =>
    match ses.replayQueue with
    | some (i, queue) => s.setSession o { ses with replayQueue := some (i, queue ++ [e]) }
    | none =>
      if ses.buffer.any (·.id = e.id) then s
      else
        let kept := s.setSession o { ses with buffer := lastEntries max (ses.buffer ++ [e]) }
        match ses.stream with
        | some i => if s.destroyed i then kept else kept.writeRaw i e
        | none => kept

/-- The session whose stream a pod holds open. -/
def holder (s : World) (p : Nat) : Option Nat :=
  (s.held p).filter fun o =>
    ((s.sessions o).bind (·.stream)).any fun i => !s.destroyed i

def adopt (s : World) (p o : Nat) : World :=
  if (s.sessions o).isNone then
    { s.setSession o {} with held := update s.held p (some o) }
  else s

/-- The sweep ends the stream and forgets the session. -/
def collect (s : World) (p : Nat) : World :=
  let ended := (s.held p).bind fun o => (s.sessions o).bind (·.stream)
  let destroyed := fun j => if ended = some j then true else s.destroyed j
  { s with held := update s.held p none, destroyed }

def push (max : Nat) (s : World) (p : Nat) (e : BufferedEvent) : World :=
  match s.holder p with
  | some o =>
    writeFrame max { s with pushed := s.pushed ++ [e], outbox := s.outbox ++ [(e, false)] } o e
  | none => { s with pushed := s.pushed ++ [e], outbox := s.outbox ++ [(e, true)] }

/-- One `MULTI`: the frame is in the buffer before any pod can hear of it. -/
def append (s : World) (n : Nat) : World :=
  match s.outbox[n]? with
  | none => s
  | some (e, publish) =>
    let inbox := fun p => if publish then s.inbox p ++ [e] else s.inbox p
    { s with log := s.log ++ [e], outbox := s.outbox.eraseIdx n, inbox }

def hear (max : Nat) (s : World) (p : Nat) : World :=
  match s.inbox p with
  | [] => s
  | e :: rest =>
    let heard := { s with inbox := update s.inbox p rest }
    match s.holder p with
    | some o => writeFrame max heard o e
    | none => heard

/-- A stream is opened on a session object; the one it had is ended. -/
def «open» (s : World) (o i : Nat) : World :=
  match s.sessions o, s.calls i, s.client with
  | some ses, .idle, none =>
    let destroyed := fun j => if ses.stream = some j then true else s.destroyed j
    let s := { s with
      destroyed, client := some i, wire := [], before := update s.before i s.pushed }
    match s.received.getLast? with
    | none => (s.setSession o { ses with stream := some i }).setCall i (.opened o)
    | some e =>
      (s.setSession o { ses with stream := some i, replayQueue := some (i, []) }).setCall i
        (.asked o e.id)
  | _, _, _ => s

def read (max : Nat) (s : World) (i : Nat) : World :=
  match s.calls i with
  | .asked o lastEventId => s.setCall i (.answered o lastEventId (s.shared max))
  | _ => s

def replayFrom (buffer : List BufferedEvent) (lastEventId : String) : Option (List BufferedEvent) :=
  match buffer.findIdx? (·.id = lastEventId) with
  | some idx => some (buffer.drop (idx + 1))
  | none => if buffer = [] then some [] else none

def replayed (max : Nat) (s : World) (i o : Nat) (lastEventId : String)
    (shared : List BufferedEvent) (report : BufferedEvent) : World :=
  match s.sessions o with
  | none => s
  | some ses =>
    if ses.stream = some i ∧ s.destroyed i = false then
      match replayFrom shared lastEventId with
      | some frames =>
        (frames.foldl (fun s e => s.writeRaw i e) s).setSession o
          { ses with buffer := lastEntries max shared }
      | none => s.writeRaw i report
    else s

def endReplay (s : World) (o : Nat) : World :=
  match s.sessions o with
  | none => s
  | some ses => s.setSession o { ses with replayQueue := none }

/-- The frames that waited. A newer stream may have taken over the queue. -/
def flush (max : Nat) (s : World) (i o : Nat) : World :=
  match s.sessions o with
  | none => s
  | some ses =>
    match ses.replayQueue with
    | some (j, queue) =>
      if j = i then
        queue.foldl (fun s e => writeFrame max s o e) (s.endReplay o)
      else s
    | none => s

def replay (max : Nat) (s : World) (i : Nat) (report : BufferedEvent) : World :=
  match s.calls i with
  | .answered o lastEventId shared =>
    ((s.setCall i (.opened o)).replayed max i o lastEventId shared report).flush max i o
  | _ => s

def close (s : World) (o i : Nat) : World :=
  let s := { s with destroyed := update s.destroyed i true }
  match s.sessions o with
  | some ses => if ses.stream = some i then s.setSession o { ses with stream := none } else s
  | none => s

def receive (s : World) : World :=
  match s.wire with
  | [] => s
  | e :: rest => { s with received := s.received ++ [e], wire := rest }

def lose (s : World) : World := { s with client := none, wire := [] }

def step (max : Nat) (s : World) : Action → World
  | .adopt p o => s.adopt p o
  | .collect p => s.collect p
  | .push p e => s.push max p e
  | .append n => s.append n
  | .hear p => s.hear max p
  | .open o i => s.open o i
  | .read i => s.read max i
  | .replay i report => s.replay max i report
  | .close o i => s.close o i
  | .receive => s.receive
  | .lose => s.lose

/-! ## What the runner is owed -/

/-- After the step the ids received are distinct, and where the step replays onto the
stream the runner reads, everything pushed before it was opened has been sent. -/
def Delivers (max : Nat) (s : World) (a : Action) : Prop :=
  ((step max s a).received.map (·.id)).Nodup ∧
    ∀ i report o lastEventId shared ses, a = .replay i report →
      s.calls i = .answered o lastEventId shared → s.client = some i →
      s.sessions o = some ses → ses.stream = some i → s.destroyed i = false →
      s.before i ⊆ (step max s a).seen

/-- A frame written to the session now goes out on the stream the runner reads. -/
def reaches (s : World) (o : Nat) (e : BufferedEvent) : Bool :=
  match s.sessions o with
  | none => false
  | some ses =>
    ses.replayQueue.isNone && !(ses.buffer.any (·.id = e.id)) &&
      ses.stream.any fun i => !s.destroyed i && s.client = some i

/-- A frame of the shared buffer goes out right after what the runner was sent of it; one
that is not there yet goes out once the runner was sent all of it. -/
def InOrder (s : World) (o : Nat) (e : BufferedEvent) : Prop :=
  s.reaches o e → if e ∈ s.log then s.seen ++ [e] <+: s.log else s.log <+: s.seen

/-- The same for frames written one after the other. -/
def InOrderAll (max : Nat) (s : World) (o : Nat) : List BufferedEvent → Prop
  | [] => True
  | e :: es => s.InOrder o e ∧ InOrderAll max (s.writeFrame max o e) o es

/-- The id a call asks the shared buffer for. -/
def asked (s : World) (i : Nat) : Option String :=
  match s.calls i with
  | .asked _ lastEventId => some lastEventId
  | _ => none

/-- The frames that wait for a call which has its answer, and where they are written. -/
def toFlush (s : World) (max i : Nat) (report : BufferedEvent) :
    Option (World × Nat × List BufferedEvent) :=
  match s.calls i with
  | .answered o lastEventId shared =>
    let s := (s.setCall i (.opened o)).replayed max i o lastEventId shared report
    ((s.sessions o).bind (·.replayQueue)).bind fun q =>
      if q.1 = i then some (s.endReplay o, o, q.2) else none
  | _ => none

/-- What the shared buffer and the stream need of each other at a step. -/
def Kept (max : Nat) (s : World) : Action → Prop
  | .push p e => e.id ∉ s.pushed.map (·.id) ∧ ∀ o ∈ s.holder p, s.InOrder o e
  | .append n => ∀ a ∈ s.outbox[n]?, s.seen <+: s.log ∨ s.log ++ [a.1] <+: s.seen
  | .hear p => ∀ e ∈ (s.inbox p).head?, ∀ o ∈ s.holder p, s.InOrder o e
  | .read i => s.client = some i → ∀ lastEventId ∈ s.asked i,
      (∀ e ∈ s.before i, e ∈ s.log) ∧ lastEventId ∈ (s.shared max).map (·.id)
  | .replay i report => ∀ q ∈ s.toFlush max i report, InOrderAll max q.1 q.2.1 q.2.2
  | _ => True

instance (s : World) (o : Nat) (e : BufferedEvent) : Decidable (s.InOrder o e) :=
  inferInstanceAs (Decidable (_ → _))

instance instDecidableInOrderAll (max : Nat) : ∀ (s : World) (o : Nat) (es : List BufferedEvent),
    Decidable (InOrderAll max s o es)
  | _, _, [] => inferInstanceAs (Decidable True)
  | s, o, e :: es =>
    have := instDecidableInOrderAll max (s.writeFrame max o e) o es
    inferInstanceAs (Decidable (_ ∧ _))

instance (max : Nat) (s : World) : ∀ a, Decidable (s.Kept max a)
  | .push _ _ => inferInstanceAs (Decidable (_ ∧ _))
  | .append n => inferInstanceAs (Decidable (∀ a ∈ s.outbox[n]?, _))
  | .hear p => inferInstanceAs (Decidable (∀ e ∈ (s.inbox p).head?, _))
  | .read _ => inferInstanceAs (Decidable (_ → _))
  | .replay i report => inferInstanceAs (Decidable (∀ q ∈ s.toFlush max i report, _))
  | .adopt _ _ | .collect _ | .open _ _ | .close _ _ | .receive | .lose =>
    inferInstanceAs (Decidable True)

/-! ## The invariant -/

def streamOf (s : World) (o : Nat) : Option Nat := (s.sessions o).bind (·.stream)

def waiting (s : World) (o : Nat) : List BufferedEvent :=
  ((s.sessions o).map (·.waits)).getD []

/-- The call has asked for the shared buffer: its session and the id it was given. -/
def asks (s : World) (i : Nat) : Option (Nat × String) :=
  match s.calls i with
  | .asked o lastEventId | .answered o lastEventId _ => some (o, lastEventId)
  | _ => none

/-- The frame is in the shared buffer, or has gone nowhere yet. -/
def Free (s : World) (e : BufferedEvent) : Prop :=
  e ∈ s.pushed ∧ (e ∈ s.log ∨ e ∉ s.seen ∧ ∀ o, e ∉ s.waiting o)

structure Inv (s : World) : Prop where
  fresh : (s.pushed.map (·.id)).Nodup
  spread : s.pushed.Perm (s.log ++ s.outbox.map (·.1))
  comparable : s.seen <+: s.log ∨ s.log <+: s.seen
  once : s.seen.Nodup
  sent : s.seen ⊆ s.pushed
  heard : ∀ p, s.inbox p ⊆ s.log
  /-- A frame that waits and has not landed is nowhere else. -/
  queued : ∀ o, ∀ e ∈ s.waiting o, e ∈ s.pushed ∧
    (e ∈ s.log ∨ e ∉ s.seen ∧ ∀ o', o' ≠ o → e ∉ s.waiting o')
  apart : ∀ o, (s.waiting o).Pairwise fun a b => a = b → a ∈ s.log
  streams : ∀ o i, s.streamOf o = some i → (s.calls i).session = some o
  /-- Nothing is sent while the runner's own call waits for the shared buffer. -/
  reopened : ∀ i o lastEventId, s.client = some i → s.asks i = some (o, lastEventId) →
    s.wire = [] ∧ (s.received.getLast?.map (·.id)) = some lastEventId ∧
      ∀ ses, s.sessions o = some ses → ses.stream = some i → ses.replayQueue.map (·.1) = some i
  /-- What it was answered continues what the runner has. -/
  answered : ∀ i o lastEventId shared, s.client = some i →
    s.calls i = .answered o lastEventId shared →
    ∃ old h e t, shared = h ++ e :: t ∧ s.received = old ++ h ++ [e] ∧ e.id = lastEventId ∧
      old ++ shared <+: s.log ∧ s.before i ⊆ old ++ shared

variable {max : Nat} {s : World}

theorem Inv.log_pushed (h : Inv s) : s.log ⊆ s.pushed := fun _ he =>
  h.spread.mem_iff.mpr (mem_append_left _ he)

theorem Inv.pushed_nodup (h : Inv s) : s.pushed.Nodup := List.Nodup.of_map _ h.fresh

theorem Inv.log_nodup (h : Inv s) : s.log.Nodup :=
  ((h.spread.nodup_iff).mp h.pushed_nodup).of_append_left

theorem Inv.eq_of_id (h : Inv s) {e e' : BufferedEvent} (he : e ∈ s.pushed) (he' : e' ∈ s.pushed)
    (hid : e.id = e'.id) : e = e' :=
  inj_on_of_nodup_map h.fresh he he' hid

theorem Inv.ids_nodup (h : Inv s) : (s.seen.map (·.id)).Nodup :=
  List.Nodup.map_on (fun _ he _ he' hid => h.eq_of_id (h.sent he) (h.sent he') hid) h.once

@[simp] theorem streamOf_setSession (o : Nat) (ses : StreamableSession) :
    (s.setSession o ses).streamOf = update s.streamOf o ses.stream := by
  funext o'
  rcases eq_or_ne o' o with rfl | hne
  · simp [streamOf, setSession]
  · simp [streamOf, setSession, hne]

@[simp] theorem waiting_setSession (o : Nat) (ses : StreamableSession) :
    (s.setSession o ses).waiting = update s.waiting o ses.waits := by
  funext o'
  rcases eq_or_ne o' o with rfl | hne
  · simp [waiting, setSession]
  · simp [waiting, setSession, hne]

variable {o : Nat} {ses : StreamableSession}

theorem Inv.setSession (h : Inv s) (hq : ∀ e ∈ ses.waits, e ∈ s.pushed ∧
      (e ∈ s.log ∨ e ∉ s.seen ∧ ∀ o', o' ≠ o → e ∉ s.waiting o'))
    (hp : ses.waits.Pairwise fun a b => a = b → a ∈ s.log)
    (hs : ∀ i, ses.stream = some i → (s.calls i).session = some o)
    (hr : ∀ i lastEventId, s.client = some i → s.asks i = some (o, lastEventId) →
      ses.stream = some i → ses.replayQueue.map (·.1) = some i) :
    Inv (s.setSession o ses) := by
  refine { h with queued := ?_, apart := ?_, streams := ?_, reopened := ?_ }
  · intro o' e he
    rw [waiting_setSession] at he ⊢
    rcases eq_or_ne o' o with rfl | hne
    · rw [update_self] at he
      obtain ⟨hpu, hl | ⟨hse, hw⟩⟩ := hq e he
      · exact ⟨hpu, Or.inl hl⟩
      · refine ⟨hpu, Or.inr ⟨hse, fun o'' ho => ?_⟩⟩
        rw [update_of_ne ho]
        exact hw o'' ho
    · rw [update_of_ne hne] at he
      obtain ⟨hpu, hl | ⟨hse, hw⟩⟩ := h.queued o' e he
      · exact ⟨hpu, Or.inl hl⟩
      · -- the changed session has no claim to a frame that waits elsewhere
        by_cases hl : e ∈ s.log
        · exact ⟨hpu, Or.inl hl⟩
        refine ⟨hpu, Or.inr ⟨hse, fun o'' ho => ?_⟩⟩
        rcases eq_or_ne o'' o with rfl | hne'
        · rw [update_self]
          intro hmem
          obtain ⟨-, hl' | ⟨-, hw'⟩⟩ := hq e hmem
          · exact hl hl'
          · exact hw' o' hne he
        · rw [update_of_ne hne']
          exact hw o'' ho
  · intro o'
    rw [waiting_setSession]
    rcases eq_or_ne o' o with rfl | hne
    · rw [update_self]
      exact hp
    · rw [update_of_ne hne]
      exact h.apart o'
  · intro o' i hi
    rw [streamOf_setSession] at hi
    rcases eq_or_ne o' o with rfl | hne
    · rw [update_self] at hi
      exact hs i hi
    · rw [update_of_ne hne] at hi
      exact h.streams o' i hi
  · intro i o' lastEventId hc ha
    obtain ⟨hwire, hlast, hses⟩ := h.reopened i o' lastEventId hc ha
    refine ⟨hwire, hlast, fun ses' hs' => ?_⟩
    simp only [World.setSession] at hs'
    rcases eq_or_ne o' o with rfl | hne
    · rw [update_self] at hs'
      obtain rfl := some.inj hs'
      exact hr i lastEventId hc ha
    · rw [update_of_ne hne] at hs'
      exact hses ses' hs'

theorem waiting_of_session (ho : s.sessions o = some ses) : s.waiting o = ses.waits := by
  simp [waiting, ho]

theorem streamOf_of_session (ho : s.sessions o = some ses) : s.streamOf o = ses.stream := by
  simp [streamOf, ho]

theorem waiting_setBuffer (ho : s.sessions o = some ses) (b : List BufferedEvent) :
    (s.setSession o { ses with buffer := b }).waiting = s.waiting := by
  rw [waiting_setSession, Function.update_eq_self_iff]
  exact (waiting_of_session ho).symm

theorem Inv.setBuffer (h : Inv s) (ho : s.sessions o = some ses) (b : List BufferedEvent) :
    Inv (s.setSession o { ses with buffer := b }) := by
  have hw : ({ ses with buffer := b } : StreamableSession).waits = s.waiting o :=
    (waiting_of_session ho).symm
  apply h.setSession
  · intro e he
    rw [hw] at he
    exact h.queued o e he
  · rw [hw]
    exact h.apart o
  · intro i hi
    exact h.streams o i ((streamOf_of_session ho).trans hi)
  · intro i lastEventId hc ha hi
    exact (h.reopened i o lastEventId hc ha).2.2 ses ho hi

variable {e : BufferedEvent}

variable {i : Nat}

theorem Inv.enqueue (h : Inv s) {o : Nat} {queue : List BufferedEvent}
    (ho : s.sessions o = some ses) (hq : ses.replayQueue = some (i, queue)) (hf : s.Free e) :
    Inv (s.setSession o { ses with replayQueue := some (i, queue ++ [e]) }) := by
  have hw : s.waiting o = queue := by
    rw [waiting_of_session ho]
    simp [StreamableSession.waits, hq]
  have hw' : ({ ses with replayQueue := some (i, queue ++ [e]) } : StreamableSession).waits =
      queue ++ [e] := rfl
  apply h.setSession
  · intro e' he'
    rw [hw', mem_append, mem_singleton] at he'
    rcases he' with he' | rfl
    · exact h.queued o e' (hw ▸ he')
    · exact ⟨hf.1, hf.2.imp_right fun hn => ⟨hn.1, fun o' _ => hn.2 o'⟩⟩
  · rw [hw', pairwise_append]
    refine ⟨hw ▸ h.apart o, pairwise_singleton _ _, ?_⟩
    -- a frame that waits already has landed, or is not the new one
    intro a ha b hb hab
    obtain rfl := mem_singleton.mp hb
    subst hab
    rcases hf.2 with hl | hn
    · exact hl
    · exact absurd (hw ▸ ha) (hn.2 o)
  · intro j hj
    exact h.streams o j ((streamOf_of_session ho).trans hj)
  · intro j lastEventId hc ha hj
    have := (h.reopened j o lastEventId hc ha).2.2 ses ho hj
    rw [hq] at this
    exact this

theorem seen_send (e : BufferedEvent) :
    ({ s with wire := s.wire ++ [e] } : World).seen = s.seen ++ [e] :=
  (append_assoc ..).symm

variable {lastEventId : String} {shared : List BufferedEvent}

theorem asks_of_answered {o : Nat} (hcall : s.calls i = .answered o lastEventId shared) :
    s.asks i = some (o, lastEventId) := by
  simp [asks, hcall]

theorem Inv.send (h : Inv s) (hc : s.client = some i) (ha : s.asks i = none) (hf : s.Free e)
    (ho : if e ∈ s.log then s.seen ++ [e] <+: s.log else s.log <+: s.seen) :
    Inv { s with wire := s.wire ++ [e] } := by
  have hnew : e ∉ s.seen := by
    split at ho
    · have hd := h.log_nodup.sublist ho.sublist
      intro he
      exact (nodup_append.mp hd).2.2 e he e (mem_singleton_self e) rfl
    · next hl => exact (hf.2.resolve_left hl).1
  refine { h with comparable := ?_, once := ?_, sent := ?_, queued := ?_, reopened := ?_, answered := ?_ }
  · rw [seen_send]
    split at ho
    · exact Or.inl ho
    · exact Or.inr (ho.trans (prefix_append _ _))
  · rw [seen_send]
    exact nodup_append.mpr ⟨h.once, nodup_singleton e, fun a ha b hb hab =>
      hnew (mem_singleton.mp hb ▸ hab ▸ ha)⟩
  · rw [seen_send]
    exact append_subset.mpr ⟨h.sent, fun a ha => mem_singleton.mp ha ▸ hf.1⟩
  · intro o e' he'
    obtain ⟨hpu, hl | ⟨hse, hw⟩⟩ := h.queued o e' he'
    · exact ⟨hpu, Or.inl hl⟩
    · by_cases hl : e' ∈ s.log
      · exact ⟨hpu, Or.inl hl⟩
      refine ⟨hpu, Or.inr ⟨?_, hw⟩⟩
      rw [seen_send, mem_append, mem_singleton]
      rintro (he | rfl)
      · exact hse he
      · exact (hf.2.resolve_left hl).2 o he'
  · intro j o lastEventId hj hasks
    obtain rfl := some.inj (hc.symm.trans hj)
    exact absurd (ha.symm.trans hasks) (by simp)
  · intro j o lastEventId shared hj hcall
    obtain rfl := some.inj (hc.symm.trans hj)
    exact absurd (ha.symm.trans (asks_of_answered hcall)) (by simp)

theorem writeFrame_cases (max : Nat) (s : World) (o : Nat) (e : BufferedEvent) :
    s.writeFrame max o e = s ∨
    (∃ ses i queue, s.sessions o = some ses ∧ ses.replayQueue = some (i, queue) ∧
      s.writeFrame max o e =
        s.setSession o { ses with replayQueue := some (i, queue ++ [e]) }) ∨
    (∃ ses b, s.sessions o = some ses ∧ ses.replayQueue = none ∧
      s.writeFrame max o e = s.setSession o { ses with buffer := b }) ∨
    (∃ ses b i, s.sessions o = some ses ∧ ses.replayQueue = none ∧ ses.stream = some i ∧
      s.client = some i ∧ s.reaches o e = true ∧
      s.writeFrame max o e =
        { s.setSession o { ses with buffer := b } with wire := s.wire ++ [e] }) := by
  cases ho : s.sessions o with
  | none => exact Or.inl (by simp [writeFrame, ho])
  | some ses =>
    cases hq : ses.replayQueue with
    | some q => exact Or.inr (Or.inl ⟨ses, q.1, q.2, rfl, hq, by simp [writeFrame, ho, hq]⟩)
    | none =>
      by_cases hb : ses.buffer.any (·.id = e.id)
      · exact Or.inl (by simp only [writeFrame, ho, hq, hb, if_true])
      · refine Or.inr (Or.inr ?_)
        have hkept : s.writeFrame max o e =
            match ses.stream with
            | some i =>
              if s.destroyed i then
                s.setSession o { ses with buffer := lastEntries max (ses.buffer ++ [e]) }
              else
                (s.setSession o { ses with buffer := lastEntries max (ses.buffer ++ [e]) }).writeRaw
                  i e
            | none => s.setSession o { ses with buffer := lastEntries max (ses.buffer ++ [e]) } := by
          simp only [writeFrame, ho, hq, hb]
          rfl
        cases hi : ses.stream with
        | none => exact Or.inl ⟨ses, _, rfl, hq, by rw [hkept, hi]⟩
        | some i =>
          simp only [hi] at hkept
          by_cases hd : s.destroyed i
          · exact Or.inl ⟨ses, _, rfl, hq, by rw [hkept, if_pos hd, hi]⟩
          · rw [if_neg hd] at hkept
            by_cases hc : s.client = some i
            · have hr : s.reaches o e = true := by simp [reaches, ho, hq, hb, hi, hd, hc]
              exact Or.inr ⟨ses, _, i, rfl, hq, hi, hc, hr, by
                rw [hkept, writeRaw, if_pos (show (s.setSession o _).client = some i from hc), hi]
                rfl⟩
            · exact Or.inl ⟨ses, _, rfl, hq, by
                rw [hkept, writeRaw, if_neg (show (s.setSession o _).client ≠ some i from hc), hi]⟩

theorem Inv.asks_none (h : Inv s) {o : Nat} (ho : s.sessions o = some ses)
    (hq : ses.replayQueue = none) (hi : ses.stream = some i) (hc : s.client = some i) :
    s.asks i = none := by
  have hcall := h.streams o i ((streamOf_of_session ho).trans hi)
  rw [eq_none_iff_forall_ne_some]
  intro ⟨o', lastEventId⟩ hasks
  have hsame : (s.calls i).session = some o' := by
    revert hasks
    unfold asks
    cases s.calls i <;> simp +contextual [Call.session]
  obtain rfl := some.inj (hcall.symm.trans hsame)
  have := (h.reopened i o lastEventId hc hasks).2.2 ses ho hi
  rw [hq] at this
  cases this

theorem Inv.writeFrame (h : Inv s) (hf : s.Free e) (ho : s.InOrder o e) :
    Inv (s.writeFrame max o e) := by
  rcases writeFrame_cases max s o e with he | ⟨ses, i, queue, hses, hq, he⟩ |
    ⟨ses, b, hses, -, he⟩ | ⟨ses, b, i, hses, hq, hi, hc, hr, he⟩
  · rwa [he]
  · rw [he]
    exact h.enqueue hses hq hf
  · rw [he]
    exact h.setBuffer hses b
  · rw [he]
    have hsend := h.send hc (h.asks_none hses hq hi hc) hf (ho hr)
    exact hsend.setBuffer hses b

/-! ## The replay -/

theorem writeFrame_effect (max : Nat) (s : World) (o : Nat) (e : BufferedEvent) :
    (s.writeFrame max o e).log = s.log ∧ (s.writeFrame max o e).pushed = s.pushed ∧
    (s.writeFrame max o e).received = s.received ∧
    ((s.writeFrame max o e).seen = s.seen ∨ (s.writeFrame max o e).seen = s.seen ++ [e]) ∧
    ∀ o', (s.writeFrame max o e).waiting o' = s.waiting o' ∨
      (s.writeFrame max o e).waiting o' = s.waiting o' ++ [e] := by
  rcases writeFrame_cases max s o e with he | ⟨ses, i, queue, hses, hq, he⟩ |
    ⟨ses, b, hses, -, he⟩ | ⟨ses, b, i, hses, -, -, -, -, he⟩
  · rw [he]
    exact ⟨rfl, rfl, rfl, Or.inl rfl, fun _ => Or.inl rfl⟩
  · rw [he]
    refine ⟨rfl, rfl, rfl, Or.inl rfl, fun o' => ?_⟩
    rw [waiting_setSession]
    rcases eq_or_ne o' o with rfl | hne
    · right
      rw [update_self, waiting_of_session hses]
      simp [StreamableSession.waits, hq]
    · left
      rw [update_of_ne hne]
  · rw [he]
    refine ⟨rfl, rfl, rfl, Or.inl rfl, fun o' => Or.inl ?_⟩
    rw [waiting_setBuffer hses]
  · rw [he]
    refine ⟨rfl, rfl, rfl, Or.inr (seen_send e), fun o' => Or.inl ?_⟩
    show (s.setSession o _).waiting o' = _
    rw [waiting_setBuffer hses]

theorem seen_writeFrame (o : Nat) (e : BufferedEvent) : s.seen <+: (s.writeFrame max o e).seen := by
  rcases (writeFrame_effect max s o e).2.2.2.1 with h | h
  · rw [h]
  · rw [h]
    exact prefix_append _ _

theorem Free.writeFrame {e e' : BufferedEvent} (hf : s.Free e') (hne : e' = e → e' ∈ s.log) :
    (s.writeFrame max o e).Free e' := by
  obtain ⟨hlog, hpushed, -, hseen, hwaiting⟩ := writeFrame_effect max s o e
  by_cases hl : e' ∈ s.log
  · exact ⟨hpushed ▸ hf.1, Or.inl (hlog ▸ hl)⟩
  obtain ⟨hse, hw⟩ := hf.2.resolve_left hl
  have hee : e' ∉ [e] := fun h => hl (hne (mem_singleton.mp h))
  refine ⟨hpushed ▸ hf.1, Or.inr ⟨?_, fun o' => ?_⟩⟩
  · rcases hseen with h | h
    · rwa [h]
    · rw [h, mem_append]
      exact not_or.mpr ⟨hse, hee⟩
  · rcases hwaiting o' with h | h
    · rw [h]
      exact hw o'
    · rw [h, mem_append]
      exact not_or.mpr ⟨hw o', hee⟩

theorem Inv.writeFrames {es : List BufferedEvent} (h : Inv s) (hf : ∀ e ∈ es, s.Free e)
    (hp : es.Pairwise fun a b => a = b → a ∈ s.log) (ho : InOrderAll max s o es) :
    Inv (es.foldl (fun s e => s.writeFrame max o e) s) ∧
      s.seen <+: (es.foldl (fun s e => s.writeFrame max o e) s).seen := by
  induction es generalizing s with
  | nil => exact ⟨h, prefix_rfl⟩
  | cons e es ih =>
    rw [pairwise_cons] at hp
    have hlog := (writeFrame_effect max s o e).1
    have hrest := ih (h.writeFrame (hf e (mem_cons_self ..)) ho.1)
      (fun e' he' => (hf e' (mem_cons_of_mem _ he')).writeFrame
        fun heq => heq ▸ hp.1 e' he' heq.symm)
      (by rw [hlog]; exact hp.2) ho.2
    exact ⟨hrest.1, (seen_writeFrame o e).trans hrest.2⟩

theorem Inv.endReplay (h : Inv s) {o : Nat} {queue : List BufferedEvent}
    (ho : s.sessions o = some ses) (hq : ses.replayQueue = some (i, queue)) (ha : s.asks i = none) :
    Inv (s.endReplay o) ∧ (∀ e ∈ queue, (s.endReplay o).Free e) ∧
      (queue.Pairwise fun a b => a = b → a ∈ s.log) := by
  have hend : s.endReplay o = s.setSession o { ses with replayQueue := none } := by
    simp [World.endReplay, ho]
  have hw : s.waiting o = queue := by
    rw [waiting_of_session ho]
    simp [StreamableSession.waits, hq]
  have hnone : ({ ses with replayQueue := none } : StreamableSession).waits = [] := rfl
  rw [hend]
  refine ⟨h.setSession ?_ ?_ ?_ ?_, fun e he => ?_, hw ▸ h.apart o⟩
  · rw [hnone]
    intro e he
    cases he
  · rw [hnone]
    exact List.Pairwise.nil
  · intro j hj
    exact h.streams o j ((streamOf_of_session ho).trans hj)
  · -- the call that waits on this session is the one whose queue it is
    intro j lastEventId hc hasks hj
    have := (h.reopened j o lastEventId hc hasks).2.2 ses ho hj
    rw [hq] at this
    obtain rfl := some.inj this
    exact absurd (ha.symm.trans hasks) (by simp)
  · obtain ⟨hpu, hl | ⟨hse, hothers⟩⟩ := h.queued o e (hw ▸ he)
    · exact ⟨hpu, Or.inl hl⟩
    · refine ⟨hpu, Or.inr ⟨hse, fun o' => ?_⟩⟩
      rw [waiting_setSession]
      rcases eq_or_ne o' o with rfl | hne
      · rw [update_self, hnone]
        exact not_mem_nil
      · rw [update_of_ne hne]
        exact hothers o' hne

theorem Inv.catchUp (h : Inv s) {frames : List BufferedEvent} (hc : s.client = some i)
    (ha : s.asks i = none) (hp : s.received ++ frames <+: s.log) :
    Inv { s with wire := frames } := by
  refine { h with comparable := Or.inl hp, once := h.log_nodup.sublist hp.sublist,
                  sent := fun e he => h.log_pushed (hp.subset he),
                  queued := ?_, reopened := ?_, answered := ?_ }
  · intro o e he
    obtain ⟨hpu, hl | ⟨-, hw⟩⟩ := h.queued o e he
    · exact ⟨hpu, Or.inl hl⟩
    · by_cases hl : e ∈ s.log
      · exact ⟨hpu, Or.inl hl⟩
      · exact ⟨hpu, Or.inr ⟨fun hmem => hl (hp.subset hmem), hw⟩⟩
  · intro j o lastEventId hj hasks
    obtain rfl := some.inj (hc.symm.trans hj)
    exact absurd (ha.symm.trans hasks) (by simp)
  · intro j o lastEventId shared hj hcall
    obtain rfl := some.inj (hc.symm.trans hj)
    exact absurd (ha.symm.trans (asks_of_answered hcall)) (by simp)

theorem Inv.setCall_opened (h : Inv s) {o : Nat} (ho : (s.calls i).session = some o) :
    Inv (s.setCall i (.opened o)) := by
  refine { h with streams := ?_, reopened := ?_, answered := ?_ }
  · intro o' j hj
    have := h.streams o' j hj
    simp only [setCall]
    rcases eq_or_ne j i with rfl | hne
    · rw [update_self]
      exact ho.symm.trans this
    · rwa [update_of_ne hne]
  · intro j o' lastEventId hc hasks
    rcases eq_or_ne j i with rfl | hne
    · simp [asks, setCall] at hasks
    · refine h.reopened j o' lastEventId hc ?_
      rw [← hasks]
      simp [asks, setCall, hne]
  · intro j o' lastEventId shared hc hcall
    simp only [setCall] at hcall
    rcases eq_or_ne j i with rfl | hne
    · simp at hcall
    · rw [update_of_ne hne] at hcall
      exact h.answered j o' lastEventId shared hc hcall

theorem replayFrom_split {h t : List BufferedEvent} (hd : ((h ++ e :: t).map (·.id)).Nodup) :
    replayFrom (h ++ e :: t) e.id = some t := by
  have hidx : (h ++ e :: t).findIdx? (·.id = e.id) = some h.length := by
    rw [List.findIdx?_eq_some_iff_getElem]
    refine ⟨by simp, by simp, fun j hj => ?_⟩
    rw [getElem_append_left hj]
    rw [map_append, nodup_append] at hd
    have := hd.2.2 h[j].id (mem_map_of_mem (getElem_mem hj)) e.id (by simp)
    simpa using this
  simp [replayFrom, hidx]

theorem foldl_writeRaw (i : Nat) (frames : List BufferedEvent) (s : World) :
    frames.foldl (fun s e => s.writeRaw i e) s =
      if s.client = some i then { s with wire := s.wire ++ frames } else s := by
  induction frames generalizing s with
  | nil => simp
  | cons e es ih =>
    rw [foldl_cons, ih]
    by_cases hc : s.client = some i <;> simp [writeRaw, hc]

theorem replayed_cases (max : Nat) (s : World) (i o : Nat) (lastEventId : String)
    (shared : List BufferedEvent) (report : BufferedEvent) :
    (s.replayed max i o lastEventId shared report = s ∧
      ∀ ses, s.sessions o = some ses → ses.stream = some i → s.destroyed i = true) ∨
    (∃ ses frames b, s.sessions o = some ses ∧ replayFrom shared lastEventId = some frames ∧
      s.replayed max i o lastEventId shared report =
        (if s.client = some i then { s with wire := s.wire ++ frames } else s).setSession o
          { ses with buffer := b }) ∨
    (replayFrom shared lastEventId = none ∧
      s.replayed max i o lastEventId shared report = s.writeRaw i report) := by
  unfold replayed
  cases ho : s.sessions o with
  | none => exact Or.inl ⟨rfl, fun ses hs => absurd hs (by simp)⟩
  | some ses =>
    by_cases hopen : ses.stream = some i ∧ s.destroyed i = false
    · simp only [if_pos hopen]
      cases hr : replayFrom shared lastEventId with
      | none => exact Or.inr (Or.inr ⟨rfl, rfl⟩)
      | some frames => exact Or.inr (Or.inl ⟨ses, frames, lastEntries max shared, rfl, rfl, by
          simp only [foldl_writeRaw]⟩)
    · refine Or.inl ⟨by simp only [if_neg hopen], fun ses' hs hi => ?_⟩
      obtain rfl := some.inj hs
      simpa [hi] using hopen

theorem Inv.replayFrom (h : Inv s) {o : Nat} (hc : s.client = some i)
    (hcall : s.calls i = .answered o lastEventId shared) :
    ∃ frames, World.replayFrom shared lastEventId = some frames ∧
      s.received ++ frames <+: s.log ∧ s.before i ⊆ s.received ++ frames := by
  obtain ⟨old, pre, e, t, rfl, hrec, rfl, hlog, hbefore⟩ :=
    h.answered i o lastEventId shared hc hcall
  have hall : s.received ++ t = old ++ (pre ++ e :: t) := by
    rw [hrec]
    simp
  refine ⟨t, replayFrom_split ?_, by rwa [hall], by rwa [hall]⟩
  have hids : (s.log.map (·.id)).Nodup := by
    have := (h.spread.map (·.id)).nodup_iff.mp h.fresh
    rw [map_append] at this
    exact (nodup_append.mp this).1
  have hsub : (pre ++ e :: t).Sublist s.log :=
    (sublist_append_right old _).trans hlog.sublist
  exact hids.sublist (hsub.map _)

theorem Inv.replayed (max : Nat) (h : Inv s) {o : Nat}
    (hcall : s.calls i = .answered o lastEventId shared) (report : BufferedEvent) :
    Inv ((s.setCall i (.opened o)).replayed max i o lastEventId shared report) ∧
    (∀ ses, s.sessions o = some ses → ses.stream = some i → s.destroyed i = false →
      s.client = some i →
      s.before i ⊆ ((s.setCall i (.opened o)).replayed max i o lastEventId shared report).seen) := by
  have hopened := h.setCall_opened (i := i) (o := o) (by rw [hcall]; rfl)
  have ha : (s.setCall i (.opened o)).asks i = none := by simp [asks, setCall]
  rcases replayed_cases max (s.setCall i (.opened o)) i o lastEventId shared report with
    ⟨he, hd⟩ | ⟨ses, frames, b, hses, hr, he⟩ | ⟨hr, he⟩
  · rw [he]
    refine ⟨hopened, fun ses hses hi hdes _ => ?_⟩
    rw [show s.destroyed i = true from hd ses hses hi] at hdes
    cases hdes
  · rw [he]
    by_cases hc : s.client = some i
    · obtain ⟨frames', hr', hlog, hbefore⟩ := h.replayFrom hc hcall
      obtain rfl := some.inj (hr.symm.trans hr')
      have hwire := (h.reopened i o lastEventId hc (asks_of_answered hcall)).1
      have hcaught := hopened.catchUp hc ha hlog
      rw [if_pos (show (s.setCall i (.opened o)).client = some i from hc)]
      rw [show (s.setCall i (.opened o)).wire ++ frames = frames by
        rw [show (s.setCall i (.opened o)).wire = [] from hwire, nil_append]]
      exact ⟨hcaught.setBuffer hses b, fun _ _ _ _ _ => hbefore⟩
    · rw [if_neg (show (s.setCall i (.opened o)).client ≠ some i from hc)]
      exact ⟨hopened.setBuffer hses b, fun _ _ _ _ hc' => absurd hc' hc⟩
  · have hc : s.client ≠ some i := by
      intro hc
      obtain ⟨frames', hr', -⟩ := h.replayFrom hc hcall
      rw [hr] at hr'
      cases hr'
    rw [he, writeRaw, if_neg (show (s.setCall i (.opened o)).client ≠ some i from hc)]
    exact ⟨hopened, fun _ _ _ _ hc' => absurd hc' hc⟩

theorem replayed_calls (max : Nat) (s : World) (i o : Nat) (lastEventId : String)
    (shared : List BufferedEvent) (report : BufferedEvent) :
    (s.replayed max i o lastEventId shared report).calls = s.calls := by
  rcases replayed_cases max s i o lastEventId shared report with
    ⟨he, -⟩ | ⟨ses, frames, b, -, -, he⟩ | ⟨-, he⟩
  · rw [he]
  · rw [he]
    split <;> rfl
  · rw [he, writeRaw]
    split <;> rfl

theorem Inv.flush (max : Nat) (h : Inv s) {o : Nat} (ha : s.asks i = none)
    (ho : ∀ queue, (s.sessions o).bind (·.replayQueue) = some (i, queue) →
      InOrderAll max (s.endReplay o) o queue) :
    Inv (s.flush max i o) ∧ s.seen <+: (s.flush max i o).seen := by
  unfold World.flush
  cases hses : s.sessions o with
  | none => exact ⟨h, prefix_rfl⟩
  | some ses =>
    cases hq : ses.replayQueue with
    | none =>
      simp only [hq]
      exact ⟨h, prefix_rfl⟩
    | some jq =>
      obtain ⟨j, queue⟩ := jq
      simp only [hq]
      by_cases hji : j = i
      · subst hji
        rw [if_pos rfl]
        obtain ⟨hend, hfree, hapart⟩ := h.endReplay hses hq ha
        have hsame : (s.endReplay o).log = s.log ∧ (s.endReplay o).seen = s.seen := by
          simp only [World.endReplay, hses]
          exact ⟨rfl, rfl⟩
        rw [← hsame.2]
        exact hend.writeFrames hfree (by rw [hsame.1]; exact hapart)
          (ho queue (by rw [hses]; exact hq))
      · rw [if_neg hji]
        exact ⟨h, prefix_rfl⟩

theorem Inv.replay (h : Inv s) {report : BufferedEvent} (hk : s.Kept max (.replay i report)) :
    Inv (s.replay max i report) ∧
    ∀ o lastEventId shared ses, s.calls i = .answered o lastEventId shared →
      s.client = some i → s.sessions o = some ses → ses.stream = some i →
      s.destroyed i = false → s.before i ⊆ (s.replay max i report).seen := by
  unfold World.replay
  cases hcall : s.calls i with
  | answered o lastEventId shared =>
    obtain ⟨hinv, hbefore⟩ := h.replayed max hcall report
    have hcalls :=
      replayed_calls max (s.setCall i (.opened o)) i o lastEventId shared report
    have hasks : (World.replayed max (s.setCall i (.opened o)) i o lastEventId shared report).asks i =
        none := by
      rw [asks, hcalls]
      simp [setCall]
    have hall := hinv.flush max (o := o) hasks fun queue hq =>
      hk (World.endReplay _ o, o, queue) (by simp only [toFlush, hcall, hq]; simp)
    refine ⟨hall.1, fun o' lastEventId' shared' ses hcall' hc hses hi hd => ?_⟩
    obtain ⟨rfl, rfl, rfl⟩ := Call.answered.inj hcall'
    exact List.Subset.trans (hbefore ses hses hi hd hc) hall.2.subset
  | _ => exact ⟨h, fun _ _ _ _ hc => absurd hc (by simp)⟩

/-! ## The other steps -/

theorem Inv.adopt (h : Inv s) (p o : Nat) : Inv (s.adopt p o) := by
  unfold World.adopt
  split
  · have hnew : Inv (s.setSession o {}) := by
      apply h.setSession
      · intro e he
        cases he
      · exact List.Pairwise.nil
      · intro i hi
        cases hi
      · intro i lastEventId _ _ hi
        cases hi
    exact { hnew with }
  · exact h

theorem Inv.collect (h : Inv s) (p : Nat) : Inv (s.collect p) := { h with }

theorem Inv.push (h : Inv s) {p : Nat} (hk : s.Kept max (.push p e)) : Inv (s.push max p e) := by
  have hnew : e ∉ s.pushed := fun he => hk.1 (mem_map_of_mem he)
  have hpushed : ∀ publish, Inv { s with
      pushed := s.pushed ++ [e], outbox := s.outbox ++ [(e, publish)] } := by
    intro publish
    refine { h with fresh := ?_, spread := ?_, sent := ?_, queued := ?_ }
    · rw [map_append, nodup_append]
      refine ⟨h.fresh, nodup_singleton _, fun a ha b hb hab => hk.1 ?_⟩
      rw [map_singleton, mem_singleton] at hb
      exact hb ▸ hab ▸ ha
    · rw [map_append, ← append_assoc]
      exact h.spread.append_right [e]
    · exact fun e' he' => mem_append_left _ (h.sent he')
    · intro o e' he'
      exact (h.queued o e' he').imp_left (mem_append_left _)
  unfold World.push
  cases ho : s.holder p with
  | none => exact hpushed true
  | some o =>
    refine (hpushed false).writeFrame ⟨mem_append_right _ (mem_singleton_self e), ?_⟩
      (hk.2 o ho)
    exact Or.inr ⟨fun he => hnew (h.sent he), fun o' he => hnew (h.queued o' e he).1⟩

theorem Inv.append (h : Inv s) {n : Nat} (hk : s.Kept max (.append n)) : Inv (s.append n) := by
  unfold World.append
  split
  · exact h
  next e publish hn =>
    obtain ⟨hlt, hget⟩ := List.getElem?_eq_some_iff.mp hn
    have hperm : (s.outbox.map (·.1)).Perm (e :: (s.outbox.eraseIdx n).map (·.1)) := by
      have := (getElem_cons_eraseIdx_perm hlt).symm.map (·.1)
      rwa [map_cons, hget] at this
    have hl : ∀ a, a ∈ s.log → a ∈ s.log ++ [e] := fun a => mem_append_left _
    refine { h with spread := ?_, comparable := ?_, heard := ?_, queued := ?_, apart := ?_,
                    answered := ?_ }
    · rw [append_assoc]
      exact h.spread.trans (hperm.append_left s.log)
    · rcases hk (e, publish) hn with hp | hp
      · exact Or.inl (hp.trans (prefix_append _ _))
      · exact Or.inr hp
    · intro p a ha
      dsimp only at ha
      split at ha
      · exact append_subset.mpr
          ⟨fun b hb => hl b (h.heard p hb), subset_append_right _ _⟩ ha
      · exact hl a (h.heard p ha)
    · intro o a ha
      exact (h.queued o a ha).imp_right (Or.imp_left (hl a))
    · intro o
      exact (h.apart o).imp fun hab heq => hl _ (hab heq)
    · intro i o lastEventId shared hc hcall
      obtain ⟨old, pre, a, t, hs, hr, hid, hlog, hb⟩ := h.answered i o lastEventId shared hc hcall
      exact ⟨old, pre, a, t, hs, hr, hid, hlog.trans (prefix_append _ _), hb⟩

theorem Inv.hear (h : Inv s) {p : Nat} (hk : s.Kept max (.hear p)) : Inv (s.hear max p) := by
  unfold World.hear
  cases hin : s.inbox p with
  | nil => exact h
  | cons e rest =>
    have hlog : e ∈ s.log := h.heard p (hin ▸ mem_cons_self ..)
    have hheard : Inv { s with inbox := update s.inbox p rest } := by
      refine { h with heard := fun p' => ?_ }
      show update s.inbox p rest p' ⊆ s.log
      rcases eq_or_ne p' p with rfl | hne
      · rw [update_self]
        exact fun a ha => h.heard p' (hin ▸ mem_cons_of_mem e ha)
      · rw [update_of_ne hne]
        exact h.heard p'
    cases ho : s.holder p with
    | none => exact hheard
    | some o => exact hheard.writeFrame ⟨h.log_pushed hlog, Or.inl hlog⟩ (hk e (by rw [hin]; rfl) o ho)

theorem Inv.lose (h : Inv s) : Inv s.lose := by
  have hseen : s.lose.seen = s.received := append_nil _
  have hpre : s.received <+: s.seen := prefix_append _ _
  refine { h with comparable := ?_, once := ?_, sent := ?_, queued := ?_, reopened := ?_,
                  answered := ?_ }
  · rw [hseen]
    rcases h.comparable with hp | hp
    · exact Or.inl (hpre.trans hp)
    · exact prefix_or_prefix_of_prefix hpre hp
  · rw [hseen]
    exact h.once.sublist hpre.sublist
  · rw [hseen]
    exact List.Subset.trans hpre.subset h.sent
  · intro o e he
    rw [hseen]
    exact (h.queued o e he).imp_right (Or.imp_right fun hn => ⟨fun hr => hn.1 (hpre.subset hr), hn.2⟩)
  · intro i o lastEventId hc
    cases hc
  · intro i o lastEventId shared hc
    cases hc

theorem Inv.receive (h : Inv s) : Inv s.receive := by
  unfold World.receive
  split
  · exact h
  next e rest hw =>
    have hseen : ({ s with received := s.received ++ [e], wire := rest } : World).seen = s.seen := by
      simp [seen, hw]
    -- frames on the wire: the runner's call has been answered long ago
    have hno : ∀ i o lastEventId, s.client = some i → s.asks i = some (o, lastEventId) → False := by
      intro i o lastEventId hc ha
      have := (h.reopened i o lastEventId hc ha).1
      rw [hw] at this
      cases this
    refine { h with comparable := ?_, once := ?_, sent := ?_, queued := ?_, reopened := ?_,
                    answered := ?_ }
    · rw [hseen]
      exact h.comparable
    · rw [hseen]
      exact h.once
    · rw [hseen]
      exact h.sent
    · rw [hseen]
      exact h.queued
    · intro i o lastEventId hc ha
      exact (hno i o lastEventId hc ha).elim
    · intro i o lastEventId shared hc hcall
      exact (hno i o lastEventId hc (asks_of_answered hcall)).elim

theorem Inv.close (h : Inv s) (o i : Nat) : Inv (s.close o i) := by
  have hd : Inv { s with destroyed := update s.destroyed i true } := { h with }
  unfold World.close
  cases hses : s.sessions o with
  | none =>
    simp only [hses]
    exact hd
  | some ses =>
    simp only [hses]
    split
    · have hw : ({ ses with stream := none } : StreamableSession).waits = s.waiting o :=
        (waiting_of_session hses).symm
      apply hd.setSession
      · rw [hw]
        exact h.queued o
      · rw [hw]
        exact h.apart o
      · intro j hj
        cases hj
      · intro j lastEventId _ _ hj
        cases hj
    · exact hd

theorem Inv.setCall_idle (h : Inv s) (hidle : s.calls i = .idle) (hc : s.client = none) (c : Call) :
    Inv (s.setCall i c) := by
  refine { h with streams := ?_, reopened := ?_, answered := ?_ }
  · intro o j hj
    have hcall := h.streams o j hj
    have hne : j ≠ i := by
      intro he
      rw [he, hidle] at hcall
      cases hcall
    simp only [setCall]
    rwa [update_of_ne hne]
  · intro j o lastEventId hj
    exact absurd (hc.symm.trans hj) (by simp)
  · intro j o lastEventId shared hj
    exact absurd (hc.symm.trans hj) (by simp)

theorem Inv.setClient (h : Inv s) {destroyed : Nat → Bool} {before : Nat → List BufferedEvent}
    (hans : ∀ o id shared, s.calls i ≠ .answered o id shared)
    (hr : ∀ o lastEventId, s.asks i = some (o, lastEventId) →
      s.wire = [] ∧ (s.received.getLast?.map (·.id)) = some lastEventId ∧
        ∀ ses, s.sessions o = some ses → ses.stream = some i → ses.replayQueue.map (·.1) = some i) :
    Inv { s with client := some i, destroyed, before } := by
  refine { h with reopened := ?_, answered := ?_ }
  · intro j o lastEventId hj
    obtain rfl := some.inj hj
    exact hr o lastEventId
  · intro j o lastEventId shared hj hcall
    obtain rfl := some.inj hj
    exact absurd hcall (hans o lastEventId shared)

theorem Inv.open (h : Inv s) (o i : Nat) : Inv (s.open o i) := by
  unfold World.open
  split
  next ses hses hidle hclient =>
    -- the call is entered while the runner reads nothing, so nothing is owed yet
    have hcall : ∀ c, Inv (s.lose.setCall i c) := h.lose.setCall_idle hidle rfl
    cases hlast : s.received.getLast? with
    | none =>
      have hw : ({ ses with stream := some i } : StreamableSession).waits = s.waiting o :=
        (waiting_of_session hses).symm
      have hset : Inv ((s.lose.setCall i (.opened o)).setSession o
          { ses with stream := some i }) := by
        apply (hcall (.opened o)).setSession
        · rw [hw]
          exact h.lose.queued o
        · rw [hw]
          exact h.apart o
        · intro j hj
          obtain rfl := some.inj hj
          simp [setCall, Call.session]
        · intro j lastEventId hj
          cases hj
      have hopened : ∀ x, update s.calls i (.opened o) i = x → x = .opened o := by
        intro x hx
        rw [update_self] at hx
        exact hx.symm
      simp only [hlast]
      refine hset.setClient ?_ ?_
      · intro o' id shared hc
        exact absurd (hopened _ hc) (by simp)
      · intro o' lastEventId hasks
        simp [asks, setCall, World.setSession] at hasks
    | some e =>
      have hset : Inv ((s.lose.setCall i (.asked o e.id)).setSession o
          { ses with stream := some i, replayQueue := some (i, []) }) := by
        apply (hcall (.asked o e.id)).setSession
        · intro e' he'
          cases he'
        · exact List.Pairwise.nil
        · intro j hj
          obtain rfl := some.inj hj
          simp [setCall, Call.session]
        · intro j lastEventId hj
          cases hj
      simp only [hlast]
      refine hset.setClient ?_ ?_
      · intro o' id shared hc
        simp [setCall, World.setSession] at hc
      · intro o' lastEventId hasks
        simp only [asks, setCall, World.setSession, update_self, some.injEq, Prod.mk.injEq] at hasks
        obtain ⟨rfl, rfl⟩ := hasks
        refine ⟨rfl, congrArg (Option.map (·.id)) hlast, fun ses' hses' _ => ?_⟩
        simp only [World.setSession, update_self, some.injEq] at hses'
        rw [← hses']
        rfl
  · exact h

theorem Inv.read_answer (h : Inv s) {o : Nat} (hc : s.client = some i)
    (hcall : s.calls i = .asked o lastEventId) (hid : lastEventId ∈ (s.shared max).map (·.id)) :
    ∃ old pre e t, s.shared max = pre ++ e :: t ∧ s.received = old ++ pre ++ [e] ∧
      e.id = lastEventId ∧ old ++ s.shared max = s.log := by
  obtain ⟨hwire, hlast, -⟩ := h.reopened i o lastEventId hc (by simp [asks, hcall])
  have hseen : s.seen = s.received := by rw [seen, hwire, append_nil]
  obtain ⟨e, hgl, rfl⟩ := map_eq_some_iff.mp hlast
  obtain ⟨r, hr⟩ := List.getLast?_eq_some_iff.mp hgl
  obtain ⟨e', he', hide⟩ := mem_map.mp hid
  have hlog : s.log.take (s.log.length - max) ++ s.shared max = s.log :=
    take_append_drop _ _
  have hmem : e' ∈ s.log := hlog ▸ mem_append_right _ he'
  -- ids tell frames apart, so the buffer has the very frame
  obtain rfl : e' = e := h.eq_of_id (h.log_pushed hmem) (h.sent (by rw [hseen, hr]; simp)) hide
  have hpre : s.received <+: s.log := by
    rcases h.comparable with hp | hp
    · rwa [hseen] at hp
    · rw [hseen, hr, prefix_concat_iff] at hp
      rcases hp with heq | hp
      · rw [heq, hr]
      · have hd := h.once
        rw [hseen, hr, nodup_append] at hd
        exact absurd rfl (hd.2.2 e' (hp.subset hmem) e' (mem_singleton_self e'))
  obtain ⟨pre, t, hs⟩ := append_of_mem he'
  refine ⟨s.log.take (s.log.length - max), pre, e', t, hs, ?_, rfl, hlog⟩
  obtain ⟨u, hu⟩ := hpre
  rw [hr, append_assoc, singleton_append] at hu
  have hsplit : (s.log.take (s.log.length - max) ++ pre) ++ e' :: t = s.log := by
    rw [append_assoc, ← hs, hlog]
  have hd := h.log_nodup
  rw [← hu, nodup_middle, nodup_cons] at hd
  rw [← hsplit, append_cons_inj_of_notMem
    (fun hm => hd.1 (mem_append_left _ hm)) (fun hm => hd.1 (mem_append_right _ hm))] at hu
  rw [hr, hu.1]

theorem Inv.read (h : Inv s) (hk : s.Kept max (.read i)) : Inv (s.read max i) := by
  unfold World.read
  split
  next o lastEventId hcall =>
    have hasks : (s.setCall i (.answered o lastEventId (s.shared max))).asks = s.asks := by
      funext j
      rcases eq_or_ne j i with rfl | hne
      · simp [asks, setCall, hcall]
      · simp [asks, setCall, hne]
    refine { h with streams := ?_, reopened := ?_, answered := ?_ }
    · intro o' j hj
      have := h.streams o' j hj
      simp only [setCall]
      rcases eq_or_ne j i with rfl | hne
      · rw [update_self]
        rw [hcall] at this
        exact this
      · rwa [update_of_ne hne]
    · intro j o' id hc ha
      rw [hasks] at ha
      exact h.reopened j o' id hc ha
    · intro j o' id shared hc hj
      simp only [setCall] at hj
      rcases eq_or_ne j i with rfl | hne
      · rw [update_self] at hj
        obtain ⟨rfl, rfl, rfl⟩ := Call.answered.inj hj
        obtain ⟨hbefore, hid⟩ := hk hc lastEventId (by simp [asked, hcall])
        obtain ⟨old, pre, e, t, hs, hr, he, hlog⟩ := h.read_answer hc hcall hid
        refine ⟨old, pre, e, t, hs, hr, he, ?_, ?_⟩
        · show old ++ s.shared max <+: s.log
          rw [hlog]
        · rw [hlog]
          exact hbefore
      · rw [update_of_ne hne] at hj
        exact h.answered j o' id shared hc hj
  · exact h

theorem Inv.step (h : Inv s) {a : Action} (hk : s.Kept max a) : Inv (s.step max a) := by
  cases a with
  | adopt p o => exact h.adopt p o
  | collect p => exact h.collect p
  | push p e => exact h.push hk
  | append n => exact h.append hk
  | hear p => exact h.hear hk
  | «open» o i => exact h.open o i
  | read i => exact h.read hk
  | replay i report => exact (h.replay hk).1
  | close o i => exact h.close o i
  | receive => exact h.receive
  | lose => exact h.lose

theorem inv_init : Inv {} where
  fresh := nodup_nil
  spread := List.Perm.refl _
  comparable := Or.inl prefix_rfl
  once := nodup_nil
  sent := nil_subset _
  heard := fun _ => nil_subset _
  queued := fun _ _ he => by cases he
  apart := fun _ => List.Pairwise.nil
  streams := fun _ _ hi => by cases hi
  reopened := fun _ _ _ hc => by cases hc
  answered := fun _ _ _ _ hc => by cases hc

theorem Inv.delivers (h : Inv s) {a : Action} (hk : s.Kept max a) : s.Delivers max a := by
  refine ⟨?_, ?_⟩
  · have hids := (h.step hk).ids_nodup
    rw [seen, map_append] at hids
    exact (nodup_append.mp hids).1
  · intro i report o lastEventId shared ses ha hcall hc hses hi hd
    subst ha
    exact (h.replay hk).2 o lastEventId shared ses hcall hc hses hi hd

theorem worker_stream_delivers (max : Nat) (as : List Action)
    (h : Steps.Along (step max) (Kept max) {} as) : Steps.Along (step max) (Delivers max) {} as :=
  Steps.along_of_invariant Inv (fun _ _ hs hk => hs.step hk) (fun _ _ hs hk => hs.delivers hk)
    inv_init h

/-- A frame pushed by another pod while the runner is away. -/
def awayRun : List Action :=
  [.adopt 0 0, .open 0 0, .push 0 { id := "f" }, .append 0, .receive, .lose,
    .push 1 { id := "g" }, .append 0, .hear 0, .adopt 1 1, .open 1 1, .push 1 { id := "k" },
    .read 1, .replay 1 { id := "report" }, .append 0, .receive, .receive]

theorem away_run_delivers :
    Steps.Along (step 256) (Delivers 256) {} awayRun ∧
      (Steps.run (step 256) {} awayRun).received.map (·.id) = ["f", "g", "k"] :=
  ⟨worker_stream_delivers 256 awayRun (by decide), by decide⟩

/-- Pod 1 pushes `g`, and before pod 0 hears of it pod 0 pushes `f` to the stream it holds:
the buffer has `g` before `f`, the runner gets `f` first. -/
def overtakingRun : List Action :=
  [.adopt 0 0, .open 0 0, .push 0 { id := "a" }, .append 0, .receive, .push 1 { id := "g" },
    .push 0 { id := "f" }, .append 0, .append 0, .receive]

/-- The stream breaks before `g` is written; the runner comes back with `f`, and `g` is
behind it. -/
def lostRun : List Action :=
  overtakingRun ++ [.lose, .close 0 0, .hear 0, .open 0 1, .read 1]

/-- The stream breaks after `g` is written; the runner comes back with `g`, and `f` is
replayed. -/
def repeatedRun : List Action :=
  overtakingRun ++ [.hear 0, .receive, .lose, .close 0 0, .open 0 1, .read 1,
    .replay 1 { id := "report" }]

theorem overtaken_frame_lost_or_repeated :
    ¬ Steps.Along (step 256) (Delivers 256) {} (lostRun ++ [.replay 1 { id := "report" }]) ∧
      ¬ Steps.Along (step 256) (Delivers 256) {} (repeatedRun ++ [.receive]) := by
  constructor
  · intro h
    have hlast := (Steps.along_iff.mp h lostRun (.replay 1 { id := "report" }) [] rfl).2 1
      { id := "report" } 0 "f" [{ id := "a" }, { id := "g" }, { id := "f" }] _ rfl rfl rfl rfl rfl rfl
    exact absurd (hlast (show { id := "g" } ∈ _ by decide)) (by decide)
  · intro h
    have hlast := (Steps.along_iff.mp h repeatedRun .receive [] rfl).1
    exact absurd hlast (by decide)

end World

end Almyty.Runner
