import Almyty.Channels.StreamPosition
import Almyty.Runs.Events

/-!
# A visitor's reply stream: `visitor-reply-stream.ts`, `answer-stream.filter.ts`

A run's events are reduced to its answer as it is written, and each piece of it goes out as a frame
that names the event it came from and which of that event's frames it is. A browser whose connection
drops comes back with the name of the last frame it had. The events are then read again from the
start, through a fresh filter, and what is not past the named frame is not sent.

`reply_resumes` says that over all connections a browser receives what one connection that never
dropped would have sent, in order, while the run goes on. A run that has ended is not read again:
who comes back then gets the end, and reads the rest from the transcript (`ended_not_resumed`).

Mirroring notes:
- A connection that drops has given the browser a beginning of what was written. One that runs into
  its time limit, or is refused with the wait as its only frame, has done so too.
-/

namespace Almyty.Channels

open Almyty.Lib Almyty.Runs List

structure RunEvent where
  id : StreamId
  type : String
  data : Json := .null

def dataAt (event : RunEvent) (key : String) : Option Json := event.data.fieldsOrEmpty.lookup key

/-! ## The filter -/

/-- What a filter tells its sink. -/
inductive Told
  | token (content : String)
  | reset
  | done (reason : String)
  deriving DecidableEq

inductive StepKind
  | text | tool
  deriving DecidableEq

structure StepStream where
  kind : Option StepKind := none
  held : List String := []
  sent : String := ""
  working : Bool := false

abbrev Steps := List (Rat × StepStream)

def RUN_ENDED : List String := ["run.completed", "run.failed", "run.cancelled"]

def stepOf (event : RunEvent) : Option Rat :=
  match dataAt event "step" with
  | some (.num step) => some step
  | _ => none

def textAt (event : RunEvent) (key : String) : Option String :=
  match dataAt event key with
  | some (.str text) => if text = "" then none else some text
  | _ => none

def retract (state : Option StepStream) : List Told :=
  if state.any (·.sent ≠ "") then [.reset] else []

def llmStarted (steps : Steps) (event : RunEvent) (step : Rat) : Steps × List Told :=
  let fresh := Assoc.erase steps step
  let steps' := match dataAt event "answer" with
    | some (.bool false) => Assoc.put fresh step { kind := some .tool, working := true }
    | some (.bool true) => Assoc.put fresh step { kind := some .text }
    | _ => fresh
  (steps', retract (steps.lookup step))

def llmChunk (steps : Steps) (step : Rat) (content : String) : Steps × List Told :=
  let state := (steps.lookup step).getD {}
  match state.kind with
  | some .tool => (Assoc.put steps step state, [])
  | some .text => (Assoc.put steps step { state with sent := state.sent ++ content }, [.token content])
  | none => (Assoc.put steps step { state with held := state.held ++ [content] }, [])

/-- The provider says what a step is; its first verdict stands. -/
def llmStepKind (steps : Steps) (event : RunEvent) (step : Rat) : Steps × List Told :=
  let state := (steps.lookup step).getD {}
  if state.kind ≠ none then (Assoc.put steps step state, [])
  else
    match dataAt event "kind" with
    | some (.str "tool") =>
      (Assoc.put steps step { state with kind := some .tool, held := [], sent := "" },
        retract (some state))
    | some (.str "text") =>
      (Assoc.put steps step
          { state with kind := some .text, held := [], sent := state.sent ++ String.join state.held },
        state.held.map .token)
    | _ => (Assoc.put steps step state, [])

def llmResponse (steps : Steps) (event : RunEvent) : Steps × List Told :=
  let state := (stepOf event).bind fun step => steps.lookup step
  let steps' := match stepOf event with
    | some step => Assoc.erase steps step
    | none => steps
  if state.any (·.working) && dataAt event "answer" ≠ some (.bool true) then (steps', [])
  else if ((dataAt event "toolCalls").getD .null).itemsOrEmpty ≠ [] then (steps', retract state)
  else
    match textAt event "content" with
    | none => (steps', [])
    | some content =>
      let sent := (state.map (·.sent)).getD ""
      if sent.toList.isPrefixOf content.toList then
        let rest := content.toList.drop sent.toList.length
        (steps', if rest = [] then [] else [.token (String.ofList rest)])
      else (steps', retract state ++ [.token content])

def answerStreamFilter (withholdCandidates : Bool) (steps : Steps) (event : RunEvent) :
    Steps × List Told :=
  if RUN_ENDED.contains event.type then (steps, [.done event.type])
  else if withholdCandidates then (steps, [])
  else
    match event.type, stepOf event with
    | "llm.started", some step => llmStarted steps event step
    | "llm.chunk", some step =>
      match textAt event "content" with
      | some content => llmChunk steps step content
      | none => (steps, [])
    | "llm.step_kind", some step => llmStepKind steps event step
    | "llm.response", _ => llmResponse steps event
    | _, _ => (steps, [])

/-! ## A connection -/

inductive Written
  | frame (id : String) (told : Told)
  | done (reason : String)
  deriving DecidableEq

structure Connection where
  steps : Steps := []
  closed : Bool := false
  timedOut : Bool := false

def writeTold (resumeFrom : Option VisitorStreamPos) (source : String) :
    Nat → List Told → List Written
  | _, [] => []
  | frame, .done reason :: rest => .done reason :: writeTold resumeFrom source frame rest
  | frame, told :: rest =>
    let at' : VisitorStreamPos := { event := source, frame := frame }
    -- the visitor has what is not past the frame they named
    if resumeFrom.all (visitorPosAfter at' ·) then
      .frame (visitorPosText at') told :: writeTold resumeFrom source (frame + 1) rest
    else writeTold resumeFrom source (frame + 1) rest

def onEvent (withhold : Bool) (resumeFrom : Option VisitorStreamPos) (c : Connection)
    (event : RunEvent) : Connection × List Written :=
  if c.closed then (c, [])
  else if event.type = "stream.timeout" then ({ c with timedOut := true }, [])
  else
    let (steps, told) := answerStreamFilter withhold c.steps event
    ({ c with steps := steps, closed := told.any fun t => t matches .done _ },
      writeTold resumeFrom event.id.text 0 told)

def readEvents (withhold : Bool) (resumeFrom : Option VisitorStreamPos) (c : Connection) :
    List RunEvent → List Written
  | [] => if c.closed || c.timedOut then [] else [.done "stream_ended"]
  | event :: events =>
    (onEvent withhold resumeFrom c event).2 ++
      readEvents withhold resumeFrom (onEvent withhold resumeFrom c event).1 events

def FINISHED_RUN : AgentRunStatus → Option String
  | .completed => some "run.completed"
  | .failed | .timeout => some "run.failed"
  | .cancelled => some "run.cancelled"
  | _ => none

def streamVisitorReply (withhold : Bool) (events : List RunEvent) (status : AgentRunStatus)
    (resume : Resume) : List Written :=
  match resume with
  | .invalid => []
  | .fromStart => reply none
  | .past pos => reply (some pos)
where
  reply (resumeFrom : Option VisitorStreamPos) : List Written :=
    match FINISHED_RUN status with
    | some reason => [.done reason]
    | none => readEvents withhold resumeFrom {} events

/-! ## A browser -/

def frames (written : List Written) : List (String × Told) :=
  written.filterMap fun
    | .frame id told => some (id, told)
    | .done _ => none

/-- The last frame a browser can name, of those it has received. -/
def lastEventId (got : List (String × Told)) : Given :=
  match got.getLast? with
  | some (id, _) => .text id
  | none => .nothing

section Session

variable (withhold : Bool) (events : List RunEvent) (after : Given)

def sent (status : AgentRunStatus) (got : List (String × Told)) : List Written :=
  streamVisitorReply withhold events status (visitorResumeOf (lastEventId got) after)

def received (dropped : List (AgentRunStatus × Nat)) : List (String × Told) :=
  dropped.foldl (fun got c => got ++ frames ((sent withhold events after c.1 got).take c.2)) []

end Session

/-! ## The reply -/

def placed (source : String) : Nat → List Told → List (VisitorStreamPos × Told)
  | _, [] => []
  | frame, .done _ :: rest => placed source frame rest
  | frame, told :: rest => ({ event := source, frame := frame }, told) :: placed source (frame + 1) rest

def framesFrom (withhold : Bool) (c : Connection) : List RunEvent → List (VisitorStreamPos × Told)
  | [] => []
  | event :: events =>
    (if c.closed || event.type = "stream.timeout" then []
      else placed event.id.text 0 (answerStreamFilter withhold c.steps event).2) ++
      framesFrom withhold (onEvent withhold none c event).1 events

def replyFrames (withhold : Bool) (events : List RunEvent) : List (VisitorStreamPos × Told) :=
  framesFrom withhold {} events

/-- A frame as a browser has it. -/
def named (p : VisitorStreamPos × Told) : String × Told := (visitorPosText p.1, p.2)

section Reply

variable {withhold : Bool} {events : List RunEvent}

theorem frames_append (a b : List Written) : frames (a ++ b) = frames a ++ frames b :=
  filterMap_append ..

theorem frames_writeTold (resumeFrom : Option VisitorStreamPos) (source : String) (frame : Nat)
    (told : List Told) :
    frames (writeTold resumeFrom source frame told) =
      ((placed source frame told).filter fun p => resumeFrom.all (visitorPosAfter p.1)).map named := by
  induction told generalizing frame with
  | nil => rfl
  | cons t told ih =>
    cases t with
    | done reason => exact ih frame
    | token | reset =>
      simp only [writeTold, placed, filter_cons]
      split
      · rw [map_cons, ← ih]
        rfl
      · exact ih _

theorem onEvent_connection (resumeFrom : Option VisitorStreamPos) (c : Connection) (event : RunEvent) :
    (onEvent withhold resumeFrom c event).1 = (onEvent withhold none c event).1 := by
  unfold onEvent
  split
  · rfl
  · split <;> rfl

theorem frames_readEvents (resumeFrom : Option VisitorStreamPos) (c : Connection) :
    frames (readEvents withhold resumeFrom c events) =
      ((framesFrom withhold c events).filter fun p => resumeFrom.all (visitorPosAfter p.1)).map
        named := by
  induction events generalizing c with
  | nil =>
    simp only [readEvents, framesFrom]
    split <;> rfl
  | cons event events ih =>
    rw [readEvents, framesFrom, frames_append, onEvent_connection, ih, filter_append, map_append]
    congr 1
    unfold onEvent
    cases hclosed : c.closed with
    | true => simp [frames]
    | false =>
      by_cases htimeout : event.type = "stream.timeout"
      · simp [htimeout, frames]
      · simp only [Bool.false_eq_true, if_false, htimeout, Bool.false_or, decide_false]
        exact frames_writeTold ..

variable {p : VisitorStreamPos × Told}

theorem mem_placed {source : String} {frame : Nat} {told : List Told}
    (h : p ∈ placed source frame told) : p.1.event = source ∧ frame ≤ p.1.frame := by
  induction told generalizing frame with
  | nil => cases h
  | cons t told ih =>
    cases t with
    | done reason => exact ih h
    | token | reset =>
      rcases mem_cons.mp h with rfl | h
      · exact ⟨rfl, le_refl _⟩
      · exact ⟨(ih h).1, Nat.le_of_succ_le (ih h).2⟩

theorem placed_sorted (source : String) (frame : Nat) (told : List Told) :
    (placed source frame told).Pairwise fun a b => visitorPosAfter b.1 a.1 = true := by
  induction told generalizing frame with
  | nil => exact .nil
  | cons t told ih =>
    have hlater (p : VisitorStreamPos × Told) (hp : p ∈ placed source (frame + 1) told) :
        visitorPosAfter p.1 { event := source, frame := frame } = true := by
      obtain ⟨hevent, hframe⟩ := mem_placed hp
      rw [visitorPosAfter_iff, hevent]
      exact .inr ⟨rfl, .inr ⟨rfl, hframe⟩⟩
    cases t with
    | done reason => exact ih frame
    | token | reset => exact .cons hlater (ih _)

theorem mem_framesFrom {c : Connection} (h : p ∈ framesFrom withhold c events) :
    ∃ event ∈ events, p.1.event = event.id.text := by
  induction events generalizing c with
  | nil => cases h
  | cons event events ih =>
    rcases mem_append.mp h with h | h
    · refine ⟨event, mem_cons_self, ?_⟩
      split at h
      · cases h
      · exact (mem_placed h).1
    · obtain ⟨other, hother, heq⟩ := ih h
      exact ⟨other, mem_cons_of_mem _ hother, heq⟩

theorem framesFrom_sorted (c : Connection)
    (hids : events.Pairwise fun a b => a.id.Before b.id) (hfits : ∀ event ∈ events, event.id.Fits) :
    (framesFrom withhold c events).Pairwise fun a b => visitorPosAfter b.1 a.1 = true := by
  induction events generalizing c with
  | nil => exact .nil
  | cons event events ih =>
    obtain ⟨hbefore, hids⟩ := pairwise_cons.mp hids
    rw [framesFrom, pairwise_append]
    refine ⟨?_, ih _ hids fun other hother => hfits other (mem_cons_of_mem _ hother), ?_⟩
    · split
      · exact .nil
      · exact placed_sorted ..
    · intro a ha b hb
      have hevent : a.1.event = event.id.text := by
        split at ha
        · cases ha
        · exact (mem_placed ha).1
      obtain ⟨later, hlater, hevent'⟩ := mem_framesFrom hb
      rw [visitorPosAfter_iff, hevent, hevent', parts_text (hfits event mem_cons_self),
        parts_text (hfits later (mem_cons_of_mem _ hlater))]
      rcases hbefore later hlater with hms | ⟨hms, hn⟩
      · exact .inl hms
      · exact .inr ⟨hms, .inl hn⟩

/-! ## Resuming -/

theorem visitorPosAfter_irrefl (a : VisitorStreamPos) : ¬visitorPosAfter a a = true := by
  rw [visitorPosAfter_iff]
  omega

theorem visitorPosAfter_asymm {a b : VisitorStreamPos} (h : visitorPosAfter a b = true) :
    ¬visitorPosAfter b a = true := by
  rw [visitorPosAfter_iff] at h ⊢
  omega

theorem visitorPosAfter_trans {a b c : VisitorStreamPos} (hab : visitorPosAfter a b = true)
    (hbc : visitorPosAfter b c = true) : visitorPosAfter a c = true := by
  rw [visitorPosAfter_iff] at hab hbc ⊢
  omega

theorem filter_past {l : List (VisitorStreamPos × Told)} {m : Nat}
    (hsorted : l.Pairwise fun a b => visitorPosAfter b.1 a.1 = true)
    (hlast : (l.take m).getLast? = some p) :
    (l.filter fun q => visitorPosAfter q.1 p.1) = l.drop m := by
  obtain ⟨before, hbefore⟩ := List.getLast?_eq_some_iff.mp hlast
  rw [← take_append_drop m l, hbefore, pairwise_append] at hsorted
  obtain ⟨hsortedBefore, -, hrest⟩ := hsorted
  have hnone : (l.take m).filter (fun q => visitorPosAfter q.1 p.1) = [] := by
    rw [hbefore, filter_eq_nil_iff]
    intro q hq
    rcases mem_append.mp hq with hq | hq
    · exact visitorPosAfter_asymm ((pairwise_append.mp hsortedBefore).2.2 q hq p mem_cons_self)
    · obtain rfl := mem_singleton.mp hq
      exact visitorPosAfter_irrefl _
  have hall : (l.drop m).filter (fun q => visitorPosAfter q.1 p.1) = l.drop m := by
    rw [filter_eq_self]
    intro q hq
    exact hrest p (mem_append_right _ mem_cons_self) q hq
  calc (l.filter fun q => visitorPosAfter q.1 p.1)
      = (l.take m ++ l.drop m).filter fun q => visitorPosAfter q.1 p.1 := by rw [take_append_drop]
    _ = l.drop m := by rw [filter_append, hnone, hall, nil_append]

def wanted (withhold : Bool) (events : List RunEvent) : Resume → List (VisitorStreamPos × Told)
  | .invalid => []
  | .fromStart => replyFrames withhold events
  | .past pos => (replyFrames withhold events).filter fun q => visitorPosAfter q.1 pos

theorem wanted_sublist (resume : Resume) :
    (wanted withhold events resume).Sublist (replyFrames withhold events) := by
  cases resume with
  | invalid => exact nil_sublist _
  | fromStart => exact List.Sublist.refl _
  | past pos => exact filter_sublist

theorem frames_reply {status : AgentRunStatus} (resume : Resume) (hgoing : FINISHED_RUN status = none) :
    frames (streamVisitorReply withhold events status resume) =
      (wanted withhold events resume).map named := by
  cases resume with
  | invalid => rfl
  | fromStart | past =>
    simp only [streamVisitorReply, streamVisitorReply.reply, hgoing, wanted]
    rw [frames_readEvents]
    simp [replyFrames]

theorem frames_finished {status : AgentRunStatus} {reason : String} (resume : Resume)
    (hended : FINISHED_RUN status = some reason) :
    frames (streamVisitorReply withhold events status resume) = [] := by
  cases resume with
  | invalid => rfl
  | fromStart | past => simp [streamVisitorReply, streamVisitorReply.reply, hended, frames]

theorem frames_take (written : List Written) (cut : Nat) :
    ∃ k, frames (written.take cut) = (frames written).take k := by
  have hprefix : frames (written.take cut) <+: frames written :=
    (List.take_prefix cut written).filterMap _
  exact ⟨_, prefix_iff_eq_take.mp hprefix⟩

theorem wanted_past {resume : Resume} (hp : p ∈ wanted withhold events resume) :
    wanted withhold events (.past p.1) =
      (wanted withhold events resume).filter fun q => visitorPosAfter q.1 p.1 := by
  cases resume with
  | invalid => cases hp
  | fromStart => rfl
  | past pos =>
    have hpast : visitorPosAfter p.1 pos = true := (mem_filter.mp hp).2
    simp only [wanted, filter_filter]
    refine filter_congr fun q hq => ?_
    cases hq : visitorPosAfter q.1 p.1 with
    | false => rfl
    | true => simp [visitorPosAfter_trans hq hpast]

section Session

variable {after : Given}

structure Placeable (withhold : Bool) (events : List RunEvent) : Prop where
  increasing : events.Pairwise fun a b => a.id.Before b.id
  ids : ∀ event ∈ events, event.id.Fits
  bounded : ∀ p ∈ replyFrames withhold events, p.1.frame ≤ VISITOR_LAST_FRAME

theorem Placeable.sorted (h : Placeable withhold events) :
    (replyFrames withhold events).Pairwise fun a b => visitorPosAfter b.1 a.1 = true :=
  framesFrom_sorted _ h.increasing h.ids

theorem Placeable.resumeOf (h : Placeable withhold events) {p : VisitorStreamPos × Told}
    (hp : p ∈ replyFrames withhold events) (after : Given) :
    visitorResumeOf (.text (visitorPosText p.1)) after = .past p.1 := by
  obtain ⟨event, hmem, hevent⟩ := mem_framesFrom hp
  have hplace : p.1 = { event := event.id.text, frame := p.1.frame } := by rw [← hevent]
  have hread : visitorPosOf (visitorPosText p.1) = some p.1 := by
    rw [hplace]
    exact visitorPosOf_text (h.ids event hmem) (h.bounded p hp)
  simp [visitorResumeOf, Given.pos, hread]

theorem Placeable.sent_rest (h : Placeable withhold events) {m : Nat} {status : AgentRunStatus}
    (hgoing : FINISHED_RUN status = none) :
    frames (sent withhold events after status
        (((wanted withhold events (visitorResumeOf .nothing after)).take m).map named)) =
      ((wanted withhold events (visitorResumeOf .nothing after)).drop m).map named := by
  generalize hbase : wanted withhold events (visitorResumeOf .nothing after) = base
  rw [sent, frames_reply _ hgoing]
  congr 1
  cases hlast : (base.take m).getLast? with
  | none =>
    have hempty : base.take m = [] := List.getLast?_eq_none_iff.mp hlast
    have hall : base.drop m = base := by
      have hsplit := take_append_drop m base
      rwa [hempty] at hsplit
    rw [hempty, hall, ← hbase]
    rfl
  | some p =>
    have hp : p ∈ wanted withhold events (visitorResumeOf .nothing after) :=
      hbase ▸ mem_of_mem_take (List.mem_of_getLast? hlast)
    have hname : lastEventId ((base.take m).map named) = .text (visitorPosText p.1) := by
      simp only [lastEventId, List.getLast?_map, hlast]
      rfl
    rw [hname, h.resumeOf ((wanted_sublist _).subset hp), wanted_past hp, hbase]
    exact filter_past (hbase ▸ h.sorted.sublist (wanted_sublist _)) hlast

theorem Placeable.received_beginning (h : Placeable withhold events) (after : Given)
    (dropped : List (AgentRunStatus × Nat)) :
    ∃ m, received withhold events after dropped =
      ((wanted withhold events (visitorResumeOf .nothing after)).take m).map named := by
  induction dropped using List.reverseRecOn with
  | nil => exact ⟨0, rfl⟩
  | append_singleton dropped c ih =>
    obtain ⟨m, hgot⟩ := ih
    have hstep : received withhold events after (dropped ++ [c]) =
        received withhold events after dropped ++
          frames ((sent withhold events after c.1 (received withhold events after dropped)).take c.2) := by
      simp [received]
    obtain ⟨k, hcut⟩ := frames_take
      (sent withhold events after c.1 (received withhold events after dropped)) c.2
    rw [hstep, hcut, hgot]
    cases hended : FINISHED_RUN c.1 with
    | some reason =>
      refine ⟨m, ?_⟩
      rw [sent, frames_finished _ hended, take_nil, append_nil]
    | none =>
      refine ⟨m + k, ?_⟩
      rw [h.sent_rest hended, ← map_take, ← map_append, ← take_add]

end Session

theorem reply_resumes {withhold : Bool} {events : List RunEvent} (after : Given)
    (dropped : List (AgentRunStatus × Nat)) (status : AgentRunStatus)
    (hevents : Placeable withhold events) (hgoing : FINISHED_RUN status = none) :
    let got := received withhold events after dropped
    got ++ frames (sent withhold events after status got) =
        frames (streamVisitorReply withhold events status (visitorResumeOf .nothing after)) ∧
      (∀ p ∈ replyFrames withhold events, ∀ after,
        visitorResumeOf (.text (visitorPosText p.1)) after = .past p.1) ∧
      (replyFrames withhold events).Pairwise (fun a b => visitorPosAfter b.1 a.1 = true) ∧
      ∀ ended reason resume, FINISHED_RUN ended = some reason → resume ≠ .invalid →
        streamVisitorReply withhold events ended resume = [.done reason] := by
  intro got
  refine ⟨?_, fun p hp after => hevents.resumeOf hp after, hevents.sorted, ?_⟩
  · obtain ⟨m, hgot⟩ := hevents.received_beginning after dropped
    show received withhold events after dropped ++
      frames (sent withhold events after status (received withhold events after dropped)) = _
    rw [hgot, hevents.sent_rest hgoing, frames_reply _ hgoing, ← map_append, take_append_drop]
  · intro ended reason resume hended hresume
    cases resume with
    | invalid => exact absurd rfl hresume
    | fromStart | past => simp [streamVisitorReply, streamVisitorReply.reply, hended]

/-- Two chunks of an answer that is still being written. -/
def writing : List RunEvent :=
  [{ id := ⟨1700000000000, 0⟩, type := "llm.started"
     data := .obj [("step", .num 1), ("answer", .bool true)] },
    { id := ⟨1700000000001, 0⟩, type := "llm.chunk"
      data := .obj [("step", .num 1), ("content", .str "Hel")] },
    { id := ⟨1700000000001, 1⟩, type := "llm.chunk"
      data := .obj [("step", .num 1), ("content", .str "lo")] }]

theorem replyFrames_writing : replyFrames false writing =
    [({ event := "1700000000001-0", frame := 0 }, .token "Hel"),
      ({ event := "1700000000001-1", frame := 0 }, .token "lo")] := by
  decide +kernel

theorem writing_placeable : Placeable false writing where
  increasing := by simp [writing, StreamId.Before]
  ids := by simp [writing, StreamId.Fits]
  bounded := by simp [replyFrames_writing]

/-- The connection drops after the first chunk, and the second comes over the next one. -/
theorem reply_resumes_once :
    let got := received false writing .nothing [(.running, 1)]
    got = [("1700000000001-0.0", .token "Hel")] ∧
      got ++ frames (sent false writing .nothing .running got) =
        [("1700000000001-0.0", .token "Hel"), ("1700000000001-1.0", .token "lo")] := by
  intro got
  refine ⟨by decide +kernel, ?_⟩
  have hresumes := (reply_resumes .nothing [(.running, 1)] .running writing_placeable rfl).1
  exact hresumes.trans (by decide +kernel)

theorem ended_not_resumed :
    let got := received false writing .nothing [(.running, 1)]
    sent false writing .nothing .completed got = [.done "run.completed"] ∧
      got ++ frames (sent false writing .nothing .completed got) ≠
        frames (streamVisitorReply false writing .running (visitorResumeOf .nothing .nothing)) := by
  decide +kernel

end Reply

end Almyty.Channels
