import Almyty.Channels.VisitorReply
import Almyty.Lib.Steps

/-!
# What a visitor sees of an answer: `answer-stream.filter.ts`

The tokens sent since the last reset are on the visitor's screen. `answer_stream` says what the
filter lets onto it, for any events in any order: nothing of a step announced as working, until its
reply is said to be the answer; of a step that turns out to call tools nothing but its own reply,
should that call none after all; and once a reply that is the answer has come, that reply exactly.

An attempt at a step is what comes between `llm.started` and `llm.response`.
-/

namespace Almyty.Channels

open Almyty.Lib Almyty.Runs List

/-! ## One step of the run -/

def stateAt (steps : Steps) (step : Rat) : StepStream := (steps.lookup step).getD {}

theorem stateAt_put (steps : Steps) (step : Rat) (state : StepStream) (k : Rat) :
    stateAt (Assoc.put steps step state) k = if k = step then state else stateAt steps k := by
  rw [stateAt, Assoc.lookup_put, stateAt]
  split <;> rfl

theorem stateAt_erase (steps : Steps) (step k : Rat) :
    stateAt (Assoc.erase steps step) k = if k = step then {} else stateAt steps k := by
  rw [stateAt, Assoc.lookup_erase, stateAt]
  split <;> rfl

theorem retract_lookup (steps : Steps) (step : Rat) :
    retract (steps.lookup step) = retract (some (stateAt steps step)) := by
  rw [stateAt]
  cases steps.lookup step <;> rfl

/-- What `llm.started` says of the attempt. -/
def announced (event : RunEvent) : StepStream :=
  match dataAt event "answer" with
  | some (.bool false) => { kind := some .tool, working := true }
  | some (.bool true) => { kind := some .text }
  | _ => {}

def verdict (event : RunEvent) : Option StepKind :=
  match dataAt event "kind" with
  | some (.str "tool") => some .tool
  | some (.str "text") => some .text
  | _ => none

def isAnswer (event : RunEvent) : Prop := dataAt event "answer" = some (.bool true)

def callsTools (event : RunEvent) : Prop :=
  ((dataAt event "toolCalls").getD .null).itemsOrEmpty ≠ []

inductive Replied (event : RunEvent) (state : StepStream) : List Told → Prop
  | working (hworking : state.working = true) (hanswer : ¬ isAnswer event) : Replied event state []
  | tools (hcalls : callsTools event) : Replied event state (retract (some state))
  | empty (hcontent : textAt event "content" = none) : Replied event state []
  | all {content : String} (hanswer : state.working = true → isAnswer event)
      (hcalls : ¬ callsTools event) (hcontent : textAt event "content" = some content)
      (hsent : state.sent = content) : Replied event state []
  | rest {content rest : String} (hanswer : state.working = true → isAnswer event)
      (hcalls : ¬ callsTools event) (hcontent : textAt event "content" = some content)
      (hsent : state.sent ++ rest = content) : Replied event state [.token rest]
  | other {content : String} (hanswer : state.working = true → isAnswer event)
      (hcalls : ¬ callsTools event) (hcontent : textAt event "content" = some content)
      (hsent : state.sent ≠ "") : Replied event state [.reset, .token content]

inductive Moved (event : RunEvent) (state : StepStream) : StepStream → List Told → Prop
  | started (htype : event.type = "llm.started") :
      Moved event state (announced event) (retract (some state))
  | dropped (htype : event.type = "llm.chunk") (hkind : state.kind = some .tool) :
      Moved event state state []
  | sent {content : String} (htype : event.type = "llm.chunk")
      (hcontent : textAt event "content" = some content) (hkind : state.kind = some .text) :
      Moved event state { state with sent := state.sent ++ content } [.token content]
  | held {content : String} (htype : event.type = "llm.chunk")
      (hcontent : textAt event "content" = some content) (hkind : state.kind = none) :
      Moved event state { state with held := state.held ++ [content] } []
  | unchanged (htype : event.type = "llm.step_kind")
      (hkind : state.kind ≠ none ∨ verdict event = none) : Moved event state state []
  | tool (htype : event.type = "llm.step_kind") (hkind : state.kind = none)
      (hverdict : verdict event = some .tool) :
      Moved event state { state with kind := some .tool, held := [], sent := "" }
        (retract (some state))
  | text (htype : event.type = "llm.step_kind") (hkind : state.kind = none)
      (hverdict : verdict event = some .text) :
      Moved event state
        { state with kind := some .text, held := [], sent := state.sent ++ String.join state.held }
        (state.held.map .token)
  | replied {told : List Told} (htype : event.type = "llm.response")
      (h : Replied event state told) : Moved event state {} told

inductive Filtered (steps : Steps) (event : RunEvent) : Steps × List Told → Prop
  | ignored {told : List Told} (hreply : event.type ≠ "llm.response")
      (hstep : event.type = "llm.started" ∨ event.type = "llm.step_kind" → stepOf event = none)
      (htold : told = [] ∨ told = [.done event.type]) : Filtered steps event (steps, told)
  | stepless {told : List Told} (htype : event.type = "llm.response") (hstep : stepOf event = none)
      (h : Replied event {} told) : Filtered steps event (steps, told)
  | moved {steps' : Steps} {told : List Told} {step : Rat} {state : StepStream}
      (hstep : stepOf event = some step) (h : Moved event (stateAt steps step) state told)
      (hsteps : ∀ k, stateAt steps' k = if k = step then state else stateAt steps k) :
      Filtered steps event (steps', told)

variable {event : RunEvent}

theorem textAt_ne_empty {key content : String} (h : textAt event key = some content) :
    content ≠ "" := by
  unfold textAt at h
  split at h
  next text _ =>
    by_cases hempty : text = ""
    · rw [if_pos hempty] at h
      cases h
    · rw [if_neg hempty] at h
      cases h
      exact hempty
  next => cases h

theorem append_ofList_drop {sent content : String}
    (h : sent.toList.isPrefixOf content.toList = true) :
    sent ++ String.ofList (content.toList.drop sent.toList.length) = content := by
  obtain ⟨rest, hrest⟩ := isPrefixOf_iff_prefix.mp h
  rw [← String.toList_inj, String.toList_append, String.toList_ofList, ← hrest, drop_left]

variable {state : StepStream}

variable {steps : Steps}

theorem llmResponse_replied
    (h : state = (((stepOf event).bind fun step => steps.lookup step).getD {})) :
    Replied event state (llmResponse steps event).2 := by
  have hretract : retract ((stepOf event).bind fun step => steps.lookup step) =
      retract (some state) := by
    rw [h]
    cases (stepOf event).bind fun step => steps.lookup step <;> rfl
  have hworking : ((stepOf event).bind fun step => steps.lookup step).any (·.working) =
      state.working := by
    rw [h]
    cases (stepOf event).bind fun step => steps.lookup step <;> rfl
  have hsent : ((((stepOf event).bind fun step => steps.lookup step).map (·.sent)).getD "") =
      state.sent := by
    rw [h]
    cases (stepOf event).bind fun step => steps.lookup step <;> rfl
  unfold llmResponse
  simp only [hretract, hworking, hsent]
  by_cases hquiet : state.working = true ∧ ¬ isAnswer event
  · rw [if_pos (by simpa [isAnswer] using hquiet)]
    exact .working hquiet.1 hquiet.2
  · rw [if_neg (by simpa [isAnswer] using hquiet)]
    have hanswer : state.working = true → isAnswer event := fun hw =>
      Classical.not_not.mp fun hnot => hquiet ⟨hw, hnot⟩
    by_cases hcalls : ((dataAt event "toolCalls").getD .null).itemsOrEmpty ≠ []
    · rw [if_pos hcalls]
      exact .tools hcalls
    · rw [if_neg hcalls]
      cases hcontent : textAt event "content" with
      | none => exact .empty hcontent
      | some content =>
        dsimp only
        split
        next hprefix =>
          -- the reply goes on from what was sent
          have hrest := append_ofList_drop hprefix
          by_cases hnil : content.toList.drop state.sent.toList.length = []
          · rw [if_pos hnil]
            rw [hnil] at hrest
            exact .all hanswer hcalls hcontent (by simpa using hrest)
          · rw [if_neg hnil]
            exact .rest hanswer hcalls hcontent hrest
        next hprefix =>
          -- every text begins with the empty one
          have hsent : state.sent ≠ "" := by
            intro hempty
            rw [hempty] at hprefix
            exact hprefix rfl
          have hreset : retract (some state) = [.reset] := by
            simp [retract, hsent]
          rw [hreset]
          exact .other hanswer hcalls hcontent hsent

theorem llmStarted_fst (steps : Steps) (event : RunEvent) (step k : Rat) :
    stateAt (llmStarted steps event step).1 k =
      if k = step then announced event else stateAt steps k := by
  have hput : ∀ state, stateAt (Assoc.put (Assoc.erase steps step) step state) k =
      if k = step then state else stateAt steps k := by
    intro state
    rw [stateAt_put, stateAt_erase]
    by_cases hk : k = step
    · rw [if_pos hk, if_pos hk]
    · rw [if_neg hk, if_neg hk, if_neg hk]
  unfold llmStarted announced
  generalize dataAt event "answer" = answer
  match answer with
  | some (.bool false) => exact hput _
  | some (.bool true) => exact hput _
  | none | some .null | some (.num _) | some (.str _) | some (.arr _) | some (.obj _) =>
    exact stateAt_erase steps step k

theorem llmResponse_fst (steps : Steps) (event : RunEvent) :
    (llmResponse steps event).1 =
      match stepOf event with
      | some step => Assoc.erase steps step
      | none => steps := by
  unfold llmResponse
  dsimp only
  split
  · rfl
  · split
    · rfl
    · split
      · rfl
      · split <;> rfl

variable {content : String}

theorem llmChunk_moved {step : Rat} (htype : event.type = "llm.chunk")
    (hstep : stepOf event = some step) (hcontent : textAt event "content" = some content) :
    Filtered steps event (llmChunk steps step content) := by
  unfold llmChunk
  dsimp only
  split
  next hkind => exact .moved hstep (.dropped htype hkind) (stateAt_put _ _ _)
  next hkind => exact .moved hstep (.sent htype hcontent hkind) (stateAt_put _ _ _)
  next hkind => exact .moved hstep (.held htype hcontent hkind) (stateAt_put _ _ _)

theorem llmStepKind_moved {step : Rat} (htype : event.type = "llm.step_kind")
    (hstep : stepOf event = some step) :
    Filtered steps event (llmStepKind steps event step) := by
  unfold llmStepKind
  dsimp only
  split
  next hkind => exact .moved hstep (.unchanged htype (.inl hkind)) (stateAt_put _ _ _)
  next hkind =>
    have hkind : (stateAt steps step).kind = none := Classical.not_not.mp hkind
    split
    next heq =>
      exact .moved hstep (.tool htype hkind (by simp [verdict, heq])) (stateAt_put _ _ _)
    next heq =>
      exact .moved hstep (.text htype hkind (by simp [verdict, heq])) (stateAt_put _ _ _)
    next hnot hnot' =>
      have hverdict : verdict event = none := by
        unfold verdict
        split
        next heq => exact absurd heq hnot
        next heq => exact absurd heq hnot'
        next => rfl
      exact .moved hstep (.unchanged htype (.inr hverdict)) (stateAt_put _ _ _)

theorem llmResponse_filtered (steps : Steps) (htype : event.type = "llm.response") :
    Filtered steps event (llmResponse steps event) := by
  have hfst := llmResponse_fst steps event
  have hsnd : Replied event _ (llmResponse steps event).2 := llmResponse_replied rfl
  generalize llmResponse steps event = r at hfst hsnd
  obtain ⟨steps', told⟩ := r
  cases hstep : stepOf event with
  | none =>
    rw [hstep] at hfst hsnd
    cases hfst
    exact .stepless htype hstep hsnd
  | some step =>
    rw [hstep] at hfst hsnd
    cases hfst
    exact .moved hstep (.replied htype hsnd) (stateAt_erase _ _)

theorem answerStreamFilter_filtered (steps : Steps) (event : RunEvent) :
    Filtered steps event (answerStreamFilter false steps event) := by
  unfold answerStreamFilter
  by_cases hended : RUN_ENDED.contains event.type = true
  · rw [if_pos hended]
    have htype : event.type ∈ RUN_ENDED := contains_iff_mem.mp hended
    refine .ignored ?_ ?_ (.inr rfl)
    · intro h
      rw [h] at htype
      exact absurd htype (by decide)
    · rintro (h | h) <;>
      · rw [h] at htype
        exact absurd htype (by decide)
  · rw [if_neg hended, if_neg (by decide)]
    split
    next htype hstep =>
      exact .moved hstep (retract_lookup .. ▸ .started htype) (llmStarted_fst _ _ _)
    next htype hstep =>
      split
      next content hcontent => exact llmChunk_moved htype hstep hcontent
      next =>
        refine .ignored ?_ ?_ (.inl rfl)
        · rw [htype]
          decide
        · rw [htype]
          intro h
          exact absurd h (by decide)
    next htype hstep => exact llmStepKind_moved htype hstep
    next htype => exact llmResponse_filtered steps htype
    next hreply hstarted _ hkind =>
      refine .ignored hreply ?_ (.inl rfl)
      rintro (h | h)
      · exact Option.eq_none_iff_forall_ne_some.mpr fun step hstep => hstarted step h hstep
      · exact Option.eq_none_iff_forall_ne_some.mpr fun step hstep => hkind step h hstep

/-! ## The screen -/

/-- A token on the screen: the step it was sent for, and whether its attempt's reply has come. -/
structure Shown where
  step : Option Rat
  answered : Bool
  content : String

structure Screen where
  steps : Steps := []
  shown : List Shown := []
  /-- The steps that tokens were sent for. -/
  senders : List (Option Rat) := []
  told : List Told := []

/-- The tokens sent since the last reset. -/
def visible (told : List Told) : String :=
  told.foldl
    (fun text told =>
      match told with
      | .token content => text ++ content
      | .reset => ""
      | .done _ => text)
    ""

def textOf (shown : List Shown) : String := String.join (shown.map (·.content))

def display (step : Option Rat) (answered : Bool) (shown : List Shown) : Told → List Shown
  | .token content => shown ++ [{ step, answered, content }]
  | .reset => []
  | .done _ => shown

/-- The reply of a step's attempt has come. -/
def Shown.answer (step : Option Rat) (shown : Shown) : Shown :=
  if shown.step = step then { shown with answered := true } else shown

def isToken : Told → Bool
  | .token _ => true
  | _ => false

def isReply (event : RunEvent) : Bool := event.type = "llm.response"

def answeredBy (event : RunEvent) (shown : List Shown) : List Shown :=
  if isReply event then shown.map (Shown.answer (stepOf event)) else shown

def sendersAfter (step : Option Rat) (told : List Told) (senders : List (Option Rat)) :
    List (Option Rat) :=
  if told.any isToken then senders ++ [step] else senders

def watch (screen : Screen) (event : RunEvent) : Screen :=
  let (steps, told) := answerStreamFilter false screen.steps event
  { steps
    shown := told.foldl (display (stepOf event) (isReply event)) (answeredBy event screen.shown)
    senders := sendersAfter (stepOf event) told screen.senders
    told := screen.told ++ told }

theorem textOf_append (shown shown' : List Shown) :
    textOf (shown ++ shown') = textOf shown ++ textOf shown' := by
  rw [textOf, map_append, String.join_append]
  rfl

theorem textOf_answeredBy (event : RunEvent) (shown : List Shown) :
    textOf (answeredBy event shown) = textOf shown := by
  rw [answeredBy]
  split
  next =>
    rw [textOf, textOf, map_map]
    congr 2
    funext token
    rw [Function.comp_apply, Shown.answer]
    split <;> rfl
  next => rfl

theorem textOf_display (step : Option Rat) (answered : Bool) (shown : List Shown)
    (before told : List Told) (h : textOf shown = visible before) :
    textOf (told.foldl (display step answered) shown) = visible (before ++ told) := by
  induction told generalizing shown before with
  | nil => rw [append_nil, ← h]; rfl
  | cons one told ih =>
    rw [foldl_cons, append_cons, ih _ (before ++ [one])]
    rw [visible, foldl_append]
    cases one with
    | token content =>
      rw [display, textOf_append, h]
      simp [textOf, visible]
    | reset => rfl
    | done => exact h

/-! ## What the events say of an attempt -/

def workingBy (step : Rat) (was : Bool) (event : RunEvent) : Bool :=
  if stepOf event ≠ some step then was
  else if event.type = "llm.started" then (announced event).working
  else if event.type = "llm.response" then false
  else was

def working (step : Rat) (events : List RunEvent) : Bool := events.foldl (workingBy step) false

def decidedBy (step : Rat) (was : Option StepKind) (event : RunEvent) : Option StepKind :=
  if stepOf event ≠ some step then was
  else if event.type = "llm.started" then (announced event).kind
  else if event.type = "llm.response" then none
  else if event.type = "llm.step_kind" then was.or (verdict event)
  else was

def decided (step : Rat) (events : List RunEvent) : Option StepKind :=
  events.foldl (decidedBy step) none

theorem working_append (step : Rat) (events : List RunEvent) (event : RunEvent) :
    working step (events ++ [event]) = workingBy step (working step events) event :=
  foldl_append

theorem decided_append (step : Rat) (events : List RunEvent) (event : RunEvent) :
    decided step (events ++ [event]) = decidedBy step (decided step events) event :=
  foldl_append

/-! ## What the filter keeps -/

structure Follows (events : List RunEvent) (steps : Steps) : Prop where
  working : ∀ step, (stateAt steps step).working = working step events
  kind : ∀ step, (stateAt steps step).kind = decided step events

variable {told : List Told}

theorem Moved.follows {state state' : StepStream} {step : Rat} (h : Moved event state state' told)
    (hstep : stepOf event = some step) :
    state'.working = workingBy step state.working event ∧
      state'.kind = decidedBy step state.kind event := by
  rw [workingBy, decidedBy, if_neg (not_not.mpr hstep), if_neg (not_not.mpr hstep)]
  cases h with
  | started htype => rw [if_pos htype, if_pos htype]; exact ⟨rfl, rfl⟩
  | dropped htype | sent htype | held htype | replied htype => simp [htype]
  | unchanged htype hkind =>
    rcases hkind with hkind | hverdict
    · obtain ⟨kind, hkind⟩ := Option.ne_none_iff_exists'.mp hkind
      simp [htype, hkind]
    · simp [htype, hverdict]
  | tool htype hkind hverdict | text htype hkind hverdict => simp [htype, hkind, hverdict]

theorem Follows.step {events : List RunEvent} (h : Follows events steps) (event : RunEvent) :
    Follows (events ++ [event]) (answerStreamFilter false steps event).1 := by
  have hfiltered := answerStreamFilter_filtered steps event
  generalize answerStreamFilter false steps event = r at hfiltered
  cases hfiltered with
  | ignored hreply hstep =>
    constructor
    · intro step
      rw [working_append, h.working, workingBy]
      grind
    · intro step
      rw [decided_append, h.kind, decidedBy]
      grind
  | stepless htype hstep =>
    constructor
    · intro step
      rw [working_append, h.working, workingBy, hstep, if_pos nofun]
    · intro step
      rw [decided_append, h.kind, decidedBy, hstep, if_pos nofun]
  | @moved steps' told step state hstep hmoved hsteps =>
    obtain ⟨hworking, hkind⟩ := hmoved.follows hstep
    constructor
    · intro k
      rw [working_append, ← h.working, hsteps]
      by_cases hk : k = step
      · rw [if_pos hk, hk, hworking]
      · rw [if_neg hk, workingBy, hstep, if_pos (by simpa using Ne.symm hk)]
    · intro k
      rw [decided_append, ← h.kind, hsteps]
      by_cases hk : k = step
      · rw [if_pos hk, hk, hkind]
      · rw [if_neg hk, decidedBy, hstep, if_pos (by simpa using Ne.symm hk)]

inductive Sending (sent : String) : String → List Told → Prop
  | nothing : Sending sent sent []
  | retracted {state : StepStream} (hsent : state.sent = sent) :
      Sending sent "" (retract (some state))
  | tokens (contents : List String) (hcontents : ∀ content ∈ contents, content ≠ "") :
      Sending sent (sent ++ String.join contents) (contents.map .token)

structure Held (state : StepStream) : Prop where
  working : state.working = true → state.kind = some .tool
  quiet : state.kind ≠ some .text → state.sent = ""
  held : ∀ content ∈ state.held, content ≠ ""

theorem held_announced (event : RunEvent) : Held (announced event) := by
  unfold announced
  split <;> exact ⟨by simp, fun _ => rfl, fun _ h => absurd h not_mem_nil⟩

theorem announced_sent (event : RunEvent) : (announced event).sent = "" := by
  unfold announced
  split <;> rfl

theorem Moved.keeps_held {state state' : StepStream} (h : Moved event state state' told)
    (hheld : Held state) : Held state' := by
  cases h with
  | started => exact held_announced event
  | dropped | unchanged => exact hheld
  | sent _ _ hkind => exact ⟨hheld.working, fun hnot => absurd hkind hnot, hheld.held⟩
  | held _ hcontent hkind =>
    refine ⟨hheld.working, hheld.quiet, ?_⟩
    intro content hmem
    rcases mem_append.mp hmem with hmem | hmem
    · exact hheld.held content hmem
    · rw [mem_singleton.mp hmem]
      exact textAt_ne_empty hcontent
  | tool => exact ⟨fun _ => rfl, fun _ => rfl, fun _ h => absurd h not_mem_nil⟩
  | text _ hkind =>
    refine ⟨?_, fun hnot => absurd rfl hnot, fun _ h => absurd h not_mem_nil⟩
    intro hworking
    rw [hheld.working hworking] at hkind
    cases hkind
  | replied => exact ⟨nofun, fun _ => rfl, fun _ h => absurd h not_mem_nil⟩

theorem Moved.sending {state state' : StepStream} (h : Moved event state state' told)
    (hheld : Held state) (hreply : event.type ≠ "llm.response") :
    Sending state.sent state'.sent told := by
  cases h with
  | started => exact announced_sent event ▸ .retracted rfl
  | dropped | held | unchanged => exact .nothing
  | @sent content _ hcontent =>
    have htokens : Sending state.sent (state.sent ++ String.join [content]) ([content].map .token) :=
      .tokens [content] fun _ h => mem_singleton.mp h ▸ textAt_ne_empty hcontent
    simpa using htokens
  | tool => exact .retracted rfl
  | text => exact .tokens state.held hheld.held
  | replied htype => exact absurd htype hreply

structure Onscreen (sentAt : Rat → String) (shown : List Shown) (senders : List (Option Rat)) :
    Prop where
  /-- A token whose attempt has had no reply is of the attempt that is kept. -/
  attempt : ∀ token ∈ shown, token.answered = false →
    ∃ step, token.step = some step ∧ sentAt step ≠ ""
  sender : ∀ token ∈ shown, token.step ∈ senders
  sent : ∀ step, sentAt step ≠ "" → some step ∈ senders
  /-- Where one step alone has sent tokens, it knows what is on the screen. -/
  only : ∀ step, (∀ sender ∈ senders, sender = some step) →
    sentAt step = textOf (shown.filter fun token => !token.answered)

variable {sentAt : Rat → String} {shown : List Shown} {senders : List (Option Rat)}

variable {sentAt' : Rat → String}

theorem Onscreen.reset (h : Onscreen sentAt shown senders) {step : Rat} (hstep : sentAt step ≠ "")
    (hnow : sentAt' step = "") (hsent : ∀ k, sentAt' k ≠ "" → sentAt k ≠ "") :
    Onscreen sentAt' [] senders where
  attempt _ hmem := absurd hmem not_mem_nil
  sender _ hmem := absurd hmem not_mem_nil
  sent k hk := h.sent k (hsent k hk)
  only k hk := by
    obtain rfl : step = k := Option.some.inj (hk _ (h.sent step hstep))
    exact hnow

theorem Onscreen.answer (h : Onscreen sentAt shown senders) (step : Option Rat) (content : String) :
    Onscreen sentAt (shown ++ [{ step, answered := true, content }]) (senders ++ [step]) where
  attempt token hmem hopen := by
    rcases mem_append.mp hmem with hmem | hmem
    · exact h.attempt token hmem hopen
    · rw [mem_singleton.mp hmem] at hopen
      cases hopen
  sender token hmem := by
    rcases mem_append.mp hmem with hmem | hmem
    · exact mem_append_left _ (h.sender token hmem)
    · rw [mem_singleton.mp hmem]
      exact mem_append_right _ mem_cons_self
  sent k hk := mem_append_left _ (h.sent k hk)
  only k hk := by
    rw [filter_append, h.only k fun sender hmem => hk sender (mem_append_left _ hmem)]
    simp

theorem Onscreen.mark (h : Onscreen sentAt shown senders) (step : Option Rat)
    (hsent : ∀ k, sentAt' k = if some k = step then "" else sentAt k) :
    Onscreen sentAt' (shown.map (Shown.answer step)) senders := by
  have hother : ∀ token : Shown, token.step ≠ step → Shown.answer step token = token :=
    fun token hne => if_neg hne
  have hstep : ∀ token : Shown, (Shown.answer step token).step = token.step := by
    intro token
    unfold Shown.answer
    split <;> rfl
  have hanswered : ∀ token : Shown, token.step = step →
      (Shown.answer step token).answered = true := by
    intro token heq
    rw [Shown.answer, if_pos heq]
  constructor
  · intro marked hmem hopen
    obtain ⟨token, htoken, rfl⟩ := mem_map.mp hmem
    have hne : token.step ≠ step := by
      intro heq
      rw [hanswered token heq] at hopen
      cases hopen
    rw [hother token hne] at hopen ⊢
    obtain ⟨k, hk, hne'⟩ := h.attempt token htoken hopen
    refine ⟨k, hk, ?_⟩
    rwa [hsent, if_neg (hk ▸ hne)]
  · intro marked hmem
    obtain ⟨token, htoken, rfl⟩ := mem_map.mp hmem
    rw [hstep]
    exact h.sender token htoken
  · intro k hk
    rw [hsent] at hk
    split at hk
    next => exact absurd rfl hk
    next => exact h.sent k hk
  · intro k hk
    rw [hsent]
    have hall : ∀ token ∈ shown, token.step = some k := fun token htoken =>
      hk _ (h.sender token htoken)
    by_cases heq : some k = step
    · -- the only step there is has its reply, so none of its tokens is open
      rw [if_pos heq]
      have hnone : (shown.map (Shown.answer step)).filter (fun token => !token.answered) = [] := by
        rw [filter_eq_nil_iff]
        intro marked hmem
        obtain ⟨token, htoken, rfl⟩ := mem_map.mp hmem
        rw [hanswered token ((hall token htoken).trans heq)]
        decide
      rw [hnone]
      rfl
    · rw [if_neg heq, h.only k hk]
      have hsame : shown.map (Shown.answer step) = shown := by
        refine (map_congr_left fun token htoken => ?_).trans (map_id shown)
        exact hother token (hall token htoken ▸ heq)
      rw [hsame]

theorem join_ne_empty {contents : List String} (hne : contents ≠ [])
    (h : ∀ content ∈ contents, content ≠ "") : String.join contents ≠ "" := by
  cases contents with
  | nil => exact absurd rfl hne
  | cons content contents =>
    rw [String.join_cons]
    intro heq
    exact h content mem_cons_self (String.append_eq_empty_iff.mp heq).1

theorem Onscreen.tokens (h : Onscreen sentAt shown senders) {step : Rat} {contents : List String}
    (hne : contents ≠ []) (hcontents : ∀ content ∈ contents, content ≠ "")
    (hsent : ∀ k, sentAt' k = if k = step then sentAt step ++ String.join contents else sentAt k) :
    Onscreen sentAt'
      (shown ++ contents.map (Shown.mk (some step) false))
      (senders ++ [some step]) := by
  have hstep : sentAt' step ≠ "" := by
    rw [hsent, if_pos rfl]
    intro heq
    exact join_ne_empty hne hcontents (String.append_eq_empty_iff.mp heq).2
  have hkeeps : ∀ k, sentAt k ≠ "" → sentAt' k ≠ "" := by
    intro k hk
    by_cases heq : k = step
    · rwa [heq]
    · rwa [hsent, if_neg heq]
  constructor
  · intro token hmem hopen
    rcases mem_append.mp hmem with hmem | hmem
    · obtain ⟨k, hk, hne⟩ := h.attempt token hmem hopen
      exact ⟨k, hk, hkeeps k hne⟩
    · obtain ⟨content, -, rfl⟩ := mem_map.mp hmem
      exact ⟨step, rfl, hstep⟩
  · intro token hmem
    rcases mem_append.mp hmem with hmem | hmem
    · exact mem_append_left _ (h.sender token hmem)
    · obtain ⟨content, -, rfl⟩ := mem_map.mp hmem
      exact mem_append_right _ mem_cons_self
  · intro k hk
    by_cases heq : k = step
    · rw [heq]
      exact mem_append_right _ mem_cons_self
    · rw [hsent, if_neg heq] at hk
      exact mem_append_left _ (h.sent k hk)
  · intro k hk
    obtain rfl : step = k :=
      Option.some.inj (hk (some step) (mem_append_right _ mem_cons_self))
    have hopen : (contents.map (Shown.mk (some step) false)).filter
        (fun token => !token.answered) = contents.map (Shown.mk (some step) false) := by
      rw [filter_eq_self]
      intro token hmem
      obtain ⟨content, -, rfl⟩ := mem_map.mp hmem
      rfl
    rw [hsent, if_pos rfl, filter_append, textOf_append, hopen,
      h.only step fun sender hmem => hk sender (mem_append_left _ hmem)]
    simp [textOf, Function.comp_def]

theorem foldl_display_tokens (step : Option Rat) (answered : Bool) (contents : List String)
    (shown : List Shown) :
    (contents.map Told.token).foldl (display step answered) shown =
      shown ++ contents.map (Shown.mk step answered) := by
  induction contents generalizing shown with
  | nil => exact (append_nil shown).symm
  | cons content contents ih =>
    rw [map_cons, foldl_cons, ih, map_cons, display, append_assoc]
    rfl

theorem retract_of_empty (h : state.sent = "") : retract (some state) = [] := by
  simp [retract, h]

theorem retract_of_sent (h : state.sent ≠ "") : retract (some state) = [.reset] := by
  simp [retract, h]

theorem Onscreen.sending (h : Onscreen sentAt shown senders) {step : Rat} {new : String}
    (hsending : Sending (sentAt step) new told)
    (hsent : ∀ k, sentAt' k = if k = step then new else sentAt k) :
    Onscreen sentAt' (told.foldl (display (some step) false) shown)
      (sendersAfter (some step) told senders) := by
  have hsame : new = sentAt step → sentAt' = sentAt := by
    intro heq
    funext k
    rw [hsent, heq]
    by_cases hk : k = step
    · rw [if_pos hk, hk]
    · rw [if_neg hk]
  cases hsending with
  | nothing => exact hsame rfl ▸ h
  | @retracted state hstate =>
    -- a reset is sent only where there is something to take back
    by_cases hempty : state.sent = ""
    · rw [retract_of_empty hempty, hsame (hstate ▸ hempty.symm)]
      exact h
    · rw [retract_of_sent hempty]
      refine h.reset (hstate ▸ hempty) (by rw [hsent, if_pos rfl]) ?_
      intro k hk
      rw [hsent] at hk
      split at hk
      next => exact absurd rfl hk
      next => exact hk
  | tokens contents hcontents =>
    rw [foldl_display_tokens]
    by_cases hnil : contents = []
    · subst hnil
      have hjoin : sentAt step ++ String.join [] = sentAt step := by simp
      rw [hsame hjoin, map_nil, append_nil]
      exact h
    · have htoken : sendersAfter (some step) (contents.map .token) senders =
          senders ++ [some step] := by
        obtain ⟨content, rest, rfl⟩ := exists_cons_of_ne_nil hnil
        rfl
      rw [htoken]
      exact h.tokens hnil hcontents hsent

theorem Onscreen.replied (h : Onscreen sentAt shown senders) {step : Option Rat}
    (hreplied : Replied event state told) (hstate : ∀ k, step = some k → state.sent = sentAt k)
    (hnone : step = none → state.sent = "")
    (hsent : ∀ k, sentAt' k = if some k = step then "" else sentAt k) :
    Onscreen sentAt' (told.foldl (display step true) (shown.map (Shown.answer step)))
      (sendersAfter step told senders) := by
  have hmarked := h.mark step hsent
  have hreset : state.sent ≠ "" → Onscreen sentAt' [] senders := by
    intro hne
    cases step with
    | none => exact absurd (hnone rfl) hne
    | some k =>
      refine h.reset (hstate k rfl ▸ hne) (by rw [hsent, if_pos rfl]) ?_
      intro k' hk'
      rw [hsent] at hk'
      split at hk'
      next => exact absurd rfl hk'
      next => exact hk'
  cases hreplied with
  | working | empty | all => exact hmarked
  | tools =>
    by_cases hempty : state.sent = ""
    · rw [retract_of_empty hempty]
      exact hmarked
    · rw [retract_of_sent hempty]
      exact hreset hempty
  | rest => exact hmarked.answer step _
  | other _ _ _ hne => exact (hreset hne).answer step _

/-! ## Any events -/

structure Watched (screen : Screen) : Prop where
  held : ∀ step, Held (stateAt screen.steps step)
  onscreen : Onscreen (fun step => (stateAt screen.steps step).sent) screen.shown screen.senders

theorem watched_start : Watched {} where
  held _ := ⟨nofun, fun _ => rfl, fun _ h => absurd h not_mem_nil⟩
  onscreen := ⟨fun _ h => absurd h not_mem_nil, fun _ h => absurd h not_mem_nil,
    fun _ h => absurd rfl h, fun _ _ => rfl⟩

theorem Watched.watch {screen : Screen} (h : Watched screen) (event : RunEvent) :
    Watched (watch screen event) := by
  have hfiltered := answerStreamFilter_filtered screen.steps event
  unfold Channels.watch
  generalize answerStreamFilter false screen.steps event = r at hfiltered
  cases hfiltered with
  | ignored hreply hstep htold =>
    have hquiet : answeredBy event screen.shown = screen.shown := by
      simp [answeredBy, isReply, hreply]
    refine ⟨h.held, ?_⟩
    rcases htold with rfl | rfl <;> exact hquiet.symm ▸ h.onscreen
  | stepless htype hstep hreplied =>
    have hreply : isReply event = true := by simp [isReply, htype]
    refine ⟨h.held, ?_⟩
    dsimp only
    rw [answeredBy, hreply, if_pos rfl, hstep]
    exact h.onscreen.replied hreplied nofun (fun _ => rfl) fun k => (if_neg nofun).symm
  | @moved steps' told step state hstep hmoved hsteps =>
    constructor
    · intro k
      dsimp only
      rw [hsteps]
      -- the step of the event moved, the others are as they were
      split
      next => exact hmoved.keeps_held (h.held step)
      next => exact h.held k
    · dsimp only
      have hsent : ∀ k, (stateAt steps' k).sent =
          if k = step then state.sent else (stateAt screen.steps k).sent := by
        intro k
        rw [hsteps]
        split <;> rfl
      by_cases htype : event.type = "llm.response"
      · have hreply : isReply event = true := by simp [isReply, htype]
        rw [answeredBy, hreply, if_pos rfl, hstep]
        cases hmoved with
        | replied _ hreplied =>
          refine h.onscreen.replied hreplied ?_ nofun ?_
          · intro k hk
            cases hk
            rfl
          · intro k
            rw [hsent]
            by_cases hk : k = step
            · rw [if_pos hk, if_pos (congrArg some hk)]
            · rw [if_neg hk, if_neg fun heq => hk (Option.some.inj heq)]
        | _ => simp_all
      · have hreply : isReply event = false := by simp [isReply, htype]
        rw [answeredBy, hreply, if_neg (by decide), hstep]
        exact h.onscreen.sending (hmoved.sending (h.held step) htype) hsent

theorem watched (events : List RunEvent) : Watched (Steps.run watch {} events) :=
  Steps.run_invariant Watched (P := fun _ _ => True) (fun _ event h _ => h.watch event)
    watched_start (Steps.along_iff.mpr fun _ _ _ _ => trivial)

theorem run_append_singleton (events : List RunEvent) (event : RunEvent) :
    Steps.run watch {} (events ++ [event]) = watch (Steps.run watch {} events) event :=
  Steps.run_append _ _ _ _

theorem follows (events : List RunEvent) : Follows events (Steps.run watch {} events).steps := by
  induction events using List.reverseRecOn with
  | nil => exact ⟨fun _ => rfl, fun _ => rfl⟩
  | append_singleton events event ih =>
    rw [run_append_singleton]
    exact ih.step event

theorem textOf_shown (events : List RunEvent) :
    textOf (Steps.run watch {} events).shown = visible (Steps.run watch {} events).told := by
  induction events using List.reverseRecOn with
  | nil => rfl
  | append_singleton events event ih =>
    rw [run_append_singleton]
    exact textOf_display _ _ _ _ _ ((textOf_answeredBy event _).trans ih)

def toldOf (before : List RunEvent) (event : RunEvent) : List Told :=
  (answerStreamFilter false (Steps.run watch {} before).steps event).2

theorem Replied.token (h : Replied event state told) (hmem : .token content ∈ told) :
    (state.working = true → isAnswer event) ∧ ¬ callsTools event ∧
      (state.sent = "" → textAt event "content" = some content) := by
  cases h with
  | working | empty | all => cases hmem
  | tools =>
    rw [retract] at hmem
    split at hmem <;> simp at hmem
  | rest hanswer hcalls hcontent hsent =>
    obtain rfl := Told.token.inj (mem_singleton.mp hmem)
    refine ⟨hanswer, hcalls, ?_⟩
    intro hempty
    rw [hcontent, ← hsent, hempty]
    simp
  | other hanswer hcalls hcontent hsent =>
    exact ⟨hanswer, hcalls, fun hempty => absurd hempty hsent⟩

theorem Moved.token {state state' : StepStream} (h : Moved event state state' told)
    (hkind : state.kind = some .tool) (hmem : .token content ∈ told) :
    event.type = "llm.response" ∧ Replied event state told := by
  have hretract : .token content ∉ retract (some state) := by
    intro hmem
    rw [retract] at hmem
    split at hmem <;> simp at hmem
  cases h with
  | started | tool => exact absurd hmem hretract
  | dropped | held | unchanged => cases hmem
  | sent _ _ htext => exact absurd (hkind.symm.trans htext) (by decide)
  | text _ hnone => exact absurd (hkind.symm.trans hnone) (by decide)
  | replied htype hreplied => exact ⟨htype, hreplied⟩

theorem moved_of_step (before : List RunEvent) {step : Rat} (hstep : stepOf event = some step) :
    (∃ state, Moved event (stateAt (Steps.run watch {} before).steps step) state
        (toldOf before event) ∧
      stateAt (Steps.run watch {} (before ++ [event])).steps step = state) ∨
    event.type ≠ "llm.response" ∧ event.type ≠ "llm.started" ∧
      ∀ content, .token content ∉ toldOf before event := by
  have hfiltered := answerStreamFilter_filtered (Steps.run watch {} before).steps event
  rw [run_append_singleton, watch, toldOf]
  generalize answerStreamFilter false (Steps.run watch {} before).steps event = r at hfiltered
  cases hfiltered with
  | ignored hreply hstepless htold =>
    refine .inr ⟨hreply, ?_, ?_⟩
    · intro htype
      rw [hstepless (.inl htype)] at hstep
      cases hstep
    · intro content hmem
      rcases htold with rfl | rfl
      · cases hmem
      · simp at hmem
  | stepless _ hnone =>
    rw [hnone] at hstep
    cases hstep
  | moved hstep' hmoved hsteps =>
    obtain rfl := Option.some.inj (hstep.symm.trans hstep')
    exact .inl ⟨_, hmoved, by rw [hsteps, if_pos rfl]⟩

variable {before : List RunEvent}

theorem tool_sends_reply {step : Rat} (hstep : stepOf event = some step)
    (hkind : decided step before = some .tool) (hmem : .token content ∈ toldOf before event) :
    event.type = "llm.response" ∧ (working step before = true → isAnswer event) ∧
      ¬ callsTools event ∧ textAt event "content" = some content := by
  rcases moved_of_step before hstep with ⟨state, hmoved, -⟩ | ⟨-, -, hnone⟩
  · have hkind' := ((follows before).kind step).trans hkind
    obtain ⟨htype, hreplied⟩ := hmoved.token hkind' hmem
    obtain ⟨hanswer, hcalls, hcontent⟩ := hreplied.token hmem
    rw [(follows before).working] at hanswer
    refine ⟨htype, hanswer, hcalls, hcontent (((watched before).held step).quiet ?_)⟩
    rw [hkind']
    decide
  · exact absurd hmem (hnone content)

theorem working_decided {step : Rat} (h : working step before = true) :
    decided step before = some .tool := by
  rw [← (follows before).working] at h
  rw [← (follows before).kind]
  exact ((watched before).held step).working h

theorem tool_shows_nothing {step : Rat} (hkind : decided step before = some .tool) :
    ∀ token ∈ (Steps.run watch {} before).shown, token.step = some step →
      token.answered = true := by
  intro token hmem hstep
  by_contra hopen
  obtain ⟨k, hk, hsent⟩ := (watched before).onscreen.attempt token hmem (by simpa using hopen)
  obtain rfl := Option.some.inj (hstep.symm.trans hk)
  refine hsent (((watched before).held step).quiet ?_)
  rw [(follows before).kind, hkind]
  decide

theorem started_shows_nothing {step : Rat} (hstep : stepOf event = some step)
    (htype : event.type = "llm.started") :
    ∀ token ∈ (Steps.run watch {} (before ++ [event])).shown, token.step = some step →
      token.answered = true := by
  intro token hmem htoken
  by_contra hopen
  obtain ⟨k, hk, hsent⟩ :=
    (watched (before ++ [event])).onscreen.attempt token hmem (by simpa using hopen)
  obtain rfl := Option.some.inj (htoken.symm.trans hk)
  rcases moved_of_step before hstep with ⟨state, hmoved, hstate⟩ | ⟨-, hnot, -⟩
  · rw [hstate] at hsent
    generalize toldOf before event = told at hmoved
    cases hmoved with
    | started => exact hsent (announced_sent event)
    | _ => simp_all
  · exact hnot htype

theorem reply_shown {step : Rat} (hstep : stepOf event = some step)
    (htype : event.type = "llm.response") (hanswer : working step before = true → isAnswer event)
    (hcalls : ¬ callsTools event) (hcontent : textAt event "content" = some content)
    (hsenders : ∀ sender ∈ (Steps.run watch {} before).senders, sender = some step)
    (hopen : ∀ token ∈ (Steps.run watch {} before).shown, token.answered = false) :
    visible (Steps.run watch {} (before ++ [event])).told = content := by
  have hshown : textOf (Steps.run watch {} before).shown =
      (stateAt (Steps.run watch {} before).steps step).sent := by
    rw [(watched before).onscreen.only step hsenders, filter_eq_self.mpr]
    intro token hmem
    rw [hopen token hmem]
    rfl
  rw [run_append_singleton]
  change visible ((Steps.run watch {} before).told ++ toldOf before event) = content
  rcases moved_of_step before hstep with ⟨state, hmoved, -⟩ | ⟨hnot, -, -⟩
  · rw [← (follows before).working] at hanswer
    rw [textOf_shown] at hshown
    generalize toldOf before event = told at hmoved
    cases hmoved with
    | replied _ hreplied =>
      rw [visible, foldl_append, ← visible, hshown]
      cases hreplied with
      | working hworking hnot => exact absurd (hanswer hworking) hnot
      | tools h => exact absurd h hcalls
      | empty h => exact absurd (h.symm.trans hcontent) nofun
      | all _ _ h hsent | rest _ _ h hsent =>
        exact hsent.trans (Option.some.inj (h.symm.trans hcontent))
      | other _ _ h =>
        obtain rfl := Option.some.inj (h.symm.trans hcontent)
        simp
    | _ => simp_all
  · exact absurd htype hnot

structure AnswerShown (before : List RunEvent) (event : RunEvent) (step : Rat) : Prop where
  /-- Nothing of an attempt announced as working is sent, but a reply that is the answer. -/
  working : working step before = true → ¬ (event.type = "llm.response" ∧ isAnswer event) →
    ∀ content, .token content ∉ toldOf before event
  /-- Nothing of an attempt decided as tool is sent, but its reply where that calls none. -/
  tool : decided step before = some .tool → ∀ content, .token content ∈ toldOf before event →
    event.type = "llm.response" ∧ ¬ callsTools event ∧ textAt event "content" = some content
  /-- Nothing that was sent of it before is seen. -/
  toolShown : decided step before = some .tool →
    ∀ token ∈ (Steps.run watch {} before).shown, token.step = some step → token.answered = true
  /-- When a step starts over, nothing of an attempt without a reply is seen. -/
  started : event.type = "llm.started" →
    ∀ token ∈ (Steps.run watch {} (before ++ [event])).shown, token.step = some step →
      token.answered = true
  /-- After a reply that is the answer it alone is seen. -/
  replied : ∀ content, event.type = "llm.response" →
    (Channels.working step before = true → isAnswer event) → ¬ callsTools event →
    textAt event "content" = some content →
    (∀ sender ∈ (Steps.run watch {} before).senders, sender = some step) →
    (∀ token ∈ (Steps.run watch {} before).shown, token.answered = false) →
    visible (Steps.run watch {} (before ++ [event])).told = content

theorem answer_stream (before : List RunEvent) (event : RunEvent) (step : Rat)
    (hstep : stepOf event = some step) : AnswerShown before event step where
  working hworking hnot content hmem := by
    obtain ⟨htype, hanswer, -, -⟩ := tool_sends_reply hstep (working_decided hworking) hmem
    exact hnot ⟨htype, hanswer hworking⟩
  tool hkind content hmem := by
    obtain ⟨htype, -, hcalls, hcontent⟩ := tool_sends_reply hstep hkind hmem
    exact ⟨htype, hcalls, hcontent⟩
  toolShown := tool_shows_nothing
  started := started_shows_nothing hstep
  replied _ htype hanswer hcalls hcontent hsenders hopen :=
    reply_shown hstep htype hanswer hcalls hcontent hsenders hopen

theorem answer_stream_ships_monday :
    AnswerShown
      [{ id := ⟨1, 0⟩, type := "llm.step_kind",
         data := .obj [("step", .num 0), ("kind", .str "text")] },
        { id := ⟨2, 0⟩, type := "llm.chunk",
          data := .obj [("step", .num 0), ("content", .str "Ships ")] }]
      { id := ⟨3, 0⟩, type := "llm.response",
        data := .obj [("step", .num 0), ("content", .str "Ships Monday.")] } 0 :=
  answer_stream _ _ 0 rfl

/-- A reply speaks for a step decided as tool; a late text is of an attempt nothing announced; a
reply stays when its step starts over; a working step's reply is not shown. -/
theorem answer_stream_not_unconditional :
    (Steps.run watch {}
      [{ id := ⟨1, 0⟩, type := "llm.step_kind",
         data := .obj [("step", .num 0), ("kind", .str "tool")] },
        { id := ⟨2, 0⟩, type := "llm.response",
          data := .obj [("step", .num 0), ("content", .str "looking up")] }]).told =
      [.token "looking up"] ∧
    (Steps.run watch {}
      [{ id := ⟨1, 0⟩, type := "llm.started",
         data := .obj [("step", .num 0), ("answer", .bool false)] },
        { id := ⟨2, 0⟩, type := "llm.response", data := .obj [("step", .num 0)] },
        { id := ⟨3, 0⟩, type := "llm.step_kind",
          data := .obj [("step", .num 0), ("kind", .str "text")] },
        { id := ⟨4, 0⟩, type := "llm.chunk",
          data := .obj [("step", .num 0), ("content", .str "late")] }]).told =
      [.token "late"] ∧
    visible (Steps.run watch {}
      [{ id := ⟨1, 0⟩, type := "llm.response",
         data := .obj [("step", .num 0), ("content", .str "first")] },
        { id := ⟨2, 0⟩, type := "llm.started", data := .obj [("step", .num 0)] }]).told =
      "first" ∧
    visible (Steps.run watch {}
      [{ id := ⟨1, 0⟩, type := "llm.started",
         data := .obj [("step", .num 0), ("answer", .bool false)] },
        { id := ⟨2, 0⟩, type := "llm.response",
          data := .obj [("step", .num 0), ("content", .str "draft")] }]).told =
      "" := by
  refine ⟨?_, ?_, ?_, ?_⟩ <;> decide +kernel

end Almyty.Channels
