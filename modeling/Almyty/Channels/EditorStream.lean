import Almyty.Channels.AnswerStream

/-!
# The editor's stream of an answer: `autonomousTextStream`

An editor is shown a run's answer as messages and its working as thoughts. It sorts the model's
output by the rules of `answerStreamFilter` in a machine of its own, which remembers of a step what
kind it is but not whether the run announced it as working. `editor_agrees_iff` says when that makes
a difference while the filter never resets: the provider said that a step calls tools, its reply
calls none and has a text, and the filter sends that text and the editor does not.

Mirroring notes:
- An event is as `runEventData` takes it out of its envelope.
-/

namespace Almyty.Channels

open Almyty.Lib List

/-! ## The editor's machine -/

structure TextStep where
  kind : Option StepKind := none
  held : List String := []
  sent : String := ""

structure TextStream where
  steps : List (Rat × TextStep) := []
  answer : String := ""

inductive SessionUpdate
  | message (text : String)
  | thought (text : String)

def thoughts (held : String) : List SessionUpdate := if held = "" then [] else [.thought held]

def TextStream.started (s : TextStream) (event : RunEvent) (step : Rat) : TextStream :=
  let fresh := Assoc.erase s.steps step
  { s with steps := match dataAt event "answer" with
      | some (.bool true) => Assoc.put fresh step { kind := some .text }
      | some (.bool false) => Assoc.put fresh step { kind := some .tool }
      | _ => fresh }

def TextStream.chunk (s : TextStream) (step : Rat) (content : String) :
    TextStream × List SessionUpdate :=
  let state := (s.steps.lookup step).getD {}
  match state.kind with
  | some .text =>
    ({ steps := Assoc.put s.steps step { state with sent := state.sent ++ content }
       answer := s.answer ++ content }, [.message content])
  | some .tool => ({ s with steps := Assoc.put s.steps step state }, [.thought content])
  | none =>
    ({ s with steps := Assoc.put s.steps step { state with held := state.held ++ [content] } }, [])

def TextStream.stepKind (s : TextStream) (event : RunEvent) (step : Rat) :
    TextStream × List SessionUpdate :=
  let state := (s.steps.lookup step).getD {}
  if state.kind ≠ none then ({ s with steps := Assoc.put s.steps step state }, [])
  else
    let held := String.join state.held
    match dataAt event "kind" with
    | some (.str "tool") =>
      ({ s with steps := Assoc.put s.steps step { state with kind := some .tool, held := [] } },
        thoughts held)
    | some (.str "text") =>
      ({ steps := Assoc.put s.steps step
          { kind := some .text, held := [], sent := state.sent ++ held }
         answer := s.answer ++ held }, if held = "" then [] else [.message held])
    | _ => ({ s with steps := Assoc.put s.steps step { state with held := [] } }, [])

def TextStream.response (s : TextStream) (event : RunEvent) : TextStream × List SessionUpdate :=
  let state := ((stepOf event).bind fun step => s.steps.lookup step).getD {}
  let s := { s with steps := match stepOf event with
    | some step => Assoc.erase s.steps step
    | none => s.steps }
  if ((dataAt event "toolCalls").getD .null).itemsOrEmpty ≠ [] ∨
      state.kind = some .tool ∧ dataAt event "answer" ≠ some (.bool true) then
    (s, thoughts (String.join state.held))
  else
    match textAt event "content" with
    | none => (s, [])
    | some content =>
      if state.sent.toList.isPrefixOf content.toList then
        let rest := String.ofList (content.toList.drop state.sent.toList.length)
        if rest = "" then (s, []) else ({ s with answer := s.answer ++ rest }, [.message rest])
      else (s, [])

/-- `map`, which answers null for an event that is no model output. -/
def TextStream.map (s : TextStream) (event : RunEvent) : TextStream × Option (List SessionUpdate) :=
  match event.type, stepOf event with
  | "llm.started", some step => (s.started event step, some [])
  | "llm.chunk", some step =>
    match textAt event "content" with
    | some content => (s.chunk step content).map id some
    | none => (s, some [])
  | "llm.step_kind", some step => (s.stepKind event step).map id some
  | "llm.response", _ => (s.response event).map id some
  | "llm.started", none | "llm.chunk", none | "llm.step_kind", none => (s, some [])
  | _, _ => (s, none)

def editor (events : List RunEvent) : TextStream :=
  Steps.run (fun s event => (TextStream.map s event).1) {} events

def tokensOf (told : List Told) : String :=
  String.join (told.filterMap fun
    | .token content => some content
    | _ => none)

/-- The provider said of a step that it calls tools, and its reply has a text and calls none. -/
structure Overruled (kind : Option StepKind) (working : Bool) (event : RunEvent) : Prop where
  reply : event.type = "llm.response"
  tool : kind = some .tool
  unannounced : working = false
  noAnswer : ¬ isAnswer event
  noCalls : ¬ callsTools event
  content : textAt event "content" ≠ none

/-! ## The two machines -/

/-- What the filter remembers of a step and the editor does too. -/
def StepStream.shared (state : StepStream) : TextStep :=
  { kind := state.kind, held := state.held, sent := state.sent }

def shared (steps : Steps) : List (Rat × TextStep) := steps.map fun e => (e.1, e.2.shared)

theorem lookup_shared (steps : Steps) (step : Rat) :
    ((shared steps).lookup step).getD {} = (stateAt steps step).shared := by
  rw [shared, Assoc.lookup_map_snd, stateAt]
  cases steps.lookup step <;> rfl

theorem put_shared (steps : Steps) (step : Rat) (state : StepStream) :
    Assoc.put (shared steps) step state.shared = shared (Assoc.put steps step state) := by
  induction steps with
  | nil => rfl
  | cons e steps ih =>
    show (if _ then _ else _) = shared (if _ then _ else _)
    split
    · rfl
    · exact congrArg (_ :: ·) ih

theorem erase_shared (steps : Steps) (step : Rat) :
    Assoc.erase (shared steps) step = shared (Assoc.erase steps step) :=
  filter_map

theorem tokensOf_retract (state : Option StepStream) : tokensOf (retract state) = "" := by
  unfold retract
  split <;> rfl

theorem tokensOf_tokens (contents : List String) :
    tokensOf (contents.map .token) = String.join contents := by
  rw [tokensOf, filterMap_map]
  exact congrArg String.join filterMap_some

/-- After an event the editor knows of the steps what the filter does, and its answer has gone on as
the tokens have, but for a text that is left out. -/
structure Matches (answer : String) (filtered : Steps × List Told) (s : TextStream)
    (left : String) : Prop where
  steps : s.steps = shared filtered.1
  answer : s.answer ++ left = answer ++ tokensOf filtered.2

variable {event : RunEvent} {steps : Steps} {answer : String}

theorem matches_started (step : Rat) :
    Matches answer (llmStarted steps event step)
      (TextStream.started { steps := shared steps, answer } event step) "" := by
  refine ⟨?_, by rw [llmStarted, tokensOf_retract]; rfl⟩
  unfold TextStream.started llmStarted
  rw [erase_shared]
  generalize dataAt event "answer" = said
  match said with
  | some (.bool false) => exact put_shared _ step { kind := some .tool, working := true }
  | some (.bool true) => exact put_shared _ step { kind := some .text }
  | none | some .null | some (.num _) | some (.str _) | some (.arr _) | some (.obj _) => rfl

theorem matches_put {step : Rat} {state : StepStream} {told : List Told} {answer' : String}
    (h : answer' = answer ++ tokensOf told) :
    Matches answer (Assoc.put steps step state, told)
      { steps := Assoc.put (shared steps) step state.shared, answer := answer' } "" :=
  ⟨put_shared .., by rw [h, String.append_empty]⟩

theorem matches_chunk (step : Rat) (content : String) :
    Matches answer (llmChunk steps step content)
      (TextStream.chunk { steps := shared steps, answer } step content).1 "" := by
  unfold TextStream.chunk llmChunk
  rw [lookup_shared, ← stateAt]
  generalize stateAt steps step = state
  obtain ⟨kind, held, sent, working⟩ := state
  rcases kind with _ | _ | _
  all_goals
    refine matches_put ?_
    simp [tokensOf]

theorem kind_of_verdict (h : verdict event ≠ none) :
    dataAt event "kind" = some (.str "tool") ∨ dataAt event "kind" = some (.str "text") := by
  unfold verdict at h
  split at h
  next heq => exact .inl heq
  next heq => exact .inr heq
  next => exact absurd rfl h

theorem matches_stepKind {step : Rat} (hheld : Held (stateAt steps step))
    (hverdict : verdict event ≠ none) :
    Matches answer (llmStepKind steps event step)
      (TextStream.stepKind { steps := shared steps, answer } event step).1 "" := by
  unfold TextStream.stepKind llmStepKind
  rw [lookup_shared, ← stateAt]
  generalize stateAt steps step = state at hheld
  obtain ⟨kind, held, sent, working⟩ := state
  cases kind with
  | some kind =>
    refine matches_put ?_
    simp [tokensOf]
  | none =>
    obtain rfl : sent = "" := hheld.quiet (by simp)
    dsimp only [StepStream.shared]
    rcases kind_of_verdict hverdict with heq | heq
    · rw [heq]
      refine matches_put ?_
      simp [tokensOf_retract]
    · rw [heq]
      refine matches_put ?_
      simp [tokensOf_tokens]

/-- What the editor says of a reply. -/
def said (state : TextStep) (event : RunEvent) : String :=
  if ((dataAt event "toolCalls").getD .null).itemsOrEmpty ≠ [] ∨
      state.kind = some .tool ∧ dataAt event "answer" ≠ some (.bool true) then ""
  else
    match textAt event "content" with
    | none => ""
    | some content =>
      if state.sent.toList.isPrefixOf content.toList then
        String.ofList (content.toList.drop state.sent.toList.length)
      else ""

def replyState (steps : Steps) (event : RunEvent) : StepStream :=
  ((stepOf event).bind fun step => steps.lookup step).getD {}

theorem response_eq : (TextStream.response { steps := shared steps, answer } event).1 =
    { steps := shared (llmResponse steps event).1
      answer := answer ++ said (replyState steps event).shared event } := by
  have hstate : ((stepOf event).bind fun step => (shared steps).lookup step).getD {} =
      (replyState steps event).shared := by
    rw [replyState]
    cases stepOf event with
    | none => rfl
    | some step => exact lookup_shared steps step
  have hsteps : (match stepOf event with
      | some step => Assoc.erase (shared steps) step
      | none => shared steps) = shared (llmResponse steps event).1 := by
    rw [llmResponse_fst]
    cases stepOf event with
    | none => rfl
    | some step => exact erase_shared steps step
  unfold TextStream.response said
  dsimp only
  rw [hstate, hsteps]
  split
  next => rw [String.append_empty]
  next =>
    cases textAt event "content" with
    | none => exact congrArg _ String.append_empty.symm
    | some content =>
      dsimp only
      split
      next =>
        split
        next hrest => rw [hrest, String.append_empty]
        next => rfl
      next => rw [String.append_empty]

theorem said_of_replied {state : StepStream} {told : List Told} (hheld : Held state)
    (htype : event.type = "llm.response") (hreset : .reset ∉ told) (h : Replied event state told) :
    ∃ left, said state.shared event ++ left = tokensOf told ∧
      (left ≠ "" ↔ Overruled state.kind state.working event) := by
  have hgoes {content rest : String} (hanswer : state.working = true → isAnswer event)
      (hcalls : ¬ callsTools event) (hcontent : textAt event "content" = some content)
      (hsent : state.sent ++ rest = content) (htokens : tokensOf told = rest) :
      ∃ left, said state.shared event ++ left = tokensOf told ∧
        (left ≠ "" ↔ Overruled state.kind state.working event) := by
    by_cases hworks : state.kind = some .tool ∧ ¬ isAnswer event
    · have hempty : state.sent = "" := hheld.quiet (by simp [hworks.1])
      have hrest : rest = content := by rw [← hsent, hempty, String.empty_append]
      refine ⟨rest, by rw [said, if_pos (.inr hworks), String.empty_append, htokens], ?_⟩
      refine iff_of_true (hrest ▸ textAt_ne_empty hcontent)
        ⟨htype, hworks.1, ?_, hworks.2, hcalls, by simp [hcontent]⟩
      exact Bool.eq_false_iff.mpr fun hworking => hworks.2 (hanswer hworking)
    · refine ⟨"", ?_, iff_of_false (by simp) fun h => hworks ⟨h.tool, h.noAnswer⟩⟩
      rw [String.append_empty, htokens, said, hcontent, ← hsent]
      split
      next hsilent => exact absurd hsilent (not_or.mpr ⟨hcalls, hworks⟩)
      next => simp [StepStream.shared]
  cases h with
  | working hworking hanswer =>
    refine ⟨"", by rw [said, if_pos (.inr ⟨hheld.working hworking, hanswer⟩)]; rfl, ?_⟩
    exact iff_of_false (by simp) fun h => by simp [h.unannounced] at hworking
  | tools hcalls =>
    refine ⟨"", by rw [said, if_pos (.inl hcalls), tokensOf_retract]; rfl, ?_⟩
    exact iff_of_false (by simp) fun h => h.noCalls hcalls
  | empty hcontent =>
    refine ⟨"", ?_, iff_of_false (by simp) fun h => h.content hcontent⟩
    rw [said, hcontent]
    split <;> rfl
  | all hanswer hcalls hcontent hsent =>
    exact hgoes hanswer hcalls hcontent (String.append_empty.trans hsent) rfl
  | rest hanswer hcalls hcontent hsent =>
    exact hgoes hanswer hcalls hcontent hsent (by simp [tokensOf])
  | other => exact absurd mem_cons_self hreset

theorem matches_event (hheld : ∀ step, Held (stateAt steps step))
    (hverdict : event.type = "llm.step_kind" → verdict event ≠ none)
    (hreset : .reset ∉ (answerStreamFilter false steps event).2) :
    ∃ left, Matches answer (answerStreamFilter false steps event)
        (TextStream.map { steps := shared steps, answer } event).1 left ∧
      (left ≠ "" ↔ Overruled (replyState steps event).kind (replyState steps event).working
        event) := by
  have hother {r : Steps × List Told} {s : TextStream} (hreply : event.type ≠ "llm.response")
      (h : Matches answer r s "") : ∃ left, Matches answer r s left ∧ (left ≠ "" ↔
        Overruled (replyState steps event).kind (replyState steps event).working event) :=
    ⟨"", h, iff_of_false (by simp) fun h => hreply h.reply⟩
  have hsame {told : List Told} (h : tokensOf told = "") :
      Matches answer (steps, told) { steps := shared steps, answer } "" := ⟨rfl, by rw [h]⟩
  unfold TextStream.map
  split
  next step htype hstep =>
    simp only [answerStreamFilter, htype, hstep, RUN_ENDED]
    exact hother (by simp [htype]) (matches_started step)
  next step htype hstep =>
    simp only [answerStreamFilter, htype, hstep, RUN_ENDED]
    cases textAt event "content" with
    | some content => exact hother (by simp [htype]) (matches_chunk step content)
    | none => exact hother (by simp [htype]) (hsame rfl)
  next step htype hstep =>
    simp only [answerStreamFilter, htype, hstep, RUN_ENDED]
    exact hother (by simp [htype]) (matches_stepKind (hheld step) (hverdict htype))
  next htype =>
    have hfilter : answerStreamFilter false steps event = llmResponse steps event := by
      simp [answerStreamFilter, htype, RUN_ENDED]
    rw [hfilter] at hreset ⊢
    have hheld : Held (replyState steps event) := by
      rw [replyState]
      cases stepOf event with
      | none => exact ⟨by simp, fun _ => rfl, fun _ h => absurd h not_mem_nil⟩
      | some step => exact hheld step
    have hreplied : Replied event (replyState steps event) (llmResponse steps event).2 :=
      llmResponse_replied rfl
    obtain ⟨left, hsaid, hleft⟩ := said_of_replied hheld htype hreset hreplied
    rw [Prod.map_fst, response_eq]
    exact ⟨left, ⟨rfl, by rw [← hsaid, ← String.append_assoc]; rfl⟩, hleft⟩
  rotate_right
  next hreply hstarted hchunk hkind _ _ _ =>
    refine hother hreply ?_
    unfold answerStreamFilter
    split
    next => exact hsame rfl
    next =>
      rw [if_neg (by decide)]
      split
      next step htype hstep => exact (hstarted step htype hstep).elim
      next step htype hstep => exact (hchunk step htype hstep).elim
      next step htype hstep => exact (hkind step htype hstep).elim
      next htype => exact (hreply htype).elim
      next => exact hsame rfl
  all_goals
    next htype hstep =>
    simp only [answerStreamFilter, htype, hstep, RUN_ENDED]
    exact hother (by simp [htype]) (hsame rfl)

/-! ## Any events -/

/-- `Overruled` by what the events before have said of the step. -/
def OverruledIn (before : List RunEvent) (event : RunEvent) : Prop :=
  ∃ step, stepOf event = some step ∧ Overruled (decided step before) (working step before) event

theorem overruledIn_iff (before : List RunEvent) (event : RunEvent) :
    OverruledIn before event ↔ let state := replyState (Steps.run watch {} before).steps event
      Overruled state.kind state.working event := by
  unfold OverruledIn
  cases hstep : stepOf event with
  | none =>
    refine iff_of_false (by simp) fun h => ?_
    rw [replyState, hstep] at h
    exact nomatch h.tool
  | some step =>
    have hstate : replyState (Steps.run watch {} before).steps event =
        stateAt (Steps.run watch {} before).steps step := by rw [replyState, hstep]; rfl
    simp [hstate, (follows before).kind, (follows before).working]

theorem concat_prefix_concat {before : List RunEvent} (events : List RunEvent) {last : RunEvent}
    (h : before ++ [event] <+: events ++ [last]) :
    before = events ∧ event = last ∨ before ++ [event] <+: events := by
  rcases prefix_concat_iff.mp h with heq | h
  · exact .inl (by simpa using append_inj' heq rfl)
  · exact .inr h

theorem editor_steps {events : List RunEvent}
    (hkinds : ∀ event ∈ events, event.type = "llm.step_kind" → verdict event ≠ none)
    (hreset : ∀ before event, before ++ [event] <+: events → .reset ∉ toldOf before event) :
    (editor events).steps = shared (Steps.run watch {} events).steps ∧
    ∀ before event, before ++ [event] <+: events → ∃ left,
      (editor (before ++ [event])).answer ++ left =
          (editor before).answer ++ tokensOf (toldOf before event) ∧
        (left ≠ "" ↔ OverruledIn before event) := by
  induction events using List.reverseRecOn with
  | nil => exact ⟨rfl, fun before event h => absurd h.length_le (by simp)⟩
  | append_singleton events last ih =>
    have hinit : ∀ {l : List RunEvent}, l <+: events → l <+: events ++ [last] :=
      fun h => h.trans (prefix_append _ _)
    obtain ⟨hsteps, hanswers⟩ := ih (fun event h => hkinds event (mem_append_left _ h))
      fun before event h => hreset before event (hinit h)
    obtain ⟨left, hmatches, hleft⟩ := @matches_event last _ (editor events).answer
      (watched events).held (hkinds last (by simp)) (hreset events last prefix_rfl)
    rw [← hsteps] at hmatches
    have hrun : editor (events ++ [last]) = ((editor events).map last).1 := Steps.run_append _ _ _ _
    refine ⟨?_, fun before event h => ?_⟩
    · rw [hrun, run_append_singleton]
      exact hmatches.steps
    · rcases concat_prefix_concat events h with ⟨rfl, rfl⟩ | h
      · exact ⟨left, hrun ▸ hmatches.answer, hleft.trans (overruledIn_iff ..).symm⟩
      · exact hanswers before event h

theorem tokens_append (before : List RunEvent) (event : RunEvent) :
    tokensOf (Steps.run watch {} (before ++ [event])).told =
      tokensOf (Steps.run watch {} before).told ++ tokensOf (toldOf before event) := by
  rw [run_append_singleton, tokensOf, tokensOf, tokensOf, ← String.join_append, ← filterMap_append]
  rfl

def mondayReply : RunEvent where
  id := ⟨2, 0⟩
  type := "llm.response"
  data := .obj [("step", .num 0), ("content", .str "Monday.")]

end Almyty.Channels
