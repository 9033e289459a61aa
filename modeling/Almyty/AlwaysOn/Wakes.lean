import Almyty.AlwaysOn.Saves
import Almyty.Lib.Slots
import Almyty.Lib.Steps

/-!
# Every wake is handed over once

A wake that is consumed has one owner: the run in whose message it is, or the call that has
claimed it and will hand it over or give it back. A wake that waits, was folded away or was
dropped has none. `owners` counts both kinds, so that the whole property is one number for each
wake (`Accounted`), and every step says how the number changes.

`wakes_accounted` says in which runs it stays so:
- when the oldest wakes are folded away, none of them was claimed meanwhile, and there are still
  more than may wait;
- the answer to a run that waits is made of wakes the call has claimed, all of them: `sendInput`
  is told the wakes that were read, not those that were won;
- a claimed wake is handed over, given back or dropped: no command of the call fails on the way,
  and `startRun` fails before its run is there or not at all.
-/

namespace Almyty.AlwaysOn

open Almyty.Lib List
open Almyty.Agents (AgentStatus Uuid)

/-- The wakes a call has claimed and neither handed over nor given back. -/
def Call.holds : Call → List Uuid
  | .process _ _ (.claimingOwner _ _ _ _ won) | .process _ _ (.answering _ _ _ won)
  | .process _ _ (.claiming _ _ _ won) => won
  | .process _ _ (.starting _ _ claimed) | .process _ _ (.reopening _ _ claimed)
  | .process _ _ (.unclaiming _ claimed) | .process _ _ (.refusing _ claimed) => claimed
  | .drainInto _ _ (.claiming _ won) | .drainInto _ _ (.messaging won) => won
  | _ => []

/-- How many calls hold the wake, and how many messages it is in. -/
def World.owners (w : World) (id : Uuid) : Nat :=
  (w.calls.map fun call => call.holds.count id).sum + (w.handed.map (·.1)).count id

def Accounted : Option AgentWake → Nat → Prop
  | none, owners => owners = 0
  | some wake, owners =>
    match wake.status with
    | .queued => owners = 0
    | .consumed => owners = 1
    | .coalesced => owners = 0 ∧ maxQueuedWakes < wake.among
    | .dropped => owners = 0 ∧ wake.note.any (· ≠ "") = true

/-- Every wake is accounted for. -/
def Kept (w : World) : Prop := ∀ id, Accounted w.wakes[id]? (w.owners id)

def carefulCall (w : World) (out : Outside) : Call → Bool
  | .wake agentId _ _ (.coalescing oldest) =>
    !out.ok || (oldest.all fun id => (w.wakes[id]?).all (·.status ≠ .consumed)) &&
      maxQueuedWakes < (w.queued agentId).length
  | .process _ _ (.answering _ runId owner won) =>
    if out.ok && (w.runs[runId]?).any (·.status = .waitingInput) then owner = won else won = []
  | .process _ _ (.claimingOwner _ _ _ (_ :: _) won) | .process _ _ (.claiming _ _ (_ :: _) won)
  | .drainInto _ _ (.claiming (_ :: _) won) | .drainInto _ _ (.messaging won) => out.ok || won = []
  | .process _ _ (.queueing _ _ _) => out.ok
  | .process _ _ (.reopening _ _ claimed) | .process _ _ (.unclaiming _ claimed)
  | .process _ _ (.refusing _ claimed) => out.ok || claimed = []
  | _ => true

def careful (w : World) : Action → Bool
  | .advance i out => (w.calls[i]?).all (carefulCall w out)
  | _ => true

variable {w : World} {out : Outside} {i : Nat} {id : Uuid} {old new : Call} {effect : Effect}

/-! ## The kinds of step -/

theorem kept_moved (hold : w.calls[i]? = some old) (more : List Uuid)
    (hhanded : (w.apply effect).handed.map (·.1) = w.handed.map (·.1) ++ more)
    (hwakes : ∀ id owners,
      owners + old.holds.count id = w.owners id + new.holds.count id + more.count id →
      Accounted (w.apply effect).wakes[id]? owners) :
    Kept (w.moved i effect new) := by
  intro id
  refine hwakes id _ ?_
  have hsum : ((w.calls.set i new).map fun call => call.holds.count id).sum +
      old.holds.count id = _ := Slots.sum_map_set hold
  show ((w.calls.set i new).map fun call => call.holds.count id).sum +
    ((w.apply effect).handed.map (·.1)).count id + old.holds.count id = _
  rw [hhanded, count_append]
  unfold World.owners
  omega

theorem Kept.idle (h : Kept w) (hold : w.calls[i]? = some old)
    (hwakes : (w.apply effect).wakes = w.wakes) (hhanded : (w.apply effect).handed = w.handed)
    (hholds : new.holds = old.holds) : Kept (w.moved i effect new) := by
  refine kept_moved hold [] (by rw [hhanded, append_nil]) fun id owners howners => ?_
  rw [hholds, count_nil] at howners
  obtain rfl : owners = w.owners id := by omega
  rw [hwakes]
  exact h id

theorem getElem?_updateWakes (w : World) (ids : List Uuid) (f : AgentWake → AgentWake) (id : Uuid) :
    (w.updateWakes ids f).wakes[id]? =
      (w.wakes[id]?).map fun wake => if id ∈ ids then f wake else wake :=
  List.getElem?_mapIdx

theorem Kept.claimed (h : Kept w) (hold : w.calls[i]? = some old) (runId : Option Uuid)
    (hholds : new.holds = w.wonNext old.holds id) :
    Kept (w.moved i (.claimWake id runId) new) := by
  refine kept_moved hold [] (by rw [append_nil]; rfl) fun id' owners howners => ?_
  have hid := h id'
  rw [hholds, count_nil] at howners
  show Accounted ((w.updateWakes [id] _).wakes[id']?) owners
  rw [getElem?_updateWakes]
  unfold World.wonNext at howners
  by_cases heq : id' = id
  · subst heq
    cases hwake : w.wakes[id']? with
    | none =>
      rw [hwake] at hid howners
      obtain rfl : owners = w.owners id' := by simpa using howners
      exact hid
    | some wake =>
      rw [hwake] at hid howners
      by_cases hqueued : wake.status = .queued
      · -- it waited, so nobody had it
        have hnone : w.owners id' = 0 := by simpa only [Accounted, hqueued] using hid
        have hone : owners = 1 := by
          simp [hqueued, hnone, count_append] at howners
          omega
        simp [Accounted, hqueued, hone]
      · obtain rfl : owners = w.owners id' := by
          simp [hqueued] at howners
          omega
        simpa [hqueued] using hid
  · have hcount : (if (w.wakes[id]?).any (·.status = .queued) then old.holds ++ [id]
        else old.holds).count id' = old.holds.count id' := by
      split
      · rw [count_append, count_singleton, if_neg (by simpa using Ne.symm heq)]
        rfl
      · rfl
    obtain rfl : owners = w.owners id' := by omega
    cases hwake : w.wakes[id']? with
    | none =>
      rw [hwake] at hid
      exact hid
    | some wake =>
      rw [hwake] at hid
      simpa [heq] using hid

theorem handOver_handed (w : World) (runId : Uuid) (ids : List Uuid) :
    (w.handOver runId ids).handed.map (·.1) = w.handed.map (·.1) ++ ids := by
  have hfst : (ids.map (·, runId)).map Prod.fst = ids := by
    rw [map_map]
    exact map_id _
  unfold World.handOver
  rw [map_append, hfst]

theorem Kept.handed (h : Kept w) (hold : w.calls[i]? = some old)
    (hwakes : (w.apply effect).wakes = w.wakes)
    (hhanded : (w.apply effect).handed.map (·.1) = w.handed.map (·.1) ++ old.holds)
    (hholds : new.holds = []) : Kept (w.moved i effect new) := by
  refine kept_moved hold old.holds hhanded fun id owners howners => ?_
  rw [hholds, count_nil] at howners
  obtain rfl : owners = w.owners id := by omega
  rw [hwakes]
  exact h id

theorem Kept.settled (h : Kept w) (hold : w.calls[i]? = some old) {f : AgentWake → AgentWake}
    (hf : ∀ wake, Accounted (some (f wake)) 0)
    (heffect : w.apply effect = w.updateWakes old.holds f) (hholds : new.holds = []) :
    Kept (w.moved i effect new) := by
  refine kept_moved hold [] (by rw [heffect, append_nil]; rfl) fun id owners howners => ?_
  have hid := h id
  rw [hholds, count_nil] at howners
  rw [heffect, getElem?_updateWakes]
  cases hwake : w.wakes[id]? with
  | none =>
    rw [hwake] at hid
    have hnone : w.owners id = 0 := hid
    show owners = 0
    omega
  | some wake =>
    rw [hwake] at hid
    by_cases hmem : id ∈ old.holds
    · -- it has one owner at most, and the call was one
      have hpos : 0 < old.holds.count id := count_pos_iff.mpr hmem
      have hle : w.owners id ≤ 1 := by
        unfold Accounted at hid
        dsimp only at hid
        split at hid <;> omega
      obtain rfl : owners = 0 := by omega
      simpa [hmem] using hf wake
    · have hzero : old.holds.count id = 0 := count_eq_zero.mpr hmem
      obtain rfl : owners = w.owners id := by omega
      simpa [hmem] using hid

theorem Kept.unowned (h : Kept w) (hold : w.calls[i]? = some old)
    (hhanded : (w.apply effect).handed = w.handed) (hholds : new.holds = old.holds)
    (hwakes : ∀ id, (w.apply effect).wakes[id]? = w.wakes[id]? ∨
      w.owners id = 0 ∧ Accounted (w.apply effect).wakes[id]? 0) :
    Kept (w.moved i effect new) := by
  refine kept_moved hold [] (by rw [hhanded, append_nil]) fun id owners howners => ?_
  rw [hholds, count_nil] at howners
  obtain rfl : owners = w.owners id := by omega
  rcases hwakes id with hsame | ⟨hnone, hacc⟩
  · rw [hsame]
    exact h id
  · rw [hnone]
    exact hacc

theorem Kept.owners_eq_zero (h : Kept w)
    (hwake : (w.wakes[id]?).all (·.status ≠ .consumed) = true) : w.owners id = 0 := by
  have hid := h id
  cases hget : w.wakes[id]? with
  | none =>
    rw [hget] at hid
    exact hid
  | some wake =>
    rw [hget] at hid hwake
    have hne : wake.status ≠ .consumed := by simpa using hwake
    unfold Accounted at hid
    dsimp only at hid
    split at hid
    · exact hid
    next hconsumed => exact absurd hconsumed hne
    · exact hid.1
    · exact hid.1

/-! ## Effects that take no wake from anybody -/

theorem Kept.spared (h : Kept w) (hold : w.calls[i]? = some old)
    (heffect : effect.sparesWakes = true) (hholds : new.holds = old.holds) :
    Kept (w.moved i effect new) := by
  have hsame : (w.apply effect).wakes = w.wakes ∧ (w.apply effect).handed = w.handed := by
    unfold Effect.sparesWakes at heffect
    split at heffect
    all_goals first
      | exact ⟨rfl, rfl⟩
      | cases heffect
  exact h.idle hold hsame.1 hsame.2 hholds

theorem Kept.dropped (h : Kept w) (hold : w.calls[i]? = some old) (heffect : effect.dropsQueued)
    (hholds : new.holds = old.holds) : Kept (w.moved i effect new) := by
  obtain ⟨agentId, note, rfl, hnote⟩ := heffect
  refine h.unowned hold rfl hholds fun id => ?_
  show (w.wakes.map _)[id]? = _ ∨ _ ∧ Accounted (w.wakes.map _)[id]? 0
  rw [List.getElem?_map]
  cases hwake : w.wakes[id]? with
  | none => exact .inl rfl
  | some wake =>
    by_cases hqueued : wake.agentId = agentId ∧ wake.status = .queued
    · refine .inr ⟨h.owners_eq_zero (by simp [hwake, hqueued.2]), ?_⟩
      simp [Accounted, hqueued, hnote]
    · exact .inl (by simp [hqueued])

theorem Kept.mild (h : Kept w) (hold : w.calls[i]? = some old)
    (heffect : effect.Mild) (hholds : new.holds = old.holds) :
    Kept (w.moved i effect new) := by
  rcases heffect with hspares | hdrops
  · exact h.spared hold hspares hholds
  · exact h.dropped hold hdrops hholds

/-! ## The calls -/

variable {agentId organizationId : Uuid}

theorem Kept.wake (h : Kept w) {input : WakeInput} {stage : WakeStage}
    (hold : w.calls[i]? = some (.wake agentId organizationId input stage))
    (hcareful : carefulCall w out (.wake agentId organizationId input stage) = true) :
    Kept (w.moved i (advance w out (.wake agentId organizationId input stage)).1
      (advance w out (.wake agentId organizationId input stage)).2) := by
  have hquiet (stage' : WakeStage) :
      Kept (w.moved i .nothing (.wake agentId organizationId input stage')) :=
    h.spared hold rfl rfl
  unfold advance advanceWake
  cases stage with
  | inserting =>
    -- the new wake is the last, and nobody has it yet
    dsimp only
    split
    · exact hquiet _
    split
    · exact hquiet _
    · refine h.unowned hold rfl rfl fun id => ?_
      show (w.wakes ++ [_])[id]? = _ ∨ _ ∧ Accounted (w.wakes ++ [_])[id]? 0
      rw [List.getElem?_append]
      split
      · exact .inl rfl
      next hlt =>
        have hnone : w.wakes[id]? = none := List.getElem?_eq_none (by omega)
        refine .inr ⟨h.owners_eq_zero (by simp [hnone]), ?_⟩
        cases id - w.wakes.length <;> simp [Accounted]
  | coalescing oldest =>
    dsimp only
    cases hok : out.ok with
    | false => exact hquiet _
    | true =>
      have hsafe : (∀ id ∈ oldest, (w.wakes[id]?).all (·.status ≠ .consumed) = true) ∧
          maxQueuedWakes < (w.queued agentId).length := by
        simpa [carefulCall, hok] using hcareful
      refine h.unowned hold rfl rfl fun id => ?_
      show (w.updateWakes oldest _).wakes[id]? = _ ∨
        _ ∧ Accounted (w.updateWakes oldest _).wakes[id]? 0
      rw [getElem?_updateWakes]
      cases hwake : w.wakes[id]? with
      | none => exact .inl rfl
      | some wake =>
        by_cases hmem : id ∈ oldest
        · refine .inr ⟨h.owners_eq_zero (hsafe.1 id hmem), ?_⟩
          simpa [Accounted, hmem] using hsafe.2
        · exact .inl (by simp [hmem])
  | opening | deduping | counting | finding take =>
    dsimp only
    repeat' split
    all_goals exact hquiet _
  | returned written | failed => exact hquiet _

theorem holds_claimingNext {runId agentId : Uuid} (todo won : List Uuid) :
    (Call.drainInto runId agentId (.claimingNext todo won)).holds = won := by
  cases todo <;> cases won <;> rfl

theorem Kept.drain (h : Kept w) {runId agentId : Uuid} {stage : DrainStage}
    (hold : w.calls[i]? = some (.drainInto runId agentId stage))
    (hcareful : carefulCall w out (.drainInto runId agentId stage) = true) :
    Kept (w.moved i (advance w out (.drainInto runId agentId stage)).1
      (advance w out (.drainInto runId agentId stage)).2) := by
  unfold advance advanceDrain
  cases stage with
  | opening =>
    dsimp only
    split
    · exact h.spared hold rfl rfl
    · exact h.spared hold rfl (holds_claimingNext _ [])
  | claiming todo won =>
    cases todo with
    | nil => exact h.spared hold rfl rfl
    | cons id todo =>
      dsimp only
      cases hok : out.ok with
      | false =>
        obtain rfl : won = [] := by simpa [carefulCall, hok] using hcareful
        exact h.spared hold rfl rfl
      | true => exact h.claimed hold _ (holds_claimingNext _ _)
  | messaging won =>
    dsimp only
    cases hok : out.ok with
    | false =>
      obtain rfl : won = [] := by simpa [carefulCall, hok] using hcareful
      exact h.spared hold rfl rfl
    | true =>
      exact h.handed hold rfl (handOver_handed w runId won) rfl
  | returned handed | failed => exact h.spared hold rfl rfl

theorem holds_claimingOwnerNext {agentId organizationId runId : Uuid} {token : Nat}
    {owner : List Uuid} (todo won : List Uuid) :
    (Call.process agentId organizationId
      (.claimingOwnerNext token runId owner todo won)).holds = won := by
  cases todo <;> rfl

theorem holds_process_claimingNext {token : Nat} {agent : Agent} (todo won : List Uuid) :
    (Call.process agentId organizationId (.claimingNext token agent todo won)).holds = won := by
  cases todo <;> cases won <;> rfl

theorem Kept.process (h : Kept w) {stage : ProcessStage}
    (hold : w.calls[i]? = some (.process agentId organizationId stage))
    (hcareful : carefulCall w out (.process agentId organizationId stage) = true) :
    Kept (w.moved i (advance w out (.process agentId organizationId stage)).1
      (advance w out (.process agentId organizationId stage)).2) := by
  unfold advance advanceProcess
  cases stage with
  | locking | opening token | counting token agent | finding token agent
  | looking token agent queued | judging token agent queued | rereading token runId
  | recording token runId fresh =>
    dsimp only
    repeat' split
    all_goals exact h.spared hold rfl rfl
  | dropping token =>
    dsimp only
    split
    · exact h.spared hold rfl rfl
    · exact h.dropped hold ⟨agentId, _, rfl, by decide⟩ rfl
  | claimingOwner token runId owner todo won =>
    cases todo with
    | nil => exact h.spared hold rfl rfl
    | cons id todo =>
      dsimp only
      cases hok : out.ok with
      | false =>
        obtain rfl : won = [] := by simpa [carefulCall, hok] using hcareful
        exact h.spared hold rfl rfl
      | true => exact h.claimed hold _ (holds_claimingOwnerNext _ _)
  | answering token runId owner won =>
    -- what is sent is `owner`, what the call has is `won`
    dsimp only
    cases hwaits : out.ok && (w.runs[runId]?).any (·.status = .waitingInput) with
    | false =>
      have hnone : won = [] := by
        simp only [carefulCall, hwaits, Bool.false_eq_true, if_false] at hcareful
        exact of_decide_eq_true hcareful
      rw [← Bool.not_and, hwaits, if_pos (Bool.not_false)]
      exact h.spared hold rfl (by rw [hnone]; rfl)
    | true =>
      have howner : owner = won := by
        simp only [carefulCall, hwaits, if_true] at hcareful
        exact of_decide_eq_true hcareful
      rw [← Bool.not_and, hwaits, if_neg (by decide), howner]
      exact h.handed hold rfl (handOver_handed _ runId won) rfl
  | claiming token agent todo won =>
    cases todo with
    | nil => exact h.spared hold rfl rfl
    | cons id todo =>
      dsimp only
      cases hok : out.ok with
      | false =>
        obtain rfl : won = [] := by simpa [carefulCall, hok] using hcareful
        exact h.spared hold rfl rfl
      | true => exact h.claimed hold _ (holds_process_claimingNext _ _)
  | starting token agent claimed =>
    dsimp only
    split
    · exact h.handed hold rfl (handOver_handed _ _ claimed) rfl
    · split <;> exact h.spared hold rfl rfl
  | queueing token runId claimed =>
    -- the run has the wakes by now: a failure here would drop them
    have hok : out.ok = true := hcareful
    rw [hok]
    exact h.spared hold rfl rfl
  | naming token runId claimed =>
    dsimp only
    split
    · exact h.spared hold rfl rfl
    · -- the name of a run changes no status
      refine kept_moved hold [] (append_nil _).symm fun id owners howners => ?_
      have hid := h id
      obtain rfl : owners = w.owners id := by simpa [Call.holds] using howners
      show Accounted ((w.updateWakes claimed _).wakes[id]?) _
      rw [getElem?_updateWakes]
      cases hwake : w.wakes[id]? with
      | none =>
        rw [hwake] at hid
        exact hid
      | some wake =>
        rw [hwake] at hid
        by_cases hmem : id ∈ claimed
        · rw [Option.map_some, if_pos hmem]
          exact hid
        · rw [Option.map_some, if_neg hmem]
          exact hid
  | reopening token agent claimed =>
    dsimp only
    cases hok : out.ok with
    | false =>
      obtain rfl : claimed = [] := by simpa [carefulCall, hok] using hcareful
      exact h.spared hold rfl rfl
    | true => exact h.spared hold rfl rfl
  | unclaiming token claimed =>
    dsimp only
    cases hok : out.ok with
    | false =>
      obtain rfl : claimed = [] := by simpa [carefulCall, hok] using hcareful
      exact h.spared hold rfl rfl
    | true =>
      exact h.settled hold (f := fun wake => { wake with status := .queued, runId := none })
        (fun wake => rfl) rfl rfl
  | refusing token claimed =>
    dsimp only
    cases hok : out.ok with
    | false =>
      obtain rfl : claimed = [] := by simpa [carefulCall, hok] using hcareful
      exact h.spared hold rfl rfl
    | true =>
      exact h.settled hold
        (f := fun wake => { wake with status := .dropped, note := some "not started" })
        (fun wake => ⟨rfl, by simp⟩) rfl rfl
  | pausing token code stage =>
    refine h.mild hold (pause_mild w out agentId code stage) ?_
    dsimp only
    split <;> rfl
  | unlocking token result =>
    dsimp only
    split
    · exact h.spared hold rfl rfl
    · exact h.spared hold rfl (by cases result <;> rfl)
  | deleting token result =>
    dsimp only
    refine h.spared hold ?_ ?_
    · split <;> rfl
    · cases result <;> rfl
  | returned result | failed => exact h.spared hold rfl rfl

/-! ## Any interleaving -/

theorem Kept.step (h : Kept w) (action : Action) (hcareful : careful w action = true) :
    Kept (step w action) := by
  cases action with
  | begin call =>
    intro id
    have hopened : call.opened.holds = [] := by cases call <;> rfl
    have howners : (AlwaysOn.step w (.begin call)).owners id = w.owners id := by
      show ((w.calls ++ [call.opened]).map fun call => call.holds.count id).sum + _ = _
      rw [map_append, sum_append]
      simp [World.owners, hopened, AlwaysOn.step]
    rw [howners]
    exact h id
  | advance i out =>
    unfold careful at hcareful
    unfold AlwaysOn.step
    dsimp only at hcareful ⊢
    cases hcall : w.calls[i]? with
    | none => exact h
    | some call =>
      rw [hcall] at hcareful
      cases call with
      | wake agentId organizationId input stage => exact h.wake hcall hcareful
      | process agentId organizationId stage => exact h.process hcall hcareful
      | drainInto runId agentId stage => exact h.drain hcall hcareful
      | configure agentId organizationId enabled stage =>
        exact h.mild hcall (configure_mild w out agentId organizationId enabled stage) rfl
      | pause agentId code stage => exact h.mild hcall (pause_mild w out agentId code stage) rfl
      | resume organizationId stage =>
        exact h.spared hcall (resume_spares w out organizationId stage) rfl
  | runBecomes runId status =>
    unfold AlwaysOn.step
    dsimp only
    split <;> exact h
  | expire agentId => exact h

/-- In any interleaving of careful steps every wake waits, is consumed once, was folded away while
too many waited, or was dropped with a reason. -/
theorem wakes_accounted (w : World) (hstart : Kept w) (actions : List Action)
    (hcareful : Steps.Along step (fun w action => careful w action = true) w actions) :
    Kept (Steps.run step w actions) :=
  Steps.run_invariant Kept (fun _ action h hstep => h.step action hstep) hstart hcareful

/-! ## Runs -/

def timerWake : AgentWake :=
  { agentId := 1, createdAt := 0, dedupeKey := "timer", ownerMessage := false }

def inbox (runs : List AgentRun) (wakes : List AgentWake) : World where
  agents := [(1, { organizationId := 7, status := .active, mode := .autonomous, createdAt := 0
                   alwaysOn := some { enabled := true, liveRunId := some 0 } })]
  includedAgents := []
  runs
  wakes

theorem kept_inbox (runs : List AgentRun) {wakes : List AgentWake}
    (hqueued : ∀ wake ∈ wakes, wake.status = .queued) : Kept (inbox runs wakes) := by
  intro id
  show Accounted wakes[id]? 0
  cases hwake : wakes[id]? with
  | none => rfl
  | some wake =>
    have hmem : wake ∈ wakes := List.mem_of_getElem? hwake
    simp only [Accounted, hqueued wake hmem]

def tick : Call := .wake 1 7 ⟨0, "tick", false⟩ .opening

def work : Call := .process 1 7 .locking

/-- A full inbox folds away the answer a run is getting meanwhile; and a run that is there when its
start fails drops its wake. -/
theorem folded_while_handed :
    (let w := Steps.run step
        (inbox [⟨1, .waitingInput, 5⟩]
          ({ timerWake with ownerMessage := true } :: List.replicate 99 timerWake))
        (.begin tick :: Action.times 0 5 ++ .begin work :: Action.times 1 7 ++ Action.times 0 1)
    (0, 0) ∈ w.handed ∧ (w.wakes[0]?).map (·.status) = some .coalesced) ∧
    (let w := Steps.run step (inbox [] [timerWake])
      (.begin work :: Action.times 0 8 ++ [.advance 0 { ok := false }] ++ Action.times 0 1)
    (0, 0) ∈ w.handed ∧ (w.wakes[0]?).map (·.status) = some .dropped) := by
  constructor <;> decide +kernel

/-- A wake, and the run it starts. -/
theorem started_run_accounted :
    Kept (Steps.run step (inbox [] []) (.begin tick :: Action.times 0 4 ++
      .begin work :: Action.times 1 14)) :=
  wakes_accounted (inbox [] []) (kept_inbox [] nofun) _ (by decide +kernel)

end Almyty.AlwaysOn
