import Almyty.AlwaysOn.TakeBack

/-!
# The places of a plan

A plan includes so many agents on hosted machines. `configure` counts before it turns one more on,
and `resumeWithinCapacity` counts before it turns the waiting ones back on; what they count may have
changed when they save.

A run keeps within the plan exactly when every row that takes a place is saved while there is one
(`withinPlan`). Where no call reads while another one is between its read and its saves
(`undisturbed`), the counts hold, and the run is such a run.
-/

namespace Almyty.AlwaysOn

open Almyty.Lib Option
open Almyty.Agents (Uuid)

/-- The row takes no place, or has one, or there is one. -/
def fits (agents : List (Uuid × Agent)) (organizationId : Uuid) (included : Nat) (id : Uuid)
    (agent : Agent) : Bool :=
  !agent.hostedOn organizationId || (agents.lookup id).any (·.hostedOn organizationId) ||
    places agents organizationId < included

def withinPlan (organizationId : Uuid) (included : Nat) (w : World) : Action → Bool
  | .advance i out =>
    (w.calls[i]?).all fun call => (call.saves w out).all fun save =>
      fits w.agents organizationId included save.1 save.2
  | _ => true

/-! ## Between a read and its saves -/

def ResumeStage.inHand : ResumeStage → Bool
  | .saving _ => true
  | _ => false

def PauseStage.inHand : PauseStage → Bool
  | .saving _ => true
  | .resuming _ stage => stage.inHand
  | _ => false

def ConfigureStage.inHand : ConfigureStage → Bool
  | .counting _ _ | .saving _ _ => true
  | .resuming _ stage => stage.inHand
  | _ => false

def Call.inHand : Call → Bool
  | .configure _ _ _ stage => stage.inHand
  | .pause _ _ stage => stage.inHand
  | .resume _ stage => stage.inHand
  | _ => false

def Call.reads : Call → Bool
  | .configure _ _ _ .opening | .configure _ _ _ (.resuming _ .opening) | .pause _ _ .opening
  | .pause _ _ (.resuming _ .opening) | .resume _ .opening => true
  | _ => false

def Call.works : Call → Bool
  | .process _ _ _ => true
  | _ => false

def undisturbed (w : World) : Action → Bool
  | .begin call => !call.works
  | .advance i _ => (w.calls[i]?).all fun call => !call.reads || w.calls.all (!·.inHand)
  | _ => true

/-- The rows have places: they wait as they were read, and there is room for them all. -/
structure HaveRoom (agents : List (Uuid × Agent)) (organizationId : Uuid) (included : Nat)
    (back : List (Uuid × Agent)) : Prop where
  ids : (Assoc.keys back).Nodup
  stored : ∀ entry ∈ back, agents.lookup entry.1 = some entry.2 ∧ entry.2.enabled = false
  room : places agents organizationId +
    (back.filter fun entry => entry.2.runsIn organizationId && entry.2.hosted).length ≤ included

def ResumeStage.Knows (agents : List (Uuid × Agent)) (organizationId : Uuid) (included : Nat) :
    ResumeStage → Prop
  | .saving back => HaveRoom agents organizationId included back
  | _ => True

def PauseStage.Knows (agents : List (Uuid × Agent)) (organizationId : Uuid) (included : Nat) :
    PauseStage → Prop
  | .resuming _ stage => stage.Knows agents organizationId included
  | _ => True

def ConfigureStage.Knows (agents : List (Uuid × Agent)) (organizationId : Uuid) (included : Nat)
    (id configured : Uuid) : ConfigureStage → Prop
  | .counting before next =>
    agents.lookup id = some before ∧ before.enabled = false ∧
      (next.hostedOn organizationId = true → configured = organizationId)
  | .saving _ next => fits agents organizationId included id next = true
  | .resuming _ stage => stage.Knows agents organizationId included
  | _ => True

def Call.Knows (agents : List (Uuid × Agent)) (organizationId : Uuid) (included : Nat) :
    Call → Prop
  | .configure id configured _ stage => stage.Knows agents organizationId included id configured
  | .pause _ _ stage => stage.Knows agents organizationId included
  | .resume _ stage => stage.Knows agents organizationId included
  | .process _ _ _ => False
  | _ => True

structure Within (organizationId : Uuid) (included : Nat) (w : World) : Prop where
  plan : w.includedAgents.lookup organizationId = some included
  ids : (Assoc.keys w.agents).Nodup
  within : places w.agents organizationId ≤ included

structure Calm (organizationId : Uuid) (included : Nat) (w : World) : Prop
    extends Within organizationId included w where
  alone : Slots.Alone (fun call : Call => call.inHand = true) w.calls
  knows : ∀ call ∈ w.calls, call.Knows w.agents organizationId included

variable {w : World} {out : Outside} {agents : List (Uuid × Agent)} {organizationId id : Uuid}
  {included : Nat} {agent : Agent} {i : Nat}

/-! ## Places -/

theorem places_put_le_iff (h : places agents organizationId ≤ included) :
    places (Assoc.put agents id agent) organizationId ≤ included ↔
      fits agents organizationId included id agent = true := by
  have hput := places_put agents organizationId id agent
  unfold fits
  rw [Bool.or_eq_true, Bool.or_eq_true, decide_eq_true_eq]
  cases hnew : agent.hostedOn organizationId with
  | false =>
    rw [hnew] at hput
    split at hput
    all_goals
      simp only [Bool.not_false, true_or, iff_true]
      simp only [Bool.false_eq_true, if_false] at hput
      omega
  | true =>
    rw [hnew] at hput
    cases hold : (agents.lookup id).any (·.hostedOn organizationId) with
    | true =>
      simp only [hold, if_true] at hput
      simp only [or_true, true_or, iff_true]
      omega
    | false =>
      simp only [hold, Bool.false_eq_true, if_false, if_true] at hput
      simp only [Bool.not_true, Bool.false_eq_true, false_or]
      omega

theorem places_step_le_iff (h : places w.agents organizationId ≤ included) (action : Action) :
    places (step w action).agents organizationId ≤ included ↔
      withinPlan organizationId included w action = true := by
  cases action with
  | advance i out =>
    unfold step withinPlan
    dsimp only
    cases hcall : w.calls[i]? with
    | none => simpa using h
    | some call =>
      show places (w.apply (advance w out call).1).agents organizationId ≤ included ↔
        (call.saves w out).all _ = true
      rw [advance_agents]
      cases call.saves w out with
      | none => simpa using h
      | some save => exact places_put_le_iff h
  | begin | expire => exact iff_of_true h rfl
  | runBecomes runId status =>
    refine iff_of_true ?_ rfl
    unfold step
    dsimp only
    split <;> exact h

theorem paused_hostedOn (agent : Agent) (code : PauseCode) (now : Int) (organizationId : Uuid) :
    (agent.paused code now).hostedOn organizationId = false := by
  unfold Agent.hostedOn Agent.paused Agent.updated Agent.enabled
  cases agent.alwaysOn <;> simp

/-! ## What the calls know -/

theorem Within.haveRoom (h : Within organizationId included w) (resumed : Uuid) :
    HaveRoom w.agents organizationId included (w.back resumed) where
  ids := back_ids h.ids resumed
  stored := fun _ hentry => back_stored h.ids hentry
  room := by
    have hwithin := h.within
    by_cases hsame : resumed = organizationId
    · subst hsame
      have hle := takeBack_hosted_le (included - places w.agents resumed) (w.waiting resumed)
      rw [← room_eq h.plan] at hle
      have hback : ((w.back resumed).filter (·.2.hosted)).length ≤
          included - places w.agents resumed := hle
      rw [back_places]
      omega
    · -- those agents are another organization's
      have hnone : (w.back resumed).filter (fun entry =>
          entry.2.runsIn organizationId && entry.2.hosted) = [] := by
        refine List.filter_eq_nil_iff.mpr fun entry hentry hruns => hsame ?_
        simp only [Bool.and_eq_true] at hruns
        rw [← organizationId_of_runsIn (back_runsIn hentry), organizationId_of_runsIn hruns.1]
      rw [hnone]
      exact hwithin

theorem resume_knows_back {back : List (Uuid × Agent)}
    (h : HaveRoom agents organizationId included back) :
    (ResumeStage.savingNext back).Knows agents organizationId included := by
  cases back with
  | nil => trivial
  | cons entry back => exact h

theorem HaveRoom.saved {back : List (Uuid × Agent)} (now : Int)
    (h : HaveRoom agents organizationId included ((id, agent) :: back)) :
    fits agents organizationId included id (agent.resumed now) = true ∧
      HaveRoom (Assoc.put agents id (agent.resumed now)) organizationId included back := by
  obtain ⟨hids, hstored, hroom⟩ := h
  obtain ⟨hnew, hids⟩ := List.nodup_cons.mp hids
  obtain ⟨hlookup, hoff⟩ := hstored (id, agent) List.mem_cons_self
  have hput := places_put agents organizationId id (agent.resumed now)
  have hnot : (agents.lookup id).any (·.hostedOn organizationId) = false := by
    rw [hlookup]
    simp [Agent.hostedOn, hoff]
  rw [hnot, resumed_hostedOn] at hput
  rw [List.filter_cons] at hroom
  refine ⟨?_, hids, ?_, ?_⟩
  · unfold fits
    rw [resumed_hostedOn]
    cases hplace : agent.runsIn organizationId && agent.hosted with
    | false => rfl
    | true =>
      simp only [hplace, if_true, List.length_cons] at hroom
      simp only [Bool.not_true, Bool.false_or, Bool.or_eq_true, decide_eq_true_eq]
      omega
  · intro entry hentry
    have hkey : entry.1 ∈ Assoc.keys back := List.mem_map_of_mem hentry
    have hne : entry.1 ≠ id := by
      intro heq
      rw [heq] at hkey
      exact hnew hkey
    rw [Assoc.lookup_put, if_neg hne]
    exact hstored entry (List.mem_cons_of_mem _ hentry)
  · cases hplace : agent.runsIn organizationId && agent.hosted with
    | false =>
      simp only [hplace, Bool.false_eq_true, if_false] at hput hroom
      omega
    | true =>
      simp only [hplace, Bool.false_eq_true, if_false, if_true, List.length_cons] at hput hroom
      omega

def written (agents : List (Uuid × Agent)) (save : Option (Uuid × Agent)) : List (Uuid × Agent) :=
  save.elim agents fun save => Assoc.put agents save.1 save.2

def Owes (agents : List (Uuid × Agent)) (organizationId : Uuid) (included : Nat)
    (save : Option (Uuid × Agent)) (knows : List (Uuid × Agent) → Prop) : Prop :=
  (∀ row, save = some row → fits agents organizationId included row.1 row.2 = true) ∧
    knows (written agents save)

theorem owes_none {knows : List (Uuid × Agent) → Prop} (h : knows agents) :
    Owes agents organizationId included none knows :=
  ⟨fun _ hrow => (nomatch hrow), h⟩

theorem resume_owes (h : Within organizationId included w) (resumed : Uuid) {stage : ResumeStage}
    (hknows : stage.Knows w.agents organizationId included) :
    Owes w.agents organizationId included (if !out.ok then none else stage.saves out.now)
      fun agents =>
        (advanceResume w out resumed stage).2.Knows agents organizationId included := by
  unfold advanceResume
  cases hok : out.ok with
  | false =>
    refine owes_none ?_
    cases stage with
    | saving back =>
      cases back with
      | nil => exact hknows
      | cons entry back => trivial
    | opening | returned | failed => trivial
  | true =>
    cases stage with
    | opening => exact owes_none (resume_knows_back (h.haveRoom resumed))
    | saving back =>
      cases back with
      | nil => exact owes_none hknows
      | cons entry back =>
        obtain ⟨hfits, hrest⟩ := HaveRoom.saved out.now hknows
        refine ⟨fun row hrow => ?_, resume_knows_back hrest⟩
        obtain rfl := some.inj hrow
        exact hfits
    | returned | failed => exact owes_none trivial

theorem pause_owes (h : Within organizationId included w) (id : Uuid) (code : PauseCode)
    {stage : PauseStage} (hknows : stage.Knows w.agents organizationId included) :
    Owes w.agents organizationId included (if !out.ok then none else stage.saves id code out.now)
      fun agents =>
        (advancePause w out id code stage).2.Knows agents organizationId included := by
  unfold advancePause
  cases stage with
  | resuming agent stage =>
    obtain ⟨hfits, hnext⟩ := resume_owes h agent.organizationId hknows
    refine ⟨hfits, ?_⟩
    show PauseStage.Knows (written w.agents (if !out.ok then none else stage.saves out.now)) _ _ _
    dsimp only at hnext ⊢
    generalize (advanceResume w out agent.organizationId stage).2 = next at hnext ⊢
    cases next with
    | returned | failed | opening => trivial
    | saving back => exact hnext
  | saving agent =>
    cases hok : out.ok with
    | false => exact owes_none trivial
    | true =>
      refine ⟨fun row hrow => ?_, trivial⟩
      obtain rfl := some.inj hrow
      unfold fits
      rw [paused_hostedOn]
      rfl
  | opening | dropping agent | returned | failed =>
    show Owes _ _ _ (if !out.ok then none else none) _
    rw [ite_self]
    refine owes_none ?_
    dsimp only
    repeat' split
    all_goals trivial

variable {before : Agent}

theorem findAgent_eq_some (h : w.findAgent id organizationId = some before) :
    w.agents.lookup id = some before ∧ before.organizationId = organizationId := by
  obtain ⟨hlookup, horganization⟩ := filter_eq_some_iff.mp h
  exact ⟨hlookup, by simpa using horganization⟩

theorem merged_hosted (henabled : before.enabled = true) (enabled : Option Bool) (now : Int) :
    Agent.hosted { before with alwaysOn := some (mergeAlwaysOn before.alwaysOn enabled now) } =
      before.hosted := by
  unfold Agent.enabled at henabled
  unfold Agent.hosted
  cases hon : before.alwaysOn with
  | none =>
    rw [hon] at henabled
    cases henabled
  | some config =>
    unfold mergeAlwaysOn
    dsimp only [getD_some, any_some]
    split <;> rfl

theorem others_eq_places (hids : (Assoc.keys w.agents).Nodup)
    (hlookup : w.agents.lookup id = some before) (hoff : before.enabled = false) :
    ((w.hostedAgentsOn organizationId).filter (·.1 ≠ id)).length =
      places w.agents organizationId := by
  have hperm : (w.hostedAgentsOn organizationId).Perm
      (w.agents.filter (·.2.hostedOn organizationId)) := List.perm_insertionSort _ _
  have hall : (w.agents.filter (·.2.hostedOn organizationId)).filter (·.1 ≠ id) =
      w.agents.filter (·.2.hostedOn organizationId) := by
    refine List.filter_eq_self.mpr fun entry hentry => ?_
    obtain ⟨hmem, hon⟩ := List.mem_filter.mp hentry
    refine decide_eq_true fun heq => ?_
    have hstored : w.agents.lookup entry.1 = some entry.2 := Assoc.lookup_of_mem hids hmem
    rw [heq, hlookup] at hstored
    obtain rfl := some.inj hstored
    simp [Agent.hostedOn, hoff] at hon
  rw [(hperm.filter _).length_eq, hall]
  rfl

theorem merged_fits (h : Within organizationId included w) {configured : Uuid}
    (hbefore : w.findAgent id configured = some before) {enabled : Option Bool} {now : Int}
    (hcounts :
      let next := { before with alwaysOn := some (mergeAlwaysOn before.alwaysOn enabled now) }
      ¬ (next.enabled && !before.enabled && next.hosted &&
        (w.includedAgents.lookup configured).isSome) = true) :
    fits w.agents organizationId included id
      { before with alwaysOn := some (mergeAlwaysOn before.alwaysOn enabled now) } = true := by
  obtain ⟨hlookup, horganization⟩ := findAgent_eq_some hbefore
  unfold fits
  rw [hlookup]
  cases hon : Agent.hostedOn
      { before with alwaysOn := some (mergeAlwaysOn before.alwaysOn enabled now) }
      organizationId with
  | false => rfl
  | true =>
    unfold Agent.hostedOn at hon
    simp only [Bool.and_eq_true] at hon
    obtain ⟨⟨hruns, hnext⟩, hhosted⟩ := hon
    have hruns : before.runsIn organizationId = true := hruns
    -- so it was on before, or it was counted
    have hwas : before.enabled = true := by
      have hconfigured : configured = organizationId := by
        rw [← horganization, organizationId_of_runsIn hruns]
      cases hbefore : before.enabled with
      | true => rfl
      | false =>
        refine absurd ?_ hcounts
        simp [hnext, hhosted, hbefore, hconfigured, h.plan]
    rw [merged_hosted hwas] at hhosted
    simp [Agent.hostedOn, hruns, hwas, hhosted]

theorem configure_owes (h : Within organizationId included w) (id configured : Uuid)
    (enabled : Option Bool) {stage : ConfigureStage}
    (hknows : stage.Knows w.agents organizationId included id configured) :
    Owes w.agents organizationId included (if !out.ok then none else stage.saves id out)
      fun agents => (advanceConfigure w out id configured enabled stage).2.Knows agents
        organizationId included id configured := by
  unfold advanceConfigure
  cases stage with
  | resuming next stage =>
    obtain ⟨hfits, hnext⟩ := resume_owes h configured hknows
    refine ⟨hfits, ?_⟩
    show ConfigureStage.Knows (written w.agents (if !out.ok then none else stage.saves out.now))
      _ _ _ _ _
    dsimp only at hnext ⊢
    generalize (advanceResume w out configured stage).2 = next at hnext ⊢
    cases next with
    | returned | failed | opening => trivial
    | saving back => exact hnext
  | opening =>
    show Owes _ _ _ (if !out.ok then none else none) _
    rw [ite_self]
    refine owes_none ?_
    dsimp only
    split
    · trivial
    split
    · trivial
    next before hbefore =>
      obtain ⟨hlookup, horganization⟩ := findAgent_eq_some hbefore
      split
      · trivial
      split
      · trivial
      · split
        next hcounts =>
          simp only [Bool.and_eq_true, Bool.not_eq_true'] at hcounts
          refine ⟨hlookup, hcounts.1.1.2, fun hon => ?_⟩
          unfold Agent.hostedOn at hon
          simp only [Bool.and_eq_true] at hon
          have hruns : before.runsIn organizationId = true := hon.1.1
          rw [← horganization, organizationId_of_runsIn hruns]
        next hcounts => exact merged_fits h hbefore hcounts
  | counting before next =>
    show Owes _ _ _ (if !out.ok then none else none) _
    rw [ite_self]
    refine owes_none ?_
    obtain ⟨hlookup, hoff, hconfigured⟩ := hknows
    dsimp only
    split
    · trivial
    split
    · trivial
    next hroom =>
      show fits _ _ _ _ _ = true
      unfold fits
      cases hon : next.hostedOn organizationId with
      | false => rfl
      | true =>
        obtain rfl := hconfigured hon
        rw [others_eq_places h.ids hlookup hoff, h.plan] at hroom
        have hlt : places w.agents configured < included := by simpa using hroom
        simp [hlt]
  | saving before next =>
    show Owes _ _ _ (if !out.ok then none else if out.allowed then some (id, next) else none) _
    cases out.allowed with
    | false => cases out.ok <;> exact owes_none trivial
    | true =>
      cases out.ok with
      | false => exact owes_none trivial
      | true =>
        refine ⟨fun row hrow => ?_, ?_⟩
        · obtain rfl := some.inj hrow
          exact hknows
        · dsimp only
          repeat' split
          all_goals trivial
  | dropping next | returned | failed error =>
    show Owes _ _ _ (if !out.ok then none else none) _
    rw [ite_self]
    refine owes_none ?_
    dsimp only
    repeat' split
    all_goals trivial

variable {call : Call}

theorem call_owes (out : Outside) (h : Within organizationId included w)
    (hknows : call.Knows w.agents organizationId included) :
    Owes w.agents organizationId included (call.saves w out)
      fun agents => (advance w out call).2.Knows agents organizationId included := by
  cases call with
  | process id configured stage => exact hknows.elim
  | configure id configured enabled stage => exact configure_owes h id configured enabled hknows
  | pause id code stage => exact pause_owes h id code hknows
  | resume resumed stage => exact resume_owes h resumed hknows
  | wake id configured input stage | drainInto runId id stage =>
    unfold Call.saves
    rw [ite_self]
    exact owes_none trivial

theorem knows_of_not_inHand (hhand : call.inHand = false) (hworks : call.works = false) :
    call.Knows agents organizationId included := by
  have hresume : ∀ {stage : ResumeStage}, stage.inHand = false →
      stage.Knows agents organizationId included := by
    intro stage hhand
    cases stage with
    | saving back => cases hhand
    | opening | returned | failed => trivial
  cases call with
  | process id configured stage => cases hworks
  | configure id configured enabled stage =>
    cases stage with
    | counting before next | saving before next => cases hhand
    | resuming next stage => exact hresume hhand
    | opening | dropping next | returned | failed error => trivial
  | pause id code stage =>
    cases stage with
    | resuming agent stage => exact hresume hhand
    | opening | saving agent | dropping agent | returned | failed => trivial
  | resume resumed stage => exact hresume hhand
  | wake id configured input stage | drainInto runId id stage => trivial

theorem inHand_of_saves (hworks : call.works = false) (hsaves : call.saves w out ≠ none) :
    call.inHand = true := by
  have hresume : ∀ {stage : ResumeStage}, stage.saves out.now ≠ none → stage.inHand = true := by
    intro stage hsaves
    cases stage with
    | saving back => rfl
    | opening | returned | failed => exact absurd rfl hsaves
  unfold Call.saves at hsaves
  split at hsaves
  · exact absurd rfl hsaves
  cases call with
  | process id configured stage => cases hworks
  | configure id configured enabled stage =>
    cases stage with
    | counting before next | saving before next => rfl
    | resuming next stage => exact hresume hsaves
    | opening | dropping next | returned | failed error => exact absurd rfl hsaves
  | pause id code stage =>
    cases stage with
    | saving agent => rfl
    | resuming agent stage => exact hresume hsaves
    | opening | dropping agent | returned | failed => exact absurd rfl hsaves
  | resume resumed stage => exact hresume hsaves
  | wake id configured input stage | drainInto runId id stage => exact absurd rfl hsaves

theorem advance_inHand (hnew : (advance w out call).2.inHand = true) :
    call.inHand = true ∨ call.reads = true ∨ call.works = true := by
  cases call with
  | process id configured stage => exact .inr (.inr rfl)
  | configure id configured enabled stage =>
    cases stage with
    | opening => exact .inr (.inl rfl)
    | counting before next | saving before next => exact .inl rfl
    | dropping next =>
      unfold advance advanceConfigure at hnew
      dsimp only at hnew
      split at hnew <;> cases hnew
    | resuming next stage =>
      cases stage with
      | opening => exact .inr (.inl rfl)
      | saving back => exact .inl rfl
      | returned | failed => cases hnew
    | returned | failed error => cases hnew
  | pause id code stage =>
    cases stage with
    | opening => exact .inr (.inl rfl)
    | saving agent => exact .inl rfl
    | dropping agent =>
      unfold advance advancePause at hnew
      dsimp only at hnew
      repeat' split at hnew
      all_goals cases hnew
    | resuming agent stage =>
      cases stage with
      | opening => exact .inr (.inl rfl)
      | saving back => exact .inl rfl
      | returned | failed => cases hnew
    | returned | failed => cases hnew
  | resume resumed stage =>
    cases stage with
    | opening => exact .inr (.inl rfl)
    | saving back => exact .inl rfl
    | returned | failed => cases hnew
  | wake id configured input stage | drainInto runId id stage => cases hnew

/-! ## Undisturbed runs -/

theorem works_of_knows (h : call.Knows agents organizationId included) : call.works = false := by
  cases call with
  | process id configured stage => exact h.elim
  | _ => rfl

theorem Calm.moved (h : Calm organizationId included w) (hold : w.calls[i]? = some call)
    (hreads : call.reads = true → ∀ other ∈ w.calls, other.inHand = false) :
    Calm organizationId included (w.moved i (advance w out call).1 (advance w out call).2) := by
  have hknows := h.knows call (List.mem_of_getElem? hold)
  have hworks := works_of_knows hknows
  obtain ⟨hfits, hnext⟩ := call_owes out h.toWithin hknows
  have hagents : (w.apply (advance w out call).1).agents =
      written w.agents (call.saves w out) := advance_agents w out call
  have hother : ∀ j other, w.calls[j]? = some other → j ≠ i → call.inHand = true →
      other.inHand = false := by
    intro j other hj hne hhand
    refine Bool.eq_false_iff.mpr fun hother => hne ?_
    exact h.alone j i other call hj hold hother hhand
  refine ⟨⟨?_, ?_, ?_⟩, ?_, ?_⟩
  · have hsame : (w.apply (advance w out call).1).includedAgents = w.includedAgents := by
      cases (advance w out call).1 <;> rfl
    show (w.apply (advance w out call).1).includedAgents.lookup organizationId = _
    rw [hsame, h.plan]
  · show (Assoc.keys (w.apply (advance w out call).1).agents).Nodup
    rw [hagents]
    cases call.saves w out with
    | none => exact h.ids
    | some row => exact Assoc.put_keys_nodup h.ids row.1 row.2
  · show places (w.apply (advance w out call).1).agents organizationId ≤ included
    rw [hagents]
    cases hrow : call.saves w out with
    | none => exact h.within
    | some row => exact (places_put_le_iff h.within).mpr (hfits row hrow)
  · refine h.alone.set hold fun hnew => ?_
    rcases advance_inHand hnew with hhand | hread | hwork
    · exact .inl hhand
    · exact .inr fun other hother => Bool.eq_false_iff.mp (hreads hread other hother)
    · rw [hworks] at hwork
      cases hwork
  · intro other hmem
    show other.Knows (w.apply (advance w out call).1).agents organizationId included
    rw [hagents]
    obtain ⟨j, hj⟩ := List.getElem?_of_mem hmem
    rcases Slots.getElem?_set_cases hj with ⟨-, rfl⟩ | ⟨hne, hj⟩
    · exact hnext
    · have hwas := h.knows other (List.mem_of_getElem? hj)
      cases hrow : call.saves w out with
      | none => exact hwas
      | some row =>
        have hsaves : call.saves w out ≠ none := by
          rw [hrow]
          nofun
        have hhand : call.inHand = true := inHand_of_saves hworks hsaves
        exact knows_of_not_inHand (hother j other hj hne hhand) (works_of_knows hwas)

theorem Calm.step (h : Calm organizationId included w) (action : Action)
    (hundisturbed : undisturbed w action = true) :
    Calm organizationId included (AlwaysOn.step w action) := by
  cases action with
  | begin call =>
    have hhand : call.opened.inHand = false := by cases call <;> rfl
    have hworks : call.opened.works = false := by
      cases call with
      | process id configured stage => cases hundisturbed
      | _ => rfl
    refine ⟨⟨h.plan, h.ids, h.within⟩, h.alone.append_singleton (by simp [hhand]), ?_⟩
    · intro other hother
      rcases List.mem_append.mp hother with hmem | hmem
      · exact h.knows other hmem
      · rw [List.mem_singleton.mp hmem]
        exact knows_of_not_inHand hhand hworks
  | advance i out =>
    unfold undisturbed at hundisturbed
    unfold AlwaysOn.step
    dsimp only at hundisturbed ⊢
    cases hcall : w.calls[i]? with
    | none => exact h
    | some call =>
      rw [hcall] at hundisturbed
      refine h.moved hcall fun hreads other hother => ?_
      have hall : w.calls.all (!·.inHand) = true := by simpa [hreads] using hundisturbed
      simpa using List.all_eq_true.mp hall other hother
  | runBecomes runId status =>
    unfold AlwaysOn.step
    dsimp only
    split
    · exact ⟨⟨h.plan, h.ids, h.within⟩, h.alone, h.knows⟩
    · exact h
  | expire id => exact ⟨⟨h.plan, h.ids, h.within⟩, h.alone, h.knows⟩

/-- **No more agents are on than the plan includes** exactly when every row that takes a place is
saved while there is one; and `resumeWithinCapacity`, by itself, is fair and leaves nobody waiting
while there is room. -/
theorem capacity_respected (organizationId : Uuid) (included : Nat) (w : World)
    (hplan : w.includedAgents.lookup organizationId = some included)
    (hids : (Assoc.keys w.agents).Nodup) (hwithin : places w.agents organizationId ≤ included) :
    (∀ actions,
      Steps.Along step (fun w action => places (step w action).agents organizationId ≤ included)
        w actions ↔
      Steps.Along step (fun w action => withinPlan organizationId included w action = true)
        w actions) ∧
    (w.calls = [] → ∀ actions,
      Steps.Along step (fun w action => undisturbed w action = true) w actions →
      Steps.Along step (fun w action => withinPlan organizationId included w action = true)
        w actions) ∧
    ∀ i first outs, w.calls[i]? = some (.resume organizationId .opening) →
      (∀ out ∈ first :: outs, out.ok = true) →
      (outs.length ≤ (w.back organizationId).length →
        ∀ older ∈ w.waiting organizationId, ∀ newer ∈ w.waiting organizationId,
          (newer.2.hosted = true ∨ older.2.hosted = false) →
          older.2.pausedAt < newer.2.pausedAt →
          (Steps.run step w ((first :: outs).map (.advance i ·))).isOn newer.1 = true →
          (Steps.run step w ((first :: outs).map (.advance i ·))).isOn older.1 = true) ∧
      (outs.length = (w.back organizationId).length →
        (Steps.run step w ((first :: outs).map (.advance i ·))).calls[i]? =
            some (.resume organizationId .returned) ∧
          ∀ entry ∈ w.waiting organizationId,
            (Steps.run step w ((first :: outs).map (.advance i ·))).isOn entry.1 = false →
            included ≤ places (Steps.run step w ((first :: outs).map (.advance i ·))).agents
              organizationId) := by
  refine ⟨fun actions => ?_, fun hcalls actions hundisturbed => ?_, ?_⟩
  · exact Steps.along_iff_of_invariant
      (fun w => places w.agents organizationId ≤ included)
      (fun w action h hwithin => (places_step_le_iff h action).mpr hwithin)
      (fun w action h => places_step_le_iff h action) hwithin
  · have hcalm : Calm organizationId included w := by
      refine ⟨⟨hplan, hids, hwithin⟩, ?_, ?_⟩
      · intro i j call other hi
        simp [hcalls] at hi
      · intro call hcall
        simp [hcalls] at hcall
    refine Steps.along_of_invariant (Calm organizationId included)
      (fun w action h hstep => h.step action hstep) (fun w action h hstep => ?_) hcalm hundisturbed
    exact (places_step_le_iff h.within action).mp (h.step action hstep).within
  · intro i first outs hcall hok
    refine ⟨fun hlength older holder newer hnewer => ?_, fun hlength => ?_⟩
    · exact resume_oldest_first hids hcall hok hlength holder hnewer
    · exact resume_leaves_no_room hplan hids hcall hok hlength

/-! ## Runs -/

def hostedAgent (enabled : Bool) (pausedReason : Option AgentPauseReason) : Agent where
  organizationId := 7
  status := .active
  mode := .autonomous
  createdAt := 0
  alwaysOn := some { enabled, home := some "environment", pausedReason }

def planOfOne (first second : Agent) : World where
  agents := [(1, first), (2, second)]
  includedAgents := [(7, 1)]

def turnOn (id : Uuid) : Call := .configure id 7 (some true) .opening

def turnOff (id : Uuid) : Call := .configure id 7 (some false) .opening

def change (id : Uuid) : Call := .configure id 7 none .opening

/-- Two agents are turned on at once, each counted before the other is saved; and settings are saved
after the agent was turned off and its place taken. -/
theorem one_place_taken_twice :
    (let w := planOfOne (hostedAgent false none) (hostedAgent false none)
    places w.agents 7 = 0 ∧
      places (Steps.run step w (.begin (turnOn 1) :: .begin (turnOn 2) :: Action.times 0 2 ++
        Action.times 1 2 ++ Action.times 0 1 ++ Action.times 1 1)).agents 7 = 2) ∧
    (let w := planOfOne (hostedAgent true none) (hostedAgent false (some ⟨.capacityExhausted, 0⟩))
    places w.agents 7 = 1 ∧
      places (Steps.run step w (.begin (change 1) :: Action.times 0 1 ++ .begin (turnOff 1) ::
        Action.times 1 5 ++ Action.times 0 1)).agents 7 = 2) := by
  constructor <;> decide +kernel

/-- One agent is turned off, and the one that waits takes its place. -/
theorem place_handed_on :
    Steps.Along step (fun w action => withinPlan 7 1 w action = true)
      (planOfOne (hostedAgent true none) (hostedAgent false (some ⟨.capacityExhausted, 0⟩)))
      (.begin (turnOff 1) :: Action.times 0 5 ++ .begin (turnOn 1) :: Action.times 1 3) :=
  (capacity_respected 7 1 _ rfl (by decide) (by decide)).2.1 rfl _ (by decide +kernel)

end Almyty.AlwaysOn
