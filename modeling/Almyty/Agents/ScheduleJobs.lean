import Almyty.Agents.Schedules
import Almyty.Lib.Slots
import Almyty.Lib.Steps

/-!
# One job for a schedule that is on, none for one that is off

A call of the scheduler that has begun to write owes the rest: a `scheduleAgent` that has saved
its row will remove the jobs it finds and add its own, an `unscheduleAgent` will turn the row off,
a restore that has removed jobs will add one for every row it finds on. Between calls nothing is
owed, so `one_job_per_schedule` follows from this: every job under another timing than its row's is
one that some call will remove (`Call.cleans`), and every row that is on without its job is one
that some call will give a job to or turn off (`Call.adds`).

Each step keeps that as long as it is `careful`:
- a job is added under the timing its row has at that moment, or while a `scheduleAgent` that has
  saved its row has still to list the jobs;
- `scheduleAgent` removes the job of the row's timing only when it sets the same timing;
- a row is turned off when there is no job of its agent left;
- a command that fails leaves nothing that was up to it: the errors of the list and of the
  removals are swallowed, so a failed one must have had nothing to remove.
-/

namespace Almyty.Agents

open Almyty.Lib List

def Call.willList (id : Uuid) : Call → Bool
  | .schedule id' _ _ .listing => id' = id
  | _ => false

/-- No job of the agent is under another timing than its row's. -/
def World.current (w : World) (id : Uuid) : Bool :=
  (w.repeatsOf id).all fun repeat' => w.onRepeat id = some repeat'

/-- The agent has its job when its row is on. -/
def World.filled (w : World) (id : Uuid) : Bool :=
  (w.onRepeat id).all fun repeat' => (id, repeat') ∈ w.jobs

/-- The job may be added: the row says so, or somebody looks at the jobs later. -/
def World.addable (w : World) (id : Uuid) (repeat' : Repeat) : Bool :=
  w.onRepeat id = some repeat' || w.calls.any (·.willList id)

def carefulCall (w : World) (out : Outside) : Call → Bool
  | .schedule id _ _ .listing => out.ok || w.current id
  | .schedule id _ timing (.removing (repeat' :: _)) =>
    if out.ok then
      w.onRepeat id ≠ some repeat' || (id, repeat') ∉ w.jobs || repeatFor timing = repeat'
    else w.current id
  | .schedule id _ timing .adding =>
    if out.ok then w.addable id (repeatFor timing)
    else w.onRepeat id ≠ some (repeatFor timing) || w.filled id
  | .unschedule id _ (.saving _) =>
    if out.ok then w.repeatsOf id = [] else w.current id && w.filled id
  | .restore (.removing _) | .restore .finding =>
    out.ok || w.agents.all fun entry => w.filled entry.1
  | .restore (.adding (⟨id, _, repeat'⟩ :: _) _) => !out.ok || w.addable id repeat'
  | .restore (.marking ((id, _) :: _)) => if out.ok then w.repeatsOf id = [] else w.filled id
  | _ => true

def careful (w : World) : Action → Bool
  | .begin _ => true
  | .advance i out => (w.calls[i]?).all (carefulCall w out)

/-! ## What a call owes -/

def Call.cleans (id : Uuid) (repeat' : Repeat) : Call → Prop
  | .schedule id' _ _ .listing => id' = id
  | .schedule id' _ _ (.removing repeats) => id' = id ∧ repeat' ∈ repeats
  | .unschedule id' _ (.listing _) | .unschedule id' _ (.removing _ _)
  | .unschedule id' _ (.saving _) => id' = id
  | _ => False

def Call.adds (id : Uuid) (repeat' : Repeat) : Call → Prop
  | .schedule id' _ timing .listing | .schedule id' _ timing (.removing _)
  | .schedule id' _ timing .adding => id' = id ∧ repeatFor timing = repeat'
  | .unschedule id' _ (.listing _) | .unschedule id' _ (.removing _ _)
  | .unschedule id' _ (.saving _) => id' = id
  | .restore (.removing _) | .restore .finding => True
  | .restore (.adding restoring failed) =>
    (∃ e ∈ restoring, e.id = id ∧ e.repeat' = repeat') ∨ ∃ e ∈ failed, e.1 = id
  | .restore (.marking failed) => ∃ e ∈ failed, e.1 = id
  | _ => False

def Call.handsActive : Call → Prop
  | .schedule _ _ _ (.checking agent) | .schedule _ _ _ (.saving agent) => agent.status = .active
  | _ => True

structure Inv (w : World) : Prop where
  nodup : w.jobs.Nodup
  active : ∀ id agent, w.agents.lookup id = some agent → agent.repeat.isSome →
    agent.status = .active
  hands : ∀ call ∈ w.calls, call.handsActive
  stray : ∀ id repeat', (id, repeat') ∈ w.jobs → w.onRepeat id ≠ some repeat' →
    ∃ call ∈ w.calls, call.cleans id repeat'
  missing : ∀ id repeat', w.onRepeat id = some repeat' → (id, repeat') ∉ w.jobs →
    ∃ call ∈ w.calls, call.adds id repeat'

variable {w : World} {out : Outside} {i : Nat} {id : Uuid} {repeat' : Repeat} {old new : Call}

theorem not_cleans_of_over (h : old.over = true) : ¬old.cleans id repeat' := by
  unfold Call.over at h
  split at h
  all_goals first
    | exact fun hcleans => hcleans
    | cases h

theorem not_adds_of_over (h : old.over = true) : ¬old.adds id repeat' := by
  unfold Call.over at h
  split at h
  all_goals first
    | exact fun hadds => hadds
    | cases h

theorem Inv.agrees (h : Inv w) (hquiet : w.quiet = true) (id : Uuid) : Agrees w id := by
  have hover := all_eq_true.mp hquiet
  refine agrees_of_mem_iff h.nodup fun repeat' => ⟨fun hjob => ?_, fun hon => ?_⟩
  · by_contra hstray
    obtain ⟨call, hcall, hcleans⟩ := h.stray id repeat' hjob hstray
    exact not_cleans_of_over (hover call hcall) hcleans
  · by_contra hmissing
    obtain ⟨call, hcall, hadds⟩ := h.missing id repeat' hon hmissing
    exact not_adds_of_over (hover call hcall) hadds

/-! ## The kinds of step -/

theorem hands_set (h : Inv w) (hnew : new.handsActive) :
    ∀ call ∈ w.calls.set i new, call.handsActive := by
  intro call hcall
  rcases mem_or_eq_of_mem_set hcall with hmem | heq
  · exact h.hands call hmem
  · rw [heq]
    exact hnew

theorem Inv.moved (h : Inv w) (hold : w.calls[i]? = some old) (hhands : new.handsActive)
    (hcleans : ∀ id repeat', (id, repeat') ∈ w.jobs → w.onRepeat id ≠ some repeat' →
      old.cleans id repeat' → new.cleans id repeat')
    (hadds : ∀ id repeat', w.onRepeat id = some repeat' → (id, repeat') ∉ w.jobs →
      old.adds id repeat' → new.adds id repeat') :
    Inv { w with calls := w.calls.set i new } where
  nodup := h.nodup
  active := h.active
  hands := hands_set h hhands
  stray := fun id repeat' hjob hstray =>
    Slots.exists_mem_set hold (h.stray id repeat' hjob hstray) (hcleans id repeat' hjob hstray)
  missing := fun id repeat' hon hmissing =>
    Slots.exists_mem_set hold (h.missing id repeat' hon hmissing) (hadds id repeat' hon hmissing)

theorem Inv.idle (h : Inv w) (hold : w.calls[i]? = some old) (hhands : new.handsActive)
    (hcleans : ∀ id repeat', ¬old.cleans id repeat') (hadds : ∀ id repeat', ¬old.adds id repeat') :
    Inv { w with calls := w.calls.set i new } :=
  h.moved hold hhands (fun id repeat' _ _ hold => absurd hold (hcleans id repeat'))
    fun id repeat' _ _ hold => absurd hold (hadds id repeat')

theorem Inv.removed (h : Inv w) (hold : w.calls[i]? = some old) (job : Uuid × Repeat)
    (hhands : new.handsActive)
    (hcleans : ∀ id repeat', (id, repeat') ≠ job → old.cleans id repeat' → new.cleans id repeat')
    (hadds : ∀ id repeat', old.adds id repeat' → new.adds id repeat')
    (hjob : w.onRepeat job.1 = some job.2 → job ∈ w.jobs → new.adds job.1 job.2) :
    Inv { w.removeRepeatableByKey job with calls := w.calls.set i new } where
  nodup := h.nodup.filter _
  active := h.active
  hands := hands_set h hhands
  stray := fun id repeat' hmem hstray => by
    obtain ⟨hmem, hne⟩ := mem_removeRepeatableByKey_iff.mp hmem
    exact Slots.exists_mem_set hold (h.stray id repeat' hmem hstray) (hcleans id repeat' hne)
  missing := fun id repeat' hon hmissing => by
    by_cases hmem : (id, repeat') ∈ w.jobs
    · -- the job that was removed
      have heq : (id, repeat') = job := by
        by_contra hne
        exact hmissing (mem_removeRepeatableByKey_iff.mpr ⟨hmem, hne⟩)
      subst heq
      exact ⟨new, List.mem_of_getElem? (Slots.getElem?_set_of_some hold), hjob hon hmem⟩
    · exact Slots.exists_mem_set hold (h.missing id repeat' hon hmem) (hadds id repeat')

theorem Inv.added (h : Inv w) (hold : w.calls[i]? = some old) (job : Uuid × Repeat)
    (hhands : new.handsActive)
    (hcleans : ∀ id repeat', old.cleans id repeat' → new.cleans id repeat')
    (hadds : ∀ id repeat', (id, repeat') ≠ job → old.adds id repeat' → new.adds id repeat')
    (haddable : w.addable job.1 job.2 = true) (hlist : old.willList job.1 = false) :
    Inv { w.enqueueRepeatableJob job with calls := w.calls.set i new } where
  nodup := enqueueRepeatableJob_nodup h.nodup
  active := h.active
  hands := hands_set h hhands
  stray := fun id repeat' hmem hstray => by
    rcases mem_enqueueRepeatableJob_iff.mp hmem with hmem | heq
    · exact Slots.exists_mem_set hold (h.stray id repeat' hmem hstray) (hcleans id repeat')
    · -- the new job is not the row's, but the jobs are still to be listed
      subst heq
      rcases Bool.or_eq_true _ _ ▸ haddable with hon | hlater
      · exact absurd (of_decide_eq_true hon) hstray
      · obtain ⟨call, hcall, hwill⟩ := any_eq_true.mp hlater
        have hcases : call = old ∨ call ∈ w.calls.set i new := Slots.eq_or_mem_set hold hcall
        rcases hcases with rfl | hmem
        · rw [hlist] at hwill
          cases hwill
        · refine ⟨call, hmem, ?_⟩
          unfold Call.willList at hwill
          split at hwill
          · exact (of_decide_eq_true hwill : _ = _)
          · cases hwill
  missing := fun id repeat' hon hmissing => by
    have hnew : (id, repeat') ∉ w.jobs ∧ (id, repeat') ≠ job := by
      constructor
      · exact fun hmem => hmissing (mem_enqueueRepeatableJob_iff.mpr (.inl hmem))
      · exact fun heq => hmissing (mem_enqueueRepeatableJob_iff.mpr (.inr heq))
    exact Slots.exists_mem_set hold (h.missing id repeat' hon hnew.1) (hadds id repeat' hnew.2)

theorem Inv.saved (h : Inv w) (hold : w.calls[i]? = some old) (id : Uuid) (agent : Agent)
    (hhands : new.handsActive) (hactive : agent.repeat.isSome → agent.status = .active)
    (hcleans : ∀ id' repeat', id' ≠ id → old.cleans id' repeat' → new.cleans id' repeat')
    (hadds : ∀ id' repeat', id' ≠ id → old.adds id' repeat' → new.adds id' repeat')
    (hstray : ∀ repeat', (id, repeat') ∈ w.jobs → agent.repeat ≠ some repeat' →
      new.cleans id repeat')
    (hmissing : ∀ repeat', agent.repeat = some repeat' → new.adds id repeat') :
    Inv { w.saveAgent id agent with calls := w.calls.set i new } where
  nodup := h.nodup
  active := fun id' agent' hagent' => by
    replace hagent' := (Assoc.lookup_put w.agents id agent id').symm.trans hagent'
    split at hagent'
    · obtain rfl := Option.some.inj hagent'
      exact hactive
    · exact h.active id' agent' hagent'
  hands := hands_set h hhands
  stray := fun id' repeat' hjob hne => by
    replace hne : (w.saveAgent id agent).onRepeat id' ≠ some repeat' := hne
    rw [onRepeat_saveAgent] at hne
    split at hne
    next heq =>
      subst heq
      exact ⟨new, List.mem_of_getElem? (Slots.getElem?_set_of_some hold), hstray repeat' hjob hne⟩
    next hid =>
      exact Slots.exists_mem_set hold (h.stray id' repeat' hjob hne) (hcleans id' repeat' hid)
  missing := fun id' repeat' hon hjob => by
    replace hon : (w.saveAgent id agent).onRepeat id' = some repeat' := hon
    rw [onRepeat_saveAgent] at hon
    split at hon
    next heq =>
      subst heq
      exact ⟨new, List.mem_of_getElem? (Slots.getElem?_set_of_some hold), hmissing repeat' hon⟩
    next hid =>
      exact Slots.exists_mem_set hold (h.missing id' repeat' hon hjob) (hadds id' repeat' hid)

/-! ## The calls -/

/-- What is left of a step: the new state of the call beside the rows and the queue. -/
def World.moved (w : World) (i : Nat) (p : World × Call) : World :=
  { p.1 with calls := w.calls.set i p.2 }

theorem current_of_stray (h : w.current id = true) (hjob : (id, repeat') ∈ w.jobs) :
    w.onRepeat id = some repeat' :=
  of_decide_eq_true (all_eq_true.mp h _ (mem_repeatsOf_iff.mpr hjob))

theorem filled_of_on (h : w.filled id = true) (hon : w.onRepeat id = some repeat') :
    (id, repeat') ∈ w.jobs := by
  unfold World.filled at h
  rw [hon] at h
  exact of_decide_eq_true h

variable {organizationId : Uuid} {timing : ScheduleTiming}

theorem cleans_removingNext {repeats : List Repeat} (h : repeat' ∈ repeats) :
    (Call.schedule id organizationId timing (.removingNext repeats)).cleans id repeat' := by
  cases repeats with
  | nil => cases h
  | cons first rest => exact ⟨rfl, h⟩

theorem adds_removingNext (repeats : List Repeat) :
    (Call.schedule id organizationId timing (.removingNext repeats)).adds id
      (repeatFor timing) := by
  cases repeats <;> exact ⟨rfl, rfl⟩

theorem handsActive_removingNext (repeats : List Repeat) :
    (Call.schedule id organizationId timing (.removingNext repeats)).handsActive := by
  cases repeats <;> trivial

theorem Inv.schedule (h : Inv w) {stage : ScheduleStage}
    (hold : w.calls[i]? = some (.schedule id organizationId timing stage))
    (hcareful : carefulCall w out (.schedule id organizationId timing stage) = true) :
    Inv (w.moved i (advance w out (.schedule id organizationId timing stage))) := by
  have hands := h.hands _ (List.mem_of_getElem? hold)
  cases stage with
  | opening =>
    unfold advance advanceSchedule
    dsimp only
    split
    · exact h.idle hold trivial nofun nofun
    split
    · exact h.idle hold trivial nofun nofun
    split
    · exact h.idle hold trivial nofun nofun
    next agent _ hstatus =>
      have hactive : agent.status = .active := Decidable.not_not.mp hstatus
      exact h.idle hold hactive nofun nofun
  | checking agent =>
    unfold advance advanceSchedule
    dsimp only
    split
    · exact h.idle hold hands nofun nofun
    · exact h.idle hold trivial nofun nofun
  | saving agent =>
    unfold advance advanceSchedule
    dsimp only
    split
    · exact h.idle hold trivial nofun nofun
    · -- the row is on, and the call will remove the jobs it finds and add this one
      refine h.saved hold id _ trivial (fun _ => hands) (fun _ _ _ hold => hold.elim)
        (fun _ _ _ hold => hold.elim) (fun _ _ _ => rfl) fun repeat' hon => ⟨rfl, ?_⟩
      exact Option.some.inj hon
  | listing =>
    unfold advance advanceSchedule
    dsimp only
    cases hok : out.ok with
    | true =>
      refine h.moved hold (handsActive_removingNext _) (fun id' repeat' hjob _ hcleans => ?_)
        fun id' repeat' _ _ hadds => ?_
      · obtain rfl : id = id' := hcleans
        exact cleans_removingNext (mem_repeatsOf_iff.mpr hjob)
      · obtain ⟨rfl, rfl⟩ : id = id' ∧ repeatFor timing = repeat' := hadds
        exact adds_removingNext _
    | false =>
      -- nothing was there to remove
      have hcurrent : w.current id = true := by simpa [carefulCall, hok] using hcareful
      refine h.moved hold trivial (fun id' repeat' hjob hstray hcleans => ?_)
        fun _ _ _ _ hadds => hadds
      obtain rfl : id = id' := hcleans
      exact absurd (current_of_stray hcurrent hjob) hstray
  | removing repeats =>
    cases repeats with
    | nil => exact h.moved hold trivial (fun _ _ _ _ hold => hold) fun _ _ _ _ hold => hold
    | cons first repeats =>
      unfold advance advanceSchedule
      dsimp only
      cases hok : out.ok with
      | true =>
        have hfirst : w.onRepeat id ≠ some first ∨ (id, first) ∉ w.jobs ∨
            repeatFor timing = first := by
          simpa [carefulCall, hok, or_assoc] using hcareful
        refine h.removed hold (id, first) (handsActive_removingNext _)
          (fun id' repeat' hne hcleans => ?_) (fun id' repeat' hadds => ?_) fun hon hjob => ?_
        · obtain ⟨rfl, hmem⟩ : id = id' ∧ repeat' ∈ first :: repeats := hcleans
          rcases mem_cons.mp hmem with rfl | hmem
          · exact absurd rfl hne
          · exact cleans_removingNext hmem
        · obtain ⟨rfl, rfl⟩ : id = id' ∧ repeatFor timing = repeat' := hadds
          exact adds_removingNext _
        · -- the job of the row's timing goes, to be added again
          rcases hfirst with hoff | hgone | heq
          · exact absurd hon hoff
          · exact absurd hjob hgone
          · rw [← heq]
            exact adds_removingNext _
      | false =>
        have hcurrent : w.current id = true := by simpa [carefulCall, hok] using hcareful
        refine h.moved hold trivial (fun id' repeat' hjob hstray hcleans => ?_)
          fun _ _ _ _ hadds => hadds
        obtain ⟨rfl, -⟩ : id = id' ∧ _ := hcleans
        exact absurd (current_of_stray hcurrent hjob) hstray
  | adding =>
    unfold advance advanceSchedule
    dsimp only
    cases hok : out.ok with
    | true =>
      have haddable : w.addable id (repeatFor timing) = true := by
        simpa [carefulCall, hok] using hcareful
      refine h.added hold (id, repeatFor timing) trivial (fun _ _ hold => hold)
        (fun id' repeat' hne hadds => ?_) haddable rfl
      obtain ⟨rfl, rfl⟩ : id = id' ∧ repeatFor timing = repeat' := hadds
      exact absurd rfl hne
    | false =>
      have hfilled : w.onRepeat id ≠ some (repeatFor timing) ∨ w.filled id = true := by
        simpa [carefulCall, hok] using hcareful
      refine h.moved hold trivial (fun _ _ _ _ hold => hold)
        fun id' repeat' hon hjob hadds => ?_
      obtain ⟨rfl, rfl⟩ : id = id' ∧ repeatFor timing = repeat' := hadds
      rcases hfilled with hoff | hfilled
      · exact absurd hon hoff
      · exact absurd (filled_of_on hfilled hon) hjob
  | returned | failed error =>
    exact h.moved hold trivial (fun _ _ _ _ hold => hold) fun _ _ _ _ hold => hold

theorem cleans_unschedule_next {agent : Agent} (repeats : List Repeat) :
    (Call.unschedule id organizationId (.removingNext agent repeats)).cleans id repeat' := by
  cases repeats <;> rfl

theorem adds_unschedule_next {agent : Agent} (repeats : List Repeat) :
    (Call.unschedule id organizationId (.removingNext agent repeats)).adds id repeat' := by
  cases repeats <;> rfl

theorem no_job_of_repeatsOf_nil (h : w.repeatsOf id = []) : (id, repeat') ∉ w.jobs := by
  rw [← mem_repeatsOf_iff, h]
  exact not_mem_nil

theorem Inv.unschedule (h : Inv w) {stage : UnscheduleStage}
    (hold : w.calls[i]? = some (.unschedule id organizationId stage))
    (hcareful : carefulCall w out (.unschedule id organizationId stage) = true) :
    Inv (w.moved i (advance w out (.unschedule id organizationId stage))) := by
  -- the call owes everything until it has saved the row
  have hnext {agent : Agent} (repeats : List Repeat) {id' : Uuid} {repeat' : Repeat}
      (heq : id = id') :
      (Call.unschedule id organizationId (.removingNext agent repeats)).cleans id' repeat' ∧
        (Call.unschedule id organizationId (.removingNext agent repeats)).adds id' repeat' := by
    subst heq
    exact ⟨cleans_unschedule_next repeats, adds_unschedule_next repeats⟩
  cases stage with
  | opening =>
    unfold advance advanceUnschedule
    dsimp only
    split
    · exact h.idle hold trivial nofun nofun
    split <;> exact h.idle hold trivial nofun nofun
  | listing agent =>
    unfold advance advanceUnschedule
    dsimp only
    cases hok : out.ok with
    | true =>
      refine h.moved hold ?_ (fun _ _ _ _ heq => (hnext _ heq).1) fun _ _ _ _ heq => (hnext _ heq).2
      cases w.repeatsOf id <;> trivial
    | false => exact h.moved hold trivial (fun _ _ _ _ heq => heq) fun _ _ _ _ heq => heq
  | removing agent repeats =>
    cases repeats with
    | nil => exact h.moved hold trivial (fun _ _ _ _ heq => heq) fun _ _ _ _ heq => heq
    | cons first repeats =>
      unfold advance advanceUnschedule
      dsimp only
      cases hok : out.ok with
      | true =>
        refine h.removed hold (id, first) ?_ (fun _ _ _ heq => (hnext _ heq).1)
          (fun _ _ heq => (hnext _ heq).2) fun _ _ => (hnext _ rfl).2
        cases repeats <;> trivial
      | false => exact h.moved hold trivial (fun _ _ _ _ heq => heq) fun _ _ _ _ heq => heq
  | saving agent =>
    unfold advance advanceUnschedule
    dsimp only
    cases hok : out.ok with
    | true =>
      have hnone : w.repeatsOf id = [] := by simpa [carefulCall, hok] using hcareful
      refine h.saved hold id _ trivial (fun hon => ?_) (fun _ _ hne heq => absurd heq.symm hne)
        (fun _ _ hne heq => absurd heq.symm hne)
        (fun _ hjob _ => absurd hjob (no_job_of_repeatsOf_nil hnone)) fun _ hon => ?_
      all_goals
        rw [disabled_repeat] at hon
        cases hon
    | false =>
      have hagrees : w.current id = true ∧ w.filled id = true := by
        simpa [carefulCall, hok] using hcareful
      refine h.moved hold trivial (fun id' repeat' hjob hstray heq => ?_)
        fun id' repeat' hon hjob heq => ?_
      · obtain rfl : id = id' := heq
        exact absurd (current_of_stray hagrees.1 hjob) hstray
      · obtain rfl : id = id' := heq
        exact absurd (filled_of_on hagrees.2 hon) hjob
  | returned | failed error => exact h.idle hold trivial nofun nofun

/-! ## The restore -/

theorem mem_restoring (h : Inv w) (hon : w.onRepeat id = some repeat') :
    ∃ e ∈ w.restoring, e.id = id ∧ e.repeat' = repeat' := by
  obtain ⟨agent, hagent, hrepeat⟩ := onRepeat_eq_some_iff.mp hon
  have hactive := h.active id agent hagent (by rw [hrepeat]; rfl)
  refine ⟨⟨id, agent, repeat'⟩, mem_filterMap.mpr ⟨(id, agent), ?_, ?_⟩, rfl, rfl⟩
  · exact Assoc.mem_of_lookup hagent
  · simp [hactive, hrepeat]

theorem adds_markingNext {failed : List (Uuid × Agent)} (h : ∃ e ∈ failed, e.1 = id) :
    (Call.restore (.markingNext failed)).adds id repeat' := by
  cases failed with
  | nil =>
    obtain ⟨e, he, -⟩ := h
    cases he
  | cons first rest => exact h

theorem adds_addingNext {failed : List (Uuid × Agent)} {restoring : List Restoring}
    (h : (∃ e ∈ restoring, e.id = id ∧ e.repeat' = repeat') ∨ ∃ e ∈ failed, e.1 = id) :
    (Call.restore (.addingNext failed restoring)).adds id repeat' := by
  cases restoring with
  | nil =>
    rcases h with ⟨e, he, -⟩ | h
    · cases he
    · exact adds_markingNext h
  | cons first rest => exact h

theorem handsActive_restore {stage : RestoreStage} : (Call.restore stage).handsActive := trivial

theorem Inv.restore (h : Inv w) {stage : RestoreStage}
    (hold : w.calls[i]? = some (.restore stage))
    (hcareful : carefulCall w out (.restore stage) = true) :
    Inv (w.moved i (advance w out (.restore stage))) := by
  -- a restore that gives up before it has read the rows
  have hgiven (hfilled : w.agents.all (fun entry => w.filled entry.1) = true) :
      Inv { w with calls := w.calls.set i (.restore .returned) } := by
    refine h.moved hold handsActive_restore (fun _ _ _ _ hno => hno) fun id repeat' hon hjob _ => ?_
    obtain ⟨agent, hagent, -⟩ := onRepeat_eq_some_iff.mp hon
    have hid := all_eq_true.mp hfilled _ (Assoc.mem_of_lookup hagent)
    exact absurd (filled_of_on hid hon) hjob
  cases stage with
  | listing | returned =>
    exact h.idle hold handsActive_restore nofun nofun
  | removing jobs =>
    cases jobs with
    | nil =>
      exact h.moved hold handsActive_restore (fun _ _ _ _ hno => hno) fun _ _ _ _ hadds => hadds
    | cons job jobs =>
      unfold advance advanceRestore
      dsimp only
      have hnext {id : Uuid} {repeat' : Repeat} :
          (Call.restore (.removingNext jobs)).adds id repeat' := by
        cases jobs <;> trivial
      cases hok : out.ok with
      | true =>
        exact h.removed hold job handsActive_restore (fun _ _ _ hno => hno.elim)
          (fun _ _ _ => hnext) fun _ _ => hnext
      | false => exact hgiven (by simpa [carefulCall, hok] using hcareful)
  | finding =>
    unfold advance advanceRestore
    dsimp only
    cases hok : out.ok with
    | true =>
      exact h.moved hold handsActive_restore (fun _ _ _ _ hno => hno.elim)
        fun _ _ hon _ _ => adds_addingNext (.inl (mem_restoring h hon))
    | false => exact hgiven (by simpa [carefulCall, hok] using hcareful)
  | adding restoring failed =>
    cases restoring with
    | nil =>
      exact h.moved hold handsActive_restore (fun _ _ _ _ hno => hno) fun _ _ _ _ hadds => hadds
    | cons first restoring =>
      obtain ⟨id, agent, first⟩ := first
      unfold advance advanceRestore
      dsimp only
      cases hok : out.ok with
      | true =>
        have haddable : w.addable id first = true := by simpa [carefulCall, hok] using hcareful
        refine h.added hold (id, first) handsActive_restore (fun _ _ hno => hno.elim)
          (fun id' repeat' hne hadds => adds_addingNext ?_) haddable rfl
        refine hadds.imp_left fun ⟨e, he, hid, hrepeat⟩ => ?_
        rcases mem_cons.mp he with rfl | he
        · exact absurd (Prod.ext hid.symm hrepeat.symm) hne
        · exact ⟨e, he, hid, hrepeat⟩
      | false =>
        -- the row will be marked
        refine h.moved hold handsActive_restore (fun _ _ _ _ hno => hno.elim)
          fun id' repeat' _ _ hadds => adds_addingNext ?_
        rcases hadds with ⟨e, he, hid, hrepeat⟩ | ⟨e, he, hid⟩
        · rcases mem_cons.mp he with rfl | he
          · exact .inr ⟨_, mem_append_right _ (mem_singleton_self _), hid⟩
          · exact .inl ⟨e, he, hid, hrepeat⟩
        · exact .inr ⟨e, mem_append_left _ he, hid⟩
  | marking failed =>
    cases failed with
    | nil =>
      exact h.moved hold handsActive_restore (fun _ _ _ _ hno => hno) fun _ _ _ _ hadds => hadds
    | cons first failed =>
      obtain ⟨id, agent⟩ := first
      unfold advance advanceRestore
      dsimp only
      have hrest {id' : Uuid} {repeat' : Repeat} (hne : id' ≠ id)
          (hadds : ∃ e ∈ (id, agent) :: failed, e.1 = id') :
          (Call.restore (.markingNext failed)).adds id' repeat' := by
        obtain ⟨e, he, hid⟩ := hadds
        rcases mem_cons.mp he with rfl | he
        · exact absurd hid.symm hne
        · exact adds_markingNext ⟨e, he, hid⟩
      cases hok : out.ok with
      | true =>
        have hnone : w.repeatsOf id = [] := by simpa [carefulCall, hok] using hcareful
        refine h.saved hold id _ handsActive_restore (fun hon => ?_)
          (fun _ _ _ hno => hno.elim) (fun _ _ hne hadds => hrest hne hadds)
          (fun _ hjob _ => absurd hjob (no_job_of_repeatsOf_nil hnone)) fun _ hon => ?_
        all_goals
          rw [unrestored_repeat] at hon
          cases hon
      | false =>
        have hfilled : w.filled id = true := by simpa [carefulCall, hok] using hcareful
        refine h.moved hold handsActive_restore (fun _ _ _ _ hno => hno.elim)
          fun id' repeat' hon hjob hadds => ?_
        by_cases hid : id' = id
        · subst hid
          exact absurd (filled_of_on hfilled hon) hjob
        · exact hrest hid hadds

/-! ## Any interleaving -/

theorem Inv.step (h : Inv w) (action : Action) (hcareful : careful w action = true) :
    Inv (step w action) := by
  cases action with
  | begin call =>
    have hopened : call.opened.handsActive := by cases call <;> trivial
    exact
      { h with
        hands := fun call' hcall' => by
          rcases mem_append.mp hcall' with hmem | hmem
          · exact h.hands call' hmem
          · rw [mem_singleton.mp hmem]
            exact hopened
        stray := fun id repeat' hjob hstray => by
          obtain ⟨call', hcall', hcleans⟩ := h.stray id repeat' hjob hstray
          exact ⟨call', mem_append_left _ hcall', hcleans⟩
        missing := fun id repeat' hon hjob => by
          obtain ⟨call', hcall', hadds⟩ := h.missing id repeat' hon hjob
          exact ⟨call', mem_append_left _ hcall', hadds⟩ }
  | advance i out =>
    unfold Agents.step
    unfold careful at hcareful
    dsimp only at hcareful ⊢
    cases hcall : w.calls[i]? with
    | none => exact h
    | some call =>
      rw [hcall] at hcareful
      cases call with
      | schedule id organizationId timing stage => exact h.schedule hcall hcareful
      | unschedule id organizationId stage => exact h.unschedule hcall hcareful
      | restore stage => exact h.restore hcall hcareful

/-- The scheduler before any call. -/
def World.start (agents : List (Uuid × Agent)) (jobs : List (Uuid × Repeat)) : World :=
  { agents, jobs }

/-- In any interleaving of careful steps, whenever no call is in flight, an agent has exactly its
row's job when its schedule is on, and none when it is off. -/
theorem one_job_per_schedule (agents : List (Uuid × Agent)) (jobs : List (Uuid × Repeat))
    (hjobs : jobs.Nodup) (hagrees : ∀ id, Agrees (World.start agents jobs) id)
    (hactive : ∀ e ∈ agents, e.2.repeat.isSome → e.2.status = .active) (actions : List Action)
    (hcareful : Steps.Along step (fun w action => careful w action = true)
      (World.start agents jobs) actions)
    (hquiet : (Steps.run step (World.start agents jobs) actions).quiet = true) (id : Uuid) :
    Agrees (Steps.run step (World.start agents jobs) actions) id := by
  have hmem (id : Uuid) (repeat' : Repeat) : (id, repeat') ∈ jobs ↔
      (World.start agents jobs).onRepeat id = some repeat' := by
    have heq : (World.start agents jobs).repeatsOf id = _ := hagrees id
    rw [← Option.mem_toList, ← heq, mem_repeatsOf_iff]
    rfl
  have hstart : Inv (World.start agents jobs) :=
    { nodup := hjobs
      active := fun id agent hagent => hactive _ (Assoc.mem_of_lookup hagent)
      hands := fun _ hcall => (nomatch hcall)
      stray := fun id repeat' hjob hstray => absurd ((hmem id repeat').mp hjob) hstray
      missing := fun id repeat' hon hjob => absurd ((hmem id repeat').mpr hon) hjob }
  exact (Steps.run_invariant Inv (fun _ action h hstep => h.step action hstep) hstart
    hcareful).agrees hquiet id

/-! ## Runs -/

def reporter : List (Uuid × Agent) := [(1, { organizationId := 7, status := .active })]

def Action.runOf (i steps : Nat) (call : Call) : List Action :=
  .begin call :: List.replicate steps (.advance i {})

def every (minutes : Nat) : Call := .schedule 1 7 (.interval minutes) .opening

/-- Two timings at once leave two jobs; a removal or an addition that fails leaves a job too many or
too few. -/
theorem overlapping_timings_leave_two_jobs :
    (let w := Steps.run step (World.start reporter [])
      [.begin (every 15), .begin (every 30), .advance 0 {}, .advance 0 {}, .advance 0 {},
        .advance 0 {}, .advance 1 {}, .advance 1 {}, .advance 1 {}, .advance 1 {}, .advance 0 {},
        .advance 1 {}]
    w.quiet = true ∧ ¬Agrees w 1) ∧
    (let w := Steps.run step (World.start reporter [])
      (Action.runOf 0 5 (every 15) ++ [.begin (.unschedule 1 7 .opening), .advance 1 {},
        .advance 1 { ok := false }, .advance 1 {}])
    w.quiet = true ∧ ¬Agrees w 1) ∧
    (let w := Steps.run step (World.start reporter [])
      (Action.runOf 0 4 (every 15) ++ [.advance 0 { ok := false }])
    w.quiet = true ∧ ¬Agrees w 1) := by
  decide

/-- A timing set, changed, restored and turned off. -/
theorem schedule_then_restore_agrees :
    Agrees (Steps.run step (World.start reporter [])
      (Action.runOf 0 5 (every 15) ++ Action.runOf 1 6 (every 30) ++
        Action.runOf 2 4 (.restore .listing) ++
        Action.runOf 3 4 (.unschedule 1 7 .opening))) 1 := by
  refine one_job_per_schedule reporter [] nodup_nil (fun id => ?_) (by decide) _ (by decide)
    (by decide) 1
  unfold Agrees World.onRepeat
  show [] = (List.lookup id reporter |>.bind Agent.repeat).toList
  rw [reporter, Assoc.lookup_cons]
  split <;> rfl

end Almyty.Agents
