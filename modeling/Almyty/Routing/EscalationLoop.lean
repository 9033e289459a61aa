import Almyty.Lib.Loop
import Almyty.Routing.Escalation

/-!
# The loop of escalations: `runWithVerifyEscalation` of `verify-escalation.ts`

The loop runs, verifies, decides, and runs again behind the candidate whose answer was rejected;
nothing in it counts the turns. It ends because the place of the answer goes up: a run that skips so
many candidates answers from further down the plan, and skips that many the next time (`Walking`,
the invariant).

`escalation_loop_ends` says what it returns. The plan's end is seen by the answer's place when the
caller gives the number of candidates; without it by one more run, which finds no candidate and
whose place in the trail repeats the last one (`one_run_more`).

Mirroring notes:
- `run`, `verify` and the signal are the caller's: functions of the number of the run.
-/

namespace Almyty.Routing

open Almyty.Lib List Option

structure RunError where
  code : String := ""
  name : String := "Error"

def isPlanExhausted (error : RunError) : Bool :=
  error.code = "NO_ROUTE" || error.name = "NoRouteError"

inductive RunOutcome (T : Type)
  | answered (output : T) (attempt : Nat)
  | threw (error : RunError)

structure LoopOptions (T : Type) where
  policy : RoutingPolicy
  candidateCount : Option Int := none
  run : Nat → RoutingPolicy → RunOutcome T
  verify : Nat → T → Nat → VerifyOutcome
  enabled : Bool := true
  aborted : Nat → Bool := fun _ => false

inductive EscalationAction
  | accept | stop | escalate

def EscalationDecision.action : EscalationDecision → EscalationAction
  | .accept _ => .accept
  | .stop _ => .stop
  | .escalate _ _ _ => .escalate

def EscalationDecision.reason : EscalationDecision → String
  | .accept reason => reason
  | .stop reason => reason
  | .escalate reason _ _ => reason

structure EscalationStep where
  attempt : Nat
  decision : EscalationAction
  reason : String
  failures : Nat

structure Answer (T : Type) where
  output : T
  verify : VerifyOutcome
  attempt : Nat

structure EscalatedResult (T : Type) extends Answer T where
  escalations : Nat
  trail : List EscalationStep

/-- The variables of the loop, and the policies sent so far. -/
structure LoopState (T : Type) where
  policy : RoutingPolicy
  escalations : Nat := 0
  last : Option (Answer T) := none
  trail : List EscalationStep := []
  sent : List RoutingPolicy := []

structure LoopEnd (T : Type) where
  result : Except RunError (EscalatedResult T)
  sent : List RoutingPolicy

section

variable {T : Type} (opts : LoopOptions T)

def escalationTurn (s : LoopState T) : Loop.Turn (LoopState T) (LoopEnd T) :=
  let sent := s.sent ++ [s.policy]
  match opts.run s.sent.length s.policy with
  | .threw error =>
    match s.last.filter fun _ => isPlanExhausted error with
    | some last =>
      let stop : EscalationStep :=
        { attempt := last.attempt, decision := .stop, reason := "no further candidate in the plan"
          failures := last.verify.failures }
      .done ⟨.ok { last with escalations := s.escalations - 1, trail := s.trail ++ [stop] }, sent⟩
    | none => .done ⟨.error error, sent⟩
  | .answered output attempt =>
    let verify := opts.verify s.sent.length output attempt
    let decision := decideEscalation opts.policy verify
      { attempt, candidateCount := opts.candidateCount, escalations := s.escalations,
        aborted := opts.aborted s.sent.length } opts.enabled
    let trail := s.trail ++
      [{ attempt, decision := decision.action, reason := decision.reason
         failures := verify.failures }]
    match decision with
    | .escalate _ _ skipCandidates =>
      .again
        { policy := nextRoutingPolicy opts.policy skipCandidates
          escalations := s.escalations + 1
          last := some { output, verify, attempt }
          trail, sent }
    | .accept _ | .stop _ =>
      .done ⟨.ok { output, verify, attempt, escalations := s.escalations, trail }, sent⟩

def runWithVerifyEscalation (fuel : Nat) : Option (LoopEnd T) :=
  Loop.run (escalationTurn opts) fuel { policy := opts.policy }

structure PlanOf (N : Nat) : Prop where
  answers : ∀ i policy, policy.skip < N →
    ∃ output attempt, opts.run i policy = .answered output attempt ∧
      policy.skip < attempt ∧ attempt ≤ N
  noRoute : ∀ i policy, N ≤ policy.skip →
    ∃ error, opts.run i policy = .threw error ∧ isPlanExhausted error = true

def answeredRuns (sent : List RoutingPolicy) : Nat :=
  sent.zipIdx.countP fun entry =>
    match opts.run entry.2 entry.1 with
    | .answered _ _ => true
    | .threw _ => false

def OfOneRun (answer : Answer T) (sent : List RoutingPolicy) : Prop :=
  ∃ i policy, sent[i]? = some policy ∧ opts.run i policy = .answered answer.output answer.attempt ∧
    opts.verify i answer.output answer.attempt = answer.verify

/-- The places go up, but for a stop at the end that repeats the last one. -/
def Climbs (trail : List EscalationStep) : Prop :=
  (trail.map (·.attempt)).Pairwise (· < ·) ∨
    ∃ front last stop, trail = front ++ [last] ++ [stop] ∧
      ((front ++ [last]).map (·.attempt)).Pairwise (· < ·) ∧ stop.decision = .stop ∧
      stop.attempt = last.attempt

/-- What a loop over a plan of so many candidates comes to. -/
structure WithinBudget (N : Nat) (result : EscalatedResult T) (sent : List RoutingPolicy) :
    Prop where
  runs : sent.length ≤ N + 1
  counted : opts.candidateCount = some (N : Int) → sent.length ≤ N
  escalationsUsed : ∀ escalation most, opts.policy.escalation = some escalation →
    escalation.maxEscalations = some most → sent.length ≤ most.floor.toNat + 1
  climbs : Climbs result.trail
  oneRun : OfOneRun opts result.toAnswer sent
  reported : result.escalations + 1 = answeredRuns opts sent

/-! ## One turn -/

theorem effectiveMax_le {escalation : VerifyEscalationPolicy} {state : EscalationState}
    {most : Rat} (h : escalation.maxEscalations = some most) :
    ∃ limit, effectiveMax escalation state = some limit ∧ limit ≤ most.floor.toNat := by
  unfold effectiveMax
  rw [h]
  cases state.candidateCount with
  | none => exact ⟨_, rfl, Nat.le_refl _⟩
  | some n => exact ⟨_, rfl, Nat.min_le_right _ _⟩

theorem decideEscalation_budget {policy : RoutingPolicy} {outcome : VerifyOutcome}
    {state : EscalationState} {enabled : Bool} {reason : String} {nextAttempt skip : Nat}
    (h : decideEscalation policy outcome state enabled = .escalate reason nextAttempt skip) :
    (∀ escalation most, policy.escalation = some escalation →
      escalation.maxEscalations = some most → state.escalations < most.floor.toNat) ∧
    ∀ n, state.candidateCount = some n → (state.attempt : Int) < n := by
  unfold decideEscalation at h
  split at h
  · cases h
  split at h
  · cases h
  split at h
  · cases h
  next escalation hescalation =>
  split at h
  · cases h
  split at h
  · cases h
  split at h
  · cases h
  split at h
  · cases h
  next hroom =>
  split at h
  · cases h
  next hleft =>
  constructor
  · intro escalation' most hpolicy hmost
    obtain rfl : escalation = escalation' := some.inj (hescalation.symm.trans hpolicy)
    obtain ⟨limit, hlimit, hle⟩ : ∃ limit, effectiveMax escalation state = some limit ∧
        limit ≤ most.floor.toNat := effectiveMax_le hmost
    rw [hlimit] at hroom
    have hnot : ¬limit ≤ state.escalations := by simpa [Option.filter] using hroom
    omega
  · intro n hcount
    rw [hcount] at hleft
    simpa using hleft

variable {opts : LoopOptions T} {N : Nat}

theorem escalationTurn_again {s s' : LoopState T} (h : escalationTurn opts s = .again s') :
    ∃ answer step, OfOneRun opts answer (s.sent ++ [s.policy]) ∧
      opts.run s.sent.length s.policy = .answered answer.output answer.attempt ∧
      step.attempt = answer.attempt ∧
      s' = { policy := nextRoutingPolicy opts.policy answer.attempt
             escalations := s.escalations + 1
             last := some answer
             trail := s.trail ++ [step]
             sent := s.sent ++ [s.policy] } ∧
      (∀ escalation most, opts.policy.escalation = some escalation →
        escalation.maxEscalations = some most → s.escalations < most.floor.toNat) ∧
      ∀ n, opts.candidateCount = some n → (answer.attempt : Int) < n := by
  unfold escalationTurn at h
  cases hrun : opts.run s.sent.length s.policy with
  | threw error =>
    rw [hrun] at h
    dsimp only at h
    split at h <;> cases h
  | answered output attempt =>
    rw [hrun] at h
    dsimp only at h
    split at h
    · next reason nextAttempt skip hdecision =>
      obtain rfl := decideEscalation_escalate hdecision
      obtain ⟨hbudget, hleft⟩ := decideEscalation_budget hdecision
      cases h
      refine ⟨⟨output, _, skip⟩, _, ⟨s.sent.length, s.policy, ?_, hrun, rfl⟩, rfl, rfl, rfl,
        hbudget, hleft⟩
      exact List.getElem?_concat_length
    · cases h
    · cases h

/-- A turn that ends the loop returns its own answer, or the last one when no candidate is
left. -/
theorem escalationTurn_done {s : LoopState T} {result : LoopEnd T}
    (h : escalationTurn opts s = .done result) :
    result.sent = s.sent ++ [s.policy] ∧
    ((∃ answer step, OfOneRun opts answer (s.sent ++ [s.policy]) ∧
        opts.run s.sent.length s.policy = .answered answer.output answer.attempt ∧
        step.attempt = answer.attempt ∧
        result.result = .ok { answer with
          escalations := s.escalations, trail := s.trail ++ [step] }) ∨
      ∃ error, opts.run s.sent.length s.policy = .threw error ∧
        ((∃ last stop, s.last = some last ∧ stop.attempt = last.attempt ∧ stop.decision = .stop ∧
            result.result = .ok { last with
              escalations := s.escalations - 1, trail := s.trail ++ [stop] }) ∨
          (s.last = none ∨ isPlanExhausted error = false) ∧ result.result = .error error)) := by
  unfold escalationTurn at h
  cases hrun : opts.run s.sent.length s.policy with
  | threw error =>
    rw [hrun] at h
    dsimp only at h
    split at h
    · next last hlast =>
      cases h
      obtain ⟨hlast, -⟩ := filter_eq_some_iff.mp hlast
      exact ⟨rfl, .inr ⟨error, rfl, .inl ⟨last, _, hlast, rfl, rfl, rfl⟩⟩⟩
    · next hnone =>
      cases h
      refine ⟨rfl, .inr ⟨error, rfl, .inr ⟨?_, rfl⟩⟩⟩
      cases hlast : s.last with
      | none => exact .inl rfl
      | some last =>
        rw [hlast] at hnone
        exact .inr (by simpa [Option.filter] using hnone)
  | answered output attempt =>
    rw [hrun] at h
    dsimp only at h
    split at h
    · cases h
    all_goals
      cases h
      refine ⟨rfl, .inl ⟨⟨output, _, attempt⟩, _, ⟨s.sent.length, s.policy, ?_, hrun, rfl⟩, rfl,
        rfl, rfl⟩⟩
      exact List.getElem?_concat_length

/-! ## The walk down the plan -/

structure Walking (opts : LoopOptions T) (N : Nat) (s : LoopState T) : Prop where
  counted : s.sent.length = s.escalations
  within : s.policy.skip ≤ N
  used : s.escalations ≤ s.policy.skip
  /-- With the number of candidates known, one is left. -/
  left : opts.candidateCount = some (N : Int) → s.policy.skip < N
  budget : ∀ escalation most, opts.policy.escalation = some escalation →
    escalation.maxEscalations = some most → s.escalations ≤ most.floor.toNat
  climbs : (s.trail.map (·.attempt)).Pairwise (· < ·)
  below : ∀ step ∈ s.trail, step.attempt ≤ s.policy.skip
  answered : answeredRuns opts s.sent = s.sent.length
  /-- The last answer, once there is one, stands at the end of the trail. -/
  last : (s.last = none ∧ s.escalations = 0 ∧ s.policy.skip < N) ∨
    ∃ answer front step, s.last = some answer ∧ s.trail = front ++ [step] ∧
      step.attempt = answer.attempt ∧ OfOneRun opts answer s.sent

/-! ## The walk, turn by turn -/

theorem OfOneRun.append {answer : Answer T} {sent : List RoutingPolicy}
    (h : OfOneRun opts answer sent) (policy : RoutingPolicy) :
    OfOneRun opts answer (sent ++ [policy]) := by
  obtain ⟨i, policy', hi, hrun, hverify⟩ := h
  refine ⟨i, policy', ?_, hrun, hverify⟩
  rw [List.getElem?_append_left (List.getElem?_eq_some_iff.mp hi).1]
  exact hi

theorem answeredRuns_append (opts : LoopOptions T) (sent : List RoutingPolicy)
    (policy : RoutingPolicy) :
    answeredRuns opts (sent ++ [policy]) = answeredRuns opts sent +
      match opts.run sent.length policy with
      | .answered _ _ => 1
      | .threw _ => 0 := by
  unfold answeredRuns
  rw [zipIdx_append, countP_append, Nat.zero_add, zipIdx_singleton, countP_singleton]
  congr 1
  cases opts.run sent.length policy <;> rfl

theorem climbs_append {trail : List EscalationStep} {step : EscalationStep} {n : Nat}
    (h : (trail.map (·.attempt)).Pairwise (· < ·)) (hbelow : ∀ t ∈ trail, t.attempt ≤ n)
    (hstep : n < step.attempt) : ((trail ++ [step]).map (·.attempt)).Pairwise (· < ·) := by
  rw [map_append, pairwise_append]
  refine ⟨h, pairwise_singleton _ _, ?_⟩
  intro a ha b hb
  obtain ⟨t, ht, rfl⟩ := mem_map.mp ha
  obtain rfl := mem_singleton.mp hb
  exact Nat.lt_of_le_of_lt (hbelow t ht) hstep

theorem walking_start (h : opts.policy.skip < N) : Walking opts N { policy := opts.policy } where
  counted := rfl
  within := Nat.le_of_lt h
  used := Nat.zero_le _
  left := fun _ => h
  budget := fun _ _ _ _ => Nat.zero_le _
  climbs := .nil
  below := fun _ hmem => absurd hmem not_mem_nil
  answered := rfl
  last := .inl ⟨rfl, rfl, h⟩

theorem walking_again (hplan : PlanOf opts N) {s s' : LoopState T} (h : Walking opts N s)
    (hturn : escalationTurn opts s = .again s') :
    Walking opts N s' ∧ N - s'.policy.skip < N - s.policy.skip := by
  obtain ⟨answer, step, hone, hrun, hstep, rfl, hbudget, hleft⟩ := escalationTurn_again hturn
  -- the run answered, so it did not skip the whole plan
  have hskip : s.policy.skip < N := by
    by_contra hall
    obtain ⟨error, hthrew, -⟩ := hplan.noRoute s.sent.length s.policy (Nat.not_lt.mp hall)
    rw [hrun] at hthrew
    cases hthrew
  obtain ⟨output, attempt, hrun', hbehind, hwithin⟩ := hplan.answers s.sent.length s.policy hskip
  obtain ⟨rfl, rfl⟩ := RunOutcome.answered.inj (hrun.symm.trans hrun')
  have hused := h.used
  rw [nextRoutingPolicy_skip]
  refine ⟨?_, by omega⟩
  constructor
  · rw [length_append, length_singleton, h.counted]
  · rw [nextRoutingPolicy_skip]
    exact hwithin
  · rw [nextRoutingPolicy_skip]
    show s.escalations + 1 ≤ answer.attempt
    omega
  · intro hcount
    rw [nextRoutingPolicy_skip]
    have := hleft N hcount
    omega
  · intro escalation most hescalation hmost
    exact hbudget escalation most hescalation hmost
  · exact climbs_append h.climbs h.below (hstep ▸ hbehind)
  · intro t ht
    rw [nextRoutingPolicy_skip]
    rcases mem_append.mp ht with ht | ht
    · exact Nat.le_of_lt (Nat.lt_of_le_of_lt (h.below t ht) hbehind)
    · obtain rfl := mem_singleton.mp ht
      exact Nat.le_of_eq hstep
  · rw [answeredRuns_append, h.answered, hrun, length_append, length_singleton]
  · exact .inr ⟨answer, s.trail, step, rfl, rfl, hstep, hone⟩

theorem walking_done (hplan : PlanOf opts N) {s : LoopState T} {result : LoopEnd T}
    (h : Walking opts N s) (hturn : escalationTurn opts s = .done result) :
    ∃ returned, result.result = .ok returned ∧ WithinBudget opts N returned result.sent := by
  obtain ⟨hsent, hend⟩ := escalationTurn_done hturn
  have hlength : result.sent.length = s.escalations + 1 := by
    rw [hsent, length_append, length_singleton, h.counted]
  have hused := h.used
  have hwithin := h.within
  have hbudget : ∀ escalation most, opts.policy.escalation = some escalation →
      escalation.maxEscalations = some most → result.sent.length ≤ most.floor.toNat + 1 := by
    intro escalation most hescalation hmost
    have := h.budget escalation most hescalation hmost
    omega
  rcases hend with ⟨answer, step, hone, hrun, hstep, hresult⟩ | ⟨error, hrun, hthrew⟩
  · have hskip : s.policy.skip < N := by
      by_contra hall
      obtain ⟨error, hthrew, -⟩ := hplan.noRoute s.sent.length s.policy (Nat.not_lt.mp hall)
      rw [hrun] at hthrew
      cases hthrew
    obtain ⟨output, attempt, hrun', hbehind, -⟩ := hplan.answers s.sent.length s.policy hskip
    obtain ⟨rfl, rfl⟩ := RunOutcome.answered.inj (hrun.symm.trans hrun')
    refine ⟨_, hresult, by omega, fun _ => by omega, hbudget,
      .inl (climbs_append h.climbs h.below (hstep ▸ hbehind)), hsent ▸ hone, ?_⟩
    rw [hsent, answeredRuns_append, h.answered, hrun, h.counted]
  · -- a run throws only when it skips the whole plan
    have hall : ¬s.policy.skip < N := by
      intro hskip
      obtain ⟨output, attempt, hanswered, -⟩ := hplan.answers s.sent.length s.policy hskip
      rw [hrun] at hanswered
      cases hanswered
    obtain ⟨error', hrun', hexhausted⟩ :=
      hplan.noRoute s.sent.length s.policy (Nat.not_lt.mp hall)
    obtain rfl := RunOutcome.threw.inj (hrun.symm.trans hrun')
    obtain ⟨-, -, hless⟩ | ⟨answer, front, step, hlast, htrail, hstep, hone⟩ := h.last
    · exact absurd hless hall
    rcases hthrew with ⟨last, stop, hlast', hattempt, hstop, hresult⟩ | ⟨hnone, -⟩
    · obtain rfl : answer = last := some.inj (hlast.symm.trans hlast')
      have hclimbs := h.climbs
      rw [htrail] at hclimbs
      have hsome : 1 ≤ s.escalations := by
        obtain ⟨i, policy, hi, -⟩ := hone
        have := (List.getElem?_eq_some_iff.mp hi).1
        have := h.counted
        omega
      refine ⟨_, hresult, by omega, fun hcount => absurd (h.left hcount) hall, hbudget, ?_,
        hsent ▸ hone.append s.policy, ?_⟩
      · exact .inr ⟨front, step, stop, by rw [htrail], hclimbs, hstop, hattempt.trans hstep.symm⟩
      · rw [hsent, answeredRuns_append, h.answered, hrun, h.counted]
        show s.escalations - 1 + 1 = s.escalations
        omega
    · rcases hnone with hnone | hnot
      · rw [hlast] at hnone
        cases hnone
      · rw [hexhausted] at hnot
        cases hnot

/-- **The loop ends within its budget**, from a policy that does not skip every candidate. -/
theorem escalation_loop_ends (opts : LoopOptions T) (N : Nat) (hplan : PlanOf opts N) :
    (opts.policy.skip < N → ∀ fuel, N < fuel →
      ∃ returned sent, runWithVerifyEscalation opts fuel = some ⟨.ok returned, sent⟩ ∧
        WithinBudget opts N returned sent) ∧
    (N ≤ opts.policy.skip → ∀ fuel, 0 < fuel →
      ∃ error, runWithVerifyEscalation opts fuel = some ⟨.error error, [opts.policy]⟩) := by
  constructor
  · intro hskip fuel hfuel
    obtain ⟨⟨result, sent⟩, hrun, returned, hreturned, hwithin⟩ :=
      Loop.run_spec (Walking opts N) (fun s => N - s.policy.skip)
        (fun result => ∃ returned, result.result = .ok returned ∧
          WithinBudget opts N returned result.sent)
        (fun _ _ h hturn => walking_again hplan h hturn)
        (fun _ _ h hturn => walking_done hplan h hturn) (walking_start hskip)
        (Nat.lt_of_le_of_lt (Nat.sub_le _ _) hfuel)
    obtain rfl : result = .ok returned := hreturned
    exact ⟨returned, sent, hrun, hwithin⟩
  · intro hskip fuel hfuel
    obtain ⟨error, hthrew, -⟩ := hplan.noRoute 0 opts.policy hskip
    obtain ⟨fuel, rfl⟩ := Nat.exists_eq_succ_of_ne_zero (Nat.pos_iff_ne_zero.mp hfuel)
    refine ⟨error, ?_⟩
    simp [runWithVerifyEscalation, Loop.run, escalationTurn, hthrew]

end

/-! ## A plan of one candidate -/

def rejectedOptions (N : Nat) (candidateCount : Option Int) : LoopOptions Nat where
  policy := { escalation := some { onVerifyFail := .nextCandidate } }
  candidateCount := candidateCount
  run i policy :=
    if policy.skip < N then .answered i (policy.skip + 1)
    else .threw { code := "NO_ROUTE", name := "NoRouteError" }
  verify _ _ _ := { passed := false }

theorem rejectedOptions_plan (N : Nat) (candidateCount : Option Int) :
    PlanOf (rejectedOptions N candidateCount) N where
  answers i policy h := ⟨i, policy.skip + 1, if_pos h, Nat.lt_succ_self _, h⟩
  noRoute _ _ h := ⟨_, if_neg (Nat.not_lt.mpr h), rfl⟩

theorem escalation_loop_ends_of_two :
    ∃ returned sent, runWithVerifyEscalation (rejectedOptions 2 (some 2)) 3
        = some ⟨.ok returned, sent⟩ ∧
      WithinBudget (rejectedOptions 2 (some 2)) 2 returned sent :=
  (escalation_loop_ends (rejectedOptions 2 (some 2)) 2 (rejectedOptions_plan 2 _)).1 (by decide) 3
    (by decide)

theorem one_run_more :
    ¬∀ (N : Nat) (opts : LoopOptions Nat), PlanOf opts N → opts.policy.skip < N →
      ∀ fuel returned sent, runWithVerifyEscalation opts fuel = some ⟨.ok returned, sent⟩ →
        sent.length ≤ N := by
  intro hclaim
  have hmore : ∃ returned sent, runWithVerifyEscalation (rejectedOptions 1 none) 2
      = some ⟨.ok returned, sent⟩ ∧ sent.length = 2 := ⟨_, _, rfl, rfl⟩
  obtain ⟨returned, sent, hrun, hlength⟩ := hmore
  have hle := hclaim 1 _ (rejectedOptions_plan 1 none) (by decide) 2 returned sent hrun
  omega

end Almyty.Routing
