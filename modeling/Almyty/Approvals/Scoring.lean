import Almyty.Lib.Demands
import Almyty.Approvals.Policies

/-!
# What a score says: `progress` of `approval-policy.evaluator.ts`

`progress` is the greedy filling of the steps from the approvals in the order they came in
(`progress_steps`, `progress_satisfied`). So a satisfied policy has an approver of its own in
every place (`Assignment`), the steps are satisfied from the first on, and an approval that is
added at the end takes nothing away (`scoring_sound_monotone`).

It is not a search for an assignment. Approvals are spent step by step, and an approver who
holds two roles may be spent on the step that others could have filled: whether an assignment
is found depends on the order (`second_role_spent`). It is found for some order whenever there
is one, and for every order where the approvals that match a step match the same later steps
(`scoring_order`).
-/

namespace Almyty.Approvals

open Almyty.Lib List

section

variable {policy : PolicySteps} {approvals : List CollectedApproval}

/-! ## The loop as a greedy filling -/

/-- A step is satisfied by the first approvals that match, and leaves the rest. -/
theorem credit_eq_take (step : ApprovalStep) {required n : Nat} (h : n ≤ required)
    (approvals : List CollectedApproval) :
    credit step required n approvals
      = (n + (Demands.take (approverMatches step) (required - n) approvals).1.length,
        (Demands.take (approverMatches step) (required - n) approvals).2) := by
  induction approvals generalizing n with
  | nil =>
    rw [credit]
    cases required - n <;> rfl
  | cons a rest ih =>
    rw [credit]
    by_cases hlt : n < required
    · obtain ⟨k, hk⟩ : ∃ k, required - n = k + 1 := ⟨required - n - 1, by omega⟩
      rw [if_pos hlt, hk, Demands.take]
      split
      · have hrest : required - (n + 1) = k := by omega
        rw [ih (by omega), hrest, length_cons]
        congr 1
        omega
      · rw [ih h, hk]
    · have hzero : required - n = 0 := by omega
      rw [if_neg hlt, hzero, Demands.take]
      rfl

def entry (index : Nat) (step : ApprovalStep) (satisfiedBy : Nat) : StepProgress where
  index := index
  name := step.name
  approverRole := step.approverRole
  required := step.minApprovals
  satisfiedBy := satisfiedBy
  satisfied := step.minApprovals ≤ satisfiedBy

def entries : Nat → List ApprovalStep → List Nat → List StepProgress
  | i, step :: steps, n :: credits => entry i step n :: entries (i + 1) steps credits
  | _, _, _ => []

abbrev credits (steps : List ApprovalStep) (approvals : List CollectedApproval) : List Nat :=
  Demands.credited (·.minApprovals) approverMatches steps approvals

structure Filling (s : ScoreState) : Prop where
  flag : s.allSatisfied = true
  all : s.stepProgress.all (·.satisfied) = true

structure Stuck (s : ScoreState) : Prop where
  flag : s.allSatisfied = false
  notAll : s.stepProgress.all (·.satisfied) = false

variable {s : ScoreState}

theorem scoreStep_filling (h : Filling s) (step : ApprovalStep) :
    scoreStep s step =
      let taken := Demands.take (approverMatches step) step.minApprovals s.remaining
      { remaining := taken.2
        stepProgress := s.stepProgress ++ [entry s.stepProgress.length step taken.1.length]
        currentStep :=
          if step.minApprovals ≤ taken.1.length then s.currentStep else s.stepProgress.length
        allSatisfied := decide (step.minApprovals ≤ taken.1.length) } := by
  unfold scoreStep
  rw [h.all, h.flag]
  simp only [if_true, Nat.zero_max, credit_eq_take step (Nat.zero_le _), Nat.zero_add, Nat.sub_zero,
    Bool.and_true, Bool.true_and, entry]
  congr 1
  by_cases hfull : step.minApprovals ≤
      (Demands.take (approverMatches step) step.minApprovals s.remaining).1.length <;> simp [hfull]

theorem scoreStep_stuck (h : Stuck s) (step : ApprovalStep) :
    scoreStep s step =
      { s with stepProgress := s.stepProgress ++ [entry s.stepProgress.length step 0] } := by
  unfold scoreStep
  rw [h.notAll]
  simp [h.flag, entry]

theorem score_stuck (steps : List ApprovalStep) (h : Stuck s) :
    steps.foldl scoreStep s =
      { s with stepProgress := s.stepProgress ++
          entries s.stepProgress.length steps (steps.map fun _ => 0) } := by
  induction steps generalizing s with
  | nil => simp [entries]
  | cons step steps ih =>
    have hnext : Stuck
        { s with stepProgress := s.stepProgress ++ [entry s.stepProgress.length step 0] } :=
      ⟨h.flag, by simp [h.notAll]⟩
    rw [foldl_cons, scoreStep_stuck h, ih hnext]
    simp [entries]

theorem score_filling (steps : List ApprovalStep) (h : Filling s) :
    (steps.foldl scoreStep s).stepProgress = s.stepProgress ++
        entries s.stepProgress.length steps (credits steps s.remaining) ∧
      (steps.foldl scoreStep s).allSatisfied
        = Demands.greedy (·.minApprovals) approverMatches steps s.remaining ∧
      ((steps.foldl scoreStep s).allSatisfied = false →
        (steps.foldl scoreStep s).currentStep = s.stepProgress.length +
          ((entries s.stepProgress.length steps (credits steps s.remaining)).findIdx
            fun sp => !sp.satisfied)) := by
  induction steps generalizing s with
  | nil =>
    refine ⟨by simp [entries], by simp [Demands.greedy, h.flag], ?_⟩
    intro hshort
    exact absurd hshort (by simp [h.flag])
  | cons step steps ih =>
    rw [foldl_cons, scoreStep_filling h]
    set taken := Demands.take (approverMatches step) step.minApprovals s.remaining with htaken
    by_cases hfull : step.minApprovals ≤ taken.1.length
    · have hfilling : Filling
          { remaining := taken.2
            stepProgress := s.stepProgress ++ [entry s.stepProgress.length step taken.1.length]
            currentStep := if step.minApprovals ≤ taken.1.length then s.currentStep
              else s.stepProgress.length
            allSatisfied := decide (step.minApprovals ≤ taken.1.length) } :=
        ⟨by simp [hfull], by simp [h.all, entry, hfull]⟩
      obtain ⟨hsteps, hall, hcurrent⟩ := ih hfilling
      refine ⟨?_, ?_, ?_⟩
      · rw [hsteps]
        simp [credits, Demands.credited, ← htaken, hfull, entries]
      · rw [hall]
        simp [Demands.greedy, ← htaken, hfull]
      · intro hshort
        rw [hcurrent hshort]
        simp [credits, Demands.credited, ← htaken, hfull, entries, findIdx_cons, entry]
        omega
    · have hshort : Stuck
          { remaining := taken.2
            stepProgress := s.stepProgress ++ [entry s.stepProgress.length step taken.1.length]
            currentStep := if step.minApprovals ≤ taken.1.length then s.currentStep
              else s.stepProgress.length
            allSatisfied := decide (step.minApprovals ≤ taken.1.length) } :=
        ⟨by simp [hfull], by simp [entry, hfull]⟩
      rw [score_stuck steps hshort]
      refine ⟨?_, ?_, ?_⟩
      · simp [credits, Demands.credited, ← htaken, hfull, entries]
      · simp [Demands.greedy, ← htaken, hfull]
      · intro _
        simp [credits, Demands.credited, ← htaken, hfull, entries, findIdx_cons, entry]

theorem progress_steps (policy : PolicySteps) (approvals : List CollectedApproval) :
    (progress policy approvals).steps
      = entries 0 policy.steps (credits policy.steps approvals) :=
  (score_filling policy.steps (s := { remaining := approvals }) ⟨rfl, rfl⟩).1

theorem progress_satisfied (policy : PolicySteps) (approvals : List CollectedApproval) :
    (progress policy approvals).satisfied
      = Demands.greedy (·.minApprovals) approverMatches policy.steps approvals :=
  (score_filling policy.steps (s := { remaining := approvals }) ⟨rfl, rfl⟩).2.1

theorem progress_currentStep (policy : PolicySteps) (approvals : List CollectedApproval) :
    (progress policy approvals).currentStep =
      if (progress policy approvals).satisfied then -1
      else (((progress policy approvals).steps.findIdx fun sp => !sp.satisfied : Nat) : Int) := by
  obtain ⟨hsteps, -, hcurrent⟩ :=
    score_filling policy.steps (s := { remaining := approvals }) ⟨rfl, rfl⟩
  cases hall : (policy.steps.foldl scoreStep { remaining := approvals }).allSatisfied with
  | true => simp [progress, hall]
  | false =>
    rw [progress_steps]
    simpa [progress, hall] using hcurrent hall

/-! ## The entries -/

structure EntryOf (step : ApprovalStep) (sp : StepProgress) : Prop where
  name : sp.name = step.name
  role : sp.approverRole = step.approverRole
  required : sp.required = step.minApprovals
  satisfied : sp.satisfied = decide (step.minApprovals ≤ sp.satisfiedBy)

theorem entries_forall₂ (i : Nat) {steps : List ApprovalStep} {given : List Nat}
    (h : given.length = steps.length) : List.Forall₂ EntryOf steps (entries i steps given) := by
  induction steps generalizing i given with
  | nil => exact .nil
  | cons step steps ih =>
    cases given with
    | nil => exact absurd h (by simp)
    | cons n given =>
      exact .cons ⟨rfl, rfl, rfl, rfl⟩ (ih (i + 1) (Nat.succ.inj h))

theorem entries_all (i : Nat) (steps : List ApprovalStep) (approvals : List CollectedApproval) :
    (entries i steps (credits steps approvals)).all (·.satisfied)
      = Demands.greedy (·.minApprovals) approverMatches steps approvals := by
  induction steps generalizing i approvals with
  | nil => rfl
  | cons step steps ih =>
    rw [credits, Demands.credited, Demands.greedy, entries, all_cons]
    by_cases h : step.minApprovals ≤
        (Demands.take (approverMatches step) step.minApprovals approvals).1.length
    · rw [if_pos h, ih]
      rfl
    · simp [entry, h]

theorem nothing_unsatisfied (i : Nat) (steps : List ApprovalStep) :
    ∀ sp ∈ entries i steps (steps.map fun _ => 0), sp.satisfied = false := by
  induction steps generalizing i with
  | nil =>
    intro sp hsp
    exact absurd hsp not_mem_nil
  | cons step steps ih =>
    intro sp hsp
    rcases mem_cons.mp hsp with rfl | hsp
    · have hneeded := step.needed
      exact decide_eq_false (Nat.not_le.mpr hneeded)
    · exact ih (i + 1) sp hsp

theorem entries_pairwise (i : Nat) (steps : List ApprovalStep)
    (approvals : List CollectedApproval) :
    (entries i steps (credits steps approvals)).Pairwise
      fun earlier later => later.satisfied = true → earlier.satisfied = true := by
  induction steps generalizing i approvals with
  | nil => exact .nil
  | cons step steps ih =>
    rw [credits, Demands.credited, entries, pairwise_cons]
    by_cases h : step.minApprovals ≤
        (Demands.take (approverMatches step) step.minApprovals approvals).1.length
    · rw [if_pos h]
      exact ⟨fun _ _ _ => decide_eq_true h, ih (i + 1) _⟩
    · rw [if_neg h]
      have hnone := nothing_unsatisfied (i + 1) steps
      refine ⟨?_, pairwise_of_forall_mem_list ?_⟩
      · intro sp hsp hsat
        exact absurd (hnone sp hsp) (by simp [hsat])
      · intro _ _ sp hsp hsat
        exact absurd (hnone sp hsp) (by simp [hsat])

structure NoLower (before after : StepProgress) : Prop where
  satisfiedBy : before.satisfiedBy ≤ after.satisfiedBy
  satisfied : before.satisfied = true → after.satisfied = true

theorem entries_mono (i : Nat) {steps : List ApprovalStep} {given given' : List Nat}
    (hlength : given.length = steps.length) (h : List.Forall₂ (· ≤ ·) given given') :
    List.Forall₂ NoLower (entries i steps given) (entries i steps given') := by
  induction h generalizing i steps with
  | nil =>
    obtain rfl := eq_nil_of_length_eq_zero hlength.symm
    exact .nil
  | @cons n n' given given' hn _ ih =>
    cases steps with
    | nil => exact absurd hlength (by simp)
    | cons step steps =>
      refine .cons ⟨hn, ?_⟩ (ih (i + 1) (Nat.succ.inj hlength))
      intro hsat
      exact decide_eq_true (Nat.le_trans (of_decide_eq_true hsat) hn)

theorem exists_before {before after : List StepProgress} (h : List.Forall₂ NoLower before after)
    {sp : StepProgress} (hsp : sp ∈ after) : ∃ sp' ∈ before, NoLower sp' sp := by
  induction h with
  | nil => exact absurd hsp not_mem_nil
  | @cons b a before after hba _ ih =>
    rcases mem_cons.mp hsp with rfl | hsp
    · exact ⟨b, mem_cons_self, hba⟩
    · obtain ⟨sp', hmem, hlower⟩ := ih hsp
      exact ⟨sp', mem_cons_of_mem _ hmem, hlower⟩

/-! ## Approvers in their places -/

structure Assignment (policy : PolicySteps) (approvals : List CollectedApproval)
    (places : List (List CollectedApproval)) : Prop where
  filled : List.Forall₂
    (fun step place =>
      place.length = step.minApprovals ∧ ∀ approval ∈ place, approverMatches step approval = true)
    policy.steps places
  given : ∀ approval ∈ places.flatten, approval ∈ approvals
  distinct : (places.flatten.map (·.approverId)).Nodup

theorem assignment_iff_fillable (hdistinct : (approvals.map (·.approverId)).Nodup) :
    (∃ places, Assignment policy approvals places) ↔
      Demands.Fillable (·.minApprovals) approverMatches policy.steps approvals := by
  constructor
  · rintro ⟨places, h⟩
    exact ⟨places, h.filled, subperm_of_subset (List.Nodup.of_map _ h.distinct) h.given⟩
  · rintro ⟨places, hplaces, hsub⟩
    refine ⟨places, hplaces, fun _ ha => hsub.subset ha, ?_⟩
    obtain ⟨chosen, hperm, hsublist⟩ := hsub
    exact (hperm.map _).nodup_iff.mp (hdistinct.sublist (hsublist.map _))

def Interchangeable (policy : PolicySteps) (approvals : List CollectedApproval) : Prop :=
  policy.steps.Pairwise fun earlier later =>
    ∀ a ∈ approvals, ∀ b ∈ approvals, approverMatches earlier a = true →
      approverMatches earlier b = true → approverMatches later a = approverMatches later b

/-- **What the order of the approvals decides**: there is an assignment exactly when some order is
scored satisfied; and every order is, where the approvals of a step match the same later steps. -/
theorem scoring_order (policy : PolicySteps) (approvals : List CollectedApproval)
    (hdistinct : (approvals.map (·.approverId)).Nodup) :
    ((progress policy approvals).satisfied = true → ∃ places, Assignment policy approvals places) ∧
    ((∃ places, Assignment policy approvals places) ↔
      ∃ order, order.Perm approvals ∧ (progress policy order).satisfied = true) ∧
    (Interchangeable policy approvals → ∀ order, order.Perm approvals →
      ((progress policy order).satisfied = true ↔
        ∃ places, Assignment policy approvals places)) := by
  refine ⟨?_, ?_, ?_⟩
  · rw [assignment_iff_fillable hdistinct, progress_satisfied]
    exact Demands.places_of_greedy
  · rw [assignment_iff_fillable hdistinct, Demands.fillable_iff_order]
    simp only [progress_satisfied]
  · intro halike order horder
    have hsame : Demands.Fillable (·.minApprovals) approverMatches policy.steps order ↔
        Demands.Fillable (·.minApprovals) approverMatches policy.steps approvals :=
      ⟨fun ⟨places, hplaces, hsub⟩ => ⟨places, hplaces, hsub.trans horder.subperm⟩,
        fun ⟨places, hplaces, hsub⟩ => ⟨places, hplaces, hsub.trans horder.symm.subperm⟩⟩
    rw [assignment_iff_fillable hdistinct, progress_satisfied, ← hsame]
    exact Demands.greedy_iff_fillable
      (Demands.Alike.of_subset halike fun a ha => horder.subset ha)

/-! ### A manager who is in finance too -/

def twoSteps : PolicySteps where
  id := "p"
  name := "two steps"
  steps := [⟨"first", "manager", 1, by decide⟩, ⟨"second", "finance", 1, by decide⟩]

def bothRoles : CollectedApproval := ⟨.str "a", [.str "manager", .str "finance"]⟩

def managerOnly : CollectedApproval := ⟨.str "b", [.str "manager"]⟩

def financeOnly : CollectedApproval := ⟨.str "c", [.str "finance"]⟩

theorem scoring_order_apart :
    (progress twoSteps [financeOnly, managerOnly]).satisfied = true ∧
      ∃ places, Assignment twoSteps [managerOnly, financeOnly] places := by
  have hscored : (progress twoSteps [financeOnly, managerOnly]).satisfied = true := by decide
  refine ⟨hscored, ((scoring_order twoSteps [managerOnly, financeOnly] (by decide)).2.2 ?_
    [financeOnly, managerOnly] (List.Perm.swap _ _ _)).mp hscored⟩
  unfold Interchangeable
  decide

theorem second_role_spent :
    ¬∀ (policy : PolicySteps) (approvals : List CollectedApproval),
      (approvals.map (·.approverId)).Nodup →
      ((progress policy approvals).satisfied = true ↔
        ∃ places, Assignment policy approvals places) := by
  intro hclaim
  have hnot : (progress twoSteps [bothRoles, managerOnly]).satisfied = false := by decide
  have hassigned : ∃ places, Assignment twoSteps [bothRoles, managerOnly] places := by
    refine ⟨[[managerOnly], [bothRoles]], .cons ?_ (.cons ?_ .nil), ?_, ?_⟩
    · exact ⟨rfl, by decide⟩
    · exact ⟨rfl, by decide⟩
    · decide
    · decide
  have hsat := (hclaim twoSteps [bothRoles, managerOnly] (by decide)).mpr hassigned
  rw [hnot] at hsat
  exact absurd hsat (by decide)

/-! ## One approval more -/

structure InOrder (policy : PolicySteps) (p : PolicyProgress) : Prop where
  entries : List.Forall₂ EntryOf policy.steps p.steps
  satisfiedFirst : p.steps.Pairwise
    fun earlier later => later.satisfied = true → earlier.satisfied = true
  whole : p.satisfied = p.steps.all (·.satisfied)
  current : p.currentStep =
    if p.satisfied then -1 else ((p.steps.findIdx fun sp => !sp.satisfied : Nat) : Int)

theorem progress_inOrder (policy : PolicySteps) (approvals : List CollectedApproval) :
    InOrder policy (progress policy approvals) := by
  refine ⟨?_, ?_, ?_, progress_currentStep policy approvals⟩
  · rw [progress_steps]
    exact entries_forall₂ 0 (Demands.credited_length _ _)
  · rw [progress_steps]
    exact entries_pairwise 0 policy.steps approvals
  · rw [progress_steps, progress_satisfied, entries_all]

theorem progress_append (policy : PolicySteps) (approvals : List CollectedApproval)
    (more : List CollectedApproval) :
    List.Forall₂ NoLower (progress policy approvals).steps
      (progress policy (approvals ++ more)).steps := by
  rw [progress_steps, progress_steps]
  exact entries_mono 0 (Demands.credited_length _ _) (Demands.credited_append more)

theorem scoring_sound_monotone (policy : PolicySteps) (approvals : List CollectedApproval)
    (hdistinct : (approvals.map (·.approverId)).Nodup) :
    ((progress policy approvals).satisfied = true → ∃ places, Assignment policy approvals places) ∧
    InOrder policy (progress policy approvals) ∧
    ∀ approval,
      List.Forall₂ NoLower (progress policy approvals).steps
        (progress policy (approvals ++ [approval])).steps ∧
      ((progress policy approvals).satisfied = true →
        (progress policy (approvals ++ [approval])).satisfied = true) := by
  refine ⟨?_, progress_inOrder policy approvals, fun approval =>
    ⟨progress_append policy approvals [approval], ?_⟩⟩
  · rw [assignment_iff_fillable hdistinct, progress_satisfied]
    exact Demands.places_of_greedy
  · rw [(progress_inOrder policy approvals).whole, (progress_inOrder policy _).whole,
      all_eq_true, all_eq_true]
    intro hall sp hsp
    obtain ⟨before, hbefore, hlower⟩ := exists_before (progress_append policy approvals [approval]) hsp
    exact hlower.satisfied (hall before hbefore)

theorem scoring_sound_monotone_apart :
    ∃ places, Assignment twoSteps [managerOnly, financeOnly] places :=
  (scoring_sound_monotone twoSteps [managerOnly, financeOnly] (by decide)).1 (by decide)

end

end Almyty.Approvals
