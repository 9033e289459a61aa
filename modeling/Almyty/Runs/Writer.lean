import Almyty.Lib.Steps
import Almyty.Runs.Projection

/-!
# Writing a run: `modules/agents/run-event-writer.ts`

`writeRun` is the one way a run's state changes: it locks the row, asks the caller for the columns
to set, appends the events that describe the change and moves `headSeq` past them, in one
transaction. A change of lease columns alone with no notes appends nothing.

`LogSound` is what the log is for: its seqs are `1..headSeq` and it folds back into the row.
`log_sound_along_iff` says exactly which runs keep it.

Mirroring notes:
- A write is atomic, so the `UPDATE` that names the `headSeq` it read always matches.
- `select` reads fewer columns of the locked row; the callers that use it ask only for lease
  columns, which they all read, so `change` sees the row.
-/

namespace Almyty.Runs

open Almyty.Lib List

/-- The columns a write sets. -/
structure RunChange where
  status : Option AgentRunStatus := none
  currentStep : Option Int := none
  totalCost : Option Rat := none
  totalTokens : Option Int := none
  toolCallCount : Option Int := none
  executionTime : Option Int := none
  output : Option JsonValue := none
  error : Option (Option String) := none
  workingMemory : Option JsonValue := none
  metadata : Option JsonValue := none
  steps : Option JsonValue := none
  deliveredAt : Option (Option Time) := none
  nextWakeAt : Option (Option Time) := none
  leaseOwner : Option (Option String) := none
  leaseExpiresAt : Option (Option Time) := none
  attempt : Option Nat := none
  takeovers : Option Nat := none

def RunChange.applyTo (patch : RunChange) (row : AgentRun) : AgentRun :=
  { status := patch.status.getD row.status
    currentStep := patch.currentStep.getD row.currentStep
    totalCost := patch.totalCost.getD row.totalCost
    totalTokens := patch.totalTokens.getD row.totalTokens
    toolCallCount := patch.toolCallCount.getD row.toolCallCount
    executionTime := patch.executionTime.getD row.executionTime
    output := patch.output.getD row.output
    error := patch.error.getD row.error
    workingMemory := patch.workingMemory.getD row.workingMemory
    metadata := patch.metadata.getD row.metadata
    steps := patch.steps.getD row.steps
    deliveredAt := patch.deliveredAt.getD row.deliveredAt
    headSeq := row.headSeq
    nextWakeAt := patch.nextWakeAt.getD row.nextWakeAt
    leaseOwner := patch.leaseOwner.getD row.leaseOwner
    leaseExpiresAt := patch.leaseExpiresAt.getD row.leaseExpiresAt
    attempt := patch.attempt.getD row.attempt
    takeovers := patch.takeovers.getD row.takeovers }

/-- Every key of the change is one of `LEASE_COLUMNS`. -/
def isLeaseOnly (patch : RunChange) : Bool :=
  patch.status.isNone && patch.currentStep.isNone && patch.totalCost.isNone
    && patch.totalTokens.isNone && patch.toolCallCount.isNone && patch.executionTime.isNone
    && patch.output.isNone && patch.error.isNone && patch.workingMemory.isNone
    && patch.metadata.isNone && patch.steps.isNone && patch.deliveredAt.isNone

/-- When the run next needs a worker, from the status a write leaves it in,
unless the write says itself. -/
def withWake (now : Time) (patch : RunChange) : RunChange :=
  match patch.nextWakeAt, patch.status with
  | none, some .pending | none, some .running => { patch with nextWakeAt := some (some now) }
  | none, some .sleeping => patch
  | none, some _ => { patch with nextWakeAt := some none }
  | _, _ => patch

structure RunStore where
  row : AgentRun
  events : List RunEventRecord

structure RunWrite where
  where' : AgentRun → Bool
  change : AgentRun → Option RunChange
  notes : List RunNote := []
  select : Bool := false
  now : Time

def numbered (head : Nat) (events : List RunEventDraft) : List RunEventRecord :=
  events.mapIdx fun i e => ⟨head + i + 1, e.step, e.body⟩

/-- Write a run's state and append the events describing the write. The row as
written, or nothing when no row matched; an error rolls the transaction back. -/
def writeRun (store : RunStore) (w : RunWrite) : Except String (RunStore × Option AgentRun) :=
  if w.where' store.row = false then .ok (store, none)
  else
    match w.change store.row with
    | none => .ok (store, none)
    | some asked =>
      if isLeaseOnly asked && w.notes.isEmpty then
        let next := asked.applyTo store.row
        .ok ({ store with row := next }, some next)
      else if w.select then
        .error "writeRun: a write that reads only some columns may change lease columns only"
      else
        let next := (withWake w.now asked).applyTo store.row
        let events := commitEvents (baselineOf store.row) next w.notes
        let records := numbered store.row.headSeq events
        -- the primary key (runId, seq)
        if records.any fun r => store.events.any fun e => e.seq = r.seq then
          .error "duplicate key value violates unique constraint"
        else
          let written := { next with headSeq := store.row.headSeq + events.length }
          .ok ({ row := written, events := store.events ++ records }, some written)

/-- The store after a call: a call that throws leaves it as it was. -/
def RunStore.write (store : RunStore) (w : RunWrite) : RunStore :=
  match writeRun store w with
  | .ok (store', _) => store'
  | .error _ => store

/-- The call wrote a row. -/
def RunStore.Commits (store : RunStore) (w : RunWrite) : Prop :=
  ∃ store' next, writeRun store w = .ok (store', some next)

/-! ## What a write can do -/

def RunStore.lease (store : RunStore) (asked : RunChange) : RunStore :=
  { store with row := asked.applyTo store.row }

/-- The row a logged write leaves, but for its head. -/
def nextRow (row : AgentRun) (now : Time) (asked : RunChange) : AgentRun :=
  (withWake now asked).applyTo row

/-- A write with its events. -/
def RunStore.log (store : RunStore) (now : Time) (asked : RunChange) (notes : List RunNote) :
    RunStore :=
  let next := nextRow store.row now asked
  let events := commitEvents (baselineOf store.row) next notes
  { row := { next with headSeq := store.row.headSeq + events.length }
    events := store.events ++ numbered store.row.headSeq events }

/-- Some event of the log has one of the seqs a write would add. -/
def RunStore.repeats (store : RunStore) (now : Time) (asked : RunChange) (notes : List RunNote) :
    Bool :=
  (numbered store.row.headSeq
    (commitEvents (baselineOf store.row) (nextRow store.row now asked) notes)).any fun r =>
      store.events.any fun e => e.seq = r.seq

def RunWrite.asked (w : RunWrite) (row : AgentRun) : Option RunChange :=
  if w.where' row then w.change row else none

def RunWrite.isLease (w : RunWrite) (asked : RunChange) : Bool :=
  isLeaseOnly asked && w.notes.isEmpty

variable {store : RunStore} {w : RunWrite}

theorem writeRun_none (h : w.asked store.row = none) : writeRun store w = .ok (store, none) := by
  unfold RunWrite.asked at h
  unfold writeRun
  by_cases hw : w.where' store.row = true
  · rw [if_pos hw] at h
    rw [if_neg (by simp [hw]), h]
  · rw [if_pos (by simpa using hw)]

variable {asked : RunChange}

theorem writeRun_lease (h : w.asked store.row = some asked) (hl : w.isLease asked = true) :
    writeRun store w = .ok (store.lease asked, some (store.lease asked).row) := by
  unfold RunWrite.asked at h
  unfold writeRun
  by_cases hw : w.where' store.row = true
  · rw [if_pos hw] at h
    rw [if_neg (by simp [hw]), h]
    exact if_pos hl
  · rw [if_neg hw] at h; cases h

theorem writeRun_log (h : w.asked store.row = some asked) (hl : w.isLease asked = false) :
    writeRun store w =
      if w.select then
        .error "writeRun: a write that reads only some columns may change lease columns only"
      else if store.repeats w.now asked w.notes then
        .error "duplicate key value violates unique constraint"
      else .ok (store.log w.now asked w.notes, some (store.log w.now asked w.notes).row) := by
  unfold RunWrite.asked at h
  unfold writeRun
  by_cases hw : w.where' store.row = true
  · rw [if_pos hw] at h
    rw [if_neg (by simp [hw]), h]
    exact if_neg (by rw [RunWrite.isLease] at hl; simp [hl])
  · rw [if_neg hw] at h; cases h

/-- **What a committed write did**: it set lease columns, or columns with their events. -/
theorem commits_cases (h : store.Commits w) :
    (∃ asked, w.asked store.row = some asked ∧ w.isLease asked = true ∧
      store.write w = store.lease asked) ∨
    (∃ asked, w.asked store.row = some asked ∧ w.isLease asked = false ∧
      store.write w = store.log w.now asked w.notes) := by
  obtain ⟨store', next, h⟩ := h
  unfold RunStore.write
  cases ha : w.asked store.row with
  | none => rw [writeRun_none ha] at h; cases h
  | some asked =>
    cases hl : w.isLease asked with
    | true =>
      refine Or.inl ⟨asked, rfl, hl, ?_⟩
      rw [writeRun_lease ha hl]
    | false =>
      refine Or.inr ⟨asked, rfl, hl, ?_⟩
      rw [writeRun_log ha hl] at h ⊢
      split at h
      · cases h
      · split at h
        · cases h
        · next hs hr => rw [if_neg hs, if_neg hr]

theorem asked_eq_some {row : AgentRun} (h : w.asked row = some asked) :
    w.where' row = true ∧ w.change row = some asked := by
  unfold RunWrite.asked at h
  by_cases hw : w.where' row = true
  · rw [if_pos hw] at h
    exact ⟨hw, h⟩
  · rw [if_neg hw] at h
    cases h

theorem commits_state (h : store.Commits w) :
    ∃ asked, w.where' store.row = true ∧ w.change store.row = some asked ∧
      (store.write w).row.status = asked.status.getD store.row.status ∧
      (store.write w).row.metadata = asked.metadata.getD store.row.metadata := by
  rcases commits_cases h with ⟨asked, ha, -, heq⟩ | ⟨asked, ha, -, heq⟩
  · obtain ⟨hw, hc⟩ := asked_eq_some ha
    rw [heq]
    exact ⟨asked, hw, hc, rfl, rfl⟩
  · obtain ⟨hw, hc⟩ := asked_eq_some ha
    rw [heq]
    have hwake : (withWake w.now asked).status = asked.status ∧
        (withWake w.now asked).metadata = asked.metadata := by
      unfold withWake
      split <;> exact ⟨rfl, rfl⟩
    refine ⟨asked, hw, hc, ?_, ?_⟩
    · show (withWake w.now asked).status.getD store.row.status = _
      rw [hwake.1]
    · show (withWake w.now asked).metadata.getD store.row.metadata = _
      rw [hwake.2]

theorem write_eq_self (h : ¬store.Commits w) : store.write w = store := by
  unfold RunStore.write
  cases hr : writeRun store w with
  | error e => rfl
  | ok r =>
    obtain ⟨store', next⟩ := r
    cases hn : next with
    | some row => exact absurd ⟨store', row, hn ▸ hr⟩ h
    | none =>
      subst hn
      -- a call that returns no row had nothing asked of it
      cases ha : w.asked store.row with
      | none => rw [writeRun_none ha] at hr; cases hr; rfl
      | some asked =>
        cases hl : w.isLease asked with
        | true => rw [writeRun_lease ha hl] at hr; cases hr
        | false =>
          rw [writeRun_log ha hl] at hr
          split at hr
          · cases hr
          · split at hr <;> cases hr

/-! ## Folding a growing log -/

theorem numbered_cons (head : Nat) (d : RunEventDraft) (ds : List RunEventDraft) :
    numbered head (d :: ds) = ⟨head + 1, d.step, d.body⟩ :: numbered (head + 1) ds := by
  unfold numbered
  rw [mapIdx_cons]
  congr 2
  funext i e
  congr 1
  omega

theorem numbered_seqs (head : Nat) (ds : List RunEventDraft) :
    (numbered head ds).map (·.seq) = List.range' (head + 1) ds.length := by
  induction ds generalizing head with
  | nil => rfl
  | cons d ds ih =>
    rw [numbered_cons, map_cons, ih, length_cons, List.range'_succ]

theorem foldEvent_headSeq {p p' : RunProjection} {seq : Nat} {body : RunEventBody}
    (h : foldEvent p seq body = .ok p') : p'.headSeq = seq := by
  cases body <;> simp only [foldEvent, pushStep] at h
  case runStarted => cases h
  all_goals first
    | (cases h; rfl)
    | (split at h
       · cases h
       · cases h; rfl)

theorem foldOrdered_numbered (p : RunProjection) (ds : List RunEventDraft) :
    foldOrdered (p.headSeq + 1) (some p) (numbered p.headSeq ds) = (foldDrafts p ds).map some := by
  induction ds generalizing p with
  | nil => rfl
  | cons d ds ih =>
    rw [numbered_cons, foldOrdered, foldDrafts]
    simp only [ne_eq, not_true_eq_false, if_false]
    cases hd : foldEvent p (p.headSeq + 1) d.body with
    | error e => rfl
    | ok p' =>
      have hhead := foldEvent_headSeq hd
      simp only
      rw [← ih p', hhead]

theorem foldOrdered_append {expected : Nat} {state state' : Option RunProjection}
    {xs : List RunEventRecord} (h : foldOrdered expected state xs = .ok state')
    (ys : List RunEventRecord) :
    foldOrdered expected state (xs ++ ys) = foldOrdered (expected + xs.length) state' ys := by
  induction xs generalizing expected state with
  | nil =>
    rw [foldOrdered] at h
    rw [nil_append, Except.ok.inj h]
    rfl
  | cons x xs ih =>
    rw [cons_append, length_cons]
    rw [foldOrdered.eq_def] at h ⊢
    dsimp only at h ⊢
    split at h
    · cases h
    · next hseq =>
      rw [if_neg hseq]
      rw [show expected + (xs.length + 1) = expected + 1 + xs.length by omega]
      split at h
      · exact ih h
      · cases h
      · split at h
        · exact ih h
        · cases h

theorem foldRunEvents_ordered {events : List RunEventRecord} {n : Nat}
    (h : events.map (·.seq) = List.range' 1 n) :
    foldRunEvents none events = foldOrdered 1 none events := by
  unfold foldRunEvents
  have hsorted : events.Pairwise fun a b => decide (a.seq ≤ b.seq) = true := by
    have hr : (events.map (·.seq)).Pairwise (· ≤ ·) := by
      rw [h]
      exact pairwise_le_range'
    exact (pairwise_map.mp hr).imp fun hle => decide_eq_true hle
  rw [mergeSort_of_pairwise hsorted]
  rfl

theorem projectRunEvents_eq {events : List RunEventRecord} {n : Nat} {p : RunProjection}
    (h : events.map (·.seq) = List.range' 1 n) :
    projectRunEvents events = .ok p ↔ foldOrdered 1 none events = .ok (some p) := by
  unfold projectRunEvents
  rw [foldRunEvents_ordered h]
  cases hf : foldOrdered 1 none events with
  | error e => simp
  | ok state =>
    cases state with
    | none | some => simp

/-! ## A sound log -/

def RunStore.SeqsExact (store : RunStore) : Prop :=
  store.events.map (·.seq) = List.range' 1 store.row.headSeq

/-- The log folds into the row. -/
def RunStore.Projects (store : RunStore) : Prop :=
  ∃ p, projectRunEvents store.events = .ok p ∧ p.state.Eqv (storedRunState store.row)

def RunStore.LogSound (store : RunStore) : Prop := store.SeqsExact ∧ store.Projects

/-- The log carries what the call writes: nothing, lease columns, or a change it
describes in full. -/
def RunWrite.Carried (w : RunWrite) (row : AgentRun) : Prop :=
  ∀ asked, w.asked row = some asked → w.isLease asked = false →
    WriteLogged row (nextRow row w.now asked)

/-- The call does not leave the log empty: a write of lease columns alone comes
after the log's opening. -/
def RunWrite.Opened (w : RunWrite) (row : AgentRun) : Prop :=
  ∀ asked, w.asked row = some asked → w.isLease asked = true → row.headSeq ≠ 0

structure RunStore.Inv (store : RunStore) : Prop where
  seqs : store.SeqsExact
  folds : store.row.headSeq ≠ 0 →
    ∃ p, foldOrdered 1 none store.events = .ok (some p) ∧ p.headSeq = store.row.headSeq ∧
      p.state.Eqv (storedRunState store.row)

def opened (base : RunBaseline) : RunProjection :=
  { headSeq := 1, status := base.status, currentStep := base.currentStep, totalCost := 0,
    totalTokens := 0, toolCallCount := 0, executionTime := 0, output := base.output,
    error := base.error, workingMemory := base.workingMemory, metadata := base.metadata,
    steps := base.steps }

theorem opened_tracks (base : RunBaseline) : (opened base).Tracks base :=
  ⟨.refl _, rfl, .refl _, .refl _, .refl _⟩

theorem foldOrdered_opening (base : RunBaseline) (step : Option Int) (rest : List RunEventRecord) :
    foldOrdered 1 none (⟨1, step, .runStarted base.status base.currentStep base.output base.error
      base.workingMemory base.metadata base.steps⟩ :: rest) =
      foldOrdered 2 (some (opened base)) rest := rfl

theorem RunProjection.Tracks.length_eq {p : RunProjection} {base : RunBaseline}
    (h : p.Tracks base) : p.steps.length = base.steps.length :=
  h.steps.length_eq

theorem RunStore.SeqsExact.events_nil (h : store.SeqsExact) (h0 : store.row.headSeq = 0) :
    store.events = [] := by
  unfold RunStore.SeqsExact at h
  rw [h0] at h
  exact map_eq_nil_iff.mp h

theorem RunStore.SeqsExact.events_length (h : store.SeqsExact) :
    store.events.length = store.row.headSeq := by
  have hl := congrArg List.length h
  rwa [length_map, length_range'] at hl

theorem seqsExact_log (h : store.SeqsExact) (now : Time) (asked : RunChange) (notes : List RunNote)
   : (store.log now asked notes).SeqsExact := by
  unfold RunStore.SeqsExact at h ⊢
  simp only [RunStore.log, map_append, h, numbered_seqs]
  rw [Nat.add_comm store.row.headSeq 1, List.range'_append_1]

/-- With exact seqs the primary key refuses nothing. -/
theorem commits_of_seqsExact (h : store.SeqsExact) (ha : w.asked store.row = some asked)
    (hl : w.isLease asked = false) (hsel : w.select = false) : store.Commits w := by
  have hrepeats : store.repeats w.now asked w.notes = false := by
    rw [Bool.eq_false_iff]
    intro hr
    unfold RunStore.repeats at hr
    simp only [any_eq_true, decide_eq_true_eq] at hr
    obtain ⟨r, hr, e, he, heq⟩ := hr
    have hr' := mem_map_of_mem (f := (·.seq)) hr
    have he' := mem_map_of_mem (f := (·.seq)) he
    rw [numbered_seqs, mem_range'_1] at hr'
    rw [show store.events.map (·.seq) = _ from h, mem_range'_1] at he'
    omega
  refine ⟨store.log w.now asked w.notes, (store.log w.now asked w.notes).row, ?_⟩
  rw [writeRun_log ha hl, hsel, hrepeats]
  rfl

theorem write_eq_log (h : store.SeqsExact) (ha : w.asked store.row = some asked)
    (hl : w.isLease asked = false) (hsel : w.select = false) :
    store.write w = store.log w.now asked w.notes := by
  rcases commits_cases (commits_of_seqsExact h ha hl hsel) with ⟨_, ha', hl', -⟩ | ⟨_, ha', -, heq⟩
  · rw [ha] at ha'
    cases ha'
    rw [hl] at hl'
    cases hl'
  · rw [ha] at ha'
    cases ha'
    exact heq

theorem fold_log (h : store.Inv) (now : Time) (asked : RunChange) (notes : List RunNote) :
    ∃ p, p.Tracks (baselineOf store.row) ∧
      foldOrdered 1 none (store.log now asked notes).events =
        .ok (some (committed p (baselineOf store.row) (nextRow store.row now asked)
          (store.log now asked notes).row.headSeq)) := by
  by_cases h0 : store.row.headSeq = 0
  · -- the first logged write: `run_started` opens the projection it folds onto
    refine ⟨opened (baselineOf store.row), opened_tracks _, ?_⟩
    simp only [RunStore.log, h.seqs.events_nil h0, nil_append, h0]
    rw [commitEvents_eq, runStartedEvents, if_pos (show (baselineOf store.row).headSeq = 0 from h0),
      singleton_append, numbered_cons, Nat.zero_add, foldOrdered_opening]
    have hfold := foldOrdered_numbered (opened (baselineOf store.row))
      (changeEvents (baselineOf store.row) (nextRow store.row now asked) notes)
    rw [foldDrafts_changeEvents _ _ _ _ (opened_tracks _).length_eq] at hfold
    refine hfold.trans ?_
    rw [length_cons, Nat.zero_add, Nat.add_comm _ 1]
    rfl
  · obtain ⟨p, hfold, hhead, heqv⟩ := h.folds h0
    have htracks := tracks_of_eqv heqv
    have hs : runStartedEvents (baselineOf store.row) = [] := if_neg h0
    refine ⟨p, htracks, ?_⟩
    simp only [RunStore.log, commitEvents_eq, hs, nil_append]
    rw [foldOrdered_append hfold, h.seqs.events_length, Nat.add_comm 1, ← hhead,
      foldOrdered_numbered, foldDrafts_changeEvents _ _ _ _ htracks.length_eq]
    rfl

theorem projects_log_iff (h : store.Inv) (now : Time) (asked : RunChange) (notes : List RunNote) :
    (store.log now asked notes).Projects ↔ WriteLogged store.row (nextRow store.row now asked) := by
  obtain ⟨p, htracks, hfold⟩ := fold_log h now asked notes
  have hproj := (projectRunEvents_eq (seqsExact_log h.seqs now asked notes)).mpr hfold
  rw [← committed_eqv_iff _ htracks]
  constructor
  · rintro ⟨q, hq, heqv⟩
    rw [hproj] at hq
    cases hq
    exact heqv
  · intro heqv
    exact ⟨_, hproj, heqv⟩

theorem inv_log (h : store.Inv) {now : Time} {notes : List RunNote}
    (hw : WriteLogged store.row (nextRow store.row now asked)) :
    (store.log now asked notes).Inv := by
  obtain ⟨p, htracks, hfold⟩ := fold_log h now asked notes
  refine ⟨seqsExact_log h.seqs now asked notes, fun _ => ?_⟩
  exact ⟨_, hfold, rfl, (committed_eqv_iff _ htracks).mpr hw⟩

theorem storedRunState_lease {patch : RunChange} (h : isLeaseOnly patch = true) (row : AgentRun) :
    storedRunState (patch.applyTo row) = storedRunState row := by
  simp only [isLeaseOnly, Bool.and_eq_true, Option.isNone_iff_eq_none] at h
  obtain ⟨⟨⟨⟨⟨⟨⟨⟨⟨⟨⟨h1, h2⟩, h3⟩, h4⟩, h5⟩, h6⟩, h7⟩, h8⟩, h9⟩, h10⟩, h11⟩, -⟩ := h
  simp only [storedRunState, RunChange.applyTo, h1, h2, h3, h4, h5, h6, h7, h8, h9, h10, h11,
    Option.getD_none]

theorem inv_lease (h : store.Inv) (hl : isLeaseOnly asked = true) : (store.lease asked).Inv := by
  refine ⟨h.seqs, fun h0 => ?_⟩
  obtain ⟨p, hfold, hhead, heqv⟩ := h.folds h0
  refine ⟨p, hfold, hhead, ?_⟩
  rw [RunStore.lease, storedRunState_lease hl]
  exact heqv

theorem RunStore.Inv.projects (h : store.Inv) (h0 : store.row.headSeq ≠ 0) : store.Projects := by
  obtain ⟨p, hfold, -, heqv⟩ := h.folds h0
  exact ⟨p, (projectRunEvents_eq h.seqs).mpr hfold, heqv⟩

theorem not_projects_of_empty (h : store.SeqsExact) (h0 : store.row.headSeq = 0) :
    ¬store.Projects := by
  rintro ⟨p, hp, -⟩
  rw [projectRunEvents_eq h, h.events_nil h0] at hp
  cases hp

/-! ## Runs of writes -/

theorem isLease_leaseOnly (h : w.isLease asked = true) : isLeaseOnly asked = true := by
  unfold RunWrite.isLease at h
  rw [Bool.and_eq_true] at h
  exact h.1

theorem inv_write (h : store.Inv) (hc : store.Commits w → w.Carried store.row) :
    (store.write w).Inv := by
  by_cases hcommit : store.Commits w
  · rcases commits_cases hcommit with ⟨asked, ha, hl, heq⟩ | ⟨asked, ha, hl, heq⟩
    · rw [heq]; exact inv_lease h (isLease_leaseOnly hl)
    · rw [heq]; exact inv_log h (hc hcommit asked ha hl)
  · rw [write_eq_self hcommit]; exact h

theorem seqsExact_write (h : store.SeqsExact) (w : RunWrite) : (store.write w).SeqsExact := by
  by_cases hcommit : store.Commits w
  · rcases commits_cases hcommit with ⟨asked, -, -, heq⟩ | ⟨asked, -, -, heq⟩
    · rw [heq]; exact h
    · rw [heq]; exact seqsExact_log h w.now asked w.notes
  · rw [write_eq_self hcommit]; exact h

theorem log_headSeq_ne_zero (store : RunStore) (now : Time) (asked : RunChange)
    (notes : List RunNote) : (store.log now asked notes).row.headSeq ≠ 0 := by
  have hlen : 0 < (commitEvents (baselineOf store.row) (nextRow store.row now asked)
      notes).length := by
    rw [commitEvents, length_append]
    exact Nat.succ_pos _
  show store.row.headSeq + _ ≠ 0
  omega

/-- The log folds into the row exactly when the write is carried, once the log is not empty. -/
theorem projects_write_iff (h : store.Inv) (hcommit : store.Commits w) :
    ((store.write w).row.headSeq ≠ 0 → (store.write w).Projects) ↔ w.Carried store.row := by
  rcases commits_cases hcommit with ⟨asked, ha, hl, heq⟩ | ⟨asked, ha, hl, heq⟩
  · rw [heq]
    refine ⟨fun _ asked' ha' hl' => ?_, fun _ => (inv_lease h (isLease_leaseOnly hl)).projects⟩
    rw [ha] at ha'
    cases ha'
    rw [hl] at hl'
    cases hl'
  · rw [heq]
    constructor
    · intro hp asked' ha' hl'
      rw [ha] at ha'
      cases ha'
      exact (projects_log_iff h _ _ _).mp (hp (log_headSeq_ne_zero _ _ _ _))
    · intro hw _
      exact (projects_log_iff h _ _ _).mpr (hw asked ha hl)

/-- A write leaves the log empty exactly when it sets lease columns before the log's opening. -/
theorem headSeq_write_iff (hcommit : store.Commits w) :
    (store.write w).row.headSeq ≠ 0 ↔ w.Opened store.row := by
  rcases commits_cases hcommit with ⟨asked, ha, hl, heq⟩ | ⟨asked, ha, hl, heq⟩
  · rw [heq]
    constructor
    · intro h0 asked' _ _
      exact h0
    · intro ho
      exact ho asked ha hl
  · rw [heq]
    refine ⟨fun _ asked' ha' hl' => ?_, fun _ => log_headSeq_ne_zero _ _ _ _⟩
    rw [ha] at ha'
    cases ha'
    rw [hl] at hl'
    cases hl'

/-- The log stands in for the row exactly when the write is carried and does not leave the log
empty. -/
theorem logSound_write_iff (h : store.Inv) (hcommit : store.Commits w) :
    (store.write w).LogSound ↔ w.Opened store.row ∧ w.Carried store.row := by
  have hseqs := seqsExact_write h.seqs w
  rw [← headSeq_write_iff hcommit, ← projects_write_iff h hcommit]
  constructor
  · rintro ⟨-, hp⟩
    refine ⟨fun h0 => ?_, fun _ => hp⟩
    exact not_projects_of_empty hseqs h0 hp
  · rintro ⟨h0, hp⟩
    exact ⟨hseqs, hp h0⟩

theorem inv_start {row : AgentRun} (h0 : row.headSeq = 0) : (RunStore.mk row []).Inv := by
  refine ⟨?_, fun h => absurd h0 h⟩
  show [] = List.range' 1 row.headSeq
  rw [h0]
  rfl

/-- **When the log of a run is complete**: when every committed write is carried and none sets lease
columns alone before the log is opened. The seqs are exact in any case. -/
theorem log_sound_along_iff (row : AgentRun) (h0 : row.headSeq = 0) (ws : List RunWrite) :
    Steps.Along RunStore.write (fun s w => s.Commits w → (s.write w).SeqsExact) ⟨row, []⟩ ws ∧
    (Steps.Along RunStore.write (fun s w => s.Commits w → (s.write w).LogSound) ⟨row, []⟩ ws ↔
      Steps.Along RunStore.write (fun s w => s.Commits w → w.Opened s.row ∧ w.Carried s.row)
        ⟨row, []⟩ ws) ∧
    (Steps.Along RunStore.write
        (fun s w => s.Commits w → (s.write w).row.headSeq ≠ 0 → (s.write w).LogSound) ⟨row, []⟩ ws ↔
      Steps.Along RunStore.write (fun s w => s.Commits w → w.Carried s.row) ⟨row, []⟩ ws) := by
  have hinv := inv_start h0
  refine ⟨?_, ?_, ?_⟩
  · refine Steps.along_of_invariant RunStore.SeqsExact (P := fun _ _ => True) ?_ ?_ hinv.seqs
      (Steps.along_iff.mpr fun _ _ _ _ => trivial)
    · intro s w hs _
      exact seqsExact_write hs w
    · intro s w hs _ _
      exact seqsExact_write hs w
  · refine Steps.along_iff_of_invariant RunStore.Inv (fun s w hs hP => ?_)
      (fun s w hs => ?_) hinv
    · exact inv_write hs fun hc => (hP hc).2
    · exact forall_congr' fun hc => logSound_write_iff hs hc
  · refine Steps.along_iff_of_invariant RunStore.Inv (fun s w hs hP => ?_)
      (fun s w hs => ?_) hinv
    · exact inv_write hs hP
    · refine forall_congr' fun hc => ?_
      rw [← projects_write_iff hs hc]
      exact forall_congr' fun _ =>
        ⟨fun h => h.2, fun h => ⟨seqsExact_write hs.seqs w, h⟩⟩

/-! ## A key that appears with the value null -/

/-- The row of a run just created: the entity's defaults. -/
def freshRun : AgentRun :=
  { status := .pending, currentStep := 0, totalCost := 0, totalTokens := 0, toolCallCount := 0,
    executionTime := 0, output := ⟨.null, uniqueKeys_null⟩, error := none,
    workingMemory := ⟨.obj [], rfl⟩, metadata := ⟨.null, uniqueKeys_null⟩,
    steps := ⟨.arr [], uniqueKeys_nil⟩, deliveredAt := none, headSeq := 0,
    nextWakeAt := none, leaseOwner := none, leaseExpiresAt := none, attempt := 0, takeovers := 0 }

/-- Set the working memory to `\x7b "answer": value \x7d`. -/
def answerChange (value : JsonValue) : RunChange :=
  { workingMemory := some ⟨.obj [("answer", value.1)], by
      have h := value.2
      simp [Json.uniqueKeys, Json.uniqueKeysFields, Assoc.keys, h]⟩ }

def answerWrite (value : JsonValue) : RunWrite :=
  { where' := fun _ => true, change := fun _ => some (answerChange value), now := 0 }

theorem answerWrite_commits (value : JsonValue) :
    (RunStore.mk freshRun []).Commits (answerWrite value) :=
  commits_of_seqsExact (inv_start rfl).seqs rfl rfl rfl

/-- The diff reads a missing key as null, so a key set to null is not in it. -/
theorem log_not_sound_null_key :
    ¬Steps.Along RunStore.write (fun s w => s.Commits w → (s.write w).LogSound) ⟨freshRun, []⟩
      [answerWrite ⟨.null, rfl⟩] := by
  rintro ⟨h, -⟩
  have hc := answerWrite_commits ⟨.null, rfl⟩
  have hw := ((logSound_write_iff (inv_start rfl) hc).mp (h hc)).2 _ rfl rfl
  obtain ⟨-, hnull⟩ := hw.workingMemory "answer"
  revert hnull
  decide

theorem log_sound_one_answer :
    freshRun.headSeq = 0 ∧
      Steps.Along RunStore.write (fun s w => s.Commits w → (s.write w).LogSound) ⟨freshRun, []⟩
        [answerWrite ⟨.num 1, rfl⟩] := by
  refine ⟨rfl, (log_sound_along_iff freshRun rfl _).2.1.mpr ⟨fun _ => ⟨?_, ?_⟩, trivial⟩⟩
  · intro asked ha hl
    cases ha
    cases hl
  · intro asked ha _
    cases ha
    refine ⟨Or.inr ⟨[], rfl⟩, fun s hs => ?_, fun k => ?_, trivial⟩
    · exact absurd (show s ∈ [] from hs) not_mem_nil
    by_cases hk : k = "answer"
    · subst hk
      exact ⟨by decide, Or.inl nofun⟩
    · simp [KeyLogged, Assoc.lookup_cons, hk]

end Almyty.Runs
