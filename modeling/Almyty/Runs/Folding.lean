import Almyty.Runs.Events

/-!
# Folding a log in parts: `foldRunEvents`

A reader of a log may keep the projection it came to and fold only what was appended since, as
`RunProjectionChecker` does. All the fold carries from one event to the next is the projection: the
seq it expects is one past the projection's head. So a fold can be cut anywhere.

`folded_in_parts` says so, and says which logs the fold accepts: `Accepted` names the seqs, the
opening event and the indices of the steps, and not the fold.
-/

namespace Almyty.Runs

open Almyty.Lib List Option

/-- The events as the fold takes them up. -/
def bySeq (events : List RunEventRecord) : List RunEventRecord :=
  events.mergeSort fun a b => decide (a.seq ≤ b.seq)

/-- The seq of the last event folded. -/
def headOf (from' : Option RunProjection) : Nat := from'.elim 0 (·.headSeq)

/-! ## Which logs are accepted -/

def RunEventBody.starts : RunEventBody → Bool
  | .runStarted .. => true
  | _ => false

def RunEventBody.appends : RunEventBody → Option Nat
  | .modelCall index _ | .stepRecorded index _ | .toolCall index _ _ => some index
  | _ => none

def RunEventBody.stepCount (count : Nat) : RunEventBody → Nat
  | .runStarted _ _ _ _ _ _ steps => steps.length
  | .modelCall .. | .stepRecorded .. | .toolCall .. => count + 1
  | .toolResult index .. | .stepReplaced index _ => max count (index + 1)
  | .stepsReset steps => steps.length
  | _ => count

def InIndexOrder : Nat → List RunEventRecord → Prop
  | _, [] => True
  | count, event :: rest =>
    (∀ index ∈ event.body.appends, index = count) ∧ InIndexOrder (event.body.stepCount count) rest

structure Accepted (started : Bool) (head count : Nat) (events : List RunEventRecord) : Prop where
  contiguous : events.map (·.seq) = List.range' (head + 1) events.length
  opens : started = false → ∀ event ∈ events.head?, event.body.starts = true
  once : ∀ event ∈ if started then events else events.tail, event.body.starts = false
  ordered : InIndexOrder count events

/-- How many steps there are to go on from. -/
def countOf (from' : Option RunProjection) : Nat := from'.elim 0 (·.steps.length)

/-! ## One event -/

theorem length_putIndex (items : List Json) (index : Nat) (value : Json) :
    (putIndex items index value).length = max items.length (index + 1) := by
  unfold putIndex
  split
  · rw [length_set]
    omega
  · rw [length_append, length_append, length_replicate, length_singleton]
    omega

theorem pushStep_eq_ok {p p' : RunProjection} {seq index : Nat} {step : Json} :
    pushStep p seq index step = .ok p' ↔ index = p.steps.length ∧
      p' = { p with headSeq := seq, steps := p.steps ++ [.obj step.spread] } := by
  unfold pushStep
  split
  next h => simp [h]
  next h =>
    rw [ne_eq, not_not] at h
    simp [h, eq_comm]

/-- An event is folded exactly when it does not start the run and appends, if it appends, the next
step. -/
theorem foldEvent_eq_ok_iff (p : RunProjection) (seq : Nat) (body : RunEventBody) :
    (∃ p', foldEvent p seq body = .ok p') ↔
      body.starts = false ∧ ∀ index ∈ body.appends, index = p.steps.length := by
  cases body with
  | runStarted => simp [foldEvent, RunEventBody.starts]
  | modelCall | stepRecorded | toolCall =>
    simp [foldEvent, pushStep_eq_ok, RunEventBody.starts, RunEventBody.appends]
  | _ => simp [foldEvent, RunEventBody.starts, RunEventBody.appends]

theorem foldEvent_ok {p p' : RunProjection} {seq : Nat} {body : RunEventBody}
    (h : foldEvent p seq body = .ok p') :
    p'.headSeq = seq ∧ p'.steps.length = body.stepCount p.steps.length := by
  cases body with
  | runStarted => cases h
  | modelCall | stepRecorded | toolCall =>
    obtain ⟨-, rfl⟩ := pushStep_eq_ok.mp h
    exact ⟨rfl, length_append⟩
  | toolResult | stepReplaced =>
    cases h
    exact ⟨rfl, length_putIndex ..⟩
  | _ =>
    cases h
    exact ⟨rfl, rfl⟩

def foldStep (state : Option RunProjection) (event : RunEventRecord) :
    Except String (Option RunProjection) :=
  foldOrdered (headOf state + 1) state [event]

section Step

variable {state state' : Option RunProjection} {event : RunEventRecord}

theorem foldStep_of_seq_ne (h : event.seq ≠ headOf state + 1) :
    ∃ e, foldStep state event = .error e := by
  unfold foldStep foldOrdered
  rw [if_pos h]
  exact ⟨_, rfl⟩

theorem foldStep_some {p : RunProjection} (h : event.seq = p.headSeq + 1) :
    foldStep (some p) event = (foldEvent p event.seq event.body).map some := by
  have hseq : ¬ event.seq ≠ headOf (some p) + 1 := not_not.mpr h
  unfold foldStep foldOrdered
  rw [if_neg hseq]
  cases hp : foldEvent p event.seq event.body with
  | ok p' => simp only [hp, foldOrdered, Except.map]
  | error e => simp only [hp, Except.map]

theorem foldStep_accepts_iff :
    (∃ state', foldStep state event = .ok state') ↔ event.seq = headOf state + 1 ∧
      event.body.starts = !state.isSome ∧
      ∀ index ∈ event.body.appends, index = countOf state := by
  by_cases hseq : event.seq = headOf state + 1
  · cases state with
    | none =>
      have hne : ¬ event.seq ≠ headOf none + 1 := not_not.mpr hseq
      unfold foldStep foldOrdered
      rw [if_neg hne]
      cases hbody : event.body <;>
        simp [hseq, foldOrdered, RunEventBody.starts, RunEventBody.appends]
    | some p =>
      have hmap : (∃ state', (foldEvent p event.seq event.body).map some = .ok state') ↔
          ∃ p', foldEvent p event.seq event.body = .ok p' := by
        cases foldEvent p event.seq event.body <;> simp [Except.map]
      rw [foldStep_some hseq, hmap, foldEvent_eq_ok_iff]
      exact ⟨fun h => ⟨hseq, h⟩, fun h => h.2⟩
  · obtain ⟨e, he⟩ := foldStep_of_seq_ne hseq
    simp [he, hseq]

theorem foldStep_ok (h : foldStep state event = .ok state') :
    ∃ p, state' = some p ∧ p.headSeq = headOf state + 1 ∧
      p.steps.length = event.body.stepCount (countOf state) := by
  obtain ⟨hseq, -, -⟩ := foldStep_accepts_iff.mp ⟨state', h⟩
  cases state with
  | none =>
    have hne : ¬ event.seq ≠ headOf none + 1 := not_not.mpr hseq
    unfold foldStep foldOrdered at h
    rw [if_neg hne] at h
    cases hbody : event.body with
    | runStarted =>
      rw [hbody] at h
      cases h
      exact ⟨_, rfl, hseq, rfl⟩
    | _ =>
      rw [hbody] at h
      cases h
  | some p =>
    rw [foldStep_some hseq] at h
    cases hp : foldEvent p event.seq event.body with
    | ok p' =>
      rw [hp] at h
      cases h
      obtain ⟨hhead, hcount⟩ := foldEvent_ok hp
      exact ⟨p', rfl, hhead.trans hseq, hcount⟩
    | error e =>
      rw [hp] at h
      cases h

end Step

/-! ## The whole fold -/

theorem foldOrdered_cons (state : Option RunProjection) (event : RunEventRecord)
    (rest : List RunEventRecord) :
    foldOrdered (headOf state + 1) state (event :: rest) =
      (foldStep state event).bind fun state' => foldOrdered (headOf state' + 1) state' rest := by
  have hstep : foldOrdered (headOf state + 1) state (event :: rest) =
      (foldStep state event).bind fun state' => foldOrdered (headOf state + 1 + 1) state' rest := by
    -- the fold is unfolded once on each side, and not in what follows the event
    conv_lhs => rw [foldOrdered.eq_def]
    conv_rhs => arg 1; rw [foldStep, foldOrdered.eq_def]
    by_cases hseq : event.seq ≠ headOf state + 1
    · simp only [if_pos hseq, Except.bind]
    · simp only [if_neg hseq]
      cases state with
      | none => cases event.body <;> rfl
      | some p =>
        simp only [foldOrdered]
        cases foldEvent p event.seq event.body <;> rfl
  rw [hstep]
  cases hfold : foldStep state event with
  | error e => rfl
  | ok state' =>
    obtain ⟨p, rfl, hhead, -⟩ := foldStep_ok hfold
    show foldOrdered (headOf state + 1 + 1) (some p) rest = foldOrdered (p.headSeq + 1) (some p) rest
    rw [hhead]

theorem foldOrdered_eq_foldlM (state : Option RunProjection) (events : List RunEventRecord) :
    foldOrdered (headOf state + 1) state events = events.foldlM foldStep state := by
  induction events generalizing state with
  | nil => rfl
  | cons event rest ih =>
    rw [foldOrdered_cons, foldlM_cons]
    show Except.bind _ _ = Except.bind _ _
    congr 1
    funext state'
    exact ih state'

theorem foldRunEvents_eq (from' : Option RunProjection) (events : List RunEventRecord) :
    foldRunEvents from' events = (bySeq events).foldlM foldStep from' :=
  foldOrdered_eq_foldlM from' (bySeq events)

theorem accepted_nil (started : Bool) (head count : Nat) : Accepted started head count [] :=
  ⟨rfl, by simp, by simp, trivial⟩

theorem accepted_cons {started : Bool} {head count : Nat} {event : RunEventRecord}
    {rest : List RunEventRecord} :
    Accepted started head count (event :: rest) ↔
      (event.seq = head + 1 ∧ event.body.starts = !started ∧
        ∀ index ∈ event.body.appends, index = count) ∧
      Accepted true (head + 1) (event.body.stepCount count) rest := by
  constructor
  · intro h
    have hseqs := h.contiguous
    rw [map_cons, length_cons, List.range'_succ, List.cons.injEq] at hseqs
    refine ⟨⟨hseqs.1, ?_, h.ordered.1⟩, ⟨hseqs.2, by simp, ?_, h.ordered.2⟩⟩
    · cases started with
      | false => exact h.opens rfl event rfl
      | true => exact h.once event mem_cons_self
    · intro later hlater
      apply h.once later
      cases started with
      | false => exact hlater
      | true => exact mem_cons_of_mem event hlater
  · intro h
    obtain ⟨⟨hseq, hstarts, hindex⟩, hrest⟩ := h
    refine ⟨?_, ?_, ?_, hindex, hrest.ordered⟩
    · rw [map_cons, length_cons, List.range'_succ, hseq, hrest.contiguous]
    · intro hstarted first hfirst
      obtain rfl : event = first := some.inj hfirst
      rw [hstarts, hstarted]
      rfl
    · intro later hlater
      cases started with
      | false => exact hrest.once later hlater
      | true =>
        rcases mem_cons.mp hlater with rfl | hlater
        · exact hstarts
        · exact hrest.once later hlater

theorem foldlM_accepts_iff (state : Option RunProjection) (events : List RunEventRecord) :
    (∃ state', events.foldlM foldStep state = .ok state') ↔
      Accepted state.isSome (headOf state) (countOf state) events := by
  induction events generalizing state with
  | nil => exact ⟨fun _ => accepted_nil _ _ _, fun _ => ⟨state, rfl⟩⟩
  | cons event rest ih =>
    rw [foldlM_cons, accepted_cons, ← foldStep_accepts_iff]
    cases hstep : foldStep state event with
    | error e => simp [bind, Except.bind]
    | ok state' =>
      obtain ⟨p, rfl, hhead, hcount⟩ := foldStep_ok hstep
      have hrest := ih (some p)
      rw [isSome_some, headOf, countOf, elim_some, elim_some, hhead, hcount] at hrest
      simpa [bind, Except.bind] using hrest

/-! ## Order and cuts -/

section Order

variable {events events' : List RunEventRecord}

theorem bySeq_perm (events : List RunEventRecord) : (bySeq events).Perm events :=
  mergeSort_perm events _

theorem bySeq_sorted (events : List RunEventRecord) :
    (bySeq events).Pairwise fun a b => a.seq ≤ b.seq := by
  have : Std.Total fun a b : RunEventRecord => a.seq ≤ b.seq := ⟨fun a b => by omega⟩
  have : IsTrans RunEventRecord fun a b => a.seq ≤ b.seq := ⟨fun a b c => by omega⟩
  exact pairwise_mergeSort' (fun a b : RunEventRecord => a.seq ≤ b.seq) events

theorem bySeq_eq (hseqs : (events.map (·.seq)).Nodup) (hperm : events'.Perm events)
    (hsorted : events.Pairwise fun a b => a.seq ≤ b.seq) : bySeq events' = events := by
  have hall : (bySeq events').Perm events := (bySeq_perm events').trans hperm
  refine hall.eq_of_pairwise (fun a b ha hb hab hba => ?_) (bySeq_sorted events') hsorted
  exact inj_on_of_nodup_map hseqs (hall.mem_iff.mp ha) hb (Nat.le_antisymm hab hba)

end Order

theorem folded_in_parts :
    (∀ events : List RunEventRecord, (events.map (·.seq)).Nodup →
      ∀ a b : List RunEventRecord, bySeq events = a ++ b → ∀ a' b' events' : List RunEventRecord,
        a'.Perm a → b'.Perm b → events'.Perm events →
          (foldRunEvents none a').bind (fun state => foldRunEvents state b') =
            foldRunEvents none events') ∧
      ∀ (from' : Option RunProjection) (events : List RunEventRecord),
        (∃ state, foldRunEvents from' events = .ok state) ↔
          Accepted from'.isSome (headOf from') (countOf from') (bySeq events) := by
  refine ⟨?_, fun from' events => ?_⟩
  · intro events hseqs a b hcut a' b' events' ha hb hevents
    have hsorted := bySeq_sorted events
    have hnodup : ((a ++ b).map (·.seq)).Nodup :=
      hcut ▸ ((bySeq_perm events).map _).nodup_iff.mpr hseqs
    rw [hcut] at hsorted
    rw [map_append] at hnodup
    have hwhole : bySeq events' = a ++ b := by
      refine bySeq_eq (map_append ▸ hnodup) (hevents.trans ?_) hsorted
      rw [← hcut]
      exact (bySeq_perm events).symm
    have hfirst : bySeq a' = a :=
      bySeq_eq (nodup_append.mp hnodup).1 ha (pairwise_append.mp hsorted).1
    have hsecond : bySeq b' = b :=
      bySeq_eq (nodup_append.mp hnodup).2.1 hb (pairwise_append.mp hsorted).2.1
    simp only [foldRunEvents_eq, hwhole, hfirst, hsecond, foldlM_append]
    rfl
  · rw [foldRunEvents_eq]
    exact foldlM_accepts_iff from' (bySeq events)

def startedEvent : RunEventRecord :=
  ⟨1, some 0, .runStarted .running 0 .null none .null .null []⟩

def compactedEvent : RunEventRecord := ⟨2, some 0, .marker .compaction .null⟩

/-- Two events, passed the wrong way round and folded one by one. -/
theorem folded_one_by_one :
    (foldRunEvents none [startedEvent]).bind (fun state => foldRunEvents state [compactedEvent]) =
      foldRunEvents none [compactedEvent, startedEvent] :=
  folded_in_parts.1 [startedEvent, compactedEvent] (by decide) [startedEvent] [compactedEvent]
    (bySeq_eq (by decide) (.refl _) (by simp [startedEvent, compactedEvent])) _ _ _ (.refl _)
    (.refl _) (.swap _ _ _)

end Almyty.Runs
