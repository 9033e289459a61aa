import Almyty.Lib.JsValue
import Almyty.Runs.Folding
import Almyty.Runs.Lease

/-!
# The cache of the projection check: `run-projection-check.ts`

`check` folds what one committed write appended onto the run's kept projection, or onto the row as
the write locked it when none is kept at that head, compares the result with the row as written and
keeps it. The kept projections are bounded by the bytes of their JSON texts, oldest out first.
`Accounted` is what every call keeps: one entry a run, the running total the sum of the entries, and
the sum within the bound. Cached or not, a check comes to the row (`checks_fold_to_row`).

Mirroring notes:
- Of a reported difference the field is here, not the hashes of its two sides.
- The `steps` column holds an array or null, and `RunWritten` says so of both rows.
-/

namespace Almyty.Runs

open Almyty.Lib List

/-! ## One write compared -/

/-- `RUN_STATE_FIELDS`, each with what the state holds there. -/
def RunState.fields (state : RunState) : Fields :=
  [("status", .str state.status.text), ("currentStep", .num state.currentStep),
    ("totalCost", .num state.totalCost), ("totalTokens", .num state.totalTokens),
    ("toolCallCount", .num state.toolCallCount), ("executionTime", .num state.executionTime),
    ("output", state.output), ("error", state.error.elim .null .str),
    ("workingMemory", state.workingMemory), ("metadata", state.metadata), ("steps", state.steps)]

mutual

def sameJson : Json → Json → Bool
  | .arr xs, .arr ys => sameItems xs ys
  | .obj fields, .obj fields' => fields.length = fields'.length && sameFields fields fields'
  | .arr _, _ | .obj _, _ => false
  | a, b => a = b

def sameItems : List Json → List Json → Bool
  | [], [] => true
  | x :: xs, y :: ys => sameJson x y && sameItems xs ys
  | _, _ => false

/-- A key the other object does not hold is still in it when it is inherited; the one inherited
member that a JSON value equals is the prototype, against an object without entries. -/
def sameFields : Fields → Fields → Bool
  | [], _ => true
  | (k, v) :: fields, fields' =>
    (match fields'.lookup k with
      | some w => sameJson v w
      | none => k = "__proto__" && v = .obj []) && sameFields fields fields'

end

structure RunWritten where
  runId : String
  organizationId : Option String
  before : AgentRun
  after : AgentRun
  events : List RunEventRecord
  stepArrays : IsStepArray before.steps.1 ∧ IsStepArray after.steps.1

inductive FoldFrom
  | cache
  | row
  deriving DecidableEq

structure ProjectionMismatch where
  runId : String
  organizationId : Option String
  seq : Nat
  fromSeq : Nat
  from' : FoldFrom
  differences : List String
  foldError : Option String

/-- `{ ...storedRunState(row), headSeq }`. -/
def rowProjection (row : AgentRun) (headSeq : Nat) : RunProjection :=
  let state := storedRunState row
  { headSeq, status := state.status, currentStep := state.currentStep,
    totalCost := state.totalCost, totalTokens := state.totalTokens,
    toolCallCount := state.toolCallCount, executionTime := state.executionTime,
    output := state.output, error := state.error, workingMemory := state.workingMemory,
    metadata := state.metadata, steps := state.steps.itemsOrEmpty }

section

variable (numberText : Rat → String)

/-- `JSON.stringify(value).length`. -/
def textLength (value : Json) : Nat := (Js.codeUnits (value.text numberText)).length

def differences (row projected : RunState) : List String :=
  ((row.fields.zip projected.fields).filter fun (rowField, field) =>
    !(rowField.2.text numberText = field.2.text numberText || sameJson rowField.2 field.2)).map
      (·.1.1)

def projectionBytes (projection : RunProjection) : Nat :=
  (projection.state.fields.map fun field => textLength numberText field.2).sum

def keptRowBytes (projection : RunProjection) : Nat :=
  textLength numberText
    (.obj (projection.state.fields ++ [("headSeq", .num projection.headSeq)]))

/-! ## The checker -/

structure CachedProjection where
  projection : RunProjection
  bytes : Nat

structure RunProjectionChecker where
  cache : List (String × CachedProjection)
  cachedBytes : Int
  maxCacheBytes : Nat

def newChecker (maxCacheBytes : Nat) : RunProjectionChecker :=
  { cache := [], cachedBytes := 0, maxCacheBytes }

def RunProjectionChecker.forget (checker : RunProjectionChecker) :
    Option String → RunProjectionChecker
  | none => { checker with cache := [], cachedBytes := 0 }
  | some runId =>
    match checker.cache.lookup runId with
    | none => checker
    | some held =>
      { checker with
        cachedBytes := checker.cachedBytes - held.bytes
        cache := Assoc.erase checker.cache runId }

/-- The oldest entries leave until the rest fits. -/
def evict (maxCacheBytes : Nat) : List (String × CachedProjection) → Int →
    List (String × CachedProjection) × Int
  | [], cachedBytes => ([], cachedBytes)
  | entry :: rest, cachedBytes =>
    if cachedBytes ≤ maxCacheBytes then (entry :: rest, cachedBytes)
    else evict maxCacheBytes rest (cachedBytes - entry.2.bytes)

def RunProjectionChecker.remember (checker : RunProjectionChecker) (runId : String)
    (projection : RunProjection) (bytes : Nat) : RunProjectionChecker :=
  if bytes > checker.maxCacheBytes then checker
  else
    let cache := Assoc.put checker.cache runId ⟨projection, bytes⟩
    let (cache, cachedBytes) := evict checker.maxCacheBytes cache (checker.cachedBytes + bytes)
    { checker with cache, cachedBytes }

/-- Where the fold of a write starts. -/
def RunProjectionChecker.start (checker : RunProjectionChecker) (written : RunWritten) :
    Option RunProjection × FoldFrom :=
  let fromSeq := written.before.headSeq
  match checker.cache.lookup written.runId with
  | some held =>
    if held.projection.headSeq = fromSeq then (some held.projection, .cache)
    else (if fromSeq = 0 then none else some (rowProjection written.before fromSeq), .row)
  | none => (if fromSeq = 0 then none else some (rowProjection written.before fromSeq), .row)

def RunProjectionChecker.check (checker : RunProjectionChecker) (written : RunWritten) :
    Option ProjectionMismatch × RunProjectionChecker :=
  if written.events.isEmpty then (none, checker)
  else
    let headSeq := written.after.headSeq
    let (start, from') := checker.start written
    let (projection, foldError) :=
      match foldRunEvents start written.events with
      | .ok projection => (projection, none)
      | .error e => (none, some e)
    let differences := projection.elim [] fun p =>
      differences numberText (storedRunState written.after) p.state
    let mismatch : Option ProjectionMismatch :=
      if foldError.isSome || !differences.isEmpty then
        some { runId := written.runId, organizationId := written.organizationId, seq := headSeq,
               fromSeq := written.before.headSeq, from', differences, foldError }
      else none
    let row := rowProjection written.after headSeq
    let (keep, bytes) :=
      match mismatch, projection with
      | none, some p => (p, projectionBytes numberText p)
      | _, _ => (row, keptRowBytes numberText row)
    let forgotten := checker.forget (some written.runId)
    (mismatch, if isTerminal written.after.status then forgotten
      else forgotten.remember written.runId keep bytes)

inductive CheckerCall
  | check (written : RunWritten)
  | forget (runId : Option String)

def RunProjectionChecker.call (checker : RunProjectionChecker) :
    CheckerCall → RunProjectionChecker
  | .check written => (checker.check numberText written).2
  | .forget runId => checker.forget runId

def RunProjectionChecker.calls (checker : RunProjectionChecker) (calls : List CheckerCall) :
    RunProjectionChecker :=
  calls.foldl (RunProjectionChecker.call numberText) checker

end

/-! ## The account -/

def totalBytes (cache : List (String × CachedProjection)) : Nat :=
  (cache.map (·.2.bytes)).sum

structure Accounted (maxCacheBytes : Nat) (checker : RunProjectionChecker) : Prop where
  oneEach : (Assoc.keys checker.cache).Nodup
  total : checker.cachedBytes = totalBytes checker.cache
  limit : checker.maxCacheBytes = maxCacheBytes
  bounded : checker.cachedBytes ≤ maxCacheBytes

variable {maxCacheBytes : Nat} {checker : RunProjectionChecker}

theorem totalBytes_erase {cache : List (String × CachedProjection)}
    (hnodup : (Assoc.keys cache).Nodup) {runId : String} {held : CachedProjection}
    (hheld : cache.lookup runId = some held) :
    totalBytes (Assoc.erase cache runId) + held.bytes = totalBytes cache := by
  induction cache with
  | nil => simp at hheld
  | cons entry cache ih =>
    obtain ⟨key, kept⟩ := entry
    obtain ⟨hkey, hrest⟩ := nodup_cons.mp hnodup
    rw [Assoc.lookup_cons] at hheld
    by_cases h : runId = key
    · subst h
      rw [if_pos rfl, Option.some.injEq] at hheld
      have hothers : Assoc.erase cache runId = cache :=
        filter_eq_self.mpr fun e he => by
          have : e.1 ∈ Assoc.keys cache := mem_map_of_mem he
          simpa using fun heq : e.1 = runId => hkey (heq ▸ this)
      have hdrop : Assoc.erase ((runId, kept) :: cache) runId = Assoc.erase cache runId := by
        simp [Assoc.erase]
      rw [hdrop, hothers, ← hheld]
      simp [totalBytes, Nat.add_comm]
    · rw [if_neg h] at hheld
      have hkeep : Assoc.erase ((key, kept) :: cache) runId =
          (key, kept) :: Assoc.erase cache runId :=
        filter_cons_of_pos (by simpa using fun heq => h heq.symm)
      have := ih hrest hheld
      rw [hkeep]
      simp only [totalBytes, map_cons, sum_cons] at this ⊢
      omega

theorem evict_spec (maxCacheBytes : Nat) (cache : List (String × CachedProjection)) :
    (evict maxCacheBytes cache (totalBytes cache)).1 <:+ cache ∧
      (evict maxCacheBytes cache (totalBytes cache)).2 =
        totalBytes (evict maxCacheBytes cache (totalBytes cache)).1 ∧
      (evict maxCacheBytes cache (totalBytes cache)).2 ≤ maxCacheBytes := by
  induction cache with
  | nil => simp [evict, totalBytes]
  | cons entry cache ih =>
    unfold evict
    split
    next hfits => exact ⟨suffix_refl _, rfl, hfits⟩
    next hover =>
      have hrest : (totalBytes (entry :: cache) : Int) - entry.2.bytes = totalBytes cache := by
        simp only [totalBytes, map_cons, sum_cons]
        omega
      rw [hrest]
      exact ⟨ih.1.trans (suffix_cons _ _), ih.2⟩

theorem lookup_forget (checker : RunProjectionChecker) (runId : String) :
    (checker.forget (some runId)).cache.lookup runId = none := by
  show (match checker.cache.lookup runId with
    | none => checker
    | some _ => _).cache.lookup runId = none
  cases h : checker.cache.lookup runId with
  | none => exact h
  | some held => simp [Assoc.lookup_erase]

theorem Accounted.forget (h : Accounted maxCacheBytes checker) (runId : Option String) :
    Accounted maxCacheBytes (checker.forget runId) := by
  unfold RunProjectionChecker.forget
  split
  · exact ⟨nodup_nil, rfl, h.limit, Int.natCast_nonneg _⟩
  next runId =>
    split
    next => exact h
    next held hheld =>
      have htotal := totalBytes_erase h.oneEach hheld
      have hwas := h.total
      have hfits := h.bounded
      refine ⟨Assoc.filter_keys_nodup h.oneEach _, ?_, h.limit, ?_⟩
      · show checker.cachedBytes - held.bytes = totalBytes (Assoc.erase checker.cache runId)
        omega
      · show checker.cachedBytes - held.bytes ≤ maxCacheBytes
        omega

theorem Accounted.remember (h : Accounted maxCacheBytes checker) {runId : String}
    (hnew : checker.cache.lookup runId = none) (projection : RunProjection) (bytes : Nat) :
    Accounted maxCacheBytes (checker.remember runId projection bytes) := by
  unfold RunProjectionChecker.remember
  split
  next => exact h
  next =>
    have hput : Assoc.put checker.cache runId ⟨projection, bytes⟩ =
        checker.cache ++ [(runId, ⟨projection, bytes⟩)] :=
      Assoc.put_of_not_mem ((Assoc.lookup_eq_none_iff ..).mp hnew) _
    have htotal : checker.cachedBytes + bytes =
        totalBytes (Assoc.put checker.cache runId ⟨projection, bytes⟩) := by
      rw [hput, h.total]
      simp [totalBytes]
    have hnodup := Assoc.put_keys_nodup h.oneEach runId ⟨projection, bytes⟩
    obtain ⟨hsuffix, hsum, hbound⟩ := evict_spec checker.maxCacheBytes
      (Assoc.put checker.cache runId ⟨projection, bytes⟩)
    rw [← htotal] at hsuffix hsum hbound
    exact ⟨hnodup.sublist (hsuffix.sublist.map _), hsum, h.limit, h.limit ▸ hbound⟩

theorem Accounted.call (h : Accounted maxCacheBytes checker) (numberText : Rat → String)
    (call : CheckerCall) :
    Accounted maxCacheBytes (checker.call numberText call) := by
  cases call with
  | forget runId => exact h.forget runId
  | check written =>
    have hforgotten := h.forget (some written.runId)
    show Accounted maxCacheBytes (checker.check numberText written).2
    unfold RunProjectionChecker.check
    split
    next => exact h
    next =>
      dsimp only
      split
      next => exact hforgotten
      next => exact hforgotten.remember (lookup_forget checker written.runId) _ _

theorem calls_accounted (h : Accounted maxCacheBytes checker) (numberText : Rat → String)
    (calls : List CheckerCall) :
    Accounted maxCacheBytes (checker.calls numberText calls) := by
  unfold RunProjectionChecker.calls
  induction calls generalizing checker with
  | nil => exact h
  | cons call calls ih => exact ih (h.call numberText call)

/-- The account holds after every call, and a run that is not kept is next folded onto its row as
locked, or from nothing. -/
theorem cache_account (numberText : Rat → String) (maxCacheBytes : Nat) (calls : List CheckerCall) :
    let checker := (newChecker maxCacheBytes).calls numberText calls
    Accounted maxCacheBytes checker ∧
      (∀ runId, (checker.forget (some runId)).cache.lookup runId = none) ∧
      (checker.forget none).cache = [] ∧
      ∀ written : RunWritten, checker.cache.lookup written.runId = none →
        checker.start written =
          (if written.before.headSeq = 0 then none
            else some (rowProjection written.before written.before.headSeq), .row) := by
  intro checker
  have hnew : Accounted maxCacheBytes (newChecker maxCacheBytes) :=
    ⟨nodup_nil, rfl, rfl, Int.natCast_nonneg _⟩
  refine ⟨calls_accounted hnew numberText calls, lookup_forget checker, rfl, fun written hnot => ?_⟩
  simp [RunProjectionChecker.start, hnot]

def writtenWith (totalTokens : Int) (headSeq : Nat) (event : RunEventRecord) : RunWritten where
  runId := "run"
  organizationId := none
  before := { freshRun with totalTokens, headSeq }
  after := { freshRun with totalTokens, headSeq := headSeq + 1 }
  events := [event]
  stepArrays := ⟨.inr ⟨[], rfl⟩, .inr ⟨[], rfl⟩⟩

/-- A forgotten run whose row was changed around the log is not folded from its whole log. -/
theorem forgotten_starts_from_row :
    let first := writtenWith 0 0 startedEvent
    let second := writtenWith 5 1 compactedEvent
    let checker := (newChecker 1000).calls (fun n => toString n.num) [.check first, .forget none]
    ((foldRunEvents (checker.start second).1 second.events).toOption.join.map (·.totalTokens) =
        some 5) ∧
      (projectRunEvents (first.events ++ second.events)).toOption.map (·.totalTokens) =
        some 0 := by
  refine ⟨?_, ?_⟩
  · show (foldRunEvents (some (rowProjection { freshRun with totalTokens := 5, headSeq := 1 } 1))
      [_]).toOption.join.map _ = _
    unfold foldRunEvents
    rw [mergeSort_of_pairwise (by decide)]
    rfl
  · unfold projectRunEvents foldRunEvents
    rw [mergeSort_of_pairwise (by decide)]
    rfl

/-! ## Cached or not, a check starts from the row -/

/-- What a writer tells the checker of one of its committed writes. -/
def Reports (row : AgentRun) (ws : List RunWrite) (written : RunWritten) : Prop :=
  ∃ pre w post, ws = pre ++ w :: post ∧
    let store := Steps.run RunStore.write ⟨row, []⟩ pre
    store.Commits w ∧ written.before = store.row ∧ written.after = (store.write w).row ∧
      (store.write w).events = store.events ++ written.events

def Reached (row : AgentRun) (ws : List RunWrite) (store : RunStore) : Prop :=
  ∃ pre, pre <+: ws ∧ Steps.run RunStore.write ⟨row, []⟩ pre = store

/-- The projection is the row's, whenever the run was at its head. -/
structure StandsFor (row : AgentRun) (ws : List RunWrite) (p : RunProjection) : Prop where
  opened : p.headSeq ≠ 0
  rows : ∀ store, Reached row ws store → p.headSeq = store.row.headSeq →
    p.state.Eqv (storedRunState store.row)

variable {row : AgentRun} {ws : List RunWrite} {store : RunStore}

theorem log_headSeq_lt (store : RunStore) (now : Time) (asked : RunChange) (notes : List RunNote) :
    store.row.headSeq < (store.log now asked notes).row.headSeq := by
  show _ < _ + length (commitEvents _ _ _)
  rw [commitEvents, length_append]
  exact Nat.lt_add_of_pos_right (Nat.succ_pos _)

theorem state_of_run (store : RunStore) (ws : List RunWrite) :
    store.row.headSeq ≤ (Steps.run RunStore.write store ws).row.headSeq ∧
      (store.row.headSeq = (Steps.run RunStore.write store ws).row.headSeq →
        storedRunState (Steps.run RunStore.write store ws).row = storedRunState store.row) := by
  induction ws generalizing store with
  | nil => exact ⟨Nat.le_refl _, fun _ => rfl⟩
  | cons w ws ih =>
    obtain ⟨hle, hstate⟩ := ih (store.write w)
    rw [Steps.run_cons]
    by_cases hcommit : store.Commits w
    · rcases commits_cases hcommit with ⟨asked, -, hl, heq⟩ | ⟨asked, -, -, heq⟩
      · have hsame := storedRunState_lease (isLease_leaseOnly hl) store.row
        rw [heq] at hle hstate ⊢
        exact ⟨hle, fun h => (hstate h).trans hsame⟩
      · have hlt := log_headSeq_lt store w.now asked w.notes
        rw [← heq] at hlt
        exact ⟨by omega, fun h => by omega⟩
    · rw [write_eq_self hcommit] at hle hstate ⊢
      exact ⟨hle, hstate⟩

/-- A run that is twice at one head is in one state. -/
theorem state_of_head {s s' : RunStore} (hs : Reached row ws s) (hs' : Reached row ws s')
    (h : s.row.headSeq = s'.row.headSeq) : storedRunState s.row = storedRunState s'.row := by
  obtain ⟨pre, hpre, rfl⟩ := hs
  obtain ⟨pre', hpre', rfl⟩ := hs'
  rcases prefix_or_prefix_of_prefix hpre hpre' with ⟨rest, rfl⟩ | ⟨rest, rfl⟩
  · rw [Steps.run_append] at h ⊢
    exact ((state_of_run _ rest).2 h).symm
  · rw [Steps.run_append] at h ⊢
    exact (state_of_run _ rest).2 h.symm

theorem RunState.Eqv.refl (s : RunState) : s.Eqv s :=
  ⟨rfl, rfl, rfl, rfl, rfl, rfl, .refl _, rfl, .refl _, .refl _, .refl _⟩

theorem rowProjection_eqv (row : AgentRun) (headSeq : Nat) (h : IsStepArray row.steps.1) :
    (rowProjection row headSeq).state.Eqv (storedRunState row) := by
  have hstate : (rowProjection row headSeq).state = storedRunState row := by
    unfold rowProjection RunProjection.state storedRunState
    rcases h with h | ⟨items, h⟩ <;> simp [h, Json.itemsOrEmpty]
  rw [hstate]
  exact .refl _

/-- Where a fold starts that gives the row. -/
def Starts (start : Option RunProjection) (row : AgentRun) : Prop :=
  if row.headSeq = 0 then start = none
  else ∃ p, start = some p ∧ p.headSeq = row.headSeq ∧ p.Tracks (baselineOf row)

theorem fold_committed {start : Option RunProjection} (hstart : Starts start store.row)
    (now : Time) (asked : RunChange) (notes : List RunNote) :
    ∃ p, p.Tracks (baselineOf store.row) ∧
      foldRunEvents start (numbered store.row.headSeq (commitEvents (baselineOf store.row)
          (nextRow store.row now asked) notes)) =
        .ok (some (committed p (baselineOf store.row) (nextRow store.row now asked)
          (store.log now asked notes).row.headSeq)) := by
  have hsorted (ds : List RunEventDraft) : (numbered store.row.headSeq ds).Pairwise fun a b =>
      decide (a.seq ≤ b.seq) = true := by
    have hr : ((numbered store.row.headSeq ds).map (·.seq)).Pairwise (· ≤ ·) := by
      rw [numbered_seqs]
      exact pairwise_le_range'
    exact (pairwise_map.mp hr).imp fun hle => decide_eq_true hle
  have hfold {p : RunProjection} (hp : p.Tracks (baselineOf store.row)) := (foldOrdered_numbered p
    (changeEvents (baselineOf store.row) (nextRow store.row now asked) notes)).trans
      (congrArg _ (foldDrafts_changeEvents _ _ _ _ hp.length_eq))
  unfold Starts at hstart
  unfold foldRunEvents
  rw [mergeSort_of_pairwise (hsorted _)]
  simp only [RunStore.log, commitEvents_eq, runStartedEvents]
  split at hstart
  next h0 =>
    have hp := opened_tracks (baselineOf store.row)
    refine ⟨_, hp, ?_⟩
    rw [hstart, if_pos (show (baselineOf store.row).headSeq = 0 from h0), h0, singleton_append,
      numbered_cons, length_cons, Nat.zero_add, Nat.zero_add, Nat.add_comm (length _)]
    exact (foldOrdered_opening ..).trans (hfold hp)
  next h0 =>
    obtain ⟨p, rfl, hhead, hp⟩ := hstart
    refine ⟨p, hp, ?_⟩
    rw [if_neg (show (baselineOf store.row).headSeq ≠ 0 from h0), nil_append, ← hhead]
    exact hfold hp

variable {numberText : Rat → String} {written : RunWritten}

theorem starts_check {s : RunStore} (hs : Reached row ws s) (hbefore : written.before = s.row)
    (hkept : ∀ e ∈ checker.cache, e.1 = written.runId → StandsFor row ws e.2.projection) :
    Starts (checker.start written).1 s.row := by
  have hrow : Starts (if s.row.headSeq = 0 then none
      else some (rowProjection s.row s.row.headSeq)) s.row := by
    unfold Starts
    split
    next => rfl
    next =>
      exact ⟨_, rfl, rfl, tracks_of_eqv (rowProjection_eqv _ _ (hbefore ▸ written.stepArrays.1))⟩
  unfold RunProjectionChecker.start
  rw [hbefore]
  cases hheld : checker.cache.lookup written.runId with
  | none => exact hrow
  | some held =>
    by_cases hhead : held.projection.headSeq = s.row.headSeq
    · have hstands := hkept _ (Assoc.mem_of_lookup hheld) rfl
      simp only [if_pos hhead]
      rw [Starts, if_neg (hhead ▸ hstands.opened)]
      exact ⟨_, rfl, hhead, tracks_of_eqv (hstands.rows s hs hhead)⟩
    · simp only [if_neg hhead]
      exact hrow

theorem mem_forget {runId : Option String} {e : String × CachedProjection}
    (h : e ∈ (checker.forget runId).cache) : e ∈ checker.cache := by
  unfold RunProjectionChecker.forget at h
  split at h
  · cases h
  · split at h
    · exact h
    · exact mem_of_mem_filter h

theorem evict_suffix (maxCacheBytes : Nat) (cache : List (String × CachedProjection))
    (cachedBytes : Int) : (evict maxCacheBytes cache cachedBytes).1 <:+ cache := by
  induction cache generalizing cachedBytes with
  | nil => exact suffix_refl _
  | cons entry cache ih =>
    unfold evict
    split
    · exact suffix_refl _
    · exact (ih _).trans (suffix_cons _ _)

theorem mem_remember {runId : String} {projection : RunProjection} {bytes : Nat}
    {e : String × CachedProjection} (h : e ∈ (checker.remember runId projection bytes).cache) :
    e = (runId, ⟨projection, bytes⟩) ∨ e ∈ checker.cache := by
  unfold RunProjectionChecker.remember at h
  split at h
  · exact Or.inr h
  · exact Assoc.mem_put ((evict_suffix _ _ _).mem h)

/-- What a check keeps anew is what it folded, or the row. -/
theorem mem_check {e : String × CachedProjection}
    (h : e ∈ (checker.check numberText written).2.cache) :
    e ∈ checker.cache ∨ e.1 = written.runId ∧ written.events ≠ [] ∧
      (foldRunEvents (checker.start written).1 written.events = .ok (some e.2.projection) ∨
        e.2.projection = rowProjection written.after written.after.headSeq) := by
  unfold RunProjectionChecker.check at h
  split at h
  next => exact Or.inl h
  next hevents =>
    dsimp only at h
    split at h
    next => exact Or.inl (mem_forget h)
    next =>
      rcases mem_remember h with rfl | h
      · refine Or.inr ⟨rfl, by simpa using hevents, ?_⟩
        split
        next hp =>
          refine Or.inl ?_
          cases hfold : foldRunEvents (checker.start written).1 written.events with
          | error e => simp [hfold] at hp
          | ok projection => simpa [hfold] using hp
        next => exact Or.inr rfl
      · exact Or.inl (mem_forget h)

/-- **One check of a carried write**: it folds to the row, and what is kept stands for the row. -/
theorem check_stands
    (hcarried : Steps.Along RunStore.write (fun s w => s.Commits w → w.Carried s.row) ⟨row, []⟩ ws)
    (hreports : Reports row ws written) (hevents : written.events ≠ [])
    (hkept : ∀ e ∈ checker.cache, e.1 = written.runId → StandsFor row ws e.2.projection) :
    ∃ p, foldRunEvents (checker.start written).1 written.events = .ok (some p) ∧
      p.headSeq = written.after.headSeq ∧ p.state.Eqv (storedRunState written.after) ∧
      StandsFor row ws p ∧
      StandsFor row ws (rowProjection written.after written.after.headSeq) := by
  obtain ⟨pre, w, post, rfl, hcommit, hbefore, hafter, happended⟩ := hreports
  have hlogged := Steps.along_iff.mp hcarried pre w post rfl hcommit
  have hnext : Reached row (pre ++ w :: post)
      ((Steps.run RunStore.write ⟨row, []⟩ pre).write w) :=
    ⟨pre ++ [w], ⟨post, append_assoc ..⟩, by rw [Steps.run_append]; rfl⟩
  have hstands {p : RunProjection} (hhead : p.headSeq = written.after.headSeq)
      (h0 : written.after.headSeq ≠ 0) (heqv : p.state.Eqv (storedRunState written.after)) :
      StandsFor row (pre ++ w :: post) p := by
    refine ⟨hhead ▸ h0, fun s hs hhead' => ?_⟩
    rw [hhead, hafter] at hhead'
    rw [← state_of_head hnext hs hhead', ← hafter]
    exact heqv
  rcases commits_cases hcommit with ⟨asked, -, -, heq⟩ | ⟨asked, ha, hl, heq⟩
  · rw [heq] at happended
    exact absurd (self_eq_append_right.mp happended) hevents
  · rw [heq] at hafter happended
    obtain ⟨p, hp, hfold⟩ := fold_committed
      (starts_check ⟨pre, prefix_append .., rfl⟩ hbefore hkept) w.now asked w.notes
    have hrow := congrArg storedRunState hafter.symm
    have heqv := hrow ▸ (committed_eqv_iff written.after.headSeq hp).mpr (hlogged asked ha hl)
    rw [append_cancel_left happended, ← hafter] at hfold
    have h0 : written.after.headSeq ≠ 0 := by
      rw [hafter]
      exact log_headSeq_ne_zero _ _ _ _
    exact ⟨_, hfold, rfl, heqv, hstands rfl h0 heqv,
      hstands rfl h0 (rowProjection_eqv _ _ written.stepArrays.2)⟩

/-- A check of the run folds its events, and comes to the row as written. -/
def FoldsToRow (runId : String) (checker : RunProjectionChecker) (call : CheckerCall) : Prop :=
  ∀ written, call = .check written → written.runId = runId → written.events ≠ [] →
    ∃ p, foldRunEvents (checker.start written).1 written.events = .ok (some p) ∧
      p.headSeq = written.after.headSeq ∧ p.state.Eqv (storedRunState written.after)

/-- **A check folds to the row, cached or not**: whatever is forgotten or evicted, whichever of a
run's writes a process hears of and in whatever order, among whatever checks of other runs, if the
writes are carried. -/
theorem checks_fold_to_row (numberText : Rat → String) (maxCacheBytes : Nat) (row : AgentRun)
    (ws : List RunWrite)
    (hcarried : Steps.Along RunStore.write (fun s w => s.Commits w → w.Carried s.row) ⟨row, []⟩ ws)
    (runId : String) (calls : List CheckerCall)
    (hreports : ∀ written, .check written ∈ calls → written.runId = runId →
      Reports row ws written) :
    Steps.Along (RunProjectionChecker.call numberText) (FoldsToRow runId)
      (newChecker maxCacheBytes) calls := by
  have hcalls : Steps.Along (RunProjectionChecker.call numberText) (fun _ call =>
      ∀ written, call = .check written → written.runId = runId → Reports row ws written)
      (newChecker maxCacheBytes) calls :=
    Steps.along_iff.mpr fun pre call post heq written hcall =>
      hreports written (by rw [heq, ← hcall]; simp)
  refine Steps.along_of_invariant
    (fun checker => ∀ e ∈ checker.cache, e.1 = runId → StandsFor row ws e.2.projection)
    (fun checker call hkept hreport e he hrun => ?_)
    (fun checker call hkept hreport written hcall hrun hevents => ?_) (fun _ he => by cases he)
    hcalls
  · cases call with
    | forget => exact hkept e (mem_forget he) hrun
    | check written =>
      rcases mem_check he with he | ⟨hid, hevents, hkeeps⟩
      · exact hkept e he hrun
      · have hrun' : written.runId = runId := hid.symm.trans hrun
        obtain ⟨p, hfold, -, -, hstands, hrow⟩ := check_stands hcarried (hreport written rfl hrun')
          hevents fun e he heq => hkept e he (heq.trans hrun')
        rcases hkeeps with hkeeps | hkeeps
        · rw [hkeeps] at hfold
          cases hfold
          exact hstands
        · rw [hkeeps]
          exact hrow
  · obtain ⟨p, hfold, hhead, heqv, -⟩ := check_stands hcarried (hreport written hcall hrun) hevents
      fun e he heq => hkept e he (heq.trans hrun)
    exact ⟨p, hfold, hhead, heqv⟩

def startWrite : RunWrite :=
  { where' := fun _ => true, change := fun _ => some { status := some .running }, now := 0 }

def started : RunStore := (RunStore.mk freshRun []).write startWrite

def startWritten : RunWritten where
  runId := "run"
  organizationId := none
  before := freshRun
  after := started.row
  events := started.events
  stepArrays := ⟨.inr ⟨[], rfl⟩, .inr ⟨[], rfl⟩⟩

theorem checks_fold_to_row_started :
    Steps.Along (RunProjectionChecker.call fun n => toString n.num) (FoldsToRow "run")
      (newChecker 10000) [.check startWritten, .forget none, .check startWritten] := by
  refine checks_fold_to_row _ 10000 freshRun [startWrite] ⟨fun _ => ?_, trivial⟩ "run" _ ?_
  · intro asked ha _
    cases ha
    refine ⟨.inr ⟨[], rfl⟩, fun s hs => absurd (show s ∈ [] from hs) not_mem_nil, ?_, trivial⟩
    show ObjectLogged (.obj []) (.obj [])
    simp [ObjectLogged, KeyLogged]
  · simp only [mem_cons, not_mem_nil, or_false, CheckerCall.check.injEq, reduceCtorEq, false_or,
      or_self]
    rintro written rfl -
    exact ⟨[], startWrite, [], rfl, commits_of_seqsExact (inv_start rfl).seqs rfl rfl rfl, rfl, rfl,
      rfl⟩

end Almyty.Runs
