import Almyty.Runs.LeaseSafety

/-!
# A step and the metadata others set meanwhile

A step works on the run it loaded, for as long as its model and tool calls take, and commits every
column of that copy at once (`commitStep`). Others set metadata keys on the row in the meantime with
`writeRun(mergeMetadata(keys))`: the channel that sent the disclosure line, the post that reports a
delivery. The merge reads the row as it is locked and leaves the rest of it alone. The commit does
not: its `metadata` is the object the step loaded, with the step's own keys in it. The events of the
commit are diffed against the locked row, so the log says that the keys went away and stays right
about the row.

`merges_survive_iff` says which keys are still there when the commit landed.

Mirroring notes:
- What the step does to the other columns is left open: it commits any run with the copy's metadata.
-/

namespace Almyty.Runs

open Almyty.Lib Almyty.Lib.Steps

/-! ## Merging keys into an object -/

abbrev JsonObject := { fields : Fields // (Json.obj fields).uniqueKeys = true }

theorem uniqueKeys_put {fields : Fields} (h : (Json.obj fields).uniqueKeys = true) (key : String)
    {value : Json} (hv : value.uniqueKeys = true) :
    (Json.obj (Assoc.put fields key value)).uniqueKeys = true := by
  simp only [Json.uniqueKeys, Bool.and_eq_true, decide_eq_true_eq] at h ⊢
  refine ⟨Assoc.put_keys_nodup h.1 key value, ?_⟩
  have hvalues := h.2
  clear h
  induction fields with
  | nil => simp [Assoc.put, Json.uniqueKeysFields, hv]
  | cons e fields ih =>
    obtain ⟨k, w⟩ := e
    simp only [Json.uniqueKeysFields, Bool.and_eq_true] at hvalues
    rw [Assoc.put]
    split
    · simp [Json.uniqueKeysFields, hv, hvalues.2]
    · simp [Json.uniqueKeysFields, hvalues.1, ih hvalues.2]

theorem uniqueKeys_putAll {entries : Fields} (he : Json.uniqueKeysFields entries = true)
    {fields : Fields} (h : (Json.obj fields).uniqueKeys = true) :
    (Json.obj (Assoc.putAll fields entries)).uniqueKeys = true := by
  unfold Assoc.putAll
  induction entries generalizing fields with
  | nil => exact h
  | cons e entries ih =>
    obtain ⟨k, v⟩ := e
    simp only [Json.uniqueKeysFields, Bool.and_eq_true] at he
    exact ih he.2 (uniqueKeys_put h k he.1)

theorem uniqueKeys_fieldsOrEmpty (value : JsonValue) :
    (Json.obj value.1.fieldsOrEmpty).uniqueKeys = true := by
  obtain ⟨json, h⟩ := value
  cases json <;> first | rfl | exact h

def withKeys (metadata : JsonValue) (keys : JsonObject) : JsonValue :=
  ⟨.obj (Assoc.putAll metadata.1.fieldsOrEmpty keys.1),
    uniqueKeys_putAll (by
      have h := keys.2
      simp only [Json.uniqueKeys, Bool.and_eq_true] at h
      exact h.2) (uniqueKeys_fieldsOrEmpty metadata)⟩

def metadataAt (metadata : JsonValue) (key : String) : Option Json :=
  metadata.1.fieldsOrEmpty.lookup key

theorem metadataAt_withKeys (metadata : JsonValue) (keys : JsonObject) (key : String) :
    metadataAt (withKeys metadata keys) key
      = (keys.1.lookup key).or (metadataAt metadata key) :=
  Assoc.lookup_putAll keys.1 (Json.nodup_of_uniqueKeys keys.2) _ _

/-! ## A step between its load and its commit -/

def mergeMetadata (keys : JsonObject) (now : Time) : RunWrite :=
  { where' := fun _ => true
    change := fun row => some { metadata := some (withKeys row.metadata keys) }
    now }

structure StepWork where
  store : RunStore
  run : AgentRun
  merged : Fields
  assigned : List String

def loadRun (row : AgentRun) (token : String) : AgentRun :=
  { row with
    leaseOwner := some token
    status := if row.status = .sleeping then .running else row.status }

def StepWork.load (store : RunStore) (token : String) : StepWork :=
  { store, run := loadRun store.row token, merged := [], assigned := [] }

inductive WorkAction
  /-- Another party sets keys on the row. -/
  | merge (keys : JsonObject) (now : Time)
  /-- The step sets keys on its copy. -/
  | assign (keys : JsonObject)

def StepWork.step (s : StepWork) : WorkAction → StepWork
  | .merge keys now =>
    { s with
      store := s.store.write (mergeMetadata keys now)
      merged :=
        if (s.store.written (mergeMetadata keys now)).isSome then Assoc.putAll s.merged keys.1
        else s.merged }
  | .assign keys =>
    { s with
      run := { s.run with metadata := withKeys s.run.metadata keys }
      assigned := s.assigned ++ Assoc.keys keys.1 }

structure CommitCall where
  token : String
  /-- The run as the step leaves it, but for its metadata. -/
  done : AgentRun
  steps : JsonValue
  expectedStep : Int
  notes : List RunNote
  now : Time

def StepWork.commit (s : StepWork) (c : CommitCall) : RunWrite :=
  commitStepWrite c.token { c.done with metadata := s.run.metadata } c.steps c.expectedStep c.notes
    c.now

def MergesSurvive (s : StepWork) (row : AgentRun) : Prop :=
  ∀ key value, s.merged.lookup key = some value → key ∉ s.assigned →
    metadataAt row.metadata key = some value

/-! ## What the commit leaves -/

theorem commit_metadata {s : StepWork} {c : CommitCall} (h : s.store.Commits (s.commit c)) :
    (s.store.write (s.commit c)).row.metadata = s.run.metadata := by
  obtain ⟨asked, -, ha, -, hm⟩ := commits_state h
  rw [hm, ← Option.some.inj ha]
  rfl

theorem metadataAt_work (s : StepWork) (work : List WorkAction) {key : String}
    (h : key ∉ (run StepWork.step s work).assigned) :
    metadataAt (run StepWork.step s work).run.metadata key = metadataAt s.run.metadata key ∧
      key ∉ s.assigned := by
  induction work generalizing s with
  | nil => exact ⟨rfl, h⟩
  | cons a work ih =>
    obtain ⟨hrun, hkey⟩ := ih (s.step a) h
    rw [run_cons, hrun]
    cases a with
    | merge keys now => exact ⟨rfl, hkey⟩
    | assign keys =>
      have hnot : key ∉ Assoc.keys keys.1 := fun hin => hkey (List.mem_append_right _ hin)
      refine ⟨?_, fun hin => hkey (List.mem_append_left _ hin)⟩
      show metadataAt (withKeys s.run.metadata keys) key = _
      rw [metadataAt_withKeys, (Assoc.lookup_eq_none_iff keys.1 key).mpr hnot, Option.none_or]

/-- **What survives a step's commit**: a key others set and the step did not, exactly when the
loaded row had that value already. -/
theorem merges_survive_iff (store : RunStore) (token : String) (work : List WorkAction)
    (c : CommitCall)
    (h : (run StepWork.step (StepWork.load store token) work).store.Commits
      ((run StepWork.step (StepWork.load store token) work).commit c)) :
    let s := run StepWork.step (StepWork.load store token) work
    MergesSurvive s (s.store.write (s.commit c)).row ↔ MergesSurvive s store.row := by
  intro s
  have hrow := commit_metadata h
  have hkept : ∀ key, key ∉ s.assigned →
      metadataAt s.run.metadata key = metadataAt store.row.metadata key :=
    fun key hkey => (metadataAt_work (StepWork.load store token) work hkey).1
  unfold MergesSurvive
  rw [hrow]
  constructor
  · intro hs key value hv hkey
    rw [← hkept key hkey]
    exact hs key value hv hkey
  · intro hs key value hv hkey
    rw [hkept key hkey]
    exact hs key value hv hkey

theorem write_mergeMetadata {store : RunStore} (h : store.SeqsExact) (keys : JsonObject)
    (now : Time) :
    store.Commits (mergeMetadata keys now) ∧
      store.write (mergeMetadata keys now)
        = store.log now { metadata := some (withKeys store.row.metadata keys) } [] := by
  have hasked : (mergeMetadata keys now).asked store.row
      = some { metadata := some (withKeys store.row.metadata keys) } := rfl
  exact ⟨commits_of_seqsExact h hasked rfl rfl, write_eq_log h hasked rfl rfl⟩

def leasedRun (metadata : JsonValue) : AgentRun :=
  { freshRun with status := .running, currentStep := 1, leaseOwner := some "worker:1", metadata }

def leasedCommit : CommitCall :=
  { token := "worker:1", done := { leasedRun ⟨.null, uniqueKeys_null⟩ with currentStep := 2 },
    steps := ⟨.arr [], uniqueKeys_nil⟩, expectedStep := 1, notes := [], now := 20 }

def disclosureSent : JsonObject := ⟨[("aiDisclosureSent", .bool true)], rfl⟩

/-- A step that sets no key of its own, with one merge meanwhile. -/
def disclosedStep (metadata : JsonValue) : StepWork :=
  run StepWork.step (StepWork.load ⟨leasedRun metadata, []⟩ "worker:1") [.merge disclosureSent 10]

theorem disclosedStep_store (metadata : JsonValue) :
    (disclosedStep metadata).store.SeqsExact ∧
      (disclosedStep metadata).store = (RunStore.mk (leasedRun metadata) []).log 10
        { metadata := some (withKeys metadata disclosureSent) } [] ∧
      (disclosedStep metadata).merged = disclosureSent.1 := by
  have hseqs : (RunStore.mk (leasedRun metadata) []).SeqsExact := rfl
  obtain ⟨hc, hw⟩ := write_mergeMetadata hseqs disclosureSent 10
  have hkept := seqsExact_write hseqs (mergeMetadata disclosureSent 10)
  have hwritten := (written_isSome_iff _ _).mpr hc
  simp only [disclosedStep, run_cons, run_nil, StepWork.step, StepWork.load]
  rw [if_pos hwritten, hw]
  rw [hw] at hkept
  exact ⟨hkept, rfl, rfl⟩

theorem disclosedStep_commits (metadata : JsonValue) :
    (disclosedStep metadata).store.Commits ((disclosedStep metadata).commit leasedCommit) := by
  obtain ⟨hseqs, hstore, -⟩ := disclosedStep_store metadata
  have hrow : (disclosedStep metadata).store.row.currentStep = 1 ∧
      (disclosedStep metadata).store.row.status = .running ∧
      (disclosedStep metadata).store.row.leaseOwner = some "worker:1" := by
    rw [hstore]
    exact ⟨rfl, rfl, rfl⟩
  have hwhere : ((disclosedStep metadata).commit leasedCommit).where'
      (disclosedStep metadata).store.row = true := by
    simp [StepWork.commit, commitStepWrite, leasedCommit, heldBy, hrow, isTerminal]
  exact commits_of_seqsExact hseqs (if_pos hwhere) rfl rfl

/-- The disclosure was noted before the step: noting it again is still in the row. -/
theorem merges_survive_known_key :
    let metadata : JsonValue := ⟨.obj [("aiDisclosureSent", .bool true)], rfl⟩
    let s := disclosedStep metadata
    s.store.Commits (s.commit leasedCommit) ∧
      MergesSurvive s (s.store.write (s.commit leasedCommit)).row := by
  intro metadata s
  have hc := disclosedStep_commits metadata
  refine ⟨hc, (merges_survive_iff _ "worker:1" _ leasedCommit hc).mpr ?_⟩
  intro key value hv _
  rw [show (run StepWork.step _ _).merged = disclosureSent.1 from (disclosedStep_store _).2.2] at hv
  exact hv

/-- The first disclosure is sent while a step works: the commit puts the old metadata back. -/
theorem merge_lost_first_disclosure :
    let s := disclosedStep ⟨.null, rfl⟩
    s.store.Commits (s.commit leasedCommit) ∧
      ¬MergesSurvive s (s.store.write (s.commit leasedCommit)).row := by
  intro s
  have hc := disclosedStep_commits ⟨.null, rfl⟩
  refine ⟨hc, fun hs => ?_⟩
  have hmerged : s.merged = disclosureSent.1 := (disclosedStep_store ⟨.null, rfl⟩).2.2
  have hkey := hs "aiDisclosureSent" (.bool true) (by rw [hmerged]; rfl) List.not_mem_nil
  rw [commit_metadata hc] at hkey
  cases hkey

end Almyty.Runs
