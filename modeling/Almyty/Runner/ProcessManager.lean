import Almyty.Lib.Steps

/-!
# The process cap: `packages/runner/src/process-manager.ts`

`spawn` compares the number of handles marked running with the cap, has an adapter start the child,
and enters the handle in the map when the adapter is done. Between the check and the entry the call
is nowhere counted, and other calls pass the same check. A child is also uncounted while it still
runs when its workspace was killed (the entries go at once, the children when the signal reaches
them) or when its pipe adapter reported an error.

`process_cap_iff`: the cap holds, whatever the admitted calls start next, exactly when no call was
let past the check while children and starts together had reached it.

Mirroring notes:
- A signal changes nothing by itself: the child's death is a step of its own, and so is the event
  that reports it.
- Node emits `error` for a child that could not be started, and also for one that could not be
  killed.
-/

namespace Almyty.Runner

open Almyty.Lib List

inductive ProcessStatus
  | running | exited | killed
  deriving DecidableEq

/-- How far a call of `spawn` is that passed the check. -/
inductive Spawning
  /-- The adapter has not started the child yet. -/
  | starting
  /-- The adapter is done, the handle is not entered. -/
  | started
  | registered
  | failed
  deriving DecidableEq

structure Spawned where
  workspaceId : String
  pty : Bool
  phase : Spawning := .starting
  /-- The child process runs. -/
  alive : Bool := false
  /-- Its handle, while the map has it. -/
  status : Option ProcessStatus := none

namespace Spawned

def start (p : Spawned) : Spawned :=
  if p.phase = .starting then { p with phase := .started, alive := true } else p

/-- `child_process` hands back a child that could not be started; it says so later. -/
def startBroken (p : Spawned) : Spawned :=
  if p.phase = .starting ∧ p.pty = false then { p with phase := .started } else p

/-- The adapter rejects, and so does the call. -/
def fail (p : Spawned) : Spawned :=
  if p.phase = .starting then { p with phase := .failed } else p

def register (p : Spawned) : Spawned :=
  if p.phase = .started then { p with phase := .registered, status := some .running } else p

def die (p : Spawned) : Spawned := { p with alive := false }

def exit (signal : Bool) (p : Spawned) : Spawned :=
  if p.phase = .registered ∧ p.alive = false then
    { p with status := p.status.map fun _ => if signal then .killed else .exited }
  else p

/-- The `error` event, which the pipe adapter passes on as an exit. -/
def error (p : Spawned) : Spawned :=
  if p.phase = .registered ∧ p.pty = false then { p with status := p.status.map fun _ => .exited }
  else p

/-- The grace period of an exited process is over. -/
def reap (p : Spawned) : Spawned :=
  if p.status = some .running then p else { p with status := none }

def counted (p : Spawned) : Bool := p.status = some .running

/-- The child runs, or may be started any moment. -/
def holds (p : Spawned) : Bool := p.alive || p.phase = .starting

end Spawned

namespace ProcessManager

inductive Action
  | spawn (workspaceId : String) (pty : Bool)
  | start (n : Nat)
  | startBroken (n : Nat)
  | fail (n : Nat)
  | register (n : Nat)
  | die (n : Nat)
  | exit (n : Nat) (signal : Bool)
  | error (n : Nat)
  | reap (n : Nat)
  | killWorkspace (workspaceId : String)

/-- The handles marked running. -/
def inUse (processes : List Spawned) : Nat := processes.countP (·.counted)

def children (processes : List Spawned) : Nat := processes.countP (·.alive)

/-- Children that run, and calls past the check whose child may yet be started. -/
def load (processes : List Spawned) : Nat := processes.countP (·.holds)

def spawn (maxConcurrent : Nat) (processes : List Spawned) (workspaceId : String) (pty : Bool) :
    List Spawned :=
  if inUse processes ≥ maxConcurrent then processes else processes ++ [⟨workspaceId, pty, .starting, false, none⟩]

/-- The children are sent `SIGKILL`, their entries are deleted. -/
def killWorkspace (processes : List Spawned) (workspaceId : String) : List Spawned :=
  processes.map fun p => if p.workspaceId = workspaceId then { p with status := none } else p

def step (maxConcurrent : Nat) (processes : List Spawned) : Action → List Spawned
  | .spawn workspaceId pty => spawn maxConcurrent processes workspaceId pty
  | .start n => processes.modify n (·.start)
  | .startBroken n => processes.modify n (·.startBroken)
  | .fail n => processes.modify n (·.fail)
  | .register n => processes.modify n (·.register)
  | .die n => processes.modify n (·.die)
  | .exit n signal => processes.modify n (·.exit signal)
  | .error n => processes.modify n (·.error)
  | .reap n => processes.modify n (·.reap)
  | .killWorkspace workspaceId => killWorkspace processes workspaceId

/-! ## The property and its condition -/

def starts (maxConcurrent : Nat) (processes : List Spawned) (ns : List Nat) : List Spawned :=
  Steps.run (step maxConcurrent) processes (ns.map .start)

/-- A start that fails changes no count: at once when the adapter rejects, and when the error
arrives for a child the pipe adapter could not start the handle is uncounted again. -/
def FailureUncounted (maxConcurrent : Nat) (processes : List Spawned) : Action → Prop
  | .fail n => inUse (step maxConcurrent processes (.fail n)) = inUse processes ∧
      children (step maxConcurrent processes (.fail n)) = children processes
  | .error n => ∀ p ∈ processes[n]?, p.phase = .registered → p.pty = false → p.counted →
      inUse (step maxConcurrent processes (.error n)) + 1 = inUse processes
  | _ => True

/-- After the step the children are within the cap, and stay so when admitted calls start
theirs. -/
def Capped (maxConcurrent : Nat) (processes : List Spawned) (a : Action) : Prop :=
  (∀ ns, children (starts maxConcurrent (step maxConcurrent processes a) ns) ≤ maxConcurrent) ∧
    FailureUncounted maxConcurrent processes a

/-- A call is not let past the check while children and starts have reached the cap. -/
def Admits (maxConcurrent : Nat) (processes : List Spawned) : Action → Prop
  | .spawn _ _ => inUse processes < maxConcurrent → load processes < maxConcurrent
  | _ => True

variable {maxConcurrent : Nat} {processes : List Spawned}

variable {f : Spawned → Spawned}

variable {q : Spawned → Bool}

theorem countP_modify_le (h : ∀ p, q (f p) = true → q p = true) (n : Nat) (processes : List Spawned) :
    (processes.modify n f).countP q ≤ processes.countP q := by
  induction processes generalizing n with
  | nil => simp
  | cons p ps ih =>
    cases n with
    | zero =>
      rw [modify_zero_cons, countP_cons, countP_cons]
      have := h p
      split <;> split <;> simp_all
    | succ n =>
      rw [modify_succ_cons, countP_cons, countP_cons]
      exact Nat.add_le_add_right (ih n) _

theorem countP_modify_eq (h : ∀ p, q (f p) = q p) (n : Nat) (processes : List Spawned) :
    (processes.modify n f).countP q = processes.countP q := by
  induction processes generalizing n with
  | nil => simp
  | cons p ps ih =>
    cases n with
    | zero => rw [modify_zero_cons, countP_cons, countP_cons, h]
    | succ n => rw [modify_succ_cons, countP_cons, countP_cons, ih]

theorem countP_modify_succ {n : Nat} {p : Spawned} (hp : processes[n]? = some p) (hq : q p = true)
    (hf : q (f p) = false) :
    (processes.modify n f).countP q + 1 = processes.countP q := by
  induction processes generalizing n with
  | nil => simp at hp
  | cons p' ps ih =>
    cases n with
    | zero =>
      obtain rfl : p' = p := by simpa using hp
      rw [modify_zero_cons, countP_cons, countP_cons, hq, hf]
      simp
    | succ n =>
      rw [modify_succ_cons, countP_cons, countP_cons, ← ih (by simpa using hp)]
      omega

/-! ## The load -/

theorem children_le_load (processes : List Spawned) : children processes ≤ load processes :=
  countP_mono_left fun p _ hp => by simp_all [Spawned.holds]

theorem holds_of_step {p : Spawned}
    (hf : f ∈ [Spawned.start, .startBroken, .fail, .register, .die, .exit true, .exit false, .error,
      .reap]) (h : (f p).holds = true) : p.holds = true := by
  simp only [mem_cons, not_mem_nil, or_false] at hf
  rcases hf with rfl | rfl | rfl | rfl | rfl | rfl | rfl | rfl | rfl
  · unfold Spawned.start at h
    split at h <;> simp_all [Spawned.holds]
  · unfold Spawned.startBroken at h
    split at h <;> simp_all [Spawned.holds]
  · unfold Spawned.fail at h
    split at h <;> simp_all [Spawned.holds]
  · unfold Spawned.register at h
    split at h <;> simp_all [Spawned.holds]
  · simp only [Spawned.die, Spawned.holds, Bool.false_or] at h
    simp [Spawned.holds, of_decide_eq_true h]
  · unfold Spawned.exit at h
    split at h <;> simp_all [Spawned.holds]
  · unfold Spawned.exit at h
    split at h <;> simp_all [Spawned.holds]
  · unfold Spawned.error at h
    split at h <;> simp_all [Spawned.holds]
  · unfold Spawned.reap at h
    split at h <;> simp_all [Spawned.holds]

theorem load_step_le (processes : List Spawned) {a : Action}
    (ha : ∀ workspaceId pty, a ≠ .spawn workspaceId pty) :
    load (step maxConcurrent processes a) ≤ load processes := by
  cases a with
  | spawn workspaceId pty => exact absurd rfl (ha workspaceId pty)
  | exit n signal =>
    refine countP_modify_le (fun p => holds_of_step ?_) n _
    cases signal <;> simp
  | killWorkspace workspaceId =>
    unfold load step killWorkspace
    rw [countP_map]
    refine countP_mono_left fun p _ hp => ?_
    simp only [Function.comp] at hp
    split at hp <;> exact hp
  | _ => exact countP_modify_le (fun p => holds_of_step (by simp)) _ _

theorem load_spawn_le (workspaceId : String) (pty : Bool)
    (h : inUse processes < maxConcurrent → load processes < maxConcurrent)
    (hload : load processes ≤ maxConcurrent) :
    load (spawn maxConcurrent processes workspaceId pty) ≤ maxConcurrent := by
  unfold spawn
  split
  · exact hload
  next hfree =>
    have := h (by omega)
    have hone : load (processes ++ [⟨workspaceId, pty, .starting, false, none⟩]) =
        load processes + 1 := by
      simp [load, Spawned.holds]
    omega

theorem load_step {a : Action} (hload : load processes ≤ maxConcurrent)
    (h : Admits maxConcurrent processes a) :
    load (step maxConcurrent processes a) ≤ maxConcurrent := by
  by_cases ha : ∃ workspaceId pty, a = .spawn workspaceId pty
  · obtain ⟨workspaceId, pty, rfl⟩ := ha
    exact load_spawn_le workspaceId pty h hload
  · push Not at ha
    exact Nat.le_trans (load_step_le processes ha) hload

/-! ## Starting what was admitted -/

theorem starts_cons (n : Nat) (ns : List Nat) :
    starts maxConcurrent processes (n :: ns) =
      starts maxConcurrent (processes.modify n (·.start)) ns := rfl

theorem holds_start (p : Spawned) : p.start.holds = p.holds := by
  unfold Spawned.start
  split <;> simp_all [Spawned.holds]

theorem load_starts (maxConcurrent : Nat) (processes : List Spawned) (ns : List Nat) :
    load (starts maxConcurrent processes ns) = load processes := by
  induction ns generalizing processes with
  | nil => rfl
  | cons n ns ih => rw [starts_cons, ih, load, countP_modify_eq holds_start, load]

theorem children_starts_le (maxConcurrent : Nat) (processes : List Spawned) (ns : List Nat) :
    children (starts maxConcurrent processes ns) ≤ load processes := by
  rw [← load_starts maxConcurrent processes ns]
  exact children_le_load _

theorem starts_range_succ (maxConcurrent : Nat) (processes : List Spawned) (k : Nat) :
    starts maxConcurrent processes (List.range (k + 1)) =
      (starts maxConcurrent processes (List.range k)).modify k (·.start) := by
  rw [starts, range_succ, map_append, Steps.run_append]
  rfl

theorem length_starts (maxConcurrent : Nat) (processes : List Spawned) (ns : List Nat) :
    (starts maxConcurrent processes ns).length = processes.length := by
  induction ns generalizing processes with
  | nil => rfl
  | cons n ns ih => rw [starts_cons, ih, length_modify]

theorem started_starts (maxConcurrent : Nat) (processes : List Spawned) (k : Nat) :
    ∀ i < k, ∀ p, (starts maxConcurrent processes (List.range k))[i]? = some p →
      p.phase ≠ .starting := by
  induction k with
  | zero =>
    intro i hi
    omega
  | succ k ih =>
    intro i hi p hp
    rw [starts_range_succ, List.getElem?_modify] at hp
    obtain ⟨p', hp', rfl⟩ := Option.map_eq_some_iff.mp hp
    by_cases hik : k = i
    · rw [if_pos hik]
      unfold Spawned.start
      split
      · simp
      · assumption
    · rw [if_neg hik]
      exact ih i (by omega) p' hp'

theorem exists_starts_eq_load (maxConcurrent : Nat) (processes : List Spawned) :
    ∃ ns, children (starts maxConcurrent processes ns) = load processes := by
  refine ⟨List.range processes.length, ?_⟩
  rw [← load_starts maxConcurrent processes (List.range processes.length)]
  refine countP_congr fun p hp => ?_
  obtain ⟨i, hi, rfl⟩ := getElem_of_mem hp
  have hstarted := started_starts maxConcurrent processes processes.length i
    (length_starts maxConcurrent processes _ ▸ hi) _ (List.getElem?_eq_getElem hi)
  simp [Spawned.holds, hstarted]

/-! ## Failed starts -/

theorem failure_uncounted (processes : List Spawned) (a : Action) :
    FailureUncounted maxConcurrent processes a := by
  cases a with
  | fail n =>
    constructor <;>
    · refine countP_modify_eq (fun p => ?_) n processes
      unfold Spawned.fail
      split <;> rfl
  | error n =>
    intro p hp hreg hpty hcount
    refine countP_modify_succ hp hcount ?_
    have hstatus : p.status = some .running := of_decide_eq_true hcount
    simp [Spawned.error, Spawned.counted, hreg, hpty, hstatus]
  | _ => trivial

/-! ## The cap -/

theorem capped_iff (hload : load processes ≤ maxConcurrent) (a : Action) :
    Capped maxConcurrent processes a ↔ Admits maxConcurrent processes a := by
  constructor
  · intro h
    cases a with
    | spawn workspaceId pty =>
      intro hfree
      -- let past the check, the call adds one to the load, and its child may be next
      obtain ⟨ns, hns⟩ := exists_starts_eq_load maxConcurrent
        (step maxConcurrent processes (.spawn workspaceId pty))
      have hcap := h.1 ns
      have hone : load (step maxConcurrent processes (.spawn workspaceId pty)) =
          load processes + 1 := by
        rw [step, spawn, if_neg (by omega)]
        simp [load, Spawned.holds]
      omega
    | _ => trivial
  · intro h
    refine ⟨fun ns => ?_, failure_uncounted processes a⟩
    exact Nat.le_trans (children_starts_le maxConcurrent _ ns) (load_step hload h)

theorem process_cap_iff (maxConcurrent : Nat) (as : List Action) :
    Steps.Along (step maxConcurrent) (Capped maxConcurrent) [] as ↔
      Steps.Along (step maxConcurrent) (Admits maxConcurrent) [] as :=
  Steps.along_iff_of_invariant (fun processes => load processes ≤ maxConcurrent)
    (fun _ _ hload h => load_step hload h) (fun _ a hload => capped_iff hload a) (Nat.zero_le _)

/-- Two calls in one turn of the event loop; a workspace killed and its room used at once. -/
theorem process_cap_exceeded :
    ¬ Steps.Along (step 1) (Capped 1) []
      [.spawn "ws" true, .spawn "ws" true, .start 0, .start 1] ∧
    ¬ Steps.Along (step 1) (Capped 1) []
      [.spawn "ws" true, .start 0, .register 0, .killWorkspace "ws", .spawn "ws" true, .start 1] := by
  constructor
  · intro h
    have hlast := (Steps.along_iff.mp h [.spawn "ws" true, .spawn "ws" true, .start 0] (.start 1) []
      rfl).1 []
    exact absurd hlast (by decide)
  · intro h
    have hlast := (Steps.along_iff.mp h [.spawn "ws" true, .start 0, .register 0,
      .killWorkspace "ws", .spawn "ws" true] (.start 1) [] rfl).1 []
    exact absurd hlast (by decide)

end ProcessManager

end Almyty.Runner
