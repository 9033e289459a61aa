import Almyty.Lib.Steps

/-!
# The downstream's lifecycle: `supervisor.ts`

The supervisor starts a child, starts it again when it exits, and owns a log along with it. What
`start` has acquired is on a ledger of its own until the child is wired up, and on the shared fields
`log` and `downstream` after that; `log` is set before the spawn is waited for.

`supervised` says of every run that stopped is for ever, that nothing is left open or running, and
that nothing is closed or killed twice, provided two things hold at its steps: no start begins while
another one is under way, a child is owned or a respawn is due, and no spawn settles once `stop` was
called. A child that arrives late makes a stopped supervisor run, one that fails late closes the log
again, and of two starts one child and one log are lost (`careless_leaks`).

Mirroring notes:
- A start is one step up to `spawn`, and one from there on: the promise of `spawn` and what follows
  it.
-/

namespace Almyty.Mcp.Supervision

open Almyty.Lib List Option

inductive SupervisorState
  | idle | running | failed | respawning | stopped
  deriving DecidableEq

structure Options where
  openLog : Bool := false
  backoffBaseMs : Nat := 3000
  backoffCapMs : Nat := 30000
  backoffResetAfterMs : Int := 30000

structure Supervisor where
  state : SupervisorState := .idle
  downstream : Option Nat := none
  log : Option Nat := none
  childExited : Bool := false
  reaped : Bool := false
  respawnTimer : Option Nat := none
  backoffMs : Nat
  runStartedAt : Int := 0

structure Start where
  acquired : Option Nat
  respawn : Bool

structure World extends Supervisor where
  starts : List Start := []
  /-- Respawns that failed and whose handler has not run. -/
  rejected : Nat := 0
  spawned : Nat := 0
  exited : List Nat := []
  kills : List Nat := []
  opened : Nat := 0
  closes : List Nat := []
  scheduled : Nat := 0
  timers : List Nat := []

namespace World

def failStart (w : World) (start : Start) : World :=
  { w with
    closes := w.closes ++ start.acquired.toList
    log := none
    downstream := none
    state := .failed
    rejected := if start.respawn then w.rejected + 1 else w.rejected }

def beginStart (opts : Options) (w : World) (respawn opens : Bool) : World :=
  if w.state = .stopped then { w with rejected := if respawn then w.rejected + 1 else w.rejected }
  else if opts.openLog then
    if opens then
      { w with
        log := some w.opened
        opened := w.opened + 1
        starts := w.starts ++ [⟨some w.opened, respawn⟩] }
    else w.failStart ⟨none, respawn⟩
  else { w with starts := w.starts ++ [⟨none, respawn⟩] }

def spawnSucceeds (w : World) (i : Nat) (now : Int) : World :=
  match w.starts[i]? with
  | none => w
  | some _ =>
    { w with
      starts := w.starts.eraseIdx i
      childExited := false
      reaped := false
      spawned := w.spawned + 1
      downstream := some w.spawned
      state := .running
      runStartedAt := now }

def spawnFails (w : World) (i : Nat) : World :=
  match w.starts[i]? with
  | none => w
  | some start => { w with starts := w.starts.eraseIdx i }.failStart start

def reap (w : World) : World :=
  if w.reaped then w
  else
    { w with
      reaped := true
      downstream := none
      kills := if w.childExited then w.kills else w.kills ++ w.downstream.toList }

def releaseLog (w : World) : World :=
  { w with closes := w.closes ++ w.log.toList, log := none }

def scheduleRespawn (opts : Options) (w : World) : World :=
  if w.respawnTimer.isSome ∨ w.state = .stopped then w
  else
    { w with
      state := .respawning
      backoffMs := min opts.backoffCapMs (w.backoffMs * 2)
      respawnTimer := some w.scheduled
      scheduled := w.scheduled + 1
      timers := w.timers ++ [w.scheduled] }

def onChildExit (opts : Options) (w : World) (now : Int) : World :=
  let w := { w with childExited := true }
  if w.state = .stopped then w
  else
    let w := if opts.backoffResetAfterMs ≤ now - w.runStartedAt then
      { w with backoffMs := opts.backoffBaseMs } else w
    ({ w with state := .failed }.reap.releaseLog).scheduleRespawn opts

def childExit (opts : Options) (w : World) (child : Nat) (now : Int) : World :=
  if child < w.spawned ∧ child ∉ w.exited then
    { w with exited := w.exited ++ [child] }.onChildExit opts now
  else w

def fireTimer (opts : Options) (w : World) (timer : Nat) (opens : Bool) : World :=
  if timer ∈ w.timers then
    let w := { w with timers := w.timers.filter (· ≠ timer), respawnTimer := none }
    if w.state = .stopped then w else w.beginStart opts true opens
  else w

def catchRespawn (opts : Options) (w : World) : World :=
  if w.rejected = 0 then w else { w with rejected := w.rejected - 1 }.scheduleRespawn opts

def stop (w : World) : World :=
  if w.state = .stopped then w
  else
    ({ w with
      state := .stopped
      timers := w.timers.filter fun timer => w.respawnTimer ≠ some timer
      respawnTimer := none }.reap).releaseLog

end World

inductive Event
  | start (opens : Bool)
  | stop
  | spawnSucceeds (i : Nat) (now : Int)
  | spawnFails (i : Nat)
  | childExit (child : Nat) (now : Int)
  | timer (timer : Nat) (opens : Bool)
  | catchRespawn
  deriving DecidableEq

def step (opts : Options) (w : World) : Event → World
  | .start opens => w.beginStart opts false opens
  | .stop => w.stop
  | .spawnSucceeds i now => w.spawnSucceeds i now
  | .spawnFails i => w.spawnFails i
  | .childExit child now => w.childExit opts child now
  | .timer timer opens => w.fireTimer opts timer opens
  | .catchRespawn => w.catchRespawn opts

/-- `constructor`. -/
def World.new (opts : Options) : World := { backoffMs := opts.backoffBaseMs }

/-! ## What is said of a run -/

def World.Alive (w : World) (child : Nat) : Prop :=
  child < w.spawned ∧ child ∉ w.exited ∧ child ∉ w.kills

def World.Open (w : World) (log : Nat) : Prop := log < w.opened ∧ log ∉ w.closes

structure Supervised (w w' : World) : Prop where
  /-- Stopped is for ever, and nothing is scheduled any more. -/
  stopped : w.state = .stopped → w'.state = .stopped ∧ w'.scheduled = w.scheduled
  /-- Nothing is left when every spawn has settled. -/
  settled : w'.state = .stopped → w'.starts = [] →
    (∀ child, ¬ w'.Alive child) ∧ ∀ log, ¬ w'.Open log
  timers : w'.timers.length ≤ 1
  closes : w'.closes.Nodup
  kills : w'.kills.Nodup
  /-- No child is killed after it exited. -/
  killed : ∀ child ∈ w'.kills, child ∉ w.kills → child ∉ w.exited
  /-- While running one child and at most one log are owned, and there are no others. -/
  running : w'.state = .running → ∃ child, w'.downstream = some child ∧ w'.Alive child ∧
    (∀ child', w'.Alive child' → child' = child) ∧ ∀ log, w'.Open log → w'.log = some log

def careful (w : World) : Event → Bool
  | .start _ => w.state = .stopped ∨
      w.starts = [] ∧ w.downstream = none ∧ w.timers = [] ∧ w.rejected = 0
  | .spawnSucceeds i _ | .spawnFails i => w.state ≠ .stopped ∨ w.starts.length ≤ i
  | _ => true

/-! ## The ledgers -/

structure Ledgers (w : World) : Prop where
  exited : ∀ child ∈ w.exited, child < w.spawned
  children : ∀ child, w.Alive child → w.downstream = some child
  owned : ∀ child, w.downstream = some child →
    w.state = .running ∧ w.Alive child ∧ w.reaped = false ∧ w.childExited = false
  running : w.state = .running → w.downstream ≠ none
  /-- Only `stop` kills. -/
  kills : w.kills.Nodup ∧ (w.state ≠ .stopped → w.kills = [])
  logs : ∀ log, w.Open log → w.log = some log
  log : ∀ log, w.log = some log → w.Open log
  closes : w.closes.Nodup ∧ ∀ log ∈ w.closes, log < w.opened

structure Single (w : World) : Prop where
  timers : w.timers = w.respawnTimer.toList
  stopped : w.state = .stopped → w.downstream = none ∧ w.log = none ∧ w.timers = []
  one : w.state ≠ .stopped →
    w.starts.length + w.downstream.toList.length + w.timers.length + w.rejected ≤ 1
  acquired : w.state ≠ .stopped → ∀ start ∈ w.starts, start.acquired = w.log
  unowned : w.starts = [] → w.downstream = none → w.log = none

structure Good (w : World) : Prop extends Ledgers w, Single w

theorem good_new (opts : Options) : Good (.new opts) where
  exited _ h := absurd h not_mem_nil
  children _ h := absurd h.1 (Nat.not_lt_zero _)
  owned _ h := by cases h
  running h := by cases h
  kills := ⟨nodup_nil, fun _ => rfl⟩
  logs _ h := absurd h.1 (Nat.not_lt_zero _)
  log _ h := by cases h
  closes := ⟨nodup_nil, fun _ h => absurd h not_mem_nil⟩
  timers := rfl
  stopped h := by cases h
  one _ := Nat.zero_le _
  acquired _ _ h := absurd h not_mem_nil
  unowned _ _ := rfl

variable {opts : Options} {w : World}

theorem Good.no_alive (h : Good w) (hnone : w.downstream = none) (child : Nat) :
    ¬ w.Alive child := by
  intro halive
  have hsome := h.children child halive
  rw [hnone] at hsome
  cases hsome

theorem Good.no_open (h : Good w) (hnone : w.log = none) (log : Nat) : ¬ w.Open log := by
  intro hopen
  have hsome := h.logs log hopen
  rw [hnone] at hsome
  cases hsome

theorem Good.closes_log (h : Good w) :
    (w.closes ++ w.log.toList).Nodup ∧ (∀ log ∈ w.closes ++ w.log.toList, log < w.opened) ∧
      ∀ log < w.opened, log ∈ w.closes ++ w.log.toList := by
  cases hlog : w.log with
  | none =>
    rw [toList_none, append_nil]
    refine ⟨h.closes.1, h.closes.2, ?_⟩
    intro log hlt
    by_contra hnot
    exact h.no_open hlog log ⟨hlt, hnot⟩
  | some own =>
    have hopen := h.log own hlog
    rw [toList_some]
    refine ⟨?_, ?_, ?_⟩
    · refine nodup_append.mpr ⟨h.closes.1, pairwise_singleton _ _, ?_⟩
      intro log hmem log' hmem' heq
      rw [heq, mem_singleton.mp hmem'] at hmem
      exact hopen.2 hmem
    · intro log hmem
      rcases mem_append.mp hmem with hmem | hmem
      · exact h.closes.2 log hmem
      · rw [mem_singleton.mp hmem]
        exact hopen.1
    · intro log hlt
      by_contra hnot
      have hown := h.logs log ⟨hlt, fun hmem => hnot (mem_append_left _ hmem)⟩
      rw [hlog] at hown
      cases hown
      exact hnot (mem_append_right _ mem_cons_self)

theorem Good.failStart (h : Good w) (hstate : w.state ≠ .stopped) (hdown : w.downstream = none)
    (htimers : w.timers = []) (hrejected : w.rejected = 0) {start : Start}
    (hacquired : start.acquired = w.log) :
    Good ({ w with starts := [] }.failStart start) := by
  obtain ⟨hnodup, hlt, hall⟩ := h.closes_log
  rw [World.failStart, hacquired]
  exact {
    exited := h.exited
    children := fun child halive => absurd halive (h.no_alive hdown child)
    owned := fun _ hsome => by cases hsome
    running := fun hrunning => by cases hrunning
    kills := ⟨h.kills.1, fun _ => h.kills.2 hstate⟩
    logs := fun log hopen => absurd (hall log hopen.1) hopen.2
    log := fun _ hsome => by cases hsome
    closes := ⟨hnodup, hlt⟩
    timers := h.timers
    stopped := fun hstopped => by cases hstopped
    one := fun _ => by
      dsimp only
      rw [htimers, hrejected]
      split <;> simp
    acquired := fun _ start hmem => absurd hmem not_mem_nil
    unowned := fun _ _ => rfl }

theorem Good.beginStart (h : Good w) (hstate : w.state ≠ .stopped) (hstarts : w.starts = [])
    (hdown : w.downstream = none) (htimers : w.timers = []) (hrejected : w.rejected = 0)
    (respawn opens : Bool) : Good (w.beginStart opts respawn opens) := by
  have hlog := h.unowned hstarts hdown
  have hnone : ∀ log, ¬ w.Open log := h.no_open hlog
  rw [World.beginStart, if_neg hstate]
  split
  · split
    · exact {
        exited := h.exited
        children := h.children
        owned := h.owned
        running := h.running
        kills := h.kills
        logs := fun log hopen => by
          have hlt : log < w.opened + 1 := hopen.1
          have hnot : ¬ log < w.opened := fun hlt => hnone log ⟨hlt, hopen.2⟩
          dsimp only
          congr 1
          omega
        log := fun log hsome => by
          cases hsome
          refine ⟨Nat.lt_succ_self _, fun hmem => ?_⟩
          exact Nat.lt_irrefl _ (h.closes.2 _ hmem)
        closes := ⟨h.closes.1, fun log hmem => Nat.lt_succ_of_lt (h.closes.2 log hmem)⟩
        timers := h.timers
        stopped := fun hstopped => absurd hstopped hstate
        one := fun _ => by
          dsimp only
          rw [hstarts, hdown, htimers, hrejected]
          simp
        acquired := fun _ start hmem => by
          dsimp only at hmem
          rw [hstarts] at hmem
          rw [mem_singleton.mp hmem]
        unowned := fun hnil => by simp at hnil }
    · have hsame : { w with starts := [] } = w := by rw [← hstarts]
      rw [← hsame]
      exact h.failStart hstate hdown htimers hrejected hlog.symm
  · exact { h with
      one := fun _ => by
        dsimp only
        rw [hstarts, hdown, htimers, hrejected]
        simp
      acquired := fun _ start hmem => by
        dsimp only at hmem
        rw [hstarts] at hmem
        rw [mem_singleton.mp hmem]
        exact hlog.symm
      unowned := fun hnil => by simp at hnil }

theorem Good.of_start (h : Good w) (hstate : w.state ≠ .stopped) {i : Nat} {start : Start}
    (hstart : w.starts[i]? = some start) :
    w.starts.eraseIdx i = [] ∧ w.downstream = none ∧ w.timers = [] ∧ w.rejected = 0 ∧
      start.acquired = w.log := by
  have hone := h.one hstate
  have hmem := List.mem_of_getElem? hstart
  have hpos := length_pos_of_mem hmem
  have hlt : i < w.starts.length := (List.getElem?_eq_some_iff.mp hstart).1
  refine ⟨?_, ?_, ?_, ?_, h.acquired hstate start hmem⟩
  · rw [← length_eq_zero_iff, length_eraseIdx_of_lt hlt]
    omega
  · cases hdown : w.downstream with
    | none => rfl
    | some child =>
      rw [hdown] at hone
      simp only [toList_some, length_singleton] at hone
      omega
  · rw [← length_eq_zero_iff]
    omega
  · omega

theorem Good.of_child (h : Good w) (hstate : w.state ≠ .stopped) {child : Nat}
    (hdown : w.downstream = some child) : w.starts = [] ∧ w.timers = [] ∧ w.rejected = 0 := by
  have hone := h.one hstate
  rw [hdown] at hone
  simp only [toList_some, length_singleton] at hone
  refine ⟨?_, ?_, ?_⟩
  · rw [← length_eq_zero_iff]
    omega
  · rw [← length_eq_zero_iff]
    omega
  · omega

theorem Good.of_timer (h : Good w) {timer : Nat} (hmem : timer ∈ w.timers) :
    w.state ≠ .stopped ∧ w.timers = [timer] ∧ w.starts = [] ∧ w.downstream = none ∧
      w.rejected = 0 := by
  have hstate : w.state ≠ .stopped := by
    intro hstopped
    rw [(h.stopped hstopped).2.2] at hmem
    cases hmem
  have htimers : w.timers = [timer] := by
    have htimers := h.timers
    cases htimer : w.respawnTimer with
    | none =>
      rw [htimers, htimer] at hmem
      cases hmem
    | some own =>
      rw [htimer, toList_some] at htimers
      rw [htimers] at hmem
      rw [htimers, mem_singleton.mp hmem]
  have hone := h.one hstate
  rw [htimers, length_singleton] at hone
  refine ⟨hstate, htimers, ?_, ?_, ?_⟩
  · rw [← length_eq_zero_iff]
    omega
  · cases hdown : w.downstream with
    | none => rfl
    | some child =>
      -- a child beside the timer would make two
      rw [hdown] at hone
      simp only [toList_some, length_singleton] at hone
      omega
  · omega

theorem Good.spawnSucceeds (h : Good w) (i : Nat) (now : Int)
    (hstate : w.state ≠ .stopped ∨ w.starts.length ≤ i) : Good (w.spawnSucceeds i now) := by
  unfold World.spawnSucceeds
  split
  · exact h
  next start hstart =>
    have hlt : i < w.starts.length := (List.getElem?_eq_some_iff.mp hstart).1
    have hstate := hstate.resolve_right (by omega)
    obtain ⟨hnil, hdown, htimers, hrejected, hacquired⟩ := h.of_start hstate hstart
    have hkills := h.kills.2 hstate
    exact {
      exited := fun child hmem => Nat.lt_succ_of_lt (h.exited child hmem)
      children := fun child halive => by
        have hlt : child < w.spawned + 1 := halive.1
        have hnot : ¬ child < w.spawned := fun hlt =>
          h.no_alive hdown child ⟨hlt, halive.2⟩
        dsimp only
        congr 1
        omega
      owned := fun child hsome => by
        cases hsome
        refine ⟨rfl, ⟨Nat.lt_succ_self _, fun hmem => ?_, fun hmem => ?_⟩, rfl, rfl⟩
        · exact Nat.lt_irrefl _ (h.exited _ hmem)
        · dsimp only at hmem
          rw [hkills] at hmem
          cases hmem
      running := fun _ => nofun
      kills := ⟨h.kills.1, fun _ => hkills⟩
      logs := h.logs
      log := h.log
      closes := h.closes
      timers := h.timers
      stopped := fun hstopped => by cases hstopped
      one := fun _ => by
        dsimp only
        rw [hnil, htimers, hrejected]
        simp
      acquired := fun _ start hmem => by
        dsimp only at hmem
        rw [hnil] at hmem
        cases hmem
      unowned := fun _ hnone => by cases hnone }

theorem Good.spawnFails (h : Good w) (i : Nat) (hstate : w.state ≠ .stopped ∨ w.starts.length ≤ i) :
    Good (w.spawnFails i) := by
  unfold World.spawnFails
  split
  · exact h
  next start hstart =>
    have hlt : i < w.starts.length := (List.getElem?_eq_some_iff.mp hstart).1
    have hstate := hstate.resolve_right (by omega)
    obtain ⟨hnil, hdown, htimers, hrejected, hacquired⟩ := h.of_start hstate hstart
    rw [hnil]
    exact h.failStart hstate hdown htimers hrejected hacquired

theorem Good.scheduleRespawn (h : Good w) (hstarts : w.state ≠ .stopped → w.starts = [])
    (hdown : w.downstream = none) (htimers : w.timers = [])
    (hrejected : w.state ≠ .stopped → w.rejected = 0) : Good (w.scheduleRespawn opts) := by
  unfold World.scheduleRespawn
  have hnone : w.respawnTimer = none := by
    have heq := h.timers
    rw [htimers] at heq
    cases htimer : w.respawnTimer with
    | none => rfl
    | some timer =>
      rw [htimer] at heq
      cases heq
  split
  · exact h
  next hnot =>
    have hstate : w.state ≠ .stopped := fun hstopped => hnot (.inr hstopped)
    exact {
      exited := h.exited
      children := h.children
      owned := fun child hsome => by
        dsimp only at hsome
        rw [hdown] at hsome
        cases hsome
      running := fun hrunning => by cases hrunning
      kills := ⟨h.kills.1, fun _ => h.kills.2 hstate⟩
      logs := h.logs
      log := h.log
      closes := h.closes
      timers := by
        dsimp only
        rw [htimers]
        rfl
      stopped := fun hstopped => by cases hstopped
      one := fun _ => by
        dsimp only
        rw [hstarts hstate, hdown, htimers, hrejected hstate]
        simp
      acquired := fun _ start hmem => by
        dsimp only at hmem
        rw [hstarts hstate] at hmem
        cases hmem
      unowned := h.unowned }

theorem Good.catchRespawn (h : Good w) : Good (w.catchRespawn opts) := by
  unfold World.catchRespawn
  split
  · exact h
  next hpos =>
    have hless : Good { w with rejected := w.rejected - 1 } :=
      { h with
        one := fun hstate => by
          have hone := h.one hstate
          dsimp only
          omega }
    by_cases hstate : w.state = .stopped
    · obtain ⟨hdown, -, htimers⟩ := h.stopped hstate
      exact hless.scheduleRespawn (fun hnot => absurd hstate hnot) hdown htimers
        fun hnot => absurd hstate hnot
    · have hone := h.one hstate
      have hdown : w.downstream = none := by
        cases hdown : w.downstream with
        | none => rfl
        | some child =>
          rw [hdown] at hone
          simp only [toList_some, length_singleton] at hone
          omega
      refine hless.scheduleRespawn (fun _ => ?_) hdown ?_ fun _ => ?_
      · rw [← length_eq_zero_iff]
        dsimp only
        omega
      · rw [← length_eq_zero_iff]
        dsimp only
        omega
      · dsimp only
        omega

theorem Good.fireTimer (h : Good w) (timer : Nat) (opens : Bool) :
    Good (w.fireTimer opts timer opens) := by
  unfold World.fireTimer
  split
  next hmem =>
    obtain ⟨hstate, htimers, hstarts, hdown, hrejected⟩ := h.of_timer hmem
    have hnil : w.timers.filter (· ≠ timer) = [] := by
      rw [htimers]
      simp
    dsimp only
    rw [if_neg hstate, hnil]
    have hfired : Good { w with timers := [], respawnTimer := none } :=
      { h with
        timers := rfl
        stopped := fun hstopped => absurd hstopped hstate
        one := fun _ => by
          dsimp only
          rw [hstarts, hdown, hrejected]
          simp }
    exact hfired.beginStart hstate hstarts hdown rfl hrejected true opens
  next => exact h

theorem Good.childExit (h : Good w) (child : Nat) (now : Int) :
    Good (w.childExit opts child now) := by
  unfold World.childExit
  split
  next hexit =>
    obtain ⟨hlt, hnot⟩ := hexit
    have hexited : ∀ c ∈ w.exited ++ [child], c < w.spawned := by
      intro c hmem
      rcases mem_append.mp hmem with hmem | hmem
      · exact h.exited c hmem
      · rw [mem_singleton.mp hmem]
        exact hlt
    have hstill : ∀ c, c < w.spawned ∧ c ∉ w.exited ++ [child] ∧ c ∉ w.kills →
        w.Alive c ∧ c ≠ child := by
      intro c ⟨hc, hnot, hkills⟩
      refine ⟨⟨hc, fun hmem => hnot (mem_append_left _ hmem), hkills⟩, ?_⟩
      rintro rfl
      exact hnot (mem_append_right _ mem_cons_self)
    unfold World.onChildExit
    by_cases hstate : w.state = .stopped
    · -- the child was killed, and nothing is started again
      have hnone := (h.stopped hstate).1
      dsimp only
      rw [if_pos hstate]
      exact { h with
        exited := hexited
        children := fun c halive => absurd (hstill c halive).1 (h.no_alive hnone c)
        owned := fun c hsome => by
          dsimp only at hsome
          rw [hnone] at hsome
          cases hsome }
    · have hkills := h.kills.2 hstate
      have halive : w.Alive child := ⟨hlt, hnot, by rw [hkills]; exact not_mem_nil⟩
      have hdown := h.children child halive
      obtain ⟨-, -, hreaped, -⟩ := h.owned child hdown
      obtain ⟨hstarts, htimers, hrejected⟩ := h.of_child hstate hdown
      obtain ⟨hnodup, hclosed, hall⟩ := h.closes_log
      -- what is left of the child and its log, whatever the backoff is set to
      have hreleased : ∀ backoffMs, Good { w with
          exited := w.exited ++ [child]
          childExited := true
          backoffMs := backoffMs
          state := .failed
          reaped := true
          downstream := none
          closes := w.closes ++ w.log.toList
          log := none } := fun backoffMs =>
        { exited := hexited
          children := fun c halive => by
            obtain ⟨halive, hne⟩ := hstill c halive
            have hc := h.children c halive
            rw [hdown] at hc
            exact absurd (some.inj hc).symm hne
          owned := fun _ hsome => by cases hsome
          running := fun hrunning => by cases hrunning
          kills := ⟨h.kills.1, fun _ => hkills⟩
          logs := fun log hopen => absurd (hall log hopen.1) hopen.2
          log := fun _ hsome => by cases hsome
          closes := ⟨hnodup, hclosed⟩
          timers := h.timers
          stopped := fun hstopped => by cases hstopped
          one := fun _ => by
            dsimp only
            rw [hstarts, htimers, hrejected]
            simp
          acquired := fun _ start hmem => by
            dsimp only at hmem
            rw [hstarts] at hmem
            cases hmem
          unowned := fun _ _ => rfl }
      have hrespawn := fun backoffMs => @Good.scheduleRespawn opts _ (hreleased backoffMs)
        (fun _ => hstarts) rfl htimers (fun _ => hrejected)
      dsimp only
      rw [if_neg hstate]
      split
      · rw [World.reap, if_neg (by rw [hreaped]; decide)]
        exact hrespawn opts.backoffBaseMs
      · rw [World.reap, if_neg (by rw [hreaped]; decide)]
        exact hrespawn w.backoffMs
  next => exact h

theorem Good.reap_stopped (h : Good w) (hstate : w.state ≠ .stopped) :
    ∃ reaped, ({ w with
      state := .stopped
      timers := w.timers.filter fun timer => w.respawnTimer ≠ some timer
      respawnTimer := none } : World).reap =
    { w with
      state := .stopped
      timers := []
      respawnTimer := none
      reaped := reaped
      downstream := none
      kills := w.downstream.toList } := by
  have htimers : w.timers.filter (fun timer => w.respawnTimer ≠ some timer) = [] := by
    rw [h.timers]
    cases w.respawnTimer <;> simp
  have hkills := h.kills.2 hstate
  rw [htimers]
  cases hdown : w.downstream with
  | none =>
    unfold World.reap
    split
    · refine ⟨w.reaped, ?_⟩
      simp only [hkills, toList_none]
    · refine ⟨true, ?_⟩
      dsimp only
      rw [hkills]
      split <;> rfl
  | some child =>
    obtain ⟨-, -, hreaped, hexited⟩ := h.owned child hdown
    refine ⟨true, ?_⟩
    rw [World.reap, if_neg (by dsimp only; rw [hreaped]; decide)]
    dsimp only
    rw [hkills, if_neg (by rw [hexited]; decide)]
    rfl

theorem Good.stop (h : Good w) : Good w.stop := by
  unfold World.stop
  split
  · exact h
  next hstate =>
    obtain ⟨reaped, hreap⟩ := h.reap_stopped hstate
    obtain ⟨hnodup, hclosed, hall⟩ := h.closes_log
    have hkills := h.kills.2 hstate
    rw [hreap, World.releaseLog]
    exact {
      exited := h.exited
      children := fun child halive => by
        obtain ⟨hlt, hexited, hnot⟩ := halive
        dsimp only at hlt hexited hnot
        have hdown := h.children child ⟨hlt, hexited, by rw [hkills]; exact not_mem_nil⟩
        rw [hdown] at hnot
        exact absurd mem_cons_self hnot
      owned := fun _ hsome => by cases hsome
      running := fun hrunning => by cases hrunning
      kills := ⟨by dsimp only; cases w.downstream <;> simp, fun hnot => absurd rfl hnot⟩
      logs := fun log hopen => absurd (hall log hopen.1) hopen.2
      log := fun _ hsome => by cases hsome
      closes := ⟨hnodup, hclosed⟩
      timers := rfl
      stopped := fun _ => ⟨rfl, rfl, rfl⟩
      one := fun hnot => absurd rfl hnot
      acquired := fun hnot => absurd rfl hnot
      unowned := fun _ _ => rfl }

variable {event : Event}

theorem Good.step (h : Good w) (hcareful : careful w event = true) : Good (step opts w event) := by
  cases event with
  | start opens =>
    by_cases hstate : w.state = .stopped
    · rw [Supervision.step, World.beginStart, if_pos hstate]
      exact h
    · obtain ⟨hstarts, hdown, htimers, hrejected⟩ :=
        (of_decide_eq_true hcareful).resolve_left hstate
      exact h.beginStart hstate hstarts hdown htimers hrejected false opens
  | stop => exact h.stop
  | spawnSucceeds i now => exact h.spawnSucceeds i now (of_decide_eq_true hcareful)
  | spawnFails i => exact h.spawnFails i (of_decide_eq_true hcareful)
  | childExit child now => exact h.childExit child now
  | timer timer opens => exact h.fireTimer timer opens
  | catchRespawn => exact h.catchRespawn

/-! ## Stopped is for ever -/

structure StaysStopped (w w' : World) : Prop where
  state : w'.state = .stopped
  scheduled : w'.scheduled = w.scheduled
  kills : w'.kills = w.kills

theorem stays_stopped (h : Good w) (hcareful : careful w event = true) (hstate : w.state = .stopped)
   : StaysStopped w (step opts w event) := by
  have hsame : StaysStopped w w := ⟨hstate, rfl, rfl⟩
  cases event with
  | start opens =>
    rw [step, World.beginStart, if_pos hstate]
    exact hsame
  | stop =>
    rw [step, World.stop, if_pos hstate]
    exact hsame
  | spawnSucceeds i now =>
    have hnone : w.starts[i]? = none := by
      rw [List.getElem?_eq_none_iff]
      exact (of_decide_eq_true hcareful).resolve_left fun hnot => hnot hstate
    rw [step, World.spawnSucceeds, hnone]
    exact hsame
  | spawnFails i =>
    have hnone : w.starts[i]? = none := by
      rw [List.getElem?_eq_none_iff]
      exact (of_decide_eq_true hcareful).resolve_left fun hnot => hnot hstate
    rw [step, World.spawnFails, hnone]
    exact hsame
  | childExit child now =>
    rw [step, World.childExit]
    split
    · rw [World.onChildExit]
      dsimp only
      rw [if_pos hstate]
      exact ⟨hstate, rfl, rfl⟩
    · exact hsame
  | timer timer opens =>
    have hnone : timer ∉ w.timers := by
      rw [(h.stopped hstate).2.2]
      exact not_mem_nil
    rw [step, World.fireTimer, if_neg hnone]
    exact hsame
  | catchRespawn =>
    rw [step, World.catchRespawn]
    split
    · exact hsame
    · rw [World.scheduleRespawn, if_pos (.inr hstate)]
      exact ⟨hstate, rfl, rfl⟩

theorem beginStart_state (hstate : w.state ≠ .stopped) (respawn opens : Bool) :
    (w.beginStart opts respawn opens).state ≠ .stopped := by
  rw [World.beginStart, if_neg hstate]
  split
  · split
    · exact hstate
    · exact nofun
  · exact hstate

theorem scheduleRespawn_state (hstate : w.state ≠ .stopped) :
    (w.scheduleRespawn opts).state ≠ .stopped := by
  rw [World.scheduleRespawn]
  split
  · exact hstate
  · exact nofun

theorem only_stop_stops (hstate : w.state ≠ .stopped) (hevent : event ≠ .stop) :
    (step opts w event).state ≠ .stopped := by
  cases event with
  | start opens => exact beginStart_state hstate _ _
  | stop => exact absurd rfl hevent
  | spawnSucceeds i now =>
    rw [step, World.spawnSucceeds]
    split
    · exact hstate
    · exact nofun
  | spawnFails i =>
    rw [step, World.spawnFails]
    split
    · exact hstate
    · exact nofun
  | childExit child now =>
    rw [step, World.childExit]
    split
    · rw [World.onChildExit]
      dsimp only
      rw [if_neg hstate]
      refine scheduleRespawn_state ?_
      rw [World.releaseLog, World.reap]
      dsimp only
      repeat' split
      all_goals exact nofun
    · exact hstate
  | timer timer opens =>
    rw [step, World.fireTimer]
    split
    · dsimp only
      rw [if_neg hstate]
      refine beginStart_state ?_ _ _
      exact hstate
    · exact hstate
  | catchRespawn =>
    rw [step, World.catchRespawn]
    split
    · exact hstate
    · exact scheduleRespawn_state hstate

theorem Good.killed (h : Good w) (hcareful : careful w event = true) {child : Nat}
    (hkilled : child ∈ (Supervision.step opts w event).kills) (hnew : child ∉ w.kills) :
    child ∉ w.exited := by
  by_cases hstate : w.state = .stopped
  · rw [(stays_stopped h hcareful hstate).kills] at hkilled
    exact absurd hkilled hnew
  · by_cases hevent : event = .stop
    · obtain ⟨reaped, hreap⟩ := h.reap_stopped hstate
      rw [hevent, Supervision.step, World.stop, if_neg hstate, hreap, World.releaseLog] at hkilled
      have hdown : w.downstream = some child := mem_toList.mp hkilled
      exact (h.owned child hdown).2.1.2.1
    · have h' : Good (Supervision.step opts w event) := h.step hcareful
      have hkills := h'.kills.2 (only_stop_stops hstate hevent)
      rw [hkills] at hkilled
      cases hkilled

theorem Good.step_supervised (h : Good w) (hcareful : careful w event = true) :
    Supervised w (Supervision.step opts w event) := by
  have h' : Good (Supervision.step opts w event) := h.step hcareful
  constructor
  · intro hstate
    have hstays : StaysStopped w (Supervision.step opts w event) := stays_stopped h hcareful hstate
    exact ⟨hstays.state, hstays.scheduled⟩
  · intro hstate _
    obtain ⟨hdown, hlog, -⟩ := h'.stopped hstate
    exact ⟨h'.no_alive hdown, h'.no_open hlog⟩
  · rw [h'.timers]
    exact length_toList_le
  · exact h'.closes.1
  · exact h'.kills.1
  · intro child hkilled hnew
    exact h.killed hcareful hkilled hnew
  · intro hstate
    obtain ⟨child, hdown⟩ := ne_none_iff_exists'.mp (h'.running hstate)
    refine ⟨child, hdown, (h'.owned child hdown).2.1, ?_, h'.logs⟩
    intro child' halive
    have hdown' := h'.children child' halive
    rw [hdown] at hdown'
    exact (some.inj hdown').symm

/-! ## Any run -/

theorem supervised (opts : Options) (events : List Event)
    (h : Steps.Along (step opts) (fun w event => careful w event = true) (.new opts) events) :
    Steps.Along (step opts) (fun w event => Supervised w (step opts w event)) (.new opts) events :=
  Steps.along_of_invariant Good (fun _ _ hgood hcareful => hgood.step hcareful)
    (fun _ _ hgood hcareful => hgood.step_supervised hcareful) (good_new opts) h

/-- A child that exits is started again, and then all is stopped. -/
theorem supervised_respawn :
    Steps.Along (step { openLog := true })
      (fun w event => Supervised w (step { openLog := true } w event)) (.new { openLog := true })
      [.start true, .spawnSucceeds 0 0, .childExit 0 100, .timer 0 true, .spawnFails 0,
        .catchRespawn, .timer 1 true, .spawnSucceeds 0 9000, .stop, .childExit 1 9001] :=
  supervised _ _ (by decide)

theorem careless_leaks :
    ¬ Steps.Along (step { openLog := true })
        (fun w event => Supervised w (step { openLog := true } w event)) (.new { openLog := true })
        [.start true, .stop, .spawnSucceeds 0 0] ∧
    ¬ Steps.Along (step { openLog := true })
        (fun w event => Supervised w (step { openLog := true } w event)) (.new { openLog := true })
        [.start true, .stop, .spawnFails 0] ∧
    ¬ Steps.Along (step { openLog := true })
        (fun w event => Supervised w (step { openLog := true } w event)) (.new { openLog := true })
        [.start true, .spawnSucceeds 0 0, .start true, .spawnSucceeds 0 1, .stop] := by
  refine ⟨?_, ?_, ?_⟩
  · intro h
    exact absurd (h.2.2.1.stopped rfl).1 (by decide)
  · intro h
    exact absurd h.2.2.1.closes (by decide)
  · intro h
    have hleft := (h.2.2.2.2.1.settled rfl rfl).1 0
    exact hleft ⟨by decide, by decide, by decide⟩

end Almyty.Mcp.Supervision
