import Almyty.Runs.Lease

/-!
# What the lease guarantees

The history of a run of the system is a legal history of a fenced lease (`Almyty.Lib.Lease`), and
the row's `leaseOwner` is its holder: that is `LeaseInv`, kept by every action (`inv_step`).
-/

namespace Almyty.Runs

open Almyty.Lib Option

/-! ## What a write does to the lease -/

structure LeaseColumns where
  owner : Option String
  expiresAt : Option Time
  attempt : Nat
  takeovers : Nat

def AgentRun.lease (row : AgentRun) : LeaseColumns :=
  ⟨row.leaseOwner, row.leaseExpiresAt, row.attempt, row.takeovers⟩

def RunChange.onLease (asked : RunChange) (l : LeaseColumns) : LeaseColumns :=
  ⟨asked.leaseOwner.getD l.owner, asked.leaseExpiresAt.getD l.expiresAt,
    asked.attempt.getD l.attempt, asked.takeovers.getD l.takeovers⟩

theorem onLease_withWake (now : Time) (asked : RunChange) (l : LeaseColumns) :
    (withWake now asked).onLease l = asked.onLease l := by
  unfold withWake
  split <;> rfl

theorem applyTo_lease (asked : RunChange) (row : AgentRun) :
    (asked.applyTo row).lease = asked.onLease row.lease := rfl

theorem written_isSome_iff (store : RunStore) (w : RunWrite) :
    (store.written w).isSome = true ↔ store.Commits w := by
  unfold RunStore.written RunStore.Commits
  constructor
  · intro h
    cases hr : writeRun store w with
    | error e => rw [hr] at h; cases h
    | ok r =>
      obtain ⟨store', next⟩ := r
      rw [hr] at h
      cases next with
      | none => cases h
      | some row => exact ⟨store', row, rfl⟩
  · rintro ⟨store', next, h⟩
    rw [h]
    rfl

variable {store : RunStore}

variable {w : RunWrite}

theorem commits_lease (h : store.Commits w) :
    ∃ asked, w.where' store.row = true ∧ w.change store.row = some asked ∧
      (store.write w).row.lease = asked.onLease store.row.lease := by
  rcases commits_cases h with ⟨asked, ha, -, heq⟩ | ⟨asked, ha, -, heq⟩
  · refine ⟨asked, (asked_eq_some ha).1, (asked_eq_some ha).2, ?_⟩
    rw [heq]
    rfl
  · refine ⟨asked, (asked_eq_some ha).1, (asked_eq_some ha).2, ?_⟩
    rw [heq]
    show ((withWake w.now asked).applyTo store.row).lease = _
    rw [applyTo_lease, onLease_withWake]

theorem RunChange.KeepsLease.onLease {asked : RunChange} (h : asked.KeepsLease)
    (l : LeaseColumns) : asked.onLease l = l := by
  unfold RunChange.onLease
  rw [h.leaseOwner, h.leaseExpiresAt, h.attempt, h.takeovers]
  rfl

theorem stateWrite_lease (w : StateWrite) (guard : AgentRun → Bool) (store : RunStore) :
    (store.write { w.write with where' := guard }).row.lease = store.row.lease := by
  by_cases hc : store.Commits { w.write with where' := guard }
  · obtain ⟨asked, -, ha, hl⟩ := commits_lease hc
    rw [hl, (w.keepsLease _ _ ha).onLease]
  · rw [write_eq_self hc]

/-! ## Histories -/

def LeaseEvent.abs : LeaseEvent → Lease.Event String
  | .claimed token prior _ => .acquire token prior
  | .stopped _ prior => .drop prior
  | .released token => .drop token
  | .renewed token | .wrote token | .committed token => .write token

def LeaseEvent.isTakeover : LeaseEvent → Bool
  | .claimed _ _ takenOver => takenOver
  | .stopped .. => true
  | _ => false

def LeaseEvent.startsOver : LeaseEvent → Bool
  | .claimed _ _ takenOver => takenOver
  | _ => false

def LeaseEvent.isCommit : LeaseEvent → Bool
  | .committed _ => true
  | _ => false

def startedOver (h : List LeaseEvent) : Nat :=
  (h.takeWhile fun e => !e.isCommit).countP LeaseEvent.startsOver

theorem startedOver_cons (e : LeaseEvent) (h : List LeaseEvent) :
    startedOver (e :: h) =
      if e.isCommit then 0 else startedOver h + if e.startsOver then 1 else 0 := by
  unfold startedOver
  rw [List.takeWhile_cons]
  cases hc : e.isCommit with
  | true => rfl
  | false => simp [List.countP_cons]

/-! ## The invariant -/

structure LeaseInv (row₀ : AgentRun) (s : LeaseState) : Prop where
  owner : s.store.row.leaseOwner = Lease.holder row₀.leaseOwner (s.history.map LeaseEvent.abs)
  legal : Lease.Legal row₀.leaseOwner (s.history.map LeaseEvent.abs)
  known : ∀ t ∈ Lease.held row₀.leaseOwner (s.history.map LeaseEvent.abs),
    row₀.leaseOwner = some t ∨ s.granted t = true
  called : ∀ t, s.calls t ≠ .idle → t ≠ "" ∧ row₀.leaseOwner ≠ some t
  expires : ∀ t, leased s.store.row = some t → s.store.row.leaseExpiresAt ≠ none
  attempt : s.store.row.attempt = row₀.attempt + s.history.countP LeaseEvent.isTakeover
  takeovers : startedOver s.history ≤ s.store.row.takeovers
  lapsed : ∀ t c before, s.calls t = .lapsed c before → c.token = t ∧
    before.leaseOwner ∈ Lease.held row₀.leaseOwner (s.history.map LeaseEvent.abs) ∧
    (s.store.row.leaseOwner = some before.leaseOwner →
      before.attempt = s.store.row.attempt ∧ startedOver s.history ≤ before.takeovers)

def LeaseState.Fresh (row₀ : AgentRun) (s : LeaseState) : LeaseAction → Prop
  | .probe c => s.calls c.token = .idle ∧ row₀.leaseOwner ≠ some c.token
  | _ => True

theorem token_ne_empty (c : ClaimCall) : c.token ≠ "" := by
  unfold ClaimCall.token newLeaseToken
  intro h
  have hlen := congrArg String.length h
  simp [String.length_append] at hlen

theorem granted_ne_idle {s : LeaseState} {t : String} (h : s.granted t = true) :
    s.calls t ≠ .idle := by
  intro hi
  unfold LeaseState.granted at h
  rw [hi] at h
  cases h

/-! ## The invariant holds -/

variable {row₀ : AgentRun} {s : LeaseState}

theorem LeaseInv.of_store (h : LeaseInv row₀ s) (hl : store.row.lease = s.store.row.lease) :
    LeaseInv row₀ { s with store } := by
  have howner : store.row.leaseOwner = s.store.row.leaseOwner := congrArg LeaseColumns.owner hl
  have hexp : store.row.leaseExpiresAt = s.store.row.leaseExpiresAt :=
    congrArg LeaseColumns.expiresAt hl
  have hattempt : store.row.attempt = s.store.row.attempt := congrArg LeaseColumns.attempt hl
  have htake : store.row.takeovers = s.store.row.takeovers := congrArg LeaseColumns.takeovers hl
  refine ⟨howner.trans h.owner, h.legal, h.known, h.called, ?_, hattempt.trans h.attempt, ?_, ?_⟩
  · intro t ht
    rw [leased, howner] at ht
    show store.row.leaseExpiresAt ≠ none
    rw [hexp]
    exact h.expires t ht
  · show startedOver s.history ≤ store.row.takeovers
    rw [htake]
    exact h.takeovers
  · intro t c before hc
    show _ ∧ _ ∧ (store.row.leaseOwner = _ → before.attempt = store.row.attempt ∧ _)
    rw [howner, hattempt]
    exact h.lapsed t c before hc

variable {token : String}

theorem LeaseInv.of_phase (h : LeaseInv row₀ s) {phase : ClaimPhase}
    (hnew : s.granted token = false) (htoken : token ≠ "" ∧ row₀.leaseOwner ≠ some token)
    (hphase : ∀ c before, phase = .lapsed c before → c.token = token ∧
      before.leaseOwner ∈ Lease.held row₀.leaseOwner (s.history.map LeaseEvent.abs) ∧
      (s.store.row.leaseOwner = some before.leaseOwner →
        before.attempt = s.store.row.attempt ∧ startedOver s.history ≤ before.takeovers)) :
    LeaseInv row₀ { s with calls := setPhase s.calls token phase } := by
  refine ⟨h.owner, h.legal, ?_, ?_, h.expires, h.attempt, h.takeovers, ?_⟩
  · intro t ht
    rcases h.known t ht with h0 | hg
    · exact Or.inl h0
    · refine Or.inr ?_
      have hne : t ≠ token := fun he => by rw [he, hnew] at hg; cases hg
      unfold LeaseState.granted at hg ⊢
      simp only [setPhase, if_neg hne]
      exact hg
  · intro t ht
    by_cases he : t = token
    · rw [he]; exact htoken
    · simp only [setPhase, if_neg he] at ht
      exact h.called t ht
  · intro t c before hc
    by_cases he : t = token
    · simp only [setPhase, if_pos he] at hc
      rw [he]
      exact hphase c before hc
    · simp only [setPhase, if_neg he] at hc
      exact h.lapsed t c before hc

theorem LeaseInv.of_granted (h : LeaseInv row₀ s) {takenOver : Bool} {expiresAt : Time}
    {attempt : Nat} (hnew : s.granted token = false)
    (htoken : token ≠ "" ∧ row₀.leaseOwner ≠ some token)
    (howner : store.row.leaseOwner = some token) (hexpires : store.row.leaseExpiresAt ≠ none)
    (hattempt : store.row.attempt = s.store.row.attempt + if takenOver then 1 else 0)
    (htakeovers : startedOver s.history + (if takenOver then 1 else 0) ≤ store.row.takeovers) :
    LeaseInv row₀
      { store
        calls := setPhase s.calls token (.returned (.claimed token expiresAt attempt takenOver))
        history := .claimed token s.store.row.leaseOwner takenOver :: s.history } := by
  have hfresh : token ∉ Lease.held row₀.leaseOwner (s.history.map LeaseEvent.abs) := by
    intro hmem
    rcases h.known token hmem with h0 | hg
    · exact htoken.2 h0
    · rw [hnew] at hg; cases hg
  refine ⟨howner, ⟨h.owner, hfresh, h.legal⟩, ?_, ?_, fun _ _ => hexpires, ?_, ?_, ?_⟩
  · intro t ht
    rcases List.mem_cons.mp ht with rfl | ht
    · right
      simp [LeaseState.granted, setPhase]
    · rcases h.known t ht with h0 | hg
      · exact Or.inl h0
      · refine Or.inr ?_
        have hne : t ≠ token := fun he => hfresh (he ▸ ht)
        unfold LeaseState.granted at hg ⊢
        simp only [setPhase, if_neg hne]
        exact hg
  · intro t ht
    by_cases he : t = token
    · rw [he]; exact htoken
    · simp only [setPhase, if_neg he] at ht
      exact h.called t ht
  · rw [hattempt, h.attempt, List.countP_cons, Nat.add_assoc]
    rfl
  · rw [startedOver_cons]
    exact htakeovers
  · intro t c before hc
    by_cases he : t = token
    · simp only [setPhase, if_pos he] at hc
      cases hc
    · simp only [setPhase, if_neg he] at hc
      obtain ⟨htok, hheld, -⟩ := h.lapsed t c before hc
      refine ⟨htok, List.mem_cons_of_mem _ hheld, fun hown => ?_⟩
      -- the lease a waiting claim remembers is not the new one
      rw [howner] at hown
      exact absurd (some.inj hown ▸ hheld) hfresh

theorem LeaseInv.of_dropped (h : LeaseInv row₀ s) {owner : String} (event : LeaseEvent)
    (hold : s.store.row.leaseOwner = some owner) (habs : event.abs = .drop owner)
    (howner : store.row.leaseOwner = none)
    (hattempt : store.row.attempt = s.store.row.attempt + if event.isTakeover then 1 else 0)
    (htakeovers : startedOver (event :: s.history) ≤ store.row.takeovers) :
    LeaseInv row₀ { store, calls := s.calls, history := event :: s.history } := by
  have hheld : Lease.held row₀.leaseOwner ((event :: s.history).map LeaseEvent.abs) =
      Lease.held row₀.leaseOwner (s.history.map LeaseEvent.abs) := by
    rw [List.map_cons, habs]
    rfl
  refine ⟨?_, ?_, ?_, h.called, ?_, ?_, htakeovers, ?_⟩
  · rw [List.map_cons, habs]
    exact howner
  · rw [List.map_cons, habs]
    exact ⟨h.owner ▸ hold, h.legal⟩
  · intro t ht
    rw [hheld] at ht
    exact h.known t ht
  · intro t ht
    rw [leased, howner] at ht
    cases ht
  · rw [hattempt, h.attempt, List.countP_cons, Nat.add_assoc]
  · intro t c before hc
    obtain ⟨htok, hmem, -⟩ := h.lapsed t c before hc
    refine ⟨htok, ?_, fun hown => ?_⟩
    · rw [hheld]; exact hmem
    · rw [howner] at hown
      cases hown

variable {event : LeaseEvent}

theorem LeaseInv.of_wrote (h : LeaseInv row₀ s) (hold : s.store.row.leaseOwner = some token)
    (habs : event.abs = .write token) (hstarts : event.startsOver = false)
    (howner : store.row.leaseOwner = some token) (hexpires : store.row.leaseExpiresAt ≠ none)
    (hattempt : store.row.attempt = s.store.row.attempt)
    (htakeovers : event.isCommit = false → store.row.takeovers = s.store.row.takeovers) :
    LeaseInv row₀ { store, calls := s.calls, history := event :: s.history } := by
  have hheld : Lease.held row₀.leaseOwner ((event :: s.history).map LeaseEvent.abs) =
      Lease.held row₀.leaseOwner (s.history.map LeaseEvent.abs) := by
    rw [List.map_cons, habs]
    rfl
  have htake : event.isTakeover = false := by
    cases event <;> simp_all [LeaseEvent.abs, LeaseEvent.isTakeover]
  have hle : startedOver (event :: s.history) ≤ startedOver s.history := by
    rw [startedOver_cons, hstarts]
    split <;> simp
  refine ⟨?_, ?_, ?_, h.called, fun _ _ => hexpires, ?_, ?_, ?_⟩
  · rw [List.map_cons, habs, howner, ← hold]
    exact h.owner
  · rw [List.map_cons, habs]
    exact ⟨h.owner ▸ hold, h.legal⟩
  · intro t ht
    rw [hheld] at ht
    exact h.known t ht
  · rw [hattempt, h.attempt, List.countP_cons, htake]
    rfl
  · cases hc : event.isCommit with
    | true => rw [startedOver_cons, hc]; exact Nat.zero_le _
    | false =>
      show startedOver (event :: s.history) ≤ store.row.takeovers
      rw [htakeovers hc]
      exact Nat.le_trans hle h.takeovers
  · intro t c before hc
    obtain ⟨htok, hmem, hrow⟩ := h.lapsed t c before hc
    refine ⟨htok, ?_, fun hown => ?_⟩
    · rw [hheld]; exact hmem
    · rw [howner] at hown
      obtain ⟨hat, hst⟩ := hrow (hold.trans hown)
      exact ⟨hat.trans hattempt.symm, Nat.le_trans hle hst⟩

/-! ## One action at a time -/

theorem probe_commits {c : ClaimCall} (h : store.Commits (probeWrite c)) :
    c.due store.row = true ∧ leased store.row = none ∧
      (store.write (probeWrite c)).row.lease =
        ⟨some c.token, some c.expiresAt, store.row.attempt, store.row.takeovers⟩ := by
  obtain ⟨asked, hw, ha, hl⟩ := commits_lease h
  refine ⟨hw, ?_⟩
  simp only [probeWrite] at ha
  cases hle : leased store.row with
  | some owner => rw [hle] at ha; cases ha
  | none =>
    rw [hle] at ha
    cases ha
    exact ⟨rfl, hl⟩

theorem inv_probe (h : LeaseInv row₀ s) {c : ClaimCall}
    (hfresh : s.calls c.token = .idle ∧ row₀.leaseOwner ≠ some c.token) :
    LeaseInv row₀ (s.probe c) := by
  have hnew : s.granted c.token = false := by
    unfold LeaseState.granted
    rw [hfresh.1]
  have htoken := And.intro (token_ne_empty c) hfresh.2
  unfold LeaseState.probe
  cases hw : s.store.written (probeWrite c) with
  | some row =>
    have hc := (written_isSome_iff _ _).mp (isSome_of_eq_some hw)
    obtain ⟨-, -, hl⟩ := probe_commits hc
    refine h.of_granted hnew htoken (congrArg LeaseColumns.owner hl) ?_
      (congrArg LeaseColumns.attempt hl) ?_
    · rw [show (s.store.write (probeWrite c)).row.leaseExpiresAt = some c.expiresAt from
        congrArg LeaseColumns.expiresAt hl]
      exact some_ne_none _
    · rw [show (s.store.write (probeWrite c)).row.takeovers = s.store.row.takeovers from
        congrArg LeaseColumns.takeovers hl]
      exact h.takeovers
  | none =>
    refine h.of_phase hnew htoken fun c' before hphase => ?_
    cases hp : probeLapsed c s.store.row with
    | none => rw [hp] at hphase; cases hphase
    | some lapsed =>
      rw [hp] at hphase
      cases hphase
      unfold probeLapsed at hp
      split at hp
      · cases hle : leased s.store.row with
        | none => rw [hle] at hp; cases hp
        | some owner =>
          rw [hle] at hp
          cases hp
          have hown : s.store.row.leaseOwner = some owner :=
            (filter_eq_some_iff.mp hle).1
          exact ⟨rfl, Lease.mem_held_of_holder (h.owner ▸ hown), fun _ => ⟨rfl, h.takeovers⟩⟩
      · cases hp

theorem takeover_commits {c : ClaimCall} {before : Lapsed} {now : Time}
    (h : store.Commits (takeoverWrite c before now)) :
    c.due store.row = true ∧ store.row.leaseOwner = some before.leaseOwner ∧
      (store.write (takeoverWrite c before now)).row.lease =
        if before.atCap c then ⟨none, none, before.attempt + 1, before.takeovers + 1⟩
        else ⟨some c.token, some c.expiresAt, before.attempt + 1, before.takeovers + 1⟩ := by
  obtain ⟨asked, hw, ha, hl⟩ := commits_lease h
  simp only [takeoverWrite, Bool.and_eq_true, decide_eq_true_eq] at hw
  refine ⟨hw.1, hw.2, ?_⟩
  rw [hl]
  simp only [takeoverWrite] at ha
  split at ha
  · next hcap => rw [if_pos hcap]; cases ha; rfl
  · next hcap => rw [if_neg hcap]; cases ha; rfl

theorem inv_takeOver (h : LeaseInv row₀ s) (token : String) (now : Time) :
    LeaseInv row₀ (s.takeOver token now) := by
  unfold LeaseState.takeOver
  split
  next c before hcall =>
    obtain ⟨rfl, hheld, hrow⟩ := h.lapsed token c before hcall
    have hnew : s.granted c.token = false := by
      unfold LeaseState.granted
      rw [hcall]
    have htoken := h.called c.token (by rw [hcall]; nofun)
    split
    next hw =>
      obtain ⟨-, hown, hl⟩ := takeover_commits ((written_isSome_iff _ _).mp hw)
      obtain ⟨hattempt, hbehind⟩ := hrow hown
      cases hcap : before.atCap c with
      | true =>
        rw [hcap, if_pos rfl] at hl
        have hdropped := h.of_dropped (.stopped c.token before.leaseOwner) hown rfl
          (congrArg LeaseColumns.owner hl)
          ((congrArg LeaseColumns.attempt hl).trans (congrArg (· + 1) hattempt)) (by
            rw [show (s.store.write (takeoverWrite c before now)).row.takeovers =
              before.takeovers + 1 from congrArg LeaseColumns.takeovers hl]
            exact Nat.le_trans hbehind (Nat.le_succ _))
        refine hdropped.of_phase hnew htoken fun c' b' hphase => ?_
        cases hphase
      | false =>
        rw [hcap, if_neg Bool.false_ne_true] at hl
        simp only [takeoverClaim, hcap, Bool.false_eq_true, if_false]
        rw [← hown]
        refine h.of_granted hnew htoken (congrArg LeaseColumns.owner hl) ?_
          ((congrArg LeaseColumns.attempt hl).trans (congrArg (· + 1) hattempt)) ?_
        · rw [show (s.store.write (takeoverWrite c before now)).row.leaseExpiresAt =
            some c.expiresAt from congrArg LeaseColumns.expiresAt hl]
          exact some_ne_none _
        · rw [show (s.store.write (takeoverWrite c before now)).row.takeovers =
            before.takeovers + 1 from congrArg LeaseColumns.takeovers hl]
          exact Nat.succ_le_succ hbehind
    next =>
      refine h.of_phase hnew htoken fun c' b' hphase => ?_
      cases hphase
  next => exact h

theorem inv_whyNot (h : LeaseInv row₀ s) (token : String) : LeaseInv row₀ (s.whyNot token) := by
  unfold LeaseState.whyNot
  split
  next c hcall =>
    refine h.of_phase ?_ (h.called token (by rw [hcall]; nofun)) fun c' b' hphase => ?_
    · unfold LeaseState.granted
      rw [hcall]
    · cases hphase
  next => exact h

theorem LeaseInv.expires_of_owner (h : LeaseInv row₀ s) (hown : s.store.row.leaseOwner = some token)
    (hne : token ≠ "") :
    s.store.row.leaseExpiresAt ≠ none := by
  refine h.expires token ?_
  rw [leased, hown, filter_some, if_pos (by simpa using hne)]

def LeaseAction.fencedWrite : LeaseAction → Option (String × RunWrite × LeaseEvent)
  | .renew token leaseMs now => some (token, renewWrite token leaseMs now, .renewed token)
  | .release token now => some (token, releaseWrite token now, .released token)
  | .commit token c now => some (token, c.write token now, .committed token)
  | .fenced token w => some (token, w.fenced token, .wrote token)
  | .probe _ | .takeOver .. | .whyNot _ | .unfenced _ => none

theorem step_fencedWrite {a : LeaseAction} (h : a.fencedWrite = some (token, w, event))
    (s : LeaseState) :
    s.step a = s.writeAs token w event := by
  cases a <;> cases h <;> rfl

theorem heldBy_owner {row : AgentRun} (hne : token ≠ "") (h : heldBy token row = true) :
    row.leaseOwner = some token := by
  unfold heldBy at h
  rw [Bool.or_eq_true, decide_eq_true_eq, decide_eq_true_eq] at h
  exact h.resolve_left hne

theorem fencedWrite_owner {a : LeaseAction} (h : a.fencedWrite = some (token, w, event))
    (hne : token ≠ "") (hc : store.Commits w) :
    store.row.leaseOwner = some token := by
  obtain ⟨asked, hw, -⟩ := commits_lease hc
  cases a with
  | renew | release => cases h; exact of_decide_eq_true hw
  | commit t commit now =>
    cases h
    cases commit with
    | commitStep run steps expectedStep notes =>
      simp only [StepCommit.write, commitStepWrite, Bool.and_eq_true] at hw
      exact heldBy_owner hne hw.2
    | persist run => exact heldBy_owner hne hw
  | fenced t w =>
    cases h
    simp only [StateWrite.fenced, Bool.and_eq_true] at hw
    exact heldBy_owner hne hw.2
  | probe | takeOver | whyNot | unfenced => cases h

theorem inv_writeAs (h : LeaseInv row₀ s) {a : LeaseAction}
    (ha : a.fencedWrite = some (token, w, event))
    (hland : s.store.Commits w → s.store.row.leaseOwner = some token →
      s.store.row.leaseExpiresAt ≠ none →
      LeaseInv row₀ { s with store := s.store.write w, history := event :: s.history }) :
    LeaseInv row₀ (s.step a) := by
  rw [step_fencedWrite ha]
  unfold LeaseState.writeAs
  split
  next hg =>
    have hne := (h.called token (granted_ne_idle hg)).1
    split
    next hw =>
      have hc := (written_isSome_iff _ _).mp hw
      have hown := fencedWrite_owner ha hne hc
      exact hland hc hown (h.expires_of_owner hown hne)
    next hw =>
      have hc : ¬s.store.Commits w := fun hc => hw ((written_isSome_iff _ _).mpr hc)
      rw [write_eq_self hc]
      exact h
  next => exact h

theorem inv_renew (h : LeaseInv row₀ s) (token : String) (leaseMs : Int) (now : Time) :
    LeaseInv row₀ (s.step (.renew token leaseMs now)) := by
  refine inv_writeAs h rfl fun hc hown _ => ?_
  obtain ⟨asked, -, ha, hl⟩ := commits_lease hc
  cases ha
  refine h.of_wrote hown rfl rfl ((congrArg LeaseColumns.owner hl).trans hown) ?_
    (congrArg LeaseColumns.attempt hl) (fun _ => congrArg LeaseColumns.takeovers hl)
  rw [show (s.store.write (renewWrite token leaseMs now)).row.leaseExpiresAt =
    some (now + leaseMs) from congrArg LeaseColumns.expiresAt hl]
  exact some_ne_none _

theorem inv_release (h : LeaseInv row₀ s) (token : String) (now : Time) :
    LeaseInv row₀ (s.step (.release token now)) := by
  refine inv_writeAs h rfl fun hc hown _ => ?_
  obtain ⟨asked, -, ha, hl⟩ := commits_lease hc
  cases ha
  refine h.of_dropped _ hown rfl (congrArg LeaseColumns.owner hl)
    (congrArg LeaseColumns.attempt hl) ?_
  rw [show (s.store.write (releaseWrite token now)).row.takeovers = s.store.row.takeovers from
    congrArg LeaseColumns.takeovers hl]
  exact h.takeovers

theorem commit_lease {commit : StepCommit} {now : Time} (h : store.Commits (commit.write token now)) :
    (store.write (commit.write token now)).row.lease = { store.row.lease with takeovers := 0 } := by
  obtain ⟨asked, -, ha, hl⟩ := commits_lease h
  cases commit with
  | commitStep | persist => cases ha; exact hl

theorem inv_commit (h : LeaseInv row₀ s) (token : String) (commit : StepCommit) (now : Time) :
    LeaseInv row₀ (s.step (.commit token commit now)) := by
  refine inv_writeAs h rfl fun hc hown hexp => ?_
  have hl := commit_lease hc
  refine h.of_wrote hown rfl rfl ((congrArg LeaseColumns.owner hl).trans hown) ?_
    (congrArg LeaseColumns.attempt hl) nofun
  rw [show (s.store.write (commit.write token now)).row.leaseExpiresAt =
    s.store.row.leaseExpiresAt from congrArg LeaseColumns.expiresAt hl]
  exact hexp

theorem inv_fenced (h : LeaseInv row₀ s) (token : String) (w : StateWrite) :
    LeaseInv row₀ (s.step (.fenced token w)) := by
  refine inv_writeAs h rfl fun hc hown hexp => ?_
  have hl : (s.store.write (w.fenced token)).row.lease = s.store.row.lease :=
    stateWrite_lease w _ s.store
  refine h.of_wrote hown rfl rfl ((congrArg LeaseColumns.owner hl).trans hown) ?_
    (congrArg LeaseColumns.attempt hl) (fun _ => congrArg LeaseColumns.takeovers hl)
  rw [show (s.store.write (w.fenced token)).row.leaseExpiresAt =
    s.store.row.leaseExpiresAt from congrArg LeaseColumns.expiresAt hl]
  exact hexp

theorem inv_step (h : LeaseInv row₀ s) (a : LeaseAction) (hfresh : s.Fresh row₀ a) :
    LeaseInv row₀ (s.step a) := by
  cases a with
  | probe c => exact inv_probe h hfresh
  | takeOver token now => exact inv_takeOver h token now
  | whyNot token => exact inv_whyNot h token
  | renew token leaseMs now => exact inv_renew h token leaseMs now
  | release token now => exact inv_release h token now
  | commit token commit now => exact inv_commit h token commit now
  | fenced token w => exact inv_fenced h token w
  | unfenced w => exact h.of_store (stateWrite_lease w w.write.where' s.store)

end Almyty.Runs
