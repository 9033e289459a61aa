import Almyty.Runs.LeaseSafety

/-!
# Lease safety and the takeover cap, over every run

The two results the lease is there for, read off `LeaseInv` along any list of actions with unique
claim tokens; and a run that is due can always be taken up (`due_run_taken_up`).
-/

namespace Almyty.Runs

open Almyty.Lib List

/-! ## Unique tokens -/

def LeaseAction.newToken : LeaseAction → Option String
  | .probe c => some c.token
  | _ => none

structure UniqueTokens (row₀ : AgentRun) (as : List LeaseAction) : Prop where
  nodup : (as.filterMap LeaseAction.newToken).Nodup
  new : ∀ t ∈ as.filterMap LeaseAction.newToken, row₀.leaseOwner ≠ some t

variable {token : String}

theorem setPhase_ne {calls : String → ClaimPhase} {t : String} {phase : ClaimPhase} (h : t ≠ token)
   : setPhase calls token phase t = calls t := if_neg h

variable {s : LeaseState} {a : LeaseAction}

theorem idle_step {t : String} (hidle : s.calls t = .idle) (hnew : a.newToken ≠ some t) :
    (s.step a).calls t = .idle := by
  cases a with
  | probe c =>
    have hne : t ≠ c.token := fun he => hnew (congrArg some he.symm)
    show (s.probe c).calls t = .idle
    unfold LeaseState.probe
    split <;> exact (setPhase_ne hne).trans hidle
  | takeOver token now =>
    show (s.takeOver token now).calls t = .idle
    unfold LeaseState.takeOver
    split
    next c before hcall =>
      have hne : t ≠ token := fun he => by rw [he, hcall] at hidle; cases hidle
      split <;> exact (setPhase_ne hne).trans hidle
    next => exact hidle
  | whyNot token =>
    show (s.whyNot token).calls t = .idle
    unfold LeaseState.whyNot
    split
    next c hcall =>
      have hne : t ≠ token := fun he => by rw [he, hcall] at hidle; cases hidle
      exact (setPhase_ne hne).trans hidle
    next => exact hidle
  | unfenced w => exact hidle
  | renew | release | commit | fenced =>
    rw [step_fencedWrite rfl]
    unfold LeaseState.writeAs
    split <;> exact hidle

variable {row₀ : AgentRun}

theorem along_fresh {as : List LeaseAction} (hu : UniqueTokens row₀ as)
    (hidle : ∀ t ∈ as.filterMap LeaseAction.newToken, s.calls t = .idle) :
    Steps.Along LeaseState.step (LeaseState.Fresh row₀) s as := by
  induction as generalizing s with
  | nil => trivial
  | cons a as ih =>
    have hsub : (as.filterMap LeaseAction.newToken).Sublist
        ((a :: as).filterMap LeaseAction.newToken) := (sublist_cons_self a as).filterMap _
    refine ⟨?_, ih ⟨hu.nodup.sublist hsub, fun t ht => hu.new t (hsub.subset ht)⟩ fun t ht => ?_⟩
    · cases a with
      | probe c =>
        have hmem : c.token ∈ (LeaseAction.probe c :: as).filterMap LeaseAction.newToken :=
          mem_filterMap.mpr ⟨_, mem_cons_self .., rfl⟩
        exact ⟨hidle _ hmem, hu.new _ hmem⟩
      | _ => trivial
    · refine idle_step (hidle t (hsub.subset ht)) fun hnew => ?_
      have hnd := hu.nodup
      rw [filterMap_cons_some hnew, nodup_cons] at hnd
      exact hnd.1 ht

def ExpiryKnown (row : AgentRun) : Prop :=
  ∀ t, leased row = some t → row.leaseExpiresAt ≠ none

theorem inv_initial {store : RunStore} (h : ExpiryKnown store.row) :
    LeaseInv store.row (LeaseState.start store) := by
  refine ⟨rfl, trivial, ?_, fun t ht => absurd rfl ht, h, rfl, Nat.zero_le _, nofun⟩
  intro t ht
  left
  exact Option.mem_toList.mp ht

/-! ## Safety -/

def LeaseState.claimant (s : LeaseState) : LeaseAction → Option ClaimCall
  | .probe c => some c
  | .takeOver token _ =>
    match s.calls token with
    | .lapsed c _ => some c
    | _ => none
  | _ => none

def LeaseAction.fencedOn (a : LeaseAction) : Option String := a.fencedWrite.map fun p => p.1

/-- A claim was granted after the claim `token` was. -/
def Replaced (h : List LeaseEvent) (token : String) : Prop :=
  ∃ newer older t₂ prior₂ takenOver₂, h = newer ++ .claimed t₂ prior₂ takenOver₂ :: older ∧
    ∃ prior takenOver, .claimed token prior takenOver ∈ older

def LeaseEvent.endsLease : LeaseEvent → Bool
  | .released _ | .stopped .. => true
  | _ => false

theorem mem_held_of_claimed {init : Option String} {h : List LeaseEvent} {t : String}
    {prior : Option String} {takenOver : Bool} (hm : .claimed t prior takenOver ∈ h) :
    t ∈ Lease.held init (h.map LeaseEvent.abs) := by
  induction h with
  | nil => cases hm
  | cons e h ih =>
    rcases mem_cons.mp hm with rfl | hm
    · exact mem_cons_self ..
    · have hrest := ih hm
      cases e <;> first
        | exact mem_cons_of_mem _ hrest
        | exact hrest

theorem step_replaced (h : LeaseInv row₀ s) (ha : a.fencedOn = some token)
    (hr : Replaced s.history token) :
    s.step a = s := by
  obtain ⟨⟨t, w, event⟩, hw, rfl⟩ := Option.map_eq_some_iff.mp ha
  obtain ⟨newer, older, t₂, prior₂, takenOver₂, hh, prior, takenOver, hm⟩ := hr
  rw [step_fencedWrite hw]
  unfold LeaseState.writeAs
  split
  next hg =>
    have hc : ¬s.store.Commits w := by
      intro hc
      have hown := fencedWrite_owner hw (h.called _ (granted_ne_idle hg)).1 hc
      rw [h.owner, hh, map_append] at hown
      have hlegal := h.legal
      rw [hh, map_append] at hlegal
      exact Lease.holder_not_held hlegal hown (mem_held_of_claimed hm)
    rw [write_eq_self hc, if_neg fun hs => hc ((written_isSome_iff _ _).mp hs)]
  next => rfl

@[simp] theorem setPhase_self (calls : String → ClaimPhase) (token : String) (phase : ClaimPhase) :
    setPhase calls token phase token = phase := if_pos rfl

variable {c : ClaimCall}

theorem granted_probe (hg : (s.probe c).granted c.token = true) :
    s.store.Commits (probeWrite c) := by
  rw [← written_isSome_iff]
  cases hw : s.store.written (probeWrite c) with
  | some row => rfl
  | none =>
    simp only [LeaseState.probe, hw, LeaseState.granted, setPhase_self] at hg
    cases hp : probeLapsed c s.store.row with
    | some | none => rw [hp] at hg; cases hg

variable {before : Lapsed}

theorem granted_takeOver {now : Time} (hcall : s.calls token = .lapsed c before)
    (hg : (s.takeOver token now).granted token = true) :
    s.store.Commits (takeoverWrite c before now) := by
  rw [← written_isSome_iff]
  cases hw : (s.store.written (takeoverWrite c before now)).isSome with
  | true => rfl
  | false =>
    simp only [LeaseState.takeOver, hcall, hw, LeaseState.granted, Bool.false_eq_true, if_false,
      setPhase_self] at hg

theorem lapsed_of_granted (h : LeaseInv row₀ s) (hc : s.claimant a = some c)
    (hg : (s.step a).granted c.token = true) :
    leased s.store.row = none ∨ ∃ t, s.store.row.leaseExpiresAt = some t ∧ t < c.now := by
  have hdue : c.due s.store.row = true := by
    cases a with
    | probe c' =>
      obtain rfl : c' = c := Option.some.inj hc
      exact (probe_commits (granted_probe hg)).1
    | takeOver token now =>
      simp only [LeaseState.claimant] at hc
      split at hc
      next c' before hcall =>
        obtain rfl : c' = c := Option.some.inj hc
        obtain ⟨rfl, -, -⟩ := h.lapsed _ _ _ hcall
        exact (takeover_commits (granted_takeOver hcall hg)).1
      next => cases hc
    | _ => cases hc
  cases hl : leased s.store.row with
  | none => exact Or.inl rfl
  | some owner =>
    right
    obtain ⟨t, ht⟩ := Option.ne_none_iff_exists'.mp (h.expires owner hl)
    refine ⟨t, ht, ?_⟩
    simp only [ClaimCall.due, Bool.and_eq_true, ht, Option.all_some, decide_eq_true_eq] at hdue
    exact hdue.1.2

theorem grants_differ (h : LeaseInv row₀ s) {newer mid older : List LeaseEvent} {t₁ t₂ : String}
    {prior₁ prior₂ : Option String} {o₁ o₂ : Bool}
    (hh : s.history = newer ++ .claimed t₂ prior₂ o₂ :: (mid ++ .claimed t₁ prior₁ o₁ :: older)) :
    prior₁ ≠ prior₂ ∨ ∃ e ∈ mid, e.endsLease = true := by
  have hlegal := h.legal
  simp only [hh, map_append, map_cons, LeaseEvent.abs] at hlegal
  obtain ⟨hbefore, ⟨t, hp, hnot⟩ | ⟨hp, t, hdrop, -⟩⟩ := Lease.acquires_differ hlegal
  · left
    intro he
    exact hnot (hbefore t (he.trans hp))
  · right
    obtain ⟨e, he, habs⟩ := mem_map.mp hdrop
    refine ⟨e, he, ?_⟩
    cases e <;> simp_all [LeaseEvent.abs, LeaseEvent.endsLease]

/-- **Lease safety**: a write fenced on a replaced claim changes nothing, and a claim is granted
only over a free lease or one that has lapsed. -/
theorem lease_safety (store : RunStore) (as : List LeaseAction)
    (hu : UniqueTokens store.row as) (hexp : ExpiryKnown store.row) :
    Steps.Along LeaseState.step (fun s a =>
        (∀ token, a.fencedOn = some token → Replaced s.history token → s.step a = s) ∧
        (∀ c, s.claimant a = some c → (s.step a).granted c.token = true →
          leased s.store.row = none ∨ ∃ t, s.store.row.leaseExpiresAt = some t ∧ t < c.now))
      (LeaseState.start store) as ∧
    ∀ newer mid older t₁ t₂ prior₁ prior₂ o₁ o₂,
      (Steps.run LeaseState.step (LeaseState.start store) as).history =
        newer ++ .claimed t₂ prior₂ o₂ :: (mid ++ .claimed t₁ prior₁ o₁ :: older) →
      prior₁ ≠ prior₂ ∨ ∃ e ∈ mid, e.endsLease = true := by
  have hfresh := along_fresh (s := LeaseState.start store) hu fun _ _ => rfl
  have hinv := inv_initial hexp
  constructor
  · refine Steps.along_of_invariant (LeaseInv store.row) (fun s a hs hf => inv_step hs a hf)
      (fun s a hs _ => ⟨?_, ?_⟩) hinv hfresh
    · intro token ha hr
      exact step_replaced hs ha hr
    · intro c hc hg
      exact lapsed_of_granted hs hc hg
  · intro newer mid older t₁ t₂ prior₁ prior₂ o₁ o₂ hh
    exact grants_differ (Steps.run_invariant (LeaseInv store.row)
      (fun s a hs hf => inv_step hs a hf) hinv hfresh) hh

def claimOf (uuid : String) (now : Time) : ClaimCall :=
  { worker := "host:1", uuid, leaseMs := 10, step := none, now, maxTakeovers := 3 }

/-- Claim `a` lapses and claim `b` takes over; `a`'s worker then lets go of a
lease it no longer holds. -/
def lapsedRelease : List LeaseAction :=
  [.probe (claimOf "a" 0), .probe (claimOf "b" 20), .takeOver "host:1:b" 20, .release "host:1:a" 21]

theorem lapsedRelease_unique : UniqueTokens freshRun lapsedRelease :=
  ⟨by decide, nofun⟩

theorem lease_safety_lapsed_release :
    UniqueTokens freshRun lapsedRelease ∧
      Steps.run LeaseState.step (LeaseState.start ⟨freshRun, []⟩) lapsedRelease =
        Steps.run LeaseState.step (LeaseState.start ⟨freshRun, []⟩) (lapsedRelease.take 3) := by
  refine ⟨lapsedRelease_unique, ?_⟩
  have hsafe := (lease_safety ⟨freshRun, []⟩ lapsedRelease lapsedRelease_unique nofun).1
  exact (Steps.along_iff.mp hsafe (lapsedRelease.take 3) _ [] rfl).1 "host:1:a" rfl
    ⟨[], [.claimed "host:1:a" none false], "host:1:b", some "host:1:a", true, rfl, none, false,
      mem_singleton.mpr rfl⟩

/-! ## The takeover cap -/

structure CapInv (maxTakeovers : Nat) (s : LeaseState) : Prop where
  cap : ∀ t c before, s.calls t = .lapsed c before → c.maxTakeovers = maxTakeovers
  capped : ∀ older, older <:+ s.history → startedOver older ≤ maxTakeovers - 1

/-- What an action adds to the history: nothing, an event, or a takeover below the cap. -/
theorem history_step (a : LeaseAction) :
    (s.step a).history = s.history ∨
      ∃ e, (s.step a).history = e :: s.history ∧
        ((e.isTakeover = false ∧ e.startsOver = false) ∨
          ∃ token now c before, a = .takeOver token now ∧ s.calls token = .lapsed c before ∧
            s.store.Commits (takeoverWrite c before now) ∧ e.isTakeover = true ∧
            e.startsOver = !before.atCap c) := by
  cases a with
  | probe c =>
    show (s.probe c).history = _ ∨ ∃ e, (s.probe c).history = _ ∧ _
    unfold LeaseState.probe
    split
    · exact Or.inr ⟨_, rfl, Or.inl ⟨rfl, rfl⟩⟩
    · exact Or.inl rfl
  | takeOver token now =>
    show (s.takeOver token now).history = _ ∨ ∃ e, (s.takeOver token now).history = _ ∧ _
    unfold LeaseState.takeOver
    split
    next c before hcall =>
      split
      next hw =>
        refine Or.inr ⟨_, rfl, Or.inr ⟨token, now, c, before, rfl, hcall,
          (written_isSome_iff _ _).mp hw, ?_, ?_⟩⟩ <;> cases before.atCap c <;> rfl
      next => exact Or.inl rfl
    next => exact Or.inl rfl
  | whyNot token =>
    left
    show (s.whyNot token).history = _
    unfold LeaseState.whyNot
    split <;> rfl
  | unfenced w => exact Or.inl rfl
  | renew | release | commit | fenced =>
    rw [step_fencedWrite rfl]
    unfold LeaseState.writeAs
    split
    · split
      · exact Or.inr ⟨_, rfl, Or.inl ⟨rfl, rfl⟩⟩
      · exact Or.inl rfl
    · exact Or.inl rfl

theorem setPhase_cases {calls : String → ClaimPhase} {t : String} {phase phase' : ClaimPhase}
    (h : setPhase calls token phase t = phase') : calls t = phase' ∨ phase = phase' := by
  unfold setPhase at h
  split at h
  · exact Or.inr h
  · exact Or.inl h

theorem lapsed_step {t : String} (h : (s.step a).calls t = .lapsed c before) :
    s.calls t = .lapsed c before ∨ a = .probe c := by
  cases a with
  | probe c' =>
    have hp : (s.probe c').calls t = .lapsed c before := h
    unfold LeaseState.probe at hp
    split at hp
    · rcases setPhase_cases hp with hp | hp
      · exact Or.inl hp
      · cases hp
    · rcases setPhase_cases hp with hp | hp
      · exact Or.inl hp
      · split at hp
        · cases hp; exact Or.inr rfl
        · cases hp
  | takeOver token now =>
    left
    have hp : (s.takeOver token now).calls t = .lapsed c before := h
    unfold LeaseState.takeOver at hp
    split at hp
    · split at hp <;>
      · rcases setPhase_cases hp with hp | hp
        · exact hp
        · cases hp
    · exact hp
  | whyNot token =>
    left
    have hp : (s.whyNot token).calls t = .lapsed c before := h
    unfold LeaseState.whyNot at hp
    split at hp
    · rcases setPhase_cases hp with hp | hp
      · exact hp
      · cases hp
    · exact hp
  | unfenced w => exact Or.inl h
  | renew | release | commit | fenced =>
    left
    rw [step_fencedWrite rfl] at h
    unfold LeaseState.writeAs at h
    split at h <;> exact h

theorem atCap_of_startedOver (h : LeaseInv row₀ s) {maxTakeovers : Nat}
    (hcap : CapInv maxTakeovers s) {now : Time} (hcall : s.calls token = .lapsed c before)
    (hc : s.store.Commits (takeoverWrite c before now)) :
    startedOver s.history ≤ before.takeovers ∧
      (before.atCap c = true ↔ maxTakeovers ≤ before.takeovers + 1) := by
  obtain ⟨-, hown, -⟩ := takeover_commits hc
  refine ⟨((h.lapsed _ _ _ hcall).2.2 hown).2, ?_⟩
  rw [Lapsed.atCap, decide_eq_true_eq, hcap.cap _ _ _ hcall]

theorem capInv_step (h : LeaseInv row₀ s) {maxTakeovers : Nat} (hcap : CapInv maxTakeovers s)
    (ha : ∀ c, a = .probe c → c.maxTakeovers = maxTakeovers) : CapInv maxTakeovers (s.step a) := by
  refine ⟨fun t c before hl => ?_, fun older hsuf => ?_⟩
  · rcases lapsed_step hl with hl | hp
    · exact hcap.cap t c before hl
    · exact ha c hp
  · rcases history_step (s := s) a with hh | ⟨e, hh, he⟩
    · exact hcap.capped older (hh ▸ hsuf)
    · rw [hh, suffix_cons_iff] at hsuf
      rcases hsuf with rfl | hsuf
      · have hlast := hcap.capped s.history (suffix_refl _)
        rw [startedOver_cons]
        split
        next => exact Nat.zero_le _
        next =>
          rcases he with ⟨-, hstarts⟩ | ⟨token, now, c, before, -, hcall, hc, -, hstarts⟩
          · rw [hstarts]
            exact hlast
          · obtain ⟨hbehind, hiff⟩ := atCap_of_startedOver h hcap hcall hc
            rw [hstarts]
            cases hat : before.atCap c with
            | true => exact hlast
            | false =>
              have hlt : ¬maxTakeovers ≤ before.takeovers + 1 := fun hle => by
                rw [hiff.mpr hle] at hat
                cases hat
              show startedOver s.history + 1 ≤ maxTakeovers - 1
              omega
      · exact hcap.capped older hsuf

theorem stopped_row {now : Time} {store : RunStore}
    (hc : store.Commits (takeoverWrite c before now)) (hat : before.atCap c = true) :
    (store.write (takeoverWrite c before now)).row.status = .failed ∧
      (store.write (takeoverWrite c before now)).row.leaseOwner = none ∧
      (store.write (takeoverWrite c before now)).row.nextWakeAt = none := by
  rcases commits_cases hc with ⟨asked, -, hl, -⟩ | ⟨asked, ha, -, heq⟩
  · simp [RunWrite.isLease, takeoverWrite] at hl
  · have hasked : (takeoverWrite c before now).change store.row = some asked := by
      unfold RunWrite.asked at ha
      split at ha
      · exact ha
      · cases ha
    simp only [takeoverWrite, hat, if_true, Option.some.injEq] at hasked
    subst hasked
    rw [heq]
    exact ⟨rfl, rfl, rfl⟩

theorem attempt_le_step (h : LeaseInv row₀ s) (a : LeaseAction) (hfresh : s.Fresh row₀ a) :
    s.store.row.attempt ≤ (s.step a).store.row.attempt := by
  rw [h.attempt, (inv_step h a hfresh).attempt]
  rcases history_step (s := s) a with hh | ⟨e, hh, -⟩
  · exact Nat.le_of_eq (by rw [hh])
  · rw [hh, countP_cons]
    omega

theorem countP_window_le (window older : List LeaseEvent) (hw : ∀ e ∈ window, e.isCommit = false) :
    window.countP LeaseEvent.startsOver ≤ startedOver (window ++ older) := by
  induction window with
  | nil => exact Nat.zero_le _
  | cons e window ih =>
    have he := hw e (mem_cons_self ..)
    have hrest := ih fun x hx => hw x (mem_cons_of_mem _ hx)
    rw [cons_append, startedOver_cons, he, countP_cons]
    simp only [Bool.false_eq_true, if_false]
    omega

/-- **The takeover cap**: between two step commits a step starts over at most `maxTakeovers - 1`
times, and the next takeover leaves the run failed; `attempt` never decreases. -/
theorem takeover_cap (store : RunStore) (as : List LeaseAction) (maxTakeovers : Nat)
    (hu : UniqueTokens store.row as) (hexp : ExpiryKnown store.row)
    (hmax : ∀ c, .probe c ∈ as → c.maxTakeovers = maxTakeovers) :
    (∀ newer window older,
      (Steps.run LeaseState.step (LeaseState.start store) as).history = newer ++ (window ++ older) →
      (∀ e ∈ window, e.isCommit = false) →
      window.countP LeaseEvent.startsOver ≤ maxTakeovers - 1) ∧
    Steps.Along LeaseState.step (fun s a =>
        (∀ e, (s.step a).history = e :: s.history → e.isTakeover = true →
          maxTakeovers ≤ startedOver s.history + 1 →
          e.startsOver = false ∧ (s.step a).store.row.status = .failed ∧
            (s.step a).store.row.leaseOwner = none ∧ (s.step a).store.row.nextWakeAt = none) ∧
        s.store.row.attempt ≤ (s.step a).store.row.attempt)
      (LeaseState.start store) as ∧
    (Steps.run LeaseState.step (LeaseState.start store) as).store.row.attempt =
      store.row.attempt + (Steps.run LeaseState.step (LeaseState.start store) as).history.countP
        LeaseEvent.isTakeover := by
  have hsteps : Steps.Along LeaseState.step
      (fun s a => s.Fresh store.row a ∧ ∀ c, a = .probe c → c.maxTakeovers = maxTakeovers)
      (LeaseState.start store) as := by
    have hfresh := Steps.along_iff.mp
      (along_fresh (s := LeaseState.start store) hu fun _ _ => rfl)
    refine Steps.along_iff.mpr fun pre a post has => ⟨hfresh pre a post has, ?_⟩
    rintro c rfl
    exact hmax c (has ▸ mem_append_right _ (mem_cons_self ..))
  have hinit : LeaseInv store.row (LeaseState.start store) ∧
      CapInv maxTakeovers (LeaseState.start store) := by
    refine ⟨inv_initial hexp, nofun, fun older hsuf => ?_⟩
    rw [suffix_nil.mp hsuf]
    exact Nat.zero_le _
  have hkeep : ∀ s a, LeaseInv store.row s ∧ CapInv maxTakeovers s →
      (s.Fresh store.row a ∧ ∀ c, a = .probe c → c.maxTakeovers = maxTakeovers) →
      LeaseInv store.row (s.step a) ∧ CapInv maxTakeovers (s.step a) := by
    rintro s a ⟨hinv, hcap⟩ ⟨hf, hm⟩
    exact ⟨inv_step hinv a hf, capInv_step hinv hcap hm⟩
  obtain ⟨hinv, hcap⟩ := Steps.run_invariant _ hkeep hinit hsteps
  refine ⟨fun newer window older hh hw => ?_, ?_, hinv.attempt⟩
  · refine Nat.le_trans (countP_window_le window older hw) (hcap.capped _ ?_)
    rw [hh]
    exact suffix_append _ _
  · refine Steps.along_of_invariant _ hkeep (fun s a hs hP => ⟨fun e hh htake hlast => ?_, ?_⟩)
      hinit hsteps
    · rcases history_step (s := s) a with hsame | ⟨e', hh', he⟩
      · exact absurd (hsame.symm.trans hh) (by simp)
      · obtain rfl : e' = e := (List.cons.inj (hh'.symm.trans hh)).1
        rcases he with ⟨hnot, -⟩ | ⟨token, now, c, before, rfl, hcall, hc, -, hstarts⟩
        · rw [hnot] at htake; cases htake
        · obtain ⟨hbehind, hiff⟩ := atCap_of_startedOver hs.1 hs.2 hcall hc
          have hat : before.atCap c = true := hiff.mpr (by omega)
          have hstore : (s.step (.takeOver token now)).store =
              s.store.write (takeoverWrite c before now) := by
            simp only [LeaseState.step, LeaseState.takeOver, hcall,
              (written_isSome_iff _ _).mpr hc, if_true]
          rw [hstore]
          exact ⟨by rw [hstarts, hat]; rfl, stopped_row hc hat⟩
    · exact attempt_le_step hs.1 a hP.1

theorem takeover_cap_lapsed_release :
    UniqueTokens freshRun lapsedRelease ∧
      (Steps.run LeaseState.step (LeaseState.start ⟨freshRun, []⟩) lapsedRelease).store.row.attempt =
        1 := by
  refine ⟨lapsedRelease_unique, ?_⟩
  have hcap := takeover_cap ⟨freshRun, []⟩ lapsedRelease 3 lapsedRelease_unique nofun (by
    intro c hc
    simp only [lapsedRelease, mem_cons, LeaseAction.probe.injEq, reduceCtorEq,
      not_mem_nil, or_self, or_false] at hc
    rcases hc with rfl | rfl <;> rfl)
  exact hcap.2.2.trans rfl

/-! ## A run whose worker is gone -/

theorem seqsExact_step (h : s.store.SeqsExact) (a : LeaseAction) :
    (s.step a).store.SeqsExact := by
  have hwrite := seqsExact_write h
  cases a with
  | unfenced w => exact hwrite _
  | probe | takeOver | whyNot | renew | release | commit | fenced =>
    simp only [LeaseState.step, LeaseState.probe, LeaseState.takeOver, LeaseState.whyNot,
      LeaseState.writeAs]
    repeat' split
    all_goals first | exact hwrite _ | exact h

theorem probe_free (hdue : c.due s.store.row = true) (hfree : leased s.store.row = none) :
    (s.probe c).granted c.token = true ∧ (s.probe c).store.row.leaseOwner = some c.token := by
  have hasked : (probeWrite c).asked s.store.row =
      some { leaseOwner := some (some c.token), leaseExpiresAt := some (some c.expiresAt) } := by
    simp [RunWrite.asked, probeWrite, hdue, hfree]
  have hc : s.store.Commits (probeWrite c) := ⟨_, _, writeRun_lease hasked rfl⟩
  obtain ⟨row, hrow⟩ := Option.isSome_iff_exists.mp ((written_isSome_iff _ _).mpr hc)
  unfold LeaseState.probe
  rw [hrow]
  exact ⟨by simp [LeaseState.granted], congrArg LeaseColumns.owner (probe_commits hc).2.2⟩

theorem probe_lapsed {owner : String} (hdue : c.due s.store.row = true)
    (hheld : leased s.store.row = some owner) :
    ∃ before, (s.probe c).calls c.token = .lapsed c before ∧ (s.probe c).store = s.store ∧
      s.store.row.leaseOwner = some before.leaseOwner ∧
      before.takeovers = s.store.row.takeovers := by
  have hc : s.store.written (probeWrite c) = none := by
    rw [← Option.not_isSome_iff_eq_none, written_isSome_iff]
    intro hc
    rw [(probe_commits hc).2.1] at hheld
    cases hheld
  simp only [LeaseState.probe, probeLapsed, hc, hdue, if_true, hheld, Option.map_some]
  exact ⟨_, setPhase_self .., trivial, (Option.filter_eq_some_iff.mp hheld).1, rfl⟩

theorem takeOver_lapsed (h : s.store.SeqsExact) (hcall : s.calls c.token = .lapsed c before)
    (hdue : c.due s.store.row = true) (howner : s.store.row.leaseOwner = some before.leaseOwner)
    (now : Time) :
    (s.takeOver c.token now).granted c.token = true ∧
        (s.takeOver c.token now).store.row.leaseOwner = some c.token ∨
      c.maxTakeovers ≤ before.takeovers + 1 ∧
        (s.takeOver c.token now).store.row.status = .failed := by
  have hc : s.store.Commits (takeoverWrite c before now) := by
    have hasked : ∃ asked, (takeoverWrite c before now).asked s.store.row = some asked := by
      simp only [RunWrite.asked, takeoverWrite, hdue, howner, decide_true, Bool.and_self, if_true]
      split <;> exact ⟨_, rfl⟩
    obtain ⟨asked, hasked⟩ := hasked
    exact commits_of_seqsExact h hasked (by simp [RunWrite.isLease, takeoverWrite]) rfl
  simp only [LeaseState.takeOver, hcall, (written_isSome_iff _ _).mpr hc, if_true]
  cases hcap : before.atCap c with
  | true => exact Or.inr ⟨of_decide_eq_true hcap, (stopped_row hc hcap).1⟩
  | false =>
    have hlease := (takeover_commits hc).2.2
    rw [hcap, if_neg Bool.false_ne_true] at hlease
    refine Or.inl ⟨?_, congrArg LeaseColumns.owner hlease⟩
    simp [LeaseState.granted, takeoverClaim, hcap]

/-- **A run whose worker is gone is taken up**: whatever was done to a run, a claim that finds it
due and is not disturbed gets the lease, or leaves the run failed at the cap. -/
theorem due_run_taken_up (store : RunStore) (as : List LeaseAction) (hseqs : store.SeqsExact)
    (c : ClaimCall) (now : Time) :
    let s := Steps.run LeaseState.step (LeaseState.start store) as
    let s' := (s.step (.probe c)).step (.takeOver c.token now)
    c.due s.store.row = true →
      s'.granted c.token = true ∧ s'.store.row.leaseOwner = some c.token ∨
        c.maxTakeovers ≤ s.store.row.takeovers + 1 ∧ s'.store.row.status = .failed := by
  intro s s' hdue
  have h : s.store.SeqsExact := Steps.run_invariant (P := fun _ _ => True)
    (fun s : LeaseState => s.store.SeqsExact) (fun _ a h _ => seqsExact_step h a) hseqs
    (Steps.along_iff.mpr fun _ _ _ _ => trivial)
  cases hheld : leased s.store.row with
  | none =>
    have hfree := probe_free hdue hheld
    have hstays : s' = s.probe c := by
      show (s.probe c).takeOver c.token now = s.probe c
      unfold LeaseState.takeOver
      split
      next hcall => simp [LeaseState.granted, hcall] at hfree
      next => rfl
    exact Or.inl (hstays ▸ hfree)
  | some owner =>
    obtain ⟨before, hcall, hstore, howner, htakeovers⟩ := probe_lapsed hdue hheld
    rw [← hstore] at h hdue howner
    rw [← htakeovers]
    exact takeOver_lapsed h hcall hdue howner now

theorem due_run_taken_up_lapsed :
    (Steps.run LeaseState.step (LeaseState.start ⟨freshRun, []⟩)
      (lapsedRelease.take 3)).granted "host:1:b" = true := by
  rcases due_run_taken_up ⟨freshRun, []⟩ (lapsedRelease.take 1) (inv_start rfl).seqs
    (claimOf "b" 20) 20 rfl with h | h
  · exact h.1
  · exact absurd h.1 (by decide)

end Almyty.Runs
