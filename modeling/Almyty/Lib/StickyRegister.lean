import Almyty.Lib.Steps

/-!
# A register that stays with a live owner

Items come in any order, some of them more than once. Each has an owner, a time and says whether
its owner is live from then on. The register holds one item: it takes one it has not seen unless
that is older than the one it holds, or the one it holds is live and belongs to somebody else.

Which item it holds in the end depends on the order. `ends_iff` says exactly which items it can
end with: the last of a live owner, the newest of all, and those that an owner who went live and
then off made room for (`SwitchedOff`): while that owner was live, newer items of the others were
dropped for good.
-/

namespace Almyty.Lib.StickyRegister

open Steps List

/-- What is seen so far and the item held. -/
structure Register (ε : Type) where
  seen : List ε := []
  held : Option ε := none

variable {ε σ : Type} [DecidableEq ε] [DecidableEq σ] (owner : ε → σ) (time : ε → Nat)
  (live : ε → Bool)

/-- The register does not take the item. -/
def Blocks (held : Option ε) (e : ε) : Prop :=
  ∃ c, held = some c ∧ (time e < time c ∨ owner e ≠ owner c ∧ live c = true)

instance (held : Option ε) (e : ε) : Decidable (Blocks owner time live held e) :=
  match held with
  | none => .isFalse fun ⟨_, h, _⟩ => nomatch h
  | some c => decidable_of_iff (time e < time c ∨ owner e ≠ owner c ∧ live c = true)
      ⟨fun h => ⟨c, rfl, h⟩, fun ⟨_, h, hblocks⟩ => Option.some.inj h ▸ hblocks⟩

def receive (r : Register ε) (e : ε) : Register ε :=
  if e ∈ r.seen then r
  else { seen := r.seen ++ [e], held := if Blocks owner time live r.held e then r.held else some e }

/-- The items have times of their own. -/
def Distinct (E : List ε) : Prop := ∀ a ∈ E, ∀ b ∈ E, time a = time b → a = b

instance (E : List ε) : Decidable (Distinct time E) :=
  inferInstanceAs (Decidable (∀ a ∈ E, ∀ b ∈ E, time a = time b → a = b))

def SwitchedOff (E : List ε) (s : σ) (e : ε) : Prop :=
  ∃ p ∈ E, ∃ h ∈ E, owner p = s ∧ owner h = s ∧ live p = true ∧ live h = false ∧
    time p < time h ∧ time h ≤ time e

/-- By the time of `e`, two owners went live and then off, one after the other. -/
def SwitchedTwice (E : List ε) (e : ε) : Prop :=
  ∃ p ∈ E, ∃ h ∈ E, ∃ q ∈ E, ∃ h' ∈ E, owner h = owner p ∧ owner h' = owner q ∧
    owner p ≠ owner q ∧ live p = true ∧ live h = false ∧ live q = true ∧ live h' = false ∧
    time p < time h ∧ time h < time q ∧ time q < time h' ∧ time h' ≤ time e

def CanEnd (E : List ε) (e : ε) : Prop :=
  if live e then
    (∀ k ∈ E, owner k = owner e → time k ≤ time e) ∨
      ∃ s, s ≠ owner e ∧ SwitchedOff owner time live E s e
  else
    (∀ k ∈ E, time k ≤ time e) ∨ SwitchedTwice owner time live E e ∨
      ∃ s, SwitchedOff owner time live E s e ∧ ∀ k ∈ E, time e < time k → owner k ≠ s

variable {owner time live} {E ds : List ε} {r : Register ε} {e c p h : ε}

/-! ## What one item does -/

theorem mem_seen_receive {k : ε} : k ∈ (receive owner time live r e).seen ↔ k ∈ r.seen ∨ k = e := by
  unfold receive
  split
  next he => exact ⟨.inl, fun hk => hk.elim id fun heq => heq ▸ he⟩
  next => rw [mem_append, mem_singleton]

theorem mem_seen_run {k : ε} :
    k ∈ (run (receive owner time live) r ds).seen ↔ k ∈ r.seen ∨ k ∈ ds := by
  induction ds generalizing r with
  | nil => simp
  | cons e ds ih => rw [run_cons, ih, mem_seen_receive, mem_cons, or_assoc]

theorem held_receive (hnew : e ∉ r.seen)
    (hopen : ∀ c, r.held = some c → time c < time e ∧ (owner e = owner c ∨ live c = false)) :
    (receive owner time live r e).held = some e := by
  unfold receive
  rw [if_neg hnew]
  refine if_neg fun ⟨c, hc, hblocks⟩ => ?_
  obtain ⟨htime, howner⟩ := hopen c hc
  rcases hblocks with hlt | ⟨hne, hlive⟩
  · omega
  · rcases howner with heq | hdead
    · exact hne heq
    · rw [hdead] at hlive
      cases hlive

theorem held_run (hheld : r.held = some c)
    (hds : ∀ k ∈ ds, k ∈ r.seen ∨ time k < time c ∨ owner k ≠ owner c ∧ live c = true) :
    (run (receive owner time live) r ds).held = some c := by
  induction ds generalizing r with
  | nil => exact hheld
  | cons e ds ih =>
    rw [run_cons]
    refine ih ?_ fun k hk => (hds k (mem_cons_of_mem _ hk)).imp_left fun hseen =>
      mem_seen_receive.mpr (.inl hseen)
    unfold receive
    split
    · exact hheld
    next hnew => exact (if_pos ⟨c, hheld, (hds e mem_cons_self).resolve_left hnew⟩).trans hheld

/-! ## Orders that end with an item -/

theorem held_phase (hp : p ∉ r.seen)
    (hopen : ∀ c, r.held = some c → time c < time p ∧ live c = false)
    (hlive : live p = true) (hds : ∀ k ∈ ds, owner k ≠ owner p) (hh : h ∉ r.seen)
    (howner : owner h = owner p) (htime : time p < time h) :
    (run (receive owner time live) r (p :: ds ++ [h])).held = some h := by
  have hheld : (receive owner time live r p).held = some p :=
    held_receive hp fun c hc => ⟨(hopen c hc).1, .inr (hopen c hc).2⟩
  have hkept : (run (receive owner time live) (receive owner time live r p) ds).held = some p :=
    held_run hheld fun k hk => .inr (.inr ⟨hds k hk, hlive⟩)
  rw [run_append, run_cons]
  refine held_receive (fun hseen => ?_) fun c hc => ?_
  · rcases mem_seen_run.mp hseen with hseen | hseen
    · exact hh hseen
    rcases mem_cons.mp hseen with rfl | hseen
    · exact Nat.lt_irrefl _ htime
    · exact hds h hseen howner
  · obtain rfl := Option.some.inj (hkept.symm.trans hc)
    exact ⟨htime, .inl howner⟩

/-- After an item that is not live, it or a newer one stays when the rest are older, or of others
while it is live. -/
theorem held_rest (hheld : r.held = some c) (hdead : live c = false)
    (he : c = e ∧ e ∈ r.seen ∨ e ∉ r.seen ∧ time c < time e)
    (hrest : ∀ k ∈ E, k ∈ r.seen ∨ k = e ∨ time k < time e ∨ owner k ≠ owner e ∧ live e = true) :
    (run (receive owner time live) r (e :: E)).held = some e := by
  rw [run_cons]
  refine held_run (c := e) ?_ fun k hk => ?_
  · rcases he with ⟨rfl, hseen⟩ | ⟨hnew, hlt⟩
    · unfold receive
      rw [if_pos hseen, hheld]
    · refine held_receive hnew fun c' hc => ?_
      obtain rfl := Option.some.inj (hheld.symm.trans hc)
      exact ⟨hlt, .inr hdead⟩
  · rcases hrest k hk with hseen | rfl | hlt | hother
    · exact .inl (mem_seen_receive.mpr (.inl hseen))
    · exact .inl (mem_seen_receive.mpr (.inr rfl))
    · exact .inr (.inl hlt)
    · exact .inr (.inr hother)

def newerOfOthers (owner : ε → σ) (time : ε → Nat) (E : List ε) (s : σ) (e : ε) : List ε :=
  E.filter fun k => time e < time k && owner k ≠ s

omit [DecidableEq ε] in
theorem mem_newerOfOthers {s : σ} {k : ε} :
    k ∈ newerOfOthers owner time E s e ↔ k ∈ E ∧ time e < time k ∧ owner k ≠ s := by
  unfold newerOfOthers
  rw [mem_filter, Bool.and_eq_true, decide_eq_true_iff, decide_eq_true_iff]

theorem ends_first (hrest : ∀ k ∈ E, k = e ∨ time k < time e ∨ owner k ≠ owner e ∧ live e = true) :
    (run (receive owner time live) {} (e :: E)).held = some e := by
  rw [run_cons]
  refine held_run (c := e) (held_receive not_mem_nil fun c hc => nomatch hc) fun k hk => ?_
  rcases hrest k hk with rfl | hlt | hother
  · exact .inl (mem_seen_receive.mpr (.inr rfl))
  · exact .inr (.inl hlt)
  · exact .inr (.inr hother)

/-- While `s` is live the newer items of the others are dropped; then `s` goes off and `e` is taken.
-/
theorem ends_after_switchedOff {s : σ} (hdistinct : Distinct time E) (he : e ∈ E)
    (hoff : SwitchedOff owner time live E s e)
    (hrest : ∀ k ∈ E, time e < time k → owner k ≠ s ∨ owner k ≠ owner e ∧ live e = true) :
    ∃ ds, (∀ k, k ∈ ds ↔ k ∈ E) ∧ (run (receive owner time live) {} ds).held = some e := by
  obtain ⟨p, hp, h, hh, hps, hhs, hplive, hdead, hph, hhe⟩ := hoff
  have hphase : (run (receive owner time live) {}
      (p :: newerOfOthers owner time E s e ++ [h])).held = some h :=
    held_phase not_mem_nil (fun c hc => nomatch hc) hplive
      (fun k hk => hps ▸ (mem_newerOfOthers.mp hk).2.2) not_mem_nil (hhs.trans hps.symm) hph
  refine ⟨(p :: newerOfOthers owner time E s e ++ [h]) ++ e :: E, fun k => ?_, ?_⟩
  · simp only [mem_append, mem_cons, not_mem_nil, or_false, mem_newerOfOthers]
    constructor
    · rintro (((rfl | ⟨hk, -⟩) | rfl) | rfl | hk) <;> assumption
    · exact fun hk => .inr (.inr hk)
  rw [run_append]
  refine held_rest hphase hdead ?_ fun k hk => ?_
  · by_cases heq : h = e
    · subst heq
      exact .inl ⟨rfl, mem_seen_run.mpr (.inr (by simp))⟩
    have hlt : time h < time e :=
      Nat.lt_of_le_of_ne hhe fun htime => heq (hdistinct h hh e he htime)
    refine .inr ⟨fun hseen => ?_, hlt⟩
    simp only [mem_seen_run, mem_append, mem_cons, not_mem_nil, or_false, false_or,
      mem_newerOfOthers] at hseen
    rcases hseen with (rfl | ⟨-, hlt', -⟩) | rfl
    · omega
    · exact Nat.lt_irrefl _ hlt'
    · exact heq rfl
  · rcases Nat.lt_trichotomy (time k) (time e) with hlt | heq | hlt
    · exact .inr (.inr (.inl hlt))
    · exact .inr (.inl (hdistinct k hk e he heq))
    · refine (hrest k hk hlt).elim (fun hne => .inl (mem_seen_run.mpr (.inr ?_))) fun hother =>
        .inr (.inr (.inr hother))
      exact mem_append_left _ (mem_cons_of_mem _ (mem_newerOfOthers.mpr ⟨hk, hlt, hne⟩))

theorem ends_after_switchedTwice (hdistinct : Distinct time E) (he : e ∈ E)
    (htwice : SwitchedTwice owner time live E e) :
    ∃ ds, (∀ k, k ∈ ds ↔ k ∈ E) ∧ (run (receive owner time live) {} ds).held = some e := by
  obtain ⟨p, hp, h, hh, q, hq, h', hh', hhp, hhq, hpq, hplive, hdead, hqlive, hdead', hph, hhq', hqh,
    hhe⟩ := htwice
  set first := p :: newerOfOthers owner time E (owner p) e ++ [h] with hfirst
  set second := q :: newerOfOthers owner time E (owner q) e ++ [h'] with hsecond
  have hmem {k x y : ε} {s : σ} (hx : x ∈ E) (hy : y ∈ E)
      (hk : k ∈ x :: newerOfOthers owner time E s e ++ [y]) : k ∈ E := by
    simp only [mem_append, mem_cons, not_mem_nil, or_false, mem_newerOfOthers] at hk
    rcases hk with (rfl | ⟨hk, -⟩) | rfl <;> assumption
  have holder {k : ε} (hk : k ∈ first) : k = p ∨ k = h ∨ time e < time k := by
    simp only [hfirst, mem_append, mem_cons, not_mem_nil, or_false, mem_newerOfOthers] at hk
    rcases hk with (rfl | ⟨-, hlt, -⟩) | rfl
    · exact .inl rfl
    · exact .inr (.inr hlt)
    · exact .inr (.inl rfl)
  have hphase : (run (receive owner time live) {} first).held = some h :=
    held_phase not_mem_nil (fun c hc => nomatch hc) hplive
      (fun k hk => (mem_newerOfOthers.mp hk).2.2) not_mem_nil hhp hph
  have hseen {k : ε} (hk : k ∈ (run (receive owner time live) {} first).seen) :
      k = p ∨ k = h ∨ time e < time k :=
    holder ((mem_seen_run.mp hk).resolve_left not_mem_nil)
  have hphase' : (run (receive owner time live) (run (receive owner time live) {} first)
      second).held = some h' := by
    refine held_phase (fun hk => ?_) (fun c hc => ?_) hqlive
      (fun k hk => (mem_newerOfOthers.mp hk).2.2) (fun hk => ?_) hhq hqh
    · rcases hseen hk with rfl | rfl | hlt
      · exact hpq rfl
      · omega
      · omega
    · obtain rfl := Option.some.inj (hphase.symm.trans hc)
      exact ⟨hhq', hdead⟩
    · rcases hseen hk with rfl | rfl | hlt <;> omega
  refine ⟨(first ++ second) ++ e :: E, fun k => ?_, ?_⟩
  · rw [mem_append, mem_append, mem_cons]
    constructor
    · rintro ((hk | hk) | rfl | hk)
      · exact hmem hp hh hk
      · exact hmem hq hh' hk
      · exact he
      · exact hk
    · exact fun hk => .inr (.inr hk)
  rw [run_append, run_append]
  have hmemSeen {k : ε} (hk : k ∈ first ∨ k ∈ second) :
      k ∈ (run (receive owner time live) (run (receive owner time live) {} first) second).seen :=
    mem_seen_run.mpr (hk.imp_left fun hk => mem_seen_run.mpr (.inr hk))
  refine held_rest hphase' hdead' ?_ fun k hk => ?_
  · by_cases heq : h' = e
    · exact .inl ⟨heq, hmemSeen (.inr (by simp [hsecond, heq]))⟩
    have hlt : time h' < time e :=
      Nat.lt_of_le_of_ne hhe fun htime => heq (hdistinct h' hh' e he htime)
    refine .inr ⟨fun hk => ?_, hlt⟩
    rcases mem_seen_run.mp hk with hk | hk
    · rcases hseen hk with rfl | rfl | hlt' <;> omega
    · simp only [hsecond, mem_append, mem_cons, not_mem_nil, or_false, mem_newerOfOthers] at hk
      rcases hk with (rfl | ⟨-, hlt', -⟩) | rfl <;> omega
  · rcases Nat.lt_trichotomy (time k) (time e) with hlt | heq | hlt
    · exact .inr (.inr (.inl hlt))
    · exact .inr (.inl (hdistinct k hk e he heq))
    · refine .inl (hmemSeen ?_)
      by_cases hkp : owner k = owner p
      · refine .inr (mem_append_left _ (mem_cons_of_mem _ ?_))
        exact mem_newerOfOthers.mpr ⟨hk, hlt, hkp ▸ hpq⟩
      · refine .inl (mem_append_left _ (mem_cons_of_mem _ ?_))
        exact mem_newerOfOthers.mpr ⟨hk, hlt, hkp⟩

/-! ## What the register remembers of the order -/

omit [DecidableEq ε] [DecidableEq σ] in
theorem SwitchedOff.mono {s : σ} {e' : ε} (h : SwitchedOff owner time live E s e)
    (hle : time e ≤ time e') : SwitchedOff owner time live E s e' := by
  obtain ⟨p, hp, h, hh, hps, hhs, hlive, hdead, hlt, hhe⟩ := h
  exact ⟨p, hp, h, hh, hps, hhs, hlive, hdead, hlt, Nat.le_trans hhe hle⟩

omit [DecidableEq ε] [DecidableEq σ] in
theorem SwitchedTwice.mono {e' : ε} (h : SwitchedTwice owner time live E e)
    (hle : time e ≤ time e') : SwitchedTwice owner time live E e' := by
  obtain ⟨p, hp, h, hh, q, hq, h', hh', hhp, hhq, hpq, hplive, hdead, hqlive, hdead', hph, hhq', hqh,
    hhe⟩ := h
  exact ⟨p, hp, h, hh, q, hq, h', hh', hhp, hhq, hpq, hplive, hdead, hqlive, hdead', hph, hhq', hqh,
    Nat.le_trans hhe hle⟩

omit [DecidableEq ε] [DecidableEq σ] in
theorem SwitchedTwice.other (h : SwitchedTwice owner time live E e) (s : σ) :
    ∃ s', s' ≠ s ∧ SwitchedOff owner time live E s' e := by
  obtain ⟨p, hp, h, hh, q, hq, h', hh', hhp, hhq, hpq, hplive, hdead, hqlive, hdead', hph, hhq', hqh,
    hhe⟩ := h
  by_cases hps : owner p = s
  · exact ⟨owner q, fun heq => hpq (hps.trans heq.symm), q, hq, h', hh', rfl, hhq, hqlive, hdead',
      hqh, hhe⟩
  · exact ⟨owner p, hps, p, hp, h, hh, rfl, hhp, hplive, hdead, hph, by omega⟩

variable (owner time live E) in
/-- Whatever newer was dropped was of others than the live holder, or of others than the one
owner that went off before. -/
def Explained (seen : List ε) (e : ε) : Prop :=
  SwitchedTwice owner time live E e ∨ ∃ s, ∀ k ∈ seen, time e < time k →
    live e = true ∧ owner k ≠ owner e ∨ owner k ≠ s ∧ SwitchedOff owner time live E s e

variable (owner time live E) in
/-- What holds while the items of `E` come. -/
structure Inv (r : Register ε) : Prop where
  seen : ∀ k ∈ r.seen, k ∈ E
  held : ∀ e, r.held = some e → e ∈ E ∧ Explained owner time live E r.seen e
  empty : r.held = none → r.seen = []

omit [DecidableEq ε] [DecidableEq σ] in
theorem Explained.take {seen : List ε} (hdistinct : Distinct time E)
    (h : Explained owner time live E seen c) (hc : c ∈ E) (he : e ∈ E) (hlt : time c < time e) (howner : owner e = owner c ∨ live c = false) :
    Explained owner time live E (seen ++ [e]) e := by
  have hle := Nat.le_of_lt hlt
  rcases h with htwice | ⟨s, hs⟩
  · exact .inl (htwice.mono hle)
  have hnewer {k : ε} (hk : k ∈ seen ++ [e]) (hlt' : time e < time k) :
      live c = true ∧ owner k ≠ owner c ∨ owner k ≠ s ∧ SwitchedOff owner time live E s c := by
    rcases mem_append.mp hk with hk | hk
    · exact hs k hk (Nat.lt_trans hlt hlt')
    · obtain rfl := mem_singleton.mp hk
      exact absurd hlt' (Nat.lt_irrefl _)
  cases hclive : live c with
  | false =>
    refine .inr ⟨s, fun k hk hlt' => .inr ?_⟩
    obtain ⟨hne, hoff⟩ := (hnewer hk hlt').resolve_left fun h => by
      rw [hclive] at h
      cases h.1
    exact ⟨hne, hoff.mono hle⟩
  | true =>
    have heq : owner e = owner c := howner.resolve_right (by simp [hclive])
    cases helive : live e with
    | true =>
      refine .inr ⟨s, fun k hk hlt' => (hnewer hk hlt').imp ?_ ?_⟩
      · exact fun ⟨_, hne⟩ => ⟨helive, heq ▸ hne⟩
      · exact fun ⟨hne, hoff⟩ => ⟨hne, hoff.mono hle⟩
    | false =>
      -- the holder's owner goes off with `e`
      have hoff : SwitchedOff owner time live E (owner c) e :=
        ⟨c, hc, e, he, rfl, heq, hclive, helive, hlt, Nat.le_refl _⟩
      by_cases hbefore : ∃ k ∈ seen ++ [e], time e < time k ∧ owner k = owner c
      · -- somebody else was on before
        obtain ⟨k, hk, hlt', hkc⟩ := hbefore
        obtain ⟨hks, p, hp, h, hh, hps, hhs, hplive, hdead, hph, hhc⟩ :=
          (hnewer hk hlt').resolve_left fun h => h.2 hkc
        have hne : h ≠ c := fun heq => by
          rw [heq, hclive] at hdead
          cases hdead
        have hpc : owner p ≠ owner c := fun heq => hks (hkc.trans (heq.symm.trans hps))
        have hhc := Nat.lt_of_le_of_ne hhc fun htime => hne (hdistinct h hh c hc htime)
        exact .inl ⟨p, hp, h, hh, c, hc, e, he, hhs.trans hps.symm, heq, hpc, hplive, hdead, hclive,
          helive, hph, hhc, hlt, Nat.le_refl _⟩
      · exact .inr ⟨owner c, fun k hk hlt' => .inr ⟨fun hkc => hbefore ⟨k, hk, hlt', hkc⟩, hoff⟩⟩

theorem inv_receive (hdistinct : Distinct time E) (hr : Inv owner time live E r) (he : e ∈ E) :
    Inv owner time live E (receive owner time live r e) := by
  have hseen (k : ε) (hk : k ∈ (receive owner time live r e).seen) : k ∈ E := by
    rcases mem_seen_receive.mp hk with hk | rfl
    · exact hr.seen k hk
    · exact he
  refine ⟨hseen, fun c hc => ?_, fun hnone => ?_⟩
  · unfold receive at hc ⊢
    split at hc
    next hin =>
      rw [if_pos hin]
      exact hr.held c hc
    next hnew =>
    rw [if_neg hnew]
    dsimp only at hc ⊢
    split at hc
    next hblocks =>
      -- dropped: older than the holder, or of another while the holder is live
      obtain ⟨hcE, hexplained⟩ := hr.held c hc
      refine ⟨hcE, hexplained.imp id fun ⟨s, hs⟩ => ⟨s, fun k hk hlt => ?_⟩⟩
      rcases mem_append.mp hk with hk | hk
      · exact hs k hk hlt
      obtain rfl := mem_singleton.mp hk
      obtain ⟨c', hc', hlt' | hother⟩ := hblocks
      · obtain rfl := Option.some.inj (hc.symm.trans hc')
        omega
      · obtain rfl := Option.some.inj (hc.symm.trans hc')
        exact .inl ⟨hother.2, hother.1⟩
    next hopen =>
      obtain rfl := Option.some.inj hc
      refine ⟨he, ?_⟩
      cases hheld : r.held with
      | none =>
        rw [hr.empty hheld]
        refine .inr ⟨owner e, fun k hk hlt => ?_⟩
        obtain rfl := mem_singleton.mp hk
        exact absurd hlt (Nat.lt_irrefl _)
      | some c =>
        obtain ⟨hcE, hexplained⟩ := hr.held c hheld
        have htime : time c ≤ time e :=
          Nat.le_of_not_lt fun hlt => hopen ⟨c, hheld, .inl hlt⟩
        have howner : owner e = owner c ∨ live c = false := by
          by_cases heq : owner e = owner c
          · exact .inl heq
          · exact .inr (eq_false_of_ne_true fun hlive => hopen ⟨c, hheld, .inr ⟨heq, hlive⟩⟩)
        rcases Nat.lt_or_eq_of_le htime with hlt | heq
        · exact hexplained.take hdistinct hcE he hlt howner
        · -- the same item once more
          obtain rfl := hdistinct c hcE e he heq
          refine hexplained.imp id fun ⟨s, hs⟩ => ⟨s, fun k hk hlt => ?_⟩
          rcases mem_append.mp hk with hk | hk
          · exact hs k hk hlt
          · obtain rfl := mem_singleton.mp hk
            exact absurd hlt (Nat.lt_irrefl _)
  · unfold receive at hnone ⊢
    split at hnone
    next hin =>
      rw [if_pos hin]
      exact hr.empty hnone
    next hnew =>
      dsimp only at hnone
      split at hnone
      next hblocks =>
        obtain ⟨c, hc, -⟩ := hblocks
        rw [hnone] at hc
        cases hc
      next => cases hnone

theorem inv_run (hdistinct : Distinct time E) (hds : ∀ k ∈ ds, k ∈ E) :
    Inv owner time live E (run (receive owner time live) {} ds) :=
  run_invariant _ (fun _ _ hr he => inv_receive hdistinct hr he)
    ⟨fun _ hk => absurd hk not_mem_nil, fun _ h => (nomatch h), fun _ => rfl⟩
    (along_iff.mpr fun pre k post heq => hds k (by rw [heq]; simp))

theorem held_isSome (hdistinct : Distinct time E) (hds : ∀ k ∈ ds, k ∈ E) (hne : ds ≠ []) :
    ∃ e, (run (receive owner time live) {} ds).held = some e := by
  refine Option.ne_none_iff_exists'.mp fun hnone => ?_
  obtain ⟨k, hk⟩ := exists_mem_of_ne_nil _ hne
  have hseen : k ∈ (run (receive owner time live) {} ds).seen := mem_seen_run.mpr (.inr hk)
  rw [(inv_run hdistinct hds).empty hnone] at hseen
  cases hseen

theorem ends_iff (hdistinct : Distinct time E) :
    (∃ ds, (∀ k, k ∈ ds ↔ k ∈ E) ∧ (run (receive owner time live) {} ds).held = some e) ↔
      e ∈ E ∧ CanEnd owner time live E e := by
  unfold CanEnd
  constructor
  · intro ⟨ds, hds, hheld⟩
    have hinv : Inv owner time live E (run (receive owner time live) {} ds) :=
      inv_run hdistinct fun k hk => (hds k).mp hk
    obtain ⟨he, hexplained⟩ := hinv.held e hheld
    have hall (k : ε) (hk : k ∈ E) : k ∈ (run (receive owner time live) {} ds).seen :=
      mem_seen_run.mpr (.inr ((hds k).mpr hk))
    refine ⟨he, ?_⟩
    split
    next hlive =>
      by_cases hlast : ∀ k ∈ E, owner k = owner e → time k ≤ time e
      · exact .inl hlast
      simp only [Classical.not_forall, Nat.not_le, exists_prop] at hlast
      obtain ⟨k, hk, howner, hlt⟩ := hlast
      rcases hexplained with htwice | ⟨s, hs⟩
      · exact .inr (htwice.other _)
      · obtain ⟨hne, hoff⟩ := (hs k (hall k hk) hlt).resolve_left fun h => h.2 howner
        exact .inr ⟨s, fun heq => hne (howner.trans heq.symm), hoff⟩
    next hdead =>
      by_cases hnewest : ∀ k ∈ E, time k ≤ time e
      · exact .inl hnewest
      simp only [Classical.not_forall, Nat.not_le, exists_prop] at hnewest
      obtain ⟨k, hk, hlt⟩ := hnewest
      rcases hexplained with htwice | ⟨s, hs⟩
      · exact .inr (.inl htwice)
      · have hothers (k : ε) (hk : k ∈ E) (hlt : time e < time k) :=
          (hs k (hall k hk) hlt).resolve_left fun h => hdead h.1
        exact .inr (.inr ⟨s, (hothers k hk hlt).2, fun k hk hlt => (hothers k hk hlt).1⟩)
  · intro ⟨he, hends⟩
    have hfirst : (∀ k ∈ E, k = e ∨ time k < time e ∨ owner k ≠ owner e ∧ live e = true) →
        ∃ ds, (∀ k, k ∈ ds ↔ k ∈ E) ∧ (run (receive owner time live) {} ds).held = some e := by
      refine fun hrest => ⟨e :: E, fun k => ?_, ends_first hrest⟩
      rw [mem_cons]
      exact ⟨fun hk => hk.elim (fun heq => heq ▸ he) id, .inr⟩
    have holder {k : ε} (hk : k ∈ E) (hle : time k ≤ time e) : k = e ∨ time k < time e :=
      (Nat.lt_or_eq_of_le hle).symm.imp_left (hdistinct k hk e he)
    split at hends
    next hlive =>
      rcases hends with hlast | ⟨s, hne, hoff⟩
      · refine hfirst fun k hk => ?_
        by_cases howner : owner k = owner e
        · exact (holder hk (hlast k hk howner)).imp_right .inl
        · exact .inr (.inr ⟨howner, hlive⟩)
      · refine ends_after_switchedOff hdistinct he hoff fun k _ _ => ?_
        by_cases howner : owner k = owner e
        · exact .inl fun heq => hne (heq.symm.trans howner)
        · exact .inr ⟨howner, hlive⟩
    next =>
      rcases hends with hnewest | htwice | ⟨s, hoff, hnone⟩
      · exact hfirst fun k hk => (holder hk (hnewest k hk)).imp_right .inl
      · exact ends_after_switchedTwice hdistinct he htwice
      · exact ends_after_switchedOff hdistinct he hoff fun k hk hlt => .inl (hnone k hk hlt)

end Almyty.Lib.StickyRegister
