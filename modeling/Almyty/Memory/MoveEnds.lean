import Almyty.Memory.MoveOnce

/-!
# A move that ends has moved everything

A run ends when a page shows nothing it has not handled. `Ledger` accounts for what it has handled:
a memory that is still in the source is still to do, or its row counts as failed. So a run that got
past the first page either found the source empty or leaves a row that counts as failed, and a count
of none means that nothing is left.
-/

namespace Almyty.Memory.Move

open Almyty.Lib List

variable {κ : Type} (p : Plan κ) (source₀ : List MemoryItem) (expiries₀ : List Expiry)

/-! ## What a run has still to do -/

/-- A row that counts as failed. -/
def Marked (items : List (String × MoveItem)) (key : String) : Prop :=
  ∃ row, items.lookup key = some row ∧ marked row = true

def pending : Phase → List String
  | .finding fresh => fresh.map (keyOf p)
  | .working work _ rest => keyOf p work.item :: rest.map fun entry => keyOf p entry.1
  | _ => []

structure Ledger (s : Shared) (handled : List String) (past : Prop) (keys : List String) : Prop where
  sub : ∀ key ∈ keys, key ∈ handled
  done : ∀ memory ∈ s.source, keyOf p memory ∈ handled → keyOf p memory ∈ keys ∨
    Marked s.items (keyOf p memory)
  passed : past → s.source = [] ∨ ∃ key ∈ handled, key ∉ keys ∧ Marked s.items key

def PhasePage (s : Shared) : Phase → Prop
  | .finding fresh => (fresh.map (keyOf p)).Nodup
  | .working work _ rest => PageGood p s work rest
  | _ => True

structure Book (s : Shared) (run : Run κ) : Prop where
  status : run.move.status ≠ .completed
  page : PhasePage p s run.phase
  ledger : Ledger p s run.handled (run.cursor ≠ none) (pending p run.phase)
  last : run.phase = .tallying true → s.source = [] ∨ ∃ key, Marked s.items key
  finishing : run.phase = .finishing → run.move.failed = 0 → s.source = []

variable {p source₀ expiries₀}

theorem not_marked_of_tally {items : List (String × MoveItem)} (h : tally items = 0) (key : String) :
    ¬ Marked items key := by
  intro hmarked
  obtain ⟨row, hrow, hyes⟩ := hmarked
  have hnone := countP_eq_zero.mp h (key, row) (Assoc.mem_of_lookup hrow)
  exact hnone hyes

theorem marked_of_unsettled {items : List (String × MoveItem)} {key : String} {row : MoveItem}
    (hrow : items.lookup key = some row) (h : ¬ Settled items key) : Marked items key := by
  refine ⟨row, hrow, ?_⟩
  have hfailed : row.state = .failed := by
    by_contra hne
    exact h ⟨row, hrow, hne⟩
  simp [marked, hfailed]

section Ledger

variable {s : Shared} {handled keys : List String} {past : Prop}

theorem Ledger.drop {key : String} (h : Ledger p s handled past (key :: keys))
    (hkey : ∀ memory ∈ s.source, keyOf p memory = key → Marked s.items key) :
    Ledger p s handled past keys where
  sub other hother := h.sub other (mem_cons_of_mem _ hother)
  done memory hmemory hhandled := by
    rcases h.done memory hmemory hhandled with hin | hmarked
    · rcases mem_cons.mp hin with heq | hin
      · rw [heq]
        exact .inr (hkey memory hmemory heq)
      · exact .inl hin
    · exact .inr hmarked
  passed hpast := by
    refine (h.passed hpast).imp_right fun hmarked => ?_
    obtain ⟨other, hother, hnot, hmarked⟩ := hmarked
    exact ⟨other, hother, fun hin => hnot (mem_cons_of_mem _ hin), hmarked⟩

theorem Ledger.frame {s' : Shared} (h : Ledger p s handled past keys)
    (hsource : ∀ memory ∈ s'.source, memory ∈ s.source)
    (hrows : ∀ key, key ∉ keys → s'.items.lookup key = s.items.lookup key) :
    Ledger p s' handled past keys where
  sub := h.sub
  done memory hmemory hhandled := by
    by_cases hin : keyOf p memory ∈ keys
    · exact .inl hin
    · have hmarked := (h.done memory (hsource memory hmemory) hhandled).resolve_left hin
      rw [Marked, hrows _ hin]
      exact .inr hmarked
  passed hpast := by
    rcases h.passed hpast with hnil | ⟨key, hkey, hnot, hmarked⟩
    · refine .inl (eq_nil_iff_forall_not_mem.mpr fun memory hmemory => ?_)
      have hin := hsource memory hmemory
      rw [hnil] at hin
      cases hin
    · refine .inr ⟨key, hkey, hnot, ?_⟩
      rw [Marked, hrows key hnot]
      exact hmarked

theorem nextWork_ledger (hsub : ∀ memory ∈ s.source, memory ∈ source₀)
    (hrests : ∀ memory ∈ source₀, Rests p source₀ expiries₀ s memory) (hs : Sound p source₀)
    {todo : List (MemoryItem × Option MoveItem)} (hloaded : Loaded p s todo)
    (hlisted : ∀ entry ∈ todo, Listed p source₀ entry.1)
    (hnodup : (todo.map fun entry => keyOf p entry.1).Nodup)
    (h : Ledger p s handled past (todo.map fun entry => keyOf p entry.1)) :
    Ledger p s handled past (pending p (nextWork p todo)) ∧ PhasePage p s (nextWork p todo) := by
  induction todo with
  | nil => exact ⟨h, trivial⟩
  | cons entry rest ih =>
    obtain ⟨hentry, hloadedRest⟩ := forall_mem_cons.mp hloaded
    obtain ⟨hitem, hlistedRest⟩ := forall_mem_cons.mp hlisted
    obtain ⟨hnew, hnodupRest⟩ := nodup_cons.mp hnodup
    obtain ⟨item, step⟩ := entry
    dsimp only at hentry hitem hnew
    have hothers : ∀ entry ∈ rest, keyOf p entry.1 ≠ keyOf p item := by
      intro entry hin heq
      exact hnew (heq ▸ mem_map_of_mem (f := fun entry => keyOf p entry.1) hin)
    cases step with
    | none =>
      unfold nextWork
      split <;> exact ⟨h, hloadedRest, hothers, hnodupRest, fun _ => hentry.symm⟩
    | some row =>
      unfold nextWork
      split
      next hskip =>
        refine ih hloadedRest hlistedRest hnodupRest (h.drop fun memory hmemory hkey => ?_)
        have hmem := hsub memory hmemory
        have hrow : s.items.lookup (keyOf p memory) = some row := hkey ▸ hentry.symm
        rcases hskip with hmoved | hunnamed
        · exact absurd hmemory ((hrests memory hmem).moved row hrow hmoved)
        · -- what cannot be deleted has no row but the one that says so
          rw [hitem.eq_read hs hmem hkey.symm, sourceIdOf_read] at hunnamed
          rw [← hkey]
          exact marked_of_unsettled hrow ((hrests memory hmem).unnamed hunnamed)
      next => exact ⟨h, hloadedRest, hothers, hnodupRest, by simp⟩

theorem nextWork_goes_on (todo : List (MemoryItem × Option MoveItem)) :
    nextWork p todo ≠ .tallying true ∧ nextWork p todo ≠ .finishing := by
  induction todo with
  | nil => simp [nextWork]
  | cons entry rest ih =>
    obtain ⟨item, step⟩ := entry
    cases step with
    | none =>
      unfold nextWork
      split <;> simp
    | some row =>
      unfold nextWork
      split
      · exact ih
      · simp

/-! ## A call of a run -/

variable {work : Work} {rest : List (MemoryItem × Option MoveItem)}

variable (p) in
/-- The books after a call about a memory: the run goes on with it or with the next. -/
def Kept.book (s : Shared) (handled : List String) (past : Prop) (phase : Phase) : Prop :=
  Ledger p s handled past (pending p phase) ∧ PhasePage p s phase ∧
    phase ≠ .tallying true ∧ phase ≠ .finishing

variable {point : Point}

theorem Ledger.saveRow (h : Ledger p s handled past (pending p (.working work point rest)))
    {items : List (String × MoveItem)} (hsave : saveRow p s.items work = some items) :
    Ledger p { s with items } handled past (pending p (.working work point rest)) := by
  refine h.frame (fun _ hin => hin) fun key hkey => ?_
  have hne : key ≠ keyOf p work.item := fun heq => hkey (heq ▸ mem_cons_self)
  dsimp only
  rw [saveRow_some hsave, if_neg hne]

theorem still_book {point' : Point} {s' : Shared} {work' : Work}
    (h : Ledger p s handled past (pending p (.working work point rest)))
    (hpage : PageGood p s work rest) (hitem : work'.item = work.item)
    (hstored : work'.stored = work.stored) (hitems : s'.items = s.items)
    (hsource : ∀ memory ∈ s'.source, memory ∈ s.source) :
    Kept.book p s' handled past (.working work' point' rest) := by
  refine ⟨?_, ⟨?_, ?_, hpage.nodup, ?_⟩, nofun, nofun⟩
  · have hframe := h.frame hsource fun key _ => congrArg (List.lookup key) hitems
    rw [pending, hitem]
    exact hframe
  · unfold Loaded
    rw [hitems]
    exact hpage.loaded
  · rw [hitem]
    exact hpage.others
  · rw [hitem, hstored, hitems]
    exact hpage.fresh

theorem saved_book (hs : Sound p source₀) (hsub : ∀ memory ∈ s.source, memory ∈ source₀)
    (hrest : ∀ entry ∈ rest, Listed p source₀ entry.1)
    (h : Ledger p s handled past (pending p (.working work point rest)))
    (hpage : PageGood p s work rest) {items : List (String × MoveItem)}
    (hsave : saveRow p s.items work = some items)
    (hrests : ∀ memory ∈ source₀, Rests p source₀ expiries₀ { s with items } memory)
    (hdone : ∀ memory ∈ s.source, keyOf p memory = keyOf p work.item → marked work.row = true) :
    Kept.book p { s with items } handled past (nextWork p rest) := by
  have hdropped := (h.saveRow hsave).drop fun memory hmemory hkey =>
    ⟨work.row, by rw [saveRow_some hsave, if_pos rfl], hdone memory hmemory hkey⟩
  obtain ⟨hledger, hphase⟩ := nextWork_ledger (s := { s with items }) hsub hrests hs (hpage.loaded_saveRow hsave) hrest
    hpage.nodup hdropped
  exact ⟨hledger, hphase, nextWork_goes_on rest⟩

theorem moveOne_book (hs : Sound p source₀) {made : Made}
    (hsub : ∀ memory ∈ s.source, memory ∈ source₀)
    (hrest : ∀ entry ∈ rest, Listed p source₀ entry.1)
    (h : Ledger p s handled past (pending p (.working work point rest)))
    (hpage : PageGood p s work rest)
    (hfine : ∀ memory ∈ source₀, Fine p source₀ expiries₀ s memory (some (.working work point rest)))
    (hfine' : ∀ memory ∈ source₀, Fine p source₀ expiries₀ (moveOne p s work rest made point).1 memory
      (some (moveOne p s work rest made point).2)) :
    Kept.book p (moveOne p s work rest made point).1 handled past
      (moveOne p s work rest made point).2 := by
  obtain ⟨items, hsave⟩ := hpage.save
  have hat : ∀ memory ∈ s.source, keyOf p memory = keyOf p work.item →
      At p expiries₀ s memory work.row point :=
    fun memory hmemory hkey => (hfine memory (hsub memory hmemory)).at hkey.symm
  cases point with
  | expiry | saveExpiry | deleteExpiries => exact still_book h hpage rfl rfl rfl fun _ hin => hin
  | put due =>
    rw [moveOne]
    dsimp only
    split <;> exact still_book h hpage rfl rfl rfl fun _ hin => hin
  | saveCopied due targetId =>
    unfold moveOne
    simp only [hsave]
    exact ⟨h.saveRow hsave, ⟨hpage.loaded_saveRow hsave, hpage.others, hpage.nodup, by simp⟩,
      by simp, by simp⟩
  | delete => exact still_book h hpage rfl rfl rfl fun _ hin => mem_of_mem_filter hin
  | saveMoved =>
    simp only [moveOne, hsave] at hfine' ⊢
    refine saved_book hs hsub hrest h hpage hsave (fun memory hin => (hfine' memory hin).rests) ?_
    intro memory hmemory hkey
    exact absurd hmemory (hat memory hmemory hkey).2
  | saveError =>
    simp only [moveOne, hsave] at hfine' ⊢
    refine saved_book hs hsub hrest h hpage hsave (fun memory hin => (hfine' memory hin).rests) ?_
    intro memory hmemory hkey
    obtain ⟨herror, -, hstate⟩ := hat memory hmemory hkey
    cases hrow : work.row.state with
    | failed => simp [marked, hrow]
    | copied => simp [marked, hrow, herror]
    | moved =>
      rw [hrow] at hstate
      exact absurd hmemory hstate.2
  | saveUnmovable =>
    simp only [moveOne, hsave] at hfine' ⊢
    refine saved_book hs hsub hrest h hpage hsave (fun memory hin => (hfine' memory hin).rests) ?_
    intro memory hmemory hkey
    simp [marked, (hat memory hmemory hkey).1]

end Ledger

/-! ## Listing -/

section Fresh

variable {key : MemoryItem → String} {handled : List String} {items : List MemoryItem}

theorem freshOf_new : ∀ item ∈ freshOf key handled items, key item ∉ handled := by
  induction items generalizing handled with
  | nil => simp [freshOf]
  | cons item items ih =>
    rw [freshOf]
    split
    next => exact ih
    next hnew =>
      intro other hother
      rcases mem_cons.mp hother with rfl | hother
      · exact hnew
      · exact fun hin => ih other hother (mem_cons_of_mem _ hin)

theorem freshOf_nodup : ((freshOf key handled items).map key).Nodup := by
  induction items generalizing handled with
  | nil => exact nodup_nil
  | cons item items ih =>
    rw [freshOf]
    split
    next => exact ih
    next =>
      refine nodup_cons.mpr ⟨fun hin => ?_, ih⟩
      obtain ⟨other, hother, heq⟩ := mem_map.mp hin
      exact freshOf_new other hother (heq ▸ mem_cons_self)

theorem handled_of_freshOf (h : freshOf key handled items = []) : ∀ item ∈ items, key item ∈ handled := by
  induction items with
  | nil => simp
  | cons item items ih =>
    rw [freshOf] at h
    split at h
    next hin => exact forall_mem_cons.mpr ⟨hin, ih h⟩
    next => cases h

end Fresh

variable {s : Shared} {run : Run κ}

/-- A page that shows nothing new ends the first page for good, unless what is counts as failed. -/
theorem passed_of_listed (hs : Sound p source₀) (hsub : ∀ memory ∈ s.source, memory ∈ source₀)
    (h : Ledger p s run.handled (run.cursor ≠ none) [])
    (hfresh : freshOf (keyOf p) run.handled (p.source.list s.source run.cursor).items = []) :
    s.source = [] ∨ ∃ key ∈ run.handled, key ∉ ([] : List String) ∧ Marked s.items key := by
  by_cases hcursor : run.cursor = none
  · rw [hcursor] at hfresh
    cases hitems : (p.source.list s.source none).items with
    | nil =>
      exact .inl (p.source.list_first s.source
        (fun memory hmemory => hs.covers memory (hsub memory hmemory)) hitems)
    | cons item items =>
      have hin : item ∈ (p.source.list s.source none).items := by
        rw [hitems]
        exact mem_cons_self
      have hhandled := handled_of_freshOf hfresh item hin
      obtain ⟨memory, hmemory, rfl⟩ := p.source.list_read _ _ item hin
      rw [keyOf_read] at hhandled
      have hmarked := (h.done memory hmemory hhandled).resolve_left not_mem_nil
      exact .inr ⟨_, hhandled, not_mem_nil, hmarked⟩
  · exact h.passed hcursor

theorem listed_book [DecidableEq κ] (hs : Sound p source₀)
    (hsub : ∀ memory ∈ s.source, memory ∈ source₀) (hphase : run.phase = .listing)
    (h : Book p s run) : Book p s (listed p s run) := by
  have hledger : Ledger p s run.handled (run.cursor ≠ none) [] := by
    have hbefore := h.ledger
    rwa [hphase] at hbefore
  unfold listed
  dsimp only
  split
  next hfresh =>
    have hpassed := passed_of_listed hs hsub hledger hfresh
    have hlast : s.source = [] ∨ ∃ key, Marked s.items key := by
      refine hpassed.imp_right fun hmarked => ?_
      obtain ⟨key, -, -, hmarked⟩ := hmarked
      exact ⟨key, hmarked⟩
    split
    next => exact ⟨h.status, trivial, hledger, fun _ => hlast, nofun⟩
    next =>
      split
      next => exact ⟨h.status, trivial, hledger, fun _ => hlast, nofun⟩
      next =>
        exact ⟨h.status, trivial, ⟨hledger.sub, hledger.done, fun _ => hpassed⟩, nofun, nofun⟩
  next hfresh =>
    refine ⟨h.status, freshOf_nodup, ⟨fun key hkey => mem_append_left _ hkey, ?_, ?_⟩, nofun, nofun⟩
    · intro memory hmemory hhandled
      rcases mem_append.mp hhandled with hnew | hold
      · exact .inl hnew
      · exact .inr ((hledger.done memory hmemory hold).resolve_left not_mem_nil)
    · intro hcursor
      refine (hledger.passed hcursor).imp_right fun hmarked => ?_
      obtain ⟨key, hkey, -, hmarked⟩ := hmarked
      refine ⟨key, mem_append_right _ hkey, fun hin => ?_, hmarked⟩
      obtain ⟨item, hitem, rfl⟩ := mem_map.mp hin
      exact freshOf_new item hitem hkey

/-! ## Every call -/

variable (p source₀ expiries₀) in
/-- What holds while one run goes at a time. -/
structure Good (s : Shared) (run : Option (Run κ)) : Prop where
  fine : ∀ memory ∈ source₀, Fine p source₀ expiries₀ s memory (run.map (·.phase))
  book : ∀ run', run = some run' → run'.phase ≠ .failing → run'.phase ≠ .savingFailed →
    Book p s run'
  ended : s.move.status = .completed → s.move.failed = 0 → s.source = []

theorem moveOne_move (s : Shared) (work : Work) (rest : List (MemoryItem × Option MoveItem))
    (made : Made) (point : Point) : (moveOne p s work rest made point).1.move = s.move := by
  cases point with
  | put due =>
    rw [moveOne]
    dsimp only
    split <;> rfl
  | saveCopied due targetId =>
    unfold moveOne
    dsimp only
    split <;> rfl
  | saveMoved | saveError | saveUnmovable => rw [moveOne]; split <;> rfl
  | _ => rfl

theorem moveOne_source (s : Shared) (work : Work) (rest : List (MemoryItem × Option MoveItem))
    (made : Made) (point : Point) :
    ∀ memory ∈ (moveOne p s work rest made point).1.source, memory ∈ s.source := by
  cases point with
  | put due =>
    rw [moveOne]
    dsimp only
    split <;> exact fun _ hin => hin
  | saveCopied due targetId =>
    unfold moveOne
    dsimp only
    split <;> exact fun _ hin => hin
  | delete => exact fun _ hin => mem_of_mem_filter hin
  | saveMoved | saveError | saveUnmovable => rw [moveOne]; split <;> exact fun _ hin => hin
  | _ => exact fun _ hin => hin

theorem hand_listed [DecidableEq κ] (s : Shared) (run : Run κ) (memory : MemoryItem) : hand p memory (some (listed p s run).phase) = none := by
  unfold listed
  dsimp only
  split
  · split
    · rfl
    · split <;> rfl
  · rfl

theorem fine_empty {phase phase' : Option Phase} (move : MoveRow)
    (h : ∀ memory ∈ source₀, Fine p source₀ expiries₀ s memory phase)
    (hbefore : ∀ memory, hand p memory phase = none)
    (hafter : ∀ memory, hand p memory phase' = none) :
    ∀ memory ∈ source₀, Fine p source₀ expiries₀ { s with move } memory phase' :=
  fun memory hmemory => (h memory hmemory).frame
    ⟨rfl, rfl, id, fun hout hin => absurd hin hout, rfl, id⟩ (hbefore memory) (hafter memory)

theorem fine_released (hs : Sound p source₀) {work : Work} {point : Point}
    {rest : List (MemoryItem × Option MoveItem)} (hlisted : Listed p source₀ work.item)
    (h : ∀ memory ∈ source₀, Fine p source₀ expiries₀ s memory (some (.working work point rest)))
    (hloses : ¬ crashLoses p s work point) {phase' : Option Phase}
    (hafter : ∀ memory, hand p memory phase' = none) :
    ∀ memory ∈ source₀, Fine p source₀ expiries₀ s memory phase' := by
  intro memory hmemory
  have hfine := h memory hmemory
  refine .of_idle hfine.rests ?_ (hafter memory)
  by_cases hkey : keyOf p work.item = keyOf p memory
  · exact (hfine.at hkey).idle hfine.rests hkey (hlisted.eq_read hs hmemory hkey) hloses
  · exact hfine.other hkey

theorem fail_good [DecidableEq κ] (hs : Sound p source₀)
    (hphase : PhaseSafe p source₀ s.target run.phase) (h : Good p source₀ expiries₀ s (some run))
    (message : String)
    (hloses : ∀ work point rest, run.phase = .working work point rest → ¬ failLoses p s work point) :
    Good p source₀ expiries₀ (advance p s run (.fail message)).1
      (advance p s run (.fail message)).2 := by
  have hstops : (∀ memory, hand p memory (some run.phase) = none) →
      Good p source₀ expiries₀ s (some { run with phase := .failing }) := by
    intro hempty
    exact ⟨fine_empty s.move h.fine hempty fun _ => rfl,
      fun run' hrun' hfailing => absurd (Option.some.inj hrun' ▸ rfl) hfailing, h.ended⟩
  obtain ⟨move, handled, cursors, cursor, phase⟩ := run
  cases phase with
  | working work point rest =>
    have hnot := hloses work point rest rfl
    have hreleased : ¬ crashLoses p s work point →
        Good p source₀ expiries₀ s (some ⟨move, handled, cursors, cursor, .failing⟩) := by
      intro hcrash
      exact ⟨fine_released hs hphase.1.listed h.fine hcrash fun _ => rfl,
        fun run' hrun' hfailing => absurd (Option.some.inj hrun' ▸ rfl) hfailing, h.ended⟩
    have hcaught : point ≠ .saveError ∧ point ≠ .saveUnmovable →
        Good p source₀ expiries₀ s (some ⟨move, handled, cursors, cursor, caught work message rest⟩) := by
      intro hcatch
      have hbook := h.book _ rfl nofun nofun
      refine ⟨?_, fun run' hrun' _ _ => ?_, h.ended⟩
      · refine step_fine h.fine rfl (fun memory hmemory hkey => ?_) fun _ _ _ => .rfl
        have hrests := (h.fine memory hmemory).rests
        exact ⟨hrests, At.caught hrests ((h.fine memory hmemory).at hkey) work hcatch hnot rfl rfl⟩
      · obtain rfl := Option.some.inj hrun'
        have hstill : Kept.book p s handled (cursor ≠ none) (caught work message rest) :=
          still_book hbook.ledger hbook.page rfl rfl rfl fun _ hin => hin
        obtain ⟨hledger, hpage, -, -⟩ := hstill
        exact ⟨hbook.status, hpage, hledger, nofun, nofun⟩
    cases point with
    | saveError | saveUnmovable => exact hreleased hnot
    | _ => exact hcaught ⟨nofun, nofun⟩
  | failing =>
    exact ⟨fine_empty s.move h.fine (fun _ => rfl) fun _ => rfl,
      fun run' hrun' _ hsaving => absurd (Option.some.inj hrun' ▸ rfl) hsaving, h.ended⟩
  | savingFailed =>
    exact ⟨fine_empty s.move h.fine (fun _ => rfl) fun _ => rfl, fun _ hrun' => (nomatch hrun'), h.ended⟩
  | listing | finding | tallying | finishing => exact hstops fun _ => rfl

theorem ok_good [DecidableEq κ] (hs : Sound p source₀) (hsafe : Safe p source₀ s)
    (hphase : PhaseSafe p source₀ s.target run.phase) (h : Good p source₀ expiries₀ s (some run))
    {made : Made} (hnew : New p source₀ s made)
    (hcall : ∀ work point rest, run.phase = .working work point rest → DateTravels p made point ∧
      (point = .delete → ∀ memory ∈ s.source, cascades p s.source (keyOf p work.item) memory = true →
        copies s.target (keyOf p memory) ≠ [])) :
    Good p source₀ expiries₀ (advance p s run (.ok made)).1 (advance p s run (.ok made)).2 := by
  have hbook := h.book run rfl
  obtain ⟨move, handled, cursors, cursor, phase⟩ := run
  cases phase with
  | listing =>
    refine ⟨fine_empty s.move h.fine (fun _ => rfl) (hand_listed s _), fun run' hrun' _ _ => ?_, h.ended⟩
    obtain rfl := Option.some.inj hrun'
    exact listed_book hs hsafe.sub rfl (hbook nofun nofun)
  | finding fresh =>
    have hb := hbook nofun nofun
    have hloaded : Loaded p s (fresh.map fun item => (item, s.items.lookup (keyOf p item))) := by
      intro entry hentry
      obtain ⟨item, -, rfl⟩ := mem_map.mp hentry
      rfl
    have hlisted : ∀ entry ∈ fresh.map fun item => (item, s.items.lookup (keyOf p item)),
        Listed p source₀ entry.1 := by
      intro entry hentry
      obtain ⟨item, hitem, rfl⟩ := mem_map.mp hentry
      exact hphase item hitem
    have hkeys : (fresh.map fun item => (item, s.items.lookup (keyOf p item))).map
        (fun entry => keyOf p entry.1) = fresh.map (keyOf p) := by
      rw [map_map]
      rfl
    refine ⟨fun memory hmemory => ?_, fun run' hrun' _ _ => ?_, h.ended⟩
    · exact nextWork_fine hs hloaded hlisted hmemory (h.fine memory hmemory).rests
        ((h.fine memory hmemory).idle rfl)
    · obtain rfl := Option.some.inj hrun'
      obtain ⟨hledger, hpage⟩ := nextWork_ledger hsafe.sub (fun memory hin => (h.fine memory hin).rests)
        hs hloaded hlisted (by rw [hkeys]; exact hb.page) (by rw [hkeys]; exact hb.ledger)
      have hgoes := nextWork_goes_on (p := p) (fresh.map fun item => (item, s.items.lookup (keyOf p item)))
      exact ⟨hb.status, hpage, hledger, fun hlast => absurd hlast hgoes.1,
        fun hlast => absurd hlast hgoes.2⟩
  | working work point rest =>
    have hb := hbook nofun nofun
    obtain ⟨htravels, hchunks⟩ := hcall work point rest rfl
    have hfine := moveOne_fine hs hsafe hphase hb.page h.fine hnew hchunks htravels
    refine ⟨hfine, fun run' hrun' _ _ => ?_, fun hcompleted hnone => ?_⟩
    · obtain rfl := Option.some.inj hrun'
      obtain ⟨hledger, hpage, hlast, hfinishing⟩ := moveOne_book hs hsafe.sub
        (fun entry hentry => (hphase.2 entry hentry).1) hb.ledger hb.page h.fine hfine
      exact ⟨hb.status, hpage, hledger, fun heq => absurd heq hlast, fun heq => absurd heq hfinishing⟩
    · have hmove : (moveOne p s work rest made point).1.move = s.move := moveOne_move s work rest made point
      have hbefore : s.source = [] := h.ended (hmove ▸ hcompleted) (hmove ▸ hnone)
      refine eq_nil_iff_forall_not_mem.mpr fun memory hmemory => ?_
      have hin := moveOne_source s work rest made point memory hmemory
      rw [hbefore] at hin
      cases hin
  | tallying last =>
    have hb := hbook nofun nofun
    refine ⟨fine_empty _ h.fine (fun _ => rfl) fun memory => ?_, fun run' hrun' _ _ => ?_,
      fun hcompleted _ => absurd hcompleted hb.status⟩
    · show hand p memory (some (if last then _ else _)) = none
      split <;> rfl
    · obtain rfl := Option.some.inj hrun'
      cases last with
      | true =>
        refine ⟨hb.status, trivial, ⟨hb.ledger.sub, hb.ledger.done, hb.ledger.passed⟩, nofun,
          fun _ hnone => ?_⟩
        rcases hb.last rfl with hnil | ⟨key, hmarked⟩
        · exact hnil
        · exact absurd hmarked (not_marked_of_tally hnone key)
      | false => exact ⟨hb.status, trivial, ⟨hb.ledger.sub, hb.ledger.done, hb.ledger.passed⟩, nofun, nofun⟩
  | finishing =>
    have hb := hbook nofun nofun
    exact ⟨fine_empty _ h.fine (fun _ => rfl) fun _ => rfl, fun _ hrun' => (nomatch hrun'),
      fun _ hnone => hb.finishing rfl hnone⟩
  | failing =>
    exact ⟨fine_empty _ h.fine (fun _ => rfl) fun _ => rfl,
      fun run' hrun' _ hsaving => absurd (Option.some.inj hrun' ▸ rfl) hsaving,
      fun hcompleted => (nomatch hcompleted)⟩
  | savingFailed =>
    exact ⟨fine_empty _ h.fine (fun _ => rfl) fun _ => rfl, fun _ hrun' => (nomatch hrun'),
      fun hcompleted => (nomatch hcompleted)⟩

/-! ## Somebody touches the move's row -/

section MoveRow

variable {s : Shared}

theorem At.move (move : MoveRow) {memory : MemoryItem} {row : MoveItem} {point : Point}
    (h : At p expiries₀ s memory row point) : At p expiries₀ { s with move } memory row point := by
  have hwaiting : ∀ {row}, Waiting p s memory row → Waiting p { s with move } memory row :=
    fun hw => ⟨hw.named, hw.row, hw.unsettled, hw.none⟩
  have hlanded : ∀ {row state}, Landed p expiries₀ s memory row state →
      Landed p expiries₀ { s with move } memory row state :=
    fun hl => ⟨hl.row, hl.settled, hl.dated⟩
  cases point with
  | expiry => exact hwaiting h
  | put due => exact ⟨hwaiting h.1, h.2⟩
  | saveCopied due targetId => exact ⟨h.named, h.row, h.unsettled, h.date, h.native, h.outside⟩
  | saveExpiry | saveUnmovable => exact h
  | delete => exact hlanded h
  | deleteExpiries | saveMoved => exact ⟨hlanded h.1, h.2⟩
  | saveError =>
    obtain ⟨herror, hnamed, hstate⟩ := h
    refine ⟨herror, hnamed, ?_⟩
    cases hrow : row.state with
    | failed =>
      rw [hrow] at hstate
      exact hwaiting hstate
    | copied =>
      rw [hrow] at hstate
      exact hstate
    | moved =>
      rw [hrow] at hstate
      exact ⟨hlanded hstate.1, hstate.2⟩

theorem Fine.move (move : MoveRow) {memory : MemoryItem} {phase : Option Phase}
    (h : Fine p source₀ expiries₀ s memory phase) :
    Fine p source₀ expiries₀ { s with move } memory phase where
  rests := ⟨h.rests.once, h.rests.left, h.rests.moved, h.rests.unnamed, h.rests.due, h.rests.apart⟩
  idle hhand := ⟨(h.idle hhand).none, (h.idle hhand).dated⟩
  held row point hheld := (h.held row point hheld).move move

theorem Book.move (move : MoveRow) {run : Run κ} (h : Book p s run) : Book p { s with move } run where
  status := h.status
  page := by
    obtain ⟨row, handled, cursors, cursor, phase⟩ := run
    cases phase with
    | working work point rest => exact ⟨h.page.loaded, h.page.others, h.page.nodup, h.page.fresh⟩
    | finding fresh => exact h.page
    | _ => trivial
  ledger := ⟨h.ledger.sub, h.ledger.done, h.ledger.passed⟩
  last := h.last
  finishing := h.finishing

theorem Good.move (move : MoveRow) {run : Option (Run κ)} (h : Good p source₀ expiries₀ s run)
    (hstatus : move.status ≠ .completed) : Good p source₀ expiries₀ { s with move } run where
  fine memory hmemory := (h.fine memory hmemory).move move
  book run' hrun' hfailing hsaving := (h.book run' hrun' hfailing hsaving).move move
  ended hcompleted := absurd hcompleted hstatus

end MoveRow

/-! ## Runs of a move -/

section Runs

variable (p source₀ expiries₀) in
/-- What a step must not be for a move to double nothing and to keep every due date: a run
beside another one, or the end of a call that loses what the next run cannot know. -/
def Careful (w : World κ) (event : Event) : Prop :=
  Orderly p source₀ w event ∧
    match event with
    | .resume _ => True
    | .begin _ saved => saved = true → ∀ r, w.runs r = none
    | .crash r => ∀ run work point rest, w.runs r = some run →
      run.phase = .working work point rest → ¬ crashLoses p w.shared work point
    | .answer r (.fail _) => ∀ run work point rest, w.runs r = some run →
      run.phase = .working work point rest → ¬ failLoses p w.shared work point
    | .answer r (.ok made) => ∀ run work point rest, w.runs r = some run →
      run.phase = .working work point rest → DateTravels p made point

variable (p source₀ expiries₀) in
structure WorldGood (w : World κ) : Prop where
  safe : WorldSafe p source₀ w
  good : ∃ r, (∀ r', r' ≠ r → w.runs r' = none) ∧ Good p source₀ expiries₀ w.shared (w.runs r)

theorem Good.of_empty {s : Shared} (h : Good p source₀ expiries₀ s (none : Option (Run κ))) :
    ∀ memory ∈ source₀, Fine p source₀ expiries₀ s memory none := h.fine

theorem Good.crash {s : Shared} {run : Option (Run κ)} (hs : Sound p source₀)
    (hphase : ∀ run', run = some run' → PhaseSafe p source₀ s.target run'.phase)
    (h : Good p source₀ expiries₀ s run)
    (hloses : ∀ run' work point rest, run = some run' → run'.phase = .working work point rest →
      ¬ crashLoses p s work point) : Good p source₀ expiries₀ s (none : Option (Run κ)) := by
  refine ⟨?_, fun _ hrun' => (nomatch hrun'), h.ended⟩
  cases run with
  | none => exact h.fine
  | some run =>
    obtain ⟨move, handled, cursors, cursor, phase⟩ := run
    cases phase with
    | working work point rest =>
      exact fine_released hs (hphase _ rfl).1.listed h.fine (hloses _ work point rest rfl rfl) fun _ => rfl
    | _ => exact fine_empty s.move h.fine (fun _ => rfl) fun _ => rfl

theorem step_good [DecidableEq κ] (hs : Sound p source₀) (w : World κ) (event : Event)
    (h : WorldGood p source₀ expiries₀ w) (hcareful : Careful p source₀ w event) :
    WorldGood p source₀ expiries₀ (step p w event) := by
  refine ⟨step_safe hs w event h.safe hcareful.1, ?_⟩
  obtain ⟨horderly, hcareful⟩ := hcareful
  obtain ⟨r₀, hone, hgood⟩ := h.good
  cases event with
  | resume stale =>
    unfold step
    dsimp only
    split
    · exact ⟨r₀, hone, hgood.move _ nofun⟩
    · exact ⟨r₀, hone, hgood⟩
  | begin r saved =>
    unfold step
    dsimp only
    split
    · exact ⟨r₀, hone, hgood⟩
    split
    · exact ⟨r₀, hone, hgood⟩
    next hstarts =>
      rw [not_or, Bool.not_eq_false] at hstarts
      have hempty := hcareful hstarts.2
      refine ⟨r, fun r' hr' => ?_, ?_⟩
      · dsimp only
        rw [Function.update_of_ne hr']
        exact hempty r'
      · rw [hempty r₀] at hgood
        dsimp only
        rw [Function.update_self]
        refine ⟨fine_empty _ hgood.of_empty (fun _ => rfl) fun _ => rfl, fun run' hrun' _ _ => ?_, nofun⟩
        obtain rfl := Option.some.inj hrun'
        exact ⟨nofun, trivial, ⟨nofun, fun _ _ hin => (nomatch hin), fun hcursor => absurd rfl hcursor⟩,
          nofun, nofun⟩
  | crash r =>
    rw [step]
    refine ⟨r₀, fun r' hr' => ?_, ?_⟩
    · by_cases hr : r' = r
      · rw [hr]
        exact Function.update_self ..
      · dsimp only
        rw [Function.update_of_ne hr]
        exact hone r' hr'
    · by_cases hr : r₀ = r
      · subst hr
        dsimp only
        rw [Function.update_self]
        exact hgood.crash hs (h.safe.runs r₀) hcareful
      · dsimp only
        rw [Function.update_of_ne hr]
        exact hgood
  | answer r reply =>
    rw [step]
    cases hrun : w.runs r with
    | none => exact ⟨r₀, hone, hgood⟩
    | some run =>
      have hr : r = r₀ := by
        by_contra hne
        rw [hone r hne] at hrun
        cases hrun
      subst hr
      rw [hrun] at hgood
      have hphase := h.safe.runs r run hrun
      refine ⟨r, fun r' hr' => ?_, ?_⟩
      · dsimp only
        rw [Function.update_of_ne hr']
        exact hone r' hr'
      · dsimp only
        rw [Function.update_self]
        cases reply with
        | fail message => exact fail_good hs hphase hgood message fun work point rest => hcareful run work point rest hrun
        | ok made =>
          obtain ⟨hnew, hchunks⟩ := horderly run hrun
          refine ok_good hs h.safe.stored hphase hgood hnew fun work point rest hwork => ?_
          refine ⟨hcareful run work point rest hrun hwork, fun hdelete => ?_⟩
          rw [hdelete] at hwork
          exact hchunks work rest hwork

theorem started_good (target : List MemoryItem) :
    WorldGood p source₀ expiries₀ (started (κ := κ) source₀ target expiries₀) := by
  have hnone : ∀ key, copies (target.map fun item => ⟨item, none⟩) key = [] := by
    intro key
    rw [copies, map_eq_nil_iff, filter_eq_nil_iff]
    intro kept hkept horigin
    obtain ⟨item, -, rfl⟩ := mem_map.mp hkept
    simp at horigin
  have hunsettled : ∀ key, ¬ Settled [] key := fun key hsettled => by
    obtain ⟨row, hrow, -⟩ := hsettled
    cases hrow
  refine ⟨started_safe target expiries₀, 0, fun _ _ => rfl, ?_, by simp [started], by simp [started]⟩
  intro memory hmemory
  refine .of_idle ⟨?_, fun hgone => absurd hmemory hgone, by simp [started], fun _ => hunsettled _, fun _ => rfl, ?_⟩
    ⟨fun _ _ => hnone _, fun hsettled => absurd hsettled (hunsettled _)⟩ rfl
  · show (copies (target.map _) _).length ≤ 1
    rw [hnone]
    exact Nat.zero_le 1
  · intro _ copy hcopy
    have hnil : copies (started (κ := κ) source₀ target expiries₀).shared.target (keyOf p memory) = [] :=
      hnone _
    rw [hnil] at hcopy
    cases hcopy

/-- What a move keeps, with any calls failing and any processes going away: no memory is lost,
chunks of a deleted document apart; and with one run at a time that ends at no unsafe point, a
completed move has every memory once, due when it was. -/
theorem moving_keeps [DecidableEq κ] (p : Plan κ) (source target : List MemoryItem)
    (expiries : List Expiry) (hs : Sound p source) (events : List Event) :
    (Steps.Along (step p) (Orderly p source) (started source target expiries) events →
      NeverLost p source (Steps.run (step p) (started source target expiries) events).shared) ∧
    (Steps.Along (step p) (Careful p source) (started source target expiries) events →
      ((Steps.run (step p) (started source target expiries) events).shared.move.status = .completed →
        (Steps.run (step p) (started source target expiries) events).shared.move.failed = 0 →
        ∀ memory ∈ source,
          memory ∉ (Steps.run (step p) (started source target expiries) events).shared.source ∧
          (copies (Steps.run (step p) (started source target expiries) events).shared.target
            (keyOf p memory)).length = 1) ∧
      ∀ memory ∈ source,
        memory ∉ (Steps.run (step p) (started source target expiries) events).shared.source →
        Dated p expiries (Steps.run (step p) (started source target expiries) events).shared memory) := by
  constructor
  · intro horderly
    exact (Steps.run_invariant (WorldSafe p source) (step_safe hs)
      (started_safe target expiries) horderly).stored.kept
  · intro hcareful
    have hend := Steps.run_invariant (WorldGood p source expiries) (step_good hs)
      (started_good target) hcareful
    obtain ⟨r, -, hgood⟩ := hend.good
    refine ⟨fun hcompleted hnone memory hmemory => ?_, fun memory hmemory hgone =>
      (hgood.fine memory hmemory).dated hgone⟩
    have hempty := hgood.ended hcompleted hnone
    have hgone : memory ∉ (Steps.run (step p) (started source target expiries) events).shared.source := by
      rw [hempty]
      exact not_mem_nil
    have hkept := (hend.safe.stored.kept memory hmemory).resolve_left hgone
    have honce := (hgood.fine memory hmemory).rests.once
    have hpos := length_pos_iff.mpr hkept
    exact ⟨hgone, by omega⟩

end Runs

/-! ## Out of almyty's own store -/

theorem nativeList_first {db : RowOrder} {scope : ScopeRef} {mode : Mode} {kept : List MemoryItem}
    (hcovers : ∀ memory ∈ kept, memory.scope = scope ∧ memory.mode = mode ∧ memory.isCurrent = true)
    (hitems : (nativeList db kept
      { scope, mode := some mode, limit := some 100, cursor := none }).items = []) : kept = [] := by
  have hall : kept.filter (fun row =>
      matchesQuery { scope, mode := some mode, limit := some 100, cursor := (none : Option Int) } row &&
        (none : Option Int).all (row.createdAt < ·)) = kept := by
    apply filter_eq_self.mpr
    intro row hrow
    obtain ⟨hscope, hmode, hcurrent⟩ := hcovers row hrow
    simp only [MemoryItem.isCurrent, Bool.and_eq_true] at hcurrent
    simp [matchesQuery, hscope, hmode, hcurrent]
  rw [nativeList, hall] at hitems
  have hshown := map_eq_nil_iff.mp hitems
  have hperm := (db.perm kept).length_eq
  apply length_eq_zero_iff.mp
  split at hshown
  all_goals
    have hlength := congrArg List.length hshown
    simp only [length_take, length_nil, pageLimit, Option.getD_some] at hlength
    omega

/-- The account memories are moved from when it is almyty's own store. -/
def nativeAccount (db : RowOrder) (scope : ScopeRef) (mode : Mode) : Account Int where
  service := nativeService
  list kept cursor := nativeList db kept { scope, mode := some mode, limit := some 100, cursor }
  read := entityToItem
  read_id _ := rfl
  read_nativeId _ := rfl
  list_read kept cursor item hitem := by
    obtain ⟨row, hrow, -, rfl⟩ := nativeList_rows hitem
    exact ⟨row, hrow, rfl⟩
  covers memory := memory.scope = scope ∧ memory.mode = mode ∧ memory.isCurrent = true
  list_first kept hcovers hitems := nativeList_first hcovers hitems

/-- Moving memories of one kind out of almyty's own store, to Mem0. -/
def outOfNative (mode : Mode) : Plan Int where
  source := nativeAccount insertionOrder workspace mode
  target := "mem0"
  scope := workspace
  mode
  valid := validateMemoryItem

/-- A note to be kept for a minute. -/
def reminder : MemoryItem := { note with ttlSeconds := some 60 }

def answered (id : String) : Event :=
  .answer 0 (.ok ⟨"0190c5b8-7b1e-7c3d-9a2f-5e4d3c2b1aff", 1000000, some id⟩)

def wholeRun : List Event := .begin 0 true :: List.replicate 13 (answered "m1")

theorem sound_reminder : Sound (outOfNative .memory) [reminder] where
  covers memory hmemory := by
    obtain rfl := mem_singleton.mp hmemory
    exact ⟨rfl, rfl, rfl⟩
  keys := nodup_singleton _
  ids hnative := absurd hnative (by decide)
  apart _ := by decide

theorem careful_working {w : World κ} {r : Nat} {made : Made} {work : Work} (point : Point)
    {rest : List (MemoryItem × Option MoveItem)}
    (hrun : (w.runs r).map (·.phase) = some (.working work point rest))
    (hnew : New p source₀ w.shared made) (htravels : DateTravels p made point)
    (hchunks : point = .delete → ∀ memory ∈ w.shared.source,
      cascades p w.shared.source (keyOf p work.item) memory = true →
        copies w.shared.target (keyOf p memory) ≠ []) :
    Careful p source₀ w (.answer r (.ok made)) := by
  have hphase : ∀ run, w.runs r = some run → run.phase = .working work point rest := by
    intro run hr
    rw [hr] at hrun
    exact Option.some.inj hrun
  refine ⟨fun run hr => ⟨hnew, fun work' rest' hwork => ?_⟩, fun run work' point' rest' hr hwork => ?_⟩
  · rw [hphase run hr] at hwork
    obtain ⟨rfl, rfl, rfl⟩ := Phase.working.inj hwork
    exact hchunks rfl
  · rw [hphase run hr] at hwork
    obtain ⟨rfl, rfl, rfl⟩ := Phase.working.inj hwork
    exact htravels

theorem careful_free {w : World κ} {r : Nat} {made : Made} (phase : Phase)
    (hrun : (w.runs r).map (·.phase) = some phase := by decide)
    (hfree : ∀ work point rest, phase ≠ .working work point rest := by exact fun _ _ _ h => nomatch h)
    (hnew : New p source₀ w.shared made := by decide) : Careful p source₀ w (.answer r (.ok made)) := by
  have hphase : ∀ run, w.runs r = some run → run.phase = phase := by
    intro run hr
    rw [hr] at hrun
    exact Option.some.inj hrun
  exact ⟨fun run hr => ⟨hnew, fun work rest hwork => absurd (hphase run hr ▸ hwork) (hfree _ _ _)⟩,
    fun run work point rest hr hwork => absurd (hphase run hr ▸ hwork) (hfree _ _ _)⟩

theorem careful_wholeRun :
    Steps.Along (step (outOfNative .memory)) (Careful (outOfNative .memory) [reminder])
      (started [reminder] [] []) wholeRun := by
  refine ⟨⟨trivial, fun _ _ => rfl⟩, ?_, ?_, ?_, ?_, ?_, ?_, ?_, ?_, ?_, ?_, ?_, ?_, ?_, trivial⟩
  · exact careful_free .listing
  · exact careful_free (.finding [reminder])
  · exact careful_working .expiry rfl (by decide) trivial fun h => (nomatch h)
  · exact careful_working (.put (some 60000000)) rfl (by decide) (fun h => (nomatch h))
      fun h => (nomatch h)
  · exact careful_working (.saveCopied (some 60000000) (some "m1")) rfl (by decide) trivial
      fun h => (nomatch h)
  · exact careful_working (.saveExpiry (some 60000000) "m1") rfl (by decide) trivial
      fun h => (nomatch h)
  · exact careful_working .delete rfl (by decide) trivial (by decide)
  · exact careful_working .deleteExpiries rfl (by decide) trivial fun h => (nomatch h)
  · exact careful_working .saveMoved rfl (by decide) trivial fun h => (nomatch h)
  · exact careful_free (.tallying false)
  · exact careful_free .listing
  · exact careful_free (.tallying true)
  · exact careful_free .finishing

/-- The note is moved, once, with its due date. -/
theorem reminder_moved :
    (Steps.run (step (outOfNative .memory)) (started [reminder] [] []) wholeRun).shared.move
        = ⟨.completed, 0⟩ ∧
      (∀ memory ∈ [reminder],
        memory ∉ (Steps.run (step (outOfNative .memory)) (started [reminder] [] []) wholeRun).shared.source ∧
        (copies (Steps.run (step (outOfNative .memory)) (started [reminder] [] []) wholeRun).shared.target
          (keyOf (outOfNative .memory) memory)).length = 1) ∧
      Dated (outOfNative .memory) []
        (Steps.run (step (outOfNative .memory)) (started [reminder] [] []) wholeRun).shared reminder := by
  have hkeeps := (moving_keeps (outOfNative .memory) [reminder] [] [] sound_reminder wholeRun).2
    careful_wholeRun
  exact ⟨by decide, hkeeps.1 (by decide) (by decide),
    hkeeps.2 reminder (mem_singleton_self _) (by decide)⟩

/-- The process goes away after the put and before the row; the move is resumed. -/
def crashedRun : List Event :=
  .begin 0 true :: List.replicate 4 (answered "m1") ++ [.crash 0, .resume true] ++
    .begin 0 true :: List.replicate 13 (answered "m2")

def handbook : MemoryItem where
  id := "0190c5b8-7b1e-7c3d-9a2f-5e4d3c2b1a01"
  mode := .document
  scope := workspace
  content := "one"
  createdAt := 0
  updatedAt := 0

def page : MemoryItem :=
  { handbook with id := "0190c5b8-7b1e-7c3d-9a2f-5e4d3c2b1a02", chunkOf := some handbook.id }

/-- A resumed move ends with two copies of the note, and one of a document has lost a chunk. -/
theorem note_doubled_chunk_lost :
    ¬ ((Steps.run (step (outOfNative .memory)) (started [reminder] [] []) crashedRun).shared.move.status
          = .completed →
        (Steps.run (step (outOfNative .memory)) (started [reminder] [] []) crashedRun).shared.move.failed = 0 →
        ∀ memory ∈ [reminder],
          memory ∉ (Steps.run (step (outOfNative .memory)) (started [reminder] [] []) crashedRun).shared.source ∧
          (copies
            (Steps.run (step (outOfNative .memory)) (started [reminder] [] []) crashedRun).shared.target
            (keyOf (outOfNative .memory) memory)).length = 1) ∧
      ¬ NeverLost (outOfNative .document) [handbook, page]
        (Steps.run (step (outOfNative .document)) (started [handbook, page] [] [])
          (.begin 0 true :: List.replicate 7 (answered "m1"))).shared := by
  constructor
  · decide
  · intro h
    have hpage := h page (by decide)
    revert hpage
    decide

end Almyty.Memory.Move
