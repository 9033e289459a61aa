import Almyty.Memory.Move

/-!
# A move loses no memory

Whatever fails, whichever process goes away and however many runs of the move go at once, a memory
of the source is at every moment there or on the target (`Safe`, `step_safe`), with one exception:
almyty's own store deletes the chunks of a document with it, copied or not. `Orderly` leaves that
step out.
-/

namespace Almyty.Memory.Move

open Almyty.Lib List

variable {κ : Type}

structure Sound (p : Plan κ) (source : List MemoryItem) : Prop where
  covers : ∀ memory ∈ source, p.source.covers memory
  keys : (source.map (keyOf p)).Nodup
  ids : p.target = nativeService → ∀ memory ∈ source, ∀ other ∈ source, isUuid memory.id = true →
    memory.id = other.id → memory = other
  /-- `SAME_ACCOUNT`. -/
  apart : p.source.service = nativeService → p.target ≠ nativeService

def copies (target : List Kept) (key : String) : List MemoryItem :=
  (target.filter (·.origin = some key)).map (·.item)

/-- The row says that the memory was copied. -/
def Settled (items : List (String × MoveItem)) (key : String) : Prop :=
  ∃ row, items.lookup key = some row ∧ row.state ≠ .failed

structure New (p : Plan κ) (source : List MemoryItem) (s : Shared) (made : Made) : Prop where
  fresh : ∀ kept ∈ s.target, kept.item.id ≠ made.fresh
  fresh_source : ∀ memory ∈ source, memory.id ≠ made.fresh
  nativeId : p.target = p.source.service → ∀ memory ∈ source, made.nativeId ≠ some (keyOf p memory)

instance (p : Plan κ) (source : List MemoryItem) (s : Shared) (made : Made) :
    Decidable (New p source s made) :=
  decidable_of_iff ((∀ kept ∈ s.target, kept.item.id ≠ made.fresh) ∧
      (∀ memory ∈ source, memory.id ≠ made.fresh) ∧
      (p.target = p.source.service → ∀ memory ∈ source, made.nativeId ≠ some (keyOf p memory)))
    ⟨fun h => ⟨h.1, h.2.1, h.2.2⟩, fun h => ⟨h.fresh, h.fresh_source, h.nativeId⟩⟩

/-! ## Keys and rows -/

section Basics

variable {p : Plan κ}

theorem sourceIdOf_read (memory : MemoryItem) :
    sourceIdOf p (p.source.read memory) = sourceIdOf p memory := by
  rw [sourceIdOf, sourceIdOf, p.source.read_id, p.source.read_nativeId]

theorem keyOf_read (memory : MemoryItem) : keyOf p (p.source.read memory) = keyOf p memory := by
  rw [keyOf, keyOf, sourceIdOf_read, p.source.read_id]

theorem keyOf_of_sourceIdOf {item : MemoryItem} {id : String} (h : sourceIdOf p item = some id) :
    keyOf p item = id := by
  rw [keyOf, h, Option.getD_some]

theorem Sound.eq_of_key {source : List MemoryItem} (hs : Sound p source) {memory other : MemoryItem}
    (hmemory : memory ∈ source) (hother : other ∈ source) (h : keyOf p memory = keyOf p other) :
    memory = other :=
  inj_on_of_nodup_map hs.keys hmemory hother h

theorem saveRow_some {items items' : List (String × MoveItem)} {work : Work}
    (h : saveRow p items work = some items') (key : String) :
    items'.lookup key = if key = keyOf p work.item then some work.row else items.lookup key := by
  unfold saveRow at h
  dsimp only at h
  split at h
  · cases h
  · rw [← Option.some.inj h, Assoc.lookup_put]

theorem copies_append (target : List Kept) (kept : Kept) (key : String) :
    copies (target ++ [kept]) key
      = copies target key ++ if kept.origin = some key then [kept.item] else [] := by
  rw [copies, filter_append, map_append]
  congr 1
  by_cases h : kept.origin = some key <;> simp [h]

end Basics

theorem freshOf_sublist {key : MemoryItem → String} {handled : List String} {items : List MemoryItem} :
    (freshOf key handled items).Sublist items := by
  induction items generalizing handled with
  | nil => exact .slnil
  | cons item items ih =>
    rw [freshOf]
    split
    · exact ih.cons item
    · exact ih.cons_cons item

/-! ## No memory is lost -/

section Lost

variable (p : Plan κ) (source₀ : List MemoryItem)

/-- Every memory the move started from is still in the source or on the target. -/
def NeverLost (s : Shared) : Prop :=
  ∀ memory ∈ source₀, memory ∈ s.source ∨ copies s.target (keyOf p memory) ≠ []

/-- What holds of the services and the database, whatever the runs do. -/
structure Safe (s : Shared) : Prop where
  kept : NeverLost p source₀ s
  rows : ∀ memory ∈ source₀, Settled s.items (keyOf p memory) → copies s.target (keyOf p memory) ≠ []
  sub : ∀ memory ∈ s.source, memory ∈ source₀
  /-- In almyty's own store a copy has its memory's id, or one that no memory has. -/
  ids : p.target = nativeService → ∀ kept ∈ s.target, ∀ key, kept.origin = some key →
    ∃ memory ∈ source₀, keyOf p memory = key ∧
      (if isUuid memory.id then kept.item.id = memory.id else ∀ other ∈ source₀, other.id ≠ kept.item.id)

def Listed (item : MemoryItem) : Prop := ∃ memory ∈ source₀, item = p.source.read memory

def Point.later : Point → Bool
  | .expiry | .put _ | .saveError | .saveUnmovable => false
  | _ => true

/-- What is left of a page: memories of the source, with a row that says copied only for one
that is on the target. -/
def RestSafe (target : List Kept) (rest : List (MemoryItem × Option MoveItem)) : Prop :=
  ∀ entry ∈ rest, Listed p source₀ entry.1 ∧
    ∀ row, entry.2 = some row → row.state ≠ .failed → copies target (keyOf p entry.1) ≠ []

/-- What a run has in hand, so too. -/
structure WorkSafe (target : List Kept) (work : Work) (point : Point) : Prop where
  listed : Listed p source₀ work.item
  row : work.row.state ≠ .failed → copies target (keyOf p work.item) ≠ []
  later : point.later = true → work.row.state ≠ .failed

def PhaseSafe (target : List Kept) : Phase → Prop
  | .finding fresh => ∀ item ∈ fresh, Listed p source₀ item
  | .working work point rest => WorkSafe p source₀ target work point ∧ RestSafe p source₀ target rest
  | _ => True

variable {p source₀}

theorem PhaseSafe.mono {target target' : List Kept} {phase : Phase}
    (h : PhaseSafe p source₀ target phase)
    (hgrows : ∀ memory ∈ source₀, copies target (keyOf p memory) ≠ [] →
      copies target' (keyOf p memory) ≠ []) : PhaseSafe p source₀ target' phase := by
  have hlisted : ∀ item, Listed p source₀ item → copies target (keyOf p item) ≠ [] →
      copies target' (keyOf p item) ≠ [] := by
    intro item hitem
    obtain ⟨memory, hmemory, rfl⟩ := hitem
    rw [keyOf_read]
    exact hgrows memory hmemory
  cases phase with
  | working work point rest =>
    obtain ⟨hwork, hrest⟩ := h
    refine ⟨{ hwork with row := fun hne => hlisted _ hwork.listed (hwork.row hne) }, ?_⟩
    intro entry hentry
    obtain ⟨hitem, hrow⟩ := hrest entry hentry
    exact ⟨hitem, fun row heq hne => hlisted _ hitem (hrow row heq hne)⟩
  | _ => exact h

variable {target : List Kept}

theorem nextWork_safe {todo : List (MemoryItem × Option MoveItem)}
    (h : RestSafe p source₀ target todo) : PhaseSafe p source₀ target (nextWork p todo) := by
  induction todo with
  | nil => trivial
  | cons entry rest ih =>
    obtain ⟨⟨hitem, hrow⟩, hrest⟩ := forall_mem_cons.mp h
    obtain ⟨item, step⟩ := entry
    cases step with
    | none =>
      unfold nextWork
      split <;> exact ⟨⟨hitem, fun hne => absurd rfl hne, nofun⟩, hrest⟩
    | some row =>
      unfold nextWork
      split
      · exact ih hrest
      · refine ⟨⟨hitem, hrow row rfl, fun hlater hfailed => ?_⟩, hrest⟩
        dsimp only at hfailed
        rw [hfailed, if_neg (by decide)] at hlater
        cases hlater

variable {rest : List (MemoryItem × Option MoveItem)}

theorem caught_safe {work : Work} {point : Point} (message : String)
    (h : PhaseSafe p source₀ target (.working work point rest)) :
    PhaseSafe p source₀ target (caught work message rest) :=
  ⟨⟨h.1.listed, h.1.row, nofun⟩, h.2⟩

variable {s : Shared}

theorem Safe.expiries (h : Safe p source₀ s) (expiries : List Expiry) :
    Safe p source₀ { s with expiries } := ⟨h.kept, h.rows, h.sub, h.ids⟩

theorem Safe.move (h : Safe p source₀ s) (move : MoveRow) :
    Safe p source₀ { s with move } := ⟨h.kept, h.rows, h.sub, h.ids⟩

theorem Safe.saveRow {work : Work} {items : List (String × MoveItem)} (h : Safe p source₀ s)
    (hrow : work.row.state ≠ .failed → copies s.target (keyOf p work.item) ≠ [])
    (hsave : saveRow p s.items work = some items) : Safe p source₀ { s with items } where
  kept := h.kept
  sub := h.sub
  ids := h.ids
  rows memory hmemory hsettled := by
    obtain ⟨row, hlookup, hne⟩ := hsettled
    rw [saveRow_some hsave] at hlookup
    split at hlookup
    next heq =>
      obtain rfl := Option.some.inj hlookup
      rw [heq]
      exact hrow hne
    next => exact h.rows memory hmemory ⟨row, hlookup, hne⟩

theorem copyFor_id (item : MemoryItem) (due : Option Int) (made : Made) :
    (copyFor p item due made).id = if isUuid item.id then item.id else made.fresh := rfl

variable {made : Made} {copy : MemoryItem}

variable {memory : MemoryItem}

theorem copies_putOn_of_ne (hs : Sound p source₀) (h : Safe p source₀ s)
    (hnew : New p source₀ s made) (hmemory : memory ∈ source₀)
    (hid : copy.id = if isUuid memory.id then memory.id else made.fresh) {key : String}
    (hne : key ≠ keyOf p memory) :
    copies (putOn p s.target copy made (keyOf p memory)) key = copies s.target key := by
  unfold putOn
  split
  next hnative =>
    rw [copies_append, if_neg (by simpa using hne.symm), append_nil, copies, filter_filter]
    rw [copies]
    congr 1
    apply filter_congr
    intro kept hkept
    by_cases horigin : kept.origin = some key
    · -- the row of another memory has another id
      suffices kept.item.id ≠ copy.id by simp [horigin, this]
      obtain ⟨other, hother, hkey, hotherId⟩ := h.ids hnative kept hkept key horigin
      rw [hid]
      intro heq
      split at heq
      next huuid =>
        split at hotherId
        next =>
          obtain rfl := hs.ids hnative memory hmemory other hother huuid (heq.symm.trans hotherId)
          exact hne hkey.symm
        next => exact hotherId memory hmemory heq.symm
      next => exact hnew.fresh kept hkept heq
    · simp [horigin]
  next =>
    rw [copies_append, if_neg (by simpa using hne.symm), append_nil]

theorem copies_putOn_self {key : String} : copies (putOn p s.target copy made key) key ≠ [] := by
  unfold putOn
  split <;> simp [copies_append]

theorem putOn_grows (hs : Sound p source₀) (h : Safe p source₀ s) (hnew : New p source₀ s made)
    (hmemory : memory ∈ source₀)
    (hid : copy.id = if isUuid memory.id then memory.id else made.fresh) {key : String}
    (hkept : copies s.target key ≠ []) :
    copies (putOn p s.target copy made (keyOf p memory)) key ≠ [] := by
  by_cases hkey : key = keyOf p memory
  · rw [hkey]
    exact copies_putOn_self
  · rw [copies_putOn_of_ne hs h hnew hmemory hid hkey]
    exact hkept

theorem Safe.put (hs : Sound p source₀) (h : Safe p source₀ s) (hnew : New p source₀ s made)
    (hmemory : memory ∈ source₀)
    (hid : copy.id = if isUuid memory.id then memory.id else made.fresh) :
    Safe p source₀ { s with target := putOn p s.target copy made (keyOf p memory) } where
  kept other hother := (h.kept other hother).imp_right (putOn_grows hs h hnew hmemory hid)
  rows other hother hsettled := putOn_grows hs h hnew hmemory hid (h.rows other hother hsettled)
  sub := h.sub
  ids hnative kept hkept key horigin := by
    rw [putOn, if_pos hnative, mem_append, mem_singleton] at hkept
    rcases hkept with hold | rfl
    · exact h.ids hnative kept (mem_of_mem_filter hold) key horigin
    · refine ⟨memory, hmemory, Option.some.inj horigin, ?_⟩
      rw [hid]
      split
      next => rfl
      next => exact hnew.fresh_source

theorem Safe.delete (h : Safe p source₀ s) {sourceId : String}
    (hput : copies s.target sourceId ≠ [])
    (hchunks : ∀ memory ∈ s.source, cascades p s.source sourceId memory = true →
      copies s.target (keyOf p memory) ≠ []) :
    Safe p source₀ { s with source := deleteFrom p s.source sourceId } where
  kept memory hmemory := by
    rcases h.kept memory hmemory with hin | hcopied
    · by_cases hown : sourceIdOf p memory = some sourceId
      · rw [keyOf_of_sourceIdOf hown]
        exact .inr hput
      · cases hgoes : cascades p s.source sourceId memory with
        | true => exact .inr (hchunks memory hin hgoes)
        | false => exact .inl (mem_filter.mpr ⟨hin, by simp [hown, hgoes]⟩)
    · exact .inr hcopied
  rows := h.rows
  sub memory hmemory := h.sub memory (mem_of_mem_filter hmemory)
  ids := h.ids

variable (p source₀) in
structure StepSafe (target : List Kept) (s : Shared) (phase : Option Phase) : Prop where
  stored : Safe p source₀ s
  phase : ∀ next, phase = some next → PhaseSafe p source₀ s.target next
  grows : ∀ memory ∈ source₀, copies target (keyOf p memory) ≠ [] →
    copies s.target (keyOf p memory) ≠ []

theorem StepSafe.of_phase {phase : Phase} (h : Safe p source₀ s)
    (hphase : PhaseSafe p source₀ s.target phase) (htarget : target = s.target := by rfl) :
    StepSafe p source₀ target s (some phase) :=
  ⟨h, fun _ hnext => Option.some.inj hnext ▸ hphase, fun _ _ hkept => htarget ▸ hkept⟩

theorem StepSafe.of_work {work : Work} {point : Point} (h : Safe p source₀ s)
    (hwork : WorkSafe p source₀ s.target work point) (hrest : RestSafe p source₀ s.target rest)
    (htarget : target = s.target := by rfl) :
    StepSafe p source₀ target s (some (.working work point rest)) :=
  .of_phase h ⟨hwork, hrest⟩ htarget

theorem moveOne_safe (hs : Sound p source₀) (h : Safe p source₀ s) (hnew : New p source₀ s made)
    {work : Work} {point : Point} (hphase : PhaseSafe p source₀ s.target (.working work point rest))
    (hchunks : point = .delete → ∀ memory ∈ s.source,
      cascades p s.source (keyOf p work.item) memory = true → copies s.target (keyOf p memory) ≠ []) :
    StepSafe p source₀ s.target (moveOne p s work rest made point).1
      (some (moveOne p s work rest made point).2) := by
  obtain ⟨hwork, hrest⟩ := hphase
  cases point with
  | expiry => exact .of_phase h ⟨⟨hwork.listed, hwork.row, nofun⟩, hrest⟩
  | put due =>
    rw [moveOne]
    dsimp only
    split
    next =>
      obtain ⟨memory, hmemory, hitem⟩ := hwork.listed
      have hid : (copyFor p work.item due made).id
          = if isUuid memory.id then memory.id else made.fresh := by
        rw [copyFor_id, hitem, p.source.read_id]
      have hkey : keyOf p work.item = keyOf p memory := by rw [hitem, keyOf_read]
      have hgrows : ∀ other ∈ source₀, copies s.target (keyOf p other) ≠ [] → _ :=
        fun other _ hkept => putOn_grows hs h hnew hmemory hid hkept
      rw [hkey]
      refine ⟨h.put hs hnew hmemory hid, ?_, hgrows⟩
      intro next hnext
      obtain rfl := Option.some.inj hnext
      have hbefore : PhaseSafe p source₀ s.target (.working work (.put due) rest) := ⟨hwork, hrest⟩
      have hrest' := (hbefore.mono hgrows).2
      refine ⟨⟨hwork.listed, fun _ => ?_, fun _ => nofun⟩, hrest'⟩
      dsimp only
      rw [hkey]
      exact copies_putOn_self
    next => exact .of_phase h (caught_safe _ ⟨hwork, hrest⟩)
  | saveCopied due targetId =>
    unfold moveOne
    dsimp only
    split
    next => exact .of_phase h (caught_safe _ ⟨hwork, hrest⟩)
    next items hsave =>
      exact .of_work (h.saveRow hwork.row hsave)
        ⟨hwork.listed, hwork.row, fun _ => hwork.later rfl⟩ hrest
  | saveExpiry due targetId =>
    rw [moveOne]
    exact .of_work (h.expiries _)
      ⟨hwork.listed, hwork.row, fun _ => hwork.later rfl⟩ hrest
  | delete =>
    exact .of_work (h.delete (hwork.row (hwork.later rfl)) (hchunks rfl))
      ⟨hwork.listed, hwork.row, fun _ => hwork.later rfl⟩ hrest
  | deleteExpiries =>
    rw [moveOne]
    exact .of_work (h.expiries _)
      ⟨hwork.listed, fun _ => hwork.row (hwork.later rfl), fun _ => nofun⟩ hrest
  | saveMoved =>
    rw [moveOne]
    split
    next => exact .of_phase h (caught_safe _ ⟨hwork, hrest⟩)
    next items hsave => exact .of_phase (h.saveRow hwork.row hsave) (nextWork_safe hrest)
  | saveError | saveUnmovable =>
    rw [moveOne]
    split
    next => exact .of_phase h trivial
    next items hsave => exact .of_phase (h.saveRow hwork.row hsave) (nextWork_safe hrest)

theorem advance_safe [DecidableEq κ] (hs : Sound p source₀) (h : Safe p source₀ s) {run : Run κ}
    (hrun : PhaseSafe p source₀ s.target run.phase) {reply : Reply}
    (hok : ∀ made, reply = .ok made → New p source₀ s made ∧
      ∀ work rest, run.phase = .working work .delete rest → ∀ memory ∈ s.source,
        cascades p s.source (keyOf p work.item) memory = true → copies s.target (keyOf p memory) ≠ []) :
    StepSafe p source₀ s.target (advance p s run reply).1
      ((advance p s run reply).2.map (·.phase)) := by
  have hnone : ∀ s' : Shared, Safe p source₀ s' → s'.target = s.target →
      StepSafe p source₀ s.target s' none :=
    fun s' h' htarget => ⟨h', fun _ hnext => (nomatch hnext), fun _ _ hkept => htarget ▸ hkept⟩
  obtain ⟨move, handled, cursors, cursor, phase⟩ := run
  cases reply with
  | fail message =>
    cases phase with
    | working work point rest =>
      cases point with
      | saveError | saveUnmovable => exact .of_phase h trivial
      | _ =>
        show StepSafe p source₀ s.target s (some (caught work message rest))
        exact .of_phase h (caught_safe message hrun)
    | savingFailed => exact hnone s h rfl
    | _ => exact .of_phase h trivial
  | ok made =>
    obtain ⟨hnew, hchunks⟩ := hok made rfl
    cases phase with
    | listing =>
      refine .of_phase h ?_
      unfold listed
      dsimp only
      split
      next =>
        split
        next => trivial
        next => split <;> trivial
      next =>
        intro item hitem
        obtain ⟨memory, hmemory, rfl⟩ := p.source.list_read _ _ item (freshOf_sublist.mem hitem)
        exact ⟨memory, h.sub memory hmemory, rfl⟩
    | finding fresh =>
      refine .of_phase h (nextWork_safe fun entry hentry => ?_)
      obtain ⟨item, hitem, rfl⟩ := mem_map.mp hentry
      obtain ⟨memory, hmemory, heq⟩ := hrun item hitem
      refine ⟨⟨memory, hmemory, heq⟩, fun row hrow hne => ?_⟩
      have hkey : keyOf p item = keyOf p memory := by rw [heq, keyOf_read]
      rw [hkey] at hrow ⊢
      exact h.rows memory hmemory ⟨row, hrow, hne⟩
    | working work point rest =>
      exact moveOne_safe hs h hnew hrun fun hdelete => hchunks work rest (by rw [hdelete])
    | tallying last =>
      refine .of_phase (h.move _) ?_
      dsimp only
      split <;> trivial
    | finishing | savingFailed => exact hnone _ (h.move _) rfl
    | failing => exact .of_phase (h.move _) trivial

variable (p source₀) in
def Orderly (w : World κ) : Event → Prop
  | .answer r (.ok made) => ∀ run, w.runs r = some run → New p source₀ w.shared made ∧
    ∀ work rest, run.phase = .working work .delete rest → ∀ memory ∈ w.shared.source,
      cascades p w.shared.source (keyOf p work.item) memory = true →
        copies w.shared.target (keyOf p memory) ≠ []
  | _ => True

variable (p source₀) in
structure WorldSafe (w : World κ) : Prop where
  stored : Safe p source₀ w.shared
  runs : ∀ r run, w.runs r = some run → PhaseSafe p source₀ w.shared.target run.phase

theorem WorldSafe.update {w : World κ} (h : WorldSafe p source₀ w) {shared : Shared} (r : Nat)
    {run : Option (Run κ)} (jobs : Nat)
    (hstep : StepSafe p source₀ w.shared.target shared (run.map (·.phase))) :
    WorldSafe p source₀ ⟨shared, Function.update w.runs r run, jobs⟩ := by
  refine ⟨hstep.stored, fun r' run' hrun' => ?_⟩
  dsimp only at hrun'
  by_cases hr : r' = r
  · rw [hr, Function.update_self] at hrun'
    exact hstep.phase _ (by rw [hrun']; rfl)
  · rw [Function.update_of_ne hr] at hrun'
    exact (h.runs r' run' hrun').mono hstep.grows

theorem step_safe [DecidableEq κ] (hs : Sound p source₀) (w : World κ) (event : Event) (h : WorldSafe p source₀ w)
    (horderly : Orderly p source₀ w event) : WorldSafe p source₀ (step p w event) := by
  cases event with
  | resume stale =>
    unfold step
    dsimp only
    split
    · exact ⟨h.stored.move _, h.runs⟩
    · exact h
  | begin r saved =>
    unfold step
    dsimp only
    split
    · exact h
    split
    · exact ⟨h.stored, h.runs⟩
    exact h.update r _ (.of_phase (h.stored.move _) trivial)
  | crash r =>
    rw [step]
    exact h.update r _ ⟨h.stored, fun _ hnext => (nomatch hnext), fun _ _ hkept => hkept⟩
  | answer r reply =>
    rw [step]
    cases hrun : w.runs r with
    | none => exact h
    | some run =>
      refine h.update r _ (advance_safe hs h.stored (h.runs r run hrun) fun made hmade => ?_)
      rw [hmade] at horderly
      exact horderly run hrun

theorem started_safe (target : List MemoryItem) (expiries : List Expiry) :
    WorldSafe p source₀ (started (κ := κ) source₀ target expiries) where
  stored := {
    kept := fun memory hmemory => .inl hmemory
    rows := fun memory _ hsettled => by
      obtain ⟨row, hrow, -⟩ := hsettled
      cases hrow
    sub := fun memory hmemory => hmemory
    ids := fun _ kept hkept key horigin => by
      obtain ⟨item, -, rfl⟩ := mem_map.mp hkept
      cases horigin }
  runs := fun _ _ hrun => nomatch hrun

end Lost

end Almyty.Memory.Move
