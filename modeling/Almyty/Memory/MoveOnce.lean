import Almyty.Memory.MoveSafety

/-!
# A move doubles no memory and keeps its due date

While one run goes at a time each memory is by itself: what happens to it is decided by its row, its
copies, whether the source still has it and when it is due, and by the call a run waits at with it
in hand, if one does.

Two calls must not be the last of a run: the save of the row after a put that would make another
memory if it were repeated, and the save of a due date (`crashLoses`, `failLoses`).
-/

namespace Almyty.Memory.Move

open Almyty.Lib List

variable {κ : Type} (p : Plan κ) (source₀ : List MemoryItem) (expiries₀ : List Expiry)

def dueAt (memory : MemoryItem) : Option Int :=
  sourceExpiry p expiries₀ (keyOf p memory) (p.source.read memory)

def DueOn (expiries : List Expiry) (copy : MemoryItem) (due : Int) : Prop :=
  if p.target = nativeService then
    ∃ ttl : Nat, copy.ttlSeconds = some ttl ∧ 0 < ttl ∧ due ≤ copy.createdAt + ttl * 1000000 ∧
      (ttl = 1 ∨ copy.createdAt + (ttl - 1) * 1000000 < due)
  else ∃ row ∈ expiries, row.backendId = p.target ∧ copy.nativeId = some row.nativeId ∧
    row.expiresAt = some due

def Dated (s : Shared) (memory : MemoryItem) : Prop :=
  ∀ due, dueAt p expiries₀ memory = some due →
    ∃ copy ∈ copies s.target (keyOf p memory), DueOn p s.expiries copy due

/-- A put makes a copy of its own each time. -/
def atRisk (item : MemoryItem) : Prop := p.target ≠ nativeService ∨ isUuid item.id = false

/-! ## Where a run must not end -/

/-- The copy in hand is on the target, no stored row says so, and another put would make
another one. -/
def Unrecorded (s : Shared) (work : Work) : Prop :=
  work.row.state = .copied ∧ atRisk p work.item ∧ ¬ Settled s.items (keyOf p work.item)

/-- A process that goes away at this call loses what the next run cannot know. -/
def crashLoses (s : Shared) (work : Work) : Point → Prop
  | .saveCopied _ _ | .saveError => Unrecorded p s work
  | .saveExpiry due _ => due ≠ none
  | _ => False

def failLoses (s : Shared) (work : Work) : Point → Prop
  | .saveCopied due _ => p.target ≠ nativeService ∧ due ≠ none
  | .saveExpiry due _ => due ≠ none
  | .saveError => Unrecorded p s work
  | _ => False

def DateTravels (made : Made) : Point → Prop
  | .put (some _) => if p.target = nativeService then p.mode = .memory else made.nativeId ≠ none
  | _ => True

/-! ## One memory -/

structure Rests (s : Shared) (memory : MemoryItem) : Prop where
  once : (copies s.target (keyOf p memory)).length ≤ 1
  left : memory ∉ s.source → Settled s.items (keyOf p memory)
  moved : ∀ row, s.items.lookup (keyOf p memory) = some row → row.state = .moved → memory ∉ s.source
  unnamed : sourceIdOf p memory = none → ¬ Settled s.items (keyOf p memory)
  due : ¬ Settled s.items (keyOf p memory) →
    sourceExpiry p s.expiries (keyOf p memory) (p.source.read memory) = dueAt p expiries₀ memory
  /-- A service does not use an id twice. -/
  apart : p.target = p.source.service → ∀ copy ∈ copies s.target (keyOf p memory),
    ∀ other ∈ source₀, copy.nativeId ≠ some (keyOf p other)

structure Idle (s : Shared) (memory : MemoryItem) : Prop where
  none : ¬ Settled s.items (keyOf p memory) → atRisk p memory → copies s.target (keyOf p memory) = []
  dated : Settled s.items (keyOf p memory) → Dated p expiries₀ s memory

structure Waiting (s : Shared) (memory : MemoryItem) (row : MoveItem) : Prop where
  named : sourceIdOf p memory ≠ none
  row : row.state = .failed
  unsettled : ¬ Settled s.items (keyOf p memory)
  none : atRisk p memory → copies s.target (keyOf p memory) = []

structure Copied (s : Shared) (memory : MemoryItem) (row : MoveItem) (due : Option Int)
    (targetId : Option String) : Prop where
  named : sourceIdOf p memory ≠ none
  row : row.state = .copied
  unsettled : ¬ Settled s.items (keyOf p memory)
  date : due = dueAt p expiries₀ memory
  native : p.target = nativeService → targetId ≠ none ∧ Dated p expiries₀ s memory
  outside : p.target ≠ nativeService → (due ≠ none → targetId ≠ none) ∧
    ∃ copy ∈ copies s.target (keyOf p memory), copy.nativeId = targetId

structure Landed (s : Shared) (memory : MemoryItem) (row : MoveItem) (state : ItemState) : Prop where
  row : row.state = state
  settled : Settled s.items (keyOf p memory)
  dated : Dated p expiries₀ s memory

def At (s : Shared) (memory : MemoryItem) (row : MoveItem) : Point → Prop
  | .expiry => Waiting p s memory row
  | .put due => Waiting p s memory row ∧ due = dueAt p expiries₀ memory
  | .saveCopied due targetId => Copied p expiries₀ s memory row due targetId
  | .saveExpiry due targetId =>
    row.state = .copied ∧ Settled s.items (keyOf p memory) ∧ due = dueAt p expiries₀ memory ∧
      memory ∈ s.source ∧ p.target ≠ nativeService ∧
      ∃ copy ∈ copies s.target (keyOf p memory), copy.nativeId = some targetId
  | .delete => Landed p expiries₀ s memory row .copied
  | .deleteExpiries => Landed p expiries₀ s memory row .copied ∧ memory ∉ s.source
  | .saveMoved => Landed p expiries₀ s memory row .moved ∧ memory ∉ s.source
  | .saveError =>
    row.error.isSome ∧ sourceIdOf p memory ≠ none ∧
      match row.state with
      | .failed => Waiting p s memory row
      | .copied => Dated p expiries₀ s memory
      | .moved => Landed p expiries₀ s memory row .moved ∧ memory ∉ s.source
  | .saveUnmovable =>
    row.state = .failed ∧ sourceIdOf p memory = none ∧
      (atRisk p memory → copies s.target (keyOf p memory) = [])

def hand (memory : MemoryItem) : Option Phase → Option (MoveItem × Point)
  | some (.working work point _) =>
    if keyOf p work.item = keyOf p memory then some (work.row, point) else none
  | _ => none

structure Fine (s : Shared) (memory : MemoryItem) (phase : Option Phase) : Prop where
  rests : Rests p source₀ expiries₀ s memory
  idle : hand p memory phase = none → Idle p expiries₀ s memory
  held : ∀ row point, hand p memory phase = some (row, point) → At p expiries₀ s memory row point

variable {p} in
theorem DueOn.mono {expiries expiries' : List Expiry} {copy : MemoryItem} {due : Int}
    (h : DueOn p expiries copy due) (hrows : ∀ row ∈ expiries, row.backendId = p.target →
      copy.nativeId = some row.nativeId → row ∈ expiries') : DueOn p expiries' copy due := by
  unfold DueOn at h ⊢
  split
  next hnative =>
    rw [if_pos hnative] at h
    exact h
  next hnative =>
    rw [if_neg hnative] at h
    obtain ⟨row, hrow, hbackend, hid, hat⟩ := h
    exact ⟨row, hrows row hrow hbackend hid, hbackend, hid, hat⟩

/-! ## A memory the step is not about -/

structure Untouched (s s' : Shared) (memory : MemoryItem) : Prop where
  copies : copies s'.target (keyOf p memory) = Move.copies s.target (keyOf p memory)
  lookup : s'.items.lookup (keyOf p memory) = s.items.lookup (keyOf p memory)
  source : memory ∈ s'.source → memory ∈ s.source
  left : memory ∉ s'.source → memory ∈ s.source → Settled s.items (keyOf p memory)
  due : sourceExpiry p s'.expiries (keyOf p memory) (p.source.read memory)
    = sourceExpiry p s.expiries (keyOf p memory) (p.source.read memory)
  dated : Dated p expiries₀ s memory → Dated p expiries₀ s' memory

variable {p source₀ expiries₀}

variable {memory : MemoryItem}

variable {s : Shared} {work : Work} {key : String} {rest : List (MemoryItem × Option MoveItem)}

theorem Untouched.settled {s' : Shared} (h : Untouched p expiries₀ s s' memory) :
    Settled s'.items (keyOf p memory) ↔ Settled s.items (keyOf p memory) := by
  rw [Settled, Settled, h.lookup]

theorem Rests.frame {s' : Shared} (h : Rests p source₀ expiries₀ s memory)
    (hu : Untouched p expiries₀ s s' memory) : Rests p source₀ expiries₀ s' memory where
  once := by
    rw [hu.copies]
    exact h.once
  left hgone := by
    rw [hu.settled]
    by_cases hin : memory ∈ s.source
    · exact hu.left hgone hin
    · exact h.left hin
  moved row hrow hmoved hin := by
    rw [hu.lookup] at hrow
    exact h.moved row hrow hmoved (hu.source hin)
  unnamed hname := by
    rw [hu.settled]
    exact h.unnamed hname
  due hunsettled := by
    rw [hu.settled] at hunsettled
    rw [hu.due]
    exact h.due hunsettled
  apart := by
    rw [hu.copies]
    exact h.apart

theorem Idle.frame {s' : Shared} (h : Idle p expiries₀ s memory)
    (hu : Untouched p expiries₀ s s' memory) : Idle p expiries₀ s' memory where
  none := by
    rw [hu.settled, hu.copies]
    exact h.none
  dated hsettled := hu.dated (h.dated (hu.settled.mp hsettled))

theorem Fine.frame {s' : Shared} {phase phase' : Option Phase}
    (h : Fine p source₀ expiries₀ s memory phase) (hu : Untouched p expiries₀ s s' memory)
    (hbefore : hand p memory phase = none) (hafter : hand p memory phase' = none) :
    Fine p source₀ expiries₀ s' memory phase' where
  rests := h.rests.frame hu
  idle _ := (h.idle hbefore).frame hu
  held row point hheld := by
    rw [hafter] at hheld
    cases hheld

theorem Untouched.rfl : Untouched p expiries₀ s s memory :=
  ⟨Eq.refl _, Eq.refl _, id, fun hout hin => absurd hin hout, Eq.refl _, id⟩

theorem untouched_put (hs : Sound p source₀) (h : Safe p source₀ s) {made : Made}
    (hnew : New p source₀ s made) {memory other : MemoryItem} (hmemory : memory ∈ source₀)
    (hne : keyOf p other ≠ keyOf p memory) {copy : MemoryItem}
    (hid : copy.id = if isUuid memory.id then memory.id else made.fresh) :
    Untouched p expiries₀ s { s with target := putOn p s.target copy made (keyOf p memory) } other := by
  have hcopies := copies_putOn_of_ne hs h hnew hmemory hid hne
  refine ⟨hcopies, rfl, id, fun hout hin => absurd hin hout, rfl, fun hdated due hdue => ?_⟩
  rw [hcopies]
  exact hdated due hdue

variable {items : List (String × MoveItem)}

theorem untouched_saveRow (hsave : saveRow p s.items work = some items) {other : MemoryItem}
    (hne : keyOf p other ≠ keyOf p work.item) :
    Untouched p expiries₀ s { s with items } other := by
  refine ⟨rfl, ?_, id, fun hout hin => absurd hin hout, rfl, id⟩
  rw [saveRow_some hsave, if_neg hne]

theorem untouched_saveExpiry {other : MemoryItem} {row : Expiry}
    (hrow : ¬ (row.backendId = p.source.service ∧ row.nativeId = keyOf p other)) :
    Untouched p expiries₀ s { s with expiries := s.expiries ++ [row] } other := by
  refine ⟨rfl, rfl, id, fun hout hin => absurd hin hout, ?_, fun hdated due hdue => ?_⟩
  · unfold sourceExpiry
    split
    next => rfl
    next =>
      dsimp only
      rw [List.find?_append, List.find?_singleton, if_neg (by simpa using hrow), Option.or_none]
  · obtain ⟨copy, hcopy, hon⟩ := hdated due hdue
    exact ⟨copy, hcopy, hon.mono fun row hrow _ _ => mem_append_left _ hrow⟩

theorem Dated.deleteExpiries (h : Dated p expiries₀ s memory)
    (hapart : p.target = p.source.service → ∀ copy ∈ copies s.target (keyOf p memory),
      copy.nativeId ≠ some key) :
    Dated p expiries₀ { s with expiries := s.expiries.filter fun row =>
      !(row.backendId = p.source.service && row.nativeId = key) } memory := by
  intro due hdue
  obtain ⟨copy, hcopy, hon⟩ := h due hdue
  refine ⟨copy, hcopy, hon.mono fun row hrow hbackend hid => mem_filter.mpr ⟨hrow, ?_⟩⟩
  simp only [Bool.not_eq_true', Bool.and_eq_false_iff, decide_eq_false_iff_not]
  by_cases hservice : row.backendId = p.source.service
  · refine .inr fun heq => hapart (hbackend.symm.trans hservice) copy hcopy ?_
    rw [hid, heq]
  · exact .inl hservice

theorem untouched_deleteExpiries {other : MemoryItem} (hne : keyOf p other ≠ key)
    (hapart : p.target = p.source.service → ∀ copy ∈ copies s.target (keyOf p other),
      copy.nativeId ≠ some key) :
    Untouched p expiries₀ s { s with expiries := s.expiries.filter fun row =>
      !(row.backendId = p.source.service && row.nativeId = key) } other := by
  refine ⟨rfl, rfl, id, fun hout hin => absurd hin hout, ?_, fun hdated => hdated.deleteExpiries hapart⟩
  unfold sourceExpiry
  split
  next => rfl
  next =>
    dsimp only
    rw [List.find?_filter]
    congr 2
    funext row
    by_cases hrow : row.backendId = p.source.service ∧ row.nativeId = keyOf p other
    · simp [hrow, hne]
    · have hfalse : (decide (row.backendId = p.source.service) &&
          decide (row.nativeId = keyOf p other)) = false := by simpa using hrow
      simp [hfalse]

theorem untouched_delete {other : MemoryItem} (hne : keyOf p other ≠ key)
    (hchunk : other ∈ s.source → cascades p s.source key other = true →
      Settled s.items (keyOf p other)) :
    Untouched p expiries₀ s { s with source := deleteFrom p s.source key } other := by
  refine ⟨rfl, rfl, mem_of_mem_filter, fun hout hin => ?_, rfl, id⟩
  by_contra hunsettled
  refine hout (mem_filter.mpr ⟨hin, ?_⟩)
  have hown : sourceIdOf p other ≠ some key := fun hown => hne (keyOf_of_sourceIdOf hown)
  have hgoes : cascades p s.source key other = false := by
    by_contra hgoes
    exact hunsettled (hchunk hin (by simpa using hgoes))
  simp [hown, hgoes]

/-! ## The memory in hand -/

theorem ttlOf_due (createdAt due : Int) : 0 < ttlOf createdAt due ∧
    due ≤ createdAt + (ttlOf createdAt due : Int) * 1000000 ∧
    (ttlOf createdAt due = 1 ∨ createdAt + ((ttlOf createdAt due : Int) - 1) * 1000000 < due) := by
  unfold ttlOf
  omega

/-- A put leaves one copy: a row of the same id is overwritten, elsewhere there was none. -/
theorem copies_putOn_once (h : Safe p source₀ s) (hs : Sound p source₀) {made : Made}
    (hmemory : memory ∈ source₀) {copy : MemoryItem}
    (hid : copy.id = if isUuid memory.id then memory.id else made.fresh)
    (hnone : atRisk p memory → copies s.target (keyOf p memory) = []) :
    copies (putOn p s.target copy made (keyOf p memory)) (keyOf p memory)
      = [if p.target = nativeService then copy else { copy with nativeId := made.nativeId }] := by
  unfold putOn
  split
  next hnative =>
    rw [copies_append, if_pos rfl]
    suffices hgone : copies (s.target.filter (·.item.id ≠ copy.id)) (keyOf p memory) = [] by
      rw [hgone, nil_append]
    rw [copies, filter_filter, map_eq_nil_iff, filter_eq_nil_iff]
    intro kept hkept hboth
    simp only [Bool.and_eq_true, decide_eq_true_eq] at hboth
    obtain ⟨horigin, hkeptId⟩ := hboth
    by_cases huuid : isUuid memory.id = true
    · obtain ⟨other, hother, hkey, hotherId⟩ := h.ids hnative kept hkept _ horigin
      obtain rfl := hs.eq_of_key hother hmemory hkey
      rw [if_pos huuid] at hotherId hid
      exact hkeptId (hotherId.trans hid.symm)
    · have hempty := hnone (.inr (by simpa using huuid))
      rw [copies, map_eq_nil_iff, filter_eq_nil_iff] at hempty
      exact hempty kept hkept (by simpa using horigin)
  next hnative =>
    rw [copies_append, if_pos rfl, hnone (.inl hnative), nil_append]

theorem Dated.of_none (h : dueAt p expiries₀ memory = none) :
    Dated p expiries₀ s memory := by
  intro due hdue
  rw [h] at hdue
  cases hdue

theorem settled_saveRow (hsave : saveRow p s.items work = some items) :
    Settled items (keyOf p work.item) ↔ work.row.state ≠ .failed := by
  rw [Settled, saveRow_some hsave, if_pos rfl]
  simp

theorem Rests.saveRow (h : Rests p source₀ expiries₀ s memory)
    (hkey : keyOf p work.item = keyOf p memory) (hsave : saveRow p s.items work = some items)
    (hfailed : work.row.state = .failed → ¬ Settled s.items (keyOf p memory))
    (hmoved : work.row.state = .moved → memory ∉ s.source)
    (hnamed : work.row.state ≠ .failed → sourceIdOf p memory ≠ none) :
    Rests p source₀ expiries₀ { s with items } memory := by
  have hsettled := settled_saveRow hsave
  rw [hkey] at hsettled
  have hunsettled : ¬ Settled items (keyOf p memory) → ¬ Settled s.items (keyOf p memory) := by
    intro hun
    rw [hsettled, Decidable.not_not] at hun
    exact hfailed hun
  refine { h with left := fun hgone => ?_, moved := fun row hrow hstate => ?_,
                  unnamed := fun hname => ?_, due := fun hun => h.due (hunsettled hun) }
  · by_contra hun
    exact hunsettled hun (h.left hgone)
  · rw [saveRow_some hsave, if_pos hkey.symm] at hrow
    obtain rfl := Option.some.inj hrow
    exact hmoved hstate
  · intro hset
    exact hnamed (hsettled.mp hset) hname

theorem put_fine (hs : Sound p source₀) (hsafe : Safe p source₀ s) {made : Made}
    (hnew : New p source₀ s made) (hmemory : memory ∈ source₀)
    (h : Rests p source₀ expiries₀ s memory) {row : MoveItem} (hrow : Waiting p s memory row)
    {due : Option Int} (hdue : due = dueAt p expiries₀ memory)
    (hcare : due ≠ none → if p.target = nativeService then p.mode = .memory else made.nativeId ≠ none)
    {copy : MemoryItem} (hcopy : copy = copyFor p (p.source.read memory) due made) {row' : MoveItem}
    (hrow' : row'.state = .copied) :
    Rests p source₀ expiries₀
        { s with target := putOn p s.target copy made (keyOf p memory) } memory ∧
      Copied p expiries₀ { s with target := putOn p s.target copy made (keyOf p memory) } memory row'
        due (if p.target = nativeService then some copy.id else made.nativeId) := by
  have hid : copy.id = if isUuid memory.id then memory.id else made.fresh := by
    rw [hcopy, copyFor_id, p.source.read_id]
  have honce := copies_putOn_once hsafe hs hmemory hid hrow.none
  refine ⟨{ h with once := ?_, apart := fun hsame kept hkept other hother => ?_ }, ?_⟩
  · dsimp only
    rw [honce]
    simp
  · dsimp only at hkept
    rw [honce, mem_singleton] at hkept
    rw [hkept]
    split
    next => rw [hcopy]; nofun
    next => exact hnew.nativeId hsame other hother
  · refine ⟨hrow.named, hrow', hrow.unsettled, hdue, fun hnative => ⟨?_, ?_⟩, fun houtside => ⟨?_, ?_⟩⟩
    · rw [if_pos hnative]
      nofun
    · intro at' hat
      dsimp only
      rw [honce, if_pos hnative]
      refine ⟨copy, mem_singleton_self _, ?_⟩
      rw [← hdue] at hat
      have hmode : p.mode = .memory := by simpa [hnative] using hcare (by rw [hat]; nofun)
      rw [DueOn, if_pos hnative]
      refine ⟨ttlOf copy.createdAt at', ?_, ttlOf_due copy.createdAt at'⟩
      rw [hcopy, hat]
      simp [copyFor, buildItem, hmode, hnative]
    · intro hsome
      rw [if_neg houtside]
      simpa [houtside] using hcare hsome
    · rw [if_neg houtside]
      dsimp only
      rw [honce, if_neg houtside]
      exact ⟨_, mem_singleton_self _, rfl⟩

variable {point : Point}

theorem At.idle (h : Rests p source₀ expiries₀ s memory) (hkey : keyOf p work.item = keyOf p memory)
    (hitem : work.item = p.source.read memory) (hat : At p expiries₀ s memory work.row point)
    (hloses : ¬ crashLoses p s work point) :
    Idle p expiries₀ s memory := by
  have hrisk : atRisk p work.item ↔ atRisk p memory := by
    rw [atRisk, atRisk, hitem, p.source.read_id]
  have hwaiting : Waiting p s memory work.row → Idle p expiries₀ s memory :=
    fun hw => ⟨fun _ => hw.none, fun hsettled => absurd hsettled hw.unsettled⟩
  have hlanded : ∀ {state}, Landed p expiries₀ s memory work.row state → Idle p expiries₀ s memory :=
    fun hl => ⟨fun hun => absurd hl.settled hun, fun _ => hl.dated⟩
  have hrecorded : ¬ Unrecorded p s work → work.row.state = .copied →
      ¬ Settled s.items (keyOf p memory) → ¬ atRisk p memory := by
    intro hrecorded hcopied hun hat
    exact hrecorded ⟨hcopied, hrisk.mpr hat, hkey ▸ hun⟩
  cases point with
  | expiry => exact hwaiting hat
  | put due => exact hwaiting hat.1
  | saveCopied due targetId =>
    exact ⟨fun hun hatRisk => absurd hatRisk (hrecorded hloses hat.row hun),
      fun hsettled => absurd hsettled hat.unsettled⟩
  | saveExpiry due targetId =>
    obtain ⟨-, hsettled, hdue, -⟩ := hat
    have hnone : due = none := by
      by_contra hsome
      exact hloses hsome
    exact ⟨fun hun => absurd hsettled hun, fun _ => .of_none (hdue ▸ hnone)⟩
  | delete => exact hlanded hat
  | deleteExpiries | saveMoved => exact hlanded hat.1
  | saveError =>
    obtain ⟨-, -, hstate⟩ := hat
    cases hrow : work.row.state with
    | failed =>
      rw [hrow] at hstate
      exact hwaiting hstate
    | copied =>
      rw [hrow] at hstate
      exact ⟨fun hun hatRisk => absurd hatRisk (hrecorded hloses hrow hun), fun _ => hstate⟩
    | moved =>
      rw [hrow] at hstate
      exact hlanded hstate.1
  | saveUnmovable => exact ⟨fun _ => hat.2.2, fun hsettled => absurd hsettled (h.unnamed hat.2.1)⟩

theorem Fine.dated {phase : Option Phase} (h : Fine p source₀ expiries₀ s memory phase)
    (hgone : memory ∉ s.source) :
    Dated p expiries₀ s memory := by
  have hsettled := h.rests.left hgone
  cases hhand : hand p memory phase with
  | none => exact (h.idle hhand).dated hsettled
  | some held =>
    obtain ⟨row, point⟩ := held
    have hat := h.held row point hhand
    cases point with
    | expiry | saveCopied => exact absurd hsettled hat.unsettled
    | put due => exact absurd hsettled hat.1.unsettled
    | saveExpiry due targetId =>
      obtain ⟨-, -, -, hin, -⟩ := hat
      exact absurd hin hgone
    | delete => exact hat.dated
    | deleteExpiries | saveMoved => exact hat.1.dated
    | saveError =>
      obtain ⟨-, -, hstate⟩ := hat
      cases hrow : row.state with
      | failed =>
        rw [hrow] at hstate
        exact absurd hsettled hstate.unsettled
      | copied =>
        rw [hrow] at hstate
        exact hstate
      | moved =>
        rw [hrow] at hstate
        exact hstate.1.dated
    | saveUnmovable => exact absurd hsettled (h.rests.unnamed hat.2.1)

/-! ## A call of a run, for every memory -/

theorem Fine.of_idle {phase : Option Phase} (h : Rests p source₀ expiries₀ s memory)
    (hidle : Idle p expiries₀ s memory) (hhand : hand p memory phase = none) :
    Fine p source₀ expiries₀ s memory phase :=
  ⟨h, fun _ => hidle, fun row point hheld => by rw [hhand] at hheld; cases hheld⟩

theorem Fine.of_working (h : Rests p source₀ expiries₀ s memory)
    (hidle : keyOf p work.item ≠ keyOf p memory → Idle p expiries₀ s memory)
    (hat : keyOf p work.item = keyOf p memory → At p expiries₀ s memory work.row point) :
    Fine p source₀ expiries₀ s memory (some (.working work point rest)) := by
  refine ⟨h, fun hhand => hidle fun hkey => ?_, fun row point' hheld => ?_⟩
  · rw [hand, if_pos hkey] at hhand
    cases hhand
  · rw [hand] at hheld
    split at hheld
    next hkey =>
      obtain ⟨rfl, rfl⟩ := Prod.mk.inj (Option.some.inj hheld)
      exact hat hkey
    next => cases hheld

theorem Fine.at (h : Fine p source₀ expiries₀ s memory (some (.working work point rest)))
    (hkey : keyOf p work.item = keyOf p memory) : At p expiries₀ s memory work.row point :=
  h.held _ _ (if_pos hkey)

theorem Fine.other (h : Fine p source₀ expiries₀ s memory (some (.working work point rest)))
    (hkey : keyOf p work.item ≠ keyOf p memory) : Idle p expiries₀ s memory :=
  h.idle (if_neg hkey)

theorem Listed.eq_read (hs : Sound p source₀) {item memory : MemoryItem} (h : Listed p source₀ item)
    (hmemory : memory ∈ source₀) (hkey : keyOf p item = keyOf p memory) :
    item = p.source.read memory := by
  obtain ⟨other, hother, rfl⟩ := h
  rw [keyOf_read] at hkey
  rw [hs.eq_of_key hother hmemory hkey]

def Loaded (p : Plan κ) (s : Shared) (rest : List (MemoryItem × Option MoveItem)) : Prop :=
  ∀ entry ∈ rest, entry.2 = s.items.lookup (keyOf p entry.1)

theorem not_settled_of_lookup (h : ∀ row, items.lookup key = some row → row.state = .failed) :
    ¬ Settled items key := by
  intro hsettled
  obtain ⟨row, hrow, hne⟩ := hsettled
  exact hne (h row hrow)

theorem nextWork_fine (hs : Sound p source₀) {todo : List (MemoryItem × Option MoveItem)}
    (hloaded : Loaded p s todo) (hlisted : ∀ entry ∈ todo, Listed p source₀ entry.1)
    (hmemory : memory ∈ source₀) (h : Rests p source₀ expiries₀ s memory)
    (hidle : Idle p expiries₀ s memory) :
    Fine p source₀ expiries₀ s memory (some (nextWork p todo)) := by
  induction todo with
  | nil => exact .of_idle h hidle rfl
  | cons entry rest ih =>
    obtain ⟨hentry, hloadedRest⟩ := forall_mem_cons.mp hloaded
    obtain ⟨hitem, hlistedRest⟩ := forall_mem_cons.mp hlisted
    obtain ⟨item, step⟩ := entry
    dsimp only at hentry hitem
    have hname : keyOf p item = keyOf p memory → sourceIdOf p item = sourceIdOf p memory := by
      intro hkey
      rw [hitem.eq_read hs hmemory hkey, sourceIdOf_read]
    cases step with
    | none =>
      have hun : keyOf p item = keyOf p memory → ¬ Settled s.items (keyOf p memory) := by
        intro hkey
        apply not_settled_of_lookup
        intro row hrow
        rw [← hkey, ← hentry] at hrow
        cases hrow
      unfold nextWork
      split
      next hunnamed =>
        exact .of_working h (fun _ => hidle) fun hkey =>
          ⟨rfl, hname hkey ▸ hunnamed, hidle.none (hun hkey)⟩
      next hnamed =>
        exact .of_working h (fun _ => hidle) fun hkey =>
          ⟨hname hkey ▸ hnamed, rfl, hun hkey, hidle.none (hun hkey)⟩
    | some row =>
      unfold nextWork
      split
      next => exact ih hloadedRest hlistedRest
      next hskip =>
        rw [not_or] at hskip
        refine .of_working h (fun _ => hidle) fun hkey => ?_
        rw [hkey] at hentry
        dsimp only
        split
        next hcopied =>
          have hsettled : Settled s.items (keyOf p memory) := ⟨row, hentry.symm, by simp [hcopied]⟩
          exact ⟨hcopied, hsettled, hidle.dated hsettled⟩
        next hcopied =>
          have hfailed : row.state = .failed := by
            cases hstate : row.state with
            | copied => exact absurd hstate hcopied
            | moved => exact absurd hstate hskip.1
            | failed => rfl
          have hun : ¬ Settled s.items (keyOf p memory) := by
            apply not_settled_of_lookup
            intro row' hrow'
            rw [← hentry] at hrow'
            rw [← Option.some.inj hrow', hfailed]
          exact ⟨hname hkey ▸ hskip.2, hfailed, hun, hidle.none hun⟩

theorem At.caught (h : Rests p source₀ expiries₀ s memory) {row : MoveItem}
    (hat : At p expiries₀ s memory row point) (work : Work)
    (hcatch : point ≠ .saveError ∧ point ≠ .saveUnmovable) (hloses : ¬ failLoses p s work point)
    {row' : MoveItem} (hstate : row'.state = row.state) (herror : row'.error.isSome) :
    At p expiries₀ s memory row' .saveError := by
  have hwaiting : ∀ {row : MoveItem}, row'.state = row.state → Waiting p s memory row →
      At p expiries₀ s memory row' .saveError := by
    intro row hstate hrow
    have hfailed := hstate.trans hrow.row
    refine ⟨herror, hrow.named, ?_⟩
    rw [hfailed]
    exact { hrow with row := hfailed }
  have hdated : row'.state = .copied → sourceIdOf p memory ≠ none → Dated p expiries₀ s memory →
      At p expiries₀ s memory row' .saveError := by
    intro hcopied hnamed hdated
    refine ⟨herror, hnamed, ?_⟩
    rw [hcopied]
    exact hdated
  have hnamed : Settled s.items (keyOf p memory) → sourceIdOf p memory ≠ none :=
    fun hsettled hnone => h.unnamed hnone hsettled
  cases point with
  | expiry => exact hwaiting hstate hat
  | put due => exact hwaiting hstate hat.1
  | saveCopied due targetId =>
    refine hdated (hstate.trans hat.row) hat.named ?_
    by_cases hnative : p.target = nativeService
    · exact (hat.native hnative).2
    · have hnone : due = none := by
        by_contra hsome
        exact hloses ⟨hnative, hsome⟩
      exact .of_none (hat.date ▸ hnone)
  | saveExpiry due targetId =>
    obtain ⟨hrow, hsettled, hdue, -⟩ := hat
    have hnone : due = none := by
      by_contra hsome
      exact hloses hsome
    exact hdated (hstate.trans hrow) (hnamed hsettled) (.of_none (hdue ▸ hnone))
  | delete => exact hdated (hstate.trans hat.row) (hnamed hat.settled) hat.dated
  | deleteExpiries => exact hdated (hstate.trans hat.1.row) (hnamed hat.1.settled) hat.1.dated
  | saveMoved =>
    have hmoved := hstate.trans hat.1.row
    refine ⟨herror, hnamed hat.1.settled, ?_⟩
    rw [hmoved]
    exact ⟨{ hat.1 with row := hmoved }, hat.2⟩
  | saveError => exact absurd rfl hcatch.1
  | saveUnmovable => exact absurd rfl hcatch.2

structure PageGood (p : Plan κ) (s : Shared) (work : Work)
    (rest : List (MemoryItem × Option MoveItem)) : Prop where
  loaded : Loaded p s rest
  others : ∀ entry ∈ rest, keyOf p entry.1 ≠ keyOf p work.item
  nodup : (rest.map fun entry => keyOf p entry.1).Nodup
  fresh : work.stored = false → s.items.lookup (keyOf p work.item) = none

theorem PageGood.save (h : PageGood p s work rest) :
    ∃ items, saveRow p s.items work = some items := by
  refine ⟨Assoc.put s.items (keyOf p work.item) work.row, if_neg fun hrefused => ?_⟩
  rw [h.fresh hrefused.1] at hrefused
  cases hrefused.2

theorem PageGood.loaded_saveRow (h : PageGood p s work rest)
    (hsave : saveRow p s.items work = some items) :
    Loaded p { s with items } rest := by
  intro entry hentry
  dsimp only
  rw [saveRow_some hsave, if_neg (h.others entry hentry)]
  exact h.loaded entry hentry

section Step

variable {s : Shared} {work : Work} {rest : List (MemoryItem × Option MoveItem)}

variable {items : List (String × MoveItem)}

theorem saved_fine (hs : Sound p source₀) {point : Point} (hpage : PageGood p s work rest)
    (hrest : ∀ entry ∈ rest, Listed p source₀ entry.1)
    (h : ∀ memory ∈ source₀, Fine p source₀ expiries₀ s memory (some (.working work point rest)))
    (hsave : saveRow p s.items work = some items)
    (hself : ∀ memory ∈ source₀, keyOf p work.item = keyOf p memory →
      Rests p source₀ expiries₀ { s with items } memory ∧ Idle p expiries₀ { s with items } memory) :
    ∀ memory ∈ source₀, Fine p source₀ expiries₀ { s with items } memory (some (nextWork p rest)) := by
  intro memory hmemory
  have hboth : Rests p source₀ expiries₀ { s with items } memory ∧
      Idle p expiries₀ { s with items } memory := by
    by_cases hkey : keyOf p work.item = keyOf p memory
    · exact hself memory hmemory hkey
    · have hu : Untouched p expiries₀ s { s with items } memory :=
        untouched_saveRow hsave (Ne.symm hkey)
      exact ⟨(h memory hmemory).rests.frame hu, ((h memory hmemory).other hkey).frame hu⟩
  exact nextWork_fine hs (hpage.loaded_saveRow hsave) hrest hmemory hboth.1 hboth.2

theorem saved_landed {memory : MemoryItem} (h : Rests p source₀ expiries₀ s memory)
    (hkey : keyOf p work.item = keyOf p memory) (hsave : saveRow p s.items work = some items)
    (hlanded : Landed p expiries₀ s memory work.row .moved) (hgone : memory ∉ s.source) :
    Rests p source₀ expiries₀ { s with items } memory ∧ Idle p expiries₀ { s with items } memory := by
  have hne : work.row.state ≠ .failed := by
    rw [hlanded.row]
    nofun
  have hsettled := (settled_saveRow hsave).mpr hne
  rw [hkey] at hsettled
  exact ⟨h.saveRow hkey hsave (fun hfailed => absurd hfailed hne) (fun _ => hgone)
    (fun _ hnone => h.unnamed hnone hlanded.settled),
    fun hun => absurd hsettled hun, fun _ => hlanded.dated⟩

theorem saved_failed {memory : MemoryItem} (h : Rests p source₀ expiries₀ s memory)
    (hkey : keyOf p work.item = keyOf p memory) (hsave : saveRow p s.items work = some items)
    (hfailed : work.row.state = .failed) (hun : ¬ Settled s.items (keyOf p memory))
    (hnone : atRisk p memory → copies s.target (keyOf p memory) = []) :
    Rests p source₀ expiries₀ { s with items } memory ∧ Idle p expiries₀ { s with items } memory := by
  have hsettled := settled_saveRow hsave
  rw [hkey] at hsettled
  exact ⟨h.saveRow hkey hsave (fun _ => hun) (fun hmoved => nomatch hfailed.symm.trans hmoved)
    (fun hne => absurd hfailed hne),
    fun _ => hnone, fun hset => absurd hfailed (hsettled.mp hset)⟩

theorem step_fine {point point' : Point} {s' : Shared} {work' : Work}
    (h : ∀ memory ∈ source₀, Fine p source₀ expiries₀ s memory (some (.working work point rest)))
    (hitem : work'.item = work.item)
    (hself : ∀ memory ∈ source₀, keyOf p work.item = keyOf p memory →
      Rests p source₀ expiries₀ s' memory ∧ At p expiries₀ s' memory work'.row point')
    (hother : ∀ memory ∈ source₀, keyOf p work.item ≠ keyOf p memory →
      Untouched p expiries₀ s s' memory) :
    ∀ memory ∈ source₀, Fine p source₀ expiries₀ s' memory (some (.working work' point' rest)) := by
  intro memory hmemory
  have hrests : Rests p source₀ expiries₀ s' memory := by
    by_cases hkey : keyOf p work.item = keyOf p memory
    · exact (hself memory hmemory hkey).1
    · exact (h memory hmemory).rests.frame (hother memory hmemory hkey)
  refine .of_working hrests (fun hkey => ?_) fun hkey => ?_
  · rw [hitem] at hkey
    exact ((h memory hmemory).other hkey).frame (hother memory hmemory hkey)
  · rw [hitem] at hkey
    exact (hself memory hmemory hkey).2

theorem moveOne_fine (hs : Sound p source₀) {point : Point} {made : Made}
    (hsafe : Safe p source₀ s) (hphase : PhaseSafe p source₀ s.target (.working work point rest))
    (hpage : PageGood p s work rest)
    (h : ∀ memory ∈ source₀, Fine p source₀ expiries₀ s memory (some (.working work point rest)))
    (hnew : New p source₀ s made)
    (hchunks : point = .delete → ∀ memory ∈ s.source,
      cascades p s.source (keyOf p work.item) memory = true → copies s.target (keyOf p memory) ≠ [])
    (htravels : DateTravels p made point) :
    ∀ memory ∈ source₀, Fine p source₀ expiries₀ (moveOne p s work rest made point).1 memory
      (some (moveOne p s work rest made point).2) := by
  have hread : ∀ memory ∈ source₀, keyOf p work.item = keyOf p memory →
      work.item = p.source.read memory :=
    fun memory hmemory hkey => hphase.1.listed.eq_read hs hmemory hkey
  have hrest : ∀ entry ∈ rest, Listed p source₀ entry.1 := fun entry hentry => (hphase.2 entry hentry).1
  obtain ⟨items, hsave⟩ := hpage.save
  cases point with
  | expiry =>
    refine step_fine h rfl (fun memory hmemory hkey => ?_) fun _ _ _ => .rfl
    have hat : Waiting p s memory work.row := (h memory hmemory).at hkey
    have hrests := (h memory hmemory).rests
    refine ⟨hrests, hat, ?_⟩
    rw [hkey, hread memory hmemory hkey]
    exact hrests.due hat.unsettled
  | put due =>
    have hcare : due ≠ none →
        if p.target = nativeService then p.mode = .memory else made.nativeId ≠ none := by
      intro hsome
      cases due with
      | none => exact absurd rfl hsome
      | some _ => exact htravels
    rw [moveOne]
    dsimp only
    split
    next =>
      refine step_fine h rfl (fun memory hmemory hkey => ?_) fun other hother hkey => ?_
      · have hat : Waiting p s memory work.row ∧ due = dueAt p expiries₀ memory :=
          (h memory hmemory).at hkey
        rw [hkey, hread memory hmemory hkey]
        exact put_fine hs hsafe hnew hmemory (h memory hmemory).rests hat.1 hat.2 hcare rfl rfl
      · obtain ⟨memory, hmemory, hitem⟩ := hphase.1.listed
        have hkeys : keyOf p work.item = keyOf p memory := by rw [hitem, keyOf_read]
        rw [hkeys] at hkey ⊢
        refine untouched_put hs hsafe hnew hmemory (Ne.symm hkey) ?_
        rw [copyFor_id, hitem, p.source.read_id]
    next =>
      refine step_fine h rfl (fun memory hmemory hkey => ?_) fun _ _ _ => .rfl
      exact ⟨(h memory hmemory).rests, At.caught (h memory hmemory).rests ((h memory hmemory).at hkey)
        work ⟨by simp, by simp⟩ (fun hloses => hloses) rfl rfl⟩
  | saveCopied due targetId =>
    unfold moveOne
    simp only [hsave]
    refine step_fine h rfl (fun memory hmemory hkey => ?_) fun other _ hkey =>
      untouched_saveRow hsave (Ne.symm hkey)
    have hat : Copied p expiries₀ s memory work.row due targetId := (h memory hmemory).at hkey
    have hcopied : work.row.state ≠ .failed := by simp [hat.row]
    have hsettled := (settled_saveRow hsave).mpr hcopied
    rw [hkey] at hsettled
    refine ⟨(h memory hmemory).rests.saveRow hkey hsave (fun hfailed => absurd hfailed hcopied)
      (fun hmoved => ?_) (fun _ => hat.named), ?_⟩
    · rw [hat.row] at hmoved
      cases hmoved
    · by_cases hnative : p.target = nativeService
      · have hlanded : Landed p expiries₀ { s with items } memory work.row .copied :=
          ⟨hat.row, hsettled, (hat.native hnative).2⟩
        cases targetId with
        | none => exact hlanded
        | some id =>
          dsimp only
          rw [if_pos hnative]
          exact hlanded
      · obtain ⟨hgiven, hcopy⟩ := hat.outside hnative
        cases targetId with
        | none =>
          -- without an id there is no row, and nothing was due
          have hnone : due = none := by
            by_contra hsome
            exact hgiven hsome rfl
          exact ⟨hat.row, hsettled, .of_none (hat.date ▸ hnone)⟩
        | some id =>
          dsimp only
          rw [if_neg hnative]
          have hin : memory ∈ s.source := by
            by_contra hgone
            exact hat.unsettled ((h memory hmemory).rests.left hgone)
          exact ⟨hat.row, hsettled, hat.date, hin, hnative, hcopy⟩
  | saveExpiry due targetId =>
    rw [moveOne]
    obtain ⟨memory₀, hmemory₀, hitem⟩ := hphase.1.listed
    have hkey₀ : keyOf p work.item = keyOf p memory₀ := by rw [hitem, keyOf_read]
    refine step_fine h rfl (fun memory hmemory hkey => ?_) fun other hother hkey => ?_
    · obtain ⟨hrow, hsettled, hdue, -, houtside, copy, hcopy, hid⟩ := (h memory hmemory).at hkey
      refine ⟨{ (h memory hmemory).rests with due := fun hun => absurd hsettled hun },
        hrow, hsettled, fun date hdate => ⟨copy, hcopy, ?_⟩⟩
      rw [DueOn, if_neg houtside]
      refine ⟨_, mem_append_right _ (mem_singleton_self _), rfl, hid, ?_⟩
      rw [hdue, hdate]
    · obtain ⟨-, -, -, -, -, copy, hcopy, hid⟩ := (h memory₀ hmemory₀).at hkey₀
      refine untouched_saveExpiry fun hrow => ?_
      refine (h memory₀ hmemory₀).rests.apart hrow.1 copy hcopy other hother ?_
      exact hid.trans (congrArg some hrow.2)
  | delete =>
    rw [moveOne]
    refine step_fine h rfl (fun memory hmemory hkey => ?_) fun other hother hkey => ?_
    · have hat : Landed p expiries₀ s memory work.row .copied := (h memory hmemory).at hkey
      have hrests := (h memory hmemory).rests
      have hgone : memory ∉ deleteFrom p s.source (keyOf p work.item) := by
        intro hin
        have hkept := (mem_filter.mp hin).2
        cases hname : sourceIdOf p memory with
        | none => exact hrests.unnamed hname hat.settled
        | some id =>
          rw [hkey, keyOf_of_sourceIdOf hname, hname] at hkept
          simp at hkept
      exact ⟨{ hrests with left := fun _ => hat.settled, moved := fun _ _ _ => hgone },
        ⟨hat.row, hat.settled, hat.dated⟩, hgone⟩
    · refine untouched_delete (Ne.symm hkey) fun hin hgoes => ?_
      by_contra hun
      have hnative : p.source.service = nativeService := by
        simp only [cascades, Bool.and_eq_true, decide_eq_true_eq] at hgoes
        exact hgoes.1
      -- its chunks go to another service, where a copy has a row
      exact hchunks rfl other hin hgoes
        (((h other hother).other hkey).none hun (.inl (hs.apart hnative)))
  | deleteExpiries =>
    rw [moveOne]
    obtain ⟨memory₀, hmemory₀, hitem⟩ := hphase.1.listed
    have hkey₀ : keyOf p work.item = keyOf p memory₀ := by rw [hitem, keyOf_read]
    have hapart : ∀ other ∈ source₀, p.target = p.source.service →
        ∀ copy ∈ copies s.target (keyOf p other), copy.nativeId ≠ some (keyOf p work.item) := by
      intro other hother hsame copy hcopy
      rw [hkey₀]
      exact (h other hother).rests.apart hsame copy hcopy memory₀ hmemory₀
    refine step_fine h rfl (fun memory hmemory hkey => ?_) fun other hother hkey =>
      untouched_deleteExpiries (Ne.symm hkey) (hapart other hother)
    obtain ⟨hlanded, hgone⟩ : Landed p expiries₀ s memory work.row .copied ∧ memory ∉ s.source :=
      (h memory hmemory).at hkey
    exact ⟨{ (h memory hmemory).rests with due := fun hun => absurd hlanded.settled hun },
      ⟨rfl, hlanded.settled, hlanded.dated.deleteExpiries (hapart memory hmemory)⟩, hgone⟩
  | saveMoved =>
    rw [moveOne, hsave]
    refine saved_fine hs hpage hrest h hsave fun memory hmemory hkey => ?_
    obtain ⟨hlanded, hgone⟩ : Landed p expiries₀ s memory work.row .moved ∧ memory ∉ s.source :=
      (h memory hmemory).at hkey
    exact saved_landed (h memory hmemory).rests hkey hsave hlanded hgone
  | saveError =>
    rw [moveOne, hsave]
    refine saved_fine hs hpage hrest h hsave fun memory hmemory hkey => ?_
    have hrests := (h memory hmemory).rests
    obtain ⟨-, hnamed, hstate⟩ := (h memory hmemory).at hkey
    cases hrow : work.row.state with
    | failed =>
      rw [hrow] at hstate
      exact saved_failed hrests hkey hsave hrow hstate.unsettled hstate.none
    | copied =>
      rw [hrow] at hstate
      have hne : work.row.state ≠ .failed := by simp [hrow]
      have hsettled := (settled_saveRow hsave).mpr hne
      rw [hkey] at hsettled
      exact ⟨hrests.saveRow hkey hsave (fun hfailed => absurd hfailed hne)
        (by simp [hrow]) (fun _ => hnamed),
        fun hun => absurd hsettled hun, fun _ => hstate⟩
    | moved =>
      rw [hrow] at hstate
      exact saved_landed hrests hkey hsave hstate.1 hstate.2
  | saveUnmovable =>
    rw [moveOne, hsave]
    refine saved_fine hs hpage hrest h hsave fun memory hmemory hkey => ?_
    obtain ⟨hfailed, hunnamed, hnone⟩ := (h memory hmemory).at hkey
    have hrests := (h memory hmemory).rests
    exact saved_failed hrests hkey hsave hfailed (hrests.unnamed hunnamed) hnone

end Step

end Almyty.Memory.Move
