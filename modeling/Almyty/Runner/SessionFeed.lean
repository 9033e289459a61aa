import Almyty.Channels.StreamPosition

/-!
# What a viewer of a coding session is sent: `subscribeSession` in `coding-relay.service.ts`

A message on the channel only says that there is more; what the listener gets is read from the
session's stream, after the last id it has. One read goes at a time, and a message that arrives
meanwhile asks for another.

What is sent is in the stream's order and each entry once, whatever fails (`session_in_order`).
While no read fails it has no gap among the entries the stream still has.

Mirroring notes:
- Redis numbers the entries with rising ids, from its clock. It lets the oldest go when there are
  more than `maxLen`, and all when the session has been quiet for long.
- A message repeats an entry that was appended, at any later time and any number of times.
-/

namespace Almyty.Runner.SessionFeed

open Almyty.Lib Almyty.Channels List Option

variable {Event : Type}

structure Entry (Event : Type) where
  id : StreamId
  event : Option Event

inductive Reading (Event : Type)
  | idle
  | asked (cursor : Option String)
  | answered (entries : List (Entry Event))

structure Feed (Event : Type) where
  /-- What was ever appended, and what the stream has of it. -/
  appended : List (Entry Event) := []
  stream : List (Entry Event) := []
  closed : Bool := false
  cursor : Option String
  replayed : Bool := false
  reading : Reading Event := .idle
  again : Bool := false
  announced : List (String × Event) := []
  unlogged : List Event := []
  /-- What the listener was called with. -/
  delivered : List (Event × Option String) := []
  /-- A read has failed. -/
  failed : Bool := false

/-! ## Redis -/

/-- `STREAM_ID_RE`, with the id it is. -/
def streamIdOf (text : String) : Option StreamId :=
  match text.toList.splitOn '-' with
  | [ms, n] =>
    if ms ≠ [] ∧ n ≠ [] ∧ ms.all Char.isDigit ∧ n.all Char.isDigit then some ⟨number ms, number n⟩
    else none
  | _ => none

instance (a b : StreamId) : Decidable (a.Before b) := inferInstanceAs (Decidable (_ ∨ _))

instance (id : StreamId) : Decidable id.Fits := inferInstanceAs (Decidable (_ ∧ _))

def xrange (stream : List (Entry Event)) : Option String → Option (List (Entry Event))
  | none => some stream
  | some cursor => (streamIdOf cursor).bind fun id =>
    if id.ms < 2 ^ 64 ∧ id.n < 2 ^ 64 ∧ id ≠ ⟨2 ^ 64 - 1, 2 ^ 64 - 1⟩ then
      some (stream.filter fun e => id.Before e.id)
    else none

/-! ## The subscription -/

def emit (s : Feed Event) (event : Event) (id : Option String) : Feed Event :=
  { s with delivered := if s.closed then s.delivered else s.delivered ++ [(event, id)] }

def passed (cursor : Option String) (id : String) : Bool :=
  cursor.any fun c => compareStreamPos id c ≤ 0

def advance (s : Feed Event) (id : String) (event : Event) : Feed Event :=
  if passed s.cursor id then s else emit { s with cursor := some id } event (some id)

def take (s : Feed Event) (e : Entry Event) : Feed Event :=
  match e.event with
  | some event => advance s e.id.text event
  | none => if passed s.cursor e.id.text then s else { s with cursor := some e.id.text }

def read (s : Feed Event) : Feed Event :=
  match s.reading with
  | .idle => { s with again := false, reading := .asked s.cursor }
  | _ => { s with again := true }

def endTurn (s : Feed Event) : Feed Event :=
  let s := { s with announced := s.announced.filter fun a => !passed s.cursor a.1 }
  let s :=
    if s.replayed then s
    else s.unlogged.foldl (fun s event => emit s event none)
      { s with replayed := true, unlogged := [] }
  if s.again && !s.closed then { s with again := false, reading := .asked s.cursor }
  else { s with reading := .idle }

/-- The read has failed: what was announced goes out. -/
def fallback (s : Feed Event) : Feed Event :=
  let ids := s.announced.insertionSort fun a b => compareStreamPos a.1 b.1 ≤ 0
  endTurn (ids.foldl (fun s a => advance s a.1 a.2) { s with failed := true })

inductive Action (Event : Type)
  | append (id : StreamId) (event : Option Event)
  /-- So many of the oldest entries go. -/
  | trim (n : Nat)
  /-- A message about the entry that was appended so many before it. -/
  | announce (i : Nat)
  /-- A message that names no id. -/
  | unnumbered (event : Event)
  /-- Redis reads the stream. -/
  | serve
  | resolve
  | reject
  | close

def step (maxLen : Nat) (s : Feed Event) : Action Event → Feed Event
  | .append id event =>
    if id.Fits ∧ StreamId.Before ⟨0, 0⟩ id ∧ ∀ e ∈ s.appended, e.id.Before id then
      { s with appended := s.appended ++ [⟨id, event⟩], stream := s.stream ++ [⟨id, event⟩] }
    else s
  | .trim n =>
    if n = s.stream.length ∨ maxLen + n ≤ s.stream.length then { s with stream := s.stream.drop n }
    else s
  | .announce i =>
    match s.appended[i]? with
    | some ⟨id, some event⟩ =>
      if s.closed || passed s.cursor id.text then s
      else read { s with announced := Assoc.put s.announced id.text event }
    | _ => s
  | .unnumbered event =>
    if s.closed then s
    else if s.replayed then emit s event none
    else { s with unlogged := s.unlogged ++ [event] }
  | .serve =>
    match s.reading with
    | .asked cursor =>
      match xrange s.stream cursor with
      | some entries => { s with reading := .answered entries }
      | none => fallback s
    | _ => s
  | .resolve =>
    match s.reading with
    | .answered entries => endTurn (entries.foldl take s)
    | _ => s
  | .reject =>
    match s.reading with
    | .idle => s
    | _ => fallback s
  | .close => { s with closed := true }

/-- The cursor a viewer begins with. -/
def startOf (lastEventId : Option String) : Option String :=
  lastEventId.filter fun text => (streamIdOf text).isSome

def run (maxLen : Nat) (lastEventId : Option String) (actions : List (Action Event)) : Feed Event :=
  actions.foldl (step maxLen) (read { cursor := startOf lastEventId })

/-! ## Order -/

def numbered (s : Feed Event) : List (String × Event) :=
  s.delivered.filterMap fun d => d.2.map fun id => (id, d.1)

/-- The numbers of one id come before those of the other. -/
def Behind (a b : String) : Prop :=
  (parts a).1 < (parts b).1 ∨ (parts a).1 = (parts b).1 ∧ (parts a).2 < (parts b).2

theorem behind_text {a b : StreamId} (ha : a.Fits) (hb : b.Fits) :
    Behind a.text b.text ↔ a.Before b := by
  unfold Behind
  rw [parts_text ha, parts_text hb]
  rfl

theorem passed_some {c id : String} : passed (some c) id = true ↔ ¬ Behind c id := by
  show decide (compareStreamPos id c ≤ 0) = true ↔ _
  rw [decide_eq_true_iff]
  unfold compareStreamPos Behind
  split <;> omega

theorem passed_some_false {c id : String} : passed (some c) id = false ↔ Behind c id := by
  rw [← Bool.not_eq_true, passed_some, not_not]

theorem behind_of_passed {cursor : Option String} {a b : String} (ha : passed cursor a = true)
    (hb : passed cursor b = false) : Behind a b := by
  cases cursor with
  | none => cases ha
  | some c =>
    rw [passed_some] at ha
    rw [passed_some_false] at hb
    unfold Behind at *
    omega

theorem passed_of_not_behind {cursor : Option String} {a b : String} (ha : passed cursor a = true)
    (hb : ¬ Behind a b) : passed cursor b = true := by
  by_contra hnot
  exact hb (behind_of_passed ha (by simpa using hnot))

theorem not_behind_self (a : String) : ¬ Behind a a := by
  unfold Behind
  omega

theorem Behind.asymm {a b : String} (h : Behind a b) : ¬ Behind b a := by
  unfold Behind at *
  omega

theorem digits_of_all {ms : List Char} (rest : List Char) (hne : ms ≠ [])
    (hms : ms.all Char.isDigit = true) (hrest : ∀ c ∈ rest.head?, c.isDigit = false) :
    digits 15 (ms ++ rest) = if ms.length ≤ 15 then some (ms, rest) else none := by
  have hall := all_eq_true.mp hms
  have hstop : rest.takeWhile Char.isDigit = [] ∧ rest.dropWhile Char.isDigit = rest := by
    cases rest with
    | nil => exact ⟨rfl, rfl⟩
    | cons c rest =>
      have hc : ¬ c.isDigit = true := by simpa using hrest c rfl
      exact ⟨takeWhile_cons_of_neg hc, dropWhile_cons_of_neg hc⟩
  have hpos : 1 ≤ ms.length := length_pos_iff.mpr hne
  rw [digits, takeWhile_append_of_pos hall, dropWhile_append_of_pos hall, hstop.1,
    hstop.2, append_nil]
  simp [hpos]

/-- An id is compared by its numbers, or as the start when it is too long. -/
theorem parts_of_streamIdOf {text : String} {id : StreamId} (h : streamIdOf text = some id) :
    parts text = (id.ms, id.n) ∨ parts text = (0, 0) := by
  unfold streamIdOf at h
  split at h
  · next ms n hsplit =>
    split at h
    · next hdigits =>
      obtain rfl := some.inj h
      have htext : text.toList = ms ++ '-' :: n := by
        have hjoin : ['-'].intercalate (text.toList.splitOn '-') = text.toList :=
          intercalate_splitOn '-'
        rw [hsplit] at hjoin
        simpa using hjoin.symm
      have hms := digits_of_all ('-' :: n) hdigits.1 hdigits.2.2.1 (by simp)
      have hn := digits_of_all [] hdigits.2.1 hdigits.2.2.2 (by simp)
      rw [append_nil] at hn
      unfold parts streamParts
      rw [htext, hms]
      by_cases hlong : ms.length ≤ 15
      · simp only [if_pos hlong, bind_eq_bind, bind_some, mark, if_true, hn]
        by_cases hlast : n.length ≤ 15
        · rw [if_pos hlast]
          exact .inl rfl
        · rw [if_neg hlast]
          exact .inr rfl
      · simp [hlong]
    · cases h
  · cases h

theorem streamIdOf_text (id : StreamId) : streamIdOf id.text = some id := by
  have hdash (n : Nat) : '-' ∉ Nat.toDigits 10 n := fun h => absurd (isDigit_toDigits h) (by decide)
  have hall (n : Nat) : (Nat.toDigits 10 n).all Char.isDigit = true :=
    all_eq_true.mpr fun c => isDigit_toDigits
  have hsplit : id.text.toList.splitOn '-' = [Nat.toDigits 10 id.ms, Nat.toDigits 10 id.n] := by
    rw [toList_text]
    have hjoin := splitOn_intercalate '-'
      (show ∀ l ∈ [Nat.toDigits 10 id.ms, Nat.toDigits 10 id.n], '-' ∉ l by simp [hdash]) (by simp)
    simpa using hjoin
  rw [streamIdOf, hsplit]
  simp [hall, Nat.toDigits_ne_nil]

/-! ## What holds in every state -/

def After (cursor : Option String) (e : Entry Event) : Prop :=
  ∀ c ∈ cursor, ∀ id ∈ streamIdOf c, id.Before e.id

structure Core (s : Feed Event) : Prop where
  fits : ∀ e ∈ s.appended, e.id.Fits ∧ StreamId.Before ⟨0, 0⟩ e.id
  rising : s.appended.Pairwise fun a b => a.id.Before b.id
  suffix : s.stream <:+ s.appended
  announced : ∀ a ∈ s.announced, ∃ e ∈ s.appended, e.id.text = a.1 ∧ e.event = some a.2
  sent : ∀ a ∈ numbered s, (∃ e ∈ s.appended, e.id.text = a.1 ∧ e.event = some a.2) ∧
    passed s.cursor a.1 = true
  sorted : (numbered s).Pairwise fun a b => Behind a.1 b.1

structure Base (start : Option String) (s : Feed Event) : Prop extends Core s where
  cursor : s.cursor = start ∨ ∃ e ∈ s.appended, s.cursor = some e.id.text
  /-- Up to the cursor, or to what was sent before the viewer left, nothing is missing. -/
  seen : s.failed = false → ∀ e ∈ s.stream, ∀ event, e.event = some event → After start e →
    s.closed = false ∧ passed s.cursor e.id.text = true ∨
      (∃ a ∈ numbered s, ¬ Behind a.1 e.id.text) → (e.id.text, event) ∈ numbered s

structure Inv (start : Option String) (s : Feed Event) : Prop extends Base start s where
  asked : ∀ c, s.reading = .asked c → c = s.cursor
  /-- What was read lacks nothing up to its end. -/
  answered : ∀ es, s.reading = .answered es → es.Pairwise (fun a b => a.id.Before b.id) ∧
    (∀ e ∈ es, e ∈ s.appended ∧ passed s.cursor e.id.text = false) ∧
    ∀ e ∈ s.stream, After s.cursor e → (∃ b ∈ es, ¬ b.id.Before e.id) → e ∈ es

section

variable {s s' : Feed Event} {start : Option String}

theorem numbered_emit (s : Feed Event) (event : Event) (id : Option String) :
    numbered (emit s event id) =
      numbered s ++ if s.closed then [] else (id.map fun id => (id, event)).toList := by
  unfold emit numbered
  cases s.closed <;> cases id <;> simp

/-- The cursor moves on to an entry. -/
theorem Core.move (h : Core s) {id : String} (hnot : passed s.cursor id = false) :
    Core { s with cursor := some id } :=
  { h with
    sent := fun a ha => ⟨(h.sent a ha).1,
      passed_some.mpr (behind_of_passed (h.sent a ha).2 hnot).asymm⟩ }

theorem Core.advance (h : Core s) {id : String} {event : Event}
    (hentry : ∃ e ∈ s.appended, e.id.text = id ∧ e.event = some event) :
    Core (advance s id event) := by
  unfold SessionFeed.advance
  cases hnot : passed s.cursor id with
  | true => exact h
  | false =>
    rw [if_neg Bool.false_ne_true]
    have hmoved := h.move hnot
    have hnumbered := numbered_emit { s with cursor := some id } event (some id)
    have hnew : ∀ a ∈ (if s.closed then [] else [(id, event)]), a = (id, event) := by
      cases s.closed <;> simp
    refine { h with
      sent := fun a ha => ?_
      sorted := ?_ }
    · rw [hnumbered] at ha
      rcases mem_append.mp ha with ha | ha
      · exact hmoved.sent a ha
      · rw [hnew a ha]
        exact ⟨hentry, passed_some.mpr (not_behind_self id)⟩
    · rw [hnumbered, pairwise_append]
      refine ⟨h.sorted, by cases s.closed <;> simp, fun a ha b hb => ?_⟩
      rw [hnew b hb]
      exact behind_of_passed (h.sent a ha).2 hnot

/-- What a run of entries does that are read in order, past the cursor. -/
structure Taken (s s' : Feed Event) (es : List (Entry Event)) : Prop where
  core : Core s'
  same : s' = { s with cursor := s'.cursor, delivered := s'.delivered }
  cursor : s'.cursor = s.cursor ∨ ∃ e ∈ es, s'.cursor = some e.id.text
  kept : numbered s ⊆ numbered s'
  shown : s.closed = false → ∀ e ∈ es, ∀ event, e.event = some event →
    (e.id.text, event) ∈ numbered s'
  silent : s.closed = true → numbered s' = numbered s

theorem taken_one (h : Core s) {e : Entry Event} (he : e ∈ s.appended)
    (hnot : passed s.cursor e.id.text = false) :
    Taken s (take s e) [e] ∧ (take s e).cursor = some e.id.text := by
  unfold take
  cases hevent : e.event with
  | none =>
    rw [hnot, if_neg Bool.false_ne_true]
    refine ⟨⟨h.move hnot, rfl, .inr ⟨e, mem_singleton_self e, rfl⟩, fun _ h => h, ?_,
      fun _ => rfl⟩, rfl⟩
    intro _ e' he' event hsome
    rw [mem_singleton.mp he', hevent] at hsome
    cases hsome
  | some event =>
    have hcore := h.advance ⟨e, he, rfl, hevent⟩
    have hadvance : advance s e.id.text event =
        emit { s with cursor := some e.id.text } event (some e.id.text) := by
      rw [advance, hnot, if_neg Bool.false_ne_true]
    dsimp only
    rw [hadvance] at hcore ⊢
    have hnumbered := numbered_emit { s with cursor := some e.id.text } event (some e.id.text)
    refine ⟨⟨hcore, rfl, .inr ⟨e, mem_singleton_self e, rfl⟩, ?_, ?_, ?_⟩, rfl⟩
    · rw [hnumbered]
      exact subset_append_left _ _
    · intro hopen e' he' event' hsome
      rw [mem_singleton.mp he'] at hsome ⊢
      rw [hevent] at hsome
      obtain rfl := some.inj hsome
      rw [hnumbered]
      refine mem_append_right _ ?_
      rw [if_neg (by simp [hopen])]
      exact mem_singleton_self _
    · intro hclosed
      rw [hnumbered, if_pos hclosed, append_nil]
      rfl

theorem taken_all (h : Core s) {es : List (Entry Event)}
    (hsorted : es.Pairwise fun a b => a.id.Before b.id)
    (hes : ∀ e ∈ es, e ∈ s.appended ∧ passed s.cursor e.id.text = false) :
    Taken s (es.foldl take s) es := by
  induction es generalizing s with
  | nil => exact ⟨h, rfl, .inl rfl, fun _ h => h, fun _ _ he => (by cases he), fun _ => rfl⟩
  | cons e es ih =>
    obtain ⟨hbefore, hsorted⟩ := pairwise_cons.mp hsorted
    obtain ⟨he, hnot⟩ := hes e mem_cons_self
    obtain ⟨hone, hcursor⟩ := taken_one h he hnot
    have happended : (take s e).appended = s.appended := by rw [hone.same]
    have hclosed : (take s e).closed = s.closed := by rw [hone.same]
    have hrest := ih hone.core hsorted fun b hb => by
      have hmem := (hes b (mem_cons_of_mem e hb)).1
      rw [happended, hcursor, passed_some_false, behind_text (h.fits e he).1 (h.fits b hmem).1]
      exact ⟨hmem, hbefore b hb⟩
    rw [foldl_cons]
    refine ⟨hrest.core, ?_, ?_, fun a ha => hrest.kept (hone.kept ha), ?_, fun hc => ?_⟩
    · rw [hrest.same, hone.same]
    · rcases hrest.cursor with hsame | ⟨b, hb, hlast⟩
      · exact .inr ⟨e, mem_cons_self, hsame.trans hcursor⟩
      · exact .inr ⟨b, mem_cons_of_mem e hb, hlast⟩
    · intro hopen b hb event hevent
      rcases mem_cons.mp hb with rfl | hb
      · exact hrest.kept (hone.shown hopen b (mem_singleton_self b) event hevent)
      · exact hrest.shown (hclosed.trans hopen) b hb event hevent
    · rw [hrest.silent (hclosed.trans hc), hone.silent hc]

theorem Base.congr (h : Base start s) (happended : s'.appended = s.appended)
    (hstream : s'.stream = s.stream) (hcursor : s'.cursor = s.cursor)
    (hclosed : s'.closed = s.closed)
    (hfailed : s'.failed = s.failed) (hnumbered : numbered s' = numbered s)
    (hannounced : ∀ a ∈ s'.announced, a ∈ s.announced ∨
      ∃ e ∈ s.appended, e.id.text = a.1 ∧ e.event = some a.2) : Base start s' where
  fits := happended ▸ h.fits
  rising := happended ▸ h.rising
  suffix := by
    rw [happended, hstream]
    exact h.suffix
  announced a ha := by
    rw [happended]
    exact (hannounced a ha).elim (h.announced a) id
  sent := by
    rw [happended, hcursor, hnumbered]
    exact h.sent
  sorted := hnumbered ▸ h.sorted
  cursor := by
    rw [happended, hcursor]
    exact h.cursor
  seen := by
    rw [hfailed, hstream, hclosed, hcursor, hnumbered]
    exact h.seen

theorem unlogged_fold (events : List Event) (s : Feed Event) :
    events.foldl (fun s event => emit s event none) s =
      { s with delivered := if s.closed then s.delivered else
          s.delivered ++ events.map fun event => (event, none) } := by
  induction events generalizing s with
  | nil =>
    obtain ⟨_, _, closed⟩ := s
    cases closed <;> simp
  | cons event events ih =>
    rw [foldl_cons, ih, emit]
    cases s.closed <;> simp

theorem numbered_unlogged (s : Feed Event) (events : List Event) :
    numbered (events.foldl (fun s event => emit s event none) s) = numbered s := by
  rw [unlogged_fold]
  unfold numbered
  cases s.closed <;> simp

theorem Base.endTurn (h : Base start s) : Inv start (endTurn s) := by
  have hbase : Base start (SessionFeed.endTurn s) ∧ ((SessionFeed.endTurn s).reading = .idle ∨
      (SessionFeed.endTurn s).reading = .asked (SessionFeed.endTurn s).cursor) := by
    unfold SessionFeed.endTurn
    have hfilter : Base start
        { s with announced := s.announced.filter fun a => !passed s.cursor a.1 } :=
      h.congr rfl rfl rfl rfl rfl rfl fun a ha => .inl (mem_of_mem_filter ha)
    generalize { s with announced := s.announced.filter fun a => !passed s.cursor a.1 } = s₁
      at hfilter
    have hreplay : Base start (if s₁.replayed then s₁ else s₁.unlogged.foldl
        (fun s event => emit s event none) { s₁ with replayed := true, unlogged := [] }) := by
      split
      · exact hfilter
      · have hnumbered := numbered_unlogged { s₁ with replayed := true, unlogged := [] } s₁.unlogged
        rw [unlogged_fold] at hnumbered ⊢
        exact hfilter.congr rfl rfl rfl rfl rfl hnumbered fun a ha => .inl ha
    dsimp only
    generalize (if s₁.replayed then s₁ else s₁.unlogged.foldl
        (fun s event => emit s event none) { s₁ with replayed := true, unlogged := [] }) = s₂
      at hreplay ⊢
    split
    · exact ⟨hreplay.congr rfl rfl rfl rfl rfl rfl fun a ha => .inl ha, .inr rfl⟩
    · exact ⟨hreplay.congr rfl rfl rfl rfl rfl rfl fun a ha => .inl ha, .inl rfl⟩
  refine ⟨hbase.1, fun c hc => ?_, fun es hes => ?_⟩
  · rcases hbase.2 with hread | hread
    · rw [hread] at hc
      cases hc
    · rw [hread] at hc
      exact (Reading.asked.inj hc).symm
  · rcases hbase.2 with hread | hread <;>
    · rw [hread] at hes
      cases hes

/-- A read that fails sends what was announced, in whatever order. -/
theorem Base.failing (h : Base start s) (hfailed : s.failed = true) {ids : List (String × Event)}
    (hids : ∀ a ∈ ids, ∃ e ∈ s.appended, e.id.text = a.1 ∧ e.event = some a.2) :
    Base start (ids.foldl (fun s a => advance s a.1 a.2) s) := by
  induction ids generalizing s with
  | nil => exact h
  | cons a ids ih =>
    obtain ⟨⟨e, he, hid, hevent⟩, hrest⟩ := forall_mem_cons.mp hids
    have hcore := h.advance ⟨e, he, hid, hevent⟩
    have hsame : (advance s a.1 a.2).appended = s.appended ∧ (advance s a.1 a.2).failed = s.failed ∧
        ((advance s a.1 a.2).cursor = s.cursor ∨ (advance s a.1 a.2).cursor = some e.id.text) := by
      unfold advance
      split
      · exact ⟨rfl, rfl, .inl rfl⟩
      · exact ⟨rfl, rfl, .inr (congrArg some hid.symm)⟩
    refine ih ⟨hcore, ?_, fun hok => ?_⟩ (hsame.2.1.trans hfailed) (hsame.1 ▸ hrest)
    · rw [hsame.1]
      rcases hsame.2.2 with hcursor | hcursor
      · rw [hcursor]
        exact h.cursor
      · exact .inr ⟨e, he, hcursor⟩
    · rw [hsame.2.1, hfailed] at hok
      cases hok

theorem Base.fallback (h : Base start s) : Inv start (fallback s) := by
  have hfailed : Base start { s with failed := true } :=
    { h with seen := fun hok => by cases hok }
  refine (hfailed.failing rfl fun a ha => h.announced a ?_).endTurn
  exact (perm_insertionSort _ _).subset ha

/-! ### Reading -/

theorem not_passed_of_after {cursor : Option String} (hvalid : ∀ c ∈ cursor, (streamIdOf c).isSome)
    {e : Entry Event} (hfits : e.id.Fits) (hpos : StreamId.Before ⟨0, 0⟩ e.id)
    (hafter : After cursor e) : passed cursor e.id.text = false := by
  cases cursor with
  | none => rfl
  | some c =>
    obtain ⟨id, hid⟩ := isSome_iff_exists.mp (hvalid c rfl)
    rw [passed_some_false, Behind, parts_text hfits]
    rcases parts_of_streamIdOf hid with hparts | hparts
    · rw [hparts]
      exact hafter c rfl id hid
    · rw [hparts]
      exact hpos

theorem xrange_spec {stream entries : List (Entry Event)} {cursor : Option String}
    (h : xrange stream cursor = some entries) : entries.Sublist stream ∧
      (∀ e ∈ entries, After cursor e) ∧ ∀ e ∈ stream, After cursor e → e ∈ entries := by
  cases cursor with
  | none =>
    obtain rfl := some.inj h
    exact ⟨.refl _, fun _ _ _ hc => (by cases hc), fun _ he _ => he⟩
  | some c =>
    obtain ⟨id, hid, hentries⟩ := bind_eq_some_iff.mp h
    split at hentries
    · obtain rfl := some.inj hentries
      refine ⟨filter_sublist, fun e he c' hc' id' hid' => ?_, fun e he hafter => ?_⟩
      · obtain rfl := some.inj hc'
        obtain rfl := some.inj (hid.symm.trans hid')
        exact of_decide_eq_true (mem_filter.mp he).2
      · exact mem_filter.mpr ⟨he, decide_eq_true (hafter c rfl id hid)⟩
    · cases hentries

section

variable (hstart : ∀ c ∈ start, (streamIdOf c).isSome)
include hstart

theorem Base.valid (h : Base start s) : ∀ c ∈ s.cursor, (streamIdOf c).isSome := by
  rcases h.cursor with hcursor | ⟨e, -, hcursor⟩
  · rwa [hcursor]
  · intro c hc
    obtain rfl := some.inj (hcursor.symm.trans hc)
    rw [streamIdOf_text]
    rfl

theorem Inv.serve (h : Inv start s) {cursor : Option String} (hasked : s.reading = .asked cursor)
    {entries : List (Entry Event)} (hentries : xrange s.stream cursor = some entries) :
    Inv start { s with reading := .answered entries } := by
  obtain rfl := h.asked cursor hasked
  obtain ⟨hsub, hafter, hall⟩ := xrange_spec hentries
  refine ⟨h.toBase.congr rfl rfl rfl rfl rfl rfl fun a ha => .inl ha, fun c hc => (by cases hc),
    fun es hes => ?_⟩
  obtain rfl := Reading.answered.inj hes
  refine ⟨h.rising.sublist (hsub.trans h.suffix.sublist), fun e he => ?_, fun e he hcursor _ =>
    hall e he hcursor⟩
  have hmem := h.suffix.subset (hsub.subset he)
  obtain ⟨hfits, hpos⟩ := h.fits e hmem
  exact ⟨hmem, not_passed_of_after (h.valid hstart) hfits hpos (hafter e he)⟩

omit hstart in
theorem Inv.resolve (h : Inv start s) {es : List (Entry Event)} (hes : s.reading = .answered es) :
    Base start (es.foldl take s) := by
  obtain ⟨hsorted, hmem, hcomplete⟩ := h.answered es hes
  have ht := taken_all h.toCore hsorted hmem
  have happended : (es.foldl take s).appended = s.appended := by rw [ht.same]
  have hstream : (es.foldl take s).stream = s.stream := by rw [ht.same]
  have hclosed : (es.foldl take s).closed = s.closed := by rw [ht.same]
  have hfailed : (es.foldl take s).failed = s.failed := by rw [ht.same]
  refine ⟨ht.core, ?_, fun hok e he event hevent hafter hreached => ?_⟩
  · rw [happended]
    rcases ht.cursor with hsame | ⟨e, he, hlast⟩
    · rw [hsame]
      exact h.cursor
    · exact .inr ⟨e, (hmem e he).1, hlast⟩
  · rw [hfailed] at hok
    rw [hstream] at he
    cases hopen : s.closed with
    | true =>
      rw [ht.silent hopen, hclosed, hopen] at hreached
      rw [ht.silent hopen]
      exact h.seen hok e he event hevent hafter
        (.inr (hreached.resolve_left fun hno => nomatch hno.1))
    | false =>
      have hpassed : passed (es.foldl take s).cursor e.id.text = true := by
        rcases hreached with hreached | ⟨a, ha, hnot⟩
        · exact hreached.2
        · exact passed_of_not_behind (ht.core.sent a ha).2 hnot
      cases hold : passed s.cursor e.id.text with
      | true => exact ht.kept (h.seen hok e he event hevent hafter (.inl ⟨hopen, hold⟩))
      | false =>
        -- the entry was passed by this read, so it is among what was read
        have hfits := (h.fits e (h.suffix.subset he)).1
        rcases ht.cursor with hsame | ⟨b, hb, hlast⟩
        · rw [hsame, hold] at hpassed
          cases hpassed
        · rw [hlast, passed_some, behind_text (h.fits b (hmem b hb).1).1 hfits] at hpassed
          refine ht.shown hopen e (hcomplete e he ?_ ⟨b, hb, hpassed⟩) event hevent
          rcases h.cursor with hcursor | ⟨e₀, he₀, hcursor⟩
          · rwa [hcursor]
          · rw [hcursor, passed_some_false, behind_text (h.fits e₀ he₀).1 hfits] at hold
            rw [hcursor]
            rintro c hc id hid
            obtain rfl := some.inj hc
            rw [streamIdOf_text] at hid
            exact some.inj hid ▸ hold

/-! ### The steps -/

theorem Inv.append (h : Inv start s) {id : StreamId} (event : Option Event) (hfits : id.Fits)
    (hpos : StreamId.Before ⟨0, 0⟩ id) (hlast : ∀ e ∈ s.appended, e.id.Before id) :
    Inv start { s with
      appended := s.appended ++ [⟨id, event⟩], stream := s.stream ++ [⟨id, event⟩] } := by
  have hbehind : ∀ e ∈ s.appended, Behind e.id.text id.text := fun e he =>
    (behind_text (h.fits e he).1 hfits).mpr (hlast e he)
  have hgrown {P : Entry Event → Prop} : (∃ e ∈ s.appended, P e) →
      ∃ e ∈ s.appended ++ [⟨id, event⟩], P e :=
    fun ⟨e, he, hP⟩ => ⟨e, mem_append_left _ he, hP⟩
  have hnew (hafter : After start (Entry.mk id event)) : passed s.cursor id.text = false := by
    rcases h.cursor with hcursor | ⟨e₀, he₀, hcursor⟩
    · rw [hcursor]
      exact not_passed_of_after (e := ⟨id, event⟩) hstart hfits hpos hafter
    · rw [hcursor, passed_some_false]
      exact hbehind e₀ he₀
  exact
    { asked := h.asked
      answered := fun es hes => by
        obtain ⟨hsorted, hmem, hcomplete⟩ := h.answered es hes
        refine ⟨hsorted, fun e he => ⟨mem_append_left _ (hmem e he).1, (hmem e he).2⟩, ?_⟩
        rintro e he hafter ⟨b, hb, hnot⟩
        rcases mem_append.mp he with he | he
        · exact hcomplete e he hafter ⟨b, hb, hnot⟩
        · rw [mem_singleton.mp he] at hnot
          exact absurd (hlast b (hmem b hb).1) hnot
      cursor := h.cursor.imp_right hgrown
      seen := fun hok e he event' hevent hafter hreached => by
        rcases mem_append.mp he with he | he
        · exact h.seen hok e he event' hevent hafter hreached
        · -- nothing has come as far as the new entry
          rw [mem_singleton.mp he] at hafter hreached
          rcases hreached with ⟨-, hpassed⟩ | ⟨a, ha, hnot⟩
          · exact absurd hpassed (Bool.eq_false_iff.mp (hnew hafter))
          · obtain ⟨e₀, he₀, htext, -⟩ := (h.sent a ha).1
            exact absurd (htext ▸ hbehind e₀ he₀) hnot
      fits := fun e he => (mem_append.mp he).elim (h.fits e) fun he => by
        rw [mem_singleton.mp he]
        exact ⟨hfits, hpos⟩
      rising := pairwise_append.mpr ⟨h.rising, pairwise_singleton _ _, fun a ha b hb => by
        rw [mem_singleton.mp hb]
        exact hlast a ha⟩
      suffix := by
        obtain ⟨gone, hgone⟩ := h.suffix
        exact ⟨gone, by rw [← append_assoc, hgone]⟩
      announced := fun a ha => hgrown (h.announced a ha)
      sent := fun a ha => ⟨hgrown (h.sent a ha).1, (h.sent a ha).2⟩
      sorted := h.sorted }

omit hstart in
theorem Inv.trim (h : Inv start s) (n : Nat) : Inv start { s with stream := s.stream.drop n } :=
  have hsub : s.stream.drop n ⊆ s.stream := drop_subset n _
  { h with
    suffix := (drop_suffix n _).trans h.suffix
    seen := fun hok e he => h.seen hok e (hsub he)
    answered := fun es hes =>
      have ⟨hsorted, hmem, hcomplete⟩ := h.answered es hes
      ⟨hsorted, hmem, fun e he => hcomplete e (hsub he)⟩ }

omit hstart in
theorem Inv.read (h : Inv start s) : Inv start (read s) := by
  unfold SessionFeed.read
  split
  · exact ⟨h.toBase.congr rfl rfl rfl rfl rfl rfl fun a ha => .inl ha,
      fun c hc => (Reading.asked.inj hc).symm, fun es hes => by cases hes⟩
  · exact ⟨h.toBase.congr rfl rfl rfl rfl rfl rfl fun a ha => .inl ha, h.asked, h.answered⟩

theorem Inv.step (h : Inv start s) (maxLen : Nat) (action : Action Event) :
    Inv start (step maxLen s action) := by
  cases action with
  | append id event =>
    dsimp only [SessionFeed.step]
    split
    · next hid => exact h.append hstart event hid.1 hid.2.1 hid.2.2
    · exact h
  | trim n =>
    dsimp only [SessionFeed.step]
    split
    · exact h.trim n
    · exact h
  | announce i =>
    dsimp only [SessionFeed.step]
    split
    · next id event hentry =>
      split
      · exact h
      · refine Inv.read ⟨h.toBase.congr rfl rfl rfl rfl rfl rfl fun a ha => ?_, h.asked, h.answered⟩
        rcases Assoc.mem_put ha with rfl | ha
        · exact .inr ⟨_, List.mem_of_getElem? hentry, rfl, rfl⟩
        · exact .inl ha
    · exact h
  | unnumbered event =>
    dsimp only [SessionFeed.step]
    split
    · exact h
    · split
      · have hnumbered := numbered_emit s event none
        exact ⟨h.toBase.congr rfl rfl rfl rfl rfl (by simpa using hnumbered) fun a ha => .inl ha,
          h.asked, by simpa [emit] using h.answered⟩
      · exact ⟨h.toBase.congr rfl rfl rfl rfl rfl rfl fun a ha => .inl ha, h.asked, h.answered⟩
  | serve =>
    dsimp only [SessionFeed.step]
    split
    · next cursor hasked =>
      split
      · next entries hentries => exact h.serve hstart hasked hentries
      · exact h.fallback
    · exact h
  | resolve =>
    dsimp only [SessionFeed.step]
    split
    · next entries hes => exact (h.resolve hes).endTurn
    · exact h
  | reject =>
    dsimp only [SessionFeed.step]
    split
    · exact h
    · exact h.fallback
  | close =>
    exact { h with
      seen := fun hok e he event hevent hafter hreached =>
        h.seen hok e he event hevent hafter
          (.inr (hreached.resolve_left fun hno => nomatch hno.1)) }

end

end

theorem startOf_valid (lastEventId : Option String) :
    ∀ c ∈ startOf lastEventId, (streamIdOf c).isSome := fun _ hc =>
  (filter_eq_some_iff.mp hc).2

theorem inv_run (maxLen : Nat) (lastEventId : Option String) (actions : List (Action Event)) :
    Inv (startOf lastEventId) (run maxLen lastEventId actions) := by
  unfold run
  have hbegun : Inv (startOf lastEventId) (read { cursor := startOf lastEventId } : Feed Event) :=
    Inv.read
      { fits := fun _ he => by cases he
        rising := .nil
        suffix := suffix_rfl
        announced := fun _ ha => by cases ha
        sent := fun _ ha => by cases ha
        sorted := .nil
        cursor := .inl rfl
        seen := fun _ _ he => by cases he
        asked := fun _ hc => by cases hc
        answered := fun _ hes => by cases hes }
  generalize read { cursor := startOf lastEventId } = s at hbegun ⊢
  induction actions generalizing s with
  | nil => exact hbegun
  | cons action actions ih => exact ih _ (hbegun.step (startOf_valid lastEventId) maxLen action)

theorem session_in_order (maxLen : Nat) (lastEventId : Option String)
    (actions : List (Action Event)) :
    (numbered (run maxLen lastEventId actions)).Pairwise (fun a b => Behind a.1 b.1) ∧
    (∀ a ∈ numbered (run maxLen lastEventId actions),
      ∃ e ∈ (run maxLen lastEventId actions).appended, e.id.text = a.1 ∧ e.event = some a.2) ∧
    ((run maxLen lastEventId actions).failed = false →
      ∀ e ∈ (run maxLen lastEventId actions).stream, ∀ event, e.event = some event →
        After (startOf lastEventId) e →
        (∃ a ∈ numbered (run maxLen lastEventId actions), ¬ Behind a.1 e.id.text) →
        (e.id.text, event) ∈ numbered (run maxLen lastEventId actions)) := by
  have h := inv_run maxLen lastEventId actions
  exact ⟨h.sorted, fun a ha => (h.sent a ha).1, fun hok e he event hevent hafter hreached =>
    h.seen hok e he event hevent hafter (.inr hreached)⟩

/-- The backlog expires before the viewer's first read: the first entry is not sent. -/
theorem expired_entry_is_not_sent :
    (run 2000 none [.append ⟨1, 0⟩ (some "a"), .trim 1, .append ⟨2, 0⟩ (some "b"), .serve,
      .resolve]).failed = false ∧
    (run 2000 none [.append ⟨1, 0⟩ (some "a"), .trim 1, .append ⟨2, 0⟩ (some "b"), .serve,
      .resolve]).appended.map (fun e => (e.id.text, e.event)) =
      [("1-0", some "a"), ("2-0", some "b")] ∧
    numbered (run 2000 none [.append ⟨1, 0⟩ (some "a"), .trim 1, .append ⟨2, 0⟩ (some "b"), .serve,
      .resolve]) = [("2-0", "b")] := by
  decide +kernel

end Almyty.Runner.SessionFeed
