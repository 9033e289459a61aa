import Almyty.Memory.Listing

/-!
# Collecting a scope page by page

Three places walk a scope: `MemoryRouter.transfer` until there is no cursor,
`MemorySyncService.collect` so too, but for a thousand pages at most, and `MemoryMoveService.run`,
which lists a page again until it shows nothing new and stops at a cursor it has seen.

`Collects` says that a walk ends with every current memory of the scope and mode, once. Over
almyty's own store it does exactly when every page ends between two milliseconds (and a thousand
pages are enough, for a sync); over a service, when what is wanted is on its first page.
`collection_iff` puts the walkers and the adapters together.

Mirroring notes:
- `runFrom` is the paging of a move by itself: nothing is written during the walk, so what was
  handled is listed again.
-/

namespace Almyty.Memory

open List

variable {κ : Type}

structure Adapter (κ : Type) where
  list : ListQuery κ → Page κ
  /-- `sourceIdOf(source, item) ?? 'item:' + item.id`. -/
  key : MemoryItem → String
  /-- The keys of the current memories of a scope and mode. -/
  current : ScopeRef → Mode → List String

/-! ## The walks -/

def follow (list : Option κ → Page κ) : Nat → Option κ → List MemoryItem × Bool
  | 0, _ => ([], false)
  | pages + 1, cursor =>
    let page := list cursor
    match page.cursor with
    | none => (page.items, true)
    | some next =>
      let rest := follow list pages (some next)
      (page.items ++ rest.1, rest.2)

def freshOf (key : MemoryItem → String) : List String → List MemoryItem → List MemoryItem
  | _, [] => []
  | handled, item :: items =>
    if key item ∈ handled then freshOf key handled items
    else item :: freshOf key (key item :: handled) items

def runFrom [DecidableEq κ] (key : MemoryItem → String) (list : Option κ → Page κ) :
    Nat → List String → List κ → Option κ → Option (List MemoryItem)
  | 0, _, _, _ => none
  | turns + 1, handled, cursors, cursor =>
    let page := list cursor
    let fresh := freshOf key handled page.items
    if fresh = [] then
      match page.cursor with
      | none => some []
      | some next =>
        if next ∈ cursors then some []
        else runFrom key list turns handled (next :: cursors) (some next)
    else (runFrom key list turns (fresh.map key ++ handled) cursors cursor).map (fresh ++ ·)

/-- `MemorySyncService.MAX_PAGES`. -/
def maxPages : Nat := 1000

inductive Walker
  | transfer (mode : Mode)
  | collect
  | run (mode : Mode)

namespace Walker

def mode : Walker → Mode
  | .transfer mode => mode
  | .collect => .memory
  | .run mode => mode

def limit : Walker → Nat
  | .transfer _ => 200
  | .collect => 200
  | .run _ => 100

def ask (w : Walker) (a : Adapter κ) (scope : ScopeRef) (cursor : Option κ) : Page κ :=
  a.list { scope, mode := some w.mode, limit := some w.limit, cursor }

variable [DecidableEq κ]

def Ends (w : Walker) (a : Adapter κ) (scope : ScopeRef) (all : List MemoryItem) : Prop :=
  match w with
  | .transfer _ => ∃ pages, follow (w.ask a scope) pages none = (all, true)
  | .collect => (follow (w.ask a scope) maxPages none).1 = all
  | .run _ => ∃ turns, runFrom a.key (w.ask a scope) turns [] [] none = some all

/-- It ends, with every current memory once. -/
def Collects (w : Walker) (a : Adapter κ) (scope : ScopeRef) : Prop :=
  ∃ all, w.Ends a scope all ∧ ∀ key ∈ a.current scope w.mode, (all.map a.key).count key = 1

end Walker

/-! ## The adapters -/

def currentRows (rows : List MemoryItem) (scope : ScopeRef) (mode : Mode) : List MemoryItem :=
  rows.filter fun row => row.scope = scope && row.mode = mode && row.validUntil.isNone &&
    row.deletedAt.isNone

/-- almyty's own store. -/
def native (db : RowOrder) (rows : List MemoryItem) : Adapter Int where
  list := nativeList db rows
  key := (·.id)
  current scope mode := (currentRows rows scope mode).map (·.id)

def serviceKey (item : MemoryItem) : String := item.nativeId.getD ("item:" ++ item.id)

def mem0 (service : PagingService) : Adapter String where
  list := mem0List service
  key := serviceKey
  current scope mode :=
    ((service.kept (scopeToUserId scope)).map mem0Item |>.filter (·.mode = mode)).map serviceKey

def supermemory (service : PagingService) : Adapter String where
  list := supermemoryList service
  key := serviceKey
  current scope mode := ((service.kept (scopeToTag scope)).filter (·.mode = mode)).map serviceKey

/-! ## Walks in general -/

theorem follow_succ {list : Option κ → Page κ} {pages : Nat} {cursor : Option κ}
    (h : (follow list pages cursor).2 = true) :
    follow list (pages + 1) cursor = follow list pages cursor := by
  induction pages generalizing cursor with
  | zero => cases h
  | succ pages ih =>
    rw [follow] at h
    rw [follow, follow]
    cases hnext : (list cursor).cursor with
    | none => rfl
    | some next =>
      simp only [hnext] at h
      simp only [ih h]

theorem follow_of_le {list : Option κ → Page κ} {pages pages' : Nat} {cursor : Option κ}
    (h : (follow list pages cursor).2 = true) (hle : pages ≤ pages') :
    follow list pages' cursor = follow list pages cursor := by
  induction pages', hle using Nat.le_induction with
  | base => rfl
  | succ pages' hle ih => rw [follow_succ (by rw [ih]; exact h), ih]

theorem freshOf_eq_self {key : MemoryItem → String} {handled : List String}
    {items : List MemoryItem} (hnd : (items.map key).Nodup)
    (hnew : ∀ item ∈ items, key item ∉ handled) : freshOf key handled items = items := by
  induction items generalizing handled with
  | nil => rfl
  | cons item items ih =>
    obtain ⟨hitem, hitems⟩ := forall_mem_cons.mp hnew
    obtain ⟨hfirst, hnd⟩ := nodup_cons.mp hnd
    rw [freshOf, if_neg hitem, ih hnd]
    intro other hother
    rw [mem_cons, not_or]
    exact ⟨fun heq => hfirst (heq ▸ mem_map_of_mem hother), hitems other hother⟩

theorem freshOf_eq_nil {key : MemoryItem → String} {handled : List String}
    {items : List MemoryItem} (hold : ∀ item ∈ items, key item ∈ handled) :
    freshOf key handled items = [] := by
  induction items with
  | nil => rfl
  | cons item items ih =>
    obtain ⟨hitem, hitems⟩ := forall_mem_cons.mp hold
    rw [freshOf, if_pos hitem]
    exact ih hitems

section Run

variable [DecidableEq κ] {key : MemoryItem → String} {list : Option κ → Page κ}

variable {handled : List String} {cursors : List κ} {cursor : Option κ}

theorem runFrom_succ {turns : Nat} {all : List MemoryItem}
    (h : runFrom key list turns handled cursors cursor = some all) :
    runFrom key list (turns + 1) handled cursors cursor = some all := by
  induction turns generalizing handled cursors cursor all with
  | zero => cases h
  | succ turns ih =>
    unfold runFrom at h ⊢
    dsimp only at h ⊢
    split
    next hfresh =>
      rw [if_pos hfresh] at h
      cases hnext : (list cursor).cursor with
      | none => simpa only [hnext] using h
      | some next =>
        simp only [hnext] at h ⊢
        split
        next hseen => rwa [if_pos hseen] at h
        next hnew =>
          rw [if_neg hnew] at h
          exact ih h
    next hfresh =>
      rw [if_neg hfresh] at h
      obtain ⟨rest, hrest, heq⟩ := Option.map_eq_some_iff.mp h
      rw [ih hrest, Option.map_some, heq]

theorem runFrom_unique {turns turns' : Nat} {all all' : List MemoryItem}
    (h : runFrom key list turns handled cursors cursor = some all)
    (h' : runFrom key list turns' handled cursors cursor = some all') : all = all' := by
  have hmore : ∀ {turns : Nat} {all : List MemoryItem} (more : Nat),
      runFrom key list turns handled cursors cursor = some all →
        runFrom key list (turns + more) handled cursors cursor = some all := by
    intro turns all more h
    induction more with
    | zero => exact h
    | succ more ih => exact runFrom_succ ih
  have hleft := hmore turns' h
  have hright := hmore turns h'
  rw [Nat.add_comm turns' turns, hleft] at hright
  exact Option.some.inj hright

/-- Where a run goes once a page shows nothing new. -/
def turnPage (key : MemoryItem → String) (list : Option κ → Page κ) (turns : Nat)
    (handled : List String) (cursors : List κ) (next : Option κ) : Option (List MemoryItem) :=
  match next with
  | none => some []
  | some next =>
    if next ∈ cursors then some []
    else runFrom key list turns handled (next :: cursors) (some next)

theorem runFrom_page {turns : Nat} {rest : List MemoryItem}
    (hnd : ((list cursor).items.map key).Nodup)
    (hnew : ∀ item ∈ (list cursor).items, key item ∉ handled)
    (h : turnPage key list turns ((list cursor).items.map key ++ handled) cursors
      (list cursor).cursor = some rest) :
    ∃ turns', runFrom key list turns' handled cursors cursor
      = some ((list cursor).items ++ rest) := by
  have hfresh := freshOf_eq_self hnd hnew
  have hagain : freshOf key ((list cursor).items.map key ++ handled) (list cursor).items = [] :=
    freshOf_eq_nil fun item hitem => mem_append_left _ (mem_map_of_mem hitem)
  have hsecond : runFrom key list (turns + 1) ((list cursor).items.map key ++ handled) cursors cursor
      = some rest := by
    rw [← h]
    simp only [runFrom, hagain, if_true, turnPage]
  by_cases hempty : (list cursor).items = []
  · refine ⟨turns + 1, ?_⟩
    simpa only [hempty, map_nil, nil_append] using hsecond
  · refine ⟨turns + 1 + 1, ?_⟩
    rw [runFrom]
    simp only [hfresh, if_neg hempty, hsecond, Option.map_some]

theorem runFrom_last (hnd : ((list cursor).items.map key).Nodup)
    (hnew : ∀ item ∈ (list cursor).items, key item ∉ handled) (hnone : (list cursor).cursor = none) :
    ∃ turns, runFrom key list turns handled cursors cursor = some (list cursor).items := by
  have hstop : turnPage key list 0 ((list cursor).items.map key ++ handled) cursors
      (list cursor).cursor = some [] := by simp only [hnone, turnPage]
  simpa using runFrom_page hnd hnew hstop

end Run

/-! ## almyty's own store -/

def newestFirst (rows : List MemoryItem) : List Int :=
  (rows.map (·.createdAt)).mergeSort fun a b => b ≤ a

/-- No page of `limit` ends within a millisecond: what comes after its last row is older
than that row cut to milliseconds. -/
def CleanCuts (limit : Nat) (times : List Int) : Prop :=
  ∀ k, 0 < k → k * limit < times.length →
    times.getD (k * limit) 0 < cutMs (times.getD (k * limit - 1) 0)

section Native

variable {db : RowOrder} {base : List MemoryItem} {limit : Nat}

/-- The rows a page is taken from. -/
def before (base : List MemoryItem) (cursor : Option Int) : List MemoryItem :=
  base.filter fun row => cursor.all (row.createdAt < ·)

def pageFrom (db : RowOrder) (limit : Nat) (base : List MemoryItem) (cursor : Option Int) :
    Page Int :=
  let found := (db.order (before base cursor)).take (limit + 1)
  let shown := if limit < found.length then found.take limit else found
  { items := shown.map entityToItem
    total := shown.length
    cursor := if limit < found.length then shown.getLast?.map fun row => cutMs row.createdAt
      else none }

theorem ask_native (w : Walker) (rows : List MemoryItem) (scope : ScopeRef) :
    w.ask (native db rows) scope = pageFrom db w.limit (currentRows rows scope w.mode) := by
  funext cursor
  have hlimit : min w.limit 200 = w.limit := by cases w <;> rfl
  have hrows : rows.filter (fun row =>
      matchesQuery (⟨scope, some w.mode, none, [], none, none, false, false, false,
        some w.limit, cursor⟩ : ListQuery Int) row && cursor.all (row.createdAt < ·))
      = before (currentRows rows scope w.mode) cursor := by
    rw [before, currentRows, filter_filter]
    apply filter_congr
    intro row _
    simp [matchesQuery, Bool.and_comm]
  simp only [Walker.ask, native, nativeList, pageLimit, pageFrom, Option.getD_some, hlimit]
  rw [hrows]

variable {cursor : Option Int}

theorem pageFrom_of_le (db : RowOrder) (h : (before base cursor).length ≤ limit) :
    (pageFrom db limit base cursor).items = (db.order (before base cursor)).map entityToItem ∧
      (pageFrom db limit base cursor).cursor = none := by
  have hlen := (db.perm (before base cursor)).length_eq
  have hall : (db.order (before base cursor)).take (limit + 1) = db.order (before base cursor) :=
    take_of_length_le (by omega)
  have hfew : ¬ limit < (db.order (before base cursor)).length := by omega
  simp only [pageFrom, hall, if_neg hfew, and_self]

theorem pageFrom_of_lt (db : RowOrder) (hpos : 0 < limit) (h : limit < (before base cursor).length) :
    ∃ front last next rest, db.order (before base cursor) = front ++ last :: next :: rest ∧
      front.length + 1 = limit ∧
      (pageFrom db limit base cursor).items = (front ++ [last]).map entityToItem ∧
      (pageFrom db limit base cursor).cursor = some (cutMs last.createdAt) := by
  have hlen := (db.perm (before base cursor)).length_eq
  obtain ⟨k, rfl⟩ : ∃ k, limit = k + 1 := ⟨limit - 1, by omega⟩
  -- the row at `k` ends the page, the one after it is the one row too many
  have hsplit : db.order (before base cursor)
      = (db.order (before base cursor)).take k ++ (db.order (before base cursor)).drop k :=
    (take_append_drop ..).symm
  match hrest : (db.order (before base cursor)).drop k with
  | [] =>
    have := congrArg List.length hrest
    simp only [length_drop, length_nil] at this
    omega
  | [_] =>
    have := congrArg List.length hrest
    simp only [length_drop, length_singleton] at this
    omega
  | last :: next :: rest =>
    rw [hrest] at hsplit
    have hk : ((db.order (before base cursor)).take k).length = k := by
      rw [length_take]
      omega
    generalize (db.order (before base cursor)).take k = front at hsplit hk
    have hfound : (front ++ last :: next :: rest).take (k + 1 + 1) = front ++ [last, next] := by
      rw [List.take_append, take_of_length_le (by omega)]
      have : k + 1 + 1 - front.length = 2 := by omega
      rw [this]
      rfl
    have hshown : (front ++ [last, next]).take (k + 1) = front ++ [last] := by
      rw [List.take_append, take_of_length_le (by omega)]
      have : k + 1 - front.length = 1 := by omega
      rw [this]
      rfl
    have hmore : k + 1 < (front ++ [last, next]).length := by
      simp only [length_append, length_cons, length_nil]
      omega
    refine ⟨front, last, next, rest, hsplit, by omega, ?_⟩
    simp only [pageFrom, hsplit, hfound, hshown, if_pos hmore, List.getLast?_append,
      List.getLast?_singleton, Option.some_or, Option.map_some, and_self]

theorem newestFirst_sorted (rows : List MemoryItem) :
    (newestFirst rows).Pairwise fun a b => b ≤ a := by
  have : Std.Total fun a b : Int => b ≤ a := ⟨fun a b => by omega⟩
  have : IsTrans Int fun a b => b ≤ a := ⟨fun a b c => by omega⟩
  exact pairwise_mergeSort' _ _

theorem newestFirst_eq {rows sorted : List MemoryItem} (hperm : sorted.Perm rows)
    (hsorted : sorted.Pairwise fun a b => b.createdAt ≤ a.createdAt) :
    newestFirst rows = sorted.map (·.createdAt) := by
  have hanti : ∀ a b : Int, a ∈ newestFirst rows → b ∈ sorted.map (·.createdAt) → b ≤ a → a ≤ b →
      a = b := fun a b _ _ hba hab => le_antisymm hab hba
  have hmap : (sorted.map (·.createdAt)).Pairwise fun a b => b ≤ a := pairwise_map.mpr hsorted
  refine List.Perm.eq_of_pairwise hanti (newestFirst_sorted rows) hmap ?_
  exact (mergeSort_perm _ _).trans (hperm.map _).symm

theorem cleanCuts_iff {times : List Int} (hpos : 0 < limit) (hlong : limit < times.length) :
    CleanCuts limit times ↔
      times.getD limit 0 < cutMs (times.getD (limit - 1) 0) ∧ CleanCuts limit (times.drop limit) := by
  have hdrop : ∀ i, (times.drop limit).getD i 0 = times.getD (limit + i) 0 := by
    intro i
    simp [List.getD_eq_getElem?_getD, List.getElem?_drop]
  have hshift : ∀ k, 0 < k → limit + (k * limit - 1) = (k + 1) * limit - 1 := by
    intro k hk
    have : limit ≤ k * limit := Nat.le_mul_of_pos_left limit hk
    rw [Nat.succ_mul]
    omega
  have hnext : ∀ k, limit + k * limit = (k + 1) * limit := by
    intro k
    rw [Nat.succ_mul, Nat.add_comm]
  constructor
  · intro h
    refine ⟨by simpa using h 1 (by omega) (by omega), fun k hk hlen => ?_⟩
    rw [length_drop] at hlen
    have := h (k + 1) (by omega) (by rw [← hnext]; omega)
    rw [hdrop, hdrop, hnext, hshift k hk]
    exact this
  · rintro ⟨hfirst, hrest⟩ k hk hlen
    obtain ⟨j, rfl⟩ : ∃ j, k = j + 1 := ⟨k - 1, by omega⟩
    rcases Nat.eq_zero_or_pos j with rfl | hj
    · simpa using hfirst
    · have := hrest j hj (by rw [length_drop]; rw [← hnext] at hlen; omega)
      rw [hdrop, hdrop, hnext, hshift j hj] at this
      exact this

theorem before_next {front : List MemoryItem} {last : MemoryItem} {rest : List MemoryItem}
    (horder : db.order (before base cursor) = front ++ last :: rest) :
    (before base (some (cutMs last.createdAt))).Perm
      (rest.filter fun row => row.createdAt < cutMs last.createdAt) := by
  have hsorted := db.sorted (before base cursor)
  have hperm := db.perm (before base cursor)
  rw [horder] at hsorted hperm
  have hcut := cutMs_le last.createdAt
  have hmem : last ∈ before base cursor := hperm.mem_iff.mp (by simp)
  have hsub : before base (some (cutMs last.createdAt))
      = (before base cursor).filter fun row => row.createdAt < cutMs last.createdAt := by
    rw [before, before, filter_filter]
    apply filter_congr
    intro row _
    cases cursor with
    | none => simp
    | some c =>
      have hc : last.createdAt < c := by simpa using (mem_filter.mp hmem).2
      by_cases hrow : row.createdAt < cutMs last.createdAt
      · have hearlier : row.createdAt < c := by omega
        simp [hrow, hearlier]
      · simp [hrow]
  have hpage : (front ++ [last]).filter (fun row => row.createdAt < cutMs last.createdAt) = [] := by
    rw [filter_eq_nil_iff]
    intro row hrow
    rw [decide_eq_true_eq, not_lt]
    rcases mem_append.mp hrow with hfront | hlast
    · have := (pairwise_append.mp hsorted).2.2 row hfront last (by simp)
      omega
    · rw [mem_singleton.mp hlast]
      exact hcut
  rw [hsub]
  refine (hperm.symm.filter _).trans ?_
  have happend : front ++ last :: rest = front ++ [last] ++ rest := by simp
  rw [happend, filter_append, hpage, nil_append]

theorem map_id_entityToItem (rows : List MemoryItem) :
    (rows.map entityToItem).map (·.id) = rows.map (·.id) := by
  rw [map_map]
  rfl

theorem nodup_before (hnd : (base.map (·.id)).Nodup) (cursor : Option Int) :
    ((before base cursor).map (·.id)).Nodup :=
  hnd.sublist (filter_sublist.map _)

theorem cut_iff {front rest : List MemoryItem} {last next : MemoryItem}
    (hsorted : ((front ++ [last]) ++ next :: rest).Pairwise fun a b => b.createdAt ≤ a.createdAt) :
    next.createdAt < cutMs last.createdAt ↔
      (next :: rest).filter (fun row => row.createdAt < cutMs last.createdAt) = next :: rest := by
  have hrest : ∀ row ∈ rest, row.createdAt ≤ next.createdAt := by
    exact (pairwise_cons.mp (pairwise_append.mp hsorted).2.1).1
  rw [filter_eq_self]
  constructor
  · intro hcut row hrow
    rw [decide_eq_true_eq]
    rcases mem_cons.mp hrow with rfl | hrow
    · exact hcut
    · have := hrest row hrow
      omega
  · intro hall
    simpa using hall next (by simp)

theorem page_then_rest {rows after front rest : List MemoryItem} {last next : MemoryItem}
    {later : List String} {pages : Nat} (hlen : front.length + 1 = limit)
    (hperm : ((front ++ [last]) ++ next :: rest).Perm rows)
    (hsorted : ((front ++ [last]) ++ next :: rest).Pairwise fun a b => b.createdAt ≤ a.createdAt)
    (hnd : (rows.map (·.id)).Nodup)
    (hafter : after.Perm ((next :: rest).filter fun row => row.createdAt < cutMs last.createdAt))
    (hnew : later.Nodup) (hsub : ∀ id ∈ later, id ∈ after.map (·.id))
    (hiff : (∀ row ∈ after, row.id ∈ later) ↔
      CleanCuts limit (newestFirst after) ∧ after.length ≤ pages * limit) :
    ((front ++ [last]).map (·.id) ++ later).Nodup ∧
      (∀ id ∈ (front ++ [last]).map (·.id) ++ later, id ∈ rows.map (·.id)) ∧
      ((∀ row ∈ rows, row.id ∈ (front ++ [last]).map (·.id) ++ later) ↔
        CleanCuts limit (newestFirst rows) ∧ rows.length ≤ (pages + 1) * limit) := by
  have hids := (hperm.map (·.id)).nodup_iff.mpr hnd
  rw [map_append, nodup_append] at hids
  obtain ⟨hpage, -, hapart⟩ := hids
  have hrest : ∀ id ∈ after.map (·.id), id ∈ (next :: rest).map (·.id) := by
    intro id hid
    obtain ⟨row, hrow, rfl⟩ := mem_map.mp hid
    exact mem_map_of_mem (mem_of_mem_filter (hafter.mem_iff.mp hrow))
  have hlate : ∀ id ∈ later, id ∉ (front ++ [last]).map (·.id) :=
    fun id hid hmem => hapart id hmem id (hrest id (hsub id hid)) rfl
  refine ⟨?_, ?_, ?_⟩
  · rw [nodup_append]
    exact ⟨hpage, hnew, fun id hid id' hid' heq => hlate id' hid' (heq ▸ hid)⟩
  · intro id hid
    rw [← (hperm.map (·.id)).mem_iff, map_append, mem_append]
    exact (mem_append.mp hid).imp_right fun h => hrest id (hsub id h)
  · have htimes := newestFirst_eq hperm hsorted
    have hcount := hperm.length_eq
    simp only [length_append, length_cons, length_nil] at hcount
    have hfirst : (newestFirst rows).getD limit 0 = next.createdAt := by
      rw [htimes, map_append, ← hlen]
      simp [List.getD_eq_getElem?_getD]
    have hlast : (newestFirst rows).getD (limit - 1) 0 = last.createdAt := by
      rw [htimes, ← hlen]
      simp [List.getD_eq_getElem?_getD]
    have hdrop : (newestFirst rows).drop limit = (next :: rest).map (·.createdAt) := by
      rw [htimes, map_append]
      exact drop_left' (by simpa using hlen)
    have hlong : limit < (newestFirst rows).length := by
      rw [htimes, length_map, length_append, length_append]
      simp only [length_cons]
      omega
    rw [cleanCuts_iff (by omega) hlong, hfirst, hlast, hdrop]
    have hmul : (pages + 1) * limit = pages * limit + limit := Nat.succ_mul ..
    by_cases hcut : next.createdAt < cutMs last.createdAt
    · -- nothing is left out, so what is collected after the page is the rest of the rows
      rw [(cut_iff hsorted).mp hcut] at hafter
      have hsame : newestFirst after = (next :: rest).map (·.createdAt) :=
        newestFirst_eq hafter.symm (pairwise_append.mp hsorted).2.1
      have hless := hafter.length_eq
      rw [length_cons] at hless
      have hrows : (∀ row ∈ rows, row.id ∈ (front ++ [last]).map (·.id) ++ later) ↔
          ∀ row ∈ after, row.id ∈ later := by
        constructor
        · intro h row hrow
          have hmem : row ∈ next :: rest := hafter.mem_iff.mp hrow
          refine (mem_append.mp (h row (hperm.mem_iff.mp (mem_append_right _ hmem)))).resolve_left ?_
          exact fun hpage => hapart row.id hpage row.id (mem_map_of_mem hmem) rfl
        · intro h row hrow
          rcases mem_append.mp (hperm.mem_iff.mpr hrow) with hmem | hmem
          · exact mem_append_left _ (mem_map_of_mem hmem)
          · exact mem_append_right _ (h row (hafter.mem_iff.mpr hmem))
      rw [hrows, hiff, hsame]
      constructor
      · exact fun h => ⟨⟨hcut, h.1⟩, by omega⟩
      · exact fun h => ⟨h.1.2, by omega⟩
    · -- the row after the page is on no page
      refine ⟨fun h => ?_, fun h => absurd h.1.1 hcut⟩
      have hnext : next ∈ rows := hperm.mem_iff.mp (by simp)
      rcases mem_append.mp (h next hnext) with hmem | hmem
      · exact absurd rfl (hapart next.id hmem next.id (by simp))
      · obtain ⟨row, hrow, hid⟩ := mem_map.mp (hsub next.id hmem)
        obtain ⟨hrow, hearlier⟩ := mem_filter.mp (hafter.mem_iff.mp hrow)
        have hmem' : row ∈ rows := hperm.mem_iff.mp (mem_append_right _ hrow)
        obtain rfl := inj_on_of_nodup_map hnd hmem' hnext hid
        exact absurd (of_decide_eq_true hearlier) hcut

/-- A walk over the store collects nothing twice, and everything when all cuts are clean and there
are pages enough. -/
theorem follow_native (db : RowOrder) (hpos : 0 < limit) (hnd : (base.map (·.id)).Nodup) (pages : Nat)
    (cursor : Option Int) :
    let all := (follow (pageFrom db limit base) pages cursor).1.map (·.id)
    all.Nodup ∧ (∀ id ∈ all, id ∈ (before base cursor).map (·.id)) ∧
      ((∀ row ∈ before base cursor, row.id ∈ all) ↔
        CleanCuts limit (newestFirst (before base cursor)) ∧
          (before base cursor).length ≤ pages * limit) := by
  induction pages generalizing cursor with
  | zero =>
    refine ⟨nodup_nil, by simp [follow], ?_⟩
    cases hrows : before base cursor with
    | nil => simp [CleanCuts, newestFirst]
    | cons row rows =>
      refine ⟨fun h => ?_, fun h => ?_⟩
      · exact absurd (h row (by simp)) (by simp [follow])
      · exact absurd h.2 (by simp)
  | succ pages ih =>
    have hperm := db.perm (before base cursor)
    have hnd' := nodup_before hnd cursor
    rcases Nat.lt_or_ge limit (before base cursor).length with hlong | hshort
    · obtain ⟨front, last, next, rest, horder, hlen, hitems, hnext⟩ := pageFrom_of_lt db hpos hlong
      have hsorted := db.sorted (before base cursor)
      rw [horder] at hperm hsorted
      obtain ⟨hnew, hsub, hiff⟩ := ih (some (cutMs last.createdAt))
      have hall : (follow (pageFrom db limit base) (pages + 1) cursor).1.map (·.id)
          = (front ++ [last]).map (·.id) ++
            (follow (pageFrom db limit base) pages (some (cutMs last.createdAt))).1.map (·.id) := by
        simp only [follow, hnext, hitems, map_append, map_id_entityToItem]
      have hwhole : front ++ last :: next :: rest = (front ++ [last]) ++ next :: rest := by simp
      rw [hwhole] at hperm
      simp only [hall]
      exact page_then_rest hlen hperm (hwhole ▸ hsorted) hnd' (before_next horder) hnew hsub hiff
    · obtain ⟨hitems, hnone⟩ := pageFrom_of_le db hshort
      have hall : (follow (pageFrom db limit base) (pages + 1) cursor).1.map (·.id)
          = (db.order (before base cursor)).map (·.id) := by
        simp only [follow, hnone, hitems, map_id_entityToItem]
      have hlen : (newestFirst (before base cursor)).length = (before base cursor).length := by
        simp [newestFirst]
      have hmem : ∀ id, id ∈ (db.order (before base cursor)).map (·.id) ↔
          id ∈ (before base cursor).map (·.id) := fun id => (hperm.map _).mem_iff
      simp only [hall]
      refine ⟨(hperm.map _).nodup_iff.mpr hnd', fun id => (hmem id).mp, ?_⟩
      refine ⟨fun _ => ⟨fun k hk hk' => ?_, ?_⟩, fun _ row hrow => ?_⟩
      · have : limit ≤ k * limit := Nat.le_mul_of_pos_left limit hk
        omega
      · rw [Nat.succ_mul]
        omega
      · exact (hmem row.id).mpr (mem_map_of_mem hrow)

theorem follow_native_ends (db : RowOrder) (hpos : 0 < limit) (cursor : Option Int) :
    ∃ pages, (follow (pageFrom db limit base) pages cursor).2 = true := by
  induction hk : (before base cursor).length using Nat.strong_induction_on generalizing cursor with
  | _ k ih =>
    rcases Nat.lt_or_ge limit (before base cursor).length with hlong | hshort
    · obtain ⟨front, last, next, rest, horder, hlen, -, hnext⟩ := pageFrom_of_lt db hpos hlong
      have hfewer : (before base (some (cutMs last.createdAt))).length < k := by
        have hperm := (db.perm (before base cursor)).length_eq
        rw [horder, hk] at hperm
        have hfilter := length_filter_le (fun row => row.createdAt < cutMs last.createdAt)
          (next :: rest)
        rw [(before_next horder).length_eq]
        simp only [length_append, length_cons] at hperm hfilter ⊢
        omega
      obtain ⟨pages, hends⟩ := ih _ hfewer _ rfl
      refine ⟨pages + 1, ?_⟩
      simpa only [follow, hnext] using hends
    · refine ⟨1, ?_⟩
      simp only [follow, (pageFrom_of_le db hshort).2]

theorem mem_page {items rows : List MemoryItem} (hsub : ∀ row ∈ items, row ∈ rows)
    {item : MemoryItem} (h : item ∈ items.map entityToItem) : ∃ row ∈ rows, row.id = item.id := by
  obtain ⟨row, hrow, rfl⟩ := mem_map.mp h
  exact ⟨row, hsub row hrow, rfl⟩

theorem run_native (hpos : 0 < limit) (hnd : (base.map (·.id)).Nodup) {pages : Nat}
    {handled : List String} {cursors : List Int}
    (hends : (follow (pageFrom db limit base) pages cursor).2 = true)
    (hnew : ∀ row ∈ before base cursor, row.id ∉ handled)
    (hahead : ∀ c ∈ cursors, ∀ row ∈ before base cursor, row.createdAt < c) :
    ∃ turns, runFrom (·.id) (pageFrom db limit base) turns handled cursors cursor
      = some (follow (pageFrom db limit base) pages cursor).1 := by
  induction pages generalizing cursor handled cursors with
  | zero => cases hends
  | succ pages ih =>
    have hperm := db.perm (before base cursor)
    have hnd' := nodup_before hnd cursor
    rcases Nat.lt_or_ge limit (before base cursor).length with hlong | hshort
    · obtain ⟨front, last, next, rest, horder, -, hitems, hnext⟩ := pageFrom_of_lt db hpos hlong
      have hbefore := before_next horder
      simp only [follow, hnext] at hends ⊢
      have hall : ((front ++ [last]) ++ next :: rest).Perm (before base cursor) := by
        rw [horder] at hperm
        simpa using hperm
      have hparts := (hall.map (·.id)).nodup_iff.mpr hnd'
      rw [map_append, nodup_append] at hparts
      have hids : (pageFrom db limit base cursor).items.map (·.id)
          = (front ++ [last]).map (·.id) := by rw [hitems, map_id_entityToItem]
      have hlater : ∀ row ∈ before base (some (cutMs last.createdAt)),
          row ∈ next :: rest ∧ row.createdAt < cutMs last.createdAt := by
        intro row hrow
        have := mem_filter.mp (hbefore.mem_iff.mp hrow)
        exact ⟨this.1, of_decide_eq_true this.2⟩
      have hlast : last ∈ before base cursor := hall.mem_iff.mp (by simp)
      have hcut := cutMs_le last.createdAt
      obtain ⟨turns, hturns⟩ := @ih (some (cutMs last.createdAt))
        ((pageFrom db limit base cursor).items.map (·.id) ++ handled)
        (cutMs last.createdAt :: cursors) hends
        (by
          intro row hrow
          obtain ⟨hrest, -⟩ := hlater row hrow
          rw [hids, mem_append, not_or]
          refine ⟨fun hpage => hparts.2.2 row.id hpage row.id (mem_map_of_mem hrest) rfl, ?_⟩
          exact hnew row (hall.mem_iff.mp (mem_append_right _ hrest)))
        (by
          intro c hc row hrow
          have hearlier := (hlater row hrow).2
          rcases mem_cons.mp hc with rfl | hc
          · exact hearlier
          · have := hahead c hc last hlast
            omega)
      have hunseen : cutMs last.createdAt ∉ cursors := by
        intro hmem
        have := hahead _ hmem last hlast
        omega
      have hturn : turnPage (·.id) (pageFrom db limit base) turns
          ((pageFrom db limit base cursor).items.map (·.id) ++ handled) cursors
          (pageFrom db limit base cursor).cursor
          = some (follow (pageFrom db limit base) pages (some (cutMs last.createdAt))).1 := by
        simp only [turnPage, hnext, if_neg hunseen, hturns]
      refine runFrom_page (hids ▸ hparts.1) (fun item hitem => ?_) hturn
      rw [hitems] at hitem
      obtain ⟨row, hrow, hid⟩ := mem_page
        (fun row hrow => hall.mem_iff.mp (mem_append_left _ hrow)) hitem
      exact hid ▸ hnew row hrow
    · obtain ⟨hitems, hnone⟩ := pageFrom_of_le db hshort
      simp only [follow, hnone]
      refine runFrom_last ?_ (fun item hitem => ?_) hnone
      · rw [hitems, map_id_entityToItem]
        exact (hperm.map _).nodup_iff.mpr hnd'
      · rw [hitems] at hitem
        obtain ⟨row, hrow, hid⟩ := mem_page (fun row hrow => hperm.mem_iff.mp hrow) hitem
        exact hid ▸ hnew row hrow

theorem before_none (base : List MemoryItem) : before base none = base := by
  simp [before]

theorem once_iff (base : List MemoryItem) {all : List MemoryItem} (hnd : (all.map (·.id)).Nodup) :
    (∀ id ∈ base.map (·.id), (all.map (·.id)).count id = 1) ↔
      ∀ row ∈ before base none, row.id ∈ all.map (·.id) := by
  rw [before_none]
  constructor
  · intro h row hrow
    apply count_pos_iff.mp
    rw [h row.id (mem_map_of_mem hrow)]
    omega
  · intro h id hid
    obtain ⟨row, hrow, rfl⟩ := mem_map.mp hid
    exact count_eq_one_of_mem hnd (h row hrow)

theorem ended_native_iff (hpos : 0 < limit) (hnd : (base.map (·.id)).Nodup) {pages : Nat}
    (hends : (follow (pageFrom db limit base) pages none).2 = true) :
    (∀ id ∈ base.map (·.id),
        ((follow (pageFrom db limit base) pages none).1.map (·.id)).count id = 1) ↔
      CleanCuts limit (newestFirst base) := by
  -- with more pages allowed it is the same walk, so there are pages enough
  have hsame := follow_of_le hends (Nat.le_add_right pages base.length)
  obtain ⟨hnew, -, hiff⟩ := follow_native db hpos hnd (pages + base.length) none
  rw [hsame] at hnew hiff
  rw [once_iff base hnew, hiff, before_none]
  have hmany : base.length ≤ (pages + base.length) * limit := by
    have : base.length ≤ base.length * limit := Nat.le_mul_of_pos_right _ hpos
    rw [Nat.add_mul]
    omega
  exact and_iff_left hmany

/-- Over the store a walk collects everything once exactly when all cuts are clean and the pages are
enough. -/
theorem collects_native_iff (w : Walker) (db : RowOrder) {rows : List MemoryItem}
    (hnd : (rows.map (·.id)).Nodup) (scope : ScopeRef) :
    w.Collects (native db rows) scope ↔
      CleanCuts w.limit (newestFirst (currentRows rows scope w.mode)) ∧
        (w = .collect → (currentRows rows scope w.mode).length ≤ maxPages * w.limit) := by
  have hnd' : ((currentRows rows scope w.mode).map (·.id)).Nodup :=
    hnd.sublist (filter_sublist.map _)
  have hpos : 0 < w.limit := by cases w <;> simp [Walker.limit]
  obtain ⟨pages, hends⟩ :=
    @follow_native_ends (currentRows rows scope w.mode) w.limit db hpos none
  have hended := ended_native_iff hpos hnd' hends
  unfold Walker.Collects
  cases w with
  | transfer mode =>
    simp only [Walker.Ends, ask_native, reduceCtorEq, false_implies, and_true]
    rw [← hended]
    constructor
    · rintro ⟨all, ⟨pages', hall⟩, honce⟩
      have hends' : (follow _ pages' none).2 = true := congrArg Prod.snd hall
      rw [hended, ← ended_native_iff hpos hnd' hends', hall]
      exact honce
    · intro honce
      exact ⟨_, ⟨pages, Prod.ext rfl hends⟩, honce⟩
  | collect =>
    simp only [Walker.Ends, ask_native, true_implies, exists_eq_left']
    obtain ⟨hnew, -, hiff⟩ := follow_native db hpos hnd' maxPages none
    have honce := once_iff (currentRows rows scope Walker.collect.mode) hnew
    rw [before_none] at hiff honce
    rw [← hiff]
    exact honce
  | run mode =>
    simp only [Walker.Ends, ask_native, reduceCtorEq, false_implies, and_true]
    rw [← hended]
    obtain ⟨turns, hturns⟩ : ∃ turns, runFrom (·.id)
        (pageFrom db (Walker.run mode).limit (currentRows rows scope (Walker.run mode).mode))
          turns [] [] none = some _ := run_native hpos hnd' hends (by simp) (by simp)
    constructor
    · rintro ⟨all, ⟨turns', hall⟩, honce⟩
      rw [← runFrom_unique hall hturns]
      exact honce
    · intro honce
      exact ⟨_, ⟨turns, hturns⟩, honce⟩

end Native

/-! ## Services -/

section Service

variable {scope : ScopeRef}

theorem ends_of_null {a : Adapter String} {w : Walker}
    (hnone : (w.ask a scope none).cursor = none)
    (hnd : ((w.ask a scope none).items.map a.key).Nodup) {all : List MemoryItem} :
    w.Ends a scope all ↔ all = (w.ask a scope none).items := by
  have hfollow : ∀ pages, follow (w.ask a scope) (pages + 1) none
      = ((w.ask a scope none).items, true) := by
    intro pages
    simp only [follow, hnone]
  cases w with
  | transfer mode =>
    constructor
    · rintro ⟨pages, h⟩
      cases pages with
      | zero => simp [follow] at h
      | succ pages =>
        rw [hfollow] at h
        exact (congrArg Prod.fst h).symm
    · rintro rfl
      exact ⟨1, hfollow 0⟩
  | collect =>
    show (follow _ (999 + 1) none).1 = all ↔ _
    rw [hfollow]
    exact eq_comm
  | run mode =>
    obtain ⟨turns, hturns⟩ : ∃ turns, runFrom a.key ((Walker.run mode).ask a scope) turns [] [] none
        = some _ := runFrom_last hnd (by simp) hnone
    constructor
    · rintro ⟨turns', h⟩
      exact runFrom_unique h hturns
    · rintro rfl
      exact ⟨turns, hturns⟩

theorem nodup_serviceKey (service : PagingService) (name : String) : ((service.kept name).map serviceKey).Nodup := by
  have hkeys : ((service.kept name).map serviceKey).map some = (service.kept name).map (·.nativeId) := by
    rw [map_map]
    apply map_congr_left
    intro memory hmemory
    obtain ⟨id, hid⟩ := Option.isSome_iff_exists.mp (service.named name memory hmemory)
    simp [serviceKey, hid]
  exact List.Nodup.of_map some (hkeys ▸ service.nodup name)

theorem count_take_iff {α : Type} [DecidableEq α] {l : List α} (hnd : l.Nodup) (n : Nat) {x : α}
    (hx : x ∈ l) : (l.take n).count x = 1 ↔ x ∉ l.drop n := by
  have hsplit := take_append_drop n l
  have hparts : ∀ y ∈ l.take n, ∀ z ∈ l.drop n, y ≠ z := by
    rw [← hsplit] at hnd
    exact (nodup_append.mp hnd).2.2
  constructor
  · intro h hdrop
    have hmem : x ∈ l.take n := count_pos_iff.mp (by omega)
    exact hparts x hmem x hdrop rfl
  · intro h
    rw [← hsplit, mem_append] at hx
    exact count_eq_one_of_mem (hnd.sublist (take_sublist n l)) (hx.resolve_right h)

theorem exists_missing {α : Type} [DecidableEq α] {l all : List α} (hnd : l.Nodup) {n : Nat}
    (hmore : n < l.length) (hsub : ∀ x ∈ all, x ∈ l.take n) : ∃ x ∈ l, all.count x ≠ 1 := by
  have hdrop : l[n] ∈ l.drop n := by
    rw [drop_eq_getElem_cons hmore]
    exact mem_cons_self
  refine ⟨l[n], getElem_mem hmore, fun hcount => ?_⟩
  have hmem : l[n] ∈ all := count_pos_iff.mp (by omega)
  have hone := count_eq_one_of_mem (hnd.sublist (take_sublist n l)) (hsub _ hmem)
  exact (count_take_iff hnd n (getElem_mem hmore)).mp hone hdrop

theorem collects_supermemory_iff (w : Walker) (service : PagingService) (scope : ScopeRef) :
    w.Collects (supermemory service) scope ↔
      ∀ memory ∈ (service.kept (scopeToTag scope)).drop (service.pageLength w.limit),
        memory.mode ≠ w.mode := by
  have hkeys := nodup_serviceKey service (scopeToTag scope)
  have hitems : (w.ask (supermemory service) scope none).items
      = (service.kept (scopeToTag scope)).take (service.pageLength w.limit) := rfl
  have hnd : ((w.ask (supermemory service) scope none).items.map serviceKey).Nodup := by
    rw [hitems, map_take]
    exact hkeys.sublist (take_sublist ..)
  have hends : ∀ all, w.Ends (supermemory service) scope all ↔
      all = (service.kept (scopeToTag scope)).take (service.pageLength w.limit) :=
    fun all => ends_of_null rfl hnd
  simp only [Walker.Collects, hends, exists_eq_left]
  simp only [supermemory, map_take]
  constructor
  · intro h memory hdrop hmode
    have hmem := mem_of_mem_drop hdrop
    have honce := h (serviceKey memory)
      (mem_map_of_mem (mem_filter.mpr ⟨hmem, by simpa using hmode⟩))
    rw [count_take_iff hkeys _ (mem_map_of_mem hmem), ← map_drop] at honce
    exact honce (mem_map_of_mem hdrop)
  · intro h key hkey
    obtain ⟨memory, hmemory, rfl⟩ := mem_map.mp hkey
    obtain ⟨hmem, hmode⟩ := mem_filter.mp hmemory
    rw [count_take_iff hkeys _ (mem_map_of_mem hmem), ← map_drop]
    intro hdrop
    obtain ⟨other, hother, hid⟩ := mem_map.mp hdrop
    obtain rfl := inj_on_of_nodup_map hkeys (mem_of_mem_drop hother) hmem hid
    exact h other hother (of_decide_eq_true hmode)

theorem follow_same {list : Option String → Page String} {items : List MemoryItem} {next : String}
    (hitems : ∀ cursor, (list cursor).items = items)
    (hnext : ∀ cursor, (list cursor).cursor = some next) (pages : Nat) (cursor : Option String) :
    (follow list pages cursor).2 = false ∧ ∀ item ∈ (follow list pages cursor).1, item ∈ items := by
  induction pages generalizing cursor with
  | zero => exact ⟨rfl, by simp [follow]⟩
  | succ pages ih =>
    obtain ⟨hgoes, hall⟩ := ih (some next)
    simp only [follow, hnext]
    refine ⟨hgoes, fun item hitem => ?_⟩
    rcases mem_append.mp hitem with h | h
    · exact hitems cursor ▸ h
    · exact hall item h

theorem run_same {key : MemoryItem → String} {list : Option String → Page String}
    {items : List MemoryItem} {next : String} (hitems : ∀ cursor, (list cursor).items = items)
    (hnext : ∀ cursor, (list cursor).cursor = some next) (hnd : (items.map key).Nodup) :
    ∃ turns, runFrom key list turns [] [] none = some items := by
  have hagain : freshOf key (items.map key ++ []) items = [] :=
    freshOf_eq_nil fun item hitem => mem_append_left _ (mem_map_of_mem hitem)
  have hturn : turnPage key list 1 ((list none).items.map key ++ []) [] (list none).cursor
      = some [] := by
    simp only [turnPage, hnext, hitems, not_mem_nil, if_false, runFrom, hagain, if_true,
      mem_singleton]
  have hpage := runFrom_page (by rw [hitems]; exact hnd) (by simp) hturn
  simpa only [hitems, append_nil] using hpage

theorem serviceKey_mem0Item (memories : List MemoryItem) :
    (memories.map mem0Item).map serviceKey = memories.map serviceKey := by
  rw [map_map]
  rfl

theorem collects_mem0_iff (w : Walker) (service : PagingService) (scope : ScopeRef) :
    w.Collects (mem0 service) scope ↔
      ((∃ mode, w = .transfer mode) ∨ w.mode = .memory →
        (service.kept (scopeToUserId scope)).length ≤ service.pageLength w.limit) := by
  have hkeys := nodup_serviceKey service (scopeToUserId scope)
  have hitems : ∀ cursor, (w.ask (mem0 service) scope cursor).items
      = ((service.kept (scopeToUserId scope)).take (service.pageLength w.limit)).map mem0Item :=
    fun _ => rfl
  have hnd : (((service.kept (scopeToUserId scope)).take
      (service.pageLength w.limit)).map mem0Item |>.map serviceKey).Nodup := by
    rw [serviceKey_mem0Item, map_take]
    exact hkeys.sublist (take_sublist ..)
  have hcurrent : ∀ key, key ∈ (mem0 service).current scope w.mode ↔
      w.mode = .memory ∧ key ∈ (service.kept (scopeToUserId scope)).map serviceKey := by
    intro key
    simp only [mem0, mem_map, mem_filter, decide_eq_true_eq]
    constructor
    · rintro ⟨_, ⟨⟨memory, hmemory, rfl⟩, hmode⟩, rfl⟩
      exact ⟨hmode.symm, memory, hmemory, rfl⟩
    · rintro ⟨hmode, memory, hmemory, rfl⟩
      exact ⟨_, ⟨⟨memory, hmemory, rfl⟩, hmode.symm⟩, rfl⟩
  rcases Nat.lt_or_ge (service.pageLength w.limit) (service.kept (scopeToUserId scope)).length
    with hmore | hall
  · have hnext : ∀ cursor, (w.ask (mem0 service) scope cursor).cursor
        = some (service.next (scopeToUserId scope) w.limit) := fun _ => if_pos hmore
    have hsub : ∀ all, w.Ends (mem0 service) scope all → (∀ mode, w ≠ .transfer mode) ∧
        ∀ item ∈ all, item ∈ (w.ask (mem0 service) scope none).items := by
      intro all hends
      cases w with
      | transfer mode =>
        obtain ⟨pages, hpages⟩ := hends
        have hgoes := (follow_same hitems hnext pages none).1
        rw [hpages] at hgoes
        cases hgoes
      | collect =>
        obtain rfl : _ = all := hends
        exact ⟨by simp, (follow_same hitems hnext maxPages none).2⟩
      | run mode =>
        obtain ⟨turns, hturns⟩ := hends
        obtain ⟨turns', hturns'⟩ := run_same hitems hnext hnd
        obtain rfl := runFrom_unique hturns hturns'
        exact ⟨by simp, fun item hitem => hitem⟩
    constructor
    · rintro ⟨all, hends, honce⟩ (⟨mode, rfl⟩ | hmode)
      · exact absurd rfl ((hsub all hends).1 mode)
      · -- the first memory beyond the page is not collected
        obtain ⟨key, hkey, hmissing⟩ := exists_missing hkeys
          (show service.pageLength w.limit < _ by rwa [length_map])
          (show ∀ key ∈ all.map serviceKey, key ∈ _ by
            intro key hkey
            obtain ⟨item, hitem, rfl⟩ := mem_map.mp hkey
            rw [← map_take, ← serviceKey_mem0Item]
            exact mem_map_of_mem ((hsub all hends).2 item hitem))
        exact absurd (honce key ((hcurrent key).mpr ⟨hmode, hkey⟩)) hmissing
    · intro h
      cases w with
      | transfer mode => exact absurd (h (.inl ⟨mode, rfl⟩)) (by omega)
      | collect => exact absurd (h (.inr rfl)) (by omega)
      | run mode =>
        obtain ⟨turns, hturns⟩ := run_same hitems hnext hnd
        refine ⟨_, ⟨turns, hturns⟩, fun key hkey => ?_⟩
        exact absurd (h (.inr ((hcurrent key).mp hkey).1)) (by omega)
  · have hnone : (w.ask (mem0 service) scope none).cursor = none := if_neg
      (show ¬ service.pageLength w.limit < (service.kept (scopeToUserId scope)).length by omega)
    refine iff_of_true ⟨_, (ends_of_null hnone hnd).mpr rfl, fun key hkey => ?_⟩ fun _ => hall
    have hwhole : ((w.ask (mem0 service) scope none).items.map serviceKey)
        = (service.kept (scopeToUserId scope)).map serviceKey := by
      rw [hitems, serviceKey_mem0Item, take_of_length_le hall]
    show ((w.ask (mem0 service) scope none).items.map serviceKey).count key = 1
    rw [hwhole]
    exact count_eq_one_of_mem hkeys ((hcurrent key).mp hkey).2

end Service

/-! ## Together -/

/-- Which walks collect a scope whole: over almyty's store, those with clean cuts and pages enough;
over Mem0, those the first page is enough for; over Supermemory, those that want nothing beyond it.
-/
theorem collection_iff (w : Walker) (scope : ScopeRef) (db : RowOrder) (store : Store)
    (service : PagingService) :
    (w.Collects (native db store.rows) scope ↔
      CleanCuts w.limit (newestFirst (currentRows store.rows scope w.mode)) ∧
        (w = .collect → (currentRows store.rows scope w.mode).length ≤ maxPages * w.limit)) ∧
    (w.Collects (mem0 service) scope ↔
      ((∃ mode, w = .transfer mode) ∨ w.mode = .memory →
        (service.kept (scopeToUserId scope)).length ≤ service.pageLength w.limit)) ∧
    (w.Collects (supermemory service) scope ↔
      ∀ memory ∈ (service.kept (scopeToTag scope)).drop (service.pageLength w.limit),
        memory.mode ≠ w.mode) :=
  ⟨collects_native_iff w db store.nodup scope, collects_mem0_iff w service scope,
    collects_supermemory_iff w service scope⟩

def stableOrder : RowOrder where
  order rows := rows.mergeSort fun a b => b.createdAt ≤ a.createdAt
  perm rows := mergeSort_perm rows _
  sorted rows := by
    have : Std.Total fun a b : MemoryItem => b.createdAt ≤ a.createdAt := ⟨fun a b => by omega⟩
    have : IsTrans MemoryItem fun a b => b.createdAt ≤ a.createdAt := ⟨fun a b c => by omega⟩
    exact pairwise_mergeSort' _ rows

def workspace : ScopeRef := ⟨.workspace, "org"⟩

def early (id : String) : MemoryItem where
  id
  mode := .memory
  scope := workspace
  content := "note"
  createdAt := 0
  updatedAt := 0
  nativeId := some id

/-- One memory more than a page, all of one instant. -/
def imported : Store where
  rows := (List.range 201).map fun i => early (String.ofList (List.replicate i 'm'))
  nodup := by
    rw [map_map]
    refine List.Nodup.map ?_ nodup_range
    intro i j hij
    have hlen := congrArg (fun id => id.toList.length) hij
    simpa [early] using hlen

def sparing : PagingService where
  kept _ := [early "first", early "second"]
  named _ := by decide
  nodup _ := by decide
  pageLength n := min n 1
  pageLength_le n := Nat.min_le_left n 1
  pageLength_pos n hn := by omega
  next _ _ := "page 2"

/-- The last of 201 memories imported at once is left out; over Mem0 a second page does not end;
Supermemory's is left out. -/
theorem transfer_leaves_out :
    ¬ (Walker.transfer .memory).Collects (native stableOrder imported.rows) workspace ∧
    ¬ (Walker.transfer .memory).Collects (mem0 sparing) workspace ∧
    ¬ (Walker.transfer .memory).Collects (supermemory sparing) workspace := by
  rw [collects_native_iff _ _ imported.nodup, collects_mem0_iff, collects_supermemory_iff]
  refine ⟨fun h => ?_, fun h => ?_, fun h => ?_⟩
  · have hall : currentRows imported.rows workspace .memory = imported.rows := by
      apply filter_eq_self.mpr
      intro row hrow
      obtain ⟨i, -, rfl⟩ := mem_map.mp hrow
      rfl
    have hzero : ∀ t ∈ newestFirst imported.rows, t = 0 := by
      intro t ht
      obtain ⟨row, hrow, rfl⟩ := mem_map.mp (mem_mergeSort.mp ht)
      obtain ⟨i, -, rfl⟩ := mem_map.mp hrow
      rfl
    have hat : ∀ i, (newestFirst imported.rows).getD i 0 = 0 := by
      intro i
      rw [List.getD_eq_getElem?_getD]
      cases hi : (newestFirst imported.rows)[i]? with
      | none => rfl
      | some t => exact hzero t (List.mem_of_getElem? hi)
    have hcut := h.1 1 (by omega) (by
      show 1 * 200 < (newestFirst (currentRows imported.rows workspace .memory)).length
      rw [hall]
      simp [newestFirst, imported])
    rw [show (Walker.transfer .memory).mode = .memory from rfl, hall, hat, hat] at hcut
    exact absurd hcut (by decide)
  · exact absurd (h (.inl ⟨.memory, rfl⟩)) (by decide)
  · exact h (early "second") (by decide) rfl

end Almyty.Memory
