import Mathlib

/-!
# Demands filled greedily from one pool

Each demand asks for a number of items that fit it, and all are filled from one pool, an item for
one demand only. `credited` fills them in order, every demand from the first items that fit, and
gives a demand nothing while one before it is short.

A greedy filling is one filling (`places_of_greedy`), so it never succeeds where none exists, and
every filling is the greedy one for some order of the pool (`fillable_iff_order`). The order does
not matter where the items that fit a demand fit the same later ones (`greedy_iff_fillable`): then
which of them is taken makes no difference to what is left.
-/

namespace Almyty.Lib.Demands

open List

variable {α σ : Type}

def take (fits : α → Bool) : Nat → List α → List α × List α
  | 0, pool => ([], pool)
  | _ + 1, [] => ([], [])
  | n + 1, a :: pool =>
    if fits a then
      (a :: (take fits n pool).1, (take fits n pool).2)
    else
      ((take fits (n + 1) pool).1, a :: (take fits (n + 1) pool).2)

theorem take_perm (fits : α → Bool) (n : Nat) (pool : List α) :
    ((take fits n pool).1 ++ (take fits n pool).2).Perm pool := by
  induction pool generalizing n with
  | nil => cases n <;> exact List.Perm.refl _
  | cons a pool ih =>
    cases n with
    | zero => exact List.Perm.refl _
    | succ n =>
      rw [take]
      split
      · exact (ih n).cons a
      · exact perm_middle.trans ((ih (n + 1)).cons a)

theorem take_fits (fits : α → Bool) (n : Nat) (pool : List α) :
    ∀ a ∈ (take fits n pool).1, fits a = true := by
  induction pool generalizing n with
  | nil => cases n <;> simp [take]
  | cons b pool ih =>
    cases n with
    | zero => simp [take]
    | succ n =>
      rw [take]
      split
      · next hb =>
        intro a ha
        rcases mem_cons.mp ha with rfl | ha
        · exact hb
        · exact ih n a ha
      · exact ih (n + 1)

theorem take_length (fits : α → Bool) (n : Nat) (pool : List α) :
    (take fits n pool).1.length = min n (pool.countP fits) := by
  induction pool generalizing n with
  | nil => cases n <;> simp [take]
  | cons a pool ih =>
    cases n with
    | zero => simp [take]
    | succ n =>
      rw [take, countP_cons]
      split
      · rw [length_cons, ih n]
        omega
      · rw [ih (n + 1)]
        omega

theorem take_append {fits : α → Bool} {n : Nat} {pool : List α} (more : List α)
    (h : n ≤ (take fits n pool).1.length) :
    take fits n (pool ++ more) = ((take fits n pool).1, (take fits n pool).2 ++ more) := by
  induction pool generalizing n with
  | nil =>
    cases n with
    | zero => cases more <;> rfl
    | succ n => exact absurd h (by simp [take])
  | cons a pool ih =>
    cases n with
    | zero => rfl
    | succ n =>
      rw [cons_append, take, take]
      rw [take] at h
      split
      · next ha =>
        rw [if_pos ha, length_cons] at h
        rw [ih (by omega)]
      · next ha =>
        rw [if_neg ha] at h
        rw [ih h]
        rfl

theorem take_front {fits : α → Bool} {place : List α} (rest : List α)
    (h : ∀ a ∈ place, fits a = true) : take fits place.length (place ++ rest) = (place, rest) := by
  induction place with
  | nil => cases rest <;> rfl
  | cons a place ih =>
    obtain ⟨ha, hplace⟩ := forall_mem_cons.mp h
    rw [length_cons, cons_append, take, if_pos ha, ih hplace]

section

variable (need : σ → Nat) (fits : σ → α → Bool)

/-- What each demand gets. -/
def credited : List σ → List α → List Nat
  | [], _ => []
  | d :: ds, pool =>
    let n := (take (fits d) (need d) pool).1.length
    n :: if need d ≤ n then credited ds (take (fits d) (need d) pool).2 else ds.map fun _ => 0

def greedy : List σ → List α → Bool
  | [], _ => true
  | d :: ds, pool =>
    need d ≤ (take (fits d) (need d) pool).1.length && greedy ds (take (fits d) (need d) pool).2

def Places (ds : List σ) (places : List (List α)) : Prop :=
  List.Forall₂ (fun d place => place.length = need d ∧ ∀ a ∈ place, fits d a = true) ds places

def Fillable (ds : List σ) (pool : List α) : Prop :=
  ∃ places, Places need fits ds places ∧ places.flatten.Subperm pool

/-- The items that fit a demand fit the same later ones. -/
def Alike (ds : List σ) (pool : List α) : Prop :=
  ds.Pairwise fun d e =>
    ∀ a ∈ pool, ∀ b ∈ pool, fits d a = true → fits d b = true → fits e a = fits e b

/-- The demands an item fits. -/
def profile (ds : List σ) (a : α) : List Bool := ds.map fun d => fits d a

end

variable {need : σ → Nat} {fits : σ → α → Bool} {ds : List σ} {pool : List α}

/-! ## One filling -/

theorem places_of_greedy (h : greedy need fits ds pool = true) : Fillable need fits ds pool := by
  induction ds generalizing pool with
  | nil => exact ⟨[], .nil, nil_subperm⟩
  | cons d ds ih =>
    rw [greedy, Bool.and_eq_true, decide_eq_true_eq] at h
    obtain ⟨places, hplaces, hpool⟩ := ih h.2
    have hlength := take_length (fits d) (need d) pool
    refine ⟨(take (fits d) (need d) pool).1 :: places,
      .cons ⟨by omega, take_fits (fits d) (need d) pool⟩ hplaces, ?_⟩
    rw [flatten_cons]
    exact ((subperm_append_left _).mpr hpool).trans
      (take_perm (fits d) (need d) pool).subperm

theorem greedy_of_places {places : List (List α)} (h : Places need fits ds places)
    (rest : List α) : greedy need fits ds (places.flatten ++ rest) = true := by
  induction h with
  | nil => rfl
  | @cons d place ds places hplace _ ih =>
    rw [greedy, flatten_cons, append_assoc, ← hplace.1, take_front _ hplace.2, ih,
      decide_eq_true (Nat.le_refl _)]
    rfl

theorem exists_rest {items : List α} (h : items.Subperm pool) :
    ∃ rest, pool.Perm (items ++ rest) := by
  obtain ⟨items', hperm, hsub⟩ := h
  obtain ⟨rest, hrest⟩ := hsub.exists_perm_append
  exact ⟨rest, hrest.trans (hperm.append_right rest)⟩

theorem fillable_iff_order :
    Fillable need fits ds pool ↔ ∃ order, order.Perm pool ∧ greedy need fits ds order = true := by
  constructor
  · rintro ⟨places, hplaces, hpool⟩
    obtain ⟨rest, hrest⟩ := exists_rest hpool
    exact ⟨places.flatten ++ rest, hrest.symm, greedy_of_places hplaces rest⟩
  · rintro ⟨order, horder, hgreedy⟩
    obtain ⟨places, hplaces, hsub⟩ := places_of_greedy hgreedy
    exact ⟨places, hplaces, hsub.trans horder.subperm⟩

/-! ## Every order -/

theorem fillable_cons {d : σ} :
    Fillable need fits (d :: ds) pool ↔
      ∃ place rest, pool.Perm (place ++ rest) ∧ place.length = need d ∧
        (∀ a ∈ place, fits d a = true) ∧ Fillable need fits ds rest := by
  constructor
  · rintro ⟨places, hplaces, hpool⟩
    obtain ⟨place, places, hplace, hrest, rfl⟩ := forall₂_cons_left_iff.mp hplaces
    obtain ⟨rest, hperm⟩ := exists_rest hpool
    rw [flatten_cons, append_assoc] at hperm
    exact ⟨place, places.flatten ++ rest, hperm, hplace.1, hplace.2, places, hrest,
      (sublist_append_left _ _).subperm⟩
  · rintro ⟨place, rest, hperm, hlength, hfits, places, hplaces, hsub⟩
    refine ⟨place :: places, .cons ⟨hlength, hfits⟩ hplaces, ?_⟩
    rw [flatten_cons]
    exact ((subperm_append_left _).mpr hsub).trans hperm.symm.subperm

theorem Alike.of_subset {pool' : List α} (h : Alike fits ds pool)
    (hsub : ∀ a ∈ pool', a ∈ pool) : Alike fits ds pool' :=
  h.imp fun {_ _} hd a ha b hb => hd a (hsub a ha) b (hsub b hb)

section

variable {pool' : List α} {d : σ}
  (h : (pool'.map (profile fits (d :: ds))).Perm (pool.map (profile fits (d :: ds))))

include h

theorem countP_of_profiles : pool'.countP (fits d) = pool.countP (fits d) := by
  have hheads := (h.map (·.headD false)).countP_eq id
  rw [map_map, map_map, countP_map, countP_map] at hheads
  exact hheads

theorem later_profiles : (pool'.map (profile fits ds)).Perm (pool.map (profile fits ds)) := by
  have htails := h.map List.tail
  rw [map_map, map_map] at htails
  exact htails

theorem exists_same_profile {a : α} (ha : a ∈ pool') :
    ∃ b ∈ pool, fits d b = fits d a ∧ profile fits ds b = profile fits ds a := by
  obtain ⟨b, hb, heq⟩ := mem_map.mp (h.subset (mem_map_of_mem ha))
  obtain ⟨hhead, htail⟩ := List.cons.inj heq
  exact ⟨b, hb, hhead, htail⟩

end

/-- What fits the first demand has one profile, so a list of such items is known by its
length. -/
theorem Alike.map_profile {d : σ} (h : Alike fits (d :: ds) pool) {b : α} (hb : b ∈ pool)
    (hfits : fits d b = true) {items : List α}
    (hitems : ∀ a ∈ items, ∃ a' ∈ pool, fits d a' = true ∧ profile fits ds a' = profile fits ds a) :
    items.map (profile fits ds) = List.replicate items.length (profile fits ds b) := by
  refine eq_replicate_iff.mpr ⟨length_map _, ?_⟩
  intro p hp
  obtain ⟨a, ha, rfl⟩ := mem_map.mp hp
  obtain ⟨a', ha', hfits', hsame⟩ := hitems a ha
  rw [← hsame]
  exact map_congr_left fun e he =>
    (pairwise_cons.mp h).1 e he a' ha' b hb hfits' hfits

/-- **Which item is taken makes no difference** where those that fit a demand fit the same later
ones. -/
theorem greedy_of_profiles {pool' : List α} (hfill : Fillable need fits ds pool')
    (hprofiles : (pool'.map (profile fits ds)).Perm (pool.map (profile fits ds)))
    (halike : Alike fits ds pool) : greedy need fits ds pool = true := by
  induction ds generalizing pool pool' with
  | nil => rfl
  | cons d ds ih =>
    obtain ⟨place, rest, hperm, hlength, hfits, hrest⟩ := fillable_cons.mp hfill
    set taken := (take (fits d) (need d) pool).1
    set left := (take (fits d) (need d) pool).2
    have htake : (taken ++ left).Perm pool := take_perm (fits d) (need d) pool
    have hcount : need d ≤ pool.countP (fits d) := by
      rw [← countP_of_profiles hprofiles, hperm.countP_eq, countP_append,
        countP_eq_length.mpr hfits, hlength]
      exact Nat.le_add_right _ _
    have hfull : taken.length = need d :=
      (take_length (fits d) (need d) pool).trans (Nat.min_eq_left hcount)
    -- the items of the place and those taken have one profile, and there are as many
    have hsame : place.map (profile fits ds) = taken.map (profile fits ds) := by
      cases htaken : taken with
      | nil =>
        rw [htaken, length_nil] at hfull
        rw [eq_nil_of_length_eq_zero (hlength.trans hfull.symm)]
      | cons b taken' =>
        have hin : ∀ a ∈ taken, a ∈ pool ∧ fits d a = true := fun a ha =>
          ⟨htake.subset (mem_append_left _ ha), take_fits (fits d) (need d) pool a ha⟩
        obtain ⟨hb, hfitsb⟩ := hin b (htaken ▸ mem_cons_self)
        rw [← htaken, halike.map_profile hb hfitsb, halike.map_profile hb hfitsb, hlength, hfull]
        · intro a ha
          exact ⟨a, (hin a ha).1, (hin a ha).2, rfl⟩
        · intro a ha
          obtain ⟨a', ha', hfits', heq⟩ :=
            exists_same_profile hprofiles (hperm.symm.subset (mem_append_left _ ha))
          exact ⟨a', ha', hfits'.trans (hfits a ha), heq⟩
    have hsplit := ((hperm.map (profile fits ds)).symm.trans (later_profiles hprofiles)).trans
      (htake.map (profile fits ds)).symm
    rw [map_append, map_append, hsame] at hsplit
    rw [greedy, Bool.and_eq_true, decide_eq_true_eq]
    refine ⟨Nat.le_of_eq hfull.symm, ih hrest ((perm_append_left_iff _).mp hsplit) ?_⟩
    exact Alike.of_subset (pairwise_cons.mp halike).2 fun a ha =>
      htake.subset (mem_append_right _ ha)

theorem greedy_iff_fillable (halike : Alike fits ds pool) :
    greedy need fits ds pool = true ↔ Fillable need fits ds pool :=
  ⟨places_of_greedy, fun h => greedy_of_profiles h (List.Perm.refl _) halike⟩

/-! ## A longer pool -/

theorem credited_length (ds : List σ) (pool : List α) :
    (credited need fits ds pool).length = ds.length := by
  induction ds generalizing pool with
  | nil => rfl
  | cons d ds ih =>
    rw [credited, length_cons, length_cons]
    split
    · rw [ih]
    · rw [length_map]

theorem nothing_le (ds : List σ) {given : List Nat} (h : given.length = ds.length) :
    List.Forall₂ (· ≤ ·) (ds.map fun _ => 0) given := by
  refine forall₂_iff_zip.mpr ⟨(length_map _).trans h.symm, ?_⟩
  intro n m hmem
  obtain ⟨d, -, rfl⟩ := mem_map.mp (of_mem_zip hmem).1
  exact Nat.zero_le m

theorem credited_append (more : List α) :
    List.Forall₂ (· ≤ ·) (credited need fits ds pool) (credited need fits ds (pool ++ more)) := by
  induction ds generalizing pool with
  | nil => exact .nil
  | cons d ds ih =>
    rw [credited, credited]
    by_cases h : need d ≤ (take (fits d) (need d) pool).1.length
    · have hmore := take_append more h
      rw [hmore, if_pos h, if_pos h]
      exact .cons (Nat.le_refl _) ih
    · rw [if_neg h]
      refine .cons ?_ ?_
      · rw [take_length, take_length, countP_append]
        omega
      · split
        · exact nothing_le _ (credited_length _ _)
        · exact nothing_le _ (length_map _)

end Almyty.Lib.Demands
