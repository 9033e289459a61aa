import Almyty.Lib.Assoc

/-!
# Renaming the keys of a record

A mapping renames keys of a record, one entry after another and in place. `renamed` is the
renaming at once. The two are the same when the targets are distinct and free, and no key that
is renamed gets the name of a later source: that name's own value would be lost, and what took
its place be renamed in its turn (`lookup_renameAll`).
-/

namespace Almyty.Lib.Assoc

open List

variable {κ α : Type} [DecidableEq κ]

/-- One entry of the mapping, in place. -/
def rename (l : List (κ × α)) (e : κ × κ) : List (κ × α) :=
  match l.lookup e.1 with
  | some v => if e.1 ≠ e.2 then erase (put l e.2 v) e.1 else put l e.2 v
  | none => l

def renameAll (mapping : List (κ × κ)) (l : List (κ × α)) : List (κ × α) := mapping.foldl rename l

/-- What a key holds when all keys are renamed at once. -/
def renamed (mapping : List (κ × κ)) (l : List (κ × α)) (k : κ) : Option α :=
  match mapping.find? fun e => e.2 = k ∧ (l.lookup e.1).isSome with
  | some e => l.lookup e.1
  | none => if k ∈ keys mapping then none else l.lookup k

structure Renames (mapping : List (κ × κ)) (l : List (κ × α)) : Prop where
  sources : (keys mapping).Nodup
  targets : (mapping.map (·.2)).Nodup
  free : ∀ e ∈ mapping, e.2 ∈ keys l → e.2 ∈ keys mapping

/-- No key that is there is renamed to a later source. -/
def Unchained (mapping : List (κ × κ)) (l : List (κ × α)) : Prop :=
  mapping.Pairwise fun e e' => e.1 ∈ keys l → e.2 ≠ e'.1

section

variable {mapping : List (κ × κ)} {l : List (κ × α)} {s t : κ}

theorem lookup_rename {v : α} (h : l.lookup s = some v) (k : κ) :
    (rename l (s, t)).lookup k =
      if k = t then some v else if k = s then none else l.lookup k := by
  rw [rename, h]
  dsimp only
  by_cases hst : s = t
  · rw [if_neg fun hne => hne hst, lookup_put]
    subst hst
    split <;> rfl
  · rw [if_pos hst, lookup_erase, lookup_put]
    by_cases hks : k = s
    · have hkt : k ≠ t := fun hkt => hst (hks.symm.trans hkt)
      rw [if_pos hks, if_neg hkt, if_pos hks]
    · rw [if_neg hks, if_neg hks]

theorem rename_of_none (h : l.lookup s = none) : rename l (s, t) = l := by rw [rename, h]

theorem Renames.rest (h : Renames ((s, t) :: mapping) l) : Renames mapping (rename l (s, t)) := by
  obtain ⟨hs, hsources⟩ := nodup_cons.mp h.sources
  obtain ⟨ht, htargets⟩ := nodup_cons.mp h.targets
  refine ⟨hsources, htargets, fun e he hkey => ?_⟩
  have hne : e.2 ≠ t := fun heq => ht (mem_map.mpr ⟨e, he, heq⟩)
  rw [← lookup_isSome_iff] at hkey
  cases hv : l.lookup s with
  | none =>
    rw [rename_of_none hv, lookup_isSome_iff] at hkey
    have hnes : e.2 ≠ s := by
      rintro heq
      rw [heq, ← lookup_isSome_iff, hv] at hkey
      exact Bool.false_ne_true hkey
    exact (mem_cons.mp (h.free e (mem_cons_of_mem _ he) hkey)).resolve_left hnes
  | some v =>
    rw [lookup_rename hv, if_neg hne] at hkey
    by_cases hnes : e.2 = s
    · rw [if_pos hnes] at hkey
      exact absurd hkey Bool.false_ne_true
    · rw [if_neg hnes, lookup_isSome_iff] at hkey
      exact (mem_cons.mp (h.free e (mem_cons_of_mem _ he) hkey)).resolve_left hnes

theorem lookup_rename_source (h : Renames ((s, t) :: mapping) l)
    (hchain : Unchained ((s, t) :: mapping) l) {e : κ × κ} (he : e ∈ mapping) :
    (rename l (s, t)).lookup e.1 = l.lookup e.1 := by
  cases hv : l.lookup s with
  | none => rw [rename_of_none hv]
  | some v =>
    have hpresent : s ∈ keys l := (lookup_isSome_iff l s).mp (by rw [hv]; rfl)
    have hnet : e.1 ≠ t := ((pairwise_cons.mp hchain).1 e he hpresent).symm
    have hnes : e.1 ≠ s := fun heq =>
      (nodup_cons.mp h.sources).1 (mem_map.mpr ⟨e, he, heq⟩)
    rw [lookup_rename hv, if_neg hnet, if_neg hnes]

theorem Unchained.rest (h : Renames ((s, t) :: mapping) l)
    (hchain : Unchained ((s, t) :: mapping) l) : Unchained mapping (rename l (s, t)) := by
  refine (pairwise_cons.mp hchain).2.imp_of_mem fun he _ hpair hkey => hpair ?_
  rwa [← lookup_isSome_iff, lookup_rename_source h hchain he, lookup_isSome_iff] at hkey

theorem renamed_rest (h : Renames ((s, t) :: mapping) l)
    (hchain : Unchained ((s, t) :: mapping) l) (k : κ) :
    renamed mapping (rename l (s, t)) k = renamed ((s, t) :: mapping) l k := by
  have hsame : mapping.find? (fun e => e.2 = k ∧ ((rename l (s, t)).lookup e.1).isSome) =
      mapping.find? fun e => e.2 = k ∧ (l.lookup e.1).isSome := by
    refine List.find?_congr fun e he => ?_
    rw [lookup_rename_source h hchain he]
  unfold renamed
  rw [hsame, List.find?_cons]
  obtain ⟨ht, -⟩ := nodup_cons.mp h.targets
  obtain ⟨hs, -⟩ := nodup_cons.mp h.sources
  cases hv : l.lookup s with
  | none =>
    simp only [Option.isSome_none, Bool.false_eq_true, and_false, decide_false]
    cases hfind : mapping.find? fun e => e.2 = k ∧ (l.lookup e.1).isSome with
    | some e => exact lookup_rename_source h hchain (List.mem_of_find?_eq_some hfind)
    | none =>
      rw [rename_of_none hv]
      by_cases hk : k = s
      · subst hk
        have hs' : k ∉ keys mapping := hs
        simp [keys_cons, hs', hv]
      · simp [keys_cons, hk]
  | some v =>
    have hpresent : s ∈ keys l := (lookup_isSome_iff l s).mp (by rw [hv]; rfl)
    have hlater : t ∉ keys mapping := by
      intro hmem
      obtain ⟨e, he, heq⟩ := mem_map.mp hmem
      exact (pairwise_cons.mp hchain).1 e he hpresent heq.symm
    by_cases hk : k = t
    · subst hk
      have hnone : mapping.find? (fun e => e.2 = k ∧ (l.lookup e.1).isSome) = none := by
        refine List.find?_eq_none.mpr fun e he hcond => ht ?_
        exact mem_map.mpr ⟨e, he, (of_decide_eq_true hcond).1⟩
      rw [hnone]
      simp [hlater, lookup_rename hv, hv]
    · have hfalse : decide (t = k ∧ (some v).isSome = true) = false :=
        decide_eq_false fun hcond => hk hcond.1.symm
      rw [hfalse]
      cases hfind : mapping.find? fun e => e.2 = k ∧ (l.lookup e.1).isSome with
      | some e => exact lookup_rename_source h hchain (List.mem_of_find?_eq_some hfind)
      | none =>
        dsimp only
        rw [lookup_rename hv, if_neg hk, keys_cons]
        by_cases hks : k = s
        · subst hks
          simp
        · simp [hks]

end

theorem renamed_map {β : Type} (f : α → β) (mapping : List (κ × κ)) (l : List (κ × α)) (k : κ) :
    renamed mapping (l.map fun e => (e.1, f e.2)) k = (renamed mapping l k).map f := by
  unfold renamed
  simp only [lookup_map_snd, Option.isSome_map]
  split
  · rfl
  · split <;> rfl

theorem lookup_renameAll {mapping : List (κ × κ)} {l : List (κ × α)} (h : Renames mapping l)
    (hchain : Unchained mapping l) (k : κ) :
    (renameAll mapping l).lookup k = renamed mapping l k := by
  induction mapping generalizing l with
  | nil => simp [renameAll, renamed]
  | cons e mapping ih =>
    obtain ⟨s, t⟩ := e
    rw [← renamed_rest h hchain, ← ih h.rest (hchain.rest h)]
    rfl

end Almyty.Lib.Assoc
