import Mathlib

/-!
# Association lists as insertion-ordered records

A JavaScript object, a `Map` and a JSON object are all the same thing to the programs modelled here:
a finite list of entries in insertion order, read by key. `put` writes a key where it stands or
appends it, `erase` drops it, and `List.lookup` reads it.
-/

namespace Almyty.Lib.Assoc

open List Option

variable {κ α : Type}

def keys (l : List (κ × α)) : List κ := l.map Prod.fst

@[simp] theorem keys_nil : keys ([] : List (κ × α)) = [] := rfl

@[simp] theorem keys_cons (p : κ × α) (l : List (κ × α)) : keys (p :: l) = p.1 :: keys l := rfl

variable {l : List (κ × α)}

theorem filter_keys_nodup (hl : (keys l).Nodup) (p : κ × α → Bool) : (keys (l.filter p)).Nodup :=
  hl.sublist (filter_sublist.map _)

variable [DecidableEq κ]

def put : List (κ × α) → κ → α → List (κ × α)
  | [], k, v => [(k, v)]
  | (k', v') :: l, k, v => if k' = k then (k, v) :: l else (k', v') :: put l k v

def erase (l : List (κ × α)) (k : κ) : List (κ × α) := l.filter fun p => p.1 ≠ k

/-- Write every entry of `entries`, in order. -/
def putAll (l entries : List (κ × α)) : List (κ × α) :=
  entries.foldl (fun acc p => put acc p.1 p.2) l

def eraseAll (l : List (κ × α)) (ks : List κ) : List (κ × α) := ks.foldl erase l

theorem lookup_cons (l : List (κ × α)) (k' : κ) (v' : α) (k : κ) :
    List.lookup k ((k', v') :: l) = if k = k' then some v' else List.lookup k l := by
  rw [List.lookup_cons]
  by_cases h : k = k'
  · simp [h]
  · rw [if_neg h, beq_eq_false_iff_ne.mpr h]

theorem lookup_map_snd {β : Type} (f : α → β) (l : List (κ × α)) (k : κ) :
    (l.map fun e => (e.1, f e.2)).lookup k = (l.lookup k).map f := by
  induction l with
  | nil => rfl
  | cons e l ih =>
    obtain ⟨k', v'⟩ := e
    rw [map_cons, lookup_cons, lookup_cons, ih]
    split <;> rfl

theorem lookup_put (l : List (κ × α)) (k : κ) (v : α) (k' : κ) :
    (put l k v).lookup k' = if k' = k then some v else l.lookup k' := by
  induction l with
  | nil => rw [put, lookup_cons]
  | cons p l ih =>
    obtain ⟨kp, vp⟩ := p
    rw [put]
    by_cases hk : kp = k
    · rw [if_pos hk, lookup_cons, lookup_cons, hk]
      by_cases h : k' = k <;> simp [h]
    · rw [if_neg hk, lookup_cons, lookup_cons, ih]
      by_cases h : k' = kp
      · rw [if_pos h, if_pos h, if_neg (fun e => hk (h ▸ e))]
      · rw [if_neg h, if_neg h]

theorem lookup_erase (l : List (κ × α)) (k k' : κ) :
    (erase l k).lookup k' = if k' = k then none else l.lookup k' := by
  unfold erase
  induction l with
  | nil => simp
  | cons p l ih =>
    obtain ⟨kp, vp⟩ := p
    by_cases hk : kp = k
    · rw [filter_cons_of_neg (by simp [hk]), ih, lookup_cons, hk]
      by_cases h : k' = k <;> simp [h]
    · rw [filter_cons_of_pos (by simp [hk]), lookup_cons, lookup_cons, ih]
      by_cases h : k' = kp
      · rw [if_pos h, if_pos h, if_neg (fun e => hk (h ▸ e))]
      · rw [if_neg h, if_neg h]

theorem lookup_eraseAll (ks : List κ) (l : List (κ × α)) (k : κ) :
    (eraseAll l ks).lookup k = if k ∈ ks then none else l.lookup k := by
  unfold eraseAll
  induction ks generalizing l with
  | nil => simp
  | cons a ks ih =>
    rw [foldl_cons, ih, lookup_erase]
    by_cases ha : k = a <;> simp [ha]

theorem lookup_eq_none_iff (l : List (κ × α)) (k : κ) : l.lookup k = none ↔ k ∉ keys l := by
  induction l with
  | nil => simp
  | cons p l ih =>
    obtain ⟨kp, vp⟩ := p
    rw [lookup_cons]
    by_cases h : k = kp
    · simp [h]
    · rw [if_neg h, ih]
      simp [h]

theorem lookup_isSome_iff (l : List (κ × α)) (k : κ) : (l.lookup k).isSome ↔ k ∈ keys l := by
  rw [isSome_iff_ne_none, Ne, lookup_eq_none_iff, Decidable.not_not]

theorem mem_of_lookup {k : κ} {v : α} (h : l.lookup k = some v) : (k, v) ∈ l := by
  induction l with
  | nil => simp at h
  | cons p l ih =>
    obtain ⟨kp, vp⟩ := p
    rw [lookup_cons] at h
    by_cases hk : k = kp
    · rw [if_pos hk] at h
      rw [hk, some.inj h]
      exact mem_cons_self ..
    · rw [if_neg hk] at h
      exact mem_cons_of_mem _ (ih h)

theorem lookup_of_mem (hl : (keys l).Nodup) {k : κ} {v : α} (h : (k, v) ∈ l) :
    l.lookup k = some v := by
  induction l with
  | nil => cases h
  | cons p l ih =>
    obtain ⟨hnot, hl⟩ := nodup_cons.mp hl
    rw [lookup_cons]
    rcases mem_cons.mp h with rfl | h
    · rw [if_pos rfl]
    · have hne : k ≠ p.1 := fun heq => hnot (heq ▸ mem_map_of_mem h)
      rw [if_neg hne, ih hl h]

theorem lookup_putAll (entries : List (κ × α)) (hn : (keys entries).Nodup)
    (l : List (κ × α)) (k : κ) :
    (putAll l entries).lookup k = (entries.lookup k).or (l.lookup k) := by
  unfold putAll
  induction entries generalizing l with
  | nil => simp
  | cons p es ih =>
    obtain ⟨kp, vp⟩ := p
    obtain ⟨hnot, hn'⟩ := nodup_cons.mp hn
    rw [foldl_cons, ih hn', lookup_put, lookup_cons]
    by_cases hk : k = kp
    · have hes : es.lookup k = none := (lookup_eq_none_iff es k).mpr (hk ▸ hnot)
      rw [if_pos hk, if_pos hk, hes]
      rfl
    · rw [if_neg hk, if_neg hk]

theorem lookup_filter (hl : (keys l).Nodup) (p : κ × α → Bool) (k : κ) :
    (l.filter p).lookup k = (l.lookup k).filter fun v => p (k, v) := by
  induction l with
  | nil => simp
  | cons q l ih =>
    obtain ⟨kq, vq⟩ := q
    obtain ⟨hnot, hl'⟩ := nodup_cons.mp hl
    by_cases hp : p (kq, vq) = true
    · rw [filter_cons_of_pos hp, lookup_cons, lookup_cons, ih hl']
      by_cases hk : k = kq
      · rw [if_pos hk, if_pos hk, hk, filter_some, if_pos hp]
      · rw [if_neg hk, if_neg hk]
    · rw [filter_cons_of_neg hp, lookup_cons, ih hl']
      by_cases hk : k = kq
      · rw [if_pos hk, hk, (lookup_eq_none_iff l kq).mpr hnot, filter_some, if_neg hp]
        rfl
      · rw [if_neg hk]

theorem keys_put (l : List (κ × α)) (k : κ) (v : α) :
    keys (put l k v) = if k ∈ keys l then keys l else keys l ++ [k] := by
  induction l with
  | nil => rfl
  | cons p l ih =>
    obtain ⟨kp, vp⟩ := p
    rw [put]
    by_cases hk : kp = k
    · rw [if_pos hk]
      simp [hk]
    · rw [if_neg hk, keys_cons, keys_cons, ih]
      have hkp : k ≠ kp := fun e => hk e.symm
      by_cases hm : k ∈ keys l
      · simp [hm]
      · simp [hm, hkp]

theorem put_of_not_mem {k : κ} (h : k ∉ keys l) (v : α) : put l k v = l ++ [(k, v)] := by
  induction l with
  | nil => rfl
  | cons p l ih =>
    have hk : p.1 ≠ k := fun hk => h (hk ▸ mem_cons_self)
    rw [put, if_neg hk, ih fun hm => h (mem_cons_of_mem _ hm), cons_append]

theorem map_put_of_lookup {β : Type} {f : κ × α → β} {k : κ} {old v : α}
    (hold : l.lookup k = some old) (h : f (k, v) = f (k, old)) : (put l k v).map f = l.map f := by
  induction l with
  | nil => cases hold
  | cons p l ih =>
    obtain ⟨kp, vp⟩ := p
    rw [lookup_cons] at hold
    rw [put]
    by_cases hk : kp = k
    · subst hk
      rw [if_pos rfl] at hold
      obtain rfl := some.inj hold
      rw [if_pos rfl, map_cons, map_cons, h]
    · rw [if_neg (fun e => hk e.symm)] at hold
      rw [if_neg hk, map_cons, map_cons, ih hold]

theorem mem_put {k : κ} {v : α} {p : κ × α} (h : p ∈ put l k v) : p = (k, v) ∨ p ∈ l := by
  induction l with
  | nil => exact .inl (mem_singleton.mp h)
  | cons e l ih =>
    obtain ⟨ke, ve⟩ := e
    rw [put] at h
    split at h
    · rcases mem_cons.mp h with rfl | h
      · exact .inl rfl
      · exact .inr (mem_cons_of_mem _ h)
    · rcases mem_cons.mp h with rfl | h
      · exact .inr mem_cons_self
      · exact (ih h).imp_right (mem_cons_of_mem _)

theorem put_keys_nodup (hl : (keys l).Nodup) (k : κ) (v : α) : (keys (put l k v)).Nodup := by
  rw [keys_put]
  by_cases hk : k ∈ keys l
  · rw [if_pos hk]; exact hl
  · rw [if_neg hk, nodup_append]
    refine ⟨hl, by simp, ?_⟩
    intro a ha b hb
    rw [mem_singleton] at hb
    exact fun e => hk (hb ▸ e ▸ ha)

theorem sum_put (f : α → Nat) (l : List (κ × α)) (k : κ) (v : α) :
    ((put l k v).map fun e => f e.2).sum + (l.lookup k).elim 0 f =
      (l.map fun e => f e.2).sum + f v := by
  induction l with
  | nil => simp [put]
  | cons e l ih =>
    obtain ⟨ke, ve⟩ := e
    rw [put, lookup_cons]
    by_cases hk : ke = k
    · rw [if_pos hk, if_pos hk.symm]
      simp only [map_cons, sum_cons, elim_some]
      omega
    · have hne : k ≠ ke := fun e => hk e.symm
      simp only [if_neg hk, if_neg hne, map_cons, sum_cons]
      omega

theorem length_filter_put (p : α → Bool) (l : List (κ × α)) (k : κ) (v : α) :
    ((put l k v).filter fun e => p e.2).length + (if (l.lookup k).any p then 1 else 0) =
      (l.filter fun e => p e.2).length + if p v then 1 else 0 := by
  have hsum : ∀ l : List (κ × α),
      (l.filter fun e => p e.2).length = (l.map fun e => if p e.2 then 1 else 0).sum := by
    intro l
    induction l with
    | nil => rfl
    | cons e l ih =>
      rw [filter_cons, map_cons, sum_cons, ← ih]
      split
      · rw [length_cons, Nat.add_comm]
      · rw [Nat.zero_add]
  have hany : (if (l.lookup k).any p then 1 else 0) =
      (l.lookup k).elim 0 fun v => if p v then 1 else 0 := by
    cases l.lookup k <;> rfl
  rw [hsum, hsum, hany]
  exact sum_put (fun v => if p v then 1 else 0) l k v

end Almyty.Lib.Assoc
