import Mathlib

/-!
# Loops that end by themselves

A loop without a bound of its own, whose body goes on with a new state or ends with a result.
`run` is the loop for so many turns; that it ends is a measure that every turn lowers, and what
holds at its end is an invariant that every turn keeps (`run_spec`).
-/

namespace Almyty.Lib.Loop

variable {σ β : Type}

inductive Turn (σ β : Type)
  | again (s : σ)
  | done (result : β)

def run (turn : σ → Turn σ β) : Nat → σ → Option β
  | 0, _ => none
  | fuel + 1, s =>
    match turn s with
    | .done result => some result
    | .again s' => run turn fuel s'

variable {turn : σ → Turn σ β}

theorem run_inv (Inv : σ → Prop) {Q : β → Prop}
    (hagain : ∀ s s', Inv s → turn s = .again s' → Inv s')
    (hdone : ∀ s result, Inv s → turn s = .done result → Q result) {fuel : Nat} {s : σ} {result : β}
    (hs : Inv s) (h : run turn fuel s = some result) : Q result := by
  induction fuel generalizing s with
  | zero => cases h
  | succ fuel ih =>
    rw [run] at h
    cases hturn : turn s with
    | done result' =>
      rw [hturn] at h
      obtain rfl := Option.some.inj h
      exact hdone s _ hs hturn
    | again s' =>
      rw [hturn] at h
      exact ih (hagain s s' hs hturn) h

/-- A condition that holds before every turn of a loop. -/
def Along (turn : σ → Turn σ β) (C : σ → Prop) : Nat → σ → Prop
  | 0, _ => True
  | fuel + 1, s =>
    C s ∧
      match turn s with
      | .done _ => True
      | .again s' => Along turn C fuel s'

theorem along_of_forall {C : σ → Prop} (h : ∀ s, C s) (fuel : Nat) (s : σ) :
    Along turn C fuel s := by
  induction fuel generalizing s with
  | zero => trivial
  | succ fuel ih =>
    refine ⟨h s, ?_⟩
    cases turn s with
    | done _ => trivial
    | again s' => exact ih s'

/-- **A loop ends**, with what the invariant gives, when the condition holds before each of its
turns. -/
theorem run_spec_along {C : σ → Prop} (Inv : σ → Prop) (measure : σ → Nat) (Q : β → Prop)
    (hagain : ∀ s s', Inv s → C s → turn s = .again s' → Inv s' ∧ measure s' < measure s)
    (hdone : ∀ s result, Inv s → C s → turn s = .done result → Q result) {fuel : Nat} {s : σ}
    (hs : Inv s) (hfuel : measure s < fuel) (hC : Along turn C fuel s) :
    ∃ result, run turn fuel s = some result ∧ Q result := by
  induction fuel generalizing s with
  | zero => exact absurd hfuel (Nat.not_lt_zero _)
  | succ fuel ih =>
    obtain ⟨hnow, hlater⟩ := hC
    rw [run]
    cases hturn : turn s with
    | done result => exact ⟨result, rfl, hdone s result hs hnow hturn⟩
    | again s' =>
      rw [hturn] at hlater
      obtain ⟨hs', hless⟩ := hagain s s' hs hnow hturn
      exact ih hs' (by omega) hlater

theorem run_spec (Inv : σ → Prop) (measure : σ → Nat) (Q : β → Prop)
    (hagain : ∀ s s', Inv s → turn s = .again s' → Inv s' ∧ measure s' < measure s)
    (hdone : ∀ s result, Inv s → turn s = .done result → Q result) {fuel : Nat} {s : σ} (hs : Inv s)
    (hfuel : measure s < fuel) : ∃ result, run turn fuel s = some result ∧ Q result :=
  run_spec_along (C := fun _ => True) Inv measure Q (fun s s' hs _ => hagain s s' hs)
    (fun s result hs _ => hdone s result hs) hs hfuel (along_of_forall (fun _ => trivial) fuel s)

/-- **A search for a free name ends**: there are no more taken names than fuel. -/
theorem run_fresh {α : Type} {turn : Nat → Turn Nat α} {name : Nat → α}
    (hname : Function.Injective name) (taken : List α)
    (hturn : ∀ n, (turn n = .done (name n) ∧ name n ∉ taken) ∨
      (turn n = .again (n + 1) ∧ name n ∈ taken))
    {fuel : Nat} (hfuel : taken.length < fuel) :
    ∃ result, run turn fuel 0 = some result ∧ result ∉ taken ∧ ∃ n, result = name n := by
  classical
  -- the taken names that have not been tried
  let left (n : Nat) : List α := taken.filter fun a => ∀ j < n, name j ≠ a
  refine run_spec (fun _ => True) (fun n => (left n).length)
    (fun result => result ∉ taken ∧ ∃ n, result = name n) (fun n n' _ hagain => ?_)
    (fun n result _ hdone => ?_) trivial (Nat.lt_of_le_of_lt (List.length_filter_le _ _) hfuel)
  · rcases hturn n with ⟨hdone, -⟩ | ⟨hnext, hmem⟩
    · rw [hdone] at hagain
      cases hagain
    · rw [hnext] at hagain
      obtain rfl := Turn.again.inj hagain
      refine ⟨trivial, ?_⟩
      have hsplit : left (n + 1) = (left n).filter fun a => name n ≠ a := by
        rw [List.filter_filter]
        refine List.filter_congr fun a _ => ?_
        rw [← Bool.decide_and, decide_eq_decide]
        constructor
        · intro h
          exact ⟨h n (Nat.lt_succ_self n), fun j hj => h j (Nat.lt_succ_of_lt hj)⟩
        · rintro ⟨hn, h⟩ j hj
          rcases Nat.lt_succ_iff_lt_or_eq.mp hj with hj | rfl
          · exact h j hj
          · exact hn
      have hin : name n ∈ left n := by
        refine List.mem_filter.mpr ⟨hmem, decide_eq_true fun j hj heq => ?_⟩
        exact absurd (hname heq) (Nat.ne_of_lt hj)
      show (left (n + 1)).length < (left n).length
      rw [hsplit]
      exact List.length_filter_lt_length_iff_exists.mpr ⟨name n, hin, by simp⟩
  · rcases hturn n with ⟨hnow, hfree⟩ | ⟨hnext, -⟩
    · rw [hnow] at hdone
      obtain rfl := Turn.done.inj hdone
      exact ⟨hfree, n, rfl⟩
    · rw [hnext] at hdone
      cases hdone

end Almyty.Lib.Loop
