import Mathlib

/-!
# Conditions on rows, in three-valued logic

A row has a value or a null under each column; a comparison with a null is unknown; `AND` and
`OR` are strong Kleene; and a query keeps a row when its condition is true, not when it is
unknown. `Keeps` is that reading, and the lemmas take it apart connective by connective: a
comparison keeps no row with a null there, whichever way it asks.
-/

namespace Almyty.Lib.Sql

inductive Cond (κ ν : Type)
  | isNull (column : κ)
  | eq (column : κ) (value : ν)
  | ne (column : κ) (value : ν)
  | isIn (column : κ) (values : List ν)
  | and (p q : Cond κ ν)
  | or (p q : Cond κ ν)

abbrev Truth := Option Bool

def Truth.and : Truth → Truth → Truth
  | some false, _ | _, some false => some false
  | some true, some true => some true
  | _, _ => none

def Truth.or : Truth → Truth → Truth
  | some true, _ | _, some true => some true
  | some false, some false => some false
  | _, _ => none

variable {κ ν : Type} [DecidableEq ν]

def Cond.eval (row : κ → Option ν) : Cond κ ν → Truth
  | .isNull column => some (row column).isNone
  | .eq column value => (row column).map (· = value)
  | .ne column value => (row column).map (· ≠ value)
  | .isIn column values => (row column).map (values.contains ·)
  | .and p q => (p.eval row).and (q.eval row)
  | .or p q => (p.eval row).or (q.eval row)

def Cond.Keeps (c : Cond κ ν) (row : κ → Option ν) : Prop := c.eval row = some true

instance (c : Cond κ ν) (row : κ → Option ν) : Decidable (c.Keeps row) :=
  inferInstanceAs (Decidable (_ = _))

variable {row : κ → Option ν} {column : κ} {value : ν} {p q : Cond κ ν}

@[simp] theorem keeps_isNull : (Cond.isNull (ν := ν) column).Keeps row ↔ row column = none := by
  simp [Cond.Keeps, Cond.eval]

@[simp] theorem keeps_eq : (Cond.eq column value).Keeps row ↔ row column = some value := by
  simp [Cond.Keeps, Cond.eval]

@[simp] theorem keeps_ne :
    (Cond.ne column value).Keeps row ↔ ∃ w, row column = some w ∧ w ≠ value := by
  simp [Cond.Keeps, Cond.eval]

@[simp] theorem keeps_isIn {values : List ν} :
    (Cond.isIn column values).Keeps row ↔ ∃ w ∈ values, row column = some w := by
  simp [Cond.Keeps, Cond.eval, and_comm]

@[simp] theorem keeps_and : (Cond.and p q).Keeps row ↔ p.Keeps row ∧ q.Keeps row := by
  unfold Cond.Keeps
  rw [Cond.eval]
  rcases p.eval row with _ | _ | _ <;> rcases q.eval row with _ | _ | _ <;> decide

@[simp] theorem keeps_or : (Cond.or p q).Keeps row ↔ p.Keeps row ∨ q.Keeps row := by
  unfold Cond.Keeps
  rw [Cond.eval]
  rcases p.eval row with _ | _ | _ <;> rcases q.eval row with _ | _ | _ <;> decide

end Almyty.Lib.Sql
