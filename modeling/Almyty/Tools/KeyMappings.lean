import Almyty.Lib.Renaming
import Almyty.Tools.ToolExecutor

/-!
# A gateway tool's key mappings: `entities/gateway-tool.entity.ts`

`transformInput` and `transformOutput` rename the keys of an object, entry by entry of the mapping
and in place, on a copy made by `{ ...value }`. `key_mappings_rename` says when that is the renaming
at once: no key is renamed to a later source, and the mapping names nothing an object inherits. An
array leaves `transformOutput` as an object, whether anything is renamed or not.
-/

namespace Almyty.Tools

open Almyty.Lib

inductive Transformed
  | value (value : Json)
  | object (entries : Params)
  deriving DecidableEq

def transformOutput (outputMapping : Option (List (String × String))) (output : Json) :
    Transformed :=
  match outputMapping with
  | none => .value output
  | some mapping =>
    match output with
    | .arr _ | .obj _ => .object (mapping.foldl renameKey (.ofFields output.spread))
    | .null | .bool _ | .num _ | .str _ => .value output

/-- A copy of a value: an array is one of its items under their indices. -/
def copied (output : Json) : Transformed :=
  match output with
  | .arr _ | .obj _ => .object (.ofFields output.spread)
  | .null | .bool _ | .num _ | .str _ => .value output

structure PlainNames {α : Type} (mapping : List (String × String)) (entries : List (String × α)) :
    Prop where
  own : ∀ e ∈ mapping, e.1 ∈ Js.objectPrototype → e.1 ∈ Assoc.keys entries
  proto : ∀ e ∈ mapping, e.1 ∈ Assoc.keys entries → e.2 = "__proto__" → e.1 = "__proto__"

theorem renameKey_plain {transformed : Params} {e : String × String}
    (hown : e.1 ∈ Js.objectPrototype → e.1 ∈ Assoc.keys transformed)
    (hproto : e.1 ∈ Assoc.keys transformed → e.2 = "__proto__" → e.1 = "__proto__") :
    renameKey transformed e = Assoc.rename transformed e := by
  rw [Assoc.rename]
  cases hv : transformed.lookup e.1 with
  | none =>
    have hinherited : e.1 ∉ Js.objectPrototype := by
      intro hmem
      have hkey := (Assoc.lookup_isSome_iff transformed e.1).mpr (hown hmem)
      rw [hv] at hkey
      exact Bool.false_ne_true hkey
    have hhas : transformed.has e.1 = false := by
      simp [Params.has, hv, hinherited]
    rw [renameKey, hhas]
    rfl
  | some v =>
    have hkey : e.1 ∈ Assoc.keys transformed :=
      (Assoc.lookup_isSome_iff transformed e.1).mp (by rw [hv]; rfl)
    have hhas : transformed.has e.1 = true := by simp [Params.has, hv]
    have hassign : Js.assign transformed e.2 v = Assoc.put transformed e.2 v := by
      refine if_neg fun hcond => ?_
      have hsame : e.2 = e.1 := hcond.1.trans (hproto hkey hcond.1).symm
      rw [hsame, hv] at hcond
      cases hcond.2
    rw [renameKey, hhas, Params.get, hv, Option.getD_some, if_pos rfl]
    dsimp only
    rw [hassign]

theorem transformInput_plain {mapping : List (String × String)} {input : Params}
    (h : Assoc.Renames mapping input) (hchain : Assoc.Unchained mapping input)
    (hplain : PlainNames mapping input) :
    transformInput mapping input = Assoc.renameAll mapping input := by
  induction mapping generalizing input with
  | nil => rfl
  | cons e mapping ih =>
    have hkeys : ∀ e' ∈ mapping,
        e'.1 ∈ Assoc.keys (Assoc.rename input e) ↔ e'.1 ∈ Assoc.keys input := by
      intro e' he'
      rw [← Assoc.lookup_isSome_iff, ← Assoc.lookup_isSome_iff,
        Assoc.lookup_rename_source h hchain he']
    have hrest : PlainNames mapping (Assoc.rename input e) :=
      ⟨fun e' he' hmem => (hkeys e' he').mpr (hplain.own e' (List.mem_cons_of_mem _ he') hmem),
        fun e' he' hmem =>
          hplain.proto e' (List.mem_cons_of_mem _ he') ((hkeys e' he').mp hmem)⟩
    rw [transformInput, List.foldl_cons, renameKey_plain (hplain.own e List.mem_cons_self)
      (hplain.proto e List.mem_cons_self)]
    exact ih h.rest (hchain.rest h) hrest

theorem key_mappings_rename :
    (∀ (mapping : List (String × String)) (input : Fields), Assoc.Renames mapping input →
      Assoc.Unchained mapping input → PlainNames mapping input →
        ∀ key, (transformInput mapping (.ofFields input)).lookup key =
          (Assoc.renamed mapping input key).map .json) ∧
    ∀ (mapping : List (String × String)) (output : Json),
      (∀ e ∈ mapping, Params.has (.ofFields output.spread) e.1 = false) →
        transformOutput (some mapping) output = copied output := by
  refine ⟨fun mapping input h hchain hplain key => ?_, fun mapping output h => ?_⟩
  · have hkeys : Assoc.keys (Params.ofFields input) = Assoc.keys input := by
      simp [Assoc.keys, Params.ofFields]
    have hrenames : Assoc.Renames mapping (Params.ofFields input) :=
      ⟨h.sources, h.targets, by rw [hkeys]; exact h.free⟩
    have hunchained : Assoc.Unchained mapping (Params.ofFields input) := by
      rw [Assoc.Unchained, hkeys]
      exact hchain
    have hnames : PlainNames mapping (Params.ofFields input) :=
      ⟨by rw [hkeys]; exact hplain.own, by rw [hkeys]; exact hplain.proto⟩
    rw [transformInput_plain hrenames hunchained hnames, Assoc.lookup_renameAll hrenames hunchained]
    exact Assoc.renamed_map Js.At.json mapping input key
  · unfold transformOutput copied
    cases output with
    | null | bool | num | str => rfl
    | arr | obj => exact congrArg Transformed.object (transformInput_of_absent h)

/-- Two sources and a key that stays; the first source's name is the second's target. -/
theorem key_mappings_rename_two :
    (∀ key, (transformInput [("b", "c"), ("a", "b")]
        (.ofFields [("a", .num 1), ("b", .num 2), ("d", .num 3)])).lookup key =
      (Assoc.renamed [("b", "c"), ("a", "b")]
        [("a", .num 1), ("b", .num 2), ("d", .num 3)] key).map .json) ∧
    transformOutput (some [("b", "c")]) (.obj [("a", .num 1)]) = copied (.obj [("a", .num 1)]) := by
  refine ⟨key_mappings_rename.1 _ _ ⟨by decide, by decide, by decide⟩ ?_ ⟨?_, ?_⟩,
    key_mappings_rename.2 _ _ (by decide)⟩
  · unfold Assoc.Unchained
    decide
  · decide
  · decide

/-- Two keys swapped: the second's value is overwritten. And an array comes out as an object. -/
theorem swap_loses_a_value :
    (Assoc.Renames [("a", "b"), ("b", "a")] [("a", Json.num 1), ("b", .num 2)] ∧
      ¬∀ key, (transformInput [("a", "b"), ("b", "a")]
          (.ofFields [("a", .num 1), ("b", .num 2)])).lookup key =
        (Assoc.renamed [("a", "b"), ("b", "a")] [("a", .num 1), ("b", .num 2)] key).map .json) ∧
    transformOutput (some [("k", "l")]) (.arr [.num 1]) ≠ .value (.arr [.num 1]) := by
  refine ⟨⟨⟨by decide, by decide, by decide⟩, fun h => ?_⟩, by decide⟩
  have hlost := h "b"
  revert hlost
  decide

end Almyty.Tools
