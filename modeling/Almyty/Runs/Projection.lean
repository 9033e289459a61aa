import Almyty.Runs.Events

/-!
# What a write's events fold into

`commitEvents` turns a write into a diff and `foldEvent` applies it. This file computes the
composition: `foldDrafts_changeEvents` says in one equation what folding a write's events does to a
projection, whatever the projection holds, and `committed_eqv_iff` says when the result is the
written row.

The equality is where the log loses information. `ObjectLogged` is the exact condition for a diff of
a json column to come back as the column, `StepLogged` the exact condition for an appended step to
come back as the step.
-/

namespace Almyty.Runs

open Almyty.Lib List

/-! ## Json columns -/

def changed (current before after : Json) : Json :=
  match diffObject before after with
  | some change => applyObjectChange current change
  | none => current

/-- The diff carries key `k`: a key that appears is not null unless an inherited
member already stands under its name, a key that goes is not an inherited name,
and `__proto__` does not change. -/
def KeyLogged (before after : Fields) (k : String) : Prop :=
  match before.lookup k, after.lookup k with
  | none, none => True
  | none, some v => k ≠ "__proto__" ∧ (v ≠ .null ∨ k ∈ Js.objectPrototype)
  | some _, none => k ∉ Js.objectPrototype
  | some u, some v => k ≠ "__proto__" ∨ Json.Eqv u v

def ObjectLogged : Json → Json → Prop
  | .obj b, .obj a => ∀ k, KeyLogged b a k
  | _, _ => True

/-- A diff sets the keys of `after` whose text differs from what `before` reads, `__proto__` apart.
-/
theorem lookup_diff_set {b a : Fields} (ha : (Assoc.keys a).Nodup) (k : String) :
    (Js.assignAll [] (a.filter fun p => Js.propertyText b p.1 ≠ some p.2)).lookup k =
      if k = "__proto__" then none
      else (a.lookup k).filter fun v => Js.propertyText b k ≠ some v := by
  rw [Js.lookup_assignAll (Assoc.filter_keys_nodup ha _), Assoc.lookup_filter ha]
  by_cases hk : k = "__proto__" <;> simp [hk]

theorem lookup_applied {c b a : Fields} (ha : (Assoc.keys a).Nodup) (k : String) :
    (Assoc.eraseAll
        (Js.assignAll c (Js.assignAll [] (a.filter fun p => Js.propertyText b p.1 ≠ some p.2)))
        ((Assoc.keys b).filter fun key => !Js.hasProperty a key)).lookup k =
      if (b.lookup k).isSome ∧ a.lookup k = none ∧ k ∉ Js.objectPrototype then none
      else if k = "__proto__" then c.lookup k
      else ((a.lookup k).filter fun v => Js.propertyText b k ≠ some v).or (c.lookup k) := by
  have hset : (Assoc.keys (Js.assignAll []
      (a.filter fun p => Js.propertyText b p.1 ≠ some p.2))).Nodup :=
    Js.assignAll_keys_nodup _ (by simp)
  have hmem : k ∈ ((Assoc.keys b).filter fun key => !Js.hasProperty a key) ↔
      (b.lookup k).isSome ∧ a.lookup k = none ∧ k ∉ Js.objectPrototype := by
    rw [mem_filter, Bool.not_eq_true', Js.hasProperty_eq_false_iff, Assoc.lookup_isSome_iff]
  rw [Assoc.lookup_eraseAll, Js.lookup_assignAll hset, lookup_diff_set ha]
  by_cases hu : (b.lookup k).isSome ∧ a.lookup k = none ∧ k ∉ Js.objectPrototype
  · rw [if_pos (hmem.mpr hu), if_pos hu]
  · rw [if_neg fun h => hu (hmem.mp h), if_neg hu]
    by_cases hk : k = "__proto__"
    · rw [if_pos hk, if_pos hk]
      by_cases hc : c.lookup k = none
      · rw [if_pos ⟨hk, hc⟩, hc]
      · rw [if_neg fun h => hc h.2]; rfl
    · rw [if_neg hk, if_neg hk, if_neg fun h => hk h.1]

theorem applied_eqvAt_iff {c b a : Fields} (hcb : Json.Eqv (.obj c) (.obj b))
    (ha : (Assoc.keys a).Nodup) (k : String) :
    Json.EqvAt ((Assoc.eraseAll
        (Js.assignAll c (Js.assignAll [] (a.filter fun p => Js.propertyText b p.1 ≠ some p.2)))
        ((Assoc.keys b).filter fun key => !Js.hasProperty a key)).lookup k) (a.lookup k) ↔
      KeyLogged b a k := by
  have hk := Json.eqv_obj_iff.mp hcb k
  rw [lookup_applied ha]
  unfold KeyLogged
  cases hb : b.lookup k with
  | none =>
    have hc : c.lookup k = none := by
      cases hc : c.lookup k with
      | none => rfl
      | some w => rw [hb, hc] at hk; exact hk.elim
    cases hv : a.lookup k with
    | none => simp [hc, Json.EqvAt]
    | some v =>
      -- a new key: `before[k]` is undefined, an inherited method or the prototype
      by_cases hp : k = "__proto__"
      · subst hp; simp [hc, Json.EqvAt]
      · by_cases hin : k ∈ Js.objectPrototype
        · simp [hp, hin, hc, Js.propertyText, hb, Option.filter_some, Json.EqvAt, Json.Eqv.refl]
        · by_cases hnull : v = .null
          · simp [hp, hin, hc, Js.propertyText, hb, Option.filter_some, Json.EqvAt, hnull]
          · have hne : Json.null ≠ v := fun e => hnull e.symm
            simp [hp, hc, Js.propertyText, hb, Option.filter_some, Json.EqvAt, hnull, hne, hin, Json.Eqv.refl]
  | some u =>
    obtain ⟨w, hc, hwu⟩ : ∃ w, c.lookup k = some w ∧ Json.Eqv w u := by
      cases hc : c.lookup k with
      | none => rw [hb, hc] at hk; exact hk.elim
      | some w => rw [hb, hc] at hk; exact ⟨w, rfl, hk⟩
    cases hv : a.lookup k with
    | none =>
      by_cases hin : k ∈ Js.objectPrototype
      · simp [hin, hc, Json.EqvAt]
      · simp [hin, Json.EqvAt]
    | some v =>
      by_cases hp : k = "__proto__"
      · have hiff : Json.Eqv w v ↔ Json.Eqv u v :=
          ⟨fun h => hwu.symm.trans h, fun h => hwu.trans h⟩
        simp [hp] at hc ⊢
        simp [hc, Json.EqvAt, hiff]
      · by_cases huv : u = v
        · subst huv
          simp [hp, hc, Js.propertyText, hb, Option.filter_some, Json.EqvAt, hwu]
        · simp [hp, hc, Js.propertyText, hb, Option.filter_some, Json.EqvAt, huv, Json.Eqv.refl]

theorem changed_eqv_iff {current before : Json} (hcur : Json.Eqv current before) {after : Json}
    (hafter : after.uniqueKeys = true) :
    Json.Eqv (changed current before after) after ↔ ObjectLogged before after := by
  unfold changed diffObject
  by_cases heq : before = after
  · subst heq
    rw [if_pos rfl]
    refine ⟨fun _ => ?_, fun _ => hcur⟩
    cases before with
    | obj b =>
      intro k
      unfold KeyLogged
      cases hb : b.lookup k with
      | none => trivial
      | some u => exact Or.inr (.refl u)
    | _ => trivial
  · rw [if_neg heq]
    cases hb : before with
    | obj b =>
      cases ha : after with
      | obj a =>
        subst hb ha
        obtain ⟨c, rfl⟩ : ∃ c, current = .obj c := by
          cases hcur with
          | obj _ _ => exact ⟨_, rfl⟩
        have hnd := Json.nodup_of_uniqueKeys hafter
        simp only [applyObjectChange, Json.fieldsOrEmpty, ObjectLogged]
        rw [Json.eqv_obj_iff]
        exact forall_congr' fun k => applied_eqvAt_iff hcur hnd k
      | _ => simp [applyObjectChange, ObjectLogged, Json.Eqv.refl]
    | _ => simp [applyObjectChange, ObjectLogged, Json.Eqv.refl]

/-! ## Steps -/

def foldedStep (step : Json) : Json :=
  if isToolStep step then
    .obj (Assoc.putAll (collect (fun k => !resultKeys.contains k) step.fieldsOrEmpty)
      (collect (fun k => resultKeys.contains k) step.fieldsOrEmpty))
  else .obj step.spread

def mergeSteps : List Json → List Json → List Json → List Json
  | c :: cs, b :: bs, s :: ss => (if s = b then c else s) :: mergeSteps cs bs ss
  | cs, [], ss => cs ++ ss.map foldedStep
  | cs, _ :: _, _ => cs

/-- The projection's steps after a write. -/
def writtenSteps (current base persisted : List Json) : List Json :=
  if persisted.length < base.length then persisted else mergeSteps current base persisted

/-- An appended step comes back: it is an object, and split in two it has no
entry that only a spread can copy. -/
def StepLogged (step : Json) : Prop :=
  step.isPlainObject = true ∧ (isToolStep step = true → prop step "__proto__" = none)

theorem lookup_collect {fields : Fields} (h : (Assoc.keys fields).Nodup) (p : String → Bool)
    (k : String) :
    (collect p fields).lookup k =
      if k = "__proto__" then none else (fields.lookup k).filter fun _ => p k := by
  unfold collect
  rw [Js.lookup_assignAll (Assoc.filter_keys_nodup h _), Assoc.lookup_filter h]
  by_cases hk : k = "__proto__" <;> simp [hk]

theorem lookup_rejoined {fields : Fields} (h : (Assoc.keys fields).Nodup) (k : String) :
    (Assoc.putAll (collect (fun k => !resultKeys.contains k) fields)
      (collect (fun k => resultKeys.contains k) fields)).lookup k =
      if k = "__proto__" then none else fields.lookup k := by
  have hres : (Assoc.keys (collect (fun k => resultKeys.contains k) fields)).Nodup :=
    Js.assignAll_keys_nodup _ (by simp)
  rw [Assoc.lookup_putAll _ hres, lookup_collect h, lookup_collect h]
  by_cases hk : k = "__proto__"
  · simp [hk]
  · rw [if_neg hk, if_neg hk, if_neg hk]
    cases hf : fields.lookup k with
    | none => rfl
    | some v =>
      by_cases hr : k ∈ resultKeys <;> simp [Option.filter_some, hr]

theorem foldedStep_eqv_iff {step : Json} (hstep : step.uniqueKeys = true) :
    Json.Eqv (foldedStep step) step ↔ StepLogged step := by
  unfold foldedStep StepLogged
  by_cases ht : isToolStep step = true
  · obtain ⟨fields, rfl⟩ : ∃ fields, step = .obj fields := by
      cases step with
      | obj fields => exact ⟨fields, rfl⟩
      | _ => simp [isToolStep, stepType, prop, Json.fieldsOrEmpty] at ht
    have hnd := Json.nodup_of_uniqueKeys hstep
    rw [if_pos ht, Json.eqv_obj_iff]
    simp only [Json.isPlainObject, Json.fieldsOrEmpty, prop, ht, true_and, forall_const]
    constructor
    · intro h
      have hp := h "__proto__"
      rw [lookup_rejoined hnd, if_pos rfl] at hp
      cases hf : fields.lookup "__proto__" with
      | none => rfl
      | some v => rw [hf] at hp; exact hp.elim
    · intro hproto k
      rw [lookup_rejoined hnd]
      by_cases hk : k = "__proto__"
      · rw [if_pos hk, hk, hproto]; trivial
      · rw [if_neg hk]
        exact Json.eqv_obj_iff.mp (.refl (.obj fields)) k
  · rw [if_neg ht]
    cases step with
    | obj fields => simp [Json.isPlainObject, Json.spread, Json.Eqv.refl, ht]
    | _ =>
      simp only [Json.isPlainObject, Bool.false_eq_true, false_and, iff_false]
      intro h
      cases h

theorem mergeSteps_eqv_iff {current base persisted : List Json}
    (hcur : Json.Eqv (.arr current) (.arr base)) (hlen : base.length ≤ persisted.length)
    (hkeys : ∀ s ∈ persisted, s.uniqueKeys = true) :
    Json.Eqv (.arr (mergeSteps current base persisted)) (.arr persisted) ↔
      ∀ s ∈ persisted.drop base.length, StepLogged s := by
  induction base generalizing current persisted with
  | nil =>
    obtain rfl : current = [] := eq_nil_of_length_eq_zero hcur.length_eq
    simp only [mergeSteps, nil_append, length_nil, drop_zero]
    induction persisted with
    | nil => simp
    | cons s ss ih =>
      have hs := foldedStep_eqv_iff (hkeys s (mem_cons_self ..))
      have hss := ih (Nat.zero_le _) fun x hx => hkeys x (mem_cons_of_mem _ hx)
      rw [map_cons, Json.eqv_arr_cons, hs, hss]
      simp only [mem_cons, forall_eq_or_imp]
  | cons b bs ih =>
    obtain ⟨c, cs, rfl⟩ : ∃ c cs, current = c :: cs :=
      exists_cons_of_length_eq_add_one hcur.length_eq
    obtain ⟨s, ss, rfl⟩ : ∃ s ss, persisted = s :: ss := by
      cases persisted with
      | nil => simp at hlen
      | cons s ss => exact ⟨s, ss, rfl⟩
    obtain ⟨hcb, hcs⟩ := Json.eqv_arr_cons.mp hcur
    have hrest := ih hcs (by simpa using hlen) fun x hx => hkeys x (mem_cons_of_mem _ hx)
    have hhead : Json.Eqv (if s = b then c else s) s := by
      by_cases he : s = b
      · rw [if_pos he, he]; exact hcb
      · rw [if_neg he]; exact .refl s
    rw [mergeSteps, Json.eqv_arr_cons, hrest]
    simp only [hhead, true_and, length_cons, drop_succ_cons]

theorem writtenSteps_eqv_iff {current base persisted : List Json}
    (hcur : Json.Eqv (.arr current) (.arr base)) (hkeys : ∀ s ∈ persisted, s.uniqueKeys = true) :
    Json.Eqv (.arr (writtenSteps current base persisted)) (.arr persisted) ↔
      ∀ s ∈ persisted.drop base.length, StepLogged s := by
  unfold writtenSteps
  by_cases hlt : persisted.length < base.length
  · rw [if_pos hlt, drop_eq_nil_of_le (Nat.le_of_lt hlt)]
    simp [Json.Eqv.refl]
  · rw [if_neg hlt]
    exact mergeSteps_eqv_iff hcur (Nat.le_of_not_lt hlt) hkeys

/-! ## Folding drafts -/

def foldDrafts (p : RunProjection) : List RunEventDraft → Except String RunProjection
  | [] => .ok p
  | d :: ds =>
    match foldEvent p (p.headSeq + 1) d.body with
    | .ok p' => foldDrafts p' ds
    | .error e => .error e

theorem foldDrafts_append {p p' : RunProjection} {ds : List RunEventDraft}
    (h : foldDrafts p ds = .ok p') (es : List RunEventDraft) :
    foldDrafts p (ds ++ es) = foldDrafts p' es := by
  induction ds generalizing p with
  | nil =>
    rw [foldDrafts] at h
    rw [nil_append, Except.ok.inj h]
  | cons d ds ih =>
    rw [cons_append, foldDrafts]
    rw [foldDrafts] at h
    cases hd : foldEvent p (p.headSeq + 1) d.body with
    | ok q => rw [hd] at h; exact ih h
    | error e => rw [hd] at h; cases h

def RunEventDraft.IsMarker (d : RunEventDraft) : Prop := ∃ type payload, d.body = .marker type payload

theorem foldDrafts_markers {ds : List RunEventDraft} (h : ∀ d ∈ ds, d.IsMarker)
    (p : RunProjection) :
    foldDrafts p ds = .ok { p with headSeq := p.headSeq + ds.length } := by
  induction ds generalizing p with
  | nil => rfl
  | cons d ds ih =>
    obtain ⟨type, payload, hd⟩ := h d (mem_cons_self ..)
    rw [foldDrafts, hd]
    simp only [foldEvent]
    rw [ih fun x hx => h x (mem_cons_of_mem _ hx)]
    simp only [length_cons, Nat.add_assoc, Nat.add_comm 1]

theorem noteEvents_isMarker (at' : Int) (notes : List RunNote) :
    ∀ d ∈ noteEvents at' notes, d.IsMarker := by
  intro d hd
  obtain ⟨n, -, rfl⟩ := mem_map.mp hd
  exact ⟨_, _, rfl⟩

theorem resolvedEvents_isMarker (at' : Int) (before after : List (Json × Json)) :
    ∀ d ∈ resolvedEvents at' before after, d.IsMarker := by
  intro d hd
  obtain ⟨p, -, rfl⟩ := mem_map.mp hd
  exact ⟨_, _, rfl⟩

theorem requestedEvents_isMarker (at' : Int) (base : RunBaseline) (run : AgentRun)
    (notes : List RunNote) (before after : List (Json × Json)) :
    ∀ d ∈ requestedEvents at' base run notes before after, d.IsMarker := by
  intro d hd
  unfold requestedEvents at hd
  rcases mem_append.mp hd with hd | hd
  · obtain ⟨p, -, rfl⟩ := mem_map.mp hd
    exact ⟨_, _, rfl⟩
  · split at hd
    · rw [mem_singleton] at hd
      exact ⟨_, _, congrArg RunEventDraft.body hd⟩
    · simp at hd

theorem statusEvents_isMarker (at' : Int) (base : RunBaseline) (run : AgentRun) :
    ∀ d ∈ statusEvents at' base run, d.IsMarker := by
  intro d hd
  unfold statusEvents at hd
  split at hd
  · simp only [mem_append, mem_singleton] at hd
    rcases hd with ((hd | hd) | hd) | hd
    · exact ⟨_, _, congrArg RunEventDraft.body hd⟩
    all_goals
      split at hd
      · rw [mem_singleton] at hd
        exact ⟨_, _, congrArg RunEventDraft.body hd⟩
      · simp at hd
  · simp at hd

theorem foldDrafts_stepEvents (step : Json) {index : Nat} (calls : Nat) (at' : Int)
    (p : RunProjection) (hindex : index = p.steps.length) :
    foldDrafts p (stepEvents step index calls at') =
      .ok { p with
        headSeq := p.headSeq + (stepEvents step index calls at').length
        steps := p.steps ++ [foldedStep step] } := by
  unfold stepEvents foldedStep
  by_cases ht : isToolStep step = true
  · -- the call pushes half of the step, the result is written over it
    simp only [ht, if_true, foldDrafts, foldEvent, pushStep, hindex, ne_eq, not_true_eq_false,
      if_false, Json.spread, List.getElem?_concat_length, Option.getD_some, putIndex,
      length_append, length_cons, length_nil, Nat.lt_add_one, if_true,
      set_append_right _ _ (Nat.le_refl _), Nat.sub_self, set_cons_zero, Nat.add_assoc]
  · simp only [ht, if_false, Bool.false_eq_true]
    split <;> simp [foldDrafts, foldEvent, pushStep, hindex]

theorem foldDrafts_appended {base : List Json} (at' : Int) (rest : List Json) (calls : Nat)
    (p : RunProjection) (hbase : base.length ≤ p.steps.length) :
    foldDrafts p (stepsEvents base at' p.steps.length calls rest) =
      .ok { p with
        headSeq := p.headSeq + (stepsEvents base at' p.steps.length calls rest).length
        steps := p.steps ++ rest.map foldedStep } := by
  induction rest generalizing calls p with
  | nil => simp [stepsEvents, foldDrafts]
  | cons step rest ih =>
    rw [stepsEvents, List.getElem?_eq_none hbase]
    dsimp only
    rw [foldDrafts_append (foldDrafts_stepEvents step calls at' p rfl)]
    have hnext := ih (if isToolStep step then calls + 1 else calls)
      { p with
        headSeq := p.headSeq + (stepEvents step p.steps.length calls at').length
        steps := p.steps ++ [foldedStep step] } (by simp; omega)
    simp only [length_append, length_cons, length_nil, Nat.zero_add] at hnext
    rw [hnext]
    simp only [length_append, Nat.add_assoc, append_assoc, map_cons, singleton_append]

theorem foldDrafts_steps (at' : Int) (bpre base pre current rest : List Json) (calls : Nat)
    (p : RunProjection) (hp : p.steps = pre ++ current) (hpre : pre.length = bpre.length)
    (hlen : current.length = base.length) (hrest : base.length ≤ rest.length) :
    foldDrafts p (stepsEvents (bpre ++ base) at' pre.length calls rest) =
      .ok { p with
        headSeq := p.headSeq + (stepsEvents (bpre ++ base) at' pre.length calls rest).length
        steps := pre ++ mergeSteps current base rest } := by
  induction base generalizing bpre pre current rest p with
  | nil =>
    obtain rfl : current = [] := eq_nil_of_length_eq_zero hlen
    rw [append_nil] at hp ⊢
    subst hp
    rw [foldDrafts_appended at' rest calls p (Nat.le_of_eq hpre.symm)]
    rfl
  | cons b bs ih =>
    obtain ⟨c, cs, rfl⟩ : ∃ c cs, current = c :: cs :=
      exists_cons_of_length_eq_add_one hlen
    obtain ⟨s, ss, rfl⟩ : ∃ s ss, rest = s :: ss := by
      cases rest with
      | nil => simp at hrest
      | cons s ss => exact ⟨s, ss, rfl⟩
    have hget : (bpre ++ b :: bs)[pre.length]? = some b := by
      rw [hpre]; simp
    have hb : bpre ++ b :: bs = (bpre ++ [b]) ++ bs := by simp
    rw [stepsEvents, hget, mergeSteps]
    by_cases hs : s = b
    · simp only [if_pos hs, nil_append]
      have hnext := ih (bpre ++ [b]) (pre ++ [c]) cs ss p (by simp [hp]) (by simp [hpre])
        (by simpa using hlen) (by simpa using hrest)
      simp only [length_append, length_cons, length_nil, Nat.zero_add] at hnext
      rw [hb, hnext]
      simp only [append_assoc, singleton_append]
    · simp only [if_neg hs, singleton_append, foldDrafts, foldEvent, putIndex, hp,
        length_append, length_cons]
      rw [if_pos (by omega), set_append_right _ _ (Nat.le_refl _), Nat.sub_self, set_cons_zero]
      have hnext := ih (bpre ++ [b]) (pre ++ [s]) cs ss
        { p with headSeq := p.headSeq + 1, steps := pre ++ s :: cs } (by simp) (by simp [hpre])
        (by simpa using hlen) (by simpa using hrest)
      simp only [length_append, length_cons, length_nil, Nat.zero_add] at hnext
      rw [hb, hnext]
      simp only [append_assoc, singleton_append, Nat.add_assoc, Nat.add_comm 1]

theorem foldDrafts_memory (at' : Int) (before after : Json) (p : RunProjection) :
    foldDrafts p (changeEvent at' .memoryChanged before after) =
      .ok { p with
        headSeq := p.headSeq + (changeEvent at' .memoryChanged before after).length
        workingMemory := changed p.workingMemory before after } := by
  unfold changeEvent changed
  cases diffObject before after with
  | none | some => rfl

theorem foldDrafts_metadata (at' : Int) (before after : Json) (p : RunProjection) :
    foldDrafts p (changeEvent at' .metadataChanged before after) =
      .ok { p with
        headSeq := p.headSeq + (changeEvent at' .metadataChanged before after).length
        metadata := changed p.metadata before after } := by
  unfold changeEvent changed
  cases diffObject before after with
  | none | some => rfl

theorem foldDrafts_stepChange (at' : Int) (base persisted : List Json) (p : RunProjection)
    (hlen : p.steps.length = base.length) :
    foldDrafts p (stepChangeEvents at' base persisted) =
      .ok { p with
        headSeq := p.headSeq + (stepChangeEvents at' base persisted).length
        steps := writtenSteps p.steps base persisted } := by
  unfold stepChangeEvents writtenSteps
  by_cases hlt : persisted.length < base.length
  · simp only [if_pos hlt]
    rfl
  · simp only [if_neg hlt]
    exact foldDrafts_steps at' [] base [] p.steps persisted 0 p rfl rfl hlen
      (Nat.le_of_not_lt hlt)

/-! ## Folding a write -/

def changeEvents (base : RunBaseline) (run : AgentRun) (notes : List RunNote) :
    List RunEventDraft :=
  let at' := base.currentStep
  let before := approvalsWaiting base.workingMemory
  let after := approvalsWaiting run.workingMemory.1
  noteEvents at' notes
    ++ (resolvedEvents at' before after
    ++ (stepChangeEvents at' base.steps run.steps.1.itemsOrEmpty
    ++ (changeEvent at' .memoryChanged base.workingMemory run.workingMemory.1
    ++ (changeEvent at' .metadataChanged base.metadata run.metadata.1
    ++ (requestedEvents at' base run notes before after
    ++ (statusEvents at' base run
    ++ [stepCommittedEvent base run]))))))

theorem commitEvents_eq (base : RunBaseline) (run : AgentRun) (notes : List RunNote) :
    commitEvents base run notes = runStartedEvents base ++ changeEvents base run notes := by
  simp only [commitEvents, changeEvents, append_assoc]

def committed (p : RunProjection) (base : RunBaseline) (run : AgentRun) (headSeq : Nat) :
    RunProjection :=
  { headSeq, status := run.status, currentStep := run.currentStep, totalCost := run.totalCost,
    totalTokens := run.totalTokens, toolCallCount := run.toolCallCount,
    executionTime := run.executionTime,
    output := if run.output.1 = base.output then p.output else run.output.1
    error := if run.error = base.error then p.error else run.error
    workingMemory := changed p.workingMemory base.workingMemory run.workingMemory.1
    metadata := changed p.metadata base.metadata run.metadata.1
    steps := writtenSteps p.steps base.steps run.steps.1.itemsOrEmpty }

/-- **Folding a write's events**: no error, the head past every event, each column as the diff
leaves it. -/
theorem foldDrafts_changeEvents (p : RunProjection) (base : RunBaseline) (run : AgentRun)
    (notes : List RunNote) (hlen : p.steps.length = base.steps.length) :
    foldDrafts p (changeEvents base run notes) =
      .ok (committed p base run (p.headSeq + (changeEvents base run notes).length)) := by
  unfold changeEvents
  refine (foldDrafts_append (foldDrafts_markers (noteEvents_isMarker _ _) p) _).trans ?_
  refine (foldDrafts_append (foldDrafts_markers (resolvedEvents_isMarker _ _ _) _) _).trans ?_
  refine (foldDrafts_append (foldDrafts_stepChange _ _ _ _ (by exact hlen)) _).trans ?_
  refine (foldDrafts_append (foldDrafts_memory _ _ _ _) _).trans ?_
  refine (foldDrafts_append (foldDrafts_metadata _ _ _ _) _).trans ?_
  refine (foldDrafts_append (foldDrafts_markers (requestedEvents_isMarker _ _ _ _ _ _) _) _).trans
    ?_
  refine (foldDrafts_append (foldDrafts_markers (statusEvents_isMarker _ _ _) _) _).trans ?_
  simp only [foldDrafts, foldEvent, stepCommittedEvent, committed, length_append,
    length_cons, length_nil, Nat.add_assoc, Nat.zero_add]
  congr 2
  · by_cases h : run.output.1 = base.output <;> simp [h]
  · by_cases h : run.error = base.error <;> simp [h]

/-! ## When the fold gives the row back -/

structure RunState.Eqv (a b : RunState) : Prop where
  status : a.status = b.status
  currentStep : a.currentStep = b.currentStep
  totalCost : a.totalCost = b.totalCost
  totalTokens : a.totalTokens = b.totalTokens
  toolCallCount : a.toolCallCount = b.toolCallCount
  executionTime : a.executionTime = b.executionTime
  output : Json.Eqv a.output b.output
  error : a.error = b.error
  workingMemory : Json.Eqv a.workingMemory b.workingMemory
  metadata : Json.Eqv a.metadata b.metadata
  steps : Json.Eqv a.steps b.steps

structure RunProjection.Tracks (p : RunProjection) (base : RunBaseline) : Prop where
  output : Json.Eqv p.output base.output
  error : p.error = base.error
  workingMemory : Json.Eqv p.workingMemory base.workingMemory
  metadata : Json.Eqv p.metadata base.metadata
  steps : Json.Eqv (.arr p.steps) (.arr base.steps)

def IsStepArray (steps : Json) : Prop := steps = .null ∨ ∃ items, steps = .arr items

structure WriteLogged (row next : AgentRun) : Prop where
  stepArray : IsStepArray next.steps.1
  steps : ∀ s ∈ next.steps.1.itemsOrEmpty.drop row.steps.1.itemsOrEmpty.length, StepLogged s
  workingMemory : ObjectLogged row.workingMemory.1 next.workingMemory.1
  metadata : ObjectLogged row.metadata.1 next.metadata.1

theorem tracks_of_eqv {p : RunProjection} {row : AgentRun}
    (h : p.state.Eqv (storedRunState row)) : p.Tracks (baselineOf row) := by
  refine ⟨h.output, h.error, h.workingMemory, h.metadata, ?_⟩
  have hsteps : Json.Eqv (.arr p.steps)
      (if row.steps.1 = .null then .arr [] else row.steps.1) := h.steps
  show Json.Eqv (.arr p.steps) (.arr row.steps.1.itemsOrEmpty)
  by_cases hnull : row.steps.1 = .null
  · rw [if_pos hnull] at hsteps
    rw [hnull]
    exact hsteps
  · rw [if_neg hnull] at hsteps
    cases hrow : row.steps.1 with
    | arr items => rw [hrow] at hsteps; exact hsteps
    | _ => rw [hrow] at hsteps; cases hsteps

theorem storedSteps_eqv_iff (items : List Json) (steps : Json) :
    Json.Eqv (.arr items) (if steps = .null then .arr [] else steps) ↔
      IsStepArray steps ∧ Json.Eqv (.arr items) (.arr steps.itemsOrEmpty) := by
  unfold IsStepArray
  cases steps with
  | null | arr => simp [Json.itemsOrEmpty]
  | _ =>
    simp only [reduceCtorEq, if_false, exists_false, or_self, false_and, iff_false]
    intro h
    cases h

theorem committed_eqv_iff {p : RunProjection} {row next : AgentRun} (headSeq : Nat)
    (hp : p.Tracks (baselineOf row)) :
    (committed p (baselineOf row) next headSeq).state.Eqv (storedRunState next) ↔
      WriteLogged row next := by
  have hmem := changed_eqv_iff hp.workingMemory next.workingMemory.2
  have hmeta := changed_eqv_iff hp.metadata next.metadata.2
  have hkeys : ∀ s ∈ next.steps.1.itemsOrEmpty, s.uniqueKeys = true := by
    have hu := next.steps.2
    cases hs : next.steps.1 with
    | arr items =>
      rw [hs] at hu
      exact Json.uniqueKeys_of_mem hu
    | _ => simp [Json.itemsOrEmpty]
  have hsteps := (storedSteps_eqv_iff (writtenSteps p.steps (baselineOf row).steps
    next.steps.1.itemsOrEmpty) next.steps.1).trans
    (and_congr_right fun _ => writtenSteps_eqv_iff hp.steps hkeys)
  constructor
  · intro h
    obtain ⟨harr, hnew⟩ := hsteps.mp h.steps
    exact ⟨harr, hnew, hmem.mp h.workingMemory, hmeta.mp h.metadata⟩
  · intro h
    refine ⟨rfl, rfl, rfl, rfl, rfl, rfl, ?_, ?_, hmem.mpr h.workingMemory,
      hmeta.mpr h.metadata, hsteps.mpr ⟨h.stepArray, h.steps⟩⟩
    · show Json.Eqv (if next.output.1 = (baselineOf row).output then p.output else next.output.1)
        next.output.1
      by_cases ho : next.output.1 = (baselineOf row).output
      · rw [if_pos ho, ho]; exact hp.output
      · rw [if_neg ho]; exact .refl _
    · show (if next.error = (baselineOf row).error then p.error else next.error) = next.error
      by_cases he : next.error = (baselineOf row).error
      · rw [if_pos he, he]; exact hp.error
      · rw [if_neg he]

end Almyty.Runs
