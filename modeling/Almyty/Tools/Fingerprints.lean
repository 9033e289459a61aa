import Almyty.Lib.JsKeys
import Almyty.Lib.JsonText
import Almyty.Tools.ApprovalGate

/-!
# Fingerprints of calls: `paramsHash` and `hashCacheObject`

Both write a value as JSON with the keys of its objects in order and hash the text. The first
copies an object with a spread and a computed key, the second by assignments; the order in which
the text lists the keys is the engine's, integers first. `fingerprints_identify` says what the
texts tell apart: equal texts, equal values up to the order of keys, for every value where the
keys are spread, and for every value without a `__proto__` key where they are assigned, since
assigning to that name adds no key. No parameters (`null`) have the fingerprint of `{}`
(`null_is_no_parameters`).
-/

namespace Almyty.Tools

open Almyty.Lib List

def orEmpty : Json → Json
  | .null => .obj []
  | params => params

def paramsText (engine : Engine) (params : Json) : String :=
  Json.text engine.numberText (stable (orEmpty params))

/-- The entries of an object as they are listed: integer keys first, the others in the order
they were added. -/
def ownOrder (fields : Fields) : Fields :=
  (fields.filter fun e => (Js.keyIndex e.1).isSome).insertionSort
      (fun e e' => (Js.keyIndex e.1).getD 0 ≤ (Js.keyIndex e'.1).getD 0) ++
    fields.filter fun e => (Js.keyIndex e.1).isNone

/-- The object that is filled by `out[key] = value`, key after key in order. -/
def filled (fields : Fields) : Fields :=
  ownOrder (Js.assignAll [] (fields.insertionSort fun e e' =>
    Js.codeUnits e.1 ≤ Js.codeUnits e'.1))

mutual

/-- The value with the keys of every object in it in order, as `hashCacheObject` builds it. -/
def stableByAssignment : Json → Json
  | .arr items => .arr (stableByAssignmentItems items)
  | .obj fields => .obj (filled (stableByAssignmentFields fields))
  | .null => .null
  | .bool b => .bool b
  | .num n => .num n
  | .str s => .str s

def stableByAssignmentItems : List Json → List Json
  | [] => []
  | item :: items => stableByAssignment item :: stableByAssignmentItems items

def stableByAssignmentFields : Fields → Fields
  | [] => []
  | (key, value) :: fields => (key, stableByAssignment value) :: stableByAssignmentFields fields

end

def cacheText (engine : Engine) (value : Json) : String :=
  Json.text engine.numberText (stableByAssignment value)

mutual

def noProto : Json → Bool
  | .arr items => noProtoItems items
  | .obj fields => noProtoFields fields
  | .null | .bool _ | .num _ | .str _ => true

def noProtoItems : List Json → Bool
  | [] => true
  | item :: items => noProto item && noProtoItems items

def noProtoFields : Fields → Bool
  | [] => true
  | (key, value) :: fields => key ≠ "__proto__" && noProto value && noProtoFields fields

end

/-! ## Keys in order -/

section

instance totalUnits :
    Std.Total fun e e' : String × Json => Js.codeUnits e.1 ≤ Js.codeUnits e'.1 :=
  ⟨fun _ _ => le_total _ _⟩

instance transUnits :
    IsTrans (String × Json) fun e e' => Js.codeUnits e.1 ≤ Js.codeUnits e'.1 :=
  ⟨fun _ _ _ hab hbc => le_trans hab hbc⟩

instance totalIndex :
    Std.Total fun e e' : String × Json => (Js.keyIndex e.1).getD 0 ≤ (Js.keyIndex e'.1).getD 0 :=
  ⟨fun _ _ => Nat.le_total _ _⟩

instance transIndex :
    IsTrans (String × Json) fun e e' => (Js.keyIndex e.1).getD 0 ≤ (Js.keyIndex e'.1).getD 0 :=
  ⟨fun _ _ _ hab hbc => Nat.le_trans hab hbc⟩

end

section

variable {fields fields' : Fields}

theorem entry_eq (hkeys : (Assoc.keys fields).Nodup) {a b : String × Json} (ha : a ∈ fields)
    (hb : b ∈ fields) (h : a.1 = b.1) : a = b :=
  inj_on_of_nodup_map hkeys ha hb h

theorem names_eq_of_perm (hkeys : (Assoc.keys fields).Nodup) (h : fields.Perm fields') :
    (fields.insertionSort fun e e' => Js.codeUnits e.1 ≤ Js.codeUnits e'.1)
      = fields'.insertionSort fun e e' => Js.codeUnits e.1 ≤ Js.codeUnits e'.1 := by
  refine Js.insertionSort_eq_of_perm ?_ h
  intro a ha b hb hab hba
  exact entry_eq hkeys ha hb (Js.codeUnits_injective (le_antisymm hab hba))

theorem indices_eq_of_perm (hkeys : (Assoc.keys fields).Nodup) (h : fields.Perm fields') :
    ((fields.filter fun e => (Js.keyIndex e.1).isSome).insertionSort
        fun e e' => (Js.keyIndex e.1).getD 0 ≤ (Js.keyIndex e'.1).getD 0)
      = (fields'.filter fun e => (Js.keyIndex e.1).isSome).insertionSort
        fun e e' => (Js.keyIndex e.1).getD 0 ≤ (Js.keyIndex e'.1).getD 0 := by
  refine Js.insertionSort_eq_of_perm ?_ (h.filter _)
  intro a ha b hb hab hba
  obtain ⟨ha, hsomea⟩ := mem_filter.mp ha
  obtain ⟨hb, hsomeb⟩ := mem_filter.mp hb
  obtain ⟨i, hi⟩ := Option.isSome_iff_exists.mp hsomea
  obtain ⟨j, hj⟩ := Option.isSome_iff_exists.mp hsomeb
  rw [hi, hj] at hab hba
  obtain rfl : i = j := Nat.le_antisymm hab hba
  exact entry_eq hkeys ha hb (Js.keyIndex_injective hi hj)

theorem sortKeys_eq_of_perm (hkeys : (Assoc.keys fields).Nodup) (h : fields.Perm fields') :
    sortKeys fields = sortKeys fields' := by
  unfold sortKeys
  dsimp only
  rw [indices_eq_of_perm hkeys h, names_eq_of_perm (Assoc.filter_keys_nodup hkeys _) (h.filter _)]

theorem sortKeys_perm (fields : Fields) : (sortKeys fields).Perm fields := by
  unfold sortKeys
  dsimp only
  have hsplit := filter_append_perm (fun e : String × Json => (Js.keyIndex e.1).isSome) fields
  have hrest : (fields.filter fun e => !(Js.keyIndex e.1).isSome)
      = fields.filter fun e => (Js.keyIndex e.1).isNone := by simp
  rw [hrest] at hsplit
  exact ((perm_insertionSort _ _).append (perm_insertionSort _ _)).trans hsplit

theorem lookup_eq_of_perm (hkeys : (Assoc.keys fields).Nodup) (h : fields.Perm fields')
    (key : String) : fields.lookup key = fields'.lookup key := by
  have hkeys' : (Assoc.keys fields').Nodup := (h.map Prod.fst).nodup_iff.mp hkeys
  cases hlookup : fields.lookup key with
  | none =>
    rw [Assoc.lookup_eq_none_iff] at hlookup
    refine ((Assoc.lookup_eq_none_iff fields' key).mpr fun hmem => hlookup ?_).symm
    exact (h.map Prod.fst).symm.subset hmem
  | some v => exact (Assoc.lookup_of_mem hkeys' (h.subset (Assoc.mem_of_lookup hlookup))).symm

theorem perm_of_lookup (hkeys : (Assoc.keys fields).Nodup) (hkeys' : (Assoc.keys fields').Nodup)
    (h : ∀ key, fields.lookup key = fields'.lookup key) : fields.Perm fields' := by
  refine (perm_ext_iff_of_nodup (List.Nodup.of_map _ hkeys)
    (List.Nodup.of_map _ hkeys')).mpr ?_
  rintro ⟨key, value⟩
  constructor
  · intro hmem
    exact Assoc.mem_of_lookup ((h key).symm.trans (Assoc.lookup_of_mem hkeys hmem))
  · intro hmem
    exact Assoc.mem_of_lookup ((h key).trans (Assoc.lookup_of_mem hkeys' hmem))

end

/-! ## One value for the values that are equal up to the order of keys -/

theorem stableItems_eq_map (items : List Json) : stableItems items = items.map stable := by
  induction items with
  | nil => rfl
  | cons item items ih => rw [stableItems, ih, map_cons]

theorem stableFields_eq_map (fields : Fields) :
    stableFields fields = fields.map fun e => (e.1, stable e.2) := by
  induction fields with
  | nil => rfl
  | cons e fields ih => rw [stableFields, ih, map_cons]

theorem keys_stableFields (fields : Fields) :
    Assoc.keys (stableFields fields) = Assoc.keys fields := by
  rw [stableFields_eq_map, Assoc.keys, Assoc.keys, map_map]
  rfl

theorem lookup_stableFields (fields : Fields) (key : String) :
    (stableFields fields).lookup key = (fields.lookup key).map stable := by
  rw [stableFields_eq_map, Assoc.lookup_map_snd]

variable {fields : Fields}

theorem uniqueKeys_of_lookup (h : (Json.obj fields).uniqueKeys = true) {key : String} {value : Json}
    (hvalue : fields.lookup key = some value) :
    value.uniqueKeys = true := by
  rw [Json.uniqueKeys, Bool.and_eq_true] at h
  have hmem := Assoc.mem_of_lookup hvalue
  have hfields := h.2
  clear h hvalue
  induction fields with
  | nil => cases hmem
  | cons e fields ih =>
    rw [Json.uniqueKeysFields, Bool.and_eq_true] at hfields
    rcases mem_cons.mp hmem with rfl | hmem
    · exact hfields.1
    · exact ih hmem hfields.2

theorem stable_eq_of_eqv {a b : Json} (h : Json.Eqv a b) (ha : a.uniqueKeys = true)
    (hb : b.uniqueKeys = true) : stable a = stable b := by
  induction h with
  | null | bool | num | str => rfl
  | @arr xs ys hlen _ ih =>
    rw [stable, stable, stableItems_eq_map, stableItems_eq_map]
    congr 1
    refine ext_getElem (by simpa using hlen) fun i hi hi' => ?_
    rw [length_map] at hi hi'
    rw [getElem_map, getElem_map]
    exact ih i _ _ (List.getElem?_eq_getElem hi) (List.getElem?_eq_getElem hi')
      (Json.uniqueKeys_of_mem ha _ (getElem_mem hi))
      (Json.uniqueKeys_of_mem hb _ (getElem_mem hi'))
  | @obj fs gs hkeys _ ih =>
    rw [stable, stable]
    congr 1
    have hfs : (Assoc.keys (stableFields fs)).Nodup := by
      rw [keys_stableFields]
      exact Json.nodup_of_uniqueKeys ha
    have hgs : (Assoc.keys (stableFields gs)).Nodup := by
      rw [keys_stableFields]
      exact Json.nodup_of_uniqueKeys hb
    refine sortKeys_eq_of_perm hfs (perm_of_lookup hfs hgs fun key => ?_)
    rw [lookup_stableFields, lookup_stableFields]
    cases hf : fs.lookup key with
    | none => rw [(hkeys key).mp hf]
    | some v =>
      cases hg : gs.lookup key with
      | none => rw [(hkeys key).mpr hg] at hf; cases hf
      | some w =>
        rw [Option.map_some, Option.map_some, ih key v w hf hg (uniqueKeys_of_lookup ha hf)
          (uniqueKeys_of_lookup hb hg)]

theorem stable_eqv : (j : Json) → j.uniqueKeys = true → Json.Eqv (stable j) j
  | .null, _ => .null
  | .bool b, _ => .bool b
  | .num n, _ => .num n
  | .str s, _ => .str s
  | .arr xs, h => by
    rw [stable, stableItems_eq_map]
    refine .arr (length_map _) fun i x y hx hy => ?_
    have hmem : y ∈ xs := List.mem_of_getElem? hy
    rw [List.getElem?_map, hy] at hx
    rw [← Option.some.inj hx]
    exact stable_eqv y (Json.uniqueKeys_of_mem h y hmem)
  | .obj fs, h => by
    have hkeys := Json.nodup_of_uniqueKeys h
    have hsorted : (Assoc.keys (sortKeys (stableFields fs))).Nodup := by
      have hperm := (sortKeys_perm (stableFields fs)).map Prod.fst
      rw [← Assoc.keys, ← Assoc.keys, keys_stableFields] at hperm
      exact hperm.nodup_iff.mpr hkeys
    have hlookup (key : String) : (sortKeys (stableFields fs)).lookup key
        = (fs.lookup key).map stable := by
      rw [lookup_eq_of_perm hsorted (sortKeys_perm _), lookup_stableFields]
    rw [stable]
    refine .obj (fun key => ?_) fun key v w hv hw => ?_
    · rw [hlookup, Option.map_eq_none_iff]
    · have hmem : (key, w) ∈ fs := Assoc.mem_of_lookup hw
      rw [hlookup, hw] at hv
      rw [← Option.some.inj hv]
      exact stable_eqv w (uniqueKeys_of_lookup h hw)
  termination_by j => sizeOf j
  decreasing_by
    · have := sizeOf_lt_of_mem hmem
      simp only [Json.arr.sizeOf_spec]
      omega
    · have := sizeOf_lt_of_mem hmem
      simp only [Json.obj.sizeOf_spec, Prod.mk.sizeOf_spec] at this ⊢
      omega

theorem stable_eq_iff {a b : Json} (ha : a.uniqueKeys = true) (hb : b.uniqueKeys = true) :
    stable a = stable b ↔ Json.Eqv a b := by
  constructor
  · intro h
    have hb' := stable_eqv b hb
    rw [← h] at hb'
    exact (stable_eqv a ha).symm.trans hb'
  · exact fun h => stable_eq_of_eqv h ha hb

/-! ## Assigned keys -/

theorem assignAll_eq_append {entries : Fields} (hkeys : (Assoc.keys (fields ++ entries)).Nodup)
    (hproto : "__proto__" ∉ Assoc.keys entries) :
    Js.assignAll fields entries = fields ++ entries := by
  induction entries generalizing fields with
  | nil => exact (append_nil fields).symm
  | cons e entries ih =>
    have hne : e.1 ≠ "__proto__" := fun heq => hproto (heq ▸ mem_cons_self)
    have hnew : e.1 ∉ Assoc.keys fields := by
      rw [Assoc.keys, map_append, map_cons] at hkeys
      intro hmem
      exact (nodup_append.mp hkeys).2.2 _ hmem _ mem_cons_self rfl
    have hput : Js.assign fields e.1 e.2 = fields ++ [e] := by
      rw [Js.assign, if_neg fun h => hne h.1]
      exact Assoc.put_of_not_mem hnew e.2
    rw [Js.assignAll, foldl_cons, hput, ← Js.assignAll, ih]
    · rw [append_assoc, singleton_append]
    · rwa [append_assoc, singleton_append]
    · exact fun hmem => hproto (mem_cons_of_mem _ hmem)

theorem filled_eq_sortKeys (hkeys : (Assoc.keys fields).Nodup)
    (hproto : "__proto__" ∉ Assoc.keys fields) : filled fields = sortKeys fields := by
  have hperm := perm_insertionSort (fun e e' : String × Json =>
    Js.codeUnits e.1 ≤ Js.codeUnits e'.1) fields
  have hsorted := pairwise_insertionSort (fun e e' : String × Json =>
    Js.codeUnits e.1 ≤ Js.codeUnits e'.1) fields
  unfold filled
  generalize fields.insertionSort (fun e e' => Js.codeUnits e.1 ≤ Js.codeUnits e'.1) = sorted
    at hperm hsorted ⊢
  have hnodup : (Assoc.keys sorted).Nodup := (hperm.map Prod.fst).nodup_iff.mpr hkeys
  have happend : Js.assignAll [] sorted = sorted :=
    assignAll_eq_append hnodup fun hmem => hproto ((hperm.map Prod.fst).subset hmem)
  rw [happend]
  unfold ownOrder sortKeys
  dsimp only
  rw [indices_eq_of_perm hnodup hperm]
  congr 1
  -- what is sorted stays so without the integer keys
  rw [← names_eq_of_perm (Assoc.filter_keys_nodup hnodup _) (hperm.filter _)]
  exact ((hsorted.filter _).insertionSort_eq).symm

theorem not_mem_of_noProto (h : noProtoFields fields = true) :
    "__proto__" ∉ Assoc.keys fields := by
  induction fields with
  | nil => exact not_mem_nil
  | cons e fields ih =>
    rw [noProtoFields, Bool.and_eq_true, Bool.and_eq_true, decide_eq_true_eq] at h
    intro hmem
    rcases mem_cons.mp hmem with heq | hmem
    · exact h.1.1 heq.symm
    · exact ih h.2 hmem

mutual

theorem stableByAssignment_eq : (j : Json) → j.uniqueKeys = true → noProto j = true →
    stableByAssignment j = stable j
  | .null, _, _ | .bool _, _, _ | .num _, _, _ | .str _, _, _ => rfl
  | .arr items, hkeys, hproto => by
    rw [stableByAssignment, stable, stableByAssignmentItems_eq items hkeys hproto]
  | .obj fields, hkeys, hproto => by
    have hnodup := Json.nodup_of_uniqueKeys hkeys
    rw [Json.uniqueKeys, Bool.and_eq_true] at hkeys
    rw [stableByAssignment, stable, stableByAssignmentFields_eq fields hkeys.2 hproto,
      filled_eq_sortKeys]
    · rwa [keys_stableFields]
    · rw [keys_stableFields]
      exact not_mem_of_noProto hproto

theorem stableByAssignmentItems_eq : (items : List Json) → Json.uniqueKeysList items = true →
    noProtoItems items = true → stableByAssignmentItems items = stableItems items
  | [], _, _ => rfl
  | item :: items, hkeys, hproto => by
    rw [Json.uniqueKeysList, Bool.and_eq_true] at hkeys
    rw [noProtoItems, Bool.and_eq_true] at hproto
    rw [stableByAssignmentItems, stableItems, stableByAssignment_eq item hkeys.1 hproto.1,
      stableByAssignmentItems_eq items hkeys.2 hproto.2]

theorem stableByAssignmentFields_eq : (fields : Fields) → Json.uniqueKeysFields fields = true →
    noProtoFields fields = true → stableByAssignmentFields fields = stableFields fields
  | [], _, _ => rfl
  | (key, value) :: fields, hkeys, hproto => by
    rw [Json.uniqueKeysFields, Bool.and_eq_true] at hkeys
    rw [noProtoFields, Bool.and_eq_true, Bool.and_eq_true] at hproto
    rw [stableByAssignmentFields, stableFields, stableByAssignment_eq value hkeys.1 hproto.1.2,
      stableByAssignmentFields_eq fields hkeys.2 hproto.2]

end

/-! ## What fingerprints tell apart -/

theorem uniqueKeys_orEmpty (p : JsonValue) : (orEmpty p.1).uniqueKeys = true := by
  obtain ⟨p, hp⟩ := p
  cases p with
  | null => rfl
  | _ => exact hp

theorem fingerprints_identify (engine : Engine) (hnumbers : Json.NumberTexts engine.numberText)
    (p q : JsonValue) :
    (paramsText engine p.1 = paramsText engine q.1 ↔ Json.Eqv (orEmpty p.1) (orEmpty q.1)) ∧
      (noProto p.1 = true → noProto q.1 = true →
        (cacheText engine p.1 = cacheText engine q.1 ↔ Json.Eqv p.1 q.1)) := by
  constructor
  · rw [← stable_eq_iff (uniqueKeys_orEmpty p) (uniqueKeys_orEmpty q)]
    constructor
    · intro h
      exact Json.text_injective hnumbers h
    · intro h
      rw [paramsText, paramsText, h]
  · intro hp hq
    have hcache (j : JsonValue) (hj : noProto j.1 = true) :
        cacheText engine j.1 = Json.text engine.numberText (stable j.1) := by
      rw [cacheText, stableByAssignment_eq j.1 j.2 hj]
    rw [hcache p hp, hcache q hq, ← stable_eq_iff p.2 q.2]
    constructor
    · intro h
      exact Json.text_injective hnumbers h
    · intro h
      rw [h]

/-- A number's digits, an integer's as they are. -/
def plainNumber (n : Rat) : String :=
  if n.den = 1 then n.num.repr else n.num.repr ++ "e" ++ n.den.repr

theorem digits_repr (n : Nat) : ∀ c ∈ n.repr.toList, c.isDigit = true := by
  intro c hc
  rw [Nat.toList_repr] at hc
  exact Nat.isDigit_of_mem_toDigits (by decide) (by decide) hc

theorem repr_lead (n : Nat) : ∃ c rest, n.repr.toList = c :: rest ∧ c.isDigit = true := by
  have hdigits := digits_repr n
  cases hlist : n.repr.toList with
  | nil =>
    have hpos := Nat.length_toDigits_pos (b := 10) (n := n)
    rw [← Nat.toList_repr, hlist] at hpos
    cases hpos
  | cons c rest => exact ⟨c, rest, rfl, hdigits c (by rw [hlist]; exact mem_cons_self)⟩

theorem int_repr (n : Int) : ∃ c rest, n.repr.toList = c :: rest ∧
    (c.isDigit = true ∨ c = '-') ∧ ∀ d ∈ rest, d.isDigit = true := by
  cases n with
  | ofNat n =>
    obtain ⟨c, rest, hlist, hc⟩ := repr_lead n
    refine ⟨c, rest, hlist, .inl hc, fun d hd => digits_repr n d ?_⟩
    rw [hlist]
    exact mem_cons_of_mem _ hd
  | negSucc n =>
    refine ⟨'-', (n + 1).repr.toList, ?_, .inr rfl, digits_repr _⟩
    show ("-" ++ (n + 1).repr).toList = _
    rw [String.toList_append]
    rfl

theorem not_mem_int_repr (k : Int) : 'e' ∉ k.repr.toList := by
  obtain ⟨c, rest, hlist, hc, hrest⟩ := int_repr k
  rw [hlist]
  intro hmem
  rcases mem_cons.mp hmem with rfl | hmem
  · exact absurd hc (by decide)
  · exact absurd (hrest _ hmem) (by decide)

theorem numberTexts_plainNumber : Json.NumberTexts plainNumber where
  injective m n h := by
    have hfrac (k : Rat) : (k.num.repr ++ "e" ++ k.den.repr).toList
        = k.num.repr.toList ++ 'e' :: k.den.repr.toList := by
      rw [String.append_assoc, String.toList_append, String.toList_append]
      rfl
    unfold plainNumber at h
    split at h
    · next hm =>
      split at h
      · next hn => exact Rat.ext (Int.repr_injective h) (hm.trans hn.symm)
      · refine absurd ?_ (not_mem_int_repr m.num)
        rw [h, hfrac]
        exact mem_append_right _ mem_cons_self
    · split at h
      · refine absurd ?_ (not_mem_int_repr n.num)
        rw [← h, hfrac]
        exact mem_append_right _ mem_cons_self
      · have hlist := congrArg String.toList h
        rw [hfrac, hfrac] at hlist
        have hden : 'e' ∉ m.den.repr.toList :=
          fun hmem => absurd (digits_repr _ 'e' hmem) (by decide)
        obtain ⟨hnum, -, hden⟩ :=
          (append_cons_inj_of_notMem (not_mem_int_repr m.num) hden).mp hlist
        exact Rat.ext (Int.repr_injective (String.toList_injective hnum))
          (Nat.repr_injective (String.toList_injective hden))
  chars n c hc := by
    have hsign (k : Int) : ∀ d ∈ k.repr.toList, Json.isNumberChar d = true := by
      intro d hd
      obtain ⟨c, rest, hlist, hc, hrest⟩ := int_repr k
      rw [hlist] at hd
      unfold Json.isNumberChar
      rcases mem_cons.mp hd with rfl | hd
      · rcases hc with hc | rfl
        · rw [hc]; rfl
        · rfl
      · rw [hrest d hd]; rfl
    unfold plainNumber at hc
    split at hc
    · exact hsign _ c hc
    · rw [String.toList_append, String.toList_append, mem_append, mem_append] at hc
      rcases hc with (hc | hc) | hc
      · exact hsign _ c hc
      · rw [mem_singleton.mp hc]
        rfl
      · unfold Json.isNumberChar
        rw [digits_repr _ c hc]
        rfl
  lead n := by
    obtain ⟨c, rest, hlist, hc, -⟩ := int_repr n.num
    unfold plainNumber
    split
    · exact ⟨c, rest, hlist, hc⟩
    · refine ⟨c, rest ++ ("e" ++ n.den.repr).toList, ?_, hc⟩
      rw [String.append_assoc, String.toList_append, hlist, cons_append]

/-- The engine on whole numbers, with distinct texts for the others. -/
def plainEngine : Engine := { wholeEngine with numberText := plainNumber }

/-- Two orders of one call's parameters, at two depths. -/
theorem fingerprints_identify_orders :
    let p : JsonValue := ⟨.obj [("b", .num 2), ("10", .null),
      ("a", .arr [.obj [("y", .bool true), ("x", .str "1")]]), ("9", .num (-3))], by decide⟩
    let q : JsonValue := ⟨.obj [("9", .num (-3)), ("a", .arr [.obj [("x", .str "1"),
      ("y", .bool true)]]), ("b", .num 2), ("10", .null)], by decide⟩
    Json.NumberTexts plainEngine.numberText ∧
      (paramsText plainEngine p.1 = paramsText plainEngine q.1 ↔
        Json.Eqv (orEmpty p.1) (orEmpty q.1)) ∧
      (cacheText plainEngine p.1 = cacheText plainEngine q.1 ↔ Json.Eqv p.1 q.1) := by
  intro p q
  obtain ⟨hparams, hcache⟩ := fingerprints_identify plainEngine numberTexts_plainNumber p q
  exact ⟨numberTexts_plainNumber, hparams, hcache (by decide) (by decide)⟩

theorem null_is_no_parameters : ¬ ∀ (engine : Engine) (p q : JsonValue),
    Json.NumberTexts engine.numberText →
      (paramsText engine p.1 = paramsText engine q.1 ↔ Json.Eqv p.1 q.1) := by
  intro hclaim
  have heqv := (hclaim plainEngine ⟨.null, rfl⟩ ⟨.obj [], rfl⟩ numberTexts_plainNumber).mp rfl
  cases heqv

end Almyty.Tools
