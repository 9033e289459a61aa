import Almyty.Lib.JsText

/-!
# Forms read as trees

A form names its values by paths in brackets: `a[b][0]`, and `a[]` for one more item of `a`. Read
one after the other, the values make a tree, in which an array is a map from its indices.

A subtree is known by what is put into it: values whose paths go through a new key make the tree of
their rests under that key (`putAll_under`), and items that are added make their list
(`putAll_items`).
-/

namespace Almyty.Lib.Form

open List Option

inductive Step
  | key (name : String)
  /-- `[]` -/
  | append

inductive FormTree
  | leaf (text : String)
  | node (kids : List (String × FormTree))

abbrev Kids := List (String × FormTree)

abbrev Entries := List (List Step × String)

def FormTree.kids : FormTree → Kids
  | .leaf _ => []
  | .node kids => kids

def Step.under (kids : Kids) : Step → String
  | .key name => name
  | .append => kids.length.repr

def alter (key : String) (f : FormTree → FormTree) : Kids → Kids
  | [] => [(key, f (.node []))]
  | (name, tree) :: kids =>
    if name = key then (name, f tree) :: kids else (name, tree) :: alter key f kids

def put : List Step → String → FormTree → FormTree
  | [], text, _ => .leaf text
  | step :: steps, text, tree =>
    .node (alter (step.under tree.kids) (put steps text) tree.kids)

def putAll (entries : Entries) (tree : FormTree) : FormTree :=
  entries.foldl (fun tree e => put e.1 e.2 tree) tree

def FormTree.find : List String → FormTree → Option String
  | [], .leaf text => some text
  | [], .node _ => none
  | _ :: _, .leaf _ => none
  | key :: keys, .node kids => (kids.lookup key).bind (find keys)

def through (name : String) (entries : Entries) : Entries :=
  entries.map fun e => (.key name :: e.1, e.2)

section Put

theorem putAll_append (entries entries' : Entries) (tree : FormTree) :
    putAll (entries ++ entries') tree = putAll entries' (putAll entries tree) :=
  foldl_append

variable {key : String}

theorem alter_new {kids : Kids} (h : key ∉ kids.map (·.1)) (f : FormTree → FormTree) :
    alter key f kids = kids ++ [(key, f (.node []))] := by
  induction kids with
  | nil => rfl
  | cons kid kids ih =>
    rw [map_cons, mem_cons, not_or] at h
    rw [alter, if_neg fun heq => h.1 heq.symm, ih h.2, cons_append]

theorem alter_last {kids : Kids} (h : key ∉ kids.map (·.1)) (tree : FormTree)
    (f : FormTree → FormTree) : alter key f (kids ++ [(key, tree)]) = kids ++ [(key, f tree)] := by
  induction kids with
  | nil => rw [nil_append, alter, if_pos rfl, nil_append]
  | cons kid kids ih =>
    rw [map_cons, mem_cons, not_or] at h
    rw [cons_append, alter, if_neg fun heq => h.1 heq.symm, ih h.2, cons_append]

theorem putAll_last {kids : Kids} (h : key ∉ kids.map (·.1)) (entries : Entries) (tree : FormTree) :
    putAll (through key entries) (.node (kids ++ [(key, tree)])) =
      .node (kids ++ [(key, putAll entries tree)]) := by
  induction entries generalizing tree with
  | nil => rfl
  | cons e entries ih =>
    have hfirst : put (.key key :: e.1) e.2 (.node (kids ++ [(key, tree)])) =
        .node (kids ++ [(key, put e.1 e.2 tree)]) :=
      congrArg FormTree.node (alter_last h tree _)
    show putAll (through key entries) (put (.key key :: e.1) e.2 _) = _
    rw [hfirst]
    exact ih (put e.1 e.2 tree)

theorem putAll_under {kids : Kids} (h : key ∉ kids.map (·.1)) {entries : Entries}
    (hne : entries ≠ []) : putAll (through key entries) (.node kids) =
      .node (kids ++ [(key, putAll entries (.node []))]) := by
  cases entries with
  | nil => exact absurd rfl hne
  | cons e entries =>
    have hfirst : put (.key key :: e.1) e.2 (.node kids) =
        .node (kids ++ [(key, put e.1 e.2 (.node []))]) :=
      congrArg FormTree.node (alter_new h _)
    show putAll (through key entries) (put (.key key :: e.1) e.2 _) = _
    rw [hfirst]
    exact putAll_last h entries _

end Put

section Grow

structure Grows (entries : Entries) (tree : Option FormTree) : Prop where
  makes : putAll entries (.node []) = tree.getD (.node [])
  none_iff : entries = [] ↔ tree = none

theorem Grows.none : Grows [] none := ⟨rfl, iff_of_true rfl rfl⟩

theorem Grows.leaf (text : String) : Grows [([], text)] (some (.leaf text)) :=
  ⟨rfl, iff_of_false (cons_ne_nil _ _) (some_ne_none _)⟩

def nodeOf : Kids → Option FormTree
  | [] => Option.none
  | kids => some (.node kids)

def kid (key : String) (tree : Option FormTree) : Kids := (tree.map (key, ·)).toList

variable {tree : Option FormTree} {key : String} {α : Type}

theorem Grows.under {entries : Entries} (h : Grows entries tree) {kids : Kids}
    (hkey : key ∉ kids.map (·.1)) :
    putAll (through key entries) (.node kids) = .node (kids ++ kid key tree) := by
  cases tree with
  | none =>
    rw [h.none_iff.mpr rfl]
    show FormTree.node kids = _
    rw [kid, map_none, toList_none, append_nil]
  | some tree =>
    have hne : entries ≠ [] := fun hnil => some_ne_none _ (h.none_iff.mp hnil)
    rw [putAll_under hkey hne, h.makes]
    rfl

theorem through_eq_nil {entries : Entries} :
    through key entries = [] ↔ entries = [] :=
  map_eq_nil_iff

theorem mem_kid {k : String × FormTree} (h : k ∈ kid key tree) : k.1 = key := by
  cases tree with
  | none => cases h
  | some t => rw [mem_singleton.mp h]

theorem kid_eq_nil : kid key tree = [] ↔ tree = none := by
  cases tree <;> simp [kid]

theorem Grows.node {entries : Entries} {kids : Kids}
    (hmakes : putAll entries (.node []) = .node kids) (hnil : entries = [] ↔ kids = []) :
    Grows entries (nodeOf kids) := by
  cases kids with
  | nil => exact ⟨hmakes, iff_of_true (hnil.mpr rfl) rfl⟩
  | cons kid kids =>
    refine ⟨hmakes, iff_of_false (fun h => ?_) (some_ne_none _)⟩
    cases hnil.mp h

def numbered {α : Type} (n : Nat) : List α → List (String × α)
  | [] => []
  | a :: l => (n.repr, a) :: numbered (n + 1) l

/-- What stands under the keys of a map. -/
def kidsOf {α : Type} (tree : α → Option FormTree) (fields : List (String × α)) : Kids :=
  fields.flatMap fun f => kid f.1 (tree f.2)

theorem mem_numbered {n : Nat} {l : List α} {f : String × α} (h : f ∈ numbered n l) :
    f.2 ∈ l ∧ ∃ i ≥ n, f.1 = i.repr := by
  induction l generalizing n with
  | nil => cases h
  | cons a l ih =>
    rcases mem_cons.mp h with rfl | h
    · exact ⟨mem_cons_self, n, Nat.le_refl n, rfl⟩
    · obtain ⟨hmem, i, hi, hname⟩ := ih h
      exact ⟨mem_cons_of_mem a hmem, i, by omega, hname⟩

theorem exists_numbered (n : Nat) {l : List α} {a : α} (h : a ∈ l) :
    ∃ name, (name, a) ∈ numbered n l := by
  induction l generalizing n with
  | nil => cases h
  | cons b l ih =>
    rcases mem_cons.mp h with rfl | h
    · exact ⟨n.repr, mem_cons_self⟩
    · obtain ⟨name, hname⟩ := ih (n + 1) h
      exact ⟨name, mem_cons_of_mem _ hname⟩

theorem nodup_numbered (n : Nat) (l : List α) : ((numbered n l).map (·.1)).Nodup := by
  induction l generalizing n with
  | nil => exact nodup_nil
  | cons a l ih =>
    rw [numbered, map_cons, nodup_cons]
    refine ⟨fun hmem => ?_, ih (n + 1)⟩
    obtain ⟨f, hf, heq⟩ := mem_map.mp hmem
    obtain ⟨-, i, hi, hname⟩ := mem_numbered hf
    have := Js.nat_repr_injective (hname.symm.trans heq)
    omega

theorem mem_kidsOf {tree : α → Option FormTree} {fields : List (String × α)} {k : String × FormTree}
    (h : k ∈ kidsOf tree fields) : ∃ f ∈ fields, k.1 = f.1 := by
  obtain ⟨f, hf, hk⟩ := mem_flatMap.mp h
  exact ⟨f, hf, mem_kid hk⟩

section Fields

variable {α : Type} (entries : α → Entries) (tree : α → Option FormTree)

theorem putAll_fields {fields : List (String × α)} {kids : Kids}
    (hkeys : (fields.map (·.1)).Nodup)
    (hnew : ∀ f ∈ fields, f.1 ∉ kids.map (·.1))
    (h : ∀ f ∈ fields, Grows (entries f.2) (tree f.2)) :
    putAll (fields.flatMap fun f => through f.1 (entries f.2)) (.node kids) =
      .node (kids ++ kidsOf tree fields) := by
  induction fields generalizing kids with
  | nil =>
    show FormTree.node kids = .node (kids ++ [])
    rw [append_nil]
  | cons f fields ih =>
    rw [map_cons, nodup_cons] at hkeys
    have hfirst := (h f mem_cons_self).under (hnew f mem_cons_self)
    rw [flatMap_cons, putAll_append, hfirst, ih hkeys.2, kidsOf, kidsOf, flatMap_cons, append_assoc]
    · intro g hg hmem
      rw [map_append, mem_append] at hmem
      rcases hmem with hmem | hmem
      · exact hnew g (mem_cons_of_mem f hg) hmem
      · obtain ⟨k, hk, heq⟩ := mem_map.mp hmem
        exact hkeys.1 (mem_map.mpr ⟨g, hg, by rw [← heq, mem_kid hk]⟩)
    · exact fun g hg => h g (mem_cons_of_mem f hg)

theorem putAll_map {fields : List (String × α)} (hkeys : (fields.map (·.1)).Nodup)
    (h : ∀ f ∈ fields, Grows (entries f.2) (tree f.2)) :
    putAll (fields.flatMap fun f => through f.1 (entries f.2)) (.node []) =
      .node (kidsOf tree fields) :=
  putAll_fields entries tree hkeys (fun _ _ => not_mem_nil) h

theorem Grows.fields {fields : List (String × α)} (hkeys : (fields.map (·.1)).Nodup)
    (h : ∀ f ∈ fields, Grows (entries f.2) (tree f.2)) :
    Grows (fields.flatMap fun f => through f.1 (entries f.2)) (nodeOf (kidsOf tree fields)) := by
  refine Grows.node (putAll_map entries tree hkeys h) ?_
  rw [kidsOf, flatMap_eq_nil_iff, flatMap_eq_nil_iff]
  refine forall₂_congr fun f hf => ?_
  rw [through_eq_nil, kid_eq_nil, (h f hf).none_iff]

theorem lookup_kidsOf {fields : List (String × α)} (hkeys : (fields.map (·.1)).Nodup)
    {f : String × α} (hf : f ∈ fields) : (kidsOf tree fields).lookup f.1 = tree f.2 := by
  induction fields with
  | nil => cases hf
  | cons g fields ih =>
    rw [map_cons, nodup_cons] at hkeys
    rw [kidsOf, flatMap_cons, lookup_append]
    rcases mem_cons.mp hf with rfl | hf
    · cases htree : tree f.2 with
      | some t => simp [kid]
      | none =>
        simp only [kid, map_none, toList_none, lookup_nil, none_or]
        refine List.lookup_eq_none_iff.mpr fun k hk => ?_
        obtain ⟨g, hg, hname⟩ := mem_kidsOf hk
        rw [bne_iff_ne, hname]
        rintro heq
        exact hkeys.1 (mem_map.mpr ⟨g, hg, heq.symm⟩)
    · have hne : (f.1 == g.1) = false := by
        rw [beq_eq_false_iff_ne]
        rintro heq
        exact hkeys.1 (mem_map.mpr ⟨f, hf, heq⟩)
      have hskip : (kid g.1 (tree g.2)).lookup f.1 = none := by
        cases tree g.2 with
        | none => rfl
        | some t =>
          show List.lookup f.1 [(g.1, t)] = none
          rw [List.lookup_cons, hne]
          rfl
      rw [hskip, none_or]
      exact ih hkeys.2 hf

end Fields

theorem find_nodeOf (kids : Kids) (key : String) (keys : List String) :
    (nodeOf kids).bind (FormTree.find (key :: keys)) =
      (kids.lookup key).bind (FormTree.find keys) := by
  cases kids <;> rfl

theorem index_not_mem {kids : Kids} {n : Nat}
    (h : ∀ kid ∈ kids, ∃ i < n, kid.1 = i.repr) : n.repr ∉ kids.map (·.1) := by
  intro hmem
  obtain ⟨kid, hkid, heq⟩ := mem_map.mp hmem
  obtain ⟨i, hi, hname⟩ := h kid hkid
  have := Js.nat_repr_injective (hname.symm.trans heq)
  omega

def listed (n : Nat) (texts : List String) : Kids :=
  kidsOf (fun text => some (.leaf text)) (numbered n texts)

theorem listed_map (f : α → String) (n : Nat) (l : List α) :
    listed n (l.map f) = kidsOf (fun a => some (.leaf (f a))) (numbered n l) := by
  induction l generalizing n with
  | nil => rfl
  | cons a l ih =>
    unfold listed kidsOf at ih ⊢
    rw [map_cons, numbered, numbered, flatMap_cons, flatMap_cons, ih]

theorem putAll_items {kids : Kids} (h : ∀ kid ∈ kids, ∃ i < kids.length, kid.1 = i.repr)
    (texts : List String) : putAll (texts.map fun text => ([.append], text)) (.node kids) =
      .node (kids ++ listed kids.length texts) := by
  induction texts generalizing kids with
  | nil =>
    show FormTree.node kids = .node (kids ++ [])
    rw [append_nil]
  | cons text texts ih =>
    have hfirst : put [.append] text (.node kids) =
        .node (kids ++ [(kids.length.repr, .leaf text)]) :=
      congrArg FormTree.node (alter_new (index_not_mem h) _)
    show putAll (texts.map fun text => ([.append], text)) (put [.append] text (.node kids)) = _
    rw [hfirst, ih]
    · rw [append_assoc, length_append]
      rfl
    · intro kid hkid
      rw [length_append]
      rcases mem_append.mp hkid with hkid | hkid
      · obtain ⟨i, hi, hname⟩ := h kid hkid
        exact ⟨i, Nat.lt_add_right _ hi, hname⟩
      · rw [mem_singleton.mp hkid]
        exact ⟨kids.length, Nat.lt_succ_self _, rfl⟩

theorem Grows.items (texts : List String) :
    Grows (texts.map fun text => ([.append], text)) (nodeOf (listed 0 texts)) := by
  refine Grows.node ?_ ?_
  · exact putAll_items (fun kid hkid => absurd hkid not_mem_nil) texts
  · cases texts with
    | nil => exact iff_of_true rfl rfl
    | cons text texts => exact iff_of_false (cons_ne_nil _ _) (cons_ne_nil _ _)

end Grow

/-! ## Keys that are not written -/

section Empty

/-- Nothing is found where a step below the first one is the empty key. -/
def NamedBelow (tree : FormTree) : Prop :=
  ∀ key keys, "" ∈ keys → tree.find (key :: keys) = none

theorem lookup_alter (key name : String) (f : FormTree → FormTree) (kids : Kids) :
    (alter key f kids).lookup name =
      if name = key then some (f ((kids.lookup key).getD (.node []))) else kids.lookup name := by
  induction kids with
  | nil =>
    rw [alter, List.lookup_cons]
    by_cases h : name = key
    · rw [if_pos h, beq_iff_eq.mpr h]
      rfl
    · rw [if_neg h, beq_eq_false_iff_ne.mpr h]
  | cons first kids ih =>
    obtain ⟨other, t⟩ := first
    rw [alter]
    by_cases hother : other = key
    · subst hother
      rw [if_pos rfl, List.lookup_cons, List.lookup_cons, List.lookup_cons, beq_self_eq_true]
      by_cases h : name = other
      · rw [if_pos h, beq_iff_eq.mpr h]
        rfl
      · rw [if_neg h, beq_eq_false_iff_ne.mpr h]
    · have hkey : (key == other) = false := beq_eq_false_iff_ne.mpr fun h => hother h.symm
      rw [if_neg hother, List.lookup_cons, List.lookup_cons, List.lookup_cons, hkey]
      by_cases h : name = other
      · subst h
        rw [beq_self_eq_true, if_neg hother]
      · rw [beq_eq_false_iff_ne.mpr h]
        exact ih

theorem find_put_cons (step : Step) (steps : List Step) (text : String) (tree : FormTree)
    (key : String) (keys : List String) :
    (put (step :: steps) text tree).find (key :: keys) =
      if key = step.under tree.kids then
        (put steps text ((tree.kids.lookup key).getD (.node []))).find keys
      else (tree.kids.lookup key).bind (FormTree.find keys) := by
  rw [put, FormTree.find, lookup_alter]
  by_cases h : key = step.under tree.kids
  · rw [if_pos h, if_pos h, h]
    rfl
  · rw [if_neg h, if_neg h]

theorem find_kids (tree : FormTree) (key : String) (keys : List String) :
    tree.find (key :: keys) = (tree.kids.lookup key).bind (FormTree.find keys) := by
  cases tree <;> rfl

theorem find_put_empty {steps : List Step} (hsteps : ∀ step ∈ steps, step ≠ .key "")
    (text : String) {tree : FormTree} {keys : List String} (hkeys : "" ∈ keys)
    (h : ∀ keys', "" ∈ keys' → tree.find keys' = none) :
    (put steps text tree).find keys = none := by
  induction steps generalizing tree keys with
  | nil =>
    cases keys with
    | nil => cases hkeys
    | cons key keys => rfl
  | cons step steps ih =>
    cases keys with
    | nil => cases hkeys
    | cons key keys =>
      have hrest := h (key :: keys) hkeys
      rw [find_put_cons]
      rw [find_kids] at hrest
      split
      · next hkey =>
        have hempty : key ≠ "" := by
          rintro rfl
          cases step with
          | key name => exact hsteps (.key name) mem_cons_self (by rw [hkey]; rfl)
          | append => exact Nat.repr_ne_empty hkey.symm
        have hkeys' : "" ∈ keys := (mem_cons.mp hkeys).resolve_left fun h => hempty h.symm
        refine ih (fun other hother => hsteps other (mem_cons_of_mem step hother)) hkeys' ?_
        intro keys' hmem
        have hnone := h (key :: keys') (mem_cons_of_mem key hmem)
        rw [find_kids] at hnone
        cases hlookup : tree.kids.lookup key with
        | none =>
          cases keys' with
          | nil => cases hmem
          | cons key' keys' => rfl
        | some kid =>
          rw [hlookup] at hnone
          exact hnone
      · exact hrest

theorem namedBelow_putAll {entries : Entries} {tree : FormTree} (htree : NamedBelow tree)
    (h : ∀ e ∈ entries, ∃ key steps, e.1 = .key key :: steps ∧ ∀ step ∈ steps, step ≠ .key "") :
    NamedBelow (putAll entries tree) := by
  induction entries generalizing tree with
  | nil => exact htree
  | cons e entries ih =>
    refine ih ?_ fun other hother => h other (mem_cons_of_mem e hother)
    obtain ⟨name, steps, heq, hsteps⟩ := h e mem_cons_self
    intro key keys hkeys
    have hrest := htree key
    simp only [find_kids] at hrest
    show (put e.1 e.2 tree).find (key :: keys) = none
    rw [heq, find_put_cons]
    split
    · refine find_put_empty hsteps e.2 hkeys fun keys' hmem => ?_
      have hnone := hrest keys' hmem
      cases hlookup : tree.kids.lookup key with
      | none =>
        cases keys' with
        | nil => cases hmem
        | cons key' keys' => rfl
      | some kid =>
        rw [hlookup] at hnone
        exact hnone
    · exact hrest keys hkeys

end Empty

/-! ## Names in brackets -/

/-- `[a][b]` -/
def bracketed (names : List String) : String :=
  String.ofList (names.flatMap fun name => '[' :: (name.toList ++ [']']))

def readSteps (step : String → Step) (text : List Char) : List Step :=
  (text.splitOn ']').dropLast.map fun piece => step (String.ofList (piece.drop 1))

def readPath (step : String → Step) (name : String) : List Step :=
  .key (String.ofList (name.toList.takeWhile (· != '['))) ::
    readSteps step (name.toList.dropWhile (· != '['))

def BracketFree (name : String) : Prop := '[' ∉ name.toList ∧ ']' ∉ name.toList

instance : DecidablePred BracketFree := fun _ => inferInstanceAs (Decidable (_ ∧ _))

theorem readSteps_bracketed (step : String → Step) {names : List String}
    (h : ∀ name ∈ names, ']' ∉ name.toList) :
    readSteps step (bracketed names).toList = names.map step := by
  rw [bracketed, String.toList_ofList]
  have hne : ∀ names : List String,
      (names.flatMap fun name => '[' :: (name.toList ++ [']'])).splitOn ']' ≠ [] :=
    fun names => splitOn_ne_nil _ _
  induction names with
  | nil => rfl
  | cons name names ih =>
    have hname : ']' ∉ '[' :: name.toList := by
      rw [mem_cons, not_or]
      exact ⟨by decide, h name mem_cons_self⟩
    have hrest := ih fun other hother => h other (mem_cons_of_mem _ hother)
    rw [readSteps] at hrest ⊢
    rw [flatMap_cons, cons_append, append_assoc, ← cons_append,
      singleton_append, splitOn_append_cons_self_of_not_mem hname,
      dropLast_cons_of_ne_nil (hne names), map_cons, hrest]
    show step (String.ofList name.toList) :: _ = _
    rw [String.ofList_toList, map_cons]

theorem readPath_bracketed (step : String → Step) {name : String} {names : List String}
    (hname : '[' ∉ name.toList) (h : ∀ inner ∈ names, ']' ∉ inner.toList) :
    readPath step (name ++ bracketed names) = .key name :: names.map step := by
  have hall : ∀ c ∈ name.toList, (c != '[') = true := by
    intro c hc
    rw [bne_iff_ne]
    rintro rfl
    exact hname hc
  have hsteps := readSteps_bracketed step h
  rw [bracketed, String.toList_ofList] at hsteps
  rw [readPath, bracketed, String.toList_append, String.toList_ofList,
    takeWhile_append_of_pos hall, dropWhile_append_of_pos hall]
  cases names with
  | nil => simp [readSteps, String.ofList_toList]
  | cons inner names =>
    rw [flatMap_cons, cons_append] at hsteps ⊢
    rw [takeWhile_cons_of_neg (by decide), dropWhile_cons_of_neg (by decide), hsteps,
      append_nil, String.ofList_toList]

theorem bracketed_cons (name : String) (names : List String) :
    bracketed (name :: names) = ("[" ++ name ++ "]") ++ bracketed names := by
  apply String.toList_injective
  simp [bracketed, String.toList_append]

end Almyty.Lib.Form
