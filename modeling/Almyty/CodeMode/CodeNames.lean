import Almyty.Lib.JsKeys
import Almyty.Lib.Loop
import Almyty.Lib.StableSort
import Almyty.Security.UntrustedText

/-!
# How a script calls a tool: `tool-discovery/tool-signature.ts`, `code-mode/code-broker.ts`

Every tool of a scope gets a namespace, after the API it comes from, and the name of a function in
it. Names come from imported documents: they are folded to camel case, made identifiers, and told
apart by a number where one is taken. The broker lists the functions of each namespace, and finds a
tool by its code name.

All of it holds for any names but one: an API may be called `constructor`. The broker lists the
functions in an object, and for the name of something every object has, it takes that for a list it
began before. `code_names_iff` says that this is all that goes wrong.
-/

namespace Almyty.CodeMode

open Almyty.Lib List
open Almyty.Common (CodeUnit Text ascii)
open Almyty.Security (foldCase)
open Almyty.Security.UntrustedText (IsId alnum_clean isAlnum isIdUnit isId_jsIdentifier isId_of_all
  jsIdentifier jsIdentifier_cases of_plainUnit plainUnit_of_alnum singleLine singleLine_alnum)
open Function (update update_self update_of_ne)

local instance : BEq Text := instBEqOfDecidableEq

inductive SideEffect
  | read
  | write
  | destructive
  deriving DecidableEq

structure NameableTool where
  id : Text
  name : Text
  /-- `tool.api?.name` -/
  apiName : Option Text := none
  /-- `metadata.sourceApi?.name` -/
  sourceApiName : Option Text := none
  /-- `metadata.mcpSource?.name` -/
  mcpSourceName : Option Text := none
  /-- `tool.operation?.operationId` -/
  operationId : Option Text := none
  /-- `metadata.sourceOperation?.operationId` -/
  sourceOperationId : Option Text := none
  /-- `configuration?.mcp?.remoteName` -/
  remoteName : Option Text := none
  /-- What the tool does to data, which only the broker reads. -/
  sideEffect : Option SideEffect := none
  deriving DecidableEq

structure CodeName where
  ns : Text
  fn : Text
  deriving DecidableEq

/-! ## Names -/

def isUpper (c : CodeUnit) : Bool := 65 ≤ c && c ≤ 90

def isLowerOrDigit (c : CodeUnit) : Bool := (97 ≤ c && c ≤ 122) || (48 ≤ c && c ≤ 57)

def upperCase (c : CodeUnit) : CodeUnit := if 97 ≤ c ∧ c ≤ 122 then c - 32 else c

def spaced : Text → Text
  | c :: d :: rest =>
    if isLowerOrDigit c && isUpper d then c :: 32 :: spaced (d :: rest) else c :: spaced (d :: rest)
  | text => text

/-- `.split(/[^A-Za-z0-9]+/).filter(Boolean)`. -/
def words (text : Text) : List Text := (text.splitOnP fun c => !isAlnum c).filter (· ≠ [])

def camel (text : Text) : Text :=
  match words (spaced text) with
  | [] => []
  | first :: rest =>
    (first.take 1).map foldCase ++ first.drop 1 ++
      rest.flatMap fun p => (p.take 1).map upperCase ++ p.drop 1

def CODE_GLOBALS : List Text :=
  ["tools", "log", "extract", "console", "ToolError", "context"].map ascii

def sourceOf (tool : NameableTool) : Option Text :=
  tool.apiName <|> tool.sourceApiName <|> tool.mcpSourceName

def namespaceOf (tool : NameableTool) : Text :=
  match sourceOf tool with
  | none => ascii "custom"
  | some source =>
    if source = [] then ascii "custom"
    else
      let name := jsIdentifier (camel source) (ascii "custom")
      if CODE_GLOBALS.contains name then name ++ ascii "Api" else name

/-- `[_\-.]`. -/
def isJoint (c : CodeUnit) : Bool := c = 95 || c = 45 || c = 46

/-- `petstore_find_pets_by_status` under `petstore` is `find_pets_by_status`. -/
def dropPrefix (ns base : Text) : Text :=
  let front := ns.filter isAlnum
  let rest := base.drop front.length
  if (base.take front.length).map foldCase = front.map foldCase ∧ rest.head?.any isJoint then
    rest.dropWhile isJoint
  else base

def functionNameOf (tool : NameableTool) (ns : Text) : Text :=
  let operation := tool.operationId <|> tool.sourceOperationId <|> tool.remoteName
  let base := operation.elim (dropPrefix ns tool.name) fun op =>
    if op = [] then dropPrefix ns tool.name else op
  jsIdentifier (camel base) (ascii "call")

/-! ## Telling names apart -/

def units (text : Text) : List Nat := text.map UInt16.toNat

def Before (a b : NameableTool) : Prop :=
  if a.name = b.name then units a.id < units b.id else units a.name < units b.name

instance (a b : NameableTool) : Decidable (Before a b) := inferInstanceAs (Decidable (ite _ _ _))

/-- The functions every namespace of the sandbox has. -/
def OWN_FUNCTIONS : List Text := ["search", "get", "call"].map ascii

/-- The names that are tried: `get`, `get2`, `get3`. -/
def suffixed (base : Text) (n : Nat) : Text :=
  if n = 0 then base else base ++ ascii (n + 1).repr

def attempt (used : List Text) (base : Text) (n : Nat) : Loop.Turn Nat Text :=
  let fn := suffixed base n
  if used.contains fn || OWN_FUNCTIONS.contains fn then .again (n + 1) else .done fn

def freshName (used : List Text) (base : Text) : Option Text :=
  Loop.run (attempt used base) (used.length + 4) 0

structure Naming where
  taken : Text → List Text := fun _ => []
  names : List (Text × CodeName) := []

def nameTool (s : Naming) (tool : NameableTool) : Option Naming :=
  let ns := namespaceOf tool
  (freshName (s.taken ns) (functionNameOf tool ns)).map fun fn =>
    { taken := update s.taken ns (s.taken ns ++ [fn]),
      names := Assoc.put s.names tool.id { ns, fn } }

def ordered (tools : List NameableTool) : List NameableTool :=
  tools.insertionSort fun a b => ¬ Before b a

def codeNames (tools : List NameableTool) : Option (List (Text × CodeName)) :=
  ((ordered tools).foldlM nameTool {}).map Naming.names

/-! ## The broker -/

def inheritedNames : List Text := Js.objectPrototype.map ascii

def listFunction (out : List (Text × List Text)) (name : CodeName) :
    Option (List (Text × List Text)) :=
  match out.lookup name.ns with
  | some fns => some (Assoc.put out name.ns (fns ++ [name.fn]))
  | none =>
    -- what is inherited is no list: there is nothing to push to
    if inheritedNames.contains name.ns then none else some (Assoc.put out name.ns [name.fn])

def sortTexts (texts : List Text) : List Text := texts.insertionSort fun a b => units a ≤ units b

def namespaces (names : List (Text × CodeName)) : Option (List (Text × List Text)) :=
  ((names.map Prod.snd).foldlM listFunction []).map fun out =>
    out.map fun e => (e.1, sortTexts e.2)

def CodeName.text (name : CodeName) : Text := name.ns ++ 46 :: name.fn

/-- The map of the broker's constructor. -/
def byCodeName (names : List (Text × CodeName)) (scope : List NameableTool) :
    Option (List (Text × NameableTool)) :=
  (scope.mapM fun tool => (names.lookup tool.id).map fun name => (name.text, tool)).map
    (Assoc.putAll [])

def resolve (codes : List (Text × NameableTool)) (scope : List NameableTool) (name : Text) :
    Option NameableTool :=
  codes.lookup name <|> scope.find? (·.name = name)

/-! ## Identifiers -/

section Identifiers

theorem isId_namespaceOf (tool : NameableTool) : IsId (namespaceOf tool) := by
  have hcustom : IsId (ascii "custom") := isId_of_all (by decide)
  rw [namespaceOf]
  split
  · exact hcustom
  · dsimp only
    split
    · exact hcustom
    · split
      · exact (isId_jsIdentifier _ hcustom).append (isId_of_all (by decide))
      · exact isId_jsIdentifier _ hcustom

theorem isId_functionNameOf (tool : NameableTool) (ns : Text) : IsId (functionNameOf tool ns) := by
  have hcall : IsId (ascii "call") := isId_of_all (by decide)
  rw [functionNameOf]
  exact isId_jsIdentifier _ hcall

theorem namespaceOf_not_global (tool : NameableTool) : namespaceOf tool ∉ CODE_GLOBALS := by
  rw [namespaceOf]
  split
  · decide
  · dsimp only
    split
    · decide
    · split
      · rename_i name hglobal
        have hall : ∀ g ∈ CODE_GLOBALS, g ++ ascii "Api" ∉ CODE_GLOBALS :=
          Js.forall_mem_of_all (by decide)
        exact hall _ (contains_iff_mem.mp hglobal)
      · rename_i name hglobal
        exact fun h => hglobal (contains_iff_mem.mpr h)

theorem ascii_repr_unit {n : Nat} : ∀ c ∈ n.repr.toList, c.toNat < 128 ∧ isIdUnit c.toNat.toUInt16 := by
  intro c hc
  rw [Nat.toList_repr] at hc
  have hdigit : c.isDigit = true := Nat.isDigit_of_mem_toDigits (by decide) (by decide) hc
  have hrange : 48 ≤ c.toNat ∧ c.toNat ≤ 57 := Js.digit_toNat hdigit
  have hall : ∀ m < 58, 48 ≤ m → isIdUnit (Nat.toUInt16 m) = true := by decide
  exact ⟨by omega, hall c.toNat (by omega) hrange.1⟩

theorem isId_repr (n : Nat) : IsId (ascii n.repr) := by
  intro c hc
  obtain ⟨d, hd, rfl⟩ := mem_map.mp hc
  exact (ascii_repr_unit d hd).2

theorem isId_suffixed {base : Text} (h : IsId base) (n : Nat) : IsId (suffixed base n) := by
  rw [suffixed]
  split
  · exact h
  · exact h.append (isId_repr (n + 1))

end Identifiers

/-! ## Fresh names -/

section Fresh

theorem ascii_repr_injective {m n : Nat} (h : ascii m.repr = ascii n.repr) : m = n := by
  have hlist : m.repr.toList = n.repr.toList := by
    have hchars : ∀ (a b : List Char), (∀ c ∈ a, c.toNat < 128) → (∀ c ∈ b, c.toNat < 128) →
        a.map (·.toNat.toUInt16) = b.map (·.toNat.toUInt16) → a = b := by
      intro a
      induction a with
      | nil =>
        intro b _ _ h
        exact (map_eq_nil_iff.mp h.symm).symm
      | cons c a ih =>
        intro b ha hb h
        cases b with
        | nil => cases h
        | cons d b =>
          obtain ⟨hcd, hrest⟩ := List.cons.inj h
          have hc := ha c mem_cons_self
          have hd := hb d mem_cons_self
          have hnat : c.toNat = d.toNat := by
            have hto := congrArg UInt16.toNat hcd
            change (UInt16.ofNat c.toNat).toNat = (UInt16.ofNat d.toNat).toNat at hto
            rwa [UInt16.toNat_ofNat_of_lt' (Nat.lt_trans hc (by decide)),
              UInt16.toNat_ofNat_of_lt' (Nat.lt_trans hd (by decide))] at hto
          rw [ih b (fun e he => ha e (mem_cons_of_mem c he))
            (fun e he => hb e (mem_cons_of_mem d he)) hrest]
          rw [← Char.ofNat_toNat c, hnat, Char.ofNat_toNat]
    exact hchars _ _ (fun c hc => (ascii_repr_unit c hc).1) (fun c hc => (ascii_repr_unit c hc).1) h
  exact Js.nat_repr_injective (String.toList_injective hlist)

theorem suffixed_injective (base : Text) : Function.Injective (suffixed base) := by
  have hne (n : Nat) : ascii (n + 1).repr ≠ [] := by
    intro h
    have hlist : (n + 1).repr.toList = [] := map_eq_nil_iff.mp h
    rw [Nat.toList_repr] at hlist
    exact Nat.toDigits_ne_nil hlist
  intro m n h
  unfold suffixed at h
  split at h <;> split at h
  · omega
  · exact absurd (self_eq_append_right.mp h) (hne n)
  · exact absurd (append_right_eq_self.mp h) (hne m)
  · have hsuccessor := ascii_repr_injective (append_cancel_left h)
    omega

theorem freshName_spec (used : List Text) (base : Text) : ∃ fn, freshName used base = some fn ∧
    fn ∉ used ∧ fn ∉ OWN_FUNCTIONS ∧ ∃ n, fn = suffixed base n := by
  have hturn (n : Nat) :
      (attempt used base n = .done (suffixed base n) ∧ suffixed base n ∉ used ++ OWN_FUNCTIONS) ∨
        (attempt used base n = .again (n + 1) ∧ suffixed base n ∈ used ++ OWN_FUNCTIONS) := by
    rw [attempt]
    by_cases htaken : suffixed base n ∈ used ++ OWN_FUNCTIONS
    · refine .inr ⟨if_pos ?_, htaken⟩
      rcases mem_append.mp htaken with h | h
      · rw [contains_iff_mem.mpr h, Bool.true_or]
      · rw [contains_iff_mem.mpr h, Bool.or_true]
    · refine .inl ⟨if_neg ?_, htaken⟩
      rw [mem_append, not_or] at htaken
      simp [htaken.1, htaken.2]
  have hfuel : (used ++ OWN_FUNCTIONS).length < used.length + 4 := by simp [OWN_FUNCTIONS]
  obtain ⟨fn, hrun, hfree, hname⟩ := Loop.run_fresh (suffixed_injective base) _ hturn hfuel
  rw [mem_append, not_or] at hfree
  exact ⟨fn, hrun, hfree.1, hfree.2, hname⟩

end Fresh

/-! ## The loop over the tools -/

section Loop

structure Named (s : Naming) (done : List NameableTool) : Prop where
  ids : s.names.map Prod.fst = done.map (·.id)
  named : ∀ tool ∈ done, ∃ fn, s.names.lookup tool.id = some ⟨namespaceOf tool, fn⟩
  unique : (s.names.map Prod.snd).Nodup
  taken : ∀ e ∈ s.names, e.2.fn ∈ s.taken e.2.ns
  isId : ∀ e ∈ s.names, IsId e.2.ns ∧ IsId e.2.fn

theorem named_nil : Named {} [] where
  ids := rfl
  named := fun _ h => absurd h not_mem_nil
  unique := nodup_nil
  taken := fun _ h => absurd h not_mem_nil
  isId := fun _ h => absurd h not_mem_nil

theorem nameTool_spec {s : Naming} {done : List NameableTool} (h : Named s done)
    {tool : NameableTool} (hnew : tool.id ∉ done.map (·.id)) :
    ∃ s', nameTool s tool = some s' ∧ Named s' (done ++ [tool]) := by
  obtain ⟨fn, hfn, hfree, -, n, hname⟩ :=
    freshName_spec (s.taken (namespaceOf tool)) (functionNameOf tool (namespaceOf tool))
  have hkey : tool.id ∉ Assoc.keys s.names := by
    rw [Assoc.keys, h.ids]
    exact hnew
  have hput := Assoc.put_of_not_mem hkey (⟨namespaceOf tool, fn⟩ : CodeName)
  have hisId : IsId fn := by
    rw [hname]
    exact isId_suffixed (isId_functionNameOf tool _) n
  have hunused : (⟨namespaceOf tool, fn⟩ : CodeName) ∉ s.names.map Prod.snd := by
    intro hmem
    obtain ⟨e, he, heq⟩ := mem_map.mp hmem
    have htaken := h.taken e he
    rw [heq] at htaken
    exact hfree htaken
  refine ⟨_, by rw [nameTool, hfn]; rfl, ?_, ?_, ?_, ?_, ?_⟩ <;> dsimp only <;> rw [hput]
  · rw [map_append, map_append, h.ids]
    rfl
  · intro tool' htool'
    rcases mem_append.mp htool' with hmem | hmem
    · obtain ⟨fn', hlookup⟩ := h.named tool' hmem
      exact ⟨fn', by rw [lookup_append, hlookup]; rfl⟩
    · obtain rfl := mem_singleton.mp hmem
      have hnone : s.names.lookup tool'.id = none := (Assoc.lookup_eq_none_iff _ _).mpr hkey
      refine ⟨fn, ?_⟩
      rw [lookup_append, hnone, Option.none_or, Assoc.lookup_cons, if_pos rfl]
  · rw [map_append]
    refine nodup_append.mpr ⟨h.unique, nodup_singleton _, ?_⟩
    rintro a ha b hb rfl
    obtain rfl := mem_singleton.mp hb
    exact hunused ha
  · intro e he
    rcases mem_append.mp he with he | he
    · by_cases hns : e.2.ns = namespaceOf tool
      · rw [hns, update_self, ← hns]
        exact mem_append_left _ (h.taken e he)
      · rw [update_of_ne hns]
        exact h.taken e he
    · obtain rfl := mem_singleton.mp he
      rw [update_self]
      exact mem_append_right _ mem_cons_self
  · intro e he
    rcases mem_append.mp he with he | he
    · exact h.isId e he
    · obtain rfl := mem_singleton.mp he
      exact ⟨isId_namespaceOf tool, hisId⟩

theorem nameAll_spec {s : Naming} {done rest : List NameableTool} (h : Named s done)
    (hids : ((done ++ rest).map (·.id)).Nodup) :
    ∃ s', rest.foldlM nameTool s = some s' ∧ Named s' (done ++ rest) := by
  induction rest generalizing s done with
  | nil => exact ⟨s, rfl, by rwa [append_nil]⟩
  | cons tool rest ih =>
    have hnew : tool.id ∉ done.map (·.id) := by
      rw [map_append, nodup_append] at hids
      exact fun hmem => hids.2.2 _ hmem _ mem_cons_self rfl
    obtain ⟨s', hstep, hs'⟩ := nameTool_spec h hnew
    obtain ⟨s'', hrest, hs''⟩ := ih hs' (by rwa [append_assoc])
    refine ⟨s'', ?_, by rwa [append_assoc] at hs''⟩
    rw [foldlM_cons, hstep]
    exact hrest

/-! ### The order of the list -/

theorem units_injective {a b : Text} (h : units a = units b) : a = b :=
  map_injective_iff.mpr (fun _ _ => UInt16.toNat_inj.mp) h

theorem not_before_iff {a b : NameableTool} : ¬ Before b a ↔
    units a.name < units b.name ∨ (units a.name = units b.name ∧ units a.id ≤ units b.id) := by
  rw [Before]
  by_cases hname : b.name = a.name
  · have hunits : units a.name = units b.name := by rw [hname]
    rw [if_pos hname]
    constructor
    · exact fun h => .inr ⟨hunits, le_of_not_gt h⟩
    · rintro (h | ⟨-, h⟩)
      · rw [hunits] at h
        exact absurd h (lt_irrefl _)
      · exact not_lt_of_ge h
  · have hne : units a.name ≠ units b.name := fun h => hname (units_injective h).symm
    rw [if_neg hname]
    constructor
    · exact fun h => .inl (lt_of_le_of_ne (le_of_not_gt h) hne)
    · rintro (h | ⟨h, -⟩)
      · exact not_lt_of_gt h
      · exact absurd h hne

instance : Std.Total fun a b : NameableTool => ¬ Before b a :=
  ⟨fun a b => by
    rw [not_before_iff, not_before_iff]
    rcases lt_trichotomy (units a.name) (units b.name) with h | h | h
    · exact .inl (.inl h)
    · rcases le_total (units a.id) (units b.id) with hid | hid
      · exact .inl (.inr ⟨h, hid⟩)
      · exact .inr (.inr ⟨h.symm, hid⟩)
    · exact .inr (.inl h)⟩

instance : IsTrans NameableTool fun a b => ¬ Before b a :=
  ⟨fun a b c => by
    rw [not_before_iff, not_before_iff, not_before_iff]
    rintro (hab | ⟨hab, hidab⟩) (hbc | ⟨hbc, hidbc⟩)
    · exact .inl (lt_trans hab hbc)
    · exact .inl (by rwa [← hbc])
    · exact .inl (by rwa [hab])
    · exact .inr ⟨hab.trans hbc, le_trans hidab hidbc⟩⟩

variable {scope : List NameableTool}

theorem tool_of_id (hids : (scope.map (·.id)).Nodup) {a b : NameableTool} (ha : a ∈ scope)
    (hb : b ∈ scope) (h : a.id = b.id) : a = b :=
  inj_on_of_nodup_map hids ha hb h

theorem codeNames_perm {scope' : List NameableTool} (hids : (scope.map (·.id)).Nodup)
    (h : scope.Perm scope') : codeNames scope = codeNames scope' := by
  rw [codeNames, codeNames, ordered, ordered, Js.insertionSort_eq_of_perm ?_ h]
  intro a ha b hb hab hba
  rw [not_before_iff] at hab hba
  have hid : units a.id = units b.id := by
    rcases hab with hab | ⟨hname, hab⟩
    · rcases hba with hba | ⟨hname, -⟩
      · exact absurd hba (not_lt_of_gt hab)
      · rw [hname] at hab
        exact absurd hab (lt_irrefl _)
    · rcases hba with hba | ⟨-, hba⟩
      · rw [hname] at hba
        exact absurd hba (lt_irrefl _)
      · exact le_antisymm hab hba
  exact tool_of_id hids ha hb (units_injective hid)

theorem codeNames_spec (hids : (scope.map (·.id)).Nodup) :
    ∃ s sorted, sorted.Perm scope ∧ codeNames scope = some s.names ∧ Named s sorted := by
  have hperm : (ordered scope).Perm scope := perm_insertionSort _ scope
  have hsorted : (([] ++ ordered scope).map NameableTool.id).Nodup := (hperm.map _).nodup_iff.mpr hids
  obtain ⟨s, hfold, hs⟩ := nameAll_spec named_nil hsorted
  refine ⟨s, _, hperm, ?_, hs⟩
  rw [codeNames, hfold]
  rfl

end Loop

/-! ## The list of functions -/

section Listing

def listed (out : List (Text × List Text)) : List CodeName :=
  out.flatMap fun e => e.2.map fun fn => ⟨e.1, fn⟩

variable {out : List (Text × List Text)}

theorem listed_put_new {ns fn : Text} (h : out.lookup ns = none) :
    listed (Assoc.put out ns [fn]) = listed out ++ [⟨ns, fn⟩] := by
  rw [Assoc.put_of_not_mem ((Assoc.lookup_eq_none_iff _ _).mp h), listed, flatMap_append]
  rfl

theorem listed_put {ns fn : Text} {fns : List Text} (h : out.lookup ns = some fns) :
    (listed (Assoc.put out ns (fns ++ [fn]))).Perm (listed out ++ [⟨ns, fn⟩]) := by
  induction out with
  | nil => cases h
  | cons e out ih =>
    obtain ⟨ns', fns'⟩ := e
    rw [Assoc.lookup_cons] at h
    by_cases hns : ns = ns'
    · subst hns
      rw [if_pos rfl] at h
      obtain rfl := Option.some.inj h
      rw [Assoc.put, if_pos rfl, listed, flatMap_cons, map_append, listed,
        flatMap_cons, append_assoc, append_assoc]
      exact List.Perm.append_left _ perm_append_comm
    · rw [if_neg hns] at h
      rw [Assoc.put, if_neg (Ne.symm hns), listed, flatMap_cons, listed, flatMap_cons, append_assoc]
      exact List.Perm.append_left _ (ih h)

structure Listing (out : List (Text × List Text)) (done : List CodeName) : Prop where
  keys : (Assoc.keys out).Nodup
  own : ∀ ns ∈ Assoc.keys out, ns ∉ inheritedNames
  perm : (listed out).Perm done

theorem listFunction_spec {done : List CodeName} (h : Listing out done) (name : CodeName) :
    (name.ns ∈ inheritedNames ∧ listFunction out name = none) ∨
    (name.ns ∉ inheritedNames ∧
      ∃ out', listFunction out name = some out' ∧ Listing out' (done ++ [name])) := by
  rw [listFunction]
  cases hlookup : out.lookup name.ns with
  | some fns =>
    have hmem : name.ns ∈ Assoc.keys out := by
      rw [← Assoc.lookup_isSome_iff, hlookup]
      rfl
    have hown := h.own _ hmem
    refine .inr ⟨hown, _, rfl, Assoc.put_keys_nodup h.keys _ _, fun ns hns => ?_, ?_⟩
    · rw [Assoc.keys_put, if_pos hmem] at hns
      exact h.own ns hns
    · exact (listed_put hlookup).trans (h.perm.append_right _)
  | none =>
    dsimp only
    by_cases hinherited : name.ns ∈ inheritedNames
    · exact .inl ⟨hinherited, if_pos (contains_iff_mem.mpr hinherited)⟩
    · rw [if_neg fun hc => hinherited (contains_iff_mem.mp hc)]
      have hnot : name.ns ∉ Assoc.keys out := (Assoc.lookup_eq_none_iff _ _).mp hlookup
      refine .inr ⟨hinherited, _, rfl, Assoc.put_keys_nodup h.keys _ _, fun ns hns => ?_, ?_⟩
      · rw [Assoc.keys_put, if_neg hnot] at hns
        rcases mem_append.mp hns with hns | hns
        · exact h.own ns hns
        · rw [mem_singleton.mp hns]
          exact hinherited
      · rw [listed_put_new hlookup]
        exact h.perm.append_right _

theorem listAll_spec {done : List CodeName} (h : Listing out done) (names : List CodeName) :
    ((∃ name ∈ names, name.ns ∈ inheritedNames) ∧ names.foldlM listFunction out = none) ∨
    ((∀ name ∈ names, name.ns ∉ inheritedNames) ∧
      ∃ out', names.foldlM listFunction out = some out' ∧ Listing out' (done ++ names)) := by
  induction names generalizing out done with
  | nil => exact .inr ⟨fun _ hmem => absurd hmem not_mem_nil, out, rfl, by rwa [append_nil]⟩
  | cons name names ih =>
    rw [foldlM_cons]
    rcases listFunction_spec h name with ⟨hinherited, hstep⟩ | ⟨hown, out', hstep, h'⟩
    · rw [hstep]
      exact .inl ⟨⟨name, mem_cons_self, hinherited⟩, rfl⟩
    · rw [hstep]
      rcases ih h' with ⟨⟨other, hmem, hinherited⟩, hrest⟩ | ⟨hrest, out'', hfold, h''⟩
      · exact .inl ⟨⟨other, mem_cons_of_mem _ hmem, hinherited⟩, hrest⟩
      · rw [append_assoc] at h''
        exact .inr ⟨forall_mem_cons.mpr ⟨hown, hrest⟩, out'', hfold, h''⟩

theorem namespaces_spec (names : List (Text × CodeName)) :
    ((∃ e ∈ names, e.2.ns ∈ inheritedNames) ∧ namespaces names = none) ∨
    ((∀ e ∈ names, e.2.ns ∉ inheritedNames) ∧ ∃ out, namespaces names = some out ∧
      (Assoc.keys out).Nodup ∧ (listed out).Perm (names.map Prod.snd)) := by
  have hstart : Listing [] [] := ⟨nodup_nil, fun _ h => absurd h not_mem_nil, .nil⟩
  rcases listAll_spec hstart (names.map Prod.snd) with
    ⟨⟨name, hmem, hinherited⟩, hfold⟩ | ⟨hown, out, hfold, h⟩
  · obtain ⟨e, he, rfl⟩ := mem_map.mp hmem
    refine .inl ⟨⟨e, he, hinherited⟩, ?_⟩
    rw [namespaces, hfold]
    rfl
  · refine .inr ⟨fun e he => hown e.2 (mem_map_of_mem he), _, by rw [namespaces, hfold]; rfl,
      ?_, ?_⟩
    · rw [Assoc.keys, map_map]
      exact h.keys
    · rw [listed, flatMap_map]
      refine List.Perm.trans ?_ h.perm
      refine List.Perm.flatMap_left _ fun e _ => ?_
      exact (perm_insertionSort _ e.2).map _

end Listing

/-! ## Finding a tool -/

section Resolving

theorem dot_not_mem {text : Text} (h : IsId text) : (46 : CodeUnit) ∉ text := by
  intro hmem
  have hdot : isIdUnit 46 = false := by decide
  rw [h 46 hmem] at hdot
  cases hdot

theorem codeText_injective {a b : CodeName} (ha : IsId a.ns) (hb : IsId b.ns)
    (h : a.text = b.text) : a = b := by
  have htake {ns rest : Text} (hns : IsId ns) : (ns ++ 46 :: rest).takeWhile (· ≠ 46) = ns := by
    rw [takeWhile_append_of_pos]
    · simp
    · intro c hc
      exact decide_eq_true fun heq => dot_not_mem hns (heq ▸ hc)
  have hns : a.ns = b.ns := by
    have hfront := congrArg (List.takeWhile (· ≠ 46)) h
    rwa [CodeName.text, CodeName.text, htake ha, htake hb] at hfront
  have hfn : a.fn = b.fn := by
    rw [CodeName.text, CodeName.text, hns] at h
    exact (List.cons.inj (append_cancel_left h)).2
  cases a
  cases b
  exact congr (congrArg CodeName.mk hns) hfn

theorem entries_spec (names : List (Text × CodeName)) {scope : List NameableTool}
    (h : ∀ tool ∈ scope, ∃ name, names.lookup tool.id = some name) :
    ∃ entries, (scope.mapM fun tool => (names.lookup tool.id).map fun name => (name.text, tool)) =
      some entries ∧ entries.map Prod.snd = scope ∧
      ∀ e ∈ entries, ∃ name, names.lookup e.2.id = some name ∧ e.1 = name.text := by
  induction scope with
  | nil => exact ⟨[], rfl, rfl, fun _ h => absurd h not_mem_nil⟩
  | cons tool scope ih =>
    obtain ⟨entries, hmap, hsnd, hentries⟩ := ih fun t ht => h t (mem_cons_of_mem tool ht)
    obtain ⟨name, hname⟩ := h tool mem_cons_self
    refine ⟨(name.text, tool) :: entries, ?_, by rw [map_cons, hsnd], ?_⟩
    · rw [mapM_cons, hname, hmap]
      rfl
    · exact forall_mem_cons.mpr ⟨⟨name, hname, rfl⟩, hentries⟩

theorem Named.distinct {s : Naming} {done : List NameableTool} (h : Named s done) {i j : Text}
    {name : CodeName} (hi : s.names.lookup i = some name) (hj : s.names.lookup j = some name) :
    i = j := by
  have heq := inj_on_of_nodup_map h.unique (Assoc.mem_of_lookup hi) (Assoc.mem_of_lookup hj) rfl
  exact congrArg Prod.fst heq

theorem resolve_spec {s : Naming} {done scope : List NameableTool} (h : Named s done)
    (hperm : done.Perm scope) (hids : (scope.map (·.id)).Nodup) :
    ∃ codes, byCodeName s.names scope = some codes ∧ ∀ tool ∈ scope, ∀ name,
      s.names.lookup tool.id = some name → resolve codes scope name.text = some tool := by
  obtain ⟨entries, hmap, hsnd, hentries⟩ := entries_spec s.names
    fun tool htool => by
      obtain ⟨fn, hfn⟩ := h.named tool (hperm.symm.subset htool)
      exact ⟨_, hfn⟩
  have hkeys : (Assoc.keys entries).Nodup := by
    have hscope : scope.Nodup := List.Nodup.of_map _ hids
    refine List.Nodup.map_on (fun e he e' he' htext => ?_)
      (List.Nodup.of_map Prod.snd (by rwa [hsnd]))
    obtain ⟨name, hname, hcode⟩ := hentries e he
    obtain ⟨name', hname', hcode'⟩ := hentries e' he'
    have heq : name = name' := by
      refine codeText_injective (h.isId _ (Assoc.mem_of_lookup hname)).1
        (h.isId _ (Assoc.mem_of_lookup hname')).1 ?_
      rw [← hcode, ← hcode', htext]
    rw [← heq] at hname'
    have hmem (e : Text × NameableTool) (he : e ∈ entries) : e.2 ∈ scope := by
      rw [← hsnd]
      exact mem_map_of_mem he
    exact Prod.ext htext (tool_of_id hids (hmem e he) (hmem e' he') (h.distinct hname hname'))
  refine ⟨Assoc.putAll [] entries, by rw [byCodeName, hmap]; rfl, fun tool htool name hname => ?_⟩
  obtain ⟨e, he, rfl⟩ : ∃ e ∈ entries, e.2 = tool := by
    rw [← hsnd] at htool
    exact mem_map.mp htool
  obtain ⟨name', hname', hcode⟩ := hentries e he
  obtain rfl := Option.some.inj (hname.symm.trans hname')
  have hlookup : entries.lookup name.text = some e.2 := by
    rw [← hcode]
    exact Assoc.lookup_of_mem hkeys he
  rw [resolve, Assoc.lookup_putAll entries hkeys, hlookup]
  rfl

end Resolving

/-! ## Inherited names -/

section Inherited

theorem alnum_of_words {text piece : Text} (h : piece ∈ words text) :
    ∀ c ∈ piece, isAlnum c = true := by
  intro c hc
  have hpiece := exists_line_infix_iff.mp ⟨piece, (mem_filter.mp h).1, infix_rfl⟩
  simpa using hpiece.2 c hc

theorem alnum_cases {c : CodeUnit} (h : isAlnum c = true) :
    isAlnum (foldCase c) = true ∧ isAlnum (upperCase c) = true := by
  have hc := of_plainUnit (p := fun c => !isAlnum c || (isAlnum (foldCase c) && isAlnum (upperCase c)))
    (by decide) (plainUnit_of_alnum h)
  simpa [h] using hc

theorem camel_alnum (text : Text) : ∀ c ∈ camel text, isAlnum c = true := by
  have hpiece (f : CodeUnit → CodeUnit) (hf : ∀ c, isAlnum c = true → isAlnum (f c) = true)
      (p : Text) (hp : ∀ c ∈ p, isAlnum c = true) :
      ∀ c ∈ (p.take 1).map f ++ p.drop 1, isAlnum c = true := by
    intro c hc
    rcases mem_append.mp hc with hc | hc
    · obtain ⟨d, hd, rfl⟩ := mem_map.mp hc
      exact hf d (hp d (mem_of_mem_take hd))
    · exact hp c (mem_of_mem_drop hc)
  have hwords : ∀ p ∈ words (spaced text), ∀ c ∈ p, isAlnum c = true := fun p hp => alnum_of_words hp
  rw [camel]
  split
  · exact fun c hc => absurd hc not_mem_nil
  · rename_i first rest hlist
    rw [hlist] at hwords
    intro c hc
    rcases mem_append.mp hc with hc | hc
    · exact hpiece foldCase (fun c h => (alnum_cases h).1) first (hwords first mem_cons_self) c hc
    · obtain ⟨p, hp, hc⟩ := mem_flatMap.mp hc
      exact hpiece upperCase (fun c h => (alnum_cases h).2) p
        (hwords p (mem_cons_of_mem first hp)) c hc

theorem inherited_fixed : ∀ name ∈ inheritedNames, jsIdentifier name (ascii "custom") = name :=
  Js.forall_mem_of_all (by decide +kernel)

theorem inherited_short : ∀ name ∈ inheritedNames, name.length < 125 :=
  Js.forall_mem_of_all (by decide)

theorem inherited_underscore : ∀ name ∈ inheritedNames,
    name.head? = some 95 ∨ name.getLast? = some 95 →
      name.head? = some 95 ∧ (name.drop 1).head? = some 95 :=
  Js.forall_mem_of_all (by decide)

theorem reserved_head : ∀ word ∈ Security.UntrustedText.RESERVED_WORDS, ∃ c ∈ word.head?, c ≠ 95 := by
  have hall : ∀ word ∈ Security.UntrustedText.RESERVED_WORDS,
      word.head?.any (fun c => c ≠ 95) = true := Js.forall_mem_of_all (by decide +kernel)
  intro word hword
  obtain ⟨c, hc, hne⟩ := (Option.any_eq_true _ _).mp (hall word hword)
  exact ⟨c, hc, of_decide_eq_true hne⟩

theorem jsIdentifier_inherited {text : Text} (h : ∀ c ∈ text, isAlnum c = true) :
    jsIdentifier text (ascii "custom") ∈ inheritedNames ↔ text ∈ inheritedNames := by
  refine ⟨fun hmem => ?_, fun hmem => by rwa [inherited_fixed text hmem]⟩
  -- past the reserved words and the digits, what is inherited is what was kept
  obtain ⟨id, lead, hkept, hlead, hresult⟩ := jsIdentifier_cases text (ascii "custom")
  have hleading : lead ∈ inheritedNames := by
    rcases hresult with heq | ⟨heq, hword⟩
    · rwa [heq] at hmem
    · rw [heq] at hmem
      obtain ⟨c, hc, hne⟩ := reserved_head lead hword
      have hhead := (inherited_underscore _ hmem (.inr (List.getLast?_concat ..))).1
      rw [List.head?_append, hc, Option.some_or] at hhead
      exact absurd (Option.some.inj hhead) hne
  have hinherited : id ∈ inheritedNames := by
    rcases hlead with rfl | ⟨rfl, hdigit⟩
    · exact hleading
    · have hhead : id.head? = some 95 := (inherited_underscore _ hleading (.inl rfl)).2
      rw [hhead] at hdigit
      exact absurd hdigit (by decide)
  rw [hkept] at hinherited
  by_cases hlength : text.length ≤ 128
  · rw [(singleLine_alnum h).1 hlength,
      filter_eq_self.mpr fun c hc => (alnum_clean (h c hc)).2.2] at hinherited
    split at hinherited
    · exact absurd hinherited (by decide)
    · exact hinherited
  · have hlong : 125 ≤ ((singleLine text 128).filter isIdUnit).length := by
      have htake : (text.take 125).length = 125 := length_take_of_le (by omega)
      rw [(singleLine_alnum h).2 (by omega), filter_append,
        filter_eq_self.mpr fun c hc => (alnum_clean (h c (mem_of_mem_take hc))).2.2,
        length_append, htake]
      omega
    have hne : (singleLine text 128).filter isIdUnit ≠ [] := by
      intro hnil
      rw [hnil] at hlong
      cases hlong
    rw [if_neg hne] at hinherited
    have hless := inherited_short _ hinherited
    omega

theorem namespaceOf_inherited (tool : NameableTool) : namespaceOf tool ∈ inheritedNames ↔
    ∃ source, sourceOf tool = some source ∧ camel source ∈ inheritedNames := by
  have hcustom : ascii "custom" ∉ inheritedNames := by decide
  have hglobals : ∀ g ∈ CODE_GLOBALS, g ++ ascii "Api" ∉ inheritedNames ∧ g ∉ inheritedNames :=
    Js.forall_mem_of_all (by decide)
  rw [namespaceOf]
  cases hsource : sourceOf tool with
  | none => simp [hcustom]
  | some source =>
    have hexists : (∃ source', some source = some source' ∧ camel source' ∈ inheritedNames) ↔
        camel source ∈ inheritedNames :=
      ⟨fun ⟨source', heq, h⟩ => by rwa [Option.some.inj heq], fun h => ⟨source, rfl, h⟩⟩
    rw [hexists]
    dsimp only
    by_cases hempty : source = []
    · subst hempty
      have hnil : camel [] ∉ inheritedNames := by decide
      simp [hcustom, hnil]
    · rw [if_neg hempty, ← jsIdentifier_inherited (camel_alnum source)]
      by_cases hglobal : jsIdentifier (camel source) (ascii "custom") ∈ CODE_GLOBALS
      · rw [if_pos (contains_iff_mem.mpr hglobal)]
        exact ⟨fun h => absurd h (hglobals _ hglobal).1, fun h => absurd h (hglobals _ hglobal).2⟩
      · rw [if_neg fun hc => hglobal (contains_iff_mem.mp hc)]

end Inherited

/-! ## Tools by their code names -/

structure Identifies (scope : List NameableTool) (names : List (Text × CodeName)) : Prop where
  named : ∀ tool ∈ scope, (names.lookup tool.id).isSome = true
  distinct : ∀ tool ∈ scope, ∀ tool' ∈ scope, names.lookup tool.id = names.lookup tool'.id →
    tool = tool'
  stable : ∀ scope', scope.Perm scope' → codeNames scope' = some names
  noGlobal : ∀ e ∈ names, e.2.ns ∉ CODE_GLOBALS
  /-- Every namespace is listed once, with each of its functions once. -/
  lists : ∃ out, namespaces names = some out ∧ (Assoc.keys out).Nodup ∧ (listed out).Nodup ∧
    ∀ name, name ∈ listed out ↔ ∃ tool ∈ scope, names.lookup tool.id = some name
  resolves : ∃ codes, byCodeName names scope = some codes ∧ ∀ tool ∈ scope, ∀ name,
    names.lookup tool.id = some name → resolve codes scope name.text = some tool

/-- **Code names identify tools**, and the broker lists them, unless an API's name is in camel case
what every object has. -/
theorem code_names_iff {scope : List NameableTool} (hids : (scope.map (·.id)).Nodup) :
    (∃ names, codeNames scope = some names ∧ Identifies scope names) ↔
      ∀ tool ∈ scope, ∀ source, sourceOf tool = some source → camel source ∉ inheritedNames := by
  obtain ⟨s, sorted, hperm, hcode, h⟩ := codeNames_spec hids
  have hkeys : (Assoc.keys s.names).Nodup := by
    rw [Assoc.keys, h.ids]
    exact (hperm.map _).nodup_iff.mpr hids
  have hentry (e : Text × CodeName) (he : e ∈ s.names) :
      ∃ tool ∈ scope, s.names.lookup tool.id = some e.2 ∧ e.2.ns = namespaceOf tool := by
    have hid : e.1 ∈ sorted.map (·.id) := by
      rw [← h.ids]
      exact mem_map_of_mem he
    obtain ⟨tool, htool, heq⟩ := mem_map.mp hid
    obtain ⟨fn, hfn⟩ := h.named tool htool
    have hlookup := Assoc.lookup_of_mem hkeys he
    rw [← heq, hfn] at hlookup
    have hname := Option.some.inj hlookup
    exact ⟨tool, hperm.subset htool, by rw [hfn, hname], by rw [← hname]⟩
  have hsome (tool : NameableTool) (htool : tool ∈ scope) :
      ∃ fn, s.names.lookup tool.id = some ⟨namespaceOf tool, fn⟩ := h.named tool (hperm.symm.subset htool)
  constructor
  · rintro ⟨names, hnames, hidentifies⟩ tool htool source hsource hinherited
    obtain rfl := Option.some.inj (hcode.symm.trans hnames)
    obtain ⟨fn, hfn⟩ := hsome tool htool
    obtain ⟨out, hout, -⟩ := hidentifies.lists
    rcases namespaces_spec s.names with ⟨-, hnone⟩ | ⟨hown, -⟩
    · rw [hnone] at hout
      cases hout
    · exact hown _ (Assoc.mem_of_lookup hfn)
        ((namespaceOf_inherited tool).mpr ⟨source, hsource, hinherited⟩)
  · intro hnot
    refine ⟨s.names, hcode, ?_, ?_, ?_, ?_, ?_, ?_⟩
    · intro tool htool
      obtain ⟨fn, hfn⟩ := hsome tool htool
      rw [hfn]
      rfl
    · intro tool htool tool' htool' heq
      obtain ⟨fn, hfn⟩ := hsome tool htool
      rw [hfn] at heq
      exact tool_of_id hids htool htool' (h.distinct hfn heq.symm)
    · intro scope' hscope'
      rw [← codeNames_perm hids hscope', hcode]
    · intro e he
      obtain ⟨tool, -, -, hns⟩ := hentry e he
      rw [hns]
      exact namespaceOf_not_global tool
    · rcases namespaces_spec s.names with ⟨⟨e, he, hinherited⟩, -⟩ | ⟨-, out, hout, hnodup, hlisted⟩
      · obtain ⟨tool, htool, -, hns⟩ := hentry e he
        rw [hns] at hinherited
        obtain ⟨source, hsource, hcamel⟩ := (namespaceOf_inherited tool).mp hinherited
        exact absurd hcamel (hnot tool htool source hsource)
      · refine ⟨out, hout, hnodup, hlisted.nodup_iff.mpr h.unique, fun name => ?_⟩
        rw [hlisted.mem_iff]
        constructor
        · intro hmem
          obtain ⟨e, he, rfl⟩ := mem_map.mp hmem
          obtain ⟨tool, htool, hlookup, -⟩ := hentry e he
          exact ⟨tool, htool, hlookup⟩
        · rintro ⟨tool, -, hlookup⟩
          exact mem_map_of_mem (f := Prod.snd) (Assoc.mem_of_lookup hlookup)
    · exact resolve_spec h hperm hids

/-- Two operations of one name. -/
def petstore : List NameableTool :=
  [{ id := ascii "1", name := ascii "petstore_find_pets", apiName := some (ascii "Petstore") },
    { id := ascii "2", name := ascii "other", apiName := some (ascii "Petstore"),
      operationId := some (ascii "findPets") }]

theorem petstore_is_named : (petstore.map (·.id)).Nodup ∧
    ∃ names, codeNames petstore = some names ∧ Identifies petstore names := by
  have hids : (petstore.map (·.id)).Nodup := by decide
  have hsources : ∀ tool ∈ petstore, ∀ source, sourceOf tool = some source →
      camel source ∉ inheritedNames := by
    have hall : ∀ tool ∈ petstore, sourceOf tool = some (ascii "Petstore") :=
      Js.forall_mem_of_all (by decide)
    intro tool htool source hsource
    obtain rfl := Option.some.inj ((hall tool htool).symm.trans hsource)
    decide
  exact ⟨hids, (code_names_iff hids).mpr hsources⟩

/-- The broker throws for an API called `Constructor`. -/
theorem constructor_is_not_listed :
    codeNames [{ id := ascii "1", name := ascii "list", apiName := some (ascii "Constructor") }] =
      some [(ascii "1", ⟨ascii "constructor", ascii "list"⟩)] ∧
      namespaces [(ascii "1", ⟨ascii "constructor", ascii "list"⟩)] = none := by
  decide +kernel

end Almyty.CodeMode
